import Precall.Api.Archived
import Precall.Broker.Admission
import Precall.Lib.Shards
import Precall.Lib.Slices

namespace Precall.Api

open ByteLib TextLib DigestLib TableLib Durable Precall.Proto Precall.Store Precall.Broker

/-!
# Every client by itself

The whole server over one data root: any number of connections (`Broker::handle_conn`) and the
enricher, which goes round all client directories (`enrich_once`, `spawn_enricher` of
`precall-api/src/enrich.rs`).  They are processes that read and commit one write at a time, in any
order.

* `enrichOnce` — one round: `/health` is asked once, the directories are listed, and each client is
  enriched; the failure of one does not keep the others from their turn;
* `Starts`, `Running` — the processes of the server and what they run, given the visits that come
  and the rounds of the enricher;
* `Alone` — the runs that one client would have the server to itself: of the visits only those that
  are admitted for it, and rounds that find its directory only;
* `slices_handleConn`, `slices_enrichOnce` — a visit and a round, seen from one client;
* `dirs_of_named` — a client's directory is what the writes about it make of an empty one;
* `sideBySide_round` — what a round looks like from one client's directory: its own passes next to
  what its sessions ingest;
* `clients_apart` — the server is the product of its clients: about each of them a run leaves what a
  run leaves that it has to itself.
-/

/-! ### A round -/

/-- `EnrichStats::absorb` — the numbers of a client's pass are added to those of the round. -/
def EnrichStats.absorb (stats other : EnrichStats) : EnrichStats where
  textEmbeddings := stats.textEmbeddings + other.textEmbeddings
  imageEmbeddings := stats.imageEmbeddings + other.imageEmbeddings
  backfilled := stats.backfilled + other.backfilled
  imagesSkipped := stats.imagesSkipped + other.imagesSkipped
  imagesPending := stats.imagesPending + other.imagesPending
  textsPending := stats.textsPending + other.textsPending

/-- What the enricher is started with: the width of the vectors, and how it opens objects. -/
structure EnricherConfig where
  dim : Nat
  objects : ObjectStore

/-- The client of a directory is the directory's name. -/
def EnricherConfig.client (cfg : EnricherConfig) (id : Uuid) : EnrichConfig where
  client := id.text
  dim := cfg.dim
  objects := cfg.objects

/-- What the environment decides during a round: the answer of `spaces`, the order in which the data
    root is listed, and for each client what happens during its pass and after how many writes it
    fails, if it does. -/
structure EnrichRound where
  spaces : Option (String × String)
  listing : List Uuid
  env : Uuid → PassEnv
  fails : Uuid → Option Nat

/-- The environment of a client's pass; the spaces are those of the round. -/
def EnrichRound.passEnv (round : EnrichRound) (id : Uuid) : PassEnv :=
  { round.env id with spaces := round.spaces }

section
variable [TextTables] (cfg : EnricherConfig) (round : EnrichRound)

/-- One client's turn: the numbers of a pass that fails are lost, what it wrote up to there is
    not. -/
def enrichTurn (id : Uuid) (stats : EnrichStats) : Prog Root RootEvent EnrichStats := do
  let out ← inDir id ((enrichPaced (cfg.client id) batch retryBackoffTicks
    (round.passEnv id)).attempt (round.fails id))
  pure ((out.map stats.absorb).getD stats)

/-- `enrich_once` — the directories are collected before the first of them is entered, so a
    client that comes later waits for the next round. -/
def enrichOnce : Prog Root RootEvent EnrichStats := do
  let root ← Prog.get
  Prog.forEach (enrichTurn cfg round) (round.listing.filter fun id => (root.dirs id).isSome) {}

end

/-! ### The processes -/

/-- The processes of the server: any number of connections, and one enricher. -/
inductive Process where
  | connection (n : Nat)
  | enricher
  deriving DecidableEq, Repr

/-- A program whose value nobody reads, as a task that is left to itself. -/
def spawned {α : Type} (p : Prog Root RootEvent α) : Prog Root RootEvent Unit :=
  p >>= fun _ => pure ()

/-- A round that finds the directory of one client only; the service answers it as it would the
    whole round. -/
def EnrichRound.only (round : EnrichRound) (id : Uuid) : EnrichRound :=
  { round with listing := round.listing.filter fun id' => id' = id }

section
variable [TextTables] (sha256 : Bytes → Digest) (cfg : EnricherConfig) (came : Visit → Prop)
  (rounds : EnrichRound → Prop)

/-- What a process runs: a connection serves one of the visits that come, the enricher goes on one
    of its rounds. -/
def Starts : Process → Prog Root RootEvent Unit → Prop
  | .connection _, p => ∃ v : Visit, came v ∧ p = spawned (handleConn sha256 v)
  | .enricher, p => ∃ round : EnrichRound, rounds round ∧ p = spawned (enrichOnce cfg round)

/-- The states of the server: any number of visits at a time, any number after another, and each
    process breaking off anywhere. -/
abbrev Running (pool : Pool Process Root RootEvent Unit) : Prop :=
  Pool.Reach RootEvent.apply Root.new (Starts sha256 cfg came rounds) pool

/-- The states of a server that one client has to itself: of the visits only those whose hello is
    admitted for this client come, and the rounds are the same but for the other directories. -/
abbrev Alone (id : Uuid) (pool : Pool Process Root RootEvent Unit) : Prop :=
  Running sha256 cfg (fun v => came v ∧ Visit.Admits sha256 v id)
    (fun own => ∃ round, rounds round ∧ own = round.only id) pool

end

/-! ### Writes about one client -/

/-- The write to a client's directory, if it is one. -/
def toDir (id : Uuid) : RootEvent → Option Event
  | .client id' e => if id' = id then some e else none
  | _ => none

/-- The registration of a client: its name and the time. -/
def registration (id : Uuid) : RootEvent → Option (String × Int)
  | .register id' hostname now => if id' = id then some (hostname, now) else none
  | _ => none

/-- The log of one client's directory: the writes that went into it, in their order. -/
def ownLog (id : Uuid) (log : List RootEvent) : List Event := log.filterMap (toDir id)

/-- The row that registrations leave: the last name, the first and the last time; none if there
    was no registration. -/
def registryRow (registrations : List (String × Int)) : Option ClientRow :=
  match registrations.head?, registrations.getLast? with
  | some first, some last => some ⟨last.1, first.2, last.2⟩
  | _, _ => none

/-- The directory a write goes into. -/
def intoDir : RootEvent → Option Uuid
  | .client id _ => some id
  | _ => none

/-- The directory a write creates. -/
def makesDir : RootEvent → Option Uuid
  | .createDir id => some id
  | _ => none

/-- The client's directory is there. -/
def HasDir (root : Root) (id : Uuid) : Prop := (root.dirs id).isSome = true

/-- The writes of a connection: into directories only those of the ingesting process, each into
    that of the client it names. -/
def Arrives : RootEvent → Prop
  | .client id e => e.ingested id.text = true
  | _ => True

section
variable [TextTables]

/-- No write takes a client's directory away. -/
theorem hasDir_apply (w : RootEvent) (root : Root) (id : Uuid) (h : HasDir root id) :
    HasDir (w.apply root) id := by
  cases w with
  | register id' hostname now => exact h
  | createDir id' =>
    show (Function.update root.dirs id' _ id).isSome = true
    by_cases heq : id = id'
    · subst heq
      rw [Function.update_self]
      rfl
    · rw [Function.update_of_ne heq]
      exact h
  | client id' e =>
    show (Function.update root.dirs id' _ id).isSome = true
    by_cases heq : id = id'
    · subst heq
      rw [Function.update_self, Option.isSome_map]
      exact h
    · rw [Function.update_of_ne heq]
      exact h

/-- A write that makes a directory leaves one. -/
theorem hasDir_made (w : RootEvent) (root : Root) (id : Uuid) (h : makesDir w = some id) :
    HasDir (w.apply root) id := by
  cases w with
  | createDir id' =>
    obtain rfl : id' = id := Option.some.inj h
    show (Function.update root.dirs id' _ id').isSome = true
    rw [Function.update_self]
    rfl
  | client id' e => cases h
  | register id' hostname now => cases h

/-- **A directory is what its own log makes of it**, if every write finds its directory. -/
theorem dirs_of_named {log : List RootEvent}
    (h : Guarded RootEvent.apply (Named intoDir HasDir) Root.new log) (id : Uuid) :
    ((replay RootEvent.apply Root.new log).dirs id = none ∧ ownLog id log = []) ∨
      (replay RootEvent.apply Root.new log).dirs id = some (ClientDir.after (ownLog id log)) := by
  induction h with
  | nil => exact Or.inl ⟨rfl, rfl⟩
  | @concat log w h hw ih =>
    rw [replay_concat]
    generalize hroot : replay RootEvent.apply Root.new log = root at ih hw
    have hother : toDir id w = none → ownLog id (log ++ [w]) = ownLog id log := by
      intro hnone
      simp [ownLog, hnone]
    cases w with
    | register id' hostname now =>
      rw [hother rfl]
      exact ih
    | createDir id' =>
      rw [hother rfl]
      by_cases heq : id = id'
      · subst heq
        refine Or.inr ?_
        simp only [RootEvent.apply, Function.update_self]
        -- the directory is new, or it stays
        rcases ih with ⟨hnone, hempty⟩ | hsome
        · rw [hnone, hempty]
          rfl
        · rw [hsome]
          rfl
      · simp only [RootEvent.apply, Function.update_of_ne heq]
        exact ih
    | client id' e =>
      by_cases heq : id' = id
      · subst heq
        have hlog : ownLog id' (log ++ [.client id' e]) = ownLog id' log ++ [e] := by
          simp [ownLog, toDir]
        simp only [RootEvent.apply, Function.update_self]
        rcases ih with ⟨hnone, -⟩ | hsome
        · have hdir := hw id' rfl
          rw [HasDir, hnone] at hdir
          cases hdir
        · rw [hsome, hlog, ClientDir.after_concat]
          exact Or.inr rfl
      · rw [hother (if_neg heq)]
        simp only [RootEvent.apply, Function.update_of_ne (Ne.symm heq)]
        exact ih

omit [TextTables] in
/-- The ids of two clients are told apart by their texts. -/
theorem eq_of_text_eq {id id' : Uuid} (h : id.text = id'.text) : id = id' := by
  have hparsed := parseForms_text id
  rw [h, parseForms_text id'] at hparsed
  exact (Option.some.inj hparsed).symm

/-- The registry has a row for each client that was registered, and it is the one that the
    client's own registrations leave. -/
theorem registry_row (log : List RootEvent) (id : Uuid) :
    (replay RootEvent.apply Root.new log).serverDb.client.lookup id.text
      = registryRow (log.filterMap (registration id)) := by
  induction log using List.reverseRecOn with
  | nil => rfl
  | append_singleton log w ih =>
    have hother : registration id w = none →
        (log ++ [w]).filterMap (registration id) = log.filterMap (registration id) := by
      intro hnone
      simp [hnone]
    rw [replay_concat]
    cases w with
    | createDir id' =>
      rw [hother rfl]
      exact ih
    | client id' e =>
      rw [hother rfl]
      exact ih
    | register id' hostname now =>
      simp only [RootEvent.apply, Ukg.touchClient]
      by_cases heq : id' = id
      · subst heq
        have hlast : (log ++ [RootEvent.register id' hostname now]).filterMap (registration id')
            = log.filterMap (registration id') ++ [(hostname, now)] := by
          simp [registration]
        rw [AList.lookup_insert, ih, hlast]
        cases hregs : log.filterMap (registration id') with
        | nil => rfl
        | cons first rest => simp [registryRow, List.getLast?_cons]
      · rw [hother (if_neg heq), AList.lookup_insert_ne fun htext => heq (eq_of_text_eq htext).symm]
        exact ih

/-! ### Connections -/

/-- A session ingests for its own client, whatever it reads. -/
theorem dispatch_only (json : JsonReader) (cfg : SessionConfig) (a : Arrival) (st : SessionState) :
    (dispatch json cfg a st).Only fun e => e.ingested cfg.clientId.text = true := by
  have hstore : ∀ (nonce : Bytes) (capture : WindowCaptureRecord) (st : SessionState),
      (storeCapture cfg nonce capture st).Only fun e => e.ingested cfg.clientId.text = true := by
    intro nonce capture st
    unfold storeCapture storeFrame
    refine Prog.only_bind ?_ fun _ => Prog.only_bind (by simp) fun _ =>
      Prog.only_bind (by simp [Event.ingested]) fun _ => trivial
    cases st.pending.head? with
    | none => trivial
    | some f => simp [putFrame, Event.ingested]
  unfold dispatch
  split
  · split <;> trivial
  · split
    · unfold handleMeta
      split
      · trivial
      · exact Prog.only_forEach (fun capture st => hstore _ _ st) _ _
    · trivial
  · refine Prog.only_bind ?_ fun _ => trivial
    unfold handleAudio
    split
    · trivial
    · trivial
    · simp [Event.ingested]
  · trivial
  · trivial

omit [TextTables] in
/-- Opening a store of a session is a write for its client. -/
theorem openIndex_only (cfg : SessionConfig) (leg : Leg) :
    (Broker.openIndex cfg leg).Only fun e => e.ingested cfg.clientId.text = true := by
  refine Prog.only_bind (by simp) fun dir => ?_
  split
  · simp [Event.ingested]
  · trivial

/-- **A connection** ingests, into the directory of one client, and registers that client. -/
theorem handleConn_arrives (sha256 : Bytes → Digest) (v : Visit) :
    (handleConn sha256 v).Only Arrives := by
  rcases handleConn_cases sha256 v with ⟨hello, principal, -, -, hserve⟩ | ⟨a, -, -, hpure⟩
  · rw [hserve]
    have hdir : ∀ {α : Type} {p : Ingester α},
        (p.Only fun e => e.ingested (v.sessionConfig hello).clientId.text = true) →
          (inDir hello.clientId p).Only Arrives := by
      intro α p hp
      refine Prog.only_zoom_of _ (fun e he => ?_) hp
      exact he
    unfold serveClient registerClient
    refine Prog.only_bind ⟨trivial, trivial⟩ fun _ => Prog.only_bind (hdir ?_) fun _ =>
      Prog.only_bind ?_ fun _ => Prog.only_bind (hdir ?_) fun _ => trivial
    · refine Prog.only_bind (openIndex_only _ _) fun _ => Prog.only_bind (openIndex_only _ _) ?_
      exact fun _ => ⟨rfl, trivial⟩
    · split
      · exact ⟨trivial, trivial⟩
      · trivial
    · exact Prog.only_forEach (fun a st => dispatch_only _ _ a st) _ _
  · rw [hpure]
    trivial

/-- It creates the directory before it writes into it. -/
theorem names_handleConn (sha256 : Bytes → Digest) (v : Visit) {known : Uuid → Prop} :
    (handleConn sha256 v).Names intoDir makesDir HasDir known := by
  rcases handleConn_cases sha256 v with ⟨hello, principal, -, -, hserve⟩ | ⟨a, -, -, hpure⟩
  · rw [hserve]
    have hrest := (serveClient_only v hello principal).2
    refine Prog.names_commit_bind (fun x hx => by cases hx) (Prog.names_of_only ?_)
    refine Prog.only_mono hrest fun w hw x hx => Or.inr ?_
    cases w with
    | client id e =>
      obtain rfl : id = x := Option.some.inj hx
      exact congrArg some hw.symm
    | createDir id => cases hx
    | register id hostname now => cases hx
  · rw [hpure]
    trivial

/-! ### Rounds -/

section
variable (cfg : EnricherConfig) (round : EnrichRound)

/-- A turn writes into the client's directory and nowhere else. -/
theorem enrichTurn_only (id : Uuid) (stats : EnrichStats) :
    (enrichTurn cfg round id stats).Only fun w => ∃ e, w = .client id e :=
  Prog.only_bind (Prog.only_zoom _ (fun e => ⟨e, rfl⟩) _) fun _ => trivial

/-- A round enters only directories it has found; none of them is taken away while it works. -/
theorem names_enrichOnce {known : Uuid → Prop} :
    (enrichOnce cfg round).Names intoDir makesDir HasDir known := by
  refine Prog.names_get_bind fun root => Prog.names_forEach (fun id hid stats => ?_) _
  refine Prog.names_of_only (Prog.only_mono (enrichTurn_only cfg round id stats) ?_)
  rintro _ ⟨e, rfl⟩ x hx
  obtain rfl : id = x := Option.some.inj hx
  exact Or.inr (List.mem_filter.mp hid).2

/-- More writes of the ingesting process leave a log of passes and sessions one. -/
theorem SideBySide.arrivals {cfg : EnrichConfig} {log ws : List Event} (h : SideBySide cfg log)
    (hws : ∀ e ∈ ws, e.ingested cfg.client = true) : SideBySide cfg (log ++ ws) := by
  induction ws using List.reverseRecOn with
  | nil => rwa [List.append_nil]
  | append_singleton ws e ih =>
    rw [← List.append_assoc]
    exact .arrive (ih fun e he => hws e (List.mem_append_left _ he))
      (hws e (List.mem_append_right _ (List.mem_singleton_self e)))

omit [TextTables] in
/-- What a connection writes into a directory is of the ingesting process. -/
theorem ingested_of_arrives {id : Uuid} (w : RootEvent) (e : Event) (hw : Arrives w)
    (he : toDir id w = some e) : e.ingested id.text = true := by
  cases w with
  | createDir id' => cases he
  | register id' hostname now => cases he
  | client id' e' =>
    by_cases heq : id' = id
    · subst heq
      rw [toDir, if_pos rfl] at he
      obtain rfl := Option.some.inj he
      exact hw
    · rw [toDir, if_neg heq] at he
      cases he

/-- A program of the enricher, next to the connections, which may write between any two of its
    steps. -/
abbrev AmongAll {α : Type} (p : Prog Root RootEvent α) (log log' : List RootEvent)
    (r : Option α) : Prop :=
  Exec RootEvent.apply Arrives Root.new p log log' r

variable {cfg round} {id : Uuid} {log log' : List RootEvent}

/-- What happens aside from a client: a program that does not write into its directory leaves its
    log to the sessions. -/
theorem SideBySide.aside {α : Type} {p : Prog Root RootEvent α} {r : Option α}
    (h : SideBySide (cfg.client id) (ownLog id log)) (hexec : AmongAll p log log' r)
    (honly : p.Only fun w => toDir id w = none) :
    SideBySide (cfg.client id) (ownLog id log') := by
  obtain ⟨ws, hws, hingested⟩ := hexec.part_aside ingested_of_arrives honly
  rw [ownLog, hws]
  exact h.arrivals hingested

/-- **One turn.**  The client's own is a pass next to its own connections, another's is nothing. -/
theorem SideBySide.turn {id' : Uuid} {stats : EnrichStats} {r : Option EnrichStats}
    (h : SideBySide (cfg.client id) (ownLog id log))
    (hlog : Guarded RootEvent.apply (Named intoDir HasDir) Root.new log')
    (hexec : AmongAll (enrichTurn cfg round id' stats) log log' r) :
    SideBySide (cfg.client id) (ownLog id log') := by
  by_cases heq : id' = id
  · subst heq
    -- the directory is what its own log makes of it, at every moment
    have hview : ∀ {mid}, mid <+: log' → ∀ l, l <+: mid →
        ((replay RootEvent.apply Root.new l).dirs id').getD ClientDir.new
          = replay Event.apply ClientDir.new (l.filterMap (toDir id')) := by
      rintro mid hmid l hl
      obtain ⟨rest, rfl⟩ := hl.trans hmid
      rcases dirs_of_named hlog.of_append id' with ⟨hnone, hempty⟩ | hsome
      · rw [hnone, show l.filterMap (toDir id') = [] from hempty]
        rfl
      · rw [hsome]
        rfl
    have hpass : ∀ {mid r}, mid <+: log' → AmongAll (inDir id' ((enrichPaced (cfg.client id') batch
        retryBackoffTicks (round.passEnv id')).attempt (round.fails id'))) log mid r →
        SideBySide (cfg.client id') (ownLog id' mid) := by
      intro mid r hmid hin
      obtain ⟨r', hown⟩ := (Exec.of_zoom (fun e => if_pos rfl) ingested_of_arrives hin
        (hview hmid)).of_attempt
      exact .pass h (round.passEnv id') _ _ _ hown
    rcases hexec.of_bind with ⟨-, hin⟩ | ⟨out, mid, hin, hret⟩
    · exact hpass (List.prefix_refl _) hin
    · exact (hpass hret.extends_log hin).aside hret trivial
  · refine h.aside hexec (Prog.only_mono (enrichTurn_only cfg round id' stats) ?_)
    rintro _ ⟨e, rfl⟩
    exact if_neg heq

/-- **A round**, by induction on the directories it has found: at most one turn is the client's
    own. -/
theorem sideBySide_round {r : Option Unit} (h : SideBySide (cfg.client id) (ownLog id log))
    (hlog : Guarded RootEvent.apply (Named intoDir HasDir) Root.new log')
    (hexec : AmongAll (spawned (enrichOnce cfg round)) log log' r) :
    SideBySide (cfg.client id) (ownLog id log') := by
  have hloop : ∀ (dirs : List Uuid) (stats : EnrichStats) {log log' : List RootEvent}
      {r : Option EnrichStats}, SideBySide (cfg.client id) (ownLog id log) →
      Guarded RootEvent.apply (Named intoDir HasDir) Root.new log' →
      AmongAll (Prog.forEach (enrichTurn cfg round) dirs stats) log log' r →
      SideBySide (cfg.client id) (ownLog id log') := by
    intro dirs
    induction dirs with
    | nil => exact fun stats _ _ _ h _ hexec => h.aside hexec trivial
    | cons id' dirs ih =>
      intro stats log log' r h hlog hexec
      rcases hexec.of_bind with ⟨-, hturn⟩ | ⟨stats', mid, hturn, hrest⟩
      · exact h.turn hlog hturn
      · obtain ⟨later, rfl⟩ := hrest.extends_log
        exact ih stats' (h.turn hlog.of_append hturn) hlog hrest
  have honce : ∀ {log' r}, Guarded RootEvent.apply (Named intoDir HasDir) Root.new log' →
      AmongAll (enrichOnce cfg round) log log' r → SideBySide (cfg.client id) (ownLog id log') := by
    intro log' r hlog hexec
    rcases hexec.of_bind with ⟨-, hget⟩ | ⟨root, mid, hget, hturns⟩
    · exact h.aside hget fun _ => trivial
    · exact hloop _ _ (h.aside hget fun _ => trivial) hlog hturns
  rcases hexec.of_bind with ⟨-, hround⟩ | ⟨stats, mid, hround, hret⟩
  · exact honce hlog hround
  · obtain ⟨later, rfl⟩ := hret.extends_log
    exact (honce hlog.of_append hround).aside hret trivial

end

/-! ### Seen from one client -/

/-- A write is about the client. -/
abbrev AboutClient (id : Uuid) (w : RootEvent) : Prop := w.about = id

/-- Two data roots have the same directory and the same row in the registry for the client; other
    clients may differ. -/
abbrev SameTraces (id : Uuid) (root root' : Root) : Prop := root.traces id = root'.traces id

omit [TextTables] in
/-- A program on the client's directory reads and writes nothing else, so roots that agree on the
    client are alike to it. -/
theorem owned_inDir {α : Type} (id : Uuid) (p : Ingester α) :
    (inDir id p).Owned (AboutClient id) (SameTraces id) := by
  have hwrite : ∀ e, AboutClient id (.client id e) := fun _ => rfl
  refine Prog.owned_zoom hwrite (fun root root' h => ?_) p
  have hdir : root.dirs id = root'.dirs id := congrArg Prod.fst h
  rw [hdir]

/-- What serves a client is about that client. -/
theorem owned_serveClient (v : Visit) (hello : ClientHello) (principal : String) :
    (serveClient v hello principal).Owned (AboutClient hello.clientId)
      (SameTraces hello.clientId) := by
  unfold serveClient registerClient
  refine Prog.owned_bind ((Prog.owned_commit _).mpr rfl) fun _ => ?_
  refine Prog.owned_bind (owned_inDir _ _) fun _ => Prog.owned_bind ?_ fun _ => ?_
  · split
    · exact (Prog.owned_commit _).mpr rfl
    · trivial
  · exact Prog.owned_bind (owned_inDir _ _) fun _ => trivial

/-- **A visit, seen from a client**: nothing, or it was admitted for the client and is all about
    it. -/
theorem slices_handleConn (sha256 : Bytes → Digest) (v : Visit) (id : Uuid) :
    ((spawned (handleConn sha256 v)).Only fun w => ¬ AboutClient id w) ∨
      (Visit.Admits sha256 v id ∧ Slices (AboutClient id) (SameTraces id)
        (spawned (handleConn sha256 v)) (spawned (handleConn sha256 v))) := by
  rcases handleConn_cases sha256 v with ⟨hello, principal, -, hadmits, hserve⟩ | ⟨a, -, -, hpure⟩
  · rw [hserve]
    by_cases heq : hello.clientId = id
    · subst heq
      refine Or.inr ⟨hadmits, ?_⟩
      exact .bind_owned (owned_serveClient v hello principal) fun _ => .aside trivial
    · refine Or.inl (Prog.only_bind ?_ fun _ => trivial)
      refine Prog.only_mono (serveClient_only v hello principal) fun w hw habout => ?_
      exact heq (hw.symm.trans habout)
  · rw [hpure]
    exact Or.inl trivial

section
variable (cfg : EnricherConfig) (round : EnrichRound) (id : Uuid)

/-- The turns of a round, seen from a client: its own.  The numbers they add up differ, but nobody
    writes them. -/
theorem slices_turns (dirs : List Uuid) (stats stats' : EnrichStats) :
    Slices (AboutClient id) (SameTraces id) (Prog.forEach (enrichTurn cfg round) dirs stats)
      (Prog.forEach (enrichTurn cfg (round.only id)) (dirs.filter fun id' => id' = id) stats') := by
  induction dirs generalizing stats stats' with
  | nil => exact .aside trivial
  | cons id' dirs ih =>
    by_cases heq : id' = id
    · rw [List.filter_cons_of_pos (by simpa using heq), heq]
      unfold Prog.forEach enrichTurn
      rw [Prog.bind_assoc, Prog.bind_assoc]
      exact .bind_owned (owned_inDir _ _) fun out => ih _ _
    · rw [List.filter_cons_of_neg (by simpa using heq)]
      refine .bind_aside (Prog.only_mono (enrichTurn_only cfg round id' stats) ?_) fun out => ih _ _
      rintro _ ⟨e, rfl⟩
      exact heq

/-- **A round, seen from a client**, is a round that finds its directory only: the other turns
    neither read nor write what is the client's. -/
theorem slices_enrichOnce : Slices (AboutClient id) (SameTraces id)
    (spawned (enrichOnce cfg round)) (spawned (enrichOnce cfg (round.only id))) := by
  refine .bind_last (.read fun root root' hagree => ?_) fun _ => trivial
  have hdir : root.dirs id = root'.dirs id := congrArg Prod.fst hagree
  have hfound : (round.listing.filter fun id' => (root.dirs id').isSome).filter
        (fun id' => id' = id)
      = (round.only id).listing.filter fun id' => (root'.dirs id').isSome := by
    rw [EnrichRound.only, List.filter_filter, List.filter_filter]
    refine List.filter_congr fun id' _ => ?_
    by_cases heq : id' = id
    · rw [heq, hdir, Bool.and_comm]
    · rw [decide_eq_false heq, Bool.false_and, Bool.and_false]
  show Slices _ _ (Prog.forEach (enrichTurn cfg round) _ {})
    (Prog.forEach (enrichTurn cfg (round.only id)) _ {})
  rw [← hfound]
  exact slices_turns cfg round id _ _ _

end

/-! ### Registrations -/

/-- A registration is that of the visit that commits it: its hostname and its time, and its hello
    was admitted for this client. -/
def Registers (sha256 : Bytes → Digest) (came : Visit → Prop) (id : Uuid) (w : RootEvent) : Prop :=
  ∀ r, registration id w = some r → ∃ v hello, came v ∧ Visit.Admits sha256 v id ∧
    v.hello = some hello ∧ r = (hello.hostname, asI64 v.now)

/-- A connection registers the client it has admitted and no other, under the hostname of the
    hello and at the time of the visit. -/
theorem handleConn_registers {sha256 : Bytes → Digest} {came : Visit → Prop} {v : Visit}
    (hv : came v) (id : Uuid) : (handleConn sha256 v).Only (Registers sha256 came id) := by
  rcases handleConn_cases sha256 v with
    ⟨hello, principal, hhello, hadmits, hserve⟩ | ⟨a, -, -, hpure⟩
  · rw [hserve]
    have hdir : ∀ {α : Type} (p : Ingester α),
        (inDir hello.clientId p).Only (Registers sha256 came id) := fun p =>
      Prog.only_zoom (P := Registers sha256 came id) _ (fun _ _ h => by cases h) p
    have hcreate : Registers sha256 came id (.createDir hello.clientId) := fun _ h => by cases h
    unfold serveClient registerClient
    refine Prog.only_bind ⟨hcreate, trivial⟩ fun _ => Prog.only_bind (hdir _) fun _ =>
      Prog.only_bind ?_ fun _ => Prog.only_bind (hdir _) fun _ => trivial
    split
    · refine ⟨fun r hr => ?_, trivial⟩
      by_cases heq : hello.clientId = id
      · subst heq
        rw [registration, if_pos rfl] at hr
        exact ⟨v, hello, hv, hadmits, hhello, (Option.some.inj hr).symm⟩
      · rw [registration, if_neg heq] at hr
        cases hr
    · trivial
  · rw [hpure]
    trivial

/-- The enricher registers nobody. -/
theorem enrichOnce_registers {sha256 : Bytes → Digest} {came : Visit → Prop} (cfg : EnricherConfig)
    (round : EnrichRound) (id : Uuid) :
    (enrichOnce cfg round).Only (Registers sha256 came id) := by
  refine fun root => Prog.only_forEach (fun id' stats => ?_) _ _
  refine Prog.only_mono (enrichTurn_only cfg round id' stats) ?_
  rintro _ ⟨e, rfl⟩ r hr
  cases hr

/-! ### Runs of the server -/

section
variable {sha256 : Bytes → Digest} {cfg : EnricherConfig} {came : Visit → Prop}
  {rounds : EnrichRound → Prop} {pool : Pool Process Root RootEvent Unit}

/-- Every write of the server finds its directory, in whatever order the processes take turns. -/
theorem Running.named (h : Running sha256 cfg came rounds pool) :
    Guarded RootEvent.apply (Named intoDir HasDir) Root.new pool.log := by
  refine Pool.named hasDir_apply hasDir_made (fun i p hp => ?_) h
  cases i with
  | connection n =>
    obtain ⟨v, -, rfl⟩ := hp
    exact Prog.names_bind (names_handleConn sha256 v) fun _ => trivial
  | enricher =>
    obtain ⟨round, -, rfl⟩ := hp
    exact Prog.names_bind (names_enrichOnce cfg round) fun _ => trivial

/-- **One client by itself.**  What a run writes about a client, a server writes that the client has
    to itself, and it leaves the same directory and the same row in the registry. -/
theorem Running.alone (h : Running sha256 cfg came rounds pool) (id : Uuid) :
    ∃ own, Alone sha256 cfg came rounds id own ∧ own.log = pool.log.filter (AboutClient id) ∧
      (replay RootEvent.apply Root.new pool.log).traces id
        = (replay RootEvent.apply Root.new own.log).traces id := by
  have hsliced : ∃ own, Alone sha256 cfg came rounds id own ∧
      Pool.SlicedBy (AboutClient id) (SameTraces id) RootEvent.apply Root.new pool own := by
    refine Pool.sliced rfl ?_ (fun w root root' hother hagree => ?_) ?_ h
    · rintro w root root' rfl hagree
      exact traces_apply_congr hagree
    · exact (traces_apply hother root).trans hagree
    · rintro (n | _) p hp
      · obtain ⟨v, hv, rfl⟩ := hp
        refine (slices_handleConn sha256 v id).imp_right ?_
        rintro ⟨hadmits, hslices⟩
        exact ⟨_, ⟨v, ⟨hv, hadmits⟩, rfl⟩, hslices⟩
      · obtain ⟨round, hround, rfl⟩ := hp
        exact Or.inr ⟨_, ⟨round.only id, ⟨round, hround, rfl⟩, rfl⟩,
          slices_enrichOnce cfg round id⟩
  obtain ⟨own, hown, hlog⟩ := hsliced
  exact ⟨own, hown, hlog.log, hlog.stores⟩

/-- A client's directory is what its passes leave next to what its sessions ingest. -/
theorem Running.sideBySide (h : Running sha256 cfg came rounds pool) (id : Uuid) :
    SideBySide (cfg.client id) (ownLog id pool.log) := by
  have hothers : ∀ (i : Process) p, i ≠ .enricher → Starts sha256 cfg came rounds i p →
      p.Only Arrives := by
    rintro (n | _) p hne hp
    · obtain ⟨v, -, rfl⟩ := hp
      exact Prog.only_bind (handleConn_arrives sha256 v) fun _ => trivial
    · exact absurd rfl hne
  refine Pool.single (R := fun log =>
    Guarded RootEvent.apply (Named intoDir HasDir) Root.new log →
      SideBySide (cfg.client id) (ownLog id log)) _ (fun _ => .nil) ?_ ?_ hothers h h.named
  · intro log w hR hw hlog
    have hmid := hR hlog.of_append
    cases htoDir : toDir id w with
    | none => simpa [ownLog, htoDir] using hmid
    | some e =>
      have harrive := SideBySide.arrive hmid (ingested_of_arrives w e hw htoDir)
      simpa [ownLog, htoDir] using harrive
  · rintro log p log' r hR ⟨round, -, rfl⟩ hexec hlog
    obtain ⟨later, rfl⟩ := hexec.extends_log
    exact sideBySide_round (hR hlog.of_append) hlog hexec

/-- Whoever is registered has come. -/
theorem Running.registers (h : Running sha256 cfg came rounds pool) (id : Uuid) :
    ∀ w ∈ pool.log, Registers sha256 came id w := by
  refine Pool.only_log (fun i p hp => ?_) h
  cases i with
  | connection n =>
    obtain ⟨v, hv, rfl⟩ := hp
    exact Prog.only_bind (handleConn_registers hv id) fun _ => trivial
  | enricher =>
    obtain ⟨round, -, rfl⟩ := hp
    exact Prog.only_bind (enrichOnce_registers cfg round id) fun _ => trivial

/-- What a run of the server leaves of one client, whoever else was served at the same time. -/
structure Apart (sha256 : Bytes → Digest) (cfg : EnricherConfig) (came : Visit → Prop)
    (rounds : EnrichRound → Prop) (id : Uuid) (log : List RootEvent) : Prop where
  /-- The writes about the client are those of a server that it has to itself, and so are its
      directory and its row in the registry. -/
  alone : ∃ own, Alone sha256 cfg came rounds id own ∧ own.log = log.filter (AboutClient id) ∧
    (replay RootEvent.apply Root.new log).traces id
      = (replay RootEvent.apply Root.new own.log).traces id
  /-- In its directory its passes run next to what its sessions ingest. -/
  passes : SideBySide (cfg.client id) (ownLog id log)
  /-- The directory is what its own log makes of an empty one; there is none only if nothing was
      ever written into it. -/
  directory : ((replay RootEvent.apply Root.new log).dirs id = none ∧ ownLog id log = []) ∨
    (replay RootEvent.apply Root.new log).dirs id = some (ClientDir.after (ownLog id log))
  /-- Its database holds the archive of its own log. -/
  archive : ∀ dir, (replay RootEvent.apply Root.new log).dirs id = some dir →
    Holds dir.ukg (archiveOf (ownLog id log))
  /-- Its row in the registry has the last name and the first and last time of its registrations. -/
  registry : (replay RootEvent.apply Root.new log).serverDb.client.lookup id.text
    = registryRow (log.filterMap (registration id))
  /-- Each registration has the hostname and the time of a visit that came and was admitted for
      it. -/
  visits : ∀ r ∈ log.filterMap (registration id), ∃ v hello, came v ∧ Visit.Admits sha256 v id ∧
    v.hello = some hello ∧ r = (hello.hostname, asI64 v.now)

/-- **The server is the product of its clients.**  Whoever comes, whatever rounds the enricher goes
    on, and wherever they break off: about each client a run leaves exactly what the server leaves
    when only the visits admitted for this client come and the rounds find its directory alone. -/
theorem clients_apart (h : Running sha256 cfg came rounds pool) (id : Uuid) :
    Apart sha256 cfg came rounds id pool.log := by
  have hdirs := dirs_of_named h.named id
  refine ⟨h.alone id, h.sideBySide id, hdirs, fun dir hdir => ?_, registry_row pool.log id,
    fun r hr => ?_⟩
  · rcases hdirs with ⟨hnone, -⟩ | hsome
    · rw [hnone] at hdir
      cases hdir
    · obtain rfl := Option.some.inj (hsome.symm.trans hdir)
      exact holds_of_guarded (h.sideBySide id).guarded
  · obtain ⟨w, hw, hreg⟩ := List.mem_filterMap.mp hr
    exact h.registers id w hw r hreg

end

end

section

attribute [local instance] TextTables.ascii

/-- A second client, from the same host. -/
def otherId : Uuid := ⟨Vector.replicate 16 1⟩

/-- Its visit, at another time. -/
def otherVisit : Visit :=
  { strictVisit with
    hello := some { enrolledHello with clientId := otherId, hostname := "g" }
    now := 7 }

/-- The enricher finds both clients and has nothing to embed. -/
def smallRound : EnrichRound where
  spaces := some ("T", "A")
  listing := [otherId, smallId]
  env := fun _ => smallEnv 1000000000 none .retry .retry
  fails := fun _ => none

/-- An enricher for all directories, with vectors of one number. -/
def smallEnricher : EnricherConfig := { dim := 1, objects := smallConfig.objects }

/-- What two visits of the first client leave, one after the other. -/
def visitLog : List RootEvent :=
  ((spawned (handleConn digestOfAbc strictVisit)).run RootEvent.apply 10 Root.new []).log

/-- What a visit of another client adds to it. -/
def visitsLog : List RootEvent :=
  ((spawned (handleConn digestOfAbc otherVisit)).run RootEvent.apply 10
    (replay RootEvent.apply Root.new visitLog) visitLog).log

/-- And a round after them. -/
def roundLog : List RootEvent :=
  ((spawned (enrichOnce smallEnricher smallRound)).run RootEvent.apply 100
    (replay RootEvent.apply Root.new visitsLog) visitsLog).log

/-- Two visits and a round, of which the first client sees its own part. -/
theorem clients_apart_small :
    Apart digestOfAbc smallEnricher (fun v => v = strictVisit ∨ v = otherVisit) (· = smallRound)
      smallId roundLog ∧
    (ownLog smallId visitsLog).length < (ownLog smallId roundLog).length ∧
    (roundLog.filter (AboutClient smallId)).length < roundLog.length ∧
    registryRow (roundLog.filterMap (registration smallId)) = some ⟨"h", 0, 0⟩ ∧
    registryRow (roundLog.filterMap (registration otherId)) = some ⟨"g", 7, 7⟩ := by
  have hstart : Running digestOfAbc smallEnricher (fun v => v = strictVisit ∨ v = otherVisit)
      (· = smallRound) Pool.new := .refl
  obtain ⟨visited, hvisited, hlog⟩ :=
    Pool.reach_run (.connection 0) ⟨strictVisit, Or.inl rfl, rfl⟩ 10 hstart
  obtain ⟨both, hboth, hlog'⟩ :=
    Pool.reach_run (.connection 1) ⟨otherVisit, Or.inr rfl, rfl⟩ 10 hvisited
  obtain ⟨pool, hpool, hlog''⟩ := Pool.reach_run .enricher ⟨smallRound, rfl, rfl⟩ 100 hboth
  have hvisit : visited.log = visitLog := hlog
  have hvisits : both.log = visitsLog := by
    rw [hlog', hvisit]
    rfl
  have hround : pool.log = roundLog := by
    rw [hlog'', hvisits]
    rfl
  refine ⟨?_, by decide +kernel, by decide +kernel, by decide +kernel, by decide +kernel⟩
  rw [← hround]
  exact clients_apart hpool smallId

end

end Precall.Api
