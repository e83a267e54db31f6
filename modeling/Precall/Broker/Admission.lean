import Precall.Api.UuidForms
import Precall.Broker.Session
import Precall.Lib.Digest
import Precall.Lib.Runs
import Precall.Proto.Handshake

namespace Precall.Broker

open ByteLib TextLib DigestLib Durable Precall.Proto Precall.Store

/-!
# Who is admitted

The start of `Broker::handle_conn` (`precall-broker/src/ingest.rs`), with the configuration it is
run under (`main.rs`, `config.rs`) and the `Authenticator` (`auth.rs`), as a program over the
data root.  SHA-256 belongs to a crate outside the repository and is a parameter.

* `Authenticator.authenticate`; `authenticate_allow_iff` — whom it allows, whatever the tenancy
  flag says;
* `handleConn` — a connection, from the session cap to the end of its session; `visit_frame` — it
  touches no client but the one it admits;
* `strictTenancy_iff` — under strict tenancy a new client is kept out exactly if something else
  keeps it out.
-/

/-! ### Configuration -/

/-- What decides about a connection, of the broker's configuration, and what its session and its
    reply take from it. -/
structure BrokerConfig where
  pskTokens : List String
  enrolledCerts : List String
  allowNtlm : Bool
  allowAnyClient : Bool
  heartbeatIntervalMs : UInt32
  maxClients : Nat
  encryptAtRest : Bool
  embeddingDim : Nat
  deriving DecidableEq, Repr

/-- The flags of `precall-broker serve` that have a say in it, with their defaults. -/
structure ServeArgs where
  pskTokens : List String := []
  enrolledCerts : List String := []
  allowNtlm : Bool := false
  strictTenancy : Bool := false
  noEncryptionAtRest : Bool := false
  maxClients : Nat := 100
  deriving DecidableEq, Repr

/-- `serve` — a config file, or else the flags; tokens and certificates given as flags replace
    those of the file. -/
def serveConfig (file : Option BrokerConfig) (args : ServeArgs) : BrokerConfig :=
  let cfg := file.getD
    { pskTokens := args.pskTokens
      enrolledCerts := args.enrolledCerts
      allowNtlm := args.allowNtlm
      allowAnyClient := !args.strictTenancy
      heartbeatIntervalMs := 30000
      maxClients := args.maxClients
      encryptAtRest := !args.noEncryptionAtRest
      embeddingDim := 384 }
  let cfg := if args.pskTokens = [] then cfg else { cfg with pskTokens := args.pskTokens }
  if args.enrolledCerts = [] then cfg else { cfg with enrolledCerts := args.enrolledCerts }

/-! ### Authentication -/

/-- The answer of the authenticator: a name for the caller, or the reason it is sent. -/
inductive AuthDecision where
  | allow (principal : String)
  | reject (reason : String)
  deriving DecidableEq, Repr

/-- The secrets of a running broker: tokens as digests, fingerprints in lower case, and the two
    switches. -/
structure Authenticator where
  pskDigests : List Digest
  enrolledCerts : List String
  allowNtlm : Bool
  allowAnyClient : Bool

section
variable [TextTables] (sha256 : Bytes → Digest)

/-- `Authenticator::new` — the secrets of a configuration, digested or brought to lower case
    once. -/
def Authenticator.new (cfg : BrokerConfig) : Authenticator where
  pskDigests := (cfg.pskTokens.map ObjectStore.utf8).map sha256
  enrolledCerts := cfg.enrolledCerts.map TextTables.toLowercase
  allowNtlm := cfg.allowNtlm
  allowAnyClient := cfg.allowAnyClient

/-- `Authenticator::authenticate` — one test for each method; the client's id only goes into the
    name of the caller. -/
def Authenticator.authenticate (a : Authenticator) (auth : AuthMethod) (clientId : Uuid) :
    AuthDecision :=
  match auth with
  | .psk token =>
    -- the only place where the tenancy flag is looked at
    if !a.allowAnyClient && a.pskDigests.isEmpty then .reject "psk auth disabled"
    else if a.pskDigests.any fun d => ctEq d (sha256 (ObjectStore.utf8 token)) then
      .allow ("psk:" ++ String.ofList (clientId.chars.take 8))
    else .reject "unknown pre-shared key"
  | .certificate fingerprint =>
    let fp := TextTables.toLowercase fingerprint
    if a.enrolledCerts.any fun e => e == fp then .allow ("cert:" ++ fp)
    else .reject "certificate not enrolled"
  | .ntlm user _ =>
    if a.allowNtlm then .allow ("ntlm:" ++ user)
    else .reject "ntlm disabled; use psk or certificate"

/-- What a configuration accepts: a token with the digest of a configured one, a configured
    certificate in any case of letters, and any domain user where NTLM is on. -/
def Accredited (cfg : BrokerConfig) : AuthMethod → Prop
  | .psk token =>
    ∃ t ∈ cfg.pskTokens, sha256 (ObjectStore.utf8 t) = sha256 (ObjectStore.utf8 token)
  | .certificate fingerprint =>
    ∃ c ∈ cfg.enrolledCerts, TextTables.toLowercase c = TextTables.toLowercase fingerprint
  | .ntlm .. => cfg.allowNtlm = true

omit [TextTables] in
/-- A decision by one test allows exactly if the test is passed. -/
private theorem allow_ite {c : Bool} {principal reason : String} :
    (∃ p, (if c then AuthDecision.allow principal else .reject reason) = .allow p) ↔ c = true := by
  cases c <;> simp

omit [TextTables] in
/-- Without digests there is nothing to match, with or without the first test. -/
private theorem allow_psk (digests : List Digest) (anyClient : Bool) (d : Digest)
    {principal disabled unknown : String} :
    (∃ p, (if !anyClient && digests.isEmpty then AuthDecision.reject disabled
        else if digests.any fun d' => ctEq d' d then .allow principal else .reject unknown)
      = .allow p) ↔ (digests.any fun d' => ctEq d' d) = true := by
  cases digests with
  | nil => cases anyClient <;> simp
  | cons d' ds =>
    simp only [List.isEmpty_cons, Bool.and_false, Bool.false_eq_true, ↓reduceIte]
    exact allow_ite

/-- **Whom the authenticator allows.**  The tenancy flag decides nothing: where it is consulted,
    there is no token that could match. -/
theorem authenticate_allow_iff (cfg : BrokerConfig) (auth : AuthMethod) (clientId : Uuid) :
    (∃ principal, (Authenticator.new sha256 cfg).authenticate sha256 auth clientId
      = .allow principal) ↔ Accredited sha256 cfg auth := by
  cases auth with
  | psk token =>
    have hany := any_ctEq_iff sha256 (cfg.pskTokens.map ObjectStore.utf8) (ObjectStore.utf8 token)
    simp only [List.mem_map, exists_exists_and_eq_and] at hany
    exact (allow_psk _ _ _).trans hany
  | certificate fingerprint =>
    simp only [Authenticator.authenticate, Authenticator.new, Accredited]
    exact allow_ite.trans (by simp)
  | ntlm user responseB64 =>
    simp only [Authenticator.authenticate, Authenticator.new, Accredited]
    exact allow_ite

/-! ### Connections -/

/-- The data root: every client's directory, and the registry of clients in `server.db`.  A
    client may have either without the other. -/
structure Root where
  dirs : Uuid → Option ClientDir
  serverDb : Ukg

/-- A data root on which nobody has been. -/
def Root.new : Root := ⟨fun _ => none, Ukg.new⟩

/-- One committed write to the data root: a directory, a write inside one, or a row of the
    registry. -/
inductive RootEvent where
  | createDir (id : Uuid)
  | client (id : Uuid) (e : Event)
  | register (id : Uuid) (hostname : String) (now : Int)

/-- The client a write is about. -/
def RootEvent.about : RootEvent → Uuid
  | .createDir id => id
  | .client id _ => id
  | .register id _ _ => id

/-- The effect of one write; an existing directory is not created again. -/
def RootEvent.apply (e : RootEvent) (root : Root) : Root :=
  match e with
  | .createDir id =>
    { root with
      dirs := Function.update root.dirs id (some ((root.dirs id).getD ClientDir.new)) }
  | .client id e =>
    { root with dirs := Function.update root.dirs id ((root.dirs id).map e.apply) }
  | .register id hostname now =>
    { root with serverDb := root.serverDb.touchClient id.text hostname now }

/-- A connection: the broker it meets, with its other live sessions and its key; what TLS and the
    JSON reader make of the first message; and what the session brings.  `writes` is how many
    writes it gets to commit before an error ends it, and `lockHeld` whether the registry's lock
    can be taken. -/
structure Visit where
  cfg : BrokerConfig
  sessions : Nat
  key : Aead
  hello : Option ClientHello
  lockHeld : Bool
  sessionId : Uuid
  now : UInt64
  json : JsonReader
  arrivals : List Arrival
  writes : Nat

/-- What became of a connection whose handler came to its end: turned away at the cap, at the
    hello or by the authenticator, or served. -/
inductive Admission where
  | busy
  | unreadable
  | refused (reason : String)
  | served (principal : String) (reply : ServerHello)
  deriving DecidableEq, Repr

/-- The session's own configuration. -/
def Visit.sessionConfig (v : Visit) (hello : ClientHello) : SessionConfig where
  clientId := hello.clientId
  hostname := hello.hostname
  dim := v.cfg.embeddingDim
  objects := if v.cfg.encryptAtRest then ObjectStore.encrypted v.key else ObjectStore.plain

/-- The answer to an admitted client: of the channels it asked for, those the broker knows. -/
def Visit.serverHello (v : Visit) (hello : ClientHello) : ServerHello where
  sessionId := v.sessionId
  acceptedChannels := hello.channels.filter
    fun c => [ChannelId.gfxRdp, ChannelId.pcMeta, ChannelId.pcCtrl, ChannelId.pcAudio].contains c
  serverTime100ns := v.now
  heartbeatIntervalMs := v.cfg.heartbeatIntervalMs
  maxFrameBytes := UInt32.ofNat maxMuxPayload

/-- A program on the directory of one client, as a program on the data root: it reads that
    directory and writes into it. -/
def inDir {α : Type} (id : Uuid) (p : Ingester α) : Prog Root RootEvent α :=
  p.zoom (fun root => (root.dirs id).getD ClientDir.new) (RootEvent.client id)

/-- The row in the registry; where its lock cannot be taken the row is not written, and the
    session goes on. -/
def registerClient (v : Visit) (hello : ClientHello) : Prog Root RootEvent Unit :=
  if v.lockHeld then Prog.commit (.register hello.clientId hello.hostname (asI64 v.now))
  else pure ()

/-- `handle_conn` after authentication: the store directory and the registry row, then the
    session. -/
def serveClient (v : Visit) (hello : ClientHello) (principal : String) :
    Prog Root RootEvent Admission := do
  let cfg := v.sessionConfig hello
  Prog.commit (.createDir hello.clientId)
  inDir hello.clientId do
    openIndex cfg .text
    openIndex cfg .image
    Prog.commit (.touchClient hello.clientId.text hello.hostname (asI64 v.now))
  registerClient v hello
  let _ ← inDir hello.clientId
    (Prog.forEach (dispatch v.json cfg) v.arrivals SessionState.new)
  return .served principal (v.serverHello hello)

/-- `Broker::handle_conn`: the cap, the hello, its version, the credential, and then the session. -/
def handleConn (v : Visit) : Prog Root RootEvent Admission :=
  if v.sessions ≥ v.cfg.maxClients then pure .busy
  else match v.hello with
    | none => pure .unreadable
    | some hello =>
      if hello.protocolVersion ≠ protocolVersion then pure (.refused "protocol version mismatch")
      else match (Authenticator.new sha256 v.cfg).authenticate sha256 hello.auth hello.clientId with
        | .reject reason => pure (.refused reason)
        | .allow principal => serveClient v hello principal

/-- A connection, as far as its budget of writes lets it get. -/
def visit (root : Root) (v : Visit) : Outcome Root RootEvent Admission :=
  (handleConn sha256 v).run RootEvent.apply v.writes root []

/-- The data root after a history of connections, one after the other. -/
def rootAfter (history : List Visit) : Root :=
  Runs.run (fun root v => (visit sha256 root v).store) Root.new history

/-! ### Whom a connection touches -/

/-- The connection presents a hello of the right version and an accepted credential for `id`, while
    a session is free. -/
def Visit.Admits (v : Visit) (id : Uuid) : Prop :=
  v.sessions < v.cfg.maxClients ∧ ∃ hello, v.hello = some hello ∧ hello.clientId = id ∧
    hello.protocolVersion = protocolVersion ∧ Accredited sha256 v.cfg hello.auth

/-- The connection was turned away. -/
def Admission.Rejected : Admission → Prop
  | .served .. => False
  | _ => True

/-- What `handle_conn` does with a connection: it serves those it admits and turns all others away
    without a write. -/
theorem handleConn_cases (v : Visit) :
    (∃ hello principal, v.hello = some hello ∧ Visit.Admits sha256 v hello.clientId ∧
      handleConn sha256 v = serveClient v hello principal) ∨
    ∃ a : Admission, a.Rejected ∧ (∀ id, ¬ Visit.Admits sha256 v id) ∧
      handleConn sha256 v = pure a := by
  unfold handleConn
  by_cases hcap : v.sessions ≥ v.cfg.maxClients
  · -- the session cap comes first, before the hello is read
    refine Or.inr ⟨.busy, trivial, fun id hadmits => ?_, if_pos hcap⟩
    exact absurd hadmits.1 (by omega)
  rw [if_neg hcap]
  cases hhello : v.hello with
  | none =>
    refine Or.inr ⟨.unreadable, trivial, fun id hadmits => ?_, rfl⟩
    obtain ⟨-, hello, hsome, -⟩ := hadmits
    rw [hhello] at hsome
    cases hsome
  | some hello =>
    have hunique : ∀ id, Visit.Admits sha256 v id →
        hello.protocolVersion = protocolVersion ∧ Accredited sha256 v.cfg hello.auth := by
      rintro id ⟨-, hello', hsome, -, hversion, haccredited⟩
      rw [hhello] at hsome
      obtain rfl := Option.some.inj hsome
      exact ⟨hversion, haccredited⟩
    have hallow := authenticate_allow_iff sha256 v.cfg hello.auth hello.clientId
    by_cases hversion : hello.protocolVersion ≠ protocolVersion
    · refine Or.inr ⟨.refused "protocol version mismatch", trivial, fun id hadmits => ?_,
        if_pos hversion⟩
      exact hversion (hunique id hadmits).1
    · simp only [hversion, ↓reduceIte]
      rw [not_not] at hversion
      cases hauth : (Authenticator.new sha256 v.cfg).authenticate sha256 hello.auth
          hello.clientId with
      | allow principal =>
        refine Or.inl ⟨hello, principal, rfl, ?_, rfl⟩
        exact ⟨by omega, hello, hhello, rfl, hversion, hallow.mp ⟨principal, hauth⟩⟩
      | reject reason =>
        -- an accepted credential would have been allowed
        refine Or.inr ⟨.refused reason, trivial, fun id hadmits => ?_, rfl⟩
        obtain ⟨principal, hprincipal⟩ := hallow.mpr (hunique id hadmits).2
        rw [hauth] at hprincipal
        cases hprincipal

/-- Serving a client writes about that client only. -/
theorem serveClient_only (v : Visit) (hello : ClientHello) (principal : String) :
    Prog.Only (fun w => w.about = hello.clientId) (serveClient v hello principal) := by
  have hdir : ∀ {α : Type} (p : Ingester α),
      Prog.Only (fun w => w.about = hello.clientId) (inDir hello.clientId p) := fun p =>
    Prog.only_zoom (P := fun w : RootEvent => w.about = hello.clientId) _ (fun _ => rfl) p
  unfold serveClient registerClient
  refine Prog.only_bind (by simp [RootEvent.about]) fun _ => ?_
  refine Prog.only_bind (hdir _) fun _ => ?_
  refine Prog.only_bind (by simp [RootEvent.about]) fun _ => ?_
  exact Prog.only_bind (hdir _) fun _ => by simp

/-- A handler that serves a client to its end has not turned it away; one that breaks off says
    nothing. -/
theorem serveClient_wp (v : Visit) (hello : ClientHello) (principal : String) (root : Root)
    (log : List RootEvent) :
    Prog.wp RootEvent.apply (fun _ _ _ => True) (fun a _ _ => ¬ Admission.Rejected a)
      (serveClient v hello principal) root log := by
  have hany : ∀ {α : Type} (p : Prog Root RootEvent α) root log,
      Prog.wp RootEvent.apply (fun _ _ _ => True) (fun _ _ _ => True) p root log := by
    intro α p
    induction p with
    | ret a => exact fun _ _ => trivial
    | abort => exact fun _ _ => trivial
    | read k ih => exact fun root log => ih root root log
    | write w k ih => exact fun root log => ⟨trivial, ih _ _⟩
  unfold serveClient
  refine Prog.wp_seq (hany _ root log) fun _ root log _ => ?_
  refine Prog.wp_seq (hany _ root log) fun _ root log _ => ?_
  refine Prog.wp_seq (hany _ root log) fun _ root log _ => ?_
  exact Prog.wp_seq (hany _ root log) fun _ root log _ => id

omit [TextTables] in
/-- The ids of two clients are told apart by their texts. -/
private theorem text_ne {id id' : Uuid} (h : id ≠ id') : id.text ≠ id'.text := by
  intro htext
  have hparsed := Api.parseForms_text id
  rw [htext, Api.parseForms_text id'] at hparsed
  exact h (Option.some.inj hparsed).symm

/-- The directory of a client and its row in the registry: all that the data root knows of it. -/
def Root.traces (root : Root) (id : Uuid) : Option ClientDir × Option ClientRow :=
  (root.dirs id, root.serverDb.client.lookup id.text)

/-- A write leaves what it is not about. -/
theorem traces_apply {w : RootEvent} {id : Uuid} (h : w.about ≠ id) (root : Root) :
    (w.apply root).traces id = root.traces id := by
  unfold Root.traces
  cases w with
  | createDir id' =>
    have hne : id ≠ id' := Ne.symm h
    simp only [RootEvent.apply, Function.update_of_ne hne]
  | client id' e =>
    have hne : id ≠ id' := Ne.symm h
    simp only [RootEvent.apply, Function.update_of_ne hne]
  | register id' hostname now =>
    have hne : id ≠ id' := Ne.symm h
    simp only [RootEvent.apply, Ukg.touchClient, AList.lookup_insert_ne (text_ne hne)]

/-- What a write does to the traces of the client that it is about depends on them alone. -/
theorem traces_apply_congr {w : RootEvent} {root root' : Root}
    (h : root.traces w.about = root'.traces w.about) :
    (w.apply root).traces w.about = (w.apply root').traces w.about := by
  unfold Root.traces at h ⊢
  obtain ⟨hdir, hrow⟩ := Prod.mk.inj h
  cases w with
  | createDir id =>
    simp only [RootEvent.about, RootEvent.apply, Function.update_self] at hdir hrow ⊢
    rw [hdir, hrow]
  | client id e =>
    simp only [RootEvent.about, RootEvent.apply, Function.update_self] at hdir hrow ⊢
    rw [hdir, hrow]
  | register id hostname now =>
    simp only [RootEvent.about, RootEvent.apply, Ukg.touchClient, AList.lookup_insert]
      at hdir hrow ⊢
    rw [hdir, hrow]

/-- **A connection touches no client but the one it admits**, and none at all if it admits none. -/
theorem visit_frame (root : Root) (v : Visit) (id : Uuid) (h : ¬ Visit.Admits sha256 v id) :
    (visit sha256 root v).store.traces id = root.traces id := by
  unfold visit
  rcases handleConn_cases sha256 v with
    ⟨hello, principal, hhello, hadmits, hserve⟩ | ⟨a, -, -, hpure⟩
  · have hne : hello.clientId ≠ id := fun heq => h (heq ▸ hadmits)
    rw [hserve]
    have hstore := @Prog.run_store _ _ _ RootEvent.apply root (serveClient v hello principal)
      v.writes []
    obtain ⟨ws, hlog, hws⟩ := Prog.run_appends v.writes
      ((serveClient_only v hello principal).wp RootEvent.apply root [])
    -- the root is what the committed writes make of it, and they are about another client
    rw [replay_nil] at hstore
    rw [hstore, hlog, List.nil_append]
    clear hstore hlog
    induction ws using List.reverseRecOn with
    | nil => rfl
    | append_singleton ws w ih =>
      rw [replay_concat, traces_apply (by rw [hws w (by simp)]; exact hne)]
      exact ih fun w' hw' => hws w' (by simp [hw'])
  · rw [hpure, Prog.run_pure]

/-! ### Strict tenancy -/

/-- Nobody has been admitted under this id in the history so far. -/
def NewClient (history : List Visit) (id : Uuid) : Prop :=
  ∀ v ∈ history, ¬ Visit.Admits sha256 v id

/-- A new client has no directory and no row in the registry, by the frame lemma along the
    history. -/
theorem traces_new {history : List Visit} {id : Uuid} (h : NewClient sha256 history id) :
    (rootAfter sha256 history).traces id = (none, none) := by
  induction history using List.reverseRecOn with
  | nil => rfl
  | append_singleton history v ih =>
    unfold rootAfter
    rw [Runs.run_append]
    refine (visit_frame sha256 _ v id (h v (by simp))).trans ?_
    exact ih fun v' hv' => h v' (by simp [hv'])

/-- What strict tenancy asks of a connection after a history: a client that has never been admitted
    is turned away and leaves no trace. -/
def KeptOut (history : List Visit) (v : Visit) : Prop :=
  v.cfg.allowAnyClient = false → ∀ hello, v.hello = some hello →
    NewClient sha256 history hello.clientId →
      (∃ a, (visit sha256 (rootAfter sha256 history) v).value = some a ∧ a.Rejected) ∧
      (visit sha256 (rootAfter sha256 history) v).store.traces hello.clientId = (none, none)

/-- A connection that is admitted is not turned away. -/
theorem not_rejected_of_admits {v : Visit} {id : Uuid} (root : Root)
    (h : Visit.Admits sha256 v id) :
    ¬ ∃ a, (visit sha256 root v).value = some a ∧ a.Rejected := by
  rintro ⟨a, hvalue, hrejected⟩
  unfold visit at hvalue
  rcases handleConn_cases sha256 v with ⟨hello, principal, -, -, hserve⟩ | ⟨-, -, hnone, -⟩
  · rw [hserve] at hvalue
    have hguarded := Prog.run_guarded v.writes (Guarded.nil (G := fun _ _ _ => True))
      (serveClient_wp v hello principal root [])
    exact hguarded.2 a hvalue hrejected
  · exact hnone id h

/-- A connection that is not admitted is turned away. -/
theorem rejected_of_not_admits {v : Visit} {hello : ClientHello} (root : Root)
    (hhello : v.hello = some hello) (h : ¬ Visit.Admits sha256 v hello.clientId) :
    ∃ a, (visit sha256 root v).value = some a ∧ a.Rejected := by
  unfold visit
  rcases handleConn_cases sha256 v with ⟨hello', -, hhello', hadmits, -⟩ | ⟨a, hrejected, -, hpure⟩
  · rw [hhello] at hhello'
    obtain rfl := Option.some.inj hhello'
    exact absurd hadmits h
  · exact ⟨a, by rw [hpure, Prog.run_pure], hrejected⟩

/-- **When strict tenancy is enforced.**  In every history of connections, each strict broker keeps
    out every client that has never been admitted exactly if each such client meets a full house,
    speaks another version or presents no accepted credential: with an accepted one, a new client
    is let in. -/
theorem strictTenancy_iff (history : List Visit) :
    (∀ before v after, history = before ++ v :: after → KeptOut sha256 before v) ↔
      ∀ before v after, history = before ++ v :: after → v.cfg.allowAnyClient = false →
        ∀ hello, v.hello = some hello → NewClient sha256 before hello.clientId →
          v.cfg.maxClients ≤ v.sessions ∨ hello.protocolVersion ≠ protocolVersion ∨
            ¬ Accredited sha256 v.cfg hello.auth := by
  have hadmits : ∀ {v : Visit} {hello : ClientHello}, v.hello = some hello →
      (¬ Visit.Admits sha256 v hello.clientId ↔ v.cfg.maxClients ≤ v.sessions ∨
        hello.protocolVersion ≠ protocolVersion ∨ ¬ Accredited sha256 v.cfg hello.auth) := by
    intro v hello hhello
    simp only [Visit.Admits, hhello, Option.some.injEq, exists_eq_left', true_and]
    rw [not_and_or, not_and_or, not_lt]
  constructor
  · intro hkept before v after hsplit hstrict hello hhello hnew
    rw [← hadmits hhello]
    intro hadmit
    exact not_rejected_of_admits sha256 _ hadmit
      (hkept before v after hsplit hstrict hello hhello hnew).1
  · intro hcond before v after hsplit hstrict hello hhello hnew
    have hout := (hadmits hhello).mpr (hcond before v after hsplit hstrict hello hhello hnew)
    refine ⟨rejected_of_not_admits sha256 _ hhello hout, ?_⟩
    rw [visit_frame sha256 _ v _ hout, traces_new sha256 hnew]

end

/-! ### A new client with a certificate -/

section
attribute [local instance] TextTables.ascii

/-- The hello of a client whose certificate is enrolled. -/
def enrolledHello : ClientHello where
  protocolVersion := 1
  clientId := smallId
  hostname := "h"
  auth := .certificate "ab"
  channels := []

/-- It meets a broker started with `--strict-tenancy`, and presents a certificate that is
    enrolled there. -/
def strictVisit : Visit where
  cfg := serveConfig none { enrolledCerts := ["AB"], strictTenancy := true }
  sessions := 0
  key := ⟨fun _ _ _ => [], fun _ _ _ => none⟩
  hello := some enrolledHello
  lockHeld := true
  sessionId := smallId
  now := 0
  json := ⟨fun _ => none, fun _ => none⟩
  arrivals := []
  writes := 10

/-- On an empty data root the client is let in, though nobody has been there before it. -/
theorem strictVisit_admitted :
    ¬ ∀ (history before : List Visit) (v : Visit) (after : List Visit),
      history = before ++ v :: after → KeptOut digestOfAbc before v := by
  intro h
  have hkept := h [strictVisit] [] strictVisit [] rfl rfl enrolledHello rfl (by simp [NewClient])
  have hadmits : Visit.Admits digestOfAbc strictVisit smallId :=
    ⟨by decide, enrolledHello, rfl, rfl, rfl, "AB", by decide, by decide⟩
  exact not_rejected_of_admits digestOfAbc _ hadmits hkept.1

end

end Precall.Broker
