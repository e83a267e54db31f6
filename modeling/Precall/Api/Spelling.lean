import Precall.Api.Snapshot
import Precall.Api.Timeline

namespace Precall.Api

open ByteLib TextLib TableLib PagingLib Precall.Proto Precall.Store Precall.Broker

/-!
# One client, several spellings

Every route parses the client id of its request, so several spellings name one client.  The
database path is built from the parsed id.  Object paths (`snapshot`), the purged directory
(`wipe_client`) and the database of the live stream (`live_loop`) are built from the spelling in
the request, all in `precall-api/src/routes.rs`.

* `ServerState` — the clients' directories, and the directories under any other name;
* `liveRoute` — a live stream, polling while other processes change the state;
* `Alike` — the four operations answer a spelling as they answer the canonical one, with the same
  effect, and a live stream creates nothing;
* `alike_iff` — they do so for the canonical spelling only.
-/

/-- What lies under the API's data root: the clients' directories, and databases in directories
    of any other name. -/
structure ServerState where
  clients : DataRoot
  stray : String → Option Ukg

section
variable [UuidText]

/-- The client whose directory has this name.  Directories are named by the text of the id, so no
    other spelling names one. -/
def named (name : String) : Option Uuid :=
  match UuidText.parseStr name with
  | some id => if id.text = name then some id else none
  | none => none

/-- `Ukg::open` of the database in the directory of a given name; what is missing is created,
    directory and all. -/
def ServerState.openDb (server : ServerState) (name : String) : ServerState × Ukg :=
  match named name with
  | some id => match server.clients id with
    | some dir => (server, dir.ukg)
    | none =>
        ({ server with clients := Function.update server.clients id (some ClientDir.new) }, Ukg.new)
  | none => match server.stray name with
    | some db => (server, db)
    | none => ({ server with stray := Function.update server.stray name (some Ukg.new) }, Ukg.new)

/-! ### The timeline route -/

/-- The route `timeline`; `ok` is the list of entries.  The client is looked up by its id, so the
    spelling drops out here. -/
def timelineRoute [Ukg.JoinOrder] (order : Descending stampOf) (root : DataRoot) (client : String)
    (before100ns limit : Option Int) : Except ApiError (List TimelineEntry) :=
  match clientDir root client with
  | .error e => .error e
  | .ok dir => .ok (timeline order dir.ukg before100ns (max 1 (min 500 (limit.getD 50))))

/-! ### The live stream -/

/-- One message of the live stream, about one capture. -/
structure LiveMessage where
  windowCaptureId : Int
  name : String
  windowTitle : String
  timestamp100ns : Int
  imageToken : Option String
  deriving DecidableEq, Repr

/-- The message about a capture. -/
def liveMessage (r : Int × WindowCaptureRow) : LiveMessage where
  windowCaptureId := r.1
  name := r.2.name
  windowTitle := r.2.windowTitle
  timestamp100ns := r.2.timeStamp
  imageToken := r.2.imageToken

/-- A live stream between two polls: the state of the server, the last id sent, and the messages
    so far. -/
structure LiveState where
  server : ServerState
  lastId : Int
  sent : List LiveMessage

/-- Where the stream starts: the newest entry of the timeline, by its timestamp; 0 if there is
    none. -/
def newestId [Ukg.JoinOrder] (order : Descending stampOf) (db : Ukg) : Int :=
  ((timeline order db none 1).head?.map TimelineEntry.id).getD 0

/-- `live_ws` and the start of `live_loop`.  The client is checked by its id, but the database is
    opened by the spelling of the request. -/
def liveStart [Ukg.JoinOrder] (order : Descending stampOf) (server : ServerState)
    (client : String) : Except ApiError LiveState :=
  match clientDir server.clients client with
  | .error e => .error e
  | .ok _ =>
      let opened := server.openDb client
      .ok { server := opened.1, lastId := newestId order opened.2, sent := [] }

/-- One turn of `live_loop`, after other processes have changed the state: up to 50 captures
    above the last id are sent, and the database is opened anew. -/
def livePoll (client : String) (st : LiveState) (others : ServerState → ServerState) : LiveState :=
  let opened := (others st.server).openDb client
  let rows := (opened.2.windowCapture.rows.filter fun r => st.lastId < r.1).take 50
  { server := opened.1
    lastId := rows.foldl (fun last r => max last r.1) st.lastId
    sent := st.sent ++ rows.map liveMessage }

/-- The route `live` for as many polls as other processes make changes, each made just before its
    poll. -/
def liveRoute [Ukg.JoinOrder] (order : Descending stampOf) (server : ServerState) (client : String)
    (changes : List (ServerState → ServerState)) : Except ApiError LiveState :=
  match liveStart order server client with
  | .error e => .error e
  | .ok st => .ok (changes.foldl (livePoll client) st)

/-! ### Spellings -/

variable [TextTables]

/-- The change leaves the client's directory in place if it is there. -/
def KeepsClient (id : Uuid) (others : ServerState → ServerState) : Prop :=
  ∀ server : ServerState, (server.clients id).isSome → ((others server).clients id).isSome

/-- The operations treat the spelling `s` of `id` as the canonical one, and a live stream under
    it creates nothing. -/
structure Alike [Ukg.JoinOrder] (order : Descending stampOf) (key : Aead) (server : ServerState)
    (id : Uuid) (s : String) : Prop where
  snapshot : ∀ wcId, snapshot server.clients key s wcId = snapshot server.clients key id.text wcId
  timeline : ∀ before100ns limit, timelineRoute order server.clients s before100ns limit
    = timelineRoute order server.clients id.text before100ns limit
  wipe : wipeClient server.clients s = wipeClient server.clients id.text
  live : ∀ changes, liveRoute order server s changes = liveRoute order server id.text changes
  creates : ∀ changes : List (ServerState → ServerState),
    (∀ others ∈ changes, KeepsClient id others) → ∀ st, liveRoute order server s changes = .ok st →
      st.server = changes.foldl (fun server others => others server) server

omit [TextTables] in
/-- The text of an id names the client. -/
theorem named_text (id : Uuid) : named id.text = some id := by
  unfold named
  rw [UuidText.parseStr_text]
  exact if_pos rfl

omit [TextTables] in
/-- Another spelling of it, though the parser accepts it, names none. -/
theorem named_eq_none {id : Uuid} {s : String} (hs : UuidText.parseStr s = some id)
    (hne : s ≠ id.text) : named s = none := by
  unfold named
  rw [hs]
  exact if_neg (Ne.symm hne)

omit [TextTables] in
/-- A client's own database is there to be opened. -/
theorem openDb_text {server : ServerState} {id : Uuid} {dir : ClientDir}
    (h : server.clients id = some dir) : server.openDb id.text = (server, dir.ukg) := by
  unfold ServerState.openDb
  rw [named_text]
  dsimp only
  rw [h]

omit [TextTables] in
/-- While its client is there, a stream under the canonical spelling changes nothing: after each
    poll the server is what the others made of it. -/
theorem foldl_livePoll_server {id : Uuid} (changes : List (ServerState → ServerState))
    (hkeeps : ∀ others ∈ changes, KeepsClient id others) (st : LiveState)
    (hknown : (st.server.clients id).isSome) :
    (changes.foldl (livePoll id.text) st).server
      = changes.foldl (fun server others => others server) st.server := by
  induction changes generalizing st with
  | nil => rfl
  | cons others changes ih =>
    obtain ⟨hothers, hrest⟩ := List.forall_mem_cons.mp hkeeps
    have hstill := hothers st.server hknown
    obtain ⟨dir, hdir⟩ := Option.isSome_iff_exists.mp hstill
    have hpoll : (livePoll id.text st others).server = others st.server := by
      unfold livePoll
      rw [openDb_text hdir]
    rw [List.foldl_cons, List.foldl_cons, ih hrest _ (hpoll ▸ hstill), hpoll]

/-- Under its own text a client is treated as under its own text. -/
theorem alike_text [Ukg.JoinOrder] (order : Descending stampOf) (key : Aead) (server : ServerState)
    (id : Uuid) :
    Alike order key server id id.text := by
  refine ⟨fun _ => rfl, fun _ _ => rfl, rfl, fun _ => rfl, fun changes hkeeps st hst => ?_⟩
  unfold liveRoute liveStart at hst
  cases hdir : server.clients id with
  | none =>
    rw [clientDir_unknown (UuidText.parseStr_text id) hdir] at hst
    cases hst
  | some dir =>
    simp only [clientDir_known (UuidText.parseStr_text id) hdir, openDb_text hdir] at hst
    rw [← Except.ok.inj hst]
    exact foldl_livePoll_server changes hkeeps _ (by rw [hdir]; rfl)

/-! ### Another spelling -/

/-- A database with one capture under a given id. -/
def oneCapture (id : Int) : Ukg :=
  { Ukg.new with
    windowCapture :=
      { rows := [(id, ⟨"n", some "t", true, 0, "", "t", none, 0, false, none, none, none⟩)]
        seq := id
        sorted := List.pairwise_singleton _ _
        bound := by simp } }

/-- Another process replaces the client's database, as a session that stores captures does. -/
def replaceDb (id : Uuid) (dir : ClientDir) (db : Ukg) (server : ServerState) : ServerState :=
  { server with clients := Function.update server.clients id (some { dir with ukg := db }) }

omit [TextTables] in
/-- What the stream of the canonical spelling sends after such a change: the first 50 of the
    captures above its start. -/
theorem sent_text [Ukg.JoinOrder] (order : Descending stampOf) {server : ServerState} {id : Uuid}
    {dir : ClientDir} (h : server.clients id = some dir) (db : Ukg) :
    (liveRoute order server id.text [replaceDb id dir db]).map LiveState.sent
      = .ok (((db.windowCapture.rows.filter fun r => newestId order dir.ukg < r.1).take 50).map
          liveMessage) := by
  have hchanged : (replaceDb id dir db server).clients id = some { dir with ukg := db } :=
    Function.update_self ..
  unfold liveRoute liveStart
  simp only [clientDir_known (UuidText.parseStr_text id) h, openDb_text h, List.foldl_cons,
    List.foldl_nil, livePoll, openDb_text hchanged, List.nil_append]
  rfl

omit [TextTables] in
/-- What the stream of another spelling sends when a directory of that name exists: captures of
    that database, and none of the client's. -/
theorem sent_stray [Ukg.JoinOrder] {order : Descending stampOf} {server : ServerState} {id : Uuid}
    {dir : ClientDir} {s : String} (hs : UuidText.parseStr s = some id) (hne : s ≠ id.text)
    (h : server.clients id = some dir) {own : Ukg} (hown : server.stray s = some own) (db : Ukg) :
    (liveRoute order server s [replaceDb id dir db]).map LiveState.sent
      = .ok (((own.windowCapture.rows.filter fun r => newestId order own < r.1).take 50).map
          liveMessage) := by
  have hopen : ∀ server' : ServerState, server'.stray s = some own →
      server'.openDb s = (server', own) := by
    intro server' hstray
    unfold ServerState.openDb
    rw [named_eq_none hs hne]
    dsimp only
    rw [hstray]
  have hsame : (replaceDb id dir db server).stray s = some own := hown
  unfold liveRoute liveStart
  simp only [clientDir_known hs h, hopen server hown, List.foldl_cons, List.foldl_nil, livePoll,
    hopen _ hsame, List.nil_append]
  rfl

/-- **Which spellings are treated alike.**  In every state, of all spellings of a client's id only
    the canonical one is. -/
theorem alike_iff [Ukg.JoinOrder] (order : Descending stampOf) (key : Aead) (server : ServerState)
    (id : Uuid) (s : String) (hs : UuidText.parseStr s = some id) :
    Alike order key server id s ↔ s = id.text := by
  constructor
  · intro halike
    by_contra hne
    cases hdir : server.clients id with
    | none =>
      -- an unknown client: the answer repeats the spelling
      have hanswer := halike.timeline none none
      unfold timelineRoute at hanswer
      rw [clientDir_unknown hs hdir, clientDir_unknown (UuidText.parseStr_text id) hdir] at hanswer
      have hlists := congrArg String.toList (ApiError.notFound.inj (Except.error.inj hanswer))
      rw [String.toList_append, String.toList_append] at hlists
      exact hne (String.toList_inj.mp (List.append_cancel_left hlists))
    | some dir =>
      cases hown : server.stray s with
      | none =>
        -- opening its database creates a directory
        have hstart := halike.creates [] (by simp)
        unfold liveRoute liveStart ServerState.openDb at hstart
        simp only [clientDir_known hs hdir, named_eq_none hs hne, hown, List.foldl_nil] at hstart
        have hserver := hstart _ rfl
        have hstray := congrArg (fun server => server.stray s) hserver
        simp [hown] at hstray
      | some own =>
        -- its stream reads another database: it sends the same whatever arrives for the client
        have hsent : ∀ db, _ := fun db =>
          (sent_stray hs hne hdir hown db).symm.trans
            ((congrArg (Except.map LiveState.sent) (halike.live [replaceDb id dir db])).trans
              (sent_text order hdir db))
        have hnone := hsent Ukg.new
        have hone := hsent (oneCapture (newestId order dir.ukg + 1))
        rw [hnone] at hone
        simp [oneCapture, Ukg.new] at hone
  · rintro rfl
    exact alike_text order key server id

end

/-! ### The simple form -/

section

attribute [local instance] TextTables.ascii UuidText.crate Ukg.joinInserted

/-- A server with one client, after one screenshot of it was stored. -/
def smallServer : ServerState where
  clients := Function.update (fun _ => none) smallId (some ((smallDeployment true).dir smallRounds))
  stray := fun _ => none

/-- The id of that client without hyphens. -/
def simpleForm : String := "00000000000000000000000000000000"

/-- The canonical spelling is treated as itself. -/
theorem alike_small :
    Alike insertionOrder tagAead smallServer smallId smallId.text :=
  (alike_iff insertionOrder tagAead smallServer smallId smallId.text
    (UuidText.parseStr_text smallId)).mpr rfl

/-- Under the simple form the screenshot is not found, a wipe leaves it, and a live stream creates
    a directory. -/
theorem simpleForm_differs :
    UuidText.parseStr simpleForm = some smallId ∧
    snapshot smallServer.clients tagAead smallId.text 1 = .ok ⟨"image/jpeg", smallJpeg⟩ ∧
    snapshot smallServer.clients tagAead simpleForm 1 = .error (.notFound "image object missing") ∧
    (wipeDir smallId.text ((smallDeployment true).dir smallRounds)).files.files = [] ∧
    (wipeDir simpleForm ((smallDeployment true).dir smallRounds)).files.files ≠ [] ∧
    ((liveRoute insertionOrder smallServer simpleForm []).map fun st =>
      (st.server.stray simpleForm).isSome) = .ok true ∧
    ¬ Alike insertionOrder tagAead smallServer smallId simpleForm := by
  have hcanonical : snapshot smallServer.clients tagAead smallId.text 1
      = .ok ⟨"image/jpeg", smallJpeg⟩ := by
    decide +kernel
  have hsimple : snapshot smallServer.clients tagAead simpleForm 1
      = .error (.notFound "image object missing") := by
    decide +kernel
  refine ⟨by decide +kernel, hcanonical, hsimple, by decide +kernel, by decide +kernel,
    by decide +kernel, fun halike => ?_⟩
  have hsame := halike.snapshot 1
  rw [hcanonical, hsimple] at hsame
  cases hsame

end

end Precall.Api
