import Precall.Api.Spelling
import Precall.Lib.Following
import Precall.Lib.Runs

namespace Precall.Api

open ByteLib TextLib TableLib PagingLib FollowingLib Precall.Proto Precall.Store Precall.Broker

/-!
# What the live stream sends

`live_loop` of `precall-api/src/routes.rs` starts at the id of the timeline's first entry, the one
with the newest *timestamp*, and from there follows the *ids*, at most 50 a poll.  Other processes
insert captures between the polls, with any timestamps.

* `LiveState.step` — a capture is inserted, or the stream polls; `Streaming` — what every such run
  keeps: the stream follows the captures by id, from its start;
* `DeliversNew` — the stream sends the captures inserted since it began, each once, by id;
* `delivers_iff_start` — it does exactly if no stored capture has an id beyond the start;
* `live_delivers_iff` — whatever the order among equal timestamps, exactly if the capture stored
  last has the newest timestamp.
-/

/-! ### The captures -/

/-- The captures that `now` holds and `stored` did not, in the order of their ids. -/
def insertedSince (stored now : Ukg) : List (Int × WindowCaptureRow) :=
  now.windowCapture.rows.filter fun r => (stored.windowCapture.get? r.1).isNone

/-- The capture stored last has a timestamp the timeline can reach, and no other that it can reach
    is as new. -/
def NewestStoredLast (db : Ukg) : Prop :=
  ∀ earlier last, db.windowCapture.rows = earlier ++ [last] →
    stampOf last < i64Max ∧ ∀ r ∈ earlier, stampOf r < i64Max → stampOf r < stampOf last

/-- The database after `stored` was read: captures have been added, under larger ids, and none
    was taken away. -/
structure Grown (stored now : Ukg) : Prop where
  seq_le : stored.windowCapture.seq ≤ now.windowCapture.seq
  rows : ∃ new, now.windowCapture.rows = stored.windowCapture.rows ++ new ∧
    ∀ r ∈ new, stored.windowCapture.seq < r.1

/-- A database has grown out of itself. -/
theorem Grown.refl (stored : Ukg) : Grown stored stored :=
  ⟨le_refl _, [], (List.append_nil _).symm, fun _ hr => absurd hr List.not_mem_nil⟩

/-- The captures inserted since are those with ids past the counter of then, for ids are given
    out in order. -/
theorem insertedSince_eq {stored now : Ukg} (h : Grown stored now) :
    insertedSince stored now = beyond Prod.fst now.windowCapture.rows stored.windowCapture.seq := by
  obtain ⟨-, new, hrows, hnew⟩ := h
  refine List.filter_congr fun r hr => ?_
  rw [Bool.eq_iff_iff, decide_eq_true_iff, Option.isNone_iff_eq_none]
  rw [hrows] at hr
  rcases List.mem_append.mp hr with hr | hr
  · have hfound := Table.get?_eq_some.mpr (show (r.1, r.2) ∈ stored.windowCapture.rows from hr)
    exact iff_of_false (by rw [hfound]; exact Option.some_ne_none _)
      (stored.windowCapture.bound r hr).not_gt
  · refine iff_of_true ?_ (hnew r hr)
    by_contra hne
    obtain ⟨row, hrow⟩ := Option.ne_none_iff_exists'.mp hne
    exact absurd (stored.windowCapture.bound _ (Table.get?_eq_some.mp hrow)) (hnew r hr).not_ge

section
variable [TextTables]

/-- An insertion appends one capture, or none if its token is there already. -/
theorem windowCapture_insertCapture (db : Ukg) (record : WindowCaptureRecord) :
    (db.insertCapture record).1.windowCapture = db.windowCapture ∨
      ∃ row, (db.insertCapture record).1.windowCapture = db.windowCapture.insert row := by
  unfold Ukg.insertCapture
  split
  · exact Or.inl rfl
  · exact Or.inr ⟨Ukg.captureRow record, rfl⟩

/-- The ids of captures are positive, in every database that the writes of a client leave. -/
theorem fromOne_after (log : List Event) :
    (ClientDir.after log).ukg.windowCapture.FromOne := by
  induction log using List.reverseRecOn with
  | nil => exact Table.FromOne.empty
  | append_singleton log e ih =>
    rw [ClientDir.after_concat]
    cases e with
    | insertCapture record =>
      rcases windowCapture_insertCapture (ClientDir.after log).ukg record with hsame | ⟨row, hrow⟩
      · exact hsame ▸ ih
      · exact hrow ▸ ih.insert row
    | markAllUnprocessed =>
      simp only [Event.apply, Ukg.markAllUnprocessed]
      exact ih.update _
    | markProcessed wcId =>
      simp only [Event.apply, Ukg.markProcessed]
      exact ih.update _
    | _ => first | exact ih | simpa [Event.apply] using ih

/-- A capture is added behind the others, or is there already. -/
theorem Grown.insertCapture {stored now : Ukg} (h : Grown stored now)
    (record : WindowCaptureRecord) : Grown stored (now.insertCapture record).1 := by
  obtain ⟨hseq, new, hrows, hnew⟩ := h
  rcases windowCapture_insertCapture now record with hsame | ⟨row, hrow⟩
  · exact ⟨hsame ▸ hseq, new, hsame ▸ hrows, hnew⟩
  · have hnext : stored.windowCapture.seq < now.windowCapture.nextId :=
      Int.lt_add_one_of_le hseq
    refine ⟨hrow ▸ hnext.le, new ++ [(now.windowCapture.nextId, row)], ?_, fun r hr => ?_⟩
    · rw [hrow, Table.rows_insert, hrows, List.append_assoc]
    · rcases List.mem_append.mp hr with hr | hr
      · exact hnew r hr
      · rw [List.mem_singleton.mp hr]
        exact hnext

end

/-! ### The database under a name -/

section
variable [UuidText]

/-- The database in the directory of a given name, if there is such a directory. -/
def ServerState.storedDb (server : ServerState) (name : String) : Option Ukg :=
  match named name with
  | some id => (server.clients id).map ClientDir.ukg
  | none => server.stray name

/-- Another process changes the database in the directory of a given name. -/
def ServerState.changeDb (server : ServerState) (name : String) (change : Ukg → Ukg) :
    ServerState :=
  match named name with
  | some id =>
      { server with
        clients := Function.update server.clients id
          ((server.clients id).map fun dir => { dir with ukg := change dir.ukg }) }
  | none =>
      { server with
        stray := Function.update server.stray name ((server.stray name).map change) }

/-- Opening a database that is stored leaves the server as it is. -/
theorem openDb_of_stored {server : ServerState} {name : String} {db : Ukg}
    (h : server.storedDb name = some db) : server.openDb name = (server, db) := by
  unfold ServerState.storedDb at h
  unfold ServerState.openDb
  cases hname : named name with
  | some id =>
    rw [hname] at h
    obtain ⟨dir, hdir, rfl⟩ := Option.map_eq_some_iff.mp h
    simp only [hdir]
  | none =>
    rw [hname] at h
    simp only [show server.stray name = some db from h]

/-- Opening a database leaves it there. -/
theorem storedDb_openDb (server : ServerState) (name : String) :
    (server.openDb name).1.storedDb name = some (server.openDb name).2 := by
  unfold ServerState.storedDb ServerState.openDb
  cases named name with
  | some id =>
    dsimp only
    cases hdir : server.clients id with
    | some dir => simp [hdir]
    | none => simp [ClientDir.new]
  | none =>
    dsimp only
    cases hstray : server.stray name with
    | some db => simp [hstray]
    | none => simp

/-- A change of a database is found under the name it was made under. -/
theorem storedDb_changeDb (server : ServerState) (name : String) (change : Ukg → Ukg) :
    (server.changeDb name change).storedDb name = (server.storedDb name).map change := by
  unfold ServerState.storedDb ServerState.changeDb
  cases named name with
  | some id => simp [Option.map_map, Function.comp_def]
  | none => simp

/-! ### Insertions and polls -/

variable [TextTables]

/-- What happens while a stream is open: another process inserts a capture, or the stream polls. -/
inductive LiveInput where
  | insert (record : WindowCaptureRecord)
  | poll

/-- One event: `insert_capture` in the database the stream reads, or a turn of `live_loop`. -/
def LiveState.step (client : String) (st : LiveState) : LiveInput → LiveState
  | .insert record =>
      { st with server := st.server.changeDb client fun db => (db.insertCapture record).1 }
  | .poll => livePoll client st fun server => server

/-- The stream sends the captures inserted since `stored` was read: each once, in order, and none
    of the others. -/
structure DeliversNew (client : String) (stored : Ukg) (st : LiveState) : Prop where
  /-- By increasing ids, none twice. -/
  increasing : (st.sent.map LiveMessage.windowCaptureId).Pairwise (· < ·)
  /-- Only captures that were not stored then. -/
  inserted : ∀ m ∈ st.sent, ∃ r ∈ insertedSince stored (st.server.openDb client).2,
    liveMessage r = m
  /-- All of them, after enough further polls. -/
  complete : ∀ polls, (insertedSince stored (st.server.openDb client).2).length ≤ 50 * polls →
    (Runs.run (LiveState.step client) st (List.replicate polls .poll)).sent
      = (insertedSince stored (st.server.openDb client).2).map liveMessage

/-! ### Following the ids -/

/-- A stream under way: it read `stored` first and started at `start`; `now` is the database, and
    `taken` are the captures it sent. -/
structure Streaming (client : String) (stored : Ukg) (start : Int) (now : Ukg)
    (taken : List (Int × WindowCaptureRow)) (st : LiveState) : Prop where
  db : st.server.storedDb client = some now
  grown : Grown stored now
  follows : Follows Prod.fst start now.windowCapture.rows st.lastId taken
  bound : st.lastId ≤ now.windowCapture.seq
  sent : st.sent = taken.map liveMessage

variable {client : String} {stored now : Ukg} {start : Int} {taken : List (Int × WindowCaptureRow)}
  {st : LiveState}

omit [TextTables] in
/-- The database that a stream polls is stored, so a poll opens it as it is. -/
theorem Streaming.openDb (h : Streaming client stored start now taken st) :
    st.server.openDb client = (st.server, now) := openDb_of_stored h.db

/-- A capture is inserted while the stream is open. -/
theorem Streaming.insert (h : Streaming client stored start now taken st)
    (record : WindowCaptureRecord) :
    Streaming client stored start (now.insertCapture record).1 taken
      (st.step client (.insert record)) := by
  have hdb : (st.step client (.insert record)).server.storedDb client
      = some (now.insertCapture record).1 := by
    show (st.server.changeDb client _).storedDb client = _
    rw [storedDb_changeDb, h.db]
    rfl
  have hgrown := h.grown.insertCapture record
  rcases windowCapture_insertCapture now record with hsame | ⟨row, hrow⟩
  · exact ⟨hdb, hgrown, hsame ▸ h.follows, hsame ▸ h.bound, h.sent⟩
  · have hnext : st.lastId < now.windowCapture.nextId := Int.lt_add_one_of_le h.bound
    refine ⟨hdb, hgrown, ?_, hrow ▸ hnext.le, h.sent⟩
    rw [hrow, Table.rows_insert]
    exact h.follows.append hnext

/-- **One poll**: the next 50 captures are sent, and the last of them is where the stream goes
    on. -/
theorem Streaming.poll (h : Streaming client stored start now taken st) :
    Streaming client stored start now
      (taken ++ (beyond Prod.fst now.windowCapture.rows st.lastId).take 50)
      (st.step client .poll) ∧
    beyond Prod.fst now.windowCapture.rows (st.step client .poll).lastId
      = (beyond Prod.fst now.windowCapture.rows st.lastId).drop 50 := by
  have hstep : st.step client .poll =
      { server := st.server
        lastId := reach Prod.fst st.lastId
          ((beyond Prod.fst now.windowCapture.rows st.lastId).take 50)
        sent := st.sent ++
          ((beyond Prod.fst now.windowCapture.rows st.lastId).take 50).map liveMessage } := by
    show livePoll client st (fun server => server) = _
    unfold livePoll
    rw [h.openDb]
    rfl
  rw [hstep]
  refine ⟨⟨h.db, h.grown, h.follows.take now.windowCapture.sorted 50, ?_, ?_⟩,
    beyond_reach now.windowCapture.sorted 50⟩
  · refine Int.lt_add_one_iff.mp (reach_lt (Int.lt_add_one_of_le h.bound) fun r hr => ?_)
    have hrow : r ∈ now.windowCapture.rows := (mem_beyond.mp (List.mem_of_mem_take hr)).1
    exact Table.lt_nextId hrow
  · rw [h.sent, List.map_append]

/-- **Every run**: the stream follows the ids from its start, by induction on what happens. -/
theorem Streaming.run (h : Streaming client stored start now taken st) (events : List LiveInput) :
    ∃ now taken, Streaming client stored start now taken
      (Runs.run (LiveState.step client) st events) := by
  refine Runs.run_invariant
    (I := fun st => ∃ now taken, Streaming client stored start now taken st)
    (fun st e ⟨now, taken, h⟩ => ?_) ⟨now, taken, h⟩ events
  cases e with
  | insert record => exact ⟨_, _, h.insert record⟩
  | poll => exact ⟨_, _, h.poll.1⟩

/-- Polling on, with nothing inserted, sends whatever is ahead, 50 captures at a time. -/
theorem Streaming.polls (h : Streaming client stored start now taken st) (polls : Nat)
    (hahead : (beyond Prod.fst now.windowCapture.rows st.lastId).length ≤ 50 * polls) :
    (Runs.run (LiveState.step client) st (List.replicate polls .poll)).sent
      = (beyond Prod.fst now.windowCapture.rows start).map liveMessage := by
  induction polls generalizing st taken with
  | zero =>
    have hnone : beyond Prod.fst now.windowCapture.rows st.lastId = [] :=
      List.length_eq_zero_iff.mp (Nat.le_zero.mp hahead)
    show st.sent = _
    rw [h.sent, h.follows.finished hnone]
  | succ polls ih =>
    obtain ⟨hnext, hdrop⟩ := h.poll
    refine ih hnext ?_
    rw [hdrop, List.length_drop]
    omega

omit [TextTables] in
/-- What lies past the start: the stored captures there, and all inserted ones. -/
theorem Streaming.beyond_start (h : Streaming client stored start now taken st)
    (hstart : start ≤ stored.windowCapture.seq) :
    beyond Prod.fst now.windowCapture.rows start =
      beyond Prod.fst stored.windowCapture.rows start ++ insertedSince stored now := by
  obtain ⟨-, new, hrows, hnew⟩ := h.grown
  have hnone : beyond Prod.fst stored.windowCapture.rows stored.windowCapture.seq = [] :=
    beyond_eq_nil stored.windowCapture.bound
  have hall : ∀ position ≤ stored.windowCapture.seq, beyond Prod.fst new position = new :=
    fun position hle => beyond_eq_self fun r hr => hle.trans_lt (hnew r hr)
  rw [insertedSince_eq h.grown, hrows, beyond_append, beyond_append, hnone, List.nil_append,
    hall start hstart, hall _ (le_refl _)]

/-- **Where the stream starts decides**: it delivers the inserted captures exactly if no stored one
    has an id past the start. -/
theorem Streaming.delivers_iff (h : Streaming client stored start now taken st)
    (hstart : start ≤ stored.windowCapture.seq) :
    DeliversNew client stored st ↔ ∀ r ∈ stored.windowCapture.rows, r.1 ≤ start := by
  have hpast := h.beyond_start hstart
  constructor
  · intro hdelivers r hr
    by_contra hlt
    have hcomplete := hdelivers.complete
    simp only [h.openDb] at hcomplete
    -- after enough polls the stored capture has been sent, too
    obtain ⟨polls, hpolls⟩ : ∃ polls,
        (beyond Prod.fst now.windowCapture.rows start).length ≤ 50 * polls :=
      ⟨_, Nat.le_mul_of_pos_left _ (by omega)⟩
    have hahead : (beyond Prod.fst now.windowCapture.rows st.lastId).length ≤ 50 * polls := by
      rw [← h.follows.split, List.length_append] at hpolls
      omega
    have hinserted : (insertedSince stored now).length ≤ 50 * polls := by
      rw [hpast, List.length_append] at hpolls
      omega
    have hsame := (h.polls polls hahead).symm.trans (hcomplete polls hinserted)
    have hlength := congrArg List.length hsame
    rw [hpast, List.length_map, List.length_map, List.length_append] at hlength
    have hsent : r ∈ beyond Prod.fst stored.windowCapture.rows start :=
      mem_beyond.mpr ⟨hr, not_le.mp hlt⟩
    have hsome := List.length_pos_of_mem hsent
    omega
  · intro hle
    have hnone : beyond Prod.fst stored.windowCapture.rows start = [] := beyond_eq_nil hle
    rw [hnone, List.nil_append] at hpast
    refine ⟨?_, ?_, ?_⟩
    · rw [h.sent, List.map_map]
      exact List.pairwise_map.mpr (h.follows.sorted now.windowCapture.sorted)
    · intro m hm
      rw [h.sent] at hm
      obtain ⟨r, hr, rfl⟩ := List.mem_map.mp hm
      rw [h.openDb, ← hpast, ← h.follows.split]
      exact ⟨r, List.mem_append_left _ hr, rfl⟩
    · rw [h.openDb]
      intro polls hinserted
      rw [← hpast, ← h.follows.split, List.length_append] at hinserted
      rw [← hpast]
      exact h.polls polls (by omega)

end

/-! ### Where it starts -/

/-- The first row of the timeline. -/
theorem newestId_eq [Ukg.JoinOrder] (order : Descending stampOf) (db : Ukg) :
    newestId order db =
      ((order.page db.windowCapture.rows 1 i64Max).head?.map Prod.fst).getD 0 := by
  rw [newestId, timeline, Ukg.limitTo, if_neg (by decide), List.head?_map, Option.map_map]
  rfl

/-- The stream starts at a capture with the newest timestamp that the timeline can reach, or at
    zero if it can reach none. -/
theorem newestId_spec [Ukg.JoinOrder] (order : Descending stampOf) (db : Ukg) :
    (newestId order db = 0 ∧ ∀ r ∈ db.windowCapture.rows, i64Max ≤ stampOf r) ∨
    ∃ r ∈ db.windowCapture.rows, newestId order db = r.1 ∧ stampOf r < i64Max ∧
      ∀ o ∈ db.windowCapture.rows, stampOf o < i64Max → stampOf o ≤ stampOf r := by
  have hperm := order.perm 1 (db.windowCapture.rows.filter fun r => stampOf r < i64Max)
  have hsorted := order.sorted 1 (db.windowCapture.rows.filter fun r => stampOf r < i64Max)
  rw [newestId_eq, Descending.page]
  cases hlist : order.arrange 1 (db.windowCapture.rows.filter fun r => stampOf r < i64Max) with
  | nil =>
    rw [hlist] at hperm
    refine Or.inl ⟨rfl, fun r hr => le_of_not_gt fun hlt => ?_⟩
    have hmem := hperm.mem_iff.mpr (List.mem_filter.mpr ⟨hr, decide_eq_true hlt⟩)
    exact absurd hmem List.not_mem_nil
  | cons r rest =>
    rw [hlist] at hperm hsorted
    obtain ⟨hr, hreach⟩ := List.mem_filter.mp (hperm.mem_iff.mp List.mem_cons_self)
    refine Or.inr ⟨r, hr, rfl, of_decide_eq_true hreach, fun o ho hlt => ?_⟩
    rcases List.mem_cons.mp (hperm.mem_iff.mpr (List.mem_filter.mpr ⟨ho, decide_eq_true hlt⟩)) with
      rfl | hrest
    · exact le_refl _
    · exact (List.pairwise_cons.mp hsorted).1 o hrest

/-- The id a stream starts from is one that was given out, so what is inserted later has a larger
    one. -/
theorem newestId_le_seq [Ukg.JoinOrder] (order : Descending stampOf) {db : Ukg}
    (hids : db.windowCapture.FromOne) :
    newestId order db ≤ db.windowCapture.seq := by
  rcases newestId_spec order db with ⟨hzero, -⟩ | ⟨r, hr, hid, -⟩
  · exact hzero ▸ hids.seq
  · exact hid ▸ db.windowCapture.bound r hr

/-- An engine that prefers a capture with the newest timestamp starts the stream there. -/
theorem newestId_preferring [Ukg.JoinOrder] (order : Descending stampOf) {db : Ukg}
    {r : Int × WindowCaptureRow}
    (hr : r ∈ db.windowCapture.rows) (hreach : stampOf r < i64Max)
    (hnewest : ∀ o ∈ db.windowCapture.rows, stampOf o < i64Max → stampOf o ≤ stampOf r) :
    newestId (order.preferring r) db = r.1 := by
  have hfirst : r ∈ db.windowCapture.rows.filter (fun r => stampOf r < i64Max) ∧
      ∀ o ∈ db.windowCapture.rows.filter (fun r => stampOf r < i64Max), stampOf o ≤ stampOf r := by
    refine ⟨List.mem_filter.mpr ⟨hr, decide_eq_true hreach⟩, fun o ho => ?_⟩
    obtain ⟨hmem, hlt⟩ := List.mem_filter.mp ho
    exact hnewest o hmem (of_decide_eq_true hlt)
  rw [newestId_eq, Descending.page, Descending.preferring]
  dsimp only
  rw [if_pos hfirst]
  rfl

/-- The capture stored last has the largest id, whatever its timestamp. -/
theorem last_spec {db : Ukg} {earlier : List (Int × WindowCaptureRow)}
    {last : Int × WindowCaptureRow} (hrows : db.windowCapture.rows = earlier ++ [last]) :
    (∀ r, r ∈ db.windowCapture.rows ↔ r ∈ earlier ∨ r = last) ∧ ∀ r ∈ earlier, r.1 < last.1 := by
  have hsorted := db.windowCapture.sorted
  rw [hrows, List.pairwise_append] at hsorted
  refine ⟨fun r => ?_, fun r hr => hsorted.2.2 r hr last (List.mem_singleton_self last)⟩
  rw [hrows, List.mem_append, List.mem_singleton]

/-- **The capture stored last has the newest timestamp**: so the stream starts past every stored
    capture, whatever the order among equal timestamps; and only then. -/
theorem newestId_last_iff [Ukg.JoinOrder] {db : Ukg} (hids : db.windowCapture.FromOne) :
    (∀ order, ∀ r ∈ db.windowCapture.rows, r.1 ≤ newestId order db) ↔ NewestStoredLast db := by
  constructor
  · intro hstart earlier last hrows
    obtain ⟨hmem, hbefore⟩ := last_spec hrows
    have hlast : last ∈ db.windowCapture.rows := (hmem last).mpr (Or.inr rfl)
    -- the stream starts at the last capture
    have hnewest : stampOf last < i64Max ∧
        ∀ o ∈ db.windowCapture.rows, stampOf o < i64Max → stampOf o ≤ stampOf last := by
      have hle := hstart insertionOrder last hlast
      rcases newestId_spec insertionOrder db with ⟨hzero, -⟩ | ⟨r, hr, hid, hreach, hmax⟩
      · exact absurd (hids.rows last hlast) (not_lt.mpr (hzero ▸ hle))
      · rcases (hmem r).mp hr with hearlier | rfl
        · exact absurd (hbefore r hearlier) (not_lt.mpr (hid ▸ hle))
        · exact ⟨hreach, hmax⟩
    refine ⟨hnewest.1, fun r hr hreach => lt_of_not_ge fun hge => ?_⟩
    -- an engine may prefer an earlier capture with the same timestamp
    have hfirst := newestId_preferring insertionOrder ((hmem r).mpr (Or.inl hr)) hreach
      fun o ho hlt => (hnewest.2 o ho hlt).trans hge
    have hle := hstart (insertionOrder.preferring r) last hlast
    rw [hfirst] at hle
    exact absurd (hbefore r hr) (not_lt.mpr hle)
  · intro hnewest order r hr
    obtain ⟨earlier, last, hrows⟩ : ∃ earlier last, db.windowCapture.rows = earlier ++ [last] :=
      ⟨_, _, (List.dropLast_append_getLast (List.ne_nil_of_mem hr)).symm⟩
    obtain ⟨hmem, hbefore⟩ := last_spec hrows
    obtain ⟨hreach, hlater⟩ := hnewest earlier last hrows
    have hlast : last ∈ db.windowCapture.rows := (hmem last).mpr (Or.inr rfl)
    have hstart : newestId order db = last.1 := by
      rcases newestId_spec order db with ⟨-, hnone⟩ | ⟨s, hs, hid, hlt, hmax⟩
      · exact absurd (hnone last hlast) (not_le.mpr hreach)
      · rcases (hmem s).mp hs with hearlier | rfl
        · exact absurd (hlater s hearlier hlt) (not_lt.mpr (hmax last hlast hreach))
        · exact hid
    rw [hstart]
    rcases (hmem r).mp hr with hearlier | rfl
    · exact (hbefore r hearlier).le
    · exact le_refl _

/-! ### The stream -/

section
variable [UuidText] [TextTables]

/-- **When the live stream sends exactly the new captures.**  Whatever the order among equal
    timestamps, and whatever is inserted and polled: a stream sends the captures inserted since it
    began, each once, exactly if the capture stored last by then has the newest timestamp. -/
theorem live_delivers_iff [Ukg.JoinOrder] {server : ServerState} {client : String} {dir : ClientDir}
    (hclient : clientDir server.clients client = .ok dir)
    (hids : (server.openDb client).2.windowCapture.FromOne) (events : List LiveInput) :
    (∀ order, ∃ st, liveStart order server client = .ok st ∧
      DeliversNew client (server.openDb client).2 (Runs.run (LiveState.step client) st events)) ↔
    NewestStoredLast (server.openDb client).2 := by
  have hdelivers : ∀ order, (∃ st, liveStart order server client = .ok st ∧
      DeliversNew client (server.openDb client).2 (Runs.run (LiveState.step client) st events)) ↔
      ∀ r ∈ (server.openDb client).2.windowCapture.rows,
        r.1 ≤ newestId order (server.openDb client).2 := by
    intro order
    have hstart : liveStart order server client = .ok
        { server := (server.openDb client).1
          lastId := newestId order (server.openDb client).2
          sent := [] } := by
      rw [liveStart, hclient]
    have hle := newestId_le_seq order hids
    have hbegin : Streaming client (server.openDb client).2
        (newestId order (server.openDb client).2) (server.openDb client).2 []
        { server := (server.openDb client).1
          lastId := newestId order (server.openDb client).2
          sent := [] } :=
      ⟨storedDb_openDb server client, Grown.refl _, Follows.begin _ _ _, hle, rfl⟩
    obtain ⟨now, taken, hrun⟩ := hbegin.run events
    rw [← hrun.delivers_iff hle]
    constructor
    · rintro ⟨st, hst, hnew⟩
      rw [hstart] at hst
      exact Except.ok.inj hst ▸ hnew
    · intro hnew
      exact ⟨_, hstart, hnew⟩
  rw [← newestId_last_iff hids]
  exact forall_congr' hdelivers

end

/-! ### Two stored captures -/

/-- Two captures, stored one after the other with these timestamps. -/
def twoStored (first second : Int) : Ukg :=
  { Ukg.new with
    windowCapture :=
      (Table.empty.insert { captureAtFive "a" with timeStamp := first }).insert
        { captureAtFive "b" with timeStamp := second } }

/-- A client's directory with this database and nothing else. -/
def onlyCaptures (db : Ukg) : ClientDir where
  ukg := db
  text := SiDb.new
  image := SiDb.new
  files := Files.empty

/-- A server with one client. -/
def serverWith (db : Ukg) : ServerState where
  clients := Function.update (fun _ => none) smallId (some (onlyCaptures db))
  stray := fun _ => none

section

attribute [local instance] TextTables.ascii UuidText.crate Ukg.joinInserted

/-- The one client of that server. -/
theorem clients_serverWith (db : Ukg) :
    (serverWith db).clients smallId = some (onlyCaptures db) := by
  simp only [serverWith, Function.update_self]

/-- It is found under the text of its id. -/
theorem clientDir_serverWith (db : Ukg) :
    clientDir (serverWith db).clients smallId.text = .ok (onlyCaptures db) :=
  clientDir_known (UuidText.parseStr_text smallId) (clients_serverWith db)

/-- And its database opens as it was stored. -/
theorem openDb_serverWith (db : Ukg) :
    (serverWith db).openDb smallId.text = (serverWith db, db) :=
  openDb_text (clients_serverWith db)

/-- The newer capture was stored last: a stream starts there and delivers what is inserted then. -/
theorem live_delivers_inOrder :
    ∃ st, liveStart insertionOrder (serverWith (twoStored 5 9)) smallId.text = .ok st ∧
      DeliversNew smallId.text (twoStored 5 9)
        (Runs.run (LiveState.step smallId.text) st [.insert smallRecord, .poll]) := by
  have hlast : NewestStoredLast (twoStored 5 9) := by
    intro earlier last hrows
    obtain ⟨rfl, hsame⟩ := List.append_inj' (show [_] ++ [_] = earlier ++ [last] from hrows) rfl
    obtain rfl := List.singleton_inj.mp hsame
    decide
  have hids : (twoStored 5 9).windowCapture.FromOne := (Table.FromOne.empty.insert _).insert _
  have hdelivers := (live_delivers_iff (clientDir_serverWith (twoStored 5 9))
    (openDb_serverWith _ ▸ hids) [.insert smallRecord, .poll]).mpr
  rw [openDb_serverWith] at hdelivers
  exact hdelivers hlast insertionOrder

/-- **A stored capture is sent again.**  The one stored last is the older one: the stream starts
    before it, and the first poll sends it. -/
theorem live_resends_stored :
    ∃ st, liveStart insertionOrder (serverWith (twoStored 9 5)) smallId.text = .ok st ∧
      (Runs.run (LiveState.step smallId.text) st [.poll]).sent.map LiveMessage.windowCaptureId
        = [2] ∧
      ¬ DeliversNew smallId.text (twoStored 9 5)
        (Runs.run (LiveState.step smallId.text) st [.poll]) := by
  have hstart : liveStart insertionOrder (serverWith (twoStored 9 5)) smallId.text
      = .ok ⟨serverWith (twoStored 9 5), 1, []⟩ := by
    rw [liveStart, clientDir_serverWith]
    dsimp only
    rw [openDb_serverWith]
    rfl
  have hpoll : LiveState.step smallId.text ⟨serverWith (twoStored 9 5), 1, []⟩ .poll
      = ⟨serverWith (twoStored 9 5), 2,
          [liveMessage (2, { captureAtFive "b" with timeStamp := 5 })]⟩ := by
    show livePoll _ _ (fun server => server) = _
    rw [livePoll, openDb_serverWith]
    rfl
  refine ⟨_, hstart, ?_, fun hdelivers => ?_⟩
  · rw [Runs.run_cons, hpoll]
    rfl
  · rw [Runs.run_cons, hpoll] at hdelivers
    obtain ⟨r, hr, -⟩ := hdelivers.inserted _ List.mem_cons_self
    rw [Runs.run_nil, openDb_serverWith] at hr
    have hnone : insertedSince (twoStored 9 5) (twoStored 9 5) = [] := by decide
    exact absurd (hnone ▸ hr) List.not_mem_nil

end

end Precall.Api
