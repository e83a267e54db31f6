import Precall.Broker.Session
import Precall.Lib.Runs

namespace Precall.Broker

open ByteLib TextLib Durable Precall.Proto Precall.Store

/-!
# Which frame a capture gets

The pairing rule of a session.  `Trace` runs the graphics and metadata halves of the session loop
and keeps a record beside them: every completed frame by number, the numbers of the frames still
queued, and which frame each capture was stored with.  Frames and batches are numbered from 0.

* `session_stores` — the record is that of the session: the objects it commits are the pairings;
* `Trace.Inv` — the queue is the tail end of the completed frames, so its length says which frame
  is at its front;
* `pairing_exact` — when each batch gets its own frame, for every session;
* `paired_of_regular` — one capture a batch and at most 64 frames outstanding are enough;
* `pairing_shifted` — a batch without captures shifts every later screenshot.
-/

/-- An object stored for a capture: the number of the capture's batch, and the frame with its own
    number. -/
structure Pairing where
  batch : Nat
  capture : WindowCaptureRecord
  frameNo : Nat
  frame : PendingFrame
  deriving DecidableEq, Repr

/-- The session's assembler and queue, with the record beside them: which frames were completed,
    and which objects stored. -/
structure Trace where
  frames : FrameAssembler
  pending : List PendingFrame
  completed : List PendingFrame
  queued : List Nat
  batches : Nat
  stored : List Pairing
  ended : Bool
  deriving DecidableEq, Repr

namespace Trace

/-- The trace of a session that has received nothing. -/
def new : Trace where
  frames := FrameAssembler.new
  pending := []
  completed := []
  queued := []
  batches := 0
  stored := []
  ended := false

/-- A `GfxRdp` payload: the frames it completes are numbered on and join the queue. -/
def gfx (t : Trace) (payload : Bytes) : Trace :=
  match handleGfx payload t.frames t.pending with
  | .error _ => { t with ended := true }
  | .ok (frames, pending) =>
    let done := (t.frames.feedAll (okPdus (gfxItems payload))).2
    -- the new frames are numbered from the count of those completed so far
    { t with
      frames := frames
      pending := pending
      completed := t.completed ++ done
      queued := (List.range' t.completed.length done.length).foldl pushPending t.queued }

/-- One capture takes the front of the queue, if there is a frame waiting, and the pairing is
    recorded. -/
def capture (t : Trace) (c : WindowCaptureRecord) : Trace :=
  match t.queued, t.pending with
  | q :: queued, f :: pending =>
      -- one entry per capture, whatever batch the capture came in
      { t with queued := queued, pending := pending, stored := t.stored ++ [⟨t.batches, c, q, f⟩] }
  | _, _ => t

/-- A batch is numbered and its captures take their frames; one of another client is dropped,
    though it is numbered too. -/
def batch (clientId : Uuid) (t : Trace) (b : CaptureBatch) : Trace :=
  let t' := if b.clientId ≠ clientId then t else b.captures.foldl capture t
  { t' with batches := t.batches + 1 }

section
variable (json : JsonReader) (clientId : Uuid)

/-- The batch a frame brings, if any. -/
def batch? (t : Trace) (frame : MuxFrame) : Option CaptureBatch :=
  if t.ended ∨ frame.channel ≠ .pcMeta then none else json.captureBatch frame.payload

/-- One mux frame on its channel; nothing happens after an error, which ends the session. -/
def step (t : Trace) (frame : MuxFrame) : Trace :=
  if t.ended then t
  else match frame.channel with
    | .gfxRdp => t.gfx frame.payload
    | .pcMeta => match json.captureBatch frame.payload with
      | some b => t.batch clientId b
      | none => { t with ended := true }
    | .pcAudio => match parseAudio json frame.payload with
      | .error _ => { t with ended := true }
      | .ok _ => t
    | .pcCtrl | .pcQuery => t

/-- The trace of a session. -/
def run (t : Trace) (msgs : List MuxFrame) : Trace := Runs.run (step json clientId) t msgs

/-- `P` holds of every batch of a session, in the state it arrives in; later batches see what
    earlier ones left. -/
def AtBatches (P : Trace → CaptureBatch → Prop) (t : Trace) (msgs : List MuxFrame) : Prop :=
  Runs.AtSteps (step json clientId) (fun t m => ∀ b ∈ t.batch? json m, P t b) t msgs

/-- Batch `i` comes after the payload that completes frame `i`, for every batch of the session. -/
def OneBatchPerFrame (msgs : List MuxFrame) : Prop :=
  AtBatches json clientId (fun t _ => t.batches < t.completed.length) new msgs

/-- Every object of a capture of batch `i` holds frame `i`: what the client means by sending them
    in turn. -/
def Paired (t : Trace) : Prop :=
  ∀ s ∈ t.stored, s.frameNo = s.batch ∧ t.completed[s.batch]? = some s.frame

/-- Batch `i` stores nothing, or finds frame `i` at the front of the queue and takes no other:
    with one capture, or with no second frame waiting. -/
def Due (t : Trace) (b : CaptureBatch) : Prop :=
  b.clientId = clientId → b.captures = [] ∨ t.pending = [] ∨
    ((b.captures.length = 1 ∨ t.pending.length = 1) ∧
      t.completed.length - t.pending.length = t.batches)

end

/-- The record only grows, at its end. -/
theorem stored_capture (t : Trace) (c : WindowCaptureRecord) :
    t.stored <+: (t.capture c).stored := by
  unfold capture
  split
  · exact List.prefix_append _ _
  · exact List.prefix_refl _

/-- The captures of a batch only add to what is stored. -/
theorem stored_foldl_capture (t : Trace) (cs : List WindowCaptureRecord) :
    t.stored <+: (cs.foldl capture t).stored := by
  induction cs generalizing t with
  | nil => exact List.prefix_refl _
  | cons c cs ih => exact (t.stored_capture c).trans (ih (t.capture c))

/-- So does any frame of the session. -/
theorem stored_step (json : JsonReader) (clientId : Uuid) (t : Trace) (m : MuxFrame) :
    t.stored <+: (t.step json clientId m).stored := by
  unfold step gfx batch
  split
  · exact List.prefix_refl _
  · split
    · split <;> exact List.prefix_refl _
    · split
      · dsimp only
        split
        · exact List.prefix_refl _
        · exact t.stored_foldl_capture _
      · exact List.prefix_refl _
    · split <;> exact List.prefix_refl _
    · exact List.prefix_refl _
    · exact List.prefix_refl _

/-- And so does a run: what was stored once stays first. -/
theorem stored_run (json : JsonReader) (clientId : Uuid) (t : Trace) (msgs : List MuxFrame) :
    t.stored <+: (t.run json clientId msgs).stored := by
  have hstep : ∀ (t' : Trace) m, t.stored <+: t'.stored →
      t.stored <+: (t'.step json clientId m).stored :=
    fun t' m h => h.trans (t'.stored_step json clientId m)
  exact Runs.run_invariant hstep (List.prefix_refl _) msgs

/-! ### The queue is the tail end of the completed frames -/

/-- The record and the queue agree: both are the tail end of the frames completed so far, and what
    has been stored are those frames. -/
structure Inv (t : Trace) : Prop where
  pending : t.pending <:+ t.completed
  queued : t.queued <:+ List.range t.completed.length
  length : t.queued.length = t.pending.length
  bytes : ∀ s ∈ t.stored, t.completed[s.frameNo]? = some s.frame

/-- The invariant holds before anything was received. -/
theorem inv_new : Inv new where
  pending := List.suffix_refl []
  queued := List.suffix_refl []
  length := rfl
  bytes := by simp [new]

/-- Queues of the same length grow alike. -/
theorem length_foldl_pushPending {α β : Type} {p : List α} {q : List β} {xs : List α} {ys : List β}
    (h : q.length = p.length) (hxs : ys.length = xs.length) :
    (ys.foldl pushPending q).length = (xs.foldl pushPending p).length := by
  induction xs generalizing p q ys with
  | nil =>
    obtain rfl := List.length_eq_zero_iff.mp hxs
    exact h
  | cons x xs ih =>
    cases ys with
    | nil => cases hxs
    | cons y ys =>
      rw [List.foldl_cons, List.foldl_cons]
      refine ih ?_ (by simpa using hxs)
      rw [length_pushPending, length_pushPending, h]

/-- The numbers of the frames completed so far, and of those completed next. -/
theorem range_append_range' (m n : Nat) :
    List.range m ++ List.range' m n = List.range (m + n) := by
  rw [List.range_eq_range', List.range_eq_range']
  have h := @List.range'_append_1 0 m n
  rwa [Nat.zero_add] at h

/-- The queue holds the last frames completed, in order; whatever was completed before was taken
    or dropped. -/
theorem Inv.queued_eq {t : Trace} (h : Inv t) :
    t.queued = List.range' (t.completed.length - t.pending.length) t.pending.length := by
  have hlen : t.pending.length ≤ t.completed.length := h.pending.length_le
  have hdrop := List.suffix_iff_eq_drop.mp h.queued
  rw [List.length_range, List.range_eq_range', List.drop_range', h.length] at hdrop
  rw [hdrop]
  congr 1 <;> omega

/-- The frame at the front of the queue is the one its number names. -/
theorem Inv.front {t : Trace} (h : Inv t) {q : Nat} {queued : List Nat} {f : PendingFrame}
    {pending : List PendingFrame} (hq : t.queued = q :: queued) (hp : t.pending = f :: pending) :
    t.completed[q]? = some f := by
  have hnumber := h.queued_eq
  rw [hq, hp, List.length_cons, List.range'_succ] at hnumber
  obtain rfl := (List.cons.inj hnumber).1
  have hdrop := List.suffix_iff_eq_drop.mp h.pending
  rw [hp, List.length_cons] at hdrop
  have hhead := congrArg (fun l => l[0]?) hdrop
  simpa using hhead.symm

/-- Graphics keep the invariant: a frame that is put out is numbered and joins the queue, and
    where the queue is full the oldest is dropped. -/
theorem Inv.gfx {t : Trace} (h : Inv t) (payload : Bytes) : Inv (t.gfx payload) := by
  unfold Trace.gfx
  split
  · exact ⟨h.pending, h.queued, h.length, h.bytes⟩
  · rename_i frames pending hok
    obtain ⟨-, hpending⟩ := handleGfx_ok hok
    refine { pending := ?_, queued := ?_, length := ?_, bytes := fun s hs => ?_ }
    · dsimp only
      rw [hpending]
      exact foldl_pushPending_suffix _ h.pending
    · -- the numbers drop out at the front together with the frames
      have hsuffix := foldl_pushPending_suffix (List.range' t.completed.length
        (t.frames.feedAll (okPdus (gfxItems payload))).2.length) h.queued
      rw [range_append_range', ← List.length_append] at hsuffix
      exact hsuffix
    · dsimp only
      rw [hpending]
      exact length_foldl_pushPending h.length (by simp)
    · exact List.getElem?_append_left (List.getElem?_eq_some_iff.mp (h.bytes s hs)).1 ▸ h.bytes s hs

/-- A record keeps it: it takes the oldest pending frame, or none. -/
theorem Inv.capture {t : Trace} (h : Inv t) (c : WindowCaptureRecord) : Inv (t.capture c) := by
  unfold Trace.capture
  split
  · rename_i q queued f pending hq hp
    refine { pending := ?_, queued := ?_, length := ?_, bytes := ?_ }
    · exact (List.suffix_cons f pending).trans (hp ▸ h.pending)
    · exact (List.suffix_cons q queued).trans (hq ▸ h.queued)
    · have hlen := h.length
      rw [hq, hp] at hlen
      exact Nat.succ_inj.mp hlen
    · intro s hs
      rcases List.mem_append.mp hs with hs | hs
      · exact h.bytes s hs
      · obtain rfl := List.mem_singleton.mp hs
        exact h.front hq hp
  · exact h

/-- So do all records of a batch, one after the other. -/
theorem Inv.captures {t : Trace} (h : Inv t) (cs : List WindowCaptureRecord) :
    Inv (cs.foldl Trace.capture t) := by
  induction cs generalizing t with
  | nil => exact h
  | cons c cs ih => exact ih (h.capture c)

/-- A batch keeps it, also one that is refused because it is another client's. -/
theorem Inv.batch {t : Trace} (h : Inv t) (clientId : Uuid) (b : CaptureBatch) :
    Inv (t.batch clientId b) := by
  have hkept : Inv (if b.clientId ≠ clientId then t else b.captures.foldl Trace.capture t) := by
    split
    · exact h
    · exact h.captures b.captures
  exact ⟨hkept.pending, hkept.queued, hkept.length, hkept.bytes⟩

/-- Every frame of a session keeps the invariant, one case for each channel. -/
theorem Inv.step {t : Trace} (h : Inv t) (json : JsonReader) (clientId : Uuid) (m : MuxFrame) :
    Inv (t.step json clientId m) := by
  have hend : Inv { t with ended := true } := ⟨h.pending, h.queued, h.length, h.bytes⟩
  unfold Trace.step
  split
  · exact h
  · split
    · exact h.gfx m.payload
    · split
      · exact h.batch clientId _
      · exact hend
    · split
      · exact hend
      · exact h
    · exact h
    · exact h

/-- So it holds after every run. -/
theorem Inv.run {t : Trace} (h : Inv t) (json : JsonReader) (clientId : Uuid)
    (msgs : List MuxFrame) : Inv (t.run json clientId msgs) :=
  Runs.run_invariant (fun _ m h => h.step json clientId m) h msgs

/-! ### When each batch gets its own frame -/

/-- What a batch adds to the record: its captures with the front of the queue, as many as there
    are frames. -/
theorem stored_captures (t : Trace) (cs : List WindowCaptureRecord) (h : Inv t) :
    (cs.foldl Trace.capture t).stored = t.stored ++
      (cs.zip (t.queued.zip t.pending)).map fun c => ⟨t.batches, c.1, c.2.1, c.2.2⟩ := by
  induction cs generalizing t with
  | nil => simp
  | cons c cs ih =>
    rw [List.foldl_cons, ih _ (h.capture c)]
    unfold Trace.capture
    split
    · rename_i q queued f pending hq hp
      simp [hq, hp]
    · rename_i hfront
      have hempty : t.queued.zip t.pending = [] := by
        cases hq : t.queued with
        | nil => rfl
        | cons q queued =>
          cases hp : t.pending with
          | nil => rfl
          | cons f pending => exact absurd hp (hfront q queued f pending hq)
      simp [hempty]

/-- The numbers along the queue are consecutive, so all of those taken are `i` only if at most
    one is. -/
theorem numbers_due (f p i : Nat) (cs : List WindowCaptureRecord) :
    (∀ n ∈ (cs.zip (List.range' (f - p) p)).map Prod.snd, n = i) ↔
      cs = [] ∨ p = 0 ∨ ((cs.length = 1 ∨ p = 1) ∧ f - p = i) := by
  match cs, p with
  | [], _ => simp
  | _ :: _, 0 => simp
  | [c], p + 1 => simp [List.range'_succ]
  | c :: d :: cs, 1 => simp [List.range'_succ]
  | c :: d :: cs, p + 2 =>
    simp [List.range'_succ]
    omega

/-- Every object of a capture of batch `i` is filed under the number `i`. -/
def Numbered (t : Trace) : Prop := ∀ s ∈ t.stored, s.frameNo = s.batch

/-- A number in the record names its frame, so to be paired is to be numbered right. -/
theorem paired_iff {t : Trace} (h : Inv t) : Paired t ↔ Numbered t := by
  constructor
  · exact fun hpaired s hs => (hpaired s hs).1
  · intro hnumbered s hs
    refine ⟨hnumbered s hs, ?_⟩
    rw [← hnumbered s hs]
    exact h.bytes s hs

/-- One batch: its objects are numbered right exactly if the batch is due. -/
theorem numbered_batch {t : Trace} (h : Inv t) (clientId : Uuid) (b : CaptureBatch) :
    Numbered (t.batch clientId b) ↔ Numbered t ∧ Due clientId t b := by
  by_cases hid : b.clientId = clientId
  · -- the captures take the numbers at the front of the queue, as many as there are
    have hstored : (t.batch clientId b).stored = (b.captures.foldl Trace.capture t).stored := by
      unfold Trace.batch
      rw [if_neg (not_not_intro hid)]
    have hsplit : Numbered (t.batch clientId b) ↔ Numbered t ∧
        ∀ n ∈ (b.captures.zip t.queued).map Prod.snd, n = t.batches := by
      -- the queue of frames is as long as that of numbers, so it drops out of the zip
      have hzip : b.captures.zip t.queued
          = (b.captures.zip (t.queued.zip t.pending)).map fun c => (c.1, c.2.1) := by
        have hfst : t.queued = (t.queued.zip t.pending).map Prod.fst :=
          (List.map_fst_zip (le_of_eq h.length)).symm
        conv_lhs => rw [hfst, List.zip_map_right]
        rfl
      unfold Numbered
      rw [hstored, stored_captures t b.captures h, hzip]
      simp only [List.mem_append, or_imp, forall_and, List.forall_mem_map]
    rw [hsplit, h.queued_eq, numbers_due, List.length_eq_zero_iff]
    simp [Due, hid]
  · have hstored : (t.batch clientId b).stored = t.stored := by
      unfold Trace.batch
      rw [if_pos hid]
    unfold Numbered Due
    rw [hstored]
    simp [hid]

section
variable (json : JsonReader) (clientId : Uuid)

/-- One mux frame: the numbers stay right exactly if the batch it may bring is due. -/
theorem numbered_step {t : Trace} (h : Inv t) (m : MuxFrame) :
    Numbered (t.step json clientId m) ↔
      Numbered t ∧ ∀ b ∈ t.batch? json m, Due clientId t b := by
  have hgfx : ∀ payload, Numbered (t.gfx payload) ↔ Numbered t := by
    intro payload
    unfold Trace.gfx
    split <;> exact Iff.rfl
  have hend : Numbered { t with ended := true } ↔ Numbered t := Iff.rfl
  unfold Trace.step Trace.batch?
  cases hended : t.ended with
  | true => simp
  | false =>
    cases hchannel : m.channel with
    | gfxRdp => simp [hgfx]
    | pcMeta =>
      cases hjson : json.captureBatch m.payload with
      | none =>
        -- an undecodable batch ends the session
        simpa using hend
      | some b => simp [numbered_batch h]
    | pcAudio =>
      cases parseAudio json m.payload with
      | error e => simpa using hend
      | ok head => simp
    | pcCtrl => simp
    | pcQuery => simp

/-- **When screenshots get their own metadata.**  In every session, the objects of batch `i` hold
    frame `i` for all `i` exactly if every batch of the session's client is empty, or finds the
    queue empty, or finds it to hold frame `i` and those after it and takes one frame only. -/
theorem pairing_exact (msgs : List MuxFrame) :
    Paired (new.run json clientId msgs) ↔
      AtBatches json clientId (Due clientId) new msgs := by
  have hrun := Runs.run_iff (fun _ m h => Inv.step h json clientId m)
    (fun _ m h => numbered_step json clientId h m) inv_new msgs
  rw [paired_iff (inv_new.run json clientId msgs)]
  exact hrun.trans (and_iff_right fun s hs => by cases hs)

/-! ### Regular sessions -/

/-- A batch of the session's own client with one capture, after its frame, as a client sends it
    that loses nothing. -/
def Regular (t : Trace) (b : CaptureBatch) : Prop :=
  b.clientId = clientId ∧ b.captures.length = 1 ∧ t.batches < t.completed.length

variable {clientId}

/-- A frame payload within the bound drops no frame. -/
theorem level_gfx {t : Trace} (hlevel : t.pending.length + t.batches = t.completed.length)
    {payload : Bytes}
    (hbound : (t.gfx payload).completed.length ≤ (t.gfx payload).batches + pendingCap) :
    (t.gfx payload).pending.length + (t.gfx payload).batches
      = (t.gfx payload).completed.length := by
  unfold gfx at hbound ⊢
  split
  · exact hlevel
  · rename_i frames pending hok
    obtain ⟨-, hpending⟩ := handleGfx_ok hok
    simp only [hok, List.length_append] at hbound ⊢
    -- the queue was short enough for all of the payload's frames
    rw [hpending, foldl_pushPending_of_le (by omega), List.length_append]
    omega

/-- A regular batch takes one frame, so queue and batches stay level with the frames completed. -/
theorem level_batch {t : Trace} (h : Inv t)
    (hlevel : t.pending.length + t.batches = t.completed.length) {b : CaptureBatch}
    (hreg : Regular clientId t b) :
    (t.batch clientId b).pending.length + (t.batch clientId b).batches
      = (t.batch clientId b).completed.length := by
  obtain ⟨hid, hone, hlt⟩ := hreg
  obtain ⟨c, hc⟩ := List.length_eq_one_iff.mp hone
  have hqueue := h.length
  simp only [batch, hid, hc, List.foldl_cons, List.foldl_nil]
  rw [if_neg (by simp)]
  -- the batch comes after its frame, so the queue is not empty
  unfold capture
  split
  · rename_i q queued f pending hq hp
    rw [hp, List.length_cons] at hlevel
    dsimp only
    omega
  · rename_i hfront
    cases hp : t.pending with
    | nil =>
      rw [hp, List.length_nil] at hlevel
      omega
    | cons f pending =>
      cases hq : t.queued with
      | nil =>
        rw [hp, hq] at hqueue
        cases hqueue
      | cons q queued => exact absurd hp (hfront q queued f pending hq)

/-- The frames completed and not yet named are those in the queue: none was dropped and none
    taken twice. -/
theorem level_step {t : Trace} (h : Inv t)
    (hlevel : t.pending.length + t.batches = t.completed.length) {m : MuxFrame}
    (hreg : ∀ b ∈ t.batch? json m, Regular clientId t b)
    (hbound : (t.step json clientId m).completed.length
      ≤ (t.step json clientId m).batches + pendingCap) :
    (t.step json clientId m).pending.length + (t.step json clientId m).batches
      = (t.step json clientId m).completed.length := by
  unfold Trace.batch? at hreg
  unfold Trace.step at hbound ⊢
  cases hended : t.ended with
  | true => simpa [hended] using hlevel
  | false =>
    simp only [hended, Bool.false_eq_true, if_false] at hbound ⊢
    cases hchannel : m.channel with
    | gfxRdp =>
      simp only [hchannel] at hbound
      exact level_gfx hlevel hbound
    | pcMeta =>
      cases hjson : json.captureBatch m.payload with
      | none => simpa using hlevel
      | some b =>
        simp only [hended, hchannel, hjson] at hreg
        exact level_batch h hlevel (hreg b (by simp))
    | pcAudio =>
      dsimp only
      split <;> exact hlevel
    | pcCtrl => exact hlevel
    | pcQuery => exact hlevel

/-- **Strict traffic is paired right.**  If every batch names the session's client and carries
    one capture, and never more than 64 frames wait for their batch, every screenshot gets its own
    metadata. -/
theorem paired_of_regular (msgs : List MuxFrame)
    (hreg : Runs.AtSteps (step json clientId) (fun t m =>
      (∀ b ∈ t.batch? json m, Regular clientId t b) ∧ (t.step json clientId m).completed.length
        ≤ (t.step json clientId m).batches + pendingCap) new msgs) :
    Paired (new.run json clientId msgs) := by
  rw [pairing_exact]
  refine hreg.mono_of (I := fun t => Inv t ∧ t.pending.length + t.batches = t.completed.length)
    ?_ ?_ ⟨inv_new, rfl⟩
  · rintro t m ⟨hinv, hlevel⟩ ⟨hbatch, hbound⟩
    exact ⟨hinv.step json clientId m, level_step json hinv hlevel hbatch hbound⟩
  · rintro t m ⟨hinv, hlevel⟩ ⟨hbatch, -⟩ b hb -
    obtain ⟨-, hone, -⟩ := hbatch b hb
    exact Or.inr (Or.inr ⟨Or.inl hone, by omega⟩)

end

end Trace

/-! ### The record is that of the session -/

/-- Is an event the object of a capture? Audio is stored as an object too, under an extension of
    its own. -/
def isFrameObject : Event → Bool
  | .putObject _ _ _ ext _ => ext != "opus"
  | _ => false

/-- The event stores the frame of a pairing as the object of its capture. -/
def IsObject (cfg : SessionConfig) (s : Pairing) (e : Event) : Prop :=
  ∃ nonce, e = putFrame cfg nonce s.capture s.frame

/-- The write of a frame is one of an object with a frame's extension. -/
theorem isFrameObject_putFrame (cfg : SessionConfig) (nonce : Bytes) (c : WindowCaptureRecord)
    (f : PendingFrame) : isFrameObject (putFrame cfg nonce c f) = true := by
  show (f.ext != "opus") = true
  unfold PendingFrame.ext
  split <;> rfl

/-- An object of a capture is written for one of the pairings. -/
def Stores (cfg : SessionConfig) (stored : List Pairing) (e : Event) : Prop :=
  isFrameObject e = true → ∃ s ∈ stored, IsObject cfg s e

/-- A write that is accounted for stays so when more is stored. -/
theorem Stores.mono {cfg : SessionConfig} {stored stored' : List Pairing} {e : Event}
    (h : Stores cfg stored e) (hsub : stored <+: stored') : Stores cfg stored' e := by
  intro he
  obtain ⟨s, hs, hobject⟩ := h he
  exact ⟨s, hsub.subset hs, hobject⟩

/-- The session is where its trace says, and the objects committed since `base` are the trace's
    pairings in order. -/
structure Recorded (cfg : SessionConfig) (base : List Event) (st : SessionState) (t : Trace)
    (log : List Event) : Prop where
  frames : st.frames = t.frames
  pending : st.pending = t.pending
  running : t.ended = false
  objects : ∃ events, log = base ++ events ∧
    List.Forall₂ (IsObject cfg) t.stored (events.filter isFrameObject)

/-- An event that is no object of a capture leaves the record alone. -/
theorem Recorded.concat {cfg : SessionConfig} {base log : List Event} {st : SessionState}
    {t : Trace} (h : Recorded cfg base st t log) (e : Event) (he : isFrameObject e = false) :
    Recorded cfg base st t (log ++ [e]) := by
  obtain ⟨events, rfl, hobjects⟩ := h.objects
  refine ⟨h.frames, h.pending, h.running, events ++ [e], List.append_assoc _ _ _, ?_⟩
  rw [List.filter_append, List.filter_singleton, he]
  simpa using hobjects

section
variable [TextTables] (cfg : SessionConfig) {base : List Event}

/-- A program that starts where the trace stands commits objects of `stored` only and ends where
    the trace stands next. -/
def Follows (base : List Event) (stored : List Pairing) (p : Ingester SessionState) (t : Trace)
    (s : ClientDir) (log : List Event) : Prop :=
  p.wp Event.apply (fun e _ _ => Stores cfg stored e)
    (fun st _ log => Recorded cfg base st t log) s log

/-- The code of one record does what the trace does, and writes the frame it was paired with. -/
theorem storeCapture_follows {t : Trace} (hinv : t.Inv) {st : SessionState} {s : ClientDir}
    {log : List Event} (h : Recorded cfg base st t log) (nonce : Bytes) (c : WindowCaptureRecord) :
    Follows cfg base (t.capture c).stored (storeCapture cfg nonce c st) (t.capture c) s log := by
  have hqueue := hinv.length
  have hpending := h.pending
  have hinsert : ∀ stored, Stores cfg stored (.insertCapture c) := fun _ hobject => by cases hobject
  cases hp : t.pending with
  | nil =>
    -- nothing pending: the capture is stored without an object
    obtain hq : t.queued = [] := List.length_eq_zero_iff.mp (by rw [hqueue, hp, List.length_nil])
    have hcapture : t.capture c = t := by
      unfold Trace.capture
      rw [hq]
    rw [hp] at hpending
    rw [hcapture]
    simp only [Follows, storeCapture, hpending, List.head?_nil, storeFrame, Prog.wp_bind,
      Prog.wp_pure, Prog.wp_get, Prog.wp_commit]
    obtain ⟨hframes, -, hrunning, hobjects⟩ := h.concat (.insertCapture c) rfl
    exact ⟨hinsert _, hframes, hp.symm, hrunning, hobjects⟩
  | cons f pending =>
    obtain ⟨q, queued, hq⟩ := List.exists_cons_of_length_pos
      (show 0 < t.queued.length by rw [hqueue, hp]; simp)
    have hcapture : t.capture c = { t with
        queued := queued, pending := pending, stored := t.stored ++ [⟨t.batches, c, q, f⟩] } := by
      unfold Trace.capture
      rw [hq, hp]
    rw [hp] at hpending
    rw [hcapture]
    simp only [Follows, storeCapture, hpending, List.head?_cons, storeFrame, Prog.wp_bind,
      Prog.wp_pure, Prog.wp_get, Prog.wp_commit, List.tail_cons]
    refine ⟨fun _ => ⟨_, List.mem_append_right _ (List.mem_singleton_self _), nonce, rfl⟩,
      hinsert _, h.frames, rfl, h.running, ?_⟩
    obtain ⟨events, rfl, hobjects⟩ := h.objects
    refine ⟨events ++ [putFrame cfg nonce c f, .insertCapture c], by simp, ?_⟩
    rw [List.filter_append]
    refine List.rel_append hobjects ?_
    simp only [List.filter_cons, isFrameObject_putFrame, if_true]
    exact List.Forall₂.cons ⟨nonce, rfl⟩ List.Forall₂.nil

/-- A program that commits objects of part of the record commits objects of the record. -/
theorem Follows.mono {stored stored' : List Pairing} {p : Ingester SessionState} {t : Trace}
    {s : ClientDir} {log : List Event} (h : Follows cfg base stored p t s log)
    (hsub : stored <+: stored') : Follows cfg base stored' p t s log :=
  Prog.wp_mono h (fun _ _ _ hstores => hstores.mono hsub) fun _ _ _ hQ => hQ

/-- The loop of `handle_meta`, by induction on the captures; `k` numbers the nonces. -/
theorem captures_follows (nonces : Nat → Bytes) (cs : List WindowCaptureRecord) (k : Nat)
    {t : Trace} (hinv : t.Inv) {st : SessionState} {s : ClientDir} {log : List Event}
    (h : Recorded cfg base st t log) :
    Follows cfg base (cs.foldl Trace.capture t).stored
      (Prog.forEach (fun c st => storeCapture cfg (nonces c.2) c.1 st) (cs.zipIdx k) st)
      (cs.foldl Trace.capture t) s log := by
  induction cs generalizing k t st s log with
  | nil => exact h
  | cons c cs ih =>
    refine Prog.wp_seq (Follows.mono cfg (storeCapture_follows cfg hinv h (nonces k) c) ?_) ?_
    · exact (t.capture c).stored_foldl_capture cs
    · exact fun st' s' log' h' => ih (k + 1) (hinv.capture c) h'

variable (json : JsonReader)

/-- One mux frame: the code on its channel does what the trace does. -/
theorem dispatch_follows (a : Arrival) {t : Trace} (hinv : t.Inv) {st : SessionState}
    {s : ClientDir} {log : List Event} (h : Recorded cfg base st t log) :
    Follows cfg base (t.step json cfg.clientId a.frame).stored (dispatch json cfg a st)
      (t.step json cfg.clientId a.frame) s log := by
  unfold dispatch Trace.step
  rw [h.running, h.frames, h.pending]
  cases hchannel : a.frame.channel with
  | gfxRdp =>
    simp only [Trace.gfx]
    cases hgfx : handleGfx a.frame.payload t.frames t.pending with
    | error e => trivial
    | ok out => exact ⟨rfl, rfl, h.running, h.objects⟩
  | pcMeta =>
    cases hjson : json.captureBatch a.frame.payload with
    | none => trivial
    | some b =>
      simp only [Bool.false_eq_true, if_false, Trace.batch, handleMeta]
      split
      · exact ⟨h.frames, h.pending, h.running, h.objects⟩
      · refine Prog.wp_post (captures_follows cfg a.nonces b.captures 0 hinv h) ?_
        exact fun _ _ _ h' => ⟨h'.frames, h'.pending, h'.running, h'.objects⟩
  | pcAudio =>
    simp only [handleAudio]
    cases parseAudio json a.frame.payload with
    | error e => trivial
    | ok parsed =>
      cases parsed with
      | none => exact h
      | some audio => exact ⟨(fun hobject => by cases hobject), h.concat _ rfl⟩
  | pcCtrl => exact h
  | pcQuery => exact h

/-- The loop of a session follows its trace, by induction on what arrives. -/
theorem loop_follows (arrivals : List Arrival) {t : Trace} (hinv : t.Inv) {st : SessionState}
    {s : ClientDir} {log : List Event} (h : Recorded cfg base st t log) :
    Follows cfg base (t.run json cfg.clientId (arrivals.map Arrival.frame)).stored
      (Prog.forEach (dispatch json cfg) arrivals st)
      (t.run json cfg.clientId (arrivals.map Arrival.frame)) s log := by
  induction arrivals generalizing t st s log with
  | nil => exact h
  | cons a as ih =>
    refine Prog.wp_seq (Follows.mono cfg (dispatch_follows cfg json a hinv h) ?_) ?_
    · exact Trace.stored_run json cfg.clientId _ (as.map Arrival.frame)
    · exact fun st' s' log' h' => ih (hinv.step json cfg.clientId a.frame) h'

/-- **The record is that of the session.**  A session stores objects of its trace's pairings only,
    and one that runs to its end has stored them all, in order. -/
theorem session_stores (now : Int) (arrivals : List Arrival) (s : ClientDir) (log : List Event) :
    Follows cfg log (Trace.new.run json cfg.clientId (arrivals.map Arrival.frame)).stored
      (session json cfg now arrivals)
      (Trace.new.run json cfg.clientId (arrivals.map Arrival.frame)) s log := by
  have hstart : Recorded cfg log SessionState.new Trace.new log :=
    ⟨rfl, rfl, rfl, [], (List.append_nil log).symm, List.Forall₂.nil⟩
  have hopen : ∀ leg s log', Recorded cfg log SessionState.new Trace.new log' →
      (openIndex cfg leg).wp Event.apply (fun e _ _ => Stores cfg (Trace.new.run json cfg.clientId
        (arrivals.map Arrival.frame)).stored e)
        (fun _ _ log' => Recorded cfg log SessionState.new Trace.new log') s log' := by
    intro leg s log' h
    simp only [openIndex, Prog.wp_bind, Prog.wp_get, Prog.wp_ite, Prog.wp_commit, Prog.wp_pure]
    exact ⟨fun _ => ⟨(fun hobject => by cases hobject), h.concat _ rfl⟩, fun _ => h⟩
  unfold session Follows
  refine Prog.wp_seq (hopen .text s log hstart) fun _ s₁ log₁ h₁ => ?_
  refine Prog.wp_seq (hopen .image s₁ log₁ h₁) fun _ s₂ log₂ h₂ => ?_
  rw [Prog.wp_bind, Prog.wp_commit]
  exact ⟨(fun hobject => by cases hobject),
    loop_follows cfg json arrivals Trace.inv_new (h₂.concat _ rfl)⟩

end

/-! ### A batch without captures -/

section

attribute [local instance] TextTables.ascii

/-- A client id of zeros. -/
def smallId : Uuid := ⟨Vector.replicate 16 0⟩

/-- A capture with image token `t`. -/
def smallCapture : WindowCaptureRecord :=
  { name := "notepad.exe (1)", imageToken := "t", isForeground := true, windowId := 1,
    windowBounds := "0,0,1,1", windowTitle := "notes", timestamp100ns := 116444736000000000 }

/-- The payload `[n]` is the batch `n`: the first has no captures, the others have one. -/
def smallJson : JsonReader where
  captureBatch := fun payload => match payload with
    | [0] => some ⟨smallId, 0, []⟩
    | [n] => some ⟨smallId, n.toUInt64, [smallCapture]⟩
    | _ => none
  audioHead := fun _ => none

/-- The frame `frameId` with one JPEG region, as the shared encoder writes it. -/
def smallFrame (frameId : UInt32) (jpeg : Bytes) : MuxFrame where
  channel := .gfxRdp
  payload := [GfxPdu.startFrame frameId 0,
    .wireToSurface1 1 rdpgfxCodecidJpeg rdpgfxPixelFormatXrgb8888 ⟨0, 0, 1, 1⟩ jpeg,
    .endFrame frameId].flatMap GfxPdu.encode

/-- Two frames, each followed by its batch; the first batch carries no captures, so its frame
    stays in the queue. -/
def shiftedSession : List MuxFrame :=
  [smallFrame 1 [0xaa], ⟨.pcMeta, [0]⟩, smallFrame 2 [0xbb], ⟨.pcMeta, [1]⟩]

/-- The configuration of its session, without encryption. -/
def smallSession : SessionConfig :=
  { clientId := smallId, hostname := "h", dim := 1, objects := ⟨none⟩ }

/-- The second batch's capture is stored with the first frame, which nobody had taken. -/
theorem pairing_shifted :
    Trace.OneBatchPerFrame smallJson smallId shiftedSession ∧
    ¬ Trace.Paired (Trace.new.run smallJson smallId shiftedSession) ∧
    putFrame smallSession [] smallCapture ⟨rdpgfxCodecidJpeg, [0xaa]⟩ ∈
      ((session smallJson smallSession 0 (shiftedSession.map fun m => ⟨m, fun _ => [], 0⟩)).run
        Event.apply 100 ClientDir.new []).log := by
  refine ⟨?_, ?_, by decide +kernel⟩
  · unfold Trace.OneBatchPerFrame Trace.AtBatches
    decide +kernel
  · unfold Trace.Paired
    decide +kernel

end

end Precall.Broker
