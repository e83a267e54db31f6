import Precall.Api.Guards

namespace Precall.Api

open ByteLib TextLib Durable Precall.Proto Precall.Store

/-!
# The text leg over whole histories

A processed capture is not looked at again by the text leg, so its text work must be settled.
The invariant `ProcessedSettled` says it is, or a rebuild of the text store is under way whose
requeue will make every capture fresh again.  It holds at every crash point of every history
(`processedSettled_of_guarded`).

* `textKept_of_requeued` — a pass that runs to its end strands no text, unless an earlier pass
  was interrupted between `clear` (or the reset of the availability flag) and
  `mark_all_unprocessed` and the pass does not restart the leg;
* `textKept_fails` — in that case it can.
-/

/-- The text work of a processed capture is settled, or every capture is about to be requeued: a
    rebuild of the text store is under way. -/
def ProcessedSettled (dim : Nat) (dir : ClientDir) (log : List Event) : Prop :=
  ∀ wcId w, (wcId, w) ∈ dir.ukg.windowCapture.rows → w.isProcessed = true →
    TextSettled dim wcId dir log ∨ rebuilding .text log = true

/-- A capture has OCR text: one of its regions carries some that is not empty. -/
def HasOcrText (dir : ClientDir) (wcId : Int) : Prop :=
  ∃ r ∈ dir.ukg.regions wcId, ∃ t, r.2.ocrText = some t ∧ t ≠ ""

/-- No capture with OCR text is stranded: its text is searchable, it is fresh, the leg is known
    to be unavailable, or the embedder turned this text down since the last rebuild. -/
def TextKept (dim : Nat) (dir : ClientDir) (log : List Event) : Prop :=
  ∀ wcId w, (wcId, w) ∈ dir.ukg.windowCapture.rows → HasOcrText dir wcId →
    (dir.index .text).hasItem (itemIdForCapture wcId) = true ∨
    w.isProcessed = false ∨
    dir.ukg.getConfig textUnavailable = some "1" ∨
    textRefused dim wcId log = true

/-- A capture with text in one of its regions has text. -/
theorem ocrText_ne_empty {dir : ClientDir} {wcId : Int} (h : HasOcrText dir wcId) :
    ocrText dir.ukg wcId ≠ "" := by
  obtain ⟨r, hr, t, ht, hne⟩ := h
  exact intercalate_ne_empty (List.mem_filterMap.mpr ⟨r, hr, ht⟩) hne

section
variable [TextTables]

/-! ### Captures and their regions under an event -/

omit [TextTables] in
/-- Inserting regions for one capture leaves the regions of the others alone. -/
private theorem filter_insertRegions {wcId new : Int} (hne : wcId ≠ new)
    (regions : List ScreenRegionRecord) (t : TableLib.Table ScreenRegionRow) :
    (regions.foldl (fun t r => t.insert ⟨new, r.regionKind, r.ocrText, r.bounds⟩) t).rows.filter
        (fun r => r.2.windowCaptureId == wcId)
      = t.rows.filter fun r => r.2.windowCaptureId == wcId := by
  induction regions generalizing t with
  | nil => rfl
  | cons r rs ih =>
    rw [List.foldl_cons, ih]
    simp [List.filter_append, hne.symm]

/-- A new capture does not change the OCR text of the captures that were there; its regions are
    its own. -/
theorem ocrText_insertCapture (ukg : Ukg) (rec : WindowCaptureRecord) {wcId : Int}
    {w : WindowCaptureRow} (hmem : (wcId, w) ∈ ukg.windowCapture.rows) :
    ocrText (ukg.insertCapture rec).1 wcId = ocrText ukg wcId := by
  unfold Ukg.insertCapture
  split
  · rfl
  · have hne : wcId ≠ ukg.windowCapture.nextId := ne_of_lt (TableLib.Table.lt_nextId hmem)
    simp only [ocrText, Ukg.regions, filter_insertRegions hne]

/-- Where a capture row comes from: a row of the same capture, no less processed unless the event
    marks it, or a fresh one. -/
theorem capture_apply {e : Event} {dir : ClientDir} {wcId : Int} {w : WindowCaptureRow}
    (h : (wcId, w) ∈ (e.apply dir).ukg.windowCapture.rows) (hproc : w.isProcessed = true) :
    ∃ v, (wcId, v) ∈ dir.ukg.windowCapture.rows ∧
      (v.isProcessed = true ∨ e = .markProcessed wcId) := by
  cases e with
  | insertCapture rec =>
    simp only [Event.apply, Ukg.insertCapture] at h
    split at h
    · exact ⟨w, h, Or.inl hproc⟩
    · rcases TableLib.Table.mem_insert.mp h with h | ⟨-, rfl⟩
      · exact ⟨w, h, Or.inl hproc⟩
      · cases hproc
  | markAllUnprocessed =>
    obtain ⟨v, -, rfl⟩ := TableLib.Table.mem_update.mp h
    cases hproc
  | markProcessed id =>
    obtain ⟨v, hv, rfl⟩ := TableLib.Table.mem_update.mp h
    refine ⟨v, hv, ?_⟩
    rcases eq_or_ne wcId id with rfl | hne
    · exact Or.inr rfl
    · rw [if_neg hne] at hproc
      exact Or.inl hproc
  | _ =>
    refine ⟨w, ?_, Or.inl hproc⟩
    rw [Event.windowCapture_apply] at h
    · exact h
    all_goals simp

/-! ### The invariant -/

/-- Every guarded event keeps the invariant.  The cases that matter are the processed mark, the
    vectors and the steps of a rebuild. -/
theorem stable_processedSettled (client : String) (dim : Nat) :
    Stable Event.apply (Guard client dim) (ProcessedSettled dim) := by
  intro e dir log hguard hinv wcId w hw hproc
  by_cases hrequeue : e = .markAllUnprocessed
  · -- nothing is processed after the requeue
    subst hrequeue
    obtain ⟨v, -, rfl⟩ := TableLib.Table.mem_update.mp hw
    cases hproc
  have hcloses : closes .text e = false := by
    cases e <;> first | rfl | exact absurd rfl hrequeue
  have hstill : rebuilding .text log = true → rebuilding .text (log ++ [e]) = true := by
    intro h
    simp [h, hcloses]
  obtain ⟨v, hv, hmark⟩ := capture_apply hw hproc
  -- processed before, or marked just now under a guard that says the same
  have hbefore : TextSettled dim wcId dir log ∨ rebuilding .text log = true := by
    rcases hmark with hmark | rfl
    · exact hinv wcId v hv hmark
    · exact Or.inl hguard
  rcases hbefore with hsettled | hopen
  · cases hdisturbs : disturbsText e with
    | false => exact Or.inl (hsettled.apply hdisturbs)
    | true =>
      -- what disturbs settled text work opens a rebuild or belongs to one
      cases e with
      | clearMetadata leg => exact Or.inr (by simp [opens, beq_iff_eq.mp hdisturbs])
      | clearGraph leg =>
        obtain rfl := beq_iff_eq.mp hdisturbs
        exact Or.inr (hstill hguard.1)
      | clearItems leg =>
        obtain rfl := beq_iff_eq.mp hdisturbs
        exact Or.inr (hstill hguard.1)
      | setConfig key value =>
        obtain rfl := beq_iff_eq.mp hdisturbs
        -- raising the flag settles the capture, lowering it opens the leg
        rcases eq_or_ne value "1" with rfl | hne
        · exact Or.inl (Or.inr (Or.inr (Or.inl (AList.lookup_insert _))))
        · exact Or.inr (by simp [opens, hne])
      | insertCapture rec =>
        -- the new capture's regions are its own
        refine Or.inl ?_
        rcases hsettled with h | h | h | h
        · exact Or.inl ((ocrText_insertCapture dir.ukg rec hv).trans h)
        · exact Or.inr (Or.inl (Event.hasItem_apply rfl h))
        · refine Or.inr (Or.inr (Or.inl ?_))
          rw [Event.getConfig_apply fun _ heq => by cases heq]
          exact h
        · refine Or.inr (Or.inr (Or.inr ?_))
          rw [textRefused_concat]
          exact h
      | _ => cases hdisturbs
  · exact Or.inr (hstill hopen)

/-- The invariant holds at every crash point of every history, and after every pass, since it
    holds of the empty log. -/
theorem processedSettled_of_guarded {client : String} {dim : Nat} {log : List Event}
    (h : Guarded Event.apply (Guard client dim) ClientDir.new log) :
    ProcessedSettled dim (ClientDir.after log) log :=
  h.invariant (stable_processedSettled client dim) fun _ _ hw => by cases hw

omit [TextTables] in
/-- Without a rebuild under way, the invariant leaves no text stranded. -/
theorem textKept_of_inv {dim : Nat} {dir : ClientDir} {log : List Event}
    (hinv : ProcessedSettled dim dir log) (hclosed : rebuilding .text log = false) :
    TextKept dim dir log := by
  intro wcId w hw hocr
  cases hproc : w.isProcessed with
  | false => exact Or.inr (Or.inl rfl)
  | true =>
    rcases hinv wcId w hw hproc with hsettled | hopen
    · rcases hsettled with h | h | h | h
      · exact absurd h (ocrText_ne_empty hocr)
      · exact Or.inl h
      · exact Or.inr (Or.inr (Or.inl h))
      · exact Or.inr (Or.inr (Or.inr h))
    · rw [hclosed] at hopen
      cases hopen

/-- **When the text leg strands nothing.**  After any history, a pass that runs to its end leaves
    no text stranded, provided no requeue of the text leg was left outstanding, or the pass
    itself restarts the leg. -/
theorem textKept_of_requeued (cfg : EnrichConfig) (steps : List (Step cfg)) (env : PassEnv)
    (budget : Nat) (stats : EnrichStats)
    (hdone : (runPass cfg env budget (history cfg steps)).value = some stats)
    (hcond : rebuilding .text (history cfg steps) = false ∨
      restarts env (ClientDir.after (history cfg steps)) .text = true) :
    TextKept cfg.dim (runPass cfg env budget (history cfg steps)).store
      (runPass cfg env budget (history cfg steps)).log := by
  obtain ⟨hguarded, hpass⟩ := runPass_done cfg steps env budget
  have hend := hpass stats hdone
  rw [runPass_store]
  refine textKept_of_inv (processedSettled_of_guarded hguarded) ?_
  rcases hcond with h | h
  · exact hend.owing.repaid h
  · exact hend.repaid .text h

end

/-! ### An interrupted requeue -/

section

attribute [local instance] TextTables.ascii

/-- The text is embedded in space `T`; then the service reports `U`, and the pass stops after the
    three statements of `clear`. -/
def interruptedRequeue : List (Step smallConfig) :=
  [smallArrival,
    .pass (smallEnv 1000000000 (some ("T", "A")) (.ok [1] "T") (.ok [2] "A")) 100,
    .pass (smallEnv 2000000000 (some ("U", "A")) (.ok [3] "U") (.ok [2] "A")) 3]

/-- The next pass that finds `U` repairs it: the capture is requeued and its text embedded anew. -/
theorem textKept_of_requeued_small :
    TextKept 1
      (runPass smallConfig (smallEnv 3000000000 (some ("U", "A")) (.ok [3] "U") (.ok [2] "A")) 100
        (history smallConfig interruptedRequeue)).store
      (runPass smallConfig (smallEnv 3000000000 (some ("U", "A")) (.ok [3] "U") (.ok [2] "A")) 100
        (history smallConfig interruptedRequeue)).log :=
  textKept_of_requeued smallConfig interruptedRequeue
    (smallEnv 3000000000 (some ("U", "A")) (.ok [3] "U") (.ok [2] "A")) 100
    { textEmbeddings := 1 } (by decide +kernel) (Or.inr (by decide +kernel))

/-- If the service answers `T` again instead, the pass runs to its end and leaves the capture
    processed without a vector. -/
theorem textKept_fails :
    (runPass smallConfig (smallEnv 3000000000 (some ("T", "A")) (.ok [1] "T") (.ok [2] "A")) 100
      (history smallConfig interruptedRequeue)).value = some {} ∧
    ¬ TextKept 1
      (runPass smallConfig (smallEnv 3000000000 (some ("T", "A")) (.ok [1] "T") (.ok [2] "A")) 100
        (history smallConfig interruptedRequeue)).store
      (runPass smallConfig (smallEnv 3000000000 (some ("T", "A")) (.ok [1] "T") (.ok [2] "A")) 100
        (history smallConfig interruptedRequeue)).log := by
  refine ⟨by decide +kernel, fun hkept => ?_⟩
  have hmem : (1, { Ukg.captureRow smallRecord with isProcessed := true }) ∈
      (runPass smallConfig (smallEnv 3000000000 (some ("T", "A")) (.ok [1] "T") (.ok [2] "A")) 100
        (history smallConfig interruptedRequeue)).store.ukg.windowCapture.rows := by
    decide +kernel
  have hocr : (1, ⟨1, "text_block", some "hello", "0,0,1,1"⟩) ∈
      (runPass smallConfig (smallEnv 3000000000 (some ("T", "A")) (.ok [1] "T") (.ok [2] "A")) 100
        (history smallConfig interruptedRequeue)).store.ukg.regions 1 := by
    decide +kernel
  -- neither searchable, nor fresh, nor flagged, nor refused
  rcases hkept 1 _ hmem ⟨_, hocr, "hello", rfl, by decide⟩ with h | h | h | h
  · revert h
    decide +kernel
  · cases h
  · revert h
    decide +kernel
  · revert h
    decide +kernel

end

end Precall.Api
