import Mathlib.Logic.Function.Basic
import Precall.Lib.Decode
import Precall.Lib.Runs
import Precall.Store.Objects

namespace Precall.Store

open ByteLib TextLib DecodeLib

/-!
# The key the processes of a data root share

`load_or_create_key` (`precall-store/src/objects.rs`), as any number of processes run it side by
side: each file operation is one step, and the schedule says whose turn it is.

* `decodeKey` — a key file read back, 32 raw bytes or hexadecimal;
* `KeyDir`, `step` — the key file, where each call stands, and one file operation;
* `Inv` — what every run keeps: an empty key file has a call about to write it, and a full one
  holds the key of a call that wrote it;
* `agree_iff` — the calls agree on the key left behind exactly if none writes over a different
  one; `agree_of_turns` — they do where nobody asks for the file while another is creating it.
-/

/-- An object-encryption key.  It is drawn once and kept in `.keys/objects.key` under the data
    root. -/
abbrev ObjectKey := Vector UInt8 32

/-- What a call of `load_or_create_key` returns: a key, or the error of the operation that was
    refused. -/
abbrev KeyResult := Exec ObjectError ObjectKey

/-- The key in a file: 32 bytes as they are, or else the trimmed text in hexadecimal.  A file of
    any other length or spelling is refused. -/
def decodeKey [TextTables] (raw : Bytes) : KeyResult :=
  if h : raw.length = 32 then .ok ⟨raw.toArray, h⟩
  else match hexPairs (ObjectStore.utf8 (trim (fromUtf8Lossy raw))) with
    | .ok decoded => if h : decoded.length = 32 then .ok ⟨decoded.toArray, h⟩ else fail .io
    | .error (.error _) => fail .io
    | .error .panicked => .error .panicked

/-- An empty file holds no key.  A call that reads between another's truncation and its write
    gets this error. -/
theorem decodeKey_nil [TextTables] : decodeKey [] = fail .io := by
  have htext : ObjectStore.utf8 (trim (fromUtf8Lossy [])) = [] := by
    simp [fromUtf8Lossy, decodeLossy, trim, ObjectStore.utf8]
  unfold decodeKey
  rw [htext]
  simp [hexPairs]

/-- A key written as it is reads back: 32 bytes are never taken for text. -/
theorem decodeKey_toList [TextTables] (k : ObjectKey) : decodeKey k.toList = .ok k := by
  unfold decodeKey
  rw [dif_pos k.length_toList]
  congr

namespace ObjectKey

/-- Where a call stands, by the operation it makes next.  Between two of its operations other
    calls may make theirs. -/
inductive Caller where
  /-- It asks whether the file exists. -/
  | ready
  /-- It reads the file. -/
  | found
  /-- It draws a key. -/
  | missing
  /-- It opens the file for writing, which empties it. -/
  | generated
  /-- It writes the key. -/
  | opened
  /-- It has returned what it read. -/
  | loaded (r : KeyResult)
  /-- It has returned what it created. -/
  | created (r : KeyResult)
  deriving DecidableEq, Repr

/-- What a call has returned. -/
def Caller.result? : Caller → Option KeyResult
  | .loaded r => some r
  | .created r => some r
  | _ => none

/-- The content of `.keys/objects.key`, and every call on it.  The calls share nothing but the
    file. -/
structure KeyDir (ι : Type) where
  file : Option Bytes
  callers : ι → Caller

variable {ι : Type}

/-- A data root without a key, and no call under way. -/
def KeyDir.initial : KeyDir ι := ⟨none, fun _ => .ready⟩

/-- A write of a whole key at the start of a file. -/
def writeKey (content : Option Bytes) (k : ObjectKey) : Bytes :=
  k.toList ++ (content.getD []).drop 32

section
variable [TextTables] [DecidableEq ι] (key : ι → ObjectKey)

/-- A call moves on. -/
def KeyDir.set (s : KeyDir ι) (i : ι) (c : Caller) : KeyDir ι :=
  { s with callers := Function.update s.callers i c }

/-- The next file operation of a call, which the operating system grants or refuses; `key i` is the
    key that call `i` draws if it has to.  A file whose existence cannot be told counts as
    missing. -/
def step (s : KeyDir ι) : ι × Bool → KeyDir ι
  | (i, granted) => match s.callers i with
    | .ready => s.set i (if granted && s.file.isSome then .found else .missing)
    | .found => match s.file with
      | some raw => s.set i (.loaded (if granted then decodeKey raw else fail .io))
      | none => s.set i (.loaded (fail .io))
    | .missing => s.set i .generated
    | .generated =>
      if granted then { s.set i .opened with file := some [] } else s.set i (.created (fail .io))
    | .opened =>
      if granted then
        { s.set i (.created (.ok (key i))) with file := some (writeKey s.file (key i)) }
      else s.set i (.created (fail .io))
    | .loaded _ => s
    | .created _ => s

/-! ### What a run keeps -/

omit [TextTables] in
/-- No other call moves with it: the one that was set is where it was put, and the rest are where
    they were. -/
theorem KeyDir.set_callers (s : KeyDir ι) (i j : ι) (c : Caller) :
    (s.set i c).callers j = if j = i then c else s.callers j := Function.update_apply ..

/-- Call `i` has written its key: it drew one, and no operation of its write was refused. -/
def Wrote (s : KeyDir ι) (i : ι) : Prop := s.callers i = .created (.ok (key i))

/-- What every run keeps, as long as no write fails.  The file holds a whole key or nothing, and
    a key that was returned is one that was written. -/
structure Inv (s : KeyDir ι) : Prop where
  /-- A file that is not there has no writer yet. -/
  absent : s.file = none → ∀ i, s.callers i ≠ .opened ∧ ∀ k, s.callers i ≠ .created (.ok k)
  /-- An empty file is about to be written. -/
  empty : s.file = some [] → ∃ i, s.callers i = .opened
  /-- A file that is not empty holds the key of a call that wrote it. -/
  full : ∀ raw, s.file = some raw → raw = [] ∨ ∃ i, Wrote key s i ∧ raw = (key i).toList
  /-- A call that created the file returns the key it drew. -/
  created : ∀ i k, s.callers i = .created (.ok k) → k = key i
  /-- A call that read the file returns the key of a call that wrote it. -/
  loaded : ∀ i k, s.callers i = .loaded (.ok k) → ∃ j, Wrote key s j ∧ k = key j

omit [TextTables] [DecidableEq ι] in
/-- The invariant holds before the first call has done anything: there is no file and no result. -/
theorem inv_initial : Inv key (KeyDir.initial : KeyDir ι) where
  absent := fun _ i => ⟨by simp [KeyDir.initial], by simp [KeyDir.initial]⟩
  empty := by simp [KeyDir.initial]
  full := by simp [KeyDir.initial]
  created := by simp [KeyDir.initial]
  loaded := by simp [KeyDir.initial]

variable {key} {s : KeyDir ι} {i : ι} {c : Caller}

omit [TextTables] in
/-- A call that has not written yet takes nothing from those that have, wherever it moves. -/
theorem Wrote.set {j : ι} (hi : ∀ k, s.callers i ≠ .created (.ok k)) (h : Wrote key s j) :
    Wrote key (s.set i c) j := by
  have hne : j ≠ i := by
    rintro rfl
    exact hi _ h
  rw [Wrote, KeyDir.set_callers, if_neg hne]
  exact h

omit [TextTables] in
/-- A move that touches no file and returns no key keeps the invariant.  Looking, not finding,
    drawing a key and failing to read are such moves. -/
theorem Inv.set_silent (h : Inv key s) (hopened : s.callers i ≠ .opened)
    (hcreated : ∀ k, s.callers i ≠ .created (.ok k)) (hc : c ≠ .opened)
    (hresult : ∀ k, c.result? ≠ some (.ok k)) : Inv key (s.set i c) where
  absent := by
    intro hfile j
    rw [KeyDir.set_callers]
    split
    · exact ⟨hc, fun k hk => hresult k (by rw [hk]; rfl)⟩
    · exact h.absent hfile j
  empty := by
    intro hfile
    obtain ⟨j, hj⟩ := h.empty hfile
    have hne : j ≠ i := by
      rintro rfl
      exact hopened hj
    exact ⟨j, by rw [KeyDir.set_callers, if_neg hne, hj]⟩
  full := by
    intro raw hfile
    rcases h.full raw hfile with hraw | ⟨j, hj, hraw⟩
    · exact Or.inl hraw
    · exact Or.inr ⟨j, hj.set hcreated, hraw⟩
  created := by
    intro j k hk
    rw [KeyDir.set_callers] at hk
    split at hk
    · exact absurd (by rw [hk]; rfl) (hresult k)
    · exact h.created j k hk
  loaded := by
    intro j k hk
    rw [KeyDir.set_callers] at hk
    split at hk
    · exact absurd (by rw [hk]; rfl) (hresult k)
    · obtain ⟨j', hj', hkey⟩ := h.loaded j k hk
      exact ⟨j', hj'.set hcreated, hkey⟩

/-- A call reads a key file that is there.  What it finds is empty, which is an error, or the key
    of a call that wrote it. -/
theorem Inv.set_loaded (h : Inv key s) {raw : Bytes} (hfile : s.file = some raw)
    (hi : s.callers i = .found) : Inv key (s.set i (.loaded (decodeKey raw))) := by
  have hcreated : ∀ k, s.callers i ≠ .created (.ok k) := by simp [hi]
  rcases h.full raw hfile with rfl | ⟨j, hj, rfl⟩
  · rw [decodeKey_nil]
    exact h.set_silent (by simp [hi]) hcreated (by simp) (by simp [Caller.result?, fail])
  · rw [decodeKey_toList]
    have hne : ∀ j', s.callers j' = .opened → j' ≠ i := by
      rintro j' hj' rfl
      rw [hi] at hj'
      cases hj'
    refine ⟨fun hnone => absurd (hfile.symm.trans hnone) (by simp), fun hempty => ?_,
      fun raw' hraw' => ?_, fun j' k hk => ?_, fun j' k hk => ?_⟩
    · obtain ⟨j', hj'⟩ := h.empty hempty
      exact ⟨j', by rw [KeyDir.set_callers, if_neg (hne j' hj'), hj']⟩
    · rcases h.full raw' hraw' with hraw | ⟨j', hj', hraw⟩
      · exact Or.inl hraw
      · exact Or.inr ⟨j', hj'.set hcreated, hraw⟩
    · rw [KeyDir.set_callers] at hk
      split at hk
      · cases hk
      · exact h.created j' k hk
    · rw [KeyDir.set_callers] at hk
      split at hk
      · cases hk
        exact ⟨j, hj.set hcreated, rfl⟩
      · obtain ⟨j'', hj'', hkey⟩ := h.loaded j' k hk
        exact ⟨j'', hj''.set hcreated, hkey⟩

omit [TextTables] in
/-- A call empties the file to write it.  Until it writes, whoever reads gets an error and no
    key. -/
theorem Inv.set_opened (h : Inv key s) (hi : s.callers i = .generated) :
    Inv key { s.set i .opened with file := some [] } := by
  have hcreated : ∀ k, s.callers i ≠ .created (.ok k) := by simp [hi]
  refine ⟨by simp, fun _ => ⟨i, ?_⟩, fun raw hraw => Or.inl ?_, fun j k hk => ?_, fun j k hk => ?_⟩
  · show (s.set i .opened).callers i = .opened
    rw [KeyDir.set_callers, if_pos rfl]
  · exact (Option.some.inj hraw).symm
  · replace hk : (s.set i .opened).callers j = .created (.ok k) := hk
    rw [KeyDir.set_callers] at hk
    split at hk
    · cases hk
    · exact h.created j k hk
  · replace hk : (s.set i .opened).callers j = .loaded (.ok k) := hk
    rw [KeyDir.set_callers] at hk
    split at hk
    · cases hk
    · obtain ⟨j', hj', hkey⟩ := h.loaded j k hk
      exact ⟨j', hj'.set hcreated, hkey⟩

omit [TextTables] in
/-- A call writes its key over whatever another has written.  All keys are 32 bytes, so nothing
    of the earlier one is left. -/
theorem Inv.set_created (h : Inv key s) (hi : s.callers i = .opened) :
    Inv key { s.set i (.created (.ok (key i))) with file := some (writeKey s.file (key i)) } := by
  have hcreated : ∀ k, s.callers i ≠ .created (.ok k) := by simp [hi]
  have hwrote : Wrote key (s.set i (.created (.ok (key i)))) i := by
    rw [Wrote, KeyDir.set_callers, if_pos rfl]
  have hwritten : writeKey s.file (key i) = (key i).toList := by
    have hrest : (s.file.getD []).drop 32 = [] := by
      cases hfile : s.file with
      | none => rfl
      | some raw =>
        rcases h.full raw hfile with rfl | ⟨j, -, rfl⟩
        · rfl
        · exact List.drop_eq_nil_of_le (by simp)
    rw [writeKey, hrest, List.append_nil]
  refine ⟨by simp, fun hempty => ?_, fun raw hraw => Or.inr ⟨i, hwrote, ?_⟩, fun j k hk => ?_,
    fun j k hk => ?_⟩
  · have hlength := congrArg List.length (hwritten.symm.trans (Option.some.inj hempty))
    simp at hlength
  · exact (Option.some.inj hraw).symm.trans hwritten
  · replace hk : (s.set i (.created (.ok (key i)))).callers j = .created (.ok k) := hk
    rw [KeyDir.set_callers] at hk
    split at hk
    · rename_i heq
      cases hk
      rw [heq]
    · exact h.created j k hk
  · replace hk : (s.set i (.created (.ok (key i)))).callers j = .loaded (.ok k) := hk
    rw [KeyDir.set_callers] at hk
    split at hk
    · cases hk
    · obtain ⟨j', hj', hkey⟩ := h.loaded j k hk
      exact ⟨j', hj'.set hcreated, hkey⟩

/-- No write fails at this step.  Only a call that has emptied the file is held to it; an open
    that is refused leaves the file alone. -/
def Granted (s : KeyDir ι) (turn : ι × Bool) : Prop := s.callers turn.1 = .opened → turn.2 = true

/-- Every step whose write does not fail keeps the invariant, by the operation the call makes. -/
theorem inv_step (s : KeyDir ι) (turn : ι × Bool) (h : Inv key s) (hgranted : Granted s turn) :
    Inv key (step key s turn) := by
  obtain ⟨i, granted⟩ := turn
  cases hi : s.callers i with
  | ready =>
    simp only [step, hi]
    refine h.set_silent (by simp [hi]) (by simp [hi]) ?_ ?_ <;>
      cases granted && s.file.isSome <;> simp [Caller.result?]
  | found =>
    cases hfile : s.file with
    | none =>
      simp only [step, hi, hfile]
      exact h.set_silent (by simp [hi]) (by simp [hi]) (by simp) (by simp [Caller.result?, fail])
    | some raw =>
      simp only [step, hi, hfile]
      cases granted with
      | false =>
        exact h.set_silent (by simp [hi]) (by simp [hi]) (by simp) (by simp [Caller.result?, fail])
      | true => exact h.set_loaded hfile hi
  | missing =>
    simp only [step, hi]
    exact h.set_silent (by simp [hi]) (by simp [hi]) (by simp) (by simp [Caller.result?])
  | generated =>
    simp only [step, hi]
    cases granted with
    | false =>
      exact h.set_silent (by simp [hi]) (by simp [hi]) (by simp) (by simp [Caller.result?, fail])
    | true => exact h.set_opened hi
  | opened =>
    obtain rfl : granted = true := hgranted hi
    simp only [step, hi]
    exact h.set_created hi
  | loaded r =>
    simp only [step, hi]
    exact h
  | created r =>
    simp only [step, hi]
    exact h

/-- Every run whose writes do not fail keeps the invariant, from a data root without a key. -/
theorem inv_run {schedule : List (ι × Bool)}
    (hgranted : Runs.AtSteps (step key) Granted KeyDir.initial schedule) :
    Inv key (Runs.run (step key) KeyDir.initial schedule) :=
  Runs.run_invariant_of inv_step (inv_initial key) hgranted

/-! ### Agreement -/

/-- Every call that was made has returned, with a key or an error. -/
def Finished (s : KeyDir ι) : Prop := ∀ i, s.callers i = .ready ∨ (s.callers i).result?.isSome

/-- Every call that returned a key returned the one left in the file.  A key that is gone
    decrypts nothing that is stored later. -/
def Agree (s : KeyDir ι) : Prop :=
  ∀ i k, (s.callers i).result? = some (.ok k) → s.file = some k.toList

omit [TextTables] [DecidableEq ι] in
/-- When all have returned, the file holds the key of some call that wrote it, if any did.  No
    truncation is left open. -/
private theorem Inv.file_of_finished (h : Inv key s) (hfin : Finished s) {i : ι}
    (hi : Wrote key s i) : ∃ j, Wrote key s j ∧ s.file = some (key j).toList := by
  cases hfile : s.file with
  | none => exact absurd hi ((h.absent hfile i).2 _)
  | some raw =>
    rcases h.full raw hfile with rfl | ⟨j, hj, rfl⟩
    · -- an empty file has a call about to write it, which has not returned
      obtain ⟨j, hj⟩ := h.empty hfile
      rcases hfin j with hready | hreturned
      · rw [hj] at hready
        cases hready
      · rw [hj] at hreturned
        cases hreturned
    · exact ⟨j, hj, rfl⟩

omit [TextTables] [DecidableEq ι] in
/-- A key that was returned was written by a call that drew it, the same call or one that came
    before the read. -/
private theorem Inv.wrote_of_result (h : Inv key s) {k : ObjectKey}
    (hi : (s.callers i).result? = some (.ok k)) : ∃ j, Wrote key s j ∧ k = key j := by
  cases hc : s.callers i <;> rw [hc] at hi <;> try cases hi
  case loaded.refl => exact h.loaded i k hc
  case created.refl =>
    obtain rfl := h.created i k hc
    exact ⟨i, hc, rfl⟩

/-- All that have written the file drew the same key.  Drawn at random, that means only one of
    them wrote. -/
def OneKey (key : ι → ObjectKey) (s : KeyDir ι) : Prop :=
  ∀ i j, Wrote key s i → Wrote key s j → key i = key j

omit [TextTables] [DecidableEq ι] in
/-- When all have returned, they agree exactly if one key was written: a second key replaces the
    first, which its writer still returns. -/
theorem Inv.agree_iff_oneKey (h : Inv key s) (hfin : Finished s) : Agree s ↔ OneKey key s := by
  constructor
  · intro hagree i j hi hj
    have hfile := hagree i (key i) (by rw [hi]; rfl)
    have hfile' := hagree j (key j) (by rw [hj]; rfl)
    exact Vector.toList_inj.mp (Option.some.inj (hfile.symm.trans hfile'))
  · intro hsame i k hk
    -- the key returned and the key left were both written
    obtain ⟨j, hj, rfl⟩ := h.wrote_of_result hk
    obtain ⟨j', hj', hfile⟩ := h.file_of_finished hfin hj
    rw [hfile, hsame j' j hj' hj]

/-- A step that writes a key does not replace a different one: no call has written another before
    it. -/
def ReplacesNone (key : ι → ObjectKey) (s : KeyDir ι) (turn : ι × Bool) : Prop :=
  s.callers turn.1 = .opened → turn.2 = true → ∀ j, Wrote key s j → key j = key turn.1

/-- A step moves one call. -/
private theorem step_callers_of_ne {turn : ι × Bool} {j : ι} (hj : j ≠ turn.1) :
    (step key s turn).callers j = s.callers j := by
  obtain ⟨i, granted⟩ := turn
  simp only [step]
  split <;> (try split) <;>
    first
    | rfl
    | exact (KeyDir.set_callers _ _ _ _).trans (if_neg hj)

/-- The calls that have written after a step: those before it, and the one whose write the step
    grants. -/
theorem wrote_step_iff {turn : ι × Bool} {j : ι} : Wrote key (step key s turn) j ↔
    Wrote key s j ∨ j = turn.1 ∧ s.callers turn.1 = .opened ∧ turn.2 = true := by
  by_cases hj : j = turn.1
  · subst hj
    obtain ⟨i, granted⟩ := turn
    unfold Wrote
    cases hc : s.callers i with
    | ready =>
      simp only [step, hc]
      cases granted && s.file.isSome <;> simp [KeyDir.set_callers]
    | found => cases hfile : s.file <;> simp [step, hc, hfile, KeyDir.set_callers]
    | missing => simp [step, hc, KeyDir.set_callers]
    | generated => cases granted <;> simp [step, hc, KeyDir.set_callers, fail]
    | opened => cases granted <;> simp [step, hc, KeyDir.set_callers, fail]
    | loaded r => simp [step, hc]
    | created r => simp [step, hc]
  · unfold Wrote
    rw [step_callers_of_ne hj]
    exact (or_iff_left fun h => hj h.1).symm

/-- One key stays one exactly if the step replaces no other.  The condition looks at the state
    before the step alone. -/
theorem oneKey_step_iff (s : KeyDir ι) (turn : ι × Bool) :
    OneKey key (step key s turn) ↔ OneKey key s ∧ ReplacesNone key s turn := by
  unfold OneKey
  simp only [wrote_step_iff]
  constructor
  · intro h
    refine ⟨fun i j hi hj => h i j (Or.inl hi) (Or.inl hj), fun hopened hgranted j hj => ?_⟩
    exact h j turn.1 (Or.inl hj) (Or.inr ⟨rfl, hopened, hgranted⟩)
  · rintro ⟨hsame, hreplaces⟩ i j hi hj
    rcases hi with hi | ⟨rfl, hopened, hgranted⟩
    · rcases hj with hj | ⟨rfl, hopened, hgranted⟩
      · exact hsame i j hi hj
      · exact hreplaces hopened hgranted i hi
    · rcases hj with hj | ⟨rfl, -, -⟩
      · exact (hreplaces hopened hgranted j hj).symm
      · rfl

/-- Over a run one key is written exactly if no step replaces another, by induction on the
    schedule. -/
theorem oneKey_run_iff (schedule : List (ι × Bool)) :
    OneKey key (Runs.run (step key) KeyDir.initial schedule) ↔
      Runs.AtSteps (step key) (ReplacesNone key) KeyDir.initial schedule := by
  have hnone : OneKey key (KeyDir.initial : KeyDir ι) := by
    intro i j hi
    cases hi
  refine Iff.trans ?_ (and_iff_right hnone)
  have htrue : ∀ (s : KeyDir ι) (turn : ι × Bool), True → True := fun _ _ h => h
  exact Runs.run_iff htrue (fun s turn _ => oneKey_step_iff s turn) trivial schedule

/-- **When the calls agree.**  All calls that return a key return the one left in the file exactly
    if no step of the run writes over a different key: a call whose existence check has found
    nothing does, whatever has been written since. -/
theorem agree_iff (key : ι → ObjectKey) (schedule : List (ι × Bool))
    (hgranted : Runs.AtSteps (step key) Granted KeyDir.initial schedule)
    (hfin : Finished (Runs.run (step key) KeyDir.initial schedule)) :
    Agree (Runs.run (step key) KeyDir.initial schedule) ↔
      Runs.AtSteps (step key) (ReplacesNone key) KeyDir.initial schedule :=
  ((inv_run hgranted).agree_iff_oneKey hfin).trans (oneKey_run_iff schedule)

/-! ### Calls that take turns -/

/-- The call is creating the file, or has: it did not find one and has not failed since. -/
def Creating (key : ι → ObjectKey) (s : KeyDir ι) (i : ι) : Prop :=
  s.callers i = .missing ∨ s.callers i = .generated ∨ s.callers i = .opened ∨ Wrote key s i

/-- No write fails, the file's existence can be told, and nobody asks for it while another is
    between its own question and its write. -/
def TakesTurns (s : KeyDir ι) (turn : ι × Bool) : Prop :=
  Granted s turn ∧ (s.callers turn.1 = .ready → turn.2 = true ∧
    ∀ j, s.callers j ≠ .missing ∧ s.callers j ≠ .generated ∧ s.callers j ≠ .opened)

/-- A call that is creating the file after a step was before it, or has just not found it.  No
    other step makes a call a creator. -/
private theorem creating_step {turn : ι × Bool} {j : ι} (h : Creating key (step key s turn) j) :
    Creating key s j ∨
      j = turn.1 ∧ s.callers turn.1 = .ready ∧ (turn.2 && s.file.isSome) = false := by
  obtain ⟨i, granted⟩ := turn
  by_cases hj : j = i
  · subst hj
    cases hc : s.callers j with
    | ready =>
      -- had it found the file, it would go on to read it
      refine Or.inr ⟨rfl, rfl, ?_⟩
      by_contra hfound
      rw [Bool.not_eq_false] at hfound
      simp [Creating, Wrote, step, hc, KeyDir.set_callers, hfound] at h
    | found =>
      cases hfile : s.file <;> simp [Creating, Wrote, step, hc, hfile, KeyDir.set_callers] at h
    | missing => exact Or.inl (Or.inl hc)
    | generated => exact Or.inl (Or.inr (Or.inl hc))
    | opened => exact Or.inl (Or.inr (Or.inr (Or.inl hc)))
    | loaded r => exact Or.inl (by simpa [step, hc] using h)
    | created r => exact Or.inl (by simpa [step, hc] using h)
  · unfold Creating Wrote at h ⊢
    rw [step_callers_of_ne hj] at h
    exact Or.inl h

/-- Taking turns, no two calls create the file: the second finds what the first has written. -/
private theorem alone_step (s : KeyDir ι) (turn : ι × Bool)
    (h : Inv key s ∧ ∀ i j, Creating key s i → Creating key s j → i = j)
    (hturn : TakesTurns s turn) :
    Inv key (step key s turn) ∧
      ∀ i j, Creating key (step key s turn) i → Creating key (step key s turn) j → i = j := by
  obtain ⟨hinv, halone⟩ := h
  refine ⟨inv_step s turn hinv hturn.1, fun i j hi hj => ?_⟩
  -- a call that has just asked in vain meets nobody who is creating the file
  have hnobody : s.callers turn.1 = .ready → (turn.2 && s.file.isSome) = false →
      ∀ j, ¬ Creating key s j := by
    intro hready hasked j hcreating
    obtain ⟨hgranted, hfree⟩ := hturn.2 hready
    have hnone : s.file = none := by simpa [hgranted] using hasked
    obtain ⟨hmissing, hgenerated, hopened⟩ := hfree j
    rcases hcreating with h | h | h | h
    · exact hmissing h
    · exact hgenerated h
    · exact hopened h
    · exact (hinv.absent hnone j).2 _ h
  rcases creating_step hi with hi | ⟨rfl, hready, hasked⟩
  · rcases creating_step hj with hj | ⟨rfl, hready, hasked⟩
    · exact halone i j hi hj
    · exact absurd hi (hnobody hready hasked i)
  · rcases creating_step hj with hj | ⟨rfl, -, -⟩
    · exact absurd hj (hnobody hready hasked j)
    · rfl

/-- Calls that take turns agree on the key they leave behind. -/
theorem agree_of_turns (key : ι → ObjectKey) (schedule : List (ι × Bool))
    (hturns : Runs.AtSteps (step key) TakesTurns KeyDir.initial schedule)
    (hfin : Finished (Runs.run (step key) KeyDir.initial schedule)) :
    Agree (Runs.run (step key) KeyDir.initial schedule) := by
  have hstart : Inv key (KeyDir.initial : KeyDir ι) ∧
      ∀ i j, Creating key KeyDir.initial i → Creating key KeyDir.initial j → i = j := by
    refine ⟨inv_initial key, fun i j hi => ?_⟩
    simp [Creating, Wrote, KeyDir.initial] at hi
  obtain ⟨hinv, -⟩ := Runs.run_invariant_of alone_step hstart hturns
  refine (hinv.agree_iff_oneKey hfin).mpr ((oneKey_run_iff schedule).mpr ?_)
  refine hturns.mono_of alone_step (fun s turn h _ hopened _ j hj => ?_) hstart
  -- the call that writes and one that has written are both creating the file
  rw [h.2 j turn.1 (Or.inr (Or.inr (Or.inr hj))) (Or.inr (Or.inr (Or.inl hopened)))]

end

/-! ### Two processes -/

section
attribute [local instance] TextTables.ascii

/-- Two calls draw different keys. -/
def twoKeys (i : Bool) : ObjectKey := Vector.replicate 32 (if i then 1 else 2)

/-- Both ask before either writes, so both find no file and both create it. -/
def race : List (Bool × Bool) :=
  [(true, true), (false, true), (true, true), (true, true), (true, true),
    (false, true), (false, true), (false, true)]

/-- In a race the first to finish returns a key that is gone. -/
theorem race_disagrees :
    ¬ ∀ (key : Bool → ObjectKey) (schedule : List (Bool × Bool)),
      Finished (Runs.run (step key) KeyDir.initial schedule) →
        Agree (Runs.run (step key) KeyDir.initial schedule) := by
  intro h
  have hfin : Finished (Runs.run (step twoKeys) KeyDir.initial race) := by
    rintro (_ | _) <;> exact Or.inr (by decide)
  have hreturned : ((Runs.run (step twoKeys) KeyDir.initial race).callers true).result?
      = some (.ok (twoKeys true)) := by decide
  have hleft : (Runs.run (step twoKeys) KeyDir.initial race).file
      = some (twoKeys false).toList := by decide
  have hagree := h twoKeys race hfin true (twoKeys true) hreturned
  rw [hleft] at hagree
  exact absurd hagree (by decide)

/-- One call reads what the other has created. -/
def inTurn : List (Bool × Bool) :=
  [(true, true), (true, true), (true, true), (true, true), (false, true), (false, true)]

/-- A second call that asks after the first has written reads its key. -/
theorem inTurn_agrees : Agree (Runs.run (step twoKeys) KeyDir.initial inTurn) := by
  have hfin : Finished (Runs.run (step twoKeys) KeyDir.initial inTurn) := by
    rintro (_ | _) <;> exact Or.inr (by decide)
  refine (agree_iff twoKeys inTurn ?_ hfin).mpr ?_
  · exact ⟨fun _ => rfl, fun _ => rfl, fun _ => rfl, fun _ => rfl, fun _ => rfl, fun _ => rfl,
      trivial⟩
  · unfold inTurn ReplacesNone Wrote
    decide

end

end ObjectKey

end Precall.Store
