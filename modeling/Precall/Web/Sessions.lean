import Precall.Api.Timeline
import Precall.Lib.Grouping
import Precall.Lib.Runs

namespace Precall.Web

open GroupingLib Precall.Api Runs

/-!
# Work sessions on the timeline

The loop of `Timeline.tsx` (`web/src/components`) that groups entries into sessions.  It takes the
last group at the index `sessions.length - 1`, which is no element while the array is empty, but a
property `-1` of the array; and it compares an entry with the first of that group, not with the one
before it.

Timestamps are the whole numbers the page holds.  The page subtracts them as doubles; rounding does
not change which differences exceed ten minutes, since these are whole numbers below `2 ^ 53`.

* `JsArray` — an array with what is stored at its index `-1`;
* `allGroups_sessions` — with that, the loop is `groupByFirst`;
* `elements_sessions` — the page shows all groups but the first;
* `sessions_splitsAt_iff` — so sessions are split at the gaps for the empty list only, and with the
  first group back in exactly if no run of short gaps is long.
-/

/-! ### The loop -/

/-- A JavaScript array, and what is stored under its property `-1`, which is no element of it. -/
structure JsArray (α : Type) where
  elements : List α
  minusOne : Option α

namespace JsArray

variable {α : Type}

/-- `[]`. -/
def empty : JsArray α := ⟨[], none⟩

/-- `a[a.length - 1]`, which on an empty array is the property `-1`. -/
def atLast (a : JsArray α) : Option α :=
  if a.elements.isEmpty then a.minusOne else a.elements.getLast?

/-- `a.push(x)`. -/
def push (a : JsArray α) (x : α) : JsArray α := { a with elements := a.elements ++ [x] }

/-- `a[a.length - 1] = x`, which on an empty array sets the property `-1`. -/
def setLast (a : JsArray α) (x : α) : JsArray α :=
  if a.elements.isEmpty then { a with minusOne := some x }
  else { a with elements := a.elements.dropLast ++ [x] }

/-- Everything that was stored, in order: under `-1` first, for that is where an array is empty. -/
def stored (a : JsArray α) : List α := a.minusOne.toList ++ a.elements

/-- `arr[arr.length - 1]` is the last element stored, whether it went to an index or to the
    property `-1`. -/
theorem atLast_eq (a : JsArray α) : a.atLast = a.stored.getLast? := by
  obtain ⟨elements, minusOne⟩ := a
  cases elements with
  | nil => cases minusOne <;> rfl
  | cons x elements =>
    show (x :: elements).getLast? = (minusOne.toList ++ x :: elements).getLast?
    rw [List.getLast?_append_of_ne_nil _ (List.cons_ne_nil x elements)]

/-- `push` stores at the end. -/
@[simp] theorem stored_push (a : JsArray α) (x : α) : (a.push x).stored = a.stored ++ [x] := by
  simp [push, stored]

/-- An assignment to the last element replaces it. -/
@[simp] theorem stored_setLast (a : JsArray α) (x : α) :
    (a.setLast x).stored = a.stored.dropLast ++ [x] := by
  obtain ⟨elements, minusOne⟩ := a
  cases elements with
  | nil => cases minusOne <;> rfl
  | cons y elements =>
    show minusOne.toList ++ ((y :: elements).dropLast ++ [x]) =
      (minusOne.toList ++ y :: elements).dropLast ++ [x]
    rw [List.dropLast_append_of_ne_nil (List.cons_ne_nil y elements), List.append_assoc]

end JsArray

/-- Ten minutes, in units of 100 ns. -/
def sessionGap : Int := 600 * 10000000

/-- The body of the loop: an entry joins the last group if it is near enough to the first entry
    of that group. -/
def groupEntry (sessions : JsArray (List TimelineEntry)) (e : TimelineEntry) :
    JsArray (List TimelineEntry) :=
  let prev := sessions.atLast.bind List.head?  -- `?.[0]`
  if prev.any fun p => p.timestamp100ns - e.timestamp100ns > sessionGap then sessions.push [e]
  else sessions.setLast (sessions.atLast.getD [] ++ [e])  -- `(… ??= []).push(e)`

/-- The sessions of the entries of a timeline; `sessions.map` visits the elements. -/
def sessions (entries : List TimelineEntry) : JsArray (List TimelineEntry) :=
  run groupEntry JsArray.empty entries

/-! ### The groups -/

/-- Are two entries, the newer one first, at most ten minutes apart? -/
def withinGap (a b : TimelineEntry) : Bool := a.timestamp100ns - b.timestamp100ns ≤ sessionGap

/-- **What one entry does**: it extends the last group, which may have to be made, or starts one. -/
theorem groupEntry_cases (sessions : JsArray (List TimelineEntry)) (e : TimelineEntry) :
    (sessions.atLast = none ∧ groupEntry sessions e = sessions.setLast [e]) ∨
      ∃ g, sessions.atLast = some g ∧
        (g.head?.all (withinGap · e) = true ∧ groupEntry sessions e = sessions.setLast (g ++ [e]) ∨
          g.head?.all (withinGap · e) = false ∧ groupEntry sessions e = sessions.push [e]) := by
  unfold groupEntry
  cases hlast : sessions.atLast with
  | none => exact Or.inl ⟨rfl, rfl⟩
  | some g =>
    refine Or.inr ⟨g, rfl, ?_⟩
    have hany : (g.head?.any fun p => p.timestamp100ns - e.timestamp100ns > sessionGap) =
        !g.head?.all (withinGap · e) := by
      cases g.head? with
      | none => rfl
      | some p =>
        show decide (p.timestamp100ns - e.timestamp100ns > sessionGap) =
          !decide (p.timestamp100ns - e.timestamp100ns ≤ sessionGap)
        generalize p.timestamp100ns - e.timestamp100ns = age
        rw [Bool.eq_iff_iff]
        simp
    simp only [Option.bind_some, Option.getD_some]
    rw [hany]
    cases g.head?.all (withinGap · e) with
    | true => exact Or.inl ⟨rfl, rfl⟩
    | false => exact Or.inr ⟨rfl, rfl⟩

/-- One entry joins a group or opens one, as in `groupByFirst`: the comparison is with the first
    entry of the last group. -/
theorem stored_groupEntry (sessions : JsArray (List TimelineEntry)) (e : TimelineEntry) :
    (groupEntry sessions e).stored = addGrouped withinGap sessions.stored e := by
  rcases groupEntry_cases sessions e with ⟨hlast, hstep⟩ | ⟨g, hlast, ⟨hrel, hstep⟩ | ⟨hrel, hstep⟩⟩
  all_goals rw [JsArray.atLast_eq] at hlast
  · rw [hstep, JsArray.stored_setLast, List.getLast?_eq_none_iff.mp hlast]
    rfl
  · simp [hstep, addGrouped, hlast, hrel]
  · simp [hstep, addGrouped, hlast, hrel]

/-- **The loop groups by the first entry of a group**, if the group under `-1` is counted in. -/
theorem stored_sessions (entries : List TimelineEntry) :
    (sessions entries).stored = groupByFirst withinGap entries :=
  run_related (R := fun (a : JsArray (List TimelineEntry)) groups => a.stored = groups)
    (fun a groups e h => by rw [stored_groupEntry, h]) rfl entries

/-- There are elements only once something is stored at `-1`. -/
def Begun (a : JsArray (List TimelineEntry)) : Prop := a.minusOne = none → a.elements = []

/-- An entry keeps it so: the first one of all goes to `-1`. -/
theorem begun_groupEntry (a : JsArray (List TimelineEntry)) (e : TimelineEntry) (h : Begun a) :
    Begun (groupEntry a e) := by
  have hset (g : List TimelineEntry) : Begun (a.setLast g) := by
    unfold Begun JsArray.setLast
    split
    · exact fun hnone => by cases hnone
    · rename_i helements
      intro hnone
      exact absurd (by simp [h hnone]) helements
  rcases groupEntry_cases a e with ⟨-, hstep⟩ | ⟨g, hlast, ⟨-, hstep⟩ | ⟨-, hstep⟩⟩
  · rw [hstep]
    exact hset _
  · rw [hstep]
    exact hset _
  · rw [hstep]
    -- a group is only started next to a last one, so `-1` is taken
    intro hnone
    have hminus : a.minusOne = none := hnone
    simp [JsArray.atLast, h hminus, hminus] at hlast

/-- **The page shows all groups but the first**, which was stored where nothing looks. -/
theorem elements_sessions (entries : List TimelineEntry) :
    (sessions entries).elements = (groupByFirst withinGap entries).tail := by
  have hbegun : Begun (sessions entries) := run_invariant begun_groupEntry (fun _ => rfl) entries
  rw [← stored_sessions, JsArray.stored]
  cases hminus : (sessions entries).minusOne with
  | none => simp [hbegun hminus]
  | some g => rfl

/-! ### Splitting at the gaps -/

/-- No run of entries with gaps of at most ten minutes spans more than ten minutes, so that
    comparing with its first entry makes no difference. -/
def NoLongRun (entries : List TimelineEntry) : Prop :=
  ∀ run, run <:+: entries → run.IsChain (fun a b => withinGap a b) →
    ∀ a ∈ run.head?, ∀ b ∈ run.getLast?, withinGap a b = true

/-- Splitting the groups shown. -/
theorem elements_splitsAt_iff (entries : List TimelineEntry) :
    SplitsAt withinGap entries (sessions entries).elements ↔ entries = [] := by
  constructor
  · intro h
    obtain ⟨hflatten, hnil⟩ := groupByFirst_spec (r := withinGap) entries
    have hshown := h.flatten
    rw [elements_sessions] at hshown
    cases hgroups : groupByFirst withinGap entries with
    | nil => rw [← hflatten, hgroups, List.flatten_nil]
    | cons g groups =>
      -- the first group would have to be empty
      rw [hgroups] at hflatten hnil hshown
      have hfirst : g = [] := by
        rw [List.flatten_cons, ← hshown] at hflatten
        exact List.append_left_eq_self.mp hflatten
      exact absurd (hfirst ▸ List.mem_cons_self) hnil
  · rintro rfl
    exact (splitsAt_iff withinGap).mpr rfl

/-- **When sessions are split at the gaps.**  For the sessions on the page, for the empty list only;
    with the group at `-1` counted in, for the entries newest first without a long run of short
    gaps. -/
theorem sessions_splitsAt_iff (entries : List TimelineEntry)
    (hnewest : entries.Pairwise fun a b => b.timestamp100ns ≤ a.timestamp100ns) :
    (SplitsAt withinGap entries (sessions entries).elements ↔ entries = []) ∧
      (SplitsAt withinGap entries (sessions entries).stored ↔ NoLongRun entries) := by
  refine ⟨elements_splitsAt_iff entries, ?_⟩
  rw [stored_sessions]
  -- newest first, a later entry is no further from those after it
  refine groupByFirst_splitsAt_iff (fun a => ?_) (hnewest.imp fun hle c hrel => ?_)
  · simp [withinGap, sessionGap]
  · simp only [withinGap, decide_eq_true_eq] at hrel ⊢
    omega

/-- An entry with a timestamp. -/
def entryAt (timestamp100ns : Int) : TimelineEntry :=
  ⟨timestamp100ns, none, none, none, none, timestamp100ns, none, none, []⟩

/-- Three entries, each six minutes after the one before. -/
theorem sessions_splitsAt_iff_steady :
    let entries := [entryAt 7200000000, entryAt 3600000000, entryAt 0]
    ¬ SplitsAt withinGap entries (sessions entries).elements ∧
      ¬ SplitsAt withinGap entries (sessions entries).stored := by
  have hiff := sessions_splitsAt_iff [entryAt 7200000000, entryAt 3600000000, entryAt 0] (by decide)
  refine ⟨mt hiff.1.mp (List.cons_ne_nil _ _), mt hiff.2.mp fun hshort => ?_⟩
  -- all three entries are a run of short gaps, and twelve minutes long
  have hends := hshort _ (List.infix_refl _) (by decide) _ rfl _ rfl
  exact absurd hends (by decide)

/-- One entry is not shown at all; and of three entries six minutes apart the last starts a session
    of its own. -/
theorem sessions_not_split :
    (¬ ∀ entries : List TimelineEntry,
        entries.Pairwise (fun a b => b.timestamp100ns ≤ a.timestamp100ns) →
          SplitsAt withinGap entries (sessions entries).elements) ∧
      ¬ ∀ entries : List TimelineEntry,
        entries.Pairwise (fun a b => b.timestamp100ns ≤ a.timestamp100ns) →
          SplitsAt withinGap entries (sessions entries).stored := by
  constructor
  · intro h
    have hshown := (h [entryAt 0] (by decide)).flatten
    exact absurd hshown (by decide)
  · intro h
    have hsplit := h [entryAt 7200000000, entryAt 3600000000, entryAt 0] (by decide)
    exact absurd ((splitsAt_iff withinGap).mp hsplit) (by decide)

end Precall.Web
