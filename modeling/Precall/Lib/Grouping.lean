import Mathlib.Data.List.SplitBy
import Mathlib.Data.List.Induction

namespace GroupingLib

/-!
# Grouping a list

A list cut into groups of neighbours, by a relation: `List.splitBy` compares each element with the
one before it, `groupByFirst` with the first of its group.

* `SplitsAt` — groups that are not empty, make up the list and are cut exactly between unrelated
  neighbours; `splitsAt_iff` — there is one such grouping, `List.splitBy`;
* `flatten_groupByFirst`, `nil_notMem_groupByFirst`, `groupByFirst_first` — the grouping by first
  elements;
* `groupByFirst_splitsAt_iff` — when the two groupings agree.
-/

variable {α : Type} (r : α → α → Bool)

/-- Groups that make up a list, cut exactly between neighbours that are not related.  This is
    what grouping at gaps is meant to give. -/
structure SplitsAt (l : List α) (groups : List (List α)) : Prop where
  flatten : groups.flatten = l
  nil_notMem : [] ∉ groups
  inside : ∀ g ∈ groups, g.IsChain fun a b => r a b
  between : groups.IsChain fun g g' => ∃ hg hg', r (g.getLast hg) (g'.head hg') = false

/-- A list has one splitting at its gaps, the one that `splitBy` computes. -/
theorem splitsAt_iff {l : List α} {groups : List (List α)} :
    SplitsAt r l groups ↔ l.splitBy r = groups := by
  rw [List.splitBy_eq_iff]
  exact ⟨fun h => ⟨h.flatten.symm, h.nil_notMem, h.inside, h.between⟩,
    fun h => ⟨h.1.symm, h.2.1, h.2.2.1, h.2.2.2⟩⟩

/-- Add an element to the last group, if it is related to the first of that, or start a group.
    Its own neighbour is not looked at. -/
def addGrouped (groups : List (List α)) (a : α) : List (List α) :=
  match groups.getLast? with
  | none => [[a]]
  | some g =>
      if g.head?.all fun first => r first a then groups.dropLast ++ [g ++ [a]] else groups ++ [[a]]

/-- Elements grouped in order. -/
def groupByFirst (l : List α) : List (List α) := l.foldl (addGrouped r) []

variable {r} {groups : List (List α)} {l : List α}

/-- **What one element does** to groups of which none is empty: it starts the first group, extends
    the last one, or starts a group after it. -/
theorem addGrouped_cases (h : [] ∉ groups) (a : α) :
    (groups = [] ∧ addGrouped r groups a = [[a]]) ∨
      ∃ front first rest, groups = front ++ [first :: rest] ∧
        (r first a = true ∧ addGrouped r groups a = front ++ [first :: rest ++ [a]] ∨
          r first a = false ∧ addGrouped r groups a = front ++ [first :: rest] ++ [[a]]) := by
  induction groups using List.reverseRecOn with
  | nil => exact Or.inl ⟨rfl, rfl⟩
  | append_singleton front g =>
    cases g with
    | nil => exact absurd (by simp) h
    | cons first rest =>
      refine Or.inr ⟨front, first, rest, rfl, ?_⟩
      cases hrel : r first a with
      | true => exact Or.inl ⟨rfl, by simp [addGrouped, hrel]⟩
      | false => exact Or.inr ⟨rfl, by simp [addGrouped, hrel]⟩

/-- Grouping goes from the left: the last element joins the groups of the others. -/
theorem groupByFirst_concat (l : List α) (a : α) :
    groupByFirst r (l ++ [a]) = addGrouped r (groupByFirst r l) a := by
  simp [groupByFirst]

/-- **The grouping makes up the list**, of groups that are not empty. -/
theorem groupByFirst_spec (l : List α) :
    (groupByFirst r l).flatten = l ∧ [] ∉ groupByFirst r l := by
  induction l using List.reverseRecOn with
  | nil => exact ⟨rfl, List.not_mem_nil⟩
  | append_singleton l a ih =>
    rw [groupByFirst_concat]
    generalize groupByFirst r l = groups at ih ⊢
    obtain ⟨rfl, hnil⟩ := ih
    rcases addGrouped_cases (r := r) hnil a with
      ⟨rfl, hadd⟩ | ⟨front, first, rest, rfl, ⟨-, hadd⟩ | ⟨-, hadd⟩⟩
    · rw [hadd]
      simp
    · rw [hadd]
      exact ⟨by simp, by simpa using hnil⟩
    · rw [hadd]
      exact ⟨by simp, by simpa using hnil⟩

/-- Every element is related to the first of its group, where each is related to itself; that is
    all the loop looks at. -/
theorem groupByFirst_first (hrefl : ∀ a, r a a = true) (l : List α) :
    ∀ g ∈ groupByFirst r l, ∀ first ∈ g.head?, ∀ a ∈ g, r first a = true := by
  induction l using List.reverseRecOn with
  | nil => simp [groupByFirst]
  | append_singleton l a ih =>
    rw [groupByFirst_concat]
    have hnil := (groupByFirst_spec (r := r) l).2
    generalize groupByFirst r l = groups at ih hnil ⊢
    rcases addGrouped_cases (r := r) hnil a with
      ⟨rfl, hadd⟩ | ⟨front, first, rest, rfl, ⟨hrel, hadd⟩ | ⟨-, hadd⟩⟩
    · simp [hadd, hrefl]
    · rw [hadd]
      intro g hg
      rcases List.mem_append.mp hg with hg | hg
      · exact ih g (List.mem_append_left _ hg)
      · obtain rfl := List.mem_singleton.mp hg
        intro f hf b hb
        obtain rfl : first = f := by simpa using hf
        rcases List.mem_append.mp hb with hb | hb
        · exact ih _ (List.mem_append_right _ List.mem_cons_self) first rfl b hb
        · rw [List.mem_singleton.mp hb]
          exact hrel
    · rw [hadd]
      intro g hg
      rcases List.mem_append.mp hg with hg | hg
      · exact ih g hg
      · obtain rfl := List.mem_singleton.mp hg
        simp [hrefl]

/-! ### When the groupings agree -/

/-- An element related to the last one extends the last group. -/
theorem SplitsAt.extend {front : List (List α)} {g : List α} (h : SplitsAt r l (front ++ [g]))
    {a : α} (hrel : ∀ b ∈ g.getLast?, r b a = true) :
    SplitsAt r (l ++ [a]) (front ++ [g ++ [a]]) := by
  have hg : g ≠ [] := fun hnil => h.nil_notMem (by simp [hnil])
  obtain ⟨hfront, -, hlast⟩ := List.isChain_append.mp h.between
  refine ⟨by simp [← h.flatten], ?_, ?_, ?_⟩
  · have hnil := h.nil_notMem
    simp_all
  · intro g' hg'
    rcases List.mem_append.mp hg' with hg' | hg'
    · exact h.inside g' (List.mem_append_left _ hg')
    · rw [List.mem_singleton.mp hg', List.isChain_append]
      refine ⟨h.inside g (by simp), List.isChain_singleton a, ?_⟩
      simpa using hrel
  · rw [List.isChain_append]
    refine ⟨hfront, List.isChain_singleton _, fun x hx y hy => ?_⟩
    obtain ⟨hx', _, hcut⟩ := hlast x hx g rfl
    obtain rfl : g ++ [a] = y := by simpa using hy
    refine ⟨hx', by simp, ?_⟩
    rw [List.head_append_of_ne_nil hg]
    exact hcut

/-- An element not related to the last one starts a group. -/
theorem SplitsAt.start {groups : List (List α)} (h : SplitsAt r l groups) {a : α}
    (hcut : ∀ b ∈ l.getLast?, r b a = false) : SplitsAt r (l ++ [a]) (groups ++ [[a]]) := by
  rw [splitsAt_iff] at h ⊢
  rw [List.splitBy_append (by simpa using hcut), h]
  rfl

/-- A run of related neighbours stays in one group, since no cut falls between two of them. -/
theorem exists_group_of_isChain (hnil : [] ∉ groups)
    (hbetween : groups.IsChain fun g g' => ∃ hg hg', r (g.getLast hg) (g'.head hg') = false)
    {run : List α} (hrun : run ≠ []) (hchain : run.IsChain fun a b => r a b)
    (hin : run <:+: groups.flatten) : ∃ g ∈ groups, run <:+: g := by
  induction groups with
  | nil => exact absurd (List.infix_nil.mp hin) hrun
  | cons g groups ih =>
    have hlater : run <:+: groups.flatten → ∃ g' ∈ g :: groups, run <:+: g' := by
      intro hin
      obtain ⟨g', hmem, hg'⟩ := ih (fun h => hnil (List.mem_cons_of_mem g h)) hbetween.tail hin
      exact ⟨g', List.mem_cons_of_mem g hmem, hg'⟩
    obtain ⟨before, after, heq⟩ := hin
    rw [List.flatten_cons, List.append_assoc, List.append_eq_append_iff] at heq
    rcases heq with ⟨inside, rfl, heq⟩ | ⟨crossing, -, heq⟩
    · -- the run starts in the first group
      rw [List.append_eq_append_iff] at heq
      rcases heq with ⟨left, rfl, -⟩ | ⟨crossing, rfl, heq⟩
      · exact ⟨_, List.mem_cons_self, before, left, by simp⟩
      · by_cases hinside : inside = []
        · exact hlater ⟨[], after, by simp [hinside, heq]⟩
        by_cases hover : crossing = []
        · exact ⟨_, List.mem_cons_self, before, [], by simp [hover]⟩
        -- the run crosses the cut after the first group
        obtain ⟨-, -, hcross⟩ := List.isChain_append.mp hchain
        have hrel := hcross _ (List.getLast_mem_getLast? hinside) _ (List.head_mem_head? hover)
        cases groups with
        | nil => exact absurd (List.append_eq_nil_iff.mp heq.symm).1 hover
        | cons next groups =>
          obtain ⟨_, hnext, hcut⟩ := hbetween.rel
          have hheads := congrArg List.head? heq
          rw [List.flatten_cons, List.head?_append_of_ne_nil _ hnext,
            List.head?_append_of_ne_nil _ hover, List.head?_eq_some_head hnext,
            List.head?_eq_some_head hover] at hheads
          have hhead := (Option.some.inj hheads).symm
          rw [List.getLast_append_right hinside, ← hhead] at hcut
          rw [hcut] at hrel
          cases hrel
    · exact hlater ⟨crossing, after, by rw [heq, List.append_assoc]⟩

/-- The ends of a run of related neighbours are related, if a group is related to its first.
    Both lie in one group. -/
theorem SplitsAt.run_ends (h : SplitsAt r l groups)
    (hfirst : ∀ g ∈ groups, ∀ first ∈ g.head?, ∀ a ∈ g, r first a = true)
    (hmono : l.Pairwise fun a b => ∀ c, r a c = true → r b c = true) {run : List α}
    (hin : run <:+: l) (hchain : run.IsChain fun a b => r a b) {a b : α} (ha : a ∈ run.head?)
    (hb : b ∈ run.getLast?) : r a b = true := by
  have hrun : run ≠ [] := by
    rintro rfl
    cases ha
  rw [← h.flatten] at hin hmono
  obtain ⟨g, hg, before, after, hgroup⟩ :=
    exists_group_of_isChain h.nil_notMem h.between hrun hchain hin
  have hbg : b ∈ g := by
    have hmem := List.mem_of_getLast? hb
    simp [← hgroup, hmem]
  cases before with
  | nil =>
    have hhead : a ∈ g.head? := by
      rw [← hgroup, List.nil_append, List.head?_append_of_ne_nil _ hrun]
      exact ha
    exact hfirst g hg a hhead b hbg
  | cons first before =>
    -- the first of the group comes before the run
    have hrel := hfirst g hg first (by simp [← hgroup]) b hbg
    rw [List.pairwise_flatten] at hmono
    have hpair := hmono.1 g hg
    rw [← hgroup, List.append_assoc, List.cons_append, List.pairwise_cons] at hpair
    refine hpair.1 a ?_ b hrel
    have hmem := List.mem_of_head? ha
    simp [hmem]

/-- One element keeps the groups cut between unrelated neighbours, if the ends of the runs up to it
    are related. -/
theorem SplitsAt.addGrouped (h : SplitsAt r l groups) {a : α}
    (hmono : l.Pairwise fun a b => ∀ c, r a c = true → r b c = true)
    (hruns : ∀ run, run <:+: l ++ [a] → run.IsChain (fun a b => r a b) →
      ∀ x ∈ run.head?, ∀ y ∈ run.getLast?, r x y = true) :
    SplitsAt r (l ++ [a]) (addGrouped r groups a) := by
  rcases addGrouped_cases (r := r) h.nil_notMem a with
    ⟨rfl, hadd⟩ | ⟨front, first, rest, rfl, ⟨hrel, hadd⟩ | ⟨hcut, hadd⟩⟩
  · obtain rfl : [] = l := h.flatten
    rw [hadd]
    exact (splitsAt_iff r).mpr rfl
  · -- what is related to the first of the group is related to the last
    rw [hadd]
    refine h.extend fun b hb => ?_
    rw [← h.flatten, List.pairwise_flatten] at hmono
    have hpair := List.pairwise_cons.mp (hmono.1 (first :: rest) (by simp))
    rcases List.mem_cons.mp (List.mem_of_getLast? hb) with rfl | hmem
    · exact hrel
    · exact hpair.1 b hmem a hrel
  · -- were the element related to the last one, the group and it would be a run
    rw [hadd]
    refine h.start fun b hb => ?_
    rw [← h.flatten, List.flatten_append, List.flatten_singleton,
      List.getLast?_append_of_ne_nil _ (List.cons_ne_nil first rest)] at hb
    by_contra hlast
    have hchain : (first :: rest ++ [a]).IsChain fun a b => r a b := by
      rw [List.isChain_append]
      refine ⟨h.inside _ (by simp), List.isChain_singleton a, ?_⟩
      intro x hx y hy
      obtain rfl : b = x := Option.some.inj (hb.symm.trans hx)
      obtain rfl : a = y := by simpa using hy
      simpa using hlast
    have hin : first :: rest ++ [a] <:+: l ++ [a] := ⟨front.flatten, [], by simp [← h.flatten]⟩
    have hends := hruns _ hin hchain first rfl a (List.getLast?_concat ..)
    rw [hcut] at hends
    cases hends

/-- **When grouping by the first element cuts between unrelated neighbours.**  Where later elements
    are related to whatever earlier ones are, exactly if the ends of every run of related neighbours
    are related. -/
theorem groupByFirst_splitsAt_iff (hrefl : ∀ a, r a a = true)
    (hmono : l.Pairwise fun a b => ∀ c, r a c = true → r b c = true) :
    SplitsAt r l (groupByFirst r l) ↔ ∀ run, run <:+: l → run.IsChain (fun a b => r a b) →
      ∀ a ∈ run.head?, ∀ b ∈ run.getLast?, r a b = true := by
  constructor
  · intro h run hin hchain a ha b hb
    exact h.run_ends (groupByFirst_first hrefl l) hmono hin hchain ha hb
  · induction l using List.reverseRecOn with
    | nil => exact fun _ => (splitsAt_iff r).mpr rfl
    | append_singleton l a ih =>
      intro hruns
      have hmono := (List.pairwise_append.mp hmono).1
      have hbefore := ih hmono fun run hin =>
        hruns run (hin.trans (List.infix_append' [] l [a]))
      rw [groupByFirst_concat]
      exact hbefore.addGrouped hmono hruns

end GroupingLib
