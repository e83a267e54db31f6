import Mathlib.Data.List.Infix
import Mathlib.Data.List.DropRight

namespace PathLib

/-!
# Unix paths

Paths as texts, their components, and the places they lead to when no symbolic link is in the way.

* `join`, `components`, `pathStartsWith` — the path functions of a standard library, which work on
  the text and look at no file;
* `resolve` — the place a path leads to; `resolve_join` — a relative path goes on from there;
* `net` — a walk as so many levels up and then so many names down (`foldl_walk`);
  `below_iff` — which walks end below the place they start from.
-/

/-- A component of a path.  Names, dots in front, steps upwards and the root are told apart;
    separators are not kept. -/
inductive Component where
  | rootDir
  | curDir
  | parentDir
  | normal (name : String)
  deriving DecidableEq, Repr

/-- The pieces of a path between its separators. -/
def pieces (p : String) : List (List Char) := p.toList.splitOn '/'

/-- Does the path begin at the root of the file system? -/
def isAbsolute (p : String) : Bool := p.toList.head? == some '/'

/-- The path `q`, seen from `p`: an absolute one stands for itself, any other goes on behind a
    separator. -/
def join (p q : String) : String :=
  if isAbsolute q then q
  else if p = "" ∨ p.toList.getLast? = some '/' then p ++ q
  else p ++ "/" ++ q

/-- The component a piece stands for; empty pieces and dots stand for none. -/
def step (piece : List Char) : Option Component :=
  if piece = [] ∨ piece = ['.'] then none
  else if piece = ['.', '.'] then some .parentDir
  else some (.normal (String.ofList piece))

/-- The components of a path behind the place it starts from. -/
def steps (p : String) : List Component := (pieces p).filterMap step

/-- Where a path starts from, as far as it says; a dot counts in front only, and elsewhere stands
    for nothing. -/
def front (p : String) : List Component :=
  if isAbsolute p then [.rootDir]
  else if (pieces p).head? = some ['.'] then [.curDir]
  else []

/-- The components of a path. -/
def components (p : String) : List Component := front p ++ steps p

/-- Are the components of `q` the first of those of `p`? The test does not resolve anything, and
    `..` is a component like any other. -/
def pathStartsWith (p q : String) : Bool := (components q).isPrefixOf (components p)

/-- Does the path name a file?  One that ends in a separator or in dots names a directory. -/
def namesFile (p : String) : Bool :=
  match (pieces p).getLast?.bind step with
  | some (.normal _) => true
  | _ => false

/-! ### Pieces -/

/-- A path has at least one piece, the empty one if there is no letter in it. -/
theorem pieces_ne_nil (p : String) : pieces p ≠ [] := List.splitOn_ne_nil _ _

/-- A text without separator is one piece. -/
theorem pieces_of_notMem {p : String} (h : '/' ∉ p.toList) : pieces p = [p.toList] :=
  List.splitOn_eq_singleton h

/-- A path without a slash is relative. -/
theorem isAbsolute_of_notMem {p : String} (h : '/' ∉ p.toList) : isAbsolute p = false := by
  rw [isAbsolute, beq_eq_false_iff_ne]
  exact fun hhead => h (List.mem_of_head? hhead)

/-- Joining puts the pieces of a relative path behind those that lead to it, and these have the
    steps of the first path. -/
theorem pieces_join (p : String) {q : String} (hq : isAbsolute q = false) :
    ∃ before, pieces (join p q) = before ++ pieces q ∧ before.filterMap step = steps p ∧
      (p ≠ "" → before ≠ [] ∧ before.head? = (pieces p).head?) := by
  have hslash : ∀ p : String, pieces (p ++ "/" ++ q) = pieces p ++ pieces q := by
    intro p
    have htext : (p ++ "/" ++ q).toList = p.toList ++ '/' :: q.toList := by simp
    rw [pieces, htext, List.splitOn_append_cons_self]
    rfl
  unfold join
  rw [hq, if_neg (by simp)]
  split
  · -- no separator is put in: the path is empty, or it ends in one
    rename_i hends
    rcases hends with rfl | hends
    · exact ⟨[], by simp, rfl, fun hne => absurd rfl hne⟩
    · obtain ⟨rest, hrest⟩ := List.getLast?_eq_some_iff.mp hends
      have hp : p = String.ofList rest ++ "/" := by
        rw [← String.toList_inj, hrest]
        simp
      have hpieces : pieces p = pieces (String.ofList rest) ++ [[]] := by
        rw [pieces, hrest, List.splitOn_append_cons_self, List.splitOn_nil, pieces,
          String.toList_ofList]
      have hrest_ne := pieces_ne_nil (String.ofList rest)
      refine ⟨pieces (String.ofList rest), hp ▸ hslash _, ?_, fun _ => ⟨hrest_ne, ?_⟩⟩
      · rw [steps, hpieces, List.filterMap_append]
        exact (List.append_nil _).symm
      · rw [hpieces, List.head?_append_of_ne_nil _ hrest_ne]
  · exact ⟨pieces p, hslash p, rfl, fun _ => ⟨pieces_ne_nil p, rfl⟩⟩

/-- Joining a relative path appends its steps. -/
theorem steps_join (p : String) {q : String} (hq : isAbsolute q = false) :
    steps (join p q) = steps p ++ steps q := by
  obtain ⟨before, hpieces, hbefore, -⟩ := pieces_join p hq
  rw [steps, hpieces, List.filterMap_append, hbefore]
  rfl

/-- A joined path names a file if its last part does. -/
theorem namesFile_join (p : String) {q : String} (hq : isAbsolute q = false) :
    namesFile (join p q) = namesFile q := by
  obtain ⟨before, hpieces, -⟩ := pieces_join p hq
  rw [namesFile, namesFile, hpieces, List.getLast?_append_of_ne_nil _ (pieces_ne_nil q)]

/-- A relative path that is joined leaves absolute what was. -/
theorem isAbsolute_join (p : String) {q : String} (hq : isAbsolute q = false) :
    isAbsolute (join p q) = isAbsolute p := by
  unfold join
  rw [hq, if_neg (by simp)]
  by_cases hp : p = ""
  · subst hp
    simpa [isAbsolute] using hq
  · have hne : p.toList ≠ [] := by simpa using hp
    split <;> simp [isAbsolute, List.head?_append_of_ne_nil _ hne]

/-- A path goes on behind the components of the one it is joined to; the parts of a relative path
    are steps only. -/
theorem components_join {p q : String} (hp : p ≠ "") (hq : isAbsolute q = false) :
    components (join p q) = components p ++ steps q := by
  obtain ⟨before, hpieces, -, hbefore⟩ := pieces_join p hq
  obtain ⟨hne, hhead⟩ := hbefore hp
  have hfront : front (join p q) = front p := by
    rw [front, front, isAbsolute_join p hq, hpieces, List.head?_append_of_ne_nil _ hne, hhead]
  rw [components, components, hfront, steps_join p hq, List.append_assoc]

/-- The prefix test of two paths below a common one is the prefix test of what follows it. -/
theorem pathStartsWith_join {p q q' : String} (hp : p ≠ "") (hq : isAbsolute q = false)
    (hq' : isAbsolute q' = false) :
    pathStartsWith (join p q) (join p q') = true ↔ steps q' <+: steps q := by
  rw [pathStartsWith, List.isPrefixOf_iff_prefix, components_join hp hq, components_join hp hq',
    List.prefix_append_right_inj]

/-- Behind the front of a path there are names and `..` only. -/
theorem mem_steps {p : String} {c : Component} (h : c ∈ steps p) :
    c = .parentDir ∨ ∃ name, c = .normal name := by
  obtain ⟨piece, -, hstep⟩ := List.mem_filterMap.mp h
  unfold step at hstep
  split at hstep
  · cases hstep
  · split at hstep
    · exact Or.inl (Option.some.inj hstep).symm
    · exact Or.inr ⟨_, (Option.some.inj hstep).symm⟩

/-- What follows a path in another one does not start anew. -/
theorem rootDir_notMem {p q : String} {rest : List Component} (hq : components q ≠ [])
    (h : components p = components q ++ rest) : Component.rootDir ∉ rest := by
  intro hmem
  have htail : Component.rootDir ∈ (components p).tail := by
    rw [h, List.tail_append_of_ne_nil hq]
    exact List.mem_append_right _ hmem
  have hsteps : Component.rootDir ∈ steps p := by
    rw [components, front] at htail
    split at htail
    · exact htail
    · split at htail
      · exact htail
      · exact List.mem_of_mem_tail htail
  rcases mem_steps hsteps with hparent | ⟨name, hname⟩
  · cases hparent
  · cases hname

/-! ### Names -/

/-- A text that is one component of a path, a name: not empty, without a separator, and neither
    of the dots. -/
def IsName (s : String) : Prop := '/' ∉ s.toList ∧ s ≠ "" ∧ s ≠ "." ∧ s ≠ ".."

/-- A name is a step into a directory or to a file, never one upwards. -/
theorem step_of_isName {s : String} (h : IsName s) : step s.toList = some (.normal s) := by
  obtain ⟨-, hempty, hdot, hdots⟩ := h
  have hne : ∀ cs : List Char, s ≠ String.ofList cs → s.toList ≠ cs := by
    rintro cs hcs rfl
    exact hcs (String.ofList_toList).symm
  rw [step, if_neg (not_or.mpr ⟨hne [] hempty, hne ['.'] hdot⟩), if_neg (hne ['.', '.'] hdots),
    String.ofList_toList]

/-- It is the only step of the path it is. -/
theorem steps_of_isName {s : String} (h : IsName s) : steps s = [.normal s] := by
  rw [steps, pieces_of_notMem h.1, List.filterMap_cons_some (step_of_isName h), List.filterMap_nil]

/-- A text without separator names a file exactly if it is a name. -/
theorem namesFile_iff {s : String} (h : '/' ∉ s.toList) : namesFile s = true ↔ IsName s := by
  rw [namesFile, pieces_of_notMem h, List.getLast?_singleton, Option.bind_some]
  constructor
  · intro hfile
    refine ⟨h, ?_, ?_, ?_⟩
    all_goals
      rintro rfl
      cases hfile
  · intro hname
    rw [step_of_isName hname]

/-! ### Places -/

/-- A place in the file system: the names that lead to it from the root.  There are no links. -/
abbrev Location := List String

/-- One component further; the root is its own parent. -/
def walk (here : Location) : Component → Location
  | .rootDir => []
  | .curDir => here
  | .parentDir => here.dropLast
  | .normal name => here ++ [name]

/-- The place a path leads to, for a process that works in `cwd`.  It walks the components one by
    one. -/
def resolve (cwd : Location) (p : String) : Location := (components p).foldl walk cwd

/-- To resolve a path is to walk its steps, from the root if it is absolute and from the current
    directory if not. -/
theorem resolve_eq (cwd : Location) (p : String) :
    resolve cwd p = (steps p).foldl walk (if isAbsolute p then [] else cwd) := by
  rw [resolve, components, List.foldl_append, front]
  split
  · rfl
  · split <;> rfl

/-- A relative path goes on from where the path before it leads, as walking does. -/
theorem resolve_join (cwd : Location) (p : String) {q : String} (hq : isAbsolute q = false) :
    resolve cwd (join p q) = (steps q).foldl walk (resolve cwd p) := by
  rw [resolve_eq, resolve_eq, steps_join p hq, isAbsolute_join p hq, List.foldl_append]

/-- A path that starts with another goes on from where that leads, by the components that are
    left. -/
theorem resolve_of_startsWith {cwd : Location} {p q : String} {rest : List Component}
    (h : components p = components q ++ rest) :
    resolve cwd p = rest.foldl walk (resolve cwd q) := by
  rw [resolve, h, List.foldl_append]
  rfl

/-! ### Walks -/

/-- A walk in short: this many levels up, then these names down.  Every walk that does not start
    anew comes to that. -/
structure Net where
  ups : Nat
  names : List String
  deriving DecidableEq, Repr

/-- One component more; `..` takes the last name back, if there is one. -/
def Net.add (n : Net) : Component → Net
  | .parentDir => if n.names = [] then ⟨n.ups + 1, []⟩ else ⟨n.ups, n.names.dropLast⟩
  | .normal name => ⟨n.ups, n.names ++ [name]⟩
  | _ => n

/-- The walk of a list of components. -/
def net (cs : List Component) : Net := cs.foldl Net.add ⟨0, []⟩

/-- **Walks in short.** A walk that does not start anew ends where its short form leads, by
    induction on its components from the back. -/
theorem foldl_walk (here : Location) {cs : List Component} (h : Component.rootDir ∉ cs) :
    cs.foldl walk here = here.take (here.length - (net cs).ups) ++ (net cs).names := by
  induction cs using List.reverseRecOn with
  | nil => simp [net]
  | append_singleton cs c ih =>
    rw [List.mem_append, not_or, List.mem_singleton] at h
    have hnet : net (cs ++ [c]) = (net cs).add c := by simp [net]
    rw [List.foldl_append, ih h.1, hnet, List.foldl_cons, List.foldl_nil]
    generalize net cs = n
    cases c with
    | rootDir => exact absurd rfl h.2
    | curDir => rfl
    | normal name => simp [walk, Net.add]
    | parentDir =>
      -- one name less, or one level more where there is no name to take back
      by_cases hnames : n.names = []
      · simp only [walk, Net.add, hnames, if_true, List.append_nil]
        rw [List.dropLast_eq_take, List.length_take, List.take_take]
        congr 1
        omega
      · simp only [walk, Net.add, hnames, if_false]
        exact List.dropLast_append_of_ne_nil hnames

/-- **Staying below.**  A walk ends at or below the place it starts from exactly if it goes down
    again by the names of the levels it has gone up. -/
theorem below_iff (here : Location) {cs : List Component} (h : Component.rootDir ∉ cs) :
    here <+: cs.foldl walk here ↔
      here.drop (here.length - (net cs).ups) <+: (net cs).names := by
  have hsplit := List.take_append_drop (here.length - (net cs).ups) here
  rw [foldl_walk here h]
  conv_lhs => lhs; rw [← hsplit]
  exact List.prefix_append_right_inj _

/-- A walk down by names. -/
theorem foldl_walk_normal (here : Location) (names : List String) :
    (names.map Component.normal).foldl walk here = here ++ names := by
  induction names generalizing here with
  | nil => simp
  | cons name names ih =>
    rw [List.map_cons, List.foldl_cons, ih]
    simp [walk]

end PathLib
