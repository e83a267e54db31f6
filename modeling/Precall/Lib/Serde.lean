import Mathlib.Data.List.Basic
import Mathlib.Data.List.Forall2
import Mathlib.Data.List.Nodup

namespace Serde

/-!
# Reading and writing values as documents

How derived serializers lay out values as JSON documents, and what derived deserializers accept.
A `Format` is a writer and a reader with their laws: the reader accepts exactly the documents of a
value, what is written is one of them, and so is each of their revisions.

* `Schema` — what a reader looks at in a document: the names of a record's fields, each with the
  schema of its own documents;
* `Schema.Revised` — a document as another version of a program writes it: in every record the
  members in another order, members of other names, members left out that hold a default;
* `Fields` — the fields of a record: as members of an object in any order, unknown members
  ignored, a key given twice refused, a missing field replaced by its default; or as an array in
  the order of the fields;
* `Format.list`, `Format.option`, `Format.record`, `Format.tagged` — formats from formats;
* `Format.tolerant` — what a format promises other versions.
-/

/-- A document; `float` is any number that is not a 64-bit integer. -/
inductive Value where
  | null
  | bool (b : Bool)
  | int (n : Int)
  | float (bits : UInt64)
  | string (s : String)
  | array (items : List Value)
  | object (members : List (String × Value))

/-- The members of an object in the order of the text; a key may occur twice, and then its reader
    decides. -/
abbrev Members := List (String × Value)

/-- The values of a key, in the order of the members.  A reader of a field sees these and no
    other member. -/
def occurrences (key : String) (members : Members) : List Value :=
  members.filterMap fun m => if m.1 = key then some m.2 else none

/-- No members, no occurrences. -/
@[simp] theorem occurrences_nil (key : String) : occurrences key [] = [] := rfl

/-- A member under the key is its first occurrence. -/
theorem occurrences_cons_self (key : String) (v : Value) (members : Members) :
    occurrences key ((key, v) :: members) = v :: occurrences key members := by
  simp [occurrences]

/-- A member under another key is none. -/
theorem occurrences_cons_ne {key key' : String} (h : key' ≠ key) (v : Value) (members : Members) :
    occurrences key ((key', v) :: members) = occurrences key members := by
  simp [occurrences, h]

/-- A key that is not among the members does not occur. -/
theorem occurrences_eq_nil {key : String} {members : Members} (h : key ∉ members.map Prod.fst) :
    occurrences key members = [] := by
  refine List.filterMap_eq_nil_iff.mpr fun m hm => if_neg fun heq => h ?_
  exact List.mem_map.mpr ⟨m, hm, heq⟩

/-- Reading every item of a list. -/
theorem mapM_eq_some {α β : Type} {f : α → Option β} {xs : List α} {ys : List β} :
    xs.mapM f = some ys ↔ List.Forall₂ (fun y x => f x = some y) ys xs := by
  induction xs generalizing ys with
  | nil => simp [eq_comm]
  | cons x xs ih =>
    rw [List.mapM_cons]
    cases ys with
    | nil => simp [Option.bind_eq_some_iff]
    | cons y ys => simp [Option.bind_eq_some_iff, ih]

/-- Each element of a list has a partner in a list that is related to it. -/
theorem exists_of_forall₂ {α β : Type} {R : α → β → Prop} {xs : List α} {ys : List β}
    (h : List.Forall₂ R xs ys) {x : α} (hx : x ∈ xs) : ∃ y, R x y := by
  induction h with
  | nil => cases hx
  | @cons a b as bs hab h ih =>
    rcases List.mem_cons.mp hx with rfl | hx
    · exact ⟨b, hab⟩
    · exact ih hx

/-- What is related item by item stays so when each item takes a step that the relation allows. -/
theorem forall₂_step {α β γ : Type} {R : α → β → Prop} {S : β → γ → Prop} {T : α → γ → Prop}
    (hstep : ∀ a b c, R a b → S b c → T a c) {xs : List α} {ys : List β} {zs : List γ}
    (hR : List.Forall₂ R xs ys) (hS : List.Forall₂ S ys zs) : List.Forall₂ T xs zs := by
  induction hR generalizing zs with
  | nil =>
    cases hS
    exact .nil
  | cons hab htail ih =>
    cases hS with
    | cons hbc hrest => exact .cons (hstep _ _ _ hab hbc) (ih hrest)

/-! ### Documents of other versions -/

mutual

/-- What a reader looks at in a document: which parts of it, at every depth, and by which names. -/
inductive Schema where
  /-- A document with no parts to look at. -/
  | atom
  /-- A list of documents of one kind. -/
  | array (item : Schema)
  /-- A record, as an object or as an array of its fields. -/
  | record (shape : Shape)
  /-- A record whose shape is the one that a member of its own names. -/
  | tagged (tag : String) (variant : String → Shape)

/-- The fields of a record in order: their names, whether the member may be left out, and their
    schemas.  Every record has names of its own; what is a field in one may be an unknown member in
    another. -/
inductive Shape where
  | none
  | field (name : String) (optional : Bool) (value : Schema) (rest : Shape)

end

/-- The names of the fields. -/
def Shape.names : Shape → List String
  | .none => []
  | .field name _ _ rest => name :: rest.names

/-- The documents that stand for a default: another version may leave the member out where one of
    these would stand. -/
def Blank (v : Value) : Prop := v = .null ∨ v = .array []

mutual

/-- The second document is the first as another version writes it.  Whatever is not looked at is
    left as it is; an object may have its members in another order and members that are no fields
    of its record, and leave out optional fields that are blank. -/
def Schema.Revised : Schema → Value → Value → Prop
  | .atom => fun v v' => v' = v
  | .array item => fun v v' => v' = v ∨ ∃ items items', v = .array items ∧ v' = .array items' ∧
      List.Forall₂ (fun x x' => item.Revised x x') items items'
  | .record shape => fun v v' => v' = v ∨
      (∃ members members', v = .object members ∧ v' = .object members' ∧
        shape.RevisedMembers members members') ∨
      ∃ items items', v = .array items ∧ v' = .array items' ∧ shape.RevisedItems items items'
  | .tagged tag variant => fun v v' => v' = v ∨
      (∃ name members members', v = .object members ∧ v' = .object members' ∧
        occurrences tag members = [.string name] ∧ occurrences tag members' = [.string name] ∧
        (variant name).RevisedMembers members members') ∨
      ∃ name items items', v = .array (.string name :: items) ∧
        v' = .array (.string name :: items') ∧ (variant name).RevisedItems items items'

/-- Of the members only those count that are fields, each in the order of its own occurrences.
    Which fields there are is the shape's own matter. -/
def Shape.RevisedMembers : Shape → Members → Members → Prop
  | .none => fun _ _ => True
  | .field name optional value rest => fun members members' =>
      (List.Forall₂ (fun v v' => value.Revised v v') (occurrences name members)
          (occurrences name members') ∨
        optional = true ∧ occurrences name members' = [] ∧
          ∀ v ∈ occurrences name members, Blank v) ∧
      rest.RevisedMembers members members'

/-- Items keep their places: an array has no names by which others could be told apart. -/
def Shape.RevisedItems : Shape → List Value → List Value → Prop
  | .none => fun items items' => items' = items
  | .field _ _ value rest => fun items items' => match items, items' with
      | v :: items, v' :: items' => value.Revised v v' ∧ rest.RevisedItems items items'
      | items, items' => items' = items

end

/-- Every document is a revision of itself: no member was added and none left out. -/
theorem Schema.Revised.refl (s : Schema) (v : Value) : s.Revised v v := by
  cases s with
  | atom => rfl
  | array item => exact Or.inl rfl
  | record shape => exact Or.inl rfl
  | tagged tag variant => exact Or.inl rfl

/-- Where no field is concerned, the members are free: in their order, and in what else is there. -/
theorem Shape.revisedMembers_of_same {members members' : Members} : ∀ {shape : Shape},
    (∀ key ∈ shape.names, occurrences key members = occurrences key members') →
    shape.RevisedMembers members members'
  | .none, _ => trivial
  | .field name optional value rest, h => by
    refine ⟨Or.inl ?_, revisedMembers_of_same fun key hkey => h key (List.mem_cons_of_mem _ hkey)⟩
    rw [h name List.mem_cons_self]
    exact List.forall₂_same.mpr fun v _ => Schema.Revised.refl value v

/-- Only the fields' own members count on either side. -/
theorem Shape.RevisedMembers.of_same {members members' others others' : Members} :
    ∀ {shape : Shape}, (∀ key ∈ shape.names, occurrences key members = occurrences key others) →
    (∀ key ∈ shape.names, occurrences key members' = occurrences key others') →
    shape.RevisedMembers members members' → shape.RevisedMembers others others'
  | .none, _, _, _ => trivial
  | .field name optional value rest, h, h', hrev => by
    refine ⟨?_, of_same (fun key hkey => h key (List.mem_cons_of_mem _ hkey))
      (fun key hkey => h' key (List.mem_cons_of_mem _ hkey)) hrev.2⟩
    rw [← h name List.mem_cons_self, ← h' name List.mem_cons_self]
    exact hrev.1

/-- A document without parts has no revision but itself. -/
theorem Schema.Revised.eq_of_atom {s : Schema} {v v' : Value} (h : s.Revised v v')
    (hitems : ∀ items, v ≠ .array items) (hmembers : ∀ members, v ≠ .object members) : v' = v := by
  cases s with
  | atom => exact h
  | array item =>
    rcases h with h | ⟨items, _, hv, -⟩
    · exact h
    · exact (hitems items hv).elim
  | record shape =>
    rcases h with h | ⟨members, _, hv, -⟩ | ⟨items, _, hv, -⟩
    · exact h
    · exact (hmembers members hv).elim
    · exact (hitems items hv).elim
  | tagged tag variant =>
    rcases h with h | ⟨_, members, _, hv, -⟩ | ⟨_, items, _, hv, -⟩
    · exact h
    · exact (hmembers members hv).elim
    · exact (hitems _ hv).elim

/-! ### Formats -/

/-- A writer and a reader.  `Fits` are the values of the program's own type, where the type here
    has more; `Doc a v` says that `v` is a document of `a`; the revisions of the documents that
    `schema` describes are documents of the same value. -/
structure Format (α : Type) where
  schema : Schema
  ser : α → Value
  de : Value → Option α
  Doc : α → Value → Prop
  Fits : α → Prop
  de_iff : ∀ a v, de v = some a ↔ Doc a v
  doc_ser : ∀ a, Fits a → Doc a (ser a)
  fits : ∀ a v, Doc a v → Fits a
  stable : ∀ a v v', Doc a v → schema.Revised v v' → Doc a v'

namespace Format

variable {α β : Type}

/-- **Round trip**: a value that fits is read from what was written for it. -/
theorem de_ser (f : Format α) {a : α} (h : f.Fits a) : f.de (f.ser a) = some a :=
  (f.de_iff a _).mpr (f.doc_ser a h)

/-- Strings. -/
def string : Format String where
  schema := .atom
  ser := .string
  de
    | .string s => some s
    | _ => none
  Doc s v := v = .string s
  Fits _ := True
  de_iff := by
    intro s v
    cases v <;> simp
  doc_ser _ _ := rfl
  fits _ _ _ := trivial
  stable _ _ _ hdoc hrev := hrev.trans hdoc

/-- Booleans. -/
def bool : Format Bool where
  schema := .atom
  ser := .bool
  de
    | .bool b => some b
    | _ => none
  Doc b v := v = .bool b
  Fits _ := True
  de_iff := by
    intro b v
    cases v <;> simp
  doc_ser _ _ := rfl
  fits _ _ _ := trivial
  stable _ _ _ hdoc hrev := hrev.trans hdoc

/-- Integers of a range, as a type that has more or the same.  A number outside the range is
    refused. -/
def integer (toInt : α → Int) (ofInt : Int → α) (lo hi : Int)
    (h : ∀ n, lo ≤ n → n < hi → toInt (ofInt n) = n) (h' : ∀ a, ofInt (toInt a) = a) :
    Format α where
  schema := .atom
  ser a := .int (toInt a)
  de
    | .int n => if lo ≤ n ∧ n < hi then some (ofInt n) else none
    | _ => none
  Doc a v := v = .int (toInt a) ∧ lo ≤ toInt a ∧ toInt a < hi
  Fits a := lo ≤ toInt a ∧ toInt a < hi
  de_iff := by
    intro a v
    cases v with
    | int n =>
      simp only [Value.int.injEq, Option.ite_none_right_eq_some, Option.some.injEq]
      constructor
      · rintro ⟨⟨hlo, hhi⟩, rfl⟩
        rw [h n hlo hhi]
        exact ⟨rfl, hlo, hhi⟩
      · rintro ⟨rfl, hlo, hhi⟩
        exact ⟨⟨hlo, hhi⟩, h' a⟩
    | null => simp
    | bool b => simp
    | float bits => simp
    | string s => simp
    | array items => simp
    | object members => simp
  doc_ser _ h := ⟨rfl, h⟩
  fits _ _ h := h.2
  stable _ _ _ hdoc hrev := ⟨hrev.trans hdoc.1, hdoc.2⟩

/-- Natural numbers below a bound, as a type. -/
def natural (toNat : α → Nat) (ofNat : Nat → α) (bound : Nat)
    (h : ∀ n, n < bound → toNat (ofNat n) = n) (h' : ∀ a, ofNat (toNat a) = a) : Format α :=
  integer (fun a => toNat a) (fun n => ofNat n.toNat) 0 bound
    (fun n hlo hhi => by
      rw [h n.toNat (by omega)]
      omega)
    fun a => by rw [Int.toNat_natCast, h']

/-- Where every value of a type lies below the bound of its numbers, there is nothing to check. -/
theorem natural_fits {toNat : α → Nat} {ofNat : Nat → α} {bound : Nat}
    {h : ∀ n, n < bound → toNat (ofNat n) = n} {h' : ∀ a, ofNat (toNat a) = a}
    (hlt : ∀ a, toNat a < bound) (a : α) : (natural toNat ofNat bound h h').Fits a :=
  ⟨Int.natCast_nonneg _, Int.ofNat_lt.mpr (hlt a)⟩

/-- Values that are written as strings: the text of each, and what is read from a text. -/
def text (print : α → String) (parse : String → Option α) (h : ∀ a, parse (print a) = some a) :
    Format α where
  schema := .atom
  ser a := .string (print a)
  de
    | .string s => parse s
    | _ => none
  Doc a v := ∃ s, v = .string s ∧ parse s = some a
  Fits _ := True
  de_iff := by
    intro a v
    cases v <;> simp
  doc_ser a _ := ⟨print a, rfl, h a⟩
  fits _ _ _ := trivial
  stable := by
    rintro a v v' ⟨s, hv, hs⟩ hrev
    exact ⟨s, hrev.trans hv, hs⟩

/-- Lists. -/
def list (f : Format α) : Format (List α) where
  schema := .array f.schema
  ser as := .array (as.map f.ser)
  de
    | .array items => items.mapM f.de
    | _ => none
  Doc as v := ∃ items, v = .array items ∧ List.Forall₂ f.Doc as items
  Fits as := ∀ a ∈ as, f.Fits a
  de_iff := by
    intro as v
    cases v with
    | array items =>
      simp only [mapM_eq_some, f.de_iff, Value.array.injEq, exists_eq_left']
    | null => simp
    | bool b => simp
    | int n => simp
    | float bits => simp
    | string s => simp
    | object members => simp
  doc_ser as h := by
    refine ⟨_, rfl, ?_⟩
    rw [List.forall₂_map_right_iff]
    exact List.forall₂_same.mpr fun a ha => f.doc_ser a (h a ha)
  fits as v h := by
    obtain ⟨items, -, hdocs⟩ := h
    intro a ha
    obtain ⟨item, hdoc⟩ := exists_of_forall₂ hdocs ha
    exact f.fits a item hdoc
  stable := by
    rintro as v v' ⟨items, rfl, hdocs⟩ (rfl | ⟨items₁, items', hitems, rfl, hrevs⟩)
    · exact ⟨items, rfl, hdocs⟩
    · cases hitems
      exact ⟨items', rfl, forall₂_step f.stable hdocs hrevs⟩

/-- A value or `null`, which is no document of a value, so the two cannot be confused. -/
def option (f : Format α) (hnull : f.de .null = none) : Format (Option α) where
  schema := f.schema
  ser
    | none => .null
    | some a => f.ser a
  de
    | .null => some none
    | v => (f.de v).map some
  Doc a v := match a with
    | none => v = .null
    | some a => f.Doc a v
  Fits a := ∀ b, a = some b → f.Fits b
  de_iff := by
    have hno : ∀ a, ¬ f.Doc a .null := fun a ha => by
      rw [← f.de_iff, hnull] at ha
      cases ha
    intro a v
    cases a with
    | none => cases v <;> simp
    | some a => cases v <;> simp [f.de_iff, hno]
  doc_ser a h := by
    cases a with
    | none => rfl
    | some a => exact f.doc_ser a (h a rfl)
  fits a v h := by
    rintro b rfl
    exact f.fits b v h
  stable a v v' hdoc hrev := by
    cases a with
    | none =>
      obtain rfl : v = .null := hdoc
      exact hrev.eq_of_atom (by simp) (by simp)
    | some a => exact f.stable a v v' hdoc hrev

/-- A format by way of another type.  What is written is the other type's document. -/
def map (f : Format β) (parts : α → β) (make : β → α) (h : ∀ a, make (parts a) = a)
    (h' : ∀ b, parts (make b) = b) : Format α where
  schema := f.schema
  ser a := f.ser (parts a)
  de v := (f.de v).map make
  Doc a v := f.Doc (parts a) v
  Fits a := f.Fits (parts a)
  de_iff := by
    intro a v
    rw [← f.de_iff, Option.map_eq_some_iff]
    constructor
    · rintro ⟨b, hb, rfl⟩
      rw [hb, h']
    · intro hde
      exact ⟨parts a, hde, h a⟩
  doc_ser a := f.doc_ser (parts a)
  fits a := f.fits (parts a)
  stable a := f.stable (parts a)

/-- No document of the format is blank, so a blank document of an optional field stands for its
    absence. -/
def Solid (f : Format α) : Prop := ∀ a v, f.Doc a v → ¬ Blank v

/-- A text is never written as `null`. -/
theorem string_solid : string.Solid := by
  rintro a _ rfl (h | h) <;> cases h

/-- Nor is a number. -/
theorem integer_solid {toInt : α → Int} {ofInt : Int → α} {lo hi : Int}
    {h : ∀ n, lo ≤ n → n < hi → toInt (ofInt n) = n} {h' : ∀ a, ofInt (toInt a) = a} :
    (integer toInt ofInt lo hi h h').Solid := by
  rintro a _ ⟨rfl, -⟩ (h | h) <;> cases h

/-- An optional value with a blank document is absent. -/
theorem option_blank {f : Format α} {hnull : f.de .null = none} (hf : f.Solid) (a : Option α)
    (v : Value) (hdoc : (f.option hnull).Doc a v) (hblank : Blank v) : a = none := by
  cases a with
  | none => rfl
  | some a => exact (hf a v hdoc hblank).elim

/-- A list with a blank document is empty. -/
theorem list_blank {f : Format α} (as : List α) (v : Value) (hdoc : f.list.Doc as v)
    (hblank : Blank v) : as = [] := by
  obtain ⟨items, rfl, hdocs⟩ := hdoc
  rcases hblank with h | h
  · cases h
  · cases h
    exact List.forall₂_nil_right_iff.mp hdocs

end Format

/-! ### Fields -/

/-- The fields of a record, as members and as items.  Either way is read on its own. -/
structure Fields (α : Type) where
  shape : Shape
  ser : α → Members
  de : Members → Option α
  deSeq : List Value → Option α
  Doc : α → Members → Prop
  DocSeq : α → List Value → Prop
  Fits : α → Prop
  names_ser : ∀ a, (ser a).map Prod.fst = shape.names
  de_iff : ∀ a members, de members = some a ↔ Doc a members
  deSeq_iff : ∀ a items, deSeq items = some a ↔ DocSeq a items
  doc_ser : shape.names.Nodup → ∀ a, Fits a → Doc a (ser a)
  fits : ∀ a members, Doc a members → Fits a
  fitsSeq : ∀ a items, DocSeq a items → Fits a
  stable : ∀ a members members', Doc a members → shape.RevisedMembers members members' →
    Doc a members'
  stableSeq : ∀ a items items', DocSeq a items → shape.RevisedItems items items' → DocSeq a items'

namespace Fields

variable {α β : Type}

/-- The names of the fields. -/
abbrev names (fields : Fields α) : List String := fields.shape.names

/-- Other members do not matter, and neither does the order: a record is told by the occurrences
    of its fields. -/
theorem congr (fields : Fields α) (a : α) {members members' : Members}
    (h : ∀ key ∈ fields.names, occurrences key members = occurrences key members')
    (hdoc : fields.Doc a members) : fields.Doc a members' :=
  fields.stable a members members' hdoc (Shape.revisedMembers_of_same h)

/-- No fields. -/
def none : Fields Unit where
  shape := .none
  ser _ := []
  de _ := some ()
  deSeq
    | [] => some ()
    | _ => Option.none
  Doc _ _ := True
  DocSeq _ items := items = []
  Fits _ := True
  names_ser _ := rfl
  de_iff := by simp
  deSeq_iff := by
    intro a items
    cases items <;> simp
  doc_ser _ _ _ := trivial
  fits _ _ _ := trivial
  fitsSeq _ _ _ := trivial
  stable _ _ _ _ _ := trivial
  stableSeq _ _ _ hdoc hrev := hrev.trans hdoc

/-- Two parts, each of which must be there. -/
def both (x : Option α) (y : Option β) : Option (α × β) := do
  let a ← x
  let b ← y
  some (a, b)

/-- Two readers that must both succeed. -/
theorem both_eq_some {x : Option α} {y : Option β} {a : α} {b : β} :
    both x y = some (a, b) ↔ x = some a ∧ y = some b := by
  cases x <;> cases y <;> simp [both]

/-- One field in front of others.  `missing` is its value where no member has its name, `short`
    where the items are used up.  A field may be left out if it has a value when it is missing, and
    then every blank document of it is one of that value. -/
def field (name : String) (missing short : Option α) (f : Format α) (rest : Fields β)
    (hmissing : ∀ a, missing = some a → f.Fits a) (hshort : ∀ a, short = some a → f.Fits a)
    (hblank : ∀ d, missing = some d → ∀ a v, f.Doc a v → Blank v → a = d) :
    Fields (α × β) where
  shape := .field name missing.isSome f.schema rest.shape
  ser a := (name, f.ser a.1) :: rest.ser a.2
  de members := both
    (match occurrences name members with
      | [] => missing
      | [v] => f.de v
      | _ => Option.none)
    (rest.de members)
  deSeq
    | [] => both short (rest.deSeq [])
    | v :: items => both (f.de v) (rest.deSeq items)
  Doc a members := (match occurrences name members with
      | [] => missing = some a.1
      | [v] => f.Doc a.1 v
      | _ => False) ∧ rest.Doc a.2 members
  DocSeq a
    | [] => short = some a.1 ∧ rest.DocSeq a.2 []
    | v :: items => f.Doc a.1 v ∧ rest.DocSeq a.2 items
  Fits a := f.Fits a.1 ∧ rest.Fits a.2
  names_ser a := by rw [List.map_cons, rest.names_ser, Shape.names]
  de_iff := by
    rintro ⟨a, b⟩ members
    rw [both_eq_some, rest.de_iff]
    split <;> simp [f.de_iff]
  deSeq_iff := by
    rintro ⟨a, b⟩ items
    cases items <;> simp [both_eq_some, f.de_iff, rest.deSeq_iff]
  doc_ser := by
    rintro hnames ⟨a, b⟩ ⟨ha, hb⟩
    obtain ⟨hname, hnames⟩ := List.nodup_cons.mp hnames
    have hrest : occurrences name (rest.ser b) = [] :=
      occurrences_eq_nil (by rw [rest.names_ser]; exact hname)
    refine ⟨?_, rest.congr b (fun key hkey => ?_) (rest.doc_ser hnames b hb)⟩
    · rw [occurrences_cons_self, hrest]
      exact f.doc_ser a ha
    · have hne : name ≠ key := fun heq => hname (heq.symm ▸ hkey)
      exact (occurrences_cons_ne hne _ _).symm
  fits := by
    rintro ⟨a, b⟩ members ⟨ha, hb⟩
    refine ⟨?_, rest.fits b members hb⟩
    split at ha
    · exact hmissing a ha
    · exact f.fits a _ ha
    · exact ha.elim
  fitsSeq := by
    rintro ⟨a, b⟩ items h
    cases items with
    | nil => exact ⟨hshort a h.1, rest.fitsSeq b _ h.2⟩
    | cons v items => exact ⟨f.fits a v h.1, rest.fitsSeq b _ h.2⟩
  stable := by
    rintro ⟨a, b⟩ members members' ⟨ha, hb⟩ ⟨hrev, hrest⟩
    refine ⟨?_, rest.stable b members members' hb hrest⟩
    rcases hrev with hkept | ⟨hoptional, hnone, hblanks⟩
    · split at ha
      · rename_i hocc
        rw [hocc] at hkept
        rw [List.forall₂_nil_left_iff.mp hkept]
        exact ha
      · rename_i v hocc
        rw [hocc] at hkept
        obtain ⟨v', tail, hv, htail, hocc'⟩ := List.forall₂_cons_left_iff.mp hkept
        rw [hocc', List.forall₂_nil_left_iff.mp htail]
        exact f.stable a v v' ha hv
      · exact ha.elim
    · rw [hnone]
      split at ha
      · exact ha
      · rename_i v hocc
        obtain ⟨d, hd⟩ := Option.isSome_iff_exists.mp hoptional
        rw [hblank d hd a v ha (hblanks v (hocc ▸ List.mem_singleton_self v))]
        exact hd
      · exact ha.elim
  stableSeq := by
    rintro ⟨a, b⟩ items items' hdoc hrev
    cases items with
    | nil =>
      obtain rfl : items' = [] := hrev
      exact hdoc
    | cons v items =>
      cases items' with
      | nil => cases hrev
      | cons v' items' =>
        exact ⟨f.stable a v v' hdoc.1 hrev.1, rest.stableSeq b items items' hdoc.2 hrev.2⟩

/-- A field that must be there; a record without it is refused. -/
abbrev required (name : String) (f : Format α) (rest : Fields β) : Fields (α × β) :=
  field name Option.none Option.none f rest (fun _ h => by cases h) (fun _ h => by cases h)
    fun _ h => by cases h

/-- A field with a default, which is the value of its blank documents and of a member that is
    missing. -/
abbrev defaulted (name : String) (default : α) (f : Format α) (rest : Fields β)
    (hdefault : f.Fits default) (hblank : ∀ a v, f.Doc a v → Blank v → a = default) :
    Fields (α × β) :=
  field name (some default) (some default) f rest
    (fun _ h => Option.some.inj h ▸ hdefault) (fun _ h => Option.some.inj h ▸ hdefault)
    fun _ h => Option.some.inj h ▸ hblank

/-- An optional field without a default: the member may be missing, the item may not. -/
def optional (name : String) (f : Format α) (hnull : f.de .null = Option.none) (hsolid : f.Solid)
    (rest : Fields β) : Fields (Option α × β) :=
  field name (some Option.none) Option.none (f.option hnull) rest
    (by rintro _ ⟨⟩ _ ⟨⟩) (by rintro _ ⟨⟩)
    (by rintro _ ⟨⟩; exact Format.option_blank hsolid)

end Fields

namespace Format

variable {α : Type}

/-- A record: an object, or an array of the fields in order.  Members that are no fields are
    passed over. -/
def record (fields : Fields α) (hnames : fields.names.Nodup) : Format α where
  schema := .record fields.shape
  ser a := .object (fields.ser a)
  de
    | .object members => fields.de members
    | .array items => fields.deSeq items
    | _ => none
  Doc a
    | .object members => fields.Doc a members
    | .array items => fields.DocSeq a items
    | _ => False
  Fits := fields.Fits
  de_iff := by
    intro a v
    cases v <;> simp [fields.de_iff, fields.deSeq_iff]
  doc_ser := fields.doc_ser hnames
  fits a v h := by
    cases v with
    | object members => exact fields.fits a members h
    | array items => exact fields.fitsSeq a items h
    | _ => exact h.elim
  stable := by
    rintro a v v' hdoc (rfl | ⟨members, members', rfl, rfl, hrev⟩ | ⟨items, items', rfl, rfl, hrev⟩)
    · exact hdoc
    · exact fields.stable a members members' hdoc hrev
    · exact fields.stableSeq a items items' hdoc hrev

end Format

/-! ### Enumerations tagged by a member -/

/-- One variant of an enumeration, and its fields.  Its contents are a type of their own. -/
structure Variant (α : Type) where
  name : String
  Content : Type
  fields : Fields Content
  nodup : fields.names.Nodup
  make : Content → α
  content : α → Option Content
  content_iff : ∀ a b, content a = some b ↔ make b = a

/-- The members that are not the tag. -/
def untagged (tag : String) (members : Members) : Members := members.filter fun m => m.1 ≠ tag

/-- Taking the tag of an enumeration away leaves the members of its variants as they are. -/
theorem occurrences_untagged {tag key : String} (h : key ≠ tag) (members : Members) :
    occurrences key (untagged tag members) = occurrences key members := by
  unfold occurrences untagged
  rw [List.filterMap_filter]
  refine List.filterMap_congr fun m _ => ?_
  by_cases hm : m.1 = tag
  · simp [hm, Ne.symm h]
  · simp [hm]

/-- An enumeration: the variant's fields beside a tag with its name, or behind it in an array.
    Every value is of one variant. -/
structure Enumeration (α : Type) where
  tag : String
  variants : List (Variant α)
  which : α → Variant α
  names : (variants.map Variant.name).Nodup
  tag_notMem : ∀ w ∈ variants, tag ∉ w.fields.names
  which_mem : ∀ a, which a ∈ variants
  which_content : ∀ a, ((which a).content a).isSome = true
  which_make : ∀ w ∈ variants, ∀ b, which (w.make b) = w

namespace Enumeration

variable {α : Type} (e : Enumeration α)

/-- The variant with a name. -/
def named (name : String) : Option (Variant α) := e.variants.find? fun w => w.name = name

/-- A name picks the one variant that has it, for no two of them share a name. -/
theorem named_eq_some {name : String} {w : Variant α} :
    e.named name = some w ↔ w ∈ e.variants ∧ w.name = name := by
  constructor
  · intro h
    exact ⟨List.mem_of_find?_eq_some h, by simpa using List.find?_some h⟩
  · rintro ⟨hw, rfl⟩
    cases hfind : e.named w.name with
    | none => simpa using List.find?_eq_none.mp hfind w hw
    | some w' =>
      have hname : w'.name = w.name := by simpa using List.find?_some hfind
      rw [List.inj_on_of_nodup_map e.names (List.mem_of_find?_eq_some hfind) hw hname]

/-- A value is one of the variant with a name, with contents of a kind. -/
def Is (a : α) (name : String) (P : (w : Variant α) → w.Content → Prop) : Prop :=
  ∃ w ∈ e.variants, ∃ b, w.make b = a ∧ w.name = name ∧ P w b

/-- The name of the variant, and its fields, wherever the tag stands among the members. -/
def Doc (a : α) : Value → Prop
  | .object members => ∃ name, occurrences e.tag members = [.string name] ∧
      e.Is a name fun w b => w.fields.Doc b (untagged e.tag members)
  | .array items => ∃ name rest, items = .string name :: rest ∧
      e.Is a name fun w b => w.fields.DocSeq b rest
  | _ => False

/-- Read the contents of the variant with a name. -/
def deNamed (name : String) (read : (w : Variant α) → Option w.Content) : Option α :=
  (e.named name).bind fun w => (read w).map w.make

/-- `Deserialize` of an internally tagged enumeration: an object with one tag member that names a
    variant, or an array that starts with such a name; the rest goes to the variant's own reader. -/
def de : Value → Option α
  | .object members => match occurrences e.tag members with
    | [.string name] => e.deNamed name fun w => w.fields.de (untagged e.tag members)
    | _ => none
  | .array (.string name :: rest) => e.deNamed name fun w => w.fields.deSeq rest
  | _ => none

/-- A reader that goes by the name finds a value exactly if the variant of that name finds its
    content. -/
theorem deNamed_iff {a : α} {name : String} {read : (w : Variant α) → Option w.Content}
    {P : (w : Variant α) → w.Content → Prop} (h : ∀ w b, read w = some b ↔ P w b) :
    e.deNamed name read = some a ↔ e.Is a name P := by
  unfold deNamed Is
  rw [Option.bind_eq_some_iff]
  constructor
  · rintro ⟨w, hw, hmap⟩
    obtain ⟨b, hb, hmake⟩ := Option.map_eq_some_iff.mp hmap
    obtain ⟨hmem, hname⟩ := e.named_eq_some.mp hw
    exact ⟨w, hmem, b, hmake, hname, (h w b).mp hb⟩
  · rintro ⟨w, hmem, b, hmake, hname, hb⟩
    exact ⟨w, e.named_eq_some.mpr ⟨hmem, hname⟩,
      Option.map_eq_some_iff.mpr ⟨b, (h w b).mpr hb, hmake⟩⟩

/-- **An enumeration is read** from its documents and from nothing else: one equation for reading
    and refusing. -/
theorem de_iff (a : α) (v : Value) : e.de v = some a ↔ e.Doc a v := by
  cases v with
  | object members =>
    unfold de Doc
    dsimp only
    split
    · rename_i name htag
      rw [e.deNamed_iff fun w b => w.fields.de_iff b _]
      simp [htag]
    · rename_i htag
      constructor
      · intro h
        cases h
      · rintro ⟨name, hname, -⟩
        exact (htag name hname).elim
  | array items =>
    unfold Doc
    cases items with
    | nil => simp [de]
    | cons item rest =>
      cases item with
      | string name =>
        show e.deNamed name _ = some a ↔ _
        rw [e.deNamed_iff fun w b => w.fields.deSeq_iff b _]
        simp
      | _ => simp [de]
  | _ => simp [de, Doc]

/-- The contents of a value. -/
theorem exists_content (a : α) : ∃ b, (e.which a).content a = some b ∧ (e.which a).make b = a := by
  obtain ⟨b, hb⟩ := Option.isSome_iff_exists.mp (e.which_content a)
  exact ⟨b, hb, ((e.which a).content_iff a b).mp hb⟩

/-- `Serialize` of an internally tagged enumeration: the tag member first, then those of the
    variant. -/
def ser (a : α) : Value :=
  match (e.which a).content a with
  | some b => .object ((e.tag, .string (e.which a).name) :: (e.which a).fields.ser b)
  | none => .null

/-- The fields of the value's variant fit. -/
def Fits (a : α) : Prop := ∀ b, (e.which a).make b = a → (e.which a).fields.Fits b

/-- What is written is a document of the value. -/
theorem doc_ser (a : α) (h : e.Fits a) : e.Doc a (e.ser a) := by
  obtain ⟨b, hb, hmake⟩ := e.exists_content a
  have hnot := e.tag_notMem _ (e.which_mem a)
  have hnone : occurrences e.tag ((e.which a).fields.ser b) = [] :=
    occurrences_eq_nil (by rw [Fields.names_ser]; exact hnot)
  unfold ser
  rw [hb]
  refine ⟨(e.which a).name, ?_, e.which a, e.which_mem a, b, hmake, rfl, ?_⟩
  · rw [occurrences_cons_self, hnone]
  · refine (e.which a).fields.congr b (fun key hkey => ?_)
      ((e.which a).fields.doc_ser (e.which a).nodup b (h b hmake))
    have hne : key ≠ e.tag := fun heq => hnot (heq ▸ hkey)
    rw [occurrences_untagged hne, occurrences_cons_ne hne.symm]

/-- A document is of a value that fits. -/
theorem fits (a : α) (v : Value) (h : e.Doc a v) : e.Fits a := by
  have his : ∀ name (P : (w : Variant α) → w.Content → Prop),
      (∀ w b, P w b → w.fields.Fits b) → e.Is a name P → e.Fits a := by
    rintro name P hP ⟨w, hw, b, rfl, -, hb⟩
    unfold Fits
    rw [e.which_make w hw b]
    intro b' hb'
    have hsame : some b = some b' :=
      ((w.content_iff _ b).mpr rfl).symm.trans ((w.content_iff _ b').mpr hb')
    rw [← Option.some.inj hsame]
    exact hP w b hb
  cases v with
  | object members =>
    obtain ⟨name, -, h⟩ := h
    exact his name _ (fun w b => w.fields.fits b _) h
  | array items =>
    obtain ⟨name, rest, -, h⟩ := h
    exact his name _ (fun w b => w.fields.fitsSeq b _) h
  | _ => exact h.elim

/-- The shape of the variant with a name. -/
def shapeNamed (name : String) : Shape :=
  match e.named name with
  | some w => w.fields.shape
  | none => .none

/-- The variant of a document keeps its name, and its fields are stable.  A revision of one
    variant cannot become another. -/
theorem stable (a : α) (v v' : Value) (hdoc : e.Doc a v)
    (hrev : (Schema.tagged e.tag e.shapeNamed).Revised v v') : e.Doc a v' := by
  have hshape : ∀ w ∈ e.variants, e.shapeNamed w.name = w.fields.shape := fun w hw => by
    unfold shapeNamed
    rw [e.named_eq_some.mpr ⟨hw, rfl⟩]
  rcases hrev with rfl | ⟨name, members, members', rfl, rfl, htag, htag', hrev⟩ |
    ⟨name, items, items', rfl, rfl, hrev⟩
  · exact hdoc
  · obtain ⟨name', hname', w, hw, b, hmake, rfl, hb⟩ := hdoc
    obtain rfl : name = w.name := by
      rw [htag] at hname'
      simpa using hname'
    rw [hshape w hw] at hrev
    have hsame : ∀ (ms : Members), ∀ key ∈ w.fields.names,
        occurrences key ms = occurrences key (untagged e.tag ms) := by
      intro ms key hkey
      have hne : key ≠ e.tag := fun heq => e.tag_notMem w hw (heq ▸ hkey)
      exact (occurrences_untagged hne ms).symm
    exact ⟨w.name, htag', w, hw, b, hmake, rfl,
      w.fields.stable b _ _ hb (hrev.of_same (hsame members) (hsame members'))⟩
  · obtain ⟨name', rest, hitems, w, hw, b, hmake, rfl, hb⟩ := hdoc
    obtain ⟨hname, rfl⟩ := List.cons.inj hitems
    obtain rfl := Value.string.inj hname
    rw [hshape w hw] at hrev
    exact ⟨w.name, items', rfl, w, hw, b, hmake, rfl, w.fields.stableSeq b _ _ hb hrev⟩

end Enumeration

/-- An enumeration tagged by a member. -/
def Format.tagged {α : Type} (e : Enumeration α) : Format α where
  schema := .tagged e.tag e.shapeNamed
  ser := e.ser
  de := e.de
  Doc := e.Doc
  Fits := e.Fits
  de_iff := e.de_iff
  doc_ser := e.doc_ser
  fits := e.fits
  stable := e.stable

/-- An enumeration without fields: its variants by name, and no other text. -/
def Format.unitEnum {α : Type} (name : α → String) (parse : String → Option α)
    (h : ∀ a, parse (name a) = some a) : Format α where
  schema := .atom
  ser a := .string (name a)
  de
    | .string s => parse s
    | .object [(s, .null)] => parse s
    | _ => none
  Doc a v := ∃ s, (v = .string s ∨ v = .object [(s, .null)]) ∧ parse s = some a
  Fits _ := True
  de_iff := by
    intro a v
    split
    · simp
    · simp
    · rename_i hstring hobject
      constructor
      · intro h
        cases h
      · rintro ⟨s, rfl | rfl, -⟩
        · exact (hstring s rfl).elim
        · exact (hobject s rfl).elim
  doc_ser a _ := ⟨name a, Or.inl rfl, h a⟩
  fits _ _ _ := trivial
  stable := by
    rintro a v v' hdoc hrev
    obtain rfl : v' = v := hrev
    exact hdoc

/-- A format that other versions may write and read: a value that fits is read back from what is
    written, and from each revision of it; what is accepted fits, can be written and read again, and
    so can each revision of it. -/
structure Format.Tolerant {α : Type} (f : Format α) : Prop where
  written : ∀ a, f.Fits a → ∀ v, f.schema.Revised (f.ser a) v → f.de v = some a
  accepted : ∀ v a, f.de v = some a →
    f.Fits a ∧ f.de (f.ser a) = some a ∧ ∀ v', f.schema.Revised v v' → f.de v' = some a

/-- Formats are tolerant of other versions. -/
theorem Format.tolerant {α : Type} (f : Format α) : f.Tolerant where
  written a hfits v hrev := (f.de_iff a v).mpr (f.stable a _ v (f.doc_ser a hfits) hrev)
  accepted v a hde := by
    have hdoc := (f.de_iff a v).mp hde
    have hfits := f.fits a v hdoc
    exact ⟨hfits, f.de_ser hfits, fun v' hrev => (f.de_iff a v').mpr (f.stable a v v' hdoc hrev)⟩

end Serde
