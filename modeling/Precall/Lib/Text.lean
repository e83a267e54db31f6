import Mathlib.Data.List.Infix

namespace TextLib

/-!
# The text functions of a standard library

What a program's standard library knows about characters rests on the Unicode tables, which no
model wants to spell out.  `TextTables` names the functions; the ones that decide something in a
proof come with what the documentation promises on ASCII.  `TextTables.ascii` is the instance
that knows nothing beyond ASCII.

`trim` and `padInt` are built on top; a padded number tells the number (`padInt_inj`).
`startsWith`, `stripPrefix?`, `contains` and the others search a string by its characters.
-/

/-- The character and case tables of a standard library. -/
class TextTables where
  isAlphanumeric : Char → Bool
  isWhitespace : Char → Bool
  toLowercase : String → String
  isAlphanumeric_ascii : ∀ c : Char, c.toNat < 128 → isAlphanumeric c = c.isAlphanum
  isWhitespace_ascii : ∀ c : Char, c.toNat < 128 →
    isWhitespace c = (c == ' ' || (9 ≤ c.toNat && c.toNat ≤ 13))
  toLowercase_ascii : ∀ s : String, (∀ c ∈ s.toList, c.toNat < 128) →
    toLowercase s = String.ofList (s.toList.map Char.toLower)

/-- The tables restricted to ASCII. -/
@[reducible]
def TextTables.ascii : TextTables where
  isAlphanumeric := Char.isAlphanum
  isWhitespace := fun c => c == ' ' || (9 ≤ c.toNat && c.toNat ≤ 13)
  toLowercase := fun s => String.ofList (s.toList.map Char.toLower)
  isAlphanumeric_ascii := fun _ _ => rfl
  isWhitespace_ascii := fun _ _ => rfl
  toLowercase_ascii := fun _ _ => rfl

/-- What the documentation promises of every text in lower case: no capital of ASCII is left. -/
class LowercaseText [TextTables] : Prop where
  isUpper_toLowercase : ∀ s : String, ∀ c ∈ (TextTables.toLowercase s).toList, c.isUpper = false

/-- What is no capital is in lower case already. -/
theorem toLower_of_not_isUpper {c : Char} (h : c.isUpper = false) : c.toLower = c := by
  unfold Char.toLower
  rw [dif_neg]
  exact of_decide_eq_false h

/-- A capital moves by 32. -/
theorem toNat_toLower {c : Char} (h : c.isUpper = true) :
    c.toLower.toNat = c.toNat + 32 ∧ 65 ≤ c.toNat ∧ c.toNat ≤ 90 := by
  have hrange := of_decide_eq_true h
  have hlow : 65 ≤ c.val.toNat := UInt32.le_iff_toNat_le.mp hrange.1
  have hhigh : c.val.toNat ≤ 90 := UInt32.le_iff_toNat_le.mp hrange.2
  refine ⟨?_, hlow, hhigh⟩
  unfold Char.toLower
  rw [dif_pos hrange]
  show (c.val + ('a'.val - 'A'.val)).toNat = c.val.toNat + 32
  rw [UInt32.toNat_add]
  show (c.val.toNat + 32) % 2 ^ 32 = _
  omega

/-- A letter in lower case is no capital. -/
theorem isUpper_toLower (c : Char) : c.toLower.isUpper = false := by
  cases hupper : c.isUpper with
  | true =>
    obtain ⟨hnat, hrange⟩ := toNat_toLower hupper
    refine decide_eq_false fun h => ?_
    have hle : c.toLower.toNat ≤ 90 := UInt32.le_iff_toNat_le.mp h.2
    omega
  | false => rw [toLower_of_not_isUpper hupper, hupper]

/-- A letter in lower case stays as it is. -/
theorem toLower_toLower (c : Char) : c.toLower.toLower = c.toLower :=
  toLower_of_not_isUpper (isUpper_toLower c)

/-- A letter in lower case is ASCII exactly if the letter is. -/
theorem ascii_toLower {c : Char} : c.toLower.toNat < 128 ↔ c.toNat < 128 := by
  cases hupper : c.isUpper with
  | true =>
    obtain ⟨hnat, hrange⟩ := toNat_toLower hupper
    omega
  | false => rw [toLower_of_not_isUpper hupper]

/-- Lower case is idempotent for the letters of ASCII. -/
theorem LowercaseText.ascii : @LowercaseText TextTables.ascii :=
  @LowercaseText.mk TextTables.ascii fun s c hc => by
    have hmap : c ∈ s.toList.map Char.toLower := by
      rwa [← String.toList_ofList (l := s.toList.map _)]
    obtain ⟨d, -, rfl⟩ := List.mem_map.mp hmap
    exact isUpper_toLower d

/-- Strip leading and trailing whitespace. -/
def trim [TextTables] (s : String) : String :=
  let drop := List.dropWhile TextTables.isWhitespace
  String.ofList (drop (drop s.toList).reverse).reverse

/-- Decimal text of an integer, zero-padded behind its sign to width `w`. -/
def padInt (w : Nat) (n : Int) : String :=
  let sign := if n < 0 then "-" else ""
  let digits := Nat.repr n.natAbs
  sign ++ String.ofList (List.replicate (w - sign.length - digits.length) '0') ++ digits

/-! ### Padded numbers -/

/-- The digits of a padded number, behind its sign. -/
def padDigits (w : Nat) (n : Int) : List Char :=
  List.replicate (w - (if n < 0 then 1 else 0) - (Nat.repr n.natAbs).length) '0' ++
    Nat.toDigits 10 n.natAbs

/-- A padded number is its sign, if it is negative, and its padded digits. -/
theorem padInt_toList (w : Nat) (n : Int) :
    (padInt w n).toList = (if n < 0 then ['-'] else []) ++ padDigits w n := by
  have hdash : ("-" : String).length = 1 := rfl
  unfold padInt padDigits
  split <;> simp [Nat.repr, hdash]

/-- Padding is done with digits. -/
theorem isDigit_of_mem_padDigits {w : Nat} {n : Int} {c : Char} (h : c ∈ padDigits w n) :
    c.isDigit = true := by
  rcases List.mem_append.mp h with h | h
  · rw [List.eq_of_mem_replicate h]
    rfl
  · exact Nat.isDigit_of_mem_toDigits (by omega) (by omega) h

/-- Padding does not change the value of the digits. -/
theorem padDigits_value (w : Nat) (n : Int) : Nat.ofDigitChars 10 (padDigits w n) 0 = n.natAbs := by
  rw [padDigits, Nat.ofDigitChars_append, Nat.ofDigitChars_replicate_zero, Nat.mul_zero,
    Nat.ofDigitChars_ten_toDigits]

/-- A padded number tells the number. -/
theorem padInt_inj {w : Nat} {n n' : Int} (h : padInt w n = padInt w n') : n = n' := by
  have hlists := congrArg String.toList h
  rw [padInt_toList, padInt_toList] at hlists
  have hdash : ∀ (m : Int) (rest : List Char), ['-'] ++ rest ≠ padDigits w m := by
    intro m rest heq
    have hmem : '-' ∈ padDigits w m := heq ▸ List.mem_cons_self
    exact absurd (isDigit_of_mem_padDigits hmem) (by decide)
  have hvalue : padDigits w n = padDigits w n' → n.natAbs = n'.natAbs := by
    intro heq
    rw [← padDigits_value w n, heq, padDigits_value]
  split at hlists <;> split at hlists
  · have := hvalue (List.append_cancel_left hlists)
    omega
  · rw [List.nil_append] at hlists
    exact absurd hlists (hdash n' _)
  · rw [List.nil_append] at hlists
    exact absurd hlists.symm (hdash n _)
  · have := hvalue hlists
    omega

/-- A padded number is made of digits and a sign. -/
theorem mem_padInt {w : Nat} {n : Int} {c : Char} (h : c ∈ (padInt w n).toList) :
    c = '-' ∨ c.isDigit = true := by
  rw [padInt_toList, List.mem_append] at h
  rcases h with h | h
  · split at h
    · exact Or.inl (List.mem_singleton.mp h)
    · cases h
  · exact Or.inr (isDigit_of_mem_padDigits h)

/-- A number is written with at least one letter. -/
theorem padInt_ne_nil (w : Nat) (n : Int) : (padInt w n).toList ≠ [] := by
  rw [padInt_toList, padDigits]
  simp [Nat.toDigits_ne_nil]

/-! ### Searching -/

/-- Does `s` start with `p`? -/
def startsWith (s p : String) : Bool := p.toList.isPrefixOf s.toList

/-- Does `s` end with `p`? -/
def endsWith (s p : String) : Bool := p.toList.isSuffixOf s.toList

/-- Does `p` occur in `s`? -/
def contains (s p : String) : Bool := s.toList.tails.any fun t => p.toList.isPrefixOf t

/-- `s` without the prefix `p`, if it has it. -/
def stripPrefix? (s p : String) : Option String :=
  if startsWith s p then some (String.ofList (s.toList.drop p.length)) else none

/-- Stripping a prefix leaves the rest of the letters. -/
theorem stripPrefix?_eq_some {s p rest : String} :
    stripPrefix? s p = some rest ↔ s.toList = p.toList ++ rest.toList := by
  unfold stripPrefix? startsWith
  constructor
  · intro h
    split at h
    · rename_i hprefix
      obtain ⟨tail, htail⟩ := List.isPrefixOf_iff_prefix.mp hprefix
      obtain rfl := Option.some.inj h
      rw [← htail, String.toList_ofList, ← String.length_toList, List.drop_left]
    · cases h
  · intro h
    have hprefix : p.toList.isPrefixOf s.toList = true :=
      List.isPrefixOf_iff_prefix.mpr ⟨rest.toList, h.symm⟩
    rw [if_pos hprefix, h, ← String.length_toList, List.drop_left, String.ofList_toList]

/-- A text ends with another if something stands before it. -/
theorem endsWith_iff {s p : String} : endsWith s p = true ↔ ∃ t, s = t ++ p := by
  rw [endsWith, List.isSuffixOf_iff_suffix]
  constructor
  · rintro ⟨t, ht⟩
    exact ⟨String.ofList t, String.toList_inj.mp (by simp [ht])⟩
  · rintro ⟨t, rfl⟩
    exact ⟨t.toList, by simp⟩

/-- What follows the first occurrence of `p` in `s`. -/
def after? (s p : String) : Option String :=
  (s.toList.tails.find? fun t => p.toList.isPrefixOf t).map fun t =>
    String.ofList (t.drop p.length)

/-- The first piece of `s` split at the characters of a set. -/
def firstPiece (isSep : Char → Bool) (s : String) : String :=
  String.ofList (s.toList.takeWhile fun c => !isSep c)

/-- The last piece of `s` split at the characters of a set. -/
def lastPiece (isSep : Char → Bool) (s : String) : String :=
  String.ofList (s.toList.reverse.takeWhile fun c => !isSep c).reverse

/-- `s` without the characters of a set at its end. -/
def trimEnd (isSep : Char → Bool) (s : String) : String :=
  String.ofList (s.toList.reverse.dropWhile isSep).reverse

/-- Every occurrence of one character replaced by another. -/
def replaceChar (old new : Char) (s : String) : String :=
  String.ofList (s.toList.map fun c => if c = old then new else c)

/-! ### Trimming -/

/-- What is left after the longest run of letters with a property, said without the function. -/
private theorem dropWhile_eq_iff {α : Type} {p : α → Bool} {xs ys : List α} :
    xs.dropWhile p = ys ↔
      ∃ l, xs = l ++ ys ∧ (∀ x ∈ l, p x = true) ∧ ∀ y ∈ ys.head?, p y = false := by
  constructor
  · rintro rfl
    refine ⟨xs.takeWhile p, List.takeWhile_append_dropWhile.symm, fun x hx => ?_, fun y hy => ?_⟩
    · exact List.all_eq_true.mp List.all_takeWhile x hx
    · have hnot := List.head?_dropWhile_not p xs
      rw [Option.mem_def.mp hy] at hnot
      simpa using hnot
  · rintro ⟨l, rfl, hl, hys⟩
    induction l with
    | nil =>
      cases ys with
      | nil => rfl
      | cons y ys => simp [hys y rfl]
    | cons x l ih =>
      rw [List.forall_mem_cons] at hl
      rw [List.cons_append, List.dropWhile_cons, if_pos hl.1]
      exact ih hl.2

/-- Trimming takes whitespace from both ends and nothing else. -/
theorem trim_eq_iff [TextTables] {s t : String} :
    trim s = t ↔ ∃ l r, s.toList = l ++ (t.toList ++ r) ∧
      (∀ c ∈ l ++ r, TextTables.isWhitespace c = true) ∧
      (∀ c ∈ t.toList.head?, TextTables.isWhitespace c = false) ∧
      ∀ c ∈ t.toList.getLast?, TextTables.isWhitespace c = false := by
  have hreverse : ∀ cs : List Char, String.ofList cs.reverse = t ↔ cs = t.toList.reverse := by
    intro cs
    rw [← String.toList_inj, String.toList_ofList, List.reverse_eq_iff]
  rw [trim, hreverse, dropWhile_eq_iff]
  constructor
  · rintro ⟨r, hm, hr, hlast⟩
    obtain ⟨l, hs, hl, hhead⟩ := dropWhile_eq_iff.mp (rfl : s.toList.dropWhile
      TextTables.isWhitespace = _)
    have hm : s.toList.dropWhile TextTables.isWhitespace = t.toList ++ r.reverse := by
      rw [← List.reverse_eq_iff.mpr hm.symm, List.reverse_append, List.reverse_reverse]
    refine ⟨l, r.reverse, by rw [← hm, ← hs], ?_, ?_, by rwa [← List.head?_reverse]⟩
    · simpa [or_imp, forall_and] using ⟨hl, hr⟩
    · intro c hc
      refine hhead c ?_
      rw [hm]
      cases hcs : t.toList with
      | nil => simp [hcs] at hc
      | cons c' cs => simpa [hcs] using hc
  · rintro ⟨l', r, hs', hws, hfirst, hlast⟩
    rw [List.forall_mem_append] at hws
    rw [← List.head?_reverse] at hlast
    cases hcs : t.toList with
    | nil =>
      -- nothing but whitespace: the first pass has dropped it all
      have hall : s.toList.dropWhile TextTables.isWhitespace = [] := by
        refine dropWhile_eq_iff.mpr ⟨s.toList, by simp, ?_, by simp⟩
        rw [hs', hcs]
        simpa [or_imp, forall_and] using hws
      exact ⟨[], by simp [hall], by simp, by simp⟩
    | cons c cs =>
      have hrest : s.toList.dropWhile TextTables.isWhitespace = t.toList ++ r := by
        refine dropWhile_eq_iff.mpr ⟨l', hs', hws.1, ?_⟩
        rw [hcs] at hfirst ⊢
        exact hfirst
      rw [hrest, ← hcs]
      exact ⟨r.reverse, List.reverse_append, by simpa using hws.2, hlast⟩

/-! ### Bytes -/

/-- The bytes of an array, as a list. -/
theorem byteArray_toList (bs : ByteArray) : bs.toList = bs.data.toList := by
  have key : ∀ i r, ByteArray.toList.loop bs i r = r.reverse ++ bs.data.toList.drop i := by
    intro i r
    fun_induction ByteArray.toList.loop bs i r with
    | case1 i r h ih =>
      have hi : i < bs.data.toList.length := h
      have hget : bs.get! i = bs.data.toList[i] := getElem!_pos bs.data i h
      rw [ih, List.drop_eq_getElem_cons hi, List.reverse_cons, List.append_assoc, hget]
      rfl
    | case2 i r h =>
      have hi : bs.data.toList.length ≤ i := Nat.le_of_not_lt h
      rw [List.drop_eq_nil_of_le hi, List.append_nil]
  exact key 0 []

/-- A byte array as a list has as many bytes. -/
theorem length_byteArray_toList (bs : ByteArray) : bs.toList.length = bs.size := by
  rw [byteArray_toList]
  rfl

/-- The bytes of a text decode to it. -/
theorem fromUTF8?_toUTF8 (s : String) : String.fromUTF8? ⟨s.toUTF8.toList.toArray⟩ = some s := by
  have hbytes : (⟨s.toUTF8.toList.toArray⟩ : ByteArray) = s.toByteArray := by
    rw [byteArray_toList]
    rfl
  rw [hbytes, String.fromUTF8?, dif_pos s.isValidUTF8]
  exact congrArg some (String.toByteArray_inj.mp rfl)

/-- The bytes of a text, character by character. -/
theorem toUTF8_toList (s : String) : s.toUTF8.toList = s.toList.flatMap String.utf8EncodeChar := by
  have hencode : s.toByteArray = s.toList.utf8Encode := by
    rw [← String.toByteArray_ofList, String.ofList_toList]
  rw [byteArray_toList, String.toUTF8_eq_toByteArray, hencode]
  simp [List.utf8Encode]

/-! ### Sizes -/

/-- A character takes at most four bytes of UTF-8. -/
theorem utf8ByteSize_le (s : String) : s.utf8ByteSize ≤ 4 * s.length := by
  have key : ∀ cs : List Char, (String.ofList cs).utf8ByteSize ≤ 4 * cs.length := by
    intro cs
    induction cs with
    | nil => simp
    | cons c cs ih =>
      have hcons : String.ofList (c :: cs) = String.singleton c ++ String.ofList cs := by
        apply String.toList_inj.mp
        simp
      have hc : c.utf8Size ≤ 4 := Char.utf8Size_le_four c
      rw [hcons, String.utf8ByteSize_append, String.utf8ByteSize_singleton, List.length_cons]
      omega
  simpa [String.length_toList] using key s.toList

/-- A join that contains a non-empty piece is not empty. -/
theorem intercalate_ne_empty {sep t : String} {pieces : List String} (hmem : t ∈ pieces)
    (ht : t ≠ "") : sep.intercalate pieces ≠ "" := by
  induction pieces with
  | nil => cases hmem
  | cons u us ih =>
    cases us with
    | nil =>
      obtain rfl := List.mem_singleton.mp hmem
      rw [String.intercalate_singleton]
      exact ht
    | cons v vs =>
      rw [String.intercalate_cons_cons]
      intro hempty
      obtain ⟨hhead, hrest⟩ := String.append_eq_empty_iff.mp hempty
      rcases List.mem_cons.mp hmem with rfl | hmem
      · exact ht (String.append_eq_empty_iff.mp hhead).1
      · exact ih hmem hrest

end TextLib
