import Precall.Api.Wipe

namespace Precall.Api

open Precall.Proto

/-!
# The spellings of a client id

The id parser of the uuid crate as its documentation describes it: the simple, hyphenated, braced
and urn forms, with hexadecimal digits in either case.

* `parseBytes_hex` — pairs of digits read back as the bytes they were written from;
* `UuidText.crate` — the parser; it reads the canonical form back (`parseForms_text`);
* `spelling_of_parseForms` — which characters a spelling has.
-/

/-- The value of a hexadecimal digit in either case; any other character has none. -/
def hexValue (c : Char) : Option UInt8 :=
  if '0' ≤ c ∧ c ≤ '9' then some (UInt8.ofNat (c.toNat - 48))
  else if 'a' ≤ c ∧ c ≤ 'f' then some (UInt8.ofNat (c.toNat - 87))
  else if 'A' ≤ c ∧ c ≤ 'F' then some (UInt8.ofNat (c.toNat - 55))
  else none

/-- Pairs of digits as bytes; an odd digit is left over and refused. -/
def parseBytes : List Char → Option (List UInt8)
  | [] => some []
  | [_] => none
  | hi :: lo :: rest =>
    match hexValue hi, hexValue lo, parseBytes rest with
    | some h, some l, some bytes => some ((16 * h + l) :: bytes)
    | _, _, _ => none

/-- The simple form: 32 digits, and nothing else. -/
def parseSimple (cs : List Char) : Option Uuid :=
  match parseBytes cs with
  | some bytes => if h : bytes.length = 16 then some ⟨⟨bytes.toArray, by simpa using h⟩⟩ else none
  | none => none

/-- The hyphenated form: hyphens after 8, 12, 16 and 20 digits. -/
def parseHyphenated (cs : List Char) : Option Uuid :=
  if cs.length = 36 ∧ cs[8]? = some '-' ∧ cs[13]? = some '-' ∧ cs[18]? = some '-' ∧
      cs[23]? = some '-' then
    parseSimple (cs.take 8 ++ ((cs.drop 9).take 4 ++ ((cs.drop 14).take 4 ++
      ((cs.drop 19).take 4 ++ cs.drop 24))))
  else none

/-- `Uuid::parse_str`: the form is chosen by the length, and braces or the URN prefix are taken
    off. -/
def parseForms (s : String) : Option Uuid :=
  let cs := s.toList
  if cs.length = 32 then parseSimple cs
  else if cs.length = 38 ∧ cs.head? = some '\x7b' ∧ cs.getLast? = some '\x7d' then
    parseHyphenated (cs.tail.take 36)
  else if cs.length = 45 ∧ "urn:uuid:".toList <+: cs then parseHyphenated (cs.drop 9)
  else parseHyphenated cs

/-! ### The canonical form -/

/-- A digit is read back. -/
theorem hexValue_hexDigit {n : UInt8} (h : n < 16) : hexValue (hexDigit n) = some n := by
  have hall : ∀ m : Fin 16, hexValue (hexDigit (UInt8.ofNat m)) = some (UInt8.ofNat m) := by decide
  have hn : n.toNat < 16 := h
  simpa using hall ⟨n.toNat, hn⟩

/-- So are the two digits of a byte. -/
theorem parseBytes_hexByte (b : UInt8) (rest : List Char) :
    parseBytes (hexByte b ++ rest) = (parseBytes rest).map (b :: ·) := by
  have hdiv : b / 16 < 16 := by
    show (b / 16).toNat < 16
    have := b.toNat_lt
    rw [UInt8.toNat_div]
    show b.toNat / 16 < 16
    omega
  have hmod : b % 16 < 16 := by
    show (b % 16).toNat < 16
    rw [UInt8.toNat_mod]
    show b.toNat % 16 < 16
    omega
  have hvalue : 16 * (b / 16) + b % 16 = b := by
    apply UInt8.toNat_inj.mp
    have := b.toNat_lt
    rw [UInt8.toNat_add, UInt8.toNat_mul, UInt8.toNat_div, UInt8.toNat_mod]
    show (16 * (b.toNat / 16) % 256 + b.toNat % 16) % 256 = b.toNat
    omega
  show parseBytes (hexDigit (b / 16) :: hexDigit (b % 16) :: rest) = _
  rw [parseBytes, hexValue_hexDigit hdiv, hexValue_hexDigit hmod]
  cases parseBytes rest with
  | none => rfl
  | some bytes => simp [hvalue]

/-- Written bytes read back. -/
theorem parseBytes_hex (bytes : List UInt8) : parseBytes (bytes.flatMap hexByte) = some bytes := by
  induction bytes with
  | nil => rfl
  | cons b bs ih => rw [List.flatMap_cons, parseBytes_hexByte, ih, Option.map_some]

/-- Each byte of an id takes two digits. -/
theorem length_hex (id : Uuid) {a b : Nat} (hb : b ≤ 16) : (id.hex a b).length = 2 * (b - a) := by
  have hpair : ∀ bytes : List UInt8, (bytes.flatMap hexByte).length = 2 * bytes.length := by
    intro bytes
    induction bytes with
    | nil => rfl
    | cons byte bytes ih =>
      rw [List.flatMap_cons, List.length_append, ih, List.length_cons]
      show 2 + 2 * bytes.length = _
      omega
  rw [Uuid.hex, hpair, List.length_drop, List.length_take, Vector.length_toList]
  omega

/-- The groups of digits, one after the other, are those of all bytes; the hyphens in between say
    nothing. -/
theorem hex_append (id : Uuid) {a b c : Nat} (hab : a ≤ b) (hbc : b ≤ c) :
    id.hex a b ++ id.hex b c = id.hex a c := by
  unfold Uuid.hex
  rw [← List.flatMap_append]
  congr 1
  rw [List.drop_take, List.drop_take, List.drop_take]
  have hsplit : c - a = (b - a) + (c - b) := by omega
  rw [hsplit, List.take_add, List.drop_drop]
  congr 3
  omega

/-- Hyphens where they belong are dropped. -/
theorem parseHyphenated_groups {g₁ g₂ g₃ g₄ g₅ : List Char} (h₁ : g₁.length = 8)
    (h₂ : g₂.length = 4) (h₃ : g₃.length = 4) (h₄ : g₄.length = 4) (h₅ : g₅.length = 12) :
    parseHyphenated (g₁ ++ '-' :: (g₂ ++ '-' :: (g₃ ++ '-' :: (g₄ ++ '-' :: g₅))))
      = parseSimple (g₁ ++ (g₂ ++ (g₃ ++ (g₄ ++ g₅)))) := by
  unfold parseHyphenated
  rw [if_pos]
  · simp (disch := omega) [List.drop_append, List.drop_eq_nil_of_le, h₁, h₂, h₃, h₄]
  · simp [h₁, h₂, h₃, h₄, h₅]

/-- The text of an id is the first of the forms that are read. -/
theorem parseForms_text (id : Uuid) : parseForms id.text = some id := by
  have hlength : id.chars.length = 36 := by
    simp [Uuid.chars, length_hex]
  have hbytes : id.hex 0 16 = id.bytes.toList.flatMap hexByte := by
    rw [Uuid.hex, List.drop_zero, List.take_of_length_le (by simp)]
  unfold parseForms
  rw [Uuid.text, String.toList_ofList, if_neg (by omega), if_neg (by omega), if_neg (by omega),
    Uuid.chars, parseHyphenated_groups (length_hex id (by omega)) (length_hex id (by omega))
      (length_hex id (by omega)) (length_hex id (by omega)) (length_hex id (by omega)),
    hex_append id (by omega) (by omega), hex_append id (by omega) (by omega),
    hex_append id (by omega) (by omega), hex_append id (by omega) (by omega), parseSimple, hbytes,
    parseBytes_hex]
  have hcount : id.bytes.toList.length = 16 := by simp
  simp only [hcount, dif_pos]
  obtain ⟨⟨⟨bytes⟩, hsize⟩⟩ := id
  rfl

/-! ### The characters of a spelling -/

/-- Digits are ASCII letters and numbers. -/
theorem hexValue_alphanum {c : Char} {v : UInt8} (h : hexValue c = some v) :
    c.toNat < 128 ∧ c.isAlphanum = true := by
  have hrange : ∀ lo hi : Char, lo ≤ c ∧ c ≤ hi → lo.toNat ≤ c.toNat ∧ c.toNat ≤ hi.toNat :=
    fun lo hi hc => hc
  have hall : ∀ n : Fin 128, (48 ≤ n.val ∧ n.val ≤ 57) ∨ (97 ≤ n.val ∧ n.val ≤ 102) ∨
      (65 ≤ n.val ∧ n.val ≤ 70) → (Char.ofNat n).isAlphanum = true := by
    decide
  have hbounds : (48 ≤ c.toNat ∧ c.toNat ≤ 57) ∨ (97 ≤ c.toNat ∧ c.toNat ≤ 102) ∨
      (65 ≤ c.toNat ∧ c.toNat ≤ 70) := by
    unfold hexValue at h
    split at h
    · exact Or.inl (hrange '0' '9' ‹_›)
    · split at h
      · exact Or.inr (Or.inl (hrange 'a' 'f' ‹_›))
      · split at h
        · exact Or.inr (Or.inr (hrange 'A' 'F' ‹_›))
        · cases h
  have hlow : c.toNat < 128 := by omega
  have halnum := hall ⟨c.toNat, hlow⟩ hbounds
  rw [Char.ofNat_toNat] at halnum
  exact ⟨hlow, halnum⟩

/-- A text with a digit in it and without path separator, which is all the object paths ask of an
    id. -/
def Spelling (cs : List Char) : Prop := '/' ∉ cs ∧ ∃ c ∈ cs, ∃ v, hexValue c = some v

/-- Letters around a spelling that are no slashes leave it one. -/
theorem Spelling.wrap {cs : List Char} (before after : List Char) (h : Spelling cs)
    (hbefore : '/' ∉ before) (hafter : '/' ∉ after) : Spelling (before ++ (cs ++ after)) := by
  obtain ⟨hslash, c, hc, hv⟩ := h
  exact ⟨by simp [hbefore, hslash, hafter], c, by simp [hc], hv⟩

/-- What is read as bytes consists of digits. -/
theorem parseBytes_digits {cs : List Char} {bytes : List UInt8} (h : parseBytes cs = some bytes) :
    ∀ c ∈ cs, ∃ v, hexValue c = some v := by
  induction cs using parseBytes.induct generalizing bytes with
  | case1 => simp
  | case2 c => cases h
  | case3 hi lo rest h' l' bytes' hrest hlo hhi ih =>
    intro c hc
    rcases List.mem_cons.mp hc with rfl | hc
    · exact ⟨h', hhi⟩
    · rcases List.mem_cons.mp hc with rfl | hc
      · exact ⟨l', hlo⟩
      · exact ih hrest c hc
  | case4 hi lo rest hnone ih =>
    rw [parseBytes] at h
    split at h
    · rename_i h' l' bytes' hhi hlo hrest
      exact absurd hrest (hnone h' l' bytes' hhi hlo)
    · cases h

/-- The form without hyphens is a spelling. -/
theorem spelling_of_parseSimple {cs : List Char} {id : Uuid} (h : parseSimple cs = some id) :
    Spelling cs := by
  unfold parseSimple at h
  split at h
  · rename_i bytes hbytes
    have hdigits := parseBytes_digits hbytes
    refine ⟨fun hmem => ?_, ?_⟩
    · obtain ⟨v, hv⟩ := hdigits '/' hmem
      cases hv
    · cases cs with
      | nil =>
        cases hbytes
        cases h
      | cons c cs => exact ⟨c, List.mem_cons_self, hdigits c List.mem_cons_self⟩
  · cases h

/-- A character behind a hyphen's place is in front of it, the hyphen, or behind it. -/
theorem mem_drop_hyphen {cs : List Char} {m n : Nat} (hn : cs[n]? = some '-') (hmn : m ≤ n)
    {c : Char} (hc : c ∈ cs.drop m) :
    c ∈ (cs.drop m).take (n - m) ∨ c = '-' ∨ c ∈ cs.drop (n + 1) := by
  rw [← List.take_append_drop (n - m) (cs.drop m), List.mem_append, List.drop_drop] at hc
  have hidx : m + (n - m) = n := by omega
  obtain ⟨hlt, hget⟩ := List.getElem?_eq_some_iff.mp hn
  rw [hidx, List.drop_eq_getElem_cons hlt, hget, List.mem_cons] at hc
  exact hc

/-- So is the form with them. -/
theorem spelling_of_parseHyphenated {cs : List Char} {id : Uuid}
    (h : parseHyphenated cs = some id) : Spelling cs := by
  unfold parseHyphenated at h
  split at h
  · rename_i hform
    obtain ⟨-, h₁, h₂, h₃, h₄⟩ := hform
    obtain ⟨hslash, c, hc, hv⟩ := spelling_of_parseSimple h
    simp only [List.mem_append, not_or] at hslash hc
    refine ⟨fun hmem => ?_, c, ?_, hv⟩
    -- a separator would stand in one of the five groups, since the rest are hyphens
    · have hmem : '/' ∈ cs.drop 0 := hmem
      rcases mem_drop_hyphen h₁ (by omega) hmem with hmem | heq | hmem
      · exact hslash.1 hmem
      · cases heq
      · rcases mem_drop_hyphen h₂ (by omega) hmem with hmem | heq | hmem
        · exact hslash.2.1 hmem
        · cases heq
        · rcases mem_drop_hyphen h₃ (by omega) hmem with hmem | heq | hmem
          · exact hslash.2.2.1 hmem
          · cases heq
          · rcases mem_drop_hyphen h₄ (by omega) hmem with hmem | heq | hmem
            · exact hslash.2.2.2.1 hmem
            · cases heq
            · exact hslash.2.2.2.2 hmem
    · rcases hc with hc | hc | hc | hc | hc
      · exact List.mem_of_mem_take hc
      · exact List.mem_of_mem_drop (List.mem_of_mem_take hc)
      · exact List.mem_of_mem_drop (List.mem_of_mem_take hc)
      · exact List.mem_of_mem_drop (List.mem_of_mem_take hc)
      · exact List.mem_of_mem_drop hc
  · cases h

/-- **The characters of a spelling.** A text that spells an id is no path and has a digit, in
    whichever of the four forms it is. -/
theorem spelling_of_parseForms {s : String} {id : Uuid} (h : parseForms s = some id) :
    Spelling s.toList := by
  unfold parseForms at h
  generalize s.toList = cs at h
  dsimp only at h
  split at h
  · exact spelling_of_parseSimple h
  · split at h
    · rename_i hbraced
      -- two braces around the hyphenated form
      obtain ⟨hlen, hfirst, hlast⟩ := hbraced
      obtain ⟨body, rfl⟩ : ∃ body, cs = '\x7b' :: (body ++ ['\x7d']) := by
        cases cs with
        | nil => cases hfirst
        | cons c cs =>
          obtain rfl := Option.some.inj hfirst
          obtain ⟨body, hbody⟩ := List.getLast?_eq_some_iff.mp hlast
          cases body with
          | nil => simp [hbody] at hlen
          | cons c body =>
            rw [List.cons_append, List.cons.injEq] at hbody
            exact ⟨body, by rw [hbody.2]⟩
      have hbody : body.length = 36 := by simpa using hlen
      rw [List.tail_cons, List.take_left' hbody] at h
      exact (spelling_of_parseHyphenated h).wrap ['\x7b'] ['\x7d'] (by decide) (by decide)
    · split at h
      · rename_i hurn
        -- `urn:uuid:` in front of it
        obtain ⟨rest, rfl⟩ := hurn.2
        rw [List.drop_left' (by decide)] at h
        have hwrap := (spelling_of_parseHyphenated h).wrap "urn:uuid:".toList [] (by decide)
          (by decide)
        rwa [List.append_nil] at hwrap
      · exact spelling_of_parseHyphenated h

/-! ### The parser -/

/-- The crate's parser, for the class of all that read the canonical form. -/
@[reducible]
def UuidText.crate : UuidText where
  parseStr := parseForms
  parseStr_text := parseForms_text

/-- The upper-case spelling is accepted too. -/
example : parseForms "AAAAAAAA-AAAA-AAAA-AAAA-AAAAAAAAAAAA" =
    parseForms "\x7baaaaaaaa-aaaa-aaaa-aaaa-aaaaaaaaaaaa\x7d" := by decide +kernel

end Precall.Api
