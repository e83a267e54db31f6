import Precall.Lib.Bytes
import Precall.Lib.Text

namespace DecodeLib

open ByteLib

/-!
# Text and numbers from bytes

What a standard library makes of bytes that need not be text.

* `fromUtf8Lossy` — decoding that puts U+FFFD where the bytes are not UTF-8;
* `fromStrRadix16` — one byte from two characters, with the sign a number may carry;
* `hexPairs` — a text cut into pairs by byte index and read pair by pair: a cut that falls inside
  a character, or past the end, panics; `hexPairs_encode` says where it stops by the characters of
  the text, and `denoted?_eq_some` what sets it apart from a reader of digits.
-/

/-! ### UTF-8 -/

/-- The bytes of the sequence that a byte starts; zero if it starts none. -/
def utf8Width (b : UInt8) : Nat :=
  if b < 0x80 then 1
  else if 0xC2 ≤ b ∧ b ≤ 0xDF then 2
  else if 0xE0 ≤ b ∧ b ≤ 0xEF then 3
  else if 0xF0 ≤ b ∧ b ≤ 0xF4 then 4
  else 0

/-- The bounds of the byte after the first: they exclude overlong forms, surrogates and what lies
    beyond the last code point. -/
def secondBounds (b : UInt8) : UInt8 × UInt8 :=
  if b = 0xE0 then (0xA0, 0xBF)
  else if b = 0xED then (0x80, 0x9F)
  else if b = 0xF0 then (0x90, 0xBF)
  else if b = 0xF4 then (0x80, 0x8F)
  else (0x80, 0xBF)

/-- The longest prefix that stays within the bounds given for it. -/
def takeWithin : List (UInt8 × UInt8) → Bytes → Bytes
  | bounds :: more, b :: rest =>
    if bounds.1 ≤ b ∧ b ≤ bounds.2 then b :: takeWithin more rest else []
  | _, _ => []

/-- The code point of a sequence of width `w`. -/
def codePoint (w : Nat) (first : UInt8) (tail : Bytes) : Nat :=
  let payload := if w = 1 then first.toNat else first.toNat % 2 ^ (7 - w)
  tail.foldl (fun acc b => acc * 64 + b.toNat % 64) payload

/-- Decode at most `n` characters. -/
def decodeLossy : Nat → Bytes → List Char
  | 0, _ => []
  | _, [] => []
  | n + 1, b :: rest =>
    let w := utf8Width b
    let bounds := (secondBounds b :: List.replicate 2 (0x80, 0xBF)).take (w - 1)
    let tail := takeWithin bounds rest
    let c := if w ≠ 0 ∧ tail.length = w - 1 then Char.ofNat (codePoint w b tail) else '\uFFFD'
    c :: decodeLossy n (rest.drop tail.length)

/-- `String::from_utf8_lossy`. -/
def fromUtf8Lossy (bytes : Bytes) : String := String.ofList (decodeLossy bytes.length bytes)

example : fromUtf8Lossy [0x61, 0xC3, 0xA9, 0xE2, 0x82, 0x41] = "aé\uFFFDA" := by decide

/-! ### Hexadecimal -/

/-- A text that is no number. -/
inductive ParseIntError where
  | invalidDigit
  deriving DecidableEq, Repr

/-- One hexadecimal digit, of either case. -/
def hexValue? (b : UInt8) : Option UInt8 :=
  if 0x30 ≤ b ∧ b ≤ 0x39 then some (b - 0x30)
  else if 0x61 ≤ b ∧ b ≤ 0x66 then some (b - 0x57)
  else if 0x41 ≤ b ∧ b ≤ 0x46 then some (b - 0x37)
  else none

/-- `u8::from_str_radix(pair, 16)` of a text of two bytes: a leading `+` is a sign. -/
def fromStrRadix16 (a b : UInt8) : Option UInt8 :=
  if a = 0x2B then hexValue? b
  else do
    let high ← hexValue? a
    let low ← hexValue? b
    return high * 16 + low

/-- Does this byte continue a character? -/
def isContinuation (b : UInt8) : Bool := 0x80 ≤ b && b ≤ 0xBF

/-- Read UTF-8 text pair by pair, stopping at the first pair that is no number. -/
def hexPairs : Bytes → Exec ParseIntError Bytes
  | [] => .ok []
  | [_] => .error .panicked
  | a :: b :: rest =>
    if isContinuation a || rest.head?.any isContinuation then .error .panicked
    else match fromStrRadix16 a b with
      | none => fail .invalidDigit
      | some byte => do
        let bytes ← hexPairs rest
        return byte :: bytes

/-! ### Characters as bytes -/

/-- The test of a continuation byte, on a byte that is given by its number. -/
theorem isContinuation_ofNat {n : Nat} (h : n < 256) :
    isContinuation (UInt8.ofNat n) = decide (0x80 ≤ n ∧ n ≤ 0xBF) := by
  have hn : (UInt8.ofNat n).toNat = n := by
    rw [UInt8.toNat_ofNat']
    omega
  simp [isContinuation, UInt8.le_iff_toNat_le, hn]

/-- A lead byte is neither a digit nor a sign. -/
theorem hexValue?_of_lead {n : Nat} (hlow : 0xC0 ≤ n) (hhigh : n < 256) :
    hexValue? (UInt8.ofNat n) = none := by
  have hn : (UInt8.ofNat n).toNat = n := by
    rw [UInt8.toNat_ofNat']
    omega
  have hdigit : ∀ a b : UInt8, b.toNat < 0xC0 → ¬ (a ≤ UInt8.ofNat n ∧ UInt8.ofNat n ≤ b) := by
    rintro a b hb ⟨-, hle⟩
    have := UInt8.le_iff_toNat_le.mp hle
    omega
  unfold hexValue?
  rw [if_neg (hdigit _ _ (by decide)), if_neg (hdigit _ _ (by decide)),
    if_neg (hdigit _ _ (by decide))]

/-- A character of ASCII is one byte. -/
theorem encode_one {c : Char} (h : c.toNat < 128) :
    String.utf8EncodeChar c = [UInt8.ofNat c.toNat] := by
  have hc : c.toNat ≤ 127 := Nat.le_of_lt_succ h
  simp [String.utf8EncodeChar, hc]

/-- The next ones are a lead byte and one continuation. -/
theorem encode_two {c : Char} (hlow : 128 ≤ c.toNat) (hhigh : c.toNat < 2048) :
    ∃ n b, String.utf8EncodeChar c = [UInt8.ofNat n, b] ∧ 0xC0 ≤ n ∧ n < 256 ∧
      isContinuation b = true := by
  have h1 : ¬ c.toNat ≤ 127 := Nat.not_le.mpr hlow
  have h2 : c.toNat ≤ 2047 := Nat.le_of_lt_succ hhigh
  refine ⟨c.toNat / 64 % 32 + 0xc0, UInt8.ofNat (c.toNat % 64 + 0x80), ?_, by omega, by omega, ?_⟩
  · simp [String.utf8EncodeChar, h1, h2]
  · rw [isContinuation_ofNat (by omega)]
    exact decide_eq_true (by omega)

/-- All others have a third byte, which continues too. -/
theorem encode_more {c : Char} (h : 2048 ≤ c.toNat) :
    ∃ n b d rest, String.utf8EncodeChar c = UInt8.ofNat n :: b :: d :: rest ∧ 0xC0 ≤ n ∧
      n < 256 ∧ isContinuation b = true ∧ isContinuation d = true := by
  have h1 : ¬ c.toNat ≤ 127 := by omega
  have h2 : ¬ c.toNat ≤ 2047 := by omega
  by_cases h3 : c.toNat ≤ 65535
  · refine ⟨c.toNat / 4096 % 16 + 0xe0, UInt8.ofNat (c.toNat / 64 % 64 + 0x80),
      UInt8.ofNat (c.toNat % 64 + 0x80), [], ?_, by omega, by omega, ?_, ?_⟩
    · simp [String.utf8EncodeChar, h1, h2, h3]
    · rw [isContinuation_ofNat (by omega)]
      exact decide_eq_true (by omega)
    · rw [isContinuation_ofNat (by omega)]
      exact decide_eq_true (by omega)
  · refine ⟨c.toNat / 262144 % 8 + 0xf0, UInt8.ofNat (c.toNat / 4096 % 64 + 0x80),
      UInt8.ofNat (c.toNat / 64 % 64 + 0x80), [UInt8.ofNat (c.toNat % 64 + 0x80)], ?_, by omega,
      by omega, ?_, ?_⟩
    · simp [String.utf8EncodeChar, h1, h2, h3]
    · rw [isContinuation_ofNat (by omega)]
      exact decide_eq_true (by omega)
    · rw [isContinuation_ofNat (by omega)]
      exact decide_eq_true (by omega)

/-- No character starts with a continuation byte. -/
theorem encode_head (c : Char) (rest : Bytes) :
    (String.utf8EncodeChar c ++ rest).head?.any isContinuation = false := by
  have hlead : ∀ n, 0xC0 ≤ n → n < 256 → isContinuation (UInt8.ofNat n) = false := by
    intro n hlow hhigh
    rw [isContinuation_ofNat hhigh]
    exact decide_eq_false (by omega)
  rcases Nat.lt_or_ge c.toNat 128 with h | h
  · have : isContinuation (UInt8.ofNat c.toNat) = false := by
      rw [isContinuation_ofNat (by omega)]
      exact decide_eq_false (by omega)
    simpa [encode_one h] using this
  rcases Nat.lt_or_ge c.toNat 2048 with h' | h'
  · obtain ⟨n, b, hbytes, hlow, hhigh, -⟩ := encode_two h h'
    simpa [hbytes] using hlead n hlow hhigh
  · obtain ⟨n, b, d, more, hbytes, hlow, hhigh, -⟩ := encode_more h'
    simpa [hbytes] using hlead n hlow hhigh

/-! ### Hexadecimal text -/

/-- The value of a hexadecimal digit, of either case. -/
def digitValue? (c : Char) : Option UInt8 :=
  if c.toNat < 128 then hexValue? (UInt8.ofNat c.toNat) else none

/-- The bytes that pairs of digits denote. -/
def denoted? : List Char → Option Bytes
  | [] => some []
  | [_] => none
  | a :: b :: rest => do
    let high ← digitValue? a
    let low ← digitValue? b
    let bytes ← denoted? rest
    return (high * 16 + low) :: bytes

/-- What a reader of numbers makes of two characters: a `+` may stand before a single digit. -/
def pairValue? (a b : Char) : Option UInt8 :=
  if a = '+' then digitValue? b
  else do
    let high ← digitValue? a
    let low ← digitValue? b
    return high * 16 + low

/-- The bytes of a text whose pairs are all read as numbers. -/
def readPairs? : List Char → Option Bytes
  | [] => some []
  | [_] => none
  | a :: b :: rest => do
    let byte ← pairValue? a b
    let bytes ← readPairs? rest
    return byte :: bytes

/-- The text after its leading pairs that are read as numbers. -/
def afterPairs : List Char → List Char
  | a :: b :: rest => if (pairValue? a b).isSome then afterPairs rest else a :: b :: rest
  | cs => cs

/-- Does a text have two bytes, and a character boundary after them? -/
def cutsCleanly : List Char → Bool
  | a :: b :: _ => a.toNat < 128 && b.toNat < 128 || 128 ≤ a.toNat && a.toNat < 2048
  | [a] => 128 ≤ a.toNat && a.toNat < 2048
  | [] => true

/-- The bytes of a text. -/
def encode (cs : List Char) : Bytes := cs.flatMap String.utf8EncodeChar

/-- A text is encoded letter by letter. -/
theorem encode_cons (c : Char) (cs : List Char) :
    encode (c :: cs) = String.utf8EncodeChar c ++ encode cs := List.flatMap_cons

/-- After a character comes no continuation byte. -/
theorem head?_encode (cs : List Char) : (encode cs).head?.any isContinuation = false := by
  cases cs with
  | nil => rfl
  | cons c cs =>
    rw [encode_cons]
    exact encode_head c _

/-- Two characters of ASCII are read as a pair. -/
theorem fromStrRadix16_ascii {a b : Char} (ha : a.toNat < 128) (hb : b.toNat < 128) :
    fromStrRadix16 (UInt8.ofNat a.toNat) (UInt8.ofNat b.toNat) = pairValue? a b := by
  have hplus : UInt8.ofNat a.toNat = 0x2B ↔ a = '+' := by
    constructor
    · intro h
      have hnat := congrArg UInt8.toNat h
      rw [UInt8.toNat_ofNat'] at hnat
      apply Char.toNat_inj.mp
      show a.toNat = 43
      have : (0x2B : UInt8).toNat = 43 := rfl
      omega
    · rintro rfl
      rfl
  unfold fromStrRadix16 pairValue?
  simp only [hplus, digitValue?, if_pos ha, if_pos hb]

/-- A pair that is read as a number is two characters of ASCII. -/
theorem ascii_of_pairValue? {a b : Char} {byte : UInt8} (h : pairValue? a b = some byte) :
    a.toNat < 128 ∧ b.toNat < 128 := by
  have hdigit : ∀ {c : Char} {v : UInt8}, digitValue? c = some v → c.toNat < 128 := by
    intro c v hc
    unfold digitValue? at hc
    split at hc
    · assumption
    · cases hc
  unfold pairValue? at h
  split at h
  · next hplus => exact ⟨hplus ▸ (by decide), hdigit h⟩
  · obtain ⟨high, hhigh, h⟩ := Option.bind_eq_some_iff.mp h
    obtain ⟨low, hlow, -⟩ := Option.bind_eq_some_iff.mp h
    exact ⟨hdigit hhigh, hdigit hlow⟩

/-- Where the reader of pairs goes on: behind a pair of ASCII it looks at the number first. -/
theorem hexPairs_ascii {a b : Char} (ha : a.toNat < 128) (hb : b.toNat < 128) (cs : List Char) :
    hexPairs (encode (a :: b :: cs)) = (pairValue? a b).elim (fail .invalidDigit) fun byte => do
      let bytes ← hexPairs (encode cs)
      return byte :: bytes := by
  have hlead : isContinuation (UInt8.ofNat a.toNat) = false := by
    rw [isContinuation_ofNat (by omega)]
    exact decide_eq_false (by omega)
  have hnext : (encode cs).head?.any isContinuation = false := head?_encode cs
  rw [encode_cons, encode_cons, encode_one ha, encode_one hb, List.cons_append, List.nil_append,
    List.cons_append, List.nil_append, hexPairs, hlead, hnext, fromStrRadix16_ascii ha hb]
  cases pairValue? a b <;> rfl

/-- At anything else it stops. -/
theorem hexPairs_stop (c : Char) (cs : List Char)
    (h : ∀ d rest, cs = d :: rest → pairValue? c d = none) :
    hexPairs (encode (c :: cs))
      = if cutsCleanly (c :: cs) then fail .invalidDigit else .error .panicked := by
  rcases Nat.lt_or_ge c.toNat 128 with hc | hc
  · cases cs with
    | nil =>
      have hcut : cutsCleanly [c] = false := by simp [cutsCleanly]; omega
      rw [encode_cons, encode_one hc, hcut]
      rfl
    | cons d rest =>
      rcases Nat.lt_or_ge d.toNat 128 with hd | hd
      · have hcut : cutsCleanly (c :: d :: rest) = true := by simp [cutsCleanly, hc, hd]
        rw [hexPairs_ascii hc hd, h d rest rfl, hcut]
        rfl
      · -- the second byte is the first of a longer character
        have hcut : cutsCleanly (c :: d :: rest) = false := by simp [cutsCleanly]; omega
        obtain ⟨a, b, more, hbytes, hcont⟩ : ∃ a b more,
            String.utf8EncodeChar d = a :: b :: more ∧ isContinuation b = true := by
          rcases Nat.lt_or_ge d.toNat 2048 with hd' | hd'
          · obtain ⟨n, b, hbytes, -, -, hcont⟩ := encode_two hd hd'
            exact ⟨_, b, [], hbytes, hcont⟩
          · obtain ⟨n, b, d', more, hbytes, -, -, hcont, -⟩ := encode_more hd'
            exact ⟨_, b, d' :: more, hbytes, hcont⟩
        rw [encode_cons, encode_cons, encode_one hc, hbytes, hcut]
        simp [hexPairs, hcont]
  rcases Nat.lt_or_ge c.toNat 2048 with hc' | hc'
  · -- both bytes of one character
    have hcut : cutsCleanly (c :: cs) = true := by cases cs <;> simp [cutsCleanly, hc, hc']
    obtain ⟨n, b, hbytes, hlow, hhigh, -⟩ := encode_two hc hc'
    have hlead : isContinuation (UInt8.ofNat n) = false := by
      rw [isContinuation_ofNat hhigh]
      exact decide_eq_false (by omega)
    have hnone : fromStrRadix16 (UInt8.ofNat n) b = none := by
      have hplus : UInt8.ofNat n ≠ 0x2B := by
        intro heq
        have hnat := congrArg UInt8.toNat heq
        rw [UInt8.toNat_ofNat'] at hnat
        have : (0x2B : UInt8).toNat = 43 := rfl
        omega
      simp [fromStrRadix16, hplus, hexValue?_of_lead hlow hhigh]
    rw [encode_cons, hbytes, List.cons_append, List.cons_append, List.nil_append, hexPairs, hlead,
      head?_encode cs, hnone, hcut]
    rfl
  · -- the cut falls inside a character
    have hcut : cutsCleanly (c :: cs) = false := by
      cases cs <;> simp [cutsCleanly] <;> omega
    obtain ⟨n, b, d, more, hbytes, -, -, -, hcont⟩ := encode_more hc'
    rw [encode_cons, hbytes, hcut]
    simp [hexPairs, hcont]

/-- **Where the reader of pairs stops**: at the end, with all bytes; at a pair that is no number;
    or at a cut that is none, where it panics. -/
theorem hexPairs_encode (cs : List Char) :
    hexPairs (encode cs) = (readPairs? cs).elim
      (if cutsCleanly (afterPairs cs) then fail .invalidDigit else .error .panicked) .ok := by
  induction cs using afterPairs.induct with
  | case1 a b rest hpair ih =>
    obtain ⟨byte, hbyte⟩ := Option.isSome_iff_exists.mp hpair
    obtain ⟨ha, hb⟩ := ascii_of_pairValue? hbyte
    rw [hexPairs_ascii ha hb, hbyte, ih, readPairs?, afterPairs, if_pos hpair, hbyte]
    cases readPairs? rest with
    | none =>
      cases hcut : cutsCleanly (afterPairs rest) <;> rfl
    | some bytes => rfl
  | case2 a b rest hpair =>
    have hnone : pairValue? a b = none := Option.not_isSome_iff_eq_none.mp hpair
    rw [hexPairs_stop a (b :: rest) fun d more h => by
      obtain ⟨rfl, -⟩ := List.cons.inj h
      exact hnone]
    rw [readPairs?, hnone, afterPairs, if_neg hpair]
    rfl
  | case3 cs hshort =>
    match cs, hshort with
    | [], _ => rfl
    | [c], _ =>
      rw [hexPairs_stop c [] fun d more h => by cases h]
      rfl
    | a :: b :: rest, hshort => exact absurd rfl (hshort a b rest)

/-- **A text read pair by pair denotes what is read exactly if it has no sign.** -/
theorem denoted?_eq_some {cs : List Char} {bytes : Bytes} :
    denoted? cs = some bytes ↔ readPairs? cs = some bytes ∧ '+' ∉ cs := by
  have hsign : ∀ c, digitValue? c ≠ none → c ≠ '+' := by
    rintro c hc rfl
    exact hc rfl
  induction cs using denoted?.induct generalizing bytes with
  | case1 => simp [denoted?, readPairs?]
  | case2 c => simp [denoted?, readPairs?]
  | case3 a b rest ih =>
    cases ha : digitValue? a with
    | none =>
      -- a pair without a first digit has a sign, or is no pair
      refine iff_of_false (by simp [denoted?, ha]) ?_
      rintro ⟨hread, hplus⟩
      have hne : a ≠ '+' := fun h => hplus (h ▸ List.mem_cons_self)
      simp [readPairs?, pairValue?, hne, ha] at hread
    | some high =>
      have hne : a ≠ '+' := hsign a (by simp [ha])
      cases hb : digitValue? b with
      | none => simp [denoted?, readPairs?, pairValue?, hne, ha, hb]
      | some low =>
        have hne' : b ≠ '+' := hsign b (by simp [hb])
        have hmem : '+' ∉ a :: b :: rest ↔ '+' ∉ rest := by simp [hne.symm, hne'.symm]
        simp only [denoted?, readPairs?, pairValue?, if_neg hne, ha, hb, hmem,
          Option.bind_eq_bind, Option.bind_some, Option.pure_def, Option.bind_eq_some_iff, ih]
        constructor
        · rintro ⟨more, ⟨hread, hplus⟩, hbytes⟩
          exact ⟨⟨more, hread, hbytes⟩, hplus⟩
        · rintro ⟨⟨more, hread, hbytes⟩, hplus⟩
          exact ⟨more, ⟨hread, hplus⟩, hbytes⟩

/-- All pairs are read exactly if nothing is left after them. -/
theorem isSome_readPairs? (cs : List Char) : (readPairs? cs).isSome ↔ afterPairs cs = [] := by
  induction cs using afterPairs.induct with
  | case1 a b rest hpair ih =>
    obtain ⟨byte, hbyte⟩ := Option.isSome_iff_exists.mp hpair
    rw [afterPairs, if_pos hpair, ← ih]
    cases hrest : readPairs? rest <;> simp [readPairs?, hbyte, hrest]
  | case2 a b rest hpair =>
    rw [afterPairs, if_neg hpair]
    simp [readPairs?, Option.not_isSome_iff_eq_none.mp hpair]
  | case3 cs hshort =>
    match cs, hshort with
    | [], _ => simp [readPairs?, afterPairs]
    | [c], _ => simp [readPairs?, afterPairs]
    | a :: b :: rest, hshort => exact absurd rfl (hshort a b rest)

/-- Two characters for each byte. -/
theorem length_readPairs? {cs : List Char} {bytes : Bytes} (h : readPairs? cs = some bytes) :
    cs.length = 2 * bytes.length := by
  induction cs using readPairs?.induct generalizing bytes with
  | case1 =>
    obtain rfl := Option.some.inj h
    rfl
  | case2 c => cases h
  | case3 a b rest ih =>
    obtain ⟨byte, -, h⟩ := Option.bind_eq_some_iff.mp h
    obtain ⟨more, hmore, h⟩ := Option.bind_eq_some_iff.mp h
    obtain rfl := Option.some.inj h
    rw [List.length_cons, List.length_cons, ih hmore, List.length_cons]
    omega

end DecodeLib
