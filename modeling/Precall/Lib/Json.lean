import Precall.Lib.Bytes
import Precall.Lib.Text

namespace JsonLib

open ByteLib

/-!
# JSON

JSON documents with unsigned 64-bit numbers, their compact text, and a parser.

A document is a tree.  An object is its members in the order of the text; as a map it holds the
last value of each key (`Json.get?`).

* `printJson` — the text without blanks, with the short escapes where there is one;
* `parseJson` — blanks between the tokens, every escape, surrogate pairs; a text that goes on
  after the document is refused, and so are fractions, exponents and signs;
* `parseJson_printJson` — a printed document reads back;
* `JsonCrate` — what a program may rely on of a JSON implementation that bounds the nesting;
  `JsonCrate.compact` is this one.
-/

/-- A JSON document.  Numbers are the unsigned ones of 64 bits, which is all that is written
    here. -/
inductive Json where
  | null
  | bool (b : Bool)
  | number (n : UInt64)
  | string (s : String)
  | array (items : List Json)
  | object (members : List (String × Json))

/-- The value of a key in an object. -/
def Json.get? (key : String) : Json → Option Json
  | .object members => members.reverse.lookup key
  | _ => none

mutual

/-- How deep arrays and objects are nested. -/
def Json.depth : Json → Nat
  | .array items => depthItems items + 1
  | .object members => depthMembers members + 1
  | .null => 0
  | .bool _ => 0
  | .number _ => 0
  | .string _ => 0

/-- The depth of the deepest element. -/
def depthItems : List Json → Nat
  | [] => 0
  | v :: items => max v.depth (depthItems items)

/-- The depth of the deepest member. -/
def depthMembers : List (String × Json) → Nat
  | [] => 0
  | (_, v) :: members => max v.depth (depthMembers members)

end

/-! ### The printer -/

/-- One hexadecimal digit. -/
def hexChar (n : Nat) : Char := Char.ofNat (if n < 10 then 48 + n else 87 + n)

/-- A character inside a string: the two that must not stand there and the control characters are
    written with a backslash. -/
def escape (c : Char) : List Char :=
  if c = '"' then ['\\', '"']
  else if c = '\\' then ['\\', '\\']
  else if c = '\x08' then ['\\', 'b']
  else if c = '\x0c' then ['\\', 'f']
  else if c = '\n' then ['\\', 'n']
  else if c = '\r' then ['\\', 'r']
  else if c = '\t' then ['\\', 't']
  else if c.toNat < 32 then ['\\', 'u', '0', '0', hexChar (c.toNat / 16), hexChar (c.toNat % 16)]
  else [c]

/-- A string with its quotes. -/
def printString (s : String) : List Char := '"' :: s.toList.flatMap escape ++ ['"']

mutual

/-- The compact text of a document, without a blank between its tokens. -/
def printJson : Json → List Char
  | .null => "null".toList
  | .bool true => "true".toList
  | .bool false => "false".toList
  | .number n => Nat.toDigits 10 n.toNat
  | .string s => printString s
  | .array [] => ['[', ']']
  | .array (v :: items) => '[' :: printJson v ++ printItems items
  | .object [] => ['\x7b', '\x7d']
  | .object ((key, v) :: members) =>
      '\x7b' :: printString key ++ ':' :: printJson v ++ printMembers members

/-- The items after the first, and the end of the array. -/
def printItems : List Json → List Char
  | [] => [']']
  | v :: items => ',' :: printJson v ++ printItems items

/-- The members after the first, and the end of the object. -/
def printMembers : List (String × Json) → List Char
  | [] => ['\x7d']
  | (key, v) :: members => ',' :: printString key ++ ':' :: printJson v ++ printMembers members

end

/-! ### The parser -/

/-- Blanks between tokens. -/
def skipBlanks (cs : List Char) : List Char :=
  cs.dropWhile fun c => c = ' ' || c = '\n' || c = '\r' || c = '\t'

/-- The value of a hexadecimal digit in either case. -/
def hexValue? (c : Char) : Option Nat :=
  if '0' ≤ c ∧ c ≤ '9' then some (c.toNat - 48)
  else if 'a' ≤ c ∧ c ≤ 'f' then some (c.toNat - 87)
  else if 'A' ≤ c ∧ c ≤ 'F' then some (c.toNat - 55)
  else none

/-- Four hexadecimal digits, and the text after them. -/
def hexFour : List Char → Option (Nat × List Char)
  | a :: b :: c :: d :: rest =>
    match hexValue? a, hexValue? b, hexValue? c, hexValue? d with
    | some a, some b, some c, some d => some (4096 * a + 256 * b + 16 * c + d, rest)
    | _, _, _, _ => none
  | _ => none

/-- The second half of a surrogate pair. -/
def lowSurrogate (high : Nat) : List Char → Option (Char × List Char)
  | '\\' :: 'u' :: rest =>
    match hexFour rest with
    | some (low, rest) =>
      -- each half carries ten bits
      if 0xDC00 ≤ low ∧ low < 0xE000 then
        some (Char.ofNat (0x10000 + 0x400 * (high - 0xD800) + (low - 0xDC00)), rest)
      else none
    | none => none
  | _ => none

/-- The character of an escape, read behind its backslash. -/
def unescape : List Char → Option (Char × List Char)
  | '"' :: rest => some ('"', rest)
  | '\\' :: rest => some ('\\', rest)
  | '/' :: rest => some ('/', rest)
  | 'b' :: rest => some ('\x08', rest)
  | 'f' :: rest => some ('\x0c', rest)
  | 'n' :: rest => some ('\n', rest)
  | 'r' :: rest => some ('\r', rest)
  | 't' :: rest => some ('\t', rest)
  | 'u' :: rest =>
    match hexFour rest with
    | some (code, rest) =>
      if 0xD800 ≤ code ∧ code < 0xDC00 then lowSurrogate code rest
      -- a second half without a first
      else if 0xDC00 ≤ code ∧ code < 0xE000 then none
      else some (Char.ofNat code, rest)
    | none => none
  | _ => none

/-- The characters of a string, read behind its opening quote; `fuel` bounds how many.  The
    length of the text is fuel enough. -/
def parseChars : Nat → List Char → Option (List Char × List Char)
  | 0, _ => none
  | _, [] => none
  | fuel + 1, c :: rest =>
    if c = '"' then some ([], rest)
    else if c = '\\' then
      match unescape rest with
      | some (c, rest) => (parseChars fuel rest).map fun p => (c :: p.1, p.2)
      | none => none
    else if c.toNat < 32 then none
    else (parseChars fuel rest).map fun p => (c :: p.1, p.2)

/-- A string, read behind its opening quote. -/
def parseString (cs : List Char) : Option (String × List Char) :=
  (parseChars (cs.length + 1) cs).map fun p => (String.ofList p.1, p.2)

/-- A number: digits without a superfluous zero, below `2 ^ 64`. -/
def parseNumber (cs : List Char) : Option (Json × List Char) :=
  let digits := cs.takeWhile Char.isDigit
  let n := Nat.ofDigitChars 10 digits 0
  if digits = [] ∨ (digits.head? = some '0' ∧ digits.length ≠ 1) ∨ 2 ^ 64 ≤ n then none
  else some (.number (UInt64.ofNat n), cs.drop digits.length)

/-- The colon between a key and its value. -/
def parseColon (cs : List Char) : Option (List Char) :=
  match skipBlanks cs with
  | ':' :: rest => some rest
  | _ => none

/-- A key with its colon. -/
def parseKey (cs : List Char) : Option (String × List Char) :=
  match skipBlanks cs with
  | '"' :: rest => (parseString rest).bind fun p => (parseColon p.2).map fun rest => (p.1, rest)
  | _ => none

mutual

/-- A document at the front of a text, and the text after it. -/
def parseValue : Nat → List Char → Option (Json × List Char)
  | 0, _ => none
  | fuel + 1, cs =>
    match skipBlanks cs with
    | 'n' :: 'u' :: 'l' :: 'l' :: rest => some (.null, rest)
    | 't' :: 'r' :: 'u' :: 'e' :: rest => some (.bool true, rest)
    | 'f' :: 'a' :: 'l' :: 's' :: 'e' :: rest => some (.bool false, rest)
    | '"' :: rest => (parseString rest).map fun p => (.string p.1, p.2)
    | '[' :: rest =>
      if (skipBlanks rest).head? = some ']' then some (.array [], (skipBlanks rest).tail)
      else (parseValue fuel rest).bind fun p =>
        (parseItems fuel p.2).map fun q => (.array (p.1 :: q.1), q.2)
    | '\x7b' :: rest =>
      if (skipBlanks rest).head? = some '\x7d' then some (.object [], (skipBlanks rest).tail)
      else (parseKey rest).bind fun k => (parseValue fuel k.2).bind fun p =>
        (parseMembers fuel p.2).map fun q => (.object ((k.1, p.1) :: q.1), q.2)
    | cs => parseNumber cs

/-- The items after the first, and the end of the array. -/
def parseItems : Nat → List Char → Option (List Json × List Char)
  | 0, _ => none
  | fuel + 1, cs =>
    match skipBlanks cs with
    | ']' :: rest => some ([], rest)
    | ',' :: rest => (parseValue fuel rest).bind fun p =>
        (parseItems fuel p.2).map fun q => (p.1 :: q.1, q.2)
    | _ => none

/-- The members after the first, and the end of the object. -/
def parseMembers : Nat → List Char → Option (List (String × Json) × List Char)
  | 0, _ => none
  | fuel + 1, cs =>
    match skipBlanks cs with
    | '\x7d' :: rest => some ([], rest)
    | ',' :: rest => (parseKey rest).bind fun k => (parseValue fuel k.2).bind fun p =>
        (parseMembers fuel p.2).map fun q => ((k.1, p.1) :: q.1, q.2)
    | _ => none

end

/-- A text that is one document, with blanks around it and nothing else. -/
def parseJson (cs : List Char) : Option Json :=
  match parseValue (cs.length + 1) cs with
  | some (v, rest) => if skipBlanks rest = [] then some v else none
  | none => none

/-! ### Strings read back -/

/-- A digit that has been printed is read back. -/
theorem hexValue?_hexChar {n : Nat} (h : n < 16) : hexValue? (hexChar n) = some n := by
  have hall : ∀ m : Fin 16, hexValue? (hexChar m) = some m.val := by decide
  exact hall ⟨n, h⟩

/-- The escape of a control character denotes it. -/
theorem unescape_control {c : Char} (h : c.toNat < 32) (rest : List Char) :
    unescape ('u' :: '0' :: '0' :: hexChar (c.toNat / 16) :: hexChar (c.toNat % 16) :: rest)
      = some (c, rest) := by
  have hhigh := hexValue?_hexChar (n := c.toNat / 16) (by omega)
  have hlow := hexValue?_hexChar (n := c.toNat % 16) (by omega)
  have hzero : hexValue? '0' = some 0 := rfl
  have hcode : 4096 * 0 + 256 * 0 + 16 * (c.toNat / 16) + c.toNat % 16 = c.toNat := by omega
  simp only [unescape, hexFour, hzero, hhigh, hlow, hcode]
  rw [if_neg (by omega), if_neg (by omega), Char.ofNat_toNat]

/-- A printed character reads back. -/
theorem parseChars_escape (fuel : Nat) (c : Char) (rest : List Char) :
    parseChars (fuel + 1) (escape c ++ rest)
      = (parseChars fuel rest).map fun p => (c :: p.1, p.2) := by
  unfold escape
  split
  · next h => subst h; rfl
  split
  · next h => subst h; rfl
  split
  · next h => subst h; rfl
  split
  · next h => subst h; rfl
  split
  · next h => subst h; rfl
  split
  · next h => subst h; rfl
  split
  -- the last of the short escapes
  · next h => subst h; rfl
  split
  · next hcontrol =>
    show parseChars (fuel + 1) ('\\' :: 'u' :: '0' :: '0' :: hexChar (c.toNat / 16) ::
      hexChar (c.toNat % 16) :: rest) = _
    rw [parseChars, if_neg (by decide), if_pos rfl, unescape_control hcontrol]
  · next hquote hback _ _ _ _ _ hprintable =>
    show parseChars (fuel + 1) (c :: rest) = _
    simp only [parseChars, if_neg hquote, if_neg hback, if_neg hprintable]

/-- Every character takes at least one letter in a string, so a text is long enough to be the
    fuel of its own reader. -/
theorem escape_ne_nil (c : Char) : 0 < (escape c).length := by
  unfold escape
  repeat' split
  all_goals simp

/-- A printed string is read back up to its closing quote, by induction on its characters; what
    follows is left alone. -/
theorem parseChars_print (cs : List Char) (fuel : Nat) (rest : List Char)
    (hfuel : cs.length < fuel) :
    parseChars fuel (cs.flatMap escape ++ '"' :: rest) = some (cs, rest) := by
  induction cs generalizing fuel with
  | nil =>
    obtain ⟨fuel, rfl⟩ := Nat.exists_eq_add_of_lt hfuel
    simp [parseChars]
  | cons c cs ih =>
    obtain ⟨fuel, rfl⟩ : ∃ m, fuel = m + 1 := ⟨fuel - 1, by omega⟩
    rw [List.flatMap_cons, List.append_assoc, parseChars_escape,
      ih fuel (by simpa using hfuel)]
    rfl

/-- **A printed string reads back**, up to its closing quote and whatever follows that. -/
theorem parseString_print (s : String) (rest : List Char) :
    parseString (s.toList.flatMap escape ++ '"' :: rest) = some (s, rest) := by
  have hlength : ∀ cs : List Char, cs.length ≤ (cs.flatMap escape).length := by
    intro cs
    induction cs with
    | nil => simp
    | cons c cs ih =>
      have := escape_ne_nil c
      rw [List.flatMap_cons, List.length_append, List.length_cons]
      omega
  have hfuel := hlength s.toList
  rw [parseString, parseChars_print _ _ _ (by rw [List.length_append]; omega)]
  simp

/-! ### Numbers read back -/

/-- What follows a value in a text does not start with a digit.  Only a number cares, whose end
    is nowhere written. -/
def NoDigit (rest : List Char) : Prop := ∀ c ∈ rest.head?, c.isDigit = false

/-- A letter that is no digit ends a number. -/
theorem noDigit_cons {c : Char} {rest : List Char} (h : c.isDigit = false) :
    NoDigit (c :: rest) := by
  intro c' hc'
  obtain rfl := Option.some.inj hc'
  exact h

/-- A number is written without a superfluous zero. -/
theorem head?_toDigits {n : Nat} (h : 0 < n) : (Nat.toDigits 10 n).head? ≠ some '0' := by
  induction n using Nat.strongRecOn with
  | _ n ih =>
    by_cases hsmall : n < 10
    · rw [Nat.toDigits_of_lt_base hsmall]
      simp
      omega
    · rw [Nat.toDigits_of_base_le (by omega) (by omega), List.head?_append_of_ne_nil _
        Nat.toDigits_ne_nil]
      exact ih (n / 10) (by omega) (by omega)

/-- The digits that are read are those that were printed, if no digit follows. -/
theorem takeWhile_isDigit {n : Nat} {rest : List Char} (h : NoDigit rest) :
    (Nat.toDigits 10 n ++ rest).takeWhile Char.isDigit = Nat.toDigits 10 n := by
  have hdigits : ∀ c ∈ Nat.toDigits 10 n, c.isDigit = true :=
    fun c hc => Nat.isDigit_of_mem_toDigits (by omega) (by omega) hc
  rw [List.takeWhile_append_of_pos hdigits]
  cases rest with
  | nil => simp
  | cons c rest => simp [h c rfl]

/-- **A printed number reads back**, where no digit follows it. -/
theorem parseNumber_print (n : UInt64) {rest : List Char} (h : NoDigit rest) :
    parseNumber (Nat.toDigits 10 n.toNat ++ rest) = some (.number n, rest) := by
  have hlt : n.toNat < 2 ^ 64 := n.toNat_lt
  -- only zero itself starts with a zero
  have hcanonical : ¬ ((Nat.toDigits 10 n.toNat).head? = some '0' ∧
      (Nat.toDigits 10 n.toNat).length ≠ 1) := by
    rintro ⟨hzero, hlength⟩
    rcases Nat.eq_zero_or_pos n.toNat with hn | hn
    · rw [hn, Nat.toDigits_zero] at hlength
      exact hlength rfl
    · exact head?_toDigits hn hzero
  unfold parseNumber
  rw [takeWhile_isDigit h]
  dsimp only
  rw [Nat.ofDigitChars_ten_toDigits, if_neg (by simp [hcanonical]; omega), List.drop_left' rfl,
    UInt64.ofNat_toNat]

/-! ### Documents read back -/

/-- A token that starts with no blank is where the parser looks for it. -/
theorem skipBlanks_cons {c : Char} (cs : List Char)
    (h : c ≠ ' ' ∧ c ≠ '\n' ∧ c ≠ '\r' ∧ c ≠ '\t') : skipBlanks (c :: cs) = c :: cs := by
  simp [skipBlanks, h.1, h.2.1, h.2.2.1, h.2.2.2]

/-- A digit is none of the letters that are no digits. -/
theorem digit_ne {c d : Char} (hc : c.isDigit = true) (hd : d.isDigit = false) : c ≠ d := by
  rintro rfl
  rw [hc] at hd
  cases hd

/-- How a printed document starts: with no blank, and not like the end of an array.  The parser
    tells an empty array by that. -/
theorem printJson_start (v : Json) :
    ∃ c cs, printJson v = c :: cs ∧ (c ≠ ' ' ∧ c ≠ '\n' ∧ c ≠ '\r' ∧ c ≠ '\t') ∧ c ≠ ']' := by
  cases v with
  | null => exact ⟨_, _, rfl, by decide, by decide⟩
  | bool b => cases b <;> exact ⟨_, _, rfl, by decide, by decide⟩
  | string s => exact ⟨_, _, rfl, by decide, by decide⟩
  | array items => cases items <;> exact ⟨_, _, rfl, by decide, by decide⟩
  | object members => cases members <;> exact ⟨_, _, rfl, by decide, by decide⟩
  | number n =>
    show ∃ c cs, Nat.toDigits 10 n.toNat = c :: cs ∧ _
    -- a number starts with a digit, and no digit is a blank or a bracket
    obtain ⟨c, cs, hdigits⟩ :=
      List.exists_cons_of_ne_nil (Nat.toDigits_ne_nil (n := n.toNat) (b := 10))
    have hc : c.isDigit = true :=
      Nat.isDigit_of_mem_toDigits (b := 10) (by omega) (by omega) (hdigits ▸ List.mem_cons_self)
    refine ⟨c, cs, hdigits, ⟨?_, ?_, ?_, ?_⟩, ?_⟩ <;> exact digit_ne hc rfl

/-- At a digit the parser reads a number. -/
theorem parseValue_digit (fuel : Nat) {c : Char} (hc : c.isDigit = true) (cs : List Char) :
    parseValue (fuel + 1) (c :: cs) = parseNumber (c :: cs) := by
  have hskip : skipBlanks (c :: cs) = c :: cs :=
    skipBlanks_cons cs ⟨digit_ne hc rfl, digit_ne hc rfl, digit_ne hc rfl, digit_ne hc rfl⟩
  unfold parseValue
  rw [hskip]
  split <;> rename_i heq
  all_goals first
    | rfl
    | exact absurd (List.cons.inj heq).1 (digit_ne hc rfl)

/-- A printed key reads back. -/
theorem parseKey_print (key : String) (rest : List Char) :
    parseKey (printString key ++ ':' :: rest) = some (key, rest) := by
  have htext : printString key ++ ':' :: rest
      = '"' :: (key.toList.flatMap escape ++ '"' :: ':' :: rest) := by
    simp [printString]
  rw [parseKey, htext, skipBlanks_cons _ (by decide)]
  show (parseString _).bind _ = _
  rw [parseString_print]
  rfl

/-- Behind the bracket of an array whose first item is there, the items are read. -/
theorem parseValue_array (fuel : Nat) (v : Json) (rest : List Char) :
    parseValue (fuel + 1) ('[' :: (printJson v ++ rest))
      = (parseValue fuel (printJson v ++ rest)).bind fun p =>
          (parseItems fuel p.2).map fun q => (.array (p.1 :: q.1), q.2) := by
  obtain ⟨c, cs, hprint, hblank, hend⟩ := printJson_start v
  have hskip : skipBlanks (printJson v ++ rest) = c :: (cs ++ rest) := by
    rw [hprint]
    exact skipBlanks_cons _ hblank
  -- so the array is not taken for an empty one
  have hitem : ¬ (skipBlanks (printJson v ++ rest)).head? = some ']' := by
    rw [hskip]
    exact fun h => hend (Option.some.inj h)
  show (if _ then _ else _) = _
  rw [if_neg hitem]

/-- The items after the first start with a comma or the end of the array. -/
theorem noDigit_printItems (items : List Json) (rest : List Char) :
    NoDigit (printItems items ++ rest) := by
  cases items <;> exact noDigit_cons rfl

/-- What follows a number inside an object does not start with a digit, so the number ends where
    it was meant to. -/
theorem noDigit_printMembers (members : List (String × Json)) (rest : List Char) :
    NoDigit (printMembers members ++ rest) := by
  cases members <;> exact noDigit_cons rfl

mutual

/-- **A printed document reads back**, in front of anything that does not start with a digit. -/
theorem parseValue_print : ∀ (v : Json) (fuel : Nat) (rest : List Char),
    (printJson v).length ≤ fuel → NoDigit rest →
      parseValue fuel (printJson v ++ rest) = some (v, rest)
  | v, 0, rest, hfuel, _ => by
    obtain ⟨c, cs, hprint, -⟩ := printJson_start v
    rw [hprint] at hfuel
    cases hfuel
  | .null, fuel + 1, rest, _, _ => rfl
  | .bool true, fuel + 1, rest, _, _ => rfl
  | .bool false, fuel + 1, rest, _, _ => rfl
  | .number n, fuel + 1, rest, _, hrest => by
    obtain ⟨c, cs, hdigits⟩ :=
      List.exists_cons_of_ne_nil (Nat.toDigits_ne_nil (n := n.toNat) (b := 10))
    have hc : c.isDigit = true :=
      Nat.isDigit_of_mem_toDigits (b := 10) (by omega) (by omega) (hdigits ▸ List.mem_cons_self)
    rw [printJson, ← parseNumber_print n hrest, hdigits]
    exact parseValue_digit fuel hc _
  | .string s, fuel + 1, rest, _, _ => by
    have htext : printJson (.string s) ++ rest
        = '"' :: (s.toList.flatMap escape ++ '"' :: rest) := by
      simp [printJson, printString]
    rw [htext]
    show (parseString _).map _ = _
    rw [parseString_print]
    rfl
  | .array [], fuel + 1, rest, _, _ => by rw [printJson]; rfl
  | .array (v :: items), fuel + 1, rest, hfuel, _ => by
    have hlength : (printJson v).length + (printItems items).length ≤ fuel := by
      simpa [printJson, Nat.add_right_comm] using hfuel
    have hfirst := parseValue_print v fuel (printItems items ++ rest) (by omega)
      (noDigit_printItems items rest)
    have hrest := parseItems_print items fuel rest (by omega)
    have htext : printJson (.array (v :: items)) ++ rest
        = '[' :: (printJson v ++ (printItems items ++ rest)) := by
      simp [printJson]
    rw [htext, parseValue_array, hfirst, Option.bind_some, hrest]
    rfl
  | .object [], fuel + 1, rest, _, _ => by rw [printJson]; rfl
  | .object ((key, v) :: members), fuel + 1, rest, hfuel, _ => by
    have hlength : (printJson v).length + (printMembers members).length ≤ fuel := by
      simp [printJson] at hfuel
      omega
    have hfirst := parseValue_print v fuel (printMembers members ++ rest) (by omega)
      (noDigit_printMembers members rest)
    have hrest := parseMembers_print members fuel rest (by omega)
    have htext : printJson (.object ((key, v) :: members)) ++ rest
        = '\x7b' :: (printString key ++
            ':' :: (printJson v ++ (printMembers members ++ rest))) := by
      simp [printJson]
    rw [htext]
    show (parseKey _).bind _ = _
    rw [parseKey_print, Option.bind_some, hfirst, Option.bind_some, hrest]
    rfl

/-- The elements of an array are read back one by one, each with the fuel that its own text
    needs. -/
theorem parseItems_print : ∀ (items : List Json) (fuel : Nat) (rest : List Char),
    (printItems items).length ≤ fuel →
      parseItems fuel (printItems items ++ rest) = some (items, rest)
  | [], 0, _, hfuel => by cases hfuel
  | _ :: _, 0, _, hfuel => by cases hfuel
  | [], fuel + 1, rest, _ => rfl
  | v :: items, fuel + 1, rest, hfuel => by
    have hlength : (printJson v).length + (printItems items).length ≤ fuel := by
      simpa [printItems, Nat.add_right_comm] using hfuel
    have hfirst := parseValue_print v fuel (printItems items ++ rest) (by omega)
      (noDigit_printItems items rest)
    have hrest := parseItems_print items fuel rest (by omega)
    have htext : printItems (v :: items) ++ rest
        = ',' :: (printJson v ++ (printItems items ++ rest)) := by
      simp [printItems]
    rw [htext]
    show (parseValue fuel _).bind _ = _
    rw [hfirst, Option.bind_some, hrest]
    rfl

/-- The members of an object are read back in the same way, each behind its key. -/
theorem parseMembers_print : ∀ (members : List (String × Json)) (fuel : Nat) (rest : List Char),
    (printMembers members).length ≤ fuel →
      parseMembers fuel (printMembers members ++ rest) = some (members, rest)
  | [], 0, _, hfuel => by cases hfuel
  | _ :: _, 0, _, hfuel => by cases hfuel
  | [], fuel + 1, rest, _ => rfl
  | (key, v) :: members, fuel + 1, rest, hfuel => by
    have hlength : (printJson v).length + (printMembers members).length ≤ fuel := by
      simp [printMembers] at hfuel
      omega
    have hfirst := parseValue_print v fuel (printMembers members ++ rest) (by omega)
      (noDigit_printMembers members rest)
    have hrest := parseMembers_print members fuel rest (by omega)
    have htext : printMembers ((key, v) :: members) ++ rest
        = ',' :: (printString key ++ ':' :: (printJson v ++ (printMembers members ++ rest))) := by
      simp [printMembers]
    rw [htext]
    show (parseKey _).bind _ = _
    rw [parseKey_print, Option.bind_some, hfirst, Option.bind_some, hrest]
    rfl

end

/-- **A text that is a printed document reads back.** The fuel of the parser is the length of the
    text. -/
theorem parseJson_printJson (v : Json) : parseJson (printJson v) = some v := by
  have hrest : NoDigit [] := fun c hc => by cases hc
  have hvalue := parseValue_print v ((printJson v).length + 1) [] (Nat.le_succ _) hrest
  rw [List.append_nil] at hvalue
  rw [parseJson, hvalue]
  rfl

/-! ### Documents as bytes -/

/-- What a program relies on of a JSON implementation: what it has written it reads back, as long
    as fewer than 128 arrays and objects are nested. -/
class JsonCrate where
  toVec : Json → Bytes
  fromSlice : Bytes → Option Json
  fromSlice_toVec : ∀ v : Json, v.depth < 128 → fromSlice (toVec v) = some v

/-- The compact text in UTF-8, and its parser.  It shows that the law which is asked of a JSON
    library can be met. -/
@[reducible]
def JsonCrate.compact : JsonCrate where
  toVec := fun v => (String.ofList (printJson v)).toUTF8.toList
  fromSlice := fun bytes => (String.fromUTF8? ⟨bytes.toArray⟩).bind fun s => parseJson s.toList
  fromSlice_toVec := fun v _ => by
    rw [TextLib.fromUTF8?_toUTF8, Option.bind_some, String.toList_ofList, parseJson_printJson]

end JsonLib
