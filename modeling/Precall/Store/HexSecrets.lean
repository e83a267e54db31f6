import Precall.Proto.Pinning
import Precall.Store.ObjectKey

namespace Precall.Store

open ByteLib TextLib DecodeLib Precall.Proto

/-!
# Secrets in hexadecimal

The two places that read 32 bytes from text: `PinnedCertVerifier::new`
(`precall-proto/src/pinning.rs`) and the key file of `load_or_create_key`
(`precall-store/src/objects.rs`, `decodeKey`).  Both cut the trimmed text into pairs by byte index
and hand each pair to `from_str_radix`.

* `readKey` — what the two have in common (`new_eq`, `decodeKey_eq`);
* `readKey_exact_iff`, `hexSecrets_exact_iff` — they accept exactly the texts of 64 digits, and
  refuse the others with an error, unless 32 pairs contain a sign, or the first pair that is no
  number is cut short or cut out of a character.
-/

/-- A digit of a fingerprint: lower case, since the reader lowers the text before it looks at it. -/
def isLowerHex (c : Char) : Bool := ('0' ≤ c && c ≤ '9') || ('a' ≤ c && c ≤ 'f')

/-- A digit of a key file: either case, since the text of a file is taken as it is. -/
def isHex (c : Char) : Bool := isLowerHex c || ('A' ≤ c && c ≤ 'F')

/-- A text is 64 digits, and they denote 32 bytes.  This says what a secret in hexadecimal is,
    without the reader. -/
structure Denotes (digit : Char → Bool) (cs : List Char) (v : Vector UInt8 32) : Prop where
  length : cs.length = 64
  digits : ∀ c ∈ cs, digit c = true
  bytes : denoted? cs = some v.toList

/-- A reader succeeds exactly on the texts of 64 digits, with the bytes they denote, and otherwise
    returns an error. -/
structure ReadsExactly {ε : Type} (digit : Char → Bool) (cs : List Char)
    (r : Exec ε (Vector UInt8 32)) : Prop where
  ok_iff : ∀ v, r = .ok v ↔ Denotes digit cs v
  returns : r ≠ .error .panicked

/-- The first pair that is no number, if there is one, is two whole characters or one; and 32 pairs
    contain no sign. -/
structure Unambiguous (cs : List Char) : Prop where
  cut : cutsCleanly (afterPairs cs) = true
  unsigned : ¬ (cs.length = 64 ∧ afterPairs cs = [] ∧ '+' ∈ cs)

/-! ### The common reader -/

/-- Pairs to 32 bytes, with the errors of the two failures: a pair that is no number, and a
    number of pairs that is not 32. -/
def readKey {ε : Type} (badDigit badLength : ε) (cs : List Char) : Exec ε (Vector UInt8 32) :=
  match hexPairs (encode cs) with
  | .ok bytes => if h : bytes.length = 32 then .ok ⟨bytes.toArray, h⟩ else fail badLength
  | .error (.error .invalidDigit) => fail badDigit
  | .error .panicked => .error .panicked

/-- The fingerprint of a client's configuration is read as a key, with its own two refusals. -/
theorem new_eq [TextTables] (s : String) :
    PinnedCertVerifier.new s = (readKey "bad fingerprint hex: invalid digit found in string"
      "fingerprint must be 32 bytes (64 hex chars)"
      (TextTables.toLowercase (trim s)).toList).map PinnedCertVerifier.mk := by
  unfold PinnedCertVerifier.new readKey encode
  dsimp only
  rw [toUTF8_toList]
  generalize hexPairs _ = r
  rcases r with ((_ | _) | _) | bytes
  · rfl
  · rfl
  · dsimp only
    split <;> rfl

/-- A key file that is not 32 bytes long is read as a key in the same way, with one refusal for
    both. -/
theorem decodeKey_eq [TextTables] {raw : Bytes} (hraw : raw.length ≠ 32) :
    decodeKey raw = readKey .io .io (trim (fromUtf8Lossy raw)).toList := by
  unfold decodeKey readKey ObjectStore.utf8 encode
  rw [dif_neg hraw, toUTF8_toList]
  generalize hexPairs _ = r
  rcases r with ((_ | _) | _) | bytes <;> rfl

/-- What the reader makes of a text all of whose pairs are numbers: a key if they are 32, and an
    error otherwise. -/
theorem readKey_of_read {ε : Type} {badDigit badLength : ε} {cs : List Char} {bytes : Bytes}
    (h : readPairs? cs = some bytes) :
    readKey badDigit badLength cs
      = if h : bytes.length = 32 then .ok ⟨bytes.toArray, h⟩ else fail badLength := by
  unfold readKey
  rw [hexPairs_encode, h]
  rfl

/-- A text that is not read as pairs of digits is refused, or stops the parser where a pair is
    cut inside a letter. -/
theorem readKey_of_unread {ε : Type} {badDigit badLength : ε} {cs : List Char}
    (h : readPairs? cs = none) :
    readKey badDigit badLength cs
      = if cutsCleanly (afterPairs cs) then fail badDigit else .error .panicked := by
  unfold readKey
  rw [hexPairs_encode, h]
  cases cutsCleanly (afterPairs cs) <;> rfl

/-- What denotes a digit's value is a digit: the table of the 128 ASCII codes has no other. -/
theorem isHex_of_digitValue {c : Char} {v : UInt8} (h : digitValue? c = some v) :
    isHex c = true := by
  have hall : ∀ n : Fin 128, (hexValue? (UInt8.ofNat n)).isSome = true →
      isHex (Char.ofNat n) = true := by decide
  unfold digitValue? at h
  split at h
  · next hascii =>
    have hdigit := hall ⟨c.toNat, hascii⟩ (by simp [h])
    rwa [Char.ofNat_toNat] at hdigit
  · cases h

/-- A text that denotes bytes consists of hexadecimal digits, by the recursion over its pairs. -/
theorem isHex_of_denoted {cs : List Char} {bytes : Bytes} (h : denoted? cs = some bytes) :
    ∀ c ∈ cs, isHex c = true := by
  induction cs using denoted?.induct generalizing bytes with
  | case1 => simp
  | case2 c => cases h
  | case3 a b rest ih =>
    obtain ⟨high, hhigh, h⟩ := Option.bind_eq_some_iff.mp h
    obtain ⟨low, hlow, h⟩ := Option.bind_eq_some_iff.mp h
    obtain ⟨more, hmore, -⟩ := Option.bind_eq_some_iff.mp h
    rintro c (_ | ⟨_, _ | ⟨_, hc⟩⟩)
    · exact isHex_of_digitValue hhigh
    · exact isHex_of_digitValue hlow
    · exact ih hmore c hc

/-- Without capitals the digits of either case are the lower-case ones, so one statement serves
    both readers. -/
theorem denotes_lower_iff {cs : List Char} (h : ∀ c ∈ cs, c.isUpper = false)
    (v : Vector UInt8 32) : Denotes isLowerHex cs v ↔ Denotes isHex cs v := by
  have hdigit : ∀ c ∈ cs, isHex c = isLowerHex c := by
    intro c hc
    have hcapital : ('A' ≤ c && c ≤ 'F') = false := by
      by_contra hrange
      obtain ⟨hlow, hhigh⟩ : 'A' ≤ c ∧ c ≤ 'F' := by simpa using hrange
      have hupper : c.isUpper = true :=
        decide_eq_true ⟨hlow, UInt32.le_trans hhigh (by decide)⟩
      rw [h c hc] at hupper
      cases hupper
    rw [isHex, hcapital, Bool.or_false]
  constructor
  · intro hv
    exact ⟨hv.length, fun c hc => (hdigit c hc).trans (hv.digits c hc), hv.bytes⟩
  · intro hv
    exact ⟨hv.length, fun c hc => (hdigit c hc).symm.trans (hv.digits c hc), hv.bytes⟩

/-- A text with a pair that is no number is refused, unless the cut is not clean; there the
    reader stops instead of refusing. -/
theorem readKey_exact_of_unread {ε : Type} (badDigit badLength : ε) {cs : List Char}
    (hread : readPairs? cs = none) :
    ReadsExactly isHex cs (readKey badDigit badLength cs) ↔ Unambiguous cs := by
  have hleft : afterPairs cs ≠ [] := by
    rw [Ne, ← isSome_readPairs?, hread]
    simp
  -- no text of digits, so refusing it is right
  have hnone : ∀ v, ¬ Denotes isHex cs v := by
    intro v hv
    rw [(denoted?_eq_some.mp hv.bytes).1] at hread
    cases hread
  have hunsigned : ¬ (cs.length = 64 ∧ afterPairs cs = [] ∧ '+' ∈ cs) := fun h => hleft h.2.1
  rw [readKey_of_unread hread]
  cases hcut : cutsCleanly (afterPairs cs) with
  | true =>
    refine iff_of_true ⟨fun v => ?_, fun h => by cases h⟩ ⟨hcut, hunsigned⟩
    exact iff_of_false (fun h => by cases h) (hnone v)
  | false =>
    -- the slice inside a character panics
    refine iff_of_false (fun h => h.returns rfl) fun h => ?_
    rw [h.cut] at hcut
    cases hcut

/-- Digits that read as bytes denote a key exactly if it is these bytes.  The length of the text
    and that of the key agree. -/
theorem reads_of_denoted {cs : List Char} {bytes : Bytes} (hdenoted : denoted? cs = some bytes)
    (hlength : cs.length = 2 * bytes.length) (v : Vector UInt8 32) :
    (∃ h : bytes.length = 32, (⟨bytes.toArray, h⟩ : Vector UInt8 32) = v) ↔ Denotes isHex cs v := by
  constructor
  · rintro ⟨hsize, rfl⟩
    exact ⟨by omega, isHex_of_denoted hdenoted, by simpa using hdenoted⟩
  · intro h
    have hbytes : bytes = v.toList := Option.some.inj (hdenoted.symm.trans h.bytes)
    refine ⟨by simp [hbytes], Vector.toList_inj.mp ?_⟩
    simp [hbytes]

/-- A text all of whose pairs are numbers is read, if they are 32.  It is no key only if one of
    the numbers has a sign. -/
theorem readKey_exact_of_read {ε : Type} (badDigit badLength : ε) {cs : List Char} {bytes : Bytes}
    (hread : readPairs? cs = some bytes) :
    ReadsExactly isHex cs (readKey badDigit badLength cs) ↔ Unambiguous cs := by
  have hleft : afterPairs cs = [] := (isSome_readPairs? cs).mp (by simp [hread])
  have hlength := length_readPairs? hread
  have hcut : cutsCleanly (afterPairs cs) = true := by rw [hleft]; rfl
  rw [readKey_of_read hread]
  by_cases hsize : bytes.length = 32
  · rw [dif_pos hsize]
    by_cases hsign : '+' ∈ cs
    · -- 32 bytes, but not from 64 digits
      refine iff_of_false (fun h => ?_) fun h => h.unsigned ⟨by omega, hleft, hsign⟩
      have hdenotes := (h.ok_iff ⟨bytes.toArray, hsize⟩).mp rfl
      exact (denoted?_eq_some.mp hdenotes.bytes).2 hsign
    · have hdenoted : denoted? cs = some bytes := denoted?_eq_some.mpr ⟨hread, hsign⟩
      refine iff_of_true ⟨fun v => ?_, fun h => by cases h⟩ ⟨hcut, fun h => hsign h.2.2⟩
      rw [← reads_of_denoted hdenoted hlength v]
      exact ⟨fun h => ⟨hsize, Except.ok.inj h⟩, fun ⟨_, h⟩ => congrArg Except.ok h⟩
  · rw [dif_neg hsize]
    refine iff_of_true ⟨fun v => iff_of_false (fun h => by cases h) fun h => ?_,
      fun h => by cases h⟩ ⟨hcut, fun h => hsize (by omega)⟩
    have := h.length
    omega

/-- **The reader is exact exactly on the texts that are not ambiguous.** -/
theorem readKey_exact_iff {ε : Type} (badDigit badLength : ε) (cs : List Char) :
    ReadsExactly isHex cs (readKey badDigit badLength cs) ↔ Unambiguous cs := by
  cases hread : readPairs? cs with
  | none => exact readKey_exact_of_unread badDigit badLength hread
  | some bytes => exact readKey_exact_of_read badDigit badLength hread

/-! ### The two places -/

section
variable [TextTables]

/-- The characters that `PinnedCertVerifier::new` takes apart: the trimmed text in lower case. -/
def fingerprintText (fingerprintHex : String) : List Char :=
  (TextTables.toLowercase (trim fingerprintHex)).toList

/-- The characters that `load_or_create_key` takes apart: those of the file's bytes, trimmed, in
    the case they have. -/
def keyText (raw : Bytes) : List Char := (trim (fromUtf8Lossy raw)).toList

/-- The bytes a fingerprint is read as. -/
def fingerprintRead (fingerprintHex : String) : Exec String (Vector UInt8 32) :=
  (PinnedCertVerifier.new fingerprintHex).map PinnedCertVerifier.fingerprint

/-- **Secrets in hexadecimal are parsed exactly or refused, exactly where the text is not
    ambiguous**: `PinnedCertVerifier::new` on every string, and `load_or_create_key` on every file
    that is not 32 bytes long. -/
theorem hexSecrets_exact_iff [LowercaseText] (fingerprintHex : String) (raw : Bytes)
    (hraw : raw.length ≠ 32) :
    (ReadsExactly isLowerHex (fingerprintText fingerprintHex) (fingerprintRead fingerprintHex) ↔
        Unambiguous (fingerprintText fingerprintHex)) ∧
      (ReadsExactly isHex (keyText raw) (decodeKey raw) ↔ Unambiguous (keyText raw)) := by
  constructor
  · have hcapital : ∀ c ∈ fingerprintText fingerprintHex, c.isUpper = false :=
      LowercaseText.isUpper_toLowercase (trim fingerprintHex)
    have hread : fingerprintRead fingerprintHex
        = readKey "bad fingerprint hex: invalid digit found in string"
          "fingerprint must be 32 bytes (64 hex chars)" (fingerprintText fingerprintHex) := by
      unfold fingerprintRead
      rw [new_eq, fingerprintText]
      generalize readKey _ _ _ = r
      cases r <;> rfl
    rw [hread, ← readKey_exact_iff "bad fingerprint hex: invalid digit found in string"
      "fingerprint must be 32 bytes (64 hex chars)"]
    refine ⟨fun h => ⟨fun v => ?_, h.returns⟩, fun h => ⟨fun v => ?_, h.returns⟩⟩
    · exact (h.ok_iff v).trans (denotes_lower_iff hcapital v)
    · exact (h.ok_iff v).trans (denotes_lower_iff hcapital v).symm
  · have hread : decodeKey raw = readKey ObjectError.io ObjectError.io (keyText raw) :=
      decodeKey_eq hraw
    rw [hread]
    exact readKey_exact_iff ObjectError.io ObjectError.io (keyText raw)

end

section

attribute [local instance] TextTables.ascii LowercaseText.ascii

/-- A fingerprint in capitals, and a key file of three characters. -/
theorem hexSecrets_exact_iff_plain :
    ReadsExactly isLowerHex (fingerprintText "AB") (fingerprintRead "AB") ∧
      ReadsExactly isHex (keyText [0x61, 0x62, 0xC3, 0xA9])
        (decodeKey [0x61, 0x62, 0xC3, 0xA9]) := by
  have hboth := hexSecrets_exact_iff "AB" [0x61, 0x62, 0xC3, 0xA9] (by decide)
  refine ⟨hboth.1.mpr ⟨by decide +kernel, by decide +kernel⟩,
    hboth.2.mpr ⟨by decide +kernel, by decide +kernel⟩⟩

/-- **A secret may have a sign, and a text may panic.**  32 times `+f` is a fingerprint, and a
    fingerprint of one digit panics; so does a key file of one digit. -/
theorem hexSecrets_not_exact :
    ¬ ReadsExactly isLowerHex
        (fingerprintText "+f+f+f+f+f+f+f+f+f+f+f+f+f+f+f+f+f+f+f+f+f+f+f+f+f+f+f+f+f+f+f+f")
        (fingerprintRead "+f+f+f+f+f+f+f+f+f+f+f+f+f+f+f+f+f+f+f+f+f+f+f+f+f+f+f+f+f+f+f+f") ∧
      ¬ ReadsExactly isLowerHex (fingerprintText "a") (fingerprintRead "a") ∧
      ¬ ReadsExactly isHex (keyText [0x61]) (decodeKey [0x61]) := by
  refine ⟨fun h => ?_, fun h => h.returns (by decide +kernel),
    fun h => h.returns (by decide +kernel)⟩
  have hsigned := (h.ok_iff (Vector.replicate 32 15)).mp (by decide +kernel)
  exact absurd (hsigned.digits '+' (by decide +kernel)) (by decide)

end

end Precall.Store
