import Precall.Lib.Bytes

namespace DigestLib

open ByteLib

/-!
# Digests

A secret kept as its digest is compared without stopping at the first difference.

* `ctEq` — the comparison, an OR over the XOR of all bytes; `ctEq_iff` — it decides equality;
* `any_ctEq_iff` — membership among digests, on the texts they were taken of.
-/

/-- A digest of 32 bytes. -/
abbrev Digest := Vector UInt8 32

/-- Compare without an early exit. -/
def ctEq (a b : Digest) : Bool :=
  (a.toList.zip b.toList).foldl (fun acc xy => acc ||| (xy.1 ^^^ xy.2)) 0 == 0

/-- The accumulated differences vanish if every one of them does. -/
private theorem foldl_or_eq_zero (pairs : List (UInt8 × UInt8)) (acc : UInt8) :
    pairs.foldl (fun acc xy => acc ||| (xy.1 ^^^ xy.2)) acc = 0 ↔
      acc = 0 ∧ ∀ xy ∈ pairs, xy.1 = xy.2 := by
  induction pairs generalizing acc with
  | nil => simp
  | cons xy pairs ih =>
    rw [List.foldl_cons, ih, UInt8.or_eq_zero_iff, UInt8.xor_eq_zero_iff, List.forall_mem_cons,
      and_assoc]

/-- Two lists of one length are equal if they agree position by position, which is how a
    comparison in constant time goes through them. -/
private theorem zip_all_eq {xs ys : List UInt8} (hlength : xs.length = ys.length) :
    (∀ xy ∈ xs.zip ys, xy.1 = xy.2) ↔ xs = ys := by
  induction xs generalizing ys with
  | nil => simp [List.length_eq_zero_iff.mp hlength.symm]
  | cons x xs ih =>
    cases ys with
    | nil => cases hlength
    | cons y ys =>
      rw [List.zip_cons_cons, List.forall_mem_cons, ih (Nat.succ.inj hlength), List.cons.injEq]

/-- The comparison decides equality. -/
theorem ctEq_iff (a b : Digest) : ctEq a b = true ↔ a = b := by
  have hlength : a.toList.length = b.toList.length := by simp
  rw [ctEq, beq_iff_eq, foldl_or_eq_zero, zip_all_eq hlength, Vector.toList_inj]
  exact and_iff_right rfl

/-- A digest is among others exactly if it is the digest of one of their texts. -/
theorem any_ctEq_iff (digest : Bytes → Digest) (texts : List Bytes) (text : Bytes) :
    ((texts.map digest).any fun d => ctEq d (digest text)) = true ↔
      ∃ t ∈ texts, digest t = digest text := by
  simp [List.any_eq_true, ctEq_iff]

/-- A function that knows the SHA-256 digest of "abc". -/
def digestOfAbc (text : Bytes) : Digest :=
  if text = [0x61, 0x62, 0x63] then
    #v[0xba, 0x78, 0x16, 0xbf, 0x8f, 0x01, 0xcf, 0xea, 0x41, 0x41, 0x40, 0xde, 0x5d, 0xae, 0x22,
      0x23, 0xb0, 0x03, 0x61, 0xa3, 0x96, 0x17, 0x7a, 0x9c, 0xb4, 0x10, 0xff, 0x61, 0xf2, 0x00,
      0x15, 0xad]
  else Vector.replicate 32 0

end DigestLib
