import Mathlib.Data.List.Basic
import Mathlib.Tactic.Ring

namespace ByteLib

/-!
# Byte strings, little-endian words and checked slicing

The part of a binary wire format that no particular format owns:

* `toLe n w` / `ofLe bs` — an `n`-byte little-endian word and its reading, with the round
  trip `ofLe_toLe`;
* `Fault` / `Exec` — a computation that may return an error of its own or *panic*, the way
  an out-of-range slice does in a language with checked indexing;
* `slice` — `bs[a..b]`, which panics unless `a ≤ b ≤ bs.length`.
-/

/-- A byte string. -/
abbrev Bytes := List UInt8

/-! ### Little-endian words -/

/-- The `n`-byte little-endian encoding of `w` (the low `8·n` bits). -/
def toLe : Nat → Nat → Bytes
  | 0, _ => []
  | n + 1, w => UInt8.ofNat w :: toLe n (w / 256)

/-- The natural number a byte string spells in little-endian order. -/
def ofLe : Bytes → Nat
  | [] => 0
  | b :: bs => b.toNat + 256 * ofLe bs

/-- A little-endian number takes exactly the bytes it is given, whatever its value. -/
@[simp] theorem length_toLe (n w : Nat) : (toLe n w).length = n := by
  induction n generalizing w with
  | zero => rfl
  | succ n ih => simp [toLe, ih]

/-- A word lies whole in a longer cut. -/
@[simp] theorem take_toLe {n k : Nat} (h : n ≤ k) (w : Nat) : (toLe n w).take k = toLe n w :=
  List.take_of_length_le (by rwa [length_toLe])

/-- Nothing of a word is left past its width. -/
@[simp] theorem drop_toLe {n k : Nat} (h : n ≤ k) (w : Nat) : (toLe n w).drop k = [] :=
  List.drop_eq_nil_of_le (by rwa [length_toLe])

/-- No bytes are the number zero. -/
@[simp] theorem ofLe_nil : ofLe [] = 0 := rfl

/-- The first byte is the lowest: reading goes from the front. -/
@[simp] theorem ofLe_cons (b : UInt8) (bs : Bytes) : ofLe (b :: bs) = b.toNat + 256 * ofLe bs :=
  rfl

/-- Reading back an `n`-byte word gives its low `8·n` bits. -/
theorem ofLe_toLe (n w : Nat) : ofLe (toLe n w) = w % 256 ^ n := by
  induction n generalizing w with
  | zero => simp [toLe, Nat.mod_one]
  | succ n ih =>
    have hhead : (UInt8.ofNat w).toNat = w % 256 := by simp
    rw [toLe, ofLe_cons, hhead, ih, pow_succ, Nat.mul_comm (256 ^ n) 256, Nat.mod_mul]

/-- A word that fits its width survives the round trip. -/
theorem ofLe_toLe_of_lt {n w : Nat} (h : w < 256 ^ n) : ofLe (toLe n w) = w := by
  rw [ofLe_toLe, Nat.mod_eq_of_lt h]

/-- The reading of `n` bytes fits in `8·n` bits. -/
theorem ofLe_lt (bs : Bytes) : ofLe bs < 256 ^ bs.length := by
  induction bs with
  | nil => simp
  | cons b bs ih =>
    have hb : b.toNat < 256 := b.toNat_lt
    rw [ofLe_cons, List.length_cons, pow_succ]
    omega

/-! ### Computations that may panic -/

/-- Why a computation stopped: an error it returned, or a panic (an out-of-range index). -/
inductive Fault (ε : Type) where
  | error (e : ε)
  | panicked
  deriving DecidableEq, Repr

/-- A computation that returns a value, returns an error of type `ε`, or panics. -/
abbrev Exec (ε α : Type) := Except (Fault ε) α

/-- Return the error `e`. -/
def fail {ε α : Type} (e : ε) : Exec ε α := .error (.error e)

/-- A returned value goes straight to what follows; with `ok_bind` it is how `simp` runs the
    decoders of the model symbolically. -/
@[simp] theorem pure_bind' {ε α β : Type} (a : α) (k : α → Exec ε β) :
    ((pure a : Exec ε α) >>= k) = k a := rfl

/-- The same where the first step is known to have succeeded. -/
@[simp] theorem ok_bind {ε α β : Type} (a : α) (k : α → Exec ε β) :
    ((Except.ok a : Exec ε α) >>= k) = k a := rfl

/-! ### Checked slicing -/

/-- `bs[a..b]`: panics unless `a ≤ b ≤ bs.length`. -/
def slice {ε : Type} (bs : Bytes) (a b : Nat) : Exec ε Bytes :=
  if a ≤ b ∧ b ≤ bs.length then .ok ((bs.take b).drop a) else .error .panicked

/-- An in-range slice does not panic. -/
theorem slice_eq {ε : Type} {bs : Bytes} {a b : Nat} (hab : a ≤ b) (hb : b ≤ bs.length) :
    (slice bs a b : Exec ε Bytes) = .ok ((bs.take b).drop a) := if_pos ⟨hab, hb⟩

end ByteLib
