import Mathlib.Data.List.Basic

namespace Incremental

/-!
# Incremental decoders

A decoder looks at a buffer and either takes one item off its front, asks for more bytes, or
reports an error.  A reader keeps the buffer between reads: it appends each chunk it receives and
drains what can be decoded, until the first error.

* `Lawful dec` — what a decoder must satisfy for its answers not to depend on how the bytes
  arrive: an item or an error found in a buffer is found in every longer one, an item takes
  something, and nothing else changes the buffer;
* `recv_append` — receiving two chunks one after the other is receiving them as one;
* `recvAll_flatten` — a reader ends in the same state for every cut of a stream into chunks;
* `recvAll_encoded` — an encoder that the decoder inverts is inverted over every such cut.
-/

variable {α β ε : Type}

/-- A decoder: its answer on a buffer (an item, a request for more, an error) and the buffer it
    leaves. -/
abbrev Decoder (α β ε : Type) := List β → Except ε (Option α) × List β

/-- Answers that do not depend on what arrives later.  A decoder that looks at lengths before it
    looks at content is of this kind. -/
structure Lawful (dec : Decoder α β ε) : Prop where
  /-- Nothing is decoded from nothing. -/
  nil : dec [] = (.ok none, [])
  /-- An item at the front of a buffer is there whatever follows. -/
  item_append : ∀ {buf rest : List β} {a : α} (more : List β), dec buf = (.ok (some a), rest) →
    dec (buf ++ more) = (.ok (some a), rest ++ more)
  /-- An item takes something off the buffer. -/
  item_shorter : ∀ {buf rest : List β} {a : α}, dec buf = (.ok (some a), rest) →
    rest.length < buf.length
  /-- A request for more leaves the buffer. -/
  none_keeps : ∀ {buf rest : List β}, dec buf = (.ok none, rest) → rest = buf
  /-- An error leaves the buffer and is there whatever follows. -/
  error_append : ∀ {buf rest : List β} {e : ε} (more : List β), dec buf = (.error e, rest) →
    rest = buf ∧ dec (buf ++ more) = (.error e, buf ++ more)

/-- A reader: the items decoded so far, the error that ended decoding, the undecoded bytes.  It
    holds all that a connection keeps between two reads. -/
structure Reader (α β ε : Type) where
  items : List α
  failed : Option ε
  buffer : List β
  deriving DecidableEq, Repr

/-- The reader before anything arrived. -/
def Reader.fresh : Reader α β ε := ⟨[], none, []⟩

/-- Decode until the decoder asks for more or errs, at most `fuel` times.  The items are appended
    to those there are. -/
def drain (dec : Decoder α β ε) : Nat → List α → List β → Reader α β ε
  | 0, items, buffer => ⟨items, none, buffer⟩
  | fuel + 1, items, buffer =>
      match dec buffer with
      | (.ok (some a), rest) => drain dec fuel (items ++ [a]) rest
      | (.ok none, rest) => ⟨items, none, rest⟩
      | (.error e, rest) => ⟨items, some e, rest⟩

/-- Receive one chunk and drain.  After an error nothing more is decoded. -/
def recv (dec : Decoder α β ε) (r : Reader α β ε) (chunk : List β) : Reader α β ε :=
  match r.failed with
  | some e => ⟨r.items, some e, r.buffer ++ chunk⟩
  | none => drain dec (r.buffer ++ chunk).length r.items (r.buffer ++ chunk)

/-- Receive the chunks of a stream one after the other. -/
def recvAll (dec : Decoder α β ε) (chunks : List (List β)) : Reader α β ε :=
  chunks.foldl (recv dec) Reader.fresh

variable {dec : Decoder α β ε}

/-! ### Draining -/

/-- Extra fuel changes nothing once it covers the buffer, since every item takes something off
    it. -/
theorem drain_fuel (h : Lawful dec) {n m : Nat} {buf : List β} (hn : buf.length ≤ n)
    (hm : buf.length ≤ m) (items : List α) : drain dec n items buf = drain dec m items buf := by
  induction n generalizing m buf items with
  | zero =>
    obtain rfl : buf = [] := List.length_eq_zero_iff.mp (Nat.le_zero.mp hn)
    cases m with
    | zero => rfl
    | succ m => rw [drain, drain, h.nil]
  | succ n ih =>
    cases m with
    | zero =>
      obtain rfl : buf = [] := List.length_eq_zero_iff.mp (Nat.le_zero.mp hm)
      rw [drain, drain, h.nil]
    | succ m =>
      rw [drain, drain]
      split
      · rename_i a rest hdec
        have hshort := h.item_shorter hdec
        exact ih (by omega) (by omega) _
      · rfl
      · rfl

/-- Draining with the fuel a buffer needs. -/
def drained (dec : Decoder α β ε) (items : List α) (buf : List β) : Reader α β ε :=
  drain dec buf.length items buf

/-- An item that can be decoded is taken off the front of the buffer. -/
theorem drained_item (h : Lawful dec) {buf rest : List β} {a : α}
    (hdec : dec buf = (.ok (some a), rest)) (items : List α) :
    drained dec items buf = drained dec (items ++ [a]) rest := by
  have hshort := h.item_shorter hdec
  have hstep : drain dec (buf.length + 1) items buf = drain dec buf.length (items ++ [a]) rest := by
    rw [drain, hdec]
  rw [drained, drained, drain_fuel h (Nat.le_refl _) (Nat.le_succ _), hstep]
  exact drain_fuel h (Nat.le_of_lt hshort) (Nat.le_refl _) _

/-- Where the decoder asks for more, the buffer stays for the next read. -/
theorem drained_none (h : Lawful dec) {buf rest : List β} (hdec : dec buf = (.ok none, rest))
    (items : List α) : drained dec items buf = ⟨items, none, buf⟩ := by
  rw [drained, drain_fuel h (Nat.le_refl _) (Nat.le_succ _), drain, hdec, h.none_keeps hdec]

/-- Where the decoder fails, nothing after it is decoded. -/
theorem drained_error (h : Lawful dec) {buf rest : List β} {e : ε}
    (hdec : dec buf = (.error e, rest)) (items : List α) :
    drained dec items buf = ⟨items, some e, buf⟩ := by
  have hrest : rest = buf := (h.error_append [] hdec).1
  rw [drained, drain_fuel h (Nat.le_refl _) (Nat.le_succ _), drain, hdec, hrest]

/-- **Decoding does not depend on read boundaries.**  Draining a buffer and receiving more is
    draining all of it. -/
theorem recv_drained (h : Lawful dec) (items : List α) (x y : List β) :
    recv dec (drained dec items x) y = drained dec items (x ++ y) := by
  -- on the length of the buffer: an item leaves a shorter one
  induction hlen : x.length using Nat.strongRecOn generalizing items x with
  | _ n ih =>
    match hdec : dec x with
    | (.ok (some a), rest) =>
      have hshort : rest.length < n := hlen ▸ h.item_shorter hdec
      rw [drained_item h hdec, drained_item h (h.item_append y hdec)]
      exact ih rest.length hshort _ rest rfl
    | (.ok none, rest) =>
      rw [drained_none h hdec]
      rfl
    | (.error e, rest) =>
      rw [drained_error h hdec, drained_error h (h.error_append y hdec).2]
      rfl

/-! ### Whole streams -/

/-- **A reader ends in the same state for every cut of a stream into chunks**: the one it ends in
    when all arrives at once. -/
theorem recvAll_flatten (h : Lawful dec) (chunks : List (List β)) :
    recvAll dec chunks = drained dec [] chunks.flatten := by
  have key : ∀ x : List β,
      chunks.foldl (recv dec) (drained dec [] x) = drained dec [] (x ++ chunks.flatten) := by
    induction chunks with
    | nil => simp
    | cons c cs ih =>
      intro x
      rw [List.foldl_cons, recv_drained h, ih, List.flatten_cons, List.append_assoc]
  have hfresh : (Reader.fresh : Reader α β ε) = drained dec [] [] := rfl
  rw [recvAll, hfresh, key, List.nil_append]

/-- **Decoding inverts encoding over every cut into chunks.**  If the decoder takes the encoding of
    each item off the front of whatever follows, it takes back a list of them. -/
theorem recvAll_encoded (h : Lawful dec) {enc : α → List β} {xs : List α}
    (hround : ∀ a ∈ xs, ∀ rest, dec (enc a ++ rest) = (.ok (some a), rest))
    {chunks : List (List β)} (hcut : chunks.flatten = xs.flatMap enc) :
    recvAll dec chunks = ⟨xs, none, []⟩ := by
  have key : ∀ items, drained dec items (xs.flatMap enc) = ⟨items ++ xs, none, []⟩ := by
    clear hcut
    induction xs with
    | nil => intro items; rw [List.append_nil]; rfl
    | cons a xs ih =>
      intro items
      have ih := ih fun b hb => hround b (List.mem_cons_of_mem a hb)
      rw [List.flatMap_cons, drained_item h (hround a List.mem_cons_self _), ih,
        List.append_assoc, List.singleton_append]
  rw [recvAll_flatten h, hcut, key, List.nil_append]

end Incremental
