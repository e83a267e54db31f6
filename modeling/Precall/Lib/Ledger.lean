import Mathlib.Data.List.Induction
import Mathlib.Data.List.Nodup
import Mathlib.Algebra.BigOperators.Group.List.Basic
import Mathlib.Algebra.Order.Ring.Int

namespace LedgerLib

/-!
# Ledgers

Accounts that stand under keys, and postings that add to the account of their key or open it.

* `AccountKind` — the key of an account, its amount and how a posting adds to it;
* `post` — one posting on a list of accounts;
* `merge` — what the postings under one key come to: nothing, or one account with their sum;
* `Agrees` — a list of accounts holds exactly what a list of postings comes to;
  `Agrees.post` — posting keeps them in agreement;
* `Agrees.misposted_iff` — when a posting under a key goes unnoticed under another;
* `totalOf_postAll` — nothing is lost over any set of keys.
-/

/-- Accounts: the key each stands under, its amount, and what a posting adds to.  Adding leaves
    the key alone. -/
structure AccountKind (κ α : Type) where
  key : α → κ
  amount : α → Int
  add : α → Int → α
  key_add : ∀ a n, key (add a n) = key a
  amount_add : ∀ a n, amount (add a n) = amount a + n
  add_zero : ∀ a, add a 0 = a
  add_add : ∀ a m n, add (add a m) n = add a (m + n)

namespace AccountKind

attribute [simp] key_add amount_add add_zero

variable {κ α : Type} [DecidableEq κ] (K : AccountKind κ α)

/-- The account under a key. -/
def account (accounts : List α) (k : κ) : Option α := accounts.find? fun a => K.key a = k

/-- Add an entry to an account, if it is the one of its key. -/
def addTo (entry a : α) : α := if K.key a = K.key entry then K.add a (K.amount entry) else a

/-- Add to the account under the key of the entry, or open it with the entry behind the others. -/
def post (accounts : List α) (entry : α) : List α :=
  if accounts.any fun a => K.key a = K.key entry then accounts.map (K.addTo entry)
  else accounts ++ [entry]

/-- Post entries in order, on no accounts. -/
def postAll (entries : List α) : List α := entries.foldl K.post []

/-- The entries under a key. -/
def under (k : κ) (entries : List α) : List α := entries.filter fun a => K.key a = k

/-- What entries under one key come to: the first of them, with the amounts of the others added. -/
def merge : List α → Option α
  | [] => none
  | entry :: entries => some (K.add entry (entries.map K.amount).sum)

/-- One account for each key, with what the entries under it come to.  The order of the accounts
    is left open. -/
structure Agrees (accounts entries : List α) : Prop where
  nodup : (accounts.map K.key).Nodup
  account_eq : ∀ k, K.account accounts k = K.merge (K.under k entries)

variable {K} {accounts entries : List α} {entry : α} {k : κ}

/-! ### Accounts -/

/-- Adding an entry to an account leaves the account under its key. -/
@[simp] theorem key_addTo (a : α) : K.key (K.addTo entry a) = K.key a := by
  unfold addTo
  split <;> simp

/-- Nor does it move any other account. -/
@[simp] theorem map_key_addTo (accounts : List α) :
    (accounts.map (K.addTo entry)).map K.key = accounts.map K.key := by
  rw [List.map_map]
  exact List.map_congr_left fun a _ => key_addTo a

/-- Accounts under other keys are left alone. -/
theorem map_addTo_of_ne (h : ∀ a ∈ accounts, K.key a ≠ K.key entry) :
    accounts.map (K.addTo entry) = accounts :=
  (List.map_congr_left fun a ha => if_neg (h a ha)).trans (List.map_id accounts)

/-- The account found under a key has that key. -/
theorem key_of_account {a : α} (h : K.account accounts k = some a) : K.key a = k := by
  simpa using List.find?_some h

/-- No account is found under a key exactly if none has it. -/
theorem account_eq_none : K.account accounts k = none ↔ ∀ a ∈ accounts, K.key a ≠ k := by
  simp [account]

/-- A key identifies its account. -/
theorem account_eq_some (hnodup : (accounts.map K.key).Nodup) {a : α} :
    K.account accounts k = some a ↔ a ∈ accounts ∧ K.key a = k := by
  constructor
  · intro h
    exact ⟨List.mem_of_find?_eq_some h, key_of_account h⟩
  · rintro ⟨hmem, rfl⟩
    cases hfind : K.account accounts (K.key a) with
    | none => exact absurd rfl (account_eq_none.mp hfind a hmem)
    | some b =>
      have hb := List.mem_of_find?_eq_some hfind
      rw [List.inj_on_of_nodup_map hnodup hb hmem (key_of_account hfind)]

/-- Is there an account under the key of an entry? -/
theorem any_iff : (accounts.any fun a => K.key a = K.key entry) = true ↔
    ∃ a, K.account accounts (K.key entry) = some a := by
  rw [← Option.ne_none_iff_exists', ne_eq, account_eq_none]
  simp

/-- A posting touches the account of its key only, and opens it if it is not there. -/
theorem account_post (accounts : List α) (entry : α) (k : κ) :
    K.account (K.post accounts entry) k =
      if K.key entry = k then
        some ((K.account accounts k).elim entry fun a => K.add a (K.amount entry))
      else K.account accounts k := by
  unfold post
  split
  · rename_i hany
    -- adding to accounts leaves every key where it was
    have hmap : K.account (accounts.map (K.addTo entry)) k =
        (K.account accounts k).map (K.addTo entry) := by
      unfold account
      rw [List.find?_map]
      congr 2
      funext a
      simp
    rw [hmap]
    by_cases hk : K.key entry = k
    · subst hk
      obtain ⟨a, ha⟩ := any_iff.mp hany
      simp [ha, addTo, key_of_account ha]
    · rw [if_neg hk]
      cases hfind : K.account accounts k with
      | none => rfl
      | some a =>
        have hne : K.key a ≠ K.key entry := (key_of_account hfind).symm ▸ Ne.symm hk
        show some (K.addTo entry a) = some a
        rw [addTo, if_neg hne]
  · rename_i hany
    have happend : K.account (accounts ++ [entry]) k =
        (K.account accounts k).or (K.account [entry] k) := by
      unfold account
      rw [List.find?_append]
    have hsingle : K.account [entry] k = if K.key entry = k then some entry else none := by
      by_cases hk : K.key entry = k <;> simp [account, hk]
    rw [happend, hsingle]
    by_cases hk : K.key entry = k
    · have hnone : K.account accounts k = none := by
        rw [← hk, Option.eq_none_iff_forall_not_mem]
        exact fun a ha => hany (any_iff.mpr ⟨a, ha⟩)
      simp [hnone, hk]
    · simp [hk]

/-- Posting opens no second account under a key. -/
theorem nodup_post (hnodup : (accounts.map K.key).Nodup) :
    ((K.post accounts entry).map K.key).Nodup := by
  unfold post
  split
  · rw [map_key_addTo]
    exact hnodup
  · rename_i hany
    rw [List.map_append, List.nodup_append]
    refine ⟨hnodup, List.nodup_singleton _, ?_⟩
    intro k hk k' hk' heq
    obtain ⟨a, hmem, rfl⟩ := List.mem_map.mp hk
    have hk' : k' = K.key entry := by simpa using hk'
    exact hany (List.any_eq_true.mpr ⟨a, hmem, decide_eq_true (heq.trans hk')⟩)

/-! ### Entries -/

/-- The entries under a key, in two parts. -/
@[simp] theorem under_append (entries more : List α) :
    K.under k (entries ++ more) = K.under k entries ++ K.under k more := List.filter_append ..

/-- One entry is under its own key only. -/
theorem under_singleton : K.under k [entry] = if K.key entry = k then [entry] else [] := by
  by_cases h : K.key entry = k <;> simp [under, h]

omit [DecidableEq κ] in
/-- Entries are merged into an account unless there are none. -/
theorem merge_eq_none {es : List α} : K.merge es = none ↔ es = [] := by
  cases es <;> simp [merge]

/-- So a key has no merged account exactly if no entry was made under it. -/
theorem merge_under_eq_none : K.merge (K.under k entries) = none ↔ ∀ e ∈ entries, K.key e ≠ k := by
  rw [merge_eq_none]
  simp [under]

omit [DecidableEq κ] in
/-- One more entry under a key. -/
theorem merge_concat (es : List α) (entry : α) :
    K.merge (es ++ [entry]) =
      some ((K.merge es).elim entry fun a => K.add a (K.amount entry)) := by
  cases es with
  | nil => simp [merge]
  | cons e es => simp [merge, add_add]

/-! ### Agreement -/

/-- Before the first entry there are no accounts. -/
theorem agrees_nil : K.Agrees [] [] := ⟨List.nodup_nil, fun _ => rfl⟩

/-- **Posting keeps a ledger in agreement with its entries.** This is the step; the run is
    `agrees_postAll`. -/
theorem Agrees.post (h : K.Agrees accounts entries) (entry : α) :
    K.Agrees (K.post accounts entry) (entries ++ [entry]) := by
  refine ⟨nodup_post h.nodup, fun k => ?_⟩
  rw [account_post, h.account_eq, under_append, under_singleton]
  split
  · rw [merge_concat]
  · rw [List.append_nil]

/-- A ledger agrees with the entries posted on it, by induction on the entries from the back. -/
theorem agrees_postAll (entries : List α) : K.Agrees (K.postAll entries) entries := by
  induction entries using List.reverseRecOn with
  | nil => exact agrees_nil
  | append_singleton entries entry ih =>
    rw [postAll, List.foldl_append]
    exact ih.post entry

/-- Agreement by membership: the accounts are what the entries under each key come to. -/
theorem agrees_iff : K.Agrees accounts entries ↔ (accounts.map K.key).Nodup ∧
    ∀ a, a ∈ accounts ↔ K.merge (K.under (K.key a) entries) = some a := by
  constructor
  · intro h
    refine ⟨h.nodup, fun a => ?_⟩
    rw [← h.account_eq, account_eq_some h.nodup]
    simp
  · rintro ⟨hnodup, hmem⟩
    refine ⟨hnodup, fun k => Option.ext fun a => ?_⟩
    rw [account_eq_some hnodup, hmem]
    constructor
    · rintro ⟨hmerge, rfl⟩
      exact hmerge
    · intro hmerge
      have hkey : K.key a = k := by
        cases hes : K.under k entries with
        | nil => simp [hes, merge] at hmerge
        | cons e es =>
          rw [hes] at hmerge
          obtain rfl := Option.some.inj hmerge
          have he : e ∈ K.under k entries := by simp [hes]
          simpa [under] using (List.mem_filter.mp he).2
      exact ⟨hkey.symm ▸ hmerge, hkey⟩

/-- **A posting under the wrong key** goes unnoticed exactly if it posts nothing and both keys
    have entries already. -/
theorem Agrees.misposted_iff (h : K.Agrees accounts entries) {entry wrong : α}
    (hkey : K.key wrong ≠ K.key entry) (hamount : K.amount wrong = K.amount entry) :
    K.Agrees (K.post accounts wrong) (entries ++ [entry]) ↔
      K.amount entry = 0 ∧ (∃ e ∈ entries, K.key e = K.key entry) ∧
        ∃ e ∈ entries, K.key e = K.key wrong := by
  have hopen (k : κ) : (∃ e ∈ entries, K.key e = k) ↔ ∃ a, K.account accounts k = some a := by
    rw [← Option.ne_none_iff_exists', h.account_eq, ne_eq, merge_under_eq_none]
    simp
  have hwrong (k : κ) := account_post (K := K) accounts wrong k
  rw [hopen, hopen]
  constructor
  · intro hagrees
    -- under the right key the ledger has not moved, so neither have the entries
    have hright := hagrees.account_eq (K.key entry)
    rw [hwrong, if_neg hkey, under_append, under_singleton, if_pos rfl, merge_concat,
      ← h.account_eq] at hright
    obtain ⟨a, ha⟩ : ∃ a, K.account accounts (K.key entry) = some a := ⟨_, hright⟩
    have hsame : a = K.add a (K.amount entry) := by simpa [ha] using hright
    have hzero : K.amount entry = 0 := by
      have hsum := congrArg K.amount hsame
      rw [K.amount_add] at hsum
      omega
    refine ⟨hzero, ⟨a, ha⟩, ?_⟩
    -- under the wrong key there is an account now, so there was an entry before
    have hother := hagrees.account_eq (K.key wrong)
    rw [hwrong, if_pos rfl, under_append, under_singleton, if_neg hkey.symm, List.append_nil,
      ← h.account_eq] at hother
    exact ⟨_, hother.symm⟩
  · rintro ⟨hzero, ⟨a, ha⟩, b, hb⟩
    refine ⟨nodup_post h.nodup, fun k => ?_⟩
    rw [hwrong, hamount, hzero, under_append, under_singleton]
    by_cases hk : K.key wrong = k
    · rw [if_pos hk, if_neg (fun heq => hkey (hk.trans heq.symm)), List.append_nil, ← h.account_eq,
        ← hk, hb]
      simp
    -- under every other key nothing has changed
    · rw [if_neg hk]
      by_cases hk' : K.key entry = k
      · rw [if_pos hk', merge_concat, ← h.account_eq, ← hk', ha, hzero]
        simp
      · rw [if_neg hk', List.append_nil, h.account_eq]

/-! ### Totals -/

/-- What stands under the keys of a set, over all accounts. -/
def totalOf (K : AccountKind κ α) (p : κ → Bool) (accounts : List α) : Int :=
  ((accounts.filter fun a => p (K.key a)).map K.amount).sum

omit [DecidableEq κ] in
/-- The total over some keys, account by account from the front. -/
theorem totalOf_cons (p : κ → Bool) (a : α) (accounts : List α) :
    K.totalOf p (a :: accounts) =
      (if p (K.key a) then K.amount a else 0) + K.totalOf p accounts := by
  unfold totalOf
  by_cases hp : p (K.key a) <;> simp [hp]

omit [DecidableEq κ] in
/-- And from the back, where an account is opened. -/
theorem totalOf_concat (p : κ → Bool) (accounts : List α) (a : α) :
    K.totalOf p (accounts ++ [a]) =
      K.totalOf p accounts + if p (K.key a) then K.amount a else 0 := by
  unfold totalOf
  by_cases hp : p (K.key a) <;> simp [hp]

/-- With one account for a key, a posting adds its amount once, and only if the set has its key. -/
theorem totalOf_map_addTo (p : κ → Bool) (hnodup : (accounts.map K.key).Nodup)
    (hex : ∃ a ∈ accounts, K.key a = K.key entry) :
    K.totalOf p (accounts.map (K.addTo entry)) =
      K.totalOf p accounts + if p (K.key entry) then K.amount entry else 0 := by
  induction accounts with
  | nil => simp at hex
  | cons a accounts ih =>
    obtain ⟨hnew, hrest⟩ := List.nodup_cons.mp hnodup
    rw [List.map_cons, totalOf_cons, totalOf_cons, key_addTo]
    by_cases ha : K.key a = K.key entry
    · -- the account found is the only one of its key
      have hothers : ∀ b ∈ accounts, K.key b ≠ K.key entry := fun b hb hkey =>
        hnew (List.mem_map.mpr ⟨b, hb, hkey.trans ha.symm⟩)
      have hadd : K.addTo entry a = K.add a (K.amount entry) := if_pos ha
      rw [map_addTo_of_ne hothers, hadd, ha, K.amount_add]
      split <;> omega
    · have hadd : K.addTo entry a = a := if_neg ha
      have hlater : ∃ b ∈ accounts, K.key b = K.key entry := by
        obtain ⟨b, hb, hkey⟩ := hex
        rcases List.mem_cons.mp hb with rfl | hb
        · exact absurd hkey ha
        · exact ⟨b, hb, hkey⟩
      rw [ih hrest hlater, hadd]
      omega

/-- Posting an entry adds its amount to the total of every set of keys it belongs to, whether it
    opens an account or goes to one that is there. -/
theorem totalOf_post (p : κ → Bool) (hnodup : (accounts.map K.key).Nodup) :
    K.totalOf p (K.post accounts entry) =
      K.totalOf p accounts + if p (K.key entry) then K.amount entry else 0 := by
  unfold post
  split
  · rename_i hany
    obtain ⟨a, hmem, hkey⟩ := List.any_eq_true.mp hany
    exact totalOf_map_addTo p hnodup ⟨a, hmem, of_decide_eq_true hkey⟩
  · exact totalOf_concat p accounts entry

/-- **Nothing is lost**: over any set of keys the accounts hold what was posted, however the
    entries were merged. -/
theorem totalOf_postAll (p : κ → Bool) (entries : List α) :
    K.totalOf p (K.postAll entries) = K.totalOf p entries := by
  induction entries using List.reverseRecOn with
  | nil => rfl
  | append_singleton entries entry ih =>
    have hpost : K.postAll (entries ++ [entry]) = K.post (K.postAll entries) entry := by
      rw [postAll, List.foldl_append]
      rfl
    rw [hpost, totalOf_post p (agrees_postAll entries).nodup, ih, totalOf_concat]

end AccountKind

end LedgerLib
