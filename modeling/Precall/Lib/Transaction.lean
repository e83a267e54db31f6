import Mathlib.Data.List.Nodup
import Precall.Lib.Table

namespace TransactionLib

open TableLib

/-!
# Transactions whose statements can fail

A transaction as a program of statements over a database.  The environment says, statement by
statement, whether it fails for a reason of its own (`Outcome`); a statement also fails by itself
where a row it asks for is missing or a constraint forbids what it writes.  A transaction that
fails is rolled back (`transact`).

* `Computes` — the program has this result and leaves this database, unless the environment makes
  one of its statements fail; rules for sequences and loops;
* `transact_of_computes` — what such a transaction does to the database;
* `Refuses` — the program violates a constraint on its way; `transact_of_refuses`;
* `insertOrIgnore` — an insert under a unique index, with the lookup behind it.
-/

/-- Why a transaction failed: a reason of the environment's, or the statement itself.  Either way
    nothing of it is kept. -/
inductive TxError (φ : Type) where
  | fault (e : φ)
  | noRows
  | constraint
  deriving DecidableEq, Repr

/-- How a statement ends as far as the environment decides: with this fault, or none.  A full
    disk and a locked file are such faults. -/
abbrev Outcome (φ : Type) := Option φ

/-- A program of statements over a database, with the outcomes of the statements to come.  Each
    statement takes the next one. -/
abbrev Tx (σ φ : Type) := StateT (σ × List (Outcome φ)) (Except (TxError φ))

variable {σ φ α β : Type}

/-- A statement: what it returns and leaves, or why it fails by itself.  Statements beyond the
    list of outcomes succeed. -/
def statement (f : σ → Except (TxError φ) (α × σ)) : Tx σ φ α := fun s =>
  match s.2.head?.join with
  | some e => .error (.fault e)
  | none => (f s.1).map fun r => (r.1, r.2, s.2.tail)

/-- A statement that writes. -/
def execute (f : σ → σ) : Tx σ φ Unit := statement fun s => .ok ((), f s)

/-- A statement that reads one row and fails if there is none. -/
def queryRow (f : σ → Option α) : Tx σ φ α := statement fun s =>
  match f s with
  | some a => .ok (a, s)
  | none => .error .noRows

/-- A statement that reads a row if there is one. -/
def queryOptional (f : σ → Option α) : Tx σ φ (Option α) := statement fun s => .ok (f s, s)

/-- Run a transaction: it commits at the end, and a failure rolls it back to the database it
    began with. -/
def transact (p : Tx σ φ α) (s : σ) (outcomes : List (Outcome φ)) : Except (TxError φ) α × σ :=
  match p (s, outcomes) with
  | .ok (a, s', _) => (.ok a, s')
  | .error e => (.error e, s)  -- rolled back

/-! ### What a program computes -/

/-- From `s` the program returns `a` and leaves `s'`, or one of the outcomes is a fault and the
    program fails with it. -/
def Computes (p : Tx σ φ α) (s : σ) (a : α) (s' : σ) : Prop :=
  ∀ outcomes, (∃ rest, rest <:+ outcomes ∧ p (s, outcomes) = .ok (a, s', rest)) ∨
    ∃ e, some e ∈ outcomes ∧ p (s, outcomes) = .error (.fault e)

/-- A value is computed by no statement. -/
theorem computes_pure (a : α) (s : σ) : Computes (pure a : Tx σ φ α) s a s :=
  fun outcomes => Or.inl ⟨outcomes, List.suffix_refl _, rfl⟩

/-- **One after the other.** -/
theorem Computes.bind {p : Tx σ φ α} {k : α → Tx σ φ β} {s s' s'' : σ} {a : α} {b : β}
    (hp : Computes p s a s') (hk : Computes (k a) s' b s'') : Computes (p >>= k) s b s'' := by
  intro outcomes
  rcases hp outcomes with ⟨rest, hrest, hrun⟩ | ⟨e, he, hrun⟩
  -- the second program meets the outcomes the first has left
  · have hbind : (p >>= k) (s, outcomes) = k a (s', rest) := by
      show (p (s, outcomes) >>= fun r => k r.1 r.2) = _
      rw [hrun]
      rfl
    rw [hbind]
    rcases hk rest with ⟨rest', hrest', hrun'⟩ | ⟨e, he, hrun'⟩
    · exact Or.inl ⟨rest', hrest'.trans hrest, hrun'⟩
    · exact Or.inr ⟨e, hrest.subset he, hrun'⟩
  · refine Or.inr ⟨e, he, ?_⟩
    show (p (s, outcomes) >>= fun r => k r.1 r.2) = _
    rw [hrun]
    rfl

/-- A statement that does not fail by itself goes through, unless the environment has a fault for
    it. -/
theorem computes_statement {f : σ → Except (TxError φ) (α × σ)} {s s' : σ} {a : α}
    (h : f s = .ok (a, s')) : Computes (statement f) s a s' := by
  intro outcomes
  unfold statement
  cases houtcome : outcomes.head?.join with
  | none => exact Or.inl ⟨outcomes.tail, List.tail_suffix _, by simp [h, Except.map]⟩
  | some e =>
    refine Or.inr ⟨e, ?_, by simp⟩
    exact List.mem_of_head? (Option.join_eq_some_iff.mp houtcome)

/-- `execute` takes the database to where its statement takes it. -/
theorem computes_execute (f : σ → σ) (s : σ) : Computes (execute f : Tx σ φ Unit) s () (f s) :=
  computes_statement rfl

/-- `query_row` returns the row it finds, and changes nothing. -/
theorem computes_queryRow {f : σ → Option α} {s : σ} {a : α} (h : f s = some a) :
    Computes (queryRow f : Tx σ φ α) s a s :=
  computes_statement (by rw [h])

/-- With `.optional()` it returns also that there was none, and that is no failure. -/
theorem computes_queryOptional (f : σ → Option α) (s : σ) :
    Computes (queryOptional f : Tx σ φ (Option α)) s (f s) s :=
  computes_statement rfl

/-- **Loops.**  A turn that computes, from every database that keeps an invariant, one that keeps
    it again. -/
theorem computes_forM {step : β → σ → σ} {body : β → Tx σ φ Unit} (I : σ → Prop)
    (hbody : ∀ x s, I s → Computes (body x) s () (step x s) ∧ I (step x s)) (xs : List β) {s : σ}
    (hs : I s) : Computes (xs.forM body) s () (xs.foldl (fun s x => step x s) s) := by
  induction xs generalizing s with
  | nil => exact computes_pure () s
  | cons x xs ih =>
    obtain ⟨hturn, hkeeps⟩ := hbody x s hs
    show Computes (body x >>= fun _ => xs.forM body) s () _
    exact hturn.bind (ih hkeeps)

/-- **Transactions.**  One that computes commits that, or is rolled back for a fault of the
    environment's. -/
theorem transact_of_computes {p : Tx σ φ α} {s s' : σ} {a : α} (h : Computes p s a s')
    (outcomes : List (Outcome φ)) :
    transact p s outcomes = (.ok a, s') ∨
      ∃ e, some e ∈ outcomes ∧ transact p s outcomes = (.error (.fault e), s) := by
  unfold transact
  rcases h outcomes with ⟨rest, -, hrun⟩ | ⟨e, he, hrun⟩
  · rw [hrun]
    exact Or.inl rfl
  · rw [hrun]
    exact Or.inr ⟨e, he, rfl⟩

/-! ### What a constraint refuses -/

/-- From `s` the program fails with a violated constraint, or with a fault of the outcomes.  It
    never goes through. -/
def Refuses (p : Tx σ φ α) (s : σ) : Prop :=
  ∀ outcomes, p (s, outcomes) = .error .constraint ∨
    ∃ e, some e ∈ outcomes ∧ p (s, outcomes) = .error (.fault e)

/-- A statement that breaks a constraint refuses the transaction. -/
theorem refuses_statement {f : σ → Except (TxError φ) (α × σ)} {s : σ}
    (h : f s = .error .constraint) : Refuses (statement f) s := by
  intro outcomes
  unfold statement
  cases houtcome : outcomes.head?.join with
  | none => exact Or.inl (by simp [h, Except.map])
  | some e =>
    refine Or.inr ⟨e, ?_, by simp⟩
    exact List.mem_of_head? (Option.join_eq_some_iff.mp houtcome)

/-- What comes after a refusal is not reached, so it may be anything. -/
theorem Refuses.bind {p : Tx σ φ α} {s : σ} (hp : Refuses p s) (k : α → Tx σ φ β) :
    Refuses (p >>= k) s := by
  intro outcomes
  have hstop : ∀ e, p (s, outcomes) = .error e → (p >>= k) (s, outcomes) = .error e := by
    intro e hrun
    show (p (s, outcomes) >>= fun r => k r.1 r.2) = _
    rw [hrun]
    rfl
  rcases hp outcomes with hrun | ⟨e, he, hrun⟩
  · exact Or.inl (hstop _ hrun)
  · exact Or.inr ⟨e, he, hstop _ hrun⟩

/-- A refusal after statements that go through refuses them as well. -/
theorem Computes.refuses {p : Tx σ φ α} {k : α → Tx σ φ β} {s s' : σ} {a : α}
    (hp : Computes p s a s') (hk : Refuses (k a) s') : Refuses (p >>= k) s := by
  intro outcomes
  rcases hp outcomes with ⟨rest, hrest, hrun⟩ | ⟨e, he, hrun⟩
  · have hbind : (p >>= k) (s, outcomes) = k a (s', rest) := by
      show (p (s, outcomes) >>= fun r => k r.1 r.2) = _
      rw [hrun]
      rfl
    rw [hbind]
    rcases hk rest with hrun' | ⟨e, he, hrun'⟩
    · exact Or.inl hrun'
    · exact Or.inr ⟨e, hrest.subset he, hrun'⟩
  · refine Or.inr ⟨e, he, ?_⟩
    show (p (s, outcomes) >>= fun r => k r.1 r.2) = _
    rw [hrun]
    rfl

/-- **Refused transactions** leave the database as it was.  The error is that of the constraint,
    or a fault of the outcomes. -/
theorem transact_of_refuses {p : Tx σ φ α} {s : σ} (h : Refuses p s)
    (outcomes : List (Outcome φ)) :
    transact p s outcomes = (.error .constraint, s) ∨
      ∃ e, some e ∈ outcomes ∧ transact p s outcomes = (.error (.fault e), s) := by
  unfold transact
  rcases h outcomes with hrun | ⟨e, he, hrun⟩
  · rw [hrun]
    exact Or.inl rfl
  · rw [hrun]
    exact Or.inr ⟨e, he, rfl⟩

/-! ### Parts of a database -/

/-- A part of a database that is read and replaced on its own.  What is outside it stays. -/
structure Part (σ τ : Type) where
  get : σ → τ
  set : σ → τ → σ
  get_set : ∀ s t, get (set s t) = t
  set_set : ∀ s t t', set (set s t) t' = set s t'
  set_get : ∀ s, set s (get s) = s

/-- Writing to a part again and again is writing to it once, so a loop of statements over one
    table is a fold over that table. -/
theorem Part.foldl_set {τ : Type} (part : Part σ τ) (step : τ → β → τ) (xs : List β) (s : σ) :
    xs.foldl (fun s x => part.set s (step (part.get s) x)) s
      = part.set s (xs.foldl step (part.get s)) := by
  induction xs generalizing s with
  | nil => exact (part.set_get s).symm
  | cons x xs ih => rw [List.foldl_cons, ih, part.get_set, part.set_set, List.foldl_cons]

/-! ### Inserting under a unique index -/

variable {κ : Type} [DecidableEq κ]

/-- `INSERT OR IGNORE` into a table with a unique index on `key`: a row whose key is taken is
    dropped. -/
def insertOrIgnore (key : α → κ) (t : Table α) (x : α) : Table α :=
  if (t.find? fun y => key x = key y).isSome then t else t.insert x

/-- The rows have distinct keys, which is what a unique index enforces. -/
def Unique (key : α → κ) (t : Table α) : Prop := (t.rows.map fun r => key r.2).Nodup

section
variable {key : α → κ} {t : Table α} {x : α}

/-- A unique key is free exactly if no row has it. -/
theorem find?_eq_none : t.find? (fun y => key x = key y) = none ↔
    ∀ r ∈ t.rows, key r.2 ≠ key x := by
  rw [Table.find?, Option.map_eq_none_iff, List.find?_eq_none]
  simp only [decide_eq_true_eq]
  exact forall₂_congr fun r _ => ne_comm

/-- The row found under a unique key has that key. -/
theorem mem_of_find? {id : Int} (h : t.find? (fun y => key x = key y) = some id) :
    ∃ y, (id, y) ∈ t.rows ∧ key y = key x := by
  obtain ⟨r, hfind, rfl⟩ := Option.map_eq_some_iff.mp h
  have hkey : key x = key r.2 := by simpa using List.find?_some hfind
  exact ⟨r.2, List.mem_of_find?_eq_some hfind, hkey.symm⟩

/-- A unique index stays one: the row that would break it is the row that is ignored. -/
theorem Unique.insertOrIgnore (h : Unique key t) : Unique key (insertOrIgnore key t x) := by
  unfold TransactionLib.insertOrIgnore
  cases hfind : t.find? (fun y => key x = key y) with
  | some id => exact h
  | none =>
    have hnew := find?_eq_none.mp hfind
    rw [if_neg (by simp), Unique, Table.rows_insert, List.map_append, List.nodup_append]
    refine ⟨h, List.nodup_singleton _, ?_⟩
    rintro _ hold _ hx rfl
    obtain ⟨r, hr, hkey⟩ := List.mem_map.mp hold
    exact hnew r hr (hkey.trans (List.mem_singleton.mp hx))

omit [DecidableEq κ] in
/-- The key of a row determines it. -/
theorem Unique.eq_of_key (h : Unique key t) {r r' : Int × α} (hr : r ∈ t.rows)
    (hr' : r' ∈ t.rows) (hkey : key r.2 = key r'.2) : r = r' :=
  List.inj_on_of_nodup_map h hr hr' hkey

end

end TransactionLib
