import Mathlib.Data.List.Basic

namespace QuotedLib

/-!
# Quoted strings and tokens

Texts of strings in quotes, where a quote inside a string is written twice, and texts of tokens
between separators; over any alphabet.

* `Quoting` — a quote and separators;
* `scan` — a text read letter by letter: strings, and whatever else it contains;
* `quoted` — a string as it is written; `elements_quoted` — strings written one after the other
  are read back, and nothing else;
* `Tokens` — the runs between separators; `tokens_iff` — split the text and drop what is empty.
-/

variable {α : Type} [DecidableEq α]

/-- A quote, and the letters that separate.  The quote is no separator. -/
structure Quoting (α : Type) where
  quote : α
  isSep : α → Bool
  not_isSep_quote : isSep quote = false

/-- What a text consists of: strings, and letters outside them that separate nothing.  A text of
    strings only has no letter of the other kind. -/
inductive Element (α : Type) where
  | string (text : List α)
  | other (letter : α)
  deriving DecidableEq, Repr

/-- Where in a text a reader is: outside strings, inside one, or behind a quote that closes it
    unless another follows. -/
inductive Place (α : Type) where
  | outside
  | inside (text : List α)
  | closing (text : List α)

namespace Quoting

variable (Q : Quoting α)

/-- Read a text; a string that is not closed is an error.  A quote that follows a closing one is
    a quote of the text. -/
def scan : Place α → List α → Option (List (Element α))
  | .outside, [] => some []
  | .inside _, [] => none
  | .closing text, [] => some [.string text]
  | .outside, c :: cs =>
      if c = Q.quote then scan (.inside []) cs
      else if Q.isSep c then scan .outside cs
      else (scan .outside cs).map (.other c :: ·)
  | .inside text, c :: cs =>
      if c = Q.quote then scan (.closing text) cs else scan (.inside (text ++ [c])) cs
  | .closing text, c :: cs =>
      -- a quote after a quote is a letter of the string
      if c = Q.quote then scan (.inside (text ++ [c])) cs
      else if Q.isSep c then (scan .outside cs).map (.string text :: ·)
      else (scan .outside cs).map (.string text :: .other c :: ·)

/-- The elements of a text. -/
def elements (cs : List α) : Option (List (Element α)) := Q.scan .outside cs

/-- A text with every quote twice, which is how a quote is written inside a string. -/
def doubled (text : List α) : List α := text.flatMap fun c => if c = Q.quote then [c, c] else [c]

/-- A text as a string. -/
def quoted (text : List α) : List α := Q.quote :: Q.doubled text ++ [Q.quote]

variable {Q}

/-- Inside a string, doubled quotes are letters of the text. -/
theorem scan_doubled (read text rest : List α) :
    Q.scan (.inside read) (Q.doubled text ++ rest) = Q.scan (.inside (read ++ text)) rest := by
  induction text generalizing read with
  | nil => simp [doubled]
  | cons c text ih =>
    have hcons : Q.doubled (c :: text) ++ rest =
        (if c = Q.quote then [c, c] else [c]) ++ (Q.doubled text ++ rest) := by
      simp [doubled]
    rw [hcons]
    by_cases hquote : c = Q.quote
    · simp [hquote, scan, ih]
    · simp [hquote, scan, ih]

/-- A string is read up to its closing quote; whether it ends there is told by the next letter. -/
theorem scan_quoted (text rest : List α) :
    Q.scan .outside (Q.quoted text ++ rest) = Q.scan (.closing text) rest := by
  have hquoted : Q.quoted text ++ rest = Q.quote :: (Q.doubled text ++ (Q.quote :: rest)) := by
    simp [quoted]
  rw [hquoted, scan, if_pos rfl, scan_doubled, List.nil_append, scan, if_pos rfl]

/-- A separator closes the string before it. -/
theorem scan_closing_sep (text : List α) {sep : α} (hsep : Q.isSep sep = true) (rest : List α) :
    Q.scan (.closing text) (sep :: rest) = (Q.scan .outside rest).map (.string text :: ·) := by
  have hne : sep ≠ Q.quote := by
    rintro rfl
    exact absurd hsep (by simp [Q.not_isSep_quote])
  rw [scan, if_neg hne, if_pos hsep]

/-- **Strings written with a separator between them are read back**, and nothing else is,
    whatever letters they have. -/
theorem elements_quoted {sep : α} (hsep : Q.isSep sep = true) (texts : List (List α)) :
    Q.elements ([sep].intercalate (texts.map Q.quoted)) = some (texts.map .string) := by
  unfold elements
  induction texts with
  | nil => rfl
  | cons text texts ih =>
    cases texts with
    | nil =>
      have hone : [sep].intercalate ([text].map Q.quoted) = Q.quoted text ++ [] := by
        simp [List.intercalate]
      rw [hone, scan_quoted]
      rfl
    | cons next texts =>
      have hmore : [sep].intercalate ((text :: next :: texts).map Q.quoted) =
          Q.quoted text ++ (sep :: [sep].intercalate ((next :: texts).map Q.quoted)) := by
        simp [List.intercalate]
      rw [hmore, scan_quoted, scan_closing_sep text hsep, ih]
      rfl

/-- A quoted text has no letters but those of the text and the quote, so what is not in the text
    is not in the string. -/
theorem mem_quoted {c : α} {text : List α} (h : c ∈ Q.quoted text) : c = Q.quote ∨ c ∈ text := by
  unfold quoted doubled at h
  simp only [List.cons_append, List.mem_cons, List.mem_append, List.mem_flatMap,
    List.not_mem_nil, or_false] at h
  rcases h with rfl | ⟨d, hd, hc⟩ | rfl
  · exact Or.inl rfl
  · -- a letter stands for itself, whether doubled or not
    have hsame : c = d := by
      split at hc <;> simpa using hc
    exact Or.inr (hsame ▸ hd)
  · exact Or.inl rfl

/-- Strings with a separator between them have no further letters either. -/
theorem mem_intercalate_quoted {c sep : α} {texts : List (List α)}
    (h : c ∈ [sep].intercalate (texts.map Q.quoted)) :
    c = sep ∨ c = Q.quote ∨ ∃ text ∈ texts, c ∈ text := by
  induction texts with
  | nil => cases h
  | cons text texts ih =>
    have hfirst : c ∈ Q.quoted text →
        c = sep ∨ c = Q.quote ∨ ∃ t ∈ text :: texts, c ∈ t := fun hc =>
      Or.inr ((Q.mem_quoted hc).imp id fun hin => ⟨text, List.mem_cons_self, hin⟩)
    cases texts with
    | nil => exact hfirst (by simpa [List.intercalate] using h)
    | cons next texts =>
      have hmore : [sep].intercalate ((text :: next :: texts).map Q.quoted) =
          Q.quoted text ++ (sep :: [sep].intercalate ((next :: texts).map Q.quoted)) := by
        simp [List.intercalate]
      rw [hmore, List.mem_append, List.mem_cons] at h
      rcases h with hc | rfl | hc
      · exact hfirst hc
      · exact Or.inl rfl
      · rcases ih hc with hsep | hquote | ⟨t, ht, hin⟩
        · exact Or.inl hsep
        · exact Or.inr (Or.inl hquote)
        · exact Or.inr (Or.inr ⟨t, List.mem_cons_of_mem text ht, hin⟩)

end Quoting

/-! ### Tokens -/

omit [DecidableEq α]

/-- The tokens of a text, in order: the longest runs without a separator.  This says what they
    are without a way to compute them. -/
inductive Tokens (isSep : α → Bool) : List α → List (List α) → Prop
  | nil : Tokens isSep [] []
  | sep {c : α} {cs : List α} {ts : List (List α)} :
      isSep c = true → Tokens isSep cs ts → Tokens isSep (c :: cs) ts
  | token {t cs : List α} {ts : List (List α)} :
      t ≠ [] → (∀ c ∈ t, isSep c = false) → (∀ c ∈ cs.head?, isSep c = true) →
        Tokens isSep cs ts → Tokens isSep (t ++ cs) (t :: ts)

/-- Split a text at its separators and drop what is empty. -/
def splitTokens (isSep : α → Bool) (cs : List α) : List (List α) :=
  (cs.splitOnP isSep).filter fun w => !w.isEmpty

/-- A separator in front adds no token. -/
theorem splitTokens_sep {isSep : α → Bool} {c : α} (hc : isSep c = true) (cs : List α) :
    splitTokens isSep (c :: cs) = splitTokens isSep cs := by
  simp [splitTokens, List.splitOnP_cons_eq_if_modifyHead, hc]

/-- Every text has tokens, by induction on its letters: a letter starts a token, or joins the one
    that follows it at once. -/
theorem exists_tokens (isSep : α → Bool) (cs : List α) : ∃ ts, Tokens isSep cs ts := by
  induction cs with
  | nil => exact ⟨[], .nil⟩
  | cons c cs ih =>
    obtain ⟨ts, hts⟩ := ih
    by_cases hc : isSep c = true
    · exact ⟨ts, .sep hc hts⟩
    · have hc : isSep c = false := by simpa using hc
      have hone : ∀ d ∈ [c], isSep d = false := by simpa using hc
      -- the letter starts a token, or the one that follows it at once
      cases hts with
      | nil => exact ⟨[[c]], .token (List.cons_ne_nil c []) hone (by simp) .nil⟩
      | sep hsep hrest =>
        exact ⟨_, .token (List.cons_ne_nil c []) hone (by simpa using hsep) (.sep hsep hrest)⟩
      | @token t _ _ _ hin hhead hrest =>
        have hin' : ∀ d ∈ c :: t, isSep d = false := List.forall_mem_cons.mpr ⟨hc, hin⟩
        exact ⟨_, .token (List.cons_ne_nil c _) hin' hhead hrest⟩

/-- **The tokens of a text** are what its split leaves, and so every text has them, in one way. -/
theorem tokens_iff {isSep : α → Bool} {cs : List α} {ts : List (List α)} :
    Tokens isSep cs ts ↔ ts = splitTokens isSep cs := by
  have hsplit : ∀ {cs ts}, Tokens isSep cs ts → ts = splitTokens isSep cs := by
    intro cs ts h
    induction h with
    | nil => simp [splitTokens]
    | sep hc _ ih => rw [splitTokens_sep hc, ih]
    | @token t cs ts hne hin hhead _ ih =>
      have hkept : (!t.isEmpty) = true := by simpa using hne
      cases cs with
      | nil =>
        rw [ih, splitTokens, splitTokens, List.append_nil, List.splitOnP_eq_singleton hin]
        simp [hkept]
      | cons c cs =>
        -- what follows a token starts with a separator, and the split is there
        have hc : isSep c = true := hhead c rfl
        rw [ih, splitTokens_sep hc, splitTokens, splitTokens,
          List.splitOnP_append_cons_of_forall_mem hin c hc]
        simp [hkept]
  constructor
  · exact hsplit
  · rintro rfl
    obtain ⟨ts, hts⟩ := exists_tokens isSep cs
    exact hsplit hts ▸ hts

/-- A token has the letters of its text. -/
theorem Tokens.subset {isSep : α → Bool} {cs : List α} {ts : List (List α)}
    (h : Tokens isSep cs ts) : ∀ t ∈ ts, t ⊆ cs := by
  induction h with
  | nil => simp
  | sep _ _ ih => exact fun t ht => List.subset_cons_of_subset _ (ih t ht)
  | token _ _ _ _ ih =>
    intro t' ht'
    rcases List.mem_cons.mp ht' with rfl | ht'
    · exact List.subset_append_left _ _
    · exact List.subset_append_of_subset_right _ (ih t' ht')

/-- A text without tokens consists of separators. -/
theorem Tokens.isSep_of_nil {isSep : α → Bool} {cs : List α} (h : Tokens isSep cs []) :
    ∀ c ∈ cs, isSep c = true := by
  generalize hnil : ([] : List (List α)) = ts at h
  induction h with
  | nil => simp
  | sep hc _ ih => exact List.forall_mem_cons.mpr ⟨hc, ih hnil⟩
  | token => cases hnil

end QuotedLib
