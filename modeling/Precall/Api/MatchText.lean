import Precall.Api.SearchRoute
import Precall.Lib.Quoted

namespace Precall.Api

open ByteLib QuotedLib TextLib Precall.Store

/-!
# Search text as a `MATCH` expression

`fts_escape` of `precall-store/src/ukg.rs` against the strings of the FTS5 grammar, and with it the
full-text leg of `search` (`precall-api/src/routes.rs`).

* `MatchGrammar` — strings in double quotes, between separators;
* `ftsEscape_exact` — an escaped query consists of its tokens, each as one string, and of nothing
  else;
* `MatchStrings` — an FTS5 that follows the grammar as far as there is no NUL character
  (`NulFree`): strings are phrases, and all that have a token must match;
* `compile_ftsEscape` — what an escaped query then selects;
* `ftsLeg_ok` — the full-text leg never fails on such a text;
* `matchLetters` — a small engine that follows the grammar.
-/

/-- The strings of a `MATCH` expression: in double quotes, and separated by what FTS5 takes for
    whitespace, a space among it. -/
structure MatchGrammar where
  isSep : Char → Bool
  isSep_space : isSep ' ' = true
  isSep_quote : isSep '"' = false

namespace MatchGrammar

/-- Double quotes and separators. -/
def quoting (G : MatchGrammar) : Quoting Char := ⟨'"', G.isSep, G.isSep_quote⟩

/-- The elements of an expression, strings and others; `none` if a string is not closed. -/
def parse (G : MatchGrammar) (expression : String) : Option (List (Element Char)) :=
  G.quoting.elements expression.toList

/-- The separators of ASCII. -/
def ascii : MatchGrammar := ⟨fun c => c.isWhitespace, rfl, rfl⟩

end MatchGrammar

variable [TextTables]

omit [TextTables] in
/-- A string in double quotes, as the code writes it: the quotes inside are doubled. -/
theorem quoted_eq (G : MatchGrammar) (w : List Char) : G.quoting.quoted w =
    '"' :: (w.flatMap fun c => if c = '"' then ['"', '"'] else [c]) ++ ['"'] := by
  have hdoubled : (fun c => if c = G.quoting.quote then [c, c] else [c]) =
      fun c => if c = '"' then ['"', '"'] else [c] := by
    funext c
    by_cases hquote : c = '"'
    · rw [hquote]
      rfl
    · rw [if_neg hquote]
      exact if_neg hquote
  unfold Quoting.quoted Quoting.doubled
  rw [hdoubled]
  rfl

/-- The letters of an escaped query: its tokens as strings, with a space between them. -/
theorem ftsEscape_toList (G : MatchGrammar) (query : String) :
    (ftsEscape query).toList = [' '].intercalate
      ((splitTokens TextTables.isWhitespace query.toList).map G.quoting.quoted) := by
  have hspace : " ".toList = [' '] := rfl
  unfold ftsEscape
  rw [String.toList_intercalate, hspace, List.map_map]
  congr 1
  refine List.map_congr_left fun w _ => ?_
  rw [Function.comp_apply, String.toList_ofList, quoted_eq]

/-- An escaped query is read back as its tokens, each a string of its own: whatever they contain,
    nothing of it is an operator. -/
theorem parse_ftsEscape (G : MatchGrammar) (query : String) :
    G.parse (ftsEscape query) =
      some ((splitTokens TextTables.isWhitespace query.toList).map .string) := by
  unfold MatchGrammar.parse
  rw [ftsEscape_toList G]
  exact Quoting.elements_quoted G.isSep_space _

/-- A text that is not blank has a token. -/
theorem splitTokens_ne_nil {query : String}
    (hquery : ∃ c ∈ query.toList, TextTables.isWhitespace c = false) :
    splitTokens TextTables.isWhitespace query.toList ≠ [] := by
  obtain ⟨c, hmem, hc⟩ := hquery
  intro hnil
  have htokens := tokens_iff.mpr (rfl : splitTokens TextTables.isWhitespace query.toList = _)
  rw [hnil] at htokens
  have hblank := htokens.isSep_of_nil c hmem
  rw [hc] at hblank
  cases hblank

/-- **User text cannot inject syntax.**  An escaped query that is not blank is parsed, into its
    tokens in order, each as one string of its own letters, and into nothing else. -/
theorem ftsEscape_exact (G : MatchGrammar) (query : String)
    (hquery : ∃ c ∈ query.toList, TextTables.isWhitespace c = false) :
    ∃ tokens, tokens ≠ [] ∧ (∀ ts, Tokens TextTables.isWhitespace query.toList ts ↔ ts = tokens) ∧
      G.parse (ftsEscape query) = some (tokens.map .string) :=
  ⟨_, splitTokens_ne_nil hquery, fun _ => tokens_iff, parse_ftsEscape G query⟩

omit [TextTables] in
/-- A query with quotes in its tokens and at their ends. -/
theorem ftsEscape_exact_quotes :
    ∃ tokens, tokens ≠ [] ∧
      (∀ ts, @Tokens Char TextTables.ascii.isWhitespace "say \"\"hi\" OR  x*".toList ts ↔
        ts = tokens) ∧
      MatchGrammar.ascii.parse (@ftsEscape TextTables.ascii "say \"\"hi\" OR  x*") =
        some (tokens.map .string) :=
  @ftsEscape_exact TextTables.ascii MatchGrammar.ascii "say \"\"hi\" OR  x*"
    ⟨'s', by decide, by decide⟩

/-! ### The full-text leg -/

/-- A request with a text query has one that is not blank. -/
theorem not_blank_of_hasQuery {body : SearchBody} (h : hasQuery body = true) :
    ∃ c ∈ body.query.toList, TextTables.isWhitespace c = false := by
  by_contra hblank
  have htrim : trim body.query = "" := by
    rw [trim_eq_iff]
    have hnil : ("" : String).toList = [] := rfl
    rw [hnil]
    refine ⟨body.query.toList, [], by simp, ?_, by simp, by simp⟩
    intro c hc
    rw [List.append_nil] at hc
    cases hwhite : TextTables.isWhitespace c with
    | true => rfl
    | false => exact absurd ⟨c, hc, hwhite⟩ hblank
  simp [hasQuery, htrim] at h

/-- A text without NUL characters.  FTS5 reads an expression as a C string, up to the first one, so
    what it does with a string that holds one is not what the grammar says. -/
def NulFree (text : List Char) : Prop := Char.ofNat 0 ∉ text

instance (text : List Char) : Decidable (NulFree text) := inferInstanceAs (Decidable (¬ _))

/-- The rows in which every string is found that has a token at all: FTS5 drops the others, and
    finds nothing where that leaves none. -/
def selects (hasToken : List Char → Bool) (phrase : List Char → TextIndexRow → Bool)
    (texts : List (List Char)) (row : TextIndexRow) : Bool :=
  let sought := texts.filter hasToken
  !sought.isEmpty && sought.all fun text => phrase text row

/-- An FTS5 that follows the grammar on expressions without NUL characters: one that consists of
    strings is parsed, and selects the rows in which they occur as phrases. -/
class MatchStrings [Fts5] where
  grammar : MatchGrammar
  hasToken : List Char → Bool
  phrase : List Char → TextIndexRow → Bool
  compile_strings : ∀ (expression : String) (texts : List (List Char)), texts ≠ [] →
    NulFree expression.toList → grammar.parse expression = some (texts.map .string) →
      Fts5.compile expression = some (selects hasToken phrase texts)

/-- Escaping brings no NUL characters in. -/
theorem nulFree_ftsEscape {query : String} (h : NulFree query.toList) :
    NulFree (ftsEscape query).toList := by
  intro hnul
  rw [ftsEscape_toList MatchGrammar.ascii] at hnul
  rcases Quoting.mem_intercalate_quoted hnul with hspace | hquote | ⟨token, htoken, hin⟩
  · exact absurd hspace (by decide)
  · exact absurd hquote (by decide)
  · exact h ((tokens_iff.mpr rfl).subset token htoken hin)

section
variable [Fts5] [MatchStrings]

/-- An escaped query selects the rows that contain each of its tokens; a token in which the
    engine finds no letters asks for nothing. -/
theorem compile_ftsEscape {query : String} (hnul : NulFree query.toList)
    (hquery : ∃ c ∈ query.toList, TextTables.isWhitespace c = false) :
    Fts5.compile (ftsEscape query) = some (selects MatchStrings.hasToken MatchStrings.phrase
      (splitTokens TextTables.isWhitespace query.toList)) :=
  MatchStrings.compile_strings _ _ (splitTokens_ne_nil hquery) (nulFree_ftsEscape hnul)
    (parse_ftsEscape _ query)

/-- **The full-text leg never fails** on the text of a request, unless there is a NUL character
    in it. -/
theorem ftsLeg_ok (db : Ukg) (body : SearchBody) (image : Option Bytes)
    (hnul : NulFree body.query.toList) :
    ∃ hits, ftsLeg db (legRequest body image) body.query = .ok hits := by
  unfold ftsLeg
  split
  · rename_i hruns
    have hquery := hruns.2
    simp only [legRequest] at hquery
    have hcompile := compile_ftsEscape hnul (not_blank_of_hasQuery hquery)
    have hrows : (db.searchFts (ftsOptions (legRequest body image) body.query)).isSome := by
      unfold Ukg.searchFts Ukg.ftsRows
      simp [ftsOptions, hcompile]
    obtain ⟨hits, hhits⟩ := Option.isSome_iff_exists.mp hrows
    rw [hhits]
    exact ⟨some hits, rfl⟩
  · exact ⟨none, rfl⟩

end

/-! ### An engine of letters -/

/-- The text of an element that is a string. -/
def elementText : Element Char → Option (List Char)
  | .string text => some text
  | .other _ => none

/-- An engine that takes the letters of a string for its tokens, and parses nothing but strings;
    it shows that the class of engines is not empty. -/
@[reducible]
def matchLetters : Fts5 where
  toJoinOrder := Ukg.joinInserted
  compile := fun expression => do
    let elements ← MatchGrammar.ascii.parse expression
    let texts ← elements.mapM elementText
    some (selects (fun text => text.any Char.isAlphanum)
      (fun text row => [row.name, row.windowTitle, row.ocrText].any fun column =>
        decide (text <:+: column.toList)) texts)
  snippet := fun _ _ => none
  bm25 := fun _ _ _ => 0
  byRank := fun _ rows => rows
  byRank_perm := fun _ _ => List.Perm.refl _

omit [TextTables] in
/-- Strings are read back as their texts. -/
theorem mapM_elementText (texts : List (List Char)) :
    (texts.map Element.string).mapM elementText = some texts := by
  rw [List.mapM_map]
  induction texts with
  | nil => rfl
  | cons text texts ih => simp [List.mapM_cons, ih, elementText]

attribute [local instance] matchLetters in
/-- It follows the grammar. -/
@[reducible]
def matchLettersStrings : MatchStrings where
  grammar := MatchGrammar.ascii
  hasToken := fun text => text.any Char.isAlphanum
  phrase := fun text row => [row.name, row.windowTitle, row.ocrText].any fun column =>
    decide (text <:+: column.toList)
  compile_strings := by
    intro expression texts _ _ hparse
    show (MatchGrammar.ascii.parse expression).bind _ = _
    rw [hparse, Option.bind_some]
    show ((texts.map Element.string).mapM elementText).bind _ = _
    rw [mapM_elementText, Option.bind_some]

omit [TextTables] in
attribute [local instance] matchLetters in
example : Ukg.notesCapture.ftsCaptures
    ⟨@ftsEscape TextTables.ascii "hell !", none, none, [], none⟩ = [1] := by
  decide +kernel

end Precall.Api
