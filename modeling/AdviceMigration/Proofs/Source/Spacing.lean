import AdviceMigration.Proofs.Source.Facing
import AdviceMigration.Proofs.Source.TypeWording

/-!
# Spacing does not matter

Where a token ends does not depend on what comes behind it, as long as a space does not go on with it, and no token goes on with a space. So the texts of the tokens of a text, with a single space between any two, are read as the same tokens again. The spaces replace what stood between the tokens, comments included, and they separate tokens that touched.
-/

namespace AdviceMigration.Source

/-- A token without its place and its surroundings: its kind and its text. -/
def Token.spelling (token : Token) : TokenKind × String := (token.kind, token.text)

/-- The texts of tokens with a single space between them, without the end of file. -/
def spaced (tokens : List Token) : String :=
  " ".intercalate ((tokens.filter fun token => token.kind != .eof).map Token.text)

/-! ### Spellings -/

/-- The kind and the text of a lexeme that is a token. -/
def Lexeme.spelling? : Lexeme → Option (TokenKind × String)
  | .token kind chars => some (kind, String.ofList chars)
  | .byteOrderMark => none
  | .blank _ => none
  | .lineFeed => none
  | .comment _ _ => none

theorem map_spelling_wordsOf (joint : Bool) (lexemes : List Lexeme) :
    (wordsOf joint lexemes).map (fun word => (word.kind, word.text)) =
      lexemes.filterMap Lexeme.spelling? ++ [(TokenKind.eof, "")] := by
  induction lexemes generalizing joint with
  | nil => rfl
  | cons lexeme rest ih =>
    cases lexeme with
    | token kind chars => exact congrArg ((kind, String.ofList chars) :: ·) (ih true)
    | byteOrderMark => exact ih joint
    | blank | lineFeed | comment => exact ih false

/-- The tokens of lexemes are those among the lexemes, and the end of file. -/
theorem map_spelling_ofLexemes (lexemes : List Lexeme) :
    (Token.ofLexemes lexemes).map Token.spelling =
      lexemes.filterMap Lexeme.spelling? ++ [(TokenKind.eof, "")] := by
  rw [← map_spelling_wordsOf false, ← map_word_ofLexemes, List.map_map]
  rfl

/-! ### In front of a space -/

/-- A sign is scanned as it is spelled. -/
theorem Scans.chars_eq {punct : Punct} {chars after : List Char}
    (h : Scans (.token (.punct punct) chars) after) : chars = punct.text.toList := by
  obtain ⟨c, rest, rfl, hscan⟩ := h
  obtain ⟨-, htoken⟩ := scanToken_of_scan hscan
  unfold scanToken at htoken
  split_ifs at htoken with hstart hdigit hquote hapostrophe
  · simp only [Except.ok.injEq, Lexeme.token.injEq] at htoken
    exact absurd htoken.1 ((TokenKind.ofWord_facts _).1 punct)
  · simp at htoken
  · split at htoken <;> split at htoken <;> simp at htoken
  · split at htoken <;> simp at htoken
  · split at htoken
    · simp only [Except.ok.injEq, Lexeme.token.injEq, TokenKind.punct.injEq] at htoken
      obtain ⟨rfl, hchars⟩ := htoken
      exact hchars.symm
    · simp at htoken

/-- No sign grows by a space. -/
theorem Punct.goesOn_space (punct : Punct) : punct.goesOn ' ' = false := by
  cases punct <;> decide

/-- A token that is scanned anywhere is scanned in front of a space and at the end of a text. -/
theorem Scans.of_space {kind : TokenKind} {chars after after' : List Char}
    (h : Scans (.token kind chars) after) (hspace : ∀ c ∈ after'.head?, c = ' ') :
    Scans (.token kind chars) after' := by
  by_cases hpunct : ∃ punct, kind = .punct punct
  · obtain ⟨punct, rfl⟩ := hpunct
    rw [h.chars_eq]
    apply Punct.scans
    intro c hc
    rw [hspace c hc]
    exact punct.goesOn_space
  · apply h.transfer
    · exact fun punct heq => hpunct ⟨punct, heq⟩
    · intro c hc
      rw [hspace c hc]
      decide
    · intro hquote
      exact absurd (hspace _ hquote) (by decide)
    · intro _ c hc
      rw [hspace c hc]
      exact .inl (by decide)

/-- Tokens with a blank between any two of them are scanned one by one. -/
theorem scansAll_intersperse {lexemes : List Lexeme}
    (h : ∀ lexeme ∈ lexemes, ∃ kind chars after, lexeme = .token kind chars ∧ Scans lexeme after) :
    ScansAll (lexemes.intersperse gapLexeme) := by
  induction lexemes with
  | nil => trivial
  | cons lexeme rest ih =>
    obtain ⟨hfirst, hothers⟩ := List.forall_mem_cons.1 h
    obtain ⟨kind, chars, after, rfl, hscans⟩ := hfirst
    have hrest := ih hothers
    cases rest with
    | nil =>
      rw [List.intersperse_singleton]
      exact ⟨hscans.of_space nofun, trivial⟩
    | cons next rest =>
      rw [List.intersperse_cons_cons]
      refine ⟨hscans.of_space ?_, scansAll_gap hrest⟩
      rintro c ⟨⟩
      rfl

/-! ### The tokens of a spaced text -/

theorem charsOf_intersperse (lexemes : List Lexeme) :
    charsOf (lexemes.intersperse gapLexeme) = [' '].intercalate (lexemes.map Lexeme.chars) := by
  induction lexemes with
  | nil => rfl
  | cons lexeme rest ih =>
    cases rest with
    | nil => simp [List.intercalate]
    | cons next rest =>
      rw [List.intersperse_cons_cons, charsOf_cons, charsOf_cons, ih]
      simp [List.intercalate, gapLexeme, Lexeme.chars]

theorem filterMap_spelling_intersperse (lexemes : List Lexeme) :
    (lexemes.intersperse gapLexeme).filterMap Lexeme.spelling? =
      lexemes.filterMap Lexeme.spelling? := by
  induction lexemes with
  | nil => rfl
  | cons lexeme rest ih =>
    cases rest with
    | nil => rfl
    | cons next rest =>
      rw [List.intersperse_cons_cons, List.filterMap_cons, List.filterMap_cons, ih]
      rfl

/-- The lexeme of a token. -/
def Token.lexeme (token : Token) : Lexeme := .token token.kind token.text.toList

theorem spelling?_lexeme (token : Token) : token.lexeme.spelling? = some token.spelling := by
  rw [Token.lexeme, Lexeme.spelling?, String.ofList_toList, Token.spelling]

/-- Tokens that tile a text are those that are not the end of file, and this one. -/
theorem Tiles.map_spelling {first : Bool} {position : Nat} {chars : List Char} {tokens : List Token}
    (h : Tiles first position chars tokens) :
    tokens.map Token.spelling =
      (tokens.filter fun token => token.kind != .eof).map Token.spelling ++ [(TokenKind.eof, "")] := by
  induction h with
  | eof _ _ hkind htext => simp [Token.spelling, hkind, htext]
  | token _ _ hkind _ _ _ ih => simp [hkind, ih]

theorem map_spelling_tokens {text : String} {result : List Token} (h : tokens text = .ok result) :
    result.map Token.spelling =
      (result.filter fun token => token.kind != .eof).map Token.spelling ++ [(TokenKind.eof, "")] := by
  by_cases hmark : text.toList.head? = some byteOrderMark
  · obtain ⟨body, hbody⟩ := List.head?_eq_some_iff.1 hmark
    exact ((tiles_tokens h).2 body hbody).map_spelling
  · exact ((tiles_tokens h).1 hmark).map_spelling

theorem toList_spaced (result : List Token) : (spaced result).toList =
    charsOf (((result.filter fun token => token.kind != .eof).map Token.lexeme).intersperse
      gapLexeme) := by
  rw [charsOf_intersperse, spaced, String.toList_intercalate, List.map_map, List.map_map]
  rfl

/-- The texts of the tokens of a text, joined by single spaces, are read as the same tokens. -/
theorem tokens_spaced {text : String} {result : List Token} (h : tokens text = .ok result) :
    ∃ result', tokens (spaced result) = .ok result' ∧
      result'.map Token.spelling = result.map Token.spelling := by
  let lexemes := (result.filter fun token => token.kind != .eof).map Token.lexeme
  have hscans : ScansAll (lexemes.intersperse gapLexeme) := by
    apply scansAll_intersperse
    intro lexeme hmem
    obtain ⟨token, htoken, rfl⟩ := List.mem_map.1 hmem
    obtain ⟨hresult, hkind⟩ := List.mem_filter.1 htoken
    have hsome : IsToken token.kind token.text := ⟨text, result, h, token, hresult, rfl, rfl⟩
    obtain ⟨after, hafter⟩ := hsome.exists_scans (by simpa using hkind)
    exact ⟨token.kind, token.text.toList, after, rfl, hafter⟩
  have hspelling : lexemes.filterMap Lexeme.spelling? =
      (result.filter fun token => token.kind != .eof).map Token.spelling := by
    rw [List.filterMap_map, ← List.filterMap_eq_map]
    congr 1
    funext token
    exact spelling?_lexeme token
  refine ⟨Token.ofLexemes (lexemes.intersperse gapLexeme), ?_, ?_⟩
  · have htokens := hscans.tokens_eq
    rwa [← toList_spaced, String.ofList_toList] at htokens
  · rw [map_spelling_ofLexemes, filterMap_spelling_intersperse, hspelling, map_spelling_tokens h]

/-- A text in which tokens touch: a number in front of a point, signs that could grow together, an empty literal, a text block and a comment. -/
def touchingText : String :=
  "x=1.e-.5..a+++b;/* c */f(\"\",0x1p+3f,\"\"\"\n a \\\"\"\" \"\"\");List<List<X>>z"

/-- Spacing out tokens that touch gives the same tokens. -/
theorem tokens_spaced_touchingText : ∃ result result', tokens touchingText = .ok result ∧
    result.length = 32 ∧ tokens (spaced result) = .ok result' ∧
    result'.map Token.spelling = result.map Token.spelling := by
  have hread : (tokens touchingText).toOption.map List.length = some 32 := by decide +kernel
  cases hresult : tokens touchingText with
  | error error =>
    rw [hresult] at hread
    cases hread
  | ok result =>
    rw [hresult] at hread
    obtain ⟨result', hspaced, hspelling⟩ := tokens_spaced hresult
    exact ⟨result, result', rfl, Option.some.inj hread, hspaced, hspelling⟩

end AdviceMigration.Source
