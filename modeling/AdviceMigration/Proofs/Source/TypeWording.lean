import AdviceMigration.Proofs.Source.Fitting

/-!
# The lexemes of a type

A type is written as a row of lexemes: words, dots, brackets, and the signs around type arguments. The closing signs of nested arguments touch each other, yet each of them is scanned alone. What a word is followed by, and what the signs that can grow are followed by, is told from the first lexeme of the next part.
-/

namespace AdviceMigration.Source

open AdviceMigration.Text

/-! ### The lexemes of a type -/

mutual
/-- The lexemes of a type. -/
def TypeRef.lexemes : TypeRef → List Lexeme
  | .void => [wordLexeme "void"]
  | .primitive type => [wordLexeme type.word]
  | .named segments => TypeSegment.listLexemes segments
  | .array element => element.lexemes ++ [Punct.lBracket.lexeme, Punct.rBracket.lexeme]

/-- The lexemes of segments with dots between them. -/
def TypeSegment.listLexemes : List TypeSegment → List Lexeme
  | [] => []
  | [segment] => segment.lexemes
  | segment :: rest => segment.lexemes ++ Punct.dot.lexeme :: TypeSegment.listLexemes rest

/-- The lexemes of a segment. -/
def TypeSegment.lexemes : TypeSegment → List Lexeme
  | .plain name => [wordLexeme name]
  | .generic name args =>
    wordLexeme name :: Punct.less.lexeme :: (TypeArg.listLexemes args ++ [Punct.greater.lexeme])

/-- The lexemes of type arguments with commas between them. -/
def TypeArg.listLexemes : List TypeArg → List Lexeme
  | [] => []
  | [arg] => arg.lexemes
  | arg :: rest => arg.lexemes ++ Punct.comma.lexeme :: gapLexeme :: TypeArg.listLexemes rest

/-- The lexemes of a type argument. -/
def TypeArg.lexemes : TypeArg → List Lexeme
  | .type type => type.lexemes
  | .wildcard => [Punct.question.lexeme]
  | .wildcardExtends bound =>
    Punct.question.lexeme :: gapLexeme :: wordLexeme "extends" :: gapLexeme :: bound.lexemes
  | .wildcardSuper bound =>
    Punct.question.lexeme :: gapLexeme :: wordLexeme "super" :: gapLexeme :: bound.lexemes
end

mutual
/-- Whether a type is one of the types that variables can have, with identifiers for the names in it. -/
def TypeRef.Written : TypeRef → Prop
  | .void => False
  | .primitive _ => True
  | .named segments => segments ≠ [] ∧ TypeSegment.AllWritten segments
  | .array element => element.Written

/-- Whether segments are named by identifiers. -/
def TypeSegment.AllWritten : List TypeSegment → Prop
  | [] => True
  | segment :: rest => segment.Written ∧ TypeSegment.AllWritten rest

/-- Whether a segment is named by an identifier and has written types for arguments. -/
def TypeSegment.Written : TypeSegment → Prop
  | .plain name => IsToken .ident name
  | .generic name args => IsToken .ident name ∧ TypeArg.AllWritten args

/-- Whether type arguments are written types, wildcards, or wildcards with written types for bounds. -/
def TypeArg.AllWritten : List TypeArg → Prop
  | [] => True
  | arg :: rest => arg.Written ∧ TypeArg.AllWritten rest

/-- Whether a type argument is a written type, a wildcard, or a wildcard with a written type for its bound. -/
def TypeArg.Written : TypeArg → Prop
  | .type type => type.Written
  | .wildcard => True
  | .wildcardExtends bound => bound.Written
  | .wildcardSuper bound => bound.Written
end

mutual
theorem TypeRef.charsOf_lexemes : (type : TypeRef) → charsOf type.lexemes = type.text.toList
  | .void => rfl
  | .primitive type => by
    rw [TypeRef.lexemes, charsOf_cons, charsOf_nil, List.append_nil]
    rfl
  | .named segments => TypeSegment.charsOf_listLexemes segments
  | .array element => by
    rw [TypeRef.lexemes, charsOf_append, element.charsOf_lexemes, TypeRef.text, String.toList_append]
    rfl

theorem TypeSegment.charsOf_listLexemes : (segments : List TypeSegment) →
    charsOf (TypeSegment.listLexemes segments) = (TypeSegment.joined segments).toList
  | [] => rfl
  | [segment] => segment.charsOf_lexemes
  | segment :: next :: rest => by
    rw [TypeSegment.listLexemes, TypeSegment.joined, charsOf_append, charsOf_cons,
      segment.charsOf_lexemes, TypeSegment.charsOf_listLexemes (next :: rest), String.toList_append,
      String.toList_append, List.append_assoc]
    · rfl
    · exact nofun
    · exact nofun

theorem TypeSegment.charsOf_lexemes : (segment : TypeSegment) →
    charsOf segment.lexemes = segment.text.toList
  | .plain name => by
    rw [TypeSegment.lexemes, charsOf_cons, charsOf_nil, List.append_nil]
    rfl
  | .generic name args => by
    simp [TypeSegment.lexemes, TypeSegment.text, charsOf_cons, charsOf_append,
      TypeArg.charsOf_listLexemes args, Punct.text]

theorem TypeArg.charsOf_listLexemes : (args : List TypeArg) →
    charsOf (TypeArg.listLexemes args) = (TypeArg.joined args).toList
  | [] => rfl
  | [arg] => arg.charsOf_lexemes
  | arg :: next :: rest => by
    rw [TypeArg.listLexemes, TypeArg.joined, charsOf_append, charsOf_cons, charsOf_cons,
      arg.charsOf_lexemes, TypeArg.charsOf_listLexemes (next :: rest), String.toList_append,
      String.toList_append, List.append_assoc]
    · rfl
    · exact nofun
    · exact nofun

theorem TypeArg.charsOf_lexemes : (arg : TypeArg) → charsOf arg.lexemes = arg.text.toList
  | .type type => type.charsOf_lexemes
  | .wildcard => rfl
  | .wildcardExtends bound => by
    simp [TypeArg.lexemes, TypeArg.text, charsOf_cons, bound.charsOf_lexemes, Punct.text]
  | .wildcardSuper bound => by
    simp [TypeArg.lexemes, TypeArg.text, charsOf_cons, bound.charsOf_lexemes, Punct.text]
end

/-! ### Scanning -/

theorem TokenKind.ofWord_facts (word : String) :
    (∀ punct, TokenKind.ofWord word ≠ .punct punct) ∧ (TokenKind.ofWord word).isNumber = false := by
  unfold TokenKind.ofWord
  split_ifs
  · refine ⟨?_, rfl⟩
    rintro _ ⟨⟩
  · refine ⟨?_, rfl⟩
    rintro _ ⟨⟩
  · split
    · refine ⟨?_, rfl⟩
      rintro _ ⟨⟩
    · refine ⟨?_, rfl⟩
      rintro _ ⟨⟩

/-- What can stand right behind a word in a type. -/
def wordEnds : List Char := ['<', '>', '.', ',', '[', ' ']

variable {rest : List Lexeme}

theorem scansAll_word {word : String} (hword : ∃ after, Scans (wordLexeme word) after)
    (hhead : ∀ c ∈ (charsOf rest).head?, c ∈ wordEnds) (hrest : ScansAll rest) :
    ScansAll (wordLexeme word :: rest) := by
  obtain ⟨after, hscans⟩ := hword
  obtain ⟨hpunct, hnumber⟩ := TokenKind.ofWord_facts word
  refine ⟨hscans.transfer hpunct (fun c hc => ?_) (fun hquote => ?_) fun h => ?_, hrest⟩
  · exact eq_false_of_all (by decide) (hhead c hc)
  · exact absurd (hhead _ hquote) (by decide)
  · rw [hnumber] at h
    cases h

theorem scansAll_punct {punct : Punct} (h : ∀ c ∈ (charsOf rest).head?, punct.goesOn c = false)
    (hrest : ScansAll rest) : ScansAll (punct.lexeme :: rest) := ⟨Punct.scans h, hrest⟩

theorem scansAll_gap (hrest : ScansAll rest) : ScansAll (gapLexeme :: rest) :=
  ⟨⟨' ', [], rfl, rfl⟩, hrest⟩

theorem scans_ident {name : String} (h : IsToken .ident name) :
    ∃ after, Scans (wordLexeme name) after := by
  rw [wordLexeme_eq_of_ident h]
  exact h.exists_scans (by rintro ⟨⟩)

theorem scans_primitive (type : PrimitiveType) : ∃ after, Scans (wordLexeme type.word) after := by
  refine ⟨[], ?_⟩
  cases type <;> exact ⟨_, _, rfl, rfl⟩

/-- Whether a word can be the first one of a type. -/
def StartsType (word : String) : Prop :=
  IsToken .ident word ∨ ∃ primitive : PrimitiveType, word = primitive.word

theorem StartsType.head {word : String} (h : StartsType word) :
    ∃ c chars, word.toList = c :: chars ∧ isIdentStart c = true := by
  rcases h with hident | ⟨primitive, rfl⟩
  · exact IsSelector.head (.inl hident)
  · cases primitive <;> exact ⟨_, _, rfl, rfl⟩

/-- The first word of a type. -/
theorem TypeRef.Written.exists_head : {type : TypeRef} → type.Written →
    ∃ word more, type.lexemes = wordLexeme word :: more ∧ StartsType word
  | .primitive type, _ => ⟨type.word, [], rfl, .inr ⟨type, rfl⟩⟩
  | .named (.plain name :: []), h => ⟨name, [], rfl, .inl h.2.1⟩
  | .named (.plain name :: _ :: _), h => ⟨name, _, rfl, .inl h.2.1⟩
  | .named (.generic name _ :: []), h => ⟨name, _, rfl, .inl h.2.1.1⟩
  | .named (.generic name _ :: _ :: _), h => ⟨name, _, rfl, .inl h.2.1.1⟩
  | .named [], h => absurd rfl h.1
  | .array element, h => by
    obtain ⟨word, more, hmore, hword⟩ := @TypeRef.Written.exists_head element h
    exact ⟨word, _, by rw [TypeRef.lexemes, hmore, List.cons_append], hword⟩

/-- The first lexeme of a type argument. -/
theorem TypeArg.Written.exists_head {arg : TypeArg} (h : arg.Written) :
    ∃ lexeme more, arg.lexemes = lexeme :: more ∧
      (lexeme = Punct.question.lexeme ∨ ∃ word, lexeme = wordLexeme word ∧ StartsType word) := by
  cases arg with
  | type type =>
    obtain ⟨word, more, hmore, hword⟩ := TypeRef.Written.exists_head h
    exact ⟨_, more, hmore, .inr ⟨word, rfl, hword⟩⟩
  | wildcard => exact ⟨_, _, rfl, .inl rfl⟩
  | wildcardExtends => exact ⟨_, _, rfl, .inl rfl⟩
  | wildcardSuper => exact ⟨_, _, rfl, .inl rfl⟩

theorem TypeArg.exists_listLexemes_eq (arg : TypeArg) (args : List TypeArg) :
    ∃ more, TypeArg.listLexemes (arg :: args) = arg.lexemes ++ more := by
  cases args with
  | nil => exact ⟨[], (List.append_nil _).symm⟩
  | cons next args =>
    rw [TypeArg.listLexemes]
    · exact ⟨_, rfl⟩
    · exact List.cons_ne_nil _ _

theorem TypeSegment.Written.exists_head {segment : TypeSegment} (h : segment.Written) :
    ∃ name more, segment.lexemes = wordLexeme name :: more ∧ IsToken .ident name := by
  cases segment with
  | plain name => exact ⟨name, [], rfl, h⟩
  | generic name args => exact ⟨name, _, rfl, h.1⟩

theorem TypeSegment.exists_listLexemes_eq (segment : TypeSegment) (segments : List TypeSegment) :
    ∃ more, TypeSegment.listLexemes (segment :: segments) = segment.lexemes ++ more := by
  cases segments with
  | nil => exact ⟨[], (List.append_nil _).symm⟩
  | cons next segments =>
    rw [TypeSegment.listLexemes]
    · exact ⟨_, rfl⟩
    · exact List.cons_ne_nil _ _

theorem charsOf_wordLexeme_head {word : String} (h : StartsType word) (rest : List Lexeme) :
    ∀ c ∈ (charsOf (wordLexeme word :: rest)).head?, isIdentStart c = true := by
  obtain ⟨first, chars, hchars, hstart⟩ := h.head
  intro c hc
  rw [charsOf_cons, chars_wordLexeme, hchars] at hc
  cases hc
  exact hstart

/-- Neither an equals sign nor another opening sign stands behind the sign that opens arguments. -/
theorem goesOn_less {args : List TypeArg} (h : TypeArg.AllWritten args) :
    ∀ c ∈ (charsOf (TypeArg.listLexemes args ++ Punct.greater.lexeme :: rest)).head?,
      Punct.less.goesOn c = false := by
  have hword {c : Char} (hstart : isIdentStart c = true) : Punct.less.goesOn c = false := by
    have hfree : c ∉ Punct.less.extensions := by
      intro hmem
      rw [eq_false_of_all (p := isIdentStart) (by decide) hmem] at hstart
      cases hstart
    simp [Punct.goesOn, hfree]
  cases args with
  | nil =>
    rintro c ⟨⟩
    decide
  | cons arg args =>
    obtain ⟨more, hmore⟩ := TypeArg.exists_listLexemes_eq arg args
    obtain ⟨lexeme, more', hmore', hlexeme⟩ := h.1.exists_head
    rw [hmore, hmore', List.append_assoc, List.cons_append]
    rcases hlexeme with rfl | ⟨word, rfl, hstarts⟩
    · rintro c ⟨⟩
      decide
    · exact fun c hc => hword (charsOf_wordLexeme_head hstarts _ c hc)

mutual
theorem TypeRef.scansAll : (type : TypeRef) → type.Written → (rest : List Lexeme) →
    (∀ c ∈ (charsOf rest).head?, c ∈ wordEnds) → ScansAll rest → ScansAll (type.lexemes ++ rest)
  | .primitive type, _, rest, hhead, hrest => scansAll_word (scans_primitive type) hhead hrest
  | .named segments, h, rest, hhead, hrest => TypeSegment.scansAll_list segments h.2 rest hhead hrest
  | .array element, h, rest, hhead, hrest => by
    rw [TypeRef.lexemes, List.append_assoc]
    refine element.scansAll h _ ?_ ?_
    · rintro c ⟨⟩
      decide
    · exact scansAll_punct (fun _ _ => rfl) (scansAll_punct (fun _ _ => rfl) hrest)

theorem TypeSegment.scansAll_list : (segments : List TypeSegment) → TypeSegment.AllWritten segments →
    (rest : List Lexeme) → (∀ c ∈ (charsOf rest).head?, c ∈ wordEnds) → ScansAll rest →
      ScansAll (TypeSegment.listLexemes segments ++ rest)
  | [], _, rest, _, hrest => hrest
  | [segment], h, rest, hhead, hrest => segment.scansAll h.1 rest hhead hrest
  | segment :: next :: segments, h, rest, hhead, hrest => by
    rw [TypeSegment.listLexemes, List.append_assoc, List.cons_append]
    · refine segment.scansAll h.1 _ ?_ ?_
      · rintro c ⟨⟩
        decide
      · refine scansAll_punct (fun c hc => ?_)
          (TypeSegment.scansAll_list (next :: segments) h.2 rest hhead hrest)
        obtain ⟨more, hmore⟩ := TypeSegment.exists_listLexemes_eq next segments
        obtain ⟨name, more', hmore', hname⟩ := h.2.1.exists_head
        rw [hmore, hmore', List.append_assoc, List.cons_append] at hc
        exact goesOn_dot (charsOf_wordLexeme_head (.inl hname) _ c hc)
    · exact List.cons_ne_nil _ _

theorem TypeSegment.scansAll : (segment : TypeSegment) → segment.Written → (rest : List Lexeme) →
    (∀ c ∈ (charsOf rest).head?, c ∈ wordEnds) → ScansAll rest → ScansAll (segment.lexemes ++ rest)
  | .plain name, h, rest, hhead, hrest => scansAll_word (scans_ident h) hhead hrest
  | .generic name args, h, rest, hhead, hrest => by
    rw [TypeSegment.lexemes, List.cons_append, List.cons_append, List.append_assoc]
    refine scansAll_word (scans_ident h.1) ?_ (scansAll_punct (goesOn_less h.2) ?_)
    · rintro c ⟨⟩
      decide
    · refine TypeArg.scansAll_list args h.2 _ ?_ (scansAll_punct (fun _ _ => rfl) hrest)
      rintro c ⟨⟩
      decide

theorem TypeArg.scansAll_list : (args : List TypeArg) → TypeArg.AllWritten args →
    (rest : List Lexeme) → (∀ c ∈ (charsOf rest).head?, c ∈ wordEnds) → ScansAll rest →
      ScansAll (TypeArg.listLexemes args ++ rest)
  | [], _, rest, _, hrest => hrest
  | [arg], h, rest, hhead, hrest => arg.scansAll h.1 rest hhead hrest
  | arg :: next :: args, h, rest, hhead, hrest => by
    rw [TypeArg.listLexemes, List.append_assoc, List.cons_append, List.cons_append]
    · refine arg.scansAll h.1 _ ?_ ?_
      · rintro c ⟨⟩
        decide
      · exact scansAll_punct (fun _ _ => rfl)
          (scansAll_gap (TypeArg.scansAll_list (next :: args) h.2 rest hhead hrest))
    · exact List.cons_ne_nil _ _

theorem TypeArg.scansAll : (arg : TypeArg) → arg.Written → (rest : List Lexeme) →
    (∀ c ∈ (charsOf rest).head?, c ∈ wordEnds) → ScansAll rest → ScansAll (arg.lexemes ++ rest)
  | .type type, h, rest, hhead, hrest => type.scansAll h rest hhead hrest
  | .wildcard, _, rest, _, hrest => scansAll_punct (fun _ _ => rfl) hrest
  | .wildcardExtends bound, h, rest, hhead, hrest => by
    have hword : ∃ after, Scans (wordLexeme "extends") after := ⟨[], 'e', _, rfl, rfl⟩
    refine scansAll_punct (fun _ _ => rfl) (scansAll_gap (scansAll_word hword ?_
      (scansAll_gap (bound.scansAll h rest hhead hrest))))
    rintro c ⟨⟩
    decide
  | .wildcardSuper bound, h, rest, hhead, hrest => by
    have hword : ∃ after, Scans (wordLexeme "super") after := ⟨[], 's', _, rfl, rfl⟩
    refine scansAll_punct (fun _ _ => rfl) (scansAll_gap (scansAll_word hword ?_
      (scansAll_gap (bound.scansAll h rest hhead hrest))))
    rintro c ⟨⟩
    decide
end

end AdviceMigration.Source
