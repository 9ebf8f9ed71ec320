import AdviceMigration.Proofs.Source.Wording

/-!
# Printed expressions are scanned as they were meant

The lexemes of an expression stand one behind the other without a blank in many places. Each of them is what is scanned there all the same: a sign does not grow together with what follows it, and a word or a number ends where it should. This holds in front of everything that can follow an expression of its strength, `Tail`.

Nothing in such a text is taken for a cast or a lambda expression either, which `Lexeme.Fits` says of each lexeme along with the above: no parenthesis is closed in front of an operand.
-/

namespace AdviceMigration.Source

open AdviceMigration.Text

/-! ### What follows an expression -/

/-- Strength of the weakest expressions. -/
def weakestStrength : Nat := 1

/-- What can follow a printed expression of a given strength: an operator that binds no tighter, or the end of what it stands in. -/
inductive Tail : (strength : Nat) → List Lexeme → Prop
  | ended {strength : Nat} : Tail strength []
  | closed {strength : Nat} {punct : Punct} {rest : List Lexeme}
      (hpunct : punct ∈ [.rParen, .rBracket, .comma]) : Tail strength (punct.lexeme :: rest)
  | colon {strength : Nat} {rest : List Lexeme} :
      Tail strength (gapLexeme :: Punct.colon.lexeme :: gapLexeme :: rest)
  | question {strength : Nat} {rest : List Lexeme} (hstrength : conditionalStrength ≤ strength) :
      Tail strength (gapLexeme :: Punct.question.lexeme :: gapLexeme :: rest)
  | operator {strength : Nat} {op : BinaryOp} {rest : List Lexeme}
      (hstrength : binaryBase + op.precedence ≤ strength) : Tail strength (op.lexemes ++ rest)
  | after {strength : Nat} {punct : Punct} {rest : List Lexeme} (hstrength : postfixStrength ≤ strength)
      (hpunct : punct ∈ [.dot, .lBracket, .plusPlus, .minusMinus]) :
      Tail strength (punct.lexeme :: rest)

/-- What follows an expression follows one that binds tighter. -/
theorem Tail.mono {strength strength' : Nat} {rest : List Lexeme} (h : Tail strength rest)
    (hle : strength ≤ strength') : Tail strength' rest := by
  cases h with
  | ended => exact .ended
  | closed hpunct => exact .closed hpunct
  | colon => exact .colon
  | question hstrength => exact .question (Nat.le_trans hstrength hle)
  | operator hstrength => exact .operator (Nat.le_trans hstrength hle)
  | after hstrength hpunct => exact .after (Nat.le_trans hstrength hle) hpunct

theorem BinaryOp.lexemes_eq_cons (op : BinaryOp) (rest : List Lexeme) :
    op.lexemes ++ rest = gapLexeme :: (op.puncts.map Punct.lexeme ++ gapLexeme :: rest) := by
  simp [BinaryOp.lexemes]

theorem Tail.head_mem {strength : Nat} {rest : List Lexeme} (h : Tail strength rest) :
    ∀ c ∈ (charsOf rest).head?, c ∈ '.' :: '+' :: '-' :: closers := by
  cases h with
  | ended => exact nofun
  | closed hpunct =>
    simp only [List.mem_cons, List.not_mem_nil, or_false] at hpunct
    rcases hpunct with rfl | rfl | rfl <;> rintro c ⟨⟩ <;> decide
  | colon => rintro c ⟨⟩; decide
  | question => rintro c ⟨⟩; decide
  | operator => rw [BinaryOp.lexemes_eq_cons]; rintro c ⟨⟩; decide
  | after _ hpunct =>
    simp only [List.mem_cons, List.not_mem_nil, or_false] at hpunct
    rcases hpunct with rfl | rfl | rfl | rfl <;> rintro c ⟨⟩ <;> decide

/-- Behind an operand that is no receiver, a number ends. -/
theorem Tail.endsNumber {strength : Nat} {rest : List Lexeme} (h : Tail strength rest)
    (hstrength : strength < postfixStrength) (isOpen : Bool) : EndsNumber isOpen (charsOf rest) := by
  cases h with
  | ended => exact nofun
  | closed hpunct =>
    simp only [List.mem_cons, List.not_mem_nil, or_false] at hpunct
    rcases hpunct with rfl | rfl | rfl <;> rintro c ⟨⟩ <;> exact .inl (by decide)
  | colon => rintro c ⟨⟩; exact .inl (by decide)
  | question => rintro c ⟨⟩; exact .inl (by decide)
  | operator => rw [BinaryOp.lexemes_eq_cons]; rintro c ⟨⟩; exact .inl (by decide)
  | after hle => exact absurd hle (Nat.not_le_of_lt hstrength)

/-- Whether a number is not taken further by what follows it. -/
def Expr.Clears (expr : Expr) (rest : List Lexeme) : Prop :=
  expr.isNumber = true → EndsNumber expr.endsOpen (charsOf rest)

/-! ### First tokens -/

/-- The kind of the first token of lexemes, and the end of the text behind the last one. -/
def nextKind : List Lexeme → TokenKind
  | [] => .eof
  | .token kind _ :: _ => kind
  | _ :: rest => nextKind rest

/-- The signs that start an operator with two operands. -/
def BinaryOp.firstPuncts : List Punct :=
  [.pipePipe, .ampAmp, .pipe, .caret, .amp, .eqEq, .bangEq, .less, .greater, .lessEq, .leftShift, .plus,
    .minus, .star, .slash, .percent]

/-- Whether a token can follow an expression of a given strength. -/
inductive TailKind (strength : Nat) : TokenKind → Prop
  | ended : TailKind strength .eof
  | closed {punct : Punct} (h : punct ∈ [.rParen, .rBracket, .comma, .colon]) :
      TailKind strength (.punct punct)
  | question (hstrength : conditionalStrength ≤ strength) : TailKind strength (.punct .question)
  | operator {punct : Punct} (h : punct ∈ BinaryOp.firstPuncts) (hstrength : binaryBase < strength) :
      TailKind strength (.punct punct)
  | after {punct : Punct} (hstrength : postfixStrength ≤ strength)
      (h : punct ∈ [.dot, .lBracket, .plusPlus, .minusMinus]) : TailKind strength (.punct punct)

theorem Tail.kind {strength : Nat} {rest : List Lexeme} (h : Tail strength rest) : TailKind strength (nextKind rest) := by
  cases h with
  | ended => exact .ended
  | closed hpunct =>
    simp only [List.mem_cons, List.not_mem_nil, or_false] at hpunct
    rcases hpunct with rfl | rfl | rfl <;> exact .closed (by decide)
  | colon => exact .closed (by decide)
  | question hstrength => exact .question hstrength
  | @operator op rest hstrength =>
    have hweak : binaryBase < strength := Nat.lt_of_lt_of_le (by cases op <;> decide) hstrength
    cases op <;> exact .operator (by decide) hweak
  | after hstrength hpunct => exact .after hstrength hpunct

theorem TailKind.ne_lParen {strength : Nat} {kind : TokenKind} (h : TailKind strength kind) :
    kind ≠ .punct .lParen := by
  cases h with
  | ended | question => exact nofun
  | closed hmem | operator hmem | after _ hmem =>
    rintro ⟨⟩
    exact absurd hmem (by decide)

theorem TailKind.ne_question {kind : TokenKind} (h : TailKind weakestStrength kind) :
    kind ≠ .punct .question := by
  cases h with
  | ended => exact nofun
  | question hstrength => exact absurd hstrength (by decide)
  | closed hmem | operator hmem | after _ hmem =>
    rintro ⟨⟩
    exact absurd hmem (by decide)

theorem TailKind.canStartOperand_eq_false {strength : Nat} {kind : TokenKind} (h : TailKind strength kind) :
    Grammar.canStartOperand kind = false := by
  cases h with
  | ended | question => rfl
  | closed hmem =>
    exact (by decide : ∀ punct ∈ [Punct.rParen, .rBracket, .comma, .colon],
      Grammar.canStartOperand (.punct punct) = false) _ hmem
  | operator hmem =>
    exact (by decide : ∀ punct ∈ BinaryOp.firstPuncts, Grammar.canStartOperand (.punct punct) = false) _ hmem
  | after _ hmem =>
    exact (by decide : ∀ punct ∈ [Punct.dot, .lBracket, .plusPlus, .minusMinus],
      Grammar.canStartOperand (.punct punct) = false) _ hmem

/-! ### Lexemes that are scanned one by one -/

/-- Whether a lexeme is what is scanned in front of others and starts nothing but an operand or an operator there: it is no arrow and no primitive type, and no operand stands behind a parenthesis that is closed. -/
def Lexeme.Fits (rest : List Lexeme) (lexeme : Lexeme) : Prop :=
  Scans lexeme (charsOf rest) ∧
    match lexeme with
    | .token kind _ => kind ≠ .punct .arrow ∧ kind.isPrimitive = false ∧
        (kind = .punct .rParen → Grammar.canStartOperand (nextKind rest) = false)
    | _ => True

/-- Whether each lexeme fits in front of those after it. -/
def FitsAll : List Lexeme → Prop
  | [] => True
  | lexeme :: rest => lexeme.Fits rest ∧ FitsAll rest

theorem FitsAll.scansAll {lexemes : List Lexeme} (h : FitsAll lexemes) : ScansAll lexemes := by
  induction lexemes with
  | nil => trivial
  | cons lexeme rest ih => exact ⟨h.1.1, ih h.2⟩

/-- Whether the lexemes of an expression fit in front of those that can follow it. -/
def Expr.FitsIn (expr : Expr) : Prop :=
  ∀ ⦃rest : List Lexeme⦄, Tail expr.precedence rest → expr.Clears rest → FitsAll rest →
    FitsAll (expr.lexemes ++ rest)

theorem fitsAll_gap {rest : List Lexeme} (h : FitsAll rest) : FitsAll (gapLexeme :: rest) :=
  ⟨⟨⟨' ', [], rfl, rfl⟩, trivial⟩, h⟩

theorem fitsAll_punct {punct : Punct} {rest : List Lexeme} (hpunct : punct ∉ [.arrow, .rParen])
    (h : ∀ c ∈ (charsOf rest).head?, punct.goesOn c = false) (hrest : FitsAll rest) :
    FitsAll (punct.lexeme :: rest) := by
  refine ⟨⟨Punct.scans h, ?_, rfl, ?_⟩, hrest⟩
  · rintro ⟨⟩
    exact hpunct (.head _)
  · rintro ⟨⟩
    exact absurd (.tail _ (.head _)) hpunct

/-- Nothing goes on with these signs. -/
theorem goesOn_closed {punct : Punct} (h : punct ∈ [.lParen, .rParen, .lBracket, .rBracket, .comma,
    .plusPlus, .minusMinus]) (c : Char) : punct.goesOn c = false := by
  simp only [List.mem_cons, List.not_mem_nil, or_false] at h
  rcases h with rfl | rfl | rfl | rfl | rfl | rfl | rfl <;> rfl

theorem fitsAll_closed {punct : Punct} {rest : List Lexeme}
    (h : punct ∈ [.lParen, .lBracket, .rBracket, .comma, .plusPlus, .minusMinus]) (hrest : FitsAll rest) :
    FitsAll (punct.lexeme :: rest) := by
  have hall : punct ∈ [.lParen, .rParen, .lBracket, .rBracket, .comma, .plusPlus, .minusMinus] := by
    revert punct
    decide
  have hpunct : punct ∉ [.arrow, .rParen] := by
    revert punct
    decide
  exact fitsAll_punct hpunct (fun c _ => goesOn_closed hall c) hrest

/-- A parenthesis is closed in front of what can follow an expression. -/
theorem fitsAll_rParen {strength : Nat} {rest : List Lexeme} (htail : Tail strength rest)
    (hrest : FitsAll rest) : FitsAll (Punct.rParen.lexeme :: rest) := by
  have hstop := htail.kind.canStartOperand_eq_false
  exact ⟨⟨Punct.scans fun c _ => goesOn_closed (by decide) c, nofun, rfl, fun _ => hstop⟩, hrest⟩

/-- In front of a blank every sign ends. -/
theorem goesOn_blank (punct : Punct) : punct.goesOn ' ' = false := by cases punct <;> rfl

/-- A sign with a blank behind it. -/
theorem fitsAll_spaced {punct : Punct} {rest : List Lexeme} (hpunct : punct ∉ [.arrow, .rParen])
    (hrest : FitsAll rest) : FitsAll (punct.lexeme :: gapLexeme :: rest) := by
  refine fitsAll_punct hpunct ?_ (fitsAll_gap hrest)
  rintro c ⟨⟩
  exact goesOn_blank punct

theorem fitsAll_operator {op : BinaryOp} {rest : List Lexeme} (hrest : FitsAll rest) :
    FitsAll (op.lexemes ++ rest) := by
  rw [BinaryOp.lexemes_eq_cons]
  -- Only a greater-than sign has another sign right behind it, and takes none.
  have hgreater {rest : List Lexeme} (hrest : FitsAll rest) : FitsAll (Punct.greater.lexeme :: rest) :=
    fitsAll_punct (by decide) (fun _ _ => rfl) hrest
  cases op with
  | ge => exact fitsAll_gap (hgreater (fitsAll_spaced (by decide) hrest))
  | shr => exact fitsAll_gap (hgreater (fitsAll_spaced (by decide) hrest))
  | ushr => exact fitsAll_gap (hgreater (hgreater (fitsAll_spaced (by decide) hrest)))
  | _ => exact fitsAll_gap (fitsAll_spaced (by decide) hrest)

section Wrapped

variable {expr : Expr} {strength : Nat} {rest : List Lexeme}

theorem Expr.clears_of_closed {punct : Punct} (hpunct : punct ∈ [.rParen, .rBracket, .comma, .lBracket]) :
    expr.Clears (punct.lexeme :: rest) := by
  simp only [List.mem_cons, List.not_mem_nil, or_false] at hpunct
  rintro - c hc
  rcases hpunct with rfl | rfl | rfl | rfl <;> cases hc <;> exact .inl (by decide)

/-- In a place that demands a strength an expression fits with the parentheses it gets there. -/
theorem Expr.FitsIn.wrapped (h : expr.FitsIn) (htail : Tail strength rest) (hclears : expr.Clears rest)
    (hrest : FitsAll rest) : FitsAll (wrapped strength expr expr.lexemes ++ rest) := by
  unfold Source.wrapped
  split
  · simp only [List.cons_append, List.append_assoc, List.nil_append]
    exact fitsAll_closed (by decide)
      (h (.closed (.head _)) (expr.clears_of_closed (by decide)) (fitsAll_rParen htail hrest))
  · exact h (htail.mono (Nat.le_of_not_lt ‹_›)) hclears hrest

end Wrapped

/-! ### The first character of an operand -/

/-- Whether a character can start an operand that is no prefix operator. -/
def startsOperand (c : Char) : Bool :=
  isIdentStart c || c.isDigit || ['.', '"', '\x27', '('].contains c

theorem startsOperand_of_scans {kind : TokenKind} {chars after : List Char}
    (h : Scans (.token kind chars) after) (hkind : ∀ punct, kind ≠ .punct punct) :
    ∀ c ∈ chars.head?, startsOperand c = true := by
  obtain ⟨c, rest, rfl, hscan⟩ := h
  obtain ⟨hblank, htoken⟩ := scanToken_of_scan hscan
  rintro c ⟨⟩
  unfold scanToken at htoken
  split_ifs at htoken with hstart hdigit hquote hapostrophe
  · simp [startsOperand, hstart]
  · rcases Bool.or_eq_true _ _ ▸ hdigit with hc | hpoint
    · simp [startsOperand, hc]
    · simp [startsOperand, beq_iff_eq.1 (Bool.and_eq_true _ _ ▸ hpoint).1]
  · simp [startsOperand, beq_iff_eq.1 hquote]
  · simp [startsOperand, beq_iff_eq.1 hapostrophe]
  · split at htoken
    · simp only [Except.ok.injEq, Lexeme.token.injEq] at htoken
      exact absurd htoken.1.symm (hkind _)
    · cases htoken

/-- A token that is scanned as an identifier is a word that is neither reserved nor a literal. -/
theorem ofWord_of_scans {chars after : List Char} (h : Scans (.token .ident chars) after) :
    TokenKind.ofWord (String.ofList chars) = .ident ∧ ∀ c ∈ chars.head?, isIdentStart c = true := by
  obtain ⟨c, rest, rfl, hscan⟩ := h
  obtain ⟨hblank, htoken⟩ := scanToken_of_scan hscan
  unfold scanToken at htoken
  split_ifs at htoken with hstart hdigit hquote hapostrophe
  · simp only [Except.ok.injEq, Lexeme.token.injEq] at htoken
    refine ⟨htoken.2 ▸ htoken.1, ?_⟩
    rintro c ⟨⟩
    exact hstart
  · simp at htoken
  · split at htoken <;> split at htoken <;> simp at htoken
  · split at htoken <;> simp at htoken
  · split at htoken <;> simp at htoken

/-- No lexeme but the byte order mark starts with one. -/
theorem head_ne_byteOrderMark {lexeme : Lexeme} {after : List Char} (h : Scans lexeme after) :
    lexeme.chars.head? ≠ some byteOrderMark := by
  obtain ⟨c, rest, hchars, hscan⟩ := h
  rw [hchars]
  rintro ⟨⟩
  have hstart : isIdentStart byteOrderMark = false := by decide +kernel
  have hstray : scanToken byteOrderMark (rest ++ after) = .error (.strayChar byteOrderMark) := by
    unfold scanToken
    rw [hstart]
    rfl
  rw [scan_eq_scanToken (by decide) (by decide), hstray] at hscan
  cases hscan

/-! ### Words -/

theorem IsToken.ofWord_eq {word : String} (h : IsToken .ident word) :
    TokenKind.ofWord word = .ident := by
  obtain ⟨after, hscans⟩ := h.exists_scans nofun
  have hword := (ofWord_of_scans hscans).1
  rwa [String.ofList_toList] at hword

theorem wordLexeme_eq_of_ident {word : String} (h : IsToken .ident word) :
    wordLexeme word = .token .ident word.toList := by
  rw [wordLexeme, h.ofWord_eq]

/-- Whether a word is an identifier or a reserved word that is an operand, and is scanned as such somewhere. -/
structure IsWord (word : String) : Prop where
  scans : ∃ after, Scans (wordLexeme word) after
  kind : TokenKind.ofWord word ∈ [.ident, .keyword .thisKw, .keyword .superKw]

theorem IsToken.isWord {word : String} (h : IsToken .ident word) : IsWord word := by
  refine ⟨?_, by rw [h.ofWord_eq]; exact .head _⟩
  rw [wordLexeme, h.ofWord_eq]
  exact h.exists_scans nofun

theorem isWord_this : IsWord "this" := ⟨⟨[], 't', _, rfl, rfl⟩, .tail _ (.head _)⟩

theorem IsSelector.isWord {word : String} (h : IsSelector word) : IsWord word := by
  rcases h with hident | rfl | rfl
  · exact hident.isWord
  · exact isWord_this
  · exact ⟨⟨[], 's', _, rfl, rfl⟩, .tail _ (.tail _ (.head _))⟩

variable {rest : List Lexeme}

theorem fitsAll_word {word : String} (hword : IsWord word)
    (hhead : ∀ c ∈ (charsOf rest).head?, c ∈ '(' :: '.' :: '+' :: '-' :: closers)
    (hrest : FitsAll rest) : FitsAll (wordLexeme word :: rest) := by
  obtain ⟨⟨after, hscans⟩, hkind⟩ := hword
  have hfacts : ∀ kind ∈ [TokenKind.ident, .keyword .thisKw, .keyword .superKw],
      (∀ punct, kind ≠ .punct punct) ∧ kind.isNumber = false ∧ kind.isPrimitive = false := by
    intro kind hmem
    simp only [List.mem_cons, List.not_mem_nil, or_false] at hmem
    rcases hmem with rfl | rfl | rfl <;> refine ⟨?_, rfl, rfl⟩ <;> rintro _ ⟨⟩
  obtain ⟨hpunct, hnumber, hprimitive⟩ := hfacts _ hkind
  refine ⟨⟨hscans.transfer hpunct (fun c hc => ?_) (fun hquote => ?_) fun h => ?_, hpunct _, hprimitive,
    fun hparen => absurd hparen (hpunct _)⟩, hrest⟩
  · exact eq_false_of_all (by decide) (hhead c hc)
  · exact absurd (hhead _ hquote) (by decide)
  · rw [hnumber] at h
    cases h

theorem IsSelector.head {word : String} (h : IsSelector word) :
    ∃ c chars, word.toList = c :: chars ∧ isIdentStart c = true := by
  rcases h with hident | rfl | rfl
  · obtain ⟨after, hscans⟩ := hident.exists_scans nofun
    have hstart := (ofWord_of_scans hscans).2
    obtain ⟨c, chars, hchars, -⟩ := hscans
    change word.toList = c :: chars at hchars
    rw [hchars] at hstart
    exact ⟨c, chars, hchars, hstart c rfl⟩
  · exact ⟨'t', _, rfl, rfl⟩
  · exact ⟨'s', _, rfl, rfl⟩

theorem isDigit_of_isIdentStart {c : Char} (h : isIdentStart c = true) : c.isDigit = false := by
  by_contra hdigit
  have hbounds : 48 ≤ c.toNat ∧ c.toNat ≤ 57 := by
    simpa [Char.isDigit, UInt32.le_iff_toNat_le] using hdigit
  have hdigits : ∀ n : Nat, 48 ≤ n → n ≤ 57 → isIdentStart (Char.ofNat n) = false := by
    decide
  rw [← Char.ofNat_toNat c, hdigits c.toNat hbounds.1 hbounds.2] at h
  cases h

/-- A dot in front of a word is neither part of a number nor of a longer sign. -/
theorem goesOn_dot {c : Char} (h : isIdentStart c = true) : Punct.dot.goesOn c = false := by
  have hpoint : c ≠ '.' := by
    rintro rfl
    cases h
  simp [Punct.goesOn, isDigit_of_isIdentStart h, show Punct.dot.extensions = ['.'] by decide, hpoint]

/-- A field or a method is selected by a word behind a dot. -/
theorem fitsAll_dot {word : String} (hword : IsSelector word) (hrest : FitsAll (wordLexeme word :: rest)) :
    FitsAll (Punct.dot.lexeme :: wordLexeme word :: rest) := by
  obtain ⟨c, chars, hchars, hstart⟩ := hword.head
  refine fitsAll_punct (by decide) (fun d hd => ?_) hrest
  rw [charsOf_cons, wordLexeme, Lexeme.chars, hchars] at hd
  cases hd
  exact goesOn_dot hstart

/-! ### Operands -/

/-- Whether a lexeme starts an operand that has no prefix operator. -/
inductive Lexeme.Leads : Lexeme → Prop
  | paren : Leads Punct.lParen.lexeme
  | word {word : String} (h : IsWord word) : Leads (wordLexeme word)
  | literal {value : Literal} (h : IsToken (.literal value.kind) value.text) : Leads value.lexeme

theorem Lexeme.Leads.startsOperand {lexeme : Lexeme} (h : lexeme.Leads) (rest : List Lexeme) :
    ∀ c ∈ (charsOf (lexeme :: rest)).head?, startsOperand c = true := by
  have htoken {kind : TokenKind} {chars : List Char} (hkind : ∀ punct, kind ≠ .punct punct)
      (h : ∃ after, Scans (.token kind chars) after) :
      ∀ c ∈ (charsOf (.token kind chars :: rest)).head?, Source.startsOperand c = true := by
    obtain ⟨after, hscans⟩ := h
    have hstart := startsOperand_of_scans hscans hkind
    obtain ⟨first, tail, hchars, -⟩ := hscans
    change chars = first :: tail at hchars
    subst hchars
    rintro c ⟨⟩
    exact hstart _ rfl
  cases h with
  | paren => rintro c ⟨⟩; decide
  | word h =>
    refine htoken (fun punct heq => ?_) h.scans
    have hkind := h.kind
    simp [heq] at hkind
  | literal h => exact htoken nofun (h.exists_scans nofun)

theorem Expr.Plain.exists_lead {expr : Expr} (h : expr.Plain)
    (hstrength : postfixStrength ≤ expr.precedence) :
    ∃ lexeme rest, expr.lexemes = lexeme :: rest ∧ lexeme.Leads := by
  have hatLeast {operand : Expr} {rest : List Lexeme}
      (ih : ∃ lexeme rest, (operand.atLeast postfixStrength).lexemes = lexeme :: rest ∧ lexeme.Leads) :
      ∃ lexeme rest', wrapped postfixStrength operand operand.lexemes ++ rest = lexeme :: rest' ∧
        lexeme.Leads := by
    obtain ⟨lexeme, more, hmore, hlead⟩ := ih
    rw [Expr.lexemes_atLeast] at hmore
    exact ⟨lexeme, more ++ rest, by rw [hmore, List.cons_append], hlead⟩
  refine Expr.Plain.postfix_induction
    (motive := fun expr => ∃ lexeme rest, expr.lexemes = lexeme :: rest ∧ lexeme.Leads) h hstrength
    ?name ?literal ?this ?paren ?field ?call ?callOn ?index ?unary
  case name => exact fun _ _ h => ⟨_, _, rfl, .word h.isWord⟩
  case literal => exact fun _ h _ => ⟨_, _, rfl, .literal h⟩
  case this => exact ⟨_, _, rfl, .word isWord_this⟩
  case paren => exact fun _ _ => ⟨_, _, rfl, .paren⟩
  case field => exact fun _ _ _ ih => hatLeast ih
  case call => exact fun _ _ h _ => ⟨_, _, rfl, .word h.isWord⟩
  case callOn =>
    intro _ _ _ _ _ ih
    simp only [Expr.lexemes, List.append_assoc]
    exact hatLeast ih
  case index =>
    intro _ _ _ ih
    rw [Expr.lexemes, List.append_assoc]
    exact hatLeast ih
  case unary =>
    intro op _ hbehind ih
    rw [Expr.lexemes, if_pos hbehind]
    exact hatLeast ih

/-- An operand without a prefix operator starts with a character that goes on with no sign. -/
theorem Expr.Plain.head {expr : Expr} (h : expr.Plain) (hstrength : postfixStrength ≤ expr.precedence)
    (rest : List Lexeme) : ∀ c ∈ (charsOf (expr.lexemes ++ rest)).head?, startsOperand c = true := by
  obtain ⟨lexeme, more, hmore, hlead⟩ := h.exists_lead hstrength
  rw [hmore, List.cons_append]
  exact hlead.startsOperand _

/-- The characters that make a longer sign of a prefix operator. -/
theorem UnaryOp.goesOn_of_startsOperand (op : UnaryOp) {c : Char} (h : startsOperand c = true) :
    op.punct.goesOn c = false := by
  have hmem : c ∉ ['+', '-', '=', '>'] := fun hmem =>
    absurd h (Bool.eq_false_iff.1 (eq_false_of_all (by decide) hmem))
  have hextensions : op.punct.extensions ⊆ ['+', '-', '=', '>'] := by cases op <;> decide
  have hnot : op.punct.extensions.contains c = false := by
    rw [List.contains_eq_mem, decide_eq_false_iff_not]
    exact fun h => hmem (hextensions h)
  rw [Punct.goesOn, hnot]
  cases op <;> rfl

theorem UnaryOp.goesOn_of_needsBlankAfter {op inner : UnaryOp} {operand : Expr}
    (hinner : inner.isPostfix = false) (h : needsBlankAfter op (.unary inner operand) = false) :
    ∀ c ∈ inner.punct.text.toList.head?, op.punct.goesOn c = false := by
  cases op <;> cases inner <;> first | (cases hinner; done) | (cases h; done) | (rintro c ⟨⟩; rfl)

theorem UnaryOp.punct_facts (op : UnaryOp) : op.punct ∉ [.arrow, .rParen] := by cases op <;> decide

theorem UnaryOp.punct_of_isPostfix {op : UnaryOp} (h : op.isPostfix = true) :
    op.punct = .plusPlus ∨ op.punct = .minusMinus := by
  cases op with
  | postInc => exact .inl rfl
  | postDec => exact .inr rfl
  | _ => cases h

/-- The signs of prefix operators. -/
theorem UnaryOp.exists_head (op : UnaryOp) (rest : List Lexeme) :
    ∃ c, op.punct.text.toList.head? = some c ∧ (charsOf (op.punct.lexeme :: rest)).head? = some c := by
  cases op <;> exact ⟨_, rfl, rfl⟩

/-- A prefix operator ends in front of its operand, behind which a blank stands where one is needed. -/
theorem fitsAll_prefix {op : UnaryOp} {operand : Expr} (hplain : operand.Plain)
    (h : FitsAll (wrapped unaryStrength operand operand.lexemes ++ rest)) :
    FitsAll (op.punct.lexeme :: ((if needsBlankAfter op operand then [gapLexeme] else []) ++
      (wrapped unaryStrength operand operand.lexemes ++ rest))) := by
  split
  next => exact fitsAll_spaced op.punct_facts h
  next hblank =>
    refine fitsAll_punct op.punct_facts (fun c hc => ?_) h
    have hstrong : unaryStrength ≤ primaryStrength := by decide
    rw [List.nil_append, ← Expr.lexemes_atLeast] at hc
    rcases hplain.atLeast.operand_cases (Expr.le_precedence_atLeast hstrong) with hle | hunary
    · exact op.goesOn_of_startsOperand (hplain.atLeast.head hle rest c hc)
    · obtain ⟨inner, deeper, heq, hinner, -⟩ := hunary
      -- Parentheses make no prefix operator.
      have hoperand : operand = .unary inner deeper := by
        unfold Expr.atLeast at heq
        split at heq
        · cases heq
        · exact heq
      subst hoperand
      refine UnaryOp.goesOn_of_needsBlankAfter hinner (Bool.eq_false_iff.2 hblank) c ?_
      rw [heq, Expr.lexemes, hinner, if_neg Bool.false_ne_true, List.cons_append, List.cons_append] at hc
      obtain ⟨first, hfirst, hhead⟩ := inner.exists_head
        ((if needsBlankAfter inner deeper then [gapLexeme] else []) ++
          wrapped unaryStrength deeper deeper.lexemes ++ rest)
      rw [hhead] at hc
      exact hfirst.trans hc

/-! ### All expressions -/

theorem fitsAll_listLexemes {args : List Expr} (h : ∀ arg ∈ args, arg.FitsIn) {strength : Nat}
    (htail : Tail strength rest) (hrest : FitsAll rest) :
    FitsAll (Expr.listLexemes args ++ Punct.rParen.lexeme :: rest) := by
  have hlast := fitsAll_rParen htail hrest
  match args with
  | [] => exact hlast
  | [arg] => exact h arg (.head _) (.closed (by decide)) (arg.clears_of_closed (by decide)) hlast
  | arg :: next :: args =>
    have hargs : ∀ arg ∈ next :: args, arg.FitsIn := fun arg hmem => h arg (.tail _ hmem)
    have hlater := fitsAll_listLexemes hargs htail hrest
    rw [Expr.listLexemes, List.append_assoc, List.cons_append, List.cons_append]
    · exact h arg (.head _) (.closed (by decide)) (arg.clears_of_closed (by decide))
        (fitsAll_closed (by decide) (fitsAll_gap hlater))
    · exact List.cons_ne_nil _ _

/-- A number is not taken further by what follows an operand that is no receiver. -/
theorem Expr.clears_of_tail {expr : Expr} {strength : Nat} (h : Tail strength rest)
    (hstrength : strength < postfixStrength) : expr.Clears rest :=
  fun _ => h.endsNumber hstrength _

theorem Expr.clears_of_isNumber {expr : Expr} (h : expr.isNumber = false) : expr.Clears rest := by
  intro hnumber
  rw [h] at hnumber
  cases hnumber

theorem fitsAll_word_of_tail {word : String} (hword : IsWord word) {strength : Nat}
    (htail : Tail strength rest) (hrest : FitsAll rest) : FitsAll (wordLexeme word :: rest) :=
  fitsAll_word hword (fun c hc => .tail _ (htail.head_mem c hc)) hrest

/-- A receiver in front of what is selected from it. -/
theorem fitsAll_receiver {receiver : Expr} (h : receiver.FitsIn) (hnumber : receiver.isNumber = false)
    {word : String} (hword : IsSelector word) (hrest : FitsAll (wordLexeme word :: rest)) :
    FitsAll (wrapped postfixStrength receiver receiver.lexemes ++
      Punct.dot.lexeme :: wordLexeme word :: rest) :=
  h.wrapped (.after (Nat.le_refl _) (by decide)) (Expr.clears_of_isNumber hnumber)
    (fitsAll_dot hword hrest)

/-- The name of a method and its arguments. -/
theorem fitsAll_arguments {word : String} (hword : IsWord word) {args : List Expr}
    (hargs : ∀ arg ∈ args, arg.FitsIn) {strength : Nat} (htail : Tail strength rest)
    (hrest : FitsAll rest) : FitsAll (wordLexeme word :: Punct.lParen.lexeme ::
      (Expr.listLexemes args ++ Punct.rParen.lexeme :: rest)) := by
  refine fitsAll_word hword ?_ (fitsAll_closed (by decide) (fitsAll_listLexemes hargs htail hrest))
  rintro c ⟨⟩
  exact .head _

namespace Expr.FitsIn

theorem literal {value : Literal} (htoken : IsToken (.literal value.kind) value.text) :
    (Expr.literal value).FitsIn := by
  intro rest htail hclears hrest
  obtain ⟨after, hscans⟩ := htoken.exists_scans nofun
  have hhead := htail.head_mem
  refine ⟨⟨hscans.transfer nofun (fun c hc => ?_) (fun hquote => ?_) fun hnumber => ?_, nofun, rfl, nofun⟩,
    hrest⟩
  · exact eq_false_of_all (by decide) (hhead c hc)
  · exact absurd (hhead _ hquote) (by decide)
  · have hends := hclears hnumber
    rwa [Expr.endsOpen, hnumber, Bool.true_and] at hends

theorem paren {inner : Expr} (h : inner.FitsIn) : (Expr.paren inner).FitsIn := by
  intro rest htail _ hrest
  simp only [Expr.lexemes, List.cons_append, List.append_assoc, List.nil_append]
  exact fitsAll_closed (by decide) (h (.closed (by decide)) (inner.clears_of_closed (by decide))
    (fitsAll_rParen htail hrest))

theorem field {receiver : Expr} (h : receiver.FitsIn) (hnumber : receiver.isNumber = false)
    {word : String} (hword : IsSelector word) : (Expr.field receiver word).FitsIn := by
  intro rest htail _ hrest
  simp only [Expr.lexemes, List.cons_append, List.append_assoc, List.nil_append]
  exact fitsAll_receiver h hnumber hword (fitsAll_word_of_tail hword.isWord htail hrest)

theorem call {word : String} (hword : IsSelector word) {args : List Expr}
    (hargs : ∀ arg ∈ args, arg.FitsIn) : (Expr.call none [] word args).FitsIn := by
  intro rest htail _ hrest
  simp only [Expr.lexemes, List.cons_append, List.append_assoc, List.nil_append]
  exact fitsAll_arguments hword.isWord hargs htail hrest

theorem callOn {receiver : Expr} (h : receiver.FitsIn) (hnumber : receiver.isNumber = false)
    {word : String} (hword : IsToken .ident word) {args : List Expr}
    (hargs : ∀ arg ∈ args, arg.FitsIn) : (Expr.call (some receiver) [] word args).FitsIn := by
  intro rest htail _ hrest
  simp only [Expr.lexemes, List.cons_append, List.append_assoc, List.nil_append]
  exact fitsAll_receiver h hnumber (.inl hword) (fitsAll_arguments hword.isWord hargs htail hrest)

theorem index {array position : Expr} (harray : array.FitsIn) (hposition : position.FitsIn) :
    (Expr.index array position).FitsIn := by
  intro rest htail _ hrest
  simp only [Expr.lexemes, List.cons_append, List.append_assoc, List.nil_append]
  refine harray.wrapped (.after (Nat.le_refl _) (by decide))
    (array.clears_of_closed (by decide)) (fitsAll_closed (by decide) ?_)
  exact hposition (.closed (by decide)) (position.clears_of_closed (by decide))
    (fitsAll_closed (by decide) hrest)

theorem binary {left right : Expr} (hleft : left.FitsIn) (hright : right.FitsIn) (op : BinaryOp) :
    (Expr.binary op left right).FitsIn := by
  intro rest htail _ hrest
  simp only [Expr.lexemes, List.append_assoc]
  have hle := op.precedence_le
  have hstrength : binaryBase + op.precedence + 1 < postfixStrength := by
    simp only [binaryBase, postfixStrength]
    omega
  have hbehind : Tail (binaryBase + op.precedence + 1) rest := htail.mono (Nat.le_succ _)
  have hsign {rest : List Lexeme} : Tail (binaryBase + op.precedence) (op.lexemes ++ rest) :=
    .operator (Nat.le_refl _)
  refine hleft.wrapped hsign (Expr.clears_of_tail hsign (Nat.lt_of_succ_lt hstrength)) ?_
  exact fitsAll_operator (hright.wrapped hbehind (Expr.clears_of_tail hbehind hstrength) hrest)

theorem postfixed {operand : Expr} (h : operand.FitsIn) {op : UnaryOp} (hbehind : op.isPostfix = true)
    (hends : operand.endsOpen = false) : (Expr.unary op operand).FitsIn := by
  intro rest htail _ hrest
  rw [Expr.lexemes, if_pos hbehind]
  simp only [List.append_assoc, List.cons_append, List.nil_append]
  have hclears : operand.Clears (op.punct.lexeme :: rest) := by
    refine fun _ c hc => .inr ⟨hends, ?_⟩
    rcases UnaryOp.punct_of_isPostfix hbehind with hsign | hsign <;> rw [hsign] at hc <;> cases hc
    · exact .inl rfl
    · exact .inr rfl
  refine h.wrapped (.after (Nat.le_refl _) ?_) hclears (fitsAll_closed ?_ hrest)
  · rcases UnaryOp.punct_of_isPostfix hbehind with hsign | hsign <;> rw [hsign] <;> decide
  · rcases UnaryOp.punct_of_isPostfix hbehind with hsign | hsign <;> rw [hsign] <;> decide

theorem prefixed {operand : Expr} (h : operand.FitsIn) (hplain : operand.Plain) {op : UnaryOp}
    (hfront : op.isPostfix = false) : (Expr.unary op operand).FitsIn := by
  intro rest htail _ hrest
  rw [Expr.precedence, hfront, if_neg Bool.false_ne_true] at htail
  rw [Expr.lexemes, hfront, if_neg Bool.false_ne_true]
  simp only [List.append_assoc, List.cons_append]
  exact fitsAll_prefix hplain (h.wrapped htail (Expr.clears_of_tail htail (by decide)) hrest)

theorem conditional {cond yes no : Expr} (hcond : cond.FitsIn) (hyes : yes.FitsIn) (hno : no.FitsIn) :
    (Expr.conditional cond yes no).FitsIn := by
  intro rest htail _ hrest
  simp only [Expr.lexemes, List.append_assoc, List.cons_append]
  have hquestion {rest : List Lexeme} :
      Tail (conditionalStrength + 1) (gapLexeme :: Punct.question.lexeme :: gapLexeme :: rest) :=
    .question (Nat.le_succ _)
  have hcolon {rest : List Lexeme} :
      Tail conditionalStrength (gapLexeme :: Punct.colon.lexeme :: gapLexeme :: rest) := .colon
  have hweak : conditionalStrength < postfixStrength := by decide
  refine hcond.wrapped hquestion (Expr.clears_of_tail hquestion (by decide)) ?_
  refine fitsAll_gap (fitsAll_spaced (by decide) (hyes .colon (Expr.clears_of_tail hcolon hweak) ?_))
  refine fitsAll_gap (fitsAll_spaced (by decide) ?_)
  exact hno.wrapped htail (Expr.clears_of_tail htail hweak) hrest

end Expr.FitsIn

/-- The lexemes of every expression of names, literals and operators fit in front of what can follow it, if no postfix operator follows a number that would take its sign. -/
theorem Expr.Plain.fitsIn {expr : Expr} (h : expr.Plain) (happart : expr.signsApart = true) :
    expr.FitsIn := by
  induction h with
  | name hword => exact fun _ htail _ hrest => fitsAll_word_of_tail hword.isWord htail hrest
  | literal htoken _ => exact .literal htoken
  | this => exact fun _ htail _ hrest => fitsAll_word_of_tail isWord_this htail hrest
  | paren _ ih => exact (ih happart).paren
  | field _ hnumber hword ih => exact (ih happart).field hnumber hword
  | call hword _ ih =>
    rw [Expr.signsApart, Bool.true_and, Expr.signsApartAll_iff] at happart
    exact .call hword fun arg hmem => ih arg hmem (happart arg hmem)
  | callOn _ hnumber hword _ ih ihargs =>
    rw [Expr.signsApart, Bool.and_eq_true, Expr.signsApartAll_iff] at happart
    exact (ih happart.1).callOn hnumber hword fun arg hmem => ihargs arg hmem (happart.2 arg hmem)
  | index _ _ iharray ihposition =>
    rw [Expr.signsApart, Bool.and_eq_true] at happart
    exact (iharray happart.1).index (ihposition happart.2)
  | @binary op _ _ _ _ ihleft ihright =>
    rw [Expr.signsApart, Bool.and_eq_true] at happart
    exact (ihleft happart.1).binary (ihright happart.2) op
  | @unary op operand hplain ih =>
    rw [Expr.signsApart, Bool.and_eq_true] at happart
    cases hbehind : op.isPostfix with
    | true =>
      rw [hbehind, Bool.true_and] at happart
      exact (ih happart.2).postfixed hbehind (by simpa using happart.1)
    | false => exact (ih happart.2).prefixed hplain hbehind
  | conditional _ _ _ ihcond ihyes ihno =>
    rw [Expr.signsApart, Bool.and_eq_true, Bool.and_eq_true] at happart
    exact (ihcond happart.1.1).conditional (ihyes happart.1.2) (ihno happart.2)

/-! ### The first token of an expression -/

/-- Whether a token starts an operand that has no prefix operator. -/
def TokenKind.startsPrimary : TokenKind → Bool
  | .ident | .literal _ | .keyword .thisKw | .keyword .superKw | .punct .lParen => true
  | _ => false

variable {expr : Expr}

theorem Lexeme.Leads.startsPrimary {lexeme : Lexeme} (h : lexeme.Leads) (rest : List Lexeme) :
    (nextKind (lexeme :: rest)).startsPrimary = true := by
  cases h with
  | paren => rfl
  | word h =>
    exact (by decide : ∀ kind ∈ [TokenKind.ident, .keyword .thisKw, .keyword .superKw],
      kind.startsPrimary = true) _ h.kind
  | literal => rfl

theorem Expr.Plain.startsPrimary (h : expr.Plain) (hstrength : postfixStrength ≤ expr.precedence)
    (rest : List Lexeme) : (nextKind (expr.lexemes ++ rest)).startsPrimary = true := by
  obtain ⟨lexeme, more, hmore, hlead⟩ := h.exists_lead hstrength
  rw [hmore, List.cons_append]
  exact hlead.startsPrimary _

/-- The first token of an expression is none that closes something. -/
theorem Expr.Plain.nextKind_ne (h : expr.Plain) {punct : Punct} (hpunct : punct ∈ [.rParen, .rBracket])
    (rest : List Lexeme) : nextKind (expr.lexemes ++ rest) ≠ .punct punct := by
  simp only [List.mem_cons, List.not_mem_nil, or_false] at hpunct
  have hprimary {kind : TokenKind} (hkind : kind.startsPrimary = true) : kind ≠ .punct punct := by
    rintro rfl
    rcases hpunct with rfl | rfl <;> cases hkind
  have hoperand {operand : Expr} (h : operand.Plain) (hstrength : unaryStrength ≤ operand.precedence)
      (rest : List Lexeme) : nextKind (operand.lexemes ++ rest) ≠ .punct punct := by
    rcases h.operand_cases hstrength with hle | ⟨op, inner, rfl, hfront, -⟩
    · exact hprimary (h.startsPrimary hle rest)
    · rw [Expr.lexemes, if_neg (Bool.eq_false_iff.1 hfront)]
      rcases hpunct with rfl | rfl <;> cases op <;> rintro ⟨⟩
  have hwrapped {operand : Expr} {strength : Nat} {rest : List Lexeme}
      (ih : nextKind (operand.lexemes ++ rest) ≠ .punct punct) :
      nextKind (wrapped strength operand operand.lexemes ++ rest) ≠ .punct punct := by
    unfold wrapped
    split
    · exact hprimary rfl
    · exact ih
  have hself := h
  induction h generalizing rest with
  | binary hleft _ ih =>
    simp only [Expr.lexemes, List.append_assoc]
    exact hwrapped (ih _ hleft)
  | conditional hcond _ _ ih =>
    simp only [Expr.lexemes, List.append_assoc]
    exact hwrapped (ih _ hcond)
  | unary =>
    refine hoperand hself ?_ rest
    rw [Expr.precedence]
    split <;> decide
  | _ => exact hoperand hself (Nat.le_of_ble_eq_true rfl) rest

end AdviceMigration.Source
