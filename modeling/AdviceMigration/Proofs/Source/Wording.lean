import AdviceMigration.Proofs.Source.RoundTrip
import AdviceMigration.Proofs.Source.Scanning

/-!
# The lexemes of an expression

What an expression of names, literals and operators is printed as, lexeme by lexeme. `Expr.Plain` says of an expression that it is put together from these in any way; two such expressions mean the same if they are the same without parentheses (`Expr.bare`). The parentheses that an operand gets where it binds too weakly are those of `Expr.atLeast`, so that a printed expression can be taken for one in which no operand needs any.
-/

namespace AdviceMigration.Source

open AdviceMigration.Text

/-- The lexeme of a sign. -/
def Punct.lexeme (punct : Punct) : Lexeme := .token (.punct punct) punct.text.toList

/-- The lexeme of a word. -/
def wordLexeme (word : String) : Lexeme := .token (.ofWord word) word.toList

/-- The lexeme of a literal. -/
def Literal.lexeme (literal : Literal) : Lexeme := .token (.literal literal.kind) literal.text.toList

/-- A blank between two tokens. -/
def gapLexeme : Lexeme := .blank ' '

/-- The sign of an operator with one operand. -/
def UnaryOp.punct : UnaryOp → Punct
  | plus => .plus | minus => .minus | not => .bang | bitNot => .tilde
  | preInc | postInc => .plusPlus
  | preDec | postDec => .minusMinus

/-- The signs of an operator with two operands: a greater-than sign is always a token of its own. -/
def BinaryOp.puncts : BinaryOp → List Punct
  | or => [.pipePipe] | and => [.ampAmp] | bitOr => [.pipe] | bitXor => [.caret] | bitAnd => [.amp]
  | eq => [.eqEq] | ne => [.bangEq] | lt => [.less] | gt => [.greater] | le => [.lessEq]
  | ge => [.greater, .eq] | shl => [.leftShift] | shr => [.greater, .greater]
  | ushr => [.greater, .greater, .greater] | add => [.plus] | sub => [.minus] | mul => [.star]
  | div => [.slash] | rem => [.percent]

theorem BinaryOp.puncts_length_pos (op : BinaryOp) : 0 < op.puncts.length := by cases op <;> decide

/-- The lexemes of an operator between its operands. -/
def BinaryOp.lexemes (op : BinaryOp) : List Lexeme :=
  gapLexeme :: op.puncts.map Punct.lexeme ++ [gapLexeme]

/-- The lexemes `lexemes` of an expression in a place that demands a strength. -/
def wrapped (strength : Nat) (expr : Expr) (lexemes : List Lexeme) : List Lexeme :=
  if expr.precedence < strength then Punct.lParen.lexeme :: lexemes ++ [Punct.rParen.lexeme] else lexemes

mutual
/-- The lexemes that an expression of names, literals and operators is printed as. -/
def Expr.lexemes : Expr → List Lexeme
  | .name _ word => [wordLexeme word]
  | .literal value => [value.lexeme]
  | .this => [wordLexeme "this"]
  | .paren inner => Punct.lParen.lexeme :: inner.lexemes ++ [Punct.rParen.lexeme]
  | .field receiver word =>
    wrapped postfixStrength receiver receiver.lexemes ++ [Punct.dot.lexeme, wordLexeme word]
  | .call receiver _ word args =>
    (match receiver with
      | some receiver => wrapped postfixStrength receiver receiver.lexemes ++ [Punct.dot.lexeme]
      | none => []) ++
      wordLexeme word :: Punct.lParen.lexeme :: Expr.listLexemes args ++ [Punct.rParen.lexeme]
  | .index array position =>
    wrapped postfixStrength array array.lexemes ++ Punct.lBracket.lexeme :: position.lexemes ++
      [Punct.rBracket.lexeme]
  | .binary op left right =>
    wrapped (binaryBase + op.precedence) left left.lexemes ++ op.lexemes ++
      wrapped (binaryBase + op.precedence + 1) right right.lexemes
  | .unary op operand =>
    if op.isPostfix then wrapped postfixStrength operand operand.lexemes ++ [op.punct.lexeme]
    else
      op.punct.lexeme :: (if needsBlankAfter op operand then [gapLexeme] else []) ++
        wrapped unaryStrength operand operand.lexemes
  | .conditional cond yes no =>
    wrapped (conditionalStrength + 1) cond cond.lexemes ++
      gapLexeme :: Punct.question.lexeme :: gapLexeme :: yes.lexemes ++
      gapLexeme :: Punct.colon.lexeme :: gapLexeme :: wrapped conditionalStrength no no.lexemes
  | _ => []

/-- The lexemes of expressions with commas between them. -/
def Expr.listLexemes : List Expr → List Lexeme
  | [] => []
  | [expr] => expr.lexemes
  | expr :: rest => expr.lexemes ++ Punct.comma.lexeme :: gapLexeme :: Expr.listLexemes rest
end

/-! ### Expressions of operators -/

/-- Whether an expression is a numeric literal. -/
def Expr.isNumber : Expr → Bool
  | .literal value => (TokenKind.literal value.kind).isNumber
  | _ => false

/-- Whether an expression is a number that ends in the mark of an exponent. -/
def Expr.endsOpen : Expr → Bool
  | .literal value => (TokenKind.literal value.kind).isNumber && Source.endsOpen value.text.toList
  | _ => false

/-- Whether a word can follow a receiver, or name what is called without one. -/
def IsSelector (word : String) : Prop := IsToken .ident word ∨ word = "this" ∨ word = "super"

/-- Whether an expression is put together, in any way, from names, literals, `this`, parentheses, field accesses, calls without type arguments, array accesses, operators and conditionals. A receiver is no bare number. -/
inductive Expr.Plain : Expr → Prop
  | name {id : NodeId} {word : String} (hword : IsToken .ident word) : Plain (.name id word)
  | literal {value : Literal} (htoken : IsToken (.literal value.kind) value.text)
      (hreturn : '\r' ∉ value.text.toList) : Plain (.literal value)
  | this : Plain .this
  | paren {inner : Expr} (h : Plain inner) : Plain (.paren inner)
  | field {receiver : Expr} {word : String} (h : Plain receiver) (hnumber : receiver.isNumber = false)
      (hword : IsSelector word) : Plain (.field receiver word)
  | call {word : String} {args : List Expr} (hword : IsSelector word)
      (hargs : ∀ arg ∈ args, Plain arg) : Plain (.call none [] word args)
  | callOn {receiver : Expr} {word : String} {args : List Expr} (h : Plain receiver)
      (hnumber : receiver.isNumber = false) (hword : IsToken .ident word)
      (hargs : ∀ arg ∈ args, Plain arg) : Plain (.call (some receiver) [] word args)
  | index {array position : Expr} (harray : Plain array) (hposition : Plain position) :
      Plain (.index array position)
  | binary {op : BinaryOp} {left right : Expr} (hleft : Plain left) (hright : Plain right) :
      Plain (.binary op left right)
  | unary {op : UnaryOp} {operand : Expr} (h : Plain operand) : Plain (.unary op operand)
  | conditional {cond yes no : Expr} (hcond : Plain cond) (hyes : Plain yes) (hno : Plain no) :
      Plain (.conditional cond yes no)

mutual
/-- Whether no postfix operator stands right behind a number that ends in the mark of an exponent, which would take its first sign. -/
def Expr.signsApart : Expr → Bool
  | .paren inner => inner.signsApart
  | .field receiver _ => receiver.signsApart
  | .call receiver _ _ args =>
    (match receiver with
      | some receiver => receiver.signsApart
      | none => true) && Expr.signsApartAll args
  | .index array position => array.signsApart && position.signsApart
  | .binary _ left right => left.signsApart && right.signsApart
  | .unary op operand => !(op.isPostfix && operand.endsOpen) && operand.signsApart
  | .conditional cond yes no => cond.signsApart && yes.signsApart && no.signsApart
  | _ => true

/-- Whether this holds of all expressions. -/
def Expr.signsApartAll : List Expr → Bool
  | [] => true
  | expr :: rest => expr.signsApart && Expr.signsApartAll rest
end

mutual
/-- An expression of operators without its parentheses; names lose their identity. -/
def Expr.bare : Expr → Expr
  | .name _ word => .name 0 word
  | .paren inner => inner.bare
  | .field receiver word => .field receiver.bare word
  | .call receiver typeArgs word args =>
    .call (match receiver with
      | some receiver => some receiver.bare
      | none => none) typeArgs word (Expr.bareAll args)
  | .index array position => .index array.bare position.bare
  | .binary op left right => .binary op left.bare right.bare
  | .unary op operand => .unary op operand.bare
  | .conditional cond yes no => .conditional cond.bare yes.bare no.bare
  | expr => expr

/-- Expressions without their parentheses. -/
def Expr.bareAll : List Expr → List Expr
  | [] => []
  | expr :: rest => expr.bare :: Expr.bareAll rest
end

theorem Expr.bareAll_eq_map (exprs : List Expr) : Expr.bareAll exprs = exprs.map Expr.bare := by
  induction exprs with
  | nil => rfl
  | cons expr rest ih => rw [Expr.bareAll, ih, List.map_cons]

theorem Expr.signsApartAll_iff {exprs : List Expr} :
    Expr.signsApartAll exprs = true ↔ ∀ expr ∈ exprs, expr.signsApart = true := by
  induction exprs with
  | nil => simp [Expr.signsApartAll]
  | cons expr rest ih => rw [Expr.signsApartAll, Bool.and_eq_true, ih, List.forall_mem_cons]

/-! ### Parentheses where they are needed -/

/-- An expression with the parentheses it gets in a place that demands a strength. -/
def Expr.atLeast (strength : Nat) (expr : Expr) : Expr :=
  if expr.precedence < strength then .paren expr else expr

namespace Expr

variable (strength : Nat) (expr : Expr)

theorem lexemes_atLeast :
    (expr.atLeast strength).lexemes = wrapped strength expr expr.lexemes := by
  unfold atLeast wrapped
  split <;> rfl

theorem bare_atLeast : (expr.atLeast strength).bare = expr.bare := by
  unfold atLeast
  split <;> rfl

variable {strength expr}

theorem Plain.atLeast (h : expr.Plain) : (expr.atLeast strength).Plain := by
  unfold Expr.atLeast
  split
  · exact h.paren
  · exact h

theorem le_precedence_atLeast (hstrength : strength ≤ primaryStrength) :
    strength ≤ (expr.atLeast strength).precedence := by
  unfold Expr.atLeast
  split
  · exact hstrength
  · exact Nat.le_of_not_lt ‹_›

end Expr

/-! ### Operands -/

theorem BinaryOp.precedence_le (op : BinaryOp) : op.precedence ≤ 10 := by cases op <;> decide

/-- Induction over operands without a prefix operator. What they start with, a receiver for example, is one again with the parentheses that it gets there. -/
theorem Expr.Plain.postfix_induction {motive : Expr → Prop} {expr : Expr} (h : expr.Plain)
    (hstrength : postfixStrength ≤ expr.precedence)
    (name : ∀ id word, IsToken .ident word → motive (.name id word))
    (literal : ∀ value, IsToken (.literal value.kind) value.text → '\r' ∉ value.text.toList →
      motive (.literal value))
    (this : motive .this)
    (paren : ∀ inner, inner.Plain → motive (.paren inner))
    (field : ∀ receiver word, IsSelector word → motive (receiver.atLeast postfixStrength) →
      motive (.field receiver word))
    (call : ∀ word args, IsSelector word → (∀ arg ∈ args, arg.Plain) →
      motive (.call none [] word args))
    (callOn : ∀ receiver word args, IsToken .ident word → (∀ arg ∈ args, arg.Plain) →
      motive (receiver.atLeast postfixStrength) → motive (.call (some receiver) [] word args))
    (index : ∀ array position, position.Plain → motive (array.atLeast postfixStrength) →
      motive (.index array position))
    (unary : ∀ op operand, op.isPostfix = true → motive (operand.atLeast postfixStrength) →
      motive (.unary op operand)) : motive expr := by
  have hatLeast {operand : Expr} (h : operand.Plain)
      (ih : postfixStrength ≤ operand.precedence → motive operand) :
      motive (operand.atLeast postfixStrength) := by
    unfold Expr.atLeast
    split
    · exact paren operand h
    · exact ih (Nat.le_of_not_lt ‹_›)
  induction h with
  | name hword => exact name _ _ hword
  | literal htoken hreturn => exact literal _ htoken hreturn
  | this => exact this
  | paren h => exact paren _ h
  | field h _ hword ih => exact field _ _ hword (hatLeast h ih)
  | call hword hargs => exact call _ _ hword hargs
  | callOn h _ hword hargs ih => exact callOn _ _ _ hword hargs (hatLeast h ih)
  | index harray hposition ih => exact index _ _ hposition (hatLeast harray ih)
  | @binary op =>
    have hle := op.precedence_le
    simp only [Expr.precedence, binaryBase, postfixStrength] at hstrength
    omega
  | @unary op operand h ih =>
    rw [Expr.precedence] at hstrength
    split at hstrength
    · exact unary op operand ‹_› (hatLeast h ih)
    · exact absurd hstrength (by decide)
  | conditional => exact absurd hstrength (by decide : ¬ postfixStrength ≤ conditionalStrength)

/-- An operand has a prefix operator, or binds like one that something follows. -/
theorem Expr.Plain.operand_cases {expr : Expr} (h : expr.Plain)
    (hstrength : unaryStrength ≤ expr.precedence) :
    postfixStrength ≤ expr.precedence ∨
      ∃ op operand, expr = .unary op operand ∧ op.isPostfix = false ∧ operand.Plain := by
  cases h with
  | @binary op =>
    have hle := op.precedence_le
    simp only [Expr.precedence, binaryBase, unaryStrength] at hstrength
    omega
  | @unary op operand h =>
    by_cases hbehind : op.isPostfix = true
    · exact .inl (by rw [Expr.precedence, if_pos hbehind])
    · exact .inr ⟨op, operand, rfl, Bool.eq_false_iff.2 hbehind, h⟩
  | conditional => exact absurd hstrength (by decide : ¬ unaryStrength ≤ conditionalStrength)
  | name | literal | this | paren | field | call | callOn | index => exact .inl (Nat.le_of_ble_eq_true rfl)

/-! ### The printed text -/

theorem Doc.Writes.of_eq {doc : Doc} {chars chars' : List Char} (h : doc.Writes chars)
    (heq : chars = chars') : doc.Writes chars' := heq ▸ h

@[simp] theorem chars_lexeme (punct : Punct) : punct.lexeme.chars = punct.text.toList := rfl

@[simp] theorem chars_gapLexeme : gapLexeme.chars = [' '] := rfl

@[simp] theorem chars_wordLexeme (word : String) : (wordLexeme word).chars = word.toList := rfl

theorem writes_atLeast {doc : Doc} {lexemes : List Lexeme} (h : doc.Writes (charsOf lexemes))
    (strength : Nat) (expr : Expr) :
    (atLeast strength expr doc).Writes (charsOf (wrapped strength expr lexemes)) := by
  unfold atLeast wrapped
  split
  · exact (((Doc.Writes.txt "(").append h).append (.txt ")")).of_eq (by simp [Punct.text])
  · exact h

theorem BinaryOp.charsOf_lexemes (op : BinaryOp) : charsOf op.lexemes = (" " ++ op.text ++ " ").toList := by
  cases op <;> rfl

theorem UnaryOp.text_punct (op : UnaryOp) : op.punct.text = op.text := by cases op <;> rfl

theorem writes_listDoc {args : List Expr} {style : Style}
    (h : ∀ arg ∈ args, (arg.doc style).Writes (charsOf arg.lexemes)) :
    (Expr.listDoc args style).Writes (charsOf (Expr.listLexemes args)) := by
  match args with
  | [] => exact .nil
  | [arg] => exact h arg (.head _)
  | arg :: next :: args =>
    have hargs : ∀ arg ∈ next :: args, (arg.doc style).Writes (charsOf arg.lexemes) :=
      fun arg hmem => h arg (.tail _ hmem)
    have hlater := writes_listDoc hargs
    rw [Expr.listDoc, Expr.listLexemes]
    · exact (((h arg (.head _)).append (.txt ", ")).append hlater).of_eq (by simp [Punct.text])
    · exact nofun
    · exact nofun

/-- An expression of names, literals and operators is printed as its lexemes, whatever the style. -/
theorem Expr.Plain.writes {expr : Expr} (h : expr.Plain) (style : Style) :
    (expr.doc style).Writes (charsOf expr.lexemes) := by
  induction h with
  | @name _ word => exact (Doc.Writes.txt word).of_eq (by simp [Expr.lexemes])
  | @literal value =>
    exact (Doc.Writes.txt value.text).of_eq (by simp [Expr.lexemes, Literal.lexeme, Lexeme.chars])
  | this => exact .txt "this"
  | paren _ ih => exact (((Doc.Writes.txt "(").append ih).append (.txt ")")).of_eq (by simp [Expr.lexemes, Punct.text])
  | @field _ word _ _ _ ih =>
    exact ((writes_atLeast ih _ _).append (.txt ("." ++ word))).of_eq (by simp [Expr.lexemes, Punct.text])
  | @call word _ _ _ ih =>
    have hargs := ((Doc.Writes.txt word).append (.txt "(")).append (writes_listDoc ih)
    exact (((Doc.Writes.nil.append .nil).append hargs).append (.txt ")")).of_eq (by simp [Expr.lexemes, Punct.text])
  | @callOn receiver word _ _ _ _ _ ih ihargs =>
    have hreceiver := (writes_atLeast ih postfixStrength receiver).append (.txt ".")
    have hopen := ((hreceiver.append .nil).append (.txt word)).append (.txt "(")
    refine ((hopen.append (writes_listDoc ihargs)).append (.txt ")")).of_eq ?_
    simp [Expr.lexemes, Punct.text]
  | @index array _ _ _ iharray ihposition =>
    have harray := ((writes_atLeast iharray postfixStrength array).append (.txt "[")).append ihposition
    exact (harray.append (.txt "]")).of_eq (by simp [Expr.lexemes, Punct.text])
  | @binary op _ _ _ _ ihleft ihright =>
    refine (((writes_atLeast ihleft _ _).append (.txt _)).append (writes_atLeast ihright _ _)).of_eq ?_
    rw [Expr.lexemes, charsOf_append, charsOf_append, op.charsOf_lexemes]
  | @unary op operand _ ih =>
    rw [Expr.doc, Expr.lexemes]
    split
    · exact ((writes_atLeast ih _ _).append (.txt _)).of_eq (by simp [op.text_punct])
    · have hgap : Doc.Writes (if needsBlankAfter op operand then txt " " else [])
          (charsOf (if needsBlankAfter op operand then [gapLexeme] else [])) := by
        split
        · exact .txt " "
        · exact .nil
      exact (((Doc.Writes.txt _).append hgap).append (writes_atLeast ih _ _)).of_eq (by simp [op.text_punct])
  | @conditional cond _ _ _ _ _ ihcond ihyes ihno =>
    have hyes := ((writes_atLeast ihcond (conditionalStrength + 1) cond).append (.txt " ? ")).append ihyes
    refine ((hyes.append (.txt " : ")).append (writes_atLeast ihno _ _)).of_eq ?_
    simp [Expr.lexemes, Punct.text]

end AdviceMigration.Source
