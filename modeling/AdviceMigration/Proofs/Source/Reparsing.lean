import AdviceMigration.Proofs.Source.Facing
import AdviceMigration.Proofs.Text.Newline

/-!
# Printed expressions are read back

The printer puts parentheses where an operand binds too weakly, by numbers of its own, and the parser reads operators by their precedence. Both agree: an expression of names, literals and operators is read back from what it was printed as, parentheses apart, whatever follows it that can follow an expression of its strength. Productions read back what they stand for if the inner ones do, behind the first token; the whole grammar does so by induction on its depth.

Receivers and left operands are read before the operators that follow them, in the loops for postfix and binary operators. How far such a loop comes is shown by induction on the expression.
-/

namespace AdviceMigration.Source

open AdviceMigration.Text

/-! ### Productions that read expressions back -/

/-- Whether an expression has been read in front of a rest: it is the one that was printed, parentheses apart. -/
abbrev Recovered (size floor : Nat) (expr : Expr) (rest : List Lexeme) (result : Expr) (cursor : Cursor) :
    Prop :=
  result.bare = expr.bare ∧ cursor.Faces size (floor + 1) true rest

/-- The parentheses that an expression gets where it stands do not matter. -/
theorem recovered_atLeast {size floor strength : Nat} {expr : Expr} {rest : List Lexeme} :
    Recovered size floor (expr.atLeast strength) rest = Recovered size floor expr rest := by
  unfold Recovered
  rw [Expr.bare_atLeast]

/-- Whether a parser reads an expression back in front of a rest. -/
def Recovers (size floor : Nat) (parser : Parser Expr) (expr : Expr) (rest : List Lexeme) : Prop :=
  ∀ joint, Delivers parser (Cursor.Faces size floor joint (expr.lexemes ++ rest)) (Recovered size floor expr rest)

namespace Grammar

/-- Whether the inner productions read expressions back from every token on, `bottom` being the first. -/
structure Recovering (g : Grammar) (size bottom : Nat) : Prop where
  covers : g.Covers size bottom
  orderly : g.Orderly
  expr : ∀ {floor expr rest}, bottom ≤ floor → expr.Plain → Tail weakestStrength rest →
    Recovers size floor g.expr expr rest
  ternary : ∀ {floor expr rest}, bottom ≤ floor → expr.Plain → Tail weakestStrength rest →
    Recovers size floor g.ternary expr rest
  binary : ∀ {floor expr rest} strength, bottom ≤ floor → expr.Plain →
    binaryBase + strength < expr.precedence → Tail (binaryBase + strength) rest → Tail unaryStrength rest →
    Recovers size floor (g.binary strength) expr rest
  unary : ∀ {floor expr rest}, bottom ≤ floor → expr.Plain → unaryStrength ≤ expr.precedence →
    Tail unaryStrength rest → Recovers size floor g.unary expr rest

variable {g : Grammar} {size floor : Nat} {joint : Bool} {rest : List Lexeme}

theorem Recovering.mono {bottom bottom' : Nat} (h : g.Recovering size bottom) (hle : bottom ≤ bottom') :
    g.Recovering size bottom' where
  covers := h.covers.mono hle
  orderly := h.orderly
  expr := fun hfloor => h.expr (Nat.le_trans hle hfloor)
  ternary := fun hfloor => h.ternary (Nat.le_trans hle hfloor)
  binary := fun strength hfloor => h.binary strength (Nat.le_trans hle hfloor)
  unary := fun hfloor => h.unary (Nat.le_trans hle hfloor)

/-! ### Arguments -/

/-- Whether expressions are those that were printed, parentheses apart. -/
abbrev RecoveredAll (size floor : Nat) (exprs : List Expr) (rest : List Lexeme) (results : List Expr)
    (cursor : Cursor) : Prop :=
  results.map Expr.bare = exprs.map Expr.bare ∧ cursor.Faces size (floor + 1) true rest

/-- The step of a loop over arguments. -/
abbrev argStep (g : Grammar) (items : List Expr) : Parser (LoopStep (List Expr) (List Expr)) := do
  let value ← g.expr
  if ← eatPunct .comma then return .continue (value :: items)
  else return .done (value :: items).reverse

theorem exists_listLexemes_eq (arg : Expr) (args : List Expr) (rest : List Lexeme) :
    ∃ more, Expr.listLexemes (arg :: args) ++ rest = arg.lexemes ++ more := by
  cases args with
  | nil => exact ⟨rest, rfl⟩
  | cons next args =>
    rw [Expr.listLexemes, List.append_assoc]
    · exact ⟨_, rfl⟩
    · exact List.cons_ne_nil _ _

theorem delivers_separated (h : g.Recovering size (floor + 1)) {arg : Expr} {args found : List Expr}
    (hargs : ∀ value ∈ arg :: args, value.Plain) {floor' fuel : Nat} (hfloor : floor + 1 ≤ floor')
    (hfuel : size ≤ floor' + fuel) :
    Delivers (iterate g.argStep fuel found)
      (Cursor.Faces size floor' joint (Expr.listLexemes (arg :: args) ++ Punct.rParen.lexeme :: rest))
      (RecoveredAll size floor' (found.reverse ++ arg :: args) (Punct.rParen.lexeme :: rest)) := by
  have hplain := hargs arg (.head _)
  induction args generalizing arg found floor' fuel joint with
  | nil =>
    have htail : Tail weakestStrength (Punct.rParen.lexeme :: rest) := .closed (by decide)
    have hstep : Delivers (g.argStep found)
        (Cursor.Faces size floor' joint (Expr.listLexemes [arg] ++ Punct.rParen.lexeme :: rest))
        fun result cursor => ∃ value, result = .done (value :: found).reverse ∧
          Recovered size floor' arg (Punct.rParen.lexeme :: rest) value cursor := by
      refine (h.expr hfloor hplain htail joint).bind fun value => .known fun hvalue => ?_
      exact delivers_eat_ne (by rintro ⟨⟩) (.pure fun _ hfaces => ⟨value, rfl, hvalue, hfaces⟩)
    cases fuel with
    | zero => exact delivers_of_size_le hfuel
    | succ fuel =>
      refine hstep.bind fun result => ?_
      rintro cursor ⟨value, rfl, hvalue, hfaces⟩
      exact ⟨_, cursor, rfl, by simp [hvalue], hfaces⟩
  | cons next args ih =>
    have hlexemes : Expr.listLexemes (arg :: next :: args) ++ Punct.rParen.lexeme :: rest =
        arg.lexemes ++ Punct.comma.lexeme :: gapLexeme ::
          (Expr.listLexemes (next :: args) ++ Punct.rParen.lexeme :: rest) := by
      rw [Expr.listLexemes, List.append_assoc, List.cons_append, List.cons_append]
      exact List.cons_ne_nil _ _
    rw [hlexemes]
    have hlater : ∀ arg ∈ next :: args, arg.Plain := fun arg hmem => hargs arg (.tail _ hmem)
    generalize hmore : Expr.listLexemes (next :: args) ++ Punct.rParen.lexeme :: rest = more
    have htail : Tail weakestStrength (Punct.comma.lexeme :: gapLexeme :: more) := .closed (by decide)
    have hstep : Delivers (g.argStep found)
        (Cursor.Faces size floor' joint (arg.lexemes ++ Punct.comma.lexeme :: gapLexeme :: more))
        fun result cursor => ∃ value, result = .continue (value :: found) ∧ value.bare = arg.bare ∧
          cursor.Faces size (floor' + 1) false more := by
      refine (h.expr hfloor hplain htail joint).bind fun value => .known fun hvalue => ?_
      refine delivers_eat (.pure fun _ hfaces => ⟨value, rfl, hvalue, (hfaces.mono (Nat.le_succ _)).gap⟩)
    cases fuel with
    | zero => exact delivers_of_size_le hfuel
    | succ fuel =>
      refine hstep.bind fun result => ?_
      rintro cursor ⟨value, rfl, hvalue, hfaces⟩
      have hrest : Delivers (iterate g.argStep fuel (value :: found))
          (Cursor.Faces size (floor' + 1) false more)
          (RecoveredAll size (floor' + 1) ((value :: found).reverse ++ next :: args) (Punct.rParen.lexeme :: rest)) := by
        rw [← hmore]
        exact ih hlater (Nat.le_succ_of_le hfloor) (by omega) (hlater next (.head _))
      obtain ⟨values, cursor', hok, hvalues, hfaces'⟩ := hrest hfaces
      refine ⟨values, cursor', hok, ?_, hfaces'.mono (Nat.le_succ _)⟩
      simpa [hvalue] using hvalues

theorem delivers_args (h : g.Recovering size (floor + 1)) {args : List Expr} (hargs : ∀ arg ∈ args, arg.Plain) :
    Delivers g.args (Cursor.Faces size floor joint
      (Punct.lParen.lexeme :: (Expr.listLexemes args ++ Punct.rParen.lexeme :: rest)))
      (RecoveredAll size floor args rest) := by
  refine delivers_expect _ (delivers_atKind _ ?_)
  have hclose {values : List Expr} {floor' : Nat} (hle : floor ≤ floor')
      (hvalues : values.map Expr.bare = args.map Expr.bare) :
      Delivers (do expectPunct .rParen "expected `)` to close the argument list"; return values : Parser (List Expr))
        (Cursor.Faces size floor' true (Punct.rParen.lexeme :: rest)) (RecoveredAll size floor args rest) :=
    delivers_expect _ (.pure fun _ hfaces => ⟨hvalues, hfaces.mono (Nat.succ_le_succ hle)⟩)
  cases args with
  | nil => exact hclose (Nat.le_succ _) rfl
  | cons arg args =>
    have hfirst : (nextKind (Expr.listLexemes (arg :: args) ++ Punct.rParen.lexeme :: rest) ==
        .punct .rParen) = false := by
      obtain ⟨more, hmore⟩ := exists_listLexemes_eq arg args (Punct.rParen.lexeme :: rest)
      rw [hmore]
      exact beq_eq_false_iff_ne.2 ((hargs arg (.head _)).nextKind_ne (by decide) more)
    have hlist : Delivers g.exprList (Cursor.Faces size (floor + 1) true
        (Expr.listLexemes (arg :: args) ++ Punct.rParen.lexeme :: rest))
        (RecoveredAll size (floor + 1) (arg :: args) (Punct.rParen.lexeme :: rest)) := by
      intro cursor hfaces
      refine delivers_separated h hargs (Nat.le_refl _) ?_ hfaces
      rw [hfaces.sound.count]
      omega
    rw [hfirst, if_neg Bool.false_ne_true]
    exact hlist.bind fun values => .known fun hvalues =>
      hclose (Nat.le_succ_of_le (Nat.le_succ _)) hvalues

/-! ### Primary expressions -/

theorem atParen_eq_false {kind : TokenKind} {strength : Nat} (h : TailKind strength kind) :
    (kind == .punct .lParen) = false := beq_eq_false_iff_ne.2 h.ne_lParen

section Primary

variable {strength : Nat} (htail : Tail strength rest)

include htail

theorem delivers_name (id : NodeId) {word : String} (hword : IsToken .ident word) :
    Delivers g.primary (Cursor.Faces size floor joint (wordLexeme word :: rest))
      (Recovered size floor (.name id word) rest) := by
  rw [wordLexeme_eq_of_ident hword]
  refine delivers_atLambda (delivers_kind (delivers_bumpText (delivers_atKind _ ?_)))
  rw [atParen_eq_false htail.kind, if_neg Bool.false_ne_true, String.ofList_toList]
  exact delivers_freshId fun _ => .pure fun _ hfaces => ⟨rfl, hfaces⟩

omit htail in
theorem delivers_literal {value : Literal} (hreturn : '\r' ∉ value.text.toList) :
    Delivers g.primary (Cursor.Faces size floor joint (value.lexeme :: rest))
      (Recovered size floor (.literal value) rest) := by
  have htext : unifyNewlines (String.ofList value.text.toList) = value.text := by
    rw [String.ofList_toList, unifyNewlines, (unifyChars_of_lf (.of_not_mem hreturn)).1, String.ofList_toList]
  refine delivers_atLambda (delivers_kind (delivers_bumpText (.pure fun _ hfaces => ⟨?_, hfaces⟩)))
  rw [htext]

theorem delivers_this :
    Delivers g.primary (Cursor.Faces size floor joint (wordLexeme "this" :: rest))
      (Recovered size floor .this rest) := by
  refine delivers_atLambda (delivers_kind (delivers_pass (delivers_atKind _ ?_)))
  rw [atParen_eq_false htail.kind, if_neg Bool.false_ne_true]
  exact .pure fun _ hfaces => ⟨rfl, hfaces⟩

end Primary

theorem delivers_paren (h : g.Recovering size (floor + 1)) {inner : Expr} (hinner : inner.Plain) :
    Delivers g.primary (Cursor.Faces size floor joint
      (Punct.lParen.lexeme :: (inner.lexemes ++ Punct.rParen.lexeme :: rest)))
      (Recovered size floor (.paren inner) rest) := by
  have htail : Tail weakestStrength (Punct.rParen.lexeme :: rest) := .closed (by decide)
  refine delivers_atLambda (delivers_kind (delivers_pass ?_))
  refine (h.expr (Nat.le_refl _) hinner htail true).bind fun value => .known fun hvalue => ?_
  exact delivers_expect _ (.pure fun _ hfaces => ⟨hvalue, hfaces.mono (by omega)⟩)

/-- A name that is called without a receiver. -/
theorem delivers_call (h : g.Recovering size (floor + 1)) {word : String} (hword : IsSelector word)
    {args : List Expr} (hargs : ∀ arg ∈ args, arg.Plain) :
    Delivers g.primary (Cursor.Faces size floor joint
      (wordLexeme word :: Punct.lParen.lexeme :: (Expr.listLexemes args ++ Punct.rParen.lexeme :: rest)))
      (Recovered size floor (.call none [] word args) rest) := by
  have hlist (word : String) : Delivers (do return Expr.call none [] word (← g.args) : Parser Expr)
      (Cursor.Faces size (floor + 1) true
        (Punct.lParen.lexeme :: (Expr.listLexemes args ++ Punct.rParen.lexeme :: rest)))
      (Recovered size floor (.call none [] word args) rest) := by
    refine (delivers_args (h.mono (Nat.le_succ _)) hargs).bind fun values => .known fun hvalues => ?_
    refine .pure fun _ hfaces => ⟨?_, hfaces.mono (Nat.le_succ _)⟩
    rw [Expr.bare, Expr.bare, Expr.bareAll_eq_map, Expr.bareAll_eq_map, hvalues]
  rcases hword with hident | rfl | rfl
  · rw [wordLexeme_eq_of_ident hident]
    refine delivers_atLambda (delivers_kind (delivers_bumpText (delivers_atKind _ ?_)))
    rw [String.ofList_toList]
    exact hlist word
  · exact delivers_atLambda (delivers_kind (delivers_pass (delivers_atKind _ (hlist "this"))))
  · exact delivers_atLambda (delivers_kind (delivers_pass (delivers_atKind _ (hlist "super"))))

/-! ### What follows a primary expression -/

/-- Whether a step of a loop goes on with an expression that has been read in front of a rest. -/
abbrev Continued (size floor : Nat) (expr : Expr) (rest : List Lexeme) (result : LoopStep Expr Expr)
    (cursor : Cursor) : Prop :=
  ∃ state, result = .continue state ∧ state.bare = expr.bare ∧ cursor.Faces size (floor + 1) true rest

section Selections

variable {receiver state : Expr} (hstate : state.bare = receiver.bare)

theorem delivers_selection {lexemes : List Lexeme} {expr : Expr}
    (h : Delivers (g.selection state) (Cursor.Faces size (floor + 1) true lexemes)
      (Recovered size (floor + 1) expr rest)) :
    Delivers (g.postfixStep state) (Cursor.Faces size floor joint (Punct.dot.lexeme :: lexemes))
      (Continued size floor expr rest) := by
  refine delivers_kind (delivers_pass (h.bind fun selected => .pure fun _ hselected => ?_))
  exact ⟨selected, rfl, hselected.1, hselected.2.mono (Nat.le_succ _)⟩

include hstate

theorem delivers_field {strength : Nat} (htail : Tail strength rest) {word : String} (hword : IsSelector word) :
    Delivers (g.selection state) (Cursor.Faces size floor joint (wordLexeme word :: rest))
      (Recovered size floor (.field receiver word) rest) := by
  have hfield (word : String) : (Expr.field state word).bare = (Expr.field receiver word).bare := by
    rw [Expr.bare, Expr.bare, hstate]
  rcases hword with hident | rfl | rfl
  · rw [wordLexeme_eq_of_ident hident]
    refine delivers_kind (delivers_bumpText (delivers_atKind _ ?_))
    rw [atParen_eq_false htail.kind, if_neg Bool.false_ne_true, String.ofList_toList]
    exact .pure fun _ hfaces => ⟨hfield word, hfaces⟩
  · exact delivers_kind (delivers_bumpText (.pure fun _ hfaces => ⟨hfield _, hfaces⟩))
  · exact delivers_kind (delivers_bumpText (.pure fun _ hfaces => ⟨hfield _, hfaces⟩))

theorem delivers_callOn (h : g.Recovering size (floor + 1)) {word : String} (hword : IsToken .ident word)
    {args : List Expr} (hargs : ∀ arg ∈ args, arg.Plain) :
    Delivers (g.selection state) (Cursor.Faces size floor joint
      (wordLexeme word :: Punct.lParen.lexeme :: (Expr.listLexemes args ++ Punct.rParen.lexeme :: rest)))
      (Recovered size floor (.call (some receiver) [] word args) rest) := by
  rw [wordLexeme_eq_of_ident hword]
  refine delivers_kind (delivers_bumpText (delivers_atKind _ ?_))
  rw [String.ofList_toList]
  refine (delivers_args (h.mono (Nat.le_succ _)) hargs).bind fun values => .known fun hvalues => ?_
  refine .pure fun _ hfaces => ⟨?_, hfaces.mono (Nat.le_succ _)⟩
  rw [Expr.bare, Expr.bare, Expr.bareAll_eq_map, Expr.bareAll_eq_map, hvalues, hstate]

theorem delivers_index (h : g.Recovering size (floor + 1)) {position : Expr} (hposition : position.Plain) :
    Delivers (g.postfixStep state) (Cursor.Faces size floor joint
      (Punct.lBracket.lexeme :: (position.lexemes ++ Punct.rBracket.lexeme :: rest)))
      (Continued size floor (.index receiver position) rest) := by
  have htail : Tail weakestStrength (Punct.rBracket.lexeme :: rest) := .closed (by decide)
  have hfirst := beq_eq_false_iff_ne.2
    (hposition.nextKind_ne (by decide : Punct.rBracket ∈ _) (Punct.rBracket.lexeme :: rest))
  refine delivers_kind (delivers_peek ?_)
  rw [hfirst, if_neg Bool.false_ne_true]
  refine delivers_pass ((h.expr (Nat.le_refl _) hposition htail true).bind fun value => .known fun hvalue => ?_)
  refine delivers_expect _ (.pure fun _ hfaces => ⟨_, rfl, ?_, hfaces.mono (by omega)⟩)
  rw [Expr.bare, Expr.bare, hstate, hvalue]

theorem delivers_postfix {op : UnaryOp} (hop : op.isPostfix = true) :
    Delivers (g.postfixStep state) (Cursor.Faces size floor joint (op.punct.lexeme :: rest))
      (Continued size floor (.unary op receiver) rest) := by
  have hunary : (Expr.unary op state).bare = (Expr.unary op receiver).bare := by
    rw [Expr.bare, Expr.bare, hstate]
  cases op with
  | postInc => exact delivers_kind (delivers_pass (.pure fun _ hfaces => ⟨_, rfl, hunary, hfaces⟩))
  | postDec => exact delivers_kind (delivers_pass (.pure fun _ hfaces => ⟨_, rfl, hunary, hfaces⟩))
  | _ => cases hop

end Selections

/-- An operand without a prefix operator is read as a primary expression and what follows it. -/
theorem arrives_primary (h : g.Recovering size (floor + 1)) {expr : Expr} (hplain : expr.Plain)
    (hstrength : postfixStrength ≤ expr.precedence) (htail : Tail postfixStrength rest) (joint : Bool) :
    Arrives g.primary g.postfixStep (Cursor.Faces size floor joint (expr.lexemes ++ rest))
      (Recovered size floor expr rest) := by
  have hlater {floor' : Nat} (hle : floor + 1 ≤ floor') : g.Recovering size (floor' + 1) :=
    h.mono (Nat.le_succ_of_le hle)
  have hafter {punct : Punct} {more : List Lexeme}
      (hpunct : punct ∈ [.dot, .lBracket, .plusPlus, .minusMinus]) :
      Tail postfixStrength (punct.lexeme :: more) := .after (Nat.le_refl _) hpunct
  refine Expr.Plain.postfix_induction (motive := fun expr => ∀ rest, Tail postfixStrength rest →
    Arrives g.primary g.postfixStep (Cursor.Faces size floor joint (expr.lexemes ++ rest))
      (Recovered size floor expr rest)) hplain hstrength
    ?name ?literal ?this ?paren ?field ?call ?callOn ?index ?unary rest htail
  case name => exact fun id _ hword _ htail => .refl (delivers_name htail id hword)
  case literal => exact fun _ _ hreturn _ _ => .refl (delivers_literal hreturn)
  case this => exact fun _ htail => .refl (delivers_this htail)
  case paren =>
    intro inner hinner rest htail
    simp only [Expr.lexemes, List.cons_append, List.append_assoc, List.nil_append]
    exact .refl (delivers_paren h hinner)
  case field =>
    intro receiver word hword ih rest htail
    have hreceiver := ih (Punct.dot.lexeme :: wordLexeme word :: rest) (hafter (by decide))
    rw [Expr.lexemes_atLeast, recovered_atLeast] at hreceiver
    simp only [Expr.lexemes, List.cons_append, List.append_assoc, List.nil_append]
    exact hreceiver.next fun state floor' hle hstate =>
      delivers_selection (delivers_field hstate htail hword)
  case call =>
    intro word args hword hargs rest htail
    simp only [Expr.lexemes, List.cons_append, List.append_assoc, List.nil_append]
    exact .refl (delivers_call h hword hargs)
  case callOn =>
    intro receiver word args hword hargs ih rest htail
    simp only [Expr.lexemes, List.cons_append, List.append_assoc, List.nil_append]
    have hreceiver := ih (Punct.dot.lexeme :: wordLexeme word :: Punct.lParen.lexeme ::
      (Expr.listLexemes args ++ Punct.rParen.lexeme :: rest)) (hafter (by decide))
    rw [Expr.lexemes_atLeast, recovered_atLeast] at hreceiver
    exact hreceiver.next fun state floor' hle hstate =>
      delivers_selection (delivers_callOn hstate ((hlater hle).mono (Nat.le_succ _)) hword hargs)
  case index =>
    intro array position hposition ih rest htail
    simp only [Expr.lexemes, List.cons_append, List.append_assoc, List.nil_append]
    have harray := ih (Punct.lBracket.lexeme :: (position.lexemes ++ Punct.rBracket.lexeme :: rest))
      (hafter (by decide))
    rw [Expr.lexemes_atLeast, recovered_atLeast] at harray
    exact harray.next fun state floor' hle hstate => delivers_index hstate (hlater hle) hposition
  case unary =>
    intro op operand hbehind ih rest htail
    have hsign : op.punct ∈ [.dot, .lBracket, .plusPlus, .minusMinus] := by
      rcases UnaryOp.punct_of_isPostfix hbehind with heq | heq <;> rw [heq] <;> decide
    have hoperand := ih (op.punct.lexeme :: rest) (hafter hsign)
    rw [Expr.lexemes_atLeast, recovered_atLeast] at hoperand
    rw [Expr.lexemes, if_pos hbehind, List.append_assoc]
    exact hoperand.next fun state floor' hle hstate => delivers_postfix hstate hbehind

/-! ### Operands -/

theorem signOf?_eq_none {kind : TokenKind} (h : kind.startsPrimary = true) : signOf? kind = none := by
  unfold signOf?
  split <;> first | rfl | cases h

/-- Behind an operand nothing is left that belongs to it. -/
theorem delivers_postfixStep_done {strength : Nat} (htail : TailKind strength (nextKind rest))
    (hstrength : strength < postfixStrength) (expr : Expr) :
    Delivers (g.postfixStep expr) (Cursor.Faces size floor joint rest) fun result cursor =>
      result = .done expr ∧ cursor.Faces size floor joint rest := by
  refine delivers_kind ?_
  generalize nextKind rest = kind at htail
  have hdone : Delivers (pure (.done expr)) (Cursor.Faces size floor joint rest)
      fun (result : LoopStep Expr Expr) cursor => result = .done expr ∧ cursor.Faces size floor joint rest :=
    .pure fun _ hfaces => ⟨rfl, hfaces⟩
  cases htail with
  | ended => exact hdone
  | question => exact hdone
  | closed h =>
    simp only [List.mem_cons, List.not_mem_nil, or_false] at h
    rcases h with rfl | rfl | rfl | rfl <;> exact hdone
  | operator h =>
    simp only [BinaryOp.firstPuncts, List.mem_cons, List.not_mem_nil, or_false] at h
    rcases h with rfl | rfl | rfl | rfl | rfl | rfl | rfl | rfl | rfl | rfl | rfl | rfl | rfl | rfl | rfl | rfl <;>
      exact hdone
  | after hle => exact absurd hle (Nat.not_le_of_lt hstrength)

theorem recovers_operand (h : g.Recovering size (floor + 1)) {expr : Expr} (hplain : expr.Plain)
    (hstrength : unaryStrength ≤ expr.precedence) (htail : Tail unaryStrength rest) :
    Recovers size floor g.operand expr rest := by
  intro joint
  rcases hplain.operand_cases hstrength with hle | ⟨op, operand, rfl, hfront, hoperand⟩
  · refine delivers_kind ?_
    rw [signOf?_eq_none (hplain.startsPrimary hle rest)]
    refine delivers_castHere? h.covers h.orderly ?_
    have hstop : unaryStrength < postfixStrength := by decide
    refine (arrives_primary h hplain hle (htail.mono (Nat.le_of_lt hstop)) joint).loop fun state hstate => ?_
    refine (delivers_postfixStep_done htail.kind hstop state).weaken (fun _ => id) ?_
    exact fun _ _ ⟨hresult, hfaces⟩ => ⟨state, hresult, hstate, hfaces⟩
  · have hsign (rest : List Lexeme) : signOf? (nextKind (op.punct.lexeme :: rest)) = some op := by
      cases op <;> first | rfl | cases hfront
    have hstrong : unaryStrength ≤ primaryStrength := by decide
    have hread (joint : Bool) : Delivers (do return Expr.unary op (← g.unary) : Parser Expr)
        (Cursor.Faces size (floor + 1) joint (wrapped unaryStrength operand operand.lexemes ++ rest))
        (Recovered size floor (.unary op operand) rest) := by
      have hinner := h.unary (Nat.le_refl _) hoperand.atLeast (operand.le_precedence_atLeast hstrong) htail joint
      rw [operand.lexemes_atLeast, recovered_atLeast] at hinner
      refine hinner.bind fun value => .known fun hvalue => .pure fun _ hfaces => ⟨?_, hfaces.mono (by omega)⟩
      rw [Expr.bare, Expr.bare, hvalue]
    simp only [Expr.lexemes, hfront, Bool.false_eq_true, if_false, List.cons_append, List.append_assoc]
    refine delivers_kind ?_
    rw [hsign]
    refine delivers_pass ?_
    split
    · exact delivers_gap (hread false)
    · exact hread true

/-! ### Operators with two operands -/

theorem glued_eq {lexemes : List Lexeme} {cursor : Cursor} (h : cursor.Faces size floor joint lexemes) (n : Nat)
    (punct : Punct) : glued cursor n punct =
      (((wordsOf joint lexemes)[n]?.getD Token.atEnd.word).kind == .punct punct &&
        ((wordsOf joint lexemes)[n]?.getD Token.atEnd.word).joint) := by
  rw [← h.word_tokenAt]
  rfl

/-- The operator in front of a cursor is found, and with it the number of its signs. -/
theorem binaryOp?_eq {op : BinaryOp} {cursor : Cursor}
    (h : cursor.Faces size floor false (op.puncts.map Punct.lexeme ++ gapLexeme :: rest)) :
    binaryOp? cursor = some (op, op.puncts.length) := by
  obtain ⟨word, words, hwords, -, hjoint⟩ := exists_wordsOf_eq false rest
  have hlast : word.joint = false := hjoint rfl
  have hglued := glued_eq h
  unfold binaryOp?
  rw [h.kind_current]
  -- A blank stands behind the last sign, so the token after it touches none.
  cases op with
  | gt | ge | shr | ushr =>
    simp only [BinaryOp.puncts, List.map_cons, List.map_nil, List.cons_append, List.nil_append,
      Punct.lexeme, gapLexeme, wordsOf, hwords] at hglued
    simp [BinaryOp.puncts, nextKind, Punct.lexeme, hglued, hlast]
  | _ => rfl

theorem delivers_bumpTimes (puncts : List Punct) :
    Delivers (bumpTimes puncts.length)
      (Cursor.Faces size floor joint (puncts.map Punct.lexeme ++ gapLexeme :: rest))
      fun _ => Cursor.Faces size (floor + puncts.length) false rest := by
  induction puncts generalizing floor joint with
  | nil => exact delivers_gap (.pure fun _ => id)
  | cons punct puncts ih =>
    refine delivers_pass (ih.weaken (fun _ => id) fun _ _ hfaces => ?_)
    rwa [List.length_cons, Nat.add_comm puncts.length, ← Nat.add_assoc]

/-- An operator that binds tighter than the strength, and its right operand. -/
theorem delivers_binaryStep (h : g.Recovering size (floor + 1)) {op : BinaryOp} {strength : Nat}
    (hstrength : strength < op.precedence) {left state right : Expr} (hstate : state.bare = left.bare)
    (hright : right.Plain) (htail : Tail (binaryBase + op.precedence) rest) :
    Delivers (g.binaryStep strength state) (Cursor.Faces size floor joint
      (op.lexemes ++ (wrapped (binaryBase + op.precedence + 1) right right.lexemes ++ rest)))
      (Continued size floor (.binary op left right) rest) := by
  rw [op.lexemes_eq_cons]
  refine delivers_gap (delivers_atKind _ ?_)
  have hkeyword : (nextKind (op.puncts.map Punct.lexeme ++ gapLexeme ::
      (wrapped (binaryBase + op.precedence + 1) right right.lexemes ++ rest)) ==
        .keyword .instanceofKw) = false := by
    cases op <;> rfl
  rw [hkeyword, if_neg Bool.false_ne_true]
  have hle := op.precedence_le
  have hstrong : binaryBase + op.precedence + 1 ≤ primaryStrength := by
    simp only [binaryBase, primaryStrength]
    omega
  have hweak : binaryBase + op.precedence ≤ unaryStrength := by
    simp only [binaryBase, unaryStrength]
    omega
  have hpos := op.puncts_length_pos
  have hread : Delivers (do
        bumpTimes op.puncts.length
        let right ← g.binary op.precedence
        return .continue (.binary op state right))
      (Cursor.Faces size floor false (op.puncts.map Punct.lexeme ++ gapLexeme ::
        (wrapped (binaryBase + op.precedence + 1) right right.lexemes ++ rest)))
      (Continued size floor (.binary op left right) rest) := by
    refine (delivers_bumpTimes op.puncts).bind fun _ => ?_
    have hoperand := h.binary op.precedence (Nat.add_le_add_left hpos floor) hright.atLeast
      (right.le_precedence_atLeast hstrong) htail (htail.mono hweak) false
    rw [right.lexemes_atLeast, recovered_atLeast] at hoperand
    refine hoperand.bind fun value => .known fun hvalue => .pure fun _ hfaces => ?_
    refine ⟨_, rfl, ?_, hfaces.mono (by omega)⟩
    rw [Expr.bare, Expr.bare, hstate, hvalue]
  refine delivers_here (fun cursor hfaces => ?_) hread
  rw [binaryOp?_eq hfaces]
  exact if_neg (Nat.not_le_of_lt hstrength)

/-- No operator follows that binds tighter than the strength. -/
theorem delivers_binaryStep_done {strength : Nat} (htail : Tail (binaryBase + strength) rest) (expr : Expr) :
    Delivers (g.binaryStep strength expr) (Cursor.Faces size floor joint rest) fun result cursor =>
      result = .done expr ∧ cursor.Faces size floor joint rest := by
  have hkeyword : (nextKind rest == .keyword .instanceofKw) = false := by
    have hkind := htail.kind
    generalize nextKind rest = kind at hkind
    cases hkind <;> rfl
  refine delivers_atKind _ ?_
  rw [hkeyword, if_neg Bool.false_ne_true]
  have hdone : Delivers (pure (.done expr)) (Cursor.Faces size floor joint rest)
      fun (result : LoopStep Expr Expr) cursor => result = .done expr ∧ cursor.Faces size floor joint rest :=
    .pure fun _ hfaces => ⟨rfl, hfaces⟩
  refine delivers_here (fun cursor hfaces => ?_) hdone
  cases htail with
  | operator hstrength =>
    rw [BinaryOp.lexemes_eq_cons] at hfaces
    rw [binaryOp?_eq hfaces.gap]
    exact if_pos (Nat.le_of_add_le_add_left hstrength)
  | ended => rw [binaryOp?, hfaces.kind_current]; rfl
  | question => rw [binaryOp?, hfaces.kind_current]; rfl
  | colon => rw [binaryOp?, hfaces.kind_current]; rfl
  | closed h =>
    simp only [List.mem_cons, List.not_mem_nil, or_false] at h
    rcases h with rfl | rfl | rfl <;> rw [binaryOp?, hfaces.kind_current] <;> rfl
  | after _ h =>
    simp only [List.mem_cons, List.not_mem_nil, or_false] at h
    rcases h with rfl | rfl | rfl | rfl <;> rw [binaryOp?, hfaces.kind_current] <;> rfl

/-- Operands with operators between them are read from the left. -/
theorem arrives_operands (h : g.Recovering size (floor + 1)) {strength : Nat} {expr : Expr}
    (hplain : expr.Plain) (hstrength : binaryBase + strength < expr.precedence)
    (htail : Tail expr.precedence rest) (hunary : Tail unaryStrength rest) (joint : Bool) :
    Arrives g.operand (g.binaryStep strength) (Cursor.Faces size floor joint (expr.lexemes ++ rest))
      (Recovered size floor expr rest) := by
  have hoperand {expr : Expr} {rest : List Lexeme} (hplain : expr.Plain)
      (hstrength : unaryStrength ≤ expr.precedence) (hunary : Tail unaryStrength rest) :
      Arrives g.operand (g.binaryStep strength) (Cursor.Faces size floor joint (expr.lexemes ++ rest))
        (Recovered size floor expr rest) :=
    .refl (recovers_operand h hplain hstrength hunary joint)
  have hself := hplain
  induction hplain generalizing rest with
  | @binary op left right hleft hright ih =>
    have hstrength' : strength < op.precedence := Nat.lt_of_add_lt_add_left hstrength
    have hweak : binaryBase + op.precedence ≤ unaryStrength := by
      have hle := op.precedence_le
      simp only [binaryBase, unaryStrength]
      omega
    have hfirst {more : List Lexeme} : Arrives g.operand (g.binaryStep strength)
        (Cursor.Faces size floor joint
          (wrapped (binaryBase + op.precedence) left left.lexemes ++ (op.lexemes ++ more)))
        (Recovered size floor left (op.lexemes ++ more)) := by
      have hafter : Tail (binaryBase + op.precedence) (op.lexemes ++ more) := .operator (Nat.le_refl _)
      rw [← left.lexemes_atLeast, ← @recovered_atLeast _ _ (binaryBase + op.precedence)]
      unfold Expr.atLeast
      split
      · exact hoperand hleft.paren (Nat.le_of_ble_eq_true rfl) (hafter.mono hweak)
      · have hle := Nat.le_of_not_lt ‹_›
        exact ih (Nat.lt_of_lt_of_le hstrength hle) (hafter.mono hle) (hafter.mono hweak) hleft
    simp only [Expr.lexemes, List.append_assoc]
    refine hfirst.next fun state floor' hle hstate => ?_
    exact delivers_binaryStep (h.mono (Nat.le_succ_of_le hle)) hstrength' hstate hright htail
  | conditional => exact absurd hstrength (Nat.not_lt_of_le (Nat.le_add_right _ _))
  | unary =>
    refine hoperand hself ?_ hunary
    rw [Expr.precedence]
    split <;> decide
  | _ => exact hoperand hself (Nat.le_of_ble_eq_true rfl) hunary

theorem recovers_operands (h : g.Recovering size (floor + 1)) {strength : Nat} {expr : Expr}
    (hplain : expr.Plain) (hstrength : binaryBase + strength < expr.precedence)
    (htail : Tail (binaryBase + strength) rest) (hunary : Tail unaryStrength rest) :
    Recovers size floor (g.operands strength) expr rest := by
  intro joint
  refine (arrives_operands h hplain hstrength (htail.mono (Nat.le_of_lt hstrength)) hunary joint).loop ?_
  intro state hstate
  refine (delivers_binaryStep_done htail state).weaken (fun _ => id) ?_
  exact fun _ _ ⟨hresult, hfaces⟩ => ⟨state, hresult, hstate, hfaces⟩

/-! ### Expressions -/

/-- No assignment follows the weakest expressions. -/
theorem assignOp?_eq_none {cursor : Cursor} (hfaces : cursor.Faces size floor joint rest)
    (htail : TailKind weakestStrength (nextKind rest)) : assignOp? cursor = none := by
  rw [assignOp?, hfaces.kind_current]
  generalize nextKind rest = kind at htail
  cases htail with
  | ended => rfl
  | closed h =>
    simp only [List.mem_cons, List.not_mem_nil, or_false] at h
    rcases h with rfl | rfl | rfl | rfl <;> rfl
  | question hstrength => exact absurd hstrength (by decide)
  | operator _ hstrength => exact absurd hstrength (by decide)
  | after hstrength => exact absurd hstrength (by decide)

theorem recovers_choice (h : g.Recovering size (floor + 1)) {expr : Expr} (hplain : expr.Plain)
    (htail : Tail weakestStrength rest) : Recovers size floor g.choice expr rest := by
  have hoperands {expr : Expr} {rest : List Lexeme} (hplain : expr.Plain)
      (hstrength : binaryBase < expr.precedence) (htail : Tail conditionalStrength rest) :
      Recovers size floor (g.operands 0) expr rest :=
    recovers_operands h hplain hstrength htail (htail.mono (by decide))
  have hsimple {expr : Expr} (hplain : expr.Plain) (hstrength : binaryBase < expr.precedence) :
      Recovers size floor g.choice expr rest := by
    intro joint
    refine (hoperands hplain hstrength (htail.mono (by decide)) joint).bind fun value => .known fun hvalue => ?_
    exact delivers_eat_ne htail.kind.ne_question (.pure fun _ hfaces => ⟨hvalue, hfaces⟩)
  have hself := hplain
  intro joint
  cases hplain with
  | @conditional cond yes no hcond hyes hno =>
    have hfirst {more : List Lexeme} : Delivers (g.operands 0)
        (Cursor.Faces size floor joint (wrapped (conditionalStrength + 1) cond cond.lexemes ++
          gapLexeme :: Punct.question.lexeme :: gapLexeme :: more))
        (Recovered size floor cond (gapLexeme :: Punct.question.lexeme :: gapLexeme :: more)) := by
      rw [← cond.lexemes_atLeast, ← @recovered_atLeast _ _ (conditionalStrength + 1)]
      exact hoperands hcond.atLeast (cond.le_precedence_atLeast (by decide)) (.question (Nat.le_refl _)) joint
    have hsecond {more : List Lexeme} {floor' : Nat} (hle : floor + 1 ≤ floor') : Delivers g.ternary
        (Cursor.Faces size floor' false (yes.lexemes ++
          gapLexeme :: Punct.colon.lexeme :: gapLexeme :: more))
        (Recovered size floor' yes (gapLexeme :: Punct.colon.lexeme :: gapLexeme :: more)) :=
      h.ternary hle hyes .colon false
    have hthird {floor' : Nat} (hle : floor + 1 ≤ floor') : Delivers g.ternary
        (Cursor.Faces size floor' false (wrapped conditionalStrength no no.lexemes ++ rest))
        (Recovered size floor' no rest) := by
      rw [← no.lexemes_atLeast, ← @recovered_atLeast _ _ conditionalStrength]
      exact h.ternary hle hno.atLeast htail false
    simp only [Expr.lexemes, List.append_assoc, List.cons_append]
    refine hfirst.bind fun cond' => .known fun hcond' => delivers_gap (delivers_eat (delivers_gap ?_))
    refine (hsecond (Nat.le_succ _)).bind fun yes' => .known fun hyes' => delivers_gap ?_
    refine delivers_expect _ (delivers_gap ?_)
    refine (hthird (by omega)).bind fun no' => .known fun hno' => .pure fun _ hfaces => ⟨?_, hfaces.mono (by omega)⟩
    rw [Expr.bare, Expr.bare, hcond', hyes', hno']
  | @binary op => exact hsimple hself (Nat.lt_add_of_pos_right (by cases op <;> decide)) joint
  | unary =>
    refine hsimple hself ?_ joint
    rw [Expr.precedence]
    split <;> decide
  | _ => exact hsimple hself (Nat.le_of_ble_eq_true rfl) joint

theorem recovers_expression (h : g.Recovering size (floor + 1)) {expr : Expr} (hplain : expr.Plain)
    (htail : Tail weakestStrength rest) : Recovers size floor g.expression expr rest := by
  intro joint
  refine (recovers_choice h hplain htail joint).bind fun value => .known fun hvalue => ?_
  have hdone : Delivers (pure value) (Cursor.Faces size (floor + 1) true rest) (Recovered size floor expr rest) :=
    .pure fun _ hfaces => ⟨hvalue, hfaces⟩
  refine delivers_here (fun cursor hfaces => ?_) hdone
  rw [assignOp?_eq_none hfaces htail.kind]

/-! ### The whole grammar -/

theorem recovering_step {bottom : Nat} (h : g.Recovering size (bottom + 1)) : g.step.Recovering size bottom where
  covers := covers_step h.covers
  orderly := orderly_step h.orderly
  expr := fun hle hplain htail => recovers_expression (h.mono (Nat.succ_le_succ hle)) hplain htail
  ternary := fun hle hplain htail => recovers_choice (h.mono (Nat.succ_le_succ hle)) hplain htail
  binary := fun _ hle hplain hstrength htail hunary =>
    recovers_operands (h.mono (Nat.succ_le_succ hle)) hplain hstrength htail hunary
  unary := fun hle hplain hstrength htail =>
    recovers_operand (h.mono (Nat.succ_le_succ hle)) hplain hstrength htail

theorem recovering_grammar (depth : Nat) {size bottom : Nat} (h : size ≤ bottom + depth) :
    (grammar depth).Recovering size bottom := by
  induction depth generalizing bottom with
  | zero =>
    have hover {floor : Nat} {parser : Parser Expr} {expr : Expr} {rest : List Lexeme} (hle : bottom ≤ floor) :
        Recovers size floor parser expr rest := fun _ => delivers_of_size_le (Nat.le_trans h hle)
    exact ⟨covers_grammar 0 h, orderly_grammar 0, fun hle _ _ => hover hle, fun hle _ _ => hover hle,
      fun _ hle _ _ _ _ => hover hle, fun hle _ _ _ => hover hle⟩
  | succ depth ih => exact recovering_step (ih (by omega))

end Grammar

/-! ### Whole texts -/

/-- Whether a text is read as an expression from its first token to its last, and as which one, parentheses apart. -/
def ReadsBack (text : String) (expr : Expr) : Prop :=
  ∃ stream, tokens text = .ok stream ∧ ∀ nextId, ∃ result cursor,
    (grammar (stream.length + 1)).expression (Cursor.start text.toList.toArray stream nextId) = .ok result cursor ∧
      cursor.current.kind = .eof ∧ result.bare = expr.bare

/-- Every expression of names, literals and operators is read back from its canonical text, if no postfix operator follows a number that would take its sign. -/
theorem readsBack_canonicalText {expr : Expr} (hplain : expr.Plain) (happart : expr.signsApart = true) :
    ReadsBack (canonicalText expr.doc) expr := by
  have hfits : FitsAll expr.lexemes := by
    have hfits := hplain.fitsIn happart .ended (fun _ => nofun) trivial
    rwa [List.append_nil] at hfits
  rw [canonicalText, (hplain.writes .canonical).render_eq]
  refine ⟨_, hfits.scansAll.tokens_eq, fun nextId => ?_⟩
  have hstart : Cursor.Faces (Token.ofLexemes expr.lexemes).length 0 false (expr.lexemes ++ [])
      (Cursor.start (charsOf expr.lexemes).toArray (Token.ofLexemes expr.lexemes) nextId) := by
    rw [List.append_nil]
    exact hfits.scansAll.sees_start (hfits.calm false) nextId
  have hgrammar : (grammar ((Token.ofLexemes expr.lexemes).length + 1)).Recovering
      (Token.ofLexemes expr.lexemes).length 1 := Grammar.recovering_grammar _ (by omega)
  obtain ⟨result, cursor, hok, hbare, hfaces⟩ :=
    Grammar.recovers_expression hgrammar hplain .ended false hstart
  exact ⟨result, cursor, by rwa [String.toList_ofList], hfaces.kind_current, hbare⟩

/-- A product of a sum and a number with two signs, `(a + 1) * - -b`. -/
def signedProduct : Expr :=
  .binary .mul (.binary .add (.name 0 "a") (.literal ⟨.int, "1"⟩))
    (.unary .minus (.unary .minus (.name 1 "b")))

theorem plain_signedProduct : signedProduct.Plain :=
  .binary (.binary (.name (isToken_of_eq rfl rfl rfl)) (.literal (isToken_of_eq rfl rfl rfl) (by decide)))
    (.unary (.unary (.name (isToken_of_eq rfl rfl rfl))))

theorem readsBack_canonicalText_signedProduct : signedProduct.Plain ∧ signedProduct.signsApart = true ∧
    ReadsBack (canonicalText signedProduct.doc) signedProduct :=
  ⟨plain_signedProduct, rfl, readsBack_canonicalText plain_signedProduct rfl⟩

/-- A number that ends in the mark of an exponent, with an operator behind it. -/
def openCount : Expr := .unary .postInc (.literal ⟨.double, "1e"⟩)

theorem plain_openCount : openCount.Plain :=
  .unary (.literal (isToken_of_eq rfl rfl rfl) (by decide))

/-- The first sign behind such a number is read as that of its exponent, and what is left is no expression. -/
theorem not_readsBack_openCount :
    openCount.Plain ∧ ¬ ReadsBack (canonicalText openCount.doc) openCount := by
  refine ⟨plain_openCount, ?_⟩
  rintro ⟨stream, hstream, h⟩
  obtain ⟨result, cursor, hok, -⟩ := h 0
  have htokens : tokens (canonicalText openCount.doc) = .ok (Token.ofLexemes
      [.token (.literal .double) ['1', 'e', '+'], .token (.punct .plus) ['+']]) := by decide +kernel
  cases htokens.symm.trans hstream
  cases hok

end AdviceMigration.Source
