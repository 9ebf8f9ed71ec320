import AdviceMigration.Proofs.Source.Halting

/-!
# Reading stops

Every production passes a token before it calls another one again, so the number of tokens bounds how deep the calls can nest. Reading a text therefore ends with a unit or with a syntax error, whatever the text is: no bound is met, no token is looked for behind the last one, no parenthesis is closed that is not open, and no piece of the text ends before it starts.
-/

namespace AdviceMigration.Source

namespace Grammar

/-- Whether the inner productions stop from every token on, `bottom` being the first, and pass it. -/
structure Covers (g : Grammar) (size bottom : Nat) : Prop where
  type : ∀ {floor}, bottom ≤ floor → Moves size floor g.type
  elementValue : ∀ {floor}, bottom ≤ floor → Moves size floor g.elementValue
  expr : ∀ {floor}, bottom ≤ floor → Moves size floor g.expr
  ternary : ∀ {floor}, bottom ≤ floor → Moves size floor g.ternary
  binary : ∀ {floor} strength, bottom ≤ floor → Moves size floor (g.binary strength)
  unary : ∀ {floor}, bottom ≤ floor → Moves size floor g.unary
  varInit : ∀ {floor}, bottom ≤ floor → Moves size floor g.varInit
  stmt : ∀ {floor}, bottom ≤ floor → Moves size floor g.stmt
  members : ∀ {floor}, bottom ≤ floor → Stays size floor g.members

theorem Covers.mono {g : Grammar} {size bottom bottom' : Nat} (h : g.Covers size bottom)
    (hle : bottom ≤ bottom') : g.Covers size bottom' where
  type := fun hfloor => h.type (Nat.le_trans hle hfloor)
  elementValue := fun hfloor => h.elementValue (Nat.le_trans hle hfloor)
  expr := fun hfloor => h.expr (Nat.le_trans hle hfloor)
  ternary := fun hfloor => h.ternary (Nat.le_trans hle hfloor)
  binary := fun strength hfloor => h.binary strength (Nat.le_trans hle hfloor)
  unary := fun hfloor => h.unary (Nat.le_trans hle hfloor)
  varInit := fun hfloor => h.varInit (Nat.le_trans hle hfloor)
  stmt := fun hfloor => h.stmt (Nat.le_trans hle hfloor)
  members := fun hfloor => h.members (Nat.le_trans hle hfloor)

variable {g : Grammar} {size floor : Nat}

/-- What the inner productions do behind the first token. -/
theorem Covers.later (h : g.Covers size (floor + 1)) {floor' : Nat} (hle : floor ≤ floor') :
    g.Covers size (floor' + 1) := h.mono (Nat.succ_le_succ hle)

/-! ### Annotations, modifiers and types -/

theorem moves_qualifiedName (message : String) : Moves size floor (qualifiedName message) := by
  refine .bind (moves_expectIdent message) fun first => halts_loop (fun name floor' hle => ?_) first
  refine halts_ifAtNext ?_ (.pure (Mark.implies_past hle))
  exact .bind (halts_bump (punct_ne_eof _)) fun _ => .skip stays_bumpText fun _ => .pure fun _ => id

theorem moves_elementPair (h : g.Covers size (floor + 1)) : Moves size floor g.elementPair :=
  .bind (moves_expectIdent _) fun _ => .skip (moves_expectPunct _ _).stays fun _ =>
    .map (h.elementValue (Nat.le_refl _)).stays

theorem moves_annot (h : g.Covers size (floor + 1)) : Moves size floor g.annot := by
  refine .bind (moves_expectPunct _ _) fun _ => .skip (moves_qualifiedName _).stays fun name => ?_
  refine .skip (stays_eat (punct_ne_eof _)) fun _ => .ite (fun _ => ?_) fun _ => .pure fun _ => id
  refine .skip (stays_eat (punct_ne_eof _)) fun _ => .ite (fun _ => .pure fun _ => id) fun _ => ?_
  refine .skip (stays_atKind _) fun _ => .bind (halts_peek 1) fun _ => .ite (fun _ => ?_) fun _ => ?_
  · refine .skip (moves_separatedBy fun floor' hle => ?_).stays fun _ => ?_
    · exact moves_elementPair (h.mono (Nat.le_succ_of_le hle))
    · exact .skip (moves_expectPunct _ _).stays fun _ => .pure fun _ => id
  · exact .skip (h.elementValue (Nat.le_refl _)).stays fun _ =>
      .skip (moves_expectPunct _ _).stays fun _ => .pure fun _ => id

theorem stays_atAnnot : Stays size floor atAnnot :=
  .skip (stays_atKind _) fun _ => .bind (halts_peek 1) fun _ => .pure fun _ => id

theorem modifierOf?_ne_eof {kind next : TokenKind} {modifier : Modifier}
    (h : modifierOf? kind next = some modifier) : kind ≠ .eof := by
  rintro rfl
  cases h

theorem stays_modifiers (h : g.Covers size (floor + 1)) : Stays size floor g.modifiers := by
  refine halts_loop (fun (annots, modifiers) floor' hle => ?_) _
  refine .skip stays_atAnnot fun _ => .ite (fun _ => ?_) fun _ => ?_
  · exact .bind (moves_annot (h.later hle)) fun _ => .pure fun _ => id
  · refine .bind halts_kind fun kind => .bind (halts_peek 1) fun next => ?_
    split
    next hmodifier =>
      exact .bind (halts_bump (modifierOf?_ne_eof hmodifier)) fun _ => .pure fun _ => id
    next => exact .pure (Mark.implies_past hle)

/-- A loop over empty pairs of brackets. -/
theorem stays_whileBrackets {α : Type} (more : α → α) (state : α) :
    Stays size floor (loop (fun state => do
      if ← atBrackets then
        bump
        bump
        return .continue (more state)
      else return .done state) state) := by
  refine halts_loop (fun state floor' hle => .bind halts_atBrackets fun found => ?_) state
  cases found with
  | true => exact .bind (halts_bump (punct_ne_eof _)) fun _ => .skip stays_bump fun _ => .pure fun _ => id
  | false => exact .pure (Mark.implies_past hle)

theorem stays_brackets (type : TypeRef) : Stays size floor (brackets type) :=
  stays_whileBrackets .array type

theorem moves_typeArg (h : g.Covers size floor) : Moves size floor g.typeArg := by
  refine .skip (stays_manyWhile (stays_atKind _) fun floor' hle => ?_) fun _ => ?_
  · exact moves_annot (h.mono (Nat.le_succ_of_le hle))
  · refine halts_ifEat (punct_ne_eof _) ?_ (.map (h.type (Nat.le_refl _)))
    have htype : Stays size (floor + 1) g.type := (h.type (Nat.le_succ _)).stays
    refine .skip (stays_eat (keyword_ne_eof _)) fun _ => .ite (fun _ => .map htype) fun _ => ?_
    refine .skip (stays_eat (keyword_ne_eof _)) fun _ => .ite (fun _ => .map htype) fun _ => ?_
    exact .pure fun _ => id

theorem moves_typeArgs (h : g.Covers size (floor + 1)) : Moves size floor g.typeArgs := by
  refine .bind (moves_expectPunct _ _) fun _ => ?_
  refine .skip (stays_eat (punct_ne_eof _)) fun _ => .ite (fun _ => .pure fun _ => id) fun _ => ?_
  refine .skip (moves_separatedBy fun floor' hle => moves_typeArg (h.mono hle)).stays fun _ => ?_
  exact .skip (moves_expectPunct _ _).stays fun _ => .pure fun _ => id

theorem moves_typeSegment (h : g.Covers size (floor + 1)) : Moves size floor g.typeSegment := by
  refine .bind (moves_expectIdent _) fun _ => .skip (stays_atKind _) fun _ => .ite (fun _ => ?_) fun _ => ?_
  · exact .map (moves_typeArgs (h.later (Nat.le_succ _))).stays
  · exact .pure fun _ => id

theorem moves_classType (h : g.Covers size (floor + 1)) : Moves size floor g.classType := by
  refine .map (halts_loop (fun segments floor' hle => ?_) _)
  refine .bind (moves_typeSegment (h.later hle)) fun segment => halts_ifAtNext ?_ (.pure ?_)
  · exact .bind (halts_bump (punct_ne_eof _)) fun _ => .pure (Mark.implies_past (Nat.le_succ _))
  · exact Mark.implies_past (Nat.succ_le_succ hle)

theorem primitive?_ne_eof {kind : TokenKind} {primitive : PrimitiveType}
    (h : kind.primitive? = some primitive) : kind ≠ .eof := by
  rintro rfl
  cases h

theorem moves_typeRef (h : g.Covers size (floor + 1)) : Moves size floor g.typeRef := by
  refine .skip (stays_manyWhile stays_atAnnot fun floor' hle => moves_annot (h.later hle)) fun _ => ?_
  refine .bind halts_kind fun kind => ?_
  split
  next hprimitive =>
    exact .bind (halts_bump (primitive?_ne_eof hprimitive)) fun _ => stays_brackets _
  next =>
    refine .of_past ?_ (Nat.le_refl _)
    refine .skip (stays_atKind _) fun _ => .ite (fun _ => ?_) fun _ => halts_complain _
    exact .bind (moves_classType h) stays_brackets

theorem moves_typeList (h : g.Covers size (floor + 1)) : Moves size floor g.typeList :=
  moves_separatedBy fun _ hle => moves_typeRef (h.later hle)

theorem moves_typeParam (h : g.Covers size (floor + 1)) : Moves size floor g.typeParam := by
  refine .skip (stays_manyWhile (stays_atKind _) fun floor' hle => moves_annot (h.later hle)) fun _ => ?_
  refine .bind (moves_expectIdent _) fun _ => .skip (stays_eat (keyword_ne_eof _)) fun _ => ?_
  refine .ite (fun _ => .map (moves_separatedBy fun floor' hle => ?_).stays) fun _ => .pure fun _ => id
  exact moves_typeRef (h.mono (Nat.le_succ_of_le hle))

theorem stays_typeParams (h : g.Covers size (floor + 1)) : Stays size floor g.typeParams := by
  refine halts_ifEat (punct_ne_eof _) ?_ (.pure fun _ => id)
  refine .skip (moves_separatedBy fun floor' hle => ?_).stays fun _ => ?_
  · exact moves_typeParam (h.mono (Nat.le_succ_of_le hle))
  · exact .skip (moves_expectPunct _ _).stays fun _ => .pure (Mark.implies_past (Nat.le_succ _))

/-! ### Lookahead -/

/-- Behind an open parenthesis none is closed that is not open. -/
theorem arrowAfterParens?_ne_none (depth : Nat) (kinds : List TokenKind) :
    arrowAfterParens? (depth + 1) kinds ≠ none := by
  induction kinds generalizing depth with
  | nil => exact nofun
  | cons kind rest ih =>
    unfold arrowAfterParens?
    split
    next heq => cases heq
    next heq =>
      cases heq
      exact ih _
    next heq =>
      cases heq
      cases depth with
      | zero => exact nofun
      | succ depth => exact ih depth
    next => exact nofun
    next => exact nofun
    next => exact nofun
    next heq =>
      cases heq
      exact ih depth

/-- A parenthesis opens the tokens that are searched for the arrow of a lambda expression. -/
theorem arrowAfterParens?_of_current {cursor : Cursor}
    (hcurrent : cursor.current.kind = .punct .lParen) :
    arrowAfterParens? 0 ((cursor.tokens.extract cursor.position cursor.tokens.size).toList.map
      (·.kind)) ≠ none := by
  have hlt : cursor.position < cursor.tokens.size := by
    by_contra hnot
    simp [Cursor.current, Cursor.tokenAt, hnot, Token.atEnd] at hcurrent
  have hfirst : cursor.tokens.toList[cursor.position].kind = .punct .lParen := by
    simpa [Cursor.current, Cursor.tokenAt, hlt] using hcurrent
  rw [Array.toList_extract, List.extract_eq_take_drop, List.take_of_length_le (by simp),
    List.drop_eq_getElem_cons hlt, List.map_cons, hfirst]
  exact arrowAfterParens?_ne_none 0 _

theorem stays_atLambda : Stays size floor atLambda := by
  refine halts_here fun cursor _ => .of_past ?_ (Nat.le_refl _)
  refine .ite (fun _ => .pure fun _ => id) fun _ => ?_
  split
  next => exact .bind (halts_peek 1) fun _ => .pure fun _ => id
  next hcurrent =>
    dsimp only
    split
    next => exact .pure fun _ => id
    next hnone => exact absurd hnone (arrowAfterParens?_of_current hcurrent)
  next => exact .pure fun _ => id

/-- The mark once it is known whether a cast starts: its type has been passed. -/
def castMark (floor : Nat) : Option TypeRef → Mark
  | some _ => .past (floor + 1)
  | none => .past floor

theorem halts_castType? (h : g.Covers size (floor + 1)) :
    Halts size (.past floor) g.castType? (castMark floor) := by
  refine halts_position fun start hstart hsize => ?_
  have hback {mark : Mark} :
      Halts size mark (do rewind start; return none : Parser (Option TypeRef)) (castMark floor) :=
    .bind (halts_rewind hsize) fun _ => .pure (Mark.implies_past hstart)
  refine .skip stays_bump fun _ => .bind halts_kind fun kind => .of_past ?_ (Nat.le_refl _)
  refine .bind (halts_attempt (moves_typeRef (h.later hstart))) fun type => ?_
  cases type with
  | none => exact hback
  | some type =>
    refine .skip (stays_eat (punct_ne_eof _)) fun _ => .ite (fun _ => ?_) fun _ => hback
    refine .bind halts_kind fun next => .ite (fun _ => .pure ?_) fun _ => hback
    exact Mark.implies_past (Nat.succ_le_succ hstart)

theorem stays_atLocalVar (h : g.Covers size (floor + 1)) : Stays size floor g.atLocalVar := by
  refine halts_position fun start hstart hsize => ?_
  have hback {mark : Mark} (isDecl : Bool) :
      Halts size mark (do rewind start; return isDecl : Parser Bool) fun _ => .past floor :=
    .bind (halts_rewind hsize) fun _ => .pure (Mark.implies_past hstart)
  refine .bind (halts_attempt (moves_typeRef (h.later hstart))) fun type => ?_
  cases type with
  | none => exact hback false
  | some type => exact .skip (stays_atKind _) fun _ => .bind (halts_peek 1) fun _ => hback _

theorem halts_castHere? (h : g.Covers size (floor + 1)) :
    Halts size (.past floor) g.castHere? (castMark floor) := by
  refine .skip (stays_atKind _) fun _ => .ite (fun _ => ?_) fun _ => .pure fun _ => id
  exact .skip stays_atLambda fun _ => .ite (fun _ => .pure fun _ => id) fun _ => halts_castType? h

/-! ### Primary expressions -/

theorem moves_exprList (h : g.Covers size floor) : Moves size floor g.exprList :=
  moves_separatedBy fun _ hle => h.expr hle

theorem moves_args (h : g.Covers size (floor + 1)) : Moves size floor g.args := by
  refine .bind (moves_expectPunct _ _) fun _ => .skip (stays_atKind _) fun _ => ?_
  refine .branch (fun _ => .pure fun _ => id) (fun _ => (moves_exprList h).stays) fun args => ?_
  exact .skip (moves_expectPunct _ _).stays fun _ => .pure fun _ => id

theorem moves_parenExpr (h : g.Covers size (floor + 1)) : Moves size floor g.parenExpr := by
  refine .bind (moves_expectPunct _ _) fun _ => .skip (h.expr (Nat.le_refl _)).stays fun _ => ?_
  exact .skip (moves_expectPunct _ _).stays fun _ => .pure fun _ => id

theorem moves_arrayItems (h : g.Covers size (floor + 1)) : Moves size floor g.arrayItems := by
  refine .bind (moves_expectPunct _ _) fun _ => .skip (stays_listUntil fun _ hle => h.varInit hle) ?_
  exact fun _ => .skip (moves_expectPunct _ _).stays fun _ => .pure fun _ => id

theorem moves_methodRefName : Moves size floor methodRefName :=
  halts_ifEat (keyword_ne_eof _) (.pure fun _ => id) (moves_expectIdent _)

theorem moves_afterType (type : TypeRef) : Moves size floor (afterType type) := by
  refine halts_ifEat (punct_ne_eof _) (.map moves_methodRefName.stays) ?_
  refine .bind (moves_expectPunct _ _) fun _ => ?_
  exact .skip (moves_expect (keyword_ne_eof _) _).stays fun _ => .pure fun _ => id

theorem halts_literalOf (kind : LiteralKind) :
    Halts size (.seeing floor (.literal kind)) (literalOf kind) fun _ => .past (floor + 1) :=
  .map (halts_bumpText nofun)

theorem moves_classBody (h : g.Covers size (floor + 1)) : Moves size floor g.classBody :=
  .bind (moves_expectPunct _ _) fun _ => .map (h.members (Nat.le_refl _))

theorem stays_arrayDims (h : g.Covers size (floor + 1)) : Stays size floor g.arrayDims := by
  refine stays_manyWhile_eat (punct_ne_eof _) fun floor' hlt => ?_
  refine .skip (stays_eat (punct_ne_eof _)) fun _ => .ite (fun _ => .pure fun _ => id) fun _ => ?_
  exact .skip (h.expr hlt).stays fun _ => .skip (moves_expectPunct _ _).stays fun _ => .pure fun _ => id

/-- An object or array creation from the type on. -/
theorem stays_created (h : g.Covers size (floor + 1)) (outer : Option Expr) (type : TypeRef) :
    Stays size floor (do
      if ← atPunct .lBracket then
        let dims ← g.arrayDims
        let init ← if ← atPunct .lBrace then pure (some (← g.arrayItems)) else pure none
        return Expr.newArray type dims init
      else
        let args ← g.args
        let body ← if ← atPunct .lBrace then pure (some (← g.classBody)) else pure none
        return Expr.new outer type args body) := by
  refine .skip (stays_atKind _) fun _ => .ite (fun _ => ?_) fun _ => ?_
  · refine .skip (stays_arrayDims h) fun dims => .skip (stays_atKind _) fun _ => ?_
    exact .optional (moves_arrayItems h).stays fun init => .pure fun _ => id
  · refine .skip (moves_args h).stays fun args => .skip (stays_atKind _) fun _ => ?_
    exact .optional (moves_classBody h).stays fun body => .pure fun _ => id

theorem moves_creation (h : g.Covers size (floor + 1)) (outer : Option Expr) :
    Moves size floor (g.creation outer) := by
  have hlater := h.later (Nat.le_succ floor)
  refine .bind (moves_expect (keyword_ne_eof _) _) fun _ => .skip (stays_atKind _) fun _ => ?_
  refine .ite (fun _ => halts_complain _) fun _ => .bind halts_kind fun kind => ?_
  refine .of_past ?_ (Nat.le_refl _)
  cases kind.primitive? with
  | some primitive => exact .skip stays_bump fun _ => stays_created hlater outer _
  | none => exact .skip (moves_classType hlater).stays (stays_created hlater outer)

theorem moves_lambdaParam (h : g.Covers size (floor + 1)) : Moves size floor g.lambdaParam := by
  refine .skip (stays_modifiers h) fun (_, modifiers) => .bind (halts_peek 1) fun next => ?_
  refine .bind (halts_atKind _) fun found => ?_
  have htyped : Moves size floor (do
      let type ← g.typeRef
      let type := if ← eatPunct .ellipsis then .array type else type
      let name ← expectIdent "expected lambda parameter name"
      return ⟨← freshId, modifiers, some type, name⟩ : Parser LambdaParam) := by
    refine .bind (moves_typeRef h) fun _ => .skip (stays_eat (punct_ne_eof _)) fun _ => ?_
    refine .skip (moves_expectIdent _).stays fun _ => .skip stays_freshId fun _ => .pure fun _ => id
  cases found with
  | false => exact .ite (fun hfalse => nomatch hfalse) fun _ => htyped
  | true =>
    refine .ite (fun _ => ?_) fun _ => htyped.of_past (Nat.le_refl _)
    exact .bind (halts_bumpText nofun) fun _ => .skip stays_freshId fun _ => .pure fun _ => id

theorem moves_lambdaParams (h : g.Covers size (floor + 1)) : Moves size floor g.lambdaParams := by
  refine halts_ifAt ?_ (.bind (moves_expectPunct _ _) fun _ => ?_)
  · exact .bind (halts_bumpText nofun) fun _ => .skip stays_freshId fun _ => .pure fun _ => id
  · refine .skip (stays_listUntil fun floor' hle => ?_) fun params => ?_
    · exact moves_lambdaParam (h.mono (Nat.le_succ_of_le hle))
    · exact .skip (moves_expectPunct _ _).stays fun _ => .pure fun _ => id

theorem moves_block (h : g.Covers size (floor + 1)) : Moves size floor g.block := by
  refine .bind (moves_expectPunct _ _) fun _ => .skip (halts_loop (fun stmts floor' hle => ?_) []) ?_
  · refine .skip (stays_atKind _) fun _ => .ite (fun _ => .pure (Mark.implies_past hle)) fun _ => ?_
    refine .skip (stays_atKind _) fun _ => .ite (fun _ => halts_complain _) fun _ => ?_
    exact .bind (h.stmt hle) fun _ => .pure fun _ => id
  · exact fun stmts => .skip stays_takeClosing fun _ => .skip stays_bump fun _ => .pure fun _ => id

theorem moves_lambda (h : g.Covers size (floor + 1)) : Moves size floor g.lambda := by
  refine .bind (moves_lambdaParams h) fun _ => .skip (moves_expectPunct _ _).stays fun _ => ?_
  refine .skip (halts_withNoLambda false ?_) fun _ => .pure fun _ => id
  refine .skip (stays_atKind _) fun _ => .ite (fun _ => ?_) fun _ => .map (h.expr (Nat.le_refl _)).stays
  exact .map (moves_block (h.later (Nat.le_succ _))).stays

theorem halts_selfReference (h : g.Covers size (floor + 1)) {kind : TokenKind} (hkind : kind ≠ .eof)
    (word : String) (self : Expr) :
    Halts size (.seeing floor kind) (g.selfReference word self) fun _ => .past (floor + 1) := by
  refine .bind (halts_bump hkind) fun _ => .skip (stays_atKind _) fun _ => .ite (fun _ => ?_) fun _ => ?_
  · exact .map (moves_args (h.later (Nat.le_succ _))).stays
  · exact .pure fun _ => id

theorem moves_primary (h : g.Covers size (floor + 1)) : Moves size floor g.primary := by
  have hlater := h.later (Nat.le_succ floor)
  refine .skip stays_atLambda fun _ => .ite (fun _ => moves_lambda h) fun _ => ?_
  refine .bind halts_kind fun kind => ?_
  split
  · exact halts_literalOf _
  · refine .bind (halts_bump nofun) fun _ => .skip (h.expr (Nat.le_refl _)).stays fun _ => ?_
    exact .skip (moves_expectPunct _ _).stays fun _ => .pure fun _ => id
  · exact halts_selfReference h (keyword_ne_eof _) "this" .this
  · exact halts_selfReference h (keyword_ne_eof _) "super" .super
  · exact (moves_creation h none).of_past (Nat.le_refl _)
  · refine .bind (halts_bumpText nofun) fun _ => .skip (stays_atKind _) fun _ => .ite (fun _ => ?_) ?_
    · exact .map (moves_args hlater).stays
    · exact fun _ => .map stays_freshId
  · exact .bind (halts_bump nofun) fun _ => (moves_afterType .void).stays
  · exact (halts_complain _).of_past (Nat.le_refl _)
  · refine .of_past (.ite (fun _ => ?_) fun _ => halts_complain _) (Nat.le_refl _)
    exact .bind (moves_typeRef h) fun type => (moves_afterType type).stays

/-! ### Operators -/

theorem stays_selection (h : g.Covers size (floor + 1)) (receiver : Expr) :
    Stays size floor (g.selection receiver) := by
  refine .bind halts_kind fun kind => .of_past ?_ (Nat.le_refl _)
  split
  · refine .skip stays_bumpText fun _ => .skip (stays_atKind _) fun _ => .ite (fun _ => ?_) fun _ => ?_
    · exact .map (moves_args h).stays
    · exact .pure fun _ => id
  · refine .skip (moves_typeArgs h).stays fun _ => .skip (moves_expectIdent _).stays fun _ => ?_
    exact .map (moves_args h).stays
  · exact .map stays_bumpText
  · exact .map stays_bumpText
  · split
    · exact .skip stays_bump fun _ => .pure fun _ => id
    · exact halts_complain _
  · exact (moves_creation h _).stays
  · exact halts_complain _

theorem halts_postfixStep (h : g.Covers size (floor + 1)) (expr : Expr) :
    Halts size (.past floor) (g.postfixStep expr)
      (LoopStep.known (fun _ => .past (floor + 1)) fun _ => .past floor) := by
  refine .bind halts_kind fun kind => ?_
  split
  · refine .bind (halts_bump nofun) fun _ => ?_
    exact .skip (stays_selection (h.later (Nat.le_succ _)) expr) fun _ => .pure fun _ => id
  · refine .bind (halts_peek 1) fun _ => .ite (fun _ => .of_past ?_ (Nat.le_refl _)) fun _ => ?_
    · split
      · refine .skip (stays_brackets _) fun type => ?_
        exact .skip (moves_afterType type).stays fun _ => .pure fun _ => id
      · exact halts_complain _
    · refine .bind (halts_bump nofun) fun _ => .skip (h.expr (Nat.le_refl _)).stays fun _ => ?_
      exact .skip (moves_expectPunct _ _).stays fun _ => .pure fun _ => id
  · exact .bind (halts_bump nofun) fun _ => .pure fun _ => id
  · exact .bind (halts_bump nofun) fun _ => .pure fun _ => id
  · exact .bind (halts_bump nofun) fun _ => .skip moves_methodRefName.stays fun _ => .pure fun _ => id
  · exact .pure (Mark.implies_past (Nat.le_refl _))

theorem signOf?_ne_eof {kind : TokenKind} {op : UnaryOp} (h : signOf? kind = some op) :
    kind ≠ .eof := by
  rintro rfl
  cases h

theorem moves_operand (h : g.Covers size (floor + 1)) : Moves size floor g.operand := by
  have hunary : Stays size (floor + 1) g.unary := (h.unary (Nat.le_refl _)).stays
  refine .bind halts_kind fun kind => ?_
  split
  next hsign => exact .bind (halts_bump (signOf?_ne_eof hsign)) fun _ => .map hunary
  next =>
    refine .of_past (.bind (halts_castHere? h) fun type => ?_) (Nat.le_refl _)
    cases type with
    | some type => exact .map hunary
    | none =>
      refine .bind (moves_primary h) (halts_loop fun expr floor' hle => ?_)
      refine (halts_postfixStep (h.later (Nat.le_of_succ_le hle)) expr).weaken (fun _ => id) ?_
      rintro (expr | expr)
      · exact fun _ => id
      · exact Mark.implies_past hle

theorem binaryOp?_eq_some {cursor : Cursor} {op : BinaryOp} {length : Nat}
    (h : binaryOp? cursor = some (op, length)) : cursor.current.kind ≠ .eof ∧ 0 < length := by
  unfold binaryOp? at h
  constructor
  · intro heof
    rw [heof] at h
    cases h
  · split at h
    all_goals grind

theorem halts_binaryStep (h : g.Covers size (floor + 1)) (strength : Nat) (left : Expr) :
    Halts size (.past floor) (g.binaryStep strength left)
      (LoopStep.known (fun _ => .past (floor + 1)) fun _ => .past floor) := by
  refine halts_ifAt (.ite (fun _ => .pure (Mark.implies_past (Nat.le_refl _))) fun _ => ?_) ?_
  · refine .bind (halts_bump (keyword_ne_eof _)) fun _ => ?_
    refine .skip (stays_eat (keyword_ne_eof _)) fun isFinal => ?_
    refine .skip (moves_typeRef (h.later (Nat.le_succ _))).stays fun type => ?_
    refine .skip (stays_atKind _) fun _ => .ite (fun _ => ?_) fun _ => .pure fun _ => id
    exact .skip stays_freshId fun _ => .skip stays_bumpText fun _ => .pure fun _ => id
  · refine halts_here fun cursor _ => ?_
    split
    next => exact .pure (Mark.implies_past (Nat.le_refl _))
    next op length hop =>
      obtain ⟨hkind, hlength⟩ := binaryOp?_eq_some hop
      refine .ite (fun _ => .pure (Mark.implies_past (Nat.le_refl _))) fun _ => ?_
      refine .bind (halts_bumpTimes hkind hlength) fun _ => ?_
      exact .skip (h.binary _ (Nat.le_refl _)).stays fun _ => .pure fun _ => id

theorem moves_operands (h : g.Covers size (floor + 1)) (strength : Nat) :
    Moves size floor (g.operands strength) := by
  refine .bind (moves_operand h) (halts_loop fun left floor' hle => ?_)
  refine (halts_binaryStep (h.later (Nat.le_of_succ_le hle)) strength left).weaken (fun _ => id) ?_
  rintro (left | left)
  · exact fun _ => id
  · exact Mark.implies_past hle

theorem moves_choice (h : g.Covers size (floor + 1)) : Moves size floor g.choice := by
  have hternary : Stays size (floor + 1) g.ternary := (h.ternary (Nat.le_refl _)).stays
  refine .bind (moves_operands h 0) fun cond => .skip (stays_eat (punct_ne_eof _)) fun _ => ?_
  refine .ite (fun _ => .skip hternary fun yes => ?_) fun _ => .pure fun _ => id
  exact .skip (moves_expectPunct _ _).stays fun _ => .map hternary

theorem moves_expression (h : g.Covers size (floor + 1)) : Moves size floor g.expression := by
  refine .bind (moves_choice h) fun left => halts_here fun cursor _ => .of_past ?_ (Nat.le_refl _)
  split
  · exact .skip (stays_bumpTimes _) fun _ => .map (h.expr (Nat.le_refl _)).stays
  · exact .pure fun _ => id

theorem moves_initialValue (h : g.Covers size (floor + 1)) : Moves size floor g.initialValue := by
  refine .skip (stays_atKind _) fun _ => .ite (fun _ => ?_) fun _ => moves_expression h
  exact .map (moves_arrayItems h)

theorem moves_annotValue (h : g.Covers size (floor + 1)) : Moves size floor g.annotValue := by
  refine .skip (stays_atKind _) fun _ => .ite (fun _ => .map (moves_annot h)) fun _ => ?_
  refine halts_ifAt (.bind (halts_bump (punct_ne_eof _)) fun _ => ?_) (.map (moves_choice h))
  refine .skip (stays_listUntil fun _ hle => h.elementValue hle) fun _ => ?_
  exact .skip (moves_expectPunct _ _).stays fun _ => .pure fun _ => id

/-! ### Declarations -/

theorem stays_bracketCount : Stays size floor bracketCount := stays_whileBrackets (· + 1) 0

theorem stays_declarator (h : g.Covers size (floor + 1)) (name : String) :
    Stays size floor (g.declarator name) := by
  refine .skip stays_bracketCount fun _ => .skip (stays_eat (punct_ne_eof _)) fun _ => ?_
  exact .optional (moves_initialValue h).stays fun init => .map stays_freshId

theorem stays_declaratorsAfter (h : g.Covers size (floor + 1)) (name message : String) :
    Stays size floor (g.declaratorsAfter name message) := by
  refine .skip (stays_declarator h name) fun first => .map (stays_manyWhile_eat (punct_ne_eof _) ?_)
  intro floor' hlt
  have hlater := h.later (Nat.le_of_lt hlt)
  exact .skip (moves_expectIdent message).stays (stays_declarator hlater)

theorem moves_localVar (h : g.Covers size (floor + 1)) (annots : List Annot)
    (modifiers : List Modifier) : Moves size floor (g.localVar annots modifiers) := by
  refine .bind (moves_typeRef h) fun type => .skip (moves_expectIdent _).stays fun name => ?_
  exact .map (stays_declaratorsAfter (h.later (Nat.le_succ _)) name _)

theorem moves_param (h : g.Covers size (floor + 1)) : Moves size floor g.param := by
  refine .skip (stays_modifiers h) fun (annots, modifiers) => .bind (moves_typeRef h) fun _ => ?_
  refine .skip (stays_eat (punct_ne_eof _)) fun _ => .skip (stays_atKind _) fun _ => ?_
  refine .ite (fun _ => halts_complain _) fun _ => .skip (moves_expectIdent _).stays fun _ => ?_
  exact .skip (stays_brackets _) fun _ => .map stays_freshId

theorem moves_params (h : g.Covers size (floor + 1)) : Moves size floor g.params := by
  refine .bind (moves_expectPunct _ _) fun _ => .skip (stays_atKind _) fun _ => ?_
  refine .branch (fun _ => .pure fun _ => id) (fun _ => (moves_separatedBy fun floor' hle => ?_).stays) ?_
  · exact moves_param (h.mono (Nat.le_succ_of_le hle))
  · exact fun params => .skip (moves_expectPunct _ _).stays fun _ => .pure fun _ => id

theorem moves_enumConstant (h : g.Covers size (floor + 1)) : Moves size floor g.enumConstant := by
  have hlater := h.later (Nat.le_succ floor)
  refine .skip stays_takeComments fun (comments, _) => .skip (stays_modifiers h) fun (annots, _) => ?_
  refine .bind (moves_expectIdent _) fun name => .skip (stays_atKind _) fun _ => ?_
  refine .optional (moves_args hlater).stays fun args => .skip (stays_atKind _) fun _ => ?_
  exact .optional (moves_classBody hlater).stays fun body => .pure fun _ => id

theorem stays_enumConstants (h : g.Covers size (floor + 1)) : Stays size floor g.enumConstants := by
  refine halts_loop (fun constants floor' hle => ?_) []
  have hdone {value : List EnumConstant} {least : Nat} (hleast : floor ≤ least) :
      Halts size (.past least) (pure (.done value)) (LoopStep.known (fun _ : List EnumConstant =>
        .past (floor' + 1)) fun _ => .past floor) := .pure (Mark.implies_past hleast)
  refine .skip (stays_eat (punct_ne_eof _)) fun _ => .ite (fun _ => hdone hle) fun _ => ?_
  refine .skip (stays_atKind _) fun _ => .ite (fun _ => hdone hle) fun _ => ?_
  refine .bind (moves_enumConstant (h.later hle)) fun constant => ?_
  refine .skip (stays_eat (punct_ne_eof _)) fun _ => .ite (fun _ => .pure fun _ => id) fun _ => ?_
  have hle' := Nat.le_succ_of_le hle
  refine .skip (stays_eat (punct_ne_eof _)) fun _ => .ite (fun _ => hdone hle') fun _ => ?_
  exact .skip (stays_atKind _) fun _ => .ite (fun _ => hdone hle') fun _ => halts_complain _

/-- The token that tells the kind of a type declaration. -/
def typeToken : TypeKind → TokenKind
  | .class => .keyword .classKw
  | .interface => .keyword .interfaceKw
  | .enum => .keyword .enumKw

theorem typeToken_ne_eof (kind : TypeKind) : typeToken kind ≠ .eof := by
  cases kind <;> exact keyword_ne_eof _

theorem halts_typeKind :
    Halts size (.past floor) typeKind fun kind => .seeing floor (typeToken kind) := by
  refine .bind halts_kind fun kind => ?_
  split
  · exact .pure fun _ => id
  · exact .pure fun _ => id
  · exact .pure fun _ => id
  · refine .of_past (.bind (halts_peek 1) fun _ => ?_) (Nat.le_refl _)
    exact .ite (fun _ => halts_complain _) fun _ => halts_complain _
  · refine .of_past (.skip (stays_atWord _) fun _ => ?_) (Nat.le_refl _)
    exact .ite (fun _ => halts_complain _) fun _ => halts_complain _

theorem moves_typeDecl (h : g.Covers size (floor + 1)) (layout : Layout) (annots : List Annot)
    (modifiers : List Modifier) {start : Nat} (hstart : start ≤ floor) :
    Moves size floor (g.typeDecl layout annots modifiers start) := by
  have hlater := h.later (Nat.le_succ floor)
  refine .bind halts_typeKind fun kind => .bind (halts_bump (typeToken_ne_eof kind)) fun _ => ?_
  refine .skip (moves_expectIdent _).stays fun name => ?_
  refine .skip (stays_typeParams hlater) fun typeParams => .skip (stays_eat (keyword_ne_eof _)) fun _ => ?_
  refine .branch (fun _ => (moves_typeList hlater).stays) (fun _ => .pure fun _ => id) fun _ => ?_
  refine .skip (stays_eat (keyword_ne_eof _)) fun _ => ?_
  refine .branch (fun _ => (moves_typeList hlater).stays) (fun _ => .pure fun _ => id) fun _ => ?_
  refine .skip (stays_atWord _) fun _ => .ite (fun _ => halts_complain _) fun _ => ?_
  refine .skip (moves_expectPunct _ _).stays fun _ => ?_
  refine .branch (fun _ => stays_enumConstants hlater) (fun _ => .pure fun _ => id) fun constants => ?_
  refine .skip (h.members (Nat.le_refl _)) fun _ => .skip stays_freshId fun id => ?_
  exact .map (stays_captureFrom (Nat.lt_succ_of_le hstart) _)

theorem moves_method (h : g.Covers size (floor + 1)) (layout : Layout) (annots : List Annot)
    (modifiers : List Modifier) (typeParams : List TypeParam) (returnType : Option TypeRef)
    (name : String) {start : Nat} (hstart : start ≤ floor) :
    Moves size floor (g.method layout annots modifiers typeParams returnType name start) := by
  have hlater := h.later (Nat.le_succ floor)
  refine .skip stays_freshId fun _ => .bind (moves_params h) fun params => ?_
  refine .skip stays_bracketCount fun dims => .skip (stays_eat (keyword_ne_eof _)) fun _ => ?_
  refine .branch (fun _ => (moves_typeList hlater).stays) (fun _ => .pure fun _ => id) fun _ => ?_
  refine .skip (stays_atKind _) fun _ => .ite (fun _ => halts_complain _) fun _ => ?_
  refine .skip (stays_eat (punct_ne_eof _)) fun _ => ?_
  refine .optionalElse (moves_block hlater).stays fun body => ?_
  exact .map (stays_captureFrom (Nat.lt_succ_of_le hstart) _)

theorem moves_fieldDecl (h : g.Covers size (floor + 1)) (layout : Layout) (annots : List Annot)
    (modifiers : List Modifier) (type : TypeRef) (name : String) {start : Nat}
    (hstart : start ≤ floor) :
    Moves size floor (g.fieldDecl layout annots modifiers type name start) := by
  refine .skip (stays_declaratorsAfter h name _) fun declarators => ?_
  refine .bind (moves_expectPunct _ _) fun _ => .skip stays_takeTrailing fun trailing => ?_
  exact .map (stays_captureFrom (Nat.lt_succ_of_le hstart) _)

theorem moves_initializer (h : g.Covers size (floor + 1)) (layout : Layout) {start : Nat}
    (hstart : start ≤ floor) : Moves size floor (g.initializer layout start) := by
  refine .skip (stays_eat (keyword_ne_eof _)) fun isStatic => .bind (moves_block h) fun body => ?_
  exact .map (stays_captureFrom (Nat.lt_succ_of_le hstart) _)

theorem moves_memberName (h : g.Covers size (floor + 1)) : Moves size floor g.memberName := by
  refine halts_ifAtNext (.map (halts_bumpText nofun)) (.skip (stays_eat (keyword_ne_eof _)) fun _ => ?_)
  refine .branch (fun _ => .pure fun _ => id) (fun _ => (moves_typeRef h).stays) fun type => ?_
  exact .map (moves_expectIdent _)

theorem stays_atTypeDecl : Stays size floor atTypeDecl := by
  refine .bind halts_kind fun kind => .of_past ?_ (Nat.le_refl _)
  split
  all_goals first | exact .pure fun _ => id | exact stays_atWord _

theorem stays_atInitializer : Stays size floor atInitializer :=
  .skip (stays_atKind _) fun _ => .skip (stays_atKind _) fun _ => .bind (halts_peek 1) fun _ =>
    .pure fun _ => id

theorem moves_member (h : g.Covers size (floor + 1)) : Moves size floor g.member := by
  refine .skip stays_takeLayout fun layout => halts_ifEat (punct_ne_eof _) (.pure fun _ => id) ?_
  refine moves_position fun start hstart hsize => ?_
  have hlater := h.later hstart
  have hle := Nat.le_refl start
  refine .skip stays_atInitializer fun _ => .ite (fun _ => .map (moves_initializer hlater layout hle)) ?_
  refine fun _ => .skip (stays_modifiers hlater) fun (annots, modifiers) => ?_
  refine .skip stays_atTypeDecl fun _ => .ite (fun _ => .map (moves_typeDecl hlater _ _ _ hle)) ?_
  refine fun _ => .skip (stays_typeParams hlater) fun typeParams => ?_
  refine .bind (moves_memberName hlater) fun (type, name) => .skip (stays_atKind _) fun _ => ?_
  have hnext := hlater.later (Nat.le_succ start)
  have hle' := Nat.le_succ start
  refine .ite (fun _ => .map (moves_method hnext _ _ _ _ type name hle').stays) fun _ => ?_
  cases type with
  | some type => exact .map (moves_fieldDecl hnext _ _ _ type name hle').stays
  | none => exact halts_complain _

theorem stays_memberList (h : g.Covers size (floor + 1)) : Stays size floor g.memberList := by
  refine .skip (halts_loop (fun members floor' hle => ?_) []) fun members => ?_
  · refine .skip (stays_atKind _) fun _ => .ite (fun _ => .pure (Mark.implies_past hle)) fun _ => ?_
    refine .skip (stays_atKind _) fun _ => .ite (fun _ => halts_complain _) fun _ => ?_
    refine .bind (moves_member (h.later hle)) fun member => ?_
    cases member <;> exact .pure fun _ => id
  · exact .skip stays_takeClosing fun _ => .skip stays_bump fun _ => .pure fun _ => id

/-! ### Statements -/

theorem moves_jumpLabel : Moves size floor jumpLabel := by
  refine .skip (stays_atKind _) fun _ => .optional stays_bumpText fun label => ?_
  exact .bind (moves_expectPunct _ _) fun _ => .pure fun _ => id

theorem moves_ifStmt (h : g.Covers size (floor + 1)) : Moves size floor g.ifStmt := by
  have hstmt : Stays size (floor + 1) g.stmt := (h.stmt (Nat.le_refl _)).stays
  refine .bind (moves_parenExpr h) fun cond => .skip hstmt fun yes => ?_
  exact .skip (stays_eat (keyword_ne_eof _)) fun _ => .optional hstmt fun no => .pure fun _ => id

theorem moves_doStmt (h : g.Covers size floor) : Moves size floor g.doStmt := by
  refine .bind (h.stmt (Nat.le_refl _)) fun body => ?_
  refine .skip (moves_expect (keyword_ne_eof _) _).stays fun _ => ?_
  refine .skip (moves_parenExpr (h.mono (by omega))).stays fun cond => ?_
  exact .skip (moves_expectPunct _ _).stays fun _ => .pure fun _ => id

theorem stays_atHeaderVar (h : g.Covers size (floor + 1)) : Stays size floor g.atHeaderVar :=
  .skip (stays_atKind _) fun _ => .ite (fun _ => .pure fun _ => id) fun _ =>
    .skip (stays_atKind _) fun _ => .ite (fun _ => .pure fun _ => id) fun _ => stays_atLocalVar h

theorem moves_forRest (h : g.Covers size (floor + 1)) (init : ForInit) :
    Moves size floor (g.forRest init) := by
  have hlater := h.later (Nat.le_succ floor)
  refine .bind (moves_expectPunct _ _) fun _ => .skip (stays_atKind _) fun _ => ?_
  refine .optionalElse (moves_expression hlater).stays fun cond => ?_
  refine .skip (moves_expectPunct _ _).stays fun _ => .skip (stays_atKind _) fun _ => ?_
  refine .branch (fun _ => .pure fun _ => id) (fun _ => (moves_exprList h).stays) fun update => ?_
  refine .skip (moves_expectPunct _ _).stays fun _ => .map (h.stmt (Nat.le_refl _)).stays

theorem moves_forEachRest (h : g.Covers size (floor + 1)) (annots : List Annot)
    (modifiers : List Modifier) (type : TypeRef) (name : String) :
    Moves size floor (g.forEachRest annots modifiers type name) := by
  refine .bind (moves_expression h) fun iterable => .skip (moves_expectPunct _ _).stays fun _ => ?_
  exact .skip (h.stmt (Nat.le_refl _)).stays fun body => .map stays_freshId

theorem moves_forStmt (h : g.Covers size (floor + 1)) : Moves size floor g.forStmt := by
  have hlater := h.later (Nat.le_succ floor)
  refine .bind (moves_expectPunct _ _) fun _ => .skip (stays_atKind _) fun _ => ?_
  refine .ite (fun _ => (moves_forRest hlater _).stays) fun _ => ?_
  refine .skip (stays_atHeaderVar hlater) fun _ => .ite (fun _ => ?_) fun _ => ?_
  · refine .skip (stays_modifiers hlater) fun (annots, modifiers) => ?_
    refine .skip (moves_typeRef hlater).stays fun type => .skip (moves_expectIdent _).stays fun name => ?_
    refine .skip (stays_eat (punct_ne_eof _)) fun _ => ?_
    refine .ite (fun _ => (moves_forEachRest hlater annots modifiers type name).stays) fun _ => ?_
    exact .skip (stays_declaratorsAfter hlater name _) fun declarators => (moves_forRest hlater _).stays
  · exact .skip (moves_exprList h).stays fun values => (moves_forRest hlater _).stays

theorem moves_resource (h : g.Covers size (floor + 1)) : Moves size floor g.resource := by
  refine .skip (stays_atHeaderVar h) fun _ => .ite (fun _ => ?_) fun _ => .map (moves_expression h)
  exact .skip (stays_modifiers h) fun (annots, modifiers) => .map (moves_localVar h annots modifiers)

theorem stays_resources (h : g.Covers size (floor + 1)) : Stays size floor g.resources := by
  refine halts_loop (fun resources floor' hle => .skip (stays_atKind _) fun _ => ?_) []
  refine .ite (fun _ => .pure (Mark.implies_past hle)) fun _ => ?_
  refine .bind (moves_resource (h.later hle)) fun resource => ?_
  refine .skip (stays_eat (punct_ne_eof _)) fun _ => .ite (fun _ => .pure fun _ => id) fun _ => ?_
  exact .pure (Mark.implies_past (Nat.le_succ_of_le hle))

theorem moves_catchClause (h : g.Covers size (floor + 1)) : Moves size floor g.catchClause := by
  have hlater := h.later (Nat.le_succ floor)
  refine .bind (moves_expectPunct _ _) fun _ => ?_
  refine .skip (stays_modifiers hlater) fun (annots, modifiers) => ?_
  refine .skip (moves_separatedBy fun floor' hle => moves_typeRef (hlater.later hle)).stays fun types => ?_
  refine .skip (moves_expectIdent _).stays fun name => .skip (moves_expectPunct _ _).stays fun _ => ?_
  exact .skip (moves_block hlater).stays fun body => .map stays_freshId

/-- A `try` statement from its body on. -/
theorem moves_tryRest (h : g.Covers size (floor + 1)) (resources : List Resource) :
    Moves size floor (do
      let body ← g.block
      let catches ← manyWhile (eatKeyword .catchKw) g.catchClause
      let finallyBody ← if ← eatKeyword .finallyKw then pure (some (← g.block)) else pure none
      if resources.isEmpty && catches.isEmpty && finallyBody.isNone then
        complain "expected `catch` or `finally` after `try` block"
      else return StmtKind.tryBlock resources body catches finallyBody) := by
  refine .bind (moves_block h) fun body => .skip (stays_manyWhile_eat (keyword_ne_eof _) ?_) ?_
  · exact fun floor' hlt => (moves_catchClause (h.mono (by omega))).stays
  · refine fun catches => .skip (stays_eat (keyword_ne_eof _)) fun _ => ?_
    refine .optional (moves_block (h.later (Nat.le_succ _))).stays fun finallyBody => ?_
    exact .ite (fun _ => halts_complain _) fun _ => .pure fun _ => id

theorem moves_tryStmt (h : g.Covers size (floor + 1)) : Moves size floor g.tryStmt := by
  refine .skip (stays_eat (punct_ne_eof _)) fun _ => .ite (fun _ => ?_) fun _ => ?_
  · refine .skip (stays_resources h) fun resources => .skip (moves_expectPunct _ _).stays fun _ => ?_
    exact .bind (.pure fun _ => id) (moves_tryRest h)
  · exact .bind (.pure fun _ => id) (moves_tryRest h)

theorem moves_caseLabels (h : g.Covers size (floor + 1)) : Moves size floor g.caseLabels :=
  halts_withNoLambda true (moves_separatedBy fun _ hle => moves_choice (h.later hle))

theorem stays_atCaseEnd : Stays size floor atCaseEnd := by
  refine .bind halts_kind fun kind => .of_past ?_ (Nat.le_refl _)
  split <;> exact .pure fun _ => id

theorem moves_caseBody (h : g.Covers size (floor + 1)) : Moves size floor g.caseBody := by
  refine halts_ifEat (punct_ne_eof _) (.skip (stays_atKind _) fun _ => .ite (fun _ => ?_) fun _ => ?_) ?_
  · exact .map (moves_block (h.later (Nat.le_succ _))).stays
  · exact .map (h.stmt (Nat.le_refl _)).stays
  · refine .bind (moves_expectPunct _ _) fun _ => .map (stays_manyWhile ?_ fun _ hle => h.stmt hle)
    exact .skip stays_atCaseEnd fun _ => .pure fun _ => id

theorem moves_switchCase (h : g.Covers size (floor + 1)) : Moves size floor g.switchCase := by
  refine .skip stays_takeComments fun (comments, _) => .skip (stays_eat (keyword_ne_eof _)) fun _ => ?_
  refine .ite (fun _ => .map (moves_caseBody h)) fun _ => ?_
  refine .bind (moves_expect (keyword_ne_eof _) _) fun _ => ?_
  have hlater := h.later (Nat.le_succ floor)
  exact .skip (moves_caseLabels hlater).stays fun labels => .map (moves_caseBody hlater).stays

theorem moves_switchStmt (h : g.Covers size (floor + 1)) : Moves size floor g.switchStmt := by
  refine .bind (moves_parenExpr h) fun selector => .skip (moves_expectPunct _ _).stays fun _ => ?_
  refine .skip (halts_loop (fun cases floor' hle => ?_) []) fun cases => ?_
  · refine .skip (stays_atKind _) fun _ => .ite (fun _ => .pure (Mark.implies_past hle)) fun _ => ?_
    refine .skip (stays_atKind _) fun _ => .ite (fun _ => halts_complain _) fun _ => ?_
    exact .bind (moves_switchCase (h.mono (by omega))) fun _ => .pure fun _ => id
  · exact .skip stays_takeComments fun _ => .skip stays_bump fun _ => .pure fun _ => id

theorem moves_modifiedLocal (h : g.Covers size (floor + 1)) : Moves size floor g.modifiedLocal := by
  refine moves_position fun start hstart hsize => ?_
  have hlater := h.later hstart
  refine .skip (stays_modifiers hlater) fun (annots, modifiers) => ?_
  refine .bind halts_kind fun kind => .of_past ?_ (Nat.le_refl _)
  have htype : Moves size start (do
      return .localClass (← g.typeDecl .unwritten annots modifiers start) : Parser StmtKind) :=
    .map (moves_typeDecl hlater _ _ _ (Nat.le_refl _))
  split
  · exact htype
  · exact htype
  · exact htype
  · refine .bind (moves_localVar hlater annots modifiers) fun decl => ?_
    exact .skip (moves_expectPunct _ _).stays fun _ => .pure fun _ => id

theorem moves_simpleStmt (h : g.Covers size (floor + 1)) : Moves size floor g.simpleStmt := by
  refine .skip (stays_atLocalVar h) fun _ => .ite (fun _ => ?_) fun _ => ?_
  · refine .bind (moves_localVar h [] []) fun decl => ?_
    exact .skip (moves_expectPunct _ _).stays fun _ => .pure fun _ => id
  · refine .bind (moves_expression h) fun value => ?_
    exact .skip (moves_expectPunct _ _).stays fun _ => .pure fun _ => id

theorem moves_returnStmt (h : g.Covers size (floor + 1)) : Moves size floor g.returnStmt := by
  refine halts_ifEat (punct_ne_eof _) (.pure fun _ => id) (.bind (moves_expression h) fun value => ?_)
  exact .skip (moves_expectPunct _ _).stays fun _ => .pure fun _ => id

theorem moves_assertStmt (h : g.Covers size (floor + 1)) : Moves size floor g.assertStmt := by
  refine .bind (moves_expression h) fun cond => .skip (stays_eat (punct_ne_eof _)) fun _ => ?_
  refine .optional (moves_expression (h.later (Nat.le_succ _))).stays fun message => ?_
  exact .skip (moves_expectPunct _ _).stays fun _ => .pure fun _ => id

theorem moves_stmtKind (h : g.Covers size (floor + 1)) : Moves size floor g.stmtKind := by
  have hlater := h.later (Nat.le_succ floor)
  have hstmt : Stays size (floor + 1) g.stmt := (h.stmt (Nat.le_refl _)).stays
  have hsimple {kind : TokenKind} :
      Halts size (.seeing floor kind) g.simpleStmt fun _ => .past (floor + 1) :=
    (moves_simpleStmt h).of_past (Nat.le_refl _)
  refine .bind halts_kind fun kind => ?_
  split
  · exact .of_past (.map (moves_block h)) (Nat.le_refl _)
  · exact .bind (halts_bump nofun) fun _ => .pure fun _ => id
  · exact .bind (halts_bump nofun) fun _ => (moves_ifStmt hlater).stays
  · refine .bind (halts_bump nofun) fun _ => .skip (moves_parenExpr hlater).stays fun cond => ?_
    exact .map hstmt
  · exact .bind (halts_bump nofun) fun _ => (moves_doStmt h).stays
  · exact .bind (halts_bump nofun) fun _ => (moves_forStmt hlater).stays
  · exact .bind (halts_bump nofun) fun _ => (moves_tryStmt hlater).stays
  · exact .bind (halts_bump nofun) fun _ => (moves_switchStmt hlater).stays
  · exact .bind (halts_bump nofun) fun _ => (moves_returnStmt hlater).stays
  · refine .bind (halts_bump nofun) fun _ => .skip (moves_expression hlater).stays fun value => ?_
    exact .skip (moves_expectPunct _ _).stays fun _ => .pure fun _ => id
  · exact .bind (halts_bump nofun) fun _ => .map moves_jumpLabel.stays
  · exact .bind (halts_bump nofun) fun _ => .map moves_jumpLabel.stays
  · refine .bind (halts_peek 1) fun _ => .ite (fun _ => .bind (halts_bump nofun) fun _ => ?_) ?_
    · refine .skip (moves_parenExpr hlater).stays fun lock => ?_
      exact .map (moves_block hlater).stays
    · exact fun _ => hsimple
  · exact .bind (halts_bump nofun) fun _ => (moves_assertStmt hlater).stays
  iterate 6 exact (moves_modifiedLocal h).of_past (Nat.le_refl _)
  · refine .bind (halts_peek 1) fun _ => .ite (fun _ => .bind (halts_bumpText nofun) fun _ => ?_) ?_
    · exact .skip stays_bump fun _ => .map hstmt
    · exact fun _ => hsimple
  · exact hsimple

theorem moves_statement (h : g.Covers size (floor + 1)) : Moves size floor g.statement := by
  refine .skip stays_takeLayout fun layout => moves_position fun start hstart hsize => ?_
  refine .bind (moves_stmtKind (h.later hstart)) fun kind => .skip stays_takeTrailing fun trailing => ?_
  exact .map (stays_captureFrom (Nat.lt_succ_self _) _)

/-! ### The whole grammar -/

theorem covers_step {bottom : Nat} (h : g.Covers size (bottom + 1)) : g.step.Covers size bottom where
  type := fun hle => moves_typeRef (h.later hle)
  elementValue := fun hle => moves_annotValue (h.later hle)
  expr := fun hle => moves_expression (h.later hle)
  ternary := fun hle => moves_choice (h.later hle)
  binary := fun strength hle => moves_operands (h.later hle) strength
  unary := fun hle => moves_operand (h.later hle)
  varInit := fun hle => moves_initialValue (h.later hle)
  stmt := fun hle => moves_statement (h.later hle)
  members := fun hle => stays_memberList (h.later hle)

/-- Calls that nest `depth` deep are enough from the last `depth` tokens on. -/
theorem covers_grammar (depth : Nat) {size bottom : Nat} (h : size ≤ bottom + depth) :
    (grammar depth).Covers size bottom := by
  induction depth generalizing bottom with
  | zero =>
    have hend {α : Type} {floor : Nat} {parser : Parser α} {after : α → Mark}
        (hle : bottom ≤ floor) : Halts size (.past floor) parser after :=
      .of_size_le (Nat.le_trans h hle)
    exact ⟨hend, hend, hend, hend, fun _ => hend, hend, hend, hend, hend⟩
  | succ depth ih => exact covers_step (ih (by omega))

/-! ### Compilation units -/

theorem moves_importDecl : Moves size floor importDecl := by
  refine .skip stays_takeComments fun (comments, blank) => .skip stays_bump fun _ => ?_
  refine .skip (stays_eat (keyword_ne_eof _)) fun isStatic => .bind (moves_expectIdent _) fun first => ?_
  refine .skip (halts_loop (fun path floor' hle => ?_) first) fun (path, isWildcard) => ?_
  · refine halts_ifEat (punct_ne_eof _) ?_ (.pure (Mark.implies_past hle))
    refine .skip (stays_eat (punct_ne_eof _)) fun _ => .ite (fun _ => .pure ?_) fun _ => ?_
    · exact Mark.implies_past (Nat.le_succ_of_le hle)
    · exact .skip (moves_expectIdent _).stays fun _ => .pure fun _ => id
  · exact .skip (moves_expectPunct _ _).stays fun _ => .pure fun _ => id

/-- A package declaration that is there has been passed. -/
theorem halts_packageDecl : Halts size (.past floor) packageDecl fun package =>
    .past (floor + if package.isSome then 1 else 0) := by
  refine .skip (stays_atKind _) fun _ => .ite (fun _ => ?_) fun _ => .pure fun _ => id
  refine .skip stays_takeComments fun (comments, _) => .skip stays_bump fun _ => ?_
  refine .bind (moves_qualifiedName _) fun name => ?_
  exact .skip (moves_expectPunct _ _).stays fun _ => .pure fun _ => id

/-- Import declarations that are there have been passed. -/
theorem halts_imports : Halts size (.past floor) (manyWhile (atKeyword .importKw) importDecl)
    fun imports => .past (floor + imports.length) := by
  refine halts_loopFrom (fun imports => floor + imports.length) (fun imports floor' hle => ?_) ?_
  · refine .skip (stays_atKind _) fun _ => .ite (fun _ => ?_) fun _ => .pure ?_
    · refine .bind moves_importDecl fun decl => .pure (Mark.implies_past ?_)
      exact Nat.max_le.2 ⟨Nat.le_refl _, Nat.succ_le_succ hle⟩
    · exact Mark.implies_past (by rw [List.length_reverse]; exact hle)
  · exact Nat.le_refl _

theorem stays_capturedHeader {start : Nat} {package : Option PackageDecl}
    {imports : List ImportDecl} (hsize : start < size)
    (hfloor : (package.isSome || !imports.isEmpty) = true → start < floor) :
    Stays size floor (capturedHeader start package imports) := by
  refine .ite (fun hheader => .skip (stays_trivia hsize _ _) fun _ => ?_) fun _ => .pure fun _ => id
  exact .skip (stays_captureFrom (hfloor hheader) _) fun _ => .pure fun _ => id

theorem stays_topLevelTypes (h : g.Covers size (floor + 1)) : Stays size floor g.topLevelTypes := by
  refine halts_loop (fun types floor' hle => halts_ifEat (punct_ne_eof _) (.pure fun _ => id) ?_) []
  refine .skip (stays_atKind _) fun _ => .ite (fun _ => .pure (Mark.implies_past hle)) fun _ => ?_
  refine .bind (.skip stays_takeLayout fun layout => moves_position fun start hstart hsize => ?_) ?_
  · have hlater := h.later (Nat.le_trans hle hstart)
    refine .skip (stays_modifiers hlater) fun (annots, modifiers) => ?_
    exact moves_typeDecl hlater layout annots modifiers (Nat.le_refl _)
  · exact fun decl => .pure fun _ => id

theorem stays_compilationUnit (h : g.Covers size (floor + 1)) :
    Stays size floor g.compilationUnit := by
  refine .get fun cursor hsound _ => halts_position fun start hstart hsize => ?_
  refine .bind halts_packageDecl fun package => .bind halts_imports fun imports => ?_
  -- A header that is captured has passed a token.
  have hheader : (package.isSome || !imports.isEmpty) = true →
      start < start + (if package.isSome then 1 else 0) + imports.length := by
    cases package <;> cases imports <;> simp; omega
  refine .skip (stays_capturedHeader hsize hheader) fun (leading, header) => ?_
  refine .skip (stays_topLevelTypes (h.mono (by omega))) fun types => ?_
  exact .skip stays_takeClosing fun _ => .pure (Mark.implies_past (by simp only [Mark.floor]; omega))

end Grammar

/-- With calls that nest as deep as there are tokens, the tokens of a text are read to a unit or to a syntax error. -/
theorem compilationUnit_grammar {text : String} {result : List Token} (h : tokens text = .ok result)
    (nextId : NodeId) {depth : Nat} (hdepth : result.length ≤ depth) :
    let start := Cursor.start text.toList.toArray result nextId
    (∃ unit cursor, (grammar depth).compilationUnit start = .ok unit cursor) ∨
      ∃ error cursor, (grammar depth).compilationUnit start = .error (.syntaxError error) cursor := by
  have hcovers : (grammar depth).Covers result.length 1 :=
    Grammar.covers_grammar depth (Nat.le_trans hdepth (Nat.le_add_left _ _))
  have hhalts := @Grammar.stays_compilationUnit _ _ 0 hcovers
  dsimp only
  cases hunit : (grammar depth).compilationUnit (Cursor.start text.toList.toArray result nextId) with
  | ok unit cursor => exact .inl ⟨unit, cursor, rfl⟩
  | error failure cursor =>
    obtain ⟨-, error, rfl⟩ := hhalts.error (sound_start h nextId) (Nat.zero_le _) hunit
    exact .inr ⟨error, cursor, rfl⟩

/-- Reading a text ends with a unit or with a syntax error. Calls that nest as deep as there are tokens are enough for it, and nothing is asked for that is not there. -/
theorem parseUnit_halts (text : String) (nextId : NodeId) :
    ((∃ unit next, parseUnit text nextId = .ok (unit, next)) ∨
      ∃ error, parseUnit text nextId = .error (.syntaxError error)) ∧
    ∀ result, tokens text = .ok result → ∀ depth, result.length ≤ depth →
      let start := Cursor.start text.toList.toArray result nextId
      (∃ unit cursor, (grammar depth).compilationUnit start = .ok unit cursor) ∨
        ∃ error cursor,
          (grammar depth).compilationUnit start = .error (.syntaxError error) cursor := by
  refine ⟨?_, fun result hresult depth => compilationUnit_grammar hresult nextId⟩
  unfold parseUnit parseWith
  split
  next error _ => exact .inr ⟨error, rfl⟩
  next result hresult =>
    rcases compilationUnit_grammar hresult nextId (Nat.le_succ _) with
      ⟨unit, cursor, hunit⟩ | ⟨error, cursor, hunit⟩
    · exact .inl ⟨unit, cursor.nextId, by simp only [hunit]⟩
    · exact .inr ⟨error, by simp only [hunit]⟩

/-- A text that breaks off behind the arrow of a lambda expression. -/
def brokenText : String := "class A \x7b\n  F f = (B) (c, d) ->"

/-- The tokens of a text that breaks off are read to a syntax error. -/
theorem parseUnit_halts_brokenText : ∃ result, tokens brokenText = .ok result ∧
    result.length = 16 ∧
    ((∃ unit cursor, (grammar 16).compilationUnit
        (Cursor.start brokenText.toList.toArray result 0) = .ok unit cursor) ∨
      ∃ error cursor, (grammar 16).compilationUnit
        (Cursor.start brokenText.toList.toArray result 0) = .error (.syntaxError error) cursor) := by
  have hread : ((tokens brokenText).toOption.map List.length) = some 16 := by
    decide +kernel
  cases hresult : tokens brokenText with
  | error error =>
    rw [hresult] at hread
    cases hread
  | ok result =>
    rw [hresult] at hread
    have hlength : result.length = 16 := Option.some_inj.1 hread
    exact ⟨result, rfl, hlength, (parseUnit_halts brokenText 0).2 result hresult 16 (hlength ▸ Nat.le_refl _)⟩

end AdviceMigration.Source
