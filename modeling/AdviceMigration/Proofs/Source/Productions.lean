import AdviceMigration.Proofs.Source.Cursors
import AdviceMigration.Proofs.Source.Identities
import AdviceMigration.Source.Parse.Unit

/-!
# What the productions do to the cursor

Every production of the grammar goes on from where it starts, and the identities of the tree it answers are ones it has drawn itself, each of them once. A production over the inner productions of a grammar inherits this from them; the whole grammar has it by induction on its depth.
-/

namespace AdviceMigration.Source

/-- Whether each of the inner productions goes on and draws the identities of its tree itself. -/
structure Grammar.Orderly (g : Grammar) : Prop where
  type : ∀ {floor}, Proceeds floor g.type
  elementValue : ∀ {floor}, Proceeds floor g.elementValue
  expr : ∀ {floor}, Reads floor [] g.expr Expr.ids
  ternary : ∀ {floor}, Reads floor [] g.ternary Expr.ids
  binary : ∀ {floor} strength, Reads floor [] (g.binary strength) Expr.ids
  unary : ∀ {floor}, Reads floor [] g.unary Expr.ids
  varInit : ∀ {floor}, Reads floor [] g.varInit Expr.ids
  stmt : ∀ {floor}, Reads floor [] g.stmt Stmt.ids
  members : ∀ {floor}, Reads floor [] g.members fun result => result.1.flatMap Member.ids

namespace Reads

variable {α β : Type} {floor : Nat} {held : List NodeId} {ids : α → List NodeId}
  {ids' : β → List NodeId} {condition : Prop} [Decidable condition] {yes no : Parser α}

theorem ite (hyes : Reads floor held yes ids) (hno : Reads floor held no ids) :
    Reads floor held (if condition then yes else no) ids := by
  split
  · exact hyes
  · exact hno

/-- Two parsers to choose from, and what follows either of them. -/
theorem branch {next : α → Parser β} (hyes : Reads floor [] yes ids) (hno : Reads floor [] no ids)
    (hnext : ∀ value, Reads floor (held ++ ids value) (next value) ids') :
    Reads floor held (if condition then yes >>= next else no >>= next) ids' :=
  .ite (.bind hyes hnext) (.bind hno hnext)

/-- Two parsers to choose from whose results have no identities, and what follows either of them. -/
theorem skipBranch {next : α → Parser β} (hyes : Proceeds floor yes) (hno : Proceeds floor no)
    (hnext : ∀ value, Reads floor held (next value) ids') :
    Reads floor held (if condition then yes >>= next else no >>= next) ids' :=
  .ite (.skip hyes hnext) (.skip hno hnext)

/-- A part that may be missing, and what follows it. -/
theorem optional {next : Option α → Parser β} (h : Reads floor [] yes ids)
    (hnext : ∀ value, Reads floor (held ++ value.toList.flatMap ids) (next value) ids') :
    Reads floor held
      (if condition then (do let value ← yes; Pure.pure (some value) >>= next)
        else Pure.pure none >>= next)
      ids' := by
  refine .ite (.bind h fun value => ?_) ?_
  · have hsome := hnext (some value)
    rwa [Option.toList_some, List.flatMap_singleton] at hsome
  · have hnone := hnext none
    rwa [Option.toList_none, List.flatMap_nil, List.append_nil] at hnone

theorem optionalElse {next : Option α → Parser β} (h : Reads floor [] yes ids)
    (hnext : ∀ value, Reads floor (held ++ value.toList.flatMap ids) (next value) ids') :
    Reads floor held
      (if condition then Pure.pure none >>= next
        else (do let value ← yes; Pure.pure (some value) >>= next))
      ids' := by
  have hoptional := @optional _ _ _ _ _ _ (¬condition) _ _ _ h hnext
  rwa [ite_not] at hoptional

/-- The result of a parser in another form. -/
theorem map {f : α → β} {parser : Parser α} (h : Reads floor [] parser ids)
    (hf : ∀ value, (ids' (f value)).Perm (ids value)) :
    Reads floor [] (do return f (← parser)) ids' :=
  .andThen h fun value => .pure (hf value)

end Reads

namespace Grammar

variable {g : Grammar} {floor : Nat}

/-! ### Annotations, modifiers and types -/

theorem proceeds_qualifiedName (message : String) : Proceeds floor (qualifiedName message) := by
  refine .skip (proceeds_expectIdent message) (proceeds_loop fun name => ?_)
  refine .skip (proceeds_atPunct .dot) fun _ => .skip (proceeds_peek 1) fun _ => ?_
  exact .ite (.skip proceeds_bump fun _ => .skip proceeds_bumpText fun _ => .pure .nil) (.pure .nil)

theorem proceeds_elementPair (h : g.Orderly) : Proceeds floor g.elementPair :=
  .skip (proceeds_expectIdent _) fun _ => .skip (proceeds_expectPunct _ _) fun _ =>
    .skip h.elementValue fun _ => .pure .nil

theorem proceeds_annot (h : g.Orderly) : Proceeds floor g.annot := by
  refine .skip (proceeds_expectPunct _ _) fun _ => .skip (proceeds_qualifiedName _) fun _ => ?_
  refine .skip (proceeds_eatPunct .lParen) fun _ => .ite ?_ (.pure .nil)
  refine .skip (proceeds_eatPunct .rParen) fun _ => .ite (.pure .nil) ?_
  refine .skip proceeds_atIdent fun _ => .skip (proceeds_peek 1) fun _ => .ite ?_ ?_
  · exact .skip (proceeds_separatedBy (proceeds_elementPair h)) fun _ =>
      .skip (proceeds_expectPunct _ _) fun _ => .pure .nil
  · exact .skip h.elementValue fun _ => .skip (proceeds_expectPunct _ _) fun _ => .pure .nil

theorem proceeds_atAnnot : Proceeds floor atAnnot :=
  .skip (proceeds_atPunct .at) fun _ => .skip (proceeds_peek 1) fun _ => .pure .nil

theorem proceeds_modifiers (h : g.Orderly) : Proceeds floor g.modifiers := by
  refine proceeds_loop (fun _ => .skip proceeds_atAnnot fun _ => .ite ?_ ?_) _
  · exact .skip (proceeds_annot h) fun _ => .pure .nil
  · refine .skip proceeds_kind fun _ => .skip (proceeds_peek 1) fun _ => ?_
    split
    · exact .skip proceeds_bump fun _ => .pure .nil
    · exact .pure .nil

theorem proceeds_brackets (type : TypeRef) : Proceeds floor (brackets type) := by
  refine proceeds_loop (fun _ => .skip proceeds_atBrackets fun _ => .ite ?_ (.pure .nil)) _
  exact .skip proceeds_bump fun _ => .skip proceeds_bump fun _ => .pure .nil

theorem proceeds_typeArg (h : g.Orderly) : Proceeds floor g.typeArg := by
  refine .skip (proceeds_manyWhile (proceeds_atPunct .at) (proceeds_annot h)) fun _ => ?_
  refine .skip (proceeds_eatPunct .question) fun _ => .ite ?_ (.skip h.type fun _ => .pure .nil)
  refine .skip (proceeds_eatKeyword .extendsKw) fun _ => .ite (.skip h.type fun _ => .pure .nil) ?_
  exact .skip (proceeds_eatKeyword .superKw) fun _ => .ite (.skip h.type fun _ => .pure .nil) (.pure .nil)

theorem proceeds_typeArgs (h : g.Orderly) : Proceeds floor g.typeArgs := by
  refine .skip (proceeds_expectPunct _ _) fun _ => ?_
  refine .skip (proceeds_eatPunct .greater) fun _ => .ite (.pure .nil) ?_
  exact .skip (proceeds_separatedBy (proceeds_typeArg h)) fun _ =>
    .skip (proceeds_expectPunct _ _) fun _ => .pure .nil

theorem proceeds_typeSegment (h : g.Orderly) : Proceeds floor g.typeSegment := by
  refine .skip (proceeds_expectIdent _) fun _ => .skip (proceeds_atPunct .less) fun _ => ?_
  exact .ite (.skip (proceeds_typeArgs h) fun _ => .pure .nil) (.pure .nil)

theorem proceeds_classType (h : g.Orderly) : Proceeds floor g.classType := by
  refine .skip (proceeds_loop (fun _ => ?_) _) fun _ => .pure .nil
  refine .skip (proceeds_typeSegment h) fun _ => .skip (proceeds_atPunct .dot) fun _ => ?_
  exact .skip (proceeds_peek 1) fun _ => .ite (.skip proceeds_bump fun _ => .pure .nil) (.pure .nil)

theorem proceeds_typeRef (h : g.Orderly) : Proceeds floor g.typeRef := by
  refine .skip (proceeds_manyWhile proceeds_atAnnot (proceeds_annot h)) fun _ => ?_
  refine .skip proceeds_kind fun _ => ?_
  split
  · exact .skip proceeds_bump fun _ => proceeds_brackets _
  · refine .skip proceeds_atIdent fun _ => .ite ?_ (reads_complain _)
    exact .skip (proceeds_classType h) fun type => proceeds_brackets type

theorem proceeds_typeList (h : g.Orderly) : Proceeds floor g.typeList :=
  proceeds_separatedBy (proceeds_typeRef h)

theorem proceeds_typeParam (h : g.Orderly) : Proceeds floor g.typeParam := by
  refine .skip (proceeds_manyWhile (proceeds_atPunct .at) (proceeds_annot h)) fun _ => ?_
  refine .skip (proceeds_expectIdent _) fun _ => .skip (proceeds_eatKeyword .extendsKw) fun _ => ?_
  exact .ite (.skip (proceeds_separatedBy (proceeds_typeRef h)) fun _ => .pure .nil) (.pure .nil)

theorem proceeds_typeParams (h : g.Orderly) : Proceeds floor g.typeParams := by
  refine .skip (proceeds_eatPunct .less) fun _ => .ite ?_ (.pure .nil)
  exact .skip (proceeds_separatedBy (proceeds_typeParam h)) fun _ =>
    .skip (proceeds_expectPunct _ _) fun _ => .pure .nil

/-! ### Lookahead -/

theorem proceeds_atLambda : Proceeds floor atLambda := by
  refine .skip proceeds_here fun cursor => .ite (.pure .nil) ?_
  split
  · exact .skip (proceeds_peek 1) fun _ => .pure .nil
  · dsimp only
    split
    · exact .pure .nil
    · exact .throw _
  · exact .pure .nil

theorem proceeds_castType? (h : g.Orderly) : Proceeds floor g.castType? := by
  refine reads_position fun start hstart => ?_
  have hback : Proceeds floor (do rewind start; return none : Parser (Option TypeRef)) :=
    .skip (proceeds_rewind hstart) fun _ => .pure .nil
  refine .skip proceeds_bump fun _ => .skip proceeds_kind fun _ => ?_
  refine .skip (proceeds_attempt (proceeds_typeRef h)) fun type => ?_
  cases type with
  | none => exact hback
  | some type =>
    refine .skip (proceeds_eatPunct .rParen) fun _ => .ite ?_ hback
    exact .skip proceeds_kind fun _ => .ite (.pure .nil) hback

theorem proceeds_atLocalVar (h : g.Orderly) : Proceeds floor g.atLocalVar := by
  refine reads_position fun start hstart => ?_
  have hback (isDecl : Bool) : Proceeds floor (do rewind start; return isDecl : Parser Bool) :=
    .skip (proceeds_rewind hstart) fun _ => .pure .nil
  refine .skip (proceeds_attempt (proceeds_typeRef h)) fun type => ?_
  cases type with
  | none => exact .skip (.pure .nil) hback
  | some type =>
    exact .skip proceeds_atIdent fun _ => .skip (proceeds_peek 1) fun _ => .skip (.pure .nil) hback

theorem proceeds_castHere? (h : g.Orderly) : Proceeds floor g.castHere? := by
  refine .skip (proceeds_atPunct .lParen) fun _ => .ite ?_ (.pure .nil)
  exact .skip proceeds_atLambda fun _ => .ite (.pure .nil) (proceeds_castType? h)

/-! ### Primary expressions -/

theorem reads_exprList (h : g.Orderly) :
    Reads floor [] g.exprList fun exprs => exprs.flatMap Expr.ids :=
  reads_separatedBy h.expr

theorem reads_args (h : g.Orderly) : Reads floor [] g.args fun args => args.flatMap Expr.ids := by
  refine .skip (proceeds_expectPunct _ _) fun _ => .skip (proceeds_atPunct .rParen) fun _ => ?_
  refine .branch (.pure .nil) (reads_exprList h) fun args => ?_
  exact .skip (proceeds_expectPunct _ _) fun _ => .pure (.refl _)

theorem reads_parenExpr (h : g.Orderly) : Reads floor [] g.parenExpr Expr.ids := by
  refine .skip (proceeds_expectPunct _ _) fun _ => .andThen h.expr fun _ => ?_
  exact .skip (proceeds_expectPunct _ _) fun _ => .pure (.refl _)

theorem reads_arrayItems (h : g.Orderly) :
    Reads floor [] g.arrayItems fun items => items.flatMap Expr.ids := by
  refine .skip (proceeds_expectPunct _ _) fun _ => .andThen (reads_listUntil h.varInit) fun _ => ?_
  exact .skip (proceeds_expectPunct _ _) fun _ => .pure (.refl _)

theorem proceeds_methodRefName : Proceeds floor methodRefName :=
  .skip (proceeds_eatKeyword .newKw) fun _ => .ite (.pure .nil) (proceeds_expectIdent _)

theorem reads_afterType (type : TypeRef) : Reads floor [] (afterType type) Expr.ids := by
  refine .skip (proceeds_eatPunct .doubleColon) fun _ => .ite ?_ ?_
  · exact .skip proceeds_methodRefName fun _ => .pure .nil
  · exact .skip (proceeds_expectPunct _ _) fun _ => .skip (proceeds_expect _ _) fun _ => .pure .nil

theorem reads_literalOf (kind : LiteralKind) : Reads floor [] (literalOf kind) Expr.ids :=
  .skip proceeds_bumpText fun _ => .pure .nil

theorem reads_classBody (h : g.Orderly) :
    Reads floor [] g.classBody fun members => members.flatMap Member.ids :=
  .skip (proceeds_expectPunct _ _) fun _ => .andThen h.members fun _ => .pure (.refl _)

theorem reads_arrayDims (h : g.Orderly) : Reads floor [] g.arrayDims fun dims =>
    dims.flatMap fun dim => dim.toList.flatMap Expr.ids := by
  refine reads_manyWhile (proceeds_eatPunct .lBracket) ?_
  refine .skip (proceeds_eatPunct .rBracket) fun _ => ?_
  refine .ite (.pure .nil) (.andThen h.expr fun _ => ?_)
  exact .skip (proceeds_expectPunct _ _) fun _ => .pure (by simp)

/-- An object or array creation from the type on. -/
theorem reads_created (h : g.Orderly) (outer : Option Expr) (type : TypeRef) :
    Reads floor (outer.toList.flatMap Expr.ids) (do
      if ← atPunct .lBracket then
        let dims ← g.arrayDims
        let init ← if ← atPunct .lBrace then pure (some (← g.arrayItems)) else pure none
        return .newArray type dims init
      else
        let args ← g.args
        let body ← if ← atPunct .lBrace then pure (some (← g.classBody)) else pure none
        return .new outer type args body) Expr.ids := by
  refine .skip (proceeds_atPunct .lBracket) fun _ => .ite ?_ ?_
  · refine .narrow ?_ (List.nil_sublist _)
    refine .andThen (reads_arrayDims h) fun dims => .skip (proceeds_atPunct .lBrace) fun _ => ?_
    refine .optional (reads_arrayItems h) fun init => .pure ?_
    cases init <;> simp
  · refine .bind (reads_args h) fun args => .skip (proceeds_atPunct .lBrace) fun _ => ?_
    refine .optional (reads_classBody h) fun body => .pure ?_
    cases body <;> simp

theorem reads_creation (h : g.Orderly) (outer : Option Expr) :
    Reads floor (outer.toList.flatMap Expr.ids) (g.creation outer) Expr.ids := by
  refine .skip (proceeds_expect _ _) fun _ => .skip (proceeds_atPunct .less) fun _ => ?_
  refine .ite (reads_complain _) (.skip proceeds_kind fun kind => ?_)
  cases kind.primitive? with
  | some primitive =>
    exact .skip proceeds_bump fun _ => .skip (.pure .nil) (reads_created h outer)
  | none => exact .skip (proceeds_classType h) (reads_created h outer)

theorem reads_lambdaParam (h : g.Orderly) :
    Reads floor [] g.lambdaParam fun param => [param.id] := by
  refine .skip (proceeds_modifiers h) fun (_, modifiers) => .skip (proceeds_peek 1) fun _ => ?_
  refine .skip proceeds_atIdent fun _ => .ite ?_ (.skip (proceeds_typeRef h) fun _ => ?_)
  · exact .skip proceeds_bumpText fun _ => .andThen reads_freshId fun _ => .pure (.refl _)
  · refine .skip (proceeds_eatPunct .ellipsis) fun _ => .skip (proceeds_expectIdent _) fun _ => ?_
    exact .andThen reads_freshId fun _ => .pure (.refl _)

theorem reads_lambdaParams (h : g.Orderly) :
    Reads floor [] g.lambdaParams fun result => result.1.map (·.id) := by
  refine .skip proceeds_atIdent fun _ => .ite ?_ (.skip (proceeds_expectPunct _ _) fun _ => ?_)
  · exact .skip proceeds_bumpText fun _ => .andThen reads_freshId fun _ => .pure (.refl _)
  · refine .andThen (reads_listUntil (reads_lambdaParam h)) fun params => ?_
    refine .skip (proceeds_expectPunct _ _) fun _ => .pure ?_
    rw [← List.flatMap_pure_eq_map]
    exact .refl _

/-- Items that are read until a closing sign or the end of the text. -/
theorem reads_block (h : g.Orderly) : Reads floor [] g.block Block.ids := by
  refine .skip (proceeds_expectPunct _ _) fun _ => ?_
  refine .andThen (reads_loop (reversedIds Stmt.ids) (fun stmts => stmts.flatMap Stmt.ids)
    (fun stmts => ?_) []) fun stmts => ?_
  · refine .skip (proceeds_atPunct .rBrace) fun _ => .ite (.pure (.refl _)) ?_
    refine .skip (proceeds_atKind .eof) fun _ => ?_
    refine .ite (reads_complain _) (.bind h.stmt fun stmt => ?_)
    rw [← reversedIds_cons]
    exact .pure (.refl _)
  · refine .skip proceeds_takeClosing fun (comments, closing) => ?_
    refine .skip proceeds_bump fun _ => .pure ?_
    rw [Block.ids_mk]

theorem reads_lambda (h : g.Orderly) : Reads floor [] g.lambda Expr.ids := by
  refine .andThen (reads_lambdaParams h) fun (params, parenthesized) => ?_
  refine .skip (proceeds_expectPunct _ _) fun _ => ?_
  have hbody : Reads floor [] (do
      if ← atPunct .lBrace then return LambdaBody.block (← g.block)
      else return LambdaBody.expr (← g.expr)) LambdaBody.ids :=
    .skip (proceeds_atPunct .lBrace) fun _ =>
      .ite (.map (reads_block h) fun _ => .refl _) (.map h.expr fun _ => .refl _)
  refine .bind (reads_withNoLambda false hbody) fun body => .pure ?_
  rw [Expr.ids_lambda]

theorem reads_selfReference (h : g.Orderly) (word : String) {self : Expr} (hself : self.ids = []) :
    Reads floor [] (g.selfReference word self) Expr.ids := by
  refine .skip proceeds_bump fun _ => .skip (proceeds_atPunct .lParen) fun _ => .ite ?_ ?_
  · exact .map (reads_args h) fun args => by simp
  · exact .pure (.of_eq hself)

theorem reads_primary (h : g.Orderly) : Reads floor [] g.primary Expr.ids := by
  refine .skip proceeds_atLambda fun _ => .ite (reads_lambda h) (.skip proceeds_kind fun kind => ?_)
  split
  · exact reads_literalOf _
  · refine .skip proceeds_bump fun _ => .andThen h.expr fun _ => ?_
    exact .skip (proceeds_expectPunct _ _) fun _ => .pure (.refl _)
  · exact reads_selfReference h "this" rfl
  · exact reads_selfReference h "super" rfl
  · exact reads_creation h none
  · refine .skip proceeds_bumpText fun name => .skip (proceeds_atPunct .lParen) fun _ => .ite ?_ ?_
    · exact .map (reads_args h) fun args => by simp
    · exact .map reads_freshId fun _ => .refl _
  · exact .skip proceeds_bump fun _ => reads_afterType .void
  · exact reads_complain _
  · exact .ite (.skip (proceeds_typeRef h) reads_afterType) (reads_complain _)

/-! ### Operators -/

theorem reads_selection (h : g.Orderly) (receiver : Expr) :
    Reads floor receiver.ids (g.selection receiver) Expr.ids := by
  refine .skip proceeds_kind fun kind => ?_
  split
  · refine .skip proceeds_bumpText fun name => .skip (proceeds_atPunct .lParen) fun _ => .ite ?_ ?_
    · exact .bind (reads_args h) fun args => .pure (by simp)
    · exact .pure (.refl _)
  · refine .skip (proceeds_typeArgs h) fun types => .skip (proceeds_expectIdent _) fun name => ?_
    exact .bind (reads_args h) fun args => .pure (by simp)
  · exact .skip proceeds_bumpText fun word => .pure (.refl _)
  · exact .skip proceeds_bumpText fun word => .pure (.refl _)
  · split
    · exact .skip proceeds_bump fun _ => .narrow (.pure .nil) (List.nil_sublist _)
    · exact reads_complain _
  · have hcreation : Reads floor _ (g.creation (some receiver)) Expr.ids := reads_creation h _
    rwa [Option.toList_some, List.flatMap_singleton] at hcreation
  · exact reads_complain _

theorem reads_postfixStep (h : g.Orderly) (expr : Expr) :
    Reads floor expr.ids (g.postfixStep expr) (LoopStep.ids Expr.ids Expr.ids) := by
  refine .skip proceeds_kind fun kind => ?_
  split
  · exact .skip proceeds_bump fun _ => .andThen (reads_selection h expr) fun _ => .pure (.refl _)
  · refine .skip (proceeds_peek 1) fun _ => .ite ?_ ?_
    · split
      · refine .skip (proceeds_brackets _) fun type => .narrow ?_ (List.nil_sublist _)
        exact .andThen (reads_afterType type) fun _ => .pure (.refl _)
      · exact reads_complain _
    · refine .skip proceeds_bump fun _ => .bind h.expr fun index => ?_
      exact .skip (proceeds_expectPunct _ _) fun _ => .pure (.of_eq (Expr.ids_index _ _))
  · exact .skip proceeds_bump fun _ => .pure (.refl _)
  · exact .skip proceeds_bump fun _ => .pure (.refl _)
  · exact .skip proceeds_bump fun _ => .skip proceeds_methodRefName fun _ => .pure (.refl _)
  · exact .pure (.refl _)

theorem reads_operand (h : g.Orderly) : Reads floor [] g.operand Expr.ids := by
  refine .skip proceeds_kind fun kind => ?_
  split
  · exact .skip proceeds_bump fun _ => .map h.unary fun _ => .refl _
  · refine .skip (proceeds_castHere? h) fun type => ?_
    split
    · exact .map h.unary fun _ => .refl _
    · exact .andThen (reads_primary h) (reads_loop Expr.ids Expr.ids (reads_postfixStep h))

theorem reads_binaryStep (h : g.Orderly) (strength : Nat) (left : Expr) :
    Reads floor left.ids (g.binaryStep strength left) (LoopStep.ids Expr.ids Expr.ids) := by
  refine .skip (proceeds_atKeyword .instanceofKw) fun _ => .ite (.ite (.pure (.refl _)) ?_) ?_
  · refine .skip proceeds_bump fun _ => .skip (proceeds_eatKeyword .finalKw) fun isFinal => ?_
    refine .skip (proceeds_typeRef h) fun type => .skip proceeds_atIdent fun _ => .ite ?_ ?_
    · refine .bind reads_freshId fun id => .skip proceeds_bumpText fun name => .pure ?_
      exact .of_eq (Expr.ids_instanceOf _ _ _)
    · exact .pure (.of_eq ((Expr.ids_instanceOf _ _ _).trans (List.append_nil _)))
  · refine .skip proceeds_here fun cursor => ?_
    split
    · exact .pure (.refl _)
    · refine .ite (.pure (.refl _)) (.skip (proceeds_bumpTimes _) fun _ => ?_)
      exact .bind (h.binary _) fun right => .pure (.of_eq (Expr.ids_binary _ _ _))

theorem reads_operands (h : g.Orderly) (strength : Nat) :
    Reads floor [] (g.operands strength) Expr.ids :=
  .andThen (reads_operand h) (reads_loop Expr.ids Expr.ids (reads_binaryStep h strength))

theorem reads_choice (h : g.Orderly) : Reads floor [] g.choice Expr.ids := by
  refine .andThen (reads_operands h 0) fun cond => .skip (proceeds_eatPunct .question) fun _ => ?_
  refine .ite (.bind h.ternary fun yes => .skip (proceeds_expectPunct _ _) fun _ => ?_) (.pure (.refl _))
  exact .bind h.ternary fun no => .pure (by simp)

theorem reads_expression (h : g.Orderly) : Reads floor [] g.expression Expr.ids := by
  refine .andThen (reads_choice h) fun left => .skip proceeds_here fun cursor => ?_
  split
  · exact .skip (proceeds_bumpTimes _) fun _ => .bind h.expr fun value => .pure (by simp)
  · exact .pure (.refl _)

theorem reads_initialValue (h : g.Orderly) : Reads floor [] g.initialValue Expr.ids := by
  refine .skip (proceeds_atPunct .lBrace) fun _ => .ite ?_ (reads_expression h)
  exact .map (reads_arrayItems h) fun items => by simp

theorem proceeds_annotValue (h : g.Orderly) : Proceeds floor g.annotValue := by
  refine .skip (proceeds_atPunct .at) fun _ => ?_
  refine .ite (.skip (proceeds_annot h) fun _ => .pure .nil) ?_
  refine .skip (proceeds_atPunct .lBrace) fun _ => .ite ?_ ?_
  · refine .skip proceeds_bump fun _ => .skip (proceeds_listUntil h.elementValue) fun _ => ?_
    exact .skip (proceeds_expectPunct _ _) fun _ => .pure .nil
  · exact .skip (reads_choice h).proceeds fun _ => .pure .nil

/-! ### Declarations -/

theorem proceeds_bracketCount : Proceeds floor bracketCount := by
  refine proceeds_loop (fun _ => .skip proceeds_atBrackets fun _ => .ite ?_ (.pure .nil)) 0
  exact .skip proceeds_bump fun _ => .skip proceeds_bump fun _ => .pure .nil

theorem reads_declarator (h : g.Orderly) (name : String) :
    Reads floor [] (g.declarator name) Declarator.ids := by
  refine .skip proceeds_bracketCount fun _ => .skip (proceeds_eatPunct .eq) fun _ => ?_
  refine .optional (reads_initialValue h) fun init => ?_
  refine .bind reads_freshId fun id => .pure ?_
  exact (List.perm_append_singleton id _).symm

theorem reads_declaratorsAfter (h : g.Orderly) (name message : String) :
    Reads floor [] (g.declaratorsAfter name message)
      fun declarators => declarators.flatMap Declarator.ids := by
  refine .andThen (reads_declarator h name) fun first => ?_
  refine .bind (reads_manyWhile (proceeds_eatPunct .comma) ?_) fun rest => .pure (.refl _)
  exact .skip (proceeds_expectIdent message) (reads_declarator h)

theorem reads_localVar (h : g.Orderly) (annots : List Annot) (modifiers : List Modifier) :
    Reads floor [] (g.localVar annots modifiers) LocalVar.ids := by
  refine .skip (proceeds_typeRef h) fun type => .skip (proceeds_expectIdent _) fun name => ?_
  exact .map (reads_declaratorsAfter h name _) fun declarators => by rw [LocalVar.ids_mk]

theorem reads_param (h : g.Orderly) : Reads floor [] g.param fun param => [param.id] := by
  refine .skip (proceeds_modifiers h) fun (annots, modifiers) => ?_
  refine .skip (proceeds_typeRef h) fun _ => ?_
  refine .skip (proceeds_eatPunct .ellipsis) fun _ => .skip (proceeds_atKeyword .thisKw) fun _ => ?_
  refine .ite (reads_complain _) (.skip (proceeds_expectIdent _) fun _ => ?_)
  exact .skip (proceeds_brackets _) fun _ => .map reads_freshId fun _ => .refl _

theorem reads_params (h : g.Orderly) :
    Reads floor [] g.params fun params => params.map (·.id) := by
  have hparams : Reads floor [] (separatedBy .comma g.param) fun params => params.map (·.id) :=
    (reads_separatedBy (reads_param h)).congr fun params => .of_eq (List.flatMap_pure_eq_map _ _).symm
  refine .skip (proceeds_expectPunct _ _) fun _ => .skip (proceeds_atPunct .rParen) fun _ => ?_
  refine .branch (.pure .nil) hparams fun params => ?_
  exact .skip (proceeds_expectPunct _ _) fun _ => .pure (.refl _)

theorem reads_enumConstant (h : g.Orderly) : Reads floor [] g.enumConstant EnumConstant.ids := by
  refine .skip proceeds_takeComments fun (comments, _) => ?_
  refine .skip (proceeds_modifiers h) fun (annots, _) => ?_
  refine .skip (proceeds_expectIdent _) fun name => .skip (proceeds_atPunct .lParen) fun _ => ?_
  refine .optional (reads_args h) fun args => ?_
  refine .skip (proceeds_atPunct .lBrace) fun _ => ?_
  refine .optional (reads_classBody h) fun body => .pure ?_
  cases args <;> cases body <;> simp

theorem reads_enumConstants (h : g.Orderly) :
    Reads floor [] g.enumConstants fun constants => constants.flatMap EnumConstant.ids := by
  refine reads_loop (reversedIds EnumConstant.ids) _ (fun constants => ?_) []
  refine .skip (proceeds_eatPunct .semicolon) fun _ => .ite (.pure (.refl _)) ?_
  refine .skip (proceeds_atPunct .rBrace) fun _ => .ite (.pure (.refl _)) ?_
  refine .bind (reads_enumConstant h) fun constant => ?_
  rw [← reversedIds_cons]
  refine .skip (proceeds_eatPunct .comma) fun _ => .ite (.pure (.refl _)) ?_
  refine .skip (proceeds_eatPunct .semicolon) fun _ => .ite (.pure (.refl _)) ?_
  exact .skip (proceeds_atPunct .rBrace) fun _ => .ite (.pure (.refl _)) (reads_complain _)

theorem proceeds_typeKind : Proceeds floor typeKind := by
  refine .skip proceeds_kind fun kind => ?_
  split
  · exact .pure .nil
  · exact .pure .nil
  · exact .pure .nil
  · exact .skip (proceeds_peek 1) fun _ => .ite (reads_complain _) (reads_complain _)
  · exact .skip (proceeds_atWord _) fun _ => .ite (reads_complain _) (reads_complain _)

/-- A type declaration passes its keyword before anything else. -/
theorem exists_typeDecl_eq (h : g.Orderly) (layout : Layout) (annots : List Annot)
    (modifiers : List Modifier) (start : Nat) : ∃ rest : TypeKind → Parser TypeDecl,
      g.typeDecl layout annots modifiers start = (do let kind ← typeKind; bump; rest kind) ∧
      ∀ floor kind, Reads floor [] (rest kind) TypeDecl.ids := by
  refine ⟨_, rfl, fun floor kind => ?_⟩
  refine .skip (proceeds_expectIdent _) fun name => ?_
  refine .skip (proceeds_typeParams h) fun typeParams => ?_
  refine .skip (proceeds_eatKeyword .extendsKw) fun _ => ?_
  refine .skipBranch (proceeds_typeList h) (.pure .nil) fun superTypes => ?_
  refine .skip (proceeds_eatKeyword .implementsKw) fun _ => ?_
  refine .skipBranch (proceeds_typeList h) (.pure .nil) fun interfaces => ?_
  refine .skip (proceeds_atWord _) fun _ => .ite (reads_complain _) ?_
  refine .skip (proceeds_expectPunct _ _) fun _ => ?_
  refine .branch (reads_enumConstants h) (.pure .nil) fun constants => ?_
  refine .bind h.members fun (members, comments, closing) => .bind reads_freshId fun id => ?_
  refine .skip (proceeds_captureFrom _ _) fun verbatim => .pure ?_
  rw [TypeDecl.ids_eq]
  exact (List.perm_append_singleton id _).symm

theorem reads_typeDecl (h : g.Orderly) (layout : Layout) (annots : List Annot)
    (modifiers : List Modifier) (start : Nat) :
    Reads floor [] (g.typeDecl layout annots modifiers start) TypeDecl.ids := by
  obtain ⟨rest, heq, hrest⟩ := exists_typeDecl_eq h layout annots modifiers start
  rw [heq]
  exact .skip proceeds_typeKind fun kind => .skip proceeds_bump fun _ => hrest floor kind

theorem reads_method (h : g.Orderly) (layout : Layout) (annots : List Annot)
    (modifiers : List Modifier) (typeParams : List TypeParam) (returnType : Option TypeRef)
    (name : String) (start : Nat) :
    Reads floor [] (g.method layout annots modifiers typeParams returnType name start)
      Method.ids := by
  refine .andThen reads_freshId fun id => .bind (reads_params h) fun params => ?_
  refine .skip proceeds_bracketCount fun dims => .skip (proceeds_eatKeyword .throwsKw) fun _ => ?_
  refine .skipBranch (proceeds_typeList h) (.pure .nil) fun throws => ?_
  refine .skip (proceeds_atKeyword .defaultKw) fun _ => .ite (reads_complain _) ?_
  refine .skip (proceeds_eatPunct .semicolon) fun _ => ?_
  refine .optionalElse (reads_block h) fun body => ?_
  exact .skip (proceeds_captureFrom _ _) fun verbatim => .pure (by rw [Method.ids_eq]; rfl)

theorem reads_fieldDecl (h : g.Orderly) (layout : Layout) (annots : List Annot)
    (modifiers : List Modifier) (type : TypeRef) (name : String) (start : Nat) :
    Reads floor [] (g.fieldDecl layout annots modifiers type name start) FieldDecl.ids := by
  refine .andThen (reads_declaratorsAfter h name _) fun declarators => ?_
  refine .skip (proceeds_expectPunct _ _) fun _ => .skip proceeds_takeTrailing fun trailing => ?_
  exact .skip (proceeds_captureFrom _ _) fun verbatim => .pure (by rw [FieldDecl.ids_eq])

theorem reads_initializer (h : g.Orderly) (layout : Layout) (start : Nat) :
    Reads floor [] (g.initializer layout start) fun decl => decl.body.ids := by
  refine .skip (proceeds_eatKeyword .staticKw) fun isStatic => ?_
  refine .andThen (reads_block h) fun body => ?_
  exact .skip (proceeds_captureFrom _ _) fun verbatim => .pure (.refl _)

theorem proceeds_memberName (h : g.Orderly) : Proceeds floor g.memberName := by
  refine .skip proceeds_atIdent fun _ => .skip (proceeds_peek 1) fun _ => .ite ?_ ?_
  · exact .skip proceeds_bumpText fun _ => .pure .nil
  · refine .skip (proceeds_eatKeyword .voidKw) fun _ => ?_
    refine .skipBranch (.pure .nil) (proceeds_typeRef h) fun type => ?_
    exact .skip (proceeds_expectIdent _) fun _ => .pure .nil

theorem proceeds_atTypeDecl : Proceeds floor atTypeDecl := by
  refine .skip proceeds_kind fun kind => ?_
  split
  all_goals first | exact .pure .nil | exact proceeds_atWord _

theorem proceeds_atInitializer : Proceeds floor atInitializer :=
  .skip (proceeds_atPunct .lBrace) fun _ => .skip (proceeds_atKeyword .staticKw) fun _ =>
    .skip (proceeds_peek 1) fun _ => .pure .nil

theorem reads_member (h : g.Orderly) :
    Reads floor [] g.member fun member => member.toList.flatMap Member.ids := by
  refine .skip proceeds_takeLayout fun layout => .skip (proceeds_eatPunct .semicolon) fun _ => ?_
  refine .ite (.pure .nil) (.skip ?_ fun start => .skip proceeds_atInitializer fun _ => ?_)
  · exact reads_position fun _ _ => .pure .nil
  refine .ite (.map (reads_initializer h layout start) fun decl => by simp) ?_
  refine .skip (proceeds_modifiers h) fun (annots, modifiers) => ?_
  refine .skip proceeds_atTypeDecl fun _ => ?_
  refine .ite (.map (reads_typeDecl h layout annots modifiers start) fun decl => by simp) ?_
  refine .skip (proceeds_typeParams h) fun typeParams => ?_
  refine .skip (proceeds_memberName h) fun (type, name) => ?_
  refine .skip (proceeds_atPunct .lParen) fun _ => ?_
  refine .ite (.map (reads_method h _ _ _ typeParams type name start) fun decl => by simp) ?_
  cases type with
  | some type => exact .map (reads_fieldDecl h _ _ _ type name start) fun decl => by simp
  | none => exact reads_complain _

theorem reads_memberList (h : g.Orderly) :
    Reads floor [] g.memberList fun result => result.1.flatMap Member.ids := by
  refine .andThen (reads_loop (reversedIds Member.ids) (fun members => members.flatMap Member.ids)
    (fun members => ?_) []) fun members => ?_
  · refine .skip (proceeds_atPunct .rBrace) fun _ => .ite (.pure (.refl _)) ?_
    refine .skip (proceeds_atKind .eof) fun _ => .ite (reads_complain _) ?_
    refine .bind (reads_member h) fun member => ?_
    cases member with
    | some member =>
      rw [Option.toList_some, List.flatMap_singleton, ← reversedIds_cons]
      exact .pure (.refl _)
    | none => exact .pure (.of_eq (List.append_nil _).symm)
  · exact .skip proceeds_takeClosing fun (comments, closing) =>
      .skip proceeds_bump fun _ => .pure (.refl _)

/-! ### Statements -/

theorem proceeds_jumpLabel : Proceeds floor jumpLabel := by
  refine .skip proceeds_atIdent fun _ => ?_
  refine .ite (.skip proceeds_bumpText fun _ => .skip (.pure .nil) fun _ => ?_)
    (.skip (.pure .nil) fun _ => ?_)
  all_goals exact .skip (proceeds_expectPunct _ _) fun _ => .pure .nil

theorem reads_ifStmt (h : g.Orderly) : Reads floor [] g.ifStmt StmtKind.ids := by
  refine .andThen (reads_parenExpr h) fun cond => .bind h.stmt fun yes => ?_
  refine .skip (proceeds_eatKeyword .elseKw) fun _ => ?_
  exact .optional h.stmt fun no => .pure (by simp)

theorem reads_doStmt (h : g.Orderly) : Reads floor [] g.doStmt StmtKind.ids := by
  refine .andThen h.stmt fun body => .skip (proceeds_expect _ _) fun _ => ?_
  refine .bind (reads_parenExpr h) fun cond => ?_
  exact .skip (proceeds_expectPunct _ _) fun _ => .pure (by simp)

theorem proceeds_atHeaderVar (h : g.Orderly) : Proceeds floor g.atHeaderVar :=
  .skip (proceeds_atKeyword .finalKw) fun _ => .ite (.pure .nil)
    (.skip (proceeds_atPunct .at) fun _ => .ite (.pure .nil) (proceeds_atLocalVar h))

theorem reads_forRest (h : g.Orderly) (init : ForInit) :
    Reads floor init.ids (g.forRest init) StmtKind.ids := by
  refine .skip (proceeds_expectPunct _ _) fun _ => .skip (proceeds_atPunct .semicolon) fun _ => ?_
  refine .optionalElse (reads_expression h) fun cond => ?_
  refine .skip (proceeds_expectPunct _ _) fun _ => .skip (proceeds_atPunct .rParen) fun _ => ?_
  refine .branch (.pure .nil) (reads_exprList h) fun update => ?_
  refine .skip (proceeds_expectPunct _ _) fun _ => .bind h.stmt fun body => .pure ?_
  simp

theorem reads_forEachRest (h : g.Orderly) (annots : List Annot) (modifiers : List Modifier)
    (type : TypeRef) (name : String) :
    Reads floor [] (g.forEachRest annots modifiers type name) StmtKind.ids := by
  refine .andThen (reads_expression h) fun iterable => .skip (proceeds_expectPunct _ _) fun _ => ?_
  refine .bind h.stmt fun body => .bind reads_freshId fun id => .pure ?_
  rw [StmtKind.ids_forEach, List.append_assoc]
  exact (List.perm_append_singleton id _).symm.append_left _

theorem reads_forStmt (h : g.Orderly) : Reads floor [] g.forStmt StmtKind.ids := by
  refine .skip (proceeds_expectPunct _ _) fun _ => .skip (proceeds_atPunct .semicolon) fun _ => ?_
  refine .ite (reads_forRest h (.exprs [])) (.skip (proceeds_atHeaderVar h) fun _ => .ite ?_ ?_)
  · refine .skip (proceeds_modifiers h) fun (annots, modifiers) => ?_
    refine .skip (proceeds_typeRef h) fun type => ?_
    refine .skip (proceeds_expectIdent _) fun name => .skip (proceeds_eatPunct .colon) fun _ => ?_
    refine .ite (reads_forEachRest h annots modifiers type name) ?_
    refine .andThen (reads_declaratorsAfter h name _) fun declarators => ?_
    rw [← LocalVar.ids_mk annots modifiers type, ← ForInit.ids_decl]
    exact reads_forRest h _
  · refine .andThen (reads_exprList h) fun values => ?_
    rw [← ForInit.ids_exprs]
    exact reads_forRest h _

theorem reads_resource (h : g.Orderly) : Reads floor [] g.resource Resource.ids := by
  refine .skip (proceeds_atHeaderVar h) fun _ => ?_
  refine .ite ?_ (.map (reads_expression h) fun _ => .refl _)
  refine .skip (proceeds_modifiers h) fun (annots, modifiers) => ?_
  exact .map (reads_localVar h annots modifiers) fun _ => .refl _

theorem reads_resources (h : g.Orderly) :
    Reads floor [] g.resources fun resources => resources.flatMap Resource.ids := by
  refine reads_loop (reversedIds Resource.ids) _ (fun resources => ?_) []
  refine .skip (proceeds_atPunct .rParen) fun _ => .ite (.pure (.refl _)) ?_
  refine .bind (reads_resource h) fun resource => ?_
  exact .skip (proceeds_eatPunct .semicolon) fun _ => reads_anotherItem

theorem reads_catchClause (h : g.Orderly) : Reads floor [] g.catchClause CatchClause.ids := by
  refine .skip (proceeds_expectPunct _ _) fun _ => ?_
  refine .skip (proceeds_modifiers h) fun (annots, modifiers) => ?_
  refine .skip (proceeds_separatedBy (proceeds_typeRef h)) fun types => ?_
  refine .skip (proceeds_expectIdent _) fun name => .skip (proceeds_expectPunct _ _) fun _ => ?_
  refine .andThen (reads_block h) fun body => .bind reads_freshId fun id => .pure ?_
  exact (List.perm_append_singleton id _).symm

/-- A `try` statement from its body on. -/
theorem reads_tryRest (h : g.Orderly) (resources : List Resource) :
    Reads floor (resources.flatMap Resource.ids) (do
      let body ← g.block
      let catches ← manyWhile (eatKeyword .catchKw) g.catchClause
      let finallyBody ← if ← eatKeyword .finallyKw then pure (some (← g.block)) else pure none
      if resources.isEmpty && catches.isEmpty && finallyBody.isNone then
        complain "expected `catch` or `finally` after `try` block"
      else return .tryBlock resources body catches finallyBody) StmtKind.ids := by
  refine .bind (reads_block h) fun body => ?_
  refine .bind (reads_manyWhile (proceeds_eatKeyword .catchKw) (reads_catchClause h)) fun catches => ?_
  refine .skip (proceeds_eatKeyword .finallyKw) fun _ => ?_
  exact .optional (reads_block h) fun finallyBody => .ite (reads_complain _) (.pure (by simp))

theorem reads_tryStmt (h : g.Orderly) : Reads floor [] g.tryStmt StmtKind.ids := by
  refine .skip (proceeds_eatPunct .lParen) fun _ => ?_
  refine .ite ?_ (.andThen (.pure .nil) (reads_tryRest h))
  refine .andThen (reads_resources h) fun resources => .skip (proceeds_expectPunct _ _) fun _ => ?_
  exact .andThen (.pure (.refl _)) (reads_tryRest h)

theorem reads_caseLabels (h : g.Orderly) :
    Reads floor [] g.caseLabels fun labels => labels.flatMap Expr.ids :=
  reads_withNoLambda true (reads_separatedBy (reads_choice h))

theorem proceeds_atCaseEnd : Proceeds floor atCaseEnd := by
  refine .skip proceeds_kind fun kind => ?_
  split <;> exact .pure .nil

theorem reads_caseBody (h : g.Orderly) :
    Reads floor [] g.caseBody fun result => result.2.ids := by
  refine .skip (proceeds_eatPunct .arrow) fun _ => .ite ?_ ?_
  · refine .skip (proceeds_atPunct .lBrace) fun _ => .ite (.map (reads_block h) fun _ => .refl _) ?_
    exact .map h.stmt fun stmt => by simp
  · refine .skip (proceeds_expectPunct _ _) fun _ => ?_
    refine .map (reads_manyWhile ?_ h.stmt) fun stmts => by simp
    exact .skip proceeds_atCaseEnd fun _ => .pure .nil

theorem reads_switchCase (h : g.Orderly) : Reads floor [] g.switchCase SwitchCase.ids := by
  refine .skip proceeds_takeComments fun (comments, _) => ?_
  refine .skip (proceeds_eatKeyword .defaultKw) fun _ => ?_
  refine .ite (.map (reads_caseBody h) fun _ => .refl _) ?_
  refine .skip (proceeds_expect _ _) fun _ => .andThen (reads_caseLabels h) fun labels => ?_
  exact .bind (reads_caseBody h) fun (form, body) => .pure (.refl _)

theorem ids_commentLastCase (comments : List Comment) (cases : List SwitchCase) :
    (commentLastCase comments cases).flatMap SwitchCase.ids = cases.flatMap SwitchCase.ids := by
  fun_induction commentLastCase comments cases with
  | case1 => rfl
  | case2 last => simp [SwitchCase.ids, Block.ids_eq]
  | case3 case rest _ ih => rw [List.flatMap_cons, List.flatMap_cons, ih]

theorem reads_switchStmt (h : g.Orderly) : Reads floor [] g.switchStmt StmtKind.ids := by
  refine .andThen (reads_parenExpr h) fun selector => .skip (proceeds_expectPunct _ _) fun _ => ?_
  refine .bind (reads_loop (reversedIds SwitchCase.ids) (fun cases => cases.flatMap SwitchCase.ids)
    (fun cases => ?_) []) fun cases => ?_
  · refine .skip (proceeds_atPunct .rBrace) fun _ => .ite (.pure (.refl _)) ?_
    refine .skip (proceeds_atKind .eof) fun _ => .ite (reads_complain _) ?_
    refine .bind (reads_switchCase h) fun case => ?_
    rw [← reversedIds_cons]
    exact .pure (.refl _)
  · refine .skip proceeds_takeComments fun (comments, _) => .skip proceeds_bump fun _ => .pure ?_
    rw [StmtKind.ids_switch, ids_commentLastCase]

theorem reads_modifiedLocal (h : g.Orderly) : Reads floor [] g.modifiedLocal StmtKind.ids := by
  refine reads_position fun start _ => .skip (proceeds_modifiers h) fun (annots, modifiers) => ?_
  refine .skip proceeds_kind fun kind => ?_
  split
  · exact .map (reads_typeDecl h .unwritten annots modifiers start) fun _ => .refl _
  · exact .map (reads_typeDecl h .unwritten annots modifiers start) fun _ => .refl _
  · exact .map (reads_typeDecl h .unwritten annots modifiers start) fun _ => .refl _
  · refine .andThen (reads_localVar h annots modifiers) fun decl => ?_
    exact .skip (proceeds_expectPunct _ _) fun _ => .pure (.refl _)

theorem reads_simpleStmt (h : g.Orderly) : Reads floor [] g.simpleStmt StmtKind.ids := by
  refine .skip (proceeds_atLocalVar h) fun _ => .ite ?_ ?_
  · refine .andThen (reads_localVar h [] []) fun decl => ?_
    exact .skip (proceeds_expectPunct _ _) fun _ => .pure (.refl _)
  · refine .andThen (reads_expression h) fun value => ?_
    exact .skip (proceeds_expectPunct _ _) fun _ => .pure (.refl _)

theorem reads_returnStmt (h : g.Orderly) : Reads floor [] g.returnStmt StmtKind.ids := by
  refine .skip (proceeds_eatPunct .semicolon) fun _ => .ite (.pure .nil) ?_
  refine .andThen (reads_expression h) fun value => ?_
  exact .skip (proceeds_expectPunct _ _) fun _ => .pure (by simp)

theorem reads_assertStmt (h : g.Orderly) : Reads floor [] g.assertStmt StmtKind.ids := by
  refine .andThen (reads_expression h) fun cond => .skip (proceeds_eatPunct .colon) fun _ => ?_
  refine .optional (reads_expression h) fun message => ?_
  exact .skip (proceeds_expectPunct _ _) fun _ => .pure (by simp)

theorem reads_stmtKind (h : g.Orderly) : Reads floor [] g.stmtKind StmtKind.ids := by
  refine .skip proceeds_kind fun kind => ?_
  split
  · exact .map (reads_block h) fun _ => .refl _
  · exact .skip proceeds_bump fun _ => .pure .nil
  · exact .skip proceeds_bump fun _ => reads_ifStmt h
  · refine .skip proceeds_bump fun _ => .andThen (reads_parenExpr h) fun cond => ?_
    exact .bind h.stmt fun body => .pure (by simp)
  · exact .skip proceeds_bump fun _ => reads_doStmt h
  · exact .skip proceeds_bump fun _ => reads_forStmt h
  · exact .skip proceeds_bump fun _ => reads_tryStmt h
  · exact .skip proceeds_bump fun _ => reads_switchStmt h
  · exact .skip proceeds_bump fun _ => reads_returnStmt h
  · refine .skip proceeds_bump fun _ => .andThen (reads_expression h) fun value => ?_
    exact .skip (proceeds_expectPunct _ _) fun _ => .pure (.refl _)
  · exact .skip proceeds_bump fun _ => .skip proceeds_jumpLabel fun _ => .pure .nil
  · exact .skip proceeds_bump fun _ => .skip proceeds_jumpLabel fun _ => .pure .nil
  · refine .skip (proceeds_peek 1) fun _ => ?_
    refine .ite (.skip proceeds_bump fun _ => ?_) (reads_simpleStmt h)
    refine .andThen (reads_parenExpr h) fun lock => ?_
    exact .bind (reads_block h) fun body => .pure (by simp)
  · exact .skip proceeds_bump fun _ => reads_assertStmt h
  iterate 6 exact reads_modifiedLocal h
  · refine .skip (proceeds_peek 1) fun _ => .ite ?_ (reads_simpleStmt h)
    refine .skip proceeds_bumpText fun label => .skip proceeds_bump fun _ => ?_
    exact .map h.stmt fun body => .refl _
  · exact reads_simpleStmt h

theorem reads_statement (h : g.Orderly) : Reads floor [] g.statement Stmt.ids := by
  refine .skip proceeds_takeLayout fun layout => reads_position fun start _ => ?_
  refine .andThen (reads_stmtKind h) fun kind => .skip proceeds_takeTrailing fun trailing => ?_
  exact .skip (proceeds_captureFrom _ _) fun verbatim => .pure (.refl _)

/-! ### The whole grammar -/

theorem orderly_step (h : g.Orderly) : g.step.Orderly where
  type := proceeds_typeRef h
  elementValue := proceeds_annotValue h
  expr := reads_expression h
  ternary := reads_choice h
  binary := reads_operands h
  unary := reads_operand h
  varInit := reads_initialValue h
  stmt := reads_statement h
  members := reads_memberList h

theorem orderly_exhausted : exhausted.Orderly where
  type := .throw _
  elementValue := .throw _
  expr := .throw _
  ternary := .throw _
  binary := fun _ => .throw _
  unary := .throw _
  varInit := .throw _
  stmt := .throw _
  members := .throw _

theorem orderly_grammar (depth : Nat) : (grammar depth).Orderly := by
  induction depth with
  | zero => exact orderly_exhausted
  | succ depth ih => exact orderly_step ih

/-! ### Compilation units -/

theorem exists_importDecl_eq : ∃ rest : List Comment × Bool → Parser ImportDecl,
    importDecl = (do let comments ← takeComments; bump; rest comments) ∧
      ∀ floor comments, Proceeds floor (rest comments) := by
  refine ⟨_, rfl, fun floor (comments, blank) => ?_⟩
  refine .skip (proceeds_eatKeyword .staticKw) fun isStatic => ?_
  refine .skip (proceeds_expectIdent _) fun first => ?_
  refine .skip (proceeds_loop (fun path => ?_) first) fun (path, isWildcard) => ?_
  · refine .skip (proceeds_eatPunct .dot) fun _ => .ite ?_ (.pure .nil)
    refine .skip (proceeds_eatPunct .star) fun _ => .ite (.pure .nil) ?_
    exact .skip (proceeds_expectIdent _) fun _ => .pure .nil
  · exact .skip (proceeds_expectPunct _ _) fun _ => .pure .nil

theorem proceeds_importDecl : Proceeds floor importDecl := by
  obtain ⟨rest, heq, hrest⟩ := exists_importDecl_eq
  rw [heq]
  exact .skip proceeds_takeComments fun comments => .skip proceeds_bump fun _ => hrest floor comments

theorem exists_packageDecl_eq : ∃ rest : List Comment × Bool → Parser (Option PackageDecl),
    packageDecl = (do
      if ← atKeyword .packageKw then
        let comments ← takeComments
        bump
        rest comments
      else return none) ∧ ∀ floor comments, Proceeds floor (rest comments) := by
  refine ⟨_, rfl, fun floor (comments, _) => ?_⟩
  refine .skip (proceeds_qualifiedName _) fun name => ?_
  exact .skip (proceeds_expectPunct _ _) fun _ => .pure .nil

theorem proceeds_packageDecl : Proceeds floor packageDecl := by
  obtain ⟨rest, heq, hrest⟩ := exists_packageDecl_eq
  rw [heq]
  refine .skip (proceeds_atKeyword .packageKw) fun _ => .ite ?_ (.pure .nil)
  exact .skip proceeds_takeComments fun comments => .skip proceeds_bump fun _ => hrest floor comments

theorem reads_topLevelType (h : g.Orderly) : Reads floor [] g.topLevelType TypeDecl.ids := by
  refine .skip proceeds_takeLayout fun layout => reads_position fun start _ => ?_
  refine .skip (proceeds_modifiers h) fun (annots, modifiers) => ?_
  exact reads_typeDecl h layout annots modifiers start

theorem reads_topLevelTypes (h : g.Orderly) :
    Reads floor [] g.topLevelTypes fun types => types.flatMap TypeDecl.ids := by
  refine reads_loop (reversedIds TypeDecl.ids) _ (fun types => ?_) []
  refine .skip (proceeds_eatPunct .semicolon) fun _ => .ite (.pure (.refl _)) ?_
  refine .skip (proceeds_atKind .eof) fun _ => .ite (.pure (.refl _)) ?_
  refine .bind (reads_topLevelType h) fun decl => ?_
  rw [← reversedIds_cons]
  exact .pure (.refl _)

theorem proceeds_capturedHeader (start : Nat) (package : Option PackageDecl)
    (imports : List ImportDecl) : Proceeds floor (capturedHeader start package imports) := by
  refine .ite (.skip (proceeds_trivia _ _ _) fun _ => ?_) (.pure .nil)
  exact .skip (proceeds_captureFrom _ _) fun _ => .pure .nil

theorem reads_compilationUnit (h : g.Orderly) :
    Reads floor [] g.compilationUnit fun unit => unit.types.flatMap TypeDecl.ids := by
  refine .get fun _ _ => reads_position fun start _ => .skip proceeds_packageDecl fun package => ?_
  refine .skip (proceeds_manyWhile (proceeds_atKeyword .importKw) proceeds_importDecl) fun imports => ?_
  refine .skip (proceeds_capturedHeader _ _ _) fun (leading, header) => ?_
  refine .andThen (reads_topLevelTypes h) fun types => ?_
  exact .skip proceeds_takeClosing fun (endComments, closing) => .pure (.refl _)

end Grammar

/-- The identities of a unit that has been read are drawn from the supply, each of them once. -/
theorem parseUnit_ids {text : String} {nextId next : NodeId} {unit : CompilationUnit}
    (h : parseUnit text nextId = .ok (unit, next)) :
    Drawn [] nextId (unit.types.flatMap TypeDecl.ids) next := by
  unfold parseUnit parseWith at h
  split at h
  next => cases h
  next tokens htokens =>
    dsimp only at h
    split at h
    next unit cursor hunit =>
      cases h
      have horderly := Grammar.orderly_grammar (tokens.length + 1)
      have hreads := @Grammar.reads_compilationUnit _ 0 horderly
      exact (hreads.ok (Nat.zero_le _) hunit).2.2 (.nil _)
    next => cases h

end AdviceMigration.Source
