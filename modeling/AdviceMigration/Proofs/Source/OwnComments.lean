import AdviceMigration.Proofs.Source.Paths

/-!
# Comments of a scope

The comments of the statements of a body's own scope, in document order. An edit at a path puts other comments in place of those of the part the path leads to. The comments before and after them stay.
-/

namespace AdviceMigration.Source

mutual
/-- The comments of a statement: those in front of it, those of the statements in it, and the one after it. -/
def Stmt.ownComments : Stmt → List Comment
  | ⟨layout, trailing, kind⟩ => layout.comments ++ kind.ownComments ++ trailing.toList

/-- The comments of the statements in a statement. Expressions and local classes are not entered, since their statements have a scope of their own. -/
def StmtKind.ownComments : StmtKind → List Comment
  | .block body => body.ownComments
  | .ifElse _ yes none => yes.ownComments
  | .ifElse _ yes (some no) => yes.ownComments ++ no.ownComments
  | .whileLoop _ body => body.ownComments
  | .doWhile body _ => body.ownComments
  | .forLoop _ _ _ body => body.ownComments
  | .forEach _ _ body => body.ownComments
  | .labeled _ body => body.ownComments
  | .tryBlock _ body catches none => body.ownComments ++ CatchClause.ownCommentsList catches
  | .tryBlock _ body catches (some finallyBody) =>
    body.ownComments ++ CatchClause.ownCommentsList catches ++ finallyBody.ownComments
  | .sync _ body => body.ownComments
  | .switch _ cases => SwitchCase.ownCommentsList cases
  | .localVar _ => []
  | .localClass _ => []
  | .expr _ => []
  | .ret _ => []
  | .throw _ => []
  | .breakTo _ => []
  | .continueTo _ => []
  | .assertion _ _ => []
  | .empty => []

/-- The comments of a block: those of its statements and those in front of the closing brace. -/
def Block.ownComments : Block → List Comment
  | ⟨stmts, endComments, _⟩ => Stmt.ownCommentsList stmts ++ endComments

/-- The comments of statements in order. -/
def Stmt.ownCommentsList : List Stmt → List Comment
  | [] => []
  | stmt :: rest => stmt.ownComments ++ Stmt.ownCommentsList rest

/-- The comments in `catch` clauses in order. -/
def CatchClause.ownCommentsList : List CatchClause → List Comment
  | [] => []
  | ⟨_, _, _, _, _, body⟩ :: rest => body.ownComments ++ CatchClause.ownCommentsList rest

/-- The comments of cases in order, those in front of a case before those of its statements. -/
def SwitchCase.ownCommentsList : List SwitchCase → List Comment
  | [] => []
  | ⟨comments, _, _, _, body⟩ :: rest =>
    comments ++ body.ownComments ++ SwitchCase.ownCommentsList rest
end

theorem Stmt.ownComments_eq (stmt : Stmt) :
    stmt.ownComments = stmt.layout.comments ++ stmt.kind.ownComments ++ stmt.trailing.toList := by
  obtain ⟨layout, trailing, kind⟩ := stmt
  rw [Stmt.ownComments]

theorem Block.ownComments_eq (block : Block) :
    block.ownComments = Stmt.ownCommentsList block.stmts ++ block.endComments := by
  obtain ⟨stmts, endComments, closing⟩ := block
  rw [Block.ownComments]

theorem Stmt.ownCommentsList_append (stmts stmts' : List Stmt) :
    Stmt.ownCommentsList (stmts ++ stmts') =
      Stmt.ownCommentsList stmts ++ Stmt.ownCommentsList stmts' := by
  induction stmts with
  | nil => rfl
  | cons stmt rest ih =>
    rw [List.cons_append, Stmt.ownCommentsList, Stmt.ownCommentsList, ih, List.append_assoc]

theorem CatchClause.ownCommentsList_append (clauses clauses' : List CatchClause) :
    CatchClause.ownCommentsList (clauses ++ clauses') =
      CatchClause.ownCommentsList clauses ++ CatchClause.ownCommentsList clauses' := by
  induction clauses with
  | nil => rfl
  | cons clause rest ih =>
    obtain ⟨id, annotations, modifiers, types, name, body⟩ := clause
    rw [List.cons_append, CatchClause.ownCommentsList, CatchClause.ownCommentsList, ih,
      List.append_assoc]

theorem SwitchCase.ownCommentsList_append (cases cases' : List SwitchCase) :
    SwitchCase.ownCommentsList (cases ++ cases') =
      SwitchCase.ownCommentsList cases ++ SwitchCase.ownCommentsList cases' := by
  induction cases with
  | nil => rfl
  | cons case rest ih =>
    obtain ⟨comments, labels, isDefault, form, body⟩ := case
    rw [List.cons_append, SwitchCase.ownCommentsList, SwitchCase.ownCommentsList, ih]
    simp only [List.append_assoc]

namespace Focus

/-- The comments of a part of a body. -/
@[simp] def ownComments : Focus → List Comment
  | .block inner => inner.ownComments
  | .stmt inner => inner.ownComments

/-- Whether the comments of two parts differ in one place only, where those of two other parts stand. -/
def SameAround (part new focus focus' : Focus) : Prop :=
  ∃ before after, focus.ownComments = before ++ part.ownComments ++ after ∧
    focus'.ownComments = before ++ new.ownComments ++ after

/-- The shape of a statement around the comments of one part. -/
theorem SameAround.of_kind {part new : Focus} {kind kind' : StmtKind} (layout : Layout)
    (trailing : Option Comment) (before after : List Comment)
    (hkind : kind.ownComments = before ++ part.ownComments ++ after)
    (hkind' : kind'.ownComments = before ++ new.ownComments ++ after) :
    SameAround part new (.stmt ⟨layout, trailing, kind⟩) (.stmt ⟨layout, trailing, kind'⟩) := by
  refine ⟨layout.comments ++ before, after ++ trailing.toList, ?_, ?_⟩
  · simp only [ownComments, Stmt.ownComments, hkind, List.append_assoc]
  · simp only [ownComments, Stmt.ownComments, hkind', List.append_assoc]

/-- Putting a part in place of another changes its own comments only. -/
theorem Swap.sameAround {step : Step} {part new focus focus' : Focus}
    (h : Swap step part new focus focus') : SameAround part new focus focus' := by
  cases h with
  | @stmt before after endComments =>
    refine ⟨Stmt.ownCommentsList before, Stmt.ownCommentsList after ++ endComments, ?_, ?_⟩ <;>
      simp [Block.ownComments, Stmt.ownCommentsList_append, Stmt.ownCommentsList]
  | nested => exact .of_kind _ _ [] [] (List.append_nil _).symm (List.append_nil _).symm
  | @thenBranch _ _ _ no =>
    cases no with
    | none => exact .of_kind _ _ [] [] (List.append_nil _).symm (List.append_nil _).symm
    | some no => exact .of_kind _ _ [] no.ownComments rfl rfl
  | @elseBranch _ _ _ yes =>
    exact .of_kind _ _ yes.ownComments [] (List.append_nil _).symm (List.append_nil _).symm
  | whileLoop => exact .of_kind _ _ [] [] (List.append_nil _).symm (List.append_nil _).symm
  | doWhile => exact .of_kind _ _ [] [] (List.append_nil _).symm (List.append_nil _).symm
  | forLoop => exact .of_kind _ _ [] [] (List.append_nil _).symm (List.append_nil _).symm
  | forEach => exact .of_kind _ _ [] [] (List.append_nil _).symm (List.append_nil _).symm
  | labeled => exact .of_kind _ _ [] [] (List.append_nil _).symm (List.append_nil _).symm
  | sync => exact .of_kind _ _ [] [] (List.append_nil _).symm (List.append_nil _).symm
  | @tryBody _ _ _ catches finallyBody =>
    cases finallyBody with
    | none => exact .of_kind _ _ [] (CatchClause.ownCommentsList catches) rfl rfl
    | some finallyBody =>
      exact .of_kind _ _ [] (CatchClause.ownCommentsList catches ++ finallyBody.ownComments)
        (List.append_assoc _ _ _) (List.append_assoc _ _ _)
  | @catchBlock _ _ _ body before after clause finallyBody =>
    obtain ⟨id, annotations, modifiers, types, name, old⟩ := clause
    cases finallyBody with
    | none =>
      refine .of_kind _ _ (body.ownComments ++ CatchClause.ownCommentsList before)
        (CatchClause.ownCommentsList after) ?_ ?_ <;>
        simp [StmtKind.ownComments, CatchClause.ownCommentsList_append, CatchClause.ownCommentsList]
    | some finallyBody =>
      refine .of_kind _ _ (body.ownComments ++ CatchClause.ownCommentsList before)
        (CatchClause.ownCommentsList after ++ finallyBody.ownComments) ?_ ?_ <;>
        simp [StmtKind.ownComments, CatchClause.ownCommentsList_append, CatchClause.ownCommentsList]
  | @finallyBlock _ _ _ body catches =>
    exact .of_kind _ _ (body.ownComments ++ CatchClause.ownCommentsList catches) []
      (List.append_nil _).symm (List.append_nil _).symm
  | @caseBlock _ _ _ before after case =>
    obtain ⟨comments, labels, isDefault, form, old⟩ := case
    refine .of_kind _ _ (SwitchCase.ownCommentsList before ++ comments)
      (SwitchCase.ownCommentsList after) ?_ ?_ <;>
      simp [StmtKind.ownComments, SwitchCase.ownCommentsList_append, SwitchCase.ownCommentsList]

theorem SameAround.outwards {part new inner inner' focus focus' : Focus}
    (h : SameAround part new inner inner') (h' : SameAround inner inner' focus focus') :
    SameAround part new focus focus' := by
  obtain ⟨before, after, hinner, hinner'⟩ := h
  obtain ⟨before', after', hfocus, hfocus'⟩ := h'
  refine ⟨before' ++ before, after ++ after', ?_, ?_⟩
  · simp only [hfocus, hinner, List.append_assoc]
  · simp only [hfocus', hinner', List.append_assoc]

theorem carries_sameAround : Carries SameAround where
  self := fun _ _ => ⟨[], [], (List.append_nil _).symm, (List.append_nil _).symm⟩
  outwards := fun h hswap => h.outwards hswap.sameAround

end Focus

namespace Block

/-- Changing a statement changes its comments only. -/
theorem ownComments_updateStmt? {body body' : Block} {path : StmtPath} {change : Stmt → Stmt}
    (h : body.updateStmt? path change = some body') :
    ∃ stmt before after, body.stmtAt? path = some stmt ∧
      body.ownComments = before ++ stmt.ownComments ++ after ∧
      body'.ownComments = before ++ (change stmt).ownComments ++ after := by
  obtain ⟨stmt, hat, before, after, hbody, hbody'⟩ := Focus.carries_sameAround.exists_stmt h
  exact ⟨stmt, before, after, hat, hbody, hbody'⟩

/-- Changing a block changes its comments only. -/
theorem ownComments_updateBlock? {body body' : Block} {path : StmtPath}
    {change : Block → Option Block} (h : body.updateBlock? path change = some body') :
    ∃ block block' before after, body.blockAt? path = some block ∧ change block = some block' ∧
      body.ownComments = before ++ block.ownComments ++ after ∧
      body'.ownComments = before ++ block'.ownComments ++ after := by
  obtain ⟨block, block', hat, hchange, before, after, hbody, hbody'⟩ :=
    Focus.carries_sameAround.exists_block h
  exact ⟨block, block', before, after, hat, hchange, hbody, hbody'⟩

end Block

end AdviceMigration.Source
