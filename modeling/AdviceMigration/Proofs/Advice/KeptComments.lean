import AdviceMigration.Proofs.Advice.Folding
import AdviceMigration.Proofs.Source.OwnComments

/-!
# Comments through edits

Inserting a statement in front of another one, removing the declaration of a local variable and folding assignments into returns all take statements away from their comments or put statements in front of them. A statement that is put in takes the comments over, and one that goes hands them to the next. So the comments of the scope stay the same, in the same order, with one exception: the comment after a declaration that stands last in its block is gone together with the declaration.
-/

namespace AdviceMigration.Advice

open AdviceMigration.Source AdviceMigration.Scope

/-- The comments of the statements of a method's own scope, in document order. -/
def ownComments (method : Method) : List Comment :=
  (method.body.map Block.ownComments).getD []

theorem ownComments_of_body {method : Method} {body : Block} (h : method.body = some body) :
    ownComments method = body.ownComments := by
  rw [ownComments, h]
  rfl

/-! ### Inserted statements -/

theorem ownComments_insertBefore? {body body' : Block} {path : StmtPath} {stmt : Stmt}
    (hstmt : stmt.ownComments = []) (h : insertBefore? body path stmt = some body') :
    body'.ownComments = body.ownComments := by
  obtain ⟨blockPath, front, back, anchor, endComments, closing, change, -, hblock, hchange, hupdate⟩ :=
    insertBefore?_eq_some h
  obtain ⟨block, block', before, after, hblock', hchange', hbody, hbody'⟩ :=
    Block.ownComments_updateBlock? hupdate
  obtain rfl := Option.some.inj (hblock.symm.trans hblock')
  obtain rfl := Option.some.inj (hchange.symm.trans hchange')
  rw [hbody, hbody']
  obtain ⟨⟨-, hkind⟩, htrailing⟩ : (stmt.layout.comments = [] ∧ stmt.kind.ownComments = []) ∧
      stmt.trailing.toList = [] := by
    simpa only [Stmt.ownComments_eq, List.append_eq_nil_iff] using hstmt
  simp [Block.ownComments, Stmt.ownCommentsList_append, Stmt.ownCommentsList, Stmt.ownComments_eq,
    Stmt.withLeading, hkind, htrailing]

/-! ### Removed declarations -/

/-- Whether one list of comments is the other without a comment in one place, if there is one to leave out. -/
def Leaves (lost : Option Comment) (comments comments' : List Comment) : Prop :=
  ∃ before after, comments = before ++ lost.toList ++ after ∧ comments' = before ++ after

theorem Leaves.of_eq {comments comments' : List Comment} (h : comments' = comments) :
    Leaves none comments comments' :=
  ⟨comments, [], by simp, by simp [h]⟩

/-- A comment that is left out of a part is left out of the whole. -/
theorem Leaves.outwards {lost : Option Comment} {inner inner' : List Comment}
    (h : Leaves lost inner inner') (before after : List Comment) :
    Leaves lost (before ++ inner ++ after) (before ++ inner' ++ after) := by
  obtain ⟨front, back, rfl, rfl⟩ := h
  exact ⟨before ++ front, back ++ after, by simp only [List.append_assoc],
    by simp only [List.append_assoc]⟩

/-- The comment after a statement of a block, if the statement is the last one. -/
def lastTrailing? (block : Block) (index : Nat) : Option Comment :=
  match block.stmts[index]?, block.stmts[index + 1]? with
  | some removed, none => removed.trailing
  | _, _ => none

theorem leaves_removeStmt? {block block' : Block} {index : Nat}
    (h : removeStmt? block index = some block') (hkind : ∀ stmt, block.stmts[index]? = some stmt →
      stmt.kind.ownComments = []) :
    Leaves (lastTrailing? block index) block.ownComments block'.ownComments := by
  obtain ⟨stmts, endComments, closing⟩ := block
  rw [removeStmt?] at h
  rw [lastTrailing?]
  split at h
  next removed next hremoved hnext =>
    have hkind := hkind removed hremoved
    rw [hremoved, hnext]
    obtain ⟨front, back, rfl, rfl⟩ := Focus.exists_split_of_getElem? hremoved
    cases back with
    | nil => simp at hnext
    | cons other rest =>
      obtain rfl : other = next := by simpa using hnext
      simp [List.eraseIdx_append] at h
      rw [← h]
      refine .of_eq ?_
      simp [Block.ownComments, Stmt.ownCommentsList_append, Stmt.ownCommentsList, Stmt.ownComments_eq,
        inheritLeading, Stmt.withLeading, hkind]
  next removed hremoved hnext =>
    have hkind := hkind removed hremoved
    rw [hremoved, hnext]
    cases h
    obtain ⟨front, back, rfl, rfl⟩ := Focus.exists_split_of_getElem? hremoved
    obtain rfl : back = [] := by simpa using hnext
    refine ⟨Stmt.ownCommentsList front ++ removed.layout.comments, endComments, ?_, ?_⟩
    · simp [Block.ownComments, Stmt.ownCommentsList_append, Stmt.ownCommentsList,
        Stmt.ownComments_eq, hkind]
    · simp [Block.ownComments, List.eraseIdx_append]
  next => cases h

/-- The comment that goes with the declaration of a local variable: the one after it, if the variable does not share the statement and the statement is the last one of its block. -/
def lostWith? (body : Block) (decl : NodeId) : Option Comment :=
  match body.scoped.find? fun entry => declares decl entry.2 with
  | none => none
  | some (path, stmt) =>
    if 1 < declaredCount stmt then none
    else path.blockIndex?.bind fun place =>
      (body.blockAt? place.1).bind fun block => lastTrailing? block place.2

theorem ownComments_withoutDeclarator (decl : NodeId) (stmt : Stmt) :
    (withoutDeclarator decl stmt).ownComments = stmt.ownComments := by
  rw [withoutDeclarator]
  split
  next declared hkind =>
    rw [Stmt.ownComments_eq, Stmt.ownComments_eq, hkind]
    rfl
  next => rfl

theorem ownComments_of_declares {decl : NodeId} {stmt : Stmt} (h : declares decl stmt = true) :
    stmt.kind.ownComments = [] := by
  rw [declares] at h
  split at h
  next declared hkind =>
    rw [hkind]
    rfl
  next => cases h

theorem leaves_removeLocal? {body body' : Block} {decl : NodeId}
    (h : removeLocal? body decl = some body') :
    Leaves (lostWith? body decl) body.ownComments body'.ownComments := by
  rw [removeLocal?] at h
  rw [lostWith?]
  cases hfind : body.scoped.find? fun entry => declares decl entry.2 with
  | none =>
    rw [hfind] at h
    cases h
  | some found =>
    obtain ⟨path, stmt⟩ := found
    rw [hfind] at h
    dsimp only at h ⊢
    obtain ⟨hdeclares, hmem⟩ := And.intro (List.find?_some hfind) (List.mem_of_find?_eq_some hfind)
    have hat := Block.stmtAt?_eq_some_iff.2 ((Block.mem_scoped body path stmt).1 hmem)
    split at h
    next hshared =>
      obtain ⟨old, before, after, -, hbody, hbody'⟩ := Block.ownComments_updateStmt? h
      rw [if_pos hshared]
      refine .of_eq ?_
      rw [hbody, hbody', ownComments_withoutDeclarator]
    next halone =>
      rw [if_neg halone]
      split at h
      next => cases h
      next blockPath index hindex =>
        obtain ⟨block, block', before, after, hblock, hremove, hbody, hbody'⟩ :=
          Block.ownComments_updateBlock? h
        rw [hindex, Option.bind_some, hblock, Option.bind_some, hbody, hbody']
        refine (leaves_removeStmt? hremove fun other hother => ?_).outwards before after
        -- The statement at the index is the one that declares the variable.
        obtain rfl := StmtPath.blockIndex?_eq_some hindex
        rw [Block.stmtAt?_concat hblock, hother] at hat
        obtain rfl := Option.some.inj hat
        exact ownComments_of_declares hdeclares

/-! ### Folded assignments -/

@[simp] theorem layout_withSlot (packed : Bool) (slot : Nat) (value : Expr) (ret : Stmt) :
    (withSlot packed slot value ret).layout = ret.layout := by
  unfold withSlot
  split <;> rfl

@[simp] theorem trailing_withSlot (packed : Bool) (slot : Nat) (value : Expr) (ret : Stmt) :
    (withSlot packed slot value ret).trailing = ret.trailing := by
  unfold withSlot
  split <;> rfl

theorem ownComments_withSlot (packed : Bool) (slot : Nat) (value : Expr) (ret : Stmt) :
    (withSlot packed slot value ret).kind.ownComments = ret.kind.ownComments := by
  unfold withSlot
  split
  next hkind =>
    rw [hkind]
    rfl
  next hkind =>
    rw [hkind]
    rfl
  next => rfl

/-- A `return` that takes in an assignment has the comments of both. -/
theorem ownComments_absorb {packed : Bool} {pending : List String} {stmt ret : Stmt} {fold : Fold}
    (h : foldable? packed pending stmt ret = some fold) :
    (absorb packed fold stmt ret).ownComments = stmt.ownComments ++ ret.ownComments := by
  obtain ⟨hassigns, -⟩ := foldable?_eq_some h
  obtain ⟨expr, hkind⟩ := kind_of_assignment? (by rw [hassigns]; rfl)
  rw [Stmt.ownComments_eq, kind_absorb, ownComments_withSlot, Stmt.ownComments_eq stmt,
    Stmt.ownComments_eq ret, hkind]
  simp [absorb, Stmt.withLeading, StmtKind.ownComments]

theorem MovesInto.ownComments_eq {packed : Bool} {before kept moved : List Stmt}
    {pending : List String} {ret ret' : Stmt} (h : MovesInto packed before pending ret kept moved ret') :
    ret'.ownComments = Stmt.ownCommentsList moved ++ ret.ownComments := by
  induction h with
  | stop => rfl
  | move hfold _ ih =>
    rw [ih, ownComments_absorb hfold, Stmt.ownCommentsList_append, Stmt.ownCommentsList,
      Stmt.ownCommentsList, List.append_nil, List.append_assoc]

theorem ownComments_foldBlock (returned : List String) (block : Block) (index : Nat) :
    (foldBlock returned block index).1.ownComments = block.ownComments := by
  obtain ⟨stmts, endComments, closing⟩ := block
  rw [foldBlock]
  split
  next => rfl
  next ret hret =>
    obtain ⟨front, back, rfl, rfl⟩ := Focus.exists_split_of_getElem? hret
    have hfront : (front ++ ret :: back).take front.length = front := List.take_left
    have hback : (front ++ ret :: back).drop (front.length + 1) = back := by simp
    obtain ⟨moved, -, hmoves⟩ := movesInto_foldInto (1 < returned.length) front.reverse returned ret
    rcases hfolded : foldInto (1 < returned.length) front.reverse returned ret with ⟨kept, ret', n⟩
    rw [hfolded] at hmoves
    have hsplit := hmoves.reverse_eq
    rw [List.reverse_reverse] at hsplit
    dsimp only
    rw [hfront, hback, hfolded]
    dsimp only
    rw [Block.ownComments_eq, Block.ownComments_eq, Stmt.ownCommentsList_append, hsplit]
    simp only [Stmt.ownCommentsList_append, Stmt.ownCommentsList, hmoves.ownComments_eq,
      List.append_assoc]

theorem ownComments_foldAt (returned : List String) (body : Block) (path : StmtPath) :
    (foldAt returned body path).1.ownComments = body.ownComments := by
  rw [foldAt]
  split
  · rfl
  · split
    next => rfl
    next blockPath index _ _ block hblock =>
      dsimp only
      cases hupdate : body.updateBlock? blockPath fun _ => some (foldBlock returned block index).1 with
      | none => rfl
      | some body' =>
        obtain ⟨other, block', before, after, hother, hblock', hbody, hbody'⟩ :=
          Block.ownComments_updateBlock? hupdate
        obtain rfl := Option.some.inj (hblock.symm.trans hother)
        obtain rfl := Option.some.inj hblock'
        rw [Option.getD_some, hbody, hbody', ownComments_foldBlock]

theorem ownComments_foldAll (returned : List String) (body : Block) (paths : List StmtPath) :
    (foldAll returned body paths).1.ownComments = body.ownComments := by
  induction paths generalizing body with
  | nil => rfl
  | cons path rest ih => exact (ih _).trans (ownComments_foldAt returned body path)

theorem ownComments_foldReturns (method : Method) (returned : List String) :
    ownComments (foldReturns method returned).1 = ownComments method := by
  rw [foldReturns]
  split
  next => rfl
  next body hbody =>
    rw [ownComments_of_body hbody]
    exact ownComments_foldAll returned body _

/-! ### Edits of a method -/

/-- An edit of a method that has succeeded, and the comment that goes with it: a statement without comments is inserted, a local variable is removed, or assignments are folded into returns. -/
inductive CommentEdit (method : Method) : Method → Option Comment → Prop where
  | insert {body body' : Block} {path : StmtPath} {stmt : Stmt} (hbody : method.body = some body)
      (hstmt : stmt.ownComments = []) (hinsert : insertBefore? body path stmt = some body') :
    CommentEdit method { method with body := some body' } none
  | remove {body : Block} {decl : NodeId} {method' : Method} (hbody : method.body = some body)
      (hlocal : method.param? decl = none) (hremove : removeDeclaration? method decl = some method') :
    CommentEdit method method' (lostWith? body decl)
  | fold (returned : List String) : CommentEdit method (foldReturns method returned).1 none

/-- Edits keep the comments of the scope in their order, each as often as it was there, all but the comment after a declaration that is removed from the end of its block. -/
theorem leaves_ownComments_of_edit {method method' : Method} {lost : Option Comment}
    (h : CommentEdit method method' lost) : Leaves lost (ownComments method) (ownComments method') := by
  cases h with
  | insert hbody hstmt hinsert =>
    rw [ownComments_of_body hbody]
    exact .of_eq (ownComments_insertBefore? hstmt hinsert)
  | remove hbody hlocal hremove =>
    rw [removeDeclaration?, hlocal, if_neg (by simp), hbody] at hremove
    obtain ⟨body', hremoved, rfl⟩ := Option.map_eq_some_iff.1 hremove
    rw [ownComments_of_body hbody]
    exact leaves_removeLocal? hremoved
  | fold returned => exact .of_eq (ownComments_foldReturns method returned)

/-- A method that ends in a declaration with a comment after it. -/
def endsInDeclaration : Method :=
  { id := 0, layout := .unwritten, annotations := [], modifiers := [], typeParams := [],
    returnType := some .void, name := "m", params := [], throws := []
    body := some ⟨[⟨.unwritten, some (.ofLine "note"),
      .localVar (.single 1 (.primitive .int) "x" (.ofInt 0))⟩], [], none⟩ }

theorem leaves_ownComments_endsInDeclaration :
    CommentEdit endsInDeclaration { endsInDeclaration with body := some ⟨[], [], none⟩ }
        (some (.ofLine "note")) ∧
      Leaves (some (.ofLine "note")) (ownComments endsInDeclaration)
        (ownComments { endsInDeclaration with body := some ⟨[], [], none⟩ }) := by
  have hedit : CommentEdit endsInDeclaration { endsInDeclaration with body := some ⟨[], [], none⟩ }
      (some (.ofLine "note")) := @CommentEdit.remove endsInDeclaration _ 1 _ rfl rfl rfl
  exact ⟨hedit, leaves_ownComments_of_edit hedit⟩

/-- The comment after the declaration is neither handed to a statement nor put at the end of the block. -/
theorem not_perm_ownComments_endsInDeclaration :
    ∃ method', removeDeclaration? endsInDeclaration 1 = some method' ∧
      ¬ (ownComments endsInDeclaration).Perm (ownComments method') :=
  ⟨_, rfl, fun hperm => absurd hperm.length_eq (by decide)⟩

end AdviceMigration.Advice
