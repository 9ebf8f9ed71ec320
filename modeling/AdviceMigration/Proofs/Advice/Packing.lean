import AdviceMigration.Proofs.Advice.WriteBack
import AdviceMigration.Proofs.Source.ReturnSites

/-!
# Returns and the room in front of them

An expression that a `return` gave back before can stay as a statement in front of it if the `return` stands directly in a block. Another value for a `return` and a statement in front of it are one edit of this block.
-/

namespace AdviceMigration.Advice

open AdviceMigration.Source AdviceMigration.Scope

/-- Where a statement is put: directly in a block, in front of the one at the path. -/
theorem insertBefore?_eq_some {body body' : Block} {path : StmtPath} {stmt : Stmt}
    (h : insertBefore? body path stmt = some body') :
    ∃ (blockPath : StmtPath) (front back : List Stmt) (anchor : Stmt)
      (endComments : List Comment) (closing : Option Trivia)
      (change : Block → Option Block), path = blockPath ++ [Step.stmt front.length] ∧
      body.blockAt? blockPath = some ⟨front ++ anchor :: back, endComments, closing⟩ ∧
      change ⟨front ++ anchor :: back, endComments, closing⟩ = some ⟨front ++
        stmt.withLeading anchor.layout.comments anchor.layout.blankLineBefore anchor.layout.leading ::
        anchor.withLeading [] false none :: back, endComments, closing⟩ ∧
      body.updateBlock? blockPath change = some body' := by
  rw [insertBefore?] at h
  split at h
  next => cases h
  next blockPath index hindex =>
    obtain ⟨block, block', hblock, hchange⟩ := Block.exists_of_updateBlock? h
    obtain ⟨stmts, endComments, closing⟩ := block
    dsimp only at hchange
    split at hchange
    next => cases hchange
    next anchor hanchor =>
      obtain ⟨front, back, rfl, rfl⟩ := Focus.exists_split_of_getElem? hanchor
      refine ⟨blockPath, front, back, anchor, endComments, closing, _,
        StmtPath.blockIndex?_eq_some hindex, hblock, ?_, h⟩
      dsimp only
      rw [hanchor]
      have hset : ∀ stmt, (front ++ anchor :: back).set front.length stmt =
          front ++ stmt :: back := by simp
      simp only [hset, insertIdx_split]

/-- Another value for a `return` and a statement in front of it, as one edit of their block. -/
theorem insertBefore?_setReturn_iff {body body' : Block} {blockPath : StmtPath}
    {front back : List Stmt} {ret stmt : Stmt} {endComments : List Comment}
    {closing : Option Trivia} {value : Option Expr}
    (hblock : body.blockAt? blockPath = some ⟨front ++ ret :: back, endComments, closing⟩) :
    insertBefore? (setReturn body (blockPath ++ [Step.stmt front.length]) value)
        (blockPath ++ [Step.stmt front.length]) stmt = some body' ↔
      body.updateBlock? blockPath (fun _ => some ⟨front ++
        stmt.withLeading ret.layout.comments ret.layout.blankLineBefore ret.layout.leading ::
        ({ ret with kind := .ret value } : Stmt).withLeading [] false none :: back, endComments,
        closing⟩) = some body' := by
  have hret : body.stmtAt? (blockPath ++ [Step.stmt front.length]) = some ret := by
    rw [Block.stmtAt?_concat hblock]
    simp
  have hset := exists_setReturn hret value
  rw [Focus.update?_append] at hset
  rw [insertBefore?, StmtPath.blockIndex?_concat]
  dsimp only
  rw [Block.updateBlock?_eq_some_iff, Block.updateBlock?_eq_some_iff,
    Focus.update?_update? (Focus.fits_update? Focus.fits_onStmt) Focus.fits_onBlock hset,
    Focus.update?_congr (Block.blockAt?_eq_some_iff.1 hblock)]
  simp [Focus.onBlock, Focus.update?, Focus.child?, Focus.onStmt, Focus.withChild, insertIdx_split]

/-- What the edit of the block puts there. -/
theorem insertBefore?_setReturn {body body' : Block} {path : StmtPath} {ret stmt : Stmt}
    {value : Option Expr} (hret : body.stmtAt? path = some ret)
    (h : insertBefore? (setReturn body path value) path stmt = some body') :
    ∃ (blockPath : StmtPath) (front back : List Stmt) (endComments : List Comment)
      (closing : Option Trivia) (stmt' ret' : Stmt),
      path = blockPath ++ [Step.stmt front.length] ∧
      body.blockAt? blockPath = some ⟨front ++ ret :: back, endComments, closing⟩ ∧
      stmt'.kind = stmt.kind ∧ ret'.kind = .ret value ∧
      body.updateBlock? blockPath
        (fun _ => some ⟨front ++ stmt' :: ret' :: back, endComments, closing⟩) = some body' := by
  cases hindex : path.blockIndex? with
  | none =>
    rw [insertBefore?, hindex] at h
    cases h
  | some place =>
    obtain ⟨blockPath, index⟩ := place
    obtain rfl := StmtPath.blockIndex?_eq_some hindex
    obtain ⟨front, back, endComments, closing, rfl, hblock⟩ := Block.blockAt?_of_stmtAt? hret
    refine ⟨blockPath, front, back, endComments, closing, _, _, rfl, hblock, ?_, ?_,
      (insertBefore?_setReturn_iff hblock).1 h⟩
    · rfl
    · rfl

/-! ### Returns of a template -/

/-- Whether a statement is a `return` that gives back a template. -/
def GivesTemplate (names : List String) (stmt : Stmt) : Prop :=
  ∃ expr, stmt.kind = .ret (some expr) ∧ IsTemplate names expr

theorem stmtAt?_of_site {body : Block} {site : ReturnSite} (h : site ∈ body.sites) :
    body.stmtAt? site.path = some site.ret ∧ site.ret.isReturn := by
  have hmem : (site.path, site.ret) ∈ body.scoped.filter (·.2.isReturn) := by
    rw [body.filter_scoped]
    exact List.mem_map.2 ⟨site, h, rfl⟩
  obtain ⟨hwalk, hret⟩ := List.mem_filter.1 hmem
  exact ⟨Block.stmtAt?_eq_some_iff.2 ((Block.mem_scoped body site.path site.ret).1 hwalk), hret⟩

end AdviceMigration.Advice
