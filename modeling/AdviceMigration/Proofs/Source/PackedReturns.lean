import AdviceMigration.Proofs.Source.PathOrder
import AdviceMigration.Source.Completion

/-!
# Other values for returns

One recursion through a body puts other values into its returns. Where the old value of a `return` can stand alone, it stays as a statement in front; that takes room, so it happens only directly in a block. Expressions and local classes are not entered.

An edit of one `return` by its path does the same for one more value, as long as no `return` at or before it in the blocks on the way has made room (`Focus.update?_packed`).
-/

namespace AdviceMigration.Source

/-- Values for returns, by the paths of the returns. -/
abbrev Copies := StmtPath → Option Expr

/-- The values for what a step leads to. -/
def Copies.under (copies : Copies) (step : Step) : Copies := fun path => copies (step :: path)

/-- The values for what a path leads to. -/
def Copies.along (copies : Copies) (path : StmtPath) : Copies := fun inner => copies (path ++ inner)

/-- The value of a `return` that can stand alone as a statement. -/
def Stmt.keptValue? (stmt : Stmt) : Option Expr :=
  match stmt.kind with
  | .ret value => value.filter (·.isStatement)
  | _ => none

theorem Stmt.keptValue?_eq_none {stmt : Stmt} (h : stmt.isReturn = false) : stmt.keptValue? = none := by
  obtain ⟨layout, trailing, kind⟩ := stmt
  cases kind with
  | ret value => cases h
  | _ => rfl

/-- Whether a statement is a `return` whose value would stay in front of it, but it is a branch or a body and has no block to make room in. -/
def isCramped (entry : StmtPath × Stmt) : Bool :=
  entry.2.keptValue?.isSome && entry.1.blockIndex?.isNone

/-- Whether a `return` of a body has no room for a value that would stay. -/
def Block.isCramped (body : Block) : Bool := body.scoped.any Source.isCramped

theorem isCramped_iff {path : StmtPath} {stmt : Stmt} :
    isCramped (path, stmt) ↔ (∃ value, stmt.keptValue? = some value) ∧ path.blockIndex? = none := by
  simp [isCramped, Option.isSome_iff_exists]

/-- A statement of a block behind a value that is kept. The value takes over the comments, the empty line and the lines in front. -/
def Stmt.behind (stmt : Stmt) : Option Expr → List Stmt
  | none => [stmt]
  | some value =>
    [(Stmt.ofKind (.expr value)).withLeading stmt.layout.comments stmt.layout.blankLineBefore
      stmt.layout.leading, stmt.withLeading [] false none]

mutual
/-- A statement with other values for its returns. -/
def Stmt.packed (copies : Copies) : Stmt → Stmt
  | ⟨layout, trailing, kind⟩ => ⟨layout, trailing, kind.packed copies⟩

/-- What a statement does with other values for its returns. -/
def StmtKind.packed (copies : Copies) : StmtKind → StmtKind
  | .ret value => .ret ((copies []).or value)
  | .block body => .block (body.packed (copies.under .nested))
  | .ifElse cond yes none => .ifElse cond (yes.packed (copies.under .thenBranch)) none
  | .ifElse cond yes (some no) =>
    .ifElse cond (yes.packed (copies.under .thenBranch))
      (some (no.packed (copies.under .elseBranch)))
  | .whileLoop cond body => .whileLoop cond (body.packed (copies.under .body))
  | .doWhile body cond => .doWhile (body.packed (copies.under .body)) cond
  | .forLoop init cond update body =>
    .forLoop init cond update (body.packed (copies.under .body))
  | .forEach var iterable body => .forEach var iterable (body.packed (copies.under .body))
  | .labeled label body => .labeled label (body.packed (copies.under .body))
  | .tryBlock resources body catches none =>
    .tryBlock resources (body.packed (copies.under .body)) (CatchClause.packedAll copies 0 catches)
      none
  | .tryBlock resources body catches (some finallyBody) =>
    .tryBlock resources (body.packed (copies.under .body)) (CatchClause.packedAll copies 0 catches)
      (some (finallyBody.packed (copies.under .finallyBlock)))
  | .sync lock body => .sync lock (body.packed (copies.under .body))
  | .switch selector cases => .switch selector (SwitchCase.packedAll copies 0 cases)
  | .localVar decl => .localVar decl
  | .localClass decl => .localClass decl
  | .expr value => .expr value
  | .throw value => .throw value
  | .breakTo label => .breakTo label
  | .continueTo label => .continueTo label
  | .assertion cond message => .assertion cond message
  | .empty => .empty

/-- A block with other values for its returns. -/
def Block.packed (copies : Copies) : Block → Block
  | ⟨stmts, endComments, closing⟩ => ⟨Stmt.packedAll copies 0 stmts, endComments, closing⟩

/-- The statements of a block from the given index on. -/
def Stmt.packedAll (copies : Copies) (index : Nat) : List Stmt → List Stmt
  | [] => []
  | stmt :: rest =>
    (stmt.packed (copies.under (.stmt index))).behind
        ((copies [.stmt index]).bind fun _ => stmt.keptValue?) ++
      Stmt.packedAll copies (index + 1) rest

/-- `catch` clauses from the given index on. -/
def CatchClause.packedAll (copies : Copies) (index : Nat) : List CatchClause → List CatchClause
  | [] => []
  | ⟨id, annotations, modifiers, types, name, body⟩ :: rest =>
    ⟨id, annotations, modifiers, types, name, body.packed (copies.under (.catchBlock index))⟩ ::
      CatchClause.packedAll copies (index + 1) rest

/-- Cases from the given index on. -/
def SwitchCase.packedAll (copies : Copies) (index : Nat) : List SwitchCase → List SwitchCase
  | [] => []
  | ⟨comments, labels, isDefault, form, body⟩ :: rest =>
    ⟨comments, labels, isDefault, form, body.packed (copies.under (.caseBlock index))⟩ ::
      SwitchCase.packedAll copies (index + 1) rest
end

/-! ### No values -/

mutual
theorem Stmt.packed_none : (stmt : Stmt) → stmt.packed (fun _ => none) = stmt
  | ⟨layout, trailing, kind⟩ => congrArg (Stmt.mk layout trailing) kind.packed_none

theorem StmtKind.packed_none : (kind : StmtKind) → kind.packed (fun _ => none) = kind
  | .ret _ => rfl
  | .block body => congrArg StmtKind.block body.packed_none
  | .ifElse cond yes none => congrArg (StmtKind.ifElse cond · none) yes.packed_none
  | .ifElse cond yes (some no) =>
    congrArg₂ (fun yes no => StmtKind.ifElse cond yes (some no)) yes.packed_none no.packed_none
  | .whileLoop cond body => congrArg (StmtKind.whileLoop cond) body.packed_none
  | .doWhile body cond => congrArg (StmtKind.doWhile · cond) body.packed_none
  | .forLoop init cond update body => congrArg (StmtKind.forLoop init cond update) body.packed_none
  | .forEach var iterable body => congrArg (StmtKind.forEach var iterable) body.packed_none
  | .labeled label body => congrArg (StmtKind.labeled label) body.packed_none
  | .tryBlock resources body catches none =>
    congrArg₂ (StmtKind.tryBlock resources · · none) body.packed_none
      (CatchClause.packedAll_none catches 0)
  | .tryBlock resources body catches (some finallyBody) => by
    rw [StmtKind.packed]
    exact congr (congrArg₂ (StmtKind.tryBlock resources) body.packed_none
      (CatchClause.packedAll_none catches 0)) (congrArg some finallyBody.packed_none)
  | .sync lock body => congrArg (StmtKind.sync lock) body.packed_none
  | .switch selector cases => congrArg (StmtKind.switch selector) (SwitchCase.packedAll_none cases 0)
  | .localVar _ => rfl
  | .localClass _ => rfl
  | .expr _ => rfl
  | .throw _ => rfl
  | .breakTo _ => rfl
  | .continueTo _ => rfl
  | .assertion _ _ => rfl
  | .empty => rfl

theorem Block.packed_none : (body : Block) → body.packed (fun _ => none) = body
  | ⟨stmts, endComments, closing⟩ =>
    congrArg (Block.mk · endComments closing) (Stmt.packedAll_none stmts 0)

theorem Stmt.packedAll_none : (stmts : List Stmt) → (index : Nat) →
    Stmt.packedAll (fun _ => none) index stmts = stmts
  | [], _ => rfl
  | stmt :: rest, index => congrArg₂ List.cons stmt.packed_none (Stmt.packedAll_none rest (index + 1))

theorem CatchClause.packedAll_none : (clauses : List CatchClause) → (index : Nat) →
    CatchClause.packedAll (fun _ => none) index clauses = clauses
  | [], _ => rfl
  | ⟨id, annotations, modifiers, types, name, body⟩ :: rest, index =>
    congrArg₂ List.cons
      (congrArg (CatchClause.mk id annotations modifiers types name) body.packed_none)
      (CatchClause.packedAll_none rest (index + 1))

theorem SwitchCase.packedAll_none : (cases : List SwitchCase) → (index : Nat) →
    SwitchCase.packedAll (fun _ => none) index cases = cases
  | [], _ => rfl
  | ⟨comments, labels, isDefault, form, body⟩ :: rest, index =>
    congrArg₂ List.cons (congrArg (SwitchCase.mk comments labels isDefault form) body.packed_none)
      (SwitchCase.packedAll_none rest (index + 1))
end

/-! ### Lists of parts -/

theorem Stmt.packedAll_eq_mapIdx (copies : Copies) (index : Nat) (stmts : List Stmt) :
    Stmt.packedAll copies index stmts = (stmts.mapIdx fun offset stmt =>
      (stmt.packed (copies.under (.stmt (index + offset)))).behind
        ((copies [.stmt (index + offset)]).bind fun _ => stmt.keptValue?)).flatten := by
  induction stmts generalizing index with
  | nil => rfl
  | cons stmt rest ih =>
    simp [Stmt.packedAll, List.mapIdx_cons, ih, Nat.add_assoc, Nat.add_comm 1]

theorem CatchClause.packedAll_eq_mapIdx (copies : Copies) (index : Nat)
    (clauses : List CatchClause) :
    CatchClause.packedAll copies index clauses = clauses.mapIdx fun offset clause =>
      { clause with body := clause.body.packed (copies.under (.catchBlock (index + offset))) } := by
  induction clauses generalizing index with
  | nil => rfl
  | cons clause rest ih =>
    obtain ⟨_, _, _, _, _, body⟩ := clause
    simp [CatchClause.packedAll, List.mapIdx_cons, ih, Nat.add_assoc, Nat.add_comm 1]

theorem SwitchCase.packedAll_eq_mapIdx (copies : Copies) (index : Nat) (cases : List SwitchCase) :
    SwitchCase.packedAll copies index cases = cases.mapIdx fun offset case =>
      { case with body := case.body.packed (copies.under (.caseBlock (index + offset))) } := by
  induction cases generalizing index with
  | nil => rfl
  | cons case rest ih =>
    obtain ⟨_, _, _, _, body⟩ := case
    simp [SwitchCase.packedAll, List.mapIdx_cons, ih, Nat.add_assoc, Nat.add_comm 1]

/-- Around one item of a list two functions of index and item may agree. -/
theorem exists_mapIdx_split {α β : Type} {f g : Nat → α → β} (before after : List α) (item : α)
    (h : ∀ index, index ≠ before.length → f index = g index) :
    ∃ before' after', before'.length = before.length ∧
      (before ++ item :: after).mapIdx f = before' ++ f before.length item :: after' ∧
      (before ++ item :: after).mapIdx g = before' ++ g before.length item :: after' := by
  refine ⟨before.mapIdx f, after.mapIdx fun index => f (index + 1 + before.length),
    List.length_mapIdx, by simp [List.mapIdx_append, List.mapIdx_cons], ?_⟩
  have hbefore : before.mapIdx g = before.mapIdx f := by
    rw [List.mapIdx_eq_mapIdx_iff]
    intro index hindex
    rw [h index (Nat.ne_of_lt hindex)]
  have hafter : (fun index => g (index + 1 + before.length)) =
      fun index => f (index + 1 + before.length) := by
    funext index
    exact (h _ (by omega)).symm
  simp [List.mapIdx_append, List.mapIdx_cons, hbefore, hafter]

/-! ### On the way along a path -/

namespace Focus

/-- What a path leads to, with other values for its returns. -/
def packed (copies : Copies) : Focus → Focus
  | .block inner => .block (inner.packed copies)
  | .stmt inner => .stmt (inner.packed copies)

end Focus

/-- Whether no `return` that stands directly in a block makes room up to where a step goes through the block. -/
def Copies.Clear (copies : Copies) : Step → Prop
  | .stmt index => ∀ other ≤ index, copies [.stmt other] = none
  | _ => True

/-- Whether no `return` makes room in the blocks along a path, up to where the path goes through them. -/
def Copies.ClearAlong (copies : Copies) (path : StmtPath) : Prop :=
  ∀ outer index rest, path = outer ++ .stmt index :: rest →
    ∀ other ≤ index, copies (outer ++ [.stmt other]) = none

theorem Copies.ClearAlong.head {copies : Copies} {step : Step} {path : StmtPath}
    (h : copies.ClearAlong (step :: path)) : copies.Clear step := by
  cases step with
  | stmt index => exact h [] index path rfl
  | _ => trivial

theorem Copies.ClearAlong.tail {copies : Copies} {step : Step} {path : StmtPath}
    (h : copies.ClearAlong (step :: path)) : (copies.under step).ClearAlong path := by
  intro outer index rest hpath
  exact h (step :: outer) index rest (congrArg (step :: ·) hpath)

theorem Stmt.packedAll_append (copies : Copies) (index : Nat) (front back : List Stmt) :
    Stmt.packedAll copies index (front ++ back) =
      Stmt.packedAll copies index front ++ Stmt.packedAll copies (index + front.length) back := by
  simp [Stmt.packedAll_eq_mapIdx, List.mapIdx_append, Nat.add_assoc, Nat.add_comm front.length]

/-- Statements keep their places if none of them makes room. -/
theorem Stmt.length_packedAll {copies : Copies} {index : Nat} {stmts : List Stmt}
    (h : ∀ other < index + stmts.length, copies [.stmt other] = none) :
    (Stmt.packedAll copies index stmts).length = stmts.length := by
  induction stmts generalizing index with
  | nil => rfl
  | cons stmt rest ih =>
    rw [List.length_cons] at h
    have hrest := @ih (index + 1) fun other hother => h other (by omega)
    rw [Stmt.packedAll, h index (by omega), Option.bind_none, Stmt.behind, List.singleton_append,
      List.length_cons, List.length_cons, hrest]

theorem Stmt.packedAll_congr {copies copies' : Copies} {index : Nat} {stmts : List Stmt}
    (h : ∀ other, index ≤ other → other < index + stmts.length →
      copies'.under (.stmt other) = copies.under (.stmt other)) :
    Stmt.packedAll copies' index stmts = Stmt.packedAll copies index stmts := by
  induction stmts generalizing index with
  | nil => rfl
  | cons stmt rest ih =>
    rw [List.length_cons] at h
    have hfirst := h index (Nat.le_refl _) (by omega)
    have hvalue : copies' [.stmt index] = copies [.stmt index] := congrFun hfirst []
    rw [Stmt.packedAll, Stmt.packedAll, hfirst, hvalue,
      ih fun other hle hlt => h other (by omega) (by omega)]

/-- The statements around one of a block, for values that differ only in this one. -/
theorem Stmt.exists_packedAll_split {copies copies' : Copies} (before after : List Stmt) (stmt : Stmt)
    (hclear : copies.Clear (.stmt before.length))
    (hother : ∀ other, other ≠ .stmt before.length → copies'.under other = copies.under other) :
    ∃ before' after' : List Stmt, before'.length = before.length ∧
      Stmt.packedAll copies 0 (before ++ stmt :: after) =
        before' ++ stmt.packed (copies.under (.stmt before.length)) :: after' ∧
      Stmt.packedAll copies' 0 (before ++ stmt :: after) =
        before' ++ (stmt.packed (copies'.under (.stmt before.length))).behind
          ((copies' [.stmt before.length]).bind fun _ => stmt.keptValue?) ++ after' := by
  refine ⟨Stmt.packedAll copies 0 before, Stmt.packedAll copies (before.length + 1) after, ?_, ?_, ?_⟩
  · apply Stmt.length_packedAll
    intro other hother
    exact hclear other (by omega)
  · simp [Stmt.packedAll_append, Stmt.packedAll, hclear _ (Nat.le_refl _), Stmt.behind]
  · have hbefore : Stmt.packedAll copies' 0 before = Stmt.packedAll copies 0 before :=
      Stmt.packedAll_congr fun other _ hlt => hother _ (by simp; omega)
    have hafter : Stmt.packedAll copies' (before.length + 1) after =
        Stmt.packedAll copies (before.length + 1) after :=
      Stmt.packedAll_congr fun other hle _ => hother _ (by simp; omega)
    simp [Stmt.packedAll_append, Stmt.packedAll, hbefore, hafter]

theorem CatchClause.exists_packedAll_split {copies copies' : Copies}
    (before after : List CatchClause) (clause : CatchClause)
    (hother : ∀ other, other ≠ .catchBlock before.length →
      copies'.under other = copies.under other) :
    ∃ before' after' : List CatchClause, before'.length = before.length ∧
      CatchClause.packedAll copies 0 (before ++ clause :: after) = before' ++
        { clause with body := clause.body.packed (copies.under (.catchBlock before.length)) } ::
          after' ∧
      CatchClause.packedAll copies' 0 (before ++ clause :: after) = before' ++
        { clause with body := clause.body.packed (copies'.under (.catchBlock before.length)) } ::
          after' := by
  simp only [CatchClause.packedAll_eq_mapIdx, Nat.zero_add]
  exact exists_mapIdx_split before after clause fun index hne => by simp [hother, hne]

theorem SwitchCase.exists_packedAll_split {copies copies' : Copies}
    (before after : List SwitchCase) (case : SwitchCase)
    (hother : ∀ other, other ≠ .caseBlock before.length →
      copies'.under other = copies.under other) :
    ∃ before' after' : List SwitchCase, before'.length = before.length ∧
      SwitchCase.packedAll copies 0 (before ++ case :: after) = before' ++
        { case with body := case.body.packed (copies.under (.caseBlock before.length)) } :: after' ∧
      SwitchCase.packedAll copies' 0 (before ++ case :: after) = before' ++
        { case with body := case.body.packed (copies'.under (.caseBlock before.length)) } ::
          after' := by
  simp only [SwitchCase.packedAll_eq_mapIdx, Nat.zero_add]
  exact exists_mapIdx_split before after case fun index hne => by simp [hother, hne]

namespace Focus

/-- Values that differ only in what a step leads to make different parts of what stands there and the same of all around it. -/
theorem swap_packed {focus part : Focus} {step : Step} {copies copies' : Copies}
    (hchild : focus.child? step = some part) (hclear : copies.Clear step)
    (hclear' : copies'.Clear step)
    (hother : ∀ other, other ≠ step → copies'.under other = copies.under other) :
    Swap step (part.packed (copies.under step)) (part.packed (copies'.under step))
      (focus.packed copies) (focus.packed copies') := by
  obtain ⟨focus', hswap⟩ : ∃ focus', Swap step part part focus focus' :=
    ⟨_, swap_of_child? hchild (by cases part <;> trivial)⟩
  cases hswap with
  | @stmt before after endComments closing stmt =>
    obtain ⟨before', after', hlength, hold, hnew⟩ :=
      Stmt.exists_packedAll_split before after stmt hclear hother
    rw [hclear' _ (Nat.le_refl _), Option.bind_none, Stmt.behind, List.append_assoc,
      List.singleton_append] at hnew
    simp only [packed, Block.packed, hold, hnew, ← hlength]
    exact .stmt
  | nested => exact .nested
  | @thenBranch _ _ _ no =>
    cases no with
    | none => exact .thenBranch
    | some no =>
      simp only [packed, Stmt.packed, StmtKind.packed, hother .elseBranch (by simp)]
      exact .thenBranch
  | elseBranch =>
    simp only [packed, Stmt.packed, StmtKind.packed, hother .thenBranch (by simp)]
    exact .elseBranch
  | whileLoop => exact .whileLoop
  | doWhile => exact .doWhile
  | forLoop => exact .forLoop
  | forEach => exact .forEach
  | labeled => exact .labeled
  | @tryBody _ _ _ catches finallyBody =>
    have hcatches : CatchClause.packedAll copies' 0 catches =
        CatchClause.packedAll copies 0 catches := by
      simp [CatchClause.packedAll_eq_mapIdx, hother]
    cases finallyBody with
    | none =>
      simp only [packed, Stmt.packed, StmtKind.packed, hcatches]
      exact .tryBody
    | some finallyBody =>
      simp only [packed, Stmt.packed, StmtKind.packed, hcatches, hother .finallyBlock (by simp)]
      exact .tryBody
  | sync => exact .sync
  | @catchBlock _ _ _ body before after clause finallyBody =>
    obtain ⟨before', after', hlength, hold, hnew⟩ :=
      CatchClause.exists_packedAll_split before after clause hother
    cases finallyBody with
    | none =>
      simp only [packed, Stmt.packed, StmtKind.packed, hold, hnew, hother .body (by simp), ← hlength]
      exact @Swap.catchBlock _ _ _ _ before' after' { clause with body := _ } _ _
    | some finallyBody =>
      simp only [packed, Stmt.packed, StmtKind.packed, hold, hnew, hother .body (by simp),
        hother .finallyBlock (by simp), ← hlength]
      exact @Swap.catchBlock _ _ _ _ before' after' { clause with body := _ } _ _
  | finallyBlock =>
    simp only [packed, Stmt.packed, StmtKind.packed, CatchClause.packedAll_eq_mapIdx,
      hother .body (by simp), hother (.catchBlock _) (by simp)]
    exact .finallyBlock
  | @caseBlock _ _ _ before after case =>
    obtain ⟨before', after', hlength, hold, hnew⟩ :=
      SwitchCase.exists_packedAll_split before after case hother
    simp only [packed, Stmt.packed, StmtKind.packed, hold, hnew, ← hlength]
    exact @Swap.caseBlock _ _ _ before' after' { case with body := _ } _

theorem Swap.withChild_new {step : Step} {part new focus focus' : Focus}
    (h : Swap step part new focus focus') : focus.withChild step new = focus' := by
  cases h <;> simp [withChild, replaceIn, modify_split]

/-- What a clear path leads to is found there with its values. -/
theorem at?_packed {focus part : Focus} {path : StmtPath} {copies : Copies}
    (hat : focus.at? path = some part) (hclear : copies.ClearAlong path) :
    (focus.packed copies).at? path = some (part.packed (copies.along path)) := by
  induction path generalizing focus copies with
  | nil =>
    cases hat
    rfl
  | cons step rest ih =>
    rw [at?] at hat
    split at hat
    next child hchild =>
      have hswap := swap_packed hchild hclear.head hclear.head fun _ _ => rfl
      rw [at?, hswap.child?_old]
      exact ih hat hclear.tail
    next => cases hat

/-- An edit at a clear path gives what other values give, if it does so for the part that the path leads to and the values differ only there. -/
theorem update?_packed {change : Focus → Option Focus} {focus part : Focus} {path : StmtPath}
    {copies copies' : Copies} (hat : focus.at? path = some part) (hclear : copies.ClearAlong path)
    (hclear' : copies'.ClearAlong path)
    (hother : ∀ other, ¬ path <+: other → copies' other = copies other)
    (hchange : change (part.packed (copies.along path)) = some (part.packed (copies'.along path))) :
    (focus.packed copies).update? change path = some (focus.packed copies') := by
  induction path generalizing focus copies copies' with
  | nil =>
    cases hat
    exact hchange
  | cons step rest ih =>
    rw [at?] at hat
    split at hat
    next child hchild =>
      have hswap := swap_packed hchild hclear.head hclear'.head fun other hne => by
        funext inner
        apply hother
        intro hpre
        exact hne (List.cons_prefix_cons.1 hpre).1.symm
      rw [update?, hswap.child?_old]
      dsimp only
      rw [ih hat hclear.tail hclear'.tail
        (fun other hpre => hother _ fun hcons => hpre (List.cons_prefix_cons.1 hcons).2) hchange,
        Option.map_some, hswap.withChild_new]
    next => cases hat

end Focus

/-! ### Completion -/

theorem Stmt.anyBreaksOut_behind (stmt : Stmt) (kept : Option Expr) (rest : List Stmt)
    (nested : Bool) : Stmt.anyBreaksOut (stmt.behind kept ++ rest) nested =
      (stmt.breaksOut nested || Stmt.anyBreaksOut rest nested) := by
  obtain ⟨layout, trailing, kind⟩ := stmt
  cases kept with
  | none => rfl
  | some value =>
    simp [Stmt.behind, Stmt.anyBreaksOut, Stmt.breaksOut, StmtKind.breaksOut, Stmt.withLeading,
      Stmt.ofKind]

theorem Stmt.allCanComplete_behind (stmt : Stmt) (kept : Option Expr) (rest : List Stmt) :
    Stmt.allCanComplete (stmt.behind kept ++ rest) =
      (stmt.canComplete && Stmt.allCanComplete rest) := by
  obtain ⟨layout, trailing, kind⟩ := stmt
  cases kept with
  | none => rfl
  | some value =>
    simp [Stmt.behind, Stmt.allCanComplete, Stmt.canComplete, StmtKind.canComplete,
      Stmt.withLeading, Stmt.ofKind]

mutual
theorem Stmt.breaksOut_packed : (stmt : Stmt) → (copies : Copies) → (nested : Bool) →
    (stmt.packed copies).breaksOut nested = stmt.breaksOut nested
  | ⟨_, _, kind⟩, copies, nested => kind.breaksOut_packed copies nested

theorem StmtKind.breaksOut_packed : (kind : StmtKind) → (copies : Copies) → (nested : Bool) →
    (kind.packed copies).breaksOut nested = kind.breaksOut nested
  | .block body, _, nested => body.breaksOut_packed _ nested
  | .sync _ body, _, nested => body.breaksOut_packed _ nested
  | .ifElse _ yes none, _, nested => yes.breaksOut_packed _ nested
  | .ifElse _ yes (some no), _, nested =>
    congrArg₂ or (yes.breaksOut_packed _ nested) (no.breaksOut_packed _ nested)
  | .labeled _ body, _, nested => body.breaksOut_packed _ nested
  | .tryBlock _ body catches none, copies, nested =>
    congrArg₂ or (body.breaksOut_packed _ nested)
      (CatchClause.anyBreaksOut_packedAll catches copies 0 nested)
  | .tryBlock _ body catches (some finallyBody), copies, nested =>
    congrArg₂ or (congrArg₂ or (body.breaksOut_packed _ nested)
      (CatchClause.anyBreaksOut_packedAll catches copies 0 nested))
      (finallyBody.breaksOut_packed _ nested)
  | .whileLoop _ body, _, _ => body.breaksOut_packed _ true
  | .doWhile body _, _, _ => body.breaksOut_packed _ true
  | .forLoop _ _ _ body, _, _ => body.breaksOut_packed _ true
  | .forEach _ _ body, _, _ => body.breaksOut_packed _ true
  | .switch _ cases, copies, _ => SwitchCase.anyBreaksOut_packedAll cases copies 0 true
  | .breakTo _, _, _ => rfl
  | .localVar _, _, _ => rfl
  | .localClass _, _, _ => rfl
  | .expr _, _, _ => rfl
  | .ret _, _, _ => rfl
  | .throw _, _, _ => rfl
  | .continueTo _, _, _ => rfl
  | .assertion _ _, _, _ => rfl
  | .empty, _, _ => rfl

theorem Block.breaksOut_packed : (body : Block) → (copies : Copies) → (nested : Bool) →
    (body.packed copies).breaksOut nested = body.breaksOut nested
  | ⟨stmts, _, _⟩, copies, nested => Stmt.anyBreaksOut_packedAll stmts copies 0 nested

theorem Stmt.anyBreaksOut_packedAll : (stmts : List Stmt) → (copies : Copies) → (index : Nat) →
    (nested : Bool) →
    Stmt.anyBreaksOut (Stmt.packedAll copies index stmts) nested = Stmt.anyBreaksOut stmts nested
  | [], _, _, _ => rfl
  | stmt :: rest, copies, index, nested => by
    rw [Stmt.packedAll, Stmt.anyBreaksOut_behind, Stmt.anyBreaksOut, stmt.breaksOut_packed,
      Stmt.anyBreaksOut_packedAll rest]

theorem CatchClause.anyBreaksOut_packedAll : (clauses : List CatchClause) → (copies : Copies) →
    (index : Nat) → (nested : Bool) →
    CatchClause.anyBreaksOut (CatchClause.packedAll copies index clauses) nested =
      CatchClause.anyBreaksOut clauses nested
  | [], _, _, _ => rfl
  | ⟨_, _, _, _, _, body⟩ :: rest, copies, index, nested =>
    congrArg₂ or (body.breaksOut_packed _ nested)
      (CatchClause.anyBreaksOut_packedAll rest copies (index + 1) nested)

theorem SwitchCase.anyBreaksOut_packedAll : (cases : List SwitchCase) → (copies : Copies) →
    (index : Nat) → (nested : Bool) →
    SwitchCase.anyBreaksOut (SwitchCase.packedAll copies index cases) nested =
      SwitchCase.anyBreaksOut cases nested
  | [], _, _, _ => rfl
  | ⟨_, _, _, _, body⟩ :: rest, copies, index, nested =>
    congrArg₂ or (body.breaksOut_packed _ nested)
      (SwitchCase.anyBreaksOut_packedAll rest copies (index + 1) nested)
end

mutual
theorem Stmt.canComplete_packed : (stmt : Stmt) → (copies : Copies) →
    (stmt.packed copies).canComplete = stmt.canComplete
  | ⟨_, _, kind⟩, copies => kind.canComplete_packed copies

theorem StmtKind.canComplete_packed : (kind : StmtKind) → (copies : Copies) →
    (kind.packed copies).canComplete = kind.canComplete
  | .block body, _ => body.canComplete_packed _
  | .sync _ body, _ => body.canComplete_packed _
  | .ifElse _ _ none, _ => rfl
  | .ifElse _ yes (some no), _ =>
    congrArg₂ or (yes.canComplete_packed _) (no.canComplete_packed _)
  | .whileLoop cond body, _ => congrArg (!cond.isTrue || ·) (body.breaksOut_packed _ false)
  | .doWhile body cond, _ => congrArg (!cond.isTrue || ·) (body.breaksOut_packed _ false)
  | .forLoop _ none _ body, _ => body.breaksOut_packed _ false
  | .forLoop _ (some cond) _ body, _ =>
    congrArg (!cond.isTrue || ·) (body.breaksOut_packed _ false)
  | .tryBlock _ body catches none, copies =>
    congrArg₂ or (body.canComplete_packed _) (CatchClause.anyCanComplete_packedAll catches copies 0)
  | .tryBlock _ body catches (some finallyBody), copies =>
    congrArg₂ and (finallyBody.canComplete_packed _) (congrArg₂ or (body.canComplete_packed _)
      (CatchClause.anyCanComplete_packedAll catches copies 0))
  | .ret _, _ => rfl
  | .throw _, _ => rfl
  | .breakTo _, _ => rfl
  | .continueTo _, _ => rfl
  | .localVar _, _ => rfl
  | .localClass _, _ => rfl
  | .expr _, _ => rfl
  | .forEach _ _ _, _ => rfl
  | .switch _ _, _ => rfl
  | .labeled _ _, _ => rfl
  | .assertion _ _, _ => rfl
  | .empty, _ => rfl

/-- Other values for returns do not change where control can go. -/
theorem Block.canComplete_packed : (body : Block) → (copies : Copies) →
    (body.packed copies).canComplete = body.canComplete
  | ⟨stmts, _, _⟩, copies => Stmt.allCanComplete_packedAll stmts copies 0

theorem Stmt.allCanComplete_packedAll : (stmts : List Stmt) → (copies : Copies) → (index : Nat) →
    Stmt.allCanComplete (Stmt.packedAll copies index stmts) = Stmt.allCanComplete stmts
  | [], _, _ => rfl
  | stmt :: rest, copies, index => by
    rw [Stmt.packedAll, Stmt.allCanComplete_behind, Stmt.allCanComplete, stmt.canComplete_packed,
      Stmt.allCanComplete_packedAll rest]

theorem CatchClause.anyCanComplete_packedAll : (clauses : List CatchClause) → (copies : Copies) →
    (index : Nat) →
    CatchClause.anyCanComplete (CatchClause.packedAll copies index clauses) =
      CatchClause.anyCanComplete clauses
  | [], _, _ => rfl
  | ⟨_, _, _, _, _, body⟩ :: rest, copies, index =>
    congrArg₂ or (body.canComplete_packed _)
      (CatchClause.anyCanComplete_packedAll rest copies (index + 1))
end

end AdviceMigration.Source
