import AdviceMigration.Proofs.Advice.Packing
import AdviceMigration.Proofs.Execution.Endings
import AdviceMigration.Proofs.Source.PackedSites
import Mathlib.Data.List.Induction

/-!
# Packing as one recursion

Packing edits the returns of a body by their paths, the last one first, and a value that it keeps moves what stands behind it in the block. The outcome is that of one recursion from the outside in, `Block.packed`, with a copy of the template for each `return`: when the work gets to a `return`, only later ones have been given copies, so nothing has moved on the way to it.
-/

namespace AdviceMigration.Advice

open AdviceMigration.Source AdviceMigration.Execution

/-! ### One return -/

theorem clearAlong_of_precedes {copies : Copies} {path tail : StmtPath}
    (h : ∀ other, copies other ≠ none → (path ++ tail).Precedes other) :
    copies.ClearAlong path := by
  rintro outer index rest rfl other hle
  by_contra hne
  have hbefore := h _ hne
  rw [List.append_assoc, List.cons_append] at hbefore
  exact StmtPath.not_precedes_stmt outer (rest ++ tail) hle hbefore

theorem clearAlong_update {copies : Copies} {path full : StmtPath} (h : copies.ClearAlong path)
    (hne : ∀ outer index rest, path = outer ++ Step.stmt index :: rest →
      ∀ other, outer ++ [Step.stmt other] ≠ full) (value : Option Expr) :
    Copies.ClearAlong (Function.update copies full value) path := by
  intro outer index rest hpath other hle
  rw [Function.update_of_ne (hne outer index rest hpath other)]
  exact h outer index rest hpath other hle

/-- Nothing has moved on the way to a path while all copies are behind it. -/
theorem clearAlong_of_later {copies : Copies} {path : StmtPath}
    (hlater : ∀ other, copies other ≠ none → path.Precedes other) : copies.ClearAlong path :=
  @clearAlong_of_precedes copies path [] (by simpa using hlater)

theorem eq_none_of_later {copies : Copies} {path : StmtPath}
    (hlater : ∀ other, copies other ≠ none → path.Precedes other) : copies path = none := by
  by_contra hne
  exact StmtPath.not_precedes_self path (hlater path hne)

theorem clearAlong_update_concat {copies : Copies} {path : StmtPath} (h : copies.ClearAlong path)
    (step : Step) (value : Option Expr) :
    Copies.ClearAlong (Function.update copies (path ++ [step]) value) path := by
  apply clearAlong_update h
  rintro outer index rest rfl other heq
  have hlength := congrArg List.length heq
  simp at hlength

/-- A copy below one step leaves alone what is below the others. -/
theorem along_update_under {step other : Step} (hne : other ≠ step) (copies : Copies)
    (path : StmtPath) (value : Option Expr) :
    (Copies.along (Function.update copies (path ++ [step]) value) path).under other =
      (copies.along path).under other := by
  funext inner
  apply Function.update_of_ne
  intro heq
  have hinner := List.append_cancel_left heq
  exact hne (List.cons.inj hinner).1

theorem packed_of_isReturn {ret : Stmt} (hret : ret.isReturn) (copies : Copies) :
    ret.packed copies =
      match copies [] with
      | none => ret
      | some copy => { ret with kind := .ret (some copy) } := by
  obtain ⟨layout, trailing, kind⟩ := ret
  obtain ⟨value, hvalue⟩ := isReturn_iff.1 hret
  cases hvalue
  rw [Stmt.packed, StmtKind.packed]
  cases copies [] <;> rfl

section Step

variable {body : Block} {copies : Copies} {path : StmtPath} {ret : Stmt}

theorem stmtAt?_packed (hat : body.stmtAt? path = some ret) (hret : ret.isReturn)
    (hlater : ∀ other, copies other ≠ none → path.Precedes other) :
    (body.packed copies).stmtAt? path = some ret := by
  have hpacked := Focus.at?_packed (Block.stmtAt?_eq_some_iff.1 hat) (clearAlong_of_later hlater)
  apply Block.stmtAt?_eq_some_iff.2
  simpa [Focus.packed, packed_of_isReturn hret, Copies.along, eq_none_of_later hlater] using hpacked

/-- A `return` that is a branch or a body gets its value in place. -/
theorem setReturn_packed_of_branch (hat : body.stmtAt? path = some ret) (hret : ret.isReturn)
    (hlater : ∀ other, copies other ≠ none → path.Precedes other)
    (hbranch : path.blockIndex? = none) (copy : Expr) :
    setReturn (body.packed copies) path (some copy) =
      body.packed (Function.update copies path (some copy)) := by
  have hclear := clearAlong_of_later hlater
  have hnone := eq_none_of_later hlater
  have hclear' : Copies.ClearAlong (Function.update copies path (some copy)) path := by
    apply clearAlong_update hclear
    rintro outer index rest - other rfl
    simp [StmtPath.blockIndex?_concat] at hbranch
  have hset := exists_setReturn (stmtAt?_packed hat hret hlater) (some copy)
  have hupdate := @Focus.update?_packed
    (Focus.onStmt fun stmt => { stmt with kind := .ret (some copy) }) _ _ _ _ _
    (Block.stmtAt?_eq_some_iff.1 hat) hclear hclear' ?_ ?_
  · rw [show (Focus.block body).packed copies = .block (body.packed copies) from rfl, hset] at hupdate
    exact Focus.block.inj (Option.some.inj hupdate)
  · intro other hpre
    apply Function.update_of_ne
    rintro rfl
    exact hpre List.prefix_rfl
  · simp [Focus.packed, packed_of_isReturn hret, Copies.along, hnone, Focus.onStmt]

/-- A `return` directly in a block gets its value by an edit of the block, which makes room for what stays. -/
theorem exists_updateBlock?_packed {blockPath : StmtPath} {front back : List Stmt}
    {endComments : List Comment} {closing : Option Trivia}
    (hblock : body.blockAt? blockPath = some ⟨front ++ ret :: back, endComments, closing⟩)
    (hret : ret.isReturn)
    (hlater : ∀ other, copies other ≠ none →
      StmtPath.Precedes (blockPath ++ [Step.stmt front.length]) other) (copy : Expr) :
    ∃ front' back' : List Stmt, front'.length = front.length ∧
      (body.packed copies).blockAt? blockPath =
        some ⟨front' ++ ret :: back', endComments, closing⟩ ∧
      (body.packed copies).updateBlock? blockPath (fun _ => some ⟨front' ++
        ({ ret with kind := .ret (some copy) } : Stmt).behind ret.keptValue? ++ back', endComments,
        closing⟩) = some (body.packed
          (Function.update copies (blockPath ++ [Step.stmt front.length]) (some copy))) := by
  set path := blockPath ++ [Step.stmt front.length] with hpath
  have hat := Block.blockAt?_eq_some_iff.1 hblock
  have hclear : copies.ClearAlong blockPath := clearAlong_of_precedes hlater
  have hclear' : Copies.ClearAlong (Function.update copies path (some copy)) blockPath :=
    clearAlong_update_concat hclear _ _
  have hhere : (copies.along blockPath).Clear (.stmt front.length) :=
    clearAlong_of_later hlater blockPath front.length [] hpath
  have hnone : copies path = none := hhere front.length (Nat.le_refl _)
  obtain ⟨front', back', hlength, hold, hnew⟩ := Stmt.exists_packedAll_split front back ret hhere
    fun other hne => along_update_under hne copies blockPath (some copy)
  rw [← hpath] at hnew
  have hold' : ret.packed ((copies.along blockPath).under (.stmt front.length)) = ret := by
    simp [packed_of_isReturn hret, Copies.under, Copies.along, ← hpath, hnone]
  have hnew' : ret.packed
      ((Copies.along (Function.update copies path (some copy)) blockPath).under
        (.stmt front.length)) = { ret with kind := .ret (some copy) } := by
    simp [packed_of_isReturn hret, Copies.under, Copies.along, ← hpath]
  have hgiven : Copies.along (Function.update copies path (some copy)) blockPath
      [.stmt front.length] = some copy := by
    simp [Copies.along, ← hpath]
  rw [hold'] at hold
  rw [hnew', hgiven, Option.bind_some] at hnew
  refine ⟨front', back', hlength, ?_, ?_⟩
  · have hpacked := Focus.at?_packed hat hclear
    apply Block.blockAt?_eq_some_iff.2
    simpa [Focus.packed, Block.packed, hold] using hpacked
  · apply Block.updateBlock?_eq_some_iff.2
    apply Focus.update?_packed hat hclear hclear'
    · intro other hpre
      apply Function.update_of_ne
      rintro rfl
      exact hpre (List.prefix_append _ _)
    · simp [Focus.packed, Focus.onBlock, Block.packed, hnew]

theorem setReturn_packed_of_bare {blockPath : StmtPath} {index : Nat}
    (hat : body.stmtAt? (blockPath ++ [Step.stmt index]) = some ret) (hret : ret.isReturn)
    (hlater : ∀ other, copies other ≠ none →
      StmtPath.Precedes (blockPath ++ [Step.stmt index]) other)
    (hbare : ret.keptValue? = none) (copy : Expr) :
    setReturn (body.packed copies) (blockPath ++ [Step.stmt index]) (some copy) =
      body.packed (Function.update copies (blockPath ++ [Step.stmt index]) (some copy)) := by
  have hset := exists_setReturn (stmtAt?_packed hat hret hlater) (some copy)
  obtain ⟨front, back, endComments, closing, rfl, hblock⟩ := Block.blockAt?_of_stmtAt? hat
  obtain ⟨front', back', hlength, hblock', hupdate⟩ :=
    exists_updateBlock?_packed hblock hret hlater copy
  have hsame : Focus.onBlock (fun _ => some ⟨front' ++
        ({ ret with kind := .ret (some copy) } : Stmt).behind ret.keptValue? ++ back', endComments,
        closing⟩) (.block ⟨front' ++ ret :: back', endComments, closing⟩) =
      Focus.update? (Focus.onStmt fun stmt => { stmt with kind := .ret (some copy) })
        (.block ⟨front' ++ ret :: back', endComments, closing⟩) [.stmt front.length] := by
    simp [hbare, Stmt.behind, Focus.update?, Focus.child?, Focus.withChild, Focus.onStmt,
      Focus.onBlock, ← hlength]
  rw [Block.updateBlock?_eq_some_iff, @Focus.update?_congr _
    (fun part => part.update? _ [.stmt front.length]) _ _ _ (Block.blockAt?_eq_some_iff.1 hblock')
    hsame, ← Focus.update?_append, hset] at hupdate
  exact Focus.block.inj (Option.some.inj hupdate)

theorem insertBefore?_packed {blockPath : StmtPath} {index : Nat}
    (hat : body.stmtAt? (blockPath ++ [Step.stmt index]) = some ret) (hret : ret.isReturn)
    (hlater : ∀ other, copies other ≠ none →
      StmtPath.Precedes (blockPath ++ [Step.stmt index]) other)
    {value : Expr} (hkept : ret.keptValue? = some value) (copy : Expr) :
    insertBefore? (setReturn (body.packed copies) (blockPath ++ [Step.stmt index]) (some copy))
        (blockPath ++ [Step.stmt index]) (.ofKind (.expr value)) =
      some (body.packed (Function.update copies (blockPath ++ [Step.stmt index]) (some copy))) := by
  obtain ⟨front, back, endComments, closing, rfl, hblock⟩ := Block.blockAt?_of_stmtAt? hat
  obtain ⟨front', back', hlength, hblock', hupdate⟩ :=
    exists_updateBlock?_packed hblock hret hlater copy
  rw [← hlength] at hupdate ⊢
  apply (insertBefore?_setReturn_iff hblock').2
  simpa [hkept, Stmt.behind] using hupdate

theorem returnAt?_packed (hat : body.stmtAt? path = some ret) (hret : ret.isReturn)
    (hlater : ∀ other, copies other ≠ none → path.Precedes other) :
    ∃ previous, returnAt? (body.packed copies) path = some previous ∧
      previous.filter (·.isStatement) = ret.keptValue? := by
  obtain ⟨previous, hprevious⟩ := isReturn_iff.1 hret
  refine ⟨previous, returnAt?_of_ret (stmtAt?_packed hat hret hlater) hprevious, ?_⟩
  rw [Stmt.keptValue?, hprevious]

/-- A value that has to stay and finds no room stops the work. -/
theorem packReturn_of_isCramped (hat : body.stmtAt? path = some ret) (hret : ret.isReturn)
    (hlater : ∀ other, copies other ≠ none → path.Precedes other)
    (hcramped : isCramped (path, ret)) (template : Expr) (next : NodeId) :
    ((packReturn template (body.packed copies) path).run next).1.2 = false := by
  obtain ⟨previous, hprevious, hfilter⟩ := returnAt?_packed hat hret hlater
  obtain ⟨⟨value, hkept⟩, hbranch⟩ := isCramped_iff.1 hcramped
  rw [packReturn, hprevious]
  dsimp only
  rw [Fresh.run_bind, hfilter, hkept]
  dsimp only
  rw [insertBefore?, hbranch]
  rfl

/-- Any other `return` gets a copy of the template. -/
theorem packReturn_packed (hat : body.stmtAt? path = some ret) (hret : ret.isReturn)
    (hlater : ∀ other, copies other ≠ none → path.Precedes other)
    (hroom : isCramped (path, ret) = false) (template : Expr) (next : NodeId) :
    ((packReturn template (body.packed copies) path).run next).1 =
      (body.packed (Function.update copies path (some (template.freshCopy.run next).1)), true) := by
  obtain ⟨previous, hprevious, hfilter⟩ := returnAt?_packed hat hret hlater
  rw [packReturn, hprevious]
  dsimp only
  rw [Fresh.run_bind, hfilter]
  cases hindex : path.blockIndex? with
  | none =>
    have hbare : ret.keptValue? = none := by
      by_contra hne
      have hcramped := isCramped_iff.2 ⟨Option.ne_none_iff_exists'.1 hne, hindex⟩
      simp [hroom] at hcramped
    rw [hbare]
    exact congrArg (·, true) (setReturn_packed_of_branch hat hret hlater hindex _)
  | some place =>
    obtain ⟨blockPath, index⟩ := place
    obtain rfl := StmtPath.blockIndex?_eq_some hindex
    cases hkept : ret.keptValue? with
    | none => exact congrArg (·, true) (setReturn_packed_of_bare hat hret hlater hkept _)
    | some value =>
      dsimp only
      rw [insertBefore?_packed hat hret hlater hkept]
      rfl

end Step

/-! ### Every return -/

/-- Whether returns of a body wait in ascending order, before those that have copies of the template. -/
structure Waiting (names : List String) (body : Block) (waiting : List (StmtPath × Stmt))
    (copies : Copies) : Prop where
  found : ∀ entry ∈ waiting, body.stmtAt? entry.1 = some entry.2 ∧ entry.2.isReturn
  ascending : (waiting.map (·.1)).Pairwise StmtPath.Precedes
  later : ∀ entry ∈ waiting, ∀ other, copies other ≠ none → entry.1.Precedes other
  copied : ∀ path copy, copies path = some copy → IsTemplate names copy

section Run

variable {names : List String} {template : Expr} {body : Block} {waiting : List (StmtPath × Stmt)}
  {entry : StmtPath × Stmt} {copies : Copies}

/-- The last `return` that is waiting gets a copy of the template. -/
theorem Waiting.step (h : Waiting names body (waiting ++ [entry]) copies)
    {copy : Expr} (hcopy : IsTemplate names copy) :
    Waiting names body waiting (Function.update copies entry.1 (some copy)) where
  found := fun other hother => h.found other (List.mem_append_left _ hother)
  ascending := by
    have hascending := h.ascending
    rw [List.map_append] at hascending
    exact (List.pairwise_append.1 hascending).1
  later := by
    intro first hfirst other hother
    by_cases heq : other = entry.1
    · have hascending := h.ascending
      rw [List.map_append] at hascending
      rw [heq]
      exact (List.pairwise_append.1 hascending).2.2 _ (List.mem_map_of_mem hfirst) _ (by simp)
    · rw [Function.update_of_ne heq] at hother
      exact h.later first (List.mem_append_left _ hfirst) other hother
  copied := by
    intro path copy' hcopy'
    by_cases heq : path = entry.1
    · rw [heq, Function.update_self] at hcopy'
      cases hcopy'
      exact hcopy
    · rw [Function.update_of_ne heq] at hcopy'
      exact h.copied path copy' hcopy'

/-- The work goes on with the last `return` that is waiting. -/
theorem packReturnsAt_concat (template : Expr) (body : Block) (waiting : List (StmtPath × Stmt))
    (entry : StmtPath × Stmt) (next : NodeId) :
    ((packReturnsAt template body ((waiting ++ [entry]).map (·.1)).reverse).run next).1 =
      match (packReturn template body entry.1).run next with
      | ((body, true), next) =>
        ((packReturnsAt template body (waiting.map (·.1)).reverse).run next).1
      | ((body, false), _) => (body, false) := by
  rw [List.map_append, List.map_singleton, List.reverse_append, List.reverse_singleton,
    List.singleton_append, packReturnsAt, Fresh.run_bind]
  rcases (packReturn template body entry.1).run next with ⟨⟨body, _ | _⟩, next⟩ <;> rfl

/-- The work stops if a `return` that is waiting has no room. -/
theorem packReturnsAt_of_isCramped (h : Waiting names body waiting copies)
    (htemplate : IsTemplate names template) (hcramped : waiting.any isCramped) (next : NodeId) :
    ((packReturnsAt template (body.packed copies) (waiting.map (·.1)).reverse).run next).1.2 =
      false := by
  induction waiting using List.reverseRecOn generalizing copies next with
  | nil => cases hcramped
  | append_singleton waiting entry ih =>
    obtain ⟨hat, hret⟩ := h.found entry (by simp)
    have hlater := h.later entry (by simp)
    rw [packReturnsAt_concat]
    cases hentry : isCramped entry with
    | true =>
      have hstop := packReturn_of_isCramped hat hret hlater hentry template next
      split
      next hrun => simp [hrun] at hstop
      next => rfl
    | false =>
      have hgo := packReturn_packed hat hret hlater hentry template next
      have hrest : waiting.any isCramped := by simpa [hentry] using hcramped
      split
      next hrun =>
        rw [hrun] at hgo
        cases hgo
        exact ih (h.step (htemplate.freshCopy next)) hrest _
      next hrun => simp [hrun] at hgo

/-- Otherwise every `return` that is waiting gets a copy of the template. -/
theorem exists_packReturnsAt (h : Waiting names body waiting copies)
    (htemplate : IsTemplate names template) (hroom : waiting.any isCramped = false)
    (next : NodeId) :
    ∃ copies' : Copies,
      ((packReturnsAt template (body.packed copies) (waiting.map (·.1)).reverse).run next).1 =
        (body.packed copies', true) ∧
      (∀ path copy, copies' path = some copy → IsTemplate names copy) ∧
      ∀ path, path ∈ waiting.map (·.1) ∨ copies path ≠ none → copies' path ≠ none := by
  induction waiting using List.reverseRecOn generalizing copies next with
  | nil => exact ⟨copies, rfl, h.copied, by simp⟩
  | append_singleton waiting entry ih =>
    obtain ⟨hat, hret⟩ := h.found entry (by simp)
    simp only [List.any_append, List.any_cons, List.any_nil, Bool.or_false, Bool.or_eq_false_iff]
      at hroom
    have hgo := packReturn_packed hat hret (h.later entry (by simp)) hroom.2 template next
    rw [packReturnsAt_concat]
    split
    next hrun =>
      rw [hrun] at hgo
      cases hgo
      obtain ⟨copies', hpacked, hcopied, hgiven⟩ :=
        ih (h.step (htemplate.freshCopy next)) hroom.1 _
      refine ⟨copies', hpacked, hcopied, fun path hpath => hgiven path ?_⟩
      by_cases heq : path = entry.1
      · simp [heq]
      · simpa [Function.update_of_ne heq, heq] using hpath
    next hrun => simp [hrun] at hgo

end Run

/-- Whether every `return` of a body has a value that names the given variables. -/
def CopiesFor (names : List String) (body : Block) (copies : Copies) : Prop :=
  ∀ path ∈ body.returnPaths, ∃ copy, copies path = some copy ∧ IsTemplate names copy

theorem CopiesFor.exists_template {names : List String} {body : Block} {copies : Copies}
    (h : CopiesFor names body copies) {site : ReturnSite} (hsite : site ∈ body.sites) :
    ∃ copy, copies site.path = some copy ∧ IsTemplate names copy := by
  apply h
  rw [Block.returnPaths_eq]
  exact List.mem_map_of_mem hsite

theorem CopiesFor.givesTemplate {names : List String} {body : Block} {copies : Copies}
    (h : CopiesFor names body copies) {site site' : ReturnSite} (hsite : site ∈ body.sites)
    (hpacked : PackedSite copies site site') : GivesTemplate names site'.ret := by
  obtain ⟨copy, hcopy, htemplate⟩ := h.exists_template hsite
  obtain ⟨value, -, hkind⟩ := hpacked.ret
  exact ⟨copy, by rw [hkind, hcopy, Option.some_or], htemplate⟩

/-- At first all returns of a body are waiting. -/
theorem waiting_returns (names : List String) (body : Block) :
    Waiting names body (body.scoped.filter (·.2.isReturn)) (fun _ => none) where
  found := by
    intro entry hentry
    obtain ⟨hscoped, hret⟩ := List.mem_filter.1 hentry
    exact ⟨Block.stmtAt?_eq_some_iff.2 ((Block.mem_scoped body _ _).1 hscoped), hret⟩
  ascending := body.returnPaths_ascending
  later := fun _ _ _ h => absurd rfl h
  copied := fun _ _ h => nomatch h

theorem any_isCramped_returns (body : Block) :
    (body.scoped.filter (·.2.isReturn)).any isCramped = body.isCramped := by
  rw [Block.isCramped, List.any_filter]
  congr 1
  funext entry
  cases hret : entry.2.isReturn with
  | true => rfl
  | false => simp [isCramped, Stmt.keptValue?_eq_none hret]

theorem packReturns_missing {method : Method} {values : List ValueToReturn} (hvalues : values ≠ [])
    (hbody : method.body = none) (next : NodeId) :
    ((packReturns method values).run next).1 = (method, .error (.missingBody method.name)) := by
  obtain ⟨template, htemplate, -⟩ := isTemplate_returnTemplate hvalues next
  rw [packReturns, Fresh.run_bind, htemplate]
  dsimp only
  rw [hbody]
  rfl

theorem packReturns_of_isCramped {method : Method} {body : Block} {values : List ValueToReturn}
    (hvalues : values ≠ []) (hbody : method.body = some body)
    (hcramped : (closeBody body).isCramped) (next : NodeId) :
    ((packReturns method values).run next).1.2 =
      .error (.unsupportedReturnPosition method.name) := by
  obtain ⟨template, htemplate, hnames⟩ := isTemplate_returnTemplate hvalues next
  have hstop := packReturnsAt_of_isCramped (waiting_returns _ (closeBody body)) hnames
    (by rwa [any_isCramped_returns]) ((returnTemplate values).run next).2
  rw [Block.packed_none] at hstop
  rw [packReturns, Fresh.run_bind, htemplate]
  dsimp only
  rw [hbody]
  dsimp only
  rw [Fresh.run_bind]
  split
  next hrun =>
    rw [Block.returnPaths] at hrun
    rw [hrun] at hstop
    cases hstop
  next => rfl

/-- Packing gives what one recursion through the closed body gives. -/
theorem exists_packReturns {method : Method} {body : Block} {values : List ValueToReturn}
    (hvalues : values ≠ []) (hbody : method.body = some body)
    (hroom : (closeBody body).isCramped = false) (next : NodeId) :
    ∃ copies, CopiesFor (values.map (·.name)) (closeBody body) copies ∧
      ((packReturns method values).run next).1 =
        ({ method with
            body := some ((closeBody body).packed copies)
            returnType := some (packedType values) }, .ok ()) := by
  obtain ⟨template, htemplate, hnames⟩ := isTemplate_returnTemplate hvalues next
  obtain ⟨copies, hrun, hcopied, hgiven⟩ := exists_packReturnsAt
    (waiting_returns _ (closeBody body)) hnames (by rwa [any_isCramped_returns])
    ((returnTemplate values).run next).2
  rw [Block.packed_none] at hrun
  refine ⟨copies, ?_, ?_⟩
  · intro path hpath
    obtain ⟨copy, hcopy⟩ := Option.ne_none_iff_exists'.1 (hgiven path (.inl hpath))
    exact ⟨copy, hcopy, hcopied path copy hcopy⟩
  · rw [packReturns, Fresh.run_bind, htemplate]
    dsimp only
    rw [hbody]
    dsimp only
    rw [Fresh.run_bind, Block.returnPaths, hrun]
    rfl

/-- What a method was and has become when packing it succeeds. -/
theorem packReturns_eq_ok {method packed : Method} {values : List ValueToReturn}
    (hvalues : values ≠ []) {next next' : NodeId}
    (h : (packReturns method values).run next = ((packed, .ok ()), next')) :
    ∃ body copies, method.body = some body ∧ (closeBody body).isCramped = false ∧
      CopiesFor (values.map (·.name)) (closeBody body) copies ∧
      packed.body = some ((closeBody body).packed copies) := by
  cases hbody : method.body with
  | none =>
    have hmissing := packReturns_missing hvalues hbody next
    simp [h] at hmissing
  | some body =>
    cases hcramped : (closeBody body).isCramped with
    | true =>
      have hstop := packReturns_of_isCramped hvalues hbody hcramped next
      simp [h] at hstop
    | false =>
      obtain ⟨copies, hcopies, hrun⟩ := exists_packReturns hvalues hbody hcramped next
      rw [h] at hrun
      cases hrun
      exact ⟨body, copies, rfl, hcramped, hcopies, rfl⟩

theorem givesTemplate_of_packReturns {method packed : Method} {values : List ValueToReturn}
    (hvalues : values ≠ []) {next next' : NodeId}
    (h : (packReturns method values).run next = ((packed, .ok ()), next')) :
    ∃ body, packed.body = some body ∧
      ∀ site ∈ body.sites, GivesTemplate (values.map (·.name)) site.ret := by
  obtain ⟨body, copies, -, -, hcopies, hbody⟩ := packReturns_eq_ok hvalues h
  refine ⟨_, hbody, fun site' hsite' => ?_⟩
  have hsites := (List.forall₂_and_left _ _).2
    ⟨fun _ => id, (closeBody body).sites_packed copies⟩
  obtain ⟨site, -, hsite, hpacked⟩ := exists_of_mem_forall₂ hsites hsite'
  exact hcopies.givesTemplate hsite hpacked

/-- Packing fails for a method without a body and for a body in which a value would have to stay but has no room. Otherwise the body is closed with a `return` if control can get to its end, and one recursion puts copies of the template into its returns and keeps their values in front of them. -/
theorem packReturns_eq_packed (method : Method) {values : List ValueToReturn} (hvalues : values ≠ [])
    (next : NodeId) :
    match method.body with
    | none => ((packReturns method values).run next).1 = (method, .error (.missingBody method.name))
    | some body =>
      if (closeBody body).isCramped then
        ((packReturns method values).run next).1.2 = .error (.unsupportedReturnPosition method.name)
      else
        ∃ copies, CopiesFor (values.map (·.name)) (closeBody body) copies ∧
          ((packReturns method values).run next).1 =
            ({ method with
                body := some ((closeBody body).packed copies)
                returnType := some (packedType values) }, .ok ()) := by
  split
  next hbody => exact packReturns_missing hvalues hbody next
  next body hbody =>
    split
    next hcramped => exact packReturns_of_isCramped hvalues hbody hcramped next
    next hroom => exact exists_packReturns hvalues hbody (Bool.eq_false_iff.2 hroom) next

/-- A call of a method. -/
def someCall : Expr := .call none [] "f" []

/-- A method that gives back what a call gives back, under a condition, unless it has no body at all. -/
def callingMethod (branch : Option (Stmt → Stmt)) : Method :=
  ⟨0, .unwritten, [], [], [], some (.primitive .int), "enter",
    [⟨1, [], [], .primitive .int, false, "x"⟩], [], branch.map fun branch =>
      .ofStmts [.ofKind (.ifElse (.name 2 "c") (branch (.ofKind (.ret (some someCall)))) none)]⟩

/-- A block with a `return` under a condition and one at the end. -/
def closedCall (kept : List Stmt) (value last : Option Expr) : Block :=
  .ofStmts [.ofKind (.ifElse (.name 2 "c")
    (.ofKind (.block (.ofStmts (kept ++ [.ofKind (.ret value)])))) none), .ofKind (.ret last)]

/-- The call stays in a block, has no room as a branch, and a method without a body has nothing to pack. -/
theorem packReturns_eq_packed_callingMethod :
    (∃ copies, CopiesFor ["x"] (closedCall [] (some someCall) none) copies ∧
      ((packReturns (callingMethod (some fun stmt => .ofKind (.block (.ofStmts [stmt]))))
        [writtenParam]).run 3).1 =
        ({ callingMethod none with
            body := some (closedCall [.ofKind (.expr someCall)]
              (copies [.stmt 0, .thenBranch, .nested, .stmt 0]) (copies [.stmt 1])) }, .ok ())) ∧
    ((packReturns (callingMethod (some id)) [writtenParam]).run 3).1.2 =
      .error (.unsupportedReturnPosition "enter") ∧
    ((packReturns (callingMethod none) [writtenParam]).run 3).1 =
      (callingMethod none, .error (.missingBody "enter")) := by
  have hvalues : [writtenParam] ≠ [] := List.cons_ne_nil _ _
  refine ⟨?_, packReturns_eq_packed (callingMethod (some id)) hvalues 3,
    packReturns_eq_packed (callingMethod none) hvalues 3⟩
  obtain ⟨copies, hcopies, hrun⟩ := packReturns_eq_packed
    (callingMethod (some fun stmt => .ofKind (.block (.ofStmts [stmt])))) hvalues 3
  obtain ⟨inner, hinner, -⟩ := hcopies [.stmt 0, .thenBranch, .nested, .stmt 0] (by decide)
  obtain ⟨last, hlast, -⟩ := hcopies [.stmt 1] (by decide)
  have hkept : (some someCall).filter (·.isStatement) = some someCall := rfl
  have hpacked : (closedCall [] (some someCall) none).packed copies =
      closedCall [.ofKind (.expr someCall)] (copies [.stmt 0, .thenBranch, .nested, .stmt 0])
        (copies [.stmt 1]) := by
    simp [closedCall, Block.packed, Block.ofStmts, Stmt.ofKind, Stmt.packedAll, Stmt.packed,
      StmtKind.packed, Copies.under, Stmt.behind, Stmt.withLeading, Layout.unwritten, hkept,
      hinner, hlast, Stmt.keptValue?]
  refine ⟨copies, hcopies, ?_⟩
  rw [← hpacked]
  exact hrun

/-! ### Past the last return -/

theorem allCanComplete_concat_ret (stmts : List Stmt) (value : Option Expr) :
    Stmt.allCanComplete (stmts ++ [Stmt.ofKind (.ret value)]) = false := by
  induction stmts with
  | nil => rfl
  | cons stmt rest ih => rw [List.cons_append, Stmt.allCanComplete, ih, Bool.and_false]

theorem canComplete_closeBody (body : Block) : (closeBody body).canComplete = false := by
  rw [closeBody]
  split
  next => exact allCanComplete_concat_ret body.stmts none
  next hcomplete => exact Bool.eq_false_iff.2 hcomplete

/-- A block that may end normally is one whose end control can get to, so that no execution of a packed body falls off its end. -/
theorem mayEnd_packReturns :
    (∀ block : Block, block.MayEnd .normal → block.canComplete = true) ∧
    ∀ (method packed : Method) (values : List ValueToReturn) (next next' : NodeId), values ≠ [] →
      (packReturns method values).run next = ((packed, .ok ()), next') →
      ∃ body, packed.body = some body ∧ ¬ body.MayEnd .normal := by
  refine ⟨fun block => block.canComplete_of_mayEnd, ?_⟩
  intro method packed values next next' hvalues hpack
  obtain ⟨body, copies, -, -, -, hbody⟩ := packReturns_eq_ok hvalues hpack
  refine ⟨_, hbody, fun hends => ?_⟩
  have hcomplete := Block.canComplete_of_mayEnd _ hends
  rw [Block.canComplete_packed, canComplete_closeBody] at hcomplete
  cases hcomplete

/-- A method with an endless loop, and a `break` out of it if a condition holds. -/
def leavingMethod : Method :=
  ⟨0, .unwritten, [], [], [], some .void, "enter", [⟨1, [], [], .primitive .int, false, "x"⟩], [],
    some (.ofStmts [.ofKind (.whileLoop (.literal ⟨.bool, "true"⟩)
      (.ofKind (.ifElse (.name 2 "c") (.ofKind (.breakTo none)) none)))])⟩

/-- The `break` leads to the end of the method, where the packed method has a `return`. -/
theorem mayEnd_packReturns_leavingMethod :
    ∃ body body' packed next', leavingMethod.body = some body ∧ body.MayEnd .normal ∧
      body.canComplete = true ∧
      (packReturns leavingMethod [writtenParam]).run 3 = ((packed, .ok ()), next') ∧
      packed.body = some body' ∧ ¬ body'.MayEnd .normal := by
  obtain ⟨hsound, hpack⟩ := mayEnd_packReturns
  have hends : Block.MayEnd (leavingMethod.body.getD default) .normal := by
    refine .inl ⟨.inr (.inr (.last nofun (.inl ?_))), rfl⟩
    exact .inr (.inl (.inr rfl))
  obtain ⟨body', hbody', hnot⟩ := hpack leavingMethod _ [writtenParam] 3 _ (List.cons_ne_nil _ _) rfl
  exact ⟨_, body', _, _, rfl, hends, hsound _ hends, rfl, hbody', hnot⟩

/-- Without values there is nothing to give back: the method stays as it is, and so does the way off its end. -/
theorem packReturns_nil_mayEnd :
    ∃ body, ((packReturns leavingMethod []).run 3).1.2 = .ok () ∧
      ((packReturns leavingMethod []).run 3).1.1.body = some body ∧ body.MayEnd .normal := by
  refine ⟨_, rfl, rfl, .inl ⟨.inr (.inr (.last nofun (.inl ?_))), rfl⟩⟩
  exact .inr (.inl (.inr rfl))

end AdviceMigration.Advice
