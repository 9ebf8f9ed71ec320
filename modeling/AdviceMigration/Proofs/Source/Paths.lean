import AdviceMigration.Source.Path
import Mathlib.Data.List.Forall2

/-!
# Paths

What a path leads to, and what an edit at a path leaves alone. `Focus.Swap` says once what it means that a step leads to a part and that another part is put there: what surrounds the part is the same on both sides. A fact about an edit at a path is then proved for the part and carried outwards, one step at a time (`Focus.update?_rel`).
-/

namespace AdviceMigration.Source

namespace Focus

/-- Putting a part in place of another. The first two foci are the old and the new part, the last two what surrounds them. -/
inductive Swap : Step → Focus → Focus → Focus → Focus → Prop where
  | stmt {before after : List Stmt} {endComments : List Comment} {closing : Option Trivia}
      {old new : Stmt} :
    Swap (.stmt before.length) (.stmt old) (.stmt new)
      (.block ⟨before ++ old :: after, endComments, closing⟩)
      (.block ⟨before ++ new :: after, endComments, closing⟩)
  | nested {layout : Layout} {trailing : Option Comment} {old new : Block} :
    Swap .nested (.block old) (.block new) (.stmt ⟨layout, trailing, .block old⟩)
      (.stmt ⟨layout, trailing, .block new⟩)
  | thenBranch {layout : Layout} {trailing : Option Comment} {cond : Expr} {no : Option Stmt}
      {old new : Stmt} :
    Swap .thenBranch (.stmt old) (.stmt new) (.stmt ⟨layout, trailing, .ifElse cond old no⟩)
      (.stmt ⟨layout, trailing, .ifElse cond new no⟩)
  | elseBranch {layout : Layout} {trailing : Option Comment} {cond : Expr} {yes old new : Stmt} :
    Swap .elseBranch (.stmt old) (.stmt new) (.stmt ⟨layout, trailing, .ifElse cond yes (some old)⟩)
      (.stmt ⟨layout, trailing, .ifElse cond yes (some new)⟩)
  | whileLoop {layout : Layout} {trailing : Option Comment} {cond : Expr} {old new : Stmt} :
    Swap .body (.stmt old) (.stmt new) (.stmt ⟨layout, trailing, .whileLoop cond old⟩)
      (.stmt ⟨layout, trailing, .whileLoop cond new⟩)
  | doWhile {layout : Layout} {trailing : Option Comment} {cond : Expr} {old new : Stmt} :
    Swap .body (.stmt old) (.stmt new) (.stmt ⟨layout, trailing, .doWhile old cond⟩)
      (.stmt ⟨layout, trailing, .doWhile new cond⟩)
  | forLoop {layout : Layout} {trailing : Option Comment} {init : ForInit} {cond : Option Expr}
      {update : List Expr} {old new : Stmt} :
    Swap .body (.stmt old) (.stmt new) (.stmt ⟨layout, trailing, .forLoop init cond update old⟩)
      (.stmt ⟨layout, trailing, .forLoop init cond update new⟩)
  | forEach {layout : Layout} {trailing : Option Comment} {var : LoopVar} {iterable : Expr}
      {old new : Stmt} :
    Swap .body (.stmt old) (.stmt new) (.stmt ⟨layout, trailing, .forEach var iterable old⟩)
      (.stmt ⟨layout, trailing, .forEach var iterable new⟩)
  | labeled {layout : Layout} {trailing : Option Comment} {label : String} {old new : Stmt} :
    Swap .body (.stmt old) (.stmt new) (.stmt ⟨layout, trailing, .labeled label old⟩)
      (.stmt ⟨layout, trailing, .labeled label new⟩)
  | tryBody {layout : Layout} {trailing : Option Comment} {resources : List Resource}
      {catches : List CatchClause} {finallyBody : Option Block} {old new : Block} :
    Swap .body (.block old) (.block new)
      (.stmt ⟨layout, trailing, .tryBlock resources old catches finallyBody⟩)
      (.stmt ⟨layout, trailing, .tryBlock resources new catches finallyBody⟩)
  | sync {layout : Layout} {trailing : Option Comment} {lock : Expr} {old new : Block} :
    Swap .body (.block old) (.block new) (.stmt ⟨layout, trailing, .sync lock old⟩)
      (.stmt ⟨layout, trailing, .sync lock new⟩)
  | catchBlock {layout : Layout} {trailing : Option Comment} {resources : List Resource}
      {body : Block} {before after : List CatchClause} {clause : CatchClause}
      {finallyBody : Option Block} {new : Block} :
    Swap (.catchBlock before.length) (.block clause.body) (.block new)
      (.stmt ⟨layout, trailing, .tryBlock resources body (before ++ clause :: after) finallyBody⟩)
      (.stmt ⟨layout, trailing,
        .tryBlock resources body (before ++ { clause with body := new } :: after) finallyBody⟩)
  | finallyBlock {layout : Layout} {trailing : Option Comment} {resources : List Resource}
      {body : Block} {catches : List CatchClause} {old new : Block} :
    Swap .finallyBlock (.block old) (.block new)
      (.stmt ⟨layout, trailing, .tryBlock resources body catches (some old)⟩)
      (.stmt ⟨layout, trailing, .tryBlock resources body catches (some new)⟩)
  | caseBlock {layout : Layout} {trailing : Option Comment} {selector : Expr}
      {before after : List SwitchCase} {case : SwitchCase} {new : Block} :
    Swap (.caseBlock before.length) (.block case.body) (.block new)
      (.stmt ⟨layout, trailing, .switch selector (before ++ case :: after)⟩)
      (.stmt ⟨layout, trailing, .switch selector (before ++ { case with body := new } :: after)⟩)

/-- Whether two foci are both blocks or both statements, so that one fits where the other stands. -/
def Fits : Focus → Focus → Prop
  | .block _, .block _ => True
  | .stmt _, .stmt _ => True
  | _, _ => False

theorem exists_split_of_getElem? {α : Type} {items : List α} {index : Nat} {item : α}
    (h : items[index]? = some item) :
    ∃ before after, items = before ++ item :: after ∧ before.length = index := by
  obtain ⟨hlt, rfl⟩ := List.getElem?_eq_some_iff.1 h
  refine ⟨items.take index, items.drop (index + 1), ?_, ?_⟩
  · rw [← List.drop_eq_getElem_cons hlt, List.take_append_drop]
  · rw [List.length_take, Nat.min_eq_left (Nat.le_of_lt hlt)]

theorem modify_split {α : Type} (before after : List α) (item : α) (f : α → α) :
    (before ++ item :: after).modify before.length f = before ++ f item :: after := by
  induction before with
  | nil => rfl
  | cons first before ih => exact congrArg (first :: ·) ih

theorem getElem?_split {α : Type} (before after : List α) (old new : α) {index : Nat}
    (hne : index ≠ before.length) : (before ++ new :: after)[index]? = (before ++ old :: after)[index]? := by
  have hset : (before ++ old :: after).set before.length new = before ++ new :: after := by
    simp only [List.set_append, Nat.lt_irrefl, if_false, Nat.sub_self, List.set_cons_zero]
  rw [← hset, List.getElem?_set_ne hne.symm]

/-- What a step leads to can be swapped for anything that fits. -/
theorem swap_of_child? {focus part new : Focus} {step : Step} (h : focus.child? step = some part)
    (hfits : part.Fits new) : Swap step part new focus (focus.withChild step new) := by
  cases focus with
  | block outer =>
    obtain ⟨stmts, endComments, closing⟩ := outer
    cases step with
    | stmt index =>
      obtain ⟨old, hold, rfl⟩ := Option.map_eq_some_iff.1 h
      obtain ⟨before, after, rfl, rfl⟩ := exists_split_of_getElem? hold
      cases new with
      | block _ => exact hfits.elim
      | stmt new =>
        have hset : (before ++ old :: after).set before.length new = before ++ new :: after := by
          simp
        simp only [withChild, hset]
        exact .stmt
    | _ => simp [child?] at h
  | stmt outer =>
    obtain ⟨layout, trailing, kind⟩ := outer
    simp only [child?] at h
    -- The steps into a list of `catch` clauses or cases give an index, the others the part itself.
    split at h
    case h_11 =>
      obtain ⟨clause, hclause, rfl⟩ := Option.map_eq_some_iff.1 h
      obtain ⟨before, after, rfl, rfl⟩ := exists_split_of_getElem? hclause
      cases new with
      | stmt _ => exact hfits.elim
      | block new =>
        simp only [withChild, replaceIn, modify_split]
        exact .catchBlock
    case h_13 =>
      obtain ⟨case, hcase, rfl⟩ := Option.map_eq_some_iff.1 h
      obtain ⟨before, after, rfl, rfl⟩ := exists_split_of_getElem? hcase
      cases new with
      | stmt _ => exact hfits.elim
      | block new =>
        simp only [withChild, replaceIn, modify_split]
        exact .caseBlock
    all_goals cases h
    all_goals cases new <;> first | exact hfits.elim | constructor

namespace Swap

variable {part new focus focus' : Focus} {step : Step}

theorem child?_old (h : Swap step part new focus focus') : focus.child? step = some part := by
  cases h <;> simp [child?]

theorem child?_new (h : Swap step part new focus focus') : focus'.child? step = some new := by
  cases h <;> simp [child?]

theorem fits (h : Swap step part new focus focus') : focus.Fits focus' := by
  cases h <;> trivial

/-- A swap leaves alone what other steps lead to. -/
theorem child?_other (h : Swap step part new focus focus') {other : Step} (hne : other ≠ step) :
    focus'.child? other = focus.child? other := by
  cases h with
  | @stmt before after endComments closing old new =>
    cases other with
    | stmt index =>
      exact congrArg (Option.map Focus.stmt) (getElem?_split before after old new fun heq => hne (heq ▸ rfl))
    | _ => rfl
  | @catchBlock _ _ _ _ before after clause finallyBody new =>
    cases other with
    | finallyBlock => cases finallyBody <;> rfl
    | catchBlock index =>
      exact congrArg (Option.map fun clause => Focus.block clause.body)
        (getElem?_split before after clause { clause with body := new } fun heq => hne (heq ▸ rfl))
    | _ => rfl
  | @caseBlock _ _ _ before after case new =>
    cases other with
    | caseBlock index =>
      exact congrArg (Option.map fun case => Focus.block case.body)
        (getElem?_split before after case { case with body := new } fun heq => hne (heq ▸ rfl))
    | _ => rfl
  | @thenBranch _ _ _ no => cases no <;> cases other <;> first | rfl | exact absurd rfl hne
  | @tryBody _ _ _ _ finallyBody =>
    cases finallyBody <;> cases other <;> first | rfl | exact absurd rfl hne
  | _ => cases other <;> first | rfl | exact absurd rfl hne

end Swap

/-- Facts about an edit at a path come from the edited part, if every step outwards keeps them. -/
theorem update?_rel {R : Focus → Focus → Prop} {change : Focus → Option Focus}
    (hfits : ∀ part new, R part new → part.Fits new)
    (hswap : ∀ {step part new focus focus'}, Swap step part new focus focus' → R part new →
      R focus focus')
    {focus focus' : Focus} {path : StmtPath} (h : focus.update? change path = some focus')
    (hpart : ∀ part new, focus.at? path = some part → change part = some new → R part new) :
    R focus focus' := by
  induction path generalizing focus focus' with
  | nil => exact hpart focus focus' rfl h
  | cons step rest ih =>
    rw [update?] at h
    split at h
    next child hchild =>
      obtain ⟨new, hnew, rfl⟩ := Option.map_eq_some_iff.1 h
      have hrel : R child new := by
        refine ih hnew fun part new hat => hpart part new ?_
        rw [at?, hchild]
        exact hat
      exact hswap (swap_of_child? hchild (hfits child new hrel)) hrel
    next => cases h

/-- The same for facts that name the path of what they are about. -/
theorem update?_rel_path {R : StmtPath → Focus → Focus → Prop} {change : Focus → Option Focus}
    (hfits : ∀ path part new, R path part new → part.Fits new)
    (hswap : ∀ {step path part new focus focus'}, Swap step part new focus focus' →
      R path part new → R (step :: path) focus focus')
    {focus focus' : Focus} {path inner : StmtPath} (h : focus.update? change path = some focus')
    (hpart : ∀ part new, focus.at? path = some part → change part = some new →
      R inner part new) : R (path ++ inner) focus focus' := by
  induction path generalizing focus focus' with
  | nil => exact hpart focus focus' rfl h
  | cons step rest ih =>
    rw [update?] at h
    split at h
    next child hchild =>
      obtain ⟨new, hnew, rfl⟩ := Option.map_eq_some_iff.1 h
      have hrel : R (rest ++ inner) child new := by
        refine ih hnew fun part new hat => hpart part new ?_
        rw [at?, hchild]
        exact hat
      exact hswap (swap_of_child? hchild (hfits _ child new hrel)) hrel
    next => cases h

theorem exists_update? {change : Focus → Option Focus} {focus part new : Focus} {path : StmtPath}
    (hat : focus.at? path = some part) (hchange : change part = some new) :
    ∃ focus', focus.update? change path = some focus' := by
  induction path generalizing focus with
  | nil =>
    cases hat
    exact ⟨new, hchange⟩
  | cons step rest ih =>
    rw [at?] at hat
    split at hat
    next child hchild =>
      obtain ⟨child', hchild'⟩ := ih hat
      exact ⟨focus.withChild step child', by simp [update?, hchild, hchild']⟩
    next => cases hat

/-- A change of statements as a change of what paths lead to. -/
def onStmt (change : Stmt → Stmt) : Focus → Option Focus
  | .stmt inner => some (.stmt (change inner))
  | .block _ => none

/-- A change of blocks as a change of what paths lead to. -/
def onBlock (change : Block → Option Block) : Focus → Option Focus
  | .block inner => (change inner).map .block
  | .stmt _ => none

theorem fits_onStmt {change : Stmt → Stmt} {part new : Focus} (h : onStmt change part = some new) :
    part.Fits new := by
  cases part with
  | block _ => cases h
  | stmt _ =>
    cases h
    trivial

theorem fits_onBlock {change : Block → Option Block} {part new : Focus}
    (h : onBlock change part = some new) : part.Fits new := by
  cases part with
  | stmt _ => cases h
  | block _ =>
    obtain ⟨_, -, rfl⟩ := Option.map_eq_some_iff.1 h
    trivial

/-- What an edit makes of a part fits where the part stands. -/
theorem fits_update? {change : Focus → Option Focus} {focus focus' : Focus} {path : StmtPath}
    (hfits : ∀ {part new}, change part = some new → part.Fits new)
    (h : focus.update? change path = some focus') : focus.Fits focus' :=
  update?_rel (fun _ _ => id) (fun hswap _ => hswap.fits) h fun _ _ _ hnew => hfits hnew

/-- Whether a focus has no parts. -/
def IsLeaf (focus : Focus) : Prop := ∀ step, focus.child? step = none

/-- An edit that puts a leaf in place of what a path leads to changes no other leaf. -/
theorem at?_of_update? {change : Focus → Option Focus} {focus focus' : Focus} {path : StmtPath}
    (h : focus.update? change path = some focus')
    (hpart : ∀ part new, focus.at? path = some part → change part = some new →
      part.Fits new ∧ new.IsLeaf)
    {other : StmtPath} {leaf : Focus} (hat : focus'.at? other = some leaf) (hleaf : leaf.IsLeaf) :
    (other = path ∧ ∃ part, focus.at? path = some part ∧ change part = some leaf) ∨
      (other ≠ path ∧ focus.at? other = some leaf) := by
  induction path generalizing focus focus' other with
  | nil =>
    cases other with
    | nil => exact .inl ⟨rfl, focus, rfl, h.trans hat⟩
    | cons step rest =>
      rw [at?, (hpart focus focus' rfl h).2 step] at hat
      cases hat
  | cons step rest ih =>
    rw [update?] at h
    split at h
    next child hchild =>
      obtain ⟨new, hnew, rfl⟩ := Option.map_eq_some_iff.1 h
      have hpart' : ∀ part new, child.at? rest = some part → change part = some new →
          part.Fits new ∧ new.IsLeaf := by
        intro part new hat'
        refine hpart part new ?_
        rw [at?, hchild]
        exact hat'
      have hswap : Swap step child new focus (focus.withChild step new) := by
        refine swap_of_child? hchild ?_
        exact update?_rel (fun _ _ => id) (fun hswap _ => hswap.fits) hnew fun part new hat' hc =>
          (hpart' part new hat' hc).1
      cases other with
      | nil =>
        cases hat
        have hchild' := hswap.child?_new
        rw [hleaf step] at hchild'
        cases hchild'
      | cons step' rest' =>
        by_cases hstep : step' = step
        · subst hstep
          rw [at?, hswap.child?_new] at hat
          rcases ih hnew hpart' hat with ⟨rfl, part, hpart, hc⟩ | ⟨hne, hat'⟩
          · refine .inl ⟨rfl, part, ?_, hc⟩
            rw [at?, hchild]
            exact hpart
          · refine .inr ⟨fun heq => hne (List.cons.inj heq).2, ?_⟩
            rw [at?, hchild]
            exact hat'
        · rw [at?, hswap.child?_other hstep] at hat
          exact .inr ⟨fun heq => hstep (List.cons.inj heq).1, hat⟩
    next => cases h

/-- Whether an entry of a walk is a statement that a path leads to, from a focus with the given path. -/
def Reaches (focus : Focus) (path : StmtPath) (entry : StmtPath × Stmt) : Prop :=
  ∃ rest, entry.1 = path ++ rest ∧ focus.at? rest = some (.stmt entry.2)

/-- Whether paths lead to an entry through one of the parts of a focus. -/
def ReachesBelow (focus : Focus) (path : StmtPath) (entry : StmtPath × Stmt) : Prop :=
  ∃ step part, focus.child? step = some part ∧ part.Reaches (path ++ [step]) entry

theorem reaches_block_iff (body : Block) (path : StmtPath) (entry : StmtPath × Stmt) :
    (Focus.block body).Reaches path entry ↔
      ∃ index stmt, body.stmts[index]? = some stmt ∧
        (Focus.stmt stmt).Reaches (path ++ [Step.stmt index]) entry := by
  constructor
  · rintro ⟨_ | ⟨step, rest⟩, hpath, hat⟩
    · cases hat
    · rw [at?] at hat
      cases step with
      | stmt index =>
        simp only [child?] at hat
        cases hstmt : body.stmts[index]? with
        | none => simp [hstmt] at hat
        | some stmt =>
          rw [hstmt] at hat
          exact ⟨index, stmt, hstmt, rest, by simpa using hpath, hat⟩
      | _ => simp [child?] at hat
  · rintro ⟨index, stmt, hstmt, rest, hpath, hat⟩
    refine ⟨.stmt index :: rest, by simpa using hpath, ?_⟩
    rw [at?, child?, hstmt]
    exact hat

theorem reaches_stmt_iff (stmt : Stmt) (path : StmtPath) (entry : StmtPath × Stmt) :
    (Focus.stmt stmt).Reaches path entry ↔
      entry = (path, stmt) ∨ (Focus.stmt stmt).ReachesBelow path entry := by
  constructor
  · rintro ⟨_ | ⟨step, rest⟩, hpath, hat⟩
    · cases hat
      exact .inl (Prod.ext (by simpa using hpath) rfl)
    · rw [at?] at hat
      split at hat
      next part hpart => exact .inr ⟨step, part, hpart, rest, by simpa using hpath, hat⟩
      next => cases hat
  · rintro (rfl | ⟨step, part, hpart, rest, hpath, hat⟩)
    · exact ⟨[], by simp, rfl⟩
    · refine ⟨step :: rest, by simpa using hpath, ?_⟩
      rw [at?, hpart]
      exact hat

section Below

variable {layout : Layout} {trailing : Option Comment} {path : StmtPath} {entry : StmtPath × Stmt}

/-- No path leads through a leaf. -/
theorem not_reachesBelow {focus : Focus} (h : focus.IsLeaf) : ¬ focus.ReachesBelow path entry := by
  rintro ⟨step, part, hpart, -⟩
  rw [h step] at hpart
  cases hpart

/-- The part of a statement that has one part only. -/
def part? : StmtKind → Option (Step × Focus)
  | .block body => some (.nested, .block body)
  | .ifElse _ yes none => some (.thenBranch, .stmt yes)
  | .whileLoop _ body => some (.body, .stmt body)
  | .doWhile body _ => some (.body, .stmt body)
  | .forLoop _ _ _ body => some (.body, .stmt body)
  | .forEach _ _ body => some (.body, .stmt body)
  | .labeled _ body => some (.body, .stmt body)
  | .sync _ body => some (.body, .block body)
  | _ => none

theorem child?_of_part? {kind : StmtKind} {step : Step} {part : Focus}
    (h : part? kind = some (step, part)) :
    (Focus.stmt ⟨layout, trailing, kind⟩).child? step = some part ∧
      ∀ other, other ≠ step → (Focus.stmt ⟨layout, trailing, kind⟩).child? other = none := by
  unfold part? at h
  split at h <;> cases h
  all_goals
    refine ⟨rfl, fun other hne => ?_⟩
    cases other <;> first | rfl | exact absurd rfl hne

theorem reachesBelow_iff_of_part? {kind : StmtKind} {step : Step} {part : Focus}
    (h : part? kind = some (step, part)) :
    part.Reaches (path ++ [step]) entry ↔
      (Focus.stmt ⟨layout, trailing, kind⟩).ReachesBelow path entry := by
  obtain ⟨hpart, hother⟩ := @child?_of_part? layout trailing _ _ _ h
  constructor
  · exact fun hreaches => ⟨step, part, hpart, hreaches⟩
  · rintro ⟨other, part', hpart', hreaches⟩
    by_cases hne : other = step
    · subst hne
      cases hpart.symm.trans hpart'
      exact hreaches
    · cases (hother other hne).symm.trans hpart'

theorem reachesBelow_ifElse_iff {cond : Expr} {yes no : Stmt} :
    ((Focus.stmt yes).Reaches (path ++ [.thenBranch]) entry ∨
        (Focus.stmt no).Reaches (path ++ [.elseBranch]) entry) ↔
      (Focus.stmt ⟨layout, trailing, .ifElse cond yes (some no)⟩).ReachesBelow path entry := by
  constructor
  · rintro (h | h)
    · exact ⟨.thenBranch, _, rfl, h⟩
    · exact ⟨.elseBranch, _, rfl, h⟩
  · rintro ⟨step, part, hpart, h⟩
    cases step <;> cases hpart
    · exact .inl h
    · exact .inr h

theorem reachesBelow_tryBlock_iff {resources : List Resource} {body : Block}
    {catches : List CatchClause} {finallyBody : Option Block} :
    ((Focus.block body).Reaches (path ++ [.body]) entry ∨
        (∃ (index : Nat) (clause : CatchClause), catches[index]? = some clause ∧
          (Focus.block clause.body).Reaches (path ++ [.catchBlock (0 + index)]) entry) ∨
        ∃ last, finallyBody = some last ∧
          (Focus.block last).Reaches (path ++ [.finallyBlock]) entry) ↔
      (Focus.stmt ⟨layout, trailing, .tryBlock resources body catches finallyBody⟩).ReachesBelow path
        entry := by
  constructor
  · rintro (h | ⟨index, clause, hclause, h⟩ | ⟨last, rfl, h⟩)
    · exact ⟨.body, _, rfl, h⟩
    · exact ⟨.catchBlock index, .block clause.body, by simp [child?, hclause], by simpa using h⟩
    · exact ⟨.finallyBlock, _, rfl, h⟩
  · rintro ⟨step, part, hpart, h⟩
    cases step with
    | body =>
      cases hpart
      exact .inl h
    | catchBlock index =>
      obtain ⟨clause, hclause, rfl⟩ := Option.map_eq_some_iff.1 hpart
      exact .inr (.inl ⟨index, clause, hclause, by simpa using h⟩)
    | finallyBlock =>
      cases finallyBody with
      | none => cases hpart
      | some last =>
        cases hpart
        exact .inr (.inr ⟨last, rfl, h⟩)
    | _ => cases hpart

theorem reachesBelow_switch_iff {selector : Expr} {cases : List SwitchCase} :
    (∃ (index : Nat) (case : SwitchCase), cases[index]? = some case ∧
        (Focus.block case.body).Reaches (path ++ [.caseBlock (0 + index)]) entry) ↔
      (Focus.stmt ⟨layout, trailing, .switch selector cases⟩).ReachesBelow path entry := by
  constructor
  · rintro ⟨index, case, hcase, h⟩
    exact ⟨.caseBlock index, .block case.body, by simp [child?, hcase], by simpa using h⟩
  · rintro ⟨step, part, hpart, h⟩
    cases step with
    | caseBlock index =>
      obtain ⟨case, hcase, rfl⟩ := Option.map_eq_some_iff.1 hpart
      exact ⟨index, case, hcase, by simpa using h⟩
    | _ => cases hpart

end Below

end Focus

namespace Block

theorem stmtAt?_eq_some_iff {body : Block} {path : StmtPath} {stmt : Stmt} :
    body.stmtAt? path = some stmt ↔ (Focus.block body).at? path = some (.stmt stmt) := by
  rw [stmtAt?]
  split <;> simp_all

theorem blockAt?_eq_some_iff {body block : Block} {path : StmtPath} :
    body.blockAt? path = some block ↔ (Focus.block body).at? path = some (.block block) := by
  rw [blockAt?]
  split <;> simp_all

theorem updateStmt?_eq_some_iff {body body' : Block} {path : StmtPath} {change : Stmt → Stmt} :
    body.updateStmt? path change = some body' ↔
      (Focus.block body).update? (Focus.onStmt change) path = some (.block body') := by
  rw [updateStmt?]
  split
  next block hblock =>
    change (Focus.block body).update? (Focus.onStmt change) path = _ at hblock
    simp [hblock]
  next hother =>
    constructor
    · intro h
      cases h
    · intro h
      exact (hother body' h).elim

theorem updateBlock?_eq_some_iff {body body' : Block} {path : StmtPath}
    {change : Block → Option Block} :
    body.updateBlock? path change = some body' ↔
      (Focus.block body).update? (Focus.onBlock change) path = some (.block body') := by
  rw [updateBlock?]
  split
  next block hblock =>
    change (Focus.block body).update? (Focus.onBlock change) path = _ at hblock
    simp [hblock]
  next hother =>
    constructor
    · intro h
      cases h
    · intro h
      exact (hother body' h).elim

/-- Changing the statement a path leads to succeeds. -/
theorem exists_updateStmt? {body : Block} {path : StmtPath} {stmt : Stmt} (change : Stmt → Stmt)
    (h : body.stmtAt? path = some stmt) : ∃ body', body.updateStmt? path change = some body' := by
  have hchange : Focus.onStmt change (.stmt stmt) = some (.stmt (change stmt)) := rfl
  obtain ⟨focus, hfocus⟩ := Focus.exists_update? (stmtAt?_eq_some_iff.1 h) hchange
  have hfits : (Focus.block body).Fits focus := Focus.fits_update? Focus.fits_onStmt hfocus
  cases focus with
  | stmt _ => exact hfits.elim
  | block body' => exact ⟨body', updateStmt?_eq_some_iff.2 hfocus⟩

end Block

/-! ### Edits in turn -/

namespace Focus

theorem update?_append {change : Focus → Option Focus} (focus : Focus) (path inner : StmtPath) :
    focus.update? change (path ++ inner) =
      focus.update? (fun part => part.update? change inner) path := by
  induction path generalizing focus with
  | nil => rfl
  | cons step rest ih =>
    rw [List.cons_append, update?, update?]
    cases focus.child? step with
    | none => rfl
    | some child =>
      dsimp only
      rw [ih child]

/-- An edit depends on what it makes of the part that the path leads to. -/
theorem update?_congr {change change' : Focus → Option Focus} {focus part : Focus} {path : StmtPath}
    (hat : focus.at? path = some part) (h : change part = change' part) :
    focus.update? change path = focus.update? change' path := by
  induction path generalizing focus with
  | nil =>
    cases hat
    exact h
  | cons step rest ih =>
    rw [at?] at hat
    rw [update?, update?]
    cases hchild : focus.child? step with
    | none => rfl
    | some child =>
      rw [hchild] at hat
      dsimp only
      rw [ih hat]

theorem Fits.trans {focus focus' focus'' : Focus} (h : focus.Fits focus')
    (h' : focus'.Fits focus'') : focus.Fits focus'' := by
  cases focus <;> cases focus' <;> cases focus'' <;> trivial

theorem Swap.withChild_eq {step : Step} {part new focus focus' : Focus}
    (h : Swap step part new focus focus') (other : Focus) (hfits : part.Fits other) :
    focus'.withChild step other = focus.withChild step other := by
  cases h <;> cases other <;> simp_all [withChild, replaceIn, Fits, modify_split]

/-- Two edits of the same part in turn are one. -/
theorem update?_update? {first second : Focus → Option Focus} {focus focus' : Focus}
    {path : StmtPath} (hfits : ∀ {part new}, first part = some new → part.Fits new)
    (hfits' : ∀ {part new}, second part = some new → part.Fits new)
    (h : focus.update? first path = some focus') :
    focus'.update? second path = focus.update? (fun part => (first part).bind second) path := by
  induction path generalizing focus focus' with
  | nil =>
    rw [update?] at h ⊢
    rw [update?, h, Option.bind_some]
  | cons step rest ih =>
    rw [update?] at h
    split at h
    next child hchild =>
      obtain ⟨new, hnew, rfl⟩ := Option.map_eq_some_iff.1 h
      have hfitsChild : child.Fits new := fits_update? hfits hnew
      have hswap := swap_of_child? hchild hfitsChild
      rw [update?, update?, hswap.child?_new, hchild]
      dsimp only
      rw [ih hnew]
      cases hlast : child.update? (fun part => (first part).bind second) rest with
      | none => rfl
      | some last =>
        have hfitsLast : child.Fits last := by
          refine fits_update? (fun hboth => ?_) hlast
          obtain ⟨middle, hmiddle, hsecond⟩ := Option.bind_eq_some_iff.1 hboth
          exact (hfits hmiddle).trans (hfits' hsecond)
        exact congrArg some (hswap.withChild_eq last hfitsLast)
    next => cases h

end Focus

/-! ### Statements directly in a block -/

theorem StmtPath.blockIndex?_eq_some {path blockPath : StmtPath} {index : Nat}
    (h : path.blockIndex? = some (blockPath, index)) : path = blockPath ++ [Step.stmt index] := by
  rcases List.eq_nil_or_concat path with rfl | ⟨front, last, rfl⟩
  · cases h
  · rw [List.concat_eq_append] at h ⊢
    rw [StmtPath.blockIndex?, List.getLast?_concat] at h
    cases last with
    | stmt index =>
      cases h
      simp
    | _ => cases h

theorem StmtPath.blockIndex?_concat (path : StmtPath) (index : Nat) :
    StmtPath.blockIndex? (path ++ [Step.stmt index]) = some (path, index) := by
  simp [StmtPath.blockIndex?]

theorem Focus.at?_append (focus : Focus) (path path' : StmtPath) :
    focus.at? (path ++ path') = (focus.at? path).bind fun part => part.at? path' := by
  induction path generalizing focus with
  | nil => rfl
  | cons step rest ih =>
    rw [List.cons_append, Focus.at?, Focus.at?]
    cases focus.child? step with
    | none => rfl
    | some child => exact ih child

theorem Focus.exists_of_update? {change : Focus → Option Focus} {focus focus' : Focus}
    {path : StmtPath} (h : focus.update? change path = some focus') :
    ∃ part new, focus.at? path = some part ∧ change part = some new := by
  induction path generalizing focus focus' with
  | nil => exact ⟨focus, focus', rfl, h⟩
  | cons step rest ih =>
    rw [Focus.update?] at h
    rw [Focus.at?]
    split at h
    next child hchild =>
      obtain ⟨new, hnew, -⟩ := Option.map_eq_some_iff.1 h
      exact ih hnew
    next => cases h

/-- Whether a relation of a part, what takes its place, and the wholes around the two holds of the parts themselves and is kept on the way outwards. -/
structure Focus.Carries (R : Focus → Focus → Focus → Focus → Prop) : Prop where
  self (part new : Focus) : R part new part new
  outwards {step : Step} {part new inner inner' focus focus' : Focus} (h : R part new inner inner')
    (hswap : Swap step inner inner' focus focus') : R part new focus focus'

section Carried

variable {R : Focus → Focus → Focus → Focus → Prop} {path : StmtPath}

/-- What an edit at a path does to the whole. -/
theorem Focus.Carries.exists_part (hcarries : Carries R) {change : Focus → Option Focus}
    {focus focus' : Focus} (hfits : ∀ {part new}, change part = some new → part.Fits new)
    (h : focus.update? change path = some focus') :
    ∃ part new, focus.at? path = some part ∧ change part = some new ∧ R part new focus focus' := by
  obtain ⟨part, new, hat, hchange⟩ := exists_of_update? h
  refine ⟨part, new, hat, hchange, ?_⟩
  refine (@update?_rel (fun inner inner' => inner.Fits inner' ∧ R part new inner inner') change
    (fun _ _ => And.left) (fun hswap hinner => ⟨hswap.fits, hcarries.outwards hinner.2 hswap⟩) _ _ _ h
    ?_).2
  intro part' new' hat' hchange'
  obtain rfl := Option.some.inj (hat.symm.trans hat')
  obtain rfl := Option.some.inj (hchange.symm.trans hchange')
  exact ⟨hfits hchange, hcarries.self part new⟩

theorem Focus.Carries.exists_stmt (hcarries : Carries R) {body body' : Block} {change : Stmt → Stmt}
    (h : body.updateStmt? path change = some body') :
    ∃ stmt, body.stmtAt? path = some stmt ∧
      R (.stmt stmt) (.stmt (change stmt)) (.block body) (.block body') := by
  obtain ⟨part, new, hat, hnew, hrel⟩ := hcarries.exists_part fits_onStmt
    (Block.updateStmt?_eq_some_iff.1 h)
  cases part with
  | block _ => cases hnew
  | stmt stmt =>
    cases hnew
    exact ⟨stmt, Block.stmtAt?_eq_some_iff.2 hat, hrel⟩

theorem Focus.Carries.exists_block (hcarries : Carries R) {body body' : Block}
    {change : Block → Option Block} (h : body.updateBlock? path change = some body') :
    ∃ block block', body.blockAt? path = some block ∧ change block = some block' ∧
      R (.block block) (.block block') (.block body) (.block body') := by
  obtain ⟨part, new, hat, hnew, hrel⟩ := hcarries.exists_part fits_onBlock
    (Block.updateBlock?_eq_some_iff.1 h)
  cases part with
  | stmt _ => cases hnew
  | block block =>
    obtain ⟨block', hchange, rfl⟩ := Option.map_eq_some_iff.1 hnew
    exact ⟨block, block', Block.blockAt?_eq_some_iff.2 hat, hchange, hrel⟩

end Carried

/-- A block that an edit changes is there, and the edit allows it. -/
theorem Block.exists_of_updateBlock? {body body' : Block} {path : StmtPath}
    {change : Block → Option Block} (h : body.updateBlock? path change = some body') :
    ∃ block block', body.blockAt? path = some block ∧ change block = some block' := by
  obtain ⟨part, new, hat, hnew⟩ := Focus.exists_of_update? (Block.updateBlock?_eq_some_iff.1 h)
  cases part with
  | stmt _ => cases hnew
  | block block =>
    obtain ⟨block', hblock', -⟩ := Option.map_eq_some_iff.1 hnew
    exact ⟨block, block', Block.blockAt?_eq_some_iff.2 hat, hblock'⟩

/-- A block that a path leads to can be changed. -/
theorem Block.exists_updateBlock? {body block block' : Block} {path : StmtPath}
    {change : Block → Option Block} (h : body.blockAt? path = some block)
    (hchange : change block = some block') :
    ∃ body', body.updateBlock? path change = some body' := by
  have honBlock : Focus.onBlock change (.block block) = some (.block block') := by
    rw [Focus.onBlock, hchange]
    rfl
  obtain ⟨focus, hfocus⟩ := Focus.exists_update? (Block.blockAt?_eq_some_iff.1 h) honBlock
  have hfits : (Focus.block body).Fits focus := Focus.fits_update? Focus.fits_onBlock hfocus
  cases focus with
  | stmt _ => exact hfits.elim
  | block body' => exact ⟨body', Block.updateBlock?_eq_some_iff.2 hfocus⟩

/-- A statement that stands directly in a block. -/
theorem Block.blockAt?_of_stmtAt? {body : Block} {path : StmtPath} {index : Nat} {stmt : Stmt}
    (h : body.stmtAt? (path ++ [Step.stmt index]) = some stmt) :
    ∃ front back endComments closing, index = front.length ∧
      body.blockAt? path = some ⟨front ++ stmt :: back, endComments, closing⟩ := by
  rw [Block.stmtAt?_eq_some_iff, Focus.at?_append] at h
  obtain ⟨part, hpart, hat⟩ := Option.bind_eq_some_iff.1 h
  rw [Focus.at?] at hat
  split at hat
  next child hchild =>
    cases hat
    cases part with
    | stmt outer =>
      simp [Focus.child?] at hchild
    | block outer =>
      obtain ⟨stmts, endComments, closing⟩ := outer
      obtain ⟨stmt', hstmt', hfocus⟩ := Option.map_eq_some_iff.1 hchild
      cases hfocus
      obtain ⟨front, back, rfl, rfl⟩ := Focus.exists_split_of_getElem? hstmt'
      exact ⟨front, back, endComments, closing, rfl, Block.blockAt?_eq_some_iff.2 hpart⟩
  next => cases hat

/-- A statement of a block, by the path of the block and by its own. -/
theorem Block.stmtAt?_concat {body block : Block} {path : StmtPath}
    (h : body.blockAt? path = some block) (index : Nat) :
    body.stmtAt? (path ++ [Step.stmt index]) = block.stmts[index]? := by
  rw [Block.stmtAt?, Focus.at?_append, Block.blockAt?_eq_some_iff.1 h, Option.bind_some, Focus.at?,
    Focus.child?]
  cases block.stmts[index]? <;> rfl

theorem insertIdx_split {α : Type} (front back : List α) (item : α) :
    (front ++ back).insertIdx front.length item = front ++ item :: back := by
  induction front with
  | nil => cases back <;> rfl
  | cons first front ih =>
    rw [List.cons_append, List.length_cons, List.insertIdx_succ_cons, ih, List.cons_append]

theorem exists_of_mem_forall₂ {α β : Type} {R : α → β → Prop} {items : List α} {items' : List β}
    (h : List.Forall₂ R items items') {item' : β} (hmem : item' ∈ items') :
    ∃ item ∈ items, R item item' := by
  induction h with
  | nil => cases hmem
  | cons hfirst _ ih =>
    rcases List.mem_cons.1 hmem with rfl | hmem
    · exact ⟨_, List.mem_cons_self, hfirst⟩
    · obtain ⟨item, hitem, hrel⟩ := ih hmem
      exact ⟨item, List.mem_cons_of_mem _ hitem, hrel⟩

theorem forall₂_split {α β : Type} {R : α → β → Prop} {before after : List α} {item : α}
    {others : List β} (h : List.Forall₂ R (before ++ item :: after) others) :
    ∃ before' item' after', others = before' ++ item' :: after' ∧
      List.Forall₂ R before before' ∧ R item item' ∧ List.Forall₂ R after after' := by
  induction before generalizing others with
  | nil =>
    cases h with
    | cons hitem hafter => exact ⟨[], _, _, rfl, .nil, hitem, hafter⟩
  | cons first before ih =>
    cases h with
    | cons hfirst hrest =>
      obtain ⟨before', item', after', rfl, hbefore, hitem, hafter⟩ := ih hrest
      exact ⟨_ :: before', item', after', rfl, .cons hfirst hbefore, hitem, hafter⟩

/-! ### Walks

A walk lists exactly the statements that paths lead to. -/

/-- A walk through numbered parts: the first one, or one of the others, whose numbers are one higher. -/
theorem exists_index_cons_iff {α : Type} (focus : α → Focus) (step : Nat → Step) (first : α)
    (rest : List α) (path : StmtPath) (start : Nat) (entry : StmtPath × Stmt) :
    ((focus first).Reaches (path ++ [step start]) entry ∨ ∃ index item, rest[index]? = some item ∧
        (focus item).Reaches (path ++ [step (start + 1 + index)]) entry) ↔
      ∃ index item, (first :: rest)[index]? = some item ∧
        (focus item).Reaches (path ++ [step (start + index)]) entry := by
  constructor
  · rintro (h | ⟨index, item, hitem, h⟩)
    · exact ⟨0, first, rfl, h⟩
    · exact ⟨index + 1, item, hitem, by rwa [Nat.add_right_comm, Nat.add_assoc] at h⟩
  · rintro ⟨_ | index, item, hitem, h⟩
    · cases hitem
      exact .inl h
    · exact .inr ⟨index, item, hitem, by rwa [Nat.add_right_comm, Nat.add_assoc]⟩

mutual
theorem Stmt.mem_walk : (stmt : Stmt) → (path : StmtPath) → (entry : StmtPath × Stmt) →
    (entry ∈ stmt.walk path ↔ (Focus.stmt stmt).Reaches path entry)
  | ⟨layout, trailing, kind⟩, path, entry =>
    (List.mem_cons.trans (or_congr Iff.rfl (kind.mem_walk layout trailing path entry))).trans
      (Focus.reaches_stmt_iff ⟨layout, trailing, kind⟩ path entry).symm

theorem StmtKind.mem_walk : (kind : StmtKind) → (layout : Layout) → (trailing : Option Comment) →
    (path : StmtPath) → (entry : StmtPath × Stmt) →
    (entry ∈ kind.walk path ↔ (Focus.stmt ⟨layout, trailing, kind⟩).ReachesBelow path entry)
  | .block body, _, _, path, entry | .ifElse _ body none, _, _, path, entry
  | .whileLoop _ body, _, _, path, entry | .doWhile body _, _, _, path, entry
  | .forLoop _ _ _ body, _, _, path, entry | .forEach _ _ body, _, _, path, entry
  | .labeled _ body, _, _, path, entry | .sync _ body, _, _, path, entry =>
    (body.mem_walk _ entry).trans (Focus.reachesBelow_iff_of_part? rfl)
  | .ifElse _ yes (some no), _, _, path, entry =>
    (List.mem_append.trans (or_congr (yes.mem_walk _ entry) (no.mem_walk _ entry))).trans
      Focus.reachesBelow_ifElse_iff
  | .tryBlock _ body catches none, _, _, path, entry => by
    rw [← Focus.reachesBelow_tryBlock_iff, ← body.mem_walk, ← CatchClause.mem_walkList, StmtKind.walk]
    simp
  | .tryBlock _ body catches (some last), _, _, path, entry => by
    rw [← Focus.reachesBelow_tryBlock_iff, ← body.mem_walk, ← CatchClause.mem_walkList, StmtKind.walk]
    simp [← last.mem_walk]
  | .switch _ cases, _, _, path, entry =>
    (SwitchCase.mem_walkList cases path 0 entry).trans Focus.reachesBelow_switch_iff
  | .localVar _, _, _, path, entry | .localClass _, _, _, path, entry | .expr _, _, _, path, entry
  | .ret _, _, _, path, entry | .throw _, _, _, path, entry | .breakTo _, _, _, path, entry
  | .continueTo _, _, _, path, entry | .assertion _ _, _, _, path, entry
  | .empty, _, _, path, entry =>
    iff_of_false List.not_mem_nil (Focus.not_reachesBelow fun step => by cases step <;> rfl)

theorem Block.mem_walk : (body : Block) → (path : StmtPath) → (entry : StmtPath × Stmt) →
    (entry ∈ body.walk path ↔ (Focus.block body).Reaches path entry)
  | ⟨stmts, endComments, closing⟩, path, entry => by
    refine (Stmt.mem_walkList stmts path 0 entry).trans (Iff.trans ?_
      (Focus.reaches_block_iff ⟨stmts, endComments, closing⟩ path entry).symm)
    simp only [Nat.zero_add]

theorem Stmt.mem_walkList : (stmts : List Stmt) → (path : StmtPath) → (start : Nat) →
    (entry : StmtPath × Stmt) →
    (entry ∈ Stmt.walkList stmts path start ↔ ∃ index stmt, stmts[index]? = some stmt ∧
      (Focus.stmt stmt).Reaches (path ++ [Step.stmt (start + index)]) entry)
  | [], _, _, _ => iff_of_false List.not_mem_nil (by rintro ⟨_, _, ⟨⟩, _⟩)
  | stmt :: rest, path, start, entry =>
    (List.mem_append.trans (or_congr (stmt.mem_walk _ entry) (Stmt.mem_walkList rest _ _ entry))).trans
      (exists_index_cons_iff (Focus.stmt ·) .stmt stmt rest path start entry)

theorem CatchClause.mem_walkList : (clauses : List CatchClause) → (path : StmtPath) →
    (start : Nat) → (entry : StmtPath × Stmt) →
    (entry ∈ CatchClause.walkList clauses path start ↔
      ∃ (index : Nat) (clause : CatchClause), clauses[index]? = some clause ∧
        (Focus.block clause.body).Reaches (path ++ [Step.catchBlock (start + index)]) entry)
  | [], _, _, _ => iff_of_false List.not_mem_nil (by rintro ⟨_, _, ⟨⟩, _⟩)
  | ⟨id, annotations, modifiers, types, name, body⟩ :: rest, path, start, entry =>
    (List.mem_append.trans (or_congr (body.mem_walk _ entry)
      (CatchClause.mem_walkList rest _ _ entry))).trans
      (exists_index_cons_iff (fun clause => .block clause.body) .catchBlock
        ⟨id, annotations, modifiers, types, name, body⟩ rest path start entry)

theorem SwitchCase.mem_walkList : (cases : List SwitchCase) → (path : StmtPath) →
    (start : Nat) → (entry : StmtPath × Stmt) →
    (entry ∈ SwitchCase.walkList cases path start ↔
      ∃ (index : Nat) (case : SwitchCase), cases[index]? = some case ∧
        (Focus.block case.body).Reaches (path ++ [Step.caseBlock (start + index)]) entry)
  | [], _, _, _ => iff_of_false List.not_mem_nil (by rintro ⟨_, _, ⟨⟩, _⟩)
  | ⟨comments, labels, isDefault, form, body⟩ :: rest, path, start, entry =>
    (List.mem_append.trans (or_congr (body.mem_walk _ entry)
      (SwitchCase.mem_walkList rest _ _ entry))).trans
      (exists_index_cons_iff (fun case => .block case.body) .caseBlock
        ⟨comments, labels, isDefault, form, body⟩ rest path start entry)
end

/-- The statements of a body's own scope are those that paths lead to. -/
theorem Block.mem_scoped (body : Block) (path : StmtPath) (stmt : Stmt) :
    (path, stmt) ∈ body.scoped ↔ (Focus.block body).at? path = some (.stmt stmt) := by
  rw [Block.scoped, Block.mem_walk]
  constructor
  · rintro ⟨rest, rfl, hat⟩
    exact hat
  · exact fun hat => ⟨path, rfl, hat⟩

end AdviceMigration.Source
