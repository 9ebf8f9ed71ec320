import AdviceMigration.Proofs.Advice.Folding
import AdviceMigration.Proofs.Advice.References
import AdviceMigration.Proofs.Scope.Contexts
import AdviceMigration.Proofs.Scope.Dangling

/-!
# Rewriting bodies

What packing, storing and folding do to the names of a body. They put in names of their own, they move or drop expressions, and they leave alone a variable that is declared first.
-/

namespace AdviceMigration.Source

open AdviceMigration.Scope

theorem Stmt.events_of_kind {stmt : Stmt} {kind : StmtKind} (h : stmt.kind = kind) :
    stmt.events = kind.events := by
  obtain ⟨layout, trailing, own⟩ := stmt
  cases h
  rfl

theorem Stmt.events_congr {stmt stmt' : Stmt} (h : stmt'.kind = stmt.kind) :
    stmt'.events = stmt.events := by
  rw [Stmt.events_of_kind h, Stmt.events_of_kind rfl]

/-- Whether a declaration that stands first in a body stays there. -/
def KeepsFirst (body body' : Block) : Prop :=
  ∀ stmt decl, body.stmts.head? = some stmt → stmt.kind = .localVar decl →
    body'.stmts.head? = some stmt

/-- An edit inside a body leaves the first statement alone, unless it is an edit of it. -/
theorem keepsFirst_of_update? {body body' : Block} {change : Focus → Option Focus} {path : StmtPath}
    (hfits : ∀ {part new}, change part = some new → part.Fits new) (hpath : path ≠ [])
    (h : (Focus.block body).update? change path = some (.block body'))
    (hpart : ∀ stmt decl, (Focus.block body).at? path = some (.stmt stmt) →
      stmt.kind ≠ .localVar decl) : KeepsFirst body body' := by
  intro first decl hfirst hkind
  cases path with
  | nil => exact absurd rfl hpath
  | cons step rest =>
    rw [Focus.update?] at h
    split at h
    next child hchild =>
      obtain ⟨new, hnew, hbody'⟩ := Option.map_eq_some_iff.1 h
      have hswap := Focus.swap_of_child? hchild (Focus.fits_update? hfits hnew)
      rw [hbody'] at hswap
      cases hswap with
      | @stmt before after =>
        cases before with
        | cons _ _ => exact hfirst
        | nil =>
          -- The first statement declares variables, so no path leads further into it.
          have hleaf : ∀ step', (Focus.stmt first).child? step' = none := by
            obtain ⟨layout, trailing, kind⟩ := first
            obtain rfl : kind = .localVar decl := hkind
            intro step'
            cases step' <;> rfl
          cases hfirst
          cases rest with
          | nil => exact absurd hkind (hpart _ decl (by rw [Focus.at?, hchild]; rfl))
          | cons step' rest' =>
            rw [Focus.update?, hleaf step'] at hnew
            cases hnew
    next => cases h

/-- Whether a body is rewritten to another one. -/
structure Rewrites (named : List String) (body body' : Block) : Prop where
  recasts : Recasts [] named body.innerEvents body'.innerEvents
  keeps : KeepsFirst body body'

namespace Rewrites

variable {named : List String} {body body' body'' : Block}

theorem refl (body : Block) : Rewrites named body body := ⟨.refl _, fun _ _ hfirst _ => hfirst⟩

theorem trans (h : Rewrites named body body') (h' : Rewrites named body' body'') :
    Rewrites named body body'' :=
  ⟨h.recasts.trans h'.recasts, fun stmt decl hfirst hkind =>
    h'.keeps stmt decl (h.keeps stmt decl hfirst hkind) hkind⟩

theorem updateBlock {block block' : Block} {path : StmtPath} {change : Block → Option Block}
    (hblock : body.blockAt? path = some block) (h : body.updateBlock? path change = some body')
    (hchange : change block = some block') (hrewrites : Rewrites named block block') :
    Rewrites named body body' := by
  constructor
  · obtain ⟨old, new, before, after, hold, hnew, hbody, hbody'⟩ := Block.events_updateBlock? h
    rw [hblock] at hold
    cases hold
    rw [hchange] at hnew
    cases hnew
    rw [hbody, hbody']
    exact hrewrites.recasts.within before after
  · have hat := Block.blockAt?_eq_some_iff.1 hblock
    have hupdate := Block.updateBlock?_eq_some_iff.1 h
    by_cases hpath : path = []
    · subst hpath
      cases hat
      rw [Focus.update?, Focus.onBlock, hchange] at hupdate
      cases hupdate
      exact hrewrites.keeps
    · refine keepsFirst_of_update? Focus.fits_onBlock hpath hupdate fun stmt decl hstmt => ?_
      rw [hat] at hstmt
      cases hstmt

theorem updateStmt {stmt : Stmt} {path : StmtPath} {change : Stmt → Stmt}
    (hstmt : body.stmtAt? path = some stmt) (hdeclares : ∀ decl, stmt.kind ≠ .localVar decl)
    (hrecasts : Recasts [] named stmt.events (change stmt).events)
    (h : body.updateStmt? path change = some body') : Rewrites named body body' := by
  have hat := Block.stmtAt?_eq_some_iff.1 hstmt
  constructor
  · obtain ⟨old, before, after, hold, hbody, hbody'⟩ := Block.events_updateStmt? h
    rw [hstmt] at hold
    cases hold
    rw [hbody, hbody']
    exact hrecasts.within before after
  · refine keepsFirst_of_update? Focus.fits_onStmt ?_ (Block.updateStmt?_eq_some_iff.1 h)
      fun other decl hother => ?_
    · rintro rfl
      cases hat
    · rw [hat] at hother
      cases hother
      exact hdeclares decl

/-- Statements of a block that make way for others, if the first of them declares nothing. -/
theorem replace {front back stmts stmts' : List Stmt} {endComments : List Comment}
    {closing : Option Trivia} (hstmts : stmts ≠ [])
    (hdeclares : ∀ stmt decl, stmts.head? = some stmt → stmt.kind ≠ .localVar decl)
    (hrecasts : Recasts [] named (Stmt.eventsList stmts) (Stmt.eventsList stmts')) :
    Rewrites named ⟨front ++ stmts ++ back, endComments, closing⟩
      ⟨front ++ stmts' ++ back, endComments, closing⟩ := by
  constructor
  · simp only [Block.innerEvents, Stmt.eventsList_append]
    exact hrecasts.within _ _
  · intro first decl hfirst hkind
    cases front with
    | cons _ _ => exact hfirst
    | nil =>
      cases stmts with
      | nil => exact absurd rfl hstmts
      | cons stmt rest => exact absurd hkind (hdeclares first decl hfirst)

end Rewrites

end AdviceMigration.Source

namespace AdviceMigration.Advice

open AdviceMigration.Source AdviceMigration.Scope

/-! ### Packing and storing -/

/-- A template mentions its variables. -/
theorem IsTemplate.mentions {names : List String} {expr : Expr} (h : IsTemplate names expr) :
    PatternFree expr.events ∧ ∀ role name id, .use role name id ∈ expr.events → name ∈ names := by
  have hitems : ∀ (items : List Expr) (names : List String),
      items.map Expr.name? = names.map some → ∀ event ∈ Expr.eventsList items,
        ∃ name ∈ names, ∃ id, event = .use .read name id := by
    intro items
    induction items with
    | nil => exact fun _ _ _ hevent => nomatch hevent
    | cons item rest ih =>
      intro names hnames event hevent
      cases names with
      | nil => cases hnames
      | cons name names =>
        obtain ⟨hitem, hrest⟩ := List.cons.inj hnames
        obtain ⟨id, rfl⟩ := name?_eq_some_iff.1 hitem
        rcases List.mem_cons.1 hevent with rfl | hevent
        · exact ⟨name, List.mem_cons_self, id, rfl⟩
        · obtain ⟨other, hother, heq⟩ := ih names hrest event hevent
          exact ⟨other, List.mem_cons_of_mem _ hother, heq⟩
  have hevents : ∀ event ∈ expr.events, event = .effect ∨
      ∃ name ∈ names, ∃ id, event = .use .read name id := by
    intro event hevent
    cases h with
    | @single id name =>
      obtain rfl := List.mem_singleton.1 hevent
      exact .inr ⟨name, List.mem_cons_self, id, rfl⟩
    | @array names items hnames _ =>
      rcases List.mem_cons.1 hevent with rfl | hevent
      · exact .inl rfl
      · exact .inr (hitems items names hnames event hevent)
  constructor
  · intro name id hmem
    rcases hevents _ hmem with heq | ⟨_, _, _, heq⟩ <;> cases heq
  · intro role name id hmem
    rcases hevents _ hmem with heq | ⟨other, hother, _, heq⟩
    · cases heq
    · cases heq
      exact hother

theorem not_declares_of_ret {stmt : Stmt} {value : Option Expr} (h : stmt.kind = .ret value)
    (decl : LocalVar) : stmt.kind ≠ .localVar decl := by
  rw [h]
  exact nofun

/-- A `return` that gives back something else. -/
theorem rewrites_setReturn {named : List String} {body : Block} {path : StmtPath} {ret : Stmt}
    {previous value : Option Expr} (hstmt : body.stmtAt? path = some ret)
    (hret : ret.kind = .ret previous)
    (hrecasts : Recasts [] named (Expr.eventsOption previous) (Expr.eventsOption value)) :
    Rewrites named body (setReturn body path value) := by
  refine .updateStmt hstmt (not_declares_of_ret hret) ?_
    (Block.updateStmt?_eq_some_iff.2 (exists_setReturn hstmt value))
  rw [Stmt.events_of_kind hret]
  exact hrecasts

/-- A `return` that gives back something else, with an expression evaluated in front of it. -/
theorem rewrites_insertBefore {named : List String} {body body' : Block} {path : StmtPath}
    {ret : Stmt} {previous value : Option Expr} {expr : Expr}
    (hstmt : body.stmtAt? path = some ret) (hret : ret.kind = .ret previous)
    (hrecasts : Recasts [] named (Expr.eventsOption previous) (expr.events ++ Expr.eventsOption value))
    (h : insertBefore? (setReturn body path value) path (.ofKind (.expr expr)) = some body') :
    Rewrites named body body' := by
  obtain ⟨blockPath, front, back, endComments, closing, stmt', ret', -, hblock, hstmt', hret',
    hupdate⟩ := insertBefore?_setReturn hstmt h
  refine .updateBlock hblock hupdate rfl ?_
  have hreplaced := @Rewrites.replace named front back [ret] [stmt', ret'] endComments closing
    (List.cons_ne_nil _ _) ?_ ?_
  · simpa using hreplaced
  · intro stmt decl hfirst
    cases hfirst
    exact not_declares_of_ret hret decl
  · simp only [Stmt.eventsList, List.append_nil, Stmt.events_of_kind hret,
      Stmt.events_of_kind hstmt', Stmt.events_of_kind hret']
    exact hrecasts

theorem rewrites_packReturn {names : List String} {template : Expr}
    (htemplate : IsTemplate names template) {body body' : Block} {path : StmtPath}
    {next next' : NodeId}
    (h : (packReturn template body path).run next = ((body', true), next')) :
    Rewrites names body body' := by
  rw [packReturn] at h
  split at h
  next =>
    cases h
    exact .refl _
  next previous hprevious =>
    obtain ⟨ret, hstmt, hret⟩ := returnAt?_eq_some hprevious
    obtain ⟨hfree, hnamed⟩ := (htemplate.freshCopy next).mentions
    rw [Fresh.run_bind] at h
    split at h
    next =>
      cases h
      refine rewrites_setReturn hstmt hret ?_
      refine .of_expression (Expr.phraseOption previous) (Expr.phrase _) fun _ => ⟨hfree, ?_⟩
      intro view reference hmem
      obtain ⟨role, huse⟩ := exists_use_of_reference hmem
      exact .inl (hnamed role _ _ huse)
    next value hvalue =>
      dsimp only at h
      split at h
      next inserted hinserted =>
        cases h
        refine rewrites_insertBefore hstmt hret ?_ hinserted
        obtain ⟨rfl, -⟩ := Option.filter_eq_some_iff.1 hvalue
        exact .add value.phrase (Expr.phrase _) hfree hnamed
      next => cases h

theorem rewrites_packReturnsAt {names : List String} {template : Expr}
    (htemplate : IsTemplate names template) (paths : List StmtPath) {body body' : Block}
    {next next' : NodeId}
    (h : (packReturnsAt template body paths).run next = ((body', true), next')) :
    Rewrites names body body' := by
  induction paths generalizing body next with
  | nil =>
    cases h
    exact .refl _
  | cons path rest ih =>
    rw [packReturnsAt, Fresh.run_bind] at h
    split at h
    next middle hmiddle => exact (rewrites_packReturn htemplate (Prod.ext hmiddle rfl)).trans (ih h)
    next => cases h

theorem rewrites_closeBody {named : List String} (body : Block) :
    Rewrites named body (closeBody body) := by
  rw [closeBody]
  split
  · obtain ⟨stmts, endComments, closing⟩ := body
    constructor
    · rw [Block.innerEvents, Block.innerEvents, Stmt.eventsList_append]
      have hnil : Stmt.eventsList [.ofKind (.ret none)] = [] := rfl
      rw [hnil, List.append_nil]
      exact .refl _
    · intro first decl hfirst _
      rw [List.head?_append, hfirst, Option.some_or]
  · exact .refl body

/-- What an assignment to a variable, or to a field of it, says. -/
theorem exists_events_assign (target : Spelled) (value : Expr) :
    ∃ role, (Expr.assign target.toExpr .assign value).events =
      [Event.effect, .use role target.name target.id] ++ value.events := by
  rcases Expr.events_assign target.toExpr .assign value with ⟨id, name, hname, -, h⟩ | h
  · rw [Spelled.toExpr_eq_name_iff] at hname
    exact ⟨.write, by rw [h, hname]; rfl⟩
  · exact ⟨.read, by rw [h, Spelled.events_toExpr, List.cons_append]⟩

theorem recasts_assign (target : Spelled) (value : Expr) :
    Recasts [] [target.name] value.events (Expr.assign target.toExpr .assign value).events := by
  obtain ⟨role, hevents⟩ := exists_events_assign target value
  rw [hevents]
  refine .of_expression value.phrase (Phrase.use.cons_effect.append value.phrase) fun hfree => ?_
  refine ⟨patternFree_append.2 ⟨by simp [PatternFree], hfree⟩, fun view reference hmem => ?_⟩
  rcases List.mem_cons.1 hmem with rfl | hmem
  · exact .inl List.mem_cons_self
  · exact .inr hmem

/-- A value stored in the carrier instead of returned. -/
theorem rewrites_storeReturn {target : Spelled} {body body' : Block} {path : StmtPath}
    {next next' : NodeId}
    (h : (AdviceLocals.storeReturn target.toExpr body path).run next = ((body', true), next')) :
    Rewrites [target.name] body body' := by
  rw [AdviceLocals.storeReturn] at h
  split at h
  next value hvalue =>
    obtain ⟨ret, hstmt, hret⟩ := returnAt?_eq_some hvalue
    rw [Fresh.run_bind, Spelled.run_freshCopy] at h
    dsimp only at h
    split at h
    next inserted hinserted =>
      cases h
      refine rewrites_insertBefore hstmt hret ?_ hinserted
      rw [Expr.eventsOption, Expr.eventsOption, List.append_nil]
      exact recasts_assign ⟨next, target.name, target.fields⟩ value
    next => cases h
  next =>
    cases h
    exact .refl _

theorem rewrites_storeReturnsAt {target : Spelled} (paths : List StmtPath) {body body' : Block}
    {next next' : NodeId}
    (h : (AdviceLocals.storeReturnsAt target.toExpr body paths).run next = ((body', true), next')) :
    Rewrites [target.name] body body' := by
  induction paths generalizing body next with
  | nil =>
    cases h
    exact .refl _
  | cons path rest ih =>
    rw [AdviceLocals.storeReturnsAt, Fresh.run_bind] at h
    split at h
    next middle hmiddle => exact (rewrites_storeReturn (Prod.ext hmiddle rfl)).trans (ih h)
    next => cases h

/-! ### Folding -/

theorem events_of_assignment? {stmt : Stmt} {name : String} {value : Expr}
    (h : assignment? stmt = some (name, value)) :
    ∃ id, stmt.events = [Event.effect, .use .write name id] ++ value.events := by
  rw [assignment?] at h
  split at h
  next id other target hkind =>
    cases h
    exact ⟨id, by rw [Stmt.events_of_kind hkind]; rfl⟩
  next => cases h

/-- Whether the events of an expression contain what is bound and referred to in a value. -/
structure Supplies (events : List Event) (value : Expr) : Prop where
  phrase : Phrase .expression events
  free : PatternFree events → PatternFree value.events
  references : ∀ view, ∀ reference ∈ View.reading.references view value.events,
    reference ∈ View.reading.references view events

theorem supplies_of_assignment? {stmt : Stmt} {name : String} {value : Expr}
    (h : assignment? stmt = some (name, value)) : Supplies stmt.events value := by
  obtain ⟨id, hstmt⟩ := events_of_assignment? h
  rw [hstmt]
  refine ⟨Phrase.use.cons_effect.append value.phrase, fun hfree => ?_, fun view reference hmem => ?_⟩
  · exact (patternFree_append.1 hfree).2
  · exact List.mem_cons_of_mem _ hmem

section Supplies

variable {events : List Event} {value : Expr} (h : Supplies events value)

include h

/-- The item of an array that takes in a value from in front of the array. -/
theorem Supplies.recasts_set (dims : List (Option Expr)) (items : List Expr) (slot : Nat) :
    Recasts [] [] (events ++ ((.effect :: Expr.eventsDims dims) ++ Expr.eventsList items))
      ((.effect :: Expr.eventsDims dims) ++ Expr.eventsList (items.set slot value)) := by
  have hdims : Phrase .expression (.effect :: Expr.eventsDims dims) :=
    (Expr.phraseDims dims).cons_effect
  refine .of_expression (h.phrase.append (hdims.append (Expr.phraseList _)))
    (hdims.append (Expr.phraseList _)) fun hfree => ?_
  rw [patternFree_append, patternFree_append] at hfree
  obtain ⟨hfreeEvents, hfreeDims, hfreeItems⟩ := hfree
  have hfreeSet : PatternFree (Expr.eventsList (items.set slot value)) := by
    rw [patternFree_eventsList] at hfreeItems ⊢
    intro item hitem
    rcases List.mem_or_eq_of_mem_set hitem with hitem | rfl
    · exact hfreeItems item hitem
    · exact h.free hfreeEvents
  refine ⟨patternFree_append.2 ⟨hfreeDims, hfreeSet⟩, fun view reference hmem => .inr ?_⟩
  rw [hdims.references_append hfreeDims, references_eventsList hfreeSet, List.mem_append,
    List.mem_flatMap] at hmem
  rw [h.phrase.references_append hfreeEvents, hdims.references_append hfreeDims,
    references_eventsList hfreeItems, List.mem_append, List.mem_append, List.mem_flatMap]
  rcases hmem with hmem | ⟨item, hitem, hmem⟩
  · exact .inr (.inl hmem)
  · rcases List.mem_or_eq_of_mem_set hitem with hitem | rfl
    · exact .inr (.inr ⟨item, hitem, hmem⟩)
    · exact .inl (h.references view reference hmem)

/-- A value that takes the place of an expression after it. -/
theorem Supplies.recasts_instead (old : Expr) :
    Recasts [] [] (events ++ old.events) value.events := by
  refine .of_expression (h.phrase.append old.phrase) value.phrase fun hfree => ?_
  have hfree := (patternFree_append.1 hfree).1
  refine ⟨h.free hfree, fun view reference hmem => .inr ?_⟩
  rw [h.phrase.references_append hfree]
  exact List.mem_append_left _ (h.references view reference hmem)

end Supplies

/-- A slot that takes in the value of an assignment right in front. -/
theorem recasts_withSlot {stmt : Stmt} {name : String} {value : Expr}
    (hassigns : assignment? stmt = some (name, value)) (packed : Bool) (slot : Nat) (ret : Stmt) :
    Recasts [] [] (stmt.events ++ ret.events) (withSlot packed slot value ret).events := by
  have hsupplies := supplies_of_assignment? hassigns
  unfold withSlot
  split
  next element dims items hret =>
    rw [Stmt.events_of_kind hret]
    exact hsupplies.recasts_set dims items slot
  next old hret =>
    rw [Stmt.events_of_kind hret]
    exact hsupplies.recasts_instead old
  next => exact @Recasts.within _ _ _ _ (.drop hsupplies.phrase) [] ret.events

/-- Assignments moved into the `return` after them. -/
theorem recasts_foldInto (packed : Bool) (before : List Stmt) (pending : List String) (ret : Stmt) :
    ∃ moved, before.reverse = (foldInto packed before pending ret).1.reverse ++ moved ∧
      (∀ stmt ∈ moved, (assignment? stmt).isSome) ∧
      (moved = [] → (foldInto packed before pending ret).2.1 = ret) ∧
      Recasts [] [] (Stmt.eventsList moved ++ ret.events)
        (foldInto packed before pending ret).2.1.events := by
  induction before generalizing pending ret with
  | nil => exact ⟨[], rfl, List.forall_mem_nil _, fun _ => rfl, .refl _⟩
  | cons stmt before ih =>
    rw [foldInto]
    split
    next => exact ⟨[], (List.append_nil _).symm, List.forall_mem_nil _, fun _ => rfl, .refl _⟩
    next fold hfold =>
      obtain ⟨moved, hbefore, hmoved, -, hrecasts⟩ :=
        ih (pending.filter (· != fold.name)) (absorb packed fold stmt ret)
      have hassigns := (canMove_of_foldable? hfold).assigns
      refine ⟨moved ++ [stmt], ?_, ?_, fun hnil => absurd hnil (by simp), ?_⟩
      · rw [List.reverse_cons, hbefore, List.append_assoc]
      · intro other hother
        rcases List.mem_append.1 hother with hother | hother
        · exact hmoved other hother
        · rw [List.mem_singleton.1 hother, hassigns]
          rfl
      · have habsorb : (absorb packed fold stmt ret).events =
            (withSlot packed fold.slot fold.value ret).events := Stmt.events_congr rfl
        rw [habsorb] at hrecasts
        have hslot := @Recasts.within _ _ _ _ (recasts_withSlot hassigns packed fold.slot ret)
          (Stmt.eventsList moved) []
        rw [List.append_nil, List.append_nil] at hslot
        rw [Stmt.eventsList_append, List.append_assoc, Stmt.eventsList, Stmt.eventsList,
          List.append_nil]
        exact hslot.trans hrecasts

theorem rewrites_foldBlock (names : List String) (block : Block) (index : Nat) :
    Rewrites [] block (foldBlock names block index).1 := by
  rw [foldBlock]
  split
  next => exact .refl block
  next ret hret =>
    obtain ⟨stmts, endComments, closing⟩ := block
    obtain ⟨front, back, rfl, rfl⟩ := Focus.exists_split_of_getElem? hret
    obtain ⟨moved, hfront, hmoved, hsame, hrecasts⟩ :=
      recasts_foldInto (1 < names.length) front.reverse names ret
    rw [List.reverse_reverse] at hfront
    have htake : (front ++ ret :: back).take front.length = front := List.take_left
    have hdrop : (front ++ ret :: back).drop (front.length + 1) = back := by simp
    simp only [htake, hdrop]
    generalize foldInto (1 < names.length) front.reverse names ret = folded at *
    obtain ⟨kept, ret', count⟩ := folded
    dsimp only at *
    subst hfront
    cases moved with
    | nil =>
      rw [hsame rfl, List.append_nil]
      exact .refl _
    | cons first rest =>
      have hreplaced := @Rewrites.replace [] kept.reverse back (first :: rest ++ [ret]) [ret']
        endComments closing (List.cons_ne_nil _ _) ?_ ?_
      · simpa using hreplaced
      · intro stmt decl hfirst hdecl
        cases hfirst
        obtain ⟨assigned, hassigned⟩ := kind_of_assignment? (hmoved first List.mem_cons_self)
        rw [hassigned] at hdecl
        cases hdecl
      · have hsingle : ∀ stmt, Stmt.eventsList [stmt] = stmt.events := fun _ => List.append_nil _
        rw [Stmt.eventsList_append, hsingle, hsingle]
        exact hrecasts

theorem rewrites_foldAt (names : List String) (body : Block) (path : StmtPath) :
    Rewrites [] body (foldAt names body path).1 := by
  rw [foldAt]
  split
  next => exact .refl body
  next blockPath index hindex =>
    split
    next => exact .refl body
    next block hblock =>
      obtain ⟨body', hbody'⟩ := @Block.exists_updateBlock? body _ _ blockPath
        (fun _ => some (foldBlock names block index).1) hblock rfl
      dsimp only
      rw [hbody', Option.getD_some]
      exact .updateBlock hblock hbody' rfl (rewrites_foldBlock names block index)

theorem rewrites_foldAll (names : List String) (paths : List StmtPath) (body : Block) :
    Rewrites [] body (foldAll names body paths).1 := by
  induction paths generalizing body with
  | nil => exact .refl body
  | cons path rest ih => exact (rewrites_foldAt names body path).trans (ih _)

end AdviceMigration.Advice
