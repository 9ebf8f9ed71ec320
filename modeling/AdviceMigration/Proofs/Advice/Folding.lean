import AdviceMigration.Advice.Folding
import AdviceMigration.Proofs.Advice.Packing
import Mathlib.Data.List.Induction

/-!
# Folded returns

Folding takes the assignments right in front of a `return` away, last first, and puts their values into slots. It never mistakes a value for a variable that is still pending: a value that goes into a slot mentions no pending variable but its own, and its own is pending no longer. So the slot that reads a pending variable is always the slot that the template gave to it.
-/

namespace AdviceMigration.Advice

open AdviceMigration.Source AdviceMigration.Scope

/-- Whether a `return` gives back one item for each name: a single item as it is, others in an array. -/
inductive Gives (fills : String → Expr → Prop) : List String → Stmt → Prop where
  | single {name : String} {item : Expr} {ret : Stmt} (hret : ret.kind = .ret (some item))
      (hitem : fills name item) : Gives fills [name] ret
  | array {names : List String} {items : List Expr} {ret : Stmt}
      (hret : ret.kind = .ret (some (.newArray objectType [none] (some items))))
      (hitems : List.Forall₂ fills names items) (hlength : 1 < names.length) : Gives fills names ret

theorem Gives.mono {fills fills' : String → Expr → Prop} {names : List String} {ret : Stmt}
    (h : Gives fills names ret) (himp : ∀ name item, fills name item → fills' name item) :
    Gives fills' names ret := by
  cases h with
  | single hret hitem => exact .single hret (himp _ _ hitem)
  | array hret hitems hlength => exact .array hret (hitems.imp himp) hlength

theorem Gives.of_template {names : List String} {ret : Stmt} (hnames : names ≠ [])
    (h : GivesTemplate names ret) :
    Gives (fun name item => item.name? = some name) names ret := by
  obtain ⟨expr, hret, htemplate⟩ := h
  cases htemplate with
  | single => exact .single hret rfl
  | @array names items hitems hlength =>
    have hpos : names.length ≠ 0 := mt List.eq_nil_of_length_eq_zero hnames
    refine .array hret ?_ (by omega)
    have hequal : List.Forall₂ (fun item name => item = some name) (items.map Expr.name?) names := by
      rw [hitems, List.forall₂_map_left_iff]
      exact List.forall₂_same.2 fun _ _ => rfl
    exact (List.forall₂_map_left_iff.1 hequal).flip

/-! ### One assignment -/

/-- The variable itself, or the value of an assignment to it that has been moved. -/
def Fills (moved : List Stmt) (name : String) (item : Expr) : Prop :=
  item.name? = some name ∨ ∃ stmt ∈ moved, assignment? stmt = some (name, item)

/-- What a slot holds while assignments to `pending` can still be moved: a value that has been moved is none of these variables. -/
def FillsSoFar (pending : List String) (moved : List Stmt) (name : String) (item : Expr) : Prop :=
  item.name? = some name ∨ (∃ stmt ∈ moved, assignment? stmt = some (name, item)) ∧
    ∀ other ∈ pending, item.name? ≠ some other

theorem FillsSoFar.fills {pending : List String} {moved : List Stmt} {name : String} {item : Expr}
    (h : FillsSoFar pending moved name item) : Fills moved name item :=
  h.imp_right And.left

theorem FillsSoFar.next {pending pending' : List String} {moved moved' : List Stmt} {name : String}
    {item : Expr} (h : FillsSoFar pending moved name item) (hpending : pending' ⊆ pending)
    (hmoved : moved ⊆ moved') : FillsSoFar pending' moved' name item := by
  rcases h with hname | ⟨⟨stmt, hstmt, hvalue⟩, hother⟩
  · exact .inl hname
  · exact .inr ⟨⟨stmt, hmoved hstmt, hvalue⟩, fun other hmem => hother other (hpending hmem)⟩

/-- A slot that reads a pending variable is that variable's slot. -/
theorem FillsSoFar.eq_of_name? {pending : List String} {moved : List Stmt} {name other : String}
    {item : Expr} (h : FillsSoFar pending moved name item) (hitem : item.name? = some other)
    (hother : other ∈ pending) : name = other := by
  rcases h with hname | ⟨-, hnot⟩
  · exact Option.some.inj (hname.symm.trans hitem)
  · exact absurd hitem (hnot other hother)

theorem name?_ne_of_mentionsAny {names : List String} {expr : Expr} (h : ¬ mentionsAny names expr)
    {name : String} (hname : name ∈ names) : expr.name? ≠ some name := by
  intro heq
  obtain ⟨id, rfl⟩ := name?_eq_some_iff.1 heq
  exact h (by simpa [mentionsAny, Expr.events, Event.mentions] using hname)

/-- What it takes to move an assignment. -/
structure CanMove (packed : Bool) (pending : List String) (stmt ret : Stmt) (fold : Fold) : Prop where
  assigns : assignment? stmt = some (fold.name, fold.value)
  waits : fold.name ∈ pending
  slot : ∃ item, (slots packed ret)[fold.slot]? = some item ∧ item.name? = some fold.name
  apart : ∀ other ∈ pending.filter (· != fold.name), fold.value.name? ≠ some other

theorem getElem?_of_findIdx? {α : Type} {test : α → Bool} {items : List α} {index : Nat}
    (h : items.findIdx? test = some index) : ∃ item, items[index]? = some item ∧ test item := by
  obtain ⟨hlt, htest, -⟩ := List.findIdx?_eq_some_iff_getElem.1 h
  exact ⟨items[index], List.getElem?_eq_getElem hlt, htest⟩

/-- What is asked of an assignment before it is moved. -/
theorem foldable?_eq_some {packed : Bool} {pending : List String} {stmt ret : Stmt} {fold : Fold}
    (h : foldable? packed pending stmt ret = some fold) :
    assignment? stmt = some (fold.name, fold.value) ∧ fold.name ∈ pending ∧
      onlySlot? fold.name (slots packed ret) = some fold.slot ∧
      mentionsAny (pending.filter (· != fold.name)) fold.value = false ∧
      ∀ left ∈ (slots packed ret).take fold.slot, conflicts left fold.value = false := by
  rw [foldable?] at h
  split at h
  next => cases h
  next name value hassigns =>
    split at h
    next hpending =>
      dsimp only at h
      split at h
      next => cases h
      next slot hslot =>
        split at h
        next => cases h
        next hmentions =>
          split at h
          next => cases h
          next hconflicts =>
            cases h
            refine ⟨hassigns, List.contains_iff_mem.1 hpending, hslot,
              Bool.eq_false_iff.2 hmentions, ?_⟩
            simpa using hconflicts
    next => cases h

theorem canMove_of_foldable? {packed : Bool} {pending : List String} {stmt ret : Stmt} {fold : Fold}
    (h : foldable? packed pending stmt ret = some fold) : CanMove packed pending stmt ret fold := by
  obtain ⟨hassigns, hpending, hslot, hmentions, -⟩ := foldable?_eq_some h
  rw [onlySlot?] at hslot
  split at hslot
  · obtain ⟨item, hitem, hname⟩ := getElem?_of_findIdx? hslot
    exact ⟨hassigns, hpending, ⟨item, hitem, eq_of_beq hname⟩,
      fun other => name?_ne_of_mentionsAny (Bool.eq_false_iff.1 hmentions)⟩
  · cases hslot

theorem forall₂_set {α β : Type} {R S : α → β → Prop} {left : List α} {right : List β}
    (h : List.Forall₂ R left right) (hkept : ∀ other item, R other item → S other item)
    {index : Nat} {item new : β} (hitem : right[index]? = some item)
    (hnew : ∀ other, R other item → S other new) : List.Forall₂ S left (right.set index new) := by
  induction h generalizing index with
  | nil => exact .nil
  | cons hfirst hrest ih =>
    cases index with
    | zero =>
      cases hitem
      exact .cons (hnew _ hfirst) (hrest.imp hkept)
    | succ index => exact .cons (hkept _ _ hfirst) (ih hitem)

@[simp] theorem kind_absorb (packed : Bool) (fold : Fold) (assignment ret : Stmt) :
    (absorb packed fold assignment ret).kind = (withSlot packed fold.slot fold.value ret).kind :=
  rfl

/-- Moving one assignment keeps every slot its own. -/
theorem Gives.absorb {names pending : List String} {moved : List Stmt} {stmt ret : Stmt} {fold : Fold}
    (h : Gives (FillsSoFar pending moved) names ret)
    (hmove : CanMove (1 < names.length) pending stmt ret fold) :
    Gives (FillsSoFar (pending.filter (· != fold.name)) (stmt :: moved)) names
      (absorb (1 < names.length) fold stmt ret) := by
  obtain ⟨item, hitem, hname⟩ := hmove.slot
  have hkept : ∀ other slot, FillsSoFar pending moved other slot →
      FillsSoFar (pending.filter (· != fold.name)) (stmt :: moved) other slot := fun _ _ hslot =>
    hslot.next (List.filter_subset_self _) (List.subset_cons_self _ _)
  -- The slot that is found belongs to the variable that the assignment is to.
  have hnew : ∀ other, FillsSoFar pending moved other item →
      FillsSoFar (pending.filter (· != fold.name)) (stmt :: moved) other fold.value := by
    intro other hother
    obtain rfl := hother.eq_of_name? hname hmove.waits
    exact .inr ⟨⟨stmt, List.mem_cons_self, hmove.assigns⟩, hmove.apart⟩
  cases h with
  | @single name value ret hret hvalue =>
    have hslots : slots (1 < [name].length) ret = [value] := by simp [slots, hret]
    rw [hslots] at hitem
    obtain ⟨hzero, rfl⟩ : fold.slot = 0 ∧ value = item := by
      cases hslot : fold.slot with
      | zero => simpa [hslot] using hitem
      | succ slot => simp [hslot] at hitem
    exact .single (by simp [withSlot, hret]) (hnew name hvalue)
  | @array names items ret hret hitems hlength =>
    have hslots : slots (1 < names.length) ret = items := by simp [slots, hlength, hret]
    rw [hslots] at hitem
    exact .array (by simp [withSlot, hlength, hret]) (forall₂_set hitems hkept hitem hnew) hlength

/-- How assignments move into a `return`, for as long as that goes on: of the statements in front, last first, `kept` stay and `moved` are gone. -/
inductive MovesInto (packed : Bool) : List Stmt → List String → Stmt → (kept moved : List Stmt) →
    Stmt → Prop where
  | stop (before : List Stmt) (pending : List String) (ret : Stmt) :
    MovesInto packed before pending ret before [] ret
  | move {stmt : Stmt} {before kept moved : List Stmt} {pending : List String} {ret ret' : Stmt}
      {fold : Fold} (hfold : foldable? packed pending stmt ret = some fold)
      (hrest : MovesInto packed before (pending.filter (· != fold.name))
        (absorb packed fold stmt ret) kept moved ret') :
    MovesInto packed (stmt :: before) pending ret kept (moved ++ [stmt]) ret'

theorem movesInto_foldInto (packed : Bool) (before : List Stmt) (pending : List String) (ret : Stmt) :
    ∃ moved, moved.length = (foldInto packed before pending ret).2.2 ∧
      MovesInto packed before pending ret (foldInto packed before pending ret).1 moved
        (foldInto packed before pending ret).2.1 := by
  induction before generalizing pending ret with
  | nil => exact ⟨[], rfl, .stop _ _ _⟩
  | cons stmt before ih =>
    rw [foldInto]
    split
    next => exact ⟨[], rfl, .stop _ _ _⟩
    next fold hfold =>
      obtain ⟨moved, hlength, hmoves⟩ :=
        ih (pending.filter (· != fold.name)) (absorb packed fold stmt ret)
      refine ⟨moved ++ [stmt], ?_, .move hfold hmoves⟩
      rw [List.length_append, hlength, List.length_singleton]

namespace MovesInto

variable {packed : Bool} {before kept moved : List Stmt} {pending : List String} {ret ret' : Stmt}

theorem reverse_eq (h : MovesInto packed before pending ret kept moved ret') :
    before.reverse = kept.reverse ++ moved := by
  induction h with
  | stop => exact (List.append_nil _).symm
  | move _ _ ih => rw [List.reverse_cons, ih, List.append_assoc]

theorem of_foldInto {count : Nat} (hfold : foldInto packed before pending ret = (kept, ret', count))
    (hmoved : before.reverse = kept.reverse ++ moved) :
    MovesInto packed before pending ret kept moved ret' := by
  obtain ⟨moved', -, hmoves⟩ := movesInto_foldInto packed before pending ret
  rw [hfold] at hmoves
  have hsame := hmoves.reverse_eq
  rw [hmoved] at hsame
  cases List.append_cancel_left hsame
  exact hmoves

theorem gives {names : List String} {earlier : List Stmt}
    (h : MovesInto (1 < names.length) before pending ret kept moved ret')
    (hgives : Gives (FillsSoFar pending earlier) names ret) :
    Gives (Fills (moved ++ earlier)) names ret' := by
  induction h generalizing earlier with
  | stop => exact hgives.mono fun _ _ hslot => hslot.fills
  | move hfold _ ih =>
    have hnext := ih (hgives.absorb (canMove_of_foldable? hfold))
    rwa [List.append_assoc]

/-- Only plain assignments to returned variables move. -/
theorem assigns (h : MovesInto packed before pending ret kept moved ret') :
    ∀ stmt ∈ moved, ∃ name value, assignment? stmt = some (name, value) ∧ name ∈ pending := by
  induction h with
  | stop => exact List.forall_mem_nil _
  | @move stmt _ _ _ _ _ _ fold hfold _ ih =>
    obtain ⟨hassigns, hpending, -⟩ := foldable?_eq_some hfold
    rw [List.forall_mem_append, List.forall_mem_singleton]
    refine ⟨fun other hother => ?_, fold.name, fold.value, hassigns, hpending⟩
    obtain ⟨name, value, hother, hname⟩ := ih other hother
    exact ⟨name, value, hother, List.mem_of_mem_filter hname⟩

theorem isReturn (h : MovesInto packed before pending ret kept moved ret') (hret : ret.isReturn) :
    ret'.isReturn := by
  induction h with
  | stop => exact hret
  | @move stmt _ _ _ _ ret _ fold _ _ ih =>
    refine ih ?_
    obtain ⟨value, hkind⟩ := isReturn_iff.1 hret
    refine isReturn_iff.2 ?_
    rw [kind_absorb]
    unfold withSlot
    split
    · exact ⟨_, rfl⟩
    · exact ⟨_, rfl⟩
    · exact ⟨value, hkind⟩

end MovesInto

/-! ### One return -/

/-- The plain assignments among statements. -/
def assignments (stmts : List Stmt) : List (String × Expr) := stmts.filterMap assignment?

@[simp] theorem assignments_append (stmts stmts' : List Stmt) :
    assignments (stmts ++ stmts') = assignments stmts ++ assignments stmts' :=
  List.filterMap_append

theorem kind_of_assignment? {stmt : Stmt} (h : (assignment? stmt).isSome) :
    ∃ expr, stmt.kind = .expr expr := by
  rw [assignment?] at h
  split at h
  next hkind => exact ⟨_, hkind⟩
  next => cases h

theorem hasNoReturn_of_assignment? {stmt : Stmt} (h : (assignment? stmt).isSome) :
    EditSpec.HasNoReturn stmt := by
  obtain ⟨expr, hkind⟩ := kind_of_assignment? h
  have hexpr : EditSpec.HasNoReturn (.ofKind (.expr expr)) := by
    simp [EditSpec.HasNoReturn, Stmt.ofKind]
  exact hexpr.of_kind hkind

theorem assignments_of_returns {stmt : Stmt} (h : stmt.sites [] ≠ []) : assignments [stmt] = [] := by
  cases hassigns : assignment? stmt with
  | none => simp [assignments, hassigns]
  | some _ => exact absurd (hasNoReturn_of_assignment? (by rw [hassigns]; rfl)) h

/-- Only returned variables are assigned by what moves. -/
theorem MovesInto.assigned {packed : Bool} {before kept moved : List Stmt} {pending : List String}
    {ret ret' : Stmt} (h : MovesInto packed before pending ret kept moved ret') :
    ∀ entry ∈ assignments moved, entry.1 ∈ pending := by
  intro entry hentry
  obtain ⟨stmt, hmem, hassigns⟩ := List.mem_filterMap.1 hentry
  obtain ⟨name, value, hassigns', hname⟩ := h.assigns stmt hmem
  cases hassigns.symm.trans hassigns'
  exact hname

/-- What folding makes of one `return`: assignments in front of it have moved into it. -/
def folding (names : List String) : EditSpec where
  site := fun site site' => ∃ moved, site.before = site'.before ++ moved ∧
    foldInto (1 < names.length) site.before.reverse names site.ret =
      (site'.before.reverse, site'.ret, moved.length)
  before := fun stmts stmts' => (assignments stmts').Sublist (assignments stmts)

theorem local_folding (names : List String) : (folding names).Local where
  under := fun _ h => h
  refl := fun _ => .refl _
  swap := by
    intro old new front back hold hnew
    have hparts : ∀ stmt : Stmt, stmt.sites [] ≠ [] →
        assignments (front ++ stmt :: back) = assignments front ++ assignments back := by
      intro stmt hstmt
      rw [List.append_cons, assignments_append, assignments_append, assignments_of_returns hstmt,
        List.append_nil]
    change List.Sublist _ _
    rw [hparts old hold, hparts new hnew]

theorem sites_ne_nil_of_isReturn {stmt : Stmt} (h : stmt.isReturn) : stmt.sites [] ≠ [] := by
  rw [Stmt.sites_of_isReturn h]
  exact List.cons_ne_nil _ _

/-- Folding into a `return` that stands directly in a block, as an edit of the block. -/
theorem updateBlock?_foldAt (names : List String) {body : Block} {path blockPath : StmtPath}
    {index : Nat} (hindex : path.blockIndex? = some (blockPath, index)) {ret : Stmt}
    (hstmt : body.stmtAt? path = some ret) :
    ∃ kept moved back endComments closing ret',
      path = blockPath ++ [Step.stmt (kept ++ moved).length] ∧
      body.blockAt? blockPath = some ⟨kept ++ moved ++ ret :: back, endComments, closing⟩ ∧
      foldInto (1 < names.length) (kept ++ moved).reverse names ret =
        (kept.reverse, ret', moved.length) ∧
      MovesInto (1 < names.length) (kept ++ moved).reverse names ret kept.reverse moved ret' ∧
      body.updateBlock? blockPath (fun _ => some ⟨kept ++ ret' :: back, endComments, closing⟩) =
        some (foldAt names body path).1 := by
  obtain rfl := StmtPath.blockIndex?_eq_some hindex
  obtain ⟨front, back, endComments, closing, rfl, hblock⟩ := Block.blockAt?_of_stmtAt? hstmt
  have hfold : foldAt names body (blockPath ++ [Step.stmt front.length]) =
      ((body.updateBlock? blockPath fun _ => some
        ⟨(foldInto (1 < names.length) front.reverse names ret).1.reverse ++
          (foldInto (1 < names.length) front.reverse names ret).2.1 :: back, endComments,
          closing⟩).getD body, (foldInto (1 < names.length) front.reverse names ret).2.2) := by
    simp [foldAt, hindex, hblock, foldBlock]
  rw [hfold]
  obtain ⟨moved, hlength, hmoves⟩ := movesInto_foldInto (1 < names.length) front.reverse names ret
  rcases hfolded : foldInto (1 < names.length) front.reverse names ret with ⟨kept, ret', count⟩
  rw [hfolded] at hlength hmoves
  dsimp only at *
  have hfront := hmoves.reverse_eq
  rw [List.reverse_reverse] at hfront
  subst hfront hlength
  obtain ⟨body', hbody'⟩ := @Block.exists_updateBlock? body _ _ blockPath
    (fun _ => some ⟨kept.reverse ++ ret' :: back, endComments, closing⟩) hblock rfl
  refine ⟨kept.reverse, moved, back, endComments, closing, ret', rfl, hblock, ?_, ?_, ?_⟩
  · rw [hfolded, List.reverse_reverse]
  · rwa [List.reverse_reverse]
  · rw [hbody', Option.getD_some]

theorem edits_foldAt (names : List String) {body : Block} {path blockPath : StmtPath} {index : Nat}
    (hindex : path.blockIndex? = some (blockPath, index)) {ret : Stmt}
    (hstmt : body.stmtAt? path = some ret) (hret : ret.isReturn) :
    (folding names).Edits path (.block body) (.block (foldAt names body path).1) := by
  obtain ⟨kept, moved, back, endComments, closing, ret', rfl, hblock, hfold, hmoves, hupdate⟩ :=
    updateBlock?_foldAt names hindex hstmt
  have hmoved : ∀ stmt ∈ moved, (assignment? stmt).isSome := by
    intro stmt hmem
    obtain ⟨name, value, hassigns, -⟩ := hmoves.assigns stmt hmem
    rw [hassigns]
    rfl
  have hisReturn : ∀ {stmt : Stmt}, stmt.isReturn → assignments [stmt] = [] := fun h =>
    assignments_of_returns (sites_ne_nil_of_isReturn h)
  have hret' := hmoves.isReturn hret
  refine @EditSpec.edits_updateBlock _ (local_folding names) body _ blockPath _ kept moved [] back
    ret ret' endComments endComments closing closing hblock (by simp)
    (fun stmt hstmt => hasNoReturn_of_assignment? (hmoved stmt hstmt)) (List.forall_mem_nil _)
    hret hret' ?_ ?_ hupdate
  · intro rest
    change List.Sublist _ _
    simp only [assignments_append, hisReturn hret, hisReturn hret', List.append_nil]
    exact (List.sublist_append_left _ _).append_right _
  · refine ⟨moved, by simp, ?_⟩
    rw [List.append_nil]
    exact hfold

/-! ### Every return -/

/-- A `return` before and after folding: `foldInto` has moved assignments right in front of it, which are gone. Assignments further in front may have moved into earlier returns. -/
def FoldedInto (names : List String) (site site' : ReturnSite) : Prop :=
  ∃ kept moved, site.before = kept ++ moved ∧
    foldInto (1 < names.length) site.before.reverse names site.ret =
      (kept.reverse, site'.ret, moved.length) ∧
    (assignments site'.before).Sublist (assignments kept)

/-- A `return` before and after folding: assignments right in front of it are gone, and each item it gives back is its variable or the value of one of them. -/
def Folded (names : List String) (site site' : ReturnSite) : Prop :=
  ∃ kept moved, site.before = kept ++ moved ∧
    (assignments site'.before).Sublist (assignments kept) ∧ Gives (Fills moved) names site'.ret

theorem FoldedInto.folded {names : List String} (hnames : names ≠ []) {site site' : ReturnSite}
    (h : FoldedInto names site site') (htemplate : GivesTemplate names site.ret) :
    Folded names site site' := by
  obtain ⟨kept, moved, hbefore, hfold, hsublist⟩ := h
  have hstart := (Gives.of_template hnames htemplate).mono (fun name item hitem =>
    (show FillsSoFar names [] name item from .inl hitem))
  have hmoves := MovesInto.of_foldInto hfold (by rw [hbefore, List.reverse_reverse,
    List.reverse_reverse])
  have hgives := hmoves.gives hstart
  rw [List.append_nil] at hgives
  exact ⟨kept, moved, hbefore, hsublist, hgives⟩

/-- Folding earlier returns only takes assignments away in front of a later one. -/
theorem FoldedInto.later {names : List String} {sites sites' sites'' : List ReturnSite}
    (h : List.Forall₂ (FoldedInto names) sites sites')
    (hlater : List.Forall₂ (folding names).Later sites' sites'') :
    List.Forall₂ (FoldedInto names) sites sites'' := by
  induction h generalizing sites'' with
  | nil =>
    cases hlater
    exact .nil
  | cons hfirst _ ih =>
    cases hlater with
    | cons hnext hrest =>
      obtain ⟨kept, moved, hbefore, hfold, hsublist⟩ := hfirst
      obtain ⟨hret, hassignments⟩ := hnext
      exact .cons ⟨kept, moved, hbefore, hret ▸ hfold, hassignments.trans hsublist⟩ (ih hrest)

theorem sites_foldAt (names : List String) {body : Block} {waiting done done' : List ReturnSite}
    {site : ReturnSite} (hsites : body.sites = waiting ++ site :: done')
    (hdone : List.Forall₂ (FoldedInto names) done done') :
    ∃ after, (foldAt names body site.path).1.sites = waiting ++ after ∧
      List.Forall₂ (FoldedInto names) (site :: done) after := by
  have hsite : site ∈ body.sites := by
    rw [hsites]
    simp
  obtain ⟨hstmt, hret⟩ := stmtAt?_of_site hsite
  cases hindex : site.path.blockIndex? with
  | none =>
    -- A branch without braces has no statements in front of it.
    have hsame : (foldAt names body site.path).1 = body := by rw [foldAt, hindex]
    have hbefore : site.before = [] := body.sites_placed site hsite hindex
    refine ⟨site :: done', by rw [hsame, hsites], .cons ⟨[], [], hbefore, ?_, ?_⟩ hdone⟩
    · rw [hbefore]
      rfl
    · rw [hbefore]
  | some place =>
    obtain ⟨site', later, hsites', ⟨moved, hbefore, hfold⟩, hlater⟩ :=
      (edits_foldAt names hindex hstmt hret).last hsites
    exact ⟨site' :: later, hsites', .cons ⟨_, moved, hbefore, hfold, .refl _⟩
      (FoldedInto.later hdone hlater)⟩

/-- Folding all returns that are waiting, last first. -/
theorem sites_foldAll (names : List String) (waiting : List ReturnSite) {body : Block}
    {done done' : List ReturnSite} (hsites : body.sites = waiting ++ done')
    (hdone : List.Forall₂ (FoldedInto names) done done') :
    List.Forall₂ (FoldedInto names) (waiting ++ done)
      (foldAll names body (waiting.map (·.path)).reverse).1.sites := by
  induction waiting using List.reverseRecOn generalizing body done done' with
  | nil =>
    change List.Forall₂ _ _ body.sites
    rw [hsites]
    exact hdone
  | append_singleton waiting site ih =>
    rw [List.append_assoc, List.singleton_append] at hsites
    rw [List.map_append, List.map_singleton, List.reverse_append, List.reverse_singleton,
      List.singleton_append, foldAll, List.append_assoc, List.singleton_append]
    obtain ⟨after, hafter, hfolded⟩ := sites_foldAt names hsites hdone
    exact ih hafter hfolded

/-- Folding the returns of a method folds each of them as it stands. -/
theorem foldedInto_foldReturns (names : List String) {method : Method} {body : Block}
    (hbody : method.body = some body) :
    ∃ body', (foldReturns method names).1.body = some body' ∧
      List.Forall₂ (FoldedInto names) body.sites body'.sites := by
  refine ⟨(foldAll names body body.returnPaths.reverse).1, by rw [foldReturns, hbody], ?_⟩
  rw [Block.returnPaths_eq]
  have hfolded := sites_foldAll names body.sites (List.append_nil _).symm .nil
  rwa [List.append_nil] at hfolded

end AdviceMigration.Advice
