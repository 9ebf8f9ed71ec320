import AdviceMigration.Proofs.Advice.FoldOutcome
import AdviceMigration.Proofs.Advice.PackedBody

/-!
# Literals in packed slots

An assignment converts a literal to the type of its variable, and the variable is then boxed by its own type. A literal that folding puts into a slot of an array is boxed by the type of the literal. The two agree unless the assignment that moved there converted the literal: each slot holds its variable, to which no moved assignment is, or the value of the one moved assignment to the variable.
-/

namespace AdviceMigration.Source

/-- The type of a literal, if that is a primitive type. -/
def LiteralKind.primitive? : LiteralKind → Option PrimitiveType
  | .int => some .int
  | .long => some .long
  | .float => some .float
  | .double => some .double
  | .char => some .char
  | .bool => some .boolean
  | .string => none
  | .textBlock => none
  | .null => none

end AdviceMigration.Source

namespace AdviceMigration.Advice

open AdviceMigration.Source AdviceMigration.Scope

/-- Whether an expression is a literal of a primitive type other than the given one, to which an assignment converts it. -/
def converts (type : TypeRef) (expr : Expr) : Bool :=
  match type, expr with
  | .primitive declared, .literal literal => literal.kind.primitive?.any (· != declared)
  | _, _ => false

theorem converts_of_name? {type : TypeRef} {expr : Expr} {name : String}
    (h : expr.name? = some name) : converts type expr = false := by
  obtain ⟨id, rfl⟩ := name?_eq_some_iff.1 h
  cases type <;> rfl

/-! ### What a slot holds -/

/-- The variables of plain assignments. -/
def assignees (stmts : List Stmt) : List String := (assignments stmts).map Prod.fst

/-- What a slot holds while assignments to `pending` can still move: its variable, to which none has moved, or the value that has moved, which is no pending variable. -/
def Holds (pending : List String) (moved : List Stmt) (name : String) (item : Expr) : Prop :=
  item.name? = some name ∧ name ∉ assignees moved ∨
    (name, item) ∈ assignments moved ∧ ∀ other ∈ pending, item.name? ≠ some other

section Step

variable {pending names : List String} {moved : List Stmt} {stmt : Stmt} {fold : Fold}

theorem assignments_cons (hassigns : assignment? stmt = some (fold.name, fold.value)) :
    assignments (stmt :: moved) = (fold.name, fold.value) :: assignments moved := by
  simp [assignments, hassigns]

/-- A slot that does not read the variable that is assigned stays as it is. -/
theorem Holds.keep {name : String} {item : Expr} (h : Holds pending moved name item)
    (hassigns : assignment? stmt = some (fold.name, fold.value))
    (hitem : item.name? ≠ some fold.name) :
    Holds (pending.filter (· != fold.name)) (stmt :: moved) name item := by
  rcases h with ⟨hname, hnot⟩ | ⟨hvalue, hother⟩
  · refine .inl ⟨hname, ?_⟩
    rw [assignees, assignments_cons hassigns, List.map_cons, List.mem_cons, not_or]
    refine ⟨?_, hnot⟩
    rintro rfl
    exact hitem hname
  · refine .inr ⟨?_, fun other hmem => hother other (List.mem_of_mem_filter hmem)⟩
    rw [assignments_cons hassigns]
    exact List.mem_cons_of_mem _ hvalue

/-- The slot that reads the variable takes its value. -/
theorem Holds.take {name : String} {id : NodeId}
    (h : Holds pending moved name (.name id fold.name)) (hpending : fold.name ∈ pending)
    (hassigns : assignment? stmt = some (fold.name, fold.value))
    (hvalue : mentionsAny (pending.filter (· != fold.name)) fold.value = false) :
    Holds (pending.filter (· != fold.name)) (stmt :: moved) name fold.value := by
  rcases h with ⟨hname, -⟩ | ⟨-, hother⟩
  · cases hname
    refine .inr ⟨?_, fun other hmem => name?_ne_of_mentionsAny (by simp [hvalue]) hmem⟩
    rw [assignments_cons hassigns]
    exact List.mem_cons_self
  · exact absurd rfl (hother fold.name hpending)

end Step

/-- Moving assignments into an array, after those that have moved `earlier`: the invariant of every slot, and no variable is assigned twice. -/
theorem MovesInto.holds {before kept moved : List Stmt} {pending : List String} {ret ret' : Stmt}
    (h : MovesInto true before pending ret kept moved ret') {names : List String}
    {earlier : List Stmt} {items : List Expr} {element : TypeRef} {dims : List (Option Expr)}
    (hret : ret.kind = .ret (some (.newArray element dims (some items))))
    (hitems : List.Forall₂ (Holds pending earlier) names items)
    (hnodup : (assignees earlier).Nodup) (hpending : ∀ name ∈ assignees earlier, name ∉ pending) :
    ∃ items', ret'.kind = .ret (some (.newArray element dims (some items'))) ∧
      List.Forall₂ (fun name item => item.name? = some name ∧ name ∉ assignees (moved ++ earlier) ∨
        (name, item) ∈ assignments (moved ++ earlier)) names items' ∧
      (assignees (moved ++ earlier)).Nodup := by
  induction h generalizing earlier items with
  | stop => exact ⟨items, hret, hitems.imp fun _ _ h => h.imp_right And.left, hnodup⟩
  | @move stmt _ _ moved pending ret _ fold hfold _ ih =>
    obtain ⟨hassigns, hname, hslot, hvalue, -⟩ := foldable?_eq_some hfold
    have hslots : slots true ret = items := by simp [slots, hret]
    rw [hslots] at hslot
    obtain ⟨left, id, right, rfl, hlength, hothers⟩ := onlySlot?_eq_some hslot
    obtain ⟨hleft, hright⟩ := List.forall_mem_append.1 hothers
    obtain ⟨namesLeft, name, namesRight, rfl, hitemsLeft, hitem, hitemsRight⟩ :=
      forall₂_split hitems.flip
    have hkeep : ∀ {others : List Expr} {names : List String},
        (∀ other ∈ others, other.name? ≠ some fold.name) →
        List.Forall₂ (flip (Holds pending earlier)) others names →
        List.Forall₂ (flip (Holds (pending.filter (· != fold.name)) (stmt :: earlier))) others
          names := fun hne hitems => ((List.forall₂_and_left _ _).2 ⟨hne, hitems⟩).imp
      fun _ _ hboth => Holds.keep hboth.2 hassigns hboth.1
    have hnext := List.rel_append (hkeep hleft hitemsLeft)
      (.cons (Holds.take hitem hname hassigns hvalue) (hkeep hright hitemsRight))
    rw [List.append_assoc, List.singleton_append]
    refine ih ?_ hnext.flip ?_ ?_
    · simp [withSlot, hret, ← hlength]
    · rw [assignees, assignments_cons hassigns, List.map_cons, List.nodup_cons]
      exact ⟨fun hmem => hpending _ hmem hname, hnodup⟩
    · intro other hmem hfilter
      rw [assignees, assignments_cons hassigns, List.map_cons, List.mem_cons] at hmem
      rcases hmem with rfl | hmem
      · simp at hfilter
      · exact hpending other hmem (List.mem_of_mem_filter hfilter)

/-! ### Every return -/

/-- A `return` of an array before and after folding: a slot has a literal of another type than its value exactly if an assignment that moved there converts one. -/
def SlotsConvert (values : List ValueToReturn) (site site' : ReturnSite) : Prop :=
  ∃ kept moved items, site.before = kept ++ moved ∧
    foldInto true site.before.reverse (values.map (·.name)) site.ret =
      (kept.reverse, site'.ret, moved.length) ∧
    site'.ret.kind = .ret (some (.newArray objectType [none] (some items))) ∧
    List.Forall₂ (fun value item => converts value.type item = true ↔
      ∃ assigned, (value.name, assigned) ∈ assignments moved ∧
        converts value.type assigned = true) values items

theorem Gives.exists_items {fills : String → Expr → Prop} {names : List String} {ret : Stmt}
    (h : Gives fills names ret) (hlength : 1 < names.length) :
    ∃ items, ret.kind = .ret (some (.newArray objectType [none] (some items))) ∧
      List.Forall₂ fills names items := by
  cases h with
  | single => exact absurd hlength (Nat.lt_irrefl 1)
  | array hret hitems _ => exact ⟨_, hret, hitems⟩

theorem converts_iff_of_slot {moved : List Stmt} {name : String} {item : Expr}
    (h : item.name? = some name ∧ name ∉ assignees moved ∨ (name, item) ∈ assignments moved)
    (hnodup : (assignees moved).Nodup) (type : TypeRef) :
    converts type item = true ↔
      ∃ value, (name, value) ∈ assignments moved ∧ converts type value = true := by
  rcases h with ⟨hname, hnot⟩ | hmoved
  · rw [converts_of_name? hname]
    refine ⟨fun h => absurd h Bool.false_ne_true, ?_⟩
    rintro ⟨value, hmem, -⟩
    exact absurd (List.mem_map_of_mem hmem) hnot
  · refine ⟨fun h => ⟨item, hmoved, h⟩, ?_⟩
    rintro ⟨value, hmem, hvalue⟩
    cases List.inj_on_of_nodup_map hnodup hmoved hmem rfl
    exact hvalue

theorem FoldedInto.slotsConvert {values : List ValueToReturn} (hvalues : 1 < values.length)
    {site site' : ReturnSite} (h : FoldedInto (values.map (·.name)) site site')
    (htemplate : GivesTemplate (values.map (·.name)) site.ret) : SlotsConvert values site site' := by
  have hlength : 1 < (values.map (·.name)).length := by rwa [List.length_map]
  obtain ⟨kept, moved, hbefore, hfold, -⟩ := h
  rw [decide_eq_true hlength] at hfold
  have hmoves := MovesInto.of_foldInto hfold (by rw [hbefore, List.reverse_reverse,
    List.reverse_reverse])
  have hnames : values.map (·.name) ≠ [] := List.ne_nil_of_length_pos (by omega)
  obtain ⟨items, hret, hitems⟩ := (Gives.of_template hnames htemplate).exists_items hlength
  have hstart : List.Forall₂ (Holds (values.map (·.name)) []) (values.map (·.name)) items :=
    hitems.imp fun name item hname => .inl ⟨hname, List.not_mem_nil⟩
  obtain ⟨items', hret', hslots, hnodup⟩ := hmoves.holds hret hstart List.nodup_nil
    (List.forall_mem_nil _)
  rw [List.append_nil] at hslots hnodup
  refine ⟨kept, moved, items', hbefore, hfold, hret', ?_⟩
  rw [List.forall₂_map_left_iff] at hslots
  exact hslots.imp fun value item hslot => converts_iff_of_slot hslot hnodup value.type

/-- Packing and folding put a literal of another type than the declared one into a slot exactly where an assignment that moves converts it. -/
theorem slotsConvert_foldReturns {method packed : Method} {values : List ValueToReturn}
    (hvalues : 1 < values.length) {next next' : NodeId}
    (hpack : (packReturns method values).run next = ((packed, .ok ()), next')) :
    ∃ body body', packed.body = some body ∧
      (foldReturns packed (values.map (·.name))).1.body = some body' ∧
      List.Forall₂ (SlotsConvert values) body.sites body'.sites := by
  have hne : values ≠ [] := List.ne_nil_of_length_pos (by omega)
  obtain ⟨body, hbody, htemplate⟩ := givesTemplate_of_packReturns hne hpack
  obtain ⟨body', hbody', hfolded⟩ := foldedInto_foldReturns (values.map (·.name)) hbody
  refine ⟨body, body', hbody, hbody', ?_⟩
  rw [List.forall₂_iff_get] at hfolded ⊢
  exact ⟨hfolded.1, fun index hindex hindex' =>
    (hfolded.2 index hindex hindex').slotsConvert hvalues (htemplate _ (List.get_mem _ _))⟩

/-- A method with the body `if (c) { x = 1L; return; } y = 2; x = 1;`. -/
def wideWrites : Method :=
  let write (id : NodeId) (name : String) (kind : LiteralKind) (text : String) : Stmt :=
    .ofKind (.expr (.assign (.name id name) .assign (.literal ⟨kind, text⟩)))
  ⟨0, .unwritten, [], [], [], some .void, "m",
    [⟨1, [], [], .primitive .long, false, "x"⟩, ⟨2, [], [], .primitive .int, false, "y"⟩], [],
    some (.ofStmts [
      .ofKind (.ifElse (.name 3 "c") (.ofKind (.block (.ofStmts
        [write 4 "x" .long "1L", .ofKind (.ret none)]))) none),
      write 5 "y" .int "2", write 6 "x" .int "1"])⟩

/-- The two parameters as values to return. -/
def wideValues : List ValueToReturn :=
  [⟨1, "x", .primitive .long, some (.argument 0)⟩, ⟨2, "y", .primitive .int, some (.argument 1)⟩]

theorem slotsConvert_foldReturns_wideWrites :
    ∃ packed next body body', (packReturns wideWrites wideValues).run 7 = ((packed, .ok ()), next) ∧
      packed.body = some body ∧ body.sites.length = 2 ∧
      (foldReturns packed ["x", "y"]).1.body = some body' ∧
      List.Forall₂ (SlotsConvert wideValues) body.sites body'.sites := by
  obtain ⟨body, body', hbody, hbody', hsites⟩ :=
    @slotsConvert_foldReturns wideWrites _ wideValues (by decide) 7 _ rfl
  cases hbody
  exact ⟨_, _, _, body', rfl, rfl, rfl, hbody', hsites⟩

/-- An `int` literal in the slot of a `long` value: the assignment in front of the last `return` converted it. -/
theorem foldReturns_int_in_long_slot :
    ∃ packed next body site items, (packReturns wideWrites wideValues).run 7 =
        ((packed, .ok ()), next) ∧
      (foldReturns packed (wideValues.map (·.name))).1.body = some body ∧
      body.sites[1]? = some site ∧
      site.ret.kind = .ret (some (.newArray objectType [none] (some items))) ∧
      items[0]? = some (.literal ⟨.int, "1"⟩) ∧
      (wideValues[0]?.map (·.type)) = some (.primitive .long) ∧
      LiteralKind.int.primitive? ≠ some .long :=
  ⟨_, _, _, _, _, rfl, rfl, rfl, rfl, rfl, rfl, by decide⟩

end AdviceMigration.Advice
