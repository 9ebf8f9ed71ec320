import AdviceMigration.Proofs.Advice.Classes
import AdviceMigration.Proofs.Source.Characters
import AdviceMigration.Proofs.Source.RoundTrip

/-!
# Migrating twice

A migrated unit has nothing left to migrate. Every class of it is settled, in whatever scope the imports and container classes that the first migration added leave it; so a second migration comes back with the same unit, or with an error if an added import made a parameter stand for what it did not stand for before.

There is one exception, which the theorems exclude: a class that counts as migrated only because of an annotation named after the container class loses this annotation's meaning when the migration nests a container class around it.

This is so of units. The text of a migrated unit need not be read again at all: an enum without constants that has members is printed without the semicolon in front of them.
-/

namespace AdviceMigration.Advice

open AdviceMigration.Source AdviceMigration.Scope

/-! ### Steps that change nothing -/

/-- Whether a step answers a value and leaves every session as it is. If it is not `safe` it may also fail. -/
def Keeps {α : Type} (safe : Prop) (step : Migrating α) (value : α) : Prop :=
  ∀ session, (∀ result, step.run session = .ok result → result = (value, session)) ∧
    (safe → step.run session = .ok (value, session))

namespace Keeps

variable {α β : Type} {safe : Prop}

theorem pure (value : α) : Keeps safe (pure value) value := by
  intro session
  refine ⟨fun result hrun => ?_, fun _ => rfl⟩
  obtain ⟨rfl, rfl⟩ := Migrating.run_pure.1 hrun
  rfl

theorem bind {step : Migrating α} {next : α → Migrating β} {value : α} {result : β}
    (h : Keeps safe step value) (hnext : Keeps safe (next value) result) :
    Keeps safe (step >>= next) result := by
  intro session
  constructor
  · rintro ⟨outcome, session'⟩ hrun
    obtain ⟨first, middle, hfirst, hrun⟩ := Migrating.run_bind.1 hrun
    cases (h session).1 _ hfirst
    exact (hnext session).1 _ hrun
  · intro hsafe
    exact Migrating.run_bind.2 ⟨value, session, (h session).2 hsafe, (hnext session).2 hsafe⟩

end Keeps

theorem keeps_migrateClass {safe : Prop} {scope : TypeScope} {decl : TypeDecl}
    (h : Settled safe scope decl) : Keeps safe (migrateClass scope decl) decl := by
  have hkeeps : ∀ plan, Plan.create decl scope = .ok plan →
      Keeps safe (migrateClass scope decl) decl := by
    intro plan hplan
    have hcreate : Keeps safe (liftM (Plan.create decl scope) : Migrating (Option Plan)) plan := by
      rw [hplan]
      exact .pure plan
    refine hcreate.bind ?_
    cases plan with
    | none => exact .pure decl
    | some plan =>
      have htransform : Keeps safe (plan.transform? decl) none := by
        rw [Plan.transform?, h.1 plan hplan]
        exact .pure none
      exact htransform.bind (.pure decl)
  intro session
  constructor
  · rintro ⟨outcome, session'⟩ hrun
    have hplan : ∃ plan, Plan.create decl scope = .ok plan := by
      obtain ⟨plan, middle, hplan, -⟩ := Migrating.run_bind.1 hrun
      exact ⟨plan, (Migrating.run_liftM.1 hplan).1⟩
    obtain ⟨plan, hplan⟩ := hplan
    exact (hkeeps plan hplan session).1 _ hrun
  · intro hsafe
    obtain ⟨plan, hplan⟩ := h.2 hsafe
    exact (hkeeps plan hplan session).2 hsafe

/-! ### Classes -/

/-- What a migration did to a part of a unit: which imports it may have added, and that nothing changed if no class was reported. -/
structure Progress {α : Type} (session session' : Session) (value value' : α) : Prop where
  imports : ∀ path ∈ session'.imports, path ∈ session.imports ∨ path ∈ Framework.addedImports
  classes : session.classes.length ≤ session'.classes.length
  unchanged : session'.classes.length = session.classes.length → value' = value

theorem Progress.refl {α : Type} (session : Session) (value : α) :
    Progress session session value value :=
  ⟨fun _ => .inl, Nat.le_refl _, fun _ => rfl⟩

/-- Two parts migrated one after the other, as parts of a whole. -/
theorem Progress.map₂ {α β γ : Type} {session middle session' : Session} {a a' : α} {b b' : β}
    (f : α → β → γ) (h : Progress session middle a a') (h' : Progress middle session' b b') :
    Progress session session' (f a b) (f a' b') where
  imports := fun path hpath => (h'.imports path hpath).elim (h.imports path) .inr
  classes := Nat.le_trans h.classes h'.classes
  unchanged := by
    intro heq
    have hmiddle : middle.classes.length = session.classes.length :=
      Nat.le_antisymm (heq ▸ h'.classes) h.classes
    rw [h.unchanged hmiddle, h'.unchanged (heq.trans hmiddle.symm)]

/-- Whether a class is settled wherever a migration may leave the scope it stands in. -/
def Lasting (scope : TypeScope) (decl : TypeDecl) : Prop :=
  ∀ added scope', Migrated added scope scope' →
    Settled (Framework.enterValue ∉ added) scope' decl

theorem migrateClass_spec {scope : TypeScope} {decl decl' : TypeDecl} {session session' : Session}
    (hwf : scope.WellFormed) (hdistinct : DistinctMethods decl.methods)
    (hclear : ∀ method ∈ decl.methods, ClearOfContainer scope method)
    (h : (migrateClass scope decl).run session = .ok (decl', session')) :
    Extends decl decl' ∧ Lasting scope decl' ∧ Progress session session' decl decl' := by
  rcases run_migrateClass h with ⟨hplan, rfl, rfl⟩ |
    ⟨plan, result, middle, hplan, htransform, hresult⟩
  · refine ⟨.refl _, fun added scope' hmigrated => ?_, .refl _ _⟩
    exact .of_none (create_of_none hmigrated hplan rfl rfl hclear)
  · have hreads := (Plan.creates_of_create hplan).reads hdistinct.1 hwf hdistinct.2
    obtain ⟨hextends, hmethods, hadvances⟩ := transform?_spec hreads hdistinct htransform
    have hlasting : Lasting scope (result.getD decl) := fun added scope' hmigrated =>
      settled_of_carried hmigrated hreads hextends.kind hmethods
    rcases hresult with ⟨-, rfl, rfl, rfl, rfl⟩ | ⟨-, rfl, rfl⟩
    · exact ⟨hextends, hlasting, .refl _ _⟩
    · refine ⟨hextends, hlasting, hadvances.imports, ?_, fun heq => ?_⟩
      · simp [hadvances.classes]
      · simp [hadvances.classes] at heq

/-! ### Types -/

theorem keeps_migrateMembers {safe : Prop} {scope : TypeScope} {members : List Member}
    (h : ∀ inner ∈ typesAmong members, Keeps safe (migrateType scope inner) inner) :
    Keeps safe (migrateMembers scope members) members := by
  induction members with
  | nil => exact .pure []
  | cons member rest ih =>
    cases member with
    | type decl =>
      rw [typesAmong, List.forall_mem_cons] at h
      rw [migrateMembers]
      exact h.1.bind ((ih h.2).bind (.pure _))
    | field decl =>
      rw [migrateMembers]
      exact (ih h).bind (.pure _)
    | method decl =>
      rw [migrateMembers]
      exact (ih h).bind (.pure _)
    | initializer decl =>
      rw [migrateMembers]
      exact (ih h).bind (.pure _)

/-- Whether a type is settled and so are the types nested in it, each in the scope it stands in. -/
inductive AtRest (safe : Prop) : TypeScope → TypeDecl → Prop where
  | intro {outer : TypeScope} {decl : TypeDecl} :
    Settled safe (outer.nested decl) decl →
    (∀ inner ∈ typesAmong decl.members, AtRest safe (outer.nested decl) inner) →
    AtRest safe outer decl

/-- A migration keeps a type at rest. -/
theorem AtRest.keeps {safe : Prop} {outer : TypeScope} {decl : TypeDecl}
    (h : AtRest safe outer decl) : Keeps safe (migrateType outer decl) decl := by
  induction h with
  | @intro outer decl hsettled _ ih =>
    rw [migrateType_eq]
    cases decl
    exact (keeps_migrateMembers ih).bind (keeps_migrateClass hsettled)

theorem settled_of_no_methods {safe : Prop} {scope : TypeScope} {decl : TypeDecl}
    (h : decl.methods = []) : Settled safe scope decl := by
  have hfind : ∀ marker shortName,
      AdviceMethod.find? decl scope marker shortName = .ok none := by
    intro marker shortName
    rw [AdviceMethod.find?, AdviceMethod.marked, h]
    rfl
  have hnone : Plan.create decl scope = .ok none := by
    by_cases hkind : decl.kind = .class
    · rw [Plan.create_eq hkind (hfind _ _) (hfind _ _)]
      rfl
    · rw [Plan.create, if_pos (by simpa using hkind)]
  exact .of_none hnone

theorem atRest_container {safe : Prop} {outer : TypeScope} {decl : TypeDecl}
    (h : IsContainer decl) : AtRest safe outer decl := by
  refine .intro (settled_of_no_methods ?_) fun inner hinner => ?_
  · rw [TypeDecl.methods_eq, List.eq_nil_iff_forall_not_mem]
    intro method hmethod
    obtain ⟨field, heq⟩ := h.members _ (mem_methodsAmong.1 hmethod)
    cases heq
  · obtain ⟨field, heq⟩ := h.members _ (mem_typesAmong.1 hinner)
    cases heq

/-! ### Trees -/

mutual
/-- Whether no method in a type or in a type nested in it counts as migrated through an annotation that starts with the name of the container class. -/
def Clear (outer : TypeScope) : TypeDecl → Prop
  | ⟨id, layout, annotations, modifiers, kind, name, typeParams, superTypes, interfaces, constants,
      members, endComments, closing⟩ =>
    let scope := outer.nested ⟨id, layout, annotations, modifiers, kind, name, typeParams,
      superTypes, interfaces, constants, members, endComments, closing⟩
    (∀ method ∈ methodsAmong members, ClearOfContainer scope method) ∧ ClearMembers scope members

/-- Whether this holds of the types among members. -/
def ClearMembers (scope : TypeScope) : List Member → Prop
  | [] => True
  | .type decl :: rest => Clear scope decl ∧ ClearMembers scope rest
  | .field _ :: rest => ClearMembers scope rest
  | .method _ :: rest => ClearMembers scope rest
  | .initializer _ :: rest => ClearMembers scope rest
end

theorem clear_iff {outer : TypeScope} {decl : TypeDecl} : Clear outer decl ↔
    (∀ method ∈ decl.methods, ClearOfContainer (outer.nested decl) method) ∧
      ClearMembers (outer.nested decl) decl.members := by
  rw [TypeDecl.methods_eq]
  cases decl
  rw [Clear]

theorem ClearMembers.of_other {scope : TypeScope} {member : Member} {rest : List Member}
    (hmember : ∀ decl, member ≠ .type decl) (h : ClearMembers scope (member :: rest)) :
    ClearMembers scope rest := by
  cases member with
  | type decl => exact absurd rfl (hmember decl)
  | field decl => exact h
  | method decl => exact h
  | initializer decl => exact h

instance (scope : TypeScope) (method : Method) : Decidable (ClearOfContainer scope method) :=
  decidable_of_iff (∀ annot ∈ method.annotations,
    TypeScope.headSegment annot.name = containerClass →
      (scope.resolve? annot.name).all fun qualified => !Framework.isAssignReturned qualified)
    (by simp [ClearOfContainer, Option.all_eq_true])

mutual
instance Clear.decidable (outer : TypeScope) : (decl : TypeDecl) → Decidable (Clear outer decl)
  | ⟨id, layout, annotations, modifiers, kind, name, typeParams, superTypes, interfaces, constants,
      members, endComments, closing⟩ =>
    have := ClearMembers.decidable (outer.nested ⟨id, layout, annotations, modifiers, kind, name,
      typeParams, superTypes, interfaces, constants, members, endComments, closing⟩) members
    inferInstanceAs (Decidable (_ ∧ _))

instance ClearMembers.decidable (scope : TypeScope) :
    (members : List Member) → Decidable (ClearMembers scope members)
  | [] => inferInstanceAs (Decidable True)
  | .type decl :: rest =>
    have := Clear.decidable scope decl
    have := ClearMembers.decidable scope rest
    inferInstanceAs (Decidable (_ ∧ _))
  | .field _ :: rest => ClearMembers.decidable scope rest
  | .method _ :: rest => ClearMembers.decidable scope rest
  | .initializer _ :: rest => ClearMembers.decidable scope rest
end

/-- What a migration makes of a type: nothing is left to migrate in it wherever it stands. -/
structure Finished (outer : TypeScope) (session session' : Session) (decl decl' : TypeDecl) :
    Prop where
  name : decl'.name = decl.name
  atRest : ∀ added outer', Migrated added outer outer' →
    AtRest (Framework.enterValue ∉ added) outer' decl'
  progress : Progress session session' decl decl'

/-- What a migration makes of the members of a type before it turns to the type itself. -/
structure FinishedMembers (scope : TypeScope) (session session' : Session)
    (members members' : List Member) : Prop where
  methods : methodsAmong members' = methodsAmong members
  names : (typesAmong members').map (·.name) = (typesAmong members).map (·.name)
  atRest : ∀ inner ∈ typesAmong members', ∀ added scope', Migrated added scope scope' →
    AtRest (Framework.enterValue ∉ added) scope' inner
  progress : Progress session session' members members'

theorem Migrated.nested {added : List String} {outer outer' : TypeScope}
    (h : Migrated added outer outer') {decl decl' : TypeDecl} (hname : decl'.name = decl.name)
    (hmembers : ∀ name, name ≠ containerClass → (decl'.memberTypes.map (·.name)).contains name =
      (decl.memberTypes.map (·.name)).contains name) :
    Migrated added (outer.nested decl) (outer'.nested decl') where
  wellFormed := h.wellFormed.nested decl
  wellFormed' := h.wellFormed'.nested decl'
  index := h.index
  imports := h.imports
  grows := h.grows.nested hname hmembers

/-- A type is finished once its members and then the type itself have been migrated. -/
theorem finished_of_members {outer : TypeScope} (hwf : outer.WellFormed) {decl decl' : TypeDecl}
    {members : List Member} {session middle session' : Session} (hdistinct : Distinct decl.mentions)
    (hclear : ∀ method ∈ decl.methods, ClearOfContainer (outer.nested decl) method)
    (hmembers : FinishedMembers (outer.nested decl) session middle decl.members members)
    (h : (migrateClass (outer.nested decl) { decl with members := members }).run middle =
      .ok (decl', session')) :
    Finished outer session session' decl decl' := by
  have hmethods : ({ decl with members := members } : TypeDecl).methods = decl.methods := by
    rw [TypeDecl.methods_eq, TypeDecl.methods_eq]
    exact hmembers.methods
  have hdistinctMethods : DistinctMethods decl.methods := .of_distinct hdistinct
  obtain ⟨hextends, hlasting, hprogress⟩ := migrateClass_spec (hwf.nested decl)
    (hmethods.symm ▸ hdistinctMethods) (hmethods.symm ▸ hclear) h
  refine ⟨hextends.name, fun added outer' hmigrated => ?_, ?_⟩
  · have hnested : Migrated added (outer.nested decl) (outer'.nested decl') := by
      refine hmigrated.nested hextends.name fun name hname => ?_
      rw [hextends.contains_memberTypes hname, TypeDecl.memberTypes_eq, TypeDecl.memberTypes_eq,
        hmembers.names]
    refine .intro (hlasting added _ hnested) fun inner hinner => ?_
    rcases hextends.types inner hinner with hold | hcontainer
    · exact hmembers.atRest inner hold added _ hnested
    · exact atRest_container hcontainer
  · have hwhole := hmembers.progress.map₂ (fun members decl' => (members, decl')) hprogress
    refine ⟨hwhole.imports, hwhole.classes, fun heq => ?_⟩
    obtain ⟨rfl, rfl⟩ := Prod.mk.inj (hwhole.unchanged heq)
    cases decl
    rfl

/-- What is finished among members, once each type among them is. -/
theorem finishedMembers_of_inTurn {scope : TypeScope} (hwf : scope.WellFormed)
    {members members' : List Member} {session session' : Session}
    (h : InTurn (fun session decl decl' session' => scope.WellFormed → Distinct decl.mentions →
      Clear scope decl → Finished scope session session' decl decl') session members members' session')
    (hdistinct : ∀ member ∈ members, Distinct member.mentions) (hclear : ClearMembers scope members) :
    FinishedMembers scope session session' members members' := by
  induction h with
  | nil => exact ⟨rfl, rfl, by simp [typesAmong], .refl _ _⟩
  | type hdecl _ ih =>
    rw [List.forall_mem_cons] at hdistinct
    have hfirst := hdecl hwf hdistinct.1 hclear.1
    have hothers := ih hdistinct.2 hclear.2
    refine ⟨hothers.methods, ?_, List.forall_mem_cons.2 ⟨hfirst.atRest, hothers.atRest⟩, ?_⟩
    · rw [typesAmong, typesAmong, List.map_cons, List.map_cons, hfirst.name, hothers.names]
    · exact hfirst.progress.map₂ (fun decl rest => .type decl :: rest) hothers.progress
  | @other session session' member rest rest' hmember _ ih =>
    have hothers := ih (List.forall_mem_cons.1 hdistinct).2 (ClearMembers.of_other hmember hclear)
    refine ⟨methodsAmong_cons_congr member hothers.methods, ?_, ?_,
      (Progress.refl _ member).map₂ List.cons hothers.progress⟩
    · rw [typesAmong_cons_of_ne hmember, typesAmong_cons_of_ne hmember]
      exact hothers.names
    · rw [typesAmong_cons_of_ne hmember]
      exact hothers.atRest

theorem rises_finished : Rises fun outer session decl decl' session' =>
    outer.WellFormed → Distinct decl.mentions → Clear outer decl →
      Finished outer session session' decl decl' := by
  intro outer decl decl' members session middle session' hmembers h hwf hdistinct hclear
  rw [clear_iff] at hclear
  exact finished_of_members hwf hdistinct hclear.1 (finishedMembers_of_inTurn (hwf.nested _) hmembers
    (fun member hmember => hdistinct.member hmember) hclear.2) h

theorem migrateType_finished {outer : TypeScope} (hwf : outer.WellFormed) (decl : TypeDecl)
    {decl' : TypeDecl} {session session' : Session} (hdistinct : Distinct decl.mentions)
    (hclear : Clear outer decl) (h : (migrateType outer decl).run session = .ok (decl', session')) :
    Finished outer session session' decl decl' :=
  told_of_migrateType rises_finished decl h hwf hdistinct hclear

/-! ### Units -/

theorem keeps_migrateTypes {safe : Prop} {scope : TypeScope} {types : List TypeDecl}
    (h : ∀ decl ∈ types, AtRest safe scope decl) :
    Keeps safe (migrateTypes scope types) types := by
  induction types with
  | nil => exact .pure []
  | cons decl rest ih =>
    rw [List.forall_mem_cons] at h
    exact h.1.keeps.bind ((ih h.2).bind (.pure _))

theorem migrateTypes_finished {scope : TypeScope} (hwf : scope.WellFormed)
    {types types' : List TypeDecl}
    {session session' : Session} (hdistinct : ∀ decl ∈ types, Distinct decl.mentions)
    (hclear : ∀ decl ∈ types, Clear scope decl)
    (h : (migrateTypes scope types).run session = .ok (types', session')) :
    types'.map (·.name) = types.map (·.name) ∧
      (∀ added scope', Migrated added scope scope' → ∀ decl ∈ types',
        AtRest (Framework.enterValue ∉ added) scope' decl) ∧
      Progress session session' types types' := by
  induction types generalizing types' session with
  | nil =>
    obtain ⟨rfl, rfl⟩ := Migrating.run_pure.1 h
    exact ⟨rfl, fun _ _ _ => List.forall_mem_nil _, .refl _ _⟩
  | cons decl rest ih =>
    rw [List.forall_mem_cons] at hdistinct hclear
    obtain ⟨decl', middle, hdecl, h⟩ := Migrating.run_bind.1 h
    obtain ⟨rest', last, hrest, h⟩ := Migrating.run_bind.1 h
    obtain ⟨rfl, rfl⟩ := Migrating.run_pure.1 h
    have hfirst := migrateType_finished hwf decl hdistinct.1 hclear.1 hdecl
    obtain ⟨hnames, hatRest, hprogress⟩ := ih hdistinct.2 hclear.2 hrest
    refine ⟨?_, fun added scope' hmigrated => ?_, hfirst.progress.map₂ List.cons hprogress⟩
    · rw [List.map_cons, List.map_cons, hfirst.name, hnames]
    · exact List.forall_mem_cons.2 ⟨hfirst.atRest added scope' hmigrated,
        hatRest added scope' hmigrated⟩

/-- Adding imports appends those that are new and changes nothing else but the captured header. -/
theorem addImports_spec (unit : CompilationUnit) (paths : List String) :
    (addImports unit paths).1.package = unit.package ∧
      (addImports unit paths).1.types = unit.types ∧
      (addImports unit paths).1.imports =
        unit.imports ++ (addImports unit paths).2.map TypeScope.importDecl ∧
      (∀ path ∈ (addImports unit paths).2, path ∈ paths) := by
  induction paths generalizing unit with
  | nil => exact ⟨rfl, rfl, (List.append_nil _).symm, by simp [addImports]⟩
  | cons path rest ih =>
    rw [addImports]
    split
    next =>
      obtain ⟨hpackage, htypes, himports, hpaths⟩ := ih unit
      exact ⟨hpackage, htypes, himports, fun path hpath => List.mem_cons_of_mem _
        (hpaths path hpath)⟩
    next extended hextended =>
      rw [CompilationUnit.addImport?] at hextended
      split at hextended
      · cases hextended
      · cases hextended
        obtain ⟨hpackage, htypes, himports, hpaths⟩ := ih _
        refine ⟨hpackage, htypes, himports.trans ?_, List.forall_mem_cons.2 ⟨List.mem_cons_self,
          fun path hpath => List.mem_cons_of_mem _ (hpaths path hpath)⟩⟩
        rw [List.append_assoc]
        rfl

/-- The migration of a unit whose types are at rest changes nothing. -/
theorem migrateUnit_of_atRest {unit : CompilationUnit} {safe : Prop}
    (h : ∀ decl ∈ unit.types, AtRest safe (TypeScope.ofUnit unit Framework.index) decl)
    (nextId : NodeId) :
    (∀ second, migrateUnit unit nextId = .ok second → second.unit = unit ∧
      second.report = ⟨[], []⟩) ∧
    (safe → migrateUnit unit nextId = .ok ⟨unit, ⟨[], []⟩, nextId⟩) := by
  obtain ⟨hkeeps, hsafe⟩ := keeps_migrateTypes h ⟨nextId, [], []⟩
  constructor
  · intro second hsecond
    obtain ⟨⟨types, session⟩, hrun, hsecond⟩ := except_bind_eq_ok.1 hsecond
    cases hkeeps _ hrun
    cases hsecond
    exact ⟨rfl, rfl⟩
  · intro h
    exact except_bind_eq_ok.2 ⟨_, hsafe h, rfl⟩

/-- What a migration leaves is at rest. -/
theorem migrateUnit_atRest {unit : CompilationUnit} (hdistinct : Distinct unit.mentions)
    (hclear : ∀ decl ∈ unit.types, Clear (TypeScope.ofUnit unit Framework.index) decl)
    {nextId : NodeId} {first : UnitMigration} (h : migrateUnit unit nextId = .ok first) :
    ∀ decl ∈ first.unit.types, AtRest (Framework.enterValue ∉ first.report.imports)
      (TypeScope.ofUnit first.unit Framework.index) decl := by
  obtain ⟨⟨types, session⟩, hrun, h⟩ := except_bind_eq_ok.1 h
  obtain ⟨hnames, hatRest, hprogress⟩ := migrateTypes_finished
    (TypeScope.wellFormed_ofUnit unit Framework.index) (fun decl hdecl => hdistinct.of_mem hdecl)
    hclear hrun
  obtain ⟨hpackage, htypes, himports, hpaths⟩ :=
    addImports_spec { unit with types := types } session.imports
  have hunit : first.unit.package = unit.package ∧ first.unit.types = types ∧
      first.unit.imports = unit.imports ++ first.report.imports.map TypeScope.importDecl := by
    cases h
    dsimp only
    split
    next => exact ⟨hpackage, htypes, himports⟩
    next hsame =>
      simp only [MigrationReport.isChanged, Bool.or_eq_true, Bool.not_eq_true', not_or,
        Bool.not_eq_false, List.isEmpty_iff] at hsame
      refine ⟨rfl, (hprogress.unchanged (by rw [hsame.1])).symm, ?_⟩
      rw [hsame.2]
      exact (List.append_nil _).symm
  have hadded : ∀ path ∈ first.report.imports, path ∈ Framework.addedImports := by
    cases h
    intro path hpath
    exact (hprogress.imports path (hpaths path hpath)).resolve_left (List.not_mem_nil)
  have hmigrated : Migrated first.report.imports (TypeScope.ofUnit unit Framework.index)
      (TypeScope.ofUnit first.unit Framework.index) :=
    ⟨TypeScope.wellFormed_ofUnit _ _, TypeScope.wellFormed_ofUnit _ _, rfl, hadded,
      TypeScope.grows_ofUnit Framework.index hunit.1 (hunit.2.1 ▸ hnames) hunit.2.2
        fun path hpath => Framework.allBlank_addedImports path (hadded path hpath)⟩
  rw [hunit.2.1]
  exact hatRest _ _ hmigrated

/-- A second migration never changes anything; and unless the first one had to import `Enter`, it does not fail either. -/
theorem migrateUnit_twice {unit : CompilationUnit} (hdistinct : Distinct unit.mentions)
    (hclear : ∀ decl ∈ unit.types, Clear (TypeScope.ofUnit unit Framework.index) decl)
    {nextId : NodeId} {first : UnitMigration} (h : migrateUnit unit nextId = .ok first)
    (nextId' : NodeId) :
    (∀ second, migrateUnit first.unit nextId' = .ok second → second.unit = first.unit ∧
      second.report = ⟨[], []⟩) ∧
    (Framework.enterValue ∉ first.report.imports →
      migrateUnit first.unit nextId' = .ok ⟨first.unit, ⟨[], []⟩, nextId'⟩) :=
  migrateUnit_of_atRest (migrateUnit_atRest hdistinct hclear h) nextId'

/-! ### Two units -/

/-- A class with the given members. -/
def classOf (id : NodeId) (name : String) (members : List Member) : TypeDecl :=
  { TypeDecl.emptyClass id name [] with members := members }

/-- A unit with the given imports and one class. -/
def unitOf (imports : List String) (decl : TypeDecl) : CompilationUnit :=
  ⟨none, imports.map TypeScope.importDecl, [decl], [], .lf, none, none, none⟩

/-- A static method without result, with one statement. -/
def methodOf (id : NodeId) (annotations : List Annot) (name : String) (params : List Param)
    (stmt : StmtKind) : Method :=
  ⟨id, .unwritten, annotations, [.static], [], some .void, name, params, [],
    some (.ofStmts [.ofKind stmt])⟩

/-- An enter method that assigns to an argument of the instrumented method. -/
def writingEnter (id : NodeId) (annotations : List Annot) : Method :=
  let writable : Annot := .pairs "Advice.Argument"
    [⟨"value", .expr (.ofInt 0)⟩, ⟨"readOnly", .expr (.ofBool false)⟩]
  methodOf id (annotations ++ [.marker "Advice.OnMethodEnter"]) "enter"
    [.single (id + 1) writable (.primitive .int) "x"]
    (.expr (.assign (.name (id + 2) "x") .assign (.ofInt 3)))

/-- A unit with one advice class, which writes an argument. -/
def writingUnit : CompilationUnit :=
  unitOf [Framework.advice] (classOf 0 "A" [.method (writingEnter 1 [])])

theorem clear_writingUnit :
    ∀ decl ∈ writingUnit.types, Clear (TypeScope.ofUnit writingUnit Framework.index) decl := by
  intro decl hdecl
  obtain rfl := List.mem_singleton.1 hdecl
  refine ⟨fun method hmethod annot hannot hhead => ?_, trivial⟩
  obtain rfl := List.mem_singleton.1 hmethod
  obtain rfl := List.mem_singleton.1 hannot
  exact absurd hhead (by decide)

theorem migrateUnit_twice_writingUnit : ∃ first, migrateUnit writingUnit 4 = .ok first ∧
    first.report = ⟨["A"], [Framework.assignReturned, Framework.toArgument]⟩ ∧
    migrateUnit first.unit first.nextId = .ok ⟨first.unit, ⟨[], []⟩, first.nextId⟩ := by
  have hreport : (migrateUnit writingUnit 4).toOption.map (·.report) =
      some ⟨["A"], [Framework.assignReturned, Framework.toArgument]⟩ := by
    decide +kernel
  have hdistinct : Distinct writingUnit.mentions := by
    rw [Distinct]
    decide
  obtain ⟨first, hfirst, hreport⟩ := Option.map_eq_some_iff.1 hreport
  have h := eq_ok_of_toOption hfirst
  refine ⟨first, h, hreport, (migrateUnit_twice hdistinct clear_writingUnit h _).2 ?_⟩
  rw [hreport]
  decide +kernel

/-- A class that shares two values, and in it one that counts as migrated through an annotation named after the container class. -/
def guardedUnit : CompilationUnit :=
  let shared (id : NodeId) (key name : String) : Param :=
    .single id (.single "Advice.Local" (.expr (.literal ⟨.string, key⟩))) (.primitive .int) name
  let inner := classOf 8 "Inner" [.method (writingEnter 9 [.marker "AdviceLocals"])]
  unitOf [Framework.advice, "net.bytebuddy.asm.Advice.AssignReturned.AdviceLocals"]
    (classOf 0 "Outer"
      [.method (methodOf 1 [.marker "Advice.OnMethodEnter"] "enter"
        [shared 2 "\"a\"" "a", shared 3 "\"b\"" "b"] .empty),
      .method (methodOf 4 [.marker "Advice.OnMethodExit"] "exit"
        [shared 5 "\"a\"" "a", shared 6 "\"b\"" "b"] .empty),
      .type inner])

/-- The container class of the outer class hides the annotation of the inner one, so that a second migration takes the inner class for one that has not been migrated. -/
theorem migrateUnit_twice_guardedUnit : Distinct guardedUnit.mentions ∧
    ∃ first second, migrateUnit guardedUnit 12 = .ok first ∧ first.report = ⟨["Outer"], []⟩ ∧
      migrateUnit first.unit first.nextId = .ok second ∧ second.report =
        ⟨["Outer.Inner"], [Framework.assignReturned, Framework.toArgument]⟩ := by
  have hreports : ((migrateUnit guardedUnit 12).toOption.bind fun first =>
      (migrateUnit first.unit first.nextId).toOption.map fun second =>
        (first.report, second.report)) = some (⟨["Outer"], []⟩,
      ⟨["Outer.Inner"], [Framework.assignReturned, Framework.toArgument]⟩) := by
    decide +kernel
  have hdistinct : Distinct guardedUnit.mentions := by
    rw [Distinct]
    decide
  refine ⟨hdistinct, ?_⟩
  obtain ⟨first, hfirst, hreports⟩ := Option.bind_eq_some_iff.1 hreports
  obtain ⟨second, hsecond, heq⟩ := Option.map_eq_some_iff.1 hreports
  obtain ⟨hreport, hreport'⟩ := Prod.mk.inj heq
  exact ⟨first, second, eq_ok_of_toOption hfirst, hreport, eq_ok_of_toOption hsecond, hreport'⟩

/-! ### Migrated texts -/

theorem splitMark_eq {text : String} {c : Char} {rest : List Char} (h : text.toList = c :: rest)
    (hc : c ≠ Advice.byteOrderMark) : splitMark text = ("", text) := by
  rw [splitMark, h]
  exact if_neg (by simpa using hc)

/-- What the migration of a text answers, once the text has been read and its unit migrated. -/
theorem migrateSource_eq {text : String} {options : PrintOptions} {unit : CompilationUnit}
    {nextId : NodeId} {migration : UnitMigration}
    (hread : parseUnit (splitMark text).2 = .ok (unit, nextId))
    (hmigrate : migrateUnit unit nextId = .ok migration) :
    migrateSource text options =
      .ok ⟨if migration.report.isChanged then (splitMark text).1 ++ migration.unit.print options
        else text, migration.report⟩ := by
  rw [migrateSource]
  dsimp only
  rw [hread]
  dsimp only
  rw [hmigrate]
  dsimp only
  split <;> rfl

theorem migrateSource_of_unreadable {text : String} {failure : ParseFailure}
    (h : parseUnit (splitMark text).2 = .error failure) (options : PrintOptions) :
    migrateSource text options = .error (.unreadable failure) := by
  rw [migrateSource]
  dsimp only
  rw [h]

/-- An enum without constants that has an advice class as a member. -/
def emptyEnumText : String :=
  "import net.bytebuddy.asm.Advice.*;\nenum E \x7b;\nclass A \x7b\n@OnMethodExit\n" ++
    "void m(@Return(readOnly=false)int x)\x7b\x7d\n\x7d\n\x7d\n"

/-- What it is migrated to: the semicolon in front of the members is lost. -/
def brokenEnumText : String :=
  "import net.bytebuddy.asm.Advice.*;\nimport net.bytebuddy.asm.Advice.AssignReturned;\n" ++
    "enum E \x7b\n class A \x7b\n  @AssignReturned.ToReturned\n  @OnMethodExit\n" ++
    "  int m(@Return int x) \x7b\n   return x;\n  \x7d\n\x7d\n\x7d\n"

set_option maxRecDepth 2000 in
/-- The migrated text cannot be read, so that a second migration fails. -/
theorem migrateSource_emptyEnum_unreadable :
    migrateSource emptyEnumText ⟨1, true⟩ =
        .ok ⟨brokenEnumText, ⟨["E.A"], [Framework.assignReturned]⟩⟩ ∧
      ∃ failure, parseUnit (splitMark brokenEnumText).2 = .error failure ∧
        migrateSource brokenEnumText ⟨1, true⟩ = .error (.unreadable failure) := by
  have hchars : emptyEnumText.toList = _ :=
    toList_append_eq String.toList_ofList String.toList_ofList
  have hchars' : brokenEnumText.toList = _ := toList_append_eq
    (toList_append_eq String.toList_ofList String.toList_ofList) String.toList_ofList
  have hmark : splitMark emptyEnumText = ("", emptyEnumText) := splitMark_eq hchars (by decide)
  have hmark' : splitMark brokenEnumText = ("", brokenEnumText) :=
    splitMark_eq hchars' (by decide)
  have hrun : ((parseUnit emptyEnumText).toOption.bind fun read =>
      (migrateUnit read.1 read.2).toOption.map fun migration =>
        (migration.report, migration.unit.print ⟨1, true⟩)) =
        some (⟨["E.A"], [Framework.assignReturned]⟩, brokenEnumText) := by
    rw [parseUnit_eq_parseChars hchars]
    decide +kernel
  have hnone : (parseUnit brokenEnumText).toOption.isNone = true := by
    rw [parseUnit_eq_parseChars hchars']
    decide +kernel
  obtain ⟨⟨unit, nextId⟩, hread, hrun⟩ := Option.bind_eq_some_iff.1 hrun
  obtain ⟨migration, hmigrate, hresult⟩ := Option.map_eq_some_iff.1 hrun
  obtain ⟨hreport, htext⟩ := Prod.mk.inj hresult
  have hread : parseUnit (splitMark emptyEnumText).2 = .ok (unit, nextId) := by
    rw [hmark]
    exact eq_ok_of_toOption hread
  constructor
  · rw [migrateSource_eq hread (eq_ok_of_toOption hmigrate), hmark, htext, hreport]
    rfl
  · rw [hmark']
    cases hread : parseUnit brokenEnumText with
    | ok result =>
      rw [hread] at hnone
      cases hnone
    | error failure =>
      exact ⟨failure, rfl, migrateSource_of_unreadable (by rw [hmark', hread]) _⟩

end AdviceMigration.Advice
