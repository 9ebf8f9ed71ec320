import AdviceMigration.Proofs.Advice.Emissions

/-!
# What annotations mean in a migrated unit

An emitted annotation relies on an import. It stands for the framework type that it is meant for exactly when its name was free before, that is when it stood for that type or for nothing: a member type, a type of the unit or another import of the same name comes first. An annotation that was there before keeps its meaning, except for two kinds of names: one that stood for nothing and is the name of an added import, and the name of the container class inside a class that got one.
-/

namespace AdviceMigration.Advice

open AdviceMigration.Source AdviceMigration.Scope AdviceMigration.Scope.TypeScope

/-! ### Names in a migrated scope -/

/-- Whether an emitted name comes to stand for what it is meant for exactly when nothing else had the name. -/
def Reaches (scope scope' : TypeScope) (entry : String × String) : Prop :=
  scope'.resolve? entry.1 = some entry.2 ↔
    scope.resolve? entry.1 = none ∨ scope.resolve? entry.1 = some entry.2

/-- What becomes of the meaning of a name. -/
inductive KeepsMeaning (added : List String) (scope scope' : TypeScope) (name : String) : Prop where
  | same (h : scope'.resolve? name = scope.resolve? name)
  | imported {path : String} (hpath : path ∈ added) (hhead : lastSegment path = headSegment name)
      (hbefore : scope.resolve? name = none)
      (hafter : scope'.resolve? name = some (path ++ restSegments name))
  | contained (hhead : headSegment name = containerClass)
      (henclosing : scope'.enclosing ≠ scope.enclosing)

/-- Whether imports are added, unless they were there before. -/
def Provided (required added : List String) (scope : TypeScope) : Prop :=
  ∀ path ∈ required, path ∈ added ∨ ∃ found ∈ scope.imports.single, found.path = path

theorem Provided.of_subset {required required' added : List String} {scope : TypeScope}
    (h : Provided required' added scope) (hsub : required ⊆ required') :
    Provided required added scope :=
  fun path hpath => h path (hsub hpath)

namespace Framework

theorem index_addedImports : ∀ path ∈ addedImports, index path = true := by
  decide +kernel

theorem lastSegment_addedImports : ∀ path ∈ addedImports, lastSegment path ≠ containerClass := by
  have hclass : containerClass.toList = _ := String.toList_ofList
  apply forall_mem_of_map_toList
  · repeat apply map_toList_cons
    exact List.map_nil
  simp only [lastSegment, ne_eq, ← String.toList_inj, hclass, String.toList_ofList]
  decide +kernel

end Framework

namespace Migrated

variable {added : List String} {scope scope' : TypeScope} (h : Migrated added scope scope')

include h

/-- A free name comes to stand for the import of its first segment. -/
theorem reaches_import {path written : String} (hpath : path ∈ Framework.addedImports)
    (hhead : lastSegment path = headSegment written)
    (hprovided : path ∈ added ∨ ∃ found ∈ scope.imports.single, found.path = path) :
    Reaches scope scope' (written, path ++ restSegments written) := by
  have hne : headSegment written ≠ containerClass :=
    hhead ▸ Framework.lastSegment_addedImports path hpath
  cases hbefore : scope.resolveSimple? (headSegment written) with
  | some qualified =>
    have hsame : scope'.resolve? written = scope.resolve? written := by
      rcases h.grows.resolveSimple?_cases h.wellFormed h.recognized hne with heq | ⟨hnone, -⟩
      · rw [resolve?_eq, resolve?_eq, heq]
      · cases hnone.symm.trans hbefore
    have hsome : scope.resolve? written ≠ none := by
      rw [resolve?_eq, hbefore]
      exact nofun
    rw [Reaches, hsame]
    exact ⟨.inr, fun hor => hor.resolve_left hsome⟩
  | none =>
    have hpackage : looksLikePackage (headSegment written) = false :=
      hhead ▸ (Framework.recognized_addedImports path hpath).1
    have hnone : scope.resolve? written = none := by
      rw [resolve?_eq, hbefore, hpackage]
      rfl
    have hadded : path ∈ added := by
      refine hprovided.resolve_right fun ⟨found, hfound, hpath⟩ => ?_
      exact resolveSimple?_ne_none_of_mem hfound
        ((h.wellFormed.single found hfound).trans (hpath ▸ hhead)) hbefore
    obtain ⟨path', hpath', hlast, hafter⟩ :=
      h.grows.resolveSimple?_added hne hbefore hadded hhead
    have heq : path' = path := (Framework.recognized_addedImports path hpath).2 path'
      (Framework.index_addedImports path' (h.imports path' hpath')) (hlast.trans hhead.symm)
    refine ⟨fun _ => .inl hnone, fun _ => ?_⟩
    rw [resolve?_eq, hafter, heq]

theorem keepsMeaning (name : String) : KeepsMeaning added scope scope' name := by
  have hcases : ∀ hidden, headSegment name ≠ hidden → Grows added hidden scope scope' →
      KeepsMeaning added scope scope' name := by
    intro hidden hne hgrows
    rcases hgrows.resolveSimple?_cases h.wellFormed h.recognized hne with
      heq | ⟨hnone, path, hpath, hlast, hsome⟩
    · exact .same (by rw [resolve?_eq, resolve?_eq, heq])
    · refine .imported hpath hlast ?_ ?_
      · rw [resolve?_eq, hnone, ← hlast, (h.recognized path hpath).1]
        rfl
      · rw [resolve?_eq, hsome]
  by_cases henclosing : scope'.enclosing = scope.enclosing
  · have hother : headSegment name ≠ headSegment name ++ "." := fun heq => by
      have hlength := congrArg String.length heq
      simp at hlength
    exact hcases _ hother (h.grows.of_enclosing_eq henclosing _)
  · by_cases hhead : headSegment name = containerClass
    · exact .contained hhead henclosing
    · exact hcases _ hhead h.grows

end Migrated

/-! ### Emitted names -/

/-- An annotation for a target relies on an import. -/
theorem exists_import_of_emits {target : WriteTarget} {entry : String × String}
    (h : entry ∈ target.emits) : ∃ path ∈ target.imports, lastSegment path = headSegment entry.1 ∧
      entry = (entry.1, path ++ restSegments entry.1) := by
  have hargument : ∀ entry ∈ (WriteTarget.argument 0).emits,
      ∃ path ∈ (WriteTarget.argument 0).imports, lastSegment path = headSegment entry.1 ∧
        entry = (entry.1, path ++ restSegments entry.1) := by
    decide +kernel
  have hfield : ∀ entry ∈ (WriteTarget.field (.array [])).emits,
      ∃ path ∈ (WriteTarget.field (.array [])).imports, lastSegment path = headSegment entry.1 ∧
        entry = (entry.1, path ++ restSegments entry.1) := by
    decide +kernel
  have hreturned : ∀ entry ∈ WriteTarget.returned.emits,
      ∃ path ∈ WriteTarget.returned.imports, lastSegment path = headSegment entry.1 ∧
        entry = (entry.1, path ++ restSegments entry.1) := by
    decide +kernel
  cases target with
  | argument index => exact hargument entry h
  | field name => exact hfield entry h
  | returned => exact hreturned entry h

/-- The annotation spelled like the exit marker is either a simple name or stands for its type at once. -/
theorem enterName_cases {scope : TypeScope} (hwf : scope.WellFormed) {markerName : String}
    (h : scope.resolve? markerName = some Framework.onMethodExit) :
    enterName markerName = "Enter" ∨
      scope.resolve? (enterName markerName) = some Framework.enterValue := by
  have hlast : lastSegment markerName = "OnMethodExit" :=
    (endsWith_resolve? hwf h).lastSegment_eq.symm.trans lastSegment_onMethodExit
  rcases endsWith_lastSegment markerName with heq | ⟨outer, heq⟩
  · rw [heq, hlast]
    exact .inl (by decide +kernel)
  · rw [hlast] at heq
    have hname : enterName markerName = outer ++ "." ++ "Enter" := by
      have hlist : markerName.toList = (outer ++ ".").toList ++ "OnMethodExit".toList := by
        rw [heq, String.toList_append]
      have hlength : markerName.length - "OnMethodExit".toList.length =
          (outer ++ ".").toList.length := by
        rw [← String.length_toList, hlist, List.length_append, Nat.add_sub_cancel]
      rw [enterName, hlength, hlist, List.take_left, String.ofList_toList]
    rw [heq] at h
    rw [hname]
    exact .inr (@resolve?_beside scope outer "OnMethodExit" "Enter" Framework.advice h)

/-- Every emitted name reaches the type that it is meant for, if the imports that were required are provided. -/
theorem reaches_emits {plan : Plan} {decl : TypeDecl} {added : List String}
    {scope scope' : TypeScope} {session session' : Session} (h : Migrated added scope scope')
    (hcreates : plan.Creates decl scope)
    (hrequires : Requires (writeTargets (plan.enterWrites ++ plan.exitWrites)) session session')
    (henter : ∀ entry ∈ plan.enterEmits, entry.1 = "Enter" →
      Framework.enterValue ∈ session'.imports)
    (hprovided : Provided session'.imports added scope) :
    ∀ entry ∈ plan.emits, Reaches scope scope' entry := by
  intro entry hentry
  rcases List.mem_append.1 hentry with hentry | hentry
  · obtain ⟨target, htarget, hentry⟩ := List.mem_flatMap.1 hentry
    obtain ⟨path, hpath, hhead, heq⟩ := exists_import_of_emits hentry
    rw [heq]
    exact h.reaches_import (mem_addedImports_of_target hpath) hhead
      (hprovided path (hrequires.targets target htarget hpath))
  · have hrequired := henter entry hentry
    rw [Plan.enterEmits] at hentry
    split at hentry
    next exit hexit =>
      split at hentry
      · obtain rfl := List.mem_singleton.1 hentry
        obtain ⟨method, hfound⟩ := AdviceMethod.find?_eq_some (hexit ▸ hcreates.exit)
        rcases enterName_cases h.wellFormed hfound.markerName with hname | hresolve
        · have hreaches := @Migrated.reaches_import _ _ _ h Framework.enterValue "Enter" (by decide)
            (by decide +kernel) (hprovided _ (hrequired hname))
          rw [hname]
          exact hreaches
        · have hresolve' := h.resolve?_of_some (by decide) hresolve
          exact ⟨fun _ => .inr hresolve, fun _ => hresolve'⟩
      · cases hentry
    next => cases hentry

/-! ### Classes -/

/-- What the annotations of a class mean after a migration. Those that its plan emits reach their types, and every other one keeps its meaning. -/
structure ClassMeanings (added : List String) (scope scope' : TypeScope)
    (decl decl' : TypeDecl) : Prop where
  emitted : ∀ plan, Plan.create decl scope = .ok (some plan) →
    ∀ entry ∈ plan.emits, Reaches scope scope' entry
  methods : List.Forall₂ (fun method method' => method'.id = method.id ∧
    ∀ name ∈ method'.annotNames, (name ∈ method.annotNames ∧ KeepsMeaning added scope scope' name) ∨
      ∃ plan, Plan.create decl scope = .ok (some plan) ∧ name ∈ plan.emits.map (·.1))
    decl.methods decl'.methods

/-- Whether a step of a migration requires no fewer imports than before, and none but those of framework types. -/
structure Demands (session session' : Session) : Prop where
  earlier : session.imports ⊆ session'.imports
  framework : ∀ path ∈ session'.imports, path ∈ session.imports ∨ path ∈ Framework.addedImports

namespace Demands

theorem refl (session : Session) : Demands session session :=
  ⟨List.Subset.refl _, fun _ => .inl⟩

theorem trans {session middle session' : Session} (h : Demands session middle)
    (h' : Demands middle session') : Demands session session' where
  earlier := List.Subset.trans h.earlier h'.earlier
  framework := fun path hpath => (h'.framework path hpath).elim (h.framework path) .inr

end Demands

/-- What a class that was not changed means. -/
theorem classMeanings_same {added : List String} {scope scope' : TypeScope} {decl : TypeDecl}
    (h : Migrated added scope scope')
    (hplan : ∀ plan, Plan.create decl scope = .ok (some plan) → plan.hasChanges = false) :
    ClassMeanings added scope scope' decl decl where
  emitted := by
    intro plan hcreate
    rw [Plan.emits_eq_nil_of_not_hasChanges (hplan plan hcreate)]
    exact nofun
  methods := List.forall₂_same.2 fun method _ =>
    ⟨rfl, fun name hname => .inl ⟨hname, h.keepsMeaning name⟩⟩

theorem meanings_migrateClass {scope : TypeScope} {decl decl' : TypeDecl}
    {session session' : Session} (hwf : scope.WellFormed)
    (hdistinct : DistinctMethods decl.methods)
    (h : (migrateClass scope decl).run session = .ok (decl', session')) :
    Extends decl decl' ∧ Demands session session' ∧
      ∀ added scope', Migrated added scope scope' → Provided session'.imports added scope →
        ClassMeanings added scope scope' decl decl' := by
  rcases run_migrateClass h with ⟨hplan, rfl, rfl⟩ |
    ⟨plan, result, middle, hplan, htransform, hresult⟩
  · refine ⟨.refl _, .refl _, fun added scope' hmigrated _ => ?_⟩
    exact classMeanings_same hmigrated fun plan hcreate => nomatch hplan.symm.trans hcreate
  · have hreads := (Plan.creates_of_create hplan).reads hdistinct.1 hwf hdistinct.2
    obtain ⟨hextends, -, hadvances⟩ := transform?_spec hreads hdistinct htransform
    rcases hresult with ⟨hnone, rfl, rfl, rfl, rfl⟩ | ⟨-, rfl, rfl⟩
    · refine ⟨hextends, .refl _, fun added scope' hmigrated _ => ?_⟩
      refine classMeanings_same hmigrated fun other hcreate => ?_
      cases hplan.symm.trans hcreate
      exact hnone
    · obtain ⟨hmethods, hrequires, henter⟩ := emits_transform? hreads hdistinct htransform
      refine ⟨hextends, ⟨hrequires.earlier, hadvances.imports⟩,
        fun added scope' hmigrated hprovided => ⟨fun other hcreate => ?_, ?_⟩⟩
      · cases hplan.symm.trans hcreate
        exact reaches_emits hmigrated hreads.creates hrequires henter hprovided
      · refine hmethods.imp fun method method' hnames => ⟨hnames.1, fun name hname => ?_⟩
        rcases List.mem_append.1 (hnames.2 hname) with hold | hemitted
        · exact .inl ⟨hold, hmigrated.keepsMeaning name⟩
        · exact .inr ⟨plan, hplan, hemitted⟩

/-! ### Types -/

theorem find?_congr {decl decl' : TypeDecl} (hname : decl'.name = decl.name)
    (hmethods : decl'.methods = decl.methods) (scope : TypeScope) (marker shortName : String) :
    AdviceMethod.find? decl' scope marker shortName =
      AdviceMethod.find? decl scope marker shortName := by
  rw [AdviceMethod.find?, AdviceMethod.marked, hmethods, hname]
  rfl

/-- The plan for a class depends on its methods only. -/
theorem create_congr {decl decl' : TypeDecl} (hkind : decl'.kind = decl.kind)
    (hname : decl'.name = decl.name) (hmethods : decl'.methods = decl.methods)
    (scope : TypeScope) : Plan.create decl' scope = Plan.create decl scope := by
  have hmethod : ∀ id, decl'.method? id = decl.method? id := fun id => by
    rw [TypeDecl.method?, hmethods, TypeDecl.method?]
  have hmigrated : ∀ advice : AdviceMethod,
      advice.isMigrated decl' scope = advice.isMigrated decl scope := fun advice => by
    rw [AdviceMethod.isMigrated, hmethod, AdviceMethod.isMigrated]
  have hbound : ∀ advice : AdviceMethod, advice.bound? decl' = advice.bound? decl :=
    fun advice => by rw [AdviceMethod.bound?, hmethod, AdviceMethod.bound?]
  simp only [Plan.create, hkind, find?_congr hname hmethods, hmigrated, hbound]

/-- Where a class stands in a type: its scope, and the class itself. -/
inductive Nests : TypeScope → TypeDecl → TypeScope → TypeDecl → Prop where
  | self {outer : TypeScope} {decl : TypeDecl} : Nests outer decl (outer.nested decl) decl
  | inner {outer scope : TypeScope} {decl inner found : TypeDecl}
      (hmem : inner ∈ typesAmong decl.members) (h : Nests (outer.nested decl) inner scope found) :
    Nests outer decl scope found

/-- What annotations mean in the classes of migrated types, which stand in the scope `outer'`. A container class is new and has none. -/
def TypesMean (added : List String) (outer outer' : TypeScope) (types types' : List TypeDecl) :
    Prop :=
  ∀ top' ∈ types', ∀ scope' decl', Nests outer' top' scope' decl' → IsContainer decl' ∨
    ∃ top ∈ types, ∃ scope decl, Nests outer top scope decl ∧ decl'.id = decl.id ∧
      ClassMeanings added scope scope' decl decl'

/-- What a migration makes of types that stand in a scope. -/
structure Conveys (outer : TypeScope) (session session' : Session) (types types' : List TypeDecl) :
    Prop where
  names : types'.map (·.name) = types.map (·.name)
  demands : Demands session session'
  means : ∀ added outer', Migrated added outer outer' → Provided session'.imports added outer →
    TypesMean added outer outer' types types'

namespace Conveys

variable {outer : TypeScope} {session middle session' : Session}

theorem nil (outer : TypeScope) (session : Session) : Conveys outer session session [] [] :=
  ⟨rfl, .refl _, fun _ _ _ _ => nofun⟩

theorem cons {decl decl' : TypeDecl} {types types' : List TypeDecl}
    (h : Conveys outer session middle [decl] [decl']) (h' : Conveys outer middle session' types types') :
    Conveys outer session session' (decl :: types) (decl' :: types') where
  names := by
    have hnames := h.names
    rw [List.map_singleton, List.map_singleton, List.cons.injEq] at hnames
    rw [List.map_cons, List.map_cons, hnames.1, h'.names]
  demands := h.demands.trans h'.demands
  means := by
    intro added outer' hmigrated hprovided top' htop'
    rcases List.mem_cons.1 htop' with rfl | htop'
    · intro scope' found' hnests
      have hfirst := hprovided.of_subset h'.demands.earlier
      refine (h.means added outer' hmigrated hfirst _ (List.mem_singleton_self _) scope' found'
        hnests).imp_right fun ⟨top, htop, hrest⟩ => ?_
      exact ⟨top, List.mem_singleton.1 htop ▸ List.mem_cons_self, hrest⟩
    · intro scope' found' hnests
      exact (h'.means added outer' hmigrated hprovided top' htop' scope' found' hnests).imp_right
        fun ⟨top, htop, hrest⟩ => ⟨top, List.mem_cons_of_mem _ htop, hrest⟩

end Conveys

/-- Nothing but a container class stands in a container class. -/
theorem IsContainer.of_nests {outer scope : TypeScope} {decl found : TypeDecl}
    (hnests : Nests outer decl scope found) (h : IsContainer decl) : IsContainer found := by
  cases hnests with
  | self => exact h
  | inner hmem _ =>
    obtain ⟨field, heq⟩ := h.members _ (mem_typesAmong.1 hmem)
    cases heq

/-- A type once its members and then the type itself have been migrated. -/
theorem conveys_of_members {outer : TypeScope} (hwf : outer.WellFormed) {decl decl' : TypeDecl}
    {members : List Member} {session middle session' : Session} (hdistinct : Distinct decl.mentions)
    (hmethods : methodsAmong members = methodsAmong decl.members)
    (hmembers : Conveys (outer.nested decl) session middle (typesAmong decl.members)
      (typesAmong members))
    (h : (migrateClass (outer.nested decl) { decl with members := members }).run middle =
      .ok (decl', session')) : Conveys outer session session' [decl] [decl'] := by
  have hsame : ({ decl with members := members } : TypeDecl).methods = decl.methods := by
    rw [TypeDecl.methods_eq, TypeDecl.methods_eq]
    exact hmethods
  have hdistinctMethods : DistinctMethods decl.methods := .of_distinct hdistinct
  obtain ⟨hextends, hdemands, hmeans⟩ :=
    meanings_migrateClass (hwf.nested decl) (hsame.symm ▸ hdistinctMethods) h
  have hid : decl'.id = decl.id := by
    obtain ⟨members', rfl⟩ := exists_members_migrateClass h
    rfl
  refine ⟨congrArg (fun name => [name]) hextends.name, hmembers.demands.trans hdemands, ?_⟩
  intro added outer' hmigrated hprovided top' htop' scope' found' hnests
  obtain rfl := List.mem_singleton.1 htop'
  have hnested : Migrated added (outer.nested decl) (outer'.nested top') := by
    refine hmigrated.nested hextends.name fun name hname => ?_
    rw [hextends.contains_memberTypes hname, TypeDecl.memberTypes_eq, TypeDecl.memberTypes_eq,
      hmembers.names]
  cases hnests with
  | self =>
    obtain ⟨hemitted, hkept⟩ := hmeans added _ hnested hprovided
    rw [hsame] at hkept
    have hcreate : Plan.create { decl with members := members } (outer.nested decl) =
        Plan.create decl (outer.nested decl) :=
      @create_congr decl { decl with members := members } rfl rfl hsame _
    rw [hcreate] at hemitted
    simp only [hcreate] at hkept
    exact .inr ⟨decl, List.mem_singleton_self _, _, decl, .self, hid, hemitted, hkept⟩
  | inner hmem hnests =>
    rcases hextends.types _ hmem with hold | hcontainer
    · refine (hmembers.means added _ hnested (hprovided.of_subset hdemands.earlier) _ hold scope'
        found' hnests).imp_right fun ⟨inner, hinner, scope, found, hfound, hrest⟩ => ?_
      exact ⟨decl, List.mem_singleton_self _, scope, found, .inner hinner hfound, hrest⟩
    · exact .inl (hcontainer.of_nests hnests)

theorem conveys_of_inTurn {scope : TypeScope} (hwf : scope.WellFormed)
    {members members' : List Member} {session session' : Session}
    (h : InTurn (fun session decl decl' session' => scope.WellFormed → Distinct decl.mentions →
      Conveys scope session session' [decl] [decl']) session members members' session')
    (hdistinct : ∀ member ∈ members, Distinct member.mentions) :
    methodsAmong members' = methodsAmong members ∧
      Conveys scope session session' (typesAmong members) (typesAmong members') := by
  induction h with
  | nil => exact ⟨rfl, .nil _ _⟩
  | type hdecl _ ih =>
    rw [List.forall_mem_cons] at hdistinct
    obtain ⟨hmethods, hothers⟩ := ih hdistinct.2
    exact ⟨hmethods, (hdecl hwf hdistinct.1).cons hothers⟩
  | @other session session' member rest rest' hmember _ ih =>
    obtain ⟨hmethods, hothers⟩ := ih (List.forall_mem_cons.1 hdistinct).2
    rw [typesAmong_cons_of_ne hmember, typesAmong_cons_of_ne hmember]
    exact ⟨methodsAmong_cons_congr member hmethods, hothers⟩

theorem rises_conveys : Rises fun outer session decl decl' session' =>
    outer.WellFormed → Distinct decl.mentions → Conveys outer session session' [decl] [decl'] := by
  intro outer decl decl' members session middle session' hmembers h hwf hdistinct
  obtain ⟨hmethods, hmeans⟩ := conveys_of_inTurn (hwf.nested _) hmembers
    fun member hmember => hdistinct.member hmember
  exact conveys_of_members hwf hdistinct hmethods hmeans h

theorem conveys_migrateType {outer : TypeScope} (hwf : outer.WellFormed) (decl : TypeDecl)
    {decl' : TypeDecl} {session session' : Session} (hdistinct : Distinct decl.mentions)
    (h : (migrateType outer decl).run session = .ok (decl', session')) :
    Conveys outer session session' [decl] [decl'] :=
  told_of_migrateType rises_conveys decl h hwf hdistinct

theorem conveys_migrateTypes {scope : TypeScope} (hwf : scope.WellFormed)
    {types types' : List TypeDecl} {session session' : Session}
    (hdistinct : ∀ decl ∈ types, Distinct decl.mentions)
    (h : (migrateTypes scope types).run session = .ok (types', session')) :
    Conveys scope session session' types types' := by
  induction types generalizing types' session with
  | nil =>
    obtain ⟨rfl, rfl⟩ := Migrating.run_pure.1 h
    exact .nil _ _
  | cons decl rest ih =>
    rw [List.forall_mem_cons] at hdistinct
    obtain ⟨decl', middle, hdecl, h⟩ := Migrating.run_bind.1 h
    obtain ⟨rest', last, hrest, h⟩ := Migrating.run_bind.1 h
    obtain ⟨rfl, rfl⟩ := Migrating.run_pure.1 h
    exact (conveys_migrateType hwf decl hdistinct.1 hdecl).cons (ih hdistinct.2 hrest)

/-! ### Units -/

/-- An import that is needed is added unless the unit has it. -/
theorem mem_addImports (unit : CompilationUnit) {paths : List String} {path : String}
    (h : path ∈ paths) : path ∈ (addImports unit paths).2 ∨ unit.hasImport path = true := by
  induction paths generalizing unit with
  | nil => cases h
  | cons first rest ih =>
    rw [addImports]
    split
    next hsome =>
      rcases List.mem_cons.1 h with rfl | hrest
      · rw [CompilationUnit.addImport?] at hsome
        split at hsome
        next himport => exact .inr himport
        next => cases hsome
      · exact ih unit hrest
    next extended hextended =>
      rcases List.mem_cons.1 h with rfl | hrest
      · exact .inl List.mem_cons_self
      · rw [CompilationUnit.addImport?] at hextended
        split at hextended
        · cases hextended
        · cases hextended
          rcases ih _ hrest with hmem | himport
          · exact .inl (List.mem_cons_of_mem _ hmem)
          · have hor := (hasImport_append unit first path none).symm.trans himport
            rw [Bool.or_eq_true, beq_iff_eq] at hor
            rcases hor with himport | rfl
            · exact .inr himport
            · exact .inl List.mem_cons_self

theorem exists_single_of_hasImport {unit : CompilationUnit} {path : String}
    (h : unit.hasImport path = true) (hblank : Text.allBlank path = false) (index : TypeIndex) :
    ∃ found ∈ (ofUnit unit index).imports.single, found.path = path := by
  obtain ⟨decl, hdecl, himport⟩ := List.any_eq_true.1 h
  simp only [Bool.and_eq_true, Bool.not_eq_true', beq_iff_eq] at himport
  obtain ⟨⟨hstatic, hwildcard⟩, rfl⟩ := himport
  refine ⟨Imports.singleOf decl.path, List.mem_map_of_mem (List.mem_map_of_mem ?_), rfl⟩
  exact List.mem_filter.2 ⟨hdecl, by simp [hstatic, hwildcard, hblank]⟩

/-- What the annotations of a unit mean once it has been migrated. -/
theorem typesMean_migrateUnit {unit : CompilationUnit} (hdistinct : Distinct unit.mentions)
    {nextId : NodeId} {migration : UnitMigration} (h : migrateUnit unit nextId = .ok migration) :
    TypesMean migration.report.imports (ofUnit unit Framework.index)
      (ofUnit migration.unit Framework.index) unit.types migration.unit.types := by
  have hframe := migrateUnit_frame hdistinct h
  obtain ⟨⟨types, session⟩, hrun, h⟩ := except_bind_eq_ok.1 h
  have hmeans := conveys_migrateTypes (wellFormed_ofUnit unit Framework.index)
    (fun decl hdecl => hdistinct.of_mem hdecl) hrun
  have hadded : migration.report.imports = (addImports { unit with types := types }
      session.imports).2 := by
    cases h
    rfl
  have hframework : ∀ path ∈ session.imports, path ∈ Framework.addedImports := fun path hpath =>
    (hmeans.demands.framework path hpath).resolve_left (List.not_mem_nil)
  have himports : ∀ path ∈ migration.report.imports, path ∈ Framework.addedImports := by
    intro path hpath
    rw [hadded] at hpath
    exact hframework path ((addImports_spec _ _).2.2.2 path hpath)
  have hgrows : Grows migration.report.imports containerClass (ofUnit unit Framework.index)
      (ofUnit migration.unit Framework.index) :=
    grows_ofUnit Framework.index hframe.package hframe.names hframe.imports
      fun path hpath => Framework.allBlank_addedImports path (himports path hpath)
  have hprovided : Provided session.imports migration.report.imports
      (ofUnit unit Framework.index) := by
    intro path hpath
    rw [hadded]
    refine (mem_addImports { unit with types := types } hpath).imp_right fun himport => ?_
    exact exists_single_of_hasImport himport
      (Framework.allBlank_addedImports path (hframework path hpath)) Framework.index
  have htypes : migration.unit.types = types := by
    obtain ⟨names, htypesFrame, hclasses⟩ := migrateTypes_frame
      (wellFormed_ofUnit unit Framework.index) (fun decl hdecl => hdistinct.of_mem hdecl) hrun
    cases h
    dsimp only
    split
    next => exact (addImports_spec _ _).2.1
    next hsame =>
      simp only [MigrationReport.isChanged, Bool.or_eq_true, Bool.not_eq_true', not_or,
        Bool.not_eq_false, List.isEmpty_iff] at hsame
      exact (htypesFrame.eq_of_nil (hclasses.symm.trans hsame.1)).symm
  rw [htypes]
  exact hmeans.means _ _ ⟨wellFormed_ofUnit _ _, wellFormed_ofUnit _ _, rfl, himports, hgrows⟩
    hprovided

theorem typesMean_migrateUnit_sharingUnit : ∃ migration,
    migrateUnit sharingUnit 13 = .ok migration ∧ Distinct sharingUnit.mentions ∧
      TypesMean migration.report.imports (ofUnit sharingUnit Framework.index)
        (ofUnit migration.unit Framework.index) sharingUnit.types migration.unit.types := by
  obtain ⟨migration, h, -⟩ := exists_migrateUnit_sharingUnit
  exact ⟨migration, h, distinct_sharingUnit, typesMean_migrateUnit distinct_sharingUnit h⟩

/-- A unit with one advice class, which has a member type named like an emitted annotation and a parameter with an annotation that stands for nothing. -/
def hidingUnit : CompilationUnit :=
  let enter := writingEnter 1 []
  unitOf [Framework.advice] (classOf 0 "A" [.type (classOf 5 "AssignReturned" []),
    .method { enter with
      params := enter.params ++ [.single 4 (.marker "ToArgument") (.primitive .int) "y"] }])

/-- What is known of an annotation name in the classes of a unit: whether a method has it, and what it stands for. -/
def annotNameIn (unit : CompilationUnit) (name : String) : List (Bool × Option String) :=
  unit.types.map fun decl =>
    (decl.methods.any (·.annotNames.contains name),
      ((ofUnit unit Framework.index).nested decl).resolve? name)

/-- The member type hides the emitted annotation, and the import that is added for it captures the other annotation. -/
theorem annotNameIn_hidingUnit : ∃ migration, migrateUnit hidingUnit 6 = .ok migration ∧
    annotNameIn hidingUnit Framework.toArgumentsWrapper =
      [(false, some "A.AssignReturned.ToArguments")] ∧
    annotNameIn migration.unit Framework.toArgumentsWrapper =
      [(true, some "A.AssignReturned.ToArguments")] ∧
    annotNameIn hidingUnit Framework.toArgumentName = [(true, none)] ∧
    annotNameIn migration.unit Framework.toArgumentName = [(true, some Framework.toArgument)] := by
  have hrun : ((migrateUnit hidingUnit 6).toOption.map fun migration =>
      (annotNameIn migration.unit Framework.toArgumentsWrapper,
        annotNameIn migration.unit Framework.toArgumentName)) =
      some ([(true, some "A.AssignReturned.ToArguments")],
        [(true, some Framework.toArgument)]) ∧
      annotNameIn hidingUnit Framework.toArgumentsWrapper =
        [(false, some "A.AssignReturned.ToArguments")] ∧
      annotNameIn hidingUnit Framework.toArgumentName = [(true, none)] := by
    decide +kernel
  obtain ⟨hrun, hfree, hnone⟩ := hrun
  obtain ⟨migration, hmigration, hnames⟩ := Option.map_eq_some_iff.1 hrun
  obtain ⟨hhidden, hcaptured⟩ := Prod.mk.inj hnames
  exact ⟨migration, eq_ok_of_toOption hmigration, hfree, hhidden, hnone, hcaptured⟩

end AdviceMigration.Advice
