import AdviceMigration.Advice.Migration
import AdviceMigration.Proofs.Source.Supply

/-!
# Running a migration

How the steps of a migration run in a session. What a step can do is said once, by a lemma that takes a run of it apart with `Migrating.run_bind`, and the recursion over the types of a unit is walked once, in `told_of_migrateType`.
-/

namespace AdviceMigration.Advice

open AdviceMigration.Source AdviceMigration.Scope

namespace Migrating

variable {α β : Type} {session session' : Session}

theorem run_pure {value result : α} :
    (pure value : Migrating α).run session = .ok (result, session') ↔
      value = result ∧ session = session' := by
  constructor
  · rintro ⟨⟩
    exact ⟨rfl, rfl⟩
  · rintro ⟨rfl, rfl⟩
    rfl

/-- A step after another succeeds exactly when both do. -/
theorem run_bind {step : Migrating α} {next : α → Migrating β} {result : β} :
    (step >>= next).run session = .ok (result, session') ↔
      ∃ value middle, step.run session = .ok (value, middle) ∧
        (next value).run middle = .ok (result, session') := by
  rw [StateT.run_bind]
  cases h : step.run session with
  | error error =>
    constructor
    · rintro ⟨⟩
    · rintro ⟨_, _, ⟨⟩, -⟩
  | ok pair =>
    obtain ⟨value, middle⟩ := pair
    constructor
    · exact fun hnext => ⟨value, middle, rfl, hnext⟩
    · rintro ⟨_, _, ⟨⟩, hnext⟩
      exact hnext

theorem run_modify {change : Session → Session} {result : Unit} :
    (modify change : Migrating Unit).run session = .ok (result, session') ↔
      change session = session' := by
  constructor
  · rintro ⟨⟩
    rfl
  · rintro rfl
    rfl

theorem run_drawing {make : Fresh α} {result : α} :
    (drawing make).run session = .ok (result, session') ↔
      make.run session.nextId = (result, session'.nextId) ∧
        session' = { session with nextId := session'.nextId } := by
  constructor
  · rintro ⟨⟩
    exact ⟨rfl, rfl⟩
  · rintro ⟨hrun, hsession⟩
    change Except.ok ((make.run session.nextId).1,
      { session with nextId := (make.run session.nextId).2 }) = _
    rw [hrun, hsession]

/-- An edit in a session: it draws identities, and an error of it ends the migration. -/
theorem run_editing {edit : Fresh (Method × Except MigrateError α)} {method : Method} {result : α} :
    (editing edit).run session = .ok ((method, result), session') ↔
      edit.run session.nextId = ((method, .ok result), session'.nextId) ∧
        session' = { session with nextId := session'.nextId } := by
  rw [editing, run_bind]
  constructor
  · rintro ⟨⟨method', result'⟩, middle, hdraw, hrun⟩
    obtain ⟨hedit, hmiddle⟩ := run_drawing.1 hdraw
    cases result' with
    | error error => cases hrun
    | ok value =>
      obtain ⟨heq, rfl⟩ := run_pure.1 hrun
      cases heq
      exact ⟨hedit, hmiddle⟩
  · rintro ⟨hedit, hsession⟩
    exact ⟨_, _, run_drawing.2 ⟨hedit, hsession⟩, rfl⟩

theorem run_liftM {result : Except MigrateError α} {value : α} :
    (liftM result : Migrating α).run session = .ok (value, session') ↔
      result = .ok value ∧ session = session' := by
  cases result with
  | error error =>
    constructor
    · rintro ⟨⟩
    · rintro ⟨⟨⟩, -⟩
  | ok value' =>
    constructor
    · rintro ⟨⟩
      exact ⟨rfl, rfl⟩
    · rintro ⟨⟨⟩, rfl⟩
      rfl

end Migrating

/-! ### Steps of a migration -/

theorem run_finishMethod {method method' : Method} {marker : Nat} {values : List ValueToReturn}
    {session session' : Session}
    (h : (finishMethod method marker values).run session = .ok (method', session')) :
    (values = [] ∧ method' = method ∧ session' = session) ∨
      (values ≠ [] ∧ ∃ packed next,
        (packReturns (annotate method values marker) values).run session.nextId =
          ((packed, .ok ()), next) ∧
        method' = (foldReturns packed (values.map (·.name))).1 ∧
        session' = { session with
          imports := requireImports session.imports values, nextId := next }) := by
  rw [finishMethod] at h
  split at h
  next hempty =>
    obtain ⟨rfl, rfl⟩ := Migrating.run_pure.1 h
    exact .inl ⟨List.isEmpty_iff.1 hempty, rfl, rfl⟩
  next hne =>
    obtain ⟨_, middle, hmodify, h⟩ := Migrating.run_bind.1 h
    obtain ⟨⟨packed, _⟩, middle', hpack, h⟩ := Migrating.run_bind.1 h
    obtain ⟨rfl, rfl⟩ := Migrating.run_pure.1 h
    obtain ⟨hpack, hmiddle⟩ := Migrating.run_editing.1 hpack
    rw [← Migrating.run_modify.1 hmodify] at hpack hmiddle
    exact .inr ⟨mt List.isEmpty_iff.2 hne, packed, _, hpack, rfl, hmiddle⟩

/-- The enter method is migrated in three steps: it hands over shared values, it is finished, and declarations that became unused are removed. -/
theorem run_migrateEnter {plan : Plan} {enter : AdviceMethod} {method method' : Method}
    {values : List ValueToReturn} {session session' : Session}
    (h : (plan.migrateEnter enter method).run session = .ok ((method', values), session')) :
    ∃ moved carrier next finished,
      (plan.locals.isNonempty = true ∧
          (plan.locals.transformEnter method).run session.nextId = ((moved, .ok carrier), next) ∨
        plan.locals.isNonempty = false ∧ moved = method ∧ carrier = none ∧
          next = session.nextId) ∧
      values = carrier.toList ++ plan.enterWrites.filterMap ValueToReturn.ofBinding? ∧
      (finishMethod (plan.enterWrites.foldl dropReadOnly moved) enter.marker values).run
        { session with nextId := next } = .ok (finished, session') ∧
      method' = (values.map (·.decl)).foldl prune finished := by
  rw [Plan.migrateEnter] at h
  split at h
  next hnonempty =>
    obtain ⟨⟨moved, carrier⟩, middle, hmove, h⟩ := Migrating.run_bind.1 h
    obtain ⟨finished, last, hfinish, h⟩ := Migrating.run_bind.1 h
    obtain ⟨heq, rfl⟩ := Migrating.run_pure.1 h
    cases heq
    obtain ⟨hmove, hmiddle⟩ := Migrating.run_editing.1 hmove
    rw [hmiddle] at hfinish
    exact ⟨moved, carrier, _, finished, .inl ⟨hnonempty, hmove⟩, rfl, hfinish, rfl⟩
  next hempty =>
    rw [pure_bind] at h
    obtain ⟨finished, last, hfinish, h⟩ := Migrating.run_bind.1 h
    obtain ⟨heq, rfl⟩ := Migrating.run_pure.1 h
    cases heq
    exact ⟨method, none, _, finished, .inr ⟨Bool.not_eq_true _ ▸ hempty, rfl, rfl, rfl⟩, rfl,
      hfinish, rfl⟩

/-- The exit method is migrated in the same steps as the enter method, after an annotation has been chosen for the parameter that receives the carrier. -/
theorem run_migrateExit {plan : Plan} {exit : AdviceMethod} {method method' : Method}
    {enterPacked : Bool} {session session' : Session}
    (h : (plan.migrateExit exit method enterPacked).run session = .ok (method', session')) :
    ∃ moved change middle next finished,
      (plan.locals.isNonempty = true ∧ (∃ annot,
          (plan.exitAnnot exit).run session = .ok (annot, middle) ∧
          (plan.locals.transformExit method enterPacked annot).run middle.nextId =
            ((moved, .ok change), next)) ∨
        plan.locals.isNonempty = false ∧ moved = method ∧ change = none ∧ middle = session ∧
          next = session.nextId) ∧
      (finishMethod (plan.exitWrites.foldl dropReadOnly moved) exit.marker
        (plan.exitWrites.filterMap ValueToReturn.ofBinding?)).run
        { middle with nextId := next } = .ok (finished, session') ∧
      method' =
        (Plan.addedDecls change ++ (plan.exitWrites.filterMap ValueToReturn.ofBinding?).map
          (·.decl)).foldl prune finished := by
  rw [Plan.migrateExit] at h
  split at h
  next hnonempty =>
    obtain ⟨annot, middle, hannot, h⟩ := Migrating.run_bind.1 h
    obtain ⟨⟨moved, change⟩, middle', hmove, h⟩ := Migrating.run_bind.1 h
    obtain ⟨finished, last, hfinish, h⟩ := Migrating.run_bind.1 h
    obtain ⟨rfl, rfl⟩ := Migrating.run_pure.1 h
    obtain ⟨hmove, hmiddle⟩ := Migrating.run_editing.1 hmove
    rw [hmiddle] at hfinish
    exact ⟨moved, change, middle, _, finished, .inl ⟨hnonempty, annot, hannot, hmove⟩, hfinish, rfl⟩
  next hempty =>
    rw [pure_bind] at h
    obtain ⟨finished, last, hfinish, h⟩ := Migrating.run_bind.1 h
    obtain ⟨rfl, rfl⟩ := Migrating.run_pure.1 h
    exact ⟨method, none, session, _, finished,
      .inr ⟨Bool.not_eq_true _ ▸ hempty, rfl, rfl, rfl, rfl⟩, hfinish, rfl⟩

/-! ### Steps for a class -/

/-- The enter method is migrated in its place; a class without one stays. -/
theorem run_applyEnter {plan : Plan} {decl decl' : TypeDecl} {values : List ValueToReturn}
    {session session' : Session}
    (h : (plan.applyEnter decl).run session = .ok ((decl', values), session')) :
    ((∀ enter, plan.enter = some enter → decl.method? enter.id = none) ∧
        decl' = decl ∧ session' = session) ∨
      ∃ enter method method', plan.enter = some enter ∧ decl.method? enter.id = some method ∧
        (plan.migrateEnter enter method).run session = .ok ((method', values), session') ∧
        decl' = decl.replaceMethod method' := by
  rw [Plan.applyEnter] at h
  split at h
  next hnone =>
    obtain ⟨heq, rfl⟩ := Migrating.run_pure.1 h
    cases heq
    exact .inl ⟨fun enter henter => (nomatch hnone.symm.trans henter), rfl, rfl⟩
  next enter henter =>
    split at h
    next hmissing =>
      obtain ⟨heq, rfl⟩ := Migrating.run_pure.1 h
      cases heq
      refine .inl ⟨fun other hother => ?_, rfl, rfl⟩
      cases henter.symm.trans hother
      exact hmissing
    next method hmethod =>
      obtain ⟨⟨method', values'⟩, middle, hmigrate, h⟩ := Migrating.run_bind.1 h
      obtain ⟨heq, rfl⟩ := Migrating.run_pure.1 h
      cases heq
      exact .inr ⟨enter, method, method', henter, hmethod, hmigrate, rfl⟩

/-- The exit method is migrated in its place; a class without one stays. -/
theorem run_applyExit {plan : Plan} {decl decl' : TypeDecl} {enterPacked : Bool}
    {session session' : Session}
    (h : (plan.applyExit decl enterPacked).run session = .ok (decl', session')) :
    ((∀ exit, plan.exit = some exit → decl.method? exit.id = none) ∧
        decl' = decl ∧ session' = session) ∨
      ∃ exit method method', plan.exit = some exit ∧ decl.method? exit.id = some method ∧
        (plan.migrateExit exit method enterPacked).run session = .ok (method', session') ∧
        decl' = decl.replaceMethod method' := by
  rw [Plan.applyExit] at h
  split at h
  next hnone =>
    obtain ⟨rfl, rfl⟩ := Migrating.run_pure.1 h
    exact .inl ⟨fun exit hexit => (nomatch hnone.symm.trans hexit), rfl, rfl⟩
  next exit hexit =>
    split at h
    next hmissing =>
      obtain ⟨rfl, rfl⟩ := Migrating.run_pure.1 h
      refine .inl ⟨fun other hother => ?_, rfl, rfl⟩
      cases hexit.symm.trans hother
      exact hmissing
    next method hmethod =>
      obtain ⟨method', middle, hmigrate, h⟩ := Migrating.run_bind.1 h
      obtain ⟨rfl, rfl⟩ := Migrating.run_pure.1 h
      exact .inr ⟨exit, method, method', hexit, hmethod, hmigrate, rfl⟩

/-- A member with an empty line in front, if it is a method. -/
def spaced : Member → Member
  | .method method =>
    .method { method with layout := { method.layout with blankLineBefore := true } }
  | other => other

/-- Where a plan puts the container: in front of the enter method, or last without one. -/
def containerIndex (plan : Plan) (decl : TypeDecl) : Nat :=
  (plan.enter.bind fun enter => decl.memberIndex? enter.id).getD decl.members.length

/-- A class with its container in the place a plan gives it. -/
def withContainer (plan : Plan) (decl container : TypeDecl) : TypeDecl :=
  let index := containerIndex plan decl
  let container := { container with
    layout := { container.layout with blankLineBefore := decide (0 < index) } }
  { decl with members := (decl.members.modify index spaced).insertIdx index (.type container) }

/-- A class gets a container exactly if one is needed. -/
theorem run_insertContainer {plan : Plan} {decl decl' : TypeDecl} {session session' : Session}
    (h : (plan.insertContainer decl).run session = .ok (decl', session')) :
    (plan.locals.needsContainer = false ∧ decl' = decl ∧ session' = session) ∨
      (plan.locals.needsContainer = true ∧ ∃ container,
        plan.locals.container.run session.nextId = (container, session'.nextId) ∧
        session' = { session with nextId := session'.nextId } ∧
        decl' = withContainer plan decl container) := by
  rw [Plan.insertContainer] at h
  split at h
  next hneeds =>
    obtain ⟨container, middle, hdraw, h⟩ := Migrating.run_bind.1 h
    obtain ⟨rfl, rfl⟩ := Migrating.run_pure.1 h
    obtain ⟨hrun, hmiddle⟩ := Migrating.run_drawing.1 hdraw
    exact .inr ⟨hneeds, container, hrun, hmiddle, rfl⟩
  next hneeds =>
    obtain ⟨rfl, rfl⟩ := Migrating.run_pure.1 h
    exact .inl ⟨Bool.not_eq_true _ ▸ hneeds, rfl, rfl⟩

/-- A plan with changes gives the class its container and migrates both methods; one without changes does nothing. -/
theorem run_transform? {plan : Plan} {decl : TypeDecl} {result : Option TypeDecl}
    {session session' : Session}
    (h : (plan.transform? decl).run session = .ok (result, session')) :
    (plan.hasChanges = false ∧ result = none ∧ session' = session) ∨
      ∃ inserted entered changed values middle last, plan.hasChanges = true ∧
        (plan.insertContainer decl).run session = .ok (inserted, middle) ∧
        (plan.applyEnter inserted).run middle = .ok ((entered, values), last) ∧
        (plan.applyExit entered (arePacked values)).run last = .ok (changed, session') ∧
        result = some changed := by
  rw [Plan.transform?] at h
  split at h
  next hchanges =>
    obtain ⟨inserted, middle, hinsert, h⟩ := Migrating.run_bind.1 h
    obtain ⟨⟨entered, values⟩, last, henter, h⟩ := Migrating.run_bind.1 h
    obtain ⟨changed, _, hexit, h⟩ := Migrating.run_bind.1 h
    obtain ⟨rfl, rfl⟩ := Migrating.run_pure.1 h
    exact .inr ⟨inserted, entered, changed, values, middle, last, hchanges, hinsert, henter, hexit,
      rfl⟩
  next hchanges =>
    obtain ⟨rfl, rfl⟩ := Migrating.run_pure.1 h
    exact .inl ⟨Bool.not_eq_true _ ▸ hchanges, rfl, rfl⟩

/-- A class is migrated by its plan if it has one with changes, and reported then. -/
theorem run_migrateClass {scope : TypeScope} {decl decl' : TypeDecl} {session session' : Session}
    (h : (migrateClass scope decl).run session = .ok (decl', session')) :
    (Plan.create decl scope = .ok none ∧ decl' = decl ∧ session' = session) ∨
      ∃ plan result middle, Plan.create decl scope = .ok (some plan) ∧
        (plan.transform? decl).run session = .ok (result, middle) ∧
        (plan.hasChanges = false ∧ result = none ∧ decl' = decl ∧ middle = session ∧
            session' = session ∨
          plan.hasChanges = true ∧ result = some decl' ∧ session' =
            { middle with classes := middle.classes ++ [scope.enclosingType?.getD decl.name] }) := by
  obtain ⟨plan, middle, hlift, h⟩ := Migrating.run_bind.1 h
  obtain ⟨hplan, rfl⟩ := Migrating.run_liftM.1 hlift
  cases plan with
  | none =>
    obtain ⟨rfl, rfl⟩ := Migrating.run_pure.1 h
    exact .inl ⟨hplan, rfl, rfl⟩
  | some plan =>
    obtain ⟨result, middle, htransform, hreport⟩ := Migrating.run_bind.1 h
    refine .inr ⟨plan, result, middle, hplan, htransform, ?_⟩
    rcases run_transform? htransform with ⟨hchanges, rfl, rfl⟩ |
      ⟨_, _, changed, _, _, _, hchanges, -, -, -, rfl⟩
    · obtain ⟨rfl, rfl⟩ := Migrating.run_pure.1 hreport
      exact .inl ⟨hchanges, rfl, rfl, rfl, rfl⟩
    · obtain ⟨_, last, hmodify, hreport⟩ := Migrating.run_bind.1 hreport
      obtain ⟨rfl, rfl⟩ := Migrating.run_pure.1 hreport
      exact .inr ⟨hchanges, rfl, (Migrating.run_modify.1 hmodify).symm⟩

theorem exists_members_insertContainer {plan : Plan} {decl decl' : TypeDecl}
    {session session' : Session}
    (h : (plan.insertContainer decl).run session = .ok (decl', session')) :
    ∃ members, decl' = { decl with members := members } := by
  rcases run_insertContainer h with ⟨-, rfl, -⟩ | ⟨-, container, -, -, rfl⟩
  · exact ⟨decl'.members, by cases decl'; rfl⟩
  · exact ⟨_, rfl⟩

/-- Nothing of a class changes but its members. -/
theorem exists_members_migrateClass {scope : TypeScope} {decl decl' : TypeDecl}
    {session session' : Session}
    (h : (migrateClass scope decl).run session = .ok (decl', session')) :
    ∃ members, decl' = { decl with members := members } := by
  have hsame : ∃ members, decl = { decl with members := members } :=
    ⟨decl.members, by cases decl; rfl⟩
  rcases run_migrateClass h with ⟨-, rfl, -⟩ | ⟨plan, result, middle, -, htransform, hresult⟩
  · exact hsame
  rcases hresult with ⟨-, -, rfl, -, -⟩ | ⟨-, rfl, -⟩
  · exact hsame
  rcases run_transform? htransform with ⟨-, ⟨⟩, -⟩ |
    ⟨inserted, entered, _, values, _, _, -, hinsert, henter, hexit, ⟨⟩⟩
  obtain ⟨members, rfl⟩ := exists_members_insertContainer hinsert
  rcases run_applyEnter henter with ⟨-, rfl, -⟩ | ⟨_, _, _, -, -, -, rfl⟩ <;>
  rcases run_applyExit hexit with ⟨-, rfl, -⟩ | ⟨_, _, _, -, -, -, rfl⟩ <;>
  exact ⟨_, rfl⟩

/-! ### The recursion over types -/

theorem migrateType_eq (outer : TypeScope) (decl : TypeDecl) :
    migrateType outer decl = (do
      let members ← migrateMembers (outer.nested decl) decl.members
      migrateClass (outer.nested decl) { decl with members := members }) := by
  cases decl
  rw [migrateType]

/-- How members are migrated: the types among them in turn, each as it is told, and nothing else. -/
inductive InTurn (told : Session → TypeDecl → TypeDecl → Session → Prop) :
    Session → List Member → List Member → Session → Prop where
  | nil {session : Session} : InTurn told session [] [] session
  | type {session middle session' : Session} {decl decl' : TypeDecl} {rest rest' : List Member}
      (hdecl : told session decl decl' middle) (hrest : InTurn told middle rest rest' session') :
    InTurn told session (.type decl :: rest) (.type decl' :: rest') session'
  | other {session session' : Session} {member : Member} {rest rest' : List Member}
      (hmember : ∀ decl, member ≠ .type decl) (hrest : InTurn told session rest rest' session') :
    InTurn told session (member :: rest) (member :: rest') session'

/-- Whether what is told of a type follows from what is told of the types among its members. -/
def Rises (told : TypeScope → Session → TypeDecl → TypeDecl → Session → Prop) : Prop :=
  ∀ ⦃outer : TypeScope⦄ ⦃decl decl' : TypeDecl⦄ ⦃members : List Member⦄
    ⦃session middle session' : Session⦄,
    InTurn (told (outer.nested decl)) session decl.members members middle →
    (migrateClass (outer.nested decl) { decl with members := members }).run middle =
      .ok (decl', session') → told outer session decl decl' session'

mutual
/-- What follows for a type from the types among its members holds of every migrated type. -/
theorem told_of_migrateType {told : TypeScope → Session → TypeDecl → TypeDecl → Session → Prop}
    (hrises : Rises told) {outer : TypeScope} : (decl : TypeDecl) → {decl' : TypeDecl} →
    {session session' : Session} → (migrateType outer decl).run session = .ok (decl', session') →
    told outer session decl decl' session'
  | ⟨id, layout, annotations, modifiers, kind, name, typeParams, superTypes, interfaces, constants,
      members, endComments, closing⟩ => by
    intro h
    rw [migrateType_eq] at h
    obtain ⟨members', middle, hmembers, h⟩ := Migrating.run_bind.1 h
    exact hrises (inTurn_of_migrateMembers hrises members hmembers) h

theorem inTurn_of_migrateMembers
    {told : TypeScope → Session → TypeDecl → TypeDecl → Session → Prop} (hrises : Rises told)
    {scope : TypeScope} : (members : List Member) →
    {members' : List Member} → {session session' : Session} →
    (migrateMembers scope members).run session = .ok (members', session') →
    InTurn (told scope) session members members' session'
  | [] => by
    intro h
    rw [migrateMembers] at h
    obtain ⟨rfl, rfl⟩ := Migrating.run_pure.1 h
    exact .nil
  | .type decl :: rest => by
    intro h
    rw [migrateMembers] at h
    obtain ⟨decl', middle, hdecl, h⟩ := Migrating.run_bind.1 h
    obtain ⟨rest', last, hrest, h⟩ := Migrating.run_bind.1 h
    obtain ⟨rfl, rfl⟩ := Migrating.run_pure.1 h
    exact .type (told_of_migrateType hrises decl hdecl)
      (inTurn_of_migrateMembers hrises rest hrest)
  | .field decl :: rest | .method decl :: rest | .initializer decl :: rest => by
    intro h
    rw [migrateMembers] at h
    obtain ⟨rest', last, hrest, h⟩ := Migrating.run_bind.1 h
    obtain ⟨rfl, rfl⟩ := Migrating.run_pure.1 h
    exact .other nofun (inTurn_of_migrateMembers hrises rest hrest)
end

end AdviceMigration.Advice
