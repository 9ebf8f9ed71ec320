import AdviceMigration.Proofs.Advice.Carrier

/-!
# The container as a record

A container holds each handed value in a field of its own. A shared value is named after its enter parameter, the value that enter returned after its exit parameter. Parameters of one method have different names, so the only fields that can have the same name are the one for the returned value and one for a shared value. The name of the container class itself is fixed, whatever other types the class has.
-/

namespace AdviceMigration.Advice

open AdviceMigration.Source AdviceMigration.Scope

/-- A value that is handed from the enter method to the exit method. -/
inductive HandedValue where
  /-- What the enter method returned. -/
  | entered
  /-- What the two methods share under a key. -/
  | shared (key : String)
  deriving DecidableEq

namespace AdviceLocals

/-- The values that are handed over. -/
def values (locals : AdviceLocals) : List HandedValue :=
  (locals.exitEnter.map fun _ => .entered).toList ++
    locals.enter.map fun entry => .shared entry.1

/-- Whether a parameter of one of the two methods stands for a value. -/
def StandsFor (locals : AdviceLocals) (param : NodeId) : HandedValue → Prop
  | .entered => ∃ enter, locals.exitEnter = some enter ∧ enter.value.param = param
  | .shared key => ∃ handed, ((key, handed) ∈ locals.enter ∨ (key, handed) ∈ locals.exit) ∧
      handed.param = param

/-- The name of the parameter that a value is named after. -/
def nameOf? (locals : AdviceLocals) : HandedValue → Option String
  | .entered => locals.exitEnter.map (·.value.name)
  | .shared key => (locals.enter.find? fun entry => entry.1 == key).map (·.2.name)

/-- Whether a member of the container is the field that all parameters for a value lead to. -/
def IsFieldOf (locals : AdviceLocals) (value : HandedValue) (member : Member) : Prop :=
  ∃ id type name, member = .field (.simple id type name) ∧
    ∀ param, locals.StandsFor param value → locals.fieldName? param = some name

/-- Whether the exit parameter for the returned value has the name of an enter parameter for a shared value. -/
def Clashes (locals : AdviceLocals) : Prop :=
  ∃ enter, locals.exitEnter = some enter ∧ enter.value.name ∈ locals.enter.map (·.2.name)

/-- The parameters that name the values, in the order of the fields. -/
def named (locals : AdviceLocals) : List HandedParam :=
  (locals.exitEnter.map (·.value)).toList ++ locals.enter.map (·.2)

/-- What the lookup of fields relies on. -/
structure Consistent (locals : AdviceLocals) : Prop where
  keys : (locals.enter.map (·.1)).Nodup
  keysMatch : locals.exit.map (·.1) ⊆ locals.enter.map (·.1)
  names : (locals.enter.map (·.2.name)).Nodup
  params : (locals.enter.map (·.2.param) ++ locals.exitParams).Nodup

/-! ### Parameters of bindings -/

theorem map_ofMethod {scope : TypeScope} {method : Method} {bindings : List Binding}
    (h : Binding.ofMethod scope method = .ok bindings) :
    bindings.map (·.param) = method.params.map (·.id) ∧
      bindings.map (·.name) = method.params.map (·.name) := by
  have hbindings := mapM_eq_ok_iff.1 h
  exact ⟨map_eq_of_forall₂ (hbindings.imp fun _ _ h => (Binding.ofParam_eq_ok h).1),
    map_eq_of_forall₂ (hbindings.imp fun _ _ h => (Binding.ofParam_eq_ok h).2.1)⟩

theorem shared_sublist (bound : BoundMethod) :
    (bound.shared.map (·.2)).Sublist (bound.bindings.map HandedParam.ofBinding) := by
  rw [BoundMethod.shared]
  induction bound.bindings with
  | nil => exact .slnil
  | cons binding rest ih =>
    rw [List.filterMap_cons]
    cases hkey : binding.key? with
    | none => exact ih.cons _
    | some key => exact ih.cons_cons _

theorem nodup_shared {scope : TypeScope} {method : Method} {bindings : List Binding}
    (h : Binding.ofMethod scope method = .ok bindings) (hids : (method.params.map (·.id)).Nodup) :
    ((BoundMethod.shared ⟨method, bindings⟩).map (·.2.param)).Nodup := by
  have hsub := (shared_sublist ⟨method, bindings⟩).map (·.param)
  rw [List.map_map, List.map_map] at hsub
  exact List.Nodup.sublist hsub ((map_ofMethod h).1 ▸ hids)

/-- The parameter for the returned value shares nothing. -/
theorem nodup_exitParams {scope : TypeScope} {method : Method} {bindings : List Binding}
    {partner : Option BoundMethod} {locals : AdviceLocals}
    (h : Binding.ofMethod scope method = .ok bindings) (hids : (method.params.map (·.id)).Nodup)
    (hlocals : create partner (some ⟨method, bindings⟩) = .ok locals) : locals.exitParams.Nodup := by
  obtain ⟨-, hexit, -, hentered⟩ := create_eq_ok hlocals
  rw [exitParams, List.nodup_append, hexit]
  refine ⟨nodup_shared h hids, by cases locals.exitEnter <;> simp, ?_⟩
  intro shared hshared param hparam heq
  subst heq
  obtain ⟨entry, hentry, hentryParam⟩ := List.mem_map.1 hshared
  obtain ⟨binding, hbinding, hkey⟩ := List.mem_filterMap.1 hentry
  obtain ⟨key, hkey, rfl⟩ := Option.map_eq_some_iff.1 hkey
  obtain ⟨enter, henter, hvalue⟩ := Option.map_eq_some_iff.1 (Option.mem_toList.1 hparam)
  rw [henter] at hentered
  obtain ⟨other, hother, hotherParam, hisEntered⟩ := mem_of_entered hentered
  have hsame : binding = other := by
    have hnodup : (bindings.map (·.param)).Nodup := (map_ofMethod h).1 ▸ hids
    exact List.inj_on_of_nodup_map hnodup hbinding hother
      (hentryParam.trans (hvalue.symm.trans hotherParam.symm))
  subst hsame
  rw [Binding.key?] at hkey
  rw [Binding.isEntered] at hisEntered
  split at hkey
  next hrole => simp [hrole] at hisEntered
  next => cases hkey

theorem consistent_of_create {scope : TypeScope} {enter exit : Method}
    {bindings bindings' : List Binding} {locals : AdviceLocals}
    (henter : Binding.ofMethod scope enter = .ok bindings)
    (hexit : Binding.ofMethod scope exit = .ok bindings')
    (hnames : (enter.params.map (·.name)).Nodup)
    (hids : ((enter.params ++ exit.params).map (·.id)).Nodup)
    (hcreate : create (some ⟨enter, bindings⟩) (some ⟨exit, bindings'⟩) = .ok locals) :
    locals.Consistent := by
  have hshared := (create_eq_ok hcreate).1
  rw [List.map_append, List.nodup_append] at hids
  obtain ⟨hids, hids', hapart⟩ := hids
  refine ⟨?_, keys_subset_of_create hcreate, ?_, ?_⟩
  · have hkeys := hcreate
    rw [create_eq] at hkeys
    obtain ⟨shared, honce, -⟩ := except_bind_eq_ok.1 hkeys
    rw [hshared, ← eq_sharedOf_of_sharedOnceOf honce]
    exact nodup_keys_of_sharedOnceOf honce
  · have hsub := (shared_sublist ⟨enter, bindings⟩).map (·.name)
    rw [List.map_map, List.map_map] at hsub
    rw [hshared]
    exact List.Nodup.sublist hsub ((map_ofMethod henter).2 ▸ hnames)
  · rw [List.nodup_append]
    refine ⟨hshared ▸ nodup_shared henter hids, nodup_exitParams hexit hids' hcreate, ?_⟩
    intro param hparam other hother
    refine hapart param ?_ other (exitParams_subset hexit hcreate hother)
    obtain ⟨entry, hentry, rfl⟩ := List.mem_map.1 hparam
    rw [hshared] at hentry
    obtain ⟨binding, hbinding, heq, -⟩ := exists_of_mem_shared hentry
    exact heq ▸ param_mem_of_binding henter hbinding

/-! ### Fields -/

variable {locals : AdviceLocals} {param param' : NodeId} {value value' : HandedValue}

theorem Consistent.nameOf?_shared (h : locals.Consistent) {key : String} {handed : HandedParam}
    (hmem : (key, handed) ∈ locals.enter) : locals.nameOf? (.shared key) = some handed.name := by
  rw [nameOf?, @find?_id_of_mem _ _ _ _ (fun entry => entry.1) _ h.keys _ hmem]
  rfl

/-- A shared value is named after its enter parameter. -/
theorem Consistent.exists_enter (h : locals.Consistent) {key : String}
    (hparam : locals.StandsFor param (.shared key)) : ∃ handed, (key, handed) ∈ locals.enter := by
  obtain ⟨handed, hmem | hmem, -⟩ := hparam
  · exact ⟨handed, hmem⟩
  · obtain ⟨⟨_, handed'⟩, hmem', rfl⟩ := List.mem_map.1
      (h.keysMatch (List.mem_map_of_mem (f := fun entry => entry.1) hmem))
    exact ⟨handed', hmem'⟩

/-- A parameter leads to the field of the value that it stands for. -/
theorem Consistent.fieldName?_eq (h : locals.Consistent) (hparam : locals.StandsFor param value) :
    locals.fieldName? param = locals.nameOf? value := by
  obtain ⟨henter, hexitParams, hapart⟩ := List.nodup_append.1 h.params
  obtain ⟨hexit, -, hapart'⟩ := List.nodup_append.1 hexitParams
  have hnotEntered : ∀ {param}, (∀ enter, locals.exitEnter = some enter →
      enter.value.param ≠ param) → (locals.exitEnter.filter fun enter =>
        enter.value.param == param) = none := by
    intro param hne
    apply Option.filter_eq_none_iff.2
    intro enter hsome
    simpa using hne enter hsome
  cases value with
  | entered =>
    obtain ⟨enter, hsome, rfl⟩ := hparam
    rw [fieldName?, nameOf?, hsome, Option.filter_some, if_pos (beq_self_eq_true _)]
    rfl
  | shared key =>
    obtain ⟨handed, hmem | hmem, rfl⟩ := hparam
    · have hfound := @find?_id_of_mem _ _ _ _ (fun entry => entry.2.param) _ henter _ hmem
      rw [fieldName?, hnotEntered, hfound, h.nameOf?_shared hmem]
      · rintro enter hsome heq
        refine hapart _ (List.mem_map_of_mem (f := fun entry => entry.2.param) hmem) _ ?_ heq.symm
        simp [exitParams, hsome]
    · have hfound := @find?_id_of_mem _ _ _ _ (fun entry => entry.2.param) _ hexit _ hmem
      have hnone : (locals.enter.find? fun entry => entry.2.param == handed.param) = none := by
        apply List.find?_eq_none.2
        intro entry hentry
        rw [beq_iff_eq]
        refine hapart _ (List.mem_map_of_mem (f := fun entry => entry.2.param) hentry) _ ?_
        exact List.mem_append_left _ (List.mem_map_of_mem (f := fun entry => entry.2.param) hmem)
      rw [fieldName?, hnotEntered, hnone, hfound, nameOf?]
      · simp only [Option.bind_eq_bind, Option.bind_some, Option.pure_def]
        exact Option.map_eq_bind.symm
      · rintro enter hsome heq
        refine hapart' _ (List.mem_map_of_mem (f := fun entry => entry.2.param) hmem) _ ?_ heq.symm
        simp [hsome]

theorem Consistent.nodup_values (h : locals.Consistent) : locals.values.Nodup := by
  rw [values, List.nodup_append]
  refine ⟨by cases locals.exitEnter <;> simp, ?_, ?_⟩
  · have hshared := h.keys.map (f := HandedValue.shared) fun _ _ => HandedValue.shared.inj
    rwa [List.map_map] at hshared
  · rintro value hentered _ hshared rfl
    obtain ⟨entry, -, rfl⟩ := List.mem_map.1 hshared
    cases locals.exitEnter <;> simp at hentered

/-- The values are named after the parameters that name the fields. -/
theorem Consistent.named_eq (h : locals.Consistent) :
    List.Forall₂ (fun value param => locals.nameOf? value = some param.name) locals.values
      locals.named := by
  refine List.rel_append ?_ ?_
  · cases hentered : locals.exitEnter with
    | none => exact .nil
    | some enter => exact .cons (by rw [nameOf?, hentered]; rfl) .nil
  · rw [List.forall₂_map_left_iff, List.forall₂_map_right_iff]
    apply List.forall₂_same.2
    exact fun entry hentry => h.nameOf?_shared hentry

theorem fieldsFor_eq (params : List HandedParam) (next : NodeId) :
    List.Forall₂ (fun param member => ∃ id, member = .field (.simple id param.type param.name))
      params ((fieldsFor params).run next).1 := by
  induction params generalizing next with
  | nil => exact .nil
  | cons param rest ih => exact .cons ⟨next, rfl⟩ (ih (next + 1))

/-- Each value has a field, in order. -/
theorem Consistent.isFieldOf_container (h : locals.Consistent) (next : NodeId) :
    List.Forall₂ locals.IsFieldOf locals.values (locals.container.run next).1.members := by
  refine forall₂_comp ?_ h.named_eq (fieldsFor_eq locals.named (next + 1))
  rintro value param _ hname ⟨id, rfl⟩
  exact ⟨id, param.type, param.name, rfl, fun other hother => (h.fieldName?_eq hother).trans hname⟩

theorem fieldNames_container (locals : AdviceLocals) (next : NodeId) :
    (locals.container.run next).1.fieldNames = locals.named.map (·.name) := by
  have hfields := fieldsFor_eq locals.named (next + 1)
  change List.flatMap _ ((fieldsFor locals.named).run (next + 1)).1 = _
  generalize locals.named = params at hfields ⊢
  generalize ((fieldsFor params).run (next + 1)).1 = members at hfields ⊢
  induction hfields with
  | nil => rfl
  | cons hfield _ ih =>
    obtain ⟨id, rfl⟩ := hfield
    exact congrArg (_ :: ·) ih

theorem Consistent.nodup_named_iff (h : locals.Consistent) :
    (locals.named.map (·.name)).Nodup ↔ ¬ locals.Clashes := by
  rw [named, Clashes]
  cases locals.exitEnter with
  | none => simpa [Function.comp_def] using h.names
  | some enter => simpa [Function.comp_def] using fun _ => h.names

/-- Parameters for different values lead to different fields unless the names of two values clash. -/
theorem Consistent.fieldName?_injective_iff (h : locals.Consistent) :
    (∀ value value' param param', value ≠ value' → locals.StandsFor param value →
      locals.StandsFor param' value' → locals.fieldName? param ≠ locals.fieldName? param') ↔
      ¬ locals.Clashes := by
  constructor
  · rintro hdifferent ⟨enter, hsome, hname⟩
    obtain ⟨⟨key, handed⟩, hmem, hsame⟩ := List.mem_map.1 hname
    have hentered : locals.StandsFor enter.value.param .entered := ⟨enter, hsome, rfl⟩
    have hshared : locals.StandsFor handed.param (.shared key) := ⟨handed, .inl hmem, rfl⟩
    apply hdifferent .entered (.shared key) _ _ nofun hentered hshared
    rw [h.fieldName?_eq hentered, h.fieldName?_eq hshared, h.nameOf?_shared hmem, nameOf?, hsome]
    exact congrArg some hsame.symm
  · intro hclash value value' param param' hne hparam hparam' heq
    rw [h.fieldName?_eq hparam, h.fieldName?_eq hparam'] at heq
    have hnames : ∀ {enter key handed}, locals.exitEnter = some enter →
        (key, handed) ∈ locals.enter → enter.value.name ≠ handed.name :=
      fun hsome hmem hsame => hclash ⟨_, hsome, List.mem_map.2 ⟨_, hmem, hsame.symm⟩⟩
    match value, value', hparam, hparam' with
    | .entered, .entered, _, _ => exact hne rfl
    | .entered, .shared key, ⟨enter, hsome, _⟩, hparam' =>
      obtain ⟨handed, hmem⟩ := h.exists_enter hparam'
      rw [h.nameOf?_shared hmem, nameOf?, hsome] at heq
      exact hnames hsome hmem (Option.some.inj heq)
    | .shared key, .entered, hparam, ⟨enter, hsome, _⟩ =>
      obtain ⟨handed, hmem⟩ := h.exists_enter hparam
      rw [h.nameOf?_shared hmem, nameOf?, hsome] at heq
      exact hnames hsome hmem (Option.some.inj heq).symm
    | .shared key, .shared key', hparam, hparam' =>
      obtain ⟨handed, hmem⟩ := h.exists_enter hparam
      obtain ⟨handed', hmem'⟩ := h.exists_enter hparam'
      rw [h.nameOf?_shared hmem, h.nameOf?_shared hmem', Option.some_inj] at heq
      exact hne (congrArg (HandedValue.shared ·.1)
        (List.inj_on_of_nodup_map h.names hmem hmem' heq))

end AdviceLocals

/-! ### The class around the container -/

theorem exists_typesAmong_insertIdx {members : List Member} {index : Nat}
    (h : index ≤ members.length) (decl : TypeDecl) :
    ∃ front back, typesAmong members = front ++ back ∧
      typesAmong (members.insertIdx index (.type decl)) = front ++ decl :: back := by
  induction members generalizing index with
  | nil =>
    obtain rfl := Nat.le_zero.1 h
    exact ⟨[], [], rfl, rfl⟩
  | cons member rest ih =>
    cases index with
    | zero => exact ⟨[], typesAmong (member :: rest), rfl, rfl⟩
    | succ index =>
      obtain ⟨front, back, htypes, hinsert⟩ := ih (Nat.le_of_succ_le_succ h)
      cases member with
      | type inner => exact ⟨inner :: front, back, congrArg _ htypes, congrArg _ hinsert⟩
      | _ => exact ⟨front, back, htypes, hinsert⟩

/-- A class gets the container as one more member type. -/
theorem insertContainer_types {plan : Plan} {decl decl' : TypeDecl} {session session' : Session}
    (hneeds : plan.locals.needsContainer = true)
    (h : (plan.insertContainer decl).run session = .ok (decl', session')) :
    ∃ container front back, decl.memberTypes = front ++ back ∧
      decl'.memberTypes = front ++ container :: back ∧ container.name = containerClass ∧
      container.members = (plan.locals.container.run session.nextId).1.members := by
  rcases run_insertContainer h with ⟨hnone, -, -⟩ | ⟨-, container, hrun, -, rfl⟩
  · cases hnone.symm.trans hneeds
  have hdrawn : (plan.locals.container.run session.nextId).1 = container := congrArg Prod.fst hrun
  have hle : containerIndex plan decl ≤
      (decl.members.modify (containerIndex plan decl) spaced).length := by
    rw [List.length_modify, containerIndex]
    cases hfound : plan.enter.bind fun enter => decl.memberIndex? enter.id with
    | none => exact Nat.le_refl _
    | some found =>
      obtain ⟨enter, -, hfound⟩ := Option.bind_eq_some_iff.1 hfound
      exact Nat.le_of_lt (List.findIdx?_eq_some_iff_getElem.1 hfound).1
  obtain ⟨front, back, htypes, hinsert⟩ := exists_typesAmong_insertIdx hle { container with
    layout := { container.layout with blankLineBefore := decide (0 < containerIndex plan decl) } }
  rw [TypeDecl.memberTypes_eq, TypeDecl.memberTypes_eq,
    ← (modify_spaced decl.members (containerIndex plan decl)).2, hdrawn]
  refine ⟨_, front, back, htypes, hinsert, ?_, rfl⟩
  rw [← hdrawn]
  rfl

theorem applyEnter_types {plan : Plan} {decl decl' : TypeDecl} {values : List ValueToReturn}
    {session session' : Session}
    (h : (plan.applyEnter decl).run session = .ok ((decl', values), session')) :
    decl'.memberTypes = decl.memberTypes := by
  rcases run_applyEnter h with ⟨-, rfl, -⟩ | ⟨_, _, method, -, -, -, rfl⟩
  · rfl
  · rw [TypeDecl.memberTypes_eq, TypeDecl.memberTypes_eq]
    exact typesAmong_replace method decl.members

theorem applyExit_types {plan : Plan} {decl decl' : TypeDecl} {enterPacked : Bool}
    {session session' : Session}
    (h : (plan.applyExit decl enterPacked).run session = .ok (decl', session')) :
    decl'.memberTypes = decl.memberTypes := by
  rcases run_applyExit h with ⟨-, rfl, -⟩ | ⟨_, _, method, -, -, -, rfl⟩
  · rfl
  · rw [TypeDecl.memberTypes_eq, TypeDecl.memberTypes_eq]
    exact typesAmong_replace method decl.members

theorem transform?_types {plan : Plan} {decl decl' : TypeDecl} {session session' : Session}
    (hneeds : plan.locals.needsContainer = true)
    (h : (plan.transform? decl).run session = .ok (some decl', session')) :
    ∃ container front back, decl.memberTypes = front ++ back ∧
      decl'.memberTypes = front ++ container :: back ∧ container.name = containerClass ∧
      container.members = (plan.locals.container.run session.nextId).1.members := by
  rcases run_transform? h with ⟨-, ⟨⟩, -⟩ |
    ⟨decl₁, decl₂, _, values, session₁, session₂, -, hinsert, henter, hexit, ⟨⟩⟩
  rw [applyExit_types hexit, applyEnter_types henter]
  exact insertContainer_types hneeds hinsert

/-- A container has a field for each value, and all parameters for a value lead to its field. The fields have different names, and parameters for different values different fields, unless the parameter for the returned value has the name of a shared one. The class that gets the container has no other member type of its name unless it had one before. -/
theorem container_faithful {scope : TypeScope} {enter exit : Method}
    {bindings bindings' : List Binding} {locals : AdviceLocals}
    (henter : Binding.ofMethod scope enter = .ok bindings)
    (hexit : Binding.ofMethod scope exit = .ok bindings')
    (hnames : (enter.params.map (·.name)).Nodup)
    (hids : ((enter.params ++ exit.params).map (·.id)).Nodup)
    (hcreate : AdviceLocals.create (some ⟨enter, bindings⟩) (some ⟨exit, bindings'⟩) = .ok locals)
    (hneeds : locals.needsContainer = true) :
    locals.values.Nodup ∧
    (∀ next, List.Forall₂ locals.IsFieldOf locals.values (locals.container.run next).1.members) ∧
    (∀ next, (locals.container.run next).1.fieldNames.Nodup ↔ ¬ locals.Clashes) ∧
    ((∀ value value' param param', value ≠ value' → locals.StandsFor param value →
      locals.StandsFor param' value' → locals.fieldName? param ≠ locals.fieldName? param') ↔
      ¬ locals.Clashes) ∧
    ∀ (plan : Plan) (decl decl' : TypeDecl) (session session' : Session), plan.locals = locals →
      (plan.transform? decl).run session = .ok (some decl', session') →
      ∃ (container : TypeDecl) (front back : List TypeDecl),
        decl'.memberTypes = front ++ container :: back ∧
        container.members = (locals.container.run session.nextId).1.members ∧
        ((∀ other ∈ front ++ back, other.name ≠ container.name) ↔
          ∀ other ∈ decl.memberTypes, other.name ≠ containerClass) := by
  have hconsistent := AdviceLocals.consistent_of_create henter hexit hnames hids hcreate
  refine ⟨hconsistent.nodup_values, hconsistent.isFieldOf_container, ?_,
    hconsistent.fieldName?_injective_iff, ?_⟩
  · intro next
    rw [AdviceLocals.fieldNames_container]
    exact hconsistent.nodup_named_iff
  · rintro plan decl decl' session session' rfl htransform
    obtain ⟨container, front, back, hbefore, hafter, hname, hmembers⟩ :=
      transform?_types hneeds htransform
    refine ⟨container, front, back, hafter, hmembers, ?_⟩
    rw [hbefore, hname]

/-- An enter method that returns the value that it shares as `a`. -/
def handingEnter : Method :=
  let shared : Annot := .single "Advice.Local" (.expr (.literal ⟨.string, "\"k\""⟩))
  { methodOf 2 [.marker "Advice.OnMethodEnter"] "enter" [.single 3 shared objectType "a"]
      (.ret (some (.name 4 "a"))) with returnType := some objectType }

/-- An exit method that shares the value as `b` and has a parameter for the returned value. -/
def handingExit (returned : String) : Method :=
  let shared : Annot := .single "Advice.Local" (.expr (.literal ⟨.string, "\"k\""⟩))
  methodOf 5 [.marker "Advice.OnMethodExit"] "exit"
    [.single 6 shared objectType "b", .single 7 (.marker "Advice.Enter") objectType returned]
    (.expr (.assign (.name 8 "b") .assign (.name 9 returned)))

/-- A class with these methods and a member type. -/
def handingClass (inner returned : String) : TypeDecl :=
  classOf 0 "A"
    [.type (classOf 1 inner []), .method handingEnter, .method (handingExit returned)]

/-- The scope inside the class, in a file that imports the annotations. -/
def handingScope (inner returned : String) : TypeScope :=
  let decl := handingClass inner returned
  (TypeScope.ofUnit (unitOf [Framework.advice] decl) Framework.index).nested decl

/-- The fields are `c` for the returned value and `a` for the shared one. -/
theorem container_faithful_handingClass :
    let scope := handingScope "Config" "c"
    let exit := handingExit "c"
    ∃ bindings bindings' locals plan decl' session',
      Binding.ofMethod scope handingEnter = .ok bindings ∧
      Binding.ofMethod scope exit = .ok bindings' ∧
      (handingEnter.params.map (·.name)).Nodup ∧
      ((handingEnter.params ++ exit.params).map (·.id)).Nodup ∧
      AdviceLocals.create (some ⟨handingEnter, bindings⟩) (some ⟨exit, bindings'⟩) = .ok locals ∧
      locals.needsContainer = true ∧ plan.locals = locals ∧
      ((Plan.transform? plan (handingClass "Config" "c")).run ⟨10, [], []⟩ =
        .ok (some decl', session')) ∧
      (locals.container.run 10).1.fieldNames = ["c", "a"] ∧
      (locals.container.run 10).1.fieldNames.Nodup ∧
      List.Forall₂ locals.IsFieldOf locals.values (locals.container.run 10).1.members ∧
      ∃ container front back, decl'.memberTypes = front ++ container :: back ∧
        container.members = (locals.container.run 10).1.members ∧
        ∀ other ∈ front ++ back, other.name ≠ container.name := by
  intro scope exit
  let plan (bindings bindings' : List Binding) (locals : AdviceLocals) : Plan :=
    ⟨some ⟨2, "enter", 0, "Advice.OnMethodEnter", bindings⟩,
      some ⟨5, "exit", 0, "Advice.OnMethodExit", bindings'⟩, locals⟩
  have hrun : ((Binding.ofMethod scope handingEnter).toOption.bind fun bindings =>
      (Binding.ofMethod scope exit).toOption.bind fun bindings' =>
        (AdviceLocals.create (some ⟨handingEnter, bindings⟩)
          (some ⟨exit, bindings'⟩)).toOption.bind fun locals =>
            ((Plan.transform? (plan bindings bindings' locals) (handingClass "Config" "c")).run
              ⟨10, [], []⟩).toOption.map fun result =>
                (locals.needsContainer, result.1.isSome,
                  locals.exitEnter.map (·.value.name), locals.enter.map (·.2.name))) =
      some (true, true, some "c", ["a"]) := by
    decide +kernel
  obtain ⟨bindings, hbindings, hrun⟩ := Option.bind_eq_some_iff.1 hrun
  obtain ⟨bindings', hbindings', hrun⟩ := Option.bind_eq_some_iff.1 hrun
  obtain ⟨locals, hlocals, hrun⟩ := Option.bind_eq_some_iff.1 hrun
  obtain ⟨⟨result, session'⟩, htransform, hrun⟩ := Option.map_eq_some_iff.1 hrun
  simp only [Prod.mk.injEq] at hrun
  obtain ⟨hneeds, hsome, hentered, hshared⟩ := hrun
  obtain ⟨decl', rfl⟩ := Option.isSome_iff_exists.1 hsome
  have hbindings := eq_ok_of_toOption hbindings
  have hbindings' := eq_ok_of_toOption hbindings'
  have hlocals := eq_ok_of_toOption hlocals
  have htransform := eq_ok_of_toOption htransform
  have hparams : (handingEnter.params.map (·.name)).Nodup := by decide
  have hids : ((handingEnter.params ++ exit.params).map (·.id)).Nodup := by decide
  obtain ⟨-, hfields, hnames, -, hclass⟩ :=
    container_faithful hbindings hbindings' hparams hids hlocals hneeds
  obtain ⟨container, front, back, hafter, hmembers, hiff⟩ := hclass _ _ _ _ _ rfl htransform
  refine ⟨bindings, bindings', locals, _, decl', session', hbindings, hbindings', hparams, hids,
    hlocals, hneeds, rfl, htransform, ?_, (hnames 10).2 ?_, hfields 10, container, front, back,
    hafter, hmembers, hiff.2 ?_⟩
  · obtain ⟨enter, henter, hname⟩ := Option.map_eq_some_iff.1 hentered
    rw [AdviceLocals.fieldNames_container, AdviceLocals.named, henter]
    simpa [Function.comp_def, hname] using hshared
  · rintro ⟨enter, henter, hmem⟩
    rw [henter, Option.map_some, Option.some_inj] at hentered
    rw [hshared, hentered] at hmem
    exact absurd hmem (by decide)
  · decide

/-- A parameter for the returned value that has the name of a shared parameter gets a second field of that name, and a class with a type of the name of the container gets a second such type. -/
theorem container_doubled :
    let decl := handingClass containerClass "a"
    (handingEnter.params.map (·.name)).Nodup ∧ ((handingExit "a").params.map (·.name)).Nodup ∧
    ∃ plan decl' session',
      Plan.create decl (handingScope containerClass "a") = .ok (some plan) ∧
      AdviceLocals.create (plan.enter.bind (·.bound? decl)) (plan.exit.bind (·.bound? decl)) =
        .ok plan.locals ∧
      plan.locals.needsContainer = true ∧ plan.locals.values = [.entered, .shared "k"] ∧
      plan.locals.fieldName? 3 = some "a" ∧ plan.locals.fieldName? 7 = some "a" ∧
      (plan.locals.container.run 10).1.fieldNames = ["a", "a"] ∧
      (plan.transform? decl).run ⟨10, [], []⟩ = .ok (some decl', session') ∧
      decl'.memberTypes.map (·.name) = [containerClass, containerClass] := by
  intro decl
  have hrun : (Plan.create decl (handingScope containerClass "a")).toOption.bind (fun found =>
      found.bind fun plan => ((plan.transform? decl).run ⟨10, [], []⟩).toOption.bind fun result =>
        result.1.map fun decl' =>
          ([plan.locals.needsContainer, decide (plan.locals.values = [.entered, .shared "k"])],
            [plan.locals.fieldName? 3, plan.locals.fieldName? 7],
            (plan.locals.container.run 10).1.fieldNames, decl'.memberTypes.map (·.name))) =
      some ([true, true], [some "a", some "a"], ["a", "a"], [containerClass, containerClass]) := by
    decide +kernel
  obtain ⟨found, hcreate, hrun⟩ := Option.bind_eq_some_iff.1 hrun
  obtain ⟨plan, hplan, hrun⟩ := Option.bind_eq_some_iff.1 hrun
  obtain ⟨⟨result, session'⟩, htransform, hrun⟩ := Option.bind_eq_some_iff.1 hrun
  obtain ⟨decl', hresult, hrun⟩ := Option.map_eq_some_iff.1 hrun
  simp only [Prod.mk.injEq, List.cons.injEq, decide_eq_true_eq, and_true] at hrun
  obtain ⟨⟨hneeds, hvalues⟩, ⟨henter, hexit⟩, hnames, htypes⟩ := hrun
  have hcreate := hplan ▸ eq_ok_of_toOption hcreate
  have htransform := (show result = some decl' from hresult) ▸ eq_ok_of_toOption htransform
  exact ⟨by decide, by decide, plan, decl', session', hcreate,
    (Plan.creates_of_create hcreate).locals, hneeds, hvalues, henter, hexit, hnames, htransform,
    htypes⟩

end AdviceMigration.Advice
