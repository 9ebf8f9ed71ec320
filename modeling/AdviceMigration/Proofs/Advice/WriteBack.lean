import AdviceMigration.Advice.WriteBack
import AdviceMigration.Proofs.Execution.BareReturns
import AdviceMigration.Proofs.Execution.Completion
import AdviceMigration.Proofs.Source.Supply

/-!
# Packed returns give back the final values

A body whose returns give nothing back leaves final values in its variables. Once its returns are packed it gives these values back, on every path through it: packing puts one template into every `return` and a `return` where control can run off the end, and evaluating the template reads the variables.
-/

namespace AdviceMigration.Execution.Machine

open AdviceMigration.Source

variable (machine : Machine)

/-- Several values as one: a single value is itself, others become an array. -/
def pack : List machine.Value → machine.Value
  | [value] => value
  | values => machine.array values

/-- The values of variables as one. -/
def packed (names : List String) (state : machine.State) : machine.Value :=
  machine.pack (names.map (machine.lookup state))

theorem readsVariables_packed (names : List String) :
    ReadsVariables (machine.packed names) := by
  intro state state' hlookup
  rw [packed, packed, List.map_congr_left fun name _ => hlookup name]

end AdviceMigration.Execution.Machine

namespace AdviceMigration.Advice

open AdviceMigration.Source AdviceMigration.Execution AdviceMigration.Execution.Machine

/-! ### The template -/

/-- Whether an expression gives back the named variables: one of them as it is, others in an array. -/
inductive IsTemplate : List String → Expr → Prop where
  | single {id : NodeId} {name : String} : IsTemplate [name] (.name id name)
  | array {names : List String} {items : List Expr} (hitems : items.map Expr.name? = names.map some)
      (hlength : names.length ≠ 1) : IsTemplate names (.newArray objectType [none] (some items))

theorem name?_eq_some_iff {expr : Expr} {name : String} :
    expr.name? = some name ↔ ∃ id, expr = .name id name := by
  cases expr <;> simp [Expr.name?]

theorem IsTemplate.isStatement_eq_false {names : List String} {expr : Expr}
    (h : IsTemplate names expr) : expr.isStatement = false := by
  cases h <;> rfl

theorem evalItems_of_names {machine : Machine} (items : List Expr) (names : List String)
    (hitems : items.map Expr.name? = names.map some) (state : machine.State) :
    machine.evalItems items state = some (.ok (names.map (machine.lookup state)), state) := by
  induction items generalizing names with
  | nil =>
    cases names with
    | nil => rfl
    | cons name names => cases hitems
  | cons item items ih =>
    cases names with
    | nil => cases hitems
    | cons name names =>
      obtain ⟨hitem, hrest⟩ := List.cons.inj hitems
      obtain ⟨id, rfl⟩ := name?_eq_some_iff.1 hitem
      simp [evalItems, eval, ih names hrest]

/-- A template gives back the values of its variables and changes nothing. -/
theorem IsTemplate.eval_eq {names : List String} {expr : Expr} (h : IsTemplate names expr)
    {machine : Machine} (state : machine.State) :
    machine.eval expr state = some (.ok (machine.packed names state), state) := by
  cases h with
  | single => rfl
  | @array names items hitems hlength =>
    have hpack : machine.packed names state = machine.array (names.map (machine.lookup state)) := by
      match names, hlength with
      | [], _ => rfl
      | _ :: _ :: _, _ => rfl
      | [_], hlength => exact absurd rfl hlength
    simp [eval, evalItems_of_names items names hitems, hpack]

theorem name?_nameSlots (values : List ValueToReturn) (next : NodeId) :
    ((nameSlots values).run next).1.map Expr.name? = values.map fun value => some value.name := by
  induction values generalizing next with
  | nil => rfl
  | cons value rest ih => exact congrArg (_ :: ·) (ih (next + 1))

theorem isTemplate_returnTemplate {values : List ValueToReturn} (hvalues : values ≠ [])
    (next : NodeId) : ∃ template, ((returnTemplate values).run next).1 = some template ∧
      IsTemplate (values.map (·.name)) template := by
  match values, hvalues with
  | [value], _ => exact ⟨_, rfl, .single⟩
  | first :: second :: rest, _ =>
    refine ⟨_, rfl, .array ?_ (by simp)⟩
    rw [List.map_map]
    exact name?_nameSlots (first :: second :: rest) next

theorem name?_traverseList_renumber (items : List Expr) (names : List String)
    (hitems : items.map Expr.name? = names.map some) (next : NodeId) :
    ((Expr.traverseList .renumber items).run next).1.map Expr.name? = names.map some := by
  induction items generalizing names next with
  | nil => exact hitems
  | cons item items ih =>
    cases names with
    | nil => cases hitems
    | cons name names =>
      obtain ⟨hitem, hrest⟩ := List.cons.inj hitems
      obtain ⟨id, rfl⟩ := name?_eq_some_iff.1 hitem
      exact congrArg (_ :: ·) (ih names hrest (next + 1))

/-- A copy of a template is a template. -/
theorem IsTemplate.freshCopy {names : List String} {expr : Expr} (h : IsTemplate names expr)
    (next : NodeId) : IsTemplate names (expr.freshCopy.run next).1 := by
  cases h with
  | single => exact .single
  | array hitems hlength =>
    exact .array (name?_traverseList_renumber _ _ hitems next) hlength

/-! ### Packing the returns in turn -/

theorem isLeaf_of_ret {stmt : Stmt} {returned : Option Expr} (h : stmt.kind = .ret returned) :
    (Focus.stmt stmt).IsLeaf := by
  intro step
  simp only [Focus.child?, h]

theorem exists_setReturn {body : Block} {path : StmtPath} {stmt : Stmt}
    (h : body.stmtAt? path = some stmt) (value : Option Expr) :
    (Focus.block body).update? (Focus.onStmt fun stmt => { stmt with kind := .ret value }) path =
      some (.block (setReturn body path value)) := by
  obtain ⟨body', hbody'⟩ := Block.exists_updateStmt? (fun stmt => { stmt with kind := .ret value })
    h
  rw [setReturn, hbody', Option.getD_some]
  exact Block.updateStmt?_eq_some_iff.1 hbody'

/-- Another value for a `return` changes nothing else. -/
theorem bare_setReturn {body : Block} {path : StmtPath} {stmt : Stmt} {returned : Option Expr}
    (h : body.stmtAt? path = some stmt) (hret : stmt.kind = .ret returned) (value : Option Expr) :
    (setReturn body path value).bare = body.bare := by
  have hbare : (Focus.block body).bare = (Focus.block (setReturn body path value)).bare := by
    refine (Focus.update?_rel (R := fun part new => part.Fits new ∧ part.bare = new.bare)
      (fun _ _ => And.left) (fun hswap hrel => ⟨hswap.fits, hswap.bare_eq hrel.2⟩)
      (exists_setReturn h value) ?_).2
    intro part new hat hnew
    rw [Block.stmtAt?_eq_some_iff] at h
    rw [h] at hat
    cases hat
    cases hnew
    obtain ⟨layout, trailing, kind⟩ := stmt
    cases hret
    exact ⟨trivial, rfl⟩
  exact (Focus.block.inj hbare).symm

/-- Another value for a `return` leaves the other returns alone. -/
theorem stmtAt?_setReturn {body : Block} {path : StmtPath} {stmt : Stmt} {value : Option Expr}
    (h : body.stmtAt? path = some stmt) {other : StmtPath} {stmt' : Stmt} {returned : Option Expr}
    (h' : (setReturn body path value).stmtAt? other = some stmt')
    (hret : stmt'.kind = .ret returned) :
    (other = path ∧ returned = value) ∨ (other ≠ path ∧ body.stmtAt? other = some stmt') := by
  rw [Block.stmtAt?_eq_some_iff] at h'
  have hpart : ∀ part new, (Focus.block body).at? path = some part →
      Focus.onStmt (fun stmt => { stmt with kind := .ret value }) part = some new →
      part.Fits new ∧ new.IsLeaf := by
    intro part new _ hnew
    cases part with
    | block _ => cases hnew
    | stmt _ =>
      cases hnew
      exact ⟨trivial, isLeaf_of_ret rfl⟩
  rcases Focus.at?_of_update? (exists_setReturn h value) hpart h' (isLeaf_of_ret hret) with
    ⟨rfl, part, -, hnew⟩ | ⟨hne, hat⟩
  · cases part with
    | block _ => cases hnew
    | stmt _ =>
      cases hnew
      cases hret
      exact .inl ⟨rfl, rfl⟩
  · exact .inr ⟨hne, Block.stmtAt?_eq_some_iff.2 hat⟩

/-- Whether every `return` of a body gives back a template, except for those at paths that are still waiting, which give back nothing. -/
def PackedUpTo (names : List String) (waiting : List StmtPath) (body : Block) : Prop :=
  ∀ path stmt returned, body.stmtAt? path = some stmt → stmt.kind = .ret returned →
    (returned = none ∧ path ∈ waiting) ∨ ∃ expr, returned = some expr ∧ IsTemplate names expr

theorem returnAt?_eq_some {body : Block} {path : StmtPath} {returned : Option Expr}
    (h : returnAt? body path = some returned) :
    ∃ stmt, body.stmtAt? path = some stmt ∧ stmt.kind = .ret returned := by
  rw [returnAt?] at h
  split at h
  next hstmt =>
    cases h
    exact ⟨_, hstmt, rfl⟩
  next => cases h

theorem returnAt?_of_ret {body : Block} {path : StmtPath} {stmt : Stmt} {returned : Option Expr}
    (h : body.stmtAt? path = some stmt) (hret : stmt.kind = .ret returned) :
    returnAt? body path = some returned := by
  obtain ⟨layout, trailing, kind⟩ := stmt
  cases hret
  rw [returnAt?, h]

/-- Packing one `return` of a body whose returns give nothing back. -/
theorem packReturn_packedUpTo {names : List String} {template : Expr}
    (htemplate : IsTemplate names template) {body : Block} {path : StmtPath}
    {waiting : List StmtPath} (h : PackedUpTo names (path :: waiting) body) (next : NodeId) :
    ∃ body' next', (packReturn template body path).run next = ((body', true), next') ∧
      body'.bare = body.bare ∧ PackedUpTo names waiting body' := by
  cases hreturn : returnAt? body path with
  | none =>
    refine ⟨body, next, by rw [packReturn, hreturn]; rfl, rfl, ?_⟩
    intro other stmt returned hstmt hret
    rcases h other stmt returned hstmt hret with ⟨rfl, hmem⟩ | hgives
    · rcases List.mem_cons.1 hmem with rfl | hmem
      · rw [returnAt?_of_ret hstmt hret] at hreturn
        cases hreturn
      · exact .inl ⟨rfl, hmem⟩
    · exact .inr hgives
  | some previous =>
    obtain ⟨stmt, hstmt, hret⟩ := returnAt?_eq_some hreturn
    have hprevious : previous.filter (·.isStatement) = none := by
      rcases h path stmt previous hstmt hret with ⟨rfl, -⟩ | ⟨expr, rfl, hexpr⟩
      · rfl
      · simp [Option.filter, hexpr.isStatement_eq_false]
    refine ⟨setReturn body path (some (template.freshCopy.run next).1),
      (template.freshCopy.run next).2, ?_, bare_setReturn hstmt hret _, ?_⟩
    · simp only [packReturn, hreturn, hprevious]
      rfl
    · intro other stmt' returned hstmt' hret'
      rcases stmtAt?_setReturn hstmt hstmt' hret' with ⟨rfl, rfl⟩ | ⟨hne, hstmt'⟩
      · exact .inr ⟨_, rfl, htemplate.freshCopy next⟩
      · rcases h other stmt' returned hstmt' hret' with ⟨rfl, hmem⟩ | hgives
        · exact .inl ⟨rfl, (List.mem_cons.1 hmem).resolve_left hne⟩
        · exact .inr hgives

/-- Packing the returns that are waiting. -/
theorem packReturnsAt_packedUpTo {names : List String} {template : Expr}
    (htemplate : IsTemplate names template) {body : Block} {paths : List StmtPath}
    (h : PackedUpTo names paths body) (next : NodeId) :
    ∃ body' next', (packReturnsAt template body paths).run next = ((body', true), next') ∧
      body'.bare = body.bare ∧ PackedUpTo names [] body' := by
  induction paths generalizing body next with
  | nil => exact ⟨body, next, rfl, rfl, h⟩
  | cons path rest ih =>
    obtain ⟨middle, next₁, hrun, hbare, h⟩ := packReturn_packedUpTo htemplate h next
    obtain ⟨body', next₂, hrun', hbare', h'⟩ := ih h next₁
    refine ⟨body', next₂, ?_, hbare'.trans hbare, h'⟩
    simp only [packReturnsAt, StateT.run_bind, hrun]
    exact hrun'

/-! ### The end of the body -/

theorem walkList_append (stmts stmts' : List Stmt) (path : StmtPath) (index : Nat) :
    Stmt.walkList (stmts ++ stmts') path index =
      Stmt.walkList stmts path index ++ Stmt.walkList stmts' path (index + stmts.length) := by
  induction stmts generalizing index with
  | nil => rfl
  | cons stmt rest ih =>
    simp only [List.cons_append, Stmt.walkList, ih, List.append_assoc, List.length_cons,
      Nat.add_assoc, Nat.add_comm 1]

/-- The statements of a closed body: those of the body and perhaps a `return` without a value. -/
theorem mem_scoped_closeBody {body : Block} {entry : StmtPath × Stmt}
    (h : entry ∈ (closeBody body).scoped) :
    entry ∈ body.scoped ∨ entry.2 = .ofKind (.ret none) := by
  rw [closeBody] at h
  split at h
  · obtain ⟨stmts, endComments, closing⟩ := body
    rw [Block.scoped, Block.walk, walkList_append] at h
    rcases List.mem_append.1 h with h | h
    · exact .inl h
    · rw [List.mem_singleton.1 h]
      exact .inr rfl
  · exact .inl h

theorem allBare_closeBody {body : Block} (h : AllBare body.scoped) :
    AllBare (closeBody body).scoped := by
  intro entry hentry returned hret
  rcases mem_scoped_closeBody hentry with hentry | heq
  · exact h entry hentry returned hret
  · rw [heq] at hret
    cases hret
    rfl

theorem runAll_append {machine : Machine} {rounds : Nat} (stmts stmts' : List Stmt)
    (state : machine.State) : Stmt.runAll machine rounds (stmts ++ stmts') state =
      andThen (Stmt.runAll machine rounds stmts state) (Stmt.runAll machine rounds stmts') := by
  induction stmts generalizing state with
  | nil => rfl
  | cons stmt rest ih =>
    rw [List.cons_append, Stmt.runAll, Stmt.runAll]
    match stmt.run machine rounds [] state with
    | none => rfl
    | some (.normal, state') => exact ih state'
    | some (.broke _, _) => rfl
    | some (.continued _, _) => rfl
    | some (.returned _, _) => rfl
    | some (.threw _, _) => rfl

/-- A closed body returns where the body runs off its end, since control can get there. -/
theorem run_closeBody {machine : Machine} {rounds : Nat} {body : Block}
    {state state' : machine.State} {completion : Completion machine.Value}
    (h : body.run machine rounds state = some (completion, state'))
    (hends : completion = .normal ∨ completion = .returned none) :
    (closeBody body).run machine rounds state = some (.returned none, state') := by
  obtain ⟨stmts, endComments, closing⟩ := body
  rw [closeBody]
  split
  next =>
    rw [Block.run, runAll_append]
    rw [Block.run] at h
    rw [h]
    rcases hends with rfl | rfl <;> rfl
  next hcomplete =>
    rcases hends with rfl | rfl
    · exact absurd (Block.canComplete_of_run h) hcomplete
    · exact h

theorem packedUpTo_returnPaths {body : Block} (h : AllBare body.scoped) (names : List String) :
    PackedUpTo names body.returnPaths.reverse body := by
  intro path stmt returned hstmt hret
  have hmem : (path, stmt) ∈ body.scoped :=
    (Block.mem_scoped body path stmt).2 (Block.stmtAt?_eq_some_iff.1 hstmt)
  refine .inl ⟨h _ hmem returned hret, List.mem_reverse.2 (List.mem_map.2 ⟨(path, stmt), ?_, rfl⟩)⟩
  refine List.mem_filter.2 ⟨hmem, ?_⟩
  simp [Stmt.isReturn, hret]

/-- A packed body is the closed body with templates for the values of its returns. -/
theorem packReturns_body {method method' : Method} {body : Block} {values : List ValueToReturn}
    {next next' : NodeId} {result : Except MigrateError Unit} (hbody : method.body = some body)
    (hbare : AllBare body.scoped) (hvalues : values ≠ [])
    (hpack : (packReturns method values).run next = ((method', result), next')) :
    ∃ body', method'.body = some body' ∧ body'.bare = closeBody body ∧
      PackedUpTo (values.map (·.name)) [] body' := by
  obtain ⟨template, htemplate, hnames⟩ := isTemplate_returnTemplate hvalues next
  have hclosed := allBare_closeBody hbare
  obtain ⟨body', last, hrun, hbare', h⟩ := packReturnsAt_packedUpTo hnames
    (packedUpTo_returnPaths hclosed (values.map (·.name))) ((returnTemplate values).run next).2
  refine ⟨body', ?_, hbare'.trans (Block.bare_eq_self _ [] hclosed), h⟩
  simp only [packReturns, Fresh.run_bind, htemplate, hbody, hrun, Fresh.run_pure] at hpack
  cases hpack
  rfl

/-! ### Final values -/

/-- A packed body gives back the values that the variables have when the body itself ends, in the same final state. -/
theorem run_packReturns {method method' : Method} {body : Block} {values : List ValueToReturn}
    {next next' : NodeId} (hbody : method.body = some body) (hbare : AllBare body.scoped)
    (hvalues : values ≠ [])
    (hpack : (packReturns method values).run next = ((method', .ok ()), next'))
    (machine : Machine) (rounds : Nat)
    (hfinally : ∀ entry ∈ body.scoped,
      FinallyKeeps rounds (machine.packed (values.map (·.name))) entry.2) :
    ∃ body', method'.body = some body' ∧ ∀ state completion state',
      body.run machine rounds state = some (completion, state') →
      (completion = .normal ∨ completion = .returned none) →
      body'.run machine rounds state =
        some (.returned (some (machine.packed (values.map (·.name)) state')), state') := by
  obtain ⟨body', hbody', hbare', hpacked⟩ := packReturns_body hbody hbare hvalues hpack
  refine ⟨body', hbody', fun state completion state' hrun hends => ?_⟩
  have hgive : AllGive (machine.packed (values.map (·.name))) (body'.walk []) := by
    intro entry hentry returned hret
    have hstmt := Block.stmtAt?_eq_some_iff.2 ((Block.mem_scoped body' entry.1 entry.2).1 hentry)
    rcases hpacked entry.1 entry.2 returned hstmt hret with ⟨-, hmem⟩ | ⟨expr, rfl, hexpr⟩
    · cases hmem
    · exact ⟨expr, rfl, fun state => hexpr.eval_eq state⟩
  have hkeep : ∀ entry ∈ body'.bare.walk [],
      FinallyKeeps rounds (machine.packed (values.map (·.name))) entry.2 := by
    rw [hbare']
    intro entry hentry
    rcases mem_scoped_closeBody hentry with hentry | heq
    · exact hfinally entry hentry
    · rw [heq]
      intro _ _ _ _ hkind
      cases hkind
  rw [← Block.run_bare (machine.readsVariables_packed _) body' [] hgive hkeep state, hbare',
    run_closeBody hrun hends, giving]

/-! ### A small machine -/

/-- The values of a small machine. -/
inductive Datum where
  | written (text : String)
  | row (items : List Datum)

/-- A machine on which assignments of literals take effect and all else does nothing. -/
def literalMachine : Machine where
  State := String → Datum
  Value := Datum
  lookup := fun state name => state name
  assign := fun state name value other => if other = name then value else state other
  literal := fun literal => .written literal.text
  array := .row
  evalOther := fun expr state =>
    match expr with
    | .assign (.name _ name) .assign (.literal ⟨_, text⟩) =>
      some (.ok (.written text), fun other => if other = name then .written text else state other)
    | _ => some (.ok (.row []), state)
  isTrue := fun value =>
    match value with
    | .written text => text == "true"
    | .row _ => false
  selects := fun _ _ _ => false
  isInstance := fun _ _ _ => true
  next := fun _ state => some (.ok none, state)
  close := fun _ state => some (none, state)
  checksAssertions := fun _ => false
  assertionError := fun _ => .row []
  isTrue_true := by decide
  lookup_close := by
    rintro _ state _ _ name ⟨⟩
    rfl

/-- A method that writes its parameter and returns, with a `finally` block that writes a variable. -/
def guardedWrite (name : String) : Method :=
  let write (id : NodeId) (name text : String) : Stmt :=
    .ofKind (.expr (.assign (.name id name) .assign (.literal ⟨.int, text⟩)))
  ⟨0, .unwritten, [], [], [], some .void, "enter", [⟨1, [], [], .primitive .int, false, "x"⟩], [],
    some (.ofStmts [.ofKind (.tryBlock [] (.ofStmts [write 2 "x" "1", .ofKind (.ret none)]) []
      (some (.ofStmts [write 3 name "2"])))])⟩

/-- The parameter of the method as a value to return. -/
def writtenParam : ValueToReturn := ⟨1, "x", .primitive .int, some (.argument 0)⟩

theorem run_packReturns_guardedWrite :
    ∃ body body' method' next', (guardedWrite "y").body = some body ∧
      (packReturns (guardedWrite "y") [writtenParam]).run 4 = ((method', .ok ()), next') ∧
      method'.body = some body' ∧ ∀ state completion state',
      body.run literalMachine 1 state = some (completion, state') →
      (completion = .normal ∨ completion = .returned none) →
      body'.run literalMachine 1 state =
        some (.returned (some (literalMachine.packed ["x"] state')), state') := by
  refine ⟨_, _, _, _, rfl, rfl, rfl, ?_⟩
  have hfinally : ∀ entry ∈ ((guardedWrite "y").body.getD default).scoped,
      FinallyKeeps 1 (literalMachine.packed ["x"]) entry.2 := by
    refine List.forall_mem_cons.2 ⟨?_, List.forall_mem_cons.2 ⟨?_, List.forall_mem_cons.2
      ⟨?_, List.forall_mem_cons.2 ⟨?_, List.forall_mem_nil _⟩⟩⟩⟩
    · rintro _ _ _ _ ⟨⟩ start state state' - ⟨⟩
      rfl
    all_goals rintro _ _ _ _ ⟨⟩
  obtain ⟨body', hbody', hrun⟩ := @run_packReturns (guardedWrite "y") _ _ [writtenParam] 4 _ rfl
    (by decide) (by simp) rfl literalMachine 1 hfinally
  cases hbody'
  exact hrun

/-- What a `finally` block writes after a `return` is lost: the packed method gives back the value before. -/
theorem packReturns_finally_write_lost :
    ∃ body body' next' final, (guardedWrite "x").body = some body ∧ AllBare body.scoped ∧
      (packReturns (guardedWrite "x") [writtenParam]).run 4 =
        (({ guardedWrite "x" with body := some body', returnType := some (.primitive .int) },
          .ok ()),
          next') ∧
      body.run literalMachine 1 (fun _ => .row []) = some (.returned none, final) ∧
      literalMachine.lookup final "x" = .written "2" ∧
      body'.run literalMachine 1 (fun _ => .row []) =
        some (.returned (some (.written "1")), final) := by
  exact ⟨_, _, _, _, rfl, by decide, rfl, rfl, rfl, rfl⟩

end AdviceMigration.Advice
