import AdviceMigration.Proofs.Execution.Machine
import AdviceMigration.Proofs.Source.Paths

/-!
# Giving returns a value

How a statement whose returns give back a value compares with the same statement whose returns give back nothing. If every `return` gives back the same function of the state, both end in the same state, one with the value and one without (`Stmt.run_bare`). The function is applied at the `return`, so a `finally` block that runs after it must leave the value alone.
-/

namespace AdviceMigration.Source

mutual
/-- A statement whose returns give nothing back. -/
def Stmt.bare : Stmt → Stmt
  | ⟨layout, trailing, kind⟩ => ⟨layout, trailing, kind.bare⟩

/-- A statement of the given kind whose returns give nothing back. -/
def StmtKind.bare : StmtKind → StmtKind
  | .block body => .block body.bare
  | .localVar decl => .localVar decl
  | .localClass decl => .localClass decl
  | .expr value => .expr value
  | .ret _ => .ret none
  | .ifElse cond yes none => .ifElse cond yes.bare none
  | .ifElse cond yes (some no) => .ifElse cond yes.bare (some no.bare)
  | .whileLoop cond body => .whileLoop cond body.bare
  | .doWhile body cond => .doWhile body.bare cond
  | .forLoop init cond update body => .forLoop init cond update body.bare
  | .forEach var iterable body => .forEach var iterable body.bare
  | .tryBlock resources body catches none =>
    .tryBlock resources body.bare (CatchClause.bareAll catches) none
  | .tryBlock resources body catches (some finallyBody) =>
    .tryBlock resources body.bare (CatchClause.bareAll catches) (some finallyBody.bare)
  | .throw value => .throw value
  | .breakTo label => .breakTo label
  | .continueTo label => .continueTo label
  | .switch selector cases => .switch selector (SwitchCase.bareAll cases)
  | .sync lock body => .sync lock body.bare
  | .labeled label body => .labeled label body.bare
  | .assertion cond message => .assertion cond message
  | .empty => .empty

/-- A block whose returns give nothing back. -/
def Block.bare : Block → Block
  | ⟨stmts, endComments, closing⟩ => ⟨Stmt.bareAll stmts, endComments, closing⟩

/-- Statements whose returns give nothing back. -/
def Stmt.bareAll : List Stmt → List Stmt
  | [] => []
  | stmt :: rest => stmt.bare :: Stmt.bareAll rest

/-- `catch` clauses whose returns give nothing back. -/
def CatchClause.bareAll : List CatchClause → List CatchClause
  | [] => []
  | ⟨id, annotations, modifiers, types, name, body⟩ :: rest =>
    ⟨id, annotations, modifiers, types, name, body.bare⟩ :: CatchClause.bareAll rest

/-- Cases whose returns give nothing back. -/
def SwitchCase.bareAll : List SwitchCase → List SwitchCase
  | [] => []
  | ⟨comments, labels, isDefault, form, body⟩ :: rest =>
    ⟨comments, labels, isDefault, form, body.bare⟩ :: SwitchCase.bareAll rest
end

theorem Stmt.bareAll_eq_map (stmts : List Stmt) : Stmt.bareAll stmts = stmts.map Stmt.bare := by
  induction stmts with
  | nil => rfl
  | cons stmt rest ih => rw [Stmt.bareAll, ih, List.map_cons]

theorem CatchClause.bareAll_eq_map (clauses : List CatchClause) :
    CatchClause.bareAll clauses = clauses.map fun clause =>
      { clause with body := clause.body.bare } := by
  induction clauses with
  | nil => rfl
  | cons clause rest ih =>
    obtain ⟨id, annotations, modifiers, types, name, body⟩ := clause
    rw [CatchClause.bareAll, ih, List.map_cons]

theorem SwitchCase.bareAll_eq_map (cases : List SwitchCase) :
    SwitchCase.bareAll cases = cases.map fun case => { case with body := case.body.bare } := by
  induction cases with
  | nil => rfl
  | cons case rest ih =>
    obtain ⟨comments, labels, isDefault, form, body⟩ := case
    rw [SwitchCase.bareAll, ih, List.map_cons]

/-- What a path leads to, without the values of its returns. -/
def Focus.bare : Focus → Focus
  | .block body => .block body.bare
  | .stmt inner => .stmt inner.bare

/-- Parts that differ only in the values of their returns can be swapped unnoticed. -/
theorem Focus.Swap.bare_eq {step : Step} {part new focus focus' : Focus}
    (h : Swap step part new focus focus') (heq : part.bare = new.bare) :
    focus.bare = focus'.bare := by
  cases h with
  | @thenBranch _ _ _ no =>
    cases no <;> simp_all [Focus.bare, Stmt.bare, StmtKind.bare]
  | @tryBody _ _ _ _ finallyBody =>
    cases finallyBody <;> simp_all [Focus.bare, Stmt.bare, StmtKind.bare]
  | @catchBlock _ _ _ _ _ _ _ finallyBody =>
    cases finallyBody <;>
      simp_all [Focus.bare, Stmt.bare, StmtKind.bare, CatchClause.bareAll_eq_map]
  | _ =>
    simp_all [Focus.bare, Stmt.bare, StmtKind.bare, Block.bare, Stmt.bareAll_eq_map,
      SwitchCase.bareAll_eq_map]

/-! ### Statements without values to give back -/

/-- Whether no statement of a walk gives back a value. -/
def AllBare (entries : List (StmtPath × Stmt)) : Prop :=
  ∀ entry ∈ entries, ∀ value, entry.2.kind = .ret value → value = none

/-- Whether a statement gives back a value. -/
def Stmt.givesBack (stmt : Stmt) : Bool :=
  match stmt.kind with
  | .ret (some _) => true
  | _ => false

theorem allBare_iff (entries : List (StmtPath × Stmt)) :
    AllBare entries ↔ entries.all (fun entry => !entry.2.givesBack) = true := by
  rw [List.all_eq_true]
  refine forall₂_congr fun entry _ => ?_
  obtain ⟨path, layout, trailing, kind⟩ := entry
  cases kind with
  | ret value => cases value <;> simp [Stmt.givesBack]
  | _ => simp [Stmt.givesBack]

instance (entries : List (StmtPath × Stmt)) : Decidable (AllBare entries) :=
  decidable_of_iff _ (allBare_iff entries).symm

mutual
theorem Stmt.bare_eq_self : (stmt : Stmt) → (path : StmtPath) → AllBare (stmt.walk path) →
    stmt.bare = stmt
  | ⟨layout, trailing, kind⟩, path, h => by
    have hkind : kind.bare = kind := by
      refine kind.bare_eq_self path ?_ fun entry hentry => h entry (List.mem_cons_of_mem _ hentry)
      exact fun value => h (path, _) List.mem_cons_self value
    rw [Stmt.bare, hkind]

theorem StmtKind.bare_eq_self : (kind : StmtKind) → (path : StmtPath) →
    (∀ value, kind = .ret value → value = none) → AllBare (kind.walk path) → kind.bare = kind
  | .block body, path, _, h => by rw [StmtKind.bare, body.bare_eq_self _ h]
  | .localVar _, _, _, _ => rfl
  | .localClass _, _, _, _ => rfl
  | .expr _, _, _, _ => rfl
  | .ret value, _, hret, _ => by rw [StmtKind.bare, hret value rfl]
  | .ifElse _ yes none, path, _, h => by rw [StmtKind.bare, yes.bare_eq_self _ h]
  | .ifElse _ yes (some no), path, _, h => by
    obtain ⟨hyes, hno⟩ := List.forall_mem_append.1 h
    rw [StmtKind.bare, yes.bare_eq_self _ hyes, no.bare_eq_self _ hno]
  | .whileLoop _ body, path, _, h => by rw [StmtKind.bare, body.bare_eq_self _ h]
  | .doWhile body _, path, _, h => by rw [StmtKind.bare, body.bare_eq_self _ h]
  | .forLoop _ _ _ body, path, _, h => by rw [StmtKind.bare, body.bare_eq_self _ h]
  | .forEach _ _ body, path, _, h => by rw [StmtKind.bare, body.bare_eq_self _ h]
  | .tryBlock _ body catches none, path, _, h => by
    obtain ⟨h, -⟩ := List.forall_mem_append.1 h
    obtain ⟨hbody, hcatches⟩ := List.forall_mem_append.1 h
    rw [StmtKind.bare, body.bare_eq_self _ hbody, CatchClause.bareAll_eq_self catches _ _ hcatches]
  | .tryBlock _ body catches (some finallyBody), path, _, h => by
    obtain ⟨h, hfinally⟩ := List.forall_mem_append.1 h
    obtain ⟨hbody, hcatches⟩ := List.forall_mem_append.1 h
    rw [StmtKind.bare, body.bare_eq_self _ hbody, CatchClause.bareAll_eq_self catches _ _ hcatches,
      finallyBody.bare_eq_self _ hfinally]
  | .throw _, _, _, _ => rfl
  | .breakTo _, _, _, _ => rfl
  | .continueTo _, _, _, _ => rfl
  | .switch _ cases, path, _, h => by rw [StmtKind.bare, SwitchCase.bareAll_eq_self cases _ _ h]
  | .sync _ body, path, _, h => by rw [StmtKind.bare, body.bare_eq_self _ h]
  | .labeled _ body, path, _, h => by rw [StmtKind.bare, body.bare_eq_self _ h]
  | .assertion _ _, _, _, _ => rfl
  | .empty, _, _, _ => rfl

theorem Block.bare_eq_self : (body : Block) → (path : StmtPath) → AllBare (body.walk path) →
    body.bare = body
  | ⟨stmts, _, _⟩, path, h => by rw [Block.bare, Stmt.bareAll_eq_self stmts path 0 h]

theorem Stmt.bareAll_eq_self : (stmts : List Stmt) → (path : StmtPath) → (index : Nat) →
    AllBare (Stmt.walkList stmts path index) → Stmt.bareAll stmts = stmts
  | [], _, _, _ => rfl
  | stmt :: rest, path, index, h => by
    obtain ⟨hstmt, hrest⟩ := List.forall_mem_append.1 h
    rw [Stmt.bareAll, stmt.bare_eq_self _ hstmt, Stmt.bareAll_eq_self rest path _ hrest]

theorem CatchClause.bareAll_eq_self : (clauses : List CatchClause) → (path : StmtPath) →
    (index : Nat) → AllBare (CatchClause.walkList clauses path index) →
    CatchClause.bareAll clauses = clauses
  | [], _, _, _ => rfl
  | ⟨_, _, _, _, _, body⟩ :: rest, path, index, h => by
    obtain ⟨hbody, hrest⟩ := List.forall_mem_append.1 h
    rw [CatchClause.bareAll, body.bare_eq_self _ hbody,
      CatchClause.bareAll_eq_self rest path _ hrest]

theorem SwitchCase.bareAll_eq_self : (cases : List SwitchCase) → (path : StmtPath) →
    (index : Nat) → AllBare (SwitchCase.walkList cases path index) →
    SwitchCase.bareAll cases = cases
  | [], _, _, _ => rfl
  | ⟨_, _, _, _, body⟩ :: rest, path, index, h => by
    obtain ⟨hbody, hrest⟩ := List.forall_mem_append.1 h
    rw [SwitchCase.bareAll, body.bare_eq_self _ hbody, SwitchCase.bareAll_eq_self rest path _ hrest]
end

end AdviceMigration.Source

namespace AdviceMigration.Execution.Machine

open AdviceMigration.Source

variable {machine : Machine}

/-! ### Outcomes with a value -/

/-- An outcome in which a `return` without a value gives back a function of the state. -/
def giving (value : machine.State → machine.Value) (outcome : machine.Outcome) : machine.Outcome :=
  match outcome with
  | some (.returned none, state) => some (.returned (some (value state)), state)
  | other => other

variable {value : machine.State → machine.Value}

theorem giving_andThen (outcome : machine.Outcome) (next : machine.State → machine.Outcome) :
    giving value (andThen outcome next) =
      andThen (giving value outcome) fun state => giving value (next state) := by
  match outcome with
  | none => rfl
  | some (.returned none, _) => rfl
  | some (.returned (some _), _) => rfl
  | some (.normal, _) => rfl
  | some (.broke _, _) => rfl
  | some (.continued _, _) => rfl
  | some (.threw _, _) => rfl

theorem giving_withValue (evaluated : machine.Evaluated)
    (next : machine.Value → machine.State → machine.Outcome) :
    giving value (withValue evaluated next) =
      withValue evaluated fun v state => giving value (next v state) := by
  match evaluated with
  | none => rfl
  | some (.ok _, _) => rfl
  | some (.error _, _) => rfl

theorem giving_resume (labels : List String) (outcome : machine.Outcome) :
    giving value (resume labels outcome) = resume labels (giving value outcome) := by
  match outcome with
  | none => rfl
  | some (.returned none, _) => rfl
  | some (.returned (some _), _) => rfl
  | some (.normal, _) => rfl
  | some (.broke _, _) => rfl
  | some (.continued none, _) => rfl
  | some (.continued (some label), state) =>
    by_cases h : label ∈ labels <;> simp [resume, giving, h]
  | some (.threw _, _) => rfl

theorem giving_leave (outcome : machine.Outcome) :
    giving value (leave outcome) = leave (giving value outcome) := by
  match outcome with
  | none => rfl
  | some (.returned none, _) => rfl
  | some (.returned (some _), _) => rfl
  | some (.normal, _) => rfl
  | some (.broke none, _) => rfl
  | some (.broke (some _), _) => rfl
  | some (.continued _, _) => rfl
  | some (.threw _, _) => rfl

theorem giving_leaveLabel (label : String) (outcome : machine.Outcome) :
    giving value (leaveLabel label outcome) = leaveLabel label (giving value outcome) := by
  match outcome with
  | none => rfl
  | some (.returned none, _) => rfl
  | some (.returned (some _), _) => rfl
  | some (.normal, _) => rfl
  | some (.broke none, _) => rfl
  | some (.broke (some target), _) =>
    by_cases h : target = label <;> simp [leaveLabel, giving, h]
  | some (.continued _, _) => rfl
  | some (.threw _, _) => rfl

theorem giving_repeatRound (round : machine.State → machine.Outcome) (rounds : Nat)
    (state : machine.State) : giving value (repeatRound round rounds state) =
      repeatRound (fun state => giving value (round state)) rounds state := by
  induction rounds generalizing state with
  | zero => rfl
  | succ rounds ih =>
    rw [repeatRound, giving_andThen, repeatRound]
    simp only [ih]

theorem giving_handling (outcome : machine.Outcome)
    (handler : machine.Value → machine.State → machine.Outcome) :
    giving value (handling outcome handler) =
      handling (giving value outcome) fun thrown state => giving value (handler thrown state) := by
  match outcome with
  | none => rfl
  | some (.returned none, _) => rfl
  | some (.returned (some _), _) => rfl
  | some (.normal, _) => rfl
  | some (.broke _, _) => rfl
  | some (.continued _, _) => rfl
  | some (.threw _, _) => rfl

theorem giving_whileTrue (cond : Expr) (next : machine.State → machine.Outcome)
    (state : machine.State) : giving value (whileTrue cond next state) =
      whileTrue cond (fun state => giving value (next state)) state := by
  rw [whileTrue, giving_withValue, whileTrue]
  congr 1
  funext v state
  split <;> rfl

theorem giving_nextItem (collection : machine.Value) (name : String)
    (round : machine.State → machine.Outcome) (state : machine.State) :
    giving value (nextItem collection name round state) =
      nextItem collection name (fun state => giving value (round state)) state := by
  unfold nextItem
  split <;> rfl

theorem giving_evalAll (exprs : List Expr) (state : machine.State) :
    giving value (evalAll exprs state) = evalAll exprs state := by
  induction exprs generalizing state with
  | nil => rfl
  | cons expr rest ih =>
    rw [evalAll, giving_withValue]
    simp only [ih]

theorem giving_declareAll (declarators : List Declarator) (state : machine.State) :
    giving value (declareAll declarators state) = declareAll declarators state := by
  induction declarators generalizing state with
  | nil => rfl
  | cons declarator rest ih =>
    obtain ⟨_, _, _, _ | init⟩ := declarator
    · exact ih state
    · rw [declareAll, giving_withValue]
      simp only [ih]

theorem giving_start (init : ForInit) (state : machine.State) :
    giving value (start init state) = start init state := by
  cases init with
  | decl decl => exact giving_declareAll _ _
  | exprs values => exact giving_evalAll _ _

theorem giving_check (cond : Expr) (message : Option Expr) (state : machine.State) :
    giving value (check cond message state) = check cond message state := by
  unfold check
  split
  · rw [giving_withValue]
    congr 1
    funext v state
    split
    · rfl
    · split
      · rfl
      · exact giving_withValue _ _
  · rfl

/-- Whether a value depends on the variables only. -/
def ReadsVariables (value : machine.State → machine.Value) : Prop :=
  ∀ state state', (∀ name, machine.lookup state' name = machine.lookup state name) →
    value state' = value state

theorem giving_closing (hvalue : ReadsVariables value) (resource : machine.Value)
    (outcome : machine.Outcome) :
    giving value (closing resource outcome) = closing resource (giving value outcome) := by
  cases outcome with
  | none => rfl
  | some result =>
    obtain ⟨completion, state⟩ := result
    cases hclose : machine.close resource state with
    | none => cases completion with
      | returned returned => cases returned <;> simp [closing, giving, hclose]
      | _ => simp [closing, giving, hclose]
    | some closed =>
      obtain ⟨failure, state'⟩ := closed
      have hkeep : value state' = value state :=
        hvalue state state' fun name => machine.lookup_close resource state failure state' name
          hclose
      cases completion with
      | returned returned =>
        cases returned <;> cases failure <;> simp [closing, giving, hclose, hkeep]
      | _ => cases failure <;> simp [closing, giving, hclose]

theorem giving_usingVars (hvalue : ReadsVariables value) (next : machine.State → machine.Outcome)
    (declarators : List Declarator) (state : machine.State) :
    giving value (usingVars next declarators state) =
      usingVars (fun state => giving value (next state)) declarators state := by
  induction declarators generalizing state with
  | nil => rfl
  | cons declarator rest ih =>
    obtain ⟨_, _, _, _ | init⟩ := declarator
    · exact ih state
    · rw [usingVars, giving_withValue, usingVars]
      simp only [giving_closing hvalue, ih]

theorem giving_usingAll (hvalue : ReadsVariables value) (next : machine.State → machine.Outcome)
    (resources : List Resource) (state : machine.State) :
    giving value (usingAll next resources state) =
      usingAll (fun state => giving value (next state)) resources state := by
  induction resources generalizing state with
  | nil => rfl
  | cons resource rest ih =>
    cases resource with
    | decl decl =>
      rw [usingAll, giving_usingVars hvalue, usingAll]
      simp only [ih]
    | expr expr =>
      rw [usingAll, giving_withValue, usingAll]
      simp only [giving_closing hvalue, ih]

/-- A `finally` block comes after the `return` it interrupts, so it must leave the value alone. -/
theorem giving_finish (outcome : machine.Outcome) (finallyBlock : machine.State → machine.Outcome)
    (hkeep : ∀ state state', outcome = some (.returned none, state) →
      finallyBlock state = some (.normal, state') → value state' = value state) :
    giving value (finish outcome finallyBlock) =
      finish (giving value outcome) fun state => giving value (finallyBlock state) := by
  cases outcome with
  | none => rfl
  | some result =>
    obtain ⟨completion, state⟩ := result
    have hkeep' := hkeep state
    cases hfinally : finallyBlock state with
    | none =>
      cases completion with
      | returned returned => cases returned <;> simp [finish, giving, hfinally]
      | _ => simp [finish, giving, hfinally]
    | some result =>
      obtain ⟨last, state'⟩ := result
      cases last with
      | normal =>
        cases completion with
        | returned returned =>
          cases returned with
          | none => simp [finish, giving, hfinally, hkeep' state' rfl hfinally]
          | some returned => simp [finish, giving, hfinally]
        | _ => simp [finish, giving, hfinally]
      | returned returned =>
        cases returned <;> cases completion with
        | returned returned => cases returned <;> simp [finish, giving, hfinally]
        | _ => simp [finish, giving, hfinally]
      | _ =>
        cases completion with
        | returned returned => cases returned <;> simp [finish, giving, hfinally]
        | _ => simp [finish, giving, hfinally]

/-- Whether every `return` of a walk gives back the value and leaves the state alone. -/
def AllGive (value : machine.State → machine.Value) (entries : List (StmtPath × Stmt)) : Prop :=
  ∀ entry ∈ entries, ∀ returned, entry.2.kind = .ret returned → ∃ expr, returned = some expr ∧
    ∀ state, machine.eval expr state = some (.ok (value state), state)

/-- Whether a `finally` block that interrupts a `return` without a value and then ends normally leaves the value alone. -/
def FinallyKeeps (rounds : Nat) (value : machine.State → machine.Value) (stmt : Stmt) : Prop :=
  ∀ resources body catches finallyBody, stmt.kind = .tryBlock resources body catches
    (some finallyBody) →
    ∀ start state state',
      handling (usingAll (body.run machine rounds) resources start)
        (CatchClause.handle machine rounds catches) = some (.returned none, state) →
      finallyBody.run machine rounds state = some (.normal, state') → value state' = value state

end AdviceMigration.Execution.Machine

namespace AdviceMigration.Source

open AdviceMigration.Execution AdviceMigration.Execution.Machine

variable {machine : Machine} {rounds : Nat} {value : machine.State → machine.Value}

/-- A statement whose returns give back a value ends like the one whose returns do not, apart from the value. -/
def RunsLike (value : machine.State → machine.Value)
    (bare given : machine.State → machine.Outcome) : Prop :=
  ∀ state, giving value (bare state) = given state

/-! ### Statements around parts that run alike -/

section Around

variable {body body' : Stmt} {block block' : Block}

theorem ifElse_runsLike {yes yes' no no' : Stmt}
    (hyes : RunsLike value (yes.run machine rounds []) (yes'.run machine rounds []))
    (hno : RunsLike value (no.run machine rounds []) (no'.run machine rounds []))
    (cond : Expr) (labels : List String) :
    RunsLike value ((StmtKind.ifElse cond yes (some no)).run machine rounds labels)
      ((StmtKind.ifElse cond yes' (some no')).run machine rounds labels) := by
  intro state
  refine (giving_withValue _ _).trans ?_
  congr 1
  funext v state
  split
  · exact hyes state
  · exact hno state

theorem ifThen_runsLike {yes yes' : Stmt}
    (hyes : RunsLike value (yes.run machine rounds []) (yes'.run machine rounds []))
    (cond : Expr) (labels : List String) :
    RunsLike value ((StmtKind.ifElse cond yes none).run machine rounds labels)
      ((StmtKind.ifElse cond yes' none).run machine rounds labels) := by
  intro state
  refine (giving_withValue _ _).trans ?_
  congr 1
  funext v state
  split
  · exact hyes state
  · rfl

theorem whileLoop_runsLike
    (h : RunsLike value (body.run machine rounds []) (body'.run machine rounds []))
    (cond : Expr) (labels : List String) :
    RunsLike value ((StmtKind.whileLoop cond body).run machine rounds labels)
      ((StmtKind.whileLoop cond body').run machine rounds labels) := by
  intro state
  simp only [StmtKind.run, giving_leave, giving_repeatRound, giving_whileTrue, giving_resume, h _]

theorem doWhile_runsLike
    (h : RunsLike value (body.run machine rounds []) (body'.run machine rounds []))
    (cond : Expr) (labels : List String) :
    RunsLike value ((StmtKind.doWhile body cond).run machine rounds labels)
      ((StmtKind.doWhile body' cond).run machine rounds labels) := by
  intro state
  simp only [StmtKind.run, giving_leave, giving_repeatRound, giving_andThen, giving_whileTrue,
    giving_resume, h _]
  rfl

theorem forLoop_runsLike
    (h : RunsLike value (body.run machine rounds []) (body'.run machine rounds []))
    (init : ForInit) (cond : Option Expr) (update : List Expr) (labels : List String) :
    RunsLike value ((StmtKind.forLoop init cond update body).run machine rounds labels)
      ((StmtKind.forLoop init cond update body').run machine rounds labels) := by
  intro state
  cases cond with
  | none =>
    simp only [StmtKind.run, giving_leave, giving_repeatRound, giving_andThen, giving_start,
      giving_evalAll, giving_resume, h _]
  | some cond =>
    simp only [StmtKind.run, giving_leave, giving_repeatRound, giving_andThen, giving_start,
      giving_evalAll, giving_whileTrue, giving_resume, h _]

theorem forEach_runsLike
    (h : RunsLike value (body.run machine rounds []) (body'.run machine rounds []))
    (var : LoopVar) (iterable : Expr) (labels : List String) :
    RunsLike value ((StmtKind.forEach var iterable body).run machine rounds labels)
      ((StmtKind.forEach var iterable body').run machine rounds labels) := by
  obtain ⟨_, _, _, _, name⟩ := var
  intro state
  simp only [StmtKind.run, giving_withValue, giving_leave, giving_repeatRound, giving_nextItem,
    giving_resume, h _]

theorem sync_runsLike (h : RunsLike value (block.run machine rounds) (block'.run machine rounds))
    (lock : Expr) (labels : List String) :
    RunsLike value ((StmtKind.sync lock block).run machine rounds labels)
      ((StmtKind.sync lock block').run machine rounds labels) := by
  intro state
  refine (giving_withValue _ _).trans ?_
  simp only [h _]
  rfl

theorem labeled_runsLike {label : String} {labels : List String}
    (h : RunsLike value (body.run machine rounds (label :: labels))
      (body'.run machine rounds (label :: labels))) :
    RunsLike value ((StmtKind.labeled label body).run machine rounds labels)
      ((StmtKind.labeled label body').run machine rounds labels) := by
  intro state
  refine (giving_leaveLabel _ _).trans ?_
  rw [h]
  rfl

/-- What stands in front of a `finally` block: the resources, the guarded block and the `catch` clauses. -/
theorem guarded_runsLike (hvalue : ReadsVariables value) {catches catches' : List CatchClause}
    (h : RunsLike value (block.run machine rounds) (block'.run machine rounds))
    (hcatches : ∀ thrown, RunsLike value (CatchClause.handle machine rounds catches thrown)
      (CatchClause.handle machine rounds catches' thrown)) (resources : List Resource) :
    RunsLike value
      (fun state => handling (usingAll (block.run machine rounds) resources state)
        (CatchClause.handle machine rounds catches))
      (fun state => handling (usingAll (block'.run machine rounds) resources state)
        (CatchClause.handle machine rounds catches')) := by
  intro state
  simp only [giving_handling, giving_usingAll hvalue, h _, hcatches _ _]

theorem finish_runsLike {guarded guarded' : machine.State → machine.Outcome}
    (hguarded : RunsLike value guarded guarded')
    (h : RunsLike value (block.run machine rounds) (block'.run machine rounds))
    (hkeep : ∀ start state state', guarded start = some (.returned none, state) →
      block.run machine rounds state = some (.normal, state') → value state' = value state) :
    RunsLike value (fun state => finish (guarded state) (block.run machine rounds))
      (fun state => finish (guarded' state) (block'.run machine rounds)) := by
  intro state
  rw [giving_finish _ _ (hkeep state), hguarded]
  simp only [h _]

theorem switch_runsLike {cases cases' : List SwitchCase}
    (hlabels : cases.map (fun case => (case.labels, case.isDefault)) =
      cases'.map fun case => (case.labels, case.isDefault))
    (h : ∀ first, RunsLike value (SwitchCase.runFrom machine rounds cases first)
      (SwitchCase.runFrom machine rounds cases' first)) (selector : Expr) (labels : List String) :
    RunsLike value ((StmtKind.switch selector cases).run machine rounds labels)
      ((StmtKind.switch selector cases').run machine rounds labels) := by
  intro state
  refine (giving_withValue _ _).trans ?_
  congr 1
  funext v state
  rw [hlabels]
  split
  · rw [giving_leave, h]
  · rfl

end Around

mutual
theorem Stmt.run_bare (hvalue : ReadsVariables value) : (stmt : Stmt) → (path : StmtPath) →
    (labels : List String) → AllGive value (stmt.walk path) →
    (∀ entry ∈ stmt.bare.walk path, FinallyKeeps rounds value entry.2) →
    RunsLike value (stmt.bare.run machine rounds labels) (stmt.run machine rounds labels)
  | ⟨layout, trailing, kind⟩, path, labels, hgive, hkeep => by
    refine kind.run_bare hvalue path labels (fun returned => ?_)
      (fun resources body catches finallyBody => ?_) ?_ ?_
    · exact hgive (path, _) List.mem_cons_self returned
    · exact hkeep (path, _) List.mem_cons_self resources body catches finallyBody
    · exact fun entry hentry => hgive entry (List.mem_cons_of_mem _ hentry)
    · exact fun entry hentry => hkeep entry (List.mem_cons_of_mem _ hentry)

theorem StmtKind.run_bare (hvalue : ReadsVariables value) : (kind : StmtKind) →
    (path : StmtPath) → (labels : List String) →
    (∀ returned, kind = .ret returned → ∃ expr, returned = some expr ∧
      ∀ state, machine.eval expr state = some (.ok (value state), state)) →
    FinallyKeeps rounds value (.ofKind kind.bare) →
    AllGive value (kind.walk path) →
    (∀ entry ∈ kind.bare.walk path, FinallyKeeps rounds value entry.2) →
    RunsLike value (kind.bare.run machine rounds labels) (kind.run machine rounds labels)
  | .block body, path, labels, _, _, hgive, hkeep => body.run_bare hvalue _ hgive hkeep
  | .localVar decl, _, _, _, _, _, _ => giving_declareAll decl.declarators
  | .localClass _, _, _, _, _, _, _ => fun _ => rfl
  | .expr expr, _, _, _, _, _, _ => fun _ => giving_withValue _ _
  | .ret returned, _, _, hret, _, _, _ => by
    obtain ⟨expr, rfl, heval⟩ := hret returned rfl
    intro state
    simp only [StmtKind.bare, StmtKind.run, heval, withValue, giving]
  | .ifElse cond yes none, path, labels, _, _, hgive, hkeep =>
    ifThen_runsLike (yes.run_bare hvalue _ [] hgive hkeep) cond labels
  | .ifElse cond yes (some no), path, labels, _, _, hgive, hkeep => by
    obtain ⟨hgive₁, hgive₂⟩ := List.forall_mem_append.1 hgive
    obtain ⟨hkeep₁, hkeep₂⟩ := List.forall_mem_append.1 hkeep
    exact ifElse_runsLike (yes.run_bare hvalue _ [] hgive₁ hkeep₁)
      (no.run_bare hvalue _ [] hgive₂ hkeep₂) cond labels
  | .whileLoop cond body, path, labels, _, _, hgive, hkeep =>
    whileLoop_runsLike (body.run_bare hvalue _ [] hgive hkeep) cond labels
  | .doWhile body cond, path, labels, _, _, hgive, hkeep =>
    doWhile_runsLike (body.run_bare hvalue _ [] hgive hkeep) cond labels
  | .forLoop init cond update body, path, labels, _, _, hgive, hkeep =>
    forLoop_runsLike (body.run_bare hvalue _ [] hgive hkeep) init cond update labels
  | .forEach var iterable body, path, labels, _, _, hgive, hkeep =>
    forEach_runsLike (body.run_bare hvalue _ [] hgive hkeep) var iterable labels
  | .tryBlock resources body catches none, path, _, _, _, hgive, hkeep => by
    obtain ⟨hgive, -⟩ := List.forall_mem_append.1 hgive
    obtain ⟨hgive₁, hgive₂⟩ := List.forall_mem_append.1 hgive
    obtain ⟨hkeep, -⟩ := List.forall_mem_append.1 hkeep
    obtain ⟨hkeep₁, hkeep₂⟩ := List.forall_mem_append.1 hkeep
    exact guarded_runsLike hvalue (body.run_bare hvalue _ hgive₁ hkeep₁)
      (CatchClause.handle_bare hvalue catches _ _ hgive₂ hkeep₂) resources
  | .tryBlock resources body catches (some finallyBody), path, _, _, hfinally, hgive, hkeep => by
    obtain ⟨hgive, hgive₃⟩ := List.forall_mem_append.1 hgive
    obtain ⟨hgive₁, hgive₂⟩ := List.forall_mem_append.1 hgive
    obtain ⟨hkeep, hkeep₃⟩ := List.forall_mem_append.1 hkeep
    obtain ⟨hkeep₁, hkeep₂⟩ := List.forall_mem_append.1 hkeep
    exact finish_runsLike (guarded_runsLike hvalue (body.run_bare hvalue _ hgive₁ hkeep₁)
        (CatchClause.handle_bare hvalue catches _ _ hgive₂ hkeep₂) resources)
      (finallyBody.run_bare hvalue _ hgive₃ hkeep₃) (hfinally _ _ _ _ rfl)
  | .throw _, _, _, _, _, _, _ => fun _ => giving_withValue _ _
  | .breakTo _, _, _, _, _, _, _ => fun _ => rfl
  | .continueTo _, _, _, _, _, _, _ => fun _ => rfl
  | .switch selector cases, path, labels, _, _, hgive, hkeep => by
    refine switch_runsLike ?_ (SwitchCase.runFrom_bare hvalue cases _ _ hgive hkeep) selector labels
    rw [SwitchCase.bareAll_eq_map, List.map_map]
    rfl
  | .sync lock body, path, labels, _, _, hgive, hkeep =>
    sync_runsLike (body.run_bare hvalue _ hgive hkeep) lock labels
  | .labeled label body, path, labels, _, _, hgive, hkeep =>
    labeled_runsLike (body.run_bare hvalue _ (label :: labels) hgive hkeep)
  | .assertion cond message, _, _, _, _, _, _ => giving_check cond message
  | .empty, _, _, _, _, _, _ => fun _ => rfl

theorem Block.run_bare (hvalue : ReadsVariables value) : (body : Block) → (path : StmtPath) →
    AllGive value (body.walk path) →
    (∀ entry ∈ body.bare.walk path, FinallyKeeps rounds value entry.2) →
    RunsLike value (body.bare.run machine rounds) (body.run machine rounds)
  | ⟨stmts, _, _⟩, path, hgive, hkeep => Stmt.runAll_bare hvalue stmts path 0 hgive hkeep

theorem Stmt.runAll_bare (hvalue : ReadsVariables value) : (stmts : List Stmt) →
    (path : StmtPath) → (index : Nat) → AllGive value (Stmt.walkList stmts path index) →
    (∀ entry ∈ Stmt.walkList (Stmt.bareAll stmts) path index, FinallyKeeps rounds value entry.2) →
    RunsLike value (Stmt.runAll machine rounds (Stmt.bareAll stmts))
      (Stmt.runAll machine rounds stmts)
  | [], _, _, _, _ => fun _ => rfl
  | stmt :: rest, path, index, hgive, hkeep => by
    obtain ⟨hgive₁, hgive₂⟩ := List.forall_mem_append.1 hgive
    obtain ⟨hkeep₁, hkeep₂⟩ := List.forall_mem_append.1 hkeep
    have hstmt := stmt.run_bare hvalue _ [] hgive₁ hkeep₁
    have hrest := Stmt.runAll_bare hvalue rest path _ hgive₂ hkeep₂
    intro state
    refine (giving_andThen _ _).trans ?_
    rw [hstmt]
    simp only [hrest _]
    rfl

theorem CatchClause.handle_bare (hvalue : ReadsVariables value) : (clauses : List CatchClause) →
    (path : StmtPath) → (index : Nat) → AllGive value (CatchClause.walkList clauses path index) →
    (∀ entry ∈ CatchClause.walkList (CatchClause.bareAll clauses) path index,
      FinallyKeeps rounds value entry.2) → ∀ thrown state,
    giving value (CatchClause.handle machine rounds (CatchClause.bareAll clauses) thrown state) =
      CatchClause.handle machine rounds clauses thrown state
  | [], _, _, _, _, _, _ => rfl
  | ⟨_, _, _, types, name, body⟩ :: rest, path, index, hgive, hkeep, thrown, state => by
    obtain ⟨hgive₁, hgive₂⟩ := List.forall_mem_append.1 hgive
    obtain ⟨hkeep₁, hkeep₂⟩ := List.forall_mem_append.1 hkeep
    have hbody := body.run_bare hvalue _ hgive₁ hkeep₁
    have hrest := CatchClause.handle_bare hvalue rest path _ hgive₂ hkeep₂ thrown state
    simp only [CatchClause.bareAll, CatchClause.handle]
    split
    · exact hbody _
    · exact hrest

theorem SwitchCase.runFrom_bare (hvalue : ReadsVariables value) : (cases : List SwitchCase) →
    (path : StmtPath) → (index : Nat) → AllGive value (SwitchCase.walkList cases path index) →
    (∀ entry ∈ SwitchCase.walkList (SwitchCase.bareAll cases) path index,
      FinallyKeeps rounds value entry.2) → ∀ first state,
    giving value (SwitchCase.runFrom machine rounds (SwitchCase.bareAll cases) first state) =
      SwitchCase.runFrom machine rounds cases first state
  | [], _, _, _, _, _, _ => rfl
  | ⟨_, _, _, form, body⟩ :: rest, path, index, hgive, hkeep, first, state => by
    obtain ⟨hgive₁, hgive₂⟩ := List.forall_mem_append.1 hgive
    obtain ⟨hkeep₁, hkeep₂⟩ := List.forall_mem_append.1 hkeep
    have hbody := body.run_bare hvalue _ hgive₁ hkeep₁
    have hrest := SwitchCase.runFrom_bare hvalue rest path _ hgive₂ hkeep₂
    cases first with
    | succ first => exact hrest first state
    | zero =>
      refine (giving_andThen _ _).trans ?_
      rw [hbody]
      congr 1
      funext state
      split
      · exact hrest 0 state
      · rfl
end

end AdviceMigration.Source
