import AdviceMigration.Proofs.Advice.FoldEnds

/-!
# Folding in a whole body

An assignment that moves into a `return` is gone for what runs after the `return`: the `finally` blocks around it, and the resources that are closed. Folding does not look at them. Where an assigned expression throws, the assignments in front of it are gone as well for what runs after the exception, which may be a `catch` block around the `return`, and any statement after it.

So a body runs like before under two conditions. No `finally` block around a `return` notices a variable that is assigned in front of a `return`, and these blocks end normally. And if something that is assigned may throw, the `catch` blocks around a `return` do not notice a variable that is assigned in front of it, and throw again: otherwise control comes to other statements that read the variable.
-/

namespace AdviceMigration.Advice

open AdviceMigration.Source AdviceMigration.Scope AdviceMigration.Execution
  AdviceMigration.Execution.Machine

/-! ### Statements in front of a return -/

/-- An edit that changes nothing, at a `return` with known statements in front. -/
def standing (front : List Stmt) : EditSpec where
  site := fun site _ => site.before = front
  before := fun _ _ => True

theorem local_standing (front : List Stmt) : (standing front).Local where
  under := fun _ h => h
  refl := fun _ => trivial
  swap := fun _ _ _ _ => trivial

theorem before_eq_of_blockAt? {body : Block} {waiting done : List ReturnSite} {site : ReturnSite}
    (hsites : body.sites = waiting ++ site :: done) {path : StmtPath} {front back : List Stmt}
    {ret : Stmt} {endComments : List Comment} {closing : Option Trivia}
    (hpath : site.path = path ++ [Step.stmt front.length])
    (hblock : body.blockAt? path = some ⟨front ++ ret :: back, endComments, closing⟩)
    (hret : ret.isReturn) : site.before = front := by
  obtain ⟨body', hbody'⟩ := @Block.exists_updateBlock? body _ _ path some hblock rfl
  have hedits := @EditSpec.edits_updateBlock _ (local_standing front) body body' path some front [] []
    back ret ret endComments endComments closing closing (by rwa [List.append_nil])
    (by rw [List.append_nil]) (List.forall_mem_nil _) (List.forall_mem_nil _) hret hret
    (fun _ => trivial) (List.append_nil _) hbody'
  rw [List.append_nil, ← hpath] at hedits
  obtain ⟨_, _, -, hbefore, -⟩ := hedits.last hsites
  exact hbefore

/-! ### One return -/

section Folded

variable {machine : Machine} {rounds : Nat} {names dead lost : List String}

theorem spares_block_iff {stmts : List Stmt} {endComments : List Comment} {closing : Option Trivia} :
    (Focus.block ⟨stmts, endComments, closing⟩).Spares machine rounds dead lost ↔
      ∀ stmt ∈ stmts, (Focus.stmt stmt).Spares machine rounds dead lost := by
  constructor
  · intro h stmt hstmt path inner hat
    obtain ⟨index, hindex⟩ := List.mem_iff_getElem?.1 hstmt
    refine h (.stmt index :: path) inner ?_
    rw [Focus.at?, Focus.child?, hindex]
    exact hat
  · intro h path inner hat
    cases path with
    | nil => cases hat
    | cons step rest =>
      rw [Focus.at?] at hat
      split at hat
      next child hchild =>
        cases step with
        | stmt index =>
          obtain ⟨stmt, hstmt, rfl⟩ := Option.map_eq_some_iff.1 hchild
          exact h stmt (List.mem_of_getElem? hstmt) rest inner hat
        | _ => cases hchild
      next => cases hat

theorem spares_of_isReturn {ret : Stmt} (h : ret.isReturn) :
    (Focus.stmt ret).Spares machine rounds dead lost := by
  obtain ⟨value, hkind⟩ := isReturn_iff.1 h
  intro path stmt hat
  cases path with
  | nil =>
    cases hat
    intro _ _ _ _ htry
    rw [hkind] at htry
    cases htry
  | cons step rest =>
    rw [Focus.at?, isLeaf_of_ret hkind step] at hat
    cases hat

/-- What is asked of the assignments in front of a `return`. -/
structure Folds (machine : Machine) (names dead lost : List String) (site : ReturnSite) : Prop where
  template : GivesTemplate names site.ret
  sure : ∀ entry ∈ assignments site.before, entry.1 ∈ names → IsSure machine entry.2
  dead : ∀ entry ∈ assignments site.before, entry.1 ∈ names → entry.1 ∈ dead
  lost : LosesOnly machine lost ((assignments site.before).filter fun entry => entry.1 ∈ names)

/-- The assignments that move end with the `return` like the `return` that has taken them in. -/
theorem Folds.endsLike (hmachine : machine.RespectsEffects) {site : ReturnSite}
    {kept moved before before' : List Stmt} {ret' : Stmt} (h : Folds machine names dead lost site)
    (hbefore : site.before = kept ++ moved)
    (hmoves : MovesInto (1 < names.length) before names site.ret before' moved ret')
    (state : machine.State) :
    EndsLike dead lost (Stmt.runAll machine rounds (moved ++ [site.ret]) state)
      (Stmt.runAll machine rounds [ret'] state) := by
  obtain ⟨htemplate, hsure, hdead, hlost⟩ := h
  rw [hbefore, assignments_append, List.forall_mem_append] at hsure hdead
  have hmoved : (assignments moved).filter (fun entry => entry.1 ∈ names) = assignments moved :=
    List.filter_eq_self.2 fun entry hentry => decide_eq_true (hmoves.assigned entry hentry)
  rw [hbefore, assignments_append, List.filter_append, hmoved] at hlost
  refine (hmoves.endsLike_template hmachine htemplate
    (fun entry hentry => hsure.2 entry hentry (hmoves.assigned entry hentry))
    (List.pairwise_append.1 hlost).2.1 rounds state).mono (fun name hname => ?_)
    (List.Subset.refl _)
  obtain ⟨entry, hentry, rfl⟩ := List.mem_map.1 hname
  exact hdead.2 entry hentry (hmoves.assigned entry hentry)

/-- Folding one `return` leaves a body that runs like before and still spares the variables. -/
theorem runsLike_foldAt (hmachine : machine.RespectsEffects) (hsubset : lost ⊆ dead) {body : Block}
    {waiting done : List ReturnSite} {site : ReturnSite}
    (hsites : body.sites = waiting ++ site :: done) (hfolds : Folds machine names dead lost site)
    (hspares : (Focus.block body).Spares machine rounds dead lost) :
    (Focus.block body).RunsLike machine rounds dead lost (.block (foldAt names body site.path).1) ∧
      (Focus.block (foldAt names body site.path).1).Spares machine rounds dead lost := by
  have hsite : site ∈ body.sites := by
    rw [hsites]
    simp
  obtain ⟨hstmt, hret⟩ := stmtAt?_of_site hsite
  cases hindex : site.path.blockIndex? with
  | none =>
    have hsame : (foldAt names body site.path).1 = body := by rw [foldAt, hindex]
    rw [hsame]
    exact ⟨fun _ => .same _, hspares⟩
  | some place =>
    obtain ⟨kept, moved, back, endComments, closing, ret', hpath, hblock, -, hmoves, hupdate⟩ :=
      updateBlock?_foldAt names hindex hstmt
    have hbefore := before_eq_of_blockAt? hsites hpath hblock hret
    refine Focus.runsLike_update? (Block.updateBlock?_eq_some_iff.1 hupdate) hsubset hspares ?_
    intro part new hat hnew
    rw [Block.blockAt?_eq_some_iff.1 hblock] at hat
    cases hat
    cases hnew
    refine ⟨trivial, ⟨[.stmt (kept ++ moved).length], site.ret, ?_, hret⟩, ?_, ?_⟩
    · simp [Focus.at?, Focus.child?]
    · intro state
      simpa [Block.run] using runAll_endsLike (hfolds.endsLike hmachine hbefore hmoves) kept back state
    · intro hpart
      rw [spares_block_iff] at hpart ⊢
      intro stmt hmem
      rcases List.mem_append.1 hmem with hmem | hmem
      · exact hpart stmt (List.mem_append_left _ (List.mem_append_left _ hmem))
      · rcases List.mem_cons.1 hmem with rfl | hmem
        · exact spares_of_isReturn (hmoves.isReturn hret)
        · exact hpart stmt (List.mem_append_right _ (List.mem_cons_of_mem _ hmem))

/-! ### All returns -/

/-- Folding the returns that are waiting, last first. -/
theorem runsLike_foldAll (hmachine : machine.RespectsEffects) (hsubset : lost ⊆ dead)
    (waiting : List ReturnSite) {body : Block} {done done' : List ReturnSite}
    (hsites : body.sites = waiting ++ done') (hdone : List.Forall₂ (FoldedInto names) done done')
    (hfolds : ∀ site ∈ waiting, Folds machine names dead lost site)
    (hspares : (Focus.block body).Spares machine rounds dead lost) (state : machine.State) :
    EndsLike dead lost (body.run machine rounds state)
      ((foldAll names body (waiting.map (·.path)).reverse).1.run machine rounds state) := by
  induction waiting using List.reverseRecOn generalizing body done done' with
  | nil => exact .same _
  | append_singleton waiting site ih =>
    rw [List.append_assoc, List.singleton_append] at hsites
    rw [List.forall_mem_append, List.forall_mem_singleton] at hfolds
    rw [List.map_append, List.map_singleton, List.reverse_append, List.reverse_singleton,
      List.singleton_append, foldAll]
    obtain ⟨after, hafter, hfolded⟩ := sites_foldAt names hsites hdone
    obtain ⟨hruns, hspares'⟩ := runsLike_foldAt hmachine hsubset hsites hfolds.2 hspares
    exact (hruns state).trans (ih hafter hfolded hfolds.1 hspares')

end Folded

/-- `catch` clauses that name none of some variables and throw again pass an exception on. -/
theorem passOn_of_unnamed {machine : Machine} (hmachine : machine.RespectsEffects)
    (hlocals : machine.LocalsApart) {rounds : Nat} {lost : List String} {catches : List CatchClause}
    (hunnamed : ∀ name ∈ lost, Unnamed name (CatchClause.eventsList catches))
    (hclauses : ∀ clause ∈ catches, ¬ (Focus.block clause.body).HasReturn ∧
      ∀ state, Within (clause.body.run machine rounds state) (· = .threw)) :
    CatchClause.PassOn machine rounds lost catches where
  ignores := fun name hname => CatchClause.ignores hmachine hlocals catches (hunnamed name hname)
  throws := by
    intro thrown state
    clear hunnamed
    induction catches with
    | nil => exact .ends rfl
    | cons clause rest ih =>
      obtain ⟨⟨-, hbody⟩, hrest⟩ := List.forall_mem_cons.1 hclauses
      obtain ⟨_, _, _, types, name, body⟩ := clause
      rw [CatchClause.handle]
      by_cases hinstance : machine.isInstance thrown types state = true
      · rw [if_pos hinstance]
        exact hbody _
      · rw [if_neg hinstance]
        exact ih hrest
  noReturn := fun clause hclause => (hclauses clause hclause).1

/-- Folding keeps what a body does, where no `finally` block around a `return` names a variable that is assigned in front of a `return`, and no `catch` block around one that is assigned in front of an expression that throws. Only these variables may differ in the end. -/
theorem run_foldReturns {names dead lost : List String} {method : Method} {body : Block}
    (hbody : method.body = some body) (htemplate : ∀ site ∈ body.sites, GivesTemplate names site.ret)
    {machine : Machine} (hmachine : machine.RespectsEffects) (hlocals : machine.LocalsApart)
    (hcloses : machine.ClosesResources) {rounds : Nat}
    (hsure : ∀ site ∈ body.sites, ∀ entry ∈ assignments site.before, entry.1 ∈ names →
      IsSure machine entry.2)
    (hdead : ∀ site ∈ body.sites, ∀ entry ∈ assignments site.before, entry.1 ∈ names →
      entry.1 ∈ dead)
    (hlost : ∀ site ∈ body.sites,
      LosesOnly machine lost ((assignments site.before).filter fun entry => entry.1 ∈ names))
    (hsubset : lost ⊆ dead)
    (hfinally : ∀ path stmt resources guarded catches last, body.stmtAt? path = some stmt →
      stmt.kind = .tryBlock resources guarded catches (some last) →
      (Focus.stmt (.ofKind (.tryBlock resources guarded catches none))).HasReturn →
      (∀ name ∈ dead, Unnamed name last.events) ∧
        ∀ state, ∃ state', last.run machine rounds state = some (.normal, state'))
    (hcatches : ∀ path stmt resources guarded catches finallyBody, body.stmtAt? path = some stmt →
      stmt.kind = .tryBlock resources guarded catches finallyBody →
      lost ≠ [] → (Focus.block guarded).HasReturn →
      (∀ name ∈ lost, Unnamed name (CatchClause.eventsList catches)) ∧
        ∀ clause ∈ catches, ¬ (Focus.block clause.body).HasReturn ∧
          ∀ state, Within (clause.body.run machine rounds state) (· = .threw)) :
    ∃ body', (foldReturns method names).1.body = some body' ∧
      ∀ state, EndsLike dead lost (body.run machine rounds state) (body'.run machine rounds state) := by
  have hspares : (Focus.block body).Spares machine rounds dead lost := by
    intro path stmt hat resources guarded catches finallyBody hkind
    have hstmt := Block.stmtAt?_eq_some_iff.2 hat
    refine ⟨fun hreturn => ⟨fun _ => ⟨hlocals, hcloses⟩, ?_⟩, fun hsome hreturn => ?_⟩
    · rintro last rfl
      obtain ⟨hunnamed, hnormal⟩ :=
        hfinally path stmt resources guarded catches last hstmt hkind hreturn
      exact ⟨fun name hname => last.ignores hmachine hlocals (hunnamed name hname), hnormal⟩
    · obtain ⟨hunnamed, hclauses⟩ :=
        hcatches path stmt resources guarded catches finallyBody hstmt hkind hsome hreturn
      exact passOn_of_unnamed hmachine hlocals hunnamed hclauses
  refine ⟨(foldAll names body body.returnPaths.reverse).1, by rw [foldReturns, hbody], ?_⟩
  rw [Block.returnPaths_eq]
  exact runsLike_foldAll hmachine hsubset body.sites (List.append_nil _).symm .nil
    (fun site hsite => ⟨htemplate site hsite, hsure site hsite, hdead site hsite, hlost site hsite⟩)
    hspares

theorem localsApart_callMachine : callMachine.LocalsApart where
  assign_comm := fun hne state value value' => CallState.assign_comm hne.symm state value value'
  selects := fun _ _ _ _ => rfl
  isInstance := fun _ _ _ _ _ => rfl
  next := fun _ _ _ _ => rfl
  close := fun _ _ _ _ => rfl
  checksAssertions := fun _ _ _ => rfl

theorem isSure_callMachine (expr : Expr) : IsSure callMachine expr := by
  intro hpure state
  obtain ⟨value, hvalue⟩ := callValue_pure expr hpure state
  exact ⟨value, state, (eval_callMachine expr state).trans (congrArg some hvalue)⟩

/-- The clause `catch (E e) { throw e; }`. -/
def rethrow : CatchClause :=
  ⟨7, [], [], [.simple "E"], "e", .ofStmts [.ofKind (.throw (.name 8 "e"))]⟩

/-- The block `{ use(z); }`. -/
def useOther : Block :=
  .ofStmts [.ofKind (.expr (.call none [] "use" [.name 9 "z"]))]

/-- A method with the body `try { y = 1; x = fail(); return new Object[]{x, y}; } catch (E e) { throw e; } finally { use(z); }`. -/
def guardedFailure : Method :=
  let write (id : NodeId) (name : String) (value : Expr) : Stmt :=
    .ofKind (.expr (.assign (.name id name) .assign value))
  ⟨0, .unwritten, [], [], [], some (.primitive .int), "m",
    [⟨1, [], [], .primitive .int, false, "x"⟩, ⟨2, [], [], .primitive .int, false, "y"⟩], [],
    some (.ofStmts [.ofKind (.tryBlock []
      (.ofStmts [write 3 "y" (.literal ⟨.int, "1"⟩), write 4 "x" (.call none [] "fail" []),
        .ofKind (.ret (some (.newArray objectType [none] (some [.name 5 "x", .name 6 "y"]))))])
      [rethrow] (some useOther))])⟩

theorem run_foldReturns_guardedCall :
    ∃ body body', guardedFailure.body = some body ∧ body.sites.length = 1 ∧
      (foldReturns guardedFailure ["x", "y"]).2 = 2 ∧
      (foldReturns guardedFailure ["x", "y"]).1.body = some body' ∧
      ∀ state, EndsLike ["x", "y"] ["y"] (body.run callMachine 1 state)
        (body'.run callMachine 1 state) := by
  have honly : ∀ entry ∈ (guardedFailure.body.getD default).scoped,
      ∀ resources guarded catches finallyBody,
        entry.2.kind = .tryBlock resources guarded catches finallyBody →
        catches = [rethrow] ∧ finallyBody = some useOther := by
    refine List.forall_mem_cons.2 ⟨?_, List.forall_mem_cons.2 ⟨?_, List.forall_mem_cons.2 ⟨?_,
      List.forall_mem_cons.2 ⟨?_, List.forall_mem_cons.2 ⟨?_, List.forall_mem_cons.2 ⟨?_,
      List.forall_mem_nil _⟩⟩⟩⟩⟩⟩
    · rintro _ _ _ _ ⟨⟩
      exact ⟨rfl, rfl⟩
    all_goals rintro _ _ _ _ ⟨⟩
  obtain ⟨body', hbody', hruns⟩ := @run_foldReturns ["x", "y"] ["x", "y"] ["y"] guardedFailure _ rfl
    (List.forall_mem_singleton.2 ⟨_, rfl, .array rfl (by decide)⟩) callMachine
    respectsEffects_callMachine localsApart_callMachine (fun _ state => ⟨state, rfl⟩) 1
    (fun _ _ _ _ _ => isSure_callMachine _) (fun _ _ _ _ => id)
    (List.forall_mem_singleton.2 (.cons (fun _ _ _ => List.mem_singleton_self _)
      (.cons (List.forall_mem_nil _) .nil)))
    (by decide)
    (by
      intro path stmt resources guarded catches last hstmt hkind _
      have hmem := (Block.mem_scoped _ _ _).2 (Block.stmtAt?_eq_some_iff.1 hstmt)
      obtain ⟨-, hlast⟩ := honly _ hmem _ _ _ _ hkind
      cases hlast
      exact ⟨by decide, fun state => ⟨_, rfl⟩⟩)
    (by
      intro path stmt resources guarded catches finallyBody hstmt hkind _ _
      have hmem := (Block.mem_scoped _ _ _).2 (Block.stmtAt?_eq_some_iff.1 hstmt)
      obtain ⟨rfl, -⟩ := honly _ hmem _ _ _ _ hkind
      refine ⟨by decide, List.forall_mem_singleton.2 ⟨?_, fun state => .ends rfl⟩⟩
      rintro ⟨path, stmt, hat, hreturn⟩
      have hthrow : (path, stmt) ∈ [([.stmt 0], .ofKind (.throw (.name 8 "e")))] :=
        (Block.mem_scoped _ _ _).2 hat
      cases List.mem_singleton.1 hthrow
      cases hreturn)
  exact ⟨_, body', rfl, rfl, by decide, hbody', hruns⟩

/-- A method with the body `try { x = f(); return x; } finally { use(argument); }`. -/
def guardedCall (argument : String) : Method :=
  ⟨0, .unwritten, [], [], [], some (.primitive .int), "m",
    [⟨1, [], [], .primitive .int, false, "x"⟩], [],
    some (.ofStmts [.ofKind (.tryBlock []
      (.ofStmts [.ofKind (.expr (.assign (.name 2 "x") .assign (.call none [] "f" []))),
        .ofKind (.ret (some (.name 3 "x")))]) []
      (some (.ofStmts [.ofKind (.expr (.call none [] "use" [.name 4 argument]))])))])⟩

theorem givesTemplate_guardedCall (argument : String) :
    ∀ site ∈ ((guardedCall argument).body.getD default).sites, GivesTemplate ["x"] site.ret :=
  List.forall_mem_singleton.2 ⟨_, rfl, .single⟩

/-- A `finally` block that reads the variable sees its old value: the assignment is gone, and the call in the block gets another argument. -/
theorem foldReturns_finally_read_stale :
    ∃ body body' last final final', (guardedCall "x").body = some body ∧
      (foldReturns (guardedCall "x") ["x"]).1.body = some body' ∧
      (∀ site ∈ body.sites, GivesTemplate ["x"] site.ret) ∧
      (body.sites.map fun site => (site.path, (assignments site.before).map Prod.fst)) =
        [([.stmt 0, .body, .stmt 1], ["x"])] ∧
      (body'.sites.map fun site => (site.path, site.before)) = [([.stmt 0, .body, .stmt 0], [])] ∧
      body.blockAt? [.stmt 0, .finallyBlock] = some last ∧
      body'.blockAt? [.stmt 0, .finallyBlock] = some last ∧
      last.events.any (Event.mentions ["x"]) = true ∧
      body.run callMachine 1 ⟨fun _ => .row [], []⟩ =
        some (.returned (some (.row [.row [.written "f"]])), final) ∧
      body'.run callMachine 1 ⟨fun _ => .row [], []⟩ =
        some (.returned (some (.row [.row [.written "f"]])), final') ∧
      final.calls = [.row [.written "use", .row [.row [.written "f"]]], .row [.written "f"]] ∧
      final'.calls = [.row [.written "use", .row []], .row [.written "f"]] :=
  ⟨_, _, _, _, _, rfl, rfl, givesTemplate_guardedCall "x", rfl, rfl, rfl, rfl, rfl, rfl, rfl, rfl, rfl⟩

end AdviceMigration.Advice
