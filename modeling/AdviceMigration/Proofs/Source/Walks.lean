import AdviceMigration.Proofs.Source.PathOrder

/-!
# Walks with a stack

A body can also be walked one statement at a time. The walker holds the statements that wait, the next one first; visiting a statement puts those right below it in front of the others. Such a walk ends, and it visits what the recursive walk lists: exactly the statements that paths lead to, each once and in the order of the paths.
-/

namespace AdviceMigration.Source

open StmtPath

/-! ### The order of paths, step by step -/

namespace Step

theorem before_irrefl (step : Step) : step.before step = false := by
  simp [before]

/-- Of two different steps one comes before the other. -/
theorem before_or_before {left right : Step} (h : left ≠ right) :
    left.before right = true ∨ right.before left = true := by
  by_contra hneither
  have hrank : left.rank = right.rank := by
    simp only [before, Bool.or_eq_true, Bool.and_eq_true, decide_eq_true_eq, beq_iff_eq] at hneither
    refine Prod.ext ?_ ?_ <;> omega
  refine h ?_
  cases left <;> cases right <;> simp_all [rank]

theorem before_asymm {left right : Step} (h : left.before right = true) :
    right.before left = false := by
  simp only [before, Bool.or_eq_true, Bool.and_eq_true, decide_eq_true_eq, beq_iff_eq,
    Bool.or_eq_false_iff, Bool.and_eq_false_imp, decide_eq_false_iff_not] at h ⊢
  omega

end Step

/-- Paths are compared like words: by the first step in which they differ, and a path comes before those that go on from it. -/
theorem StmtPath.precedes_iff_lex {left right : StmtPath} :
    Precedes left right ↔ List.Lex (fun step step' => Step.before step step' = true) left right := by
  induction left generalizing right with
  | nil =>
    cases right with
    | nil => simp [Precedes, le]
    | cons step rest => simp [Precedes, le]
  | cons step rest ih =>
    cases right with
    | nil => simp [Precedes, le]
    | cons step' rest' =>
      rw [List.cons_lex_cons_iff, ← ih]
      simp only [Precedes, le, Bool.or_eq_false_iff, Bool.and_eq_false_imp, beq_iff_eq]
      by_cases heq : step = step'
      · subst heq
        simp [Step.before_irrefl]
      · constructor
        · rintro ⟨hbefore, -⟩
          exact .inl ((Step.before_or_before heq).resolve_right (Bool.eq_false_iff.1 hbefore))
        · rintro (hbefore | ⟨rfl, -⟩)
          · exact ⟨Step.before_asymm hbefore, fun h => absurd h.symm heq⟩
          · exact absurd rfl heq

/-! ### One statement at a time -/

/-- The statements that stand directly in a block with the given path. -/
def Block.entries (block : Block) (path : StmtPath) : List (StmtPath × Stmt) :=
  block.stmts.zipIdx.map fun numbered => (path ++ [.stmt numbered.2], numbered.1)

/-- The statements right below a statement with the given path, in document order. Those of its blocks stand for the blocks. -/
def StmtKind.inner : StmtKind → StmtPath → List (StmtPath × Stmt)
  | .block body, path => body.entries (path ++ [.nested])
  | .ifElse _ yes none, path => [(path ++ [.thenBranch], yes)]
  | .ifElse _ yes (some no), path => [(path ++ [.thenBranch], yes), (path ++ [.elseBranch], no)]
  | .whileLoop _ body, path => [(path ++ [.body], body)]
  | .doWhile body _, path => [(path ++ [.body], body)]
  | .forLoop _ _ _ body, path => [(path ++ [.body], body)]
  | .forEach _ _ body, path => [(path ++ [.body], body)]
  | .labeled _ body, path => [(path ++ [.body], body)]
  | .tryBlock _ body catches finallyBody, path =>
    body.entries (path ++ [.body]) ++
      catches.zipIdx.flatMap (fun numbered =>
        numbered.1.body.entries (path ++ [.catchBlock numbered.2])) ++
      match finallyBody with
      | some finallyBody => finallyBody.entries (path ++ [.finallyBlock])
      | none => []
  | .sync _ body, path => body.entries (path ++ [.body])
  | .switch _ cases, path =>
    cases.zipIdx.flatMap fun numbered =>
      numbered.1.body.entries (path ++ [.caseBlock numbered.2])
  | .localVar _, _ => []
  | .localClass _, _ => []
  | .expr _, _ => []
  | .ret _, _ => []
  | .throw _, _ => []
  | .breakTo _, _ => []
  | .continueTo _, _ => []
  | .assertion _ _, _ => []
  | .empty, _ => []

/-- A walk on its way: the statements that wait, the next one first. -/
structure Walker where
  waiting : List (StmtPath × Stmt)

namespace Walker

/-- A walk through a body that has not visited anything. -/
def start (body : Block) : Walker := ⟨body.entries []⟩

/-- The statement that is visited next and the walk after it, or nothing if the walk is over. -/
def next? (walker : Walker) : Option ((StmtPath × Stmt) × Walker) :=
  match walker.waiting with
  | [] => none
  | (path, stmt) :: rest => some ((path, stmt), ⟨stmt.kind.inner path ++ rest⟩)

/-- Whether a walk visits just the given statements, in this order, and is over then. -/
inductive Yields : Walker → List (StmtPath × Stmt) → Prop where
  | ended {walker : Walker} (h : walker.next? = none) : Yields walker []
  | visit {walker rest : Walker} {entry : StmtPath × Stmt} {entries : List (StmtPath × Stmt)}
      (h : walker.next? = some (entry, rest)) (hrest : Yields rest entries) :
    Yields walker (entry :: entries)

variable {walker : Walker} {entries entries' : List (StmtPath × Stmt)}

/-- A walk can go one way only. -/
theorem Yields.eq (h : walker.Yields entries) (h' : walker.Yields entries') : entries = entries' := by
  induction h generalizing entries' with
  | ended hended =>
    cases h' with
    | ended => rfl
    | visit hnext => rw [hended] at hnext; cases hnext
  | visit hnext _ ih =>
    cases h' with
    | ended hended => rw [hnext] at hended; cases hended
    | visit hnext' hrest =>
      rw [hnext] at hnext'
      obtain ⟨rfl, rfl⟩ := Prod.mk.inj (Option.some.inj hnext')
      rw [ih hrest]

end Walker

/-! ### Both walks meet -/

/-- A statement and the statements in it. -/
def walkEntry (entry : StmtPath × Stmt) : List (StmtPath × Stmt) := entry.2.walk entry.1

theorem Stmt.walkList_eq (stmts : List Stmt) (path : StmtPath) (index : Nat) :
    Stmt.walkList stmts path index =
      (stmts.zipIdx index).flatMap fun numbered =>
        numbered.1.walk (path ++ [Step.stmt numbered.2]) := by
  induction stmts generalizing index with
  | nil => rfl
  | cons stmt rest ih => rw [Stmt.walkList, ih, List.zipIdx_cons, List.flatMap_cons]

theorem CatchClause.walkList_eq (clauses : List CatchClause) (path : StmtPath) (index : Nat) :
    CatchClause.walkList clauses path index =
      (clauses.zipIdx index).flatMap fun numbered =>
        numbered.1.body.walk (path ++ [Step.catchBlock numbered.2]) := by
  induction clauses generalizing index with
  | nil => rfl
  | cons clause rest ih =>
    obtain ⟨id, annotations, modifiers, types, name, body⟩ := clause
    rw [CatchClause.walkList, ih, List.zipIdx_cons, List.flatMap_cons]

theorem SwitchCase.walkList_eq (cases : List SwitchCase) (path : StmtPath) (index : Nat) :
    SwitchCase.walkList cases path index =
      (cases.zipIdx index).flatMap fun numbered =>
        numbered.1.body.walk (path ++ [Step.caseBlock numbered.2]) := by
  induction cases generalizing index with
  | nil => rfl
  | cons case rest ih =>
    obtain ⟨comments, labels, isDefault, form, body⟩ := case
    rw [SwitchCase.walkList, ih, List.zipIdx_cons, List.flatMap_cons]

theorem Block.walk_eq (block : Block) (path : StmtPath) :
    block.walk path = (block.entries path).flatMap walkEntry := by
  obtain ⟨stmts, endComments, closing⟩ := block
  rw [Block.walk, Stmt.walkList_eq, Block.entries, List.flatMap_map]
  rfl

theorem Stmt.walk_eq (stmt : Stmt) (path : StmtPath) :
    stmt.walk path = (path, stmt) :: stmt.kind.walk path := by
  obtain ⟨layout, trailing, kind⟩ := stmt
  rw [Stmt.walk]

/-- The walk through a statement goes through the statements right below it one after the other. -/
theorem StmtKind.walk_eq (kind : StmtKind) (path : StmtPath) :
    kind.walk path = (kind.inner path).flatMap walkEntry := by
  cases kind with
  | block body => exact body.walk_eq _
  | ifElse cond yes no =>
    cases no with
    | none => simp [StmtKind.walk, inner, walkEntry]
    | some no => simp [StmtKind.walk, inner, walkEntry]
  | tryBlock resources body catches finallyBody =>
    cases finallyBody with
    | none =>
      simp [StmtKind.walk, inner, Block.walk_eq, CatchClause.walkList_eq, List.flatMap_assoc]
    | some finallyBody =>
      simp [StmtKind.walk, inner, Block.walk_eq, CatchClause.walkList_eq, List.flatMap_assoc]
  | sync lock body => exact body.walk_eq _
  | switch selector cases =>
    simp [StmtKind.walk, inner, Block.walk_eq, SwitchCase.walkList_eq, List.flatMap_assoc]
  | _ => simp [StmtKind.walk, inner, walkEntry]

/-- The walker visits the statements that wait together with the statements in them. -/
theorem Walker.yields_flatMap (waiting : List (StmtPath × Stmt)) :
    (Walker.mk waiting).Yields (waiting.flatMap walkEntry) := by
  -- Each visit leaves one statement less to be visited, whatever is put in front.
  induction hcount : (waiting.flatMap walkEntry).length generalizing waiting with
  | zero =>
    cases waiting with
    | nil => exact .ended rfl
    | cons entry rest =>
      rw [List.flatMap_cons, walkEntry, Stmt.walk_eq] at hcount
      simp at hcount
  | succ count ih =>
    cases waiting with
    | nil => cases hcount
    | cons entry rest =>
      obtain ⟨path, stmt⟩ := entry
      have hvisit : ((path, stmt) :: rest).flatMap walkEntry =
          (path, stmt) :: (stmt.kind.inner path ++ rest).flatMap walkEntry := by
        rw [List.flatMap_cons, walkEntry, Stmt.walk_eq, StmtKind.walk_eq, List.flatMap_append,
          List.cons_append]
      rw [hvisit, List.length_cons, Nat.add_right_cancel_iff] at hcount
      rw [hvisit]
      exact .visit rfl (ih _ hcount)

/-- The walk through a body ends, and it visits the statements that the recursive walk lists. -/
theorem Walker.yields_start_iff (body : Block) (entries : List (StmtPath × Stmt)) :
    (Walker.start body).Yields entries ↔ entries = body.scoped := by
  have hscoped : body.scoped = (body.entries []).flatMap walkEntry := body.walk_eq []
  have hyields := Walker.yields_flatMap (body.entries [])
  rw [hscoped]
  exact ⟨fun h => h.eq hyields, fun h => h ▸ hyields⟩

/-- Walking through a body ends, and the visited statements are those that paths lead to, each visited once, in strictly ascending order of the paths. -/
theorem scoped_visits_paths (body : Block) :
    (∀ entries, (Walker.start body).Yields entries ↔ entries = body.scoped) ∧
      (∀ path stmt, (path, stmt) ∈ body.scoped ↔ body.stmtAt? path = some stmt) ∧
      body.scoped.Nodup ∧
      (body.scoped.map (·.1)).Pairwise
        (List.Lex fun step step' => Step.before step step' = true) := by
  have hascending : (body.scoped.map (·.1)).Pairwise Precedes := (body.walk_ascending []).1
  refine ⟨Walker.yields_start_iff body, ?_, ?_, ?_⟩
  · intro path stmt
    rw [Block.mem_scoped, Block.stmtAt?_eq_some_iff]
  · refine (List.pairwise_map.1 hascending).imp ?_
    rintro entry _ hprecedes rfl
    exact not_precedes_self entry.1 hprecedes
  · exact hascending.imp fun h => precedes_iff_lex.1 h

end AdviceMigration.Source
