import AdviceMigration.Proofs.Source.Paths

/-!
# The order of paths

A walk meets the statements of a body in ascending order of their paths: a statement before the statements in it, and these part by part. Whatever has been done at later paths is therefore no obstacle on the way to an earlier one.
-/

namespace AdviceMigration.Source

namespace StmtPath

/-- Whether a path comes strictly before another one. -/
def Precedes (left right : StmtPath) : Prop := le right left = false

theorem le_append (path left right : StmtPath) :
    le (path ++ left) (path ++ right) = le left right := by
  induction path with
  | nil => rfl
  | cons step rest ih => simp [le, ih, Step.before]

theorem not_precedes_self (path : StmtPath) : ¬ Precedes path path := by
  have hle := le_append path [] []
  rw [List.append_nil] at hle
  simp [Precedes, hle, le]

theorem precedes_append_cons (path : StmtPath) (step : Step) (rest : StmtPath) :
    Precedes path (path ++ step :: rest) := by
  have hle := le_append path (step :: rest) []
  rw [List.append_nil] at hle
  simp [Precedes, hle, le]

theorem precedes_of_before (path : StmtPath) {step step' : Step} (rest rest' : StmtPath)
    (h : step.before step' = true) : Precedes (path ++ step :: rest) (path ++ step' :: rest') := by
  have hne : step' ≠ step := by
    rintro rfl
    simp [Step.before] at h
  have hbefore : step'.before step = false := by
    simp only [Step.before, Bool.or_eq_true, Bool.and_eq_true, decide_eq_true_eq, beq_iff_eq,
      Bool.or_eq_false_iff, Bool.and_eq_false_imp, decide_eq_false_iff_not] at h ⊢
    omega
  simp [Precedes, le_append, le, hne, hbefore]

/-- Statements of a block that stand at or before the one a path goes through do not come later. -/
theorem not_precedes_stmt (path : StmtPath) {index other : Nat} (rest : StmtPath)
    (h : other ≤ index) :
    ¬ Precedes (path ++ Step.stmt index :: rest) (path ++ [Step.stmt other]) := by
  rcases Nat.lt_or_eq_of_le h with hlt | rfl
  · simp [Precedes, le_append, le, Step.before, Step.rank, hlt]
  · simp [Precedes, le_append, le]

end StmtPath

open StmtPath

/-! ### Walks in order -/

/-- Whether the entries of a walk stand in ascending order and their paths go on from a common one with steps of some kind. -/
def Ascending (first : Step → Prop) (path : StmtPath) (entries : List (StmtPath × Stmt)) : Prop :=
  (entries.map (·.1)).Pairwise Precedes ∧
    ∀ entry ∈ entries, ∃ step rest, entry.1 = path ++ step :: rest ∧ first step

/-- The steps into parts of one kind, from the given index on. -/
def FromIndex (step : Nat → Step) (index : Nat) (other : Step) : Prop :=
  ∃ later, index ≤ later ∧ other = step later

namespace Ascending

variable {first second : Step → Prop} {path : StmtPath} {entries entries' : List (StmtPath × Stmt)}

theorem nil : Ascending first path [] := ⟨List.Pairwise.nil, List.forall_mem_nil _⟩

theorem under {part : Focus} {step : Step} (hpairs : (entries.map (·.1)).Pairwise Precedes)
    (hreach : ∀ entry ∈ entries, part.Reaches (path ++ [step]) entry) :
    Ascending (· = step) path entries := by
  refine ⟨hpairs, fun entry hentry => ?_⟩
  obtain ⟨rest, hpath, -⟩ := hreach entry hentry
  exact ⟨step, rest, by rw [hpath, List.append_assoc, List.singleton_append], rfl⟩

/-- A statement that a step leads to. -/
theorem stmt {stmt : Stmt} {path : StmtPath} {step : Step}
    (h : ((stmt.walk (path ++ [step])).map (·.1)).Pairwise Precedes) :
    Ascending (· = step) path (stmt.walk (path ++ [step])) :=
  .under h fun entry => (stmt.mem_walk _ entry).1

/-- A block that a step leads to. -/
theorem block {body : Block} {path : StmtPath} {step : Step}
    (h : Ascending first (path ++ [step]) (body.walk (path ++ [step]))) :
    Ascending (· = step) path (body.walk (path ++ [step])) :=
  .under h.1 fun entry => (body.mem_walk _ entry).1

theorem append (h : Ascending first path entries) (h' : Ascending second path entries')
    (hbefore : ∀ step step', first step → second step' → step.before step' = true) :
    Ascending (fun step => first step ∨ second step) path (entries ++ entries') := by
  constructor
  · rw [List.map_append, List.pairwise_append]
    refine ⟨h.1, h'.1, ?_⟩
    intro left hleft right hright
    obtain ⟨entry, hentry, rfl⟩ := List.mem_map.1 hleft
    obtain ⟨entry', hentry', rfl⟩ := List.mem_map.1 hright
    obtain ⟨step, rest, hpath, hfirst⟩ := h.2 entry hentry
    obtain ⟨step', rest', hpath', hsecond⟩ := h'.2 entry' hentry'
    rw [hpath, hpath']
    exact precedes_of_before path rest rest' (hbefore step step' hfirst hsecond)
  · intro entry hentry
    rcases List.mem_append.1 hentry with hentry | hentry
    · obtain ⟨step, rest, hpath, hfirst⟩ := h.2 entry hentry
      exact ⟨step, rest, hpath, .inl hfirst⟩
    · obtain ⟨step, rest, hpath, hsecond⟩ := h'.2 entry hentry
      exact ⟨step, rest, hpath, .inr hsecond⟩

theorem mono (h : Ascending first path entries) (himp : ∀ step, first step → second step) :
    Ascending second path entries := by
  refine ⟨h.1, fun entry hentry => ?_⟩
  obtain ⟨step, rest, hpath, hfirst⟩ := h.2 entry hentry
  exact ⟨step, rest, hpath, himp step hfirst⟩

theorem any (h : Ascending first path entries) : Ascending (fun _ => True) path entries :=
  h.mono fun _ _ => trivial

/-- A part in front of the parts with higher numbers. -/
theorem cons {step : Nat → Step} (hstep : ∀ {index later}, index < later →
    (step index).before (step later) = true) {index : Nat}
    (h : Ascending (· = step index) path entries)
    (h' : Ascending (FromIndex step (index + 1)) path entries') :
    Ascending (FromIndex step index) path (entries ++ entries') := by
  refine (h.append h' ?_).mono ?_
  · rintro _ _ rfl ⟨later, hlater, rfl⟩
    exact hstep (by omega)
  · rintro _ (rfl | ⟨later, hlater, rfl⟩)
    · exact ⟨index, Nat.le_refl _, rfl⟩
    · exact ⟨later, by omega, rfl⟩

end Ascending

mutual
theorem Stmt.walk_ascending : (stmt : Stmt) → (path : StmtPath) →
    ((stmt.walk path).map (·.1)).Pairwise Precedes
  | ⟨layout, trailing, kind⟩, path => by
    have hkind := kind.walk_ascending path
    refine List.pairwise_cons.2 ⟨?_, hkind.1⟩
    intro other hother
    obtain ⟨entry, hentry, rfl⟩ := List.mem_map.1 hother
    obtain ⟨step, rest, hpath, -⟩ := hkind.2 entry hentry
    rw [hpath]
    exact precedes_append_cons path step rest

theorem StmtKind.walk_ascending : (kind : StmtKind) → (path : StmtPath) →
    Ascending (fun _ => True) path (kind.walk path)
  | .block body, _ => (Ascending.block (body.walk_ascending _)).any
  | .ifElse _ yes none, _ => (Ascending.stmt (yes.walk_ascending _)).any
  | .ifElse _ yes (some no), _ =>
    ((Ascending.stmt (yes.walk_ascending _)).append (.stmt (no.walk_ascending _))
      (by rintro _ _ rfl rfl; rfl)).any
  | .whileLoop _ body, _ => (Ascending.stmt (body.walk_ascending _)).any
  | .doWhile body _, _ => (Ascending.stmt (body.walk_ascending _)).any
  | .forLoop _ _ _ body, _ => (Ascending.stmt (body.walk_ascending _)).any
  | .forEach _ _ body, _ => (Ascending.stmt (body.walk_ascending _)).any
  | .labeled _ body, _ => (Ascending.stmt (body.walk_ascending _)).any
  | .tryBlock _ body catches none, path =>
    (((Ascending.block (body.walk_ascending _)).append (CatchClause.walkList_ascending catches path 0)
      (by rintro _ _ rfl ⟨_, -, rfl⟩; rfl)).append (.nil : Ascending (fun _ => False) path [])
      fun _ _ _ h => h.elim).any
  | .tryBlock _ body catches (some finallyBody), path =>
    (((Ascending.block (body.walk_ascending _)).append (CatchClause.walkList_ascending catches path 0)
      (by rintro _ _ rfl ⟨_, -, rfl⟩; rfl)).append (.block (finallyBody.walk_ascending _))
      (by rintro _ _ (rfl | ⟨_, -, rfl⟩) rfl <;> rfl)).any
  | .sync _ body, _ => (Ascending.block (body.walk_ascending _)).any
  | .switch _ cases, path => (SwitchCase.walkList_ascending cases path 0).any
  | .localVar _, _ => .nil
  | .localClass _, _ => .nil
  | .expr _, _ => .nil
  | .ret _, _ => .nil
  | .throw _, _ => .nil
  | .breakTo _, _ => .nil
  | .continueTo _, _ => .nil
  | .assertion _ _, _ => .nil
  | .empty, _ => .nil

theorem Block.walk_ascending : (body : Block) → (path : StmtPath) →
    Ascending (FromIndex .stmt 0) path (body.walk path)
  | ⟨stmts, _, _⟩, path => Stmt.walkList_ascending stmts path 0

theorem Stmt.walkList_ascending : (stmts : List Stmt) → (path : StmtPath) → (index : Nat) →
    Ascending (FromIndex .stmt index) path (Stmt.walkList stmts path index)
  | [], _, _ => .nil
  | stmt :: rest, path, index =>
    .cons (fun h => by simp [Step.before, Step.rank, h]) (.stmt (stmt.walk_ascending _))
      (Stmt.walkList_ascending rest path (index + 1))

theorem CatchClause.walkList_ascending : (clauses : List CatchClause) → (path : StmtPath) →
    (index : Nat) →
    Ascending (FromIndex .catchBlock index) path (CatchClause.walkList clauses path index)
  | [], _, _ => .nil
  | ⟨_, _, _, _, _, body⟩ :: rest, path, index =>
    .cons (fun h => by simp [Step.before, Step.rank, h]) (.block (body.walk_ascending _))
      (CatchClause.walkList_ascending rest path (index + 1))

theorem SwitchCase.walkList_ascending : (cases : List SwitchCase) → (path : StmtPath) →
    (index : Nat) →
    Ascending (FromIndex .caseBlock index) path (SwitchCase.walkList cases path index)
  | [], _, _ => .nil
  | ⟨_, _, _, _, body⟩ :: rest, path, index =>
    .cons (fun h => by simp [Step.before, Step.rank, h]) (.block (body.walk_ascending _))
      (SwitchCase.walkList_ascending rest path (index + 1))
end

/-- The returns of a body in ascending order of their paths. -/
theorem Block.returnPaths_ascending (body : Block) : body.returnPaths.Pairwise Precedes :=
  List.Pairwise.sublist (List.filter_sublist.map _) (body.walk_ascending []).1

end AdviceMigration.Source
