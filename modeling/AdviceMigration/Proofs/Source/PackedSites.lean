import AdviceMigration.Proofs.Source.PackedReturns
import AdviceMigration.Proofs.Source.ReturnSites

/-!
# The returns of a packed body

A body with other values for its returns has its returns in the same order. In front of each of them stands what stood there, and the value that has been kept.
-/

namespace AdviceMigration.Source

/-- The statement that stands in front of one that is behind a value. -/
def Stmt.inFront (stmt : Stmt) (kept : Option Expr) : List Stmt := (stmt.behind kept).dropLast

/-- The value of a `return` that is kept in front of it: one that can stand alone, if the `return` gets another one and has room in front of it. -/
def Copies.kept? (copies : Copies) (site : ReturnSite) : Option Expr :=
  if site.path.blockIndex?.isSome then (copies site.path).bind fun _ => site.ret.keptValue? else none

/-- What becomes of a `return` and of what stands in front of it. -/
structure PackedSite (copies : Copies) (site site' : ReturnSite) : Prop where
  path : site.path ≠ []
  before : site'.before = Stmt.packedAll (copies.along site.path.dropLast) 0 site.before ++
    site.ret.inFront (copies.kept? site)
  ret : ∃ value, site.ret.kind = .ret value ∧ site'.ret.kind = .ret ((copies site.path).or value)

/-- What becomes of a `return` that a statement is or has in it. -/
def PackedIn (copies : Copies) (before before' : List Stmt) (site site' : ReturnSite) : Prop :=
  (site.path = [] ∧ site.before = before ∧ site'.before = before' ∧
    ∃ value, site.ret.kind = .ret value ∧ site'.ret.kind = .ret ((copies []).or value)) ∨
  PackedSite copies site site'

theorem StmtPath.blockIndex?_cons (step : Step) {path : StmtPath} (h : path ≠ []) :
    (StmtPath.blockIndex? (step :: path)).isSome = path.blockIndex?.isSome := by
  cases path with
  | nil => exact absurd rfl h
  | cons first rest =>
    simp only [StmtPath.blockIndex?, List.getLast?_cons_cons]
    split <;> rfl

theorem PackedSite.under {copies : Copies} {step step' : Step} {site site' : ReturnSite}
    (h : PackedSite (copies.under step) site site') :
    PackedSite copies (site.under step) (site'.under step') where
  path := List.cons_ne_nil _ _
  before := by
    have hkept : copies.kept? (site.under step) = (copies.under step).kept? site := by
      simp [Copies.kept?, ReturnSite.under, StmtPath.blockIndex?_cons step h.path, Copies.under]
    rw [hkept, ReturnSite.under, ReturnSite.under, List.dropLast_cons_of_ne_nil h.path]
    exact h.before
  ret := h.ret

/-- A branch or a body has nothing in front of it and makes no room. -/
theorem PackedIn.branch {copies : Copies} {step : Step} {site site' : ReturnSite}
    (h : PackedIn (copies.under step) [] [] site site') (hstep : ∀ index, step ≠ .stmt index) :
    PackedSite copies (site.under step) (site'.under step) := by
  rcases h with ⟨hpath, hbefore, hbefore', hret⟩ | h
  · obtain ⟨path, before, ret⟩ := site
    obtain ⟨path', before', ret'⟩ := site'
    cases hpath
    cases hbefore
    cases hbefore'
    refine ⟨List.cons_ne_nil _ _, ?_, hret⟩
    cases step with
    | stmt index => exact absurd rfl (hstep index)
    | _ => rfl
  · exact h.under

theorem forall₂_under {R R' : ReturnSite → ReturnSite → Prop} {step step' : Step}
    {sites sites' : List ReturnSite} (h : List.Forall₂ R sites sites')
    (himp : ∀ site site', R site site' → R' (site.under step) (site'.under step')) :
    List.Forall₂ R' (sites.map (.under step)) (sites'.map (.under step')) := by
  rw [List.forall₂_map_left_iff, List.forall₂_map_right_iff]
  exact h.imp himp

theorem Stmt.isReturn_packed (stmt : Stmt) (copies : Copies) :
    (stmt.packed copies).isReturn = stmt.isReturn := by
  obtain ⟨layout, trailing, kind⟩ := stmt
  cases kind with
  | ifElse _ _ no => cases no <;> rfl
  | tryBlock _ _ _ finallyBody => cases finallyBody <;> rfl
  | _ => rfl

/-- A `return` directly in a block has in front of it what stands there, and the value that is kept. -/
theorem forall₂_packedSite_ret {copies : Copies} {layout : Layout} {trailing : Option Comment}
    {value : Option Expr} {before : List Stmt} :
    List.Forall₂ (PackedSite copies)
      ((Stmt.sites before ⟨layout, trailing, .ret value⟩).map (.under (.stmt before.length)))
      (Stmt.sitesList (Stmt.packedAll copies 0 before)
        ((Stmt.packed (copies.under (.stmt before.length)) ⟨layout, trailing, .ret value⟩).behind
          ((copies [.stmt before.length]).bind fun _ =>
            Stmt.keptValue? ⟨layout, trailing, .ret value⟩))) := by
  have hkept : copies.kept? (.under (.stmt before.length)
      ⟨[], before, ⟨layout, trailing, .ret value⟩⟩) = (copies [.stmt before.length]).bind fun _ =>
        Stmt.keptValue? ⟨layout, trailing, .ret value⟩ := rfl
  rw [← hkept]
  cases hvalue : copies.kept? (.under (.stmt before.length)
      ⟨[], before, ⟨layout, trailing, .ret value⟩⟩) with
  | none =>
    refine .cons ⟨List.cons_ne_nil _ _, ?_, value, rfl, rfl⟩ .nil
    rw [hvalue]
    exact (List.append_nil _).symm
  | some kept =>
    refine .cons ⟨List.cons_ne_nil _ _, ?_, value, rfl, rfl⟩ .nil
    rw [hvalue]
    rfl

mutual
theorem Stmt.sites_packed : (stmt : Stmt) → (copies : Copies) → (before before' : List Stmt) →
    List.Forall₂ (PackedIn copies before before') (stmt.sites before)
      ((stmt.packed copies).sites before')
  | ⟨layout, trailing, kind⟩, copies, before, before' => by
    have hown := Stmt.isReturn_packed ⟨layout, trailing, kind⟩ copies
    rw [Stmt.packed] at hown ⊢
    rw [Stmt.sites, Stmt.sites, hown]
    refine List.rel_append ?_ ((kind.sites_packed copies).imp fun _ _ => .inr)
    split
    next hret =>
      obtain ⟨value, hvalue⟩ := isReturn_iff.1 hret
      cases hvalue
      exact .cons (.inl ⟨rfl, rfl, rfl, value, rfl, rfl⟩) .nil
    next => exact .nil

theorem StmtKind.sites_packed : (kind : StmtKind) → (copies : Copies) →
    List.Forall₂ (PackedSite copies) kind.sites (kind.packed copies).sites
  | .block body, copies => forall₂_under (body.sites_packed _) fun _ _ => .under
  | .ifElse _ yes none, copies =>
    forall₂_under (yes.sites_packed _ [] []) fun _ _ h => h.branch (by nofun)
  | .ifElse _ yes (some no), copies =>
    List.rel_append (forall₂_under (yes.sites_packed _ [] []) fun _ _ h => h.branch (by nofun))
      (forall₂_under (no.sites_packed _ [] []) fun _ _ h => h.branch (by nofun))
  | .whileLoop _ body, copies =>
    forall₂_under (body.sites_packed _ [] []) fun _ _ h => h.branch (by nofun)
  | .doWhile body _, copies =>
    forall₂_under (body.sites_packed _ [] []) fun _ _ h => h.branch (by nofun)
  | .forLoop _ _ _ body, copies =>
    forall₂_under (body.sites_packed _ [] []) fun _ _ h => h.branch (by nofun)
  | .forEach _ _ body, copies =>
    forall₂_under (body.sites_packed _ [] []) fun _ _ h => h.branch (by nofun)
  | .labeled _ body, copies =>
    forall₂_under (body.sites_packed _ [] []) fun _ _ h => h.branch (by nofun)
  | .tryBlock _ body catches none, copies =>
    List.rel_append (forall₂_under (body.sites_packed _) fun _ _ => .under)
      (CatchClause.sitesList_packed catches copies 0)
  | .tryBlock _ body catches (some finallyBody), copies =>
    List.rel_append (List.rel_append (forall₂_under (body.sites_packed _) fun _ _ => .under)
      (CatchClause.sitesList_packed catches copies 0))
      (forall₂_under (finallyBody.sites_packed _) fun _ _ => .under)
  | .sync _ body, copies => forall₂_under (body.sites_packed _) fun _ _ => .under
  | .switch _ cases, copies => SwitchCase.sitesList_packed cases copies 0
  | .localVar _, _ => .nil
  | .localClass _, _ => .nil
  | .expr _, _ => .nil
  | .ret _, _ => .nil
  | .throw _, _ => .nil
  | .breakTo _, _ => .nil
  | .continueTo _, _ => .nil
  | .assertion _ _, _ => .nil
  | .empty, _ => .nil

/-- The returns of a body with other values for them. -/
theorem Block.sites_packed : (body : Block) → (copies : Copies) →
    List.Forall₂ (PackedSite copies) body.sites (body.packed copies).sites
  | ⟨stmts, _, _⟩, copies => Stmt.sitesList_packed stmts copies []

theorem Stmt.sitesList_packed : (stmts : List Stmt) → (copies : Copies) → (before : List Stmt) →
    List.Forall₂ (PackedSite copies) (Stmt.sitesList before stmts)
      (Stmt.sitesList (Stmt.packedAll copies 0 before) (Stmt.packedAll copies before.length stmts))
  | [], _, _ => .nil
  | ⟨layout, trailing, kind⟩ :: rest, copies, before => by
    have hrest := Stmt.sitesList_packed rest copies (before ++ [⟨layout, trailing, kind⟩])
    rw [Stmt.packedAll_append, Nat.zero_add, List.length_append, List.length_singleton] at hrest
    rw [Stmt.packedAll, Stmt.sitesList, Stmt.sitesList_append]
    refine List.rel_append ?_ (by simpa [Stmt.packedAll] using hrest)
    cases hret : Stmt.isReturn ⟨layout, trailing, kind⟩ with
    | true =>
      obtain ⟨value, hvalue⟩ := isReturn_iff.1 hret
      cases hvalue
      exact forall₂_packedSite_ret
    | false =>
      have hkept : Stmt.keptValue? ⟨layout, trailing, kind⟩ = none := Stmt.keptValue?_eq_none hret
      have hret' := (Stmt.isReturn_packed ⟨layout, trailing, kind⟩
        (copies.under (.stmt before.length))).trans hret
      rw [Stmt.packed] at hret'
      simp only [hkept, Option.bind_fun_none, Stmt.packed, Stmt.behind, Stmt.sitesList, Stmt.sites,
        hret, hret', Bool.false_eq_true, if_false, List.nil_append, List.append_nil]
      exact forall₂_under (kind.sites_packed _) fun _ _ => .under

theorem CatchClause.sitesList_packed : (clauses : List CatchClause) → (copies : Copies) →
    (index : Nat) → List.Forall₂ (PackedSite copies) (CatchClause.sitesList index clauses)
      (CatchClause.sitesList index (CatchClause.packedAll copies index clauses))
  | [], _, _ => .nil
  | ⟨_, _, _, _, _, body⟩ :: rest, copies, index =>
    List.rel_append (forall₂_under (body.sites_packed _) fun _ _ => .under)
      (CatchClause.sitesList_packed rest copies (index + 1))

theorem SwitchCase.sitesList_packed : (cases : List SwitchCase) → (copies : Copies) →
    (index : Nat) → List.Forall₂ (PackedSite copies) (SwitchCase.sitesList index cases)
      (SwitchCase.sitesList index (SwitchCase.packedAll copies index cases))
  | [], _, _ => .nil
  | ⟨_, _, _, _, body⟩ :: rest, copies, index =>
    List.rel_append (forall₂_under (body.sites_packed _) fun _ _ => .under)
      (SwitchCase.sitesList_packed rest copies (index + 1))
end

end AdviceMigration.Source
