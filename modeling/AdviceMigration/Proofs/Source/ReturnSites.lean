import AdviceMigration.Proofs.Source.PathOrder
import Mathlib.Data.List.Forall2
import Mathlib.Data.List.Nodup

/-!
# The returns of a body

The `return` statements of a body's own scope in document order, each with its path and the statements in front of it in its block. An edit at a `return` changes its own entry in this list, leaves the entries before it alone, and of the entries after it only the paths and the statements in front. Edits that go through the returns from last to first therefore meet each of them as it was.
-/

namespace AdviceMigration.Source

/-- A `return` statement with its path and the statements in front of it in its block. One that is itself a branch or the body of a loop has none. -/
structure ReturnSite where
  path : StmtPath
  before : List Stmt
  ret : Stmt

/-- The site seen from one step further out. -/
def ReturnSite.under (step : Step) (site : ReturnSite) : ReturnSite :=
  { site with path := step :: site.path }

mutual
/-- The returns of a statement that stands after the given ones. -/
def Stmt.sites (before : List Stmt) : Stmt → List ReturnSite
  | ⟨layout, trailing, kind⟩ =>
    (if Stmt.isReturn ⟨layout, trailing, kind⟩ then [⟨[], before, ⟨layout, trailing, kind⟩⟩]
      else []) ++ kind.sites

/-- The returns inside a statement. -/
def StmtKind.sites : StmtKind → List ReturnSite
  | .block body => body.sites.map (.under .nested)
  | .ifElse _ yes none => (yes.sites []).map (.under .thenBranch)
  | .ifElse _ yes (some no) =>
    (yes.sites []).map (.under .thenBranch) ++ (no.sites []).map (.under .elseBranch)
  | .whileLoop _ body => (body.sites []).map (.under .body)
  | .doWhile body _ => (body.sites []).map (.under .body)
  | .forLoop _ _ _ body => (body.sites []).map (.under .body)
  | .forEach _ _ body => (body.sites []).map (.under .body)
  | .labeled _ body => (body.sites []).map (.under .body)
  | .tryBlock _ body catches none =>
    body.sites.map (.under .body) ++ CatchClause.sitesList 0 catches
  | .tryBlock _ body catches (some finallyBody) =>
    body.sites.map (.under .body) ++ CatchClause.sitesList 0 catches ++
      finallyBody.sites.map (.under .finallyBlock)
  | .sync _ body => body.sites.map (.under .body)
  | .switch _ cases => SwitchCase.sitesList 0 cases
  | .localVar _ => []
  | .localClass _ => []
  | .expr _ => []
  | .ret _ => []
  | .throw _ => []
  | .breakTo _ => []
  | .continueTo _ => []
  | .assertion _ _ => []
  | .empty => []

/-- The returns of a block. -/
def Block.sites : Block → List ReturnSite
  | ⟨stmts, _, _⟩ => Stmt.sitesList [] stmts

/-- The returns of statements that stand after the given ones in a block. -/
def Stmt.sitesList (before : List Stmt) : List Stmt → List ReturnSite
  | [] => []
  | stmt :: rest =>
    (stmt.sites before).map (.under (.stmt before.length)) ++
      Stmt.sitesList (before ++ [stmt]) rest

/-- The returns of `catch` clauses from the given index on. -/
def CatchClause.sitesList (index : Nat) : List CatchClause → List ReturnSite
  | [] => []
  | ⟨_, _, _, _, _, body⟩ :: rest =>
    body.sites.map (.under (.catchBlock index)) ++ CatchClause.sitesList (index + 1) rest

/-- The returns of cases from the given index on. -/
def SwitchCase.sitesList (index : Nat) : List SwitchCase → List ReturnSite
  | [] => []
  | ⟨_, _, _, _, body⟩ :: rest =>
    body.sites.map (.under (.caseBlock index)) ++ SwitchCase.sitesList (index + 1) rest
end

theorem isReturn_iff {stmt : Stmt} : stmt.isReturn ↔ ∃ value, stmt.kind = .ret value := by
  rw [Stmt.isReturn]
  split <;> simp_all

/-! ### The paths of the returns -/

/-- The returns that a walk meets, from the place where it starts. -/
def returnsFrom (path : StmtPath) (sites : List ReturnSite) : List (StmtPath × Stmt) :=
  sites.map fun site => (path ++ site.path, site.ret)

@[simp] theorem returnsFrom_append (path : StmtPath) (sites sites' : List ReturnSite) :
    returnsFrom path (sites ++ sites') = returnsFrom path sites ++ returnsFrom path sites' :=
  List.map_append

@[simp] theorem returnsFrom_under (path : StmtPath) (step : Step) (sites : List ReturnSite) :
    returnsFrom path (sites.map (.under step)) = returnsFrom (path ++ [step]) sites := by
  simp [returnsFrom, ReturnSite.under, Function.comp_def]

@[simp] theorem returnsFrom_nil (path : StmtPath) : returnsFrom path [] = [] := rfl

/-- Whether the returns among the entries of a walk are the given ones, seen from a path. -/
def Meets (path : StmtPath) (entries : List (StmtPath × Stmt)) (sites : List ReturnSite) : Prop :=
  entries.filter (·.2.isReturn) = returnsFrom path sites

namespace Meets

variable {path : StmtPath} {step : Step} {entries entries' : List (StmtPath × Stmt)}
  {sites sites' : List ReturnSite}

theorem nil : Meets path [] [] := rfl

theorem under (h : Meets (path ++ [step]) entries sites) :
    Meets path entries (sites.map (.under step)) :=
  h.trans (returnsFrom_under path step sites).symm

theorem append (h : Meets path entries sites) (h' : Meets path entries' sites') :
    Meets path (entries ++ entries') (sites ++ sites') := by
  rw [Meets, List.filter_append, h, h', returnsFrom_append]

theorem andNil (h : Meets path entries sites) : Meets path (entries ++ []) sites := by
  rwa [List.append_nil]

/-- A statement in front of the statements in it. -/
theorem cons (h : Meets path entries sites) (before : List Stmt) (stmt : Stmt) :
    Meets path ((path, stmt) :: entries)
      ((if stmt.isReturn then [⟨[], before, stmt⟩] else []) ++ sites) := by
  rw [Meets, List.filter_cons, h, returnsFrom_append]
  split <;> simp [returnsFrom]

end Meets

mutual
theorem Stmt.filter_walk : (stmt : Stmt) → (before : List Stmt) → (path : StmtPath) →
    Meets path (stmt.walk path) (stmt.sites before)
  | ⟨layout, trailing, kind⟩, before, path => (kind.filter_walk path).cons before ⟨layout, trailing, kind⟩

theorem StmtKind.filter_walk : (kind : StmtKind) → (path : StmtPath) →
    Meets path (kind.walk path) kind.sites
  | .block body, _ => (body.filter_walk _).under
  | .ifElse _ yes none, _ => (yes.filter_walk [] _).under
  | .ifElse _ yes (some no), _ => (yes.filter_walk [] _).under.append (no.filter_walk [] _).under
  | .whileLoop _ body, _ => (body.filter_walk [] _).under
  | .doWhile body _, _ => (body.filter_walk [] _).under
  | .forLoop _ _ _ body, _ => (body.filter_walk [] _).under
  | .forEach _ _ body, _ => (body.filter_walk [] _).under
  | .labeled _ body, _ => (body.filter_walk [] _).under
  | .tryBlock _ body catches none, path =>
    ((body.filter_walk _).under.append (CatchClause.filter_walkList catches path 0)).andNil
  | .tryBlock _ body catches (some finallyBody), path =>
    ((body.filter_walk _).under.append (CatchClause.filter_walkList catches path 0)).append
      (finallyBody.filter_walk _).under
  | .sync _ body, _ => (body.filter_walk _).under
  | .switch _ cases, path => SwitchCase.filter_walkList cases path 0
  | .localVar _, _ => .nil
  | .localClass _, _ => .nil
  | .expr _, _ => .nil
  | .ret _, _ => .nil
  | .throw _, _ => .nil
  | .breakTo _, _ => .nil
  | .continueTo _, _ => .nil
  | .assertion _ _, _ => .nil
  | .empty, _ => .nil

theorem Block.filter_walk : (body : Block) → (path : StmtPath) →
    Meets path (body.walk path) body.sites
  | ⟨stmts, _, _⟩, path => Stmt.filter_walkList stmts [] path

theorem Stmt.filter_walkList : (stmts : List Stmt) → (before : List Stmt) → (path : StmtPath) →
    Meets path (Stmt.walkList stmts path before.length) (Stmt.sitesList before stmts)
  | [], _, _ => .nil
  | stmt :: rest, before, path => by
    have hrest := Stmt.filter_walkList rest (before ++ [stmt]) path
    rw [List.length_append, List.length_singleton] at hrest
    exact (stmt.filter_walk before _).under.append hrest

theorem CatchClause.filter_walkList : (clauses : List CatchClause) → (path : StmtPath) →
    (index : Nat) →
    Meets path (CatchClause.walkList clauses path index) (CatchClause.sitesList index clauses)
  | [], _, _ => .nil
  | ⟨_, _, _, _, _, body⟩ :: rest, path, index =>
    (body.filter_walk _).under.append (CatchClause.filter_walkList rest path (index + 1))

theorem SwitchCase.filter_walkList : (cases : List SwitchCase) → (path : StmtPath) →
    (index : Nat) →
    Meets path (SwitchCase.walkList cases path index) (SwitchCase.sitesList index cases)
  | [], _, _ => .nil
  | ⟨_, _, _, _, body⟩ :: rest, path, index =>
    (body.filter_walk _).under.append (SwitchCase.filter_walkList rest path (index + 1))
end

theorem Block.filter_scoped (body : Block) :
    body.scoped.filter (·.2.isReturn) = returnsFrom [] body.sites := body.filter_walk []

theorem Block.returnPaths_eq (body : Block) : body.returnPaths = body.sites.map (·.path) := by
  rw [Block.returnPaths, body.filter_scoped]
  simp [returnsFrom]

/-- No path leads to two returns, since later ones have greater paths. -/
theorem Block.sites_nodup (body : Block) : (body.sites.map (·.path)).Nodup := by
  rw [← body.returnPaths_eq]
  apply body.returnPaths_ascending.imp
  rintro path _ hbefore rfl
  exact StmtPath.not_precedes_self path hbefore

/-! ### What stands in front -/

/-- Whether a `return` has statements in front of it only if it stands directly in a block. -/
def ReturnSite.Placed (site : ReturnSite) : Prop :=
  site.path.blockIndex? = none → site.before = []

/-- Whether all of some returns are placed so. -/
abbrev AllPlaced (sites : List ReturnSite) : Prop := ∀ site ∈ sites, site.Placed

theorem ReturnSite.Placed.under {site : ReturnSite} (h : site.Placed) (step : Step) :
    (site.under step).Placed := by
  obtain ⟨path, before, ret⟩ := site
  intro hindex
  cases path with
  | nil => exact h rfl
  | cons first rest =>
    refine h ?_
    simp only [ReturnSite.under, StmtPath.blockIndex?, List.getLast?_cons_cons] at hindex ⊢
    split at hindex
    · cases hindex
    · rfl

theorem AllPlaced.under {sites : List ReturnSite} (h : AllPlaced sites) (step : Step) :
    AllPlaced (sites.map (.under step)) :=
  List.forall_mem_map.2 fun site hsite => (h site hsite).under step

theorem AllPlaced.append {sites sites' : List ReturnSite} (h : AllPlaced sites)
    (h' : AllPlaced sites') : AllPlaced (sites ++ sites') :=
  List.forall_mem_append.2 ⟨h, h'⟩

/-- Whether returns are placed so, or have what is given in front of them and no path. -/
abbrev AllPlacedBehind (before : List Stmt) (sites : List ReturnSite) : Prop :=
  ∀ site ∈ sites, (site.path = [] ∧ site.before = before) ∨ site.Placed

theorem AllPlacedBehind.branch {sites : List ReturnSite} (h : AllPlacedBehind [] sites) :
    AllPlaced sites := by
  intro site hsite hindex
  rcases h site hsite with hbare | hplaced
  · exact hbare.2
  · exact hplaced hindex

mutual
/-- A statement has nothing in front of it but what is given, and that only if it is a `return` itself. -/
theorem Stmt.sites_placed : (stmt : Stmt) → (before : List Stmt) →
    AllPlacedBehind before (stmt.sites before)
  | ⟨layout, trailing, kind⟩, before => by
    refine List.forall_mem_append.2 ⟨?_, fun site hsite => .inr (kind.sites_placed site hsite)⟩
    split
    · exact List.forall_mem_singleton.2 (.inl ⟨rfl, rfl⟩)
    · exact List.forall_mem_nil _

theorem StmtKind.sites_placed : (kind : StmtKind) → AllPlaced kind.sites
  | .block body => body.sites_placed.under _
  | .ifElse _ yes none => (yes.sites_placed []).branch.under _
  | .ifElse _ yes (some no) =>
    ((yes.sites_placed []).branch.under _).append ((no.sites_placed []).branch.under _)
  | .whileLoop _ body => (body.sites_placed []).branch.under _
  | .doWhile body _ => (body.sites_placed []).branch.under _
  | .forLoop _ _ _ body => (body.sites_placed []).branch.under _
  | .forEach _ _ body => (body.sites_placed []).branch.under _
  | .labeled _ body => (body.sites_placed []).branch.under _
  | .tryBlock _ body catches none =>
    (body.sites_placed.under _).append (CatchClause.sitesList_placed catches 0)
  | .tryBlock _ body catches (some finallyBody) =>
    ((body.sites_placed.under _).append (CatchClause.sitesList_placed catches 0)).append
      (finallyBody.sites_placed.under _)
  | .sync _ body => body.sites_placed.under _
  | .switch _ cases => SwitchCase.sitesList_placed cases 0
  | .localVar _ => List.forall_mem_nil _
  | .localClass _ => List.forall_mem_nil _
  | .expr _ => List.forall_mem_nil _
  | .ret _ => List.forall_mem_nil _
  | .throw _ => List.forall_mem_nil _
  | .breakTo _ => List.forall_mem_nil _
  | .continueTo _ => List.forall_mem_nil _
  | .assertion _ _ => List.forall_mem_nil _
  | .empty => List.forall_mem_nil _

/-- A `return` that does not stand directly in a block has nothing in front of it. -/
theorem Block.sites_placed : (body : Block) → AllPlaced body.sites
  | ⟨stmts, _, _⟩ => Stmt.sitesList_placed stmts []

theorem Stmt.sitesList_placed : (stmts : List Stmt) → (before : List Stmt) →
    AllPlaced (Stmt.sitesList before stmts)
  | [], _ => List.forall_mem_nil _
  | stmt :: rest, before => by
    refine .append (List.forall_mem_map.2 fun site hsite => ?_) (Stmt.sitesList_placed rest _)
    rcases stmt.sites_placed before site hsite with ⟨hpath, -⟩ | hplaced
    · intro hindex
      simp [ReturnSite.under, hpath, StmtPath.blockIndex?] at hindex
    · exact hplaced.under _

theorem CatchClause.sitesList_placed : (clauses : List CatchClause) → (index : Nat) →
    AllPlaced (CatchClause.sitesList index clauses)
  | [], _ => List.forall_mem_nil _
  | ⟨_, _, _, _, _, body⟩ :: rest, index =>
    (body.sites_placed.under _).append (CatchClause.sitesList_placed rest (index + 1))

theorem SwitchCase.sitesList_placed : (cases : List SwitchCase) → (index : Nat) →
    AllPlaced (SwitchCase.sitesList index cases)
  | [], _ => List.forall_mem_nil _
  | ⟨_, _, _, _, body⟩ :: rest, index =>
    (body.sites_placed.under _).append (SwitchCase.sitesList_placed rest (index + 1))
end

/-! ### Edits at a return -/

/-- The returns of what a path leads to; a statement stands after the given ones. -/
def Focus.sites (before : List Stmt) : Focus → List ReturnSite
  | .block inner => inner.sites
  | .stmt inner => inner.sites before

attribute [simp] Focus.sites Stmt.sites StmtKind.sites Stmt.isReturn

/-- What an edit may do: `site` to the `return` it is at, `before` to the statements in front of later ones. -/
structure EditSpec where
  site : ReturnSite → ReturnSite → Prop
  before : List Stmt → List Stmt → Prop

/-- A later `return` before and after an edit. -/
def EditSpec.Later (spec : EditSpec) (site site' : ReturnSite) : Prop :=
  site'.ret = site.ret ∧ spec.before site.before site'.before

/-- What an edit may do does not depend on where it happens: neither on the path of the `return`, nor on statements with returns in them that change. -/
structure EditSpec.Local (spec : EditSpec) : Prop where
  under : ∀ {site site'} step, spec.site site site' →
    spec.site (site.under step) (site'.under step)
  refl : ∀ stmts, spec.before stmts stmts
  swap : ∀ {old new : Stmt} (front back : List Stmt), old.sites [] ≠ [] → new.sites [] ≠ [] →
    spec.before (front ++ old :: back) (front ++ new :: back)

/-- Whether lists of returns are those before and after an edit at a path. -/
def EditSpec.Lists (spec : EditSpec) (path : StmtPath) (sites sites' : List ReturnSite) : Prop :=
  ∃ pre site site' post post', sites = pre ++ site :: post ∧ sites' = pre ++ site' :: post' ∧
    site.path = path ∧ spec.site site site' ∧ List.Forall₂ spec.Later post post'

/-- Whether two foci are those before and after an edit at the `return` with the given path. -/
def EditSpec.Edits (spec : EditSpec) (path : StmtPath) (focus focus' : Focus) : Prop :=
  focus.Fits focus' ∧ ∀ before, spec.Lists path (focus.sites before) (focus'.sites before)

theorem Stmt.sites_ne_nil {stmt : Stmt} {before : List Stmt} (h : stmt.sites before ≠ []) :
    stmt.sites [] ≠ [] := by
  obtain ⟨layout, trailing, kind⟩ := stmt
  rw [Stmt.sites] at h ⊢
  split <;> simp_all

theorem Stmt.sites_of_isReturn {stmt : Stmt} (h : stmt.isReturn) (before : List Stmt) :
    stmt.sites before = [⟨[], before, stmt⟩] := by
  obtain ⟨layout, trailing, kind⟩ := stmt
  cases kind with
  | ret value => simp
  | _ => cases h

theorem Stmt.sitesList_append (before stmts stmts' : List Stmt) :
    Stmt.sitesList before (stmts ++ stmts') =
      Stmt.sitesList before stmts ++ Stmt.sitesList (before ++ stmts) stmts' := by
  induction stmts generalizing before with
  | nil => simp [Stmt.sitesList]
  | cons stmt rest ih => simp [Stmt.sitesList, ih]

theorem CatchClause.sitesList_append (index : Nat) (clauses clauses' : List CatchClause) :
    CatchClause.sitesList index (clauses ++ clauses') = CatchClause.sitesList index clauses ++
      CatchClause.sitesList (index + clauses.length) clauses' := by
  induction clauses generalizing index with
  | nil => rfl
  | cons clause rest ih =>
    obtain ⟨_, _, _, _, _, body⟩ := clause
    simp only [List.cons_append, CatchClause.sitesList, ih, List.append_assoc, List.length_cons,
      Nat.add_assoc, Nat.add_comm 1]

theorem SwitchCase.sitesList_append (index : Nat) (cases cases' : List SwitchCase) :
    SwitchCase.sitesList index (cases ++ cases') = SwitchCase.sitesList index cases ++
      SwitchCase.sitesList (index + cases.length) cases' := by
  induction cases generalizing index with
  | nil => rfl
  | cons case rest ih =>
    obtain ⟨_, _, _, _, body⟩ := case
    simp only [List.cons_append, SwitchCase.sitesList, ih, List.append_assoc, List.length_cons,
      Nat.add_assoc, Nat.add_comm 1]

namespace EditSpec

variable {spec : EditSpec}

theorem Later.refl (hspec : spec.Local) (site : ReturnSite) : spec.Later site site :=
  ⟨rfl, hspec.refl site.before⟩

theorem forall₂_later_refl (hspec : spec.Local) (sites : List ReturnSite) :
    List.Forall₂ spec.Later sites sites :=
  List.forall₂_same.2 fun site _ => .refl hspec site

theorem forall₂_later_under (step step' : Step) {sites sites' : List ReturnSite}
    (h : List.Forall₂ spec.Later sites sites') :
    List.Forall₂ spec.Later (sites.map (.under step)) (sites'.map (.under step')) := by
  rw [List.forall₂_map_left_iff, List.forall₂_map_right_iff]
  exact h

/-- The returns after an edit in the same block. -/
theorem forall₂_later_sitesList (hspec : spec.Local) {before before' : List Stmt}
    (h : ∀ rest, spec.before (before ++ rest) (before' ++ rest)) (stmts : List Stmt) :
    List.Forall₂ spec.Later (Stmt.sitesList before stmts) (Stmt.sitesList before' stmts) := by
  induction stmts generalizing before before' with
  | nil => exact .nil
  | cons stmt rest ih =>
    rw [Stmt.sitesList, Stmt.sitesList]
    have hrest : List.Forall₂ spec.Later (Stmt.sitesList (before ++ [stmt]) rest)
        (Stmt.sitesList (before' ++ [stmt]) rest) := by
      refine ih fun others => ?_
      rw [List.append_assoc, List.append_assoc]
      exact h _
    refine List.rel_append (forall₂_later_under _ _ ?_) hrest
    obtain ⟨layout, trailing, kind⟩ := stmt
    rw [Stmt.sites, Stmt.sites]
    refine List.rel_append ?_ (forall₂_later_refl hspec _)
    have hbefore := h []
    rw [List.append_nil, List.append_nil] at hbefore
    split
    · exact .cons ⟨rfl, hbefore⟩ .nil
    · exact .nil

/-- An edit of a part, seen from one step further out: what stands around the part is the same. -/
theorem Lists.under (hspec : spec.Local) {path : StmtPath} {step : Step}
    {sites sites' front back back' : List ReturnSite} (h : spec.Lists path sites sites')
    (hback : List.Forall₂ spec.Later back back') :
    spec.Lists (step :: path) (front ++ sites.map (.under step) ++ back)
      (front ++ sites'.map (.under step) ++ back') := by
  obtain ⟨pre, site, site', post, post', rfl, rfl, rfl, hsite, hpost⟩ := h
  refine ⟨front ++ pre.map (.under step), site.under step, site'.under step,
    post.map (.under step) ++ back, post'.map (.under step) ++ back', by simp, by simp, rfl,
    hspec.under step hsite, List.rel_append (forall₂_later_under step step hpost) hback⟩

theorem Lists.ne_nil {path : StmtPath} {sites sites' : List ReturnSite}
    (h : spec.Lists path sites sites') : sites ≠ [] ∧ sites' ≠ [] := by
  obtain ⟨pre, site, site', post, post', rfl, rfl, -⟩ := h
  simp

/-- An edit of a part, where what surrounds it has the same other returns before and after. -/
theorem Edits.embed (hspec : spec.Local) {step : Step} {path : StmtPath}
    {part new focus focus' : Focus} (hpart : spec.Edits path part new) (hfits : focus.Fits focus')
    (front back : List ReturnSite)
    (hfocus : ∀ outer, focus.sites outer = front ++ (part.sites []).map (.under step) ++ back)
    (hfocus' : ∀ outer, focus'.sites outer = front ++ (new.sites []).map (.under step) ++ back) :
    spec.Edits (step :: path) focus focus' := by
  refine ⟨hfits, fun outer => ?_⟩
  rw [hfocus, hfocus']
  exact (hpart.2 []).under hspec (forall₂_later_refl hspec back)

/-- An edit of a part is an edit of what surrounds it. -/
theorem Edits.swap (hspec : spec.Local) {step : Step} {path : StmtPath}
    {part new focus focus' : Focus} (h : Focus.Swap step part new focus focus')
    (hpart : spec.Edits path part new) : spec.Edits (step :: path) focus focus' := by
  have hfits := h.fits
  cases h with
  | @stmt before after endComments closing old new =>
    refine ⟨hfits, fun outer => ?_⟩
    have hlists : spec.Lists path (old.sites before) (new.sites before) := hpart.2 before
    have hfront : ∀ rest, spec.before (before ++ [old] ++ rest) (before ++ [new] ++ rest) := by
      intro rest
      rw [List.append_assoc, List.append_assoc]
      exact hspec.swap before rest (Stmt.sites_ne_nil hlists.ne_nil.1)
        (Stmt.sites_ne_nil hlists.ne_nil.2)
    have hunder := @Lists.under spec hspec path (.stmt before.length) _ _
      (Stmt.sitesList [] before) _ _ hlists (forall₂_later_sitesList hspec hfront after)
    simpa [Focus.sites, Block.sites, Stmt.sitesList_append, Stmt.sitesList] using hunder
  | nested => exact hpart.embed hspec hfits [] [] (by simp) (by simp)
  | @thenBranch _ _ _ no _ _ =>
    cases no with
    | none => exact hpart.embed hspec hfits [] [] (by simp) (by simp)
    | some no =>
      exact hpart.embed hspec hfits [] ((no.sites []).map (.under .elseBranch)) (by simp) (by simp)
  | @elseBranch _ _ _ yes _ _ =>
    exact hpart.embed hspec hfits ((yes.sites []).map (.under .thenBranch)) [] (by simp) (by simp)
  | whileLoop => exact hpart.embed hspec hfits [] [] (by simp) (by simp)
  | doWhile => exact hpart.embed hspec hfits [] [] (by simp) (by simp)
  | forLoop => exact hpart.embed hspec hfits [] [] (by simp) (by simp)
  | forEach => exact hpart.embed hspec hfits [] [] (by simp) (by simp)
  | labeled => exact hpart.embed hspec hfits [] [] (by simp) (by simp)
  | @tryBody _ _ _ catches finallyBody _ _ =>
    cases finallyBody with
    | none => exact hpart.embed hspec hfits [] (CatchClause.sitesList 0 catches) (by simp) (by simp)
    | some finallyBody =>
      exact hpart.embed hspec hfits [] (CatchClause.sitesList 0 catches ++
        finallyBody.sites.map (.under .finallyBlock)) (by simp) (by simp)
  | sync => exact hpart.embed hspec hfits [] [] (by simp) (by simp)
  | @catchBlock _ _ _ body before after clause finallyBody _ =>
    obtain ⟨id, annotations, modifiers, types, name, old⟩ := clause
    cases finallyBody with
    | none =>
      exact hpart.embed hspec hfits
        (body.sites.map (.under .body) ++ CatchClause.sitesList 0 before)
        (CatchClause.sitesList (before.length + 1) after)
        (by simp [CatchClause.sitesList_append, CatchClause.sitesList])
        (by simp [CatchClause.sitesList_append, CatchClause.sitesList])
    | some finallyBody =>
      exact hpart.embed hspec hfits
        (body.sites.map (.under .body) ++ CatchClause.sitesList 0 before)
        (CatchClause.sitesList (before.length + 1) after ++
          finallyBody.sites.map (.under .finallyBlock))
        (by simp [CatchClause.sitesList_append, CatchClause.sitesList])
        (by simp [CatchClause.sitesList_append, CatchClause.sitesList])
  | @finallyBlock _ _ _ body catches _ _ =>
    exact hpart.embed hspec hfits
      (body.sites.map (.under .body) ++ CatchClause.sitesList 0 catches) [] (by simp) (by simp)
  | @caseBlock _ _ _ before after case _ =>
    obtain ⟨comments, labels, isDefault, form, old⟩ := case
    exact hpart.embed hspec hfits (SwitchCase.sitesList 0 before)
      (SwitchCase.sitesList (before.length + 1) after)
      (by simp [SwitchCase.sitesList_append, SwitchCase.sitesList])
      (by simp [SwitchCase.sitesList_append, SwitchCase.sitesList])

/-- Whether a statement has no `return` in it. -/
def HasNoReturn (stmt : Stmt) : Prop := stmt.sites [] = []

theorem HasNoReturn.of_kind {stmt stmt' : Stmt} (h : HasNoReturn stmt)
    (hkind : stmt'.kind = stmt.kind) : HasNoReturn stmt' := by
  obtain ⟨layout, trailing, kind⟩ := stmt
  obtain ⟨layout', trailing', kind'⟩ := stmt'
  obtain rfl : kind' = kind := hkind
  rw [HasNoReturn, Stmt.sites, List.append_eq_nil_iff] at h ⊢
  refine ⟨if_neg fun hret => ?_, h.2⟩
  have hret' : Stmt.isReturn ⟨layout, trailing, kind'⟩ = true := hret
  rw [if_pos hret'] at h
  exact List.cons_ne_nil _ _ h.1

theorem sitesList_of_hasNoReturn {stmts : List Stmt} (h : ∀ stmt ∈ stmts, HasNoReturn stmt)
    (before : List Stmt) : Stmt.sitesList before stmts = [] := by
  induction stmts generalizing before with
  | nil => rfl
  | cons stmt rest ih =>
    obtain ⟨hstmt, hrest⟩ := List.forall_mem_cons.1 h
    have hsites : stmt.sites before = [] := by
      by_contra hne
      exact Stmt.sites_ne_nil hne hstmt
    rw [Stmt.sitesList, hsites, ih hrest]
    rfl

/-- Changing the statements right in front of a `return`, and the `return` with them. -/
theorem edits_updateBlock (hspec : spec.Local) {body body' : Block} {path : StmtPath}
    {change : Block → Option Block} {kept dropped added after : List Stmt} {ret ret' : Stmt}
    {endComments endComments' : List Comment} {closing closing' : Option Trivia}
    (hblock : body.blockAt? path = some ⟨kept ++ dropped ++ ret :: after, endComments, closing⟩)
    (hchange : change ⟨kept ++ dropped ++ ret :: after, endComments, closing⟩ =
      some ⟨kept ++ added ++ ret' :: after, endComments', closing'⟩)
    (hdropped : ∀ stmt ∈ dropped, HasNoReturn stmt) (hadded : ∀ stmt ∈ added, HasNoReturn stmt)
    (hret : ret.isReturn) (hret' : ret'.isReturn)
    (hbefore : ∀ rest, spec.before (kept ++ dropped ++ [ret] ++ rest)
      (kept ++ added ++ [ret'] ++ rest))
    (hsite : spec.site ⟨[.stmt (kept ++ dropped).length], kept ++ dropped, ret⟩
      ⟨[.stmt (kept ++ added).length], kept ++ added, ret'⟩)
    (h : body.updateBlock? path change = some body') :
    spec.Edits (path ++ [Step.stmt (kept ++ dropped).length]) (.block body) (.block body') := by
  refine @Focus.update?_rel_path spec.Edits _ (fun _ _ _ hpart => hpart.1)
    (fun hswap hpart => hpart.swap hspec hswap) _ _ _ _ (Block.updateBlock?_eq_some_iff.1 h) ?_
  intro part new hat hnew
  rw [Block.blockAt?_eq_some_iff.1 hblock] at hat
  cases hat
  rw [Focus.onBlock, hchange] at hnew
  cases hnew
  have hsites : ∀ (quiet : List Stmt) (stmt : Stmt), (∀ stmt ∈ quiet, HasNoReturn stmt) →
      stmt.isReturn → Stmt.sitesList [] (kept ++ quiet ++ stmt :: after) =
        Stmt.sitesList [] kept ++ ⟨[.stmt (kept ++ quiet).length], kept ++ quiet, stmt⟩ ::
          Stmt.sitesList (kept ++ quiet ++ [stmt]) after := by
    intro quiet stmt hquiet hstmt
    rw [Stmt.sitesList_append, Stmt.sitesList_append, List.nil_append,
      sitesList_of_hasNoReturn hquiet, List.append_nil, Stmt.sitesList,
      Stmt.sites_of_isReturn hstmt]
    rfl
  refine ⟨trivial, fun before => ⟨_, _, _, _, _, hsites dropped ret hdropped hret,
    hsites added ret' hadded hret', rfl, hsite, ?_⟩⟩
  exact forall₂_later_sitesList hspec hbefore after

end EditSpec

/-! ### From the last return to the first -/

/-- A list whose items have distinct keys splits at a key in one way only. -/
theorem split_unique {α β : Type} {key : α → β} {items pre pre' post post' : List α} {item item' : α}
    (hnodup : (items.map key).Nodup) (h : items = pre ++ item :: post)
    (h' : items = pre' ++ item' :: post') (hkey : key item = key item') :
    pre = pre' ∧ item = item' ∧ post = post' := by
  subst h
  induction pre generalizing pre' with
  | nil =>
    cases pre' with
    | nil =>
      cases h'
      exact ⟨rfl, rfl, rfl⟩
    | cons first pre' =>
      cases h'
      simp [hkey] at hnodup
  | cons first pre ih =>
    cases pre' with
    | nil =>
      cases h'
      simp [← hkey] at hnodup
    | cons first' pre' =>
      obtain ⟨rfl, hrest⟩ := List.cons.inj h'
      rw [List.cons_append, List.map_cons, List.nodup_cons] at hnodup
      obtain ⟨rfl, hitem, hpost⟩ := ih hnodup.2 hrest
      exact ⟨rfl, hitem, hpost⟩

/-- An edit at the last of the returns that are still waiting: the others are as they were. -/
theorem EditSpec.Edits.last {spec : EditSpec} {body body' : Block} {waiting done : List ReturnSite}
    {site : ReturnSite} (hsites : body.sites = waiting ++ site :: done)
    (h : spec.Edits site.path (.block body) (.block body')) :
    ∃ site' done', body'.sites = waiting ++ site' :: done' ∧ spec.site site site' ∧
      List.Forall₂ spec.Later done done' := by
  obtain ⟨pre, edited, site', post, post', hpre, hpost, hpath, hsite, hlater⟩ := h.2 []
  obtain ⟨rfl, rfl, rfl⟩ := split_unique body.sites_nodup hpre hsites hpath
  exact ⟨site', post', hpost, hsite, hlater⟩

end AdviceMigration.Source
