import AdviceMigration.Scope.Types
import Mathlib.Data.List.Forall2

/-!
# Type names under change

A written name ends the qualified name it stands for. A scope that gains imports and a member type keeps what other names stand for, as long as the new imports only name types that were known before.
-/

namespace AdviceMigration.Scope

open AdviceMigration.Source

/-! ### Segments -/

/-- Whether a qualified name ends with a written one, in whole segments. -/
def EndsWith (qualified written : String) : Prop :=
  qualified = written ∨ ∃ outer : String, qualified = outer ++ "." ++ written

theorem EndsWith.append {qualified written : String} (h : EndsWith qualified written)
    (rest : String) : EndsWith (qualified ++ rest) (written ++ rest) := by
  rcases h with rfl | ⟨outer, rfl⟩
  · exact .inl rfl
  · exact .inr ⟨outer, by simp only [String.append_assoc]⟩

theorem EndsWith.suffix {qualified written : String} (h : EndsWith qualified written) :
    written.toList <:+ qualified.toList := by
  rcases h with rfl | ⟨outer, rfl⟩
  · exact List.suffix_refl _
  · rw [String.toList_append]
    exact List.suffix_append _ _

theorem takeWhile_append_stop {α : Type} {p : α → Bool} {stop : α} (hstop : p stop = false)
    (items rest : List α) :
    (items ++ stop :: rest).takeWhile p = items.takeWhile p := by
  induction items with
  | nil => simp [hstop]
  | cons item items ih =>
    cases h : p item <;> simp [h, ih]

theorem dropWhile_append_stop {α : Type} {p : α → Bool} {stop : α} (hstop : p stop = false)
    (items rest : List α) :
    (items ++ stop :: rest).dropWhile p = items.dropWhile p ++ stop :: rest := by
  induction items with
  | nil => simp [hstop]
  | cons item items ih =>
    cases h : p item <;> simp [h, ih]

theorem lastSegment_outer (outer written : String) :
    lastSegment (outer ++ "." ++ written) = lastSegment written := by
  have hlist : (outer ++ "." ++ written).toList.reverse =
      written.toList.reverse ++ '.' :: outer.toList.reverse := by
    simp [String.toList_append]
  rw [lastSegment, lastSegment, hlist, takeWhile_append_stop (by rfl)]

/-- A name and what it stands for have the same last segment. -/
theorem EndsWith.lastSegment_eq {qualified written : String} (h : EndsWith qualified written) :
    lastSegment qualified = lastSegment written := by
  rcases h with rfl | ⟨outer, rfl⟩
  · rfl
  · exact lastSegment_outer outer written

theorem endsWith_lastSegment (path : String) : EndsWith path (lastSegment path) := by
  have hsplit := List.takeWhile_append_dropWhile (p := (· != '.')) (l := path.toList.reverse)
  cases hrest : path.toList.reverse.dropWhile (· != '.') with
  | nil =>
    left
    rw [hrest, List.append_nil] at hsplit
    rw [lastSegment, hsplit, List.reverse_reverse, String.ofList_toList]
  | cons stop rest =>
    right
    have hstop : stop = '.' := by
      have h := List.head?_dropWhile_not (· != '.') path.toList.reverse
      rw [hrest] at h
      simpa using h
    refine ⟨String.ofList rest.reverse, ?_⟩
    rw [hrest, hstop] at hsplit
    have hpath := congrArg List.reverse hsplit
    simp only [List.reverse_append, List.reverse_cons, List.reverse_reverse] at hpath
    rw [← String.toList_inj, ← hpath]
    simp [String.toList_append, lastSegment]

/-! ### What names stand for -/

namespace TypeScope

/-- Whether the names of the enclosing types end their qualified names, and imports are named after what they import. -/
structure WellFormed (scope : TypeScope) : Prop where
  enclosing : ∀ outer ∈ scope.enclosing, EndsWith outer.qualified outer.name
  single : ∀ found ∈ scope.imports.single, found.imported = lastSegment found.path
  staticSingle : ∀ found ∈ scope.imports.staticSingle, found.imported = lastSegment found.path

theorem endsWith_inPackage (scope : TypeScope) (name : String) :
    EndsWith (scope.inPackage name) name := by
  rw [inPackage]
  split
  · exact .inr ⟨_, rfl⟩
  · exact .inl rfl

theorem endsWith_qualify (scope : TypeScope) (name : String) :
    EndsWith (scope.qualify name) name := by
  rw [qualify]
  split
  · exact .inr ⟨_, rfl⟩
  · exact scope.endsWith_inPackage name

theorem wellFormed_ofUnit (unit : CompilationUnit) (index : TypeIndex) :
    (ofUnit unit index).WellFormed where
  enclosing := by
    intro outer houter
    cases houter
  single := by
    intro found hfound
    obtain ⟨path, -, rfl⟩ := List.mem_map.1 hfound
    rfl
  staticSingle := by
    intro found hfound
    obtain ⟨path, -, rfl⟩ := List.mem_map.1 hfound
    rfl

theorem WellFormed.nested {scope : TypeScope} (h : scope.WellFormed) (decl : TypeDecl) :
    (scope.nested decl).WellFormed where
  enclosing := by
    intro outer houter
    rcases List.mem_cons.1 houter with rfl | houter
    · exact scope.endsWith_qualify decl.name
    · exact h.enclosing outer houter
  single := h.single
  staticSingle := h.staticSingle

theorem endsWith_resolveEnclosing? {types : List EnclosingType} {name qualified : String}
    (hwf : ∀ outer ∈ types, EndsWith outer.qualified outer.name)
    (h : resolveEnclosing? name types = some qualified) : EndsWith qualified name := by
  induction types with
  | nil => cases h
  | cons outer rest ih =>
    rw [resolveEnclosing?] at h
    split at h
    · cases h
      exact .inr ⟨_, rfl⟩
    · split at h
      next hname =>
        cases h
        rw [← beq_iff_eq.1 hname]
        exact hwf outer List.mem_cons_self
      next => exact ih (fun outer houter => hwf outer (List.mem_cons_of_mem _ houter)) h

theorem endsWith_resolveOnDemand? {index : TypeIndex} {name qualified : String}
    {sources : List String} (h : resolveOnDemand? index name sources = some qualified) :
    EndsWith qualified name := by
  obtain ⟨source, -, rfl⟩ := List.mem_map.1 (List.mem_of_find?_eq_some h)
  exact .inr ⟨source, rfl⟩

theorem endsWith_resolveSimple? {scope : TypeScope} (hwf : scope.WellFormed)
    {name qualified : String} (h : scope.resolveSimple? name = some qualified) :
    EndsWith qualified name := by
  rw [resolveSimple?] at h
  split at h
  next hfound =>
    cases h
    exact endsWith_resolveEnclosing? hwf.enclosing hfound
  split at h
  · cases h
    exact scope.endsWith_inPackage name
  split at h
  next found hfound =>
    cases h
    have hname : found.imported = name := by simpa using List.find?_some hfound
    rw [← hname, hwf.single found (List.mem_of_find?_eq_some hfound)]
    exact endsWith_lastSegment found.path
  split at h
  next found hfound =>
    cases h
    have hname : found.imported = name ∧ scope.index found.path = true := by
      simpa using List.find?_some hfound
    rw [← hname.1, hwf.staticSingle found (List.mem_of_find?_eq_some hfound)]
    exact endsWith_lastSegment found.path
  next => exact endsWith_resolveOnDemand? h

/-- A name that is imported stands for something. -/
theorem resolveSimple?_ne_none_of_mem {scope : TypeScope} {found : SingleImport} {name : String}
    (hmem : found ∈ scope.imports.single) (hname : found.imported = name) :
    scope.resolveSimple? name ≠ none := by
  intro hnone
  rw [resolveSimple?] at hnone
  split at hnone
  · cases hnone
  split at hnone
  · cases hnone
  split at hnone
  next => cases hnone
  next hsingle => exact List.find?_eq_none.1 hsingle found hmem (beq_iff_eq.2 hname)

/-- The first segment of a written name. -/
def headSegment (written : String) : String :=
  String.ofList (written.toList.takeWhile (· != '.'))

/-- What follows the first segment of a written name. -/
def restSegments (written : String) : String :=
  String.ofList (written.toList.dropWhile (· != '.'))

theorem headSegment_append_restSegments (written : String) :
    headSegment written ++ restSegments written = written := by
  rw [← String.toList_inj, String.toList_append, headSegment, restSegments, String.toList_ofList,
    String.toList_ofList, List.takeWhile_append_dropWhile]

theorem resolve?_eq (scope : TypeScope) (written : String) :
    scope.resolve? written =
      match scope.resolveSimple? (headSegment written) with
      | some qualified => some (qualified ++ restSegments written)
      | none => if looksLikePackage (headSegment written) then some written else none := rfl

/-- A written name ends what it stands for. -/
theorem endsWith_resolve? {scope : TypeScope} (hwf : scope.WellFormed) {written qualified : String}
    (h : scope.resolve? written = some qualified) : EndsWith qualified written := by
  rw [resolve?_eq] at h
  split at h
  next found hfound =>
    cases h
    have happend := (endsWith_resolveSimple? hwf hfound).append (restSegments written)
    rwa [headSegment_append_restSegments] at happend
  next =>
    split at h
    · cases h
      exact .inl rfl
    · cases h

/-- What stands in the same type or package is resolved alike. -/
theorem resolve?_beside {scope : TypeScope} {outer name other qualified : String}
    (h : scope.resolve? (outer ++ "." ++ name) = some (qualified ++ "." ++ name)) :
    scope.resolve? (outer ++ "." ++ other) = some (qualified ++ "." ++ other) := by
  have hhead : ∀ last, headSegment (outer ++ "." ++ last) = headSegment outer := by
    intro last
    have hlist : (outer ++ "." ++ last).toList = outer.toList ++ '.' :: last.toList := by simp
    rw [headSegment, headSegment, hlist, takeWhile_append_stop (by rfl)]
  have hrest : ∀ last, restSegments (outer ++ "." ++ last) =
      restSegments outer ++ "." ++ last := by
    intro last
    have hlist : (outer ++ "." ++ last).toList = outer.toList ++ '.' :: last.toList := by simp
    rw [← String.toList_inj, restSegments, hlist, dropWhile_append_stop (by rfl)]
    simp [restSegments]
  rw [resolve?_eq, hhead, hrest] at h ⊢
  split at h
  next found hfound =>
    have happend : found ++ restSegments outer = qualified := by
      have hchars := Option.some.inj h
      rw [← String.append_assoc, ← String.append_assoc] at hchars
      exact (String.append_left_inj _).1 ((String.append_left_inj _).1 hchars)
    rw [← happend, ← String.append_assoc, ← String.append_assoc]
  next =>
    split at h
    next hpackage =>
      have houter : outer = qualified :=
        (String.append_left_inj _).1 ((String.append_left_inj _).1 (Option.some.inj h))
      rw [if_pos hpackage, houter]
    next => cases h

/-! ### Scopes that grow -/

/-- Whether an enclosing type is the same but for a member type of the given name. -/
structure GrowsType (hidden : String) (outer outer' : EnclosingType) : Prop where
  qualified : outer'.qualified = outer.qualified
  name : outer'.name = outer.name
  memberTypes : ∀ name, name ≠ hidden →
    outer'.memberTypes.contains name = outer.memberTypes.contains name

/-- Whether a scope is another one with more single imports, in which enclosing types may have gained a member type of the given name. -/
structure Grows (added : List String) (hidden : String) (scope scope' : TypeScope) : Prop where
  package : scope'.package = scope.package
  topLevel : scope'.topLevel = scope.topLevel
  index : scope'.index = scope.index
  onDemand : scope'.imports.onDemand = scope.imports.onDemand
  staticSingle : scope'.imports.staticSingle = scope.imports.staticSingle
  staticOnDemand : scope'.imports.staticOnDemand = scope.imports.staticOnDemand
  single : scope'.imports.single = scope.imports.single ++ added.map Imports.singleOf
  enclosing : List.Forall₂ (GrowsType hidden) scope.enclosing scope'.enclosing

/-- Whether the added imports name types that are known, alone with their last segment, and do not look like packages. -/
def Recognized (index : TypeIndex) (added : List String) : Prop :=
  ∀ path ∈ added, looksLikePackage (lastSegment path) = false ∧
    ∀ qualified, index qualified = true → lastSegment qualified = lastSegment path → qualified =
      path

variable {added : List String} {hidden : String} {scope scope' : TypeScope}

theorem Grows.resolveEnclosing?_eq {types types' : List EnclosingType} {name : String}
    (h : List.Forall₂ (GrowsType hidden) types types') (hname : name ≠ hidden) :
    resolveEnclosing? name types' = resolveEnclosing? name types := by
  induction h with
  | nil => rfl
  | cons hgrows _ ih =>
    rw [resolveEnclosing?, resolveEnclosing?, hgrows.memberTypes name hname, hgrows.qualified,
      hgrows.name, ih]

theorem Grows.inPackage_eq (h : Grows added hidden scope scope') (name : String) :
    scope'.inPackage name = scope.inPackage name := by
  rw [inPackage, inPackage, h.package]

theorem Grows.qualify_eq (h : Grows added hidden scope scope') (name : String) :
    scope'.qualify name = scope.qualify name := by
  rw [qualify, qualify]
  have henclosing := h.enclosing
  revert henclosing
  cases scope.enclosing <;> cases scope'.enclosing <;> intro henclosing
  · exact h.inPackage_eq name
  · cases henclosing
  · cases henclosing
  · simp only [(List.forall₂_cons.1 henclosing).1.qualified]

theorem Grows.resolveKnown?_eq (h : Grows added hidden scope scope') (name : String) :
    scope'.resolveKnown? name = scope.resolveKnown? name := by
  rw [resolveKnown?, resolveKnown?, h.index, h.package, h.onDemand, h.staticOnDemand]

theorem lastSegment_of_resolveKnown? {name qualified : String}
    (h : scope.resolveKnown? name = some qualified) :
    scope.index qualified = true ∧ lastSegment qualified = lastSegment name :=
  ⟨List.find?_some h, (endsWith_resolveOnDemand? h).lastSegment_eq⟩

/-- A simple name keeps what it stands for, or it is the name of an added import and stood for nothing before. -/
theorem Grows.resolveSimple?_cases (h : Grows added hidden scope scope') (hwf : scope.WellFormed)
    (hknown : Recognized scope.index added) {name : String} (hname : name ≠ hidden) :
    scope'.resolveSimple? name = scope.resolveSimple? name ∨
      (scope.resolveSimple? name = none ∧ ∃ path ∈ added, lastSegment path = name ∧
        scope'.resolveSimple? name = some path) := by
  rw [resolveSimple?, resolveSimple?, resolveEnclosing?_eq h.enclosing hname, h.topLevel,
    h.inPackage_eq, h.single, h.staticSingle, h.index, h.resolveKnown?_eq, List.find?_append]
  split
  · exact .inl rfl
  split
  · exact .inl rfl
  cases hsingle : scope.imports.single.find? fun i => i.imported == name with
  | some found => exact .inl rfl
  | none =>
    cases hadded : (added.map Imports.singleOf).find? fun i => i.imported == name with
    | none => exact .inl rfl
    | some found =>
      obtain ⟨path, hpath, rfl⟩ := List.mem_map.1 (List.mem_of_find?_eq_some hadded)
      have hlast : lastSegment path = name := by
        simpa [Imports.singleOf] using List.find?_some hadded
      cases hstatic : scope.imports.staticSingle.find? fun i =>
          i.imported == name && scope.index i.path with
      | some other =>
        have hother : other.imported = name ∧ scope.index other.path = true := by
          simpa using List.find?_some hstatic
        have heq : other.path = path := by
          refine (hknown path hpath).2 other.path hother.2 ?_
          rw [← hwf.staticSingle other (List.mem_of_find?_eq_some hstatic), hother.1, hlast]
        exact .inl (congrArg some heq.symm)
      | none =>
        cases hfound : scope.resolveKnown? name with
        | none => exact .inr ⟨rfl, path, hpath, hlast, rfl⟩
        | some qualified =>
          obtain ⟨hindex, hsegment⟩ := lastSegment_of_resolveKnown? hfound
          have heq : qualified = path := by
            refine (hknown path hpath).2 qualified hindex ?_
            rw [hsegment, ← hlast, ← (endsWith_lastSegment path).lastSegment_eq]
          exact .inl (congrArg some heq.symm)

/-- A written name keeps what it stands for, or its first segment is the name of an added import and it stood for nothing before. -/
theorem Grows.resolve?_cases (h : Grows added hidden scope scope') (hwf : scope.WellFormed)
    (hknown : Recognized scope.index added) {written : String}
    (hhead : headSegment written ≠ hidden) :
    scope'.resolve? written = scope.resolve? written ∨
      (scope.resolve? written = none ∧ ∃ path ∈ added,
        scope'.resolve? written = some (path ++ restSegments written)) := by
  rw [resolve?_eq, resolve?_eq]
  rcases h.resolveSimple?_cases hwf hknown hhead with heq | ⟨hnone, path, hpath, hlast, hsome⟩
  · rw [heq]
    exact .inl rfl
  · refine .inr ⟨?_, path, hpath, ?_⟩
    · rw [hnone, ← hlast, (hknown path hpath).1]
      rfl
    · rw [hsome]

/-- A simple name that stood for nothing comes to stand for an added import of that name. -/
theorem Grows.resolveSimple?_added (h : Grows added hidden scope scope') {name : String}
    (hname : name ≠ hidden) (hnone : scope.resolveSimple? name = none) {path : String}
    (hpath : path ∈ added) (hlast : lastSegment path = name) :
    ∃ path' ∈ added, lastSegment path' = name ∧ scope'.resolveSimple? name = some path' := by
  rw [resolveSimple?] at hnone ⊢
  rw [resolveEnclosing?_eq h.enclosing hname, h.topLevel, h.single, List.find?_append]
  split at hnone
  next => cases hnone
  next =>
    split at hnone
    next => cases hnone
    next htop =>
      split at hnone
      next => cases hnone
      next hsingle =>
        rw [if_neg htop, hsingle, Option.none_or]
        cases hadded : (added.map Imports.singleOf).find? fun i => i.imported == name with
        | none =>
          have hne := List.find?_eq_none.1 hadded _ (List.mem_map_of_mem hpath)
          exact absurd (beq_iff_eq.2 hlast) hne
        | some found =>
          obtain ⟨path', hpath', rfl⟩ := List.mem_map.1 (List.mem_of_find?_eq_some hadded)
          have hfound := List.find?_some hadded
          exact ⟨path', hpath', beq_iff_eq.1 hfound, rfl⟩

/-- A name can only be hidden by a member type that an enclosing type has gained. -/
theorem Grows.of_enclosing_eq (h : Grows added hidden scope scope')
    (heq : scope'.enclosing = scope.enclosing) (other : String) : Grows added other scope scope' where
  package := h.package
  topLevel := h.topLevel
  index := h.index
  onDemand := h.onDemand
  staticSingle := h.staticSingle
  staticOnDemand := h.staticOnDemand
  single := h.single
  enclosing := by
    rw [heq]
    exact List.forall₂_same.2 fun _ _ => ⟨rfl, rfl, fun _ _ => rfl⟩

theorem Grows.nested (h : Grows added hidden scope scope') {decl decl' : TypeDecl}
    (hname : decl'.name = decl.name)
    (hmembers : ∀ name, name ≠ hidden → (decl'.memberTypes.map (·.name)).contains name =
      (decl.memberTypes.map (·.name)).contains name) :
    Grows added hidden (scope.nested decl) (scope'.nested decl') where
  package := h.package
  topLevel := h.topLevel
  index := h.index
  onDemand := h.onDemand
  staticSingle := h.staticSingle
  staticOnDemand := h.staticOnDemand
  single := h.single
  enclosing := by
    refine .cons ⟨?_, hname, hmembers⟩ h.enclosing
    rw [hname]
    exact h.qualify_eq decl.name

/-- Single imports that are added to a unit. -/
def importDecl (path : String) : ImportDecl := ⟨[], false, false, false, path⟩

theorem grows_ofUnit {unit unit' : CompilationUnit} (index : TypeIndex)
    (hpackage : unit'.package = unit.package)
    (htypes : unit'.types.map (·.name) = unit.types.map (·.name))
    (himports : unit'.imports = unit.imports ++ added.map importDecl)
    (hblank : ∀ path ∈ added, Text.allBlank path = false) :
    Grows added hidden (ofUnit unit index) (ofUnit unit' index) where
  package := by rw [ofUnit, ofUnit, hpackage]
  topLevel := htypes
  index := rfl
  onDemand := by simp [ofUnit, Imports.ofDecls, Imports.ofForm, himports, importDecl]
  staticSingle := by simp [ofUnit, Imports.ofDecls, Imports.ofForm, himports, importDecl]
  staticOnDemand := by simp [ofUnit, Imports.ofDecls, Imports.ofForm, himports, importDecl]
  single := by
    have hfilter : (added.map importDecl).filter (fun decl => decl.isStatic == false &&
        decl.isWildcard == false && !Text.allBlank decl.path) = added.map importDecl := by
      refine List.filter_eq_self.2 fun decl hdecl => ?_
      obtain ⟨path, hpath, rfl⟩ := List.mem_map.1 hdecl
      simp [importDecl, hblank path hpath]
    simp only [ofUnit, Imports.ofDecls, Imports.ofForm, himports, List.filter_append,
      List.map_append,
      hfilter, List.map_map]
    rfl
  enclosing := .nil

end TypeScope

end AdviceMigration.Scope
