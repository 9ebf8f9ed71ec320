import AdviceMigration.Proofs.Advice.Packing
import AdviceMigration.Proofs.Source.PathOrder

/-!
# Paths that are still waiting

A rewrite collects the paths of the statements it is after and edits them from the last to the first. An edit changes one block: it puts a statement in front of another one or takes one out. `ShiftsFrom` says what this does to all other paths. Those that run through the block behind the edited place are shifted by one; all others lead where they led, unless they lead to what surrounds the place. So the paths in front of an edit, which are the ones that still wait, stay valid, and by induction they do so for a whole sequence of edits.
-/

namespace AdviceMigration.Source

/-! ### What an edit leaves alone -/

namespace Focus

variable {change : Focus → Option Focus} {focus focus' : Focus} {step : Step} {path : StmtPath}

/-- An edit behind a step swaps the part that the step leads to. -/
theorem exists_swap_of_update? (hfits : ∀ {part new}, change part = some new → part.Fits new)
    (h : focus.update? change (step :: path) = some focus') :
    ∃ child new, Swap step child new focus focus' ∧ child.update? change path = some new := by
  rw [update?] at h
  split at h
  next child hchild =>
    obtain ⟨new, hnew, rfl⟩ := Option.map_eq_some_iff.1 h
    exact ⟨child, new, swap_of_child? hchild (fits_update? hfits hnew), hnew⟩
  next => cases h

/-- A path that parts from the path of an edit leads where it led. -/
theorem at?_update?_apart (hfits : ∀ {part new}, change part = some new → part.Fits new)
    (h : focus.update? change path = some focus') {other : StmtPath} (hinner : ¬ path <+: other)
    (houter : ¬ other <+: path) : focus'.at? other = focus.at? other := by
  induction path generalizing focus focus' other with
  | nil => exact absurd List.nil_prefix hinner
  | cons step path ih =>
    obtain ⟨child, new, hswap, hnew⟩ := exists_swap_of_update? hfits h
    cases other with
    | nil => exact absurd List.nil_prefix houter
    | cons step' other =>
      rw [at?, at?]
      by_cases hstep : step' = step
      · subst hstep
        rw [hswap.child?_new, hswap.child?_old]
        apply ih hnew
        · exact fun hprefix => hinner (List.cons_prefix_cons.2 ⟨rfl, hprefix⟩)
        · exact fun hprefix => houter (List.cons_prefix_cons.2 ⟨rfl, hprefix⟩)
      · rw [hswap.child?_other hstep]

/-- A path of an edit leads to what the edit has put there. -/
theorem at?_update?_self (hfits : ∀ {part new}, change part = some new → part.Fits new)
    (h : focus.update? change path = some focus') :
    focus'.at? path = (focus.at? path).bind change := by
  induction path generalizing focus focus' with
  | nil => exact h.symm
  | cons step path ih =>
    obtain ⟨child, new, hswap, hnew⟩ := exists_swap_of_update? hfits h
    rw [at?, at?, hswap.child?_new, hswap.child?_old]
    exact ih hnew

/-- The statement that is in focus. -/
def stmt? (focus : Focus) : Option Stmt :=
  match focus with
  | .stmt found => some found
  | .block _ => none

/-- What is in a statement depends on its kind only. -/
theorem at?_of_kind_eq {stmt stmt' : Stmt} (h : stmt'.kind = stmt.kind) {rest : StmtPath}
    (hrest : rest ≠ []) : (Focus.stmt stmt').at? rest = (Focus.stmt stmt).at? rest := by
  cases rest with
  | nil => exact absurd rfl hrest
  | cons step rest =>
    have hchild : (Focus.stmt stmt').child? step = (Focus.stmt stmt).child? step := by
      simp only [child?, h]
    rw [at?, at?, hchild]

end Focus

namespace Block

variable {body body' block block' : Block} {path : StmtPath} {change : Block → Option Block}

theorem stmtAt?_eq_bind (body : Block) (path : StmtPath) :
    body.stmtAt? path = ((Focus.block body).at? path).bind Focus.stmt? := by
  rw [stmtAt?]
  cases (Focus.block body).at? path with
  | none => rfl
  | some focus => cases focus <;> rfl

theorem stmtAt?_updateBlock?_apart (h : body.updateBlock? path change = some body')
    {other : StmtPath} (hinner : ¬ path <+: other) (houter : ¬ other <+: path) :
    body'.stmtAt? other = body.stmtAt? other := by
  have hupdate := updateBlock?_eq_some_iff.1 h
  rw [stmtAt?_eq_bind, stmtAt?_eq_bind,
    Focus.at?_update?_apart Focus.fits_onBlock hupdate hinner houter]

theorem blockAt?_updateBlock? (h : body.updateBlock? path change = some body')
    (hblock : body.blockAt? path = some block) (hchange : change block = some block') :
    body'.blockAt? path = some block' := by
  have hself := Focus.at?_update?_self Focus.fits_onBlock (updateBlock?_eq_some_iff.1 h)
  rw [blockAt?_eq_some_iff.1 hblock, Option.bind_some, Focus.onBlock, hchange] at hself
  exact blockAt?_eq_some_iff.2 hself

/-- A path through a block goes on from one of its statements. -/
theorem stmtAt?_through (h : body.blockAt? path = some block) (index : Nat) (rest : StmtPath) :
    body.stmtAt? (path ++ Step.stmt index :: rest) =
      block.stmts[index]?.bind fun stmt => ((Focus.stmt stmt).at? rest).bind Focus.stmt? := by
  rw [stmtAt?_eq_bind, Focus.at?_append, blockAt?_eq_some_iff.1 h, Option.bind_some, Focus.at?,
    Focus.child?]
  cases block.stmts[index]? <;> rfl

/-- A path that does not go on from a statement of a block leads nowhere in it. -/
theorem stmtAt?_astray (h : body.blockAt? path = some block) {step : Step}
    (hstep : ∀ index, step ≠ .stmt index) (rest : StmtPath) :
    body.stmtAt? (path ++ step :: rest) = none := by
  rw [stmtAt?_eq_bind, Focus.at?_append, blockAt?_eq_some_iff.1 h, Option.bind_some, Focus.at?]
  cases step with
  | stmt index => exact absurd rfl (hstep index)
  | _ => rfl

end Block

end AdviceMigration.Source

namespace AdviceMigration.Advice

open AdviceMigration.Source

/-- How an edit at the statement `index` of one block moves what paths lead to: the statements of this block from `first` on are found at the numbers that `shift` gives, the first of them with what `hand` changes about it, and everything else but the surroundings of the place is found where it was. -/
structure ShiftsFrom (body body' : Block) (blockPath : StmtPath) (index first : Nat)
    (shift : Nat → Nat) (hand : Stmt → Stmt) : Prop where
  before (other : StmtPath) (hbefore : StmtPath.Precedes other (blockPath ++ [.stmt index]))
    (hother : ¬ other <+: blockPath ++ [.stmt index]) : body'.stmtAt? other = body.stmtAt? other
  next : body'.stmtAt? (blockPath ++ [.stmt (shift first)]) =
    (body.stmtAt? (blockPath ++ [.stmt first])).map hand
  later (number : Nat) (rest : StmtPath) (hnumber : first ≤ number)
    (hrest : number = first → rest ≠ []) :
    body'.stmtAt? (blockPath ++ .stmt (shift number) :: rest) =
      body.stmtAt? (blockPath ++ .stmt number :: rest)
  outside (other : StmtPath) (hother : ¬ other <+: blockPath ++ [.stmt index])
    (hblock : ∀ number rest, other ≠ blockPath ++ .stmt number :: rest) :
    body'.stmtAt? other = body.stmtAt? other

section Edits

variable {body body' block block' : Block} {blockPath path : StmtPath} {index first : Nat}
  {shift : Nat → Nat} {hand : Stmt → Stmt} {change : Block → Option Block} {anchor : Stmt}

/-- What an edit does to the paths of a body, from what it does to the list of statements of the block. -/
theorem shiftsFrom_updateBlock? (h : body.updateBlock? blockPath change = some body')
    (hblock : body.blockAt? blockPath = some block) (hchange : change block = some block')
    (hkind : ∀ stmt, (hand stmt).kind = stmt.kind)
    (hbelow : ∀ number, number < index → block'.stmts[number]? = block.stmts[number]?)
    (hnext : block'.stmts[shift first]? = block.stmts[first]?.map hand)
    (hlater : ∀ number, first < number → block'.stmts[shift number]? = block.stmts[number]?) :
    ShiftsFrom body body' blockPath index first shift hand := by
  have hblock' := Block.blockAt?_updateBlock? h hblock hchange
  have houtside (other : StmtPath) (hother : ¬ other <+: blockPath ++ [Step.stmt index])
      (hthrough : ∀ number rest, other ≠ blockPath ++ Step.stmt number :: rest) :
      body'.stmtAt? other = body.stmtAt? other := by
    by_cases hinner : blockPath <+: other
    · obtain ⟨rest, rfl⟩ := hinner
      cases rest with
      | nil =>
        rw [List.append_nil] at hother
        exact absurd (List.prefix_append _ _) hother
      | cons step rest =>
        have hstep : ∀ number, step ≠ .stmt number := by
          rintro number rfl
          exact hthrough number rest rfl
        rw [Block.stmtAt?_astray hblock hstep, Block.stmtAt?_astray hblock' hstep]
    · apply Block.stmtAt?_updateBlock?_apart h hinner
      exact fun houter => hother (houter.trans (List.prefix_append _ _))
  refine ⟨?_, ?_, ?_, houtside⟩
  · intro other hbefore hother
    by_cases hthrough : ∃ number rest, other = blockPath ++ Step.stmt number :: rest
    · obtain ⟨number, rest, rfl⟩ := hthrough
      have hlt : number < index := by
        by_contra hle
        exact StmtPath.not_precedes_stmt blockPath rest (by omega) hbefore
      rw [Block.stmtAt?_through hblock, Block.stmtAt?_through hblock', hbelow number hlt]
    · refine houtside other hother ?_
      intro number rest heq
      exact hthrough ⟨number, rest, heq⟩
  · rw [Block.stmtAt?_concat hblock, Block.stmtAt?_concat hblock', hnext]
  · intro number rest hnumber hrest
    rw [Block.stmtAt?_through hblock, Block.stmtAt?_through hblock']
    rcases Nat.eq_or_lt_of_le hnumber with rfl | hlt
    · rw [hnext, Option.bind_map]
      congr 1
      funext stmt
      rw [Function.comp_apply, Focus.at?_of_kind_eq (hkind stmt) (hrest rfl)]
    · rw [hlater number hlt]

/-! ### The edits -/

/-- The block without one of its statements. -/
def eraseStmt? (block : Block) (index : Nat) : Option Block :=
  if index < block.stmts.length then some { block with stmts := block.stmts.eraseIdx index } else none

/-- The body without the statement at the given path, which must stand directly in a block. -/
def removeAt? (body : Block) (path : StmtPath) : Option Block :=
  match path.blockIndex? with
  | none => none
  | some (blockPath, index) => body.updateBlock? blockPath (eraseStmt? · index)

/-- A statement that is put in front of another one moves that one and all behind it by one. -/
theorem exists_insertBefore? (hpath : path.blockIndex? = some (blockPath, index))
    (hanchor : body.stmtAt? path = some anchor) (stmt : Stmt) :
    ∃ body', insertBefore? body path stmt = some body' ∧
      body'.stmtAt? path = some (stmt.withLeading anchor.layout.comments
        anchor.layout.blankLineBefore anchor.layout.leading) ∧
      ShiftsFrom body body' blockPath index index (· + 1) (·.withLeading [] false none) := by
  have hinserted : ∃ body', insertBefore? body path stmt = some body' := by
    obtain rfl := StmtPath.blockIndex?_eq_some hpath
    obtain ⟨front, back, endComments, closing, rfl, hblock⟩ := Block.blockAt?_of_stmtAt? hanchor
    rw [insertBefore?, hpath]
    apply Block.exists_updateBlock? hblock
    dsimp only
    rw [List.getElem?_append_right (Nat.le_refl _), Nat.sub_self]
    rfl
  obtain ⟨body', hinsert⟩ := hinserted
  obtain ⟨blockPath', front, back, anchor', endComments, closing, change, rfl, hblock, hchange,
    hupdate⟩ := insertBefore?_eq_some hinsert
  rw [StmtPath.blockIndex?_concat] at hpath
  obtain ⟨rfl, rfl⟩ := Prod.mk.inj (Option.some.inj hpath)
  have hblock' := Block.blockAt?_updateBlock? hupdate hblock hchange
  obtain rfl : anchor' = anchor := by
    rw [Block.stmtAt?_concat hblock] at hanchor
    simpa using hanchor
  refine ⟨body', hinsert, ?_, ?_⟩
  · rw [Block.stmtAt?_concat hblock']
    simp
  · apply shiftsFrom_updateBlock? hupdate hblock hchange
    · exact fun _ => rfl
    · intro number hnumber
      rw [List.getElem?_append_left hnumber, List.getElem?_append_left hnumber]
    · simp
    · intro number hnumber
      obtain ⟨more, rfl⟩ := Nat.exists_eq_add_of_lt hnumber
      have hold : front.length + more + 1 - front.length = more + 1 := by omega
      have hnew : front.length + more + 1 + 1 - front.length = more + 2 := by omega
      rw [List.getElem?_append_right (by omega), List.getElem?_append_right (by omega), hold, hnew]
      rfl

/-- Without one of its statements a block goes on with those behind it, the first of them with what `hand` changes about it. -/
theorem shiftsFrom_removal {front back : List Stmt} {endComments endComments' : List Comment}
    {closing : Option Trivia} (h : body.updateBlock? blockPath change = some body')
    (hblock : body.blockAt? blockPath = some ⟨front ++ anchor :: back, endComments, closing⟩)
    (hchange : change ⟨front ++ anchor :: back, endComments, closing⟩ =
      some ⟨front ++ back.modifyHead hand, endComments', closing⟩)
    (hkind : ∀ stmt, (hand stmt).kind = stmt.kind) :
    ShiftsFrom body body' blockPath front.length (front.length + 1) (· - 1) hand := by
  apply shiftsFrom_updateBlock? h hblock hchange hkind
  · intro number hnumber
    rw [List.getElem?_append_left hnumber, List.getElem?_append_left hnumber]
  · cases back <;> simp
  · intro number hnumber
    obtain ⟨more, rfl⟩ := Nat.exists_eq_add_of_lt hnumber
    have hold : front.length + 1 + more + 1 - front.length = more + 2 := by omega
    have hnew : front.length + 1 + more + 1 - 1 - front.length = more + 1 := by omega
    rw [List.getElem?_append_right (by omega), List.getElem?_append_right (by omega), hold, hnew]
    cases back <;> rfl

theorem eraseStmt?_split (front back : List Stmt) (stmt : Stmt) (endComments : List Comment)
    (closing : Option Trivia) :
    eraseStmt? ⟨front ++ stmt :: back, endComments, closing⟩ front.length =
      some ⟨front ++ back.modifyHead id, endComments, closing⟩ := by
  simp [eraseStmt?, List.eraseIdx_append_of_length_le (Nat.le_refl _)]

theorem removeStmt?_split (front back : List Stmt) (stmt : Stmt) (endComments : List Comment)
    (closing : Option Trivia) :
    ∃ endComments', removeStmt? ⟨front ++ stmt :: back, endComments, closing⟩ front.length =
      some ⟨front ++ back.modifyHead (inheritLeading stmt), endComments', closing⟩ := by
  have hstmt : (front ++ stmt :: back)[front.length]? = some stmt := by simp
  have herase (rest : List Stmt) : (front ++ stmt :: rest).eraseIdx front.length = front ++ rest := by
    rw [List.eraseIdx_append_of_length_le (Nat.le_refl _), Nat.sub_self, List.eraseIdx_cons_zero]
  have hnext : (front ++ stmt :: back)[front.length + 1]? = back[0]? := by
    rw [List.getElem?_append_right (Nat.le_add_right _ _), Nat.add_sub_cancel_left,
      List.getElem?_cons_succ]
  rw [removeStmt?, hstmt, hnext]
  cases back with
  | nil => exact ⟨_, by rw [herase]; rfl⟩
  | cons next back =>
    have hset : (front ++ stmt :: next :: back).set (front.length + 1) (inheritLeading stmt next) =
        front ++ stmt :: inheritLeading stmt next :: back := by
      rw [List.set_append_right _ _ (Nat.le_add_right _ _), Nat.add_sub_cancel_left]
      rfl
    refine ⟨endComments, ?_⟩
    rw [List.getElem?_cons_zero]
    simp only [hset, herase]
    rfl

/-- A statement that is taken out of its block moves all behind it by one. -/
theorem exists_removeAt? (hpath : path.blockIndex? = some (blockPath, index))
    (hanchor : body.stmtAt? path = some anchor) :
    ∃ body', removeAt? body path = some body' ∧
      ShiftsFrom body body' blockPath index (index + 1) (· - 1) id := by
  obtain rfl := StmtPath.blockIndex?_eq_some hpath
  obtain ⟨front, back, endComments, closing, rfl, hblock⟩ := Block.blockAt?_of_stmtAt? hanchor
  have hchange := eraseStmt?_split front back anchor endComments closing
  obtain ⟨body', hupdate⟩ :=
    @Block.exists_updateBlock? body _ _ blockPath (eraseStmt? · front.length) hblock hchange
  refine ⟨body', ?_, shiftsFrom_removal hupdate hblock hchange fun _ => rfl⟩
  rw [removeAt?, hpath]
  exact hupdate

/-- When a declaration is removed, the statement behind it also takes over what stood in front of it. -/
theorem exists_removeStmt? (hpath : path.blockIndex? = some (blockPath, index))
    (hanchor : body.stmtAt? path = some anchor) :
    ∃ body', body.updateBlock? blockPath (removeStmt? · index) = some body' ∧
      ShiftsFrom body body' blockPath index (index + 1) (· - 1) (inheritLeading anchor) := by
  obtain rfl := StmtPath.blockIndex?_eq_some hpath
  obtain ⟨front, back, endComments, closing, rfl, hblock⟩ := Block.blockAt?_of_stmtAt? hanchor
  obtain ⟨endComments', hchange⟩ := removeStmt?_split front back anchor endComments closing
  obtain ⟨body', hupdate⟩ :=
    @Block.exists_updateBlock? body _ _ blockPath (removeStmt? · front.length) hblock hchange
  exact ⟨body', hupdate, shiftsFrom_removal hupdate hblock hchange fun _ => rfl⟩

/-- Putting a statement in front of one that stands directly in a block, and taking this one out, succeed. What stands behind the place in this block is found one further on or one closer to the front, and everything else but the surroundings of the place is found where it was. Only the statement right behind the place changes: it hands what stands in front of it to an inserted one, and takes over what stood in front of a removed declaration. -/
theorem shiftsFrom_edits (hpath : path.blockIndex? = some (blockPath, index))
    (hanchor : body.stmtAt? path = some anchor) :
    (∀ stmt, ∃ body', insertBefore? body path stmt = some body' ∧
      body'.stmtAt? path = some (stmt.withLeading anchor.layout.comments
        anchor.layout.blankLineBefore anchor.layout.leading) ∧
      ShiftsFrom body body' blockPath index index (· + 1) (·.withLeading [] false none)) ∧
    (∃ body', removeAt? body path = some body' ∧
      ShiftsFrom body body' blockPath index (index + 1) (· - 1) id) ∧
    ∃ body', body.updateBlock? blockPath (removeStmt? · index) = some body' ∧
      ShiftsFrom body body' blockPath index (index + 1) (· - 1) (inheritLeading anchor) :=
  ⟨exists_insertBefore? hpath hanchor, exists_removeAt? hpath hanchor,
    exists_removeStmt? hpath hanchor⟩

/-- A block in a block, whose second statement has a comment and an empty line in front of it. -/
def nestedBody : Block :=
  ⟨[.ofKind .empty, .ofKind (.block ⟨[.ofKind (.ret none),
    ⟨{ comments := [.ofLine "note"], blankLineBefore := true }, none, .throw .this⟩,
    .ofKind (.breakTo none)], [], none⟩), .ofKind .empty], [], none⟩

theorem shiftsFrom_edits_nestedBody :
    StmtPath.blockIndex? [.stmt 1, .nested, .stmt 1] = some ([.stmt 1, .nested], 1) ∧
      ∃ anchor, nestedBody.stmtAt? [.stmt 1, .nested, .stmt 1] = some anchor ∧
        (∀ stmt, ∃ body', insertBefore? nestedBody [.stmt 1, .nested, .stmt 1] stmt = some body' ∧
          body'.stmtAt? [.stmt 1, .nested, .stmt 1] = some (stmt.withLeading anchor.layout.comments
            anchor.layout.blankLineBefore anchor.layout.leading) ∧
          ShiftsFrom nestedBody body' [.stmt 1, .nested] 1 1 (· + 1) (·.withLeading [] false none)) ∧
        (∃ body', removeAt? nestedBody [.stmt 1, .nested, .stmt 1] = some body' ∧
          ShiftsFrom nestedBody body' [.stmt 1, .nested] 1 2 (· - 1) id) ∧
        ∃ body', nestedBody.updateBlock? [.stmt 1, .nested] (removeStmt? · 1) = some body' ∧
          ShiftsFrom nestedBody body' [.stmt 1, .nested] 1 2 (· - 1) (inheritLeading anchor) :=
  ⟨rfl, _, rfl, shiftsFrom_edits rfl rfl⟩

/-! ### From the last path to the first -/

/-- One edit at a path: a statement is put in front of the one there, or this one is taken out. -/
inductive EditedAt (path : StmtPath) : Block → Block → Prop where
  | insert {body body' : Block} {stmt : Stmt} (h : insertBefore? body path stmt = some body') :
    EditedAt path body body'
  | remove {body body' : Block} (h : removeAt? body path = some body') : EditedAt path body body'

/-- Edits at some paths, from the last one to the first. -/
inductive EditedBackwards : List StmtPath → Block → Block → Prop where
  | nil {body : Block} : EditedBackwards [] body body
  | cons {path : StmtPath} {paths : List StmtPath} {body middle body' : Block}
      (hlater : EditedBackwards paths body middle) (hedit : EditedAt path middle body') :
    EditedBackwards (path :: paths) body body'

/-- A statement is put only in front of one that stands directly in a block. -/
theorem exists_of_insertBefore? {stmt : Stmt} (h : insertBefore? body path stmt = some body') :
    ∃ blockPath index anchor, path.blockIndex? = some (blockPath, index) ∧
      body.stmtAt? path = some anchor := by
  obtain ⟨blockPath, front, back, anchor, endComments, closing, change, rfl, hblock, -, -⟩ :=
    insertBefore?_eq_some h
  refine ⟨blockPath, front.length, anchor, StmtPath.blockIndex?_concat blockPath _, ?_⟩
  rw [Block.stmtAt?_concat hblock]
  simp

/-- Only a statement that stands directly in a block is taken out. -/
theorem exists_of_removeAt? (h : removeAt? body path = some body') :
    ∃ blockPath index anchor, path.blockIndex? = some (blockPath, index) ∧
      body.stmtAt? path = some anchor := by
  rw [removeAt?] at h
  split at h
  next => cases h
  next blockPath index hpath =>
    obtain ⟨block, block', hblock, herase⟩ := Block.exists_of_updateBlock? h
    rw [eraseStmt?] at herase
    split_ifs at herase with hlt
    refine ⟨blockPath, index, block.stmts[index], hpath, ?_⟩
    rw [StmtPath.blockIndex?_eq_some hpath, Block.stmtAt?_concat hblock, List.getElem?_eq_getElem hlt]

/-- A path in front of an edit leads where it led, unless it leads to what surrounds the place. -/
theorem EditedAt.stmtAt?_before (h : EditedAt path body body') {other : StmtPath}
    (hbefore : StmtPath.Precedes other path) (hother : ¬ other <+: path) :
    body'.stmtAt? other = body.stmtAt? other := by
  cases h with
  | insert hinsert =>
    obtain ⟨blockPath, index, anchor, hpath, hanchor⟩ := exists_of_insertBefore? hinsert
    obtain ⟨body'', hinsert', -, hshifts⟩ := exists_insertBefore? hpath hanchor _
    obtain rfl := Option.some.inj (hinsert'.symm.trans hinsert)
    obtain rfl := StmtPath.blockIndex?_eq_some hpath
    exact hshifts.before other hbefore hother
  | remove hremove =>
    obtain ⟨blockPath, index, anchor, hpath, hanchor⟩ := exists_of_removeAt? hremove
    obtain ⟨body'', hremove', hshifts⟩ := exists_removeAt? hpath hanchor
    obtain rfl := Option.some.inj (hremove'.symm.trans hremove)
    obtain rfl := StmtPath.blockIndex?_eq_some hpath
    exact hshifts.before other hbefore hother

/-- However many edits have been made at later paths, a path leads where it led. -/
theorem EditedBackwards.stmtAt?_before {paths : List StmtPath} (h : EditedBackwards paths body body')
    {other : StmtPath} (hbefore : ∀ path ∈ paths, StmtPath.Precedes other path)
    (hother : ∀ path ∈ paths, ¬ other <+: path) : body'.stmtAt? other = body.stmtAt? other := by
  induction h with
  | nil => rfl
  | cons _ hedit ih =>
    rw [List.forall_mem_cons] at hbefore hother
    rw [hedit.stmtAt?_before hbefore.1 hother.1, ih hbefore.2 hother.2]

/-- Edits at the returns of a body, from the last one to the first, meet each return as it was in the body. -/
theorem stmtAt?_returnPaths {front back : List StmtPath}
    (hpaths : body.returnPaths = front ++ path :: back) (h : EditedBackwards back body body') :
    body'.stmtAt? path = body.stmtAt? path := by
  have hreturn (other : StmtPath) (hmem : other ∈ body.returnPaths) :
      ∃ stmt, body.stmtAt? other = some stmt ∧ stmt.isReturn = true := by
    obtain ⟨⟨_, stmt⟩, hentry, rfl⟩ := List.mem_map.1 hmem
    obtain ⟨hscoped, hstmt⟩ := List.mem_filter.1 hentry
    exact ⟨stmt, Block.stmtAt?_eq_some_iff.2 ((Block.mem_scoped body _ stmt).1 hscoped), hstmt⟩
  have hascending := body.returnPaths_ascending
  rw [hpaths, List.pairwise_append, List.pairwise_cons] at hascending
  have hbefore : ∀ later ∈ back, StmtPath.Precedes path later := hascending.2.1.1
  apply h.stmtAt?_before hbefore
  intro later hlater hprefix
  obtain ⟨ret, hret, hisReturn⟩ := hreturn path (by rw [hpaths]; simp)
  obtain ⟨stmt, hstmt, -⟩ := hreturn later (by rw [hpaths]; simp [hlater])
  obtain ⟨rest, rfl⟩ := hprefix
  cases rest with
  | nil =>
    rw [List.append_nil] at hlater
    exact StmtPath.not_precedes_self path (hbefore path hlater)
  | cons step rest =>
    -- Nothing is in a `return`.
    obtain ⟨value, hkind⟩ := isReturn_iff.1 hisReturn
    rw [Block.stmtAt?_eq_bind, Focus.at?_append, Block.stmtAt?_eq_some_iff.1 hret,
      Option.bind_some, Focus.at?, isLeaf_of_ret hkind step] at hstmt
    cases hstmt

end Edits

end AdviceMigration.Advice
