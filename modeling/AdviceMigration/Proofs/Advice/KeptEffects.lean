import AdviceMigration.Proofs.Advice.PackedBody

/-!
# Effects of values that are dropped

A packed method no longer gives back what its returns gave back before. What an old value does is kept as a statement in front of the `return` if the value itself can stand alone: a call, an assignment, an increment or a creation. The effects of any other value, such as a call in parentheses or as an operand, are lost with it.
-/

namespace AdviceMigration.Source

mutual
/-- The calls, assignments, increments and creations in an expression, in the order in which they are evaluated. The bodies of lambda expressions and classes are not entered. -/
def Expr.effects : Expr → List Expr
  | .call receiver typeArgs method args =>
    Expr.effectsOption receiver ++ Expr.effectsList args ++ [.call receiver typeArgs method args]
  | .assign target op value => target.effects ++ value.effects ++ [.assign target op value]
  | .unary op operand =>
    operand.effects ++ if op.hasSideEffects then [.unary op operand] else []
  | .new outer type args body =>
    Expr.effectsOption outer ++ Expr.effectsList args ++ [.new outer type args body]
  | .field receiver _ => receiver.effects
  | .index array position => array.effects ++ position.effects
  | .binary _ left right => left.effects ++ right.effects
  | .conditional cond yes no => cond.effects ++ yes.effects ++ no.effects
  | .cast _ operand => operand.effects
  | .instanceOf operand _ _ => operand.effects
  | .newArray _ dims init => Expr.effectsDims dims ++ Expr.effectsItems init
  | .arrayInit items => Expr.effectsList items
  | .methodRef target _ => target.effects
  | .paren inner => inner.effects
  | .lambda _ _ _ => []
  | .name _ _ => []
  | .literal _ => []
  | .classLiteral _ => []
  | .this => []
  | .super => []
  | .typeName _ => []

/-- The effects of expressions from left to right. -/
def Expr.effectsList : List Expr → List Expr
  | [] => []
  | expr :: rest => expr.effects ++ Expr.effectsList rest

/-- The effects of an expression, if there is one. -/
def Expr.effectsOption : Option Expr → List Expr
  | none => []
  | some expr => expr.effects

/-- The effects of the sizes of a created array. -/
def Expr.effectsDims : List (Option Expr) → List Expr
  | [] => []
  | dim :: rest => Expr.effectsOption dim ++ Expr.effectsDims rest

/-- The effects of the items of a created array. -/
def Expr.effectsItems : Option (List Expr) → List Expr
  | none => []
  | some items => Expr.effectsList items
end

/-- The effects of a statement that is an expression. -/
def Stmt.effects (stmt : Stmt) : List Expr :=
  match stmt.kind with
  | .expr value => value.effects
  | _ => []

/-- What is put in front of a statement does what the value does that is kept. -/
theorem Stmt.effects_inFront (stmt : Stmt) (kept : Option Expr) :
    (stmt.inFront kept).flatMap Stmt.effects = Expr.effectsOption kept := by
  cases kept with
  | none => rfl
  | some value =>
    simp [Stmt.inFront, Stmt.behind, Stmt.effects, Stmt.withLeading, Stmt.ofKind,
      Expr.effectsOption]

end AdviceMigration.Source

namespace AdviceMigration.Advice

open AdviceMigration.Source

/-- Whether a `return` gives back the named variables instead of an old value, with statements right in front of it that have all effects of the old value exactly if this one can stand alone or has none. -/
structure EffectsKept (names : List String) (copies : Copies) (value : Option Expr)
    (kept : List Stmt) (site site' : ReturnSite) : Prop where
  old : site.ret.kind = .ret value
  new : GivesTemplate names site'.ret
  before : site'.before = Stmt.packedAll (copies.along site.path.dropLast) 0 site.before ++ kept
  effects : kept.flatMap Stmt.effects = Expr.effectsOption value ↔
    ∀ expr ∈ value, expr.isStatement ∨ expr.effects = []

/-- A body with room for the values that stay has each of them in front of its `return`. -/
theorem kept?_eq_filter {names : List String} {body : Block} {copies : Copies}
    (hcopies : CopiesFor names body copies) (hroom : body.isCramped = false) {site : ReturnSite}
    (hsite : site ∈ body.sites) {value : Option Expr} (hvalue : site.ret.kind = .ret value) :
    copies.kept? site = value.filter (·.isStatement) := by
  obtain ⟨copy, hcopy, -⟩ := hcopies.exists_template hsite
  have hkept : site.ret.keptValue? = value.filter (·.isStatement) := by
    rw [Stmt.keptValue?, hvalue]
  rw [Copies.kept?, hcopy, Option.bind_some, hkept]
  split
  next => rfl
  next hbranch =>
    have hscoped : (site.path, site.ret) ∈ body.scoped :=
      (Block.mem_scoped body _ _).2 (Block.stmtAt?_eq_some_iff.1 (stmtAt?_of_site hsite).1)
    have hsmall := List.any_eq_false.1 hroom _ hscoped
    rw [isCramped_iff, hkept] at hsmall
    by_contra hne
    exact hsmall ⟨Option.ne_none_iff_exists'.1 (Ne.symm hne), by simpa using hbranch⟩

theorem effectsOption_filter_iff (value : Option Expr) :
    Expr.effectsOption (value.filter (·.isStatement)) = Expr.effectsOption value ↔
      ∀ expr ∈ value, expr.isStatement ∨ expr.effects = [] := by
  cases value with
  | none => simp
  | some expr =>
    cases hstatement : expr.isStatement with
    | true => simp [Option.filter, hstatement]
    | false =>
      have hlost : Expr.effectsOption ((some expr).filter (·.isStatement)) = [] := by
        simp [Option.filter, hstatement, Expr.effectsOption]
      rw [hlost, Expr.effectsOption]
      constructor
      · rintro hnone _ ⟨⟩
        exact .inr hnone.symm
      · intro hall
        exact ((hall expr rfl).resolve_left (by simp [hstatement])).symm

/-- Packing keeps the effects of the values that can stand alone, and no effects of other values. -/
theorem effects_packReturns {method packed : Method} {values : List ValueToReturn}
    (hvalues : values ≠ []) {next next' : NodeId}
    (hpack : (packReturns method values).run next = ((packed, .ok ()), next')) :
    ∃ body body' copies, method.body = some body ∧ packed.body = some body' ∧
      List.Forall₂ (fun site site' => ∃ value kept,
        EffectsKept (values.map (·.name)) copies value kept site site')
        (closeBody body).sites body'.sites := by
  obtain ⟨body, copies, hbody, hroom, hcopies, hpacked⟩ := packReturns_eq_ok hvalues hpack
  refine ⟨body, _, copies, hbody, hpacked, ?_⟩
  have hsites := (List.forall₂_and_left _ _).2 ⟨fun _ => id, (closeBody body).sites_packed copies⟩
  refine hsites.imp ?_
  rintro site site' ⟨hsite, hpacked⟩
  obtain ⟨value, hold, -⟩ := hpacked.ret
  refine ⟨value, _, hold, hcopies.givesTemplate hsite hpacked, hpacked.before, ?_⟩
  rw [Stmt.effects_inFront, kept?_eq_filter hcopies hroom hsite hold]
  exact effectsOption_filter_iff value

/-- The call of a method stays in front of the `return` in its block. -/
theorem effects_packReturns_callingMethod :
    ∃ packed next' body', (packReturns
        (callingMethod (some fun stmt => .ofKind (.block (.ofStmts [stmt])))) [writtenParam]).run 3 =
          ((packed, .ok ()), next') ∧ packed.body = some body' ∧
      ∃ site' ∈ body'.sites, GivesTemplate ["x"] site'.ret ∧
        site'.before.flatMap Stmt.effects = [someCall] := by
  refine ⟨_, _, _, rfl, rfl, ?_⟩
  obtain ⟨body, body', copies, hbody, hbody', hsites⟩ := @effects_packReturns
    (callingMethod (some fun stmt => .ofKind (.block (.ofStmts [stmt])))) _ [writtenParam]
    (List.cons_ne_nil _ _) 3 _ rfl
  cases hbody
  cases hbody'
  obtain ⟨⟨value, kept, hkept⟩, -⟩ := List.forall₂_cons.1 hsites
  cases hkept.old
  refine ⟨_, List.mem_cons_self, hkept.new, ?_⟩
  rw [hkept.before]
  refine hkept.effects.2 ?_
  rintro _ ⟨⟩
  exact .inl rfl

/-- A method that gives back a call in parentheses. -/
def parenthesizedCall : Method :=
  ⟨0, .unwritten, [], [], [], some (.primitive .int), "enter",
    [⟨1, [], [], .primitive .int, false, "x"⟩], [],
    some (.ofStmts [.ofKind (.ret (some (.paren someCall)))])⟩

/-- The call in parentheses is lost, since what stands in parentheses cannot stand alone. -/
theorem packReturns_paren_call_lost :
    ∃ copy, (Expr.paren someCall).effects = [someCall] ∧
      ((packReturns parenthesizedCall [writtenParam]).run 3).1 =
        ({ parenthesizedCall with body := some (.ofStmts [.ofKind (.ret (some copy))]) }, .ok ()) ∧
      copy.effects = [] :=
  ⟨_, rfl, rfl, rfl⟩

end AdviceMigration.Advice
