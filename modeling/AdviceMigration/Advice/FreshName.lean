import AdviceMigration.Scope.Event

/-!
# Fresh names

Names for new variables of a method. A name is taken when the method mentions it or declares it, parameters that are about to go apart.
-/

namespace AdviceMigration.Advice

open AdviceMigration.Source AdviceMigration.Scope

abbrev TakenNames := List String

namespace TakenNames

/-- The name that an event takes: names that occur, and the names of variables, `catch` parameters and lambda parameters. -/
def ofEvent? : Event → Option String
  | .use _ name _ => some name
  | .bind .variable name _ => some name
  | .bind .catchParam name _ => some name
  | .bind .lambdaParam name _ => some name
  | _ => none

/-- The names that a method takes once some of its parameters are removed. -/
def ofMethod (method : Method) (removed : List NodeId) : TakenNames :=
  let (gone, kept) := method.params.partition fun param => removed.contains param.id
  let mentioned := (Block.eventsOption method.body).filterMap ofEvent?
  mentioned.filter (fun name => !gone.any fun param => param.name == name) ++ kept.map (·.name)

/-- The first free name among `base` with the numbers from `number` on; at most `steps` of them are looked at. -/
def firstFree (taken : TakenNames) (base : String) : (steps number : Nat) → String
  | 0, number => base ++ toString number
  | steps + 1, number =>
    let candidate := base ++ toString number
    if taken.contains candidate then firstFree taken base steps (number + 1) else candidate

/-- The base if it is free, or else the base with the least number from 2 on that is. As many numbers as there are taken names are enough, since the base itself is one of these. -/
def freshName (taken : TakenNames) (base : String) : String :=
  if taken.contains base then firstFree taken base taken.length 2 else base

/-- A fresh name, which is taken from then on. -/
def fresh (taken : TakenNames) (base : String) : String × TakenNames :=
  let name := taken.freshName base
  (name, name :: taken)

end TakenNames

end AdviceMigration.Advice
