import AdviceMigration.Source.Node

/-!
# Usages

How often names of a tree refer to a declaration. The walk goes through a tree on its own: it needs neither scopes nor a copy of the tree, only an answer for each name.
-/

namespace AdviceMigration.Advice

/-- How often a declaration is used. Only a plain assignment to the bare name counts as a write: the others also read the old value. -/
structure Usages where
  reads : Nat
  writes : Nat
  deriving DecidableEq, Repr, Inhabited

namespace Usages

def none : Usages := ⟨0, 0⟩

def read : Usages := ⟨1, 0⟩

def write : Usages := ⟨0, 1⟩

instance : Add Usages := ⟨fun first second =>
  ⟨first.reads + second.reads, first.writes + second.writes⟩⟩

def isUnused (usages : Usages) : Bool := usages.reads == 0 && usages.writes == 0

end Usages

end AdviceMigration.Advice

namespace AdviceMigration.Source

open AdviceMigration.Advice

variable (refers : NodeId → Bool)

mutual
/-- The usages among the names of an expression. -/
def Expr.usages : Expr → Usages
  | .name id _ => if refers id then .read else .none
  | .literal _ => .none
  | .field receiver _ => receiver.usages
  | .call receiver _ _ args => Expr.usagesOption receiver + Expr.usagesList args
  | .index array index => array.usages + index.usages
  | .assign (.name id _) .assign value =>
    if refers id then .write + value.usages else value.usages
  | .assign target _ value => target.usages + value.usages
  | .binary _ left right => left.usages + right.usages
  | .unary _ operand => operand.usages
  | .conditional cond yes no => cond.usages + yes.usages + no.usages
  | .cast _ operand => operand.usages
  | .instanceOf operand _ _ => operand.usages
  | .new outer _ args body =>
    Expr.usagesOption outer + Expr.usagesList args + Member.usagesBody body
  | .newArray _ dims init => Expr.usagesDims dims + Expr.usagesItems init
  | .arrayInit items => Expr.usagesList items
  | .lambda _ _ body => body.usages
  | .methodRef target _ => target.usages
  | .classLiteral _ => .none
  | .this => .none
  | .super => .none
  | .paren inner => inner.usages
  | .typeName _ => .none

def Expr.usagesList : List Expr → Usages
  | [] => .none
  | expr :: rest => expr.usages + Expr.usagesList rest

def Expr.usagesOption : Option Expr → Usages
  | none => .none
  | some expr => expr.usages

def Expr.usagesDims : List (Option Expr) → Usages
  | [] => .none
  | dim :: rest => Expr.usagesOption dim + Expr.usagesDims rest

def Expr.usagesItems : Option (List Expr) → Usages
  | none => .none
  | some items => Expr.usagesList items

def LambdaBody.usages : LambdaBody → Usages
  | .expr value => value.usages
  | .block body => body.usages

def Block.usages : Block → Usages
  | ⟨stmts, _, _⟩ => Stmt.usagesList stmts

def Block.usagesOption : Option Block → Usages
  | none => .none
  | some body => body.usages

def Stmt.usagesList : List Stmt → Usages
  | [] => .none
  | stmt :: rest => stmt.usages + Stmt.usagesList rest

def Stmt.usages : Stmt → Usages
  | ⟨_, _, kind⟩ => kind.usages

def StmtKind.usages : StmtKind → Usages
  | .block body => body.usages
  | .localVar decl => decl.usages
  | .localClass decl => decl.usages
  | .expr value => value.usages
  | .ret value => Expr.usagesOption value
  | .ifElse cond yes none => cond.usages + yes.usages
  | .ifElse cond yes (some no) => cond.usages + yes.usages + no.usages
  | .whileLoop cond body => cond.usages + body.usages
  | .doWhile body cond => body.usages + cond.usages
  | .forLoop init cond update body =>
    init.usages + Expr.usagesOption cond + Expr.usagesList update + body.usages
  | .forEach _ iterable body => iterable.usages + body.usages
  | .tryBlock resources body catches finallyBody =>
    Resource.usagesList resources + body.usages + CatchClause.usagesList catches +
      Block.usagesOption finallyBody
  | .throw value => value.usages
  | .breakTo _ => .none
  | .continueTo _ => .none
  | .switch selector cases => selector.usages + SwitchCase.usagesList cases
  | .sync lock body => lock.usages + body.usages
  | .labeled _ body => body.usages
  | .assertion cond message => cond.usages + Expr.usagesOption message
  | .empty => .none

def ForInit.usages : ForInit → Usages
  | .decl decl => decl.usages
  | .exprs values => Expr.usagesList values

def Resource.usagesList : List Resource → Usages
  | [] => .none
  | .decl decl :: rest => decl.usages + Resource.usagesList rest
  | .expr value :: rest => value.usages + Resource.usagesList rest

def CatchClause.usagesList : List CatchClause → Usages
  | [] => .none
  | ⟨_, _, _, _, _, body⟩ :: rest => body.usages + CatchClause.usagesList rest

def SwitchCase.usagesList : List SwitchCase → Usages
  | [] => .none
  | ⟨_, labels, _, _, body⟩ :: rest =>
    Expr.usagesList labels + body.usages + SwitchCase.usagesList rest

def LocalVar.usages : LocalVar → Usages
  | ⟨_, _, _, declarators⟩ => Declarator.usagesList declarators

def Declarator.usagesList : List Declarator → Usages
  | [] => .none
  | ⟨_, _, _, init⟩ :: rest => Expr.usagesOption init + Declarator.usagesList rest

def Member.usagesBody : Option (List Member) → Usages
  | none => .none
  | some members => Member.usagesList members

def Member.usagesList : List Member → Usages
  | [] => .none
  | member :: rest => member.usages + Member.usagesList rest

def Member.usages : Member → Usages
  | .field ⟨_, _, _, _, declarators, _⟩ => Declarator.usagesList declarators
  | .method ⟨_, _, _, _, _, _, _, _, _, body⟩ => Block.usagesOption body
  | .type decl => decl.usages
  | .initializer ⟨_, _, body⟩ => body.usages

/-- The usages in a type, its constants first. -/
def TypeDecl.usages : TypeDecl → Usages
  | ⟨_, _, _, _, _, _, _, _, _, constants, members, _, _⟩ =>
    EnumConstant.usagesList constants + Member.usagesList members

def EnumConstant.usagesList : List EnumConstant → Usages
  | [] => .none
  | ⟨_, _, _, args, body⟩ :: rest =>
    Expr.usagesItems args + Member.usagesBody body + EnumConstant.usagesList rest
end

end AdviceMigration.Source
