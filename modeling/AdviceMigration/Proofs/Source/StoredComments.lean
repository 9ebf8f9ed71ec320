import AdviceMigration.Source.Print.Unit

/-!
# The comments of a tree

Every comment of a tree is stored with a statement, a member, a type, a constant, a case, a block, an import or the package. `stored` lists them in the order in which the printer comes by them, each with the answer to whether it writes the place the comment is stored in. Left out is what stands in front of and behind a block that is the body of an `if` or a loop, or any statement behind a label; what stands in front of the one statement behind an arrow; and what comes after that statement in its case. Places that the parser leaves empty are not written either: the labels of the default case, and the layout of a local class.

`retext` puts other texts into the comments and leaves everything else alone.
-/

namespace AdviceMigration.Source

/-- A comment of a tree, and whether it is stored in a place that is printed. -/
structure Stored where
  comment : Comment
  shown : Bool
  deriving DecidableEq, Repr

/-- Comments that are stored in one place. -/
def storedAs (shown : Bool) (comments : List Comment) : List Stored :=
  comments.map fun comment => ⟨comment, shown⟩

/-- Comments of a part that is not printed. -/
def unshown (stored : List Stored) : List Stored :=
  stored.map fun entry => { entry with shown := false }

/-- The comments among these that are printed. -/
def shownComments (stored : List Stored) : List Comment :=
  (stored.filter (·.shown)).map (·.comment)

/-- Other texts for comments. -/
abbrev CommentTexts := Comment → String

def Comment.retext (texts : CommentTexts) (comment : Comment) : Comment :=
  { comment with text := texts comment }

def Layout.retext (texts : CommentTexts) (layout : Layout) : Layout :=
  { layout with comments := layout.comments.map (Comment.retext texts) }

/-- Whether a statement of this kind loses its own comments as the body of an `if` or a loop. -/
def StmtKind.isBlock : StmtKind → Bool
  | .block _ => true
  | _ => false

/-! ### Stored comments -/

mutual
/-- The comments in an expression. -/
def Expr.stored : Expr → List Stored
  | .name _ _ => []
  | .literal _ => []
  | .field receiver _ => receiver.stored
  | .call none _ _ args => Expr.storedList args
  | .call (some receiver) _ _ args => receiver.stored ++ Expr.storedList args
  | .index array index => array.stored ++ index.stored
  | .assign target _ value => target.stored ++ value.stored
  | .binary _ left right => left.stored ++ right.stored
  | .unary _ operand => operand.stored
  | .conditional cond yes no => cond.stored ++ yes.stored ++ no.stored
  | .cast _ operand => operand.stored
  | .instanceOf operand _ _ => operand.stored
  | .new none _ args body => Expr.storedList args ++ Member.storedBody body
  | .new (some outer) _ args body => outer.stored ++ Expr.storedList args ++ Member.storedBody body
  | .newArray _ dims none => Expr.storedDims dims
  | .newArray _ dims (some items) => Expr.storedDims dims ++ Expr.storedList items
  | .arrayInit items => Expr.storedList items
  | .lambda _ _ body => body.stored
  | .methodRef target _ => target.stored
  | .classLiteral _ => []
  | .this => []
  | .super => []
  | .paren inner => inner.stored
  | .typeName _ => []

/-- The comments in expressions, from left to right. -/
def Expr.storedList : List Expr → List Stored
  | [] => []
  | expr :: rest => expr.stored ++ Expr.storedList rest

/-- The comments in the sizes of a created array. -/
def Expr.storedDims : List (Option Expr) → List Stored
  | [] => []
  | none :: rest => Expr.storedDims rest
  | some size :: rest => size.stored ++ Expr.storedDims rest

/-- The comments in the body of a lambda expression. -/
def LambdaBody.stored : LambdaBody → List Stored
  | .expr value => value.stored
  | .block body => body.stored

/-- The comments of a block. -/
def Block.stored : Block → List Stored
  | ⟨stmts, endComments, _⟩ => Stmt.storedList stmts ++ storedAs true endComments

/-- The comments of statements on lines of their own. -/
def Stmt.storedList : List Stmt → List Stored
  | [] => []
  | stmt :: rest => stmt.stored ++ Stmt.storedList rest

/-- The comments of a statement on lines of its own. -/
def Stmt.stored : Stmt → List Stored
  | ⟨layout, trailing, kind⟩ =>
    storedAs true layout.comments ++ (kind.stored ++ storedAs true trailing.toList)

/-- The comments of the body of an `if` or a loop. -/
def Stmt.storedBranch : Stmt → List Stored
  | ⟨layout, trailing, kind⟩ =>
    storedAs (!kind.isBlock) layout.comments ++ (kind.stored ++ storedAs (!kind.isBlock) trailing.toList)

/-- The comments of a statement behind a label. -/
def Stmt.storedInline : Stmt → List Stored
  | ⟨layout, trailing, kind⟩ =>
    storedAs false layout.comments ++ (kind.stored ++ storedAs false trailing.toList)

/-- The comments in what a statement does. -/
def StmtKind.stored : StmtKind → List Stored
  | .block body => body.stored
  | .localVar decl => decl.stored
  | .localClass decl => storedAs false decl.layout.comments ++ decl.stored
  | .expr value => value.stored
  | .ret none => []
  | .ret (some value) => value.stored
  | .ifElse cond yes none => cond.stored ++ yes.storedBranch
  | .ifElse cond yes (some no) => cond.stored ++ yes.storedBranch ++ no.storedBranch
  | .whileLoop cond body => cond.stored ++ body.storedBranch
  | .doWhile body cond => body.storedBranch ++ cond.stored
  | .forLoop init none update body => init.stored ++ Expr.storedList update ++ body.storedBranch
  | .forLoop init (some cond) update body =>
    init.stored ++ cond.stored ++ Expr.storedList update ++ body.storedBranch
  | .forEach var iterable body => var.stored ++ iterable.stored ++ body.storedBranch
  | .tryBlock resources body catches none =>
    Resource.storedList resources ++ body.stored ++ CatchClause.storedList catches
  | .tryBlock resources body catches (some finallyBody) =>
    Resource.storedList resources ++ body.stored ++ CatchClause.storedList catches ++ finallyBody.stored
  | .throw value => value.stored
  | .breakTo _ => []
  | .continueTo _ => []
  | .switch selector cases => selector.stored ++ SwitchCase.storedList cases
  | .sync lock body => lock.stored ++ body.stored
  | .labeled _ body => body.storedInline
  | .assertion cond none => cond.stored
  | .assertion cond (some message) => cond.stored ++ message.stored
  | .empty => []

/-- The comments in the start of a `for` loop. -/
def ForInit.stored : ForInit → List Stored
  | .decl decl => decl.stored
  | .exprs values => Expr.storedList values

/-- The comments in a resource. -/
def Resource.stored : Resource → List Stored
  | .decl decl => decl.stored
  | .expr value => value.stored

/-- The comments in resources. -/
def Resource.storedList : List Resource → List Stored
  | [] => []
  | resource :: rest => resource.stored ++ Resource.storedList rest

/-- The comments in the annotations of a loop variable. -/
def LoopVar.stored : LoopVar → List Stored
  | ⟨_, annotations, _, _, _⟩ => Annot.storedList annotations

/-- The comments of `catch` clauses. -/
def CatchClause.storedList : List CatchClause → List Stored
  | [] => []
  | ⟨_, annotations, _, _, _, body⟩ :: rest =>
    Annot.storedList annotations ++ body.stored ++ CatchClause.storedList rest

/-- The comments of cases. -/
def SwitchCase.storedList : List SwitchCase → List Stored
  | [] => []
  | ⟨comments, labels, isDefault, form, body⟩ :: rest =>
    storedAs true comments ++
      (if isDefault then unshown (Expr.storedList labels) else Expr.storedList labels) ++
      body.storedCase form ++ SwitchCase.storedList rest

/-- The comments of the statements of a case. Behind an arrow without braces one statement is printed, on the same line. -/
def Block.storedCase : Block → CaseForm → List Stored
  | ⟨stmts, endComments, _⟩, .arrowBlock => Stmt.storedList stmts ++ storedAs true endComments
  | ⟨stmts, endComments, _⟩, .colon => Stmt.storedList stmts ++ storedAs true endComments
  | ⟨[], endComments, _⟩, .arrowSingle => storedAs false endComments
  | ⟨⟨layout, trailing, kind⟩ :: rest, endComments, _⟩, .arrowSingle =>
    storedAs false layout.comments ++ kind.stored ++ storedAs true trailing.toList ++
      unshown (Stmt.storedList rest) ++ storedAs false endComments

/-- The comments in a declaration of local variables. -/
def LocalVar.stored : LocalVar → List Stored
  | ⟨annotations, _, _, declarators⟩ =>
    Annot.storedList annotations ++ Declarator.storedList declarators

/-- The comments in the initial value of a variable. -/
def Declarator.stored : Declarator → List Stored
  | ⟨_, _, _, none⟩ => []
  | ⟨_, _, _, some init⟩ => init.stored

/-- The comments in the initial values of variables. -/
def Declarator.storedList : List Declarator → List Stored
  | [] => []
  | declarator :: rest => declarator.stored ++ Declarator.storedList rest

/-- The comments in an annotation. -/
def Annot.stored : Annot → List Stored
  | .marker _ => []
  | .single _ value => value.stored
  | .pairs _ pairs => ElementPair.storedList pairs

/-- The comments in annotations. -/
def Annot.storedList : List Annot → List Stored
  | [] => []
  | annot :: rest => annot.stored ++ Annot.storedList rest

/-- The comments in the named values of an annotation. -/
def ElementPair.storedList : List ElementPair → List Stored
  | [] => []
  | ⟨_, value⟩ :: rest => value.stored ++ ElementPair.storedList rest

/-- The comments in a value of an annotation. -/
def ElementValue.stored : ElementValue → List Stored
  | .expr value => value.stored
  | .annot value => value.stored
  | .array values => ElementValue.storedList values

/-- The comments in values of an annotation. -/
def ElementValue.storedList : List ElementValue → List Stored
  | [] => []
  | value :: rest => value.stored ++ ElementValue.storedList rest

/-- The comments of a class body, if there is one. -/
def Member.storedBody : Option (List Member) → List Stored
  | none => []
  | some members => Member.storedList members

/-- The comments of members. -/
def Member.storedList : List Member → List Stored
  | [] => []
  | member :: rest => member.stored ++ Member.storedList rest

/-- The comments of a member. -/
def Member.stored : Member → List Stored
  | .field ⟨layout, annotations, _, _, declarators, trailing⟩ =>
    storedAs true layout.comments ++
      (Annot.storedList annotations ++ Declarator.storedList declarators ++ storedAs true trailing.toList)
  | .method ⟨_, layout, annotations, _, _, _, _, params, _, none⟩ =>
    storedAs true layout.comments ++ (Annot.storedList annotations ++ Param.storedList params)
  | .method ⟨_, layout, annotations, _, _, _, _, params, _, some body⟩ =>
    storedAs true layout.comments ++
      (Annot.storedList annotations ++ Param.storedList params ++ body.stored)
  | .type decl => storedAs true decl.layout.comments ++ decl.stored
  | .initializer ⟨layout, _, body⟩ => storedAs true layout.comments ++ body.stored

/-- The comments in the annotations of a parameter. -/
def Param.stored : Param → List Stored
  | ⟨_, annotations, _, _, _, _⟩ => Annot.storedList annotations

/-- The comments in the annotations of parameters. -/
def Param.storedList : List Param → List Stored
  | [] => []
  | param :: rest => param.stored ++ Param.storedList rest

/-- The comments in a type declaration, without those in front of it. -/
def TypeDecl.stored : TypeDecl → List Stored
  | ⟨_, _, annotations, _, _, _, _, _, _, constants, members, endComments, _⟩ =>
    Annot.storedList annotations ++ EnumConstant.storedList constants ++ Member.storedList members ++
      storedAs true endComments

/-- The comments of an enum constant. -/
def EnumConstant.stored : EnumConstant → List Stored
  | ⟨comments, annotations, _, none, body⟩ =>
    storedAs true comments ++ Annot.storedList annotations ++ Member.storedBody body
  | ⟨comments, annotations, _, some args, body⟩ =>
    storedAs true comments ++ Annot.storedList annotations ++ Expr.storedList args ++
      Member.storedBody body

/-- The comments of enum constants. -/
def EnumConstant.storedList : List EnumConstant → List Stored
  | [] => []
  | constant :: rest => constant.stored ++ EnumConstant.storedList rest
end

/-- The comments of a unit. -/
def CompilationUnit.stored (unit : CompilationUnit) : List Stored :=
  storedAs true (unit.package.toList.flatMap (·.comments)) ++
    storedAs true (unit.imports.flatMap (·.comments)) ++
    unit.types.flatMap (fun decl => storedAs true decl.layout.comments ++ decl.stored) ++
    storedAs true unit.endComments

/-! ### Other texts -/

mutual
/-- An expression with other texts in its comments. -/
def Expr.retext (texts : CommentTexts) : Expr → Expr
  | .name id name => .name id name
  | .literal literal => .literal literal
  | .field receiver name => .field (receiver.retext texts) name
  | .call none typeArgs name args => .call none typeArgs name (Expr.retextList texts args)
  | .call (some receiver) typeArgs name args =>
    .call (some (receiver.retext texts)) typeArgs name (Expr.retextList texts args)
  | .index array index => .index (array.retext texts) (index.retext texts)
  | .assign target op value => .assign (target.retext texts) op (value.retext texts)
  | .binary op left right => .binary op (left.retext texts) (right.retext texts)
  | .unary op operand => .unary op (operand.retext texts)
  | .conditional cond yes no => .conditional (cond.retext texts) (yes.retext texts) (no.retext texts)
  | .cast type operand => .cast type (operand.retext texts)
  | .instanceOf operand type binding => .instanceOf (operand.retext texts) type binding
  | .new none type args body =>
    .new none type (Expr.retextList texts args) (Member.retextBody texts body)
  | .new (some outer) type args body =>
    .new (some (outer.retext texts)) type (Expr.retextList texts args) (Member.retextBody texts body)
  | .newArray element dims none => .newArray element (Expr.retextDims texts dims) none
  | .newArray element dims (some items) =>
    .newArray element (Expr.retextDims texts dims) (some (Expr.retextList texts items))
  | .arrayInit items => .arrayInit (Expr.retextList texts items)
  | .lambda params parenthesized body => .lambda params parenthesized (body.retext texts)
  | .methodRef target name => .methodRef (target.retext texts) name
  | .classLiteral type => .classLiteral type
  | .this => .this
  | .super => .super
  | .paren inner => .paren (inner.retext texts)
  | .typeName type => .typeName type

/-- Expressions with other texts in their comments. -/
def Expr.retextList (texts : CommentTexts) : List Expr → List Expr
  | [] => []
  | expr :: rest => expr.retext texts :: Expr.retextList texts rest

/-- The sizes of a created array with other texts in their comments. -/
def Expr.retextDims (texts : CommentTexts) : List (Option Expr) → List (Option Expr)
  | [] => []
  | none :: rest => none :: Expr.retextDims texts rest
  | some size :: rest => some (size.retext texts) :: Expr.retextDims texts rest

/-- The body of a lambda expression with other texts in its comments. -/
def LambdaBody.retext (texts : CommentTexts) : LambdaBody → LambdaBody
  | .expr value => .expr (value.retext texts)
  | .block body => .block (body.retext texts)

/-- A block with other texts in its comments. -/
def Block.retext (texts : CommentTexts) : Block → Block
  | ⟨stmts, endComments, closing⟩ =>
    ⟨Stmt.retextList texts stmts, endComments.map (Comment.retext texts), closing⟩

/-- Statements with other texts in their comments. -/
def Stmt.retextList (texts : CommentTexts) : List Stmt → List Stmt
  | [] => []
  | stmt :: rest => stmt.retext texts :: Stmt.retextList texts rest

/-- A statement with other texts in its comments. -/
def Stmt.retext (texts : CommentTexts) : Stmt → Stmt
  | ⟨layout, trailing, kind⟩ =>
    ⟨layout.retext texts, trailing.map (Comment.retext texts), kind.retext texts⟩

/-- What a statement does, with other texts in its comments. -/
def StmtKind.retext (texts : CommentTexts) : StmtKind → StmtKind
  | .block body => .block (body.retext texts)
  | .localVar decl => .localVar (decl.retext texts)
  | .localClass decl => .localClass (decl.retext texts)
  | .expr value => .expr (value.retext texts)
  | .ret none => .ret none
  | .ret (some value) => .ret (some (value.retext texts))
  | .ifElse cond yes none => .ifElse (cond.retext texts) (yes.retext texts) none
  | .ifElse cond yes (some no) =>
    .ifElse (cond.retext texts) (yes.retext texts) (some (no.retext texts))
  | .whileLoop cond body => .whileLoop (cond.retext texts) (body.retext texts)
  | .doWhile body cond => .doWhile (body.retext texts) (cond.retext texts)
  | .forLoop init none update body =>
    .forLoop (init.retext texts) none (Expr.retextList texts update) (body.retext texts)
  | .forLoop init (some cond) update body =>
    .forLoop (init.retext texts) (some (cond.retext texts)) (Expr.retextList texts update)
      (body.retext texts)
  | .forEach var iterable body =>
    .forEach (var.retext texts) (iterable.retext texts) (body.retext texts)
  | .tryBlock resources body catches none =>
    .tryBlock (Resource.retextList texts resources) (body.retext texts)
      (CatchClause.retextList texts catches) none
  | .tryBlock resources body catches (some finallyBody) =>
    .tryBlock (Resource.retextList texts resources) (body.retext texts)
      (CatchClause.retextList texts catches) (some (finallyBody.retext texts))
  | .throw value => .throw (value.retext texts)
  | .breakTo label => .breakTo label
  | .continueTo label => .continueTo label
  | .switch selector cases => .switch (selector.retext texts) (SwitchCase.retextList texts cases)
  | .sync lock body => .sync (lock.retext texts) (body.retext texts)
  | .labeled label body => .labeled label (body.retext texts)
  | .assertion cond none => .assertion (cond.retext texts) none
  | .assertion cond (some message) => .assertion (cond.retext texts) (some (message.retext texts))
  | .empty => .empty

/-- The start of a `for` loop with other texts in its comments. -/
def ForInit.retext (texts : CommentTexts) : ForInit → ForInit
  | .decl decl => .decl (decl.retext texts)
  | .exprs values => .exprs (Expr.retextList texts values)

/-- A resource with other texts in its comments. -/
def Resource.retext (texts : CommentTexts) : Resource → Resource
  | .decl decl => .decl (decl.retext texts)
  | .expr value => .expr (value.retext texts)

/-- Resources with other texts in their comments. -/
def Resource.retextList (texts : CommentTexts) : List Resource → List Resource
  | [] => []
  | resource :: rest => resource.retext texts :: Resource.retextList texts rest

/-- A loop variable with other texts in its comments. -/
def LoopVar.retext (texts : CommentTexts) : LoopVar → LoopVar
  | ⟨id, annotations, modifiers, type, name⟩ =>
    ⟨id, Annot.retextList texts annotations, modifiers, type, name⟩

/-- The `catch` clauses with other texts in their comments. -/
def CatchClause.retextList (texts : CommentTexts) : List CatchClause → List CatchClause
  | [] => []
  | ⟨id, annotations, modifiers, types, name, body⟩ :: rest =>
    ⟨id, Annot.retextList texts annotations, modifiers, types, name, body.retext texts⟩ ::
      CatchClause.retextList texts rest

/-- Cases with other texts in their comments. -/
def SwitchCase.retextList (texts : CommentTexts) : List SwitchCase → List SwitchCase
  | [] => []
  | ⟨comments, labels, isDefault, form, body⟩ :: rest =>
    ⟨comments.map (Comment.retext texts), Expr.retextList texts labels, isDefault, form,
      body.retext texts⟩ :: SwitchCase.retextList texts rest

/-- A declaration of local variables with other texts in its comments. -/
def LocalVar.retext (texts : CommentTexts) : LocalVar → LocalVar
  | ⟨annotations, modifiers, type, declarators⟩ =>
    ⟨Annot.retextList texts annotations, modifiers, type, Declarator.retextList texts declarators⟩

/-- A declared variable with other texts in its comments. -/
def Declarator.retext (texts : CommentTexts) : Declarator → Declarator
  | ⟨id, name, dims, none⟩ => ⟨id, name, dims, none⟩
  | ⟨id, name, dims, some init⟩ => ⟨id, name, dims, some (init.retext texts)⟩

/-- Declared variables with other texts in their comments. -/
def Declarator.retextList (texts : CommentTexts) : List Declarator → List Declarator
  | [] => []
  | declarator :: rest => declarator.retext texts :: Declarator.retextList texts rest

/-- An annotation with other texts in its comments. -/
def Annot.retext (texts : CommentTexts) : Annot → Annot
  | .marker name => .marker name
  | .single name value => .single name (value.retext texts)
  | .pairs name pairs => .pairs name (ElementPair.retextList texts pairs)

/-- Annotations with other texts in their comments. -/
def Annot.retextList (texts : CommentTexts) : List Annot → List Annot
  | [] => []
  | annot :: rest => annot.retext texts :: Annot.retextList texts rest

/-- Named values with other texts in their comments. -/
def ElementPair.retextList (texts : CommentTexts) : List ElementPair → List ElementPair
  | [] => []
  | ⟨name, value⟩ :: rest => ⟨name, value.retext texts⟩ :: ElementPair.retextList texts rest

/-- A value of an annotation with other texts in its comments. -/
def ElementValue.retext (texts : CommentTexts) : ElementValue → ElementValue
  | .expr value => .expr (value.retext texts)
  | .annot value => .annot (value.retext texts)
  | .array values => .array (ElementValue.retextList texts values)

/-- Values of an annotation with other texts in their comments. -/
def ElementValue.retextList (texts : CommentTexts) : List ElementValue → List ElementValue
  | [] => []
  | value :: rest => value.retext texts :: ElementValue.retextList texts rest

/-- A class body that may be missing, with other texts in its comments. -/
def Member.retextBody (texts : CommentTexts) : Option (List Member) → Option (List Member)
  | none => none
  | some members => some (Member.retextList texts members)

/-- Members with other texts in their comments. -/
def Member.retextList (texts : CommentTexts) : List Member → List Member
  | [] => []
  | member :: rest => member.retext texts :: Member.retextList texts rest

/-- A member with other texts in its comments. -/
def Member.retext (texts : CommentTexts) : Member → Member
  | .field ⟨layout, annotations, modifiers, type, declarators, trailing⟩ =>
    .field ⟨layout.retext texts, Annot.retextList texts annotations, modifiers, type,
      Declarator.retextList texts declarators, trailing.map (Comment.retext texts)⟩
  | .method ⟨id, layout, annotations, modifiers, typeParams, returnType, name, params, throws, none⟩ =>
    .method ⟨id, layout.retext texts, Annot.retextList texts annotations, modifiers, typeParams,
      returnType, name, Param.retextList texts params, throws, none⟩
  | .method ⟨id, layout, annotations, modifiers, typeParams, returnType, name, params, throws,
      some body⟩ =>
    .method ⟨id, layout.retext texts, Annot.retextList texts annotations, modifiers, typeParams,
      returnType, name, Param.retextList texts params, throws, some (body.retext texts)⟩
  | .type decl => .type (decl.retext texts)
  | .initializer ⟨layout, isStatic, body⟩ =>
    .initializer ⟨layout.retext texts, isStatic, body.retext texts⟩

/-- A parameter with other texts in its comments. -/
def Param.retext (texts : CommentTexts) : Param → Param
  | ⟨id, annotations, modifiers, type, varargs, name⟩ =>
    ⟨id, Annot.retextList texts annotations, modifiers, type, varargs, name⟩

/-- Parameters with other texts in their comments. -/
def Param.retextList (texts : CommentTexts) : List Param → List Param
  | [] => []
  | param :: rest => param.retext texts :: Param.retextList texts rest

/-- A type declaration with other texts in its comments. -/
def TypeDecl.retext (texts : CommentTexts) : TypeDecl → TypeDecl
  | ⟨id, layout, annotations, modifiers, kind, name, typeParams, superTypes, interfaces, constants,
      members, endComments, closing⟩ =>
    ⟨id, layout.retext texts, Annot.retextList texts annotations, modifiers, kind, name, typeParams,
      superTypes, interfaces, EnumConstant.retextList texts constants, Member.retextList texts members,
      endComments.map (Comment.retext texts), closing⟩

/-- An enum constant with other texts in its comments. -/
def EnumConstant.retext (texts : CommentTexts) : EnumConstant → EnumConstant
  | ⟨comments, annotations, name, none, body⟩ =>
    ⟨comments.map (Comment.retext texts), Annot.retextList texts annotations, name, none,
      Member.retextBody texts body⟩
  | ⟨comments, annotations, name, some args, body⟩ =>
    ⟨comments.map (Comment.retext texts), Annot.retextList texts annotations, name,
      some (Expr.retextList texts args), Member.retextBody texts body⟩

/-- Enum constants with other texts in their comments. -/
def EnumConstant.retextList (texts : CommentTexts) : List EnumConstant → List EnumConstant
  | [] => []
  | constant :: rest => constant.retext texts :: EnumConstant.retextList texts rest
end

def PackageDecl.retext (texts : CommentTexts) (decl : PackageDecl) : PackageDecl :=
  { decl with comments := decl.comments.map (Comment.retext texts) }

def ImportDecl.retext (texts : CommentTexts) (decl : ImportDecl) : ImportDecl :=
  { decl with comments := decl.comments.map (Comment.retext texts) }

/-- A unit with other texts in its comments. -/
def CompilationUnit.retext (texts : CommentTexts) (unit : CompilationUnit) : CompilationUnit :=
  { unit with
    package := unit.package.map (PackageDecl.retext texts)
    imports := unit.imports.map (ImportDecl.retext texts)
    types := unit.types.map (TypeDecl.retext texts)
    endComments := unit.endComments.map (Comment.retext texts) }

end AdviceMigration.Source
