import AdviceMigration.Source.Print.Doc
import AdviceMigration.Source.Tree

/-!
# Printing trees

One statement per line, the opening brace at the end of its line. A node is written from its captured text where `reuse` allows it, so an edit inside a method leaves the statements around it as they were.

An operand that binds weaker than its place gets parentheses: `Expr.precedence` is the strength of an expression and `atLeast` demands one.
-/

namespace AdviceMigration.Source

/-! ### Binding strength -/

def conditionalStrength : Nat := 2

/-- Binary operators lie above this strength. -/
def binaryBase : Nat := 2

/-- Strength of prefixed operators, casts and array creations. -/
def unaryStrength : Nat := 13

/-- Strength of field accesses, calls and the like. -/
def postfixStrength : Nat := 14

/-- Strength of expressions that never need parentheses. -/
def primaryStrength : Nat := 15

/-- How tightly an expression holds together. -/
def Expr.precedence : Expr → Nat
  | .assign .. | .lambda .. => 1
  | .conditional .. => conditionalStrength
  | .binary op _ _ => binaryBase + op.precedence
  | .instanceOf .. => binaryBase + instanceOfPrecedence
  | .unary op _ => if op.isPostfix then postfixStrength else unaryStrength
  | .cast .. | .newArray .. => unaryStrength
  | .field .. | .call .. | .index .. | .methodRef .. => postfixStrength
  | .name .. | .literal .. | .new .. | .arrayInit .. | .classLiteral .. | .this | .super
  | .paren .. | .typeName .. => primaryStrength

/-- The printed form `doc` of an expression in a place that demands a strength. -/
def atLeast (strength : Nat) (expr : Expr) (doc : Doc) : Doc :=
  if expr.precedence < strength then txt "(" ++ doc ++ txt ")" else doc

/-- Whether a blank must separate a sign from its operand, so that two signs do not grow together. -/
def needsBlankAfter (op : UnaryOp) (operand : Expr) : Bool :=
  match op with
  | .plus | .minus =>
    match operand with
    | .unary inner _ => !inner.isPostfix && inner.text.toList.head? == op.text.toList.head?
    | .literal literal => literal.text.toList.head? == op.text.toList.head?
    | _ => false
  | _ => false

/-! ### Parts without expressions -/

/-- Modifiers, each followed by a space. -/
def modifiersDoc (modifiers : List Modifier) : Doc :=
  modifiers.flatMap fun modifier => txt (modifier.word ++ " ")

def typesDoc (types : List TypeRef) : Doc :=
  separated ", " (types.map fun type => txt type.text)

def TypeParam.doc (param : TypeParam) : Doc :=
  txt param.name ++ match param.bounds with
    | [] => []
    | bounds => txt " extends " ++ separated " & " (bounds.map fun bound => txt bound.text)

/-- Declared type parameters in angle brackets; nothing when there are none. -/
def typeParamsDoc : List TypeParam → Doc
  | [] => []
  | params => txt "<" ++ separated ", " (params.map TypeParam.doc) ++ txt ">"

def LambdaParam.doc (param : LambdaParam) : Doc :=
  modifiersDoc param.modifiers ++
    (match param.type with
      | some type => txt (type.text ++ " ")
      | none => []) ++
    txt param.name

/-- The parameters of a lambda expression. A single one stands without parentheses if it was written so. -/
def lambdaParamsDoc (params : List LambdaParam) (parenthesized : Bool) : Doc :=
  let inner := separated ", " (params.map LambdaParam.doc)
  if parenthesized || params.length != 1 then txt "(" ++ inner ++ txt ")" else inner

def jumpDoc (word : String) (label : Option String) : Doc :=
  match label with
  | some label => txt (word ++ " " ++ label ++ ";")
  | none => txt (word ++ ";")

/-- A list of printed members, statements or cases in braces. -/
def bracedLines (inner : Doc) (style : Style) : Doc :=
  txt "\x7b" ++ lineBreak ++ inner ++ style.indent ++ txt "\x7d"

/-- Whether a branch is printed in braces: it is a block, or it has comments, which need lines of their own. -/
def Stmt.inBraces (stmt : Stmt) : Bool :=
  match stmt.kind with
  | .block _ => true
  | _ => !stmt.layout.comments.isEmpty

/-- What comes between a branch and the word after it. -/
def afterBranch (branch : Stmt) (style : Style) : Doc :=
  if branch.inBraces then txt " " else lineBreak ++ style.indent

/-- A statement on its own line, given how its kind is printed. -/
def statementLine (layout : Layout) (trailing : Option Comment) (kind : Style → Doc)
    (style : Style) : Doc :=
  layout.leadingDoc style ++
    reuse layout.verbatim
      (fun style => style.indent ++ kind style ++ Comment.trailingDoc trailing style) style ++
    lineBreak

def Annot.name : Annot → String
  | .marker name => name
  | .single name _ => name
  | .pairs name _ => name

def TypeKind.word : TypeKind → String
  | .class => "class"
  | .interface => "interface"
  | .enum => "enum"

/-! ### Trees -/

mutual
/-- An expression without outer parentheses. -/
def Expr.doc : Expr → Style → Doc
  | .name _ name, _ => txt name
  | .literal literal, _ => txt literal.text
  | .field receiver name, style =>
    atLeast postfixStrength receiver (receiver.doc style) ++ txt ("." ++ name)
  | .call receiver typeArgs name args, style =>
    (match receiver with
      | some receiver => atLeast postfixStrength receiver (receiver.doc style) ++ txt "."
      | none => []) ++
      (match typeArgs with
        | [] => []
        | types => txt "<" ++ typesDoc types ++ txt ">") ++
      txt name ++ txt "(" ++ Expr.listDoc args style ++ txt ")"
  | .index array index, style =>
    atLeast postfixStrength array (array.doc style) ++ txt "[" ++ index.doc style ++ txt "]"
  | .assign target op value, style =>
    atLeast postfixStrength target (target.doc style) ++ txt (" " ++ op.text ++ " ") ++
      value.doc style
  | .binary op left right, style =>
    atLeast (binaryBase + op.precedence) left (left.doc style) ++ txt (" " ++ op.text ++ " ") ++
      atLeast (binaryBase + op.precedence + 1) right (right.doc style)
  | .unary op operand, style =>
    if op.isPostfix then
      atLeast postfixStrength operand (operand.doc style) ++ txt op.text
    else
      txt op.text ++ (if needsBlankAfter op operand then txt " " else []) ++
        atLeast unaryStrength operand (operand.doc style)
  | .conditional cond yes no, style =>
    atLeast (conditionalStrength + 1) cond (cond.doc style) ++ txt " ? " ++ yes.doc style ++
      txt " : " ++ atLeast conditionalStrength no (no.doc style)
  | .cast type operand, style =>
    txt ("(" ++ type.text ++ ") ") ++ atLeast unaryStrength operand (operand.doc style)
  | .instanceOf operand type binding, style =>
    atLeast (binaryBase + instanceOfPrecedence) operand (operand.doc style) ++
      txt " instanceof " ++
      match binding with
      | some binding =>
        (if binding.isFinal then txt "final " else []) ++ txt (type.text ++ " " ++ binding.name)
      | none => txt type.text
  | .new outer type args body, style =>
    (match outer with
      | some outer => atLeast postfixStrength outer (outer.doc style) ++ txt "."
      | none => []) ++
      txt ("new " ++ type.text ++ "(") ++ Expr.listDoc args style ++ txt ")" ++
      Member.bodyDoc body style
  | .newArray element dims init, style =>
    txt ("new " ++ element.text) ++ Expr.dimsDoc dims style ++
      match init with
      | some items => txt "\x7b" ++ Expr.listDoc items style ++ txt "\x7d"
      | none => []
  | .arrayInit items, style => txt "\x7b" ++ Expr.listDoc items style ++ txt "\x7d"
  | .lambda params parenthesized body, style =>
    lambdaParamsDoc params parenthesized ++ txt " -> " ++ body.doc style
  | .methodRef target name, style =>
    atLeast postfixStrength target (target.doc style) ++ txt ("::" ++ name)
  | .classLiteral type, _ => txt (type.text ++ ".class")
  | .this, _ => txt "this"
  | .super, _ => txt "super"
  | .paren inner, style => txt "(" ++ inner.doc style ++ txt ")"
  | .typeName type, _ => txt type.text

def Expr.listDoc : List Expr → Style → Doc
  | [], _ => []
  | [expr], style => expr.doc style
  | expr :: rest, style => expr.doc style ++ txt ", " ++ Expr.listDoc rest style

def Expr.dimsDoc : List (Option Expr) → Style → Doc
  | [], _ => []
  | none :: rest, style => txt "[]" ++ Expr.dimsDoc rest style
  | some size :: rest, style => txt "[" ++ size.doc style ++ txt "]" ++ Expr.dimsDoc rest style

def LambdaBody.doc : LambdaBody → Style → Doc
  | .expr value, style => value.doc style
  | .block body, style => body.doc style

def Block.doc : Block → Style → Doc
  | ⟨stmts, endComments, closing⟩, style =>
    txt "\x7b" ++ lineBreak ++ Stmt.listDoc stmts style.deeper ++ closingBrace closing endComments style

def Stmt.listDoc : List Stmt → Style → Doc
  | [], _ => []
  | stmt :: rest, style => stmt.doc style ++ Stmt.listDoc rest style

/-- A statement on lines of its own, with what stands in front of it. -/
def Stmt.doc : Stmt → Style → Doc
  | ⟨layout, trailing, kind⟩, style => statementLine layout trailing kind.doc style

/-- The body of an `if`, `else` or loop. -/
def Stmt.branchDoc : Stmt → Style → Doc
  | ⟨layout, trailing, kind⟩, style =>
    if Stmt.inBraces ⟨layout, trailing, kind⟩ then
      match kind with
      | .block body => txt " " ++ body.doc style
      | kind => txt " " ++ bracedLines (statementLine layout trailing kind.doc style.deeper) style
    else
      txt " " ++ kind.doc style ++ Comment.trailingDoc trailing style

/-- A statement that follows a label or an arrow on the same line. -/
def Stmt.inlineDoc : Stmt → Style → Doc
  | ⟨_, _, kind⟩, style => kind.doc style

/-- What a statement says, without its layout. -/
def StmtKind.doc : StmtKind → Style → Doc
  | .block body, style => body.doc style
  | .localVar decl, style => decl.doc style ++ txt ";"
  | .localClass decl, style => decl.inlineDoc style
  | .expr value, style => value.doc style ++ txt ";"
  | .ret none, _ => txt "return;"
  | .ret (some value), style => txt "return " ++ value.doc style ++ txt ";"
  | .ifElse cond yes no, style =>
    txt "if (" ++ cond.doc style ++ txt ")" ++ yes.branchDoc style ++
      match no with
      | some no => afterBranch yes style ++ txt "else" ++ no.branchDoc style
      | none => []
  | .whileLoop cond body, style =>
    txt "while (" ++ cond.doc style ++ txt ")" ++ body.branchDoc style
  | .doWhile body cond, style =>
    txt "do" ++ body.branchDoc style ++ afterBranch body style ++ txt "while (" ++
      cond.doc style ++ txt ");"
  | .forLoop init cond update body, style =>
    txt "for (" ++ init.doc style ++ txt ";" ++
      (match cond with
        | some cond => txt " " ++ cond.doc style
        | none => []) ++
      txt ";" ++
      (match update with
        | [] => []
        | update => txt " " ++ Expr.listDoc update style) ++
      txt ")" ++ body.branchDoc style
  | .forEach var iterable body, style =>
    txt "for (" ++ var.doc style ++ txt " : " ++ iterable.doc style ++ txt ")" ++
      body.branchDoc style
  | .tryBlock resources body catches finallyBody, style =>
    txt "try " ++
      (match resources with
        | [] => []
        | resources => txt "(" ++ Resource.listDoc resources style ++ txt ") ") ++
      body.doc style ++ CatchClause.listDoc catches style ++
      match finallyBody with
      | some finallyBody => txt " finally " ++ finallyBody.doc style
      | none => []
  | .throw value, style => txt "throw " ++ value.doc style ++ txt ";"
  | .breakTo label, _ => jumpDoc "break" label
  | .continueTo label, _ => jumpDoc "continue" label
  | .switch selector cases, style =>
    txt "switch (" ++ selector.doc style ++ txt ") " ++
      bracedLines (SwitchCase.listDoc cases style.deeper) style
  | .sync lock body, style => txt "synchronized (" ++ lock.doc style ++ txt ") " ++ body.doc style
  | .labeled label body, style => txt (label ++ ": ") ++ body.inlineDoc style
  | .assertion cond message, style =>
    txt "assert " ++ cond.doc style ++
      (match message with
        | some message => txt " : " ++ message.doc style
        | none => []) ++
      txt ";"
  | .empty, _ => txt ";"

def ForInit.doc : ForInit → Style → Doc
  | .decl decl, style => decl.doc style
  | .exprs values, style => Expr.listDoc values style

def Resource.listDoc : List Resource → Style → Doc
  | [], _ => []
  | [resource], style => resource.doc style
  | resource :: rest, style => resource.doc style ++ txt "; " ++ Resource.listDoc rest style

def Resource.doc : Resource → Style → Doc
  | .decl decl, style => decl.doc style
  | .expr value, style => value.doc style

def LoopVar.doc : LoopVar → Style → Doc
  | ⟨_, annotations, modifiers, type, name⟩, style =>
    Annot.inlineDoc annotations style ++ modifiersDoc modifiers ++ txt (type.text ++ " " ++ name)

def CatchClause.listDoc : List CatchClause → Style → Doc
  | [], _ => []
  | ⟨_, annotations, modifiers, types, name, body⟩ :: rest, style =>
    txt " catch (" ++ Annot.inlineDoc annotations style ++ modifiersDoc modifiers ++
      separated " | " (types.map fun type => txt type.text) ++ txt (" " ++ name ++ ") ") ++
      body.doc style ++ CatchClause.listDoc rest style

def SwitchCase.listDoc : List SwitchCase → Style → Doc
  | [], _ => []
  | ⟨comments, labels, isDefault, form, body⟩ :: rest, style =>
    Comment.listDoc comments style ++ style.indent ++
      (if isDefault then txt "default" else txt "case " ++ Expr.listDoc labels style) ++
      body.caseDoc form style ++ SwitchCase.listDoc rest style

def Block.caseDoc : Block → CaseForm → Style → Doc
  | ⟨stmts, endComments, closing⟩, .arrowBlock, style =>
    txt " -> " ++ txt "\x7b" ++ lineBreak ++ Stmt.listDoc stmts style.deeper ++
      closingBrace closing endComments style ++ lineBreak
  | ⟨stmts, endComments, _⟩, .colon, style =>
    txt ":" ++ lineBreak ++ Stmt.listDoc stmts style.deeper ++
      Comment.listDoc endComments style.deeper
  | ⟨[], _, _⟩, .arrowSingle, _ => txt " -> " ++ txt ";" ++ lineBreak
  | ⟨stmt :: _, _, _⟩, .arrowSingle, style =>
    txt " -> " ++ stmt.inlineDoc style ++ Comment.trailingDoc stmt.trailing style ++ lineBreak

/-- A declaration of local variables, without the semicolon. -/
def LocalVar.doc : LocalVar → Style → Doc
  | ⟨annotations, modifiers, type, declarators⟩, style =>
    Annot.inlineDoc annotations style ++ modifiersDoc modifiers ++ txt (type.text ++ " ") ++
      Declarator.listDoc declarators style

def Declarator.listDoc : List Declarator → Style → Doc
  | [], _ => []
  | [declarator], style => declarator.doc style
  | declarator :: rest, style =>
    declarator.doc style ++ txt ", " ++ Declarator.listDoc rest style

def Declarator.doc : Declarator → Style → Doc
  | ⟨_, name, dims, init⟩, style =>
    txt name ++ (List.replicate dims (txt "[]")).flatten ++
      match init with
      | some init => txt " = " ++ init.doc style
      | none => []

def Annot.doc : Annot → Style → Doc
  | .marker name, _ => txt ("@" ++ name)
  | .single name value, style => txt ("@" ++ name ++ "(") ++ value.doc style ++ txt ")"
  | .pairs name pairs, style =>
    txt ("@" ++ name ++ "(") ++ ElementPair.listDoc pairs style ++ txt ")"

/-- Annotations, each followed by a space. -/
def Annot.inlineDoc : List Annot → Style → Doc
  | [], _ => []
  | annot :: rest, style => annot.doc style ++ txt " " ++ Annot.inlineDoc rest style

/-- Annotations, each on a line of its own. -/
def Annot.linesDoc : List Annot → Style → Doc
  | [], _ => []
  | annot :: rest, style =>
    annot.doc style ++ lineBreak ++ style.indent ++ Annot.linesDoc rest style

def ElementPair.listDoc : List ElementPair → Style → Doc
  | [], _ => []
  | [⟨name, value⟩], style => txt (name ++ " = ") ++ value.doc style
  | ⟨name, value⟩ :: rest, style =>
    txt (name ++ " = ") ++ value.doc style ++ txt ", " ++ ElementPair.listDoc rest style

def ElementValue.doc : ElementValue → Style → Doc
  | .expr value, style => atLeast conditionalStrength value (value.doc style)
  | .annot value, style => value.doc style
  | .array values, style => txt "\x7b" ++ ElementValue.listDoc values style ++ txt "\x7d"

def ElementValue.listDoc : List ElementValue → Style → Doc
  | [], _ => []
  | [value], style => value.doc style
  | value :: rest, style => value.doc style ++ txt ", " ++ ElementValue.listDoc rest style

/-- The class body of an object creation or enum constant, if it has one. -/
def Member.bodyDoc : Option (List Member) → Style → Doc
  | none, _ => []
  | some members, style => txt " " ++ bracedLines (Member.listDoc members style.deeper) style

def Member.listDoc : List Member → Style → Doc
  | [], _ => []
  | member :: rest, style => member.doc style ++ Member.listDoc rest style

/-- A member on lines of its own, with what stands in front of it. -/
def Member.doc : Member → Style → Doc
  | .field decl, style =>
    decl.layout.leadingDoc style ++ reuse decl.layout.verbatim decl.ownDoc style ++ lineBreak
  | .method decl, style =>
    decl.layout.leadingDoc style ++ reuse decl.layout.verbatim decl.ownDoc style ++ lineBreak
  | .type decl, style =>
    decl.layout.leadingDoc style ++
      reuse decl.layout.verbatim (fun style => style.indent ++ decl.inlineDoc style) style ++ lineBreak
  | .initializer decl, style =>
    decl.layout.leadingDoc style ++ reuse decl.layout.verbatim decl.ownDoc style ++ lineBreak

def FieldDecl.ownDoc : FieldDecl → Style → Doc
  | ⟨_, annotations, modifiers, type, declarators, trailing⟩, style =>
    style.indent ++ Annot.linesDoc annotations style ++ modifiersDoc modifiers ++
      txt (type.text ++ " ") ++ Declarator.listDoc declarators style ++ txt ";" ++
      Comment.trailingDoc trailing style

def Method.ownDoc : Method → Style → Doc
  | ⟨_, _, annotations, modifiers, typeParams, returnType, name, params, throws, body⟩, style =>
    style.indent ++ Annot.linesDoc annotations style ++ modifiersDoc modifiers ++
      (match typeParams with
        | [] => []
        | typeParams => typeParamsDoc typeParams ++ txt " ") ++
      (match returnType with
        | some type => txt (type.text ++ " ")
        | none => []) ++
      txt name ++ txt "(" ++ Param.listDoc params style ++ txt ")" ++
      (match throws with
        | [] => []
        | throws => txt " throws " ++ typesDoc throws) ++
      match body with
      | some body => txt " " ++ body.doc style
      | none => txt ";"

def Param.listDoc : List Param → Style → Doc
  | [], _ => []
  | [param], style => param.doc style
  | param :: rest, style => param.doc style ++ txt ", " ++ Param.listDoc rest style

def Param.doc : Param → Style → Doc
  | ⟨_, annotations, modifiers, type, varargs, name⟩, style =>
    Annot.inlineDoc annotations style ++ modifiersDoc modifiers ++
      txt (type.text ++ (if varargs then "... " else " ") ++ name)

def Initializer.ownDoc : Initializer → Style → Doc
  | ⟨_, isStatic, body⟩, style =>
    style.indent ++ (if isStatic then txt "static " else []) ++ body.doc style

/-- A type declaration from its annotations to its closing brace. -/
def TypeDecl.inlineDoc : TypeDecl → Style → Doc
  | ⟨_, _, annotations, modifiers, kind, name, typeParams, superTypes, interfaces, constants,
      members, endComments, closing⟩, style =>
    Annot.linesDoc annotations style ++ modifiersDoc modifiers ++ txt (kind.word ++ " " ++ name) ++
      typeParamsDoc typeParams ++
      (match superTypes with
        | [] => []
        | superTypes => txt " extends " ++ typesDoc superTypes) ++
      (match interfaces with
        | [] => []
        | interfaces => txt " implements " ++ typesDoc interfaces) ++
      txt " \x7b" ++ lineBreak ++ EnumConstant.listDoc constants (!members.isEmpty) style.deeper ++
      Member.listDoc members style.deeper ++ closingBrace closing endComments style

/-- Enum constants, each on lines of its own. A semicolon ends the last one if members follow. -/
def EnumConstant.listDoc : List EnumConstant → Bool → Style → Doc
  | [], _, _ => []
  | [constant], membersFollow, style =>
    constant.doc style ++ (if membersFollow then txt ";" else []) ++ lineBreak
  | constant :: rest, membersFollow, style =>
    constant.doc style ++ txt "," ++ lineBreak ++ EnumConstant.listDoc rest membersFollow style

def EnumConstant.doc : EnumConstant → Style → Doc
  | ⟨comments, annotations, name, args, body⟩, style =>
    Comment.listDoc comments style ++ style.indent ++ Annot.inlineDoc annotations style ++
      txt name ++
      (match args with
        | some args => txt "(" ++ Expr.listDoc args style ++ txt ")"
        | none => []) ++
      Member.bodyDoc body style
end

def TypeDecl.ownDoc (decl : TypeDecl) (style : Style) : Doc :=
  style.indent ++ decl.inlineDoc style

/-- A statement from the tree with the comment after it, indented. -/
def Stmt.ownDoc (stmt : Stmt) (style : Style) : Doc :=
  style.indent ++ stmt.kind.doc style ++ Comment.trailingDoc stmt.trailing style

end AdviceMigration.Source
