import AdviceMigration.Scope.Types
import AdviceMigration.Source.Print.Tree

/-!
# The advice framework

The names of the framework's annotations that a migration reads and writes, and the imports that emitted annotations rely on.
-/

namespace AdviceMigration.Advice

open AdviceMigration.Source AdviceMigration.Scope

namespace Framework

def advice : String := "net.bytebuddy.asm.Advice"
def onMethodEnter : String := "net.bytebuddy.asm.Advice.OnMethodEnter"
def onMethodExit : String := "net.bytebuddy.asm.Advice.OnMethodExit"
def argument : String := "net.bytebuddy.asm.Advice.Argument"
def fieldValue : String := "net.bytebuddy.asm.Advice.FieldValue"
def returnValue : String := "net.bytebuddy.asm.Advice.Return"
def localValue : String := "net.bytebuddy.asm.Advice.Local"
def enterValue : String := "net.bytebuddy.asm.Advice.Enter"
def thrown : String := "net.bytebuddy.asm.Advice.Thrown"
def assignReturned : String := "net.bytebuddy.asm.Advice.AssignReturned"
def toArgument : String := "net.bytebuddy.asm.Advice.AssignReturned.ToArguments.ToArgument"
def toField : String := "net.bytebuddy.asm.Advice.AssignReturned.ToFields.ToField"

/-! ### Names of emitted annotations

They rely on the imports that are added with them. -/

def toArgumentsWrapper : String := "AssignReturned.ToArguments"
def toFieldsWrapper : String := "AssignReturned.ToFields"
def toArgumentName : String := "ToArgument"
def toFieldName : String := "ToField"
def toReturnedName : String := "AssignReturned.ToReturned"

/-! ### Known types -/

/-- The types that imports on demand and the package `java.lang` are known to hold. Only types that matter to a migration are listed. -/
def knownTypes : List String :=
  [advice, onMethodEnter, onMethodExit, argument, fieldValue, returnValue, localValue, enterValue,
    thrown,
    "net.bytebuddy.asm.Advice.This",
    "net.bytebuddy.asm.Advice.AllArguments",
    "net.bytebuddy.asm.Advice.Origin",
    "net.bytebuddy.asm.Advice.Exit",
    "net.bytebuddy.asm.Advice.Unused",
    "net.bytebuddy.asm.Advice.StubValue",
    assignReturned,
    "net.bytebuddy.asm.Advice.AssignReturned.ToArguments",
    toArgument,
    "net.bytebuddy.asm.Advice.AssignReturned.ToFields",
    toField,
    "net.bytebuddy.asm.Advice.AssignReturned.ToReturned",
    "net.bytebuddy.asm.Advice.AssignReturned.ToThrown",
    "net.bytebuddy.asm.Advice.AssignReturned.ToThis",
    "net.bytebuddy.asm.Advice.AssignReturned.ToAllArguments",
    "net.bytebuddy.implementation.bytecode.assign.Assigner",
    "net.bytebuddy.implementation.bytecode.assign.Assigner.Typing",
    "java.lang.Object",
    "java.lang.String",
    "java.lang.Class",
    "java.lang.Throwable",
    "java.lang.Exception",
    "java.lang.RuntimeException",
    "java.lang.Error",
    "java.lang.Override",
    "java.lang.Deprecated",
    "java.lang.SuppressWarnings",
    "java.lang.FunctionalInterface",
    "java.lang.SafeVarargs"]

def index : TypeIndex := fun name => knownTypes.contains name

/-- Whether a qualified name is that of the write-back annotation or of a type nested in it. -/
def isAssignReturned (name : String) : Bool :=
  match assignReturned.toList.isPrefixOf? name.toList with
  | some [] => true
  | some (c :: _) => c == '.'
  | none => false

end Framework

def findAnnot? (annots : List Annot) (scope : TypeScope) (qualified : String) : Option Nat :=
  annots.findIdx? fun annot => scope.resolve? annot.name == some qualified

/-- The imports that emitted annotations need, in the order in which they were first needed. -/
abbrev RequiredImports := List String

def RequiredImports.add (imports : RequiredImports) (path : String) : RequiredImports :=
  if imports.contains path then imports else imports ++ [path]

end AdviceMigration.Advice
