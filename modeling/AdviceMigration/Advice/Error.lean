import AdviceMigration.Source.Parse.Cursor
import AdviceMigration.Text.Quoted

/-!
# Migration errors

Why a compilation unit cannot be migrated. An error leaves the unit as it was read.
-/

namespace AdviceMigration.Advice

open AdviceMigration.Source AdviceMigration.Text

/-- What is wrong with the value of a binding annotation. -/
inductive InvalidValue where
  | localName
  | argumentIndex
  | fieldName
  | readOnly
  deriving DecidableEq, Repr, Inhabited

def InvalidValue.message : InvalidValue → String
  | localName => "@Advice.Local needs a string literal name"
  | argumentIndex => "@Advice.Argument needs an integer literal index"
  | fieldName => "@Advice.FieldValue needs a field name"
  | readOnly => "readOnly must be a boolean literal"

/-- Why a compilation unit cannot be migrated. -/
inductive MigrateError where
  | mismatchedLocals (enter exit : List String)
  | multipleWritableReturns (method : String)
  | duplicateAdviceMethod (className marker : String)
  | duplicateEnterBinding (method : String)
  | duplicateLocal (method key : String)
  | enterBindingWithoutEnterMethod (method : String)
  | unsupportedReturnPosition (method : String)
  | invalidAnnotValue (param : String) (value : InvalidValue)
  | missingBody (method : String)
  | unreadable (failure : ParseFailure)
  deriving DecidableEq, Repr, Inhabited

namespace MigrateError

def message : MigrateError → String
  | mismatchedLocals enter exit =>
    "enter and exit declare different advice locals (enter: " ++ quoteList enter ++ ", exit: " ++
      quoteList exit ++ ")"
  | multipleWritableReturns method =>
    "method `" ++ method ++ "` has more than one writable @Advice.Return parameter"
  | duplicateAdviceMethod className marker =>
    "class `" ++ className ++ "` has more than one method annotated with @Advice." ++ marker
  | duplicateEnterBinding method =>
    "method `" ++ method ++ "` has more than one @Advice.Enter parameter"
  | duplicateLocal method key =>
    "method `" ++ method ++ "` binds advice local \"" ++ key ++ "\" more than once"
  | enterBindingWithoutEnterMethod method =>
    "exit method `" ++ method ++ "` binds @Advice.Enter but the class has no enter method"
  | unsupportedReturnPosition method =>
    "method `" ++ method ++ "` returns from a statement that is not directly inside a block"
  | invalidAnnotValue param value => "parameter `" ++ param ++ "`: " ++ value.message
  | missingBody method => "advice method `" ++ method ++ "` has no body"
  | unreadable (.syntaxError error) => error.describe
  | unreadable .outOfFuel => "nesting is too deep"
  | unreadable .outOfRange => "part of the text is missing"

/-- Whether the advice is inconsistent in itself, as opposed to advice in a form that is not handled. -/
def isMalformedAdvice : MigrateError → Bool
  | mismatchedLocals .. | multipleWritableReturns .. | duplicateAdviceMethod ..
  | duplicateEnterBinding .. | duplicateLocal .. | enterBindingWithoutEnterMethod ..
  | invalidAnnotValue .. => true
  | unsupportedReturnPosition .. | missingBody .. | unreadable .. => false

end MigrateError

end AdviceMigration.Advice
