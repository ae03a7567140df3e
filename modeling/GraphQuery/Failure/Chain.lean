import GraphQuery.Datum

namespace GraphQuery

/-- A failure as a caller sees it: a message, perhaps with a code and named values, in the context
of further messages, codes and values. -/
inductive Failure where
  | plain (message : Text)
  | context (message : Text) (cause : Failure)
  | coded (code : Datum) (fields : Fields) (message : Text)
  | wrapped (code : Datum) (fields : Fields) (message : Text) (cause : Failure)

namespace Failure

/-- Puts what may be a failure into the context of a message, which makes it one. -/
def inContext (message : Text) : Option Failure → Failure
  | none => plain (message ++ ": %!w(<nil>)")
  | some cause => context message cause

def message : Failure → Text
  | plain m => m
  | context m cause => m ++ ": " ++ message cause
  | coded _ _ m => m
  | wrapped _ _ m cause => if m.isEmpty then message cause else m ++ ": " ++ message cause

/-- The innermost code; a `null` does not count as long as there is another. -/
def code? : Failure → Option Datum
  | plain _ => none
  | context _ cause => code? cause
  | coded code _ _ => some code
  | wrapped code _ _ cause =>
    match code? cause with
    | none | some .null => some code
    | some inner => some inner

/-- The named values of all levels, the innermost last, so that it counts. -/
def fields? : Failure → Option Fields
  | plain _ => none
  | context _ cause => fields? cause
  | coded _ fields _ => some fields
  | wrapped _ fields _ cause => some (fields ++ (fields? cause).getD [])

end Failure

end GraphQuery
