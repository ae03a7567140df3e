import GraphQuery.Query.Operator
import GraphQuery.Text.Quoted
import GraphQuery.Vocabulary

namespace GraphQuery

inductive Term where
  | var (name : Text)
  | numeric (lexical datatype : Text)
  | bool (value : Bool)
  /-- A plain literal, with a language tag or an empty one. -/
  | simple (lexical language : Text)
  /-- A literal of a datatype that is neither numeric nor a truth value. -/
  | typed (lexical datatype : Text)
  | iri (value : Text)
  | arithmetic (op : ArithmeticOp) (left right : Term)
  /-- The negation of a numeric literal. -/
  | minus (lexical datatype : Text)
  | compare (op : CompareOp) (left right : Term)
  | not (operand : Term)
  | and (operands : List Term)
  | or (operands : List Term)
  /-- A built-in function with a truth value. -/
  | test (name : BuiltIn) (args : List Term)
  /-- A built-in function with any other value. -/
  | accessor (name : BuiltIn) (arg : Term)
  | cast (datatype : Text) (arg : Term)
  /-- A function that is known to the engine only. -/
  | external (function : Text) (args : List Term)

/-- The places in which a term may stand: as a condition, as an operand of arithmetic or of an
ordering, or as an argument. -/
inductive Facet where
  | filter
  | numeric
  | comparable
  | value
deriving DecidableEq

def Facet.name : Facet → Text
  | filter => "filter"
  | numeric => "numeric"
  | comparable => "comparable"
  | value => "value"

namespace Term

def facets : Term → List Facet
  | var _ | cast .. | external .. => [.filter, .numeric, .comparable, .value]
  | bool _ => [.filter, .comparable, .value]
  | numeric .. | arithmetic .. | minus .. => [.numeric, .comparable, .value]
  | simple .. | typed .. | iri _ | accessor .. => [.comparable, .value]
  | compare .. | not _ | and _ | or _ | test .. => [.filter]

def variant : Term → Text
  | var _ => "Var"
  | numeric .. => "NumericLiteral"
  | bool _ => "BooleanLiteral"
  | simple .. => "SimpleLiteral"
  | typed .. => "TypedLiteral"
  | iri _ => "IRI"
  | arithmetic .. => "Arithmetic"
  | minus .. => "Minus"
  | compare .. => "Comparison"
  | not _ => "Not"
  | and _ => "And"
  | or _ => "Or"
  | test .. => "Test"
  | accessor .. => "Accessor"
  | cast .. => "Cast"
  | external .. => "ExternalFn"

/-- The literals of the three plain numeric datatypes are written without quotes. -/
def numericText (lexical datatype : Text) : Text :=
  if datatype = Vocabulary.xsd "integer" ∨ datatype = Vocabulary.xsd "decimal" ∨
      datatype = Vocabulary.xsd "double" then lexical
  else Text.quote lexical ++ "^^" ++ Vocabulary.compact datatype

mutual

def text : Term → Text
  | var name => "?" ++ name
  | numeric lexical datatype => numericText lexical datatype
  | bool value => Text.ofBool value
  | simple lexical language =>
    Text.quote lexical ++ Text.when (!language.isEmpty) ("@" ++ language)
  | typed lexical datatype => Text.quote lexical ++ "^^" ++ Vocabulary.compact datatype
  | iri value => "<" ++ value ++ ">"
  | arithmetic op left right => "(" ++ op.name ++ " " ++ text left ++ " " ++ text right ++ ")"
  | minus lexical datatype => "(- " ++ numericText lexical datatype ++ ")"
  | compare op left right => "(" ++ op.name ++ " " ++ text left ++ " " ++ text right ++ ")"
  | not operand => "(not " ++ text operand ++ ")"
  | and operands => "(and" ++ textArgs operands ++ ")"
  | or operands => "(or" ++ textArgs operands ++ ")"
  | test name args => "(" ++ name.name ++ textArgs args ++ ")"
  | accessor name arg => "(" ++ name.name ++ " " ++ text arg ++ ")"
  | cast datatype arg => "(" ++ Vocabulary.compact datatype ++ " " ++ text arg ++ ")"
  | external function args => "(call <" ++ function ++ ">" ++ textArgs args ++ ")"

def textArgs : List Term → Text
  | [] => []
  | t :: rest => " " ++ text t ++ textArgs rest

end

def truth? (lexical : Text) : Option Bool :=
  if lexical = "true" ∨ lexical = "1" then some true
  else if lexical = "false" ∨ lexical = "0" then some false
  else none

/-- The term of a literal: its datatype decides the kind, unless it has a language tag. -/
def ofLiteral (lexical language datatype : Text) : Term :=
  if !language.isEmpty || datatype.isEmpty then simple lexical language
  else if Vocabulary.isNumeric datatype then numeric lexical datatype
  else if datatype = Vocabulary.xsd "boolean" then
    match truth? lexical with
    | some b => bool b
    | none => typed lexical datatype
  else typed lexical datatype

def isTrue : Term → Bool
  | bool true => true
  | _ => false

/-- Both conditions; the literal true adds nothing. -/
def conjoin (a b : Term) : Term :=
  if a.isTrue then b else if b.isTrue then a else and [a, b]

theorem isTrue_iff {t : Term} : t.isTrue = true ↔ t = bool true := by
  constructor
  · intro h
    cases t with
    | bool value =>
      cases value with
      | true => rfl
      | false => cases h
    | _ => cases h
  · intro h
    rw [h]
    rfl

theorem conjoin_true (t : Term) : t.conjoin (bool true) = t := by
  rw [conjoin]
  split
  · rename_i h
    exact (isTrue_iff.1 h).symm
  · rfl

end Term

end GraphQuery
