import GraphQuery.Failure
import GraphQuery.Form.Read
import GraphQuery.Query.Basic

namespace GraphQuery

inductive QueryFault where
  | notMap (got : Form.Kind)
  | manyHeads
  | noHead
  | headNotVector (kind : QueryKind)
  | keyNotKeyword
  | unknownClause (key : Text)
  | distinctNotBoolean
  | notIris
  | notIri (got : Form.Kind)
  | orderNotVector
  | notCount
  | notExpression (got : Form.Kind)
  | integerRange
  | noOperator
  | callWithoutIri
  | twoOperands (op : Text)
  | someOperands (op : Text)
  | oneOperand
  | unknownOperator (op : Text)
  | notPattern (got : Form.Kind)
  | noPatternName
  | emptyArguments
  | optionalArguments
  | triplesArgument
  | bindArguments
  | bindTarget
  | unknownPattern (name : Text)
  | tripleArguments
  | lateArgument
  | optionWithoutValue (key : Text)
  | unknownOption (key : Text)

def QueryFault.message : QueryFault → Text
  | notMap got => "query must be a map, got " ++ got.name
  | manyHeads => "query has more than one form"
  | noHead => "query requires one of :select, :construct, :describe or :ask"
  | headNotVector kind => ":" ++ kind.name ++ " must be followed by a vector"
  | keyNotKeyword => "query keys must be keywords"
  | unknownClause key => "unknown query clause " ++ key
  | distinctNotBoolean => ":distinct must be a boolean"
  | notIris => "expected an IRI or a vector of IRIs"
  | notIri got => "expected IRI, got " ++ got.name
  | orderNotVector => ":order-by must be followed by a vector"
  | notCount => "expected a non-negative integer"
  | notExpression got => "unexpected " ++ got.name ++ " in expression"
  | integerRange => "integer out of range"
  | noOperator => "expression form must start with an operator"
  | callWithoutIri => "call requires a function IRI"
  | twoOperands op => op ++ " takes exactly 2 operands"
  | someOperands op => op ++ " requires operands"
  | oneOperand => "not takes exactly 1 operand"
  | unknownOperator op => "unknown operator " ++ op
  | notPattern got => "expected pattern, got " ++ got.name
  | noPatternName => "pattern form must start with a symbol"
  | emptyArguments => "empty takes no patterns"
  | optionalArguments => "optional takes a main and an optional pattern"
  | triplesArgument => "triples takes only triple vectors"
  | bindArguments => "bind takes a pattern, a variable and an expression"
  | bindTarget => "bind target must be a variable"
  | unknownPattern name => "unknown pattern form " ++ name
  | tripleArguments => "triple must have subject, predicate and object"
  | lateArgument => "positional argument after pattern options"
  | optionWithoutValue key => key ++ " requires a value"
  | unknownOption key => "unknown pattern option " ++ key

inductive QueryError where
  | unreadable (cause : ReadError)
  | invalid (fault : QueryFault) (form : Form)

/-- A part at fault is shown with its place and in the notation. -/
def QueryError.failure : QueryError → Failure
  | unreadable cause => .wrap (.plain cause.message) .invalidQuery "EDN parse error"
  | invalid fault form =>
    .of .invalidQuery (fault.message ++ " at " ++ form.pos.text) [("expression", .text form.text)]

end GraphQuery
