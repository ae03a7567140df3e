import GraphQuery.Failure
import GraphQuery.Query.Pattern
import GraphQuery.Term.Basic

namespace GraphQuery

inductive MeaningFault where
  | missingExpression
  | unsupportedComparison (e : Expression)
  | unsupportedArithmetic (e : Expression)
  | unsupportedLogic (e : Expression)
  | unsupportedBuiltIn (e : Expression)
  /-- The operand was given a term without the facet that its place asks for. -/
  | lacksFacet (facet : Facet) (e : Expression) (term : Term)
  | notCondition (e : Expression) (term : Term)
  | notNegatable (e : Expression) (term : Term)
  | notVariable (e arg : Expression)
  | arity (e : Expression) (wanted : Text) (got : Nat)
  | missingPattern
  | notGraph (e : Expression)
  | notElement (e : Expression)

namespace MeaningFault

def code : MeaningFault → Code
  | missingExpression | unsupportedComparison _ | unsupportedArithmetic _ | unsupportedLogic _
  | unsupportedBuiltIn _ => .unsupportedExpression
  | lacksFacet .numeric _ _ => .nonNumericOperand
  | lacksFacet .filter _ _ => .nonBooleanOperand
  | lacksFacet .comparable _ _ => .nonComparableOperand
  | lacksFacet .value _ _ => .nonLiteralValue
  | notCondition .. => .malformedFilter
  | notNegatable .. => .cannotNegateNonLiteral
  | notVariable .. => .nonVariableOperand
  | arity .. => .wrongArity
  | missingPattern => .unsupportedPattern
  | notGraph _ | notElement _ => .unsupportedNode

def message : MeaningFault → Text
  | missingExpression => "missing expression"
  | unsupportedComparison _ => "unsupported comparison operator"
  | unsupportedArithmetic _ => "unsupported arithmetic operator"
  | unsupportedLogic _ => "unsupported logical operator"
  | unsupportedBuiltIn _ => "unsupported built-in"
  | lacksFacet .numeric _ _ => "operand is not numeric"
  | lacksFacet .filter _ _ => "operand is not boolean"
  | lacksFacet .comparable _ _ => "operand is not comparable"
  | lacksFacet .value _ _ => "operand is not a value"
  | notCondition .. => "filter is not boolean-valued"
  | notNegatable .. => "only numeric literals can be negated"
  | notVariable .. => "bound requires a variable"
  | arity _ wanted got => "expected " ++ wanted ++ " operands, got " ++ Text.ofNat got
  | missingPattern => "missing pattern"
  | notGraph _ => "GRAPH selector must be a variable or IRI"
  | notElement _ => "unsupported triple element"

end MeaningFault

def Expression.field (e : Expression) : Text × Datum := ("expression", .text e.text)

def Expression.variantField (e : Expression) : Text × Datum :=
  match e.variant? with
  | none => ("variant", .text "<nil>")
  | some name => ("variant", .text ("*cst." ++ name))

def Term.variantField (t : Term) : Text × Datum := ("variant", .text ("*filter." ++ t.variant))

namespace MeaningFault

def fields : MeaningFault → Fields
  | missingExpression | missingPattern => []
  | unsupportedComparison e | unsupportedArithmetic e | unsupportedLogic e | unsupportedBuiltIn e
  | arity e _ _ => [e.field]
  | lacksFacet _ e t | notCondition e t | notNegatable e t => [e.field, t.variantField]
  | notVariable e arg => [e.field, arg.variantField]
  | notGraph e | notElement e => [e.field, e.variantField]

def failure (f : MeaningFault) : Failure := .of f.code f.message f.fields

end MeaningFault

end GraphQuery
