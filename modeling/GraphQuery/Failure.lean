import GraphQuery.Failure.Chain

namespace GraphQuery

inductive Code where
  | nonNumericOperand
  | nonBooleanOperand
  | nonComparableOperand
  | nonLiteralValue
  | nonVariableOperand
  | cannotNegateNonLiteral
  | wrongArity
  | malformedFilter
  | malformedTemplate
  | illegalTemplateElement
  | illegalSelectionElement
  | unsupportedOrder
  | missingWhere
  | invalidQuery
  | unsupportedExpression
  | unsupportedPattern
  | unsupportedNode
  | unknownConstraint
  | unsupportedOperation
  | catalogFailure
  | configInvalid
deriving DecidableEq

/-- A code is written as a category, a component and a reason. -/
def Code.text : Code → Text
  | nonNumericOperand => "structural.expression.non_numeric_operand"
  | nonBooleanOperand => "structural.expression.non_boolean_operand"
  | nonComparableOperand => "structural.expression.non_comparable_operand"
  | nonLiteralValue => "structural.expression.non_literal_value"
  | nonVariableOperand => "structural.expression.non_variable_operand"
  | cannotNegateNonLiteral => "structural.expression.cannot_negate_non_literal"
  | wrongArity => "structural.expression.wrong_arity"
  | malformedFilter => "structural.filter.malformed"
  | malformedTemplate => "structural.construct.malformed_template"
  | illegalTemplateElement => "structural.construct.illegal_template_element"
  | illegalSelectionElement => "structural.select.illegal_selection_element"
  | unsupportedOrder => "structural.order.unsupported_expression"
  | missingWhere => "structural.query.missing_where"
  | invalidQuery => "structural.query.invalid"
  | unsupportedExpression => "unsupported.expression.variant"
  | unsupportedPattern => "unsupported.pattern.variant"
  | unsupportedNode => "unsupported.pattern.node"
  | unknownConstraint => "unsupported.constraint.variant"
  | unsupportedOperation => "unsupported.query.operation"
  | catalogFailure => "catalog.store.failure"
  | configInvalid => "config.load.invalid"

namespace Failure

def flatten (fields : Fields) : Fields := fields.filter fun field => !field.1.isEmpty

def new (code message : Text) (fields : Fields) : Failure :=
  coded (.text code) (flatten fields) message

/-- Where there is no failure, there is nothing to wrap. -/
def wrap? (cause? : Option Failure) (code message : Text) (fields : Fields) : Option Failure :=
  cause?.map (wrapped (.text code) (flatten fields) message)

def of (code : Code) (message : Text) (fields : Fields := []) : Failure :=
  new code.text message fields

def wrap (cause : Failure) (code : Code) (message : Text) (fields : Fields := []) : Failure :=
  wrapped (.text code.text) (flatten fields) message cause

def code (f : Failure) : Text :=
  match f.code? with
  | none => []
  | some code => code.render

def fields (f : Failure) : Fields := f.fields?.getD []

/-- The category of a code stands in front of its first point, unless that comes first. -/
def categoryOf (code : Text) : Text :=
  let category := code.takeWhile (· ≠ '.'.toUInt8)
  if category.isEmpty then code else category

def isStructural (f : Failure) : Bool := categoryOf f.code = "structural"

def isUnsupported (f : Failure) : Bool := categoryOf f.code = "unsupported"

def hasCode (f : Failure) (code : Text) : Bool := f.code = code

end Failure

end GraphQuery
