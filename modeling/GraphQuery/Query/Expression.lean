import GraphQuery.Query.Operator
import GraphQuery.Text.Quoted

namespace GraphQuery

inductive Expression where
  /-- A place where an expression was left out. -/
  | missing
  | bool (value : Bool)
  | int (value : Int)
  | decimal (lexical : Text)
  | double (lexical : Text)
  /-- A variable by its name, without the question mark. -/
  | var (name : Text)
  /-- A blank node by its label, with the `_:` in front. -/
  | blank (label : Text)
  | literal (lexical : Text) (language : Text) (datatype : Option Text)
  | iri (value : Text)
  | call (function : Text) (args : List Expression)
  | signed (sign : Sign) (operand : Expression)
  | arithmetic (op : ArithmeticOp) (operands : List Expression)
  | compare (op : CompareOp) (left right : Expression)
  | not (operand : Expression)
  | logic (op : LogicOp) (operands : List Expression)
  | builtIn (name : BuiltIn) (args : List Expression)

namespace Expression

def variant? : Expression → Option Text
  | missing => none
  | bool _ => some "BooleanLiteral"
  | int _ => some "IntegerLiteral"
  | decimal _ => some "DecimalLiteral"
  | double _ => some "DoubleLiteral"
  | var _ => some "Variable"
  | blank _ => some "BlankNode"
  | literal .. => some "RDFLiteral"
  | iri _ => some "IRIReference"
  | call .. => some "FunctionCall"
  | signed .. => some "Unary"
  | arithmetic .. => some "Arithmetic"
  | compare .. => some "Relational"
  | not _ => some "Not"
  | logic .. => some "Logical"
  | builtIn .. => some "BuiltInCall"

mutual

def text : Expression → Text
  | missing => "<nil>"
  | bool value => Text.ofBool value
  | int value => Text.ofInt value
  | decimal lexical => lexical
  | double lexical => lexical
  | var name => "?" ++ name
  | blank label => label
  | literal lexical language datatype =>
    Text.quote lexical ++
      if language.isEmpty then Text.ofOption ("^^<" ++ · ++ ">") datatype else "@" ++ language
  | iri value => "<" ++ value ++ ">"
  | call function args => "(call <" ++ function ++ ">" ++ textArgs args ++ ")"
  | signed sign operand => "(" ++ sign.name ++ " " ++ text operand ++ ")"
  | arithmetic op operands => "(" ++ op.name ++ textArgs operands ++ ")"
  | compare op left right => "(" ++ op.name ++ " " ++ text left ++ " " ++ text right ++ ")"
  | not operand => "(not " ++ text operand ++ ")"
  | logic op operands => "(" ++ op.name ++ textArgs operands ++ ")"
  | builtIn name args => "(" ++ name.name ++ textArgs args ++ ")"

def textArgs : List Expression → Text
  | [] => []
  | e :: rest => " " ++ text e ++ textArgs rest

end

def textVector (es : List Expression) : Text := "[" ++ Text.join " " (es.map text) ++ "]"

end Expression

end GraphQuery
