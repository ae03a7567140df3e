import GraphQuery.Term.Fault

namespace GraphQuery

inductive Element where
  /-- A variable by its name; a blank node is a variable named by its label. -/
  | var (name : Text)
  | iri (value : Text)
  /-- A literal; a language tag or datatype that it does not have is empty. -/
  | literal (lexical language datatype : Text)
  | node (id : Nat)
deriving DecidableEq

namespace Element

/-- A variable is written with a question mark unless its name is a blank node label. -/
def varText (name : Text) : Text :=
  if (Text.dropStart? "_:" name).isSome then name else "?" ++ name

def text : Element → Text
  | var name => varText name
  | iri value => "<" ++ value ++ ">"
  | literal lexical language datatype =>
    Text.quote lexical ++
      if language.isEmpty then
        Text.when (!datatype.isEmpty) ("^^" ++ Vocabulary.compact datatype)
      else "@" ++ language
  | node id => "#" ++ Text.ofNat id

def variant : Element → Text
  | var _ => "Variable"
  | iri _ => "URIReference"
  | literal .. => "Literal"
  | node _ => "LocalNode"

def typed (lexical datatype : Text) : Element := literal lexical [] datatype

/-- Whether two elements are there and denote the same. -/
def same : Option Element → Option Element → Bool
  | some a, some b => a = b
  | _, _ => false

/-- The element in a position of a triple; numbers and truth values become typed literals. -/
def ofExpression : Expression → Except MeaningFault Element
  | .var name => .ok (var name)
  | .blank label => .ok (var label)
  | .iri value => .ok (iri value)
  | .literal lexical language datatype => .ok (literal lexical language (datatype.getD []))
  | .int value => .ok (typed (Text.ofInt value) (Vocabulary.xsd "integer"))
  | .decimal lexical => .ok (typed lexical (Vocabulary.xsd "decimal"))
  | .double lexical => .ok (typed lexical (Vocabulary.xsd "double"))
  | .bool value => .ok (typed (Text.ofBool value) (Vocabulary.xsd "boolean"))
  | e => .error (.notElement e)

end Element

namespace Widening

def signed (v : Int) : List String :=
  (if -0x80000000 ≤ v ∧ v < 0x80000000 then ["int"] else []) ++
    (if -0x8000 ≤ v ∧ v < 0x8000 then ["short"] else []) ++
    if -0x80 ≤ v ∧ v < 0x80 then ["byte"] else []

def unsigned (v : Int) : List String :=
  ["unsignedLong"] ++ (if v < 0x100000000 then ["unsignedInt"] else []) ++
    (if v < 0x10000 then ["unsignedShort"] else []) ++ if v < 0x100 then ["unsignedByte"] else []

/-- The datatypes that go by the sign; zero is of no unsigned datatype. -/
def bySign (v : Int) : List String :=
  if v < 0 then ["nonPositiveInteger", "negativeInteger"]
  else if v = 0 then ["nonNegativeInteger", "nonPositiveInteger"]
  else ["nonNegativeInteger", "positiveInteger"] ++ unsigned v

def datatypes (v : Int) : List String := ["decimal", "integer", "long"] ++ signed v ++ bySign v

end Widening

def Element.widen (v : Int) : List Element :=
  (Widening.datatypes v).map fun d => typed (Text.ofInt v) (Vocabulary.xsd d)

end GraphQuery
