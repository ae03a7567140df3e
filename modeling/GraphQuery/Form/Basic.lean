import GraphQuery.Form.Token

namespace GraphQuery

inductive AtomClass where
  | bool
  | int
  | decimal
  | double
  | symbol
  | keyword
  | var
  | blank
deriving DecidableEq

inductive Form where
  | atom (pos : Position) (cls : AtomClass) (value : Text)
  | string (pos : Position) (value : Text) (note : Note)
  | iri (pos : Position) (value : Text)
  | group (pos : Position) (bracket : Bracket) (forms : List Form)

namespace Form

inductive Kind where
  | bool
  | int
  | decimal
  | double
  | string
  | symbol
  | keyword
  | var
  | blank
  | iri
  | list
  | vector
  | map
deriving DecidableEq

def Kind.all : List Kind :=
  [bool, int, decimal, double, string, symbol, keyword, var, blank, iri, list, vector, map]

def Kind.name : Kind → Text
  | bool => "bool"
  | int => "int"
  | decimal => "decimal"
  | double => "double"
  | string => "string"
  | symbol => "symbol"
  | keyword => "keyword"
  | var => "variable"
  | blank => "blank"
  | iri => "iri"
  | list => "list"
  | vector => "vector"
  | map => "map"

def Kind.numberedName (code : Int) : Text :=
  match code with
  | .ofNat n => (Kind.all[n]?.map name).getD ("NodeType(" ++ Text.ofInt code ++ ")")
  | .negSucc _ => "NodeType(" ++ Text.ofInt code ++ ")"

def kind : Form → Kind
  | atom _ .bool _ => .bool
  | atom _ .int _ => .int
  | atom _ .decimal _ => .decimal
  | atom _ .double _ => .double
  | atom _ .symbol _ => .symbol
  | atom _ .keyword _ => .keyword
  | atom _ .var _ => .var
  | atom _ .blank _ => .blank
  | string .. => .string
  | iri .. => .iri
  | group _ .round _ => .list
  | group _ .square _ => .vector
  | group _ .curly _ => .map

def pos : Form → Position
  | atom pos .. => pos
  | string pos .. => pos
  | iri pos _ => pos
  | group pos .. => pos

mutual

def text : Form → Text
  | atom _ _ value => value
  | string _ value note => Text.quote value ++ note.text
  | iri _ value => "<" ++ value ++ ">"
  | group _ bracket forms => bracket.opening :: (textList forms ++ [bracket.closing])

def textList : List Form → Text
  | [] => []
  | [f] => text f
  | f :: g :: rest => text f ++ " " ++ textList (g :: rest)

end

def isSymbol (name : Text) : Form → Bool
  | atom _ .symbol value => value = name
  | _ => false

def isKeyword (name : Text) : Form → Bool
  | atom _ .keyword value => value = name
  | _ => false

inductive ValueError where
  | notInteger (pos : Position) (got : Kind)
  | integerRange (value : Text)
  | notBoolean (pos : Position) (got : Kind)
deriving DecidableEq

def ValueError.message : ValueError → Text
  | notInteger pos got => "expected integer at " ++ pos.text ++ ", got " ++ got.name
  | integerRange value => "strconv.ParseInt: parsing " ++ Text.quote value ++ ": value out of range"
  | notBoolean pos got => "expected boolean at " ++ pos.text ++ ", got " ++ got.name

def isInt64 (i : Int) : Bool := -0x8000000000000000 ≤ i && i < 0x8000000000000000

def toInt : Form → Except ValueError Int
  | atom _ .int value =>
    if isInt64 (Text.toInt value) then .ok (Text.toInt value) else .error (.integerRange value)
  | f => .error (.notInteger f.pos f.kind)

def toBool : Form → Except ValueError Bool
  | atom _ .bool value => .ok (value = "true")
  | f => .error (.notBoolean f.pos f.kind)

end Form

end GraphQuery
