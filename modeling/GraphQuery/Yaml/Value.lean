import GraphQuery.Datum
import GraphQuery.Double.Digits
import GraphQuery.Text.Quoted
import GraphQuery.Timestamp

namespace GraphQuery.Yaml

inductive Value where
  | null
  | bool (value : Bool)
  | int (value : Int)
  | float (value : Double)
  | time (value : Timestamp)
  | text (value : Text)
  | list (items : List Value)
  | map (entries : List (Text × Value))
deriving Inhabited

namespace Value

def isText : Value → Bool
  | text _ => true
  | _ => false

/-- Numbers from here on have no sign. -/
def signedLimit : Int := 0x8000000000000000

def kindName : Value → Text
  | null => "invalid"
  | bool _ => "bool"
  | int value => if value < signedLimit then "int" else "uint64"
  | float _ => "float64"
  | time _ => "struct"
  | text _ => "string"
  | list _ => "slice"
  | map _ => "map"

def typeName : Value → Text
  | time _ => "time.Time"
  | list _ => "[]interface \x7b\x7d"
  | map _ => "map[string]interface \x7b\x7d"
  | v => kindName v

mutual

def render : Value → Text
  | null => "<nil>"
  | bool value => Text.ofBool value
  | int value => Text.ofInt value
  | float value => value.text
  | time value => value.text
  | text value => value
  | list items => "[" ++ Text.join " " (renderItems items) ++ "]"
  | map entries =>
    "map[" ++ Text.join " " ((renderEntries entries).map fun e => e.1 ++ ":" ++ e.2) ++ "]"

def renderItems : List Value → List Text
  | [] => []
  | v :: rest => render v :: renderItems rest

def renderEntries : List (Text × Value) → List (Text × Text)
  | [] => []
  | (k, v) :: rest => Datum.insertEntry (k, render v) (renderEntries rest)

end

def hexText (n : Nat) : Text :=
  let ds := (Text.hex 16 n).dropWhile (· = '0'.toUInt8)
  "0x" ++ (if ds.isEmpty then "0" else ds : Text)

def braced (parts : List Text) : Text := "\x7b" ++ Text.join ", " parts ++ "\x7d"

mutual

def literal : Value → Text
  | null => "interface \x7b\x7d(nil)"
  | bool value => Text.ofBool value
  | int value => if value < signedLimit then Text.ofInt value else hexText value.toNat
  | float value => value.text
  | time value => value.literal
  | text value => Text.quote value
  | list items => typeName (list []) ++ braced (literalItems items)
  | map entries =>
    typeName (map []) ++
      braced ((literalEntries entries).map fun e => Text.quote e.1 ++ ":" ++ e.2)

def literalItems : List Value → List Text
  | [] => []
  | v :: rest => literal v :: literalItems rest

def literalEntries : List (Text × Value) → List (Text × Text)
  | [] => []
  | (k, v) :: rest => Datum.insertEntry (k, literal v) (literalEntries rest)

end

mutual

def lowerKeys : Value → Value
  | list items => list (lowerItems items)
  | map entries => map (lowerEntries entries)
  | v => v

def lowerItems : List Value → List Value
  | [] => []
  | v :: rest => lowerKeys v :: lowerItems rest

def lowerEntries : List (Text × Value) → List (Text × Value)
  | [] => []
  | (k, v) :: rest => (Text.lower k, lowerKeys v) :: lowerEntries rest

end

end Value

end GraphQuery.Yaml
