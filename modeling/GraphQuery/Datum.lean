import GraphQuery.Text

namespace GraphQuery

inductive Datum where
  | null
  | bool (value : Bool)
  | int (value : Int)
  | text (value : Text)
  | list (items : List Datum)
  | map (entries : List (Text × Datum))
deriving Inhabited

namespace Datum

/-- Inserts an entry into entries that are ordered by key, before those with the same key. -/
def insertEntry (e : Text × Text) : List (Text × Text) → List (Text × Text)
  | [] => [e]
  | f :: rest => if Text.before f.1 e.1 then f :: insertEntry e rest else e :: f :: rest

mutual

def render : Datum → Text
  | null => "<nil>"
  | bool value => Text.ofBool value
  | int value => Text.ofInt value
  | text value => value
  | list items => "[" ++ Text.join " " (renderItems items) ++ "]"
  | map entries =>
    "map[" ++ Text.join " " ((renderEntries entries).map fun e => e.1 ++ ":" ++ e.2) ++ "]"

def renderItems : List Datum → List Text
  | [] => []
  | d :: rest => render d :: renderItems rest

def renderEntries : List (Text × Datum) → List (Text × Text)
  | [] => []
  | (k, d) :: rest => insertEntry (k, render d) (renderEntries rest)

end

def isNull : Datum → Bool
  | null => true
  | _ => false

end Datum

/-- Named values; of two with the same name the later one counts. -/
abbrev Fields := List (Text × Datum)

namespace Fields

def get (fs : Fields) (name : Text) : Datum :=
  ((fs.reverse.find? (·.1 = name)).map (·.2)).getD .null

end Fields

end GraphQuery
