import GraphQuery.Text.Utf8
import GraphQuery.Text.Quoted

namespace GraphQuery

/-- A place in a text: a line and a byte of that line, both counted from one. -/
structure Position where
  line : Nat
  column : Nat
deriving DecidableEq

namespace Position

def start : Position := ⟨1, 1⟩

def next (p : Position) (b : UInt8) : Position :=
  if b = '\n'.toUInt8 then ⟨p.line + 1, 1⟩ else ⟨p.line, p.column + 1⟩

def after (p : Position) (t : Text) : Position := t.foldl next p

def text (p : Position) : Text := Text.ofNat p.line ++ ":" ++ Text.ofNat p.column

end Position

inductive Bracket where
  | round
  | square
  | curly
deriving DecidableEq

namespace Bracket

def opening : Bracket → UInt8
  | round => '('.toUInt8
  | square => '['.toUInt8
  | curly => '\x7b'.toUInt8

def closing : Bracket → UInt8
  | round => ')'.toUInt8
  | square => ']'.toUInt8
  | curly => '\x7d'.toUInt8

def ofOpening? (b : UInt8) : Option Bracket :=
  [round, square, curly].find? (·.opening = b)

def ofClosing? (b : UInt8) : Option Bracket :=
  [round, square, curly].find? (·.closing = b)

end Bracket

inductive Note where
  | none
  | language (tag : Text)
  | datatype (iri : Text)
deriving DecidableEq

namespace Note

/-- An empty datatype is no datatype. -/
def ofDatatype (iri : Text) : Note := if iri.isEmpty then none else datatype iri

def text : Note → Text
  | none => []
  | language tag => "@" ++ tag
  | datatype iri => "^^<" ++ iri ++ ">"

end Note

inductive Leaf where
  | string (value : Text) (note : Note)
  | atom (value : Text)
  | iri (value : Text)
deriving DecidableEq

inductive Lexeme where
  | leaf (leaf : Leaf)
  | opening (bracket : Bracket)
  | closing (bracket : Bracket)
deriving DecidableEq

structure Token where
  lexeme : Lexeme
  pos : Position
deriving DecidableEq

def Lexeme.showAt (place : Text) : Lexeme → Text
  | leaf (.string value _) => "String[" ++ place ++ "]:" ++ Text.quote value
  | leaf (.atom value) => "Atom[" ++ place ++ "]:" ++ value
  | leaf (.iri value) => "IRI[" ++ place ++ "]:<" ++ value ++ ">"
  | opening bracket => "Delim[" ++ place ++ "]:" ++ [bracket.opening]
  | closing bracket => "Delim[" ++ place ++ "]:" ++ [bracket.closing]

namespace Token

def text (t : Token) : Text := t.lexeme.showAt t.pos.text

def endText (place : Text) : Text := "EOF[" ++ place ++ "]"

/-- How a token is shown that is given by the number of its class; classes are numbered from the
end of the input over strings, atoms and IRIs to the six brackets. -/
def numberedText (code : Int) (value : Text) (line column : Int) : Text :=
  let place := Text.ofInt line ++ ":" ++ Text.ofInt column
  match code with
  | 0 => endText place
  | 1 => (Lexeme.leaf (.string value .none)).showAt place
  | 2 => (Lexeme.leaf (.atom value)).showAt place
  | 3 => (Lexeme.leaf (.iri value)).showAt place
  | 4 => (Lexeme.opening .round).showAt place
  | 5 => (Lexeme.closing .round).showAt place
  | 6 => (Lexeme.opening .square).showAt place
  | 7 => (Lexeme.closing .square).showAt place
  | 8 => (Lexeme.opening .curly).showAt place
  | 9 => (Lexeme.closing .curly).showAt place
  | _ => "Unknown[" ++ place ++ "]:" ++ value

end Token

end GraphQuery
