import GraphQuery.Text

namespace GraphQuery

inductive Sign where
  | plus
  | minus
  | other (name : Text)
deriving DecidableEq

namespace Sign

def name : Sign → Text
  | plus => "+"
  | minus => "-"
  | other name => name

def known : List Sign := [plus, minus]

def ofName (t : Text) : Sign := (known.find? (·.name = t)).getD (other t)

end Sign

inductive ArithmeticOp where
  | add
  | subtract
  | multiply
  | divide
  | other (name : Text)
deriving DecidableEq

namespace ArithmeticOp

def name : ArithmeticOp → Text
  | add => "+"
  | subtract => "-"
  | multiply => "*"
  | divide => "/"
  | other name => name

def known : List ArithmeticOp := [add, subtract, multiply, divide]

def ofName? (t : Text) : Option ArithmeticOp := known.find? (·.name = t)

def ofName (t : Text) : ArithmeticOp := (ofName? t).getD (other t)

end ArithmeticOp

inductive CompareOp where
  | eq
  | ne
  | lt
  | le
  | gt
  | ge
  | other (name : Text)
deriving DecidableEq

namespace CompareOp

def name : CompareOp → Text
  | eq => "="
  | ne => "!="
  | lt => "<"
  | le => "<="
  | gt => ">"
  | ge => ">="
  | other name => name

def known : List CompareOp := [eq, ne, lt, le, gt, ge]

def ofName? (t : Text) : Option CompareOp := known.find? (·.name = t)

def ofName (t : Text) : CompareOp := (ofName? t).getD (other t)

end CompareOp

inductive LogicOp where
  | and
  | or
  | other (name : Text)
deriving DecidableEq

namespace LogicOp

def name : LogicOp → Text
  | and => "and"
  | or => "or"
  | other name => name

def known : List LogicOp := [and, or]

def ofName? (t : Text) : Option LogicOp := known.find? (·.name = t)

def ofName (t : Text) : LogicOp := (ofName? t).getD (other t)

end LogicOp

inductive BuiltIn where
  | bound
  | datatype
  | isBlank
  | isIri
  | isLiteral
  | isUri
  | lang
  | langMatches
  | regex
  | sameTerm
  | str
  | other (name : Text)
deriving DecidableEq

namespace BuiltIn

def name : BuiltIn → Text
  | bound => "bound"
  | datatype => "datatype"
  | isBlank => "isBlank"
  | isIri => "isIRI"
  | isLiteral => "isLiteral"
  | isUri => "isURI"
  | lang => "lang"
  | langMatches => "langMatches"
  | regex => "regex"
  | sameTerm => "sameTerm"
  | str => "str"
  | other name => name

def known : List BuiltIn :=
  [bound, datatype, isBlank, isIri, isLiteral, isUri, lang, langMatches, regex, sameTerm, str]

def ofName? (t : Text) : Option BuiltIn := known.find? (·.name = t)

def ofName (t : Text) : BuiltIn := (ofName? t).getD (other t)

end BuiltIn

end GraphQuery
