import GraphQuery.Form.Basic

namespace GraphQuery.Atom

def isDigits (t : Text) : Bool := !t.isEmpty && t.all Text.isDigit

def isInteger (t : Text) : Bool := isDigits (Text.unsigned t)

def isDecimal (t : Text) : Bool :=
  match (Text.unsigned t).dropWhile Text.isDigit with
  | [] => false
  | b :: fraction => b = '.'.toUInt8 && isDigits fraction

/-- Digits with at most one point between or behind them, or a point and digits. -/
def isMantissa (t : Text) : Bool :=
  match t.dropWhile Text.isDigit with
  | [] => !t.isEmpty
  | b :: fraction =>
    b = '.'.toUInt8 && fraction.all Text.isDigit && (!fraction.isEmpty || t ≠ [b])

def isExponentMark (b : UInt8) : Bool := b = 'e'.toUInt8 || b = 'E'.toUInt8

def isDouble (t : Text) : Bool :=
  let u := Text.unsigned t
  match u.dropWhile (!isExponentMark ·) with
  | [] => false
  | _ :: exponent => isMantissa (u.takeWhile (!isExponentMark ·)) && isInteger exponent

def isNameStart (b : UInt8) : Bool := Text.isLetter b || b = '_'.toUInt8

def isNameByte (b : UInt8) : Bool := isNameStart b || Text.isDigit b || b = '-'.toUInt8

/-- A letter or underscore, then letters, digits, underscores and hyphens. -/
def isName : Text → Bool
  | [] => false
  | b :: rest => isNameStart b && rest.all isNameByte

inductive Fault where
  | keyword
  | var
  | blank
deriving DecidableEq

def classify (t : Text) : Except Fault AtomClass :=
  if t = "true" ∨ t = "false" then .ok .bool
  else if isInteger t then .ok .int
  else if isDecimal t then .ok .decimal
  else if isDouble t then .ok .double
  else if (Text.dropStart? ":" t).isSome then
    if t.length = 1 then .error .keyword else .ok .keyword
  else match Text.dropStart? "?" t with
    | some name => if isName name then .ok .var else .error .var
    | none =>
      match Text.dropStart? "_:" t with
      | some name => if isName name then .ok .blank else .error .blank
      | none => .ok .symbol

end GraphQuery.Atom
