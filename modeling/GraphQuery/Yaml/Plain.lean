import GraphQuery.Yaml.Value

namespace GraphQuery.Yaml

def oneOf (words : List String) (t : Text) : Bool := words.any (Text.ofString · = t)

def digitValue? (b : UInt8) : Option Nat :=
  let l := Text.lowerByte b
  if Text.isDigit b then some (b - '0'.toUInt8).toNat
  else if 'a'.toUInt8 ≤ l && l ≤ 'z'.toUInt8 then some ((l - 'a'.toUInt8).toNat + 10)
  else none

def natIn? (base : Nat) (digits : Text) : Option Nat :=
  digits.foldl (fun n? b => do
    let n ← n?
    let d ← digitValue? b
    if d < base then some (base * n + d) else none) (some 0)

def markedBase? (b : UInt8) : Option Nat :=
  let l := Text.lowerByte b
  if l = 'b'.toUInt8 then some 2
  else if l = 'o'.toUInt8 then some 8
  else if l = 'x'.toUInt8 then some 16
  else none

/-- A whole number without a sign. A zero in front of a letter and digits says in which base these
are, and a zero in front of digits that the base is eight. -/
def magnitude? (t : Text) : Option Nat :=
  match t with
  | [] => none
  | b :: rest =>
    if b ≠ '0'.toUInt8 then natIn? 10 t
    else match rest with
      | mark :: d :: more =>
        match markedBase? mark with
        | some base => natIn? base (d :: more)
        | none => natIn? 8 rest
      | _ => natIn? 8 rest

def signedWhole? (sign : UInt8) (n : Nat) : Option Int :=
  if sign = '-'.toUInt8 then if n ≤ Nat.pow 2 63 then some (-n) else none
  else if n < Nat.pow 2 63 then some n else none

def isSign (b : UInt8) : Bool := b = '+'.toUInt8 || b = '-'.toUInt8

def whole? (t : Text) : Option Int :=
  match t with
  | [] => none
  | b :: rest =>
    if isSign b then magnitude? rest >>= signedWhole? b
    else do
      let n ← magnitude? t
      if n < Nat.pow 2 64 then some n else none

/-- A whole number in base two or eight with the sign behind the mark of the base. -/
def markedWhole? (t : Text) : Option Int :=
  match t with
  | zero :: mark :: sign :: d :: more =>
    if zero = '0'.toUInt8 && isSign sign then
      if mark = 'b'.toUInt8 then natIn? 2 (d :: more) >>= signedWhole? sign
      else if mark = 'o'.toUInt8 then natIn? 8 (d :: more) >>= signedWhole? sign
      else none
    else none
  | _ => none

def isDigits (t : Text) : Bool := !t.isEmpty && t.all Text.isDigit

def exponent? (t : Text) : Option Int :=
  match t with
  | [] => some 0
  | b :: rest =>
    if Text.lowerByte b = 'e'.toUInt8 && isDigits (Text.unsigned rest) then some (Text.toInt rest)
    else none

/-- The digits in front of and behind the point of a decimal number, and what follows them. A point
in front of which no digit stands has one behind it. -/
def mantissa? (t : Text) : Option (Text × Text × Text) :=
  let digits := t.takeWhile Text.isDigit
  match t.dropWhile Text.isDigit with
  | [] => if digits.isEmpty then none else some (digits, [], [])
  | b :: rest =>
    if b = '.'.toUInt8 then
      let behind := rest.takeWhile Text.isDigit
      if digits.isEmpty && behind.isEmpty then none
      else some (digits, behind, rest.dropWhile Text.isDigit)
    else if digits.isEmpty then none
    else some (digits, [], b :: rest)

def decimal? (t : Text) : Option Double := do
  let (front, behind, rest) ← mantissa? (Text.unsigned t)
  let exponent ← exponent? rest
  Double.ofDecimal? (t.head? = some '-'.toUInt8) (front ++ behind) (exponent - behind.length)

def areSeparators (afterDigit : Bool) : Text → Bool
  | [] => true
  | b :: rest =>
    if b = '_'.toUInt8 then
      afterDigit && rest.head?.any Text.isDigit && areSeparators false rest
    else areSeparators (Text.isDigit b) rest

def withoutLowLines (t : Text) : Text := t.filter (· ≠ '_'.toUInt8)

def namedNumber? (t : Text) : Option Double :=
  if oneOf [".nan", ".NaN", ".NAN"] t then some .notANumber
  else if oneOf [".inf", ".Inf", ".INF", "+.inf", "+.Inf", "+.INF"] t then some (.infinite false)
  else if oneOf ["-.inf", "-.Inf", "-.INF"] t then some (.infinite true)
  else none

/-- A point in time or a number that begins with a digit or a sign, in which low lines may stand
anywhere. -/
def numeral? (t : Text) : Option Value :=
  let bare := withoutLowLines t
  ((Timestamp.ofText? t).map Value.time).or <| ((whole? bare).map Value.int).or <|
    ((decimal? bare).map Value.float).or ((markedWhole? bare).map Value.int)

def plainValue (t : Text) : Value :=
  if oneOf ["", "~", "null", "Null", "NULL"] t then .null
  else if oneOf ["true", "True", "TRUE"] t then .bool true
  else if oneOf ["false", "False", "FALSE"] t then .bool false
  else match namedNumber? t with
    | some x => .float x
    | none =>
      let found := match t with
        | [] => none
        | b :: _ =>
          if b = '.'.toUInt8 then
            if areSeparators false t then (decimal? (withoutLowLines t)).map Value.float else none
          else if Text.isDigit b || isSign b then numeral? t
          else none
      found.getD (.text t)

end GraphQuery.Yaml
