import GraphQuery.Double.Basic

namespace GraphQuery.Double

def overTen (significand : Nat) (exponent g : Int) : Nat × Nat :=
  (significand * Nat.pow 2 exponent.toNat * Nat.pow 10 (-g).toNat,
    Nat.pow 2 (-exponent).toNat * Nat.pow 10 g.toNat)

/-- Whether `d` times a power of ten lies among the reals that are nearest to a number. The ends of
their interval belong to it if the significand is even, and below a power of two the next number is
half as far as above it. -/
def readsBack (significand : Nat) (exponent : Int) (d : Nat) (g : Int) : Bool :=
  let isNarrow := significand = Nat.pow 2 52 && leastExponent < exponent
  let low := if isNarrow then 4 * significand - 1 else 4 * significand - 2
  let edge (n : Nat) : Nat := n * Nat.pow 2 (exponent - 2).toNat * Nat.pow 10 (-g).toNat
  let point := d * Nat.pow 10 g.toNat * Nat.pow 2 (2 - exponent).toNat
  if significand % 2 = 0 then edge low ≤ point && point ≤ edge (4 * significand + 2)
  else edge low < point && point < edge (4 * significand + 2)

def multiple? (significand : Nat) (exponent g : Int) : Option Nat :=
  let (num, den) := overTen significand exponent g
  let below := num / den
  match readsBack significand exponent below g, readsBack significand exponent (below + 1) g with
  | true, true => some (roundDiv num den)
  | true, false => some below
  | false, true => some (below + 1)
  | false, false => none

/-- How many digits a number has in front of the point; a negative count is one of zeros behind
it. -/
def wholeDigits (significand : Nat) (exponent : Int) : Int :=
  let (num, den) := overTen significand exponent (-400)
  ((Text.ofNat (num / den)).length : Int) - 400

def shortest (significand : Nat) (exponent : Int) : Nat × Int :=
  let whole := wholeDigits significand exponent
  let found := (List.range 17).findSome? fun (n : Nat) =>
    let g := whole - 1 - n
    (multiple? significand exponent g).map fun d => (d, g)
  found.getD (significand * Nat.pow 2 exponent.toNat * Nat.pow 5 (-exponent).toNat, min exponent 0)

/-- The digits of a number without zeros at the end, and how many of them stand in front of the
point. -/
def digits (significand : Nat) (exponent : Int) : Text × Int :=
  if significand = 0 then ("0", 1)
  else
    let (d, g) := shortest significand exponent
    let t := Text.ofNat d
    ((t.reverse.dropWhile (· = '0'.toUInt8)).reverse, (t.length : Int) + g)

def zeros (n : Nat) : Text := List.replicate n '0'.toUInt8

def pointed (ds : Text) (point : Int) : Text :=
  if point ≤ 0 then "0." ++ zeros (-point).toNat ++ ds
  else if ds.length ≤ point.toNat then ds ++ zeros (point.toNat - ds.length)
  else ds.take point.toNat ++ "." ++ ds.drop point.toNat

def exponentText (e : Int) : Text :=
  let ds := Text.ofNat e.natAbs
  (if e < 0 then "-" else "+" : Text) ++ zeros (2 - ds.length) ++ ds

def exponential (ds : Text) (point : Int) : Text :=
  ds.take 1 ++ Text.when (1 < ds.length) ("." ++ ds.drop 1) ++ "e" ++ exponentText (point - 1)

def signText (negative : Bool) : Text := if negative then "-" else []

def textWith (layout : Text → Int → Text) : Double → Text
  | notANumber => "NaN"
  | infinite negative => if negative then "-Inf" else "+Inf"
  | finite negative significand exponent =>
    let (ds, point) := digits significand exponent
    signText negative ++ layout ds point

def positional : Double → Text := textWith pointed

/-- A number as it is shown to a reader, with an exponent if it is below a ten-thousandth or not
below a million. -/
def text : Double → Text :=
  textWith fun ds point =>
    if point < -3 || 6 < point then exponential ds point else pointed ds point

end GraphQuery.Double
