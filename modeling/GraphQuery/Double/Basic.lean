import GraphQuery.Text

namespace GraphQuery

inductive Double where
  | notANumber
  | infinite (negative : Bool)
  | finite (negative : Bool) (significand : Nat) (exponent : Int)
deriving DecidableEq

namespace Double

def isZero : Double → Bool
  | finite _ significand _ => significand = 0
  | _ => false

/-- The nearest integer to a quotient; a half goes to the even neighbour. -/
def roundDiv (num den : Nat) : Nat :=
  let q := num / den
  let r := 2 * (num % den)
  if r < den then q
  else if r > den then q + 1
  else if q % 2 = 0 then q else q + 1

def scaled (num den : Nat) (k : Int) : Nat × Nat :=
  (num * Nat.pow 2 k.toNat, den * Nat.pow 2 (-k).toNat)

def leastExponent : Int := -1074

def greatestExponent : Int := 971

/-- The significand and the exponent of the nearest number to a quotient. Their size has no upper
bound here. -/
def nearest (num den : Nat) : Nat × Int :=
  let guess : Int := (Nat.log2 num : Int) - Nat.log2 den - 52
  let (n, d) := scaled num den (-guess)
  let exponent := max (if n < d * Nat.pow 2 52 then guess - 1 else guess) leastExponent
  let (n, d) := scaled num den (-exponent)
  let significand := roundDiv n d
  if significand = Nat.pow 2 53 then (Nat.pow 2 52, exponent + 1) else (significand, exponent)

/-- The number nearest to decimal digits times a power of ten, unless it is too large. -/
def ofDecimal? (negative : Bool) (digits : Text) (exponent : Int) : Option Double :=
  let point := ((digits.dropWhile (· = '0'.toUInt8)).length : Int) + exponent
  if Text.toNat digits = 0 || point < -330 then some (finite negative 0 0)
  else if 310 < point then none
  else
    let (significand, e) :=
      nearest (Text.toNat digits * Nat.pow 10 exponent.toNat) (Nat.pow 10 (-exponent).toNat)
    if greatestExponent < e then none else some (finite negative significand e)

end Double

end GraphQuery
