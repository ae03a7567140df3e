namespace GraphQuery

/-- A text is the sequence of its bytes, which need not be valid UTF-8. -/
abbrev Text := List UInt8

namespace Text

instance : LawfulBEq Text := inferInstance

def ofString (s : String) : Text := s.toUTF8.data.toList

instance : Coe String Text := ⟨ofString⟩

def digit (n : Nat) : UInt8 := '0'.toUInt8 + n.toUInt8

def ofNat (n : Nat) : Text :=
  if n < 10 then [digit n] else ofNat (n / 10) ++ [digit (n % 10)]

def ofInt : Int → Text
  | .ofNat n => ofNat n
  | .negSucc n => '-'.toUInt8 :: ofNat (n + 1)

def ofBool (b : Bool) : Text := if b then "true" else "false"

def when (b : Bool) (t : Text) : Text := if b then t else []

def ofOption {α : Type} (f : α → Text) : Option α → Text
  | none => []
  | some a => f a

def join (sep : Text) : List Text → Text
  | [] => []
  | [t] => t
  | t :: u :: rest => t ++ sep ++ join sep (u :: rest)

def spaced : List Text → Text
  | [] => []
  | t :: rest => ' '.toUInt8 :: (t ++ spaced rest)

def isDigit (b : UInt8) : Bool := '0'.toUInt8 ≤ b && b ≤ '9'.toUInt8

def isLetter (b : UInt8) : Bool :=
  ('A'.toUInt8 ≤ b && b ≤ 'Z'.toUInt8) || ('a'.toUInt8 ≤ b && b ≤ 'z'.toUInt8)

def toNat (digits : Text) : Nat :=
  digits.foldl (fun n b => 10 * n + (b - '0'.toUInt8).toNat) 0

def unsigned : Text → Text
  | [] => []
  | b :: rest => if b = '+'.toUInt8 || b = '-'.toUInt8 then rest else b :: rest

def toInt (t : Text) : Int :=
  if t.head? = some '-'.toUInt8 then -(toNat (unsigned t) : Int) else toNat (unsigned t)

def dropStart? : Text → Text → Option Text
  | [], t => some t
  | _ :: _, [] => none
  | a :: start, b :: t => if a = b then dropStart? start t else none

def trimStart (start t : Text) : Text := (dropStart? start t).getD t

/-- The parts of a text between the occurrences of a byte; there is always at least one. -/
def splitAt (sep : UInt8) : Text → List Text
  | [] => [[]]
  | b :: rest =>
    if b = sep then [] :: splitAt sep rest
    else match splitAt sep rest with
      | [] => [[b]]
      | part :: parts => (b :: part) :: parts

/-- The byte-wise order of texts, a beginning coming before what it begins. -/
def before : Text → Text → Bool
  | _, [] => false
  | [], _ :: _ => true
  | a :: s, b :: t => a < b || (a = b && before s t)

def lowerByte (b : UInt8) : UInt8 :=
  if 'A'.toUInt8 ≤ b && b ≤ 'Z'.toUInt8 then b + 32 else b

def upperByte (b : UInt8) : UInt8 :=
  if 'a'.toUInt8 ≤ b && b ≤ 'z'.toUInt8 then b - 32 else b

def lower (t : Text) : Text := t.map lowerByte

end Text

/-- The first occurrences of the members of a list, in order. -/
def unique {α : Type} [DecidableEq α] (xs : List α) : List α :=
  xs.foldl (fun seen x => if x ∈ seen then seen else seen ++ [x]) []

end GraphQuery
