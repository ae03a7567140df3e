import GraphQuery.Text.Printable

namespace GraphQuery.Text

def hexDigit (n : Nat) : UInt8 :=
  if n < 10 then digit n else 'a'.toUInt8 + (n - 10).toUInt8

def hex : Nat → Nat → Text
  | 0, _ => []
  | width + 1, n => hex width (n / 16) ++ [hexDigit (n % 16)]

def shortEscape? (c : Char) : Option Text :=
  match c.toNat with
  | 7 => some "\\a"
  | 8 => some "\\b"
  | 9 => some "\\t"
  | 10 => some "\\n"
  | 11 => some "\\v"
  | 12 => some "\\f"
  | 13 => some "\\r"
  | _ => none

def numericEscape (c : Char) : Text :=
  if c.toNat < 0x80 then "\\x" ++ hex 2 c.toNat
  else if c.toNat < 0x10000 then "\\u" ++ hex 4 c.toNat
  else "\\U" ++ hex 8 c.toNat

def Piece.quoted (p : Piece) : Text :=
  match p.char? with
  | none => "\\x" ++ hex 2 ((p.bytes.head?.map UInt8.toNat).getD 0)
  | some c =>
    if c = '"' || c = '\\' then '\\'.toUInt8 :: p.bytes
    else if isPrintable c then p.bytes
    else (shortEscape? c).getD (numericEscape c)

def quote (t : Text) : Text :=
  '"'.toUInt8 :: ((pieces t).flatMap Piece.quoted ++ ['"'.toUInt8])

def quoteChar (c : Char) : Text :=
  let inner : Text :=
    if c = '\'' || c = '\\' then '\\'.toUInt8 :: [c.toUInt8]
    else if isPrintable c then c.toString
    else (shortEscape? c).getD (numericEscape c)
  '\''.toUInt8 :: (inner ++ ['\''.toUInt8])

end GraphQuery.Text
