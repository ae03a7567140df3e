import GraphQuery.Text

namespace GraphQuery.Text

/-- A piece of a decoded text: the bytes of one character, or one stray byte. -/
structure Piece where
  bytes : Text
  char? : Option Char
deriving DecidableEq

namespace Utf8

/-- The number of continuation bytes that a first byte asks for, with the bounds of the first of
them. -/
def lead? (b : UInt8) : Option (Nat × UInt8 × UInt8) :=
  if b < 0xC2 then none
  else if b < 0xE0 then some (1, 0x80, 0xBF)
  else if b = 0xE0 then some (2, 0xA0, 0xBF)
  else if b = 0xED then some (2, 0x80, 0x9F)
  else if b < 0xF0 then some (2, 0x80, 0xBF)
  else if b = 0xF0 then some (3, 0x90, 0xBF)
  else if b < 0xF4 then some (3, 0x80, 0xBF)
  else if b = 0xF4 then some (3, 0x80, 0x8F)
  else none

def leadBits (length : Nat) (b : UInt8) : Nat :=
  match length with
  | 1 => b.toNat % 32
  | 2 => b.toNat % 16
  | _ => b.toNat % 8

def tail? (b : UInt8) (rest : Text) : Option Text :=
  match lead? b with
  | none => none
  | some (n, low, high) =>
    match rest.take n with
    | [] => none
    | c :: more =>
      if low ≤ c && c ≤ high && more.all (fun d => 0x80 ≤ d && d ≤ 0xBF) && more.length + 1 = n
      then some (c :: more) else none

def first (b : UInt8) (rest : Text) : Piece :=
  if b < 0x80 then ⟨[b], some (Char.ofNat b.toNat)⟩
  else match tail? b rest with
    | none => ⟨[b], none⟩
    | some more =>
      ⟨b :: more,
        some (Char.ofNat (more.foldl (fun n c => 64 * n + c.toNat % 64) (leadBits more.length b)))⟩

def piecesAfter : Nat → Text → List Piece
  | _, [] => []
  | skip + 1, _ :: rest => piecesAfter skip rest
  | 0, b :: rest => first b rest :: piecesAfter ((first b rest).bytes.length - 1) rest

end Utf8

def pieces (t : Text) : List Piece := Utf8.piecesAfter 0 t

def isWithin (ranges : List (Nat × Nat)) (c : Char) : Bool :=
  ranges.any fun (low, high) => low ≤ c.toNat && c.toNat ≤ high

def isUtf8 (t : Text) : Bool := (pieces t).all (·.char?.isSome)

/-- The bytes that separate tokens: the white space among the first 256 characters. -/
def isBlankByte (b : UInt8) : Bool :=
  (9 ≤ b && b ≤ 13) || b = 32 || b = 0x85 || b = 0xA0

/-- The characters with the Unicode property White_Space. -/
def isBlankChar (c : Char) : Bool :=
  let n := c.toNat
  (9 ≤ n && n ≤ 13) || n = 0x20 || n = 0x85 || n = 0xA0 || n = 0x1680 ||
    (0x2000 ≤ n && n ≤ 0x200A) || n = 0x2028 || n = 0x2029 || n = 0x202F || n = 0x205F ||
    n = 0x3000

/-- A stray byte is never white space. -/
def Piece.isBlank (p : Piece) : Bool := p.char?.any isBlankChar

def isBlank (t : Text) : Bool := (pieces t).all Piece.isBlank

def trimBlank (t : Text) : Text :=
  let ps := (pieces t).dropWhile Piece.isBlank
  (ps.reverse.dropWhile Piece.isBlank).reverse.flatMap Piece.bytes

def wordsOf (word : Text) : List Piece → List Text
  | [] => if word.isEmpty then [] else [word]
  | p :: rest =>
    if p.isBlank then (if word.isEmpty then [] else [word]) ++ wordsOf [] rest
    else wordsOf (word ++ p.bytes) rest

def words (t : Text) : List Text := wordsOf [] (pieces t)

end GraphQuery.Text
