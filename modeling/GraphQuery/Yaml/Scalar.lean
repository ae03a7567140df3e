import GraphQuery.Yaml.Plain

namespace GraphQuery.Text

def base64Alphabet : Text := "ABCDEFGHIJKLMNOPQRSTUVWXYZabcdefghijklmnopqrstuvwxyz0123456789+/"

def base64Char (n : Nat) : UInt8 := base64Alphabet.getD (n % 64) 0

/-- Three bytes as four characters; what is missing of three bytes at the end is filled up with
equals signs. -/
def base64 : Text → Text
  | [] => []
  | [a] =>
    let n := a.toNat * 65536
    [base64Char (n / 262144), base64Char (n / 4096), '='.toUInt8, '='.toUInt8]
  | [a, b] =>
    let n := a.toNat * 65536 + b.toNat * 256
    [base64Char (n / 262144), base64Char (n / 4096), base64Char (n / 64), '='.toUInt8]
  | a :: b :: c :: rest =>
    let n := a.toNat * 65536 + b.toNat * 256 + c.toNat
    base64Char (n / 262144) :: base64Char (n / 4096) :: base64Char (n / 64) :: base64Char n ::
      base64 rest

end GraphQuery.Text

namespace GraphQuery.Yaml

/-- Numbers divided by colons, such as times of the day, which older versions of the format read as
one number. -/
def isSexagesimal (t : Text) : Bool :=
  let isDigitOrLine (b : UInt8) : Bool := Text.isDigit b || b = '_'.toUInt8
  let isSixtieth (part : Text) : Bool := isDigits part && part.length ≤ 2 && Text.toNat part < 60
  let isLast (part : Text) : Bool :=
    isSixtieth (part.takeWhile (· ≠ '.'.toUInt8)) &&
      ((part.dropWhile (· ≠ '.'.toUInt8)).drop 1).all isDigitOrLine
  match Text.splitAt ':'.toUInt8 (Text.unsigned t) with
  | first :: second :: rest =>
    first.head?.any Text.isDigit && first.all isDigitOrLine &&
      (second :: rest).dropLast.all isSixtieth && (second :: rest).getLast?.any isLast
  | _ => false

/-- Words that stand for truth values in older versions of the format. -/
def isOldTruth (t : Text) : Bool :=
  oneOf ["y", "Y", "yes", "Yes", "YES", "on", "On", "ON", "n", "N", "no", "No", "NO", "off", "Off",
    "OFF"] t

def readsOtherwise (t : Text) : Bool :=
  !(plainValue t).isText || isSexagesimal t || isOldTruth t

/-- A character that is written as itself; those outside the basic plane are not. -/
def isShown (c : Char) : Bool :=
  let n := c.toNat
  n = 10 || (0x20 ≤ n && n ≤ 0x7e) || (0xa0 ≤ n && n ≤ 0xfffd && n ≠ 0xfeff)

def isBreak (c : Char) : Bool :=
  let n := c.toNat
  n = 10 || n = 13 || n = 0x85 || n = 0x2028 || n = 0x2029

def chars (t : Text) : List Char := (Text.pieces t).filterMap (·.char?)

def hasPair (p q : Char → Bool) : List Char → Bool
  | c :: d :: rest => (p c && q d) || hasPair p q (d :: rest)
  | _ => false

def isSpace (c : Char) : Bool := c = ' '

def fitsSingle (cs : List Char) : Bool :=
  cs.all isShown && !hasPair isSpace isBreak cs && !hasPair isBreak isSpace cs

def fitsLines (cs : List Char) : Bool :=
  cs.all (fun c => isShown c || c = '\t') && !hasPair isSpace isBreak cs && !cs.getLast?.any isSpace

def indicators : List Char :=
  ['#', ',', '[', ']', '\x7b', '\x7d', '&', '*', '!', '|', '>', '\'', '"', '%', '@', '\x60']

/-- Whether the characters behind a start hold a colon before a blank or a number sign behind
one. -/
def hasMark (afterBlank : Bool) : List Char → Bool
  | [] => false
  | c :: rest =>
    let beforeBlank := rest.head?.all fun d => d = ' ' || d = '\t'
    (c = ':' && beforeBlank) || (c = '#' && afterBlank) || hasMark (c = ' ' || c = '\t') rest

def hasIndicator : List Char → Bool
  | [] => false
  | c :: rest =>
    let beforeBlank := rest.head?.all fun d => d = ' ' || d = '\t'
    let start := (c :: rest).take 3
    indicators.contains c || ((c = '?' || c = ':' || c = '-') && beforeBlank) ||
      hasMark false rest || start = ['-', '-', '-'] || start = ['.', '.', '.']

def fitsPlain (cs : List Char) : Bool :=
  fitsSingle cs && !cs.any isBreak && !cs.head?.any isSpace && !cs.getLast?.any isSpace &&
    !hasIndicator cs

inductive Style where
  | plain
  | single
  | double
  | lines
deriving DecidableEq

def style (t : Text) : Style :=
  let cs := chars t
  if cs.contains '\n' then if fitsLines cs then .lines else .double
  else if readsOtherwise t then .double
  else if fitsPlain cs then .plain
  else if fitsSingle cs then .single
  else .double

def blanks (n : Nat) : Text := List.replicate n ' '.toUInt8

/-- Characters between single quotes; after a break a line begins with its indentation. -/
def singleBody (indent : Nat) (broken : Bool) : List Char → Text
  | [] => []
  | c :: rest =>
    if isBreak c then c.toString ++ singleBody indent true rest
    else
      Text.when broken (blanks indent) ++ Text.when (c = '\'') "'" ++ c.toString ++
        singleBody indent false rest

def shortEscape (n : Nat) : Option Char :=
  (([(0, '0'), (7, 'a'), (8, 'b'), (9, 't'), (10, 'n'), (11, 'v'), (12, 'f'), (13, 'r'),
    (0x1b, 'e'), (0x22, '"'), (0x5c, '\\'), (0x85, 'N'), (0x2028, 'L'), (0x2029, 'P')] :
      List (Nat × Char)).find? (·.1 = n)).map (·.2)

def escaped (c : Char) : Text :=
  let n := c.toNat
  match shortEscape n with
  | some e => '\\'.toUInt8 :: [e.toUInt8]
  | none =>
    if isShown c then c.toString
    else
      let (mark, width) := if n ≤ 0xff then ('x', 2) else if n ≤ 0xffff then ('u', 4) else ('U', 8)
      '\\'.toUInt8 :: mark.toUInt8 :: (Text.hex width n).map Text.upperByte

/-- What stands behind the bar in front of lines: a sign of blanks at the start of the first line,
and a sign of how many breaks the text ends with, if not with one. -/
def lineHints (cs : List Char) : Text :=
  let start := Text.when (cs.head?.any fun c => isSpace c || isBreak c) "4"
  match cs.reverse with
  | last :: more =>
    if !isBreak last then start ++ "-"
    else if more.head?.all isBreak then start ++ "+"
    else start
  | [] => start ++ "-"

/-- Characters line by line. The first flag says whether the next character begins a line of the
text, and the second whether the line before it has been ended. -/
def lineBody (indent : Nat) (begins ended : Bool) : List Char → Text
  | [] => Text.when (!ended) "\n"
  | c :: rest =>
    if isBreak c then c.toString ++ lineBody indent true true rest
    else
      Text.when (begins && !ended) "\n" ++ Text.when begins (blanks indent) ++ c.toString ++
        lineBody indent false false rest

def styled (indent : Nat) (t : Text) : Style → Text
  | .plain => t ++ "\n"
  | .single => "'" ++ singleBody indent false (chars t) ++ "'\n"
  | .double => "\"" ++ (chars t).flatMap escaped ++ "\"\n"
  | .lines => "|" ++ lineHints (chars t) ++ lineBody indent true false (chars t)

def chunks (width : Nat) : Nat → Text → Text
  | _, [] => "\n"
  | 0, b :: rest => "\n" ++ b :: chunks width width rest
  | room + 1, b :: rest => b :: chunks width room rest

def binaryText (t : Text) : Text :=
  let encoded := Text.base64 t
  if encoded.length < 70 then encoded else chunks 69 70 encoded

/-- A text as a scalar with the end of its last line. Further lines are indented as given. -/
def scalar (indent : Nat) (t : Text) : Text :=
  if Text.isUtf8 t then styled indent t (style t)
  else
    let encoded := binaryText t
    "!!binary " ++ styled indent encoded (if encoded.contains '\n'.toUInt8 then .lines else .plain)

end GraphQuery.Yaml
