import GraphQuery.Text

namespace GraphQuery

inductive Zone where
  | universal
  | ahead (seconds : Int)
deriving DecidableEq

structure Timestamp where
  year : Nat
  month : Nat
  day : Nat
  hour : Nat := 0
  minute : Nat := 0
  second : Nat := 0
  nanosecond : Nat := 0
  zone : Zone := .universal
deriving DecidableEq

namespace Timestamp

def isLeapYear (year : Nat) : Bool := year % 4 = 0 && (year % 100 ≠ 0 || year % 400 = 0)

def daysIn (year month : Nat) : Nat :=
  if month = 2 then (if isLeapYear year then 29 else 28)
  else if month = 4 || month = 6 || month = 9 || month = 11 then 30
  else 31

def fixedNumber? (n : Nat) (t : Text) : Option (Nat × Text) :=
  if (t.take n).length = n && (t.take n).all Text.isDigit then
    some (Text.toNat (t.take n), t.drop n)
  else none

def number? (t : Text) : Option (Nat × Text) := (fixedNumber? 2 t).or (fixedNumber? 1 t)

def expect? (c : Char) (t : Text) : Option Text :=
  if t.head? = some c.toUInt8 then some (t.drop 1) else none

def date? (t : Text) : Option (Timestamp × Text) := do
  let (year, t) ← fixedNumber? 4 t
  let t ← expect? '-' t
  let (month, t) ← number? t
  let t ← expect? '-' t
  let (day, t) ← number? t
  guard (1 ≤ month && month ≤ 12 && 1 ≤ day && day ≤ daysIn year month)
  return ({ year, month, day }, t)

/-- The part of a second behind a point or a comma, in nanoseconds; there may be none. -/
def fraction (t : Text) : Nat × Text :=
  match t with
  | [] => (0, [])
  | b :: rest =>
    let ds := rest.takeWhile Text.isDigit
    if (b = '.'.toUInt8 || b = ','.toUInt8) && !ds.isEmpty then
      (Text.toNat (ds.take 9) * Nat.pow 10 (9 - ds.length), rest.dropWhile Text.isDigit)
    else (0, t)

def clock? (date : Timestamp) (t : Text) : Option (Timestamp × Text) := do
  let (hour, t) ← number? t
  let t ← expect? ':' t
  let (minute, t) ← number? t
  let t ← expect? ':' t
  let (second, t) ← number? t
  let (nanosecond, t) := fraction t
  guard (hour < 24 && minute < 60 && second < 60)
  return ({ date with hour, minute, second, nanosecond }, t)

def zone? (t : Text) : Option (Zone × Text) :=
  match t with
  | [] => none
  | b :: rest =>
    if b = 'Z'.toUInt8 then some (.universal, rest)
    else do
      let (hours, t) ← fixedNumber? 2 rest
      let t ← expect? ':' t
      let (minutes, t) ← fixedNumber? 2 t
      guard (hours ≤ 24 && minutes ≤ 60)
      let seconds : Int := 3600 * hours + 60 * minutes
      if b = '+'.toUInt8 then some (.ahead seconds, t)
      else if b = '-'.toUInt8 then some (.ahead (-seconds), t)
      else none

/-- A whole text as a date, as a date and a time behind blanks, or as a date and a time with a zone
behind the letter T. -/
def ofText? (t : Text) : Option Timestamp := do
  let (date, t) ← date? t
  match t with
  | [] => return date
  | b :: rest =>
    if b = ' '.toUInt8 then
      let (stamp, t) ← clock? date (rest.dropWhile (· = ' '.toUInt8))
      guard t.isEmpty
      return stamp
    else
      guard (Text.lowerByte b = 't'.toUInt8)
      let (stamp, t) ← clock? date rest
      let (zone, t) ← zone? t
      guard t.isEmpty
      return { stamp with zone }

def padded (width n : Nat) : Text :=
  let ds := Text.ofNat n
  List.replicate (width - ds.length) '0'.toUInt8 ++ ds

def fractionText (nanosecond : Nat) : Text :=
  if nanosecond = 0 then []
  else "." ++ ((padded 9 nanosecond).reverse.dropWhile (· = '0'.toUInt8)).reverse

def aheadText (seconds : Int) : Text :=
  let minutes := seconds.natAbs / 60
  (if seconds < 0 then "-" else "+" : Text) ++ padded 2 (minutes / 60) ++ padded 2 (minutes % 60)

def zoneText : Zone → Text
  | .universal => "+0000 UTC"
  | .ahead seconds =>
    aheadText seconds ++ " " ++ (if seconds = 0 then "UTC" else aheadText seconds : Text)

def text (s : Timestamp) : Text :=
  padded 4 s.year ++ "-" ++ padded 2 s.month ++ "-" ++ padded 2 s.day ++ " " ++ padded 2 s.hour ++
    ":" ++ padded 2 s.minute ++ ":" ++ padded 2 s.second ++ fractionText s.nanosecond ++ " " ++
    zoneText s.zone

def monthNames : List Text :=
  (["January", "February", "March", "April", "May", "June", "July", "August", "September",
    "October", "November", "December"] : List String).map Text.ofString

def zoneLiteral : Zone → Text
  | .universal => "time.UTC"
  | .ahead seconds => if seconds = 0 then "time.Local" else "time.Location(\"\")"

def literal (s : Timestamp) : Text :=
  "time.Date(" ++ Text.join ", "
    [Text.ofNat s.year, "time." ++ monthNames.getD (s.month - 1) [], Text.ofNat s.day,
      Text.ofNat s.hour, Text.ofNat s.minute, Text.ofNat s.second, Text.ofNat s.nanosecond,
      zoneLiteral s.zone] ++ ")"

end Timestamp

end GraphQuery
