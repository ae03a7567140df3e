import GraphQuery.Text

namespace GraphQuery.Text

/-- A place in a text; lines, and the bytes of a line, are counted from one. -/
structure RecordPlace where
  line : Nat
  column : Nat

inductive RecordFault where
  /-- A quote inside of a field that does not begin with one. -/
  | bareQuote
  /-- A quote too many or too few in a field that begins with one. -/
  | strayQuote

inductive RecordError where
  | malformed (start : Nat) (place : RecordPlace) (fault : RecordFault)
  | noRecord

def RecordFault.message : RecordFault → Text
  | bareQuote => "bare \" in non-quoted-field"
  | strayQuote => "extraneous or missing \" in quoted-field"

def RecordError.message : RecordError → Text
  | malformed start place fault =>
    when (start ≠ place.line) ("record on line " ++ ofNat start ++ "; ") ++
      "parse error on line " ++ ofNat place.line ++ ", column " ++ ofNat place.column ++ ": " ++
      fault.message
  | noRecord => "EOF"

inductive RecordState where
  | start
  | plain
  | quoted
  | quote

/-- A break of two characters becomes one of one, and a carriage return at the end of the text is
dropped. -/
def evenBreaks : Text → Text
  | [] => []
  | [b] => if b = '\r'.toUInt8 then [] else [b]
  | b :: c :: rest =>
    if b = '\r'.toUInt8 && c = '\n'.toUInt8 then evenBreaks (c :: rest)
    else b :: evenBreaks (c :: rest)

/-- The place behind a byte at the given place. A break that nothing follows begins no line. -/
def RecordPlace.next (p : RecordPlace) (b : UInt8) (rest : Text) : RecordPlace :=
  if b = '\n'.toUInt8 && !rest.isEmpty then ⟨p.line + 1, 1⟩ else { p with column := p.column + 1 }

/-- The fields of what remains of a record that begins on line `first`; `field` is what the current
one has so far. -/
def fieldsFrom (first : Nat) :
    RecordState → Text → RecordPlace → Text → Except RecordError (List Text)
  | .start, field, _, [] => .ok [field]
  | .plain, field, _, [] => .ok [field]
  | .quote, field, _, [] => .ok [field]
  | .quoted, _, place, [] => .error (.malformed first place .strayQuote)
  | state, field, place, b :: rest =>
    let isQuote := b = '"'.toUInt8
    let isComma := b = ','.toUInt8
    let isEnd := b = '\n'.toUInt8
    let behind := place.next b rest
    match state with
    | .quoted =>
      if isQuote then fieldsFrom first .quote field behind rest
      else fieldsFrom first .quoted (field ++ [b]) behind rest
    | .quote =>
      if isQuote then fieldsFrom first .quoted (field ++ [b]) behind rest
      else if isComma then (fieldsFrom first .start [] behind rest).map (field :: ·)
      else if isEnd then .ok [field]
      else .error (.malformed first { place with column := place.column - 1 } .strayQuote)
    | .plain =>
      if isQuote then .error (.malformed first place .bareQuote)
      else if isComma then (fieldsFrom first .start [] behind rest).map (field :: ·)
      else if isEnd then .ok [field]
      else fieldsFrom first .plain (field ++ [b]) behind rest
    | .start =>
      if isQuote then fieldsFrom first .quoted [] behind rest
      else if isComma then (fieldsFrom first .start [] behind rest).map (field :: ·)
      else if isEnd then .ok [field]
      else fieldsFrom first .plain [b] behind rest

def record (t : Text) : Except RecordError (List Text) :=
  if t.isEmpty then .ok []
  else
    let even := evenBreaks t
    let emptyLines := even.takeWhile (· = '\n'.toUInt8)
    match even.drop emptyLines.length with
    | [] => .error .noRecord
    | rest =>
      let first := emptyLines.length + 1
      fieldsFrom first .start [] ⟨first, 1⟩ rest

end GraphQuery.Text
