import GraphQuery.Yaml.Outline
import GraphQuery.Yaml.Plain

namespace GraphQuery.Yaml

def isHexDigit (b : UInt8) : Bool :=
  Text.isDigit b || ('a'.toUInt8 ≤ Text.lowerByte b && Text.lowerByte b ≤ 'f'.toUInt8)

def hexNat (digits : Text) : Nat :=
  let value (b : UInt8) : UInt8 :=
    if Text.isDigit b then b - '0'.toUInt8 else Text.lowerByte b - 'a'.toUInt8 + 10
  digits.foldl (fun n b => 16 * n + (value b).toNat) 0

def unescape? (b : UInt8) : Option Text :=
  (([('0', "\x00"), ('a', "\x07"), ('b', "\x08"), ('t', "\t"), ('n', "\n"), ('v', "\x0b"),
    ('f', "\x0c"), ('r', "\r"), ('e', "\x1b"), ('"', "\""), ('\'', "'"), ('\\', "\\"), (' ', " "),
    ('\t', "\t"),
    ('N', "\u0085"), ('_', "\u00a0"), ('L', "\u2028"), ('P', "\u2029")] :
      List (Char × String)).find? (·.1.toUInt8 = b)).map fun e => Text.ofString e.2

def escapeWidth (b : UInt8) : Nat :=
  if b = 'x'.toUInt8 then 2 else if b = 'u'.toUInt8 then 4 else if b = 'U'.toUInt8 then 8 else 0

/-- The text up to the closing double quote. The first argument counts the bytes that belong to the
escape sequence before them. -/
def doubleQuotedText : Nat → Text → Text
  | _, [] => []
  | skip + 1, _ :: rest => doubleQuotedText skip rest
  | 0, b :: rest =>
    if b = '"'.toUInt8 then []
    else if b = '\\'.toUInt8 then
      match rest with
      | [] => []
      | e :: more =>
        match unescape? e with
        | some t => t ++ doubleQuotedText 1 rest
        | none =>
          let width := escapeWidth e
          (Char.ofNat (hexNat (more.take width))).toString ++ doubleQuotedText (width + 1) rest
    else b :: doubleQuotedText 0 rest

def singleQuotedText : Text → Text
  | [] => []
  | [b] => if b = '\''.toUInt8 then [] else [b]
  | b :: c :: rest =>
    if b = '\''.toUInt8 then
      if c = '\''.toUInt8 then b :: singleQuotedText rest else []
    else b :: singleQuotedText (c :: rest)

def scalarValue (t : Text) : Value :=
  match t with
  | [] => .null
  | b :: rest =>
    if b = '"'.toUInt8 then .text (doubleQuotedText 0 rest)
    else if b = '\''.toUInt8 then .text (singleQuotedText rest)
    else plainValue t

def flowParts : List (UInt8 × Role) → List Text
  | [] => [[]]
  | (b, r) :: rest =>
    if b = ','.toUInt8 && r = .bare 1 then [] :: flowParts rest
    else match flowParts rest with
      | [] => [[b]]
      | part :: parts => (b :: part) :: parts

def inlineValue (t : Text) : Value :=
  if t = "\x7b\x7d" then .map []
  else if t.head? = some '['.toUInt8 && t.getLast? = some ']'.toUInt8 then
    let inner := trim (t.drop 1).dropLast
    if inner.isEmpty then .list []
    else .list ((flowParts (roles 1 .start inner)).map fun part => scalarValue (trim part))
  else scalarValue t

/-- The texts in front of and behind the first colon that ends a key. -/
def cutKey : List (UInt8 × Role) → Option (Text × Text)
  | [] => none
  | (b, r) :: rest =>
    if b = ':'.toUInt8 && r = .bare 0 && isBreathing (rest.map Prod.fst) then
      some ([], trim (rest.map Prod.fst))
    else (cutKey rest).map fun (key, value) => (b :: key, value)

def keyed? (t : Text) : Option (Text × Text) :=
  (cutKey (lineRoles t)).map fun (key, value) =>
    match scalarValue (trim key) with
    | .text name => (name, value)
    | _ => (trim key, value)

def Node.isItem (n : Node) : Bool := n.line.text = dash

def Node.isEntry (n : Node) : Bool := (keyed? n.line.text).isSome

/-- The value of lines beside each other: a list, a map or a scalar, as the first of them says. -/
def valueOf (nodes : List Node) (items : List Value) (entries : List (Text × Value)) : Value :=
  match nodes with
  | [] => .null
  | n :: _ =>
    if n.isItem then .list items
    else if n.isEntry then .map entries
    else inlineValue n.line.text

mutual

def items : List Node → List Value
  | [] => []
  | .mk line children :: rest =>
    if line.text = dash then valueOf children (items children) (entries children) :: items rest
    else []
termination_by nodes => sizeOf nodes
decreasing_by all_goals simp only [List.cons.sizeOf_spec, Node.mk.sizeOf_spec]; omega

/-- The entries among lines beside each other. A key with nothing behind or under it has the items
that follow it. -/
def entries : List Node → List (Text × Value)
  | [] => []
  | .mk line children :: rest =>
    match keyed? line.text with
    | none => entries rest
    | some (key, value) =>
      let here :=
        if !value.isEmpty then inlineValue value
        else if !children.isEmpty then valueOf children (items children) (entries children)
        else match items rest with
          | [] => .null
          | following => .list following
      (key, here) :: entries rest
termination_by nodes => sizeOf nodes
decreasing_by all_goals simp only [List.cons.sizeOf_spec, Node.mk.sizeOf_spec]; omega

end

inductive EscapeFault where
  | unknownLetter
  | noHexDigit
  | noCharacter

def EscapeFault.message : EscapeFault → Text
  | unknownLetter => "found unknown escape character"
  | noHexDigit => "did not find expected hexdecimal number"
  | noCharacter => "found invalid Unicode character escape code"

def escapeFaultOf (t : Text) : Option EscapeFault :=
  match t with
  | [] => none
  | b :: rest =>
    let digits := rest.take (escapeWidth b)
    if (unescape? b).isSome then none
    else if escapeWidth b = 0 then some .unknownLetter
    else if digits.length < escapeWidth b || !digits.all isHexDigit then some .noHexDigit
    else if (hexNat digits).isValidChar then none
    else some .noCharacter

def escapeFault? : List (UInt8 × Role) → Option EscapeFault
  | [] => none
  | (_, r) :: rest =>
    let here := if r = .escape then escapeFaultOf (rest.map Prod.fst) else none
    here.or (escapeFault? rest)

def syntaxFault? (ls : List Line) : Option (Nat × EscapeFault) :=
  ls.findSome? fun l => (escapeFault? (lineRoles l.text)).map (l.number, ·)

inductive DocumentFault where
  /-- The document is no map but a scalar or a list. -/
  | notMap (line : Nat) (value : Value) (text : Text)
  | repeatedKey (line first : Nat) (key : Text)

def repetitions (first : Nat) (key : Text) (nodes : List Node) : List DocumentFault :=
  nodes.filterMap fun n =>
    match keyed? n.line.text with
    | some (other, _) => if other = key then some (.repeatedKey n.line.number first key) else none
    | none => none

def repeatedHere : List Node → List DocumentFault
  | [] => []
  | n :: rest =>
    match keyed? n.line.text with
    | some (key, _) => repetitions n.line.number key rest ++ repeatedHere rest
    | none => repeatedHere rest

/-- The repeated keys of maps; in a map that repeats one of its keys no other map is looked at. -/
def repeatedKeys : List Node → List DocumentFault
  | [] => []
  | .mk _ children :: rest =>
    let under := match repeatedHere children with
      | [] => repeatedKeys children
      | found => found
    under ++ repeatedKeys rest

def shortened (t : Text) : Text := if 10 < t.length then t.take 7 ++ "..." else t

def tagName : Value → Text
  | .null => "!!null"
  | .bool _ => "!!bool"
  | .int _ => "!!int"
  | .float _ => "!!float"
  | .time _ => "!!timestamp"
  | .text _ => "!!str"
  | .list _ => "!!seq"
  | .map _ => "!!map"

def scalarText (text : Text) : Value → Text
  | .list _ | .map _ => []
  | .text value => " \x60" ++ shortened value ++ "\x60"
  | _ => " \x60" ++ shortened text ++ "\x60"

def DocumentFault.message : DocumentFault → Text
  | notMap line value text =>
    "line " ++ Text.ofNat line ++ ": cannot unmarshal " ++ tagName value ++ scalarText text value ++
      " into map[string]interface \x7b\x7d"
  | repeatedKey line first key =>
    "line " ++ Text.ofNat line ++ ": mapping key " ++ Text.quote key ++
      " already defined at line " ++ Text.ofNat first

inductive ReadError where
  | badSyntax (line : Nat) (fault : EscapeFault)
  | badValues (faults : List DocumentFault)

def ReadError.message : ReadError → Text
  | badSyntax line fault =>
    "yaml: " ++ Text.when (1 < line) ("line " ++ Text.ofNat line ++ ": ") ++ fault.message
  | badValues faults =>
    "yaml: unmarshal errors:\n  " ++ Text.join "\n  " (faults.map DocumentFault.message)

def readLines (ls : List Line) : Except (List DocumentFault) (List (Text × Value)) :=
  let nodes := outline ls
  match valueOf nodes (items nodes) (entries nodes) with
  | .map es =>
    match repeatedHere nodes with
    | [] => match repeatedKeys nodes with
      | [] => .ok es
      | found => .error found
    | found => .error found
  | .null => .ok []
  | value =>
    let line := nodes.head?.map (·.line)
    .error [.notMap ((line.map (·.number)).getD 1) value ((line.map (·.text)).getD [])]

def read (t : Text) : Except ReadError (List (Text × Value)) :=
  match syntaxFault? (lines t) with
  | some (line, fault) => .error (.badSyntax line fault)
  | none => (readLines (lines t)).mapError .badValues

end GraphQuery.Yaml
