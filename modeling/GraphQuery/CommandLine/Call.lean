import GraphQuery.CommandLine.Flag

namespace GraphQuery.Text

/-- The row of distances below another, which is `above :: row`, for one more byte; `left` is the
entry that comes before. -/
def nextRow (c : UInt8) (left above : Nat) : List Nat → Text → List Nat
  | up :: row, b :: t =>
    let here := if c = b then above else 1 + min above (min up left)
    here :: nextRow c here up row t
  | _, _ => []

def distanceRow (t : Text) (row : List Nat) : Text → List Nat
  | [] => row
  | c :: s =>
    match row with
    | [] => []
    | above :: rest => distanceRow t ((above + 1) :: nextRow c (above + 1) above rest t) s

def editDistance (s t : Text) : Nat :=
  ((distanceRow t (List.range (t.length + 1)) s).getLast?).getD 0

end GraphQuery.Text

namespace GraphQuery.CommandLine

inductive Verb where
  | root
  | compile
  | explain
  | catalog
  | listGraphs
  | setDefault
  | addNamed
  | removeNamed
  | help
  | completion
deriving DecidableEq

namespace Verb

def name : Verb → Text
  | root => "sparqlc"
  | compile => "compile"
  | explain => "explain"
  | catalog => "catalog"
  | listGraphs => "list"
  | setDefault => "set-default"
  | addNamed => "add-named"
  | removeNamed => "remove-named"
  | help => "help"
  | completion => "completion"

def children : Verb → List Verb
  | root => [compile, explain, catalog, help, completion]
  | catalog => [listGraphs, setDefault, addNamed, removeNamed]
  | _ => []

def path : Verb → Text
  | root => root.name
  | v => root.name ++ " " ++ Text.when (catalog.children.contains v) "catalog " ++ v.name

def child? (v : Verb) (word : Text) : Option Verb := v.children.find? (·.name = word)

def flags : Verb → List Flag
  | compile | explain => .file :: Flag.shared
  | _ => Flag.shared

/-- The commands that a wrong word may have meant: those it is the beginning of, and those it is
close to. -/
def similar (word : Text) : List Text :=
  ([compile, explain, catalog, completion].map name).filter fun candidate =>
    Text.editDistance (Text.lower word) candidate ≤ 2 ||
      (Text.dropStart? (Text.lower word) candidate).isSome

end Verb

/-- Whether an argument is a flag whose value is the next argument. A flag that is not known counts
as one. -/
def takesNext (known : List Flag) (argument : Text) : Bool :=
  !argument.contains '='.toUInt8 && match argument with
    | a :: b :: more =>
      a = '-'.toUInt8 &&
        if b = '-'.toUInt8 then !known.any fun f => f.isSwitch && f.name = more
        else more.isEmpty && !known.any fun f => f.isSwitch && f.letter? = some b
    | _ => false

def lookupFlags (v : Verb) : List Flag := v.flags.filter (· ≠ .help)

def isWord (argument : Text) : Bool :=
  !argument.isEmpty && argument.head? ≠ some '-'.toUInt8

/-- The arguments that are neither flags nor values of flags. A flag in front of the last argument
hides it. -/
def wordsOf (known : List Flag) : List Text → List Text
  | [] => []
  | argument :: rest =>
    if argument = "--" then []
    else if takesNext known argument then
      match rest with
      | [] | [_] => []
      | _ :: others => wordsOf known others
    else if isWord argument then argument :: wordsOf known rest
    else wordsOf known rest

/-- Removes the first occurrence of a word that is neither a flag nor the value of one. -/
def withoutWord (known : List Flag) (word : Text) : List Text → List Text
  | [] => []
  | argument :: rest =>
    if argument = "--" then argument :: rest
    else if takesNext known argument then
      match rest with
      | [] => [argument]
      | value :: others => argument :: value :: withoutWord known word others
    else if argument = word then rest
    else argument :: withoutWord known word rest

def descend (v : Verb) (arguments : List Text) : Verb × List Text :=
  match (wordsOf (lookupFlags v) arguments).head? with
  | none => (v, arguments)
  | some word =>
    match v.child? word with
    | none => (v, arguments)
    | some child => (child, withoutWord (lookupFlags v) word arguments)

structure Call where
  verb : Verb
  flags : Flags
  arguments : List Text

def checkCount (v : Verb) (arguments : List Text) : Except UsageError Unit :=
  match v with
  | .compile | .explain =>
    if 1 < arguments.length then .error (.tooManyArguments 1 arguments.length) else .ok ()
  | .listGraphs =>
    match arguments with
    | [] => .ok ()
    | word :: _ => .error (.unknownCommand word v.path [])
  | .setDefault | .addNamed | .removeNamed =>
    if arguments.isEmpty then .error (.tooFewArguments 1 0) else .ok ()
  | _ => .ok ()

/-- A call that asks for help does nothing else, and so does one without a command. -/
def Call.isHelp (c : Call) : Bool :=
  c.flags.help || c.verb = .root || c.verb = .catalog || c.verb = .help || c.verb = .completion

def readCall (arguments : List Text) : Except UsageError Call := do
  let (verb, arguments) := descend .root arguments
  let (verb, arguments) := descend verb arguments
  if verb = .root then
    match wordsOf (lookupFlags .root) arguments with
    | [] => pure ()
    | word :: _ => throw (.unknownCommand word verb.path (Verb.similar word))
  let (flags, arguments) ← readArguments verb.flags {} none arguments
  let call : Call := { verb, flags, arguments }
  if !call.isHelp then checkCount verb arguments
  return call

end GraphQuery.CommandLine
