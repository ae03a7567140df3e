import GraphQuery.Settings.Load
import GraphQuery.Text.Quoted
import GraphQuery.Text.Record

namespace GraphQuery.CommandLine

inductive UsageError where
  | unknownCommand (name path : Text) (similar : List Text)
  | unknownFlag (name : Text)
  /-- The first letter of a group of letters is no flag. -/
  | unknownLetter (letter : UInt8) (letters : Text)
  | missingValue (name : Text)
  | missingLetterValue (letter : UInt8) (letters : Text)
  | badSyntax (argument : Text)
  | badValue (value flag cause : Text)
  | tooManyArguments (most received : Nat)
  | tooFewArguments (least received : Nat)

namespace UsageError

def similarLine (name : Text) : Text := "\t" ++ name ++ "\n"

def letterText (b : UInt8) : Text := Text.quoteChar (Char.ofNat b.toNat)

def message : UsageError → Text
  | unknownCommand name path similar =>
    "unknown command " ++ Text.quote name ++ " for " ++ Text.quote path ++
      Text.when (!similar.isEmpty) ("\n\nDid you mean this?\n" ++ similar.flatMap similarLine)
  | unknownFlag name => "unknown flag: --" ++ name
  | unknownLetter letter letters =>
    "unknown shorthand flag: " ++ letterText letter ++ " in -" ++ letters
  | missingValue name => "flag needs an argument: --" ++ name
  | missingLetterValue letter letters =>
    "flag needs an argument: " ++ letterText letter ++ " in -" ++ letters
  | badSyntax argument => "bad flag syntax: " ++ argument
  | badValue value flag cause =>
    "invalid argument " ++ Text.quote value ++ " for " ++ Text.quote flag ++ " flag: " ++ cause
  | tooManyArguments most received =>
    "accepts at most " ++ Text.ofNat most ++ " arg(s), received " ++ Text.ofNat received
  | tooFewArguments least received =>
    "requires at least " ++ Text.ofNat least ++ " arg(s), only received " ++ Text.ofNat received

end UsageError

inductive Flag where
  | config
  | catalog
  | format
  | verbose
  | defaultGraph
  | namedGraph
  | file
  | help
deriving DecidableEq

namespace Flag

def name : Flag → Text
  | config => "config"
  | catalog => "catalog"
  | format => "format"
  | verbose => "verbose"
  | defaultGraph => "default-graph"
  | namedGraph => "named-graph"
  | file => "file"
  | help => "help"

def letter? : Flag → Option UInt8
  | verbose => some 'v'.toUInt8
  | file => some 'f'.toUInt8
  | help => some 'h'.toUInt8
  | _ => none

def isSwitch : Flag → Bool
  | verbose | help => true
  | _ => false

def text (f : Flag) : Text :=
  match f.letter? with
  | none => "--" ++ f.name
  | some b => "-" ++ [b] ++ ", --" ++ f.name

def shared : List Flag := [config, catalog, format, verbose, defaultGraph, namedGraph, help]

end Flag

structure Flags where
  config : Text := []
  catalog : Text := []
  format : Text := "text"
  verbose : Bool := false
  defaultGraphs : List Text := []
  namedGraphs : List Text := []
  file : Text := []
  help : Bool := false

namespace Flags

def truthOf (f : Flag) (value : Text) : Except UsageError Bool :=
  match Settings.truth? value with
  | some b => .ok b
  | none => .error (.badValue value f.text
      ("strconv.ParseBool: parsing " ++ Text.quote value ++ ": invalid syntax"))

def fieldsOf (f : Flag) (value : Text) : Except UsageError (List Text) :=
  (Text.record value).mapError fun e => .badValue value f.text e.message

/-- Gives a flag a value. Graphs are added to those before them; otherwise the last value counts. -/
def set (fs : Flags) (f : Flag) (value : Text) : Except UsageError Flags :=
  match f with
  | .config => .ok { fs with config := value }
  | .catalog => .ok { fs with catalog := value }
  | .format => .ok { fs with format := value }
  | .file => .ok { fs with file := value }
  | .verbose => (truthOf f value).map fun b => { fs with verbose := b }
  | .help => (truthOf f value).map fun b => { fs with help := b }
  | .defaultGraph =>
    (fieldsOf f value).map fun iris => { fs with defaultGraphs := fs.defaultGraphs ++ iris }
  | .namedGraph =>
    (fieldsOf f value).map fun iris => { fs with namedGraphs := fs.namedGraphs ++ iris }

end Flags

/-- A flag that waits for its value, and the letters it was written with, if it was. -/
structure Pending where
  flag : Flag
  letters : Option Text

def Pending.error (p : Pending) : UsageError :=
  match p.letters with
  | some (b :: rest) => .missingLetterValue b (b :: rest)
  | _ => .missingValue p.flag.name

/-- A group of letters that begins like this belongs to whatever tests the program, and is passed
over. -/
def testStart : Text := "test."

/-- Reads a group of letters; a flag that takes a value takes the rest of the group, if there is
one. -/
def readLetters (known : List Flag) (fs : Flags) :
    Text → Except UsageError (Flags × Option Pending)
  | [] => .ok (fs, none)
  | b :: rest =>
    if (Text.dropStart? testStart (b :: rest)).isSome then .ok (fs, none)
    else match known.find? (·.letter? = some b) with
    | none => .error (.unknownLetter b (b :: rest))
    | some f =>
      if rest.head? = some '='.toUInt8 && 1 < rest.length then
        (fs.set f (rest.drop 1)).map (·, none)
      else if f.isSwitch then
        match fs.set f "true" with
        | .error e => .error e
        | .ok fs => readLetters known fs rest
      else if rest.isEmpty then .ok (fs, some ⟨f, some [b]⟩)
      else (fs.set f rest).map (·, none)

def readName (known : List Flag) (fs : Flags) (t : Text) :
    Except UsageError (Flags × Option Pending) :=
  if t.head? = some '-'.toUInt8 || t.head? = some '='.toUInt8 then .error (.badSyntax ("--" ++ t))
  else
    let name := t.takeWhile (· ≠ '='.toUInt8)
    let value? := (t.dropWhile (· ≠ '='.toUInt8)).tail?
    match known.find? (·.name = name) with
    | none => .error (.unknownFlag name)
    | some f =>
      match value? with
      | some value => (fs.set f value).map (·, none)
      | none =>
        if f.isSwitch then (fs.set f "true").map (·, none)
        else .ok (fs, some ⟨f, none⟩)

/-- Reads flags and other arguments, in any order, up to two dashes on their own. -/
def readArguments (known : List Flag) (fs : Flags) :
    Option Pending → List Text → Except UsageError (Flags × List Text)
  | none, [] => .ok (fs, [])
  | some p, [] => .error p.error
  | some p, value :: rest =>
    match fs.set p.flag value with
    | .error e => .error e
    | .ok fs => readArguments known fs none rest
  | none, argument :: rest =>
    match argument with
    | [] => (readArguments known fs none rest).map fun (fs, others) => (fs, argument :: others)
    | [_] => (readArguments known fs none rest).map fun (fs, others) => (fs, argument :: others)
    | a :: b :: more =>
      if a ≠ '-'.toUInt8 then
        (readArguments known fs none rest).map fun (fs, others) => (fs, argument :: others)
      else if argument = "--" then .ok (fs, rest)
      else
        let read := if b = '-'.toUInt8 then readName known fs more
          else readLetters known fs (b :: more)
        match read with
        | .error e => .error e
        | .ok (fs, pending) => readArguments known fs pending rest

end GraphQuery.CommandLine
