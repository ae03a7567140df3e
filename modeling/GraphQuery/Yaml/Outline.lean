import GraphQuery.Text

namespace GraphQuery.Yaml

def isBlank (b : UInt8) : Bool := b = ' '.toUInt8 || b = '\t'.toUInt8 || b = '\r'.toUInt8

def isBreathing (t : Text) : Bool := t.head?.all isBlank

def trimEnd (t : Text) : Text := (t.reverse.dropWhile isBlank).reverse

def trim (t : Text) : Text := trimEnd (t.dropWhile isBlank)

/-- What a byte of a line belongs to. -/
inductive Role where
  | bare (depth : Nat)
  | quoted
  | escape
deriving DecidableEq

inductive Within where
  | start
  | plain
  | double
  | escaped
  | single
  /-- Behind a single quote that ends a scalar, unless another one follows. -/
  | closing
deriving DecidableEq

/-- What follows a byte outside of quotes: the number of brackets around it and whether a scalar may
begin there. -/
def bareStep (depth : Nat) (state : Within) (b : UInt8) (rest : Text) : Nat × Within :=
  if b = ':'.toUInt8 && isBreathing rest then (depth, .start)
  else if 0 < depth && b = ','.toUInt8 then (depth, .start)
  else if 0 < depth && (b = ']'.toUInt8 || b = '\x7d'.toUInt8) then (depth - 1, .plain)
  else if state = .start then
    if isBlank b || (b = '-'.toUInt8 && isBreathing rest) then (depth, .start)
    else if b = '['.toUInt8 || b = '\x7b'.toUInt8 then (depth + 1, .start)
    else (depth, .plain)
  else (depth, .plain)

/-- The bytes of a line with their roles. Quotes count only where a scalar begins. -/
def roles (depth : Nat) : Within → Text → List (UInt8 × Role)
  | _, [] => []
  | .double, b :: rest =>
    if b = '\\'.toUInt8 then (b, .escape) :: roles depth .escaped rest
    else if b = '"'.toUInt8 then (b, .quoted) :: roles depth .plain rest
    else (b, .quoted) :: roles depth .double rest
  | .escaped, b :: rest => (b, .quoted) :: roles depth .double rest
  | .single, b :: rest =>
    if b = '\''.toUInt8 then (b, .quoted) :: roles depth .closing rest
    else (b, .quoted) :: roles depth .single rest
  | state, b :: rest =>
    if state = .closing && b = '\''.toUInt8 then (b, .quoted) :: roles depth .single rest
    else if state = .start && b = '"'.toUInt8 then (b, .quoted) :: roles depth .double rest
    else if state = .start && b = '\''.toUInt8 then (b, .quoted) :: roles depth .single rest
    else
      let (inner, next) := bareStep depth state b rest
      (b, .bare depth) :: roles inner next rest

def lineRoles (t : Text) : List (UInt8 × Role) := roles 0 .start t

/-- What stands in front of a comment. A number sign outside of quotes begins one at the start of a
line and behind a blank. -/
def beforeComment (afterBlank : Bool) : List (UInt8 × Role) → List (UInt8 × Role)
  | [] => []
  | (b, r) :: rest =>
    let isBare := r ≠ .quoted && r ≠ .escape
    if isBare && afterBlank && b = '#'.toUInt8 then []
    else (b, r) :: beforeComment (isBare && isBlank b) rest

def withoutComment (t : Text) : Text := (beforeComment true (lineRoles t)).map Prod.fst

structure Line where
  /-- Counted from one. -/
  number : Nat
  indent : Nat
  text : Text

inductive Node where
  | mk (line : Line) (children : List Node)

def Node.line : Node → Line
  | mk line _ => line

def dash : Text := "-"

def dashedLines (number indent : Nat) : Text → List Line
  | [] => []
  | b :: rest =>
    if isBlank b then dashedLines number (indent + 1) rest
    else if b = '-'.toUInt8 && isBreathing rest then
      ⟨number, indent, dash⟩ :: dashedLines number (indent + 1) rest
    else [⟨number, indent, b :: rest⟩]

/-- The lines that say something, with their numbers from `n` on. -/
def linesFrom (n : Nat) : List Text → List Line
  | [] => []
  | raw :: rest =>
    let content := trimEnd (withoutComment raw)
    (if content = "---" then [] else dashedLines n 0 content) ++ linesFrom (n + 1) rest

def lines (t : Text) : List Line := linesFrom 1 (Text.splitAt '\n'.toUInt8 t)

def outline : List Line → List Node
  | [] => []
  | l :: rest =>
    let nodes := outline rest
    let isUnder (n : Node) : Bool := l.indent < n.line.indent
    .mk l (nodes.takeWhile isUnder) :: nodes.dropWhile isUnder

end GraphQuery.Yaml
