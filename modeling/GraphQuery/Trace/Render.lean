import GraphQuery.Double.Basic
import GraphQuery.Text.Utf8
import GraphQuery.Trace.Step

namespace GraphQuery.Text

/-- The nearest number to a positive quotient in double precision, as a quotient. -/
def nearestBinary (num den : Nat) : Nat × Nat :=
  let (significand, exponent) := Double.nearest num den
  (significand * Nat.pow 2 exponent.toNat, Nat.pow 2 (-exponent).toNat)

def thousandths (n : Nat) : Text :=
  if n = 0 then "0.0"
  else
    let (a, b) := nearestBinary n 1
    let (num, den) := nearestBinary a (1000 * b)
    let tenths := Double.roundDiv (10 * num) den
    ofNat (tenths / 10) ++ "." ++ ofNat (tenths % 10)

end GraphQuery.Text

namespace GraphQuery

namespace Datum

mutual

def renderText : Datum → Text
  | null => "%!s(<nil>)"
  | bool value => "%!s(bool=" ++ Text.ofBool value ++ ")"
  | int value => "%!s(int=" ++ Text.ofInt value ++ ")"
  | text value => value
  | list items => "[" ++ Text.join " " (renderTextItems items) ++ "]"
  | map entries =>
    "map[" ++ Text.join " " ((renderTextEntries entries).map fun e => e.1 ++ ":" ++ e.2) ++ "]"

def renderTextItems : List Datum → List Text
  | [] => []
  | null :: rest => "<nil>" :: renderTextItems rest
  | d :: rest => renderText d :: renderTextItems rest

def renderTextEntries : List (Text × Datum) → List (Text × Text)
  | [] => []
  | (k, null) :: rest => insertEntry (k, "<nil>") (renderTextEntries rest)
  | (k, d) :: rest => insertEntry (k, renderText d) (renderTextEntries rest)

end

def isTrue : Datum → Bool
  | bool b => b
  | _ => false

end Datum

inductive Colour where
  | red
  | green
  | yellow
  | magenta
  | cyan

def Colour.code : Colour → Text
  | red => "31"
  | green => "32"
  | yellow => "33"
  | magenta => "35"
  | cyan => "36"

def Colour.paint (c : Colour) (wanted : Bool) (t : Text) : Text :=
  if wanted then "\x1b[" ++ c.code ++ "m" ++ t ++ "\x1b[0m" else t

namespace Event

def queryWidth : Nat := 80

def shortQuery (t : Text) : Text :=
  let line := Text.join " " (Text.words t)
  if line.length ≤ queryWidth then line else line.take (queryWidth - 3) ++ "..."

/-- Microseconds below a millisecond, and milliseconds with one decimal place from there on. -/
def latencyText (colour : Bool) (latency : Int) : Text :=
  let micros := latency.tdiv 1000
  if latency < 1000000 then
    Colour.green.paint colour ("[" ++ Text.ofInt micros ++ "µs]")
  else
    let c : Colour := if micros < 5000 then .green else if micros < 50000 then .yellow else .red
    c.paint colour ("[" ++ Text.thousandths micros.toNat ++ "ms]")

def countText (colour : Bool) (label : Text) (count : Datum) : Text :=
  Colour.magenta.paint colour (count.render ++ " " ++ label)

def message (colour : Bool) (e : Event) : Text :=
  let get (key : String) : Datum := e.data.get key
  if e.name = "compile/invoked" then
    Colour.yellow.paint colour "===" ++ " Compile " ++ e.compilation.take 8 ++ " " ++
      (get "query.kind").renderText ++ ": " ++ shortQuery (get "query").render
  else if e.name = "compile/where.mapped" then
    "Mapped WHERE with " ++ countText colour "graph variables" (get "graph.variables") ++
      " and " ++ countText colour "graph IRIs" (get "graph.iris")
  else if e.name = "compile/named-graphs.bound" then
    "Bound " ++ (get "graph.variables").render ++ " to " ++
      countText colour "named graphs" (get "named.count")
  else if e.name = "compile/where.simplified" then
    "Simplified WHERE" ++ Text.when (!(get "changed").isTrue) " (unchanged)"
  else if e.name = "compile/graphs.resolved" then
    "Resolved " ++ countText colour "default graphs" (get "default.count") ++ " from " ++
      Colour.cyan.paint colour (get "source").render ++ " (union depth " ++
      (get "union.depth").render ++ ")"
  else if e.name = "compile/completed" then
    if (get "success").isTrue then
      Colour.green.paint colour "===" ++ " Compile done: " ++ (get "query.kind").renderText ++
        " command"
    else Colour.red.paint colour "✗" ++ " Compile failed: " ++ (get "error").render
  else if e.name = "error/compile.structural" ∨ e.name = "error/compile.unsupported" ∨
      e.name = "error/compile.catalog" then
    Colour.red.paint colour "✗" ++ " " ++ Text.trimStart "error/" e.name ++ " [" ++
      (get "code").render ++ "]: " ++ (get "error").render
  else e.name ++ " " ++ (Datum.map e.data).render

def text (colour : Bool) (e : Event) : Text :=
  latencyText colour e.latency ++ " " ++ e.message colour

def line (e : Event) : Text := e.text false ++ "\n"

end Event

end GraphQuery
