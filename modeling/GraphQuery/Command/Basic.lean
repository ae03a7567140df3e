import GraphQuery.Plan.Basic
import GraphQuery.Plan.GraphTree
import GraphQuery.Query.Basic

namespace GraphQuery

/-- A projected position: a variable, or a constant that a variable stands for. -/
structure Selection where
  var : Text
  value : Option Element := none

def Selection.text (s : Selection) : Text :=
  match s.value with
  | none => Element.varText s.var
  | some value => "(" ++ Element.varText s.var ++ " " ++ value.text ++ ")"

structure Order where
  var : Text
  descending : Bool

def Order.text (o : Order) : Text :=
  if o.descending then "(desc " ++ Element.varText o.var ++ ")" else Element.varText o.var

inductive CommandKind where
  | select
  | construct
  | describe
  | ask
deriving DecidableEq

def CommandKind.name : CommandKind → Text
  | select => "select"
  | construct => "construct"
  | describe => "describe"
  | ask => "ask"

def CommandKind.variant : CommandKind → Text
  | select => "Select"
  | construct => "Construct"
  | describe => "Describe"
  | ask => "Ask"

def CommandKind.heading : CommandKind → Text
  | select => "SELECT"
  | construct => "CONSTRUCT"
  | describe => "DESCRIBE"
  | ask => "ASK"

structure Command where
  kind : CommandKind
  selection : List Selection
  graph : Option GraphTree
  namedGraphs : List Text
  /-- The IRIs that select graphs in the pattern, each once. -/
  referencedGraphs : List Text
  plan : Plan
  order : List Order
  limit : Option Int
  offset : Int
  distinct : Bool

namespace Command

def graphs (c : Command) : List Text := (c.graph.map GraphTree.toList).getD []

def graphDepth (c : Command) : Nat := (c.graph.map GraphTree.depth).getD 0

def iriText (iris : List Text) : Text := Text.join " " (iris.map fun iri => "<" ++ iri ++ ">")

def text (c : Command) : Text :=
  "(" ++ c.kind.name ++ " [" ++ Text.join " " (c.selection.map Selection.text) ++ "]" ++
    Text.when c.distinct "\n  :distinct true" ++
    Text.ofOption ("\n  :graph " ++ ·.text) c.graph ++
    Text.when (!c.namedGraphs.isEmpty) ("\n  :named [" ++ iriText c.namedGraphs ++ "]") ++
    Text.when (!c.referencedGraphs.isEmpty)
      ("\n  :referenced [" ++ iriText c.referencedGraphs ++ "]") ++
    "\n  :where " ++ c.plan.text ++
    Text.when (!c.order.isEmpty)
      ("\n  :order-by [" ++ Text.join " " (c.order.map Order.text) ++ "]") ++
    Text.ofOption ("\n  :limit " ++ Text.ofInt ·) c.limit ++
    Text.when (c.offset ≠ 0) ("\n  :offset " ++ Text.ofInt c.offset) ++ ")"

end Command

end GraphQuery
