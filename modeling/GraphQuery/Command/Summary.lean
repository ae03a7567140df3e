import GraphQuery.Command.Basic
import GraphQuery.Yaml.Scalar

namespace GraphQuery

structure Summary where
  kind : Text
  selection : List Text
  graphs : List Text
  graphDepth : Nat
  namedGraphs : List Text
  referencedGraphs : List Text
  plan : Text
  order : List Text
  limit : Option Int
  offset : Int
  distinct : Bool

def Command.summary (c : Command) : Summary :=
  { kind := c.kind.name
    selection := c.selection.map Selection.text
    graphs := c.graphs
    graphDepth := c.graphDepth
    namedGraphs := c.namedGraphs
    referencedGraphs := c.referencedGraphs
    plan := c.plan.text
    order := c.order.map Order.text
    limit := c.limit
    offset := c.offset
    distinct := c.distinct }

namespace Summary

def item (t : Text) : Text := "    - " ++ Yaml.scalar 6 t

def listEntry (key : Text) (items : List Text) : Text :=
  if items.isEmpty then key ++ ": []\n" else key ++ ":\n" ++ items.flatMap item

def textEntry (key : Text) (value : Text) : Text := key ++ ": " ++ Yaml.scalar 4 value

def entry (key : Text) (value : Text) : Text := key ++ ": " ++ value ++ "\n"

def filledList (key : Text) (items : List Text) : Text :=
  Text.when (!items.isEmpty) (listEntry key items)

/-- The outline as a document. What is empty or has its usual value is left out, but for the graphs
and the plan. -/
def yaml (s : Summary) : Text :=
  textEntry "kind" s.kind ++ filledList "selection" s.selection ++
    listEntry "graphs" s.graphs ++ entry "graph_depth" (Text.ofNat s.graphDepth) ++
    filledList "named_graphs" s.namedGraphs ++
    filledList "referenced_graphs" s.referencedGraphs ++
    textEntry "where" s.plan ++ filledList "order" s.order ++
    Text.ofOption (entry "limit" <| Text.ofInt ·) s.limit ++
    Text.when (s.offset ≠ 0) (entry "offset" (Text.ofInt s.offset)) ++
    Text.when s.distinct (entry "distinct" "true")

end Summary

end GraphQuery
