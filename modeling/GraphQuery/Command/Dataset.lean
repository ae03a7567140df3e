import GraphQuery.Command.Fault
import GraphQuery.Plan.GraphTree
import GraphQuery.Vocabulary

namespace GraphQuery

structure CatalogView where
  defaultGraphs : Except Failure (List Text)
  namedGraphs : Except Failure (List Text)

structure Options where
  defaultGraphs : List Text := []
  namedGraphs : List Text := []
  fallback : Text := Vocabulary.defaultGraph
  /-- The graph of the facts about kinds of nodes. -/
  typeModel : Text := Vocabulary.typeGraph
  catalog : Option CatalogView := none

namespace Options

def withSystemGraphs (o : Options) : Options :=
  { o with
    fallback := if o.fallback.isEmpty then Vocabulary.defaultGraph else o.fallback
    typeModel := if o.typeModel.isEmpty then Vocabulary.typeGraph else o.typeModel }

def withGraphs (o : Options) (defaults named : List Text) : Options :=
  { o with defaultGraphs := defaults, namedGraphs := named }

def resolveDefault (o : Options) (q : Query) : Except CompileFault (List Text × GraphSource) :=
  if !o.defaultGraphs.isEmpty then .ok (unique o.defaultGraphs, .protocol)
  else if !q.graphs.isEmpty then .ok (unique q.graphs, .query)
  else match o.catalog with
    | none => .ok ([o.fallback], .fallback)
    | some view =>
      match view.defaultGraphs with
      | .error e => .error (.catalog e)
      | .ok [] => .ok ([o.fallback], .fallback)
      | .ok graphs => .ok (unique graphs, .catalog)

def resolveNamed (o : Options) (q : Query) : Except CompileFault (List Text) :=
  if !o.namedGraphs.isEmpty then .ok (unique o.namedGraphs)
  else if !q.namedGraphs.isEmpty then .ok (unique q.namedGraphs)
  else match o.catalog with
    | none => .ok []
    | some view => (view.namedGraphs.map unique).mapError .catalog

end Options

structure Dataset where
  graph : Option GraphTree
  named : List Text

def Options.dataset (o : Options) (q : Query) : Traced Dataset := do
  let (defaults, source) ← Traced.ofExcept (o.resolveDefault q)
  let named ← Traced.ofExcept (o.resolveNamed q)
  let graph := GraphTree.ofList? defaults
  Traced.report (.graphsResolved defaults.length named.length source
    ((graph.map GraphTree.depth).getD 0))
  return { graph, named }

end GraphQuery
