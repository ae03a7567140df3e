import GraphQuery.Failure
import GraphQuery.Query.Basic

namespace GraphQuery

/-- Where the default graphs of a query come from, the first that names any. -/
inductive GraphSource where
  | protocol
  | query
  | catalog
  | fallback
deriving DecidableEq

def GraphSource.name : GraphSource → Text
  | protocol => "protocol"
  | query => "query"
  | catalog => "catalog"
  | fallback => "fallback"

inductive Step where
  | invoked (kind : QueryKind) (query : Text)
  | graphsResolved (defaults named : Nat) (source : GraphSource) (depth : Nat)
  | whereMapped (vars iris : Nat)
  | namedGraphsBound (vars : List Text) (named : Nat)
  | whereSimplified (changed : Bool)
  | failed (cause : Failure)
  | completed (kind : QueryKind) (error : Option Text)

namespace Step

def failureName (cause : Failure) : Text :=
  if cause.isStructural then "error/compile.structural"
  else if cause.hasCode Code.catalogFailure.text then "error/compile.catalog"
  else "error/compile.unsupported"

def name : Step → Text
  | invoked .. => "compile/invoked"
  | graphsResolved .. => "compile/graphs.resolved"
  | whereMapped .. => "compile/where.mapped"
  | namedGraphsBound .. => "compile/named-graphs.bound"
  | whereSimplified _ => "compile/where.simplified"
  | failed cause => failureName cause
  | completed .. => "compile/completed"

def data : Step → Fields
  | invoked kind query => [("query.kind", .text kind.name), ("query", .text query)]
  | graphsResolved defaults named source depth =>
    [("default.count", .int defaults), ("named.count", .int named),
      ("source", .text source.name), ("union.depth", .int depth)]
  | whereMapped vars iris => [("graph.variables", .int vars), ("graph.iris", .int iris)]
  | namedGraphsBound vars named =>
    [("graph.variables", .list (vars.map .text)), ("named.count", .int named)]
  | whereSimplified changed => [("changed", .bool changed)]
  | failed cause => [("code", .text cause.code), ("error", .text cause.message)]
  | completed kind none => [("success", .bool true), ("query.kind", .text kind.name)]
  | completed kind (some error) =>
    [("success", .bool false), ("query.kind", .text kind.name), ("error", .text error)]

end Step

structure Event where
  name : Text
  compilation : Text := []
  /-- In nanoseconds. -/
  latency : Int := 0
  data : Fields := []

def Step.event (compilation : Text) (s : Step) : Event :=
  { name := s.name, compilation, data := s.data }

inductive Journal.Mode where
  | off
  | silent
  | listening
deriving DecidableEq

structure Journal where
  mode : Journal.Mode
  events : List Event := []
  passed : List Event := []

namespace Journal

def add (j : Journal) (e : Event) : Journal :=
  match j.mode with
  | .off => j
  | .silent => { j with events := j.events ++ [e] }
  | .listening => { j with events := j.events ++ [e], passed := j.passed ++ [e] }

def addAll (j : Journal) (es : List Event) : Journal := es.foldl add j

def reset (j : Journal) : Journal := { j with events := [] }

end Journal

end GraphQuery
