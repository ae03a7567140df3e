import GraphQuery.Query.Pattern

namespace GraphQuery

inductive QueryKind where
  | select
  | construct
  | describe
  | ask
  | other (number : Int)
deriving DecidableEq

namespace QueryKind

def name : QueryKind → Text
  | select => "select"
  | construct => "construct"
  | describe => "describe"
  | ask => "ask"
  | other n => "QueryKind(" ++ Text.ofInt n ++ ")"

def ofNumber (n : Int) : QueryKind :=
  match n with
  | 0 => select
  | 1 => construct
  | 2 => describe
  | 3 => ask
  | _ => other n

end QueryKind

structure OrderKey where
  expression : Expression
  descending : Bool

def OrderKey.text (k : OrderKey) : Text :=
  if k.descending then "(desc " ++ k.expression.text ++ ")" else k.expression.text

structure Query where
  kind : QueryKind
  /-- What is projected or described, unless `selectAll` asks for all variables. -/
  selection : List Expression := []
  selectAll : Bool := false
  /-- The positions of a construction template, three to a triple. -/
  template : List Expression := []
  pattern : Option Pattern := none
  graphs : List Text := []
  namedGraphs : List Text := []
  orderBy : List OrderKey := []
  limit : Option Int := none
  offset : Int := 0
  distinct : Bool := false

namespace Query

/-- The variables that the pattern binds, in the order of their first appearance. -/
def allVariables (q : Query) : List Text :=
  match q.pattern with
  | none => []
  | some p => unique p.boundVars

def headText (q : Query) : Text :=
  if q.kind = .construct then Expression.textVector q.template
  else if q.selectAll then "*"
  else Expression.textVector q.selection

def iriVector (iris : List Text) : Text := Expression.textVector (iris.map .iri)

def text (q : Query) : Text :=
  "\x7b:" ++ q.kind.name ++ " " ++ q.headText ++
    Text.when q.distinct " :distinct true" ++
    Text.when (!q.graphs.isEmpty) (" :from " ++ iriVector q.graphs) ++
    Text.when (!q.namedGraphs.isEmpty) (" :from-named " ++ iriVector q.namedGraphs) ++
    Text.ofOption (" :where " ++ ·.text) q.pattern ++
    Text.when (!q.orderBy.isEmpty)
      (" :order-by [" ++ Text.join " " (q.orderBy.map OrderKey.text) ++ "]") ++
    Text.ofOption (" :limit " ++ Text.ofInt ·) q.limit ++
    Text.when (q.offset ≠ 0) (" :offset " ++ Text.ofInt q.offset) ++ "\x7d"

end Query

end GraphQuery
