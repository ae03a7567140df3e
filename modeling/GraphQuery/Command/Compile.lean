import GraphQuery.Command.Basic
import GraphQuery.Command.Dataset
import GraphQuery.Plan.OfPattern
import GraphQuery.Plan.Simplify

namespace GraphQuery

namespace Compile

def graphBinding (named : List Text) (var : Text) : Plan :=
  .any (named.map fun g => .is var (.iri g) none)

/-- The plan of a pattern and the IRIs that select graphs in it. The variables that select graphs
are bound to the named graphs, if there are any. -/
def wherePlan (named : List Text) (p : Pattern) : Traced (Plan × List Text) := do
  let m ← Traced.ofExcept (p.toPlan.mapError .meaning)
  Traced.report (.whereMapped m.graphVariables.length m.graphIris.length)
  if named.isEmpty || m.graphVariables.isEmpty then return (m.plan, m.graphIris)
  let plan := m.graphVariables.foldl (fun plan v => .conj [plan, graphBinding named v]) m.plan
  Traced.report (.namedGraphsBound (m.graphVariables.map Element.varText) named.length)
  return (plan, m.graphIris)

def simplified (p : Plan) : Traced Plan := do
  let r := p.simplify
  Traced.report (.whereSimplified !r.sharing.isKept)
  return r.plan

def orderKey (k : OrderKey) : Except CompileFault Order :=
  match k.expression with
  | .var name => .ok ⟨name, k.descending⟩
  | e => .error (.notOrderable e)

def orderKeys (ks : List OrderKey) : Traced (List Order) := Traced.ofExcept (ks.mapM orderKey)

def placeholder (n : Nat) : Text := "_const" ++ Text.ofNat n

def command (q : Query) (kind : CommandKind) (dataset : Dataset) (plan : Plan)
    (referenced : List Text) (selection : List Selection) (order : List Order) : Command :=
  { kind, selection, graph := dataset.graph, namedGraphs := dataset.named,
    referencedGraphs := referenced, plan, order, limit := q.limit, offset := q.offset,
    distinct := q.distinct }

def projected (e : Expression) : Except CompileFault Selection :=
  match e with
  | .var name => .ok ⟨name, none⟩
  | e => .error (.notProjectable e)

def projection (q : Query) : Except CompileFault (List Selection) :=
  if q.selectAll then .ok (q.allVariables.map (⟨·, none⟩))
  else if q.selection.isEmpty then .error .emptySelection
  else q.selection.mapM projected

def select (o : Options) (q : Query) : Traced Command := do
  match q.pattern with
  | none => Traced.fail (.missingWhere q.kind)
  | some pattern =>
    let dataset ← o.dataset q
    let (plan, referenced) ← wherePlan dataset.named pattern
    let plan ← simplified plan
    let order ← orderKeys q.orderBy
    let selection ← Traced.ofExcept (projection q)
    return command q .select dataset plan referenced selection order

/-- The positions of a template; variables are projected, and placeholders stand for constants,
which are numbered from `n` on. -/
def templatePositions (n : Nat) : List Expression → Except CompileFault (List Selection)
  | [] => .ok []
  | .var name :: rest => (templatePositions n rest).map (⟨name, none⟩ :: ·)
  | .blank label :: rest => (templatePositions n rest).map (⟨label, none⟩ :: ·)
  | e :: rest =>
    match Element.ofExpression e with
    | .error _ => .error (.templateElement e)
    | .ok value => (templatePositions (n + 1) rest).map (⟨placeholder n, some value⟩ :: ·)

def construct (o : Options) (q : Query) : Traced Command := do
  match q.pattern with
  | none => Traced.fail (.missingWhere q.kind)
  | some pattern =>
    if q.template.length % 3 ≠ 0 then Traced.fail (.templateLength q.template.length)
    else
      let selection ← Traced.ofExcept (templatePositions 0 q.template)
      let dataset ← o.dataset q
      let (plan, referenced) ← wherePlan dataset.named pattern
      let plan ← simplified plan
      let order ← orderKeys q.orderBy
      return command q .construct dataset plan referenced selection order

/-- The subject of the triple that a description is made of. -/
def subjectName : Text := "_s"

def objectName : Text := "_o"

def aboutSubject : Plan :=
  .constraint { subject := .var subjectName, predicate := .var "_p", object := .var objectName }

/-- The object is a literal or an IRI, by the facts in the type model. -/
def notBlank (typeModel : Text) : Plan :=
  let ofType (cls : Text) : Plan := .constraint
    { subject := .var objectName, predicate := .iri Vocabulary.rdfType, object := .iri cls,
      graph := some (.iri typeModel) }
  .disj [ofType Vocabulary.rdfsLiteral, ofType Vocabulary.uriReference]

/-- The descriptions of elements, the constants among them numbered from `n` on. A variable takes
the place of the subject; an IRI is what the subject is. -/
def descriptions (base : Plan) (n : Nat) :
    List Expression → Except CompileFault (List (Selection × Plan))
  | [] => .ok []
  | .var name :: rest =>
    match base.rename subjectName name with
    | .error e => .error (.transform e)
    | .ok r => (descriptions base n rest).map ((⟨name, none⟩, r.plan) :: ·)
  | .iri value :: rest =>
    let plan := .conj [base, .is subjectName (.iri value) none]
    (descriptions base (n + 1) rest).map ((⟨placeholder n, some (.iri value)⟩, plan) :: ·)
  | e :: _ => .error (.notDescribable e)

/-- What is described: the listed elements, and all variables if they are asked for. -/
def described (q : Query) : List Expression :=
  q.selection ++ if q.selectAll then q.allVariables.map .var else []

/-- The plan that descriptions start from: the triples about the subject, joined to the pattern. -/
def describedPlan (named : List Text) (pattern? : Option Pattern) : Traced (Plan × List Text) :=
  match pattern? with
  | none => pure (aboutSubject, [])
  | some pattern => do
    let (plan, referenced) ← wherePlan named pattern
    return (.conj [plan, aboutSubject], referenced)

def describe (o : Options) (q : Query) : Traced Command := do
  if (described q).isEmpty then Traced.fail .nothingDescribed
  else
    let dataset ← o.dataset q
    let (base, referenced) ← describedPlan dataset.named q.pattern
    let parts ← Traced.ofExcept (descriptions base 0 (described q))
    let plan ← simplified (.any (parts.map fun part => .conj [part.2, notBlank o.typeModel]))
    return command q .describe dataset plan referenced (parts.map (·.1)) []

def ask (o : Options) (q : Query) : Traced Command := do
  match q.pattern with
  | none => Traced.fail (.missingWhere q.kind)
  | some pattern =>
    if pattern.isEmpty then Traced.fail (.missingWhere q.kind)
    else
      let dataset ← o.dataset q
      let (plan, referenced) ← wherePlan dataset.named pattern
      let plan ← simplified plan
      return command q .ask dataset plan referenced (q.allVariables.map (⟨·, none⟩)) []

def body (o : Options) (q : Query) : Traced Command :=
  match q.kind with
  | .select => select o q
  | .construct => construct o q
  | .describe => describe o q
  | .ask => ask o q
  | kind => Traced.fail (.unsupportedKind kind)

end Compile

def compile (o : Options) (q : Query) : Traced Command :=
  let r := Compile.body o q
  let ending : List Step := match r.result with
    | .ok _ => [.completed q.kind none]
    | .error e => [.failed e.failure, .completed q.kind (some e.failure.message)]
  ⟨.invoked q.kind q.text :: (r.steps ++ ending), r.result⟩

/-- The command of a query that may be missing; without one there are no steps. -/
def compile? (o : Options) : Option Query → Traced Command
  | none => Traced.fail .missingQuery
  | some q => compile o q

end GraphQuery
