import GraphQuery.Plan.Basic
import GraphQuery.Term.OfExpression

namespace GraphQuery

/-- A plan and the graph selectors in it, inner before outer and left to right. -/
structure Mapped where
  plan : Plan
  selectors : List Element

namespace Mapped

def graphVariables (m : Mapped) : List Text :=
  unique (m.selectors.filterMap fun
    | .var name => some name
    | _ => none)

def graphIris (m : Mapped) : List Text :=
  unique (m.selectors.filterMap fun
    | .iri value => some value
    | _ => none)

end Mapped

def Element.ofSelector : Expression → Except MeaningFault Element
  | .var name => .ok (.var name)
  | .iri value => .ok (.iri value)
  | e => .error (.notGraph e)

namespace Mapped

def filter (e? : Option Expression) (m : Mapped) : Except MeaningFault Mapped :=
  match e? with
  | none => .ok m
  | some e => e.toCondition.map fun c => ⟨.filtered m.plan c, m.selectors⟩

def select (e? : Option Expression) (m : Mapped) : Except MeaningFault Mapped :=
  match e? with
  | none => .ok m
  | some e => (Element.ofSelector e).map fun g => ⟨.within m.plan g, m.selectors ++ [g]⟩

def modify (modifiers : Modifiers) (m : Mapped) : Except MeaningFault Mapped :=
  match m.filter modifiers.filter with
  | .error e => .error e
  | .ok m => m.select modifiers.graph

end Mapped

namespace Plan

/-- A constraint, followed by its closure if its predicate is repeated. -/
def withPath (path : Path) (c : Constraint) : List Plan :=
  match path with
  | .star => [constraint c, closure c true]
  | .plus => [constraint c, closure c false]
  | .once | .other => [constraint c]

/-- The elements that an object may be: an integer may be of several datatypes. -/
def objects : Expression → Except MeaningFault (List Element)
  | .int value => .ok (Element.widen value)
  | e => (Element.ofExpression e).map ([·])

def ofTriple (t : TriplePattern) : Except MeaningFault Plan := do
  let subject ← Element.ofExpression t.subject
  let predicate ← Element.ofExpression t.predicate
  let objects ← objects t.object
  return any (objects.flatMap fun object => withPath t.path { subject, predicate, object })

/-- The join with an optional plan; the condition of a filtered one becomes that of the join. -/
def join (main : Plan) : Plan → Plan
  | filtered body condition => optional main body condition
  | extra => optional main extra (.bool true)

end Plan

def TriplePattern.toPlan (t : TriplePattern) : Except MeaningFault Mapped :=
  match Plan.ofTriple t with
  | .error e => .error e
  | .ok p => Mapped.modify t.modifiers ⟨p, []⟩

def TriplePattern.toPlans : List TriplePattern → Except MeaningFault (List Mapped)
  | [] => .ok []
  | t :: rest =>
    match t.toPlan with
    | .error e => .error e
    | .ok m => (TriplePattern.toPlans rest).map (m :: ·)

def Mapped.combine (build : List Plan → Plan) (ms : List Mapped) : Mapped :=
  ⟨build (ms.map (·.plan)), ms.flatMap (·.selectors)⟩

mutual

def Pattern.toPlan : Pattern → Except MeaningFault Mapped
  | .missing => .error .missingPattern
  | .empty m => Mapped.modify m ⟨.nothing, []⟩
  | .group ps m =>
    match Pattern.toPlans true ps with
    | .error e => .error e
    | .ok ms => (Mapped.combine .all ms).modify m
  | .union ps m =>
    match Pattern.toPlans false ps with
    | .error e => .error e
    | .ok ms => (Mapped.combine .any ms).modify m
  | .optional main extra m =>
    match Pattern.toPlan main with
    | .error e => .error e
    | .ok a =>
      match Pattern.toPlan extra with
      | .error e => .error e
      | .ok b => Mapped.modify m ⟨a.plan.join b.plan, a.selectors ++ b.selectors⟩
  | .triple t => t.toPlan
  | .triples ts m =>
    match TriplePattern.toPlans ts with
    | .error e => .error e
    | .ok ms => (Mapped.combine .all ms).modify m
  | .bind main var value m =>
    match Pattern.toPlan main with
    | .error e => .error e
    | .ok a =>
      match value.toTerm with
      | .error e => .error e
      | .ok t => Mapped.modify m ⟨.bind a.plan var t, a.selectors⟩

/-- The plans of patterns; empty patterns may be passed over. -/
def Pattern.toPlans (skipEmpty : Bool) : List Pattern → Except MeaningFault (List Mapped)
  | [] => .ok []
  | p :: rest =>
    if skipEmpty && p.isEmpty then Pattern.toPlans skipEmpty rest
    else match Pattern.toPlan p with
      | .error e => .error e
      | .ok m => (Pattern.toPlans skipEmpty rest).map (m :: ·)

end

end GraphQuery
