import GraphQuery.Plan.Element

namespace GraphQuery

/-- A triple, in a graph of its own if there is one. -/
structure Constraint where
  subject : Element
  predicate : Element
  object : Element
  graph : Option Element := none
deriving DecidableEq

inductive Plan where
  /-- A place where a plan was left out. -/
  | missing
  | constraint (c : Constraint)
  /-- The variable has the value. -/
  | is (var : Text) (value : Element) (graph : Option Element)
  /-- The closure of a step between its subject and its object; `zero` includes no step at all. -/
  | closure (step : Constraint) (zero : Bool)
  /-- The closure of a step between two given ends. -/
  | transitive (step : Constraint) (first last : Element) (zero : Bool)
  /-- What is reached from the start by repeating the step. -/
  | walk (start : Element) (step : Constraint)
  | conj (operands : List Plan)
  | disj (operands : List Plan)
  /-- The rows of the left plan without those of the right one. -/
  | minus (left right : Plan)
  /-- The left outer join on a condition. -/
  | optional (main extra : Plan) (condition : Term)
  | filtered (body : Plan) (condition : Term)
  /-- The plan evaluated in a named graph. -/
  | within (body : Plan) (graph : Element)
  /-- The rows of the plan, each with one more variable. -/
  | bind (body : Plan) (var : Text) (value : Term)
  /-- Matches nothing. -/
  | nothing

namespace Constraint

def elements (c : Constraint) : List Element :=
  [c.subject, c.predicate, c.object] ++ c.graph.toList

def text (c : Constraint) : Text := "[" ++ Text.join " " (c.elements.map Element.text) ++ "]"

end Constraint

namespace Plan

/-- The conjunction of plans: nothing of none, and a single plan is left alone. -/
def all : List Plan → Plan
  | [] => nothing
  | [p] => p
  | ps => conj ps

def any : List Plan → Plan
  | [] => nothing
  | [p] => p
  | ps => disj ps

def variant? : Plan → Option Text
  | missing => none
  | constraint _ => some "Constraint"
  | is .. => some "Is"
  | closure .. => some "SingleTransitive"
  | transitive .. => some "Transitive"
  | walk .. => some "Walk"
  | conj _ => some "Conjunction"
  | disj _ => some "Disjunction"
  | minus .. => some "Difference"
  | optional .. => some "OptionalJoin"
  | filtered .. => some "Filtered"
  | within .. => some "In"
  | bind .. => some "Assignment"
  | nothing => some "Contradiction"

def repeatText (zero : Bool) : Text := if zero then "*" else "+"

mutual

def text : Plan → Text
  | missing => "<nil>"
  | constraint c => c.text
  | is var value graph =>
    "(is " ++ Element.varText var ++ " " ++ value.text ++
      Text.ofOption (" " ++ ·.text) graph ++ ")"
  | closure step zero => "(closure" ++ repeatText zero ++ " " ++ step.text ++ ")"
  | transitive step first last zero =>
    "(transitive" ++ repeatText zero ++ " " ++ step.text ++ " " ++ first.text ++ " " ++
      last.text ++ ")"
  | walk start step => "(walk " ++ start.text ++ " " ++ step.text ++ ")"
  | conj operands => "(and" ++ textArgs operands ++ ")"
  | disj operands => "(or" ++ textArgs operands ++ ")"
  | minus left right => "(minus " ++ text left ++ " " ++ text right ++ ")"
  | optional main extra condition =>
    "(optional " ++ text main ++ " " ++ text extra ++
      Text.when (!condition.isTrue) (" :filter " ++ condition.text) ++ ")"
  | filtered body condition => "(filter " ++ condition.text ++ " " ++ text body ++ ")"
  | within body graph => "(in " ++ graph.text ++ " " ++ text body ++ ")"
  | bind body var value =>
    "(bind " ++ text body ++ " " ++ Element.varText var ++ " " ++ value.text ++ ")"
  | nothing => "false"

def textArgs : List Plan → Text
  | [] => []
  | p :: rest => " " ++ text p ++ textArgs rest

end

def children : Plan → List Plan
  | conj operands | disj operands => operands
  | minus left right => [left, right]
  | optional main extra _ => [main, extra]
  | filtered body _ | within body _ | bind body _ _ => [body]
  | _ => []

/-- The plan with other direct parts; it is left alone if their number is not right. -/
def withParts : Plan → List Plan → Plan
  | conj _, ps => conj ps
  | disj _, ps => disj ps
  | minus _ _, [left, right] => minus left right
  | optional _ _ condition, [main, extra] => optional main extra condition
  | filtered _ condition, [body] => filtered body condition
  | within _ graph, [body] => within body graph
  | bind _ var value, [body] => bind body var value
  | p, _ => p

end Plan

end GraphQuery
