import GraphQuery.Query.Expression

namespace GraphQuery

structure Modifiers where
  filter : Option Expression := none
  graph : Option Expression := none

inductive Path where
  | once
  | star
  | plus
  | other
deriving DecidableEq

namespace Path

def name : Path → Text
  | star => "*"
  | plus => "+"
  | once | other => []

def ofNumber (n : Int) : Path :=
  match n with
  | 0 => once
  | 1 => star
  | 2 => plus
  | _ => other

end Path

structure TriplePattern where
  subject : Expression
  predicate : Expression
  object : Expression
  path : Path := .once
  modifiers : Modifiers := {}

inductive Pattern where
  /-- A place where a pattern was left out. -/
  | missing
  | empty (modifiers : Modifiers)
  | group (patterns : List Pattern) (modifiers : Modifiers)
  | union (patterns : List Pattern) (modifiers : Modifiers)
  | optional (main extra : Pattern) (modifiers : Modifiers)
  | triple (triple : TriplePattern)
  | triples (triples : List TriplePattern) (modifiers : Modifiers)
  | bind (main : Pattern) (var : Text) (value : Expression) (modifiers : Modifiers)

namespace Modifiers

def text (m : Modifiers) : Text :=
  Text.ofOption (" :filter " ++ ·.text) m.filter ++ Text.ofOption (" :graph " ++ ·.text) m.graph

end Modifiers

namespace TriplePattern

def predicateText (t : TriplePattern) : Text :=
  if t.path = .once then t.predicate.text
  else "(" ++ t.path.name ++ " " ++ t.predicate.text ++ ")"

def text (t : TriplePattern) : Text :=
  "[" ++ t.subject.text ++ " " ++ t.predicateText ++ " " ++ t.object.text ++ t.modifiers.text ++ "]"

end TriplePattern

namespace Pattern

def modifiers : Pattern → Modifiers
  | missing => {}
  | empty m => m
  | group _ m => m
  | union _ m => m
  | optional _ _ m => m
  | triple t => t.modifiers
  | triples _ m => m
  | bind _ _ _ m => m

def variant? : Pattern → Option Text
  | missing => none
  | empty _ => some "EmptyPattern"
  | group .. => some "GroupPattern"
  | union .. => some "UnionPattern"
  | optional .. => some "OptionalPattern"
  | triple _ => some "TriplePattern"
  | triples .. => some "TripleList"
  | bind .. => some "AssignmentPattern"

mutual

def text : Pattern → Text
  | missing => "<nil>"
  | empty m => "(empty" ++ m.text ++ ")"
  | group ps m => "(group" ++ textArgs ps ++ m.text ++ ")"
  | union ps m => "(union" ++ textArgs ps ++ m.text ++ ")"
  | optional main extra m => "(optional " ++ text main ++ " " ++ text extra ++ m.text ++ ")"
  | triple t => t.text
  | triples ts m => "(triples" ++ Text.spaced (ts.map TriplePattern.text) ++ m.text ++ ")"
  | bind main var value m =>
    "(bind " ++ text main ++ " ?" ++ var ++ " " ++ value.text ++ m.text ++ ")"

def textArgs : List Pattern → Text
  | [] => []
  | p :: rest => " " ++ text p ++ textArgs rest

end

/-- Whether a pattern is the empty pattern without a filter and a graph selector. -/
def isEmpty : Pattern → Bool
  | empty m => m.filter.isNone && m.graph.isNone
  | _ => false

end Pattern

def Expression.boundVar : Expression → List Text
  | var name => [name]
  | _ => []

def Modifiers.boundVars (m : Modifiers) : List Text :=
  match m.graph with
  | none => []
  | some e => e.boundVar

def TriplePattern.boundVars (t : TriplePattern) : List Text :=
  t.modifiers.boundVars ++ t.subject.boundVar ++ t.predicate.boundVar ++ t.object.boundVar

mutual

/-- The variables that a pattern binds, with repetitions: graph selectors come before what they
select in, and variables that occur in filters or bound expressions only are left out. -/
def Pattern.boundVars : Pattern → List Text
  | .missing => []
  | .empty m => m.boundVars
  | .group ps m => m.boundVars ++ Pattern.boundVarsAll ps
  | .union ps m => m.boundVars ++ Pattern.boundVarsAll ps
  | .optional main extra m => m.boundVars ++ Pattern.boundVars main ++ Pattern.boundVars extra
  | .triple t => t.boundVars
  | .triples ts m => m.boundVars ++ ts.flatMap TriplePattern.boundVars
  | .bind main var _ m => m.boundVars ++ Pattern.boundVars main ++ [var]

def Pattern.boundVarsAll : List Pattern → List Text
  | [] => []
  | p :: rest => Pattern.boundVars p ++ Pattern.boundVarsAll rest

end

end GraphQuery
