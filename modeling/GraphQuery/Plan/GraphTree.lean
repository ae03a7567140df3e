import GraphQuery.Text

namespace GraphQuery

inductive GraphTree where
  | graph (iri : Text)
  | union (left right : GraphTree)
deriving DecidableEq

namespace GraphTree

/-- The union of graphs, split in halves with the larger one on the left; there is none of no
graph. -/
def ofList? : List Text → Option GraphTree
  | [] => none
  | [g] => some (graph g)
  | g :: h :: rest =>
    let mid := (rest.length + 3) / 2
    match ofList? ((g :: h :: rest).take mid), ofList? ((g :: h :: rest).drop mid) with
    | some left, some right => some (union left right)
    | _, _ => none
termination_by gs => gs.length
decreasing_by
  · simp only [List.length_take, List.length_cons]; omega
  · simp only [List.length_drop, List.length_cons]; omega

def depth : GraphTree → Nat
  | graph _ => 0
  | union left right => 1 + max left.depth right.depth

def toList : GraphTree → List Text
  | graph iri => [iri]
  | union left right => left.toList ++ right.toList

def text : GraphTree → Text
  | graph iri => "<" ++ iri ++ ">"
  | union left right => "(union " ++ left.text ++ " " ++ right.text ++ ")"

end GraphTree

end GraphQuery
