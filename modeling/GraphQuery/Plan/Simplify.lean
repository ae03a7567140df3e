import GraphQuery.Plan.Transform

namespace GraphQuery

namespace Sharing

def rebuiltPair : Sharing → Sharing
  | lifted inner => lifted (rebuiltPair inner)
  | s => rebuilt [s.part 0, s.part 1]

end Sharing

namespace Plan

def wrapped (build : Plan → Plan) (r : Revision) : Revision :=
  ⟨build r.plan, .ofParts [r.sharing]⟩

def overBoth (build : Plan → Plan → Plan) (r s : Revision) : Revision :=
  ⟨build r.plan s.plan, .ofParts [r.sharing, s.sharing]⟩

def simplifyFiltered (r : Revision) (condition : Term) : Revision :=
  match r.plan with
  | filtered inner c =>
    ⟨filtered inner (c.conjoin condition), .rebuilt [.lifted (r.sharing.part 0)]⟩
  | _ => wrapped (filtered · condition) r

/-- Takes the condition of a filter on the optional side over into the join. -/
def liftFilter (r : Revision) (condition : Term) : Revision × Term :=
  match r.plan with
  | filtered inner c => (⟨inner, .lifted (r.sharing.part 0)⟩, c.conjoin condition)
  | _ => (r, condition)

/-- Takes the condition of a join on the optional side over into the outer join. -/
def liftJoin (r : Revision) (condition : Term) : Revision × Term :=
  match r.plan with
  | optional main extra c =>
    if c.isTrue then (r, condition)
    else (⟨optional main extra (.bool true), r.sharing.rebuiltPair⟩, c.conjoin condition)
  | _ => (r, condition)

def simplifyOptional (main extra : Revision) (condition : Term) : Revision :=
  let (extra, condition) := liftFilter extra condition
  let (extra, condition) := liftJoin extra condition
  overBoth (optional · · condition) main extra

mutual

def simplify : Plan → Revision
  | filtered body condition => simplifyFiltered (simplify body) condition
  | optional main extra condition =>
    simplifyOptional (simplify main) (simplify extra) condition
  | conj operands => .overAll (conj operands) (simplifyAll [] none operands)
  | disj operands => .overAll (disj operands) (simplifyAll [] none operands)
  | minus left right => .overTwo (minus left right) left (simplify left) (simplify right)
  | p => .keep p

def simplifyAll (seen : List Plan) (copy? : Option (List Revision)) :
    List Plan → Option (List Revision)
  | [] => copy?
  | p :: rest => simplifyAll (seen ++ [p]) (Revision.copied seen copy? (simplify p)) rest

end

end Plan

end GraphQuery
