import GraphQuery.Plan.Basic

namespace GraphQuery

/-- What has become of the part at a place. -/
inductive Sharing where
  /-- The part is still there, with all that is under it. -/
  | kept
  /-- Another part stands there. -/
  | replaced
  /-- A part of the same kind was made anew over the given direct parts. -/
  | rebuilt (parts : List Sharing)
  /-- A condition above the part was taken away, and the part moved up into this place. -/
  | lifted (inner : Sharing)

namespace Sharing

def isKept : Sharing → Bool
  | kept => true
  | _ => false

def part (i : Nat) : Sharing → Sharing
  | kept => kept
  | replaced => replaced
  | rebuilt parts => parts[i]?.getD replaced
  | lifted inner => part i inner

/-- A part is made anew only if one of its direct parts was not kept. -/
def ofParts (parts : List Sharing) : Sharing :=
  if parts.all isKept then kept else rebuilt parts

end Sharing

structure Revision where
  plan : Plan
  sharing : Sharing

namespace Revision

def keep (p : Plan) : Revision := ⟨p, .kept⟩

/-- The copy of revised plans, which is made at the first of them that was not kept. Until then
there is none, and what it is made of are the plans seen so far. -/
def copied (seen : List Plan) (copy? : Option (List Revision)) (r : Revision) :
    Option (List Revision) :=
  match copy? with
  | some rs => some (rs ++ [r])
  | none => if r.sharing.isKept then none else some (seen.map keep ++ [r])

def overAll (given : Plan) : Option (List Revision) → Revision
  | none => keep given
  | some rs => ⟨given.withParts (rs.map (·.plan)), .rebuilt (rs.map (·.sharing))⟩

def overOne (given : Plan) (r : Revision) : Revision := overAll given (copied [] none r)

/-- Two direct parts are copied as any number of them; the first one is given. -/
def overTwo (given first : Plan) (r s : Revision) : Revision :=
  overAll given (copied [first] (copied [] none r) s)

/-- For every direct part of the result, whether it is another than that of the given plan; asked
only of results of the same kind with as many direct parts. -/
def changedParts? (given : Plan) (r : Revision) : Option (List Bool) :=
  let n := given.children.length
  if n = 0 ∨ given.variant? ≠ r.plan.variant? ∨ r.plan.children.length ≠ n then none
  else some ((List.range n).map fun i => !(r.sharing.part i).isKept)

end Revision

end GraphQuery
