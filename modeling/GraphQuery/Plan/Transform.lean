import GraphQuery.Plan.Sharing

namespace GraphQuery

inductive LeafKind where
  | constraint
  | is
  | closure
  | transitive
  | walk
deriving DecidableEq

namespace Plan

def leafKind? : Plan → Option LeafKind
  | constraint _ => some .constraint
  | is .. => some .is
  | closure .. => some .closure
  | transitive .. => some .transitive
  | walk .. => some .walk
  | _ => none

/-- A rule leaves the leaf at a place alone, puts a plan there, or fails. -/
abbrev Rule := List Nat → Plan → Except Failure (Option Plan)

abbrev Rules := LeafKind → Option Rule

/-- The rules as they apply under a direct part, where a place is told from that part on. -/
def Rules.below (i : Nat) (rules : Rules) : Rules :=
  fun kind => (rules kind).map fun rule path => rule (i :: path)

inductive TransformError where
  | missing
  | noRule (leaf : Plan)
  | rule (cause : Failure)

def variantField (p : Plan) : Text × Datum :=
  match p.variant? with
  | none => ("variant", .text "<nil>")
  | some name => ("variant", .text ("*algebra." ++ name))

def TransformError.failure : TransformError → Failure
  | missing => .of .unknownConstraint "missing constraint"
  | noRule leaf =>
    .of .unknownConstraint "no rule for constraint variant"
      [("expression", .text leaf.text), leaf.variantField]
  | rule cause => cause

def transformLeaf (rules : Rules) (kind : LeafKind) (leaf : Plan) :
    Except TransformError Revision :=
  match rules kind with
  | none => .error (.noRule leaf)
  | some rule =>
    match rule [] leaf with
    | .error cause => .error (.rule cause)
    | .ok none => .ok (.keep leaf)
    | .ok (some p) => .ok ⟨p, .replaced⟩

mutual

def transform (rules : Rules) : Plan → Except TransformError Revision
  | missing => .error .missing
  | nothing => .ok (.keep nothing)
  | constraint c => transformLeaf rules .constraint (constraint c)
  | is var value graph => transformLeaf rules .is (is var value graph)
  | closure step zero => transformLeaf rules .closure (closure step zero)
  | transitive step first last zero =>
    transformLeaf rules .transitive (transitive step first last zero)
  | walk start step => transformLeaf rules .walk (walk start step)
  | conj operands => (transformAll rules [] none operands).map (.overAll (conj operands))
  | disj operands => (transformAll rules [] none operands).map (.overAll (disj operands))
  | minus left right => do
    let l ← transform (rules.below 0) left
    let r ← transform (rules.below 1) right
    return .overTwo (minus left right) left l r
  | optional main extra condition => do
    let m ← transform (rules.below 0) main
    let e ← transform (rules.below 1) extra
    return .overTwo (optional main extra condition) main m e
  | filtered body condition =>
    (transform (rules.below 0) body).map (.overOne (filtered body condition))
  | within body graph => (transform (rules.below 0) body).map (.overOne (within body graph))
  | bind body var value => (transform (rules.below 0) body).map (.overOne (bind body var value))

/-- Goes on with the operands after those seen so far. -/
def transformAll (rules : Rules) (seen : List Plan) (copy? : Option (List Revision)) :
    List Plan → Except TransformError (Option (List Revision))
  | [] => .ok copy?
  | p :: rest => do
    let r ← transform (rules.below seen.length) p
    transformAll rules (seen ++ [p]) (Revision.copied seen copy? r) rest

end

def swap (old new : Text) : Element → Element × Bool
  | .var name => if name = old then (.var new, true) else (.var name, false)
  | e => (e, false)

def swapGraph (old new : Text) : Option Element → Option Element × Bool
  | none => (none, false)
  | some g =>
    let (g, changed) := swap old new g
    (some g, changed)

def renameConstraint (old new : Text) (c : Constraint) : Option Constraint :=
  let (subject, inSubject) := swap old new c.subject
  let (predicate, inPredicate) := swap old new c.predicate
  let (object, inObject) := swap old new c.object
  let (graph, inGraph) := swapGraph old new c.graph
  if !inSubject && !inPredicate && !inObject && !inGraph then none
  else some ⟨subject, predicate, object, graph⟩

/-- Renames a variable in a leaf; a leaf in which it does not occur is left alone. -/
def renameLeaf (old new : Text) : Plan → Option Plan
  | constraint c => (renameConstraint old new c).map constraint
  | is var value graph =>
    let (var, isVar) := if var = old then (new, true) else (var, false)
    let (value, isValue) := swap old new value
    let (graph, isGraph) := swapGraph old new graph
    if !isVar && !isValue && !isGraph then none else some (is var value graph)
  | closure step zero => (renameConstraint old new step).map (closure · zero)
  | transitive step first last zero =>
    let renamed := renameConstraint old new step
    let (first, isFirst) := swap old new first
    let (last, isLast) := swap old new last
    if renamed.isNone && !isFirst && !isLast then none
    else some (transitive (renamed.getD step) first last zero)
  | walk start step =>
    let renamed := renameConstraint old new step
    let (start, isStart) := swap old new start
    if renamed.isNone && !isStart then none else some (walk start (renamed.getD step))
  | _ => none

def rename (old new : Text) (p : Plan) : Except TransformError Revision :=
  p.transform fun _ => some fun _ leaf => .ok (renameLeaf old new leaf)

end Plan

end GraphQuery
