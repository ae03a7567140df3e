import GraphQuery.Plan.OfPattern
import GraphQuery.Proofs.Plan.Spine
import Mathlib.Data.List.Basic

namespace GraphQuery

inductive Ingredient where
  | leaf (p : Plan)
  | condition (t : Term)
  | graph (g : Element)
  | binding (var : Text) (value : Term)

mutual

/-- The conditions that a condition is the conjunction of; the literal true is none. -/
def Term.conjuncts : Term → List Term
  | .and operands => Term.conjunctsAll operands
  | .bool true => []
  | t => [t]

def Term.conjunctsAll : List Term → List Term
  | [] => []
  | t :: rest => Term.conjuncts t ++ Term.conjunctsAll rest

end

def Term.ingredients (t : Term) : List Ingredient := t.conjuncts.map .condition

mutual

def Plan.ingredients : Plan → List Ingredient
  | .conj operands | .disj operands => Plan.ingredientsAll operands
  | .minus left right => Plan.ingredients left ++ Plan.ingredients right
  | .optional main extra condition =>
    Plan.ingredients main ++ Plan.ingredients extra ++ condition.ingredients
  | .filtered body condition => Plan.ingredients body ++ condition.ingredients
  | .within body graph => Plan.ingredients body ++ [.graph graph]
  | .bind body var value => Plan.ingredients body ++ [.binding var value]
  | p => [.leaf p]

def Plan.ingredientsAll : List Plan → List Ingredient
  | [] => []
  | p :: rest => Plan.ingredients p ++ Plan.ingredientsAll rest

end

namespace Ingredient

/-- The ingredients of several parts; where there is no part, nothing matches. -/
def gather : List (List Ingredient) → List Ingredient
  | [] => [leaf .nothing]
  | parts => parts.flatten

def graph? : Ingredient → Option Element
  | graph g => some g
  | _ => none

def graphVar? : Ingredient → Option Text
  | graph (.var v) => some v
  | _ => none

end Ingredient

/-- A constraint, and directly after it the closure over it if the predicate is repeated. -/
def Constraint.alternatives (c : Constraint) (path : Path) : List Plan :=
  .constraint c :: if path = .star ∨ path = .plus then [.closure c (path = .star)] else []

theorem Plan.withPath_eq_alternatives (path : Path) (c : Constraint) :
    withPath path c = c.alternatives path := by
  cases path <;> rfl

theorem Constraint.eq_of_mem_alternatives {c : Constraint} {path : Path} {l : Plan}
    (h : l ∈ c.alternatives path) : l = .constraint c ∨ ∃ zero, l = .closure c zero := by
  rcases List.mem_cons.1 h with rfl | h
  · exact .inl rfl
  · split at h
    · exact .inr ⟨_, List.mem_singleton.1 h⟩
    · cases h

/-- A constraint for each element that the object may be, followed by its closure if the predicate
is repeated. -/
def TriplePattern.expansion (t : TriplePattern) : Except MeaningFault (List Plan) := do
  let subject ← Element.ofExpression t.subject
  let predicate ← Element.ofExpression t.predicate
  let objects ← Plan.objects t.object
  return objects.flatMap fun object =>
    Constraint.alternatives { subject, predicate, object } t.path

def Ingredient.ofFilter : Option Expression → Except MeaningFault (List Ingredient)
  | none => .ok []
  | some e => e.toCondition.map Term.ingredients

def Ingredient.ofGraph : Option Expression → Except MeaningFault (List Ingredient)
  | none => .ok []
  | some e => (Element.ofSelector e).map fun g => [graph g]

def Modifiers.ingredients (m : Modifiers) : Except MeaningFault (List Ingredient) := do
  return (← Ingredient.ofFilter m.filter) ++ (← Ingredient.ofGraph m.graph)

def Modifiers.around (m : Modifiers) (inner : List Ingredient) :
    Except MeaningFault (List Ingredient) :=
  m.ingredients.map (inner ++ ·)

def TriplePattern.ingredients (t : TriplePattern) : Except MeaningFault (List Ingredient) := do
  t.modifiers.around ((← t.expansion).map .leaf)

mutual

def Pattern.ingredients : Pattern → Except MeaningFault (List Ingredient)
  | .missing => .error .missingPattern
  | .empty m => m.around [.leaf .nothing]
  | .group ps m => do m.around (Ingredient.gather (← Pattern.ingredientsOf (!·.isEmpty) ps))
  | .union ps m => do m.around (Ingredient.gather (← Pattern.ingredientsOf (fun _ => true) ps))
  | .optional main extra m => do
    m.around ((← Pattern.ingredients main) ++ (← Pattern.ingredients extra))
  | .triple t => t.ingredients
  | .triples ts m => do m.around (Ingredient.gather (← ts.mapM TriplePattern.ingredients))
  | .bind main var value m => do
    m.around ((← Pattern.ingredients main) ++ [.binding var (← value.toTerm)])

def Pattern.ingredientsOf (keep : Pattern → Bool) :
    List Pattern → Except MeaningFault (List (List Ingredient))
  | [] => .ok []
  | p :: rest =>
    if keep p then do
      let first ← Pattern.ingredients p
      let others ← Pattern.ingredientsOf keep rest
      return first :: others
    else Pattern.ingredientsOf keep rest

end

theorem Term.conjuncts_of_isTrue {t : Term} (h : t.isTrue = true) : t.conjuncts = [] := by
  rw [Term.isTrue_iff.1 h]
  rfl

theorem Term.ingredients_conjoin (s t : Term) :
    (s.conjoin t).ingredients = s.ingredients ++ t.ingredients := by
  have h : (s.conjoin t).conjuncts = s.conjuncts ++ t.conjuncts := by
    rw [Term.conjoin]
    split
    · rename_i hs
      rw [Term.conjuncts_of_isTrue hs, List.nil_append]
    · split
      · rename_i ht
        rw [Term.conjuncts_of_isTrue ht, List.append_nil]
      · simp only [Term.conjuncts, Term.conjunctsAll, List.append_nil]
  rw [Term.ingredients, h, List.map_append]
  rfl

namespace Plan

theorem ingredientsAll_eq_flatMap (ps : List Plan) :
    ingredientsAll ps = ps.flatMap ingredients := by
  induction ps with
  | nil => rfl
  | cons p ps ih => rw [ingredientsAll, ih, List.flatMap_cons]

theorem ingredients_all (ps : List Plan) :
    (all ps).ingredients = Ingredient.gather (ps.map ingredients) := by
  match ps with
  | [] => rfl
  | [p] => exact (List.append_nil _).symm
  | p :: q :: rest =>
    change ingredientsAll (p :: q :: rest) = _
    rw [ingredientsAll_eq_flatMap]
    rfl

theorem ingredients_any (ps : List Plan) :
    (any ps).ingredients = Ingredient.gather (ps.map ingredients) := by
  match ps with
  | [] => rfl
  | [p] => exact (List.append_nil _).symm
  | p :: q :: rest =>
    change ingredientsAll (p :: q :: rest) = _
    rw [ingredientsAll_eq_flatMap]
    rfl

theorem ingredients_join (main extra : Plan) :
    (main.join extra).ingredients = main.ingredients ++ extra.ingredients := by
  cases extra with
  | filtered body condition => simp only [join, ingredients, List.append_assoc]
  | _ => exact List.append_nil _

mutual

/-- What is met along the spine, bottom-up and left to right: the conditions, and what is said to be
inside of the plans that simplification takes as they are. -/
def alongSpine (inside : Plan → List Ingredient) : Plan → List Ingredient
  | conj operands | disj operands => alongSpineAll inside operands
  | minus left right => alongSpine inside left ++ alongSpine inside right
  | optional main extra condition =>
    alongSpine inside main ++ alongSpine inside extra ++ condition.ingredients
  | filtered body condition => alongSpine inside body ++ condition.ingredients
  | p => inside p

def alongSpineAll (inside : Plan → List Ingredient) : List Plan → List Ingredient
  | [] => []
  | p :: rest => alongSpine inside p ++ alongSpineAll inside rest

end

section AlongSpine
variable (inside : Plan → List Ingredient)

theorem alongSpineAll_eq_flatMap (ps : List Plan) :
    alongSpineAll inside ps = ps.flatMap (alongSpine inside) := by
  induction ps with
  | nil => rfl
  | cons p ps ih => rw [alongSpineAll, ih, List.flatMap_cons]

theorem alongSpine_of_isSealed {p : Plan} (h : p.IsSealed) : p.alongSpine inside = inside p := by
  cases p with
  | filtered | optional | conj | disj | minus => exact h.elim
  | _ => rfl

theorem alongSpine_simplifyFiltered (r : Revision) (condition : Term) :
    (simplifyFiltered r condition).plan.alongSpine inside =
      r.plan.alongSpine inside ++ condition.ingredients := by
  rw [simplifyFiltered]
  split
  · rename_i body c he
    simp only [he, alongSpine, Term.ingredients_conjoin, List.append_assoc]
  · rfl

theorem alongSpine_liftFilter (r : Revision) (condition : Term) :
    (liftFilter r condition).1.plan.alongSpine inside ++ (liftFilter r condition).2.ingredients =
      r.plan.alongSpine inside ++ condition.ingredients := by
  rw [liftFilter]
  split
  · rename_i body c he
    simp only [he, alongSpine, Term.ingredients_conjoin, List.append_assoc]
  · rfl

theorem alongSpine_liftJoin (r : Revision) (condition : Term) :
    (liftJoin r condition).1.plan.alongSpine inside ++ (liftJoin r condition).2.ingredients =
      r.plan.alongSpine inside ++ condition.ingredients := by
  rw [liftJoin]
  split
  · rename_i main extra c he
    split
    · rfl
    · have ht : (Term.bool true).ingredients = [] := rfl
      simp only [he, alongSpine, ht, Term.ingredients_conjoin, List.append_assoc, List.nil_append]
  · rfl

/-- Conditions move, but nothing along the spine changes its place in the order. -/
theorem alongSpine_simplify (p : Plan) :
    p.simplify.plan.alongSpine inside = p.alongSpine inside := by
  induction p using spineInduction with
  | filtered body condition ih => rw [simplify, alongSpine_simplifyFiltered, ih, alongSpine]
  | optional main extra condition ihm ihe =>
    have hlift := alongSpine_liftJoin inside (liftFilter extra.simplify condition).1
      (liftFilter extra.simplify condition).2
    rw [alongSpine_liftFilter] at hlift
    rw [simplify, simplifyOptional_eq, overBoth, alongSpine, alongSpine, List.append_assoc,
      List.append_assoc, liftConditions, hlift, ihm, ihe]
  | conj operands ih =>
    simp only [simplify_conj, alongSpine, alongSpineAll_eq_flatMap, List.flatMap_map]
    exact List.flatMap_congr ih
  | disj operands ih =>
    simp only [simplify_disj, alongSpine, alongSpineAll_eq_flatMap, List.flatMap_map]
    exact List.flatMap_congr ih
  | minus left right ihl ihr => simp only [simplify_minus, overBoth, alongSpine, ihl, ihr]
  | closed p hp =>
    rw [simplify_of_isSealed hp]
    rfl

end AlongSpine

theorem ingredients_eq_alongSpine (p : Plan) : p.ingredients = p.alongSpine ingredients := by
  induction p using spineInduction with
  | filtered body condition ih => rw [ingredients, alongSpine, ih]
  | optional main extra condition ihm ihe => rw [ingredients, alongSpine, ihm, ihe]
  | conj operands ih | disj operands ih =>
    rw [ingredients, alongSpine, ingredientsAll_eq_flatMap, alongSpineAll_eq_flatMap]
    exact List.flatMap_congr ih
  | minus left right ihl ihr => rw [ingredients, alongSpine, ihl, ihr]
  | closed p hp => rw [alongSpine_of_isSealed ingredients hp]

theorem ingredients_simplify (p : Plan) : p.simplify.plan.ingredients = p.ingredients := by
  rw [ingredients_eq_alongSpine, alongSpine_simplify, ← ingredients_eq_alongSpine]

end Plan

end GraphQuery
