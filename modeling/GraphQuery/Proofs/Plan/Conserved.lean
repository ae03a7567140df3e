import GraphQuery.Proofs.Plan.Ingredients

namespace GraphQuery.Plan

/-- The parts that simplification takes as they are and the conditions over them, bottom-up and left
to right. -/
def inventory (p : Plan) : List Ingredient := p.alongSpine fun q => [.leaf q]

mutual

/-- The plan without its filters, and with joins on no condition. -/
def bare : Plan → Plan
  | conj operands => conj (bareAll operands)
  | disj operands => disj (bareAll operands)
  | minus left right => minus (bare left) (bare right)
  | optional main extra _ => optional (bare main) (bare extra) (.bool true)
  | filtered body _ => bare body
  | within body graph => within (bare body) graph
  | bind body var value => bind (bare body) var value
  | p => p

def bareAll : List Plan → List Plan
  | [] => []
  | p :: rest => bare p :: bareAll rest

end

theorem bareAll_eq_map (ps : List Plan) : bareAll ps = ps.map bare := by
  induction ps with
  | nil => rfl
  | cons p ps ih => rw [bareAll, ih, List.map_cons]

theorem bare_simplifyFiltered (r : Revision) (condition : Term) :
    (simplifyFiltered r condition).plan.bare = r.plan.bare := by
  rw [simplifyFiltered]
  split
  · rename_i body c he
    rw [he, bare, bare]
  · rfl

theorem bare_liftConditions (r : Revision) (condition : Term) :
    (liftConditions r condition).1.plan.bare = r.plan.bare := by
  have hfilter : (liftFilter r condition).1.plan.bare = r.plan.bare := by
    rw [liftFilter]
    split
    · rename_i body c he
      rw [he, bare]
    · rfl
  have hjoin (r : Revision) (condition : Term) :
      (liftJoin r condition).1.plan.bare = r.plan.bare := by
    rw [liftJoin]
    split
    · rename_i main extra c he
      split
      · rfl
      · rw [he, bare, bare]
    · rfl
  rw [liftConditions, hjoin, hfilter]

theorem bare_simplify (p : Plan) : p.simplify.plan.bare = p.bare := by
  induction p using spineInduction with
  | filtered body condition ih => rw [simplify, bare_simplifyFiltered, ih, bare]
  | optional main extra condition ihm ihe =>
    rw [simplify, simplifyOptional_eq, overBoth, bare, bare, bare_liftConditions, ihm, ihe]
  | conj operands ih =>
    simp only [simplify_conj, bare, bareAll_eq_map, List.map_map]
    exact congrArg conj (List.map_congr_left ih)
  | disj operands ih =>
    simp only [simplify_disj, bare, bareAll_eq_map, List.map_map]
    exact congrArg disj (List.map_congr_left ih)
  | minus left right ihl ihr => simp only [simplify_minus, overBoth, bare, ihl, ihr]
  | closed p hp =>
    rw [simplify_of_isSealed hp]
    rfl

/-- Simplification conserves the opaque parts and the conditions, in their order, and the plan
without its conditions. -/
theorem simplify_conserves (p : Plan) :
    p.simplify.plan.inventory = p.inventory ∧ p.simplify.plan.bare = p.bare :=
  ⟨alongSpine_simplify _ p, bare_simplify p⟩

theorem liftFilter_of_filtered {r : Revision} {body : Plan} {c : Term}
    (h : r.plan = filtered body c)
    (condition : Term) :
    liftFilter r condition = (⟨body, .lifted (r.sharing.part 0)⟩, c.conjoin condition) := by
  rw [liftFilter, h]

theorem liftFilter_of_not_filtered {r : Revision} (h : ∀ body c, r.plan = filtered body c → False)
    (condition : Term) : liftFilter r condition = (r, condition) := by
  rw [liftFilter]
  split
  · rename_i body c he
    exact (h body c he).elim
  · rfl

/-- A join on no condition takes over from a simplified filter what a join on the condition of the
filter takes over from the plan under it. -/
theorem liftFilter_simplifyFiltered (r : Revision) (condition : Term) :
    (liftFilter (simplifyFiltered r condition) (.bool true)).1.plan =
        (liftFilter r condition).1.plan ∧
      (liftFilter (simplifyFiltered r condition) (.bool true)).2 =
        (liftFilter r condition).2 := by
  rw [simplifyFiltered]
  split
  · rename_i body c he
    rw [liftFilter_of_filtered rfl, liftFilter_of_filtered he]
    exact ⟨rfl, Term.conjoin_true _⟩
  · rename_i hn
    rw [liftFilter_of_filtered rfl, liftFilter_of_not_filtered hn]
    exact ⟨rfl, Term.conjoin_true _⟩

theorem liftJoin_congr {r s : Revision} (h : r.plan = s.plan) (condition : Term) :
    (liftJoin r condition).1.plan = (liftJoin s condition).1.plan ∧
      (liftJoin r condition).2 = (liftJoin s condition).2 := by
  unfold liftJoin
  rw [h]
  split
  · split
    · exact ⟨h, rfl⟩
    · exact ⟨rfl, rfl⟩
  · exact ⟨h, rfl⟩

theorem liftConditions_simplifyFiltered (r : Revision) (condition : Term) :
    (liftConditions (simplifyFiltered r condition) (.bool true)).1.plan =
        (liftConditions r condition).1.plan ∧
      (liftConditions (simplifyFiltered r condition) (.bool true)).2 =
        (liftConditions r condition).2 := by
  obtain ⟨hplan, hterm⟩ := liftFilter_simplifyFiltered r condition
  rw [liftConditions, liftConditions, hterm]
  exact liftJoin_congr hplan _

/-- The join that has taken over the filter of its optional side, if there is one, and the join that
has not are simplified to the same plan. -/
theorem simplify_join (main extra : Plan) :
    (main.join extra).simplify.plan = (optional main extra (.bool true)).simplify.plan := by
  cases extra with
  | filtered body condition =>
    -- the filter is simplified together with its body before its condition is taken over
    obtain ⟨hplan, hterm⟩ := liftConditions_simplifyFiltered body.simplify condition
    rw [join, simplify, simplify, simplify, simplifyOptional_eq, simplifyOptional_eq, overBoth,
      overBoth, hplan, hterm]
  | _ => rfl

end GraphQuery.Plan
