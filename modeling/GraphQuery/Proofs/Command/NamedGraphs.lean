import GraphQuery.Proofs.Command.Projection

namespace GraphQuery

namespace Plan

/-- Somewhere in the plan the variable is said to have a value. -/
def States (p : Plan) (v : Text) : Prop := ∃ value graph, p.Contains (.is v value graph)

/-- Somewhere in the plan the variable selects the graph. -/
def SelectsBy (p : Plan) (v : Text) : Prop := ∃ body, p.Contains (.within body (.var v))

end Plan

def Ingredient.valueOf? (v : Text) : Ingredient → Option Element
  | leaf (.is var value _) => if var = v then some value else none
  | _ => none

namespace Plan

/-- The values that the variable is said to have, from left to right. -/
def valuesOf (p : Plan) (v : Text) : List Element := p.ingredients.filterMap (·.valueOf? v)

mutual

/-- The plans that a conjunction joins; conjunctions in it are taken apart as well. -/
def conjuncts : Plan → List Plan
  | conj operands => conjunctsAll operands
  | p => [p]

def conjunctsAll : List Plan → List Plan
  | [] => []
  | p :: rest => conjuncts p ++ conjunctsAll rest

end

/-- The variable is one of the graphs; one graph alone needs no disjunction. -/
def isOneOf (v : Text) : List Text → Plan
  | [g] => .is v (.iri g) none
  | gs => .disj (gs.map fun g => .is v (.iri g) none)

end Plan

section Stated
variable {v : Text}

theorem Ingredient.valueOf?_eq_some {x : Ingredient} {value : Element} :
    x.valueOf? v = some value ↔ ∃ g, x = .leaf (.is v value g) := by
  constructor
  · intro h
    rw [valueOf?.eq_def] at h
    split at h
    · split at h
      next hv =>
        cases h
        cases hv
        exact ⟨_, rfl⟩
      · cases h
    · cases h
  · intro ⟨g, hx⟩
    rw [hx]
    exact if_pos rfl

namespace Plan

theorem eq_of_leaf_mem_own {p l : Plan} (h : .leaf l ∈ p.own) : p = l := by
  cases p with
  | conj | disj | minus => cases h
  | optional main extra condition | filtered body condition =>
    obtain ⟨t, -, ht⟩ := List.mem_map.1 h
    cases ht
  | within body graph | bind body var value => cases List.mem_singleton.1 h
  | _ =>
    cases List.mem_singleton.1 h
    rfl

theorem eq_within_of_graph_mem_own {p : Plan} {g : Element} (h : .graph g ∈ p.own) :
    ∃ body, p = .within body g := by
  cases p with
  | conj | disj | minus => cases h
  | optional main extra condition | filtered body condition =>
    obtain ⟨t, -, ht⟩ := List.mem_map.1 h
    cases ht
  | within body graph =>
    cases List.mem_singleton.1 h
    exact ⟨body, rfl⟩
  | _ => cases List.mem_singleton.1 h

theorem states_iff {p : Plan} : p.States v ↔ p.valuesOf v ≠ [] := by
  constructor
  · intro ⟨value, graph, hcontains⟩
    have hmem : .leaf (.is v value graph) ∈ p.ingredients :=
      mem_ingredients.2 ⟨_, hcontains, List.mem_singleton_self _⟩
    apply List.ne_nil_of_mem
    exact List.mem_filterMap.2 ⟨_, hmem, Ingredient.valueOf?_eq_some.2 ⟨graph, rfl⟩⟩
  · intro hne
    obtain ⟨value, hvalue⟩ := List.exists_mem_of_ne_nil _ hne
    obtain ⟨x, hx, hvalue⟩ := List.mem_filterMap.1 hvalue
    obtain ⟨graph, hleaf⟩ := Ingredient.valueOf?_eq_some.1 hvalue
    obtain ⟨q, hq, hown⟩ := mem_ingredients.1 hx
    rw [hleaf] at hown
    rw [eq_of_leaf_mem_own hown] at hq
    exact ⟨value, graph, hq⟩

theorem not_states_iff {p : Plan} : ¬ p.States v ↔ p.valuesOf v = [] := by
  rw [states_iff, not_not]

theorem selectsBy_iff {p : Plan} : p.SelectsBy v ↔ .graph (.var v) ∈ p.ingredients := by
  constructor
  · intro ⟨body, hcontains⟩
    exact mem_ingredients.2 ⟨_, hcontains, List.mem_singleton_self _⟩
  · intro hmem
    obtain ⟨q, hq, hown⟩ := mem_ingredients.1 hmem
    obtain ⟨body, hbody⟩ := eq_within_of_graph_mem_own hown
    exact ⟨body, hbody ▸ hq⟩

theorem conjunctsAll_eq_flatMap (ps : List Plan) : conjunctsAll ps = ps.flatMap conjuncts := by
  induction ps with
  | nil => rfl
  | cons p ps ih => rw [conjunctsAll, ih, List.flatMap_cons]

theorem ingredients_eq_flatMap_conjuncts (p : Plan) :
    p.ingredients = p.conjuncts.flatMap ingredients := by
  induction p using partsInduction with
  | step p ih =>
    cases p with
    | conj operands =>
      rw [ingredients, conjuncts, ingredientsAll_eq_flatMap, conjunctsAll_eq_flatMap,
        List.flatMap_assoc]
      exact List.flatMap_congr ih
    | _ => exact (List.append_nil _).symm

theorem valuesOf_eq_flatMap_conjuncts (p : Plan) :
    p.valuesOf v = p.conjuncts.flatMap (·.valuesOf v) := by
  rw [valuesOf, ingredients_eq_flatMap_conjuncts, List.filterMap_flatMap]
  rfl

end Plan

theorem Pattern.filterMap_valueOf? {p : Pattern} {parts : List Ingredient}
    (h : p.ingredients = .ok parts) : parts.filterMap (·.valueOf? v) = [] := by
  rw [List.filterMap_eq_nil_iff]
  intro x hx
  cases hvalue : x.valueOf? v with
  | none => rfl
  | some value =>
    obtain ⟨g, rfl⟩ := Ingredient.valueOf?_eq_some.1 hvalue
    rcases isOfTriple_of_leaf_mem h hx with hnothing | htriple
    · cases hnothing
    · exact htriple.elim

namespace Compile

theorem graphBinding_eq {named : List Text} (h : named ≠ []) (w : Text) :
    graphBinding named w = .isOneOf w named := by
  match named with
  | [] => exact absurd rfl h
  | [g] => rfl
  | g :: g' :: rest => rfl

theorem simplify_graphBinding (named : List Text) (w : Text) :
    (graphBinding named w).simplify.plan = graphBinding named w := by
  rw [graphBinding, Plan.simplify_any, List.map_map]
  rfl

theorem conjuncts_graphBinding (named : List Text) (w : Text) :
    (graphBinding named w).conjuncts = [graphBinding named w] := by
  match named with
  | [] => rfl
  | [g] => rfl
  | g :: g' :: rest => rfl

theorem valuesOf_graphBinding {named : List Text} (h : named ≠ []) (w : Text) :
    (graphBinding named w).valuesOf v = if w = v then named.map .iri else [] := by
  rw [Plan.valuesOf, ingredients_graphBinding h, Ingredient.bindings, List.filterMap_map]
  split
  next hw =>
    have hvalue : (·.valueOf? v) ∘ (fun g => Ingredient.leaf (.is w (.iri g) none)) =
        some ∘ Element.iri := by
      funext g
      exact if_pos hw
    rw [hvalue, List.filterMap_eq_map]
  next hw =>
    rw [List.filterMap_eq_nil_iff]
    intro g _
    exact if_neg hw

theorem conjuncts_simplify_bound (named vs : List Text) (plan : Plan) :
    (vs.foldl (fun plan w => Plan.conj [plan, graphBinding named w]) plan).simplify.plan.conjuncts =
      plan.simplify.plan.conjuncts ++ vs.map (graphBinding named) := by
  -- Each variable wraps one more conjunction around the plan, so the plan is generalised.
  induction vs generalizing plan with
  | nil => exact (List.append_nil _).symm
  | cons w vs ih =>
    have hpair : (Plan.conj [plan, graphBinding named w]).simplify.plan.conjuncts =
        plan.simplify.plan.conjuncts ++ [graphBinding named w] := by
      rw [Plan.simplify_conj_pair, simplify_graphBinding, Plan.conjuncts,
        Plan.conjunctsAll_eq_flatMap, List.flatMap_cons, List.flatMap_singleton,
        conjuncts_graphBinding]
    rw [List.foldl_cons, ih, hpair, List.append_assoc]
    rfl

/-- The plan of a pattern falls into the ingredients of the pattern and one binding for every
variable that selects a graph. -/
theorem conjuncts_simplify_wherePlan {named : List Text} {p : Pattern} {plan : Plan}
    {refs : List Text} (h : (wherePlan named p).result = .ok (plan, refs)) (hnamed : named ≠ []) :
    ∃ parts others, p.ingredients = .ok parts ∧ others.flatMap Plan.ingredients = parts ∧
      plan.simplify.plan.conjuncts =
        others ++ (Ingredient.graphVariables parts).map (graphBinding named) := by
  obtain ⟨m, hm, -, hplan⟩ := wherePlan_eq_ok h
  obtain ⟨parts, hparts, hr⟩ := Pattern.toPlan_renders hm
  refine ⟨parts, m.plan.simplify.plan.conjuncts, hparts, ?_, ?_⟩
  · rw [← Plan.ingredients_eq_flatMap_conjuncts, Plan.ingredients_simplify, hr.plan]
  · rw [hr.graphVariables_eq] at hplan
    rcases hplan with ⟨hnone, rfl, -⟩ | ⟨-, -, rfl, -⟩
    · rw [hnone.resolve_left hnamed]
      exact (List.append_nil _).symm
    · exact conjuncts_simplify_bound named _ m.plan

end Compile

theorem Plan.valuesOf_eq_of_conjuncts {p b : Plan} {before after : List Plan}
    (h : p.conjuncts = before ++ b :: after) (hothers : ∀ q ∈ before ++ after, ¬ q.States v) :
    p.valuesOf v = b.valuesOf v := by
  have hnil (qs : List Plan) (hqs : ∀ q ∈ qs, q ∈ before ++ after) :
      qs.flatMap (·.valuesOf v) = [] := by
    rw [List.flatMap_eq_nil_iff]
    intro q hq
    exact not_states_iff.1 (hothers q (hqs q hq))
  rw [valuesOf_eq_flatMap_conjuncts, h, List.flatMap_append, List.flatMap_cons,
    hnil before fun q => List.mem_append_left _, hnil after fun q => List.mem_append_right _,
    List.append_nil, List.nil_append]

namespace Compile

variable {named : List Text} {p : Pattern} {plan : Plan} {refs : List Text}

theorem not_states_of_mem {parts : List Ingredient} {others : List Plan} (hnamed : named ≠ [])
    (hp : p.ingredients = .ok parts) (hothers : others.flatMap Plan.ingredients = parts)
    {ws : List Text} (hv : v ∉ ws) {q : Plan}
    (hq : q ∈ others ++ ws.map (graphBinding named)) : ¬ q.States v := by
  rw [Plan.not_states_iff]
  rcases List.mem_append.1 hq with hq | hq
  · have hnil := Pattern.filterMap_valueOf? (v := v) hp
    rw [← hothers, List.filterMap_flatMap, List.flatMap_eq_nil_iff] at hnil
    exact hnil q hq
  · obtain ⟨w, hw, rfl⟩ := List.mem_map.1 hq
    rw [valuesOf_graphBinding hnamed]
    apply if_neg
    intro hwv
    exact hv (hwv ▸ hw)

theorem selectsBy_wherePlan (h : (wherePlan named p).result = .ok (plan, refs))
    {parts : List Ingredient} (hp : p.ingredients = .ok parts) :
    plan.simplify.plan.SelectsBy v ↔ v ∈ Ingredient.graphVariables parts := by
  obtain ⟨parts', hp', hi⟩ := parts_wherePlan h
  rw [hp] at hp'
  cases hp'
  rw [Plan.selectsBy_iff, Plan.ingredients_simplify, hi, Ingredient.mem_graphVariables,
    List.mem_append, or_iff_left]
  intro hmem
  obtain ⟨w, -, hmem⟩ := List.mem_flatMap.1 hmem
  obtain ⟨g, -, hg⟩ := List.mem_map.1 hmem
  cases hg

theorem exists_isOneOf (h : (wherePlan named p).result = .ok (plan, refs)) (hnamed : named ≠ [])
    (hv : plan.simplify.plan.SelectsBy v) :
    ∃ before after, plan.simplify.plan.conjuncts = before ++ .isOneOf v named :: after ∧
      ∀ q ∈ before ++ after, ¬ q.States v := by
  obtain ⟨parts, others, hp, hothers, hconjuncts⟩ := conjuncts_simplify_wherePlan h hnamed
  have hmem := (selectsBy_wherePlan h hp).1 hv
  have hnodup : (Ingredient.graphVariables parts).Nodup := nodup_unique _
  -- The variable is listed once, so the bindings before and after its own are about others.
  obtain ⟨vs, ws, hsplit⟩ := List.append_of_mem hmem
  rw [hsplit] at hconjuncts hnodup
  have hunique : v ∉ vs ++ ws := (List.nodup_cons.1 (List.nodup_middle.1 hnodup)).1
  refine ⟨others ++ vs.map (graphBinding named), ws.map (graphBinding named), ?_, ?_⟩
  · rw [hconjuncts, List.map_append, List.map_cons, graphBinding_eq hnamed v, List.append_assoc]
  · intro q hq
    rw [List.append_assoc, ← List.map_append] at hq
    exact not_states_of_mem hnamed hp hothers hunique hq

theorem valuesOf_wherePlan (h : (wherePlan named p).result = .ok (plan, refs)) (hnamed : named ≠ [])
    (hv : plan.simplify.plan.SelectsBy v) : plan.simplify.plan.valuesOf v = named.map .iri := by
  obtain ⟨before, after, hconjuncts, hothers⟩ := exists_isOneOf h hnamed hv
  rw [Plan.valuesOf_eq_of_conjuncts hconjuncts hothers, ← graphBinding_eq hnamed,
    valuesOf_graphBinding hnamed, if_pos rfl]

theorem selectsBy_of_states (h : (wherePlan named p).result = .ok (plan, refs))
    (hnamed : named ≠ []) (hv : plan.simplify.plan.States v) : plan.simplify.plan.SelectsBy v := by
  obtain ⟨parts, others, hp, hothers, hconjuncts⟩ := conjuncts_simplify_wherePlan h hnamed
  rw [selectsBy_wherePlan h hp]
  by_contra hmem
  apply Plan.states_iff.1 hv
  rw [Plan.valuesOf_eq_flatMap_conjuncts, hconjuncts, List.flatMap_eq_nil_iff]
  intro q hq
  exact Plan.not_states_iff.1 (not_states_of_mem hnamed hp hothers hmem hq)

theorem not_states_wherePlan (h : (wherePlan [] p).result = .ok (plan, refs)) :
    ¬ plan.simplify.plan.States v := by
  obtain ⟨parts, hparts, hi⟩ := parts_wherePlan h
  have hbindings : (Ingredient.graphVariables parts).flatMap (Ingredient.bindings []) = [] := by
    simp [Ingredient.bindings]
  rw [Plan.not_states_iff, Plan.valuesOf, Plan.ingredients_simplify, hi, hbindings, List.append_nil]
  exact Pattern.filterMap_valueOf? hparts

end Compile

end Stated

theorem Options.nodup_resolveNamed {o : Options} {q : Query} {named : List Text}
    (h : o.resolveNamed q = .ok named) : named.Nodup := by
  rw [resolveNamed_eq] at h
  obtain ⟨⟨graphs, source⟩, hresolve, rfl⟩ := map_eq_ok.1 h
  exact nodup_of_resolve_eq_ok hresolve

/-- A command says of exactly the variables that select a graph somewhere that they have a value, if
graphs are named, and says it of none otherwise. Of each it says in one place beside everything else
that it is one of the named graphs, each of which is listed once. -/
theorem compile_binds_graph_variables {o : Options} {q : Query} {c : Command}
    (hk : q.kind = .select ∨ q.kind = .construct ∨ q.kind = .ask)
    (hc : (compile o q).result = .ok c) :
    c.namedGraphs.Nodup ∧
      (c.namedGraphs ≠ [] → ∀ v, (c.plan.States v ↔ c.plan.SelectsBy v) ∧
        (c.plan.SelectsBy v → c.plan.valuesOf v = c.namedGraphs.map .iri ∧
          ∃ before after, c.plan.conjuncts = before ++ .isOneOf v c.namedGraphs :: after ∧
            ∀ p ∈ before ++ after, ¬ p.States v)) ∧
      (c.namedGraphs = [] → ∀ v, ¬ c.plan.States v) := by
  obtain ⟨p, plan, hp, hd, hw, hplan, -⟩ := Compile.body_eq_ok hc hk
  rw [hplan]
  refine ⟨Options.nodup_resolveNamed (Options.dataset_eq_ok hd).1, ?_, ?_⟩
  · intro hnamed v
    have hvalues (hv : plan.simplify.plan.SelectsBy v) := Compile.valuesOf_wherePlan hw hnamed hv
    refine ⟨⟨Compile.selectsBy_of_states hw hnamed, ?_⟩, ?_⟩
    · intro hv
      rw [Plan.states_iff, hvalues hv]
      simpa using hnamed
    · intro hv
      exact ⟨hvalues hv, Compile.exists_isOneOf hw hnamed hv⟩
  · intro hnone v
    rw [hnone] at hw
    exact Compile.not_states_wherePlan hw

/-- Variables select graphs inside one another, on an optional side, and around a union. -/
def scopedQuery : Query where
  kind := .ask
  pattern := some (.optional
    (.group [.triple { filteredTriple with modifiers := { graph := some (.var "g") } }]
      { graph := some (.var "h") })
    (.bind (.union [.triple repeatedTriple, .triple filteredTriple] { graph := some (.var "g") })
      "t" (.int 1) {})
    {})
  namedGraphs := ["g1", "g2", "g1"]

theorem compile_binds_graph_variables_scopedQuery :
    scopedQuery.kind = .ask ∧ ∃ c, (compile {} scopedQuery).result = .ok c ∧
      c.namedGraphs ≠ [] ∧ c.plan.SelectsBy "h" ∧ c.plan.valuesOf "h" = [.iri "g1", .iri "g2"] ∧
      ∃ before after, c.plan.conjuncts = before ++ .isOneOf "h" c.namedGraphs :: after ∧
        ∀ p ∈ before ++ after, ¬ p.States "h" := by
  obtain ⟨c, hc, hnamed, hselects⟩ : ∃ c, (compile {} scopedQuery).result = .ok c ∧
      c.namedGraphs = ["g1", "g2"] ∧ c.plan.SelectsBy "h" :=
    ⟨_, rfl, rfl, _, [0, 0, 0], rfl⟩
  have hne : c.namedGraphs ≠ [] := by
    rw [hnamed]
    exact nofun
  obtain ⟨-, hbound, -⟩ := compile_binds_graph_variables (.inr (.inr rfl)) hc
  obtain ⟨hvalues, hplace⟩ := (hbound hne "h").2 hselects
  rw [hnamed] at hvalues
  exact ⟨rfl, c, hc, hne, hselects, hvalues, hplace⟩

end GraphQuery
