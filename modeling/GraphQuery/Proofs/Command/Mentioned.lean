import GraphQuery.Proofs.Command.Projection
import GraphQuery.Proofs.Plan.Renamed
import GraphQuery.Proofs.Term.Mentioned

namespace GraphQuery

namespace Ingredient

def terms : Ingredient → List Term
  | condition t => [t]
  | binding _ value => [value]
  | _ => []

def Evaluates (v : Text) (x : Ingredient) : Prop := ∃ t ∈ x.terms, v ∈ t.mentioned

def Mentions (v : Text) (x : Ingredient) : Prop := x.Binds v ∨ x.Evaluates v

theorem not_mentions_nothing (v : Text) : ¬ (leaf .nothing).Mentions v := by
  simp [Mentions, Binds, Evaluates, terms, Plan.leafElements]

theorem exists_mentions {xs : List Ingredient} {v : Text} :
    (∃ x ∈ xs, x.Mentions v) ↔ (∃ x ∈ xs, x.Binds v) ∨ ∃ x ∈ xs, x.Evaluates v := by
  simp only [Mentions, and_or_left, exists_or]

end Ingredient

theorem Term.exists_evaluates (t : Term) {v : Text} :
    (∃ x ∈ t.ingredients, x.Evaluates v) ↔ v ∈ t.mentioned := by
  rw [← mentioned_conjuncts, List.mem_flatMap]
  simp [ingredients, Ingredient.Evaluates, Ingredient.terms]

namespace Plan

def terms : Plan → List Term
  | optional _ _ condition | filtered _ condition => [condition]
  | bind _ _ value => [value]
  | _ => []

/-- The name is bound or stands in a term at some place of the plan. -/
def Mentions (p : Plan) (v : Text) : Prop :=
  p.Binds v ∨ ∃ q, p.Contains q ∧ ∃ t ∈ q.terms, v ∈ t.mentioned

theorem exists_evaluates_own (q : Plan) {v : Text} :
    (∃ x ∈ q.own, x.Evaluates v) ↔ ∃ t ∈ q.terms, v ∈ t.mentioned := by
  cases q with
  | optional main extra condition | filtered body condition =>
    rw [own, Term.exists_evaluates]
    simp [terms]
  | bind body var value => simp [own, terms, Ingredient.Evaluates, Ingredient.terms]
  | _ => simp [own, terms, Ingredient.Evaluates, Ingredient.terms]

theorem mentions_iff {p : Plan} {v : Text} : p.Mentions v ↔ ∃ x ∈ p.ingredients, x.Mentions v := by
  have hterms : (∃ q, p.Contains q ∧ ∃ t ∈ q.terms, v ∈ t.mentioned) ↔
      ∃ x ∈ p.ingredients, x.Evaluates v := by
    simp only [← exists_evaluates_own, mem_ingredients]
    constructor
    · rintro ⟨q, hq, x, hx, hv⟩
      exact ⟨x, ⟨q, hq, hx⟩, hv⟩
    · rintro ⟨x, ⟨q, hq, hx⟩, hv⟩
      exact ⟨q, hq, x, hx, hv⟩
  rw [Mentions, binds_iff, hterms, Ingredient.exists_mentions]

theorem mentions_simplify (p : Plan) {v : Text} : p.simplify.plan.Mentions v ↔ p.Mentions v := by
  rw [mentions_iff, mentions_iff, ingredients_simplify]

theorem mentions_conj {ps : List Plan} {v : Text} :
    (conj ps).Mentions v ↔ ∃ p ∈ ps, p.Mentions v := by
  simp only [mentions_iff, ingredients, ingredientsAll_eq_flatMap, List.mem_flatMap]
  constructor
  · rintro ⟨x, ⟨p, hp, hx⟩, hv⟩
    exact ⟨p, hp, x, hx, hv⟩
  · rintro ⟨p, hp, x, hx, hv⟩
    exact ⟨x, ⟨p, hp, hx⟩, hv⟩

theorem mentions_disj {ps : List Plan} {v : Text} :
    (disj ps).Mentions v ↔ ∃ p ∈ ps, p.Mentions v := by
  rw [← mentions_conj, mentions_iff, mentions_iff, ingredients, ingredients]

theorem mentions_any {ps : List Plan} {v : Text} :
    (any ps).Mentions v ↔ ∃ p ∈ ps, p.Mentions v := by
  match ps with
  | [] =>
    rw [any, mentions_iff]
    simp [ingredients, Ingredient.not_mentions_nothing]
  | [p] => simp [any]
  | p :: q :: rest => exact mentions_disj

theorem mentions_leaf {l : Plan} (hl : l.IsLeaf) {v : Text} :
    l.Mentions v ↔ .var v ∈ l.leafElements := by
  have hi : l.ingredients = [.leaf l] := by
    cases l with
    | constraint | is | closure | transitive | walk => rfl
    | _ => cases hl
  rw [mentions_iff, hi]
  simp [Ingredient.Mentions, Ingredient.Binds, Ingredient.Evaluates, Ingredient.terms]

end Plan

section Renamed
variable {old new : Text}

def Ingredient.renamed (old new : Text) : Ingredient → Ingredient
  | leaf l => leaf (l.renamed old new)
  | x => x

theorem Term.renamed_ingredients (t : Term) :
    t.ingredients.map (Ingredient.renamed old new) = t.ingredients := by
  rw [ingredients, List.map_map]
  rfl

namespace Plan

theorem ingredients_renamed (p : Plan) :
    (p.renamed old new).ingredients = p.ingredients.map (Ingredient.renamed old new) := by
  unfold renamed
  induction p using Plan.rec
      (motive_2 := fun ps => ingredientsAll (ps.map (mapLeaves (renamedLeaf old new))) =
        (ingredientsAll ps).map (Ingredient.renamed old new)) with
  | conj ps ih =>
    rw [mapLeaves_conj]
    exact ih
  | disj ps ih =>
    rw [mapLeaves_disj]
    exact ih
  | minus left right ihl ihr =>
    rw [mapLeaves_minus, ingredients, ingredients, List.map_append, ihl, ihr]
  | optional main extra condition ihm ihe =>
    rw [mapLeaves_optional, ingredients, ingredients, List.map_append, List.map_append, ihm, ihe,
      Term.renamed_ingredients]
  | filtered body condition ih =>
    rw [mapLeaves_filtered, ingredients, ingredients, List.map_append, ih, Term.renamed_ingredients]
  | within body graph ih =>
    rw [mapLeaves_within, ingredients, ingredients, List.map_append, ih]
    rfl
  | bind body var value ih =>
    rw [mapLeaves_bind, ingredients, ingredients, List.map_append, ih]
    rfl
  | nil => rfl
  | cons p ps ihp ihps =>
    rw [List.map_cons, ingredientsAll, ingredientsAll, List.map_append, ihp, ihps]
  | _ => rfl

theorem leavesHave_iff {p : Plan} {v : Text} :
    p.LeavesHave v ↔ ∃ l, .leaf l ∈ p.ingredients ∧ .var v ∈ l.leafElements := by
  have hown (q l : Plan) (hv : .var v ∈ l.leafElements) :
      .leaf l ∈ q.own ↔ q.IsLeaf ∧ q = l := by
    cases q with
    | optional | filtered => simp [own, Term.ingredients, IsLeaf, leafKind?]
    | missing | nothing =>
      simp only [own, List.mem_singleton, Ingredient.leaf.injEq, IsLeaf, leafKind?]
      constructor
      · rintro rfl
        cases hv
      · rintro ⟨⟨⟩, -⟩
    | _ => simp [own, IsLeaf, leafKind?, eq_comm]
  simp only [mem_ingredients]
  constructor
  · rintro ⟨l, hl, hleaf, hv⟩
    exact ⟨l, ⟨l, hl, (hown l l hv).2 ⟨hleaf, rfl⟩⟩, hv⟩
  · rintro ⟨l, ⟨q, hq, hl⟩, hv⟩
    obtain ⟨hleaf, rfl⟩ := (hown q l hv).1 hl
    exact ⟨q, hq, hleaf, hv⟩

/-- Renaming adds the new name where the old one stands in a leaf, and takes no other name away. -/
theorem mentions_renamed {p : Plan} {v : Text} (hv : v ≠ old) :
    (p.renamed old new).Mentions v ↔ p.Mentions v ∨ v = new ∧ p.LeavesHave old := by
  have hone (x : Ingredient) : (x.renamed old new).Mentions v ↔
      x.Mentions v ∨ v = new ∧ ∃ l, x = .leaf l ∧ .var old ∈ l.leafElements := by
    cases x with
    | leaf l =>
      simp [Ingredient.renamed, Ingredient.Mentions, Ingredient.Binds, Ingredient.Evaluates,
        Ingredient.terms, leafElements_renamed, swapElement_eq_var, hv]
      grind
    | _ => simp [Ingredient.renamed]
  rw [mentions_iff, ingredients_renamed, mentions_iff, leavesHave_iff]
  simp only [List.mem_map]
  constructor
  · rintro ⟨_, ⟨x, hx, rfl⟩, hmentions⟩
    rcases (hone x).1 hmentions with hmentions | ⟨hnew, l, rfl, hold⟩
    · exact .inl ⟨x, hx, hmentions⟩
    · exact .inr ⟨hnew, l, hx, hold⟩
  · rintro (⟨x, hx, hmentions⟩ | ⟨hnew, l, hl, hold⟩)
    · exact ⟨_, ⟨x, hx, rfl⟩, (hone x).2 (.inl hmentions)⟩
    · exact ⟨_, ⟨_, hl, rfl⟩, (hone _).2 (.inr ⟨hnew, l, rfl, hold⟩)⟩

end Plan

end Renamed

theorem Modifiers.exists_evaluates {m : Modifiers} {mods : List Ingredient}
    (h : m.ingredients = .ok mods) {v : Text} :
    (∃ x ∈ mods, x.Evaluates v) ↔ ∃ e ∈ m.filter.toList, v ∈ e.mentioned := by
  obtain ⟨conditions, hc, h⟩ := bind_eq_ok.1 h
  obtain ⟨selected, hs, h⟩ := bind_eq_ok.1 h
  cases h
  have hselected : ¬ ∃ x ∈ selected, x.Evaluates v := by
    cases hg : m.graph with
    | none =>
      rw [hg] at hs
      cases hs
      simp
    | some e =>
      rw [hg] at hs
      obtain ⟨g, -, rfl⟩ := map_eq_ok.1 hs
      simp [Ingredient.Evaluates, Ingredient.terms]
  have hconditions : (∃ x ∈ conditions, x.Evaluates v) ↔
      ∃ e ∈ m.filter.toList, v ∈ e.mentioned := by
    cases hf : m.filter with
    | none =>
      rw [hf] at hc
      cases hc
      simp
    | some e =>
      rw [hf] at hc
      obtain ⟨t, ht, rfl⟩ := map_eq_ok.1 hc
      have hnames := Expression.mentioned_toTerm (Expression.toCondition_eq_ok.1 ht).1
      rw [Term.exists_evaluates, hnames]
      simp
  rw [← hconditions]
  simp only [List.mem_append, or_and_right, exists_or]
  exact or_iff_left hselected

theorem Element.mentioned_of_ofExpression {e : Expression} {x : Element}
    (h : ofExpression e = .ok x) : e.mentioned = e.names := by
  cases e with
  | var | blank | iri | literal | int | decimal | double | bool => rfl
  | _ => cases h

theorem Element.mentioned_of_ofSelector {e : Expression} {x : Element}
    (h : ofSelector e = .ok x) : e.mentioned = e.names := by
  cases e with
  | var | iri => rfl
  | _ => cases h

theorem Plan.mentioned_of_objects {e : Expression} {xs : List Element} (h : objects e = .ok xs) :
    e.mentioned = e.names := by
  rw [objects.eq_def] at h
  split at h
  · rfl
  · obtain ⟨x, hx, -⟩ := map_eq_ok.1 h
    exact Element.mentioned_of_ofExpression hx

theorem Modifiers.mentioned_graph {m : Modifiers} {mods : List Ingredient}
    (h : m.ingredients = .ok mods) : ∀ e ∈ m.graph.toList, e.mentioned = e.names := by
  intro e he
  obtain ⟨terms, graphs, hgraphs, -⟩ := ingredients_eq_ok h
  obtain ⟨g, hg⟩ := exists_mapM_eq_ok.1 ⟨graphs, hgraphs⟩ e he
  exact Element.mentioned_of_ofSelector hg

namespace Pattern

def evaluated : Pattern → List Expression
  | bind _ _ value m => value :: m.filter.toList
  | p => p.modifiers.filter.toList

/-- The name stands in some expression of the pattern. -/
def Mentions (p : Pattern) (v : Text) : Prop :=
  ∃ q ∈ p.nodes, ∃ e ∈ q.binders ++ q.evaluated, v ∈ e.mentioned

instance (p : Pattern) (v : Text) : Decidable (p.Mentions v) :=
  inferInstanceAs (Decidable (∃ q ∈ p.nodes, _))

section Own
variable {q : Pattern} {own : List Ingredient} (h : q.own = .ok own) {v : Text}
include h

theorem exists_evaluates_own :
    (∃ x ∈ own, x.Evaluates v) ↔ ∃ e ∈ q.evaluated, v ∈ e.mentioned := by
  cases q with
  | triple t =>
    obtain ⟨ps, -, h⟩ := bind_eq_ok.1 h
    obtain ⟨mods, hm, rfl⟩ := Modifiers.around_eq_ok.1 h
    have hleaves : ¬ ∃ x ∈ ps.map Ingredient.leaf, x.Evaluates v := by
      simp [Ingredient.Evaluates, Ingredient.terms]
    simp only [List.mem_append, or_and_right, exists_or]
    rw [or_iff_right hleaves]
    exact Modifiers.exists_evaluates hm
  | bind main var value m =>
    obtain ⟨t, ht, h⟩ := bind_eq_ok.1 h
    obtain ⟨mods, hm, rfl⟩ := Modifiers.around_eq_ok.1 h
    have hnames := Expression.mentioned_toTerm ht
    rw [List.singleton_append, List.exists_mem_cons_iff, Modifiers.exists_evaluates hm, evaluated,
      List.exists_mem_cons_iff, ← hnames]
    simp [Ingredient.Evaluates, Ingredient.terms]
  | _ => exact Modifiers.exists_evaluates h

theorem mentioned_binders : ∀ e ∈ q.binders, e.mentioned = e.names := by
  cases q with
  | triple t =>
    obtain ⟨ps, hps, h⟩ := bind_eq_ok.1 h
    obtain ⟨mods, hm, -⟩ := Modifiers.around_eq_ok.1 h
    obtain ⟨s, p, os, hs, hp, ho, -⟩ := TriplePattern.expansion_elements hps
    intro e he
    rcases List.mem_append.1 he with he | he
    · simp only [List.mem_cons, List.not_mem_nil, or_false] at he
      rcases he with rfl | rfl | rfl
      · exact Element.mentioned_of_ofExpression hs
      · exact Element.mentioned_of_ofExpression hp
      · exact Plan.mentioned_of_objects ho
    · exact Modifiers.mentioned_graph hm e he
  | bind main var value m =>
    obtain ⟨t, -, h⟩ := bind_eq_ok.1 h
    obtain ⟨mods, hm, -⟩ := Modifiers.around_eq_ok.1 h
    intro e he
    rcases List.mem_cons.1 he with rfl | he
    · rfl
    · exact Modifiers.mentioned_graph hm e he
  | _ => exact Modifiers.mentioned_graph h

theorem exists_mentions_own :
    (∃ x ∈ own, x.Mentions v) ↔ ∃ e ∈ q.binders ++ q.evaluated, v ∈ e.mentioned := by
  have hbinders : (∃ e ∈ q.binders, v ∈ e.names) ↔ ∃ e ∈ q.binders, v ∈ e.mentioned := by
    refine exists_congr fun e => and_congr_right fun he => ?_
    rw [mentioned_binders h e he]
  rw [Ingredient.exists_mentions, exists_binds_own h, exists_evaluates_own h, hbinders]
  simp only [List.mem_append, or_and_right, exists_or]

end Own

theorem exists_mentions {p : Pattern} {parts : List Ingredient} (h : p.ingredients = .ok parts)
    {v : Text} : (∃ x ∈ parts, x.Mentions v) ↔ p.Mentions v :=
  exists_mem_ingredients (Ingredient.not_mentions_nothing v)
    (fun _ _ hown => exists_mentions_own hown) h

theorem mentions_of_mem_boundVars {p : Pattern} {v : Text} (h : v ∈ p.boundVars) :
    p.Mentions v := by
  obtain ⟨q, hq, he⟩ := mem_boundVars.1 h
  exact ⟨q, hq, .var v, List.mem_append_left _ he, List.mem_singleton_self v⟩

end Pattern

/-- Binding the variables that select a graph to the named graphs mentions no further name. -/
theorem Compile.mentions_wherePlan {named : List Text} {p : Pattern} {plan : Plan}
    {refs : List Text} (h : (wherePlan named p).result = .ok (plan, refs)) {v : Text} :
    plan.Mentions v ↔ p.Mentions v := by
  obtain ⟨parts, hparts, hbinds⟩ := binds_wherePlan h (v := v)
  obtain ⟨parts', hparts', hi⟩ := parts_wherePlan h
  obtain rfl : parts' = parts := Except.ok.inj (hparts'.symm.trans hparts)
  have hevaluates : (∃ x ∈ plan.ingredients, x.Evaluates v) ↔ ∃ x ∈ parts', x.Evaluates v := by
    have hbound : ¬ ∃ x ∈ (Ingredient.graphVariables parts').flatMap (Ingredient.bindings named),
        x.Evaluates v := by
      simp [Ingredient.bindings, Ingredient.Evaluates, Ingredient.terms]
    rw [hi]
    simp only [List.mem_append, or_and_right, exists_or]
    exact or_iff_left hbound
  rw [← Pattern.exists_mentions hparts, Plan.mentions_iff, Ingredient.exists_mentions, hevaluates,
    ← Plan.binds_iff, hbinds, Ingredient.exists_mentions]

end GraphQuery
