import GraphQuery.Proofs.Command.Resolution
import GraphQuery.Proofs.Command.Where
import GraphQuery.Proofs.Plan.Origins
import GraphQuery.Proofs.Query.RoundTrip

namespace GraphQuery

def Ingredient.Binds (v : Text) : Ingredient → Prop
  | leaf p => .var v ∈ p.leafElements
  | graph g => g = .var v
  | binding var _ => var = v
  | condition _ => False

theorem Ingredient.mem_graphVariables {parts : List Ingredient} {v : Text} :
    v ∈ graphVariables parts ↔ .graph (.var v) ∈ parts := by
  rw [graphVariables, mem_unique, List.mem_filterMap]
  constructor
  · rintro ⟨x, hx, hv⟩
    unfold graphVar? at hv
    split at hv
    · cases hv
      exact hx
    · cases hv
  · intro hx
    exact ⟨_, hx, rfl⟩

namespace Plan

/-- At some place of the plan the variable is an element of a leaf, the graph that is selected or
the target of a binding. -/
def Binds (p : Plan) (v : Text) : Prop :=
  ∃ q, p.Contains q ∧
    (.var v ∈ q.leafElements ∨ (∃ body, q = .within body (.var v)) ∨
      ∃ body value, q = .bind body v value)

theorem not_binds_condition {t : Term} {v : Text} : ¬ ∃ x ∈ t.ingredients, x.Binds v := by
  rintro ⟨x, hx, hv⟩
  obtain ⟨c, -, rfl⟩ := List.mem_map.1 hx
  exact hv

theorem binds_iff {p : Plan} {v : Text} : p.Binds v ↔ ∃ x ∈ p.ingredients, x.Binds v := by
  have hown (q : Plan) : (∃ x ∈ q.own, x.Binds v) ↔
      (.var v ∈ q.leafElements ∨ (∃ body, q = .within body (.var v)) ∨
        ∃ body value, q = .bind body v value) := by
    cases q with
    | optional main extra condition | filtered body condition =>
      simp [own, not_binds_condition, leafElements]
    | _ => simp [own, Ingredient.Binds, leafElements]
  constructor
  · rintro ⟨q, hq, hv⟩
    obtain ⟨x, hx, hv⟩ := (hown q).2 hv
    exact ⟨x, mem_ingredients.2 ⟨q, hq, hx⟩, hv⟩
  · rintro ⟨x, hx, hv⟩
    obtain ⟨q, hq, hx⟩ := mem_ingredients.1 hx
    exact ⟨q, hq, (hown q).1 ⟨x, hx, hv⟩⟩

end Plan

theorem Element.ofExpression_eq_var {e : Expression} {x : Element} (h : ofExpression e = .ok x)
    {v : Text} : x = .var v ↔ v ∈ e.names := by
  cases e with
  | var name | blank name =>
    cases h
    simp [Expression.names, eq_comm]
  | iri | literal | int | decimal | double | bool =>
    cases h
    simp [Expression.names, typed]
  | _ => cases h

theorem Element.ofSelector_eq_var {e : Expression} {x : Element} (h : ofSelector e = .ok x)
    {v : Text} : x = .var v ↔ v ∈ e.names := by
  cases e with
  | var name =>
    cases h
    simp [Expression.names, eq_comm]
  | iri value =>
    cases h
    simp [Expression.names]
  | _ => cases h

theorem Plan.var_mem_objects {e : Expression} {xs : List Element} (h : objects e = .ok xs)
    {v : Text} : .var v ∈ xs ↔ v ∈ e.names := by
  rw [objects.eq_def] at h
  split at h
  · cases h
    simp [Element.widen, Element.typed, Expression.names]
  · obtain ⟨x, hx, rfl⟩ := map_eq_ok.1 h
    rw [List.mem_singleton, eq_comm]
    exact Element.ofExpression_eq_var hx

theorem Modifiers.exists_binds {m : Modifiers} {mods : List Ingredient}
    (h : m.ingredients = .ok mods) {v : Text} :
    (∃ x ∈ mods, x.Binds v) ↔ ∃ e ∈ m.graph.toList, v ∈ e.names := by
  obtain ⟨terms, graphs, hgraphs, rfl⟩ := ingredients_eq_ok h
  calc (∃ x ∈ terms.map Ingredient.condition ++ graphs.map Ingredient.graph, x.Binds v)
      ↔ ∃ g ∈ graphs, g = .var v := by
        simp [or_and_right, exists_or, Ingredient.Binds]
    _ ↔ ∃ e ∈ m.graph.toList, ∃ g, Element.ofSelector e = .ok g ∧ g = .var v :=
        exists_mem_of_mapM_eq_ok hgraphs
    _ ↔ ∃ e ∈ m.graph.toList, v ∈ e.names := by
        refine exists_congr fun e => and_congr_right fun he => ?_
        obtain ⟨g, hg⟩ := exists_mapM_eq_ok.1 ⟨graphs, hgraphs⟩ e he
        rw [hg, ← Element.ofSelector_eq_var hg]
        simp

theorem TriplePattern.exists_binds {t : TriplePattern} {ps : List Plan}
    (h : t.expansion = .ok ps) {v : Text} :
    (∃ x ∈ ps.map Ingredient.leaf, x.Binds v) ↔
      ∃ e ∈ [t.subject, t.predicate, t.object], v ∈ e.names := by
  obtain ⟨s, p, os, hs, hp, ho, hleaves⟩ := expansion_elements h
  obtain ⟨o, ho'⟩ := List.exists_mem_of_ne_nil os (Plan.objects_ne_nil ho)
  have hall : (∃ x ∈ ps.map Ingredient.leaf, x.Binds v) ↔ ∃ o ∈ os, .var v ∈ [s, p, o] := by
    rw [← hleaves (.var v ∈ ·)]
    simp [Ingredient.Binds]
  have hsome : (∃ o ∈ os, .var v ∈ [s, p, o]) ↔ s = .var v ∨ p = .var v ∨ .var v ∈ os := by
    constructor
    · rintro ⟨o, ho, hv⟩
      simp only [List.mem_cons, List.not_mem_nil, or_false] at hv
      rcases hv with rfl | rfl | rfl
      · exact .inl rfl
      · exact .inr (.inl rfl)
      · exact .inr (.inr ho)
    · rintro (rfl | rfl | hv)
      · exact ⟨o, ho', by simp⟩
      · exact ⟨o, ho', by simp⟩
      · exact ⟨_, hv, by simp⟩
  rw [hall, hsome, Element.ofExpression_eq_var hs, Element.ofExpression_eq_var hp,
    Plan.var_mem_objects ho]
  simp

namespace Pattern

theorem exists_binds_own {q : Pattern} {own : List Ingredient} (h : q.own = .ok own) {v : Text} :
    (∃ x ∈ own, x.Binds v) ↔ ∃ e ∈ q.binders, v ∈ e.names := by
  cases q with
  | triple t =>
    obtain ⟨ps, hps, h⟩ := bind_eq_ok.1 h
    obtain ⟨mods, hm, rfl⟩ := Modifiers.around_eq_ok.1 h
    have hleaves := TriplePattern.exists_binds hps (v := v)
    have hmods := Modifiers.exists_binds hm (v := v)
    simp only [List.mem_append, or_and_right, exists_or, binders, hleaves, hmods]
  | bind main var value m =>
    obtain ⟨t, -, h⟩ := bind_eq_ok.1 h
    obtain ⟨mods, hm, rfl⟩ := Modifiers.around_eq_ok.1 h
    rw [List.singleton_append, List.exists_mem_cons_iff, Modifiers.exists_binds hm, binders,
      List.exists_mem_cons_iff]
    exact or_congr_left (eq_comm.trans List.mem_singleton.symm)
  | _ => exact Modifiers.exists_binds h

theorem exists_binds {p : Pattern} {parts : List Ingredient} (h : p.ingredients = .ok parts)
    {v : Text} :
    (∃ x ∈ parts, x.Binds v) ↔ ∃ q ∈ p.nodes, ∃ e ∈ q.binders, v ∈ e.names :=
  exists_mem_ingredients (by simp [Ingredient.Binds, Plan.leafElements])
    (fun _ _ hown => exists_binds_own hown) h

/-- Of what a pattern that is read back binds, the variables are what is not labelled. -/
theorem mem_boundVars_of_rereads {p : Pattern} (hp : Rereads ofForm p p.toForm)
    {parts : List Ingredient} (h : p.ingredients = .ok parts) {v : Text} :
    v ∈ p.boundVars ↔ (∃ x ∈ parts, x.Binds v) ∧ ¬ v.IsLabel := by
  have hparts := partsReread_of_mem_nodes hp
  rw [mem_boundVars, exists_binds h]
  constructor
  · rintro ⟨q, hq, hv⟩
    obtain ⟨hname, hlabel⟩ :=
      (Expression.mem_names_of_rereads ((hparts q hq).binders _ hv)).2 rfl
    exact ⟨⟨q, hq, .var v, hv, hname⟩, hlabel⟩
  · rintro ⟨⟨q, hq, e, he, hv⟩, hlabel⟩
    obtain rfl := (Expression.mem_names_of_rereads ((hparts q hq).binders e he)).1 ⟨hv, hlabel⟩
    exact ⟨q, hq, he⟩

end Pattern

namespace Compile

theorem binds_wherePlan {named : List Text} {p : Pattern} {plan : Plan} {refs : List Text}
    (h : (wherePlan named p).result = .ok (plan, refs)) {v : Text} :
    ∃ parts, p.ingredients = .ok parts ∧ (plan.Binds v ↔ ∃ x ∈ parts, x.Binds v) := by
  obtain ⟨parts, hparts, hi⟩ := parts_wherePlan h
  refine ⟨parts, hparts, ?_⟩
  rw [Plan.binds_iff, hi]
  constructor
  · rintro ⟨x, hx, hv⟩
    rcases List.mem_append.1 hx with hx | hx
    · exact ⟨x, hx, hv⟩
    · obtain ⟨w, hw, hx⟩ := List.mem_flatMap.1 hx
      obtain ⟨g, -, rfl⟩ := List.mem_map.1 hx
      obtain rfl : v = w := by simpa [Ingredient.Binds, Plan.leafElements] using hv
      exact ⟨_, Ingredient.mem_graphVariables.1 hw, rfl⟩
  · rintro ⟨x, hx, hv⟩
    exact ⟨x, List.mem_append_left _ hx, hv⟩

theorem selection_body {o : Options} {q : Query} {c : Command} (h : (body o q).result = .ok c)
    (hk : q.kind = .select ∧ q.selectAll = true ∨ q.kind = .ask) :
    c.selection = q.allVariables.map (⟨·, none⟩) := by
  rcases hk with ⟨hk, hall⟩ | hk
  · rw [body, hk] at h
    simp only [select] at h
    split at h
    · cases h
    · obtain ⟨_, _, h⟩ := Traced.bind_eq_ok.1 h
      obtain ⟨⟨plan, refs⟩, _, h⟩ := Traced.bind_eq_ok.1 h
      obtain ⟨_, _, h⟩ := Traced.bind_eq_ok.1 h
      obtain ⟨_, _, h⟩ := Traced.bind_eq_ok.1 h
      obtain ⟨selection, hs, h⟩ := Traced.bind_eq_ok.1 h
      rw [projection, if_pos hall] at hs
      cases hs
      cases h
      rfl
  · rw [body, hk] at h
    simp only [ask] at h
    split at h
    · cases h
    · split at h
      · cases h
      · obtain ⟨_, _, h⟩ := Traced.bind_eq_ok.1 h
        obtain ⟨⟨plan, refs⟩, _, h⟩ := Traced.bind_eq_ok.1 h
        obtain ⟨_, _, h⟩ := Traced.bind_eq_ok.1 h
        cases h
        rfl

end Compile

/-- A query for all variables, and one that asks, projects the variables that its plan binds, each
once, and not the blank nodes. Conditions and bound terms bind nothing, so variables that occur
only there are not projected. -/
theorem compile_projects_bound {o : Options} {t : Text} {q : Query} {c : Command}
    (hq : Query.ofText t = .ok q)
    (hk : q.kind = .select ∧ q.selectAll = true ∨ q.kind = .ask)
    (hc : (compile o q).result = .ok c) :
    (c.selection.map (·.var)).Nodup ∧ (∀ s ∈ c.selection, s.value = none) ∧
      ∀ v, v ∈ c.selection.map (·.var) ↔ c.plan.Binds v ∧ ¬ v.IsLabel := by
  have hkind : q.kind = .select ∨ q.kind = .construct ∨ q.kind = .ask := by tauto
  obtain ⟨p, plan, hp, hw, hplan⟩ := Compile.body_ok hc hkind
  have hselection := Compile.selection_body hc hk
  have hvars : c.selection.map (·.var) = unique p.boundVars := by
    rw [hselection, List.map_map, Query.allVariables, hp]
    exact List.map_id _
  rw [hvars]
  refine ⟨nodup_unique _, ?_, ?_⟩
  · rw [hselection]
    simp
  · intro v
    obtain ⟨parts, hparts, hbinds⟩ := Compile.binds_wherePlan hw (v := v)
    have hread := (Query.ofText_isReread hq).pattern p hp
    rw [mem_unique, Pattern.mem_boundVars_of_rereads hread hparts, ← hbinds, hplan,
      Plan.binds_iff, Plan.binds_iff, Plan.ingredients_simplify]

/-- A query with a blank node, a variable that selects one of two graphs, and variables in a filter
and in a bound expression only. -/
def bindingQuery : Text :=
  "\x7b:select * :from-named [<g1> <g2>] " ++
    ":where (bind (group [?s <p> _:b] [?s (* <q>) 7 :filter (bound ?f)] :graph ?g) ?t (+ ?h 1))\x7d"

theorem compile_projects_bound_bindingQuery :
    ∃ q c, Query.ofText bindingQuery = .ok q ∧ q.kind = .select ∧ q.selectAll = true ∧
      (compile {} q).result = .ok c ∧ c.selection.map (·.var) = [("g" : Text), "s", "t"] ∧
      ∀ v, v ∈ c.selection.map (·.var) ↔ c.plan.Binds v ∧ ¬ v.IsLabel := by
  obtain ⟨q, hq, htest⟩ := exists_ok_of_any (x := Query.ofText bindingQuery)
    (p := fun q => q.kind = .select && q.selectAll && (compile {} q).result.toOption.any
      fun c => c.selection.map (·.var) = [("g" : Text), "s", "t"]) (by decide +kernel)
  simp only [Bool.and_eq_true, decide_eq_true_eq] at htest
  obtain ⟨⟨hkind, hall⟩, htest⟩ := htest
  obtain ⟨c, hc, hvars⟩ := exists_ok_of_any htest
  exact ⟨q, c, hq, hkind, hall, hc, of_decide_eq_true hvars,
    (compile_projects_bound hq (.inl ⟨hkind, hall⟩) hc).2.2⟩

end GraphQuery
