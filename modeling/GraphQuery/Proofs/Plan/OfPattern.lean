import GraphQuery.Proofs.Plan.Ingredients
import GraphQuery.Proofs.Success

namespace GraphQuery

/-- A mapped pattern has the given ingredients. -/
structure Mapped.Renders (m : Mapped) (parts : List Ingredient) : Prop where
  plan : m.plan.ingredients = parts
  selectors : m.selectors = parts.filterMap Ingredient.graph?

theorem Term.filterMap_graph?_ingredients (t : Term) :
    t.ingredients.filterMap Ingredient.graph? = [] := by
  rw [Term.ingredients, List.filterMap_map]
  exact List.filterMap_eq_nil_iff.2 fun _ _ => rfl

namespace Mapped.Renders

variable {m n : Mapped} {parts : List Ingredient}

theorem filter (hm : m.Renders parts) {e? : Option Expression} (h : m.filter e? = .ok n) :
    ∃ extra, Ingredient.ofFilter e? = .ok extra ∧ n.Renders (parts ++ extra) := by
  cases e? with
  | none =>
    cases h
    exact ⟨[], rfl, by rwa [List.append_nil]⟩
  | some e =>
    obtain ⟨c, hc, rfl⟩ := map_eq_ok.1 h
    refine ⟨c.ingredients, map_eq_ok.2 ⟨c, hc, rfl⟩, ?_, ?_⟩
    · rw [← hm.plan]
      rfl
    · rw [List.filterMap_append, Term.filterMap_graph?_ingredients, List.append_nil]
      exact hm.selectors

theorem select (hm : m.Renders parts) {e? : Option Expression} (h : m.select e? = .ok n) :
    ∃ extra, Ingredient.ofGraph e? = .ok extra ∧ n.Renders (parts ++ extra) := by
  cases e? with
  | none =>
    cases h
    exact ⟨[], rfl, by rwa [List.append_nil]⟩
  | some e =>
    obtain ⟨g, hg, rfl⟩ := map_eq_ok.1 h
    refine ⟨[.graph g], map_eq_ok.2 ⟨g, hg, rfl⟩, ?_, ?_⟩
    · rw [← hm.plan]
      rfl
    · rw [List.filterMap_append, ← hm.selectors]
      rfl

theorem modify (hm : m.Renders parts) {modifiers : Modifiers}
    (h : m.modify modifiers = .ok n) :
    ∃ all, modifiers.around parts = .ok all ∧ n.Renders all := by
  rw [Mapped.modify] at h
  split at h
  · cases h
  · rename_i k hk
    obtain ⟨conditions, hc, hk⟩ := hm.filter hk
    obtain ⟨graphs, hg, hn⟩ := hk.select h
    refine ⟨parts ++ (conditions ++ graphs), map_eq_ok.2 ⟨_, ?_, rfl⟩, ?_⟩
    · exact bind_eq_ok.2 ⟨_, hc, bind_eq_ok.2 ⟨_, hg, rfl⟩⟩
    · rwa [← List.append_assoc]

theorem filterMap_gather (partss : List (List Ingredient)) :
    (Ingredient.gather partss).filterMap Ingredient.graph? =
      partss.flatMap (·.filterMap Ingredient.graph?) := by
  cases partss with
  | nil => rfl
  | cons => rw [Ingredient.gather, List.filterMap_flatten, List.flatMap_def]; nofun

theorem combine {build : List Plan → Plan}
    (hb : ∀ ps, (build ps).ingredients = Ingredient.gather (ps.map Plan.ingredients))
    {ms : List Mapped} {partss : List (List Ingredient)} (h : List.Forall₂ Renders ms partss) :
    (Mapped.combine build ms).Renders (Ingredient.gather partss) := by
  have hp : (ms.map (·.plan)).map Plan.ingredients = partss := by
    induction h with
    | nil => rfl
    | cons h _ ih => rw [List.map_cons, List.map_cons, h.plan, ih]
  have hs : ms.flatMap (·.selectors) = partss.flatMap (·.filterMap Ingredient.graph?) := by
    clear hp
    induction h with
    | nil => rfl
    | cons h _ ih => rw [List.flatMap_cons, List.flatMap_cons, h.selectors, ih]
  refine ⟨?_, ?_⟩
  · rw [Mapped.combine, hb, hp]
  · rw [filterMap_gather]
    exact hs

theorem join {a b : Mapped} {first second : List Ingredient} (ha : a.Renders first)
    (hb : b.Renders second) :
    (Mapped.mk (a.plan.join b.plan) (a.selectors ++ b.selectors)).Renders (first ++ second) := by
  constructor
  · rw [Plan.ingredients_join, ha.plan, hb.plan]
  · rw [List.filterMap_append, ha.selectors, hb.selectors]

theorem bind (hm : m.Renders parts) (var : Text) (t : Term) :
    (Mapped.mk (.bind m.plan var t) m.selectors).Renders (parts ++ [.binding var t]) := by
  constructor
  · rw [← hm.plan]
    rfl
  · rw [List.filterMap_append, ← hm.selectors]
    exact (List.append_nil _).symm

end Mapped.Renders

theorem TriplePattern.ofTriple_eq (t : TriplePattern) :
    Plan.ofTriple t = t.expansion.map .any := by
  simp only [Plan.ofTriple, expansion, Plan.withPath_eq_alternatives]
  cases Element.ofExpression t.subject with
  | error => rfl
  | ok subject =>
    cases Element.ofExpression t.predicate with
    | error => rfl
    | ok predicate =>
      cases Plan.objects t.object with
      | error => rfl
      | ok objects => rfl

theorem Element.widen_ne_nil (v : Int) : widen v ≠ [] := by simp [widen, Widening.datatypes]

theorem Plan.objects_ne_nil {e : Expression} {es : List Element} (h : objects e = .ok es) :
    es ≠ [] := by
  rw [objects.eq_def] at h
  split at h
  · cases h
    exact Element.widen_ne_nil _
  · obtain ⟨x, _, rfl⟩ := map_eq_ok.1 h
    exact List.cons_ne_nil _ _

theorem TriplePattern.expansion_ne_nil {t : TriplePattern} {ps : List Plan}
    (h : t.expansion = .ok ps) : ps ≠ [] := by
  obtain ⟨subject, _, h⟩ := bind_eq_ok.1 h
  obtain ⟨predicate, _, h⟩ := bind_eq_ok.1 h
  obtain ⟨objects, ho, h⟩ := bind_eq_ok.1 h
  cases h
  obtain ⟨object, rest, rfl⟩ := List.exists_cons_of_ne_nil (Plan.objects_ne_nil ho)
  rw [List.flatMap_cons]
  exact List.cons_ne_nil _ _

theorem TriplePattern.ingredients_of_mem_expansion {t : TriplePattern} {ps : List Plan}
    (h : t.expansion = .ok ps) {p : Plan} (hp : p ∈ ps) : p.ingredients = [.leaf p] := by
  obtain ⟨subject, _, h⟩ := bind_eq_ok.1 h
  obtain ⟨predicate, _, h⟩ := bind_eq_ok.1 h
  obtain ⟨objects, _, h⟩ := bind_eq_ok.1 h
  cases h
  obtain ⟨object, _, hp⟩ := List.mem_flatMap.1 hp
  rcases Constraint.eq_of_mem_alternatives hp with rfl | ⟨zero, rfl⟩
  · rfl
  · rfl

theorem TriplePattern.ingredients_any_expansion {t : TriplePattern} {ps : List Plan}
    (h : t.expansion = .ok ps) : (Plan.any ps).ingredients = ps.map .leaf := by
  have hm : ps.map Plan.ingredients = ps.map fun p => [.leaf p] :=
    List.map_congr_left fun p hp => ingredients_of_mem_expansion h hp
  obtain ⟨p, rest, rfl⟩ := List.exists_cons_of_ne_nil (expansion_ne_nil h)
  rw [Plan.ingredients_any, hm]
  exact List.map_eq_flatMap.symm

theorem TriplePattern.toPlan_renders {t : TriplePattern} {m : Mapped} (h : t.toPlan = .ok m) :
    ∃ parts, t.ingredients = .ok parts ∧ m.Renders parts := by
  rw [toPlan, ofTriple_eq] at h
  split at h
  · cases h
  · rename_i p hp
    obtain ⟨ps, hps, rfl⟩ := map_eq_ok.1 hp
    have hr : (Mapped.mk (Plan.any ps) []).Renders (ps.map .leaf) := by
      refine ⟨ingredients_any_expansion hps, ?_⟩
      rw [List.filterMap_map]
      exact (List.filterMap_eq_nil_iff.2 fun _ _ => rfl).symm
    obtain ⟨parts, ha, hm⟩ := hr.modify h
    exact ⟨parts, bind_eq_ok.2 ⟨ps, hps, ha⟩, hm⟩

theorem TriplePattern.toPlans_renders {ts : List TriplePattern} {ms : List Mapped}
    (h : toPlans ts = .ok ms) :
    ∃ partss, ts.mapM ingredients = .ok partss ∧ List.Forall₂ Mapped.Renders ms partss := by
  induction ts generalizing ms with
  | nil =>
    cases h
    exact ⟨[], rfl, .nil⟩
  | cons t ts ih =>
    rw [toPlans] at h
    split at h
    · cases h
    · rename_i m hm
      obtain ⟨ns, hns, rfl⟩ := map_eq_ok.1 h
      obtain ⟨parts, hp, hr⟩ := toPlan_renders hm
      obtain ⟨partss, hps, hrs⟩ := ih hns
      refine ⟨parts :: partss, ?_, .cons hr hrs⟩
      exact mapM_eq_ok.2 (.cons hp (mapM_eq_ok.1 hps))

/-- The plan of a pattern is made of what the pattern is made of. -/
theorem Pattern.toPlan_renders {p : Pattern} {m : Mapped} (h : p.toPlan = .ok m) :
    ∃ parts, p.ingredients = .ok parts ∧ m.Renders parts := by
  induction p using Pattern.rec
      (motive_2 := fun ps => ∀ skip ms, Pattern.toPlans skip ps = .ok ms →
        ∃ partss, Pattern.ingredientsOf (fun p => !(skip && p.isEmpty)) ps = .ok partss ∧
          List.Forall₂ Mapped.Renders ms partss) generalizing m with
  | missing => cases h
  | empty modifiers => exact Mapped.Renders.modify ⟨rfl, rfl⟩ h
  | group ps modifiers ih =>
    rw [toPlan] at h
    split at h
    · cases h
    · rename_i ms hms
      obtain ⟨partss, hp, hr⟩ := ih true ms hms
      obtain ⟨parts, ha, hm⟩ := (Mapped.Renders.combine Plan.ingredients_all hr).modify h
      exact ⟨parts, bind_eq_ok.2 ⟨partss, hp, ha⟩, hm⟩
  | union ps modifiers ih =>
    rw [toPlan] at h
    split at h
    · cases h
    · rename_i ms hms
      obtain ⟨partss, hp, hr⟩ := ih false ms hms
      obtain ⟨parts, ha, hm⟩ := (Mapped.Renders.combine Plan.ingredients_any hr).modify h
      exact ⟨parts, bind_eq_ok.2 ⟨partss, hp, ha⟩, hm⟩
  | optional main extra modifiers ihm ihe =>
    rw [toPlan] at h
    split at h
    · cases h
    · rename_i a ha
      split at h
      · cases h
      · rename_i b hb
        obtain ⟨first, hf, hra⟩ := ihm ha
        obtain ⟨second, hs, hrb⟩ := ihe hb
        obtain ⟨parts, ha, hm⟩ := (hra.join hrb).modify h
        exact ⟨parts, bind_eq_ok.2 ⟨first, hf, bind_eq_ok.2 ⟨second, hs, ha⟩⟩, hm⟩
  | triple t => exact TriplePattern.toPlan_renders h
  | triples ts modifiers =>
    rw [toPlan] at h
    split at h
    · cases h
    · rename_i ms hms
      obtain ⟨partss, hp, hr⟩ := TriplePattern.toPlans_renders hms
      obtain ⟨parts, ha, hm⟩ := (Mapped.Renders.combine Plan.ingredients_all hr).modify h
      exact ⟨parts, bind_eq_ok.2 ⟨partss, hp, ha⟩, hm⟩
  | bind main var value modifiers ih =>
    rw [toPlan] at h
    split at h
    · cases h
    · rename_i a ha
      split at h
      · cases h
      · rename_i t ht
        obtain ⟨first, hf, hra⟩ := ih ha
        obtain ⟨parts, ha, hm⟩ := (hra.bind var t).modify h
        exact ⟨parts, bind_eq_ok.2 ⟨first, hf, bind_eq_ok.2 ⟨t, ht, ha⟩⟩, hm⟩
  | nil =>
    rename_i skip ms h
    cases h
    exact ⟨[], rfl, .nil⟩
  | cons p ps ihp ihps =>
    rename_i skip ms h
    rw [toPlans] at h
    by_cases hs : (skip && p.isEmpty) = true
    · rw [if_pos hs] at h
      obtain ⟨partss, hp, hr⟩ := ihps skip ms h
      refine ⟨partss, ?_, hr⟩
      rw [ingredientsOf, if_neg (by simp [hs])]
      exact hp
    · rw [if_neg hs] at h
      split at h
      · cases h
      · rename_i m hm
        obtain ⟨ns, hns, rfl⟩ := map_eq_ok.1 h
        obtain ⟨parts, hp, hr⟩ := ihp hm
        obtain ⟨partss, hps, hrs⟩ := ihps skip ns hns
        refine ⟨parts :: partss, ?_, .cons hr hrs⟩
        rw [ingredientsOf, if_pos (by rw [Bool.eq_false_iff.2 hs]; rfl)]
        exact bind_eq_ok.2 ⟨parts, hp, bind_eq_ok.2 ⟨partss, hps, rfl⟩⟩

end GraphQuery
