import GraphQuery.Proofs.Plan.OfPattern
import GraphQuery.Proofs.Plan.Places
import GraphQuery.Proofs.Query.Nodes

namespace GraphQuery

namespace Plan

def own : Plan → List Ingredient
  | conj _ | disj _ | minus .. => []
  | optional _ _ condition | filtered _ condition => condition.ingredients
  | within _ graph => [.graph graph]
  | bind _ var value => [.binding var value]
  | p => [.leaf p]

theorem mem_ingredients_iff {p : Plan} {x : Ingredient} :
    x ∈ p.ingredients ↔ x ∈ p.own ∨ ∃ c ∈ p.children, x ∈ c.ingredients := by
  cases p with
  | conj operands | disj operands =>
    simp [ingredients, own, children, ingredientsAll_eq_flatMap]
  | minus left right => simp [ingredients, own, children]
  | optional main extra condition | filtered body condition | within body graph
  | bind body var value =>
    simp only [ingredients, own, children, List.mem_append, List.mem_cons, List.not_mem_nil,
      or_false, exists_eq_or_imp, exists_eq_left]
    tauto
  | _ => simp [ingredients, own, children]

theorem mem_ingredients {p : Plan} {x : Ingredient} :
    x ∈ p.ingredients ↔ ∃ q, p.Contains q ∧ x ∈ q.own := by
  induction p using childInduction with
  | step p ih =>
    rw [mem_ingredients_iff]
    constructor
    · rintro (hx | ⟨c, hc, hx⟩)
      · exact ⟨p, contains_iff.2 (.inl rfl), hx⟩
      · obtain ⟨q, hq, hx⟩ := (ih c hc).1 hx
        exact ⟨q, contains_iff.2 (.inr ⟨c, hc, hq⟩), hx⟩
    · rintro ⟨q, hq, hx⟩
      rcases contains_iff.1 hq with rfl | ⟨c, hc, hq⟩
      · exact .inl hx
      · exact .inr ⟨c, hc, (ih c hc).2 ⟨q, hq, hx⟩⟩

end Plan

theorem Ingredient.mem_gather {partss : List (List Ingredient)} {x : Ingredient}
    (hx : x ≠ .leaf .nothing) : x ∈ gather partss ↔ ∃ parts ∈ partss, x ∈ parts := by
  cases partss with
  | nil => simp [gather, hx]
  | cons parts rest => exact List.mem_flatten

theorem Modifiers.around_eq_ok {m : Modifiers} {inner parts : List Ingredient} :
    m.around inner = .ok parts ↔ ∃ mods, m.ingredients = .ok mods ∧ inner ++ mods = parts :=
  map_eq_ok

theorem Modifiers.ingredients_eq_ok {m : Modifiers} {mods : List Ingredient}
    (h : m.ingredients = .ok mods) :
    ∃ (terms : List Term) (graphs : List Element),
      m.graph.toList.mapM Element.ofSelector = .ok graphs ∧
      mods = terms.map .condition ++ graphs.map .graph := by
  obtain ⟨conditions, hc, h⟩ := bind_eq_ok.1 h
  obtain ⟨selected, hs, h⟩ := bind_eq_ok.1 h
  cases h
  have hterms : ∃ terms : List Term, conditions = terms.map .condition := by
    cases hf : m.filter with
    | none =>
      rw [hf] at hc
      cases hc
      exact ⟨[], rfl⟩
    | some e =>
      rw [hf] at hc
      obtain ⟨t, -, rfl⟩ := map_eq_ok.1 hc
      exact ⟨t.conjuncts, rfl⟩
  obtain ⟨terms, rfl⟩ := hterms
  cases hg : m.graph with
  | none =>
    rw [hg] at hs
    cases hs
    exact ⟨terms, [], rfl, rfl⟩
  | some e =>
    rw [hg] at hs
    obtain ⟨g, hsome, rfl⟩ := map_eq_ok.1 hs
    exact ⟨terms, [g], mapM_eq_ok.2 (.cons hsome .nil), rfl⟩

namespace Pattern

def own : Pattern → Except MeaningFault (List Ingredient)
  | triple t => t.ingredients
  | bind _ var value m => do m.around [.binding var (← value.toTerm)]
  | p => p.modifiers.ingredients

theorem ingredients_of_isEmpty {p : Pattern} (h : p.isEmpty = true) :
    p.ingredients = .ok [.leaf .nothing] := by
  rw [isEmpty_iff.1 h]
  rfl

theorem ingredientsOf_eq_mapM (keep : Pattern → Bool) (ps : List Pattern) :
    ingredientsOf keep ps = (ps.filter keep).mapM ingredients := by
  induction ps with
  | nil => rfl
  | cons p ps ih =>
    rw [ingredientsOf, List.filter_cons, ih]
    split
    · rw [List.mapM_cons]
    · rfl

/-- Patterns that are left out would add nothing but a leaf that matches nothing. -/
theorem mem_gather_kept {keep : Pattern → Bool}
    (hkeep : ∀ p, keep p = false → p.ingredients = .ok [.leaf .nothing]) {ps : List Pattern}
    {kept : List (List Ingredient)} (h : (ps.filter keep).mapM ingredients = .ok kept) :
    ∃ partss, ps.mapM ingredients = .ok partss ∧ ∀ x, x ≠ .leaf .nothing →
      (x ∈ Ingredient.gather kept ↔ ∃ parts ∈ partss, x ∈ parts) := by
  have hall : ∀ p ∈ ps, ∃ parts, p.ingredients = .ok parts := by
    intro p hp
    by_cases hk : keep p = true
    · exact exists_mapM_eq_ok.1 ⟨kept, h⟩ p (List.mem_filter.2 ⟨hp, hk⟩)
    · exact ⟨_, hkeep p (Bool.eq_false_iff.2 hk)⟩
  obtain ⟨partss, hps⟩ := exists_mapM_eq_ok.2 hall
  refine ⟨partss, hps, ?_⟩
  intro x hx
  rw [Ingredient.mem_gather hx, exists_mem_of_mapM_eq_ok h, exists_mem_of_mapM_eq_ok hps]
  constructor
  · rintro ⟨p, hp, hx⟩
    exact ⟨p, List.mem_of_mem_filter hp, hx⟩
  · rintro ⟨p, hp, parts, hparts, hmem⟩
    refine ⟨p, List.mem_filter.2 ⟨hp, ?_⟩, parts, hparts, hmem⟩
    by_contra hnot
    rw [hkeep p (Bool.eq_false_iff.2 hnot)] at hparts
    cases hparts
    exact hx (List.mem_singleton.1 hmem)

/-- The given ingredients are the own ones of a pattern and those of its parts. -/
def IsMadeOf (p : Pattern) (parts : List Ingredient) : Prop :=
  ∃ own partss, p.own = .ok own ∧ p.children.mapM ingredients = .ok partss ∧
    ∀ x, x ≠ .leaf .nothing → (x ∈ parts ↔ x ∈ own ∨ ∃ others ∈ partss, x ∈ others)

theorem isMadeOf_of_kept {p : Pattern} {parts : List Ingredient}
    {kept : List (List Ingredient)} {keep : Pattern → Bool} (hown : p.own = p.modifiers.ingredients)
    (hkeep : ∀ p, keep p = false → p.ingredients = .ok [.leaf .nothing])
    (hkept : (p.children.filter keep).mapM ingredients = .ok kept)
    (h : p.modifiers.around (Ingredient.gather kept) = .ok parts) : p.IsMadeOf parts := by
  obtain ⟨mods, hm, rfl⟩ := Modifiers.around_eq_ok.1 h
  obtain ⟨partss, hps, hmem⟩ := mem_gather_kept hkeep hkept
  refine ⟨mods, partss, hown.trans hm, hps, ?_⟩
  intro x hx
  rw [List.mem_append, hmem x hx, or_comm]

theorem isMadeOf_ingredients {p : Pattern} {parts : List Ingredient}
    (h : p.ingredients = .ok parts) : p.IsMadeOf parts := by
  cases p with
  | missing => cases h
  | empty m =>
    obtain ⟨mods, hm, rfl⟩ := Modifiers.around_eq_ok.1 h
    refine ⟨mods, [], hm, rfl, ?_⟩
    intro x hx
    simp [hx]
  | group ps m =>
    obtain ⟨kept, hps, ha⟩ := bind_eq_ok.1 h
    rw [ingredientsOf_eq_mapM] at hps
    exact isMadeOf_of_kept rfl (fun p hp => ingredients_of_isEmpty (by simpa using hp)) hps ha
  | union ps m =>
    obtain ⟨kept, hps, ha⟩ := bind_eq_ok.1 h
    rw [ingredientsOf_eq_mapM] at hps
    exact isMadeOf_of_kept rfl (fun _ hp => absurd hp (by decide)) hps ha
  | optional main extra m =>
    obtain ⟨first, hf, h⟩ := bind_eq_ok.1 h
    obtain ⟨second, hs, h⟩ := bind_eq_ok.1 h
    obtain ⟨mods, hm, rfl⟩ := Modifiers.around_eq_ok.1 h
    refine ⟨mods, [first, second], hm, mapM_eq_ok.2 (.cons hf (.cons hs .nil)), ?_⟩
    intro x _
    simp only [List.mem_append, List.mem_cons, List.not_mem_nil, or_false, exists_eq_or_imp,
      exists_eq_left]
    exact or_comm
  | triple t =>
    refine ⟨parts, [], h, rfl, ?_⟩
    intro x _
    simp
  | triples ts m =>
    obtain ⟨kept, hts, ha⟩ := bind_eq_ok.1 h
    have hps : ((ts.map triple).filter fun _ => true).mapM ingredients = .ok kept := by
      rw [List.filter_true, List.mapM_map]
      exact hts
    exact isMadeOf_of_kept rfl (fun _ hp => absurd hp (by decide)) hps ha
  | bind main var value m =>
    obtain ⟨first, hf, h⟩ := bind_eq_ok.1 h
    obtain ⟨t, ht, h⟩ := bind_eq_ok.1 h
    obtain ⟨mods, hm, rfl⟩ := Modifiers.around_eq_ok.1 h
    refine ⟨[.binding var t] ++ mods, [first], ?_, mapM_eq_ok.2 (.cons hf .nil), ?_⟩
    · exact bind_eq_ok.2 ⟨t, ht, Modifiers.around_eq_ok.2 ⟨mods, hm, rfl⟩⟩
    · intro x _
      simp only [List.append_assoc, List.mem_append, List.mem_singleton, exists_eq_left]
      exact or_comm

/-- What can be told of the own ingredients of every pattern can be told of a whole one by the
patterns that stand in it. -/
theorem exists_mem_ingredients {P : Ingredient → Prop} {Q : Pattern → Prop}
    (hnothing : ¬ P (.leaf .nothing))
    (hown : ∀ q own, q.own = .ok own → ((∃ x ∈ own, P x) ↔ Q q)) {p : Pattern}
    {parts : List Ingredient} (h : p.ingredients = .ok parts) :
    (∃ x ∈ parts, P x) ↔ ∃ q ∈ p.nodes, Q q := by
  induction p using childInduction generalizing parts with
  | step p ih =>
    obtain ⟨own, partss, howns, hps, hmem⟩ := isMadeOf_ingredients h
    have hsplit : (∃ x ∈ parts, P x) ↔
        (∃ x ∈ own, P x) ∨ ∃ others ∈ partss, ∃ x ∈ others, P x := by
      have hne (x : Ingredient) (hx : P x) : x ≠ .leaf .nothing := by
        rintro rfl
        exact hnothing hx
      grind
    rw [hsplit, hown p own howns, exists_mem_nodes, exists_mem_of_mapM_eq_ok hps]
    refine or_congr_right (exists_congr fun c => and_congr_right fun hc => ?_)
    obtain ⟨others, hothers⟩ := exists_mapM_eq_ok.1 ⟨partss, hps⟩ c hc
    rw [← ih c hc hothers, hothers]
    simp

end Pattern

theorem TriplePattern.expansion_elements {t : TriplePattern} {ps : List Plan}
    (h : t.expansion = .ok ps) :
    ∃ s p os, Element.ofExpression t.subject = .ok s ∧ Element.ofExpression t.predicate = .ok p ∧
      Plan.objects t.object = .ok os ∧ ∀ P : List Element → Prop,
        (∃ leaf ∈ ps, P leaf.leafElements) ↔ ∃ o ∈ os, P [s, p, o] := by
  obtain ⟨s, hs, h⟩ := bind_eq_ok.1 h
  obtain ⟨p, hp, h⟩ := bind_eq_ok.1 h
  obtain ⟨os, ho, h⟩ := bind_eq_ok.1 h
  cases h
  refine ⟨s, p, os, hs, hp, ho, ?_⟩
  intro P
  constructor
  · rintro ⟨leaf, hleaf, hP⟩
    obtain ⟨o, ho, hleaf⟩ := List.mem_flatMap.1 hleaf
    have helements : leaf.leafElements = [s, p, o] := by
      rcases Constraint.eq_of_mem_alternatives hleaf with rfl | ⟨zero, rfl⟩
      · rfl
      · rfl
    exact ⟨o, ho, helements ▸ hP⟩
  · rintro ⟨o, ho, hP⟩
    exact ⟨_, List.mem_flatMap.2 ⟨o, ho, List.mem_cons_self⟩, hP⟩

def Plan.IsOfTriple : Plan → Prop
  | constraint _ | closure .. => True
  | _ => False

theorem TriplePattern.isOfTriple_of_mem {t : TriplePattern} {ps : List Plan}
    (h : t.expansion = .ok ps) {l : Plan} (hl : l ∈ ps) : l.IsOfTriple := by
  obtain ⟨s, -, h⟩ := bind_eq_ok.1 h
  obtain ⟨p, -, h⟩ := bind_eq_ok.1 h
  obtain ⟨os, -, h⟩ := bind_eq_ok.1 h
  cases h
  obtain ⟨o, -, hl⟩ := List.mem_flatMap.1 hl
  rcases Constraint.eq_of_mem_alternatives hl with rfl | ⟨zero, rfl⟩
  · trivial
  · trivial

theorem Modifiers.leaf_notMem {m : Modifiers} {mods : List Ingredient}
    (h : m.ingredients = .ok mods) (p : Plan) : .leaf p ∉ mods := by
  obtain ⟨terms, graphs, -, rfl⟩ := ingredients_eq_ok h
  simp

namespace Pattern

theorem isOfTriple_of_leaf_mem_own {q : Pattern} {own : List Ingredient} (h : q.own = .ok own)
    {l : Plan} (hl : .leaf l ∈ own) : l.IsOfTriple := by
  cases q with
  | triple t =>
    obtain ⟨ps, hps, h⟩ := bind_eq_ok.1 h
    obtain ⟨mods, hm, rfl⟩ := Modifiers.around_eq_ok.1 h
    rcases List.mem_append.1 hl with hl | hl
    · obtain ⟨l, hmem, hl⟩ := List.mem_map.1 hl
      cases hl
      exact TriplePattern.isOfTriple_of_mem hps hmem
    · exact absurd hl (Modifiers.leaf_notMem hm l)
  | bind main var value m =>
    obtain ⟨t, -, h⟩ := bind_eq_ok.1 h
    obtain ⟨mods, hm, rfl⟩ := Modifiers.around_eq_ok.1 h
    rcases List.mem_cons.1 hl with hl | hl
    · cases hl
    · exact absurd hl (Modifiers.leaf_notMem hm l)
  | _ => exact absurd hl (Modifiers.leaf_notMem h l)

theorem isOfTriple_of_leaf_mem {p : Pattern} {parts : List Ingredient}
    (h : p.ingredients = .ok parts) {l : Plan} (hl : .leaf l ∈ parts) :
    l = .nothing ∨ l.IsOfTriple := by
  by_contra hnot
  obtain ⟨hnothing, htriple⟩ := not_or.1 hnot
  have hsome := exists_mem_ingredients (P := (· = .leaf l)) (Q := fun _ => False)
    (fun he => hnothing (by injection he with he; exact he.symm))
    (fun q own hown => ⟨fun ⟨x, hx, hxl⟩ => htriple (isOfTriple_of_leaf_mem_own hown (hxl ▸ hx)),
      nofun⟩) h
  obtain ⟨q, -, hq⟩ := hsome.1 ⟨_, hl, rfl⟩
  exact hq

end Pattern

end GraphQuery
