import GraphQuery.Proofs.Command.Phases

namespace GraphQuery

mutual

/-- The graphs in which parts of a plan are evaluated, inner before outer and left to right. -/
def Plan.graphs : Plan → List Element
  | .conj operands | .disj operands => Plan.graphsAll operands
  | .minus left right => Plan.graphs left ++ Plan.graphs right
  | .optional main extra _ => Plan.graphs main ++ Plan.graphs extra
  | .filtered body _ | .bind body _ _ => Plan.graphs body
  | .within body graph => Plan.graphs body ++ [graph]
  | _ => []

def Plan.graphsAll : List Plan → List Element
  | [] => []
  | p :: rest => Plan.graphs p ++ Plan.graphsAll rest

end

mutual

/-- The graph selectors of a pattern as they are written, inner before outer and left to right. -/
def Pattern.graphSelectors : Pattern → List Expression
  | .missing => []
  | .empty m => m.graph.toList
  | .group ps m | .union ps m => Pattern.graphSelectorsAll ps ++ m.graph.toList
  | .optional main extra m =>
    Pattern.graphSelectors main ++ Pattern.graphSelectors extra ++ m.graph.toList
  | .triple t => t.modifiers.graph.toList
  | .triples ts m => ts.flatMap (·.modifiers.graph.toList) ++ m.graph.toList
  | .bind main _ _ m => Pattern.graphSelectors main ++ m.graph.toList

def Pattern.graphSelectorsAll : List Pattern → List Expression
  | [] => []
  | p :: rest => Pattern.graphSelectors p ++ Pattern.graphSelectorsAll rest

end

def Element.var? : Element → Option Text
  | var name => some name
  | _ => none

def Element.iri? : Element → Option Text
  | iri value => some value
  | _ => none

def Expression.iri? : Expression → Option Text
  | iri value => some value
  | _ => none

/-- A written selector and the graph that it stands for: the same variable, or the same IRI. -/
inductive Expression.Selects : Expression → Element → Prop
  | var (name : Text) : Selects (.var name) (.var name)
  | iri (value : Text) : Selects (.iri value) (.iri value)

theorem Element.ofSelector_eq_ok {e : Expression} {g : Element} (h : ofSelector e = .ok g) :
    e.Selects g := by
  cases e with
  | var name =>
    cases h
    exact .var name
  | iri value =>
    cases h
    exact .iri value
  | _ => cases h

theorem Expression.iris_eq_of_selects {es : List Expression} {gs : List Element}
    (h : List.Forall₂ Selects es gs) : es.filterMap iri? = gs.filterMap Element.iri? := by
  induction h with
  | nil => rfl
  | cons hfirst _ ih =>
    cases hfirst with
    | var name => exact ih
    | iri value => exact congrArg (value :: ·) ih

theorem Plan.graphs_eq (p : Plan) : p.graphs = p.ingredients.filterMap Ingredient.graph? := by
  induction p using Plan.rec (motive_2 := fun ps =>
      graphsAll ps = (ingredientsAll ps).filterMap Ingredient.graph?) with
  | conj operands ih | disj operands ih => exact ih
  | minus left right ihl ihr =>
    rw [graphs, ingredients, List.filterMap_append, ihl, ihr]
  | optional main extra condition ihm ihe =>
    rw [graphs, ingredients, List.filterMap_append, List.filterMap_append, ihm, ihe,
      Term.filterMap_graph?_ingredients, List.append_nil]
  | filtered body condition ih =>
    rw [graphs, ingredients, List.filterMap_append, ih, Term.filterMap_graph?_ingredients,
      List.append_nil]
  | within body graph ih =>
    rw [graphs, ingredients, List.filterMap_append, ih]
    rfl
  | bind body var value ih =>
    rw [graphs, ingredients, List.filterMap_append, ih]
    exact (List.append_nil _).symm
  | nil => rfl
  | cons p ps ihp ihps =>
    rw [graphsAll, ingredientsAll, List.filterMap_append, ihp, ihps]
  | _ => rfl

namespace Pattern

theorem graphSelectorsAll_eq_flatMap (ps : List Pattern) :
    graphSelectorsAll ps = ps.flatMap graphSelectors := by
  induction ps with
  | nil => rfl
  | cons p ps ih => rw [graphSelectorsAll, ih, List.flatMap_cons]

theorem graphSelectors_eq (p : Pattern) :
    p.graphSelectors = p.children.flatMap graphSelectors ++ p.modifiers.graph.toList := by
  cases p with
  | group ps m | union ps m =>
    rw [graphSelectors, graphSelectorsAll_eq_flatMap]
    rfl
  | optional main extra m => simp [graphSelectors, children, modifiers]
  | triples ts m =>
    rw [graphSelectors, children, List.flatMap_map]
    rfl
  | bind main var value m => simp [graphSelectors, children, modifiers]
  | _ => rfl

theorem graphSelectors_of_isEmpty {p : Pattern} (h : p.isEmpty = true) :
    p.graphSelectors = [] := by
  rw [isEmpty_iff.1 h]
  rfl

end Pattern

/-- The graphs among ingredients are those that the selectors stand for, one for one. -/
def Ingredient.Lists (parts : List Ingredient) (selectors : List Expression) : Prop :=
  List.Forall₂ Expression.Selects selectors (parts.filterMap graph?)

namespace Ingredient.Lists

variable {parts inner : List Ingredient} {selectors : List Expression}

theorem of_forall_mem (h : ∀ x ∈ parts, x.graph? = none) : Lists parts [] := by
  rw [Lists, List.filterMap_eq_nil_iff.2 h]
  exact .nil

theorem append {others : List Ingredient} {more : List Expression} (h : Lists parts selectors)
    (hmore : Lists others more) : Lists (parts ++ others) (selectors ++ more) := by
  rw [Lists, List.filterMap_append]
  exact List.rel_append h hmore

theorem around (h : Lists inner selectors) {m : Modifiers} (hm : m.around inner = .ok parts) :
    Lists parts (selectors ++ m.graph.toList) := by
  obtain ⟨mods, hmods, rfl⟩ := Modifiers.around_eq_ok.1 hm
  obtain ⟨terms, graphs, hgraphs, rfl⟩ := Modifiers.ingredients_eq_ok hmods
  apply h.append
  have hlisted : (terms.map condition ++ graphs.map graph).filterMap graph? = graphs := by
    rw [List.filterMap_append, List.filterMap_map, List.filterMap_map]
    have hterms : terms.filterMap (graph? ∘ condition) = [] :=
      List.filterMap_eq_nil_iff.2 fun _ _ => rfl
    rw [hterms]
    exact List.filterMap_some
  rw [Lists, hlisted]
  exact (mapM_eq_ok.1 hgraphs).imp fun _ _ => Element.ofSelector_eq_ok

/-- Patterns that are left out have no selectors, so those of all patterns are listed. -/
theorem gather {keep : Pattern → Bool} (hkeep : ∀ p, keep p = false → p.graphSelectors = [])
    {ps : List Pattern} {kept : List (List Ingredient)}
    (hlists : ∀ p ∈ ps, ∀ parts, p.ingredients = .ok parts → Lists parts p.graphSelectors)
    (h : (ps.filter keep).mapM Pattern.ingredients = .ok kept) :
    Lists (Ingredient.gather kept) (ps.flatMap Pattern.graphSelectors) := by
  rw [Lists, Mapped.Renders.filterMap_gather]
  induction ps generalizing kept with
  | nil =>
    cases h
    exact .nil
  | cons p ps ih =>
    have hrest := fun q hq => hlists q (List.mem_cons_of_mem p hq)
    rw [List.flatMap_cons]
    by_cases hp : keep p = true
    · rw [List.filter_cons_of_pos hp, List.mapM_cons] at h
      obtain ⟨first, hfirst, h⟩ := bind_eq_ok.1 h
      obtain ⟨others, hothers, h⟩ := bind_eq_ok.1 h
      cases h
      rw [List.flatMap_cons]
      exact List.rel_append (hlists p List.mem_cons_self first hfirst) (ih hrest hothers)
    · rw [List.filter_cons_of_neg hp] at h
      rw [hkeep p (Bool.eq_false_iff.2 hp), List.nil_append]
      exact ih hrest h

end Ingredient.Lists

theorem TriplePattern.ingredients_lists {t : TriplePattern} {parts : List Ingredient}
    (h : t.ingredients = .ok parts) : Ingredient.Lists parts t.modifiers.graph.toList := by
  obtain ⟨leaves, -, h⟩ := bind_eq_ok.1 h
  have hleaves : Ingredient.Lists (leaves.map .leaf) [] :=
    .of_forall_mem (List.forall_mem_map.2 fun _ _ => rfl)
  exact hleaves.around h

theorem Pattern.ingredients_lists {p : Pattern} {parts : List Ingredient}
    (h : p.ingredients = .ok parts) : Ingredient.Lists parts p.graphSelectors := by
  induction p using childInduction generalizing parts with
  | step p ih =>
    rw [graphSelectors_eq]
    cases p with
    | missing => cases h
    | empty m =>
      have hnothing : Ingredient.Lists [.leaf .nothing] [] :=
        .of_forall_mem (by simp [Ingredient.graph?])
      exact hnothing.around h
    | group ps m =>
      obtain ⟨kept, hps, h⟩ := bind_eq_ok.1 h
      rw [ingredientsOf_eq_mapM] at hps
      have hlists := Ingredient.Lists.gather
        (fun q hq => graphSelectors_of_isEmpty (by simpa using hq)) (fun q hq _ => ih q hq) hps
      exact hlists.around h
    | union ps m =>
      obtain ⟨kept, hps, h⟩ := bind_eq_ok.1 h
      rw [ingredientsOf_eq_mapM] at hps
      have hlists := Ingredient.Lists.gather (fun _ hq => absurd hq (by decide))
        (fun q hq _ => ih q hq) hps
      exact hlists.around h
    | optional main extra m =>
      obtain ⟨first, hfirst, h⟩ := bind_eq_ok.1 h
      obtain ⟨second, hsecond, h⟩ := bind_eq_ok.1 h
      have hmain := ih main List.mem_cons_self hfirst
      have hextra := ih extra (List.mem_cons_of_mem _ List.mem_cons_self) hsecond
      simpa [children, modifiers] using (hmain.append hextra).around h
    | triple t => exact TriplePattern.ingredients_lists h
    | triples ts m =>
      obtain ⟨kept, hts, h⟩ := bind_eq_ok.1 h
      have hps : ((ts.map triple).filter fun _ => true).mapM ingredients = .ok kept := by
        rw [List.filter_true, List.mapM_map]
        exact hts
      have hlists := Ingredient.Lists.gather (fun _ hq => absurd hq (by decide))
        (fun q hq _ => ih q hq) hps
      exact hlists.around h
    | bind main var value m =>
      obtain ⟨first, hfirst, h⟩ := bind_eq_ok.1 h
      obtain ⟨t, -, h⟩ := bind_eq_ok.1 h
      have hmain := ih main List.mem_cons_self hfirst
      have hbinding : Ingredient.Lists [.binding var t] [] :=
        .of_forall_mem (by simp [Ingredient.graph?])
      simpa [children, modifiers] using (hmain.append hbinding).around h

theorem Pattern.selectors_eq_graphs {p : Pattern} {m : Mapped} (h : p.toPlan = .ok m) :
    m.selectors = m.plan.graphs := by
  obtain ⟨parts, -, hrenders⟩ := toPlan_renders h
  rw [Plan.graphs_eq, hrenders.plan, hrenders.selectors]

theorem Pattern.graphSelectors_select {p : Pattern} {m : Mapped} (h : p.toPlan = .ok m) :
    List.Forall₂ Expression.Selects p.graphSelectors m.plan.graphs := by
  obtain ⟨parts, hparts, hrenders⟩ := toPlan_renders h
  rw [Plan.graphs_eq, hrenders.plan]
  exact ingredients_lists hparts

theorem Pattern.graphIris_eq {p : Pattern} {m : Mapped} (h : p.toPlan = .ok m) :
    m.graphIris = (m.plan.graphs.filterMap Element.iri?).eraseDups := by
  rw [Mapped.graphIris, unique_eq_eraseDups, selectors_eq_graphs h]
  rfl

theorem Compile.referencedGraphs_eq {o : Options} {q : Query} {c : Command}
    (h : (compile o q).result = .ok c) {p : Pattern} (hp : q.pattern = some p) {m : Mapped}
    (hm : p.toPlan = .ok m) : c.referencedGraphs = m.graphIris := by
  obtain ⟨base, -, -, hbase, -⟩ := steps_body h
  rw [hp] at hbase
  obtain ⟨⟨plan, refs⟩, hwhere, hbase⟩ := Traced.bind_eq_ok.1 hbase
  obtain ⟨n, hn, hrefs, -⟩ := wherePlan_eq_ok hwhere
  cases hbase
  rw [hrefs]
  cases hm.symm.trans hn
  rfl

/-- The graph selectors of a pattern and the graphs of its plan correspond one to one, in one order.
The variables and the IRIs among them are listed by their first occurrences, and a command that is
compiled from the pattern refers to the IRIs among the selectors, each once. -/
theorem Pattern.toPlan_lists_selectors {p : Pattern} {m : Mapped} (h : p.toPlan = .ok m) :
    m.graphVariables.Nodup ∧ m.graphIris.Nodup ∧
    m.graphVariables = (m.plan.graphs.filterMap Element.var?).eraseDups ∧
    m.graphIris = (m.plan.graphs.filterMap Element.iri?).eraseDups ∧
    List.Forall₂ Expression.Selects p.graphSelectors m.plan.graphs ∧
    ∀ (o : Options) (q : Query) (c : Command), q.pattern = some p →
      (compile o q).result = .ok c →
        c.referencedGraphs = (p.graphSelectors.filterMap Expression.iri?).eraseDups ∧
        c.referencedGraphs.Nodup ∧
        ∀ g, g ∈ c.referencedGraphs ↔ .iri g ∈ p.graphSelectors := by
  have hselectors := graphSelectors_select h
  have hiris := graphIris_eq h
  refine ⟨nodup_unique _, nodup_unique _, ?_, hiris, hselectors, ?_⟩
  · rw [Mapped.graphVariables, unique_eq_eraseDups, selectors_eq_graphs h]
    rfl
  · intro o q c hp hc
    have hrefs := Compile.referencedGraphs_eq hc hp h
    rw [hrefs]
    have hwritten : m.graphIris = (p.graphSelectors.filterMap Expression.iri?).eraseDups := by
      rw [hiris, Expression.iris_eq_of_selects hselectors]
    refine ⟨hwritten, nodup_unique _, ?_⟩
    intro g
    rw [hwritten, List.mem_eraseDups, List.mem_filterMap]
    constructor
    · rintro ⟨e, he, hg⟩
      cases e with
      | iri value =>
        cases hg
        exact he
      | _ => cases hg
    · intro hg
      exact ⟨_, hg, rfl⟩

/-- Selectors inside one another and on both sides of an optional join that takes over a filter, two
of them for one graph. -/
def nestedSelectors : Pattern :=
  .group
    [.empty {},
      .optional
        (.triples [{ repeatedTriple with modifiers := { graph := some (.iri "b") } },
          { repeatedTriple with modifiers := { graph := some (.var "g") } }] {})
        (.group [.triple { filteredTriple with modifiers := { graph := some (.iri "a") } }]
          { filter := some (.builtIn .bound [.var "o"]) })
        { graph := some (.iri "b") }]
    { graph := some (.var "g") }

def nestedQuery : Query where
  kind := .describe
  selection := [.var "s"]
  pattern := some nestedSelectors

theorem Pattern.toPlan_lists_selectors_nestedSelectors :
    ∃ m c, nestedSelectors.toPlan = .ok m ∧
      List.Forall₂ Expression.Selects nestedSelectors.graphSelectors m.plan.graphs ∧
      m.plan.graphs = [.iri "b", .var "g", .iri "a", .iri "b", .var "g"] ∧
      m.graphVariables = ["g"] ∧ m.graphIris = ["b", "a"] ∧
      (compile {} nestedQuery).result = .ok c ∧ c.referencedGraphs = ["b", "a"] := by
  obtain ⟨m, hm, hgraphs⟩ : ∃ m, nestedSelectors.toPlan = .ok m ∧
      m.plan.graphs = [.iri "b", .var "g", .iri "a", .iri "b", .var "g"] := ⟨_, rfl, rfl⟩
  obtain ⟨-, -, hvariables, hiris, hselects, hcommands⟩ := toPlan_lists_selectors hm
  rw [hgraphs] at hvariables hiris
  obtain ⟨hrefs, -⟩ := hcommands {} nestedQuery _ rfl rfl
  exact ⟨m, _, hm, hselects, hgraphs, hvariables.trans (by decide +kernel),
    hiris.trans (by decide +kernel), rfl, hrefs.trans (by decide +kernel)⟩

end GraphQuery
