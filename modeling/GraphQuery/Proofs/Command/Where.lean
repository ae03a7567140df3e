import GraphQuery.Command.Compile
import GraphQuery.Proofs.Plan.OfPattern

namespace GraphQuery

theorem Traced.bind_eq_ok {α β : Type} {x : Traced α} {f : α → Traced β} {b : β} :
    (x >>= f).result = .ok b ↔ ∃ a, x.result = .ok a ∧ (f a).result = .ok b := by
  change (Traced.bind x f).result = .ok b ↔ _
  rw [Traced.bind]
  split
  · rename_i e he
    rw [he]
    exact ⟨nofun, nofun⟩
  · rename_i a ha
    rw [ha]
    constructor
    · intro h
      exact ⟨a, rfl, h⟩
    · rintro ⟨a', hb, h⟩
      cases hb
      exact h

theorem Traced.steps_bind {α β : Type} {x : Traced α} {f : α → Traced β} {a : α}
    (h : x.result = .ok a) : (x >>= f).steps = x.steps ++ (f a).steps := by
  change (Traced.bind x f).steps = _
  rw [Traced.bind, h]

theorem Options.dataset_cases (o : Options) (q : Query) :
    (∃ e, o.dataset q = ⟨[], .error e⟩) ∨
      ∃ d defaults named source depth,
        o.dataset q = ⟨[.graphsResolved defaults named source depth], .ok d⟩ ∧
          o.resolveNamed q = .ok d.named := by
  rw [dataset]
  cases hdefault : o.resolveDefault q with
  | error e => exact .inl ⟨e, rfl⟩
  | ok resolved =>
    cases hnamed : o.resolveNamed q with
    | error e => exact .inl ⟨e, rfl⟩
    | ok named => exact .inr ⟨_, _, _, _, _, rfl, rfl⟩

theorem Options.dataset_eq_ok {o : Options} {q : Query} {d : Dataset}
    (h : (o.dataset q).result = .ok d) :
    o.resolveNamed q = .ok d.named ∧ ∃ defaults named source depth,
      (o.dataset q).steps = [.graphsResolved defaults named source depth] := by
  obtain ⟨e, herror⟩ | ⟨_, defaults, named, source, depth, hok, hnamed⟩ := o.dataset_cases q
  · rw [herror] at h
    cases h
  · rw [hok] at h ⊢
    cases h
    exact ⟨hnamed, defaults, named, source, depth, rfl⟩

def Ingredient.bindings (named : List Text) (v : Text) : List Ingredient :=
  named.map fun g => .leaf (.is v (.iri g) none)

namespace Compile

theorem ingredients_graphBinding {named : List Text} (h : named ≠ []) (v : Text) :
    (graphBinding named v).ingredients = Ingredient.bindings named v := by
  obtain ⟨g, rest, rfl⟩ := List.exists_cons_of_ne_nil h
  rw [graphBinding, Plan.ingredients_any, List.map_map]
  exact List.map_eq_flatMap.symm

theorem ingredients_bound {named : List Text} (h : named ≠ []) (vs : List Text) (plan : Plan) :
    (vs.foldl (fun plan v => Plan.conj [plan, graphBinding named v]) plan).ingredients =
      plan.ingredients ++ vs.flatMap (Ingredient.bindings named) := by
  induction vs generalizing plan with
  | nil => exact (List.append_nil _).symm
  | cons v vs ih =>
    have hc : (Plan.conj [plan, graphBinding named v]).ingredients =
        plan.ingredients ++ Ingredient.bindings named v := by
      rw [← ingredients_graphBinding h v]
      simp only [Plan.ingredients, Plan.ingredientsAll, List.append_nil]
    rw [List.foldl_cons, ih, hc, List.flatMap_cons, List.append_assoc]

/-- The plan of a pattern is bound to the named graphs exactly where there are such graphs and
variables that select one of them. -/
theorem wherePlan_eq_ok {named : List Text} {p : Pattern} {plan : Plan} {refs : List Text}
    (h : (wherePlan named p).result = .ok (plan, refs)) :
    ∃ m, p.toPlan = .ok m ∧ refs = m.graphIris ∧
      ((named = [] ∨ m.graphVariables = []) ∧ plan = m.plan ∧
          (wherePlan named p).steps =
            [.whereMapped m.graphVariables.length m.graphIris.length] ∨
        named ≠ [] ∧ m.graphVariables ≠ [] ∧
          plan = m.graphVariables.foldl (fun plan v => .conj [plan, graphBinding named v]) m.plan ∧
          (wherePlan named p).steps =
            [.whereMapped m.graphVariables.length m.graphIris.length,
              .namedGraphsBound (m.graphVariables.map Element.varText) named.length]) := by
  obtain ⟨m, hm, h⟩ := Traced.bind_eq_ok.1 h
  have hp : p.toPlan = .ok m := by
    cases hp : p.toPlan with
    | error e => rw [hp] at hm; cases hm
    | ok n => rw [hp] at hm; cases hm; rfl
  rw [wherePlan, Traced.steps_bind hm]
  obtain ⟨_, hreport, h⟩ := Traced.bind_eq_ok.1 h
  rw [Traced.steps_bind hreport]
  by_cases hn : (named.isEmpty || m.graphVariables.isEmpty) = true
  · rw [if_pos hn] at h ⊢
    cases h
    refine ⟨m, hp, rfl, .inl ⟨?_, rfl, rfl⟩⟩
    exact (Bool.or_eq_true_iff.1 hn).imp List.isEmpty_iff.1 List.isEmpty_iff.1
  · rw [if_neg hn] at h ⊢
    obtain ⟨_, hbound, h⟩ := Traced.bind_eq_ok.1 h
    cases h
    refine ⟨m, hp, rfl, .inr ⟨?_, ?_, rfl, rfl⟩⟩
    · rintro rfl
      exact hn rfl
    · intro hv
      exact hn (by rw [hv, List.isEmpty_nil, Bool.or_true])

theorem ingredients_wherePlan {named : List Text} {p : Pattern} {plan : Plan} {refs : List Text}
    (h : (wherePlan named p).result = .ok (plan, refs)) :
    ∃ m, p.toPlan = .ok m ∧ refs = m.graphIris ∧
      plan.ingredients =
        m.plan.ingredients ++ m.graphVariables.flatMap (Ingredient.bindings named) := by
  obtain ⟨m, hm, hrefs, ⟨hnone, rfl, -⟩ | ⟨hnamed, -, rfl, -⟩⟩ := wherePlan_eq_ok h
  · refine ⟨m, hm, hrefs, ?_⟩
    rcases hnone with rfl | hv
    · simp [Ingredient.bindings]
    · simp [hv]
  · exact ⟨m, hm, hrefs, ingredients_bound hnamed _ _⟩

theorem eq_ok_of_pattern {o : Options} {q : Query} {p : Pattern} {c : Command}
    {rest : Dataset → Plan × List Text → Plan → Traced Command}
    (h : (o.dataset q >>= fun dataset => wherePlan dataset.named p >>= fun mapped =>
      simplified mapped.1 >>= rest dataset mapped).result = .ok c) :
    ∃ dataset mapped, (o.dataset q).result = .ok dataset ∧
      (wherePlan dataset.named p).result = .ok mapped ∧
      (rest dataset mapped mapped.1.simplify.plan).result = .ok c ∧
      (o.dataset q >>= fun dataset => wherePlan dataset.named p >>= fun mapped =>
          simplified mapped.1 >>= rest dataset mapped).steps =
        (o.dataset q).steps ++ ((wherePlan dataset.named p).steps ++
          .whereSimplified (!mapped.1.simplify.sharing.isKept) ::
            (rest dataset mapped mapped.1.simplify.plan).steps) := by
  obtain ⟨dataset, hd, h⟩ := Traced.bind_eq_ok.1 h
  obtain ⟨mapped, hw, h⟩ := Traced.bind_eq_ok.1 h
  obtain ⟨plan, hs, h⟩ := Traced.bind_eq_ok.1 h
  refine ⟨dataset, mapped, hd, hw, ?_, ?_⟩
  · cases hs
    exact h
  · rw [Traced.steps_bind hd, Traced.steps_bind hw]
    rfl

theorem body_eq_ok {o : Options} {q : Query} {c : Command} (h : (body o q).result = .ok c)
    (hk : q.kind = .select ∨ q.kind = .construct ∨ q.kind = .ask) :
    ∃ p plan, q.pattern = some p ∧ (o.dataset q).result = .ok ⟨c.graph, c.namedGraphs⟩ ∧
      (wherePlan c.namedGraphs p).result = .ok (plan, c.referencedGraphs) ∧
      c.plan = plan.simplify.plan ∧
      (body o q).steps = (o.dataset q).steps ++ ((wherePlan c.namedGraphs p).steps ++
        [.whereSimplified !plan.simplify.sharing.isKept]) := by
  rcases hk with hk | hk | hk
  · cases hp : q.pattern with
    | none =>
      simp only [body, hk, select, hp] at h
      cases h
    | some p =>
      simp only [body, hk, select, hp] at h ⊢
      obtain ⟨dataset, mapped, hd, hw, h, hsteps⟩ := eq_ok_of_pattern h
      obtain ⟨order, horder, h⟩ := Traced.bind_eq_ok.1 h
      obtain ⟨selection, hselection, h⟩ := Traced.bind_eq_ok.1 h
      cases h
      refine ⟨p, mapped.1, rfl, hd, hw, rfl, hsteps.trans ?_⟩
      rw [Traced.steps_bind horder, Traced.steps_bind hselection]
      rfl
  · cases hp : q.pattern with
    | none =>
      simp only [body, hk, construct, hp] at h
      cases h
    | some p =>
      simp only [body, hk, construct, hp] at h ⊢
      split at h
      · cases h
      · rename_i hlength
        obtain ⟨selection, hselection, h⟩ := Traced.bind_eq_ok.1 h
        obtain ⟨dataset, mapped, hd, hw, h, hsteps⟩ := eq_ok_of_pattern h
        obtain ⟨order, horder, h⟩ := Traced.bind_eq_ok.1 h
        cases h
        refine ⟨p, mapped.1, rfl, hd, hw, rfl, ?_⟩
        rw [if_neg hlength, Traced.steps_bind hselection]
        refine hsteps.trans ?_
        rw [Traced.steps_bind horder]
        rfl
  · cases hp : q.pattern with
    | none =>
      simp only [body, hk, ask, hp] at h
      cases h
    | some p =>
      simp only [body, hk, ask, hp] at h ⊢
      split at h
      · cases h
      · rename_i hempty
        obtain ⟨dataset, mapped, hd, hw, h, hsteps⟩ := eq_ok_of_pattern h
        cases h
        refine ⟨p, mapped.1, rfl, hd, hw, rfl, ?_⟩
        rw [if_neg hempty]
        exact hsteps

theorem body_ok {o : Options} {q : Query} {c : Command} (h : (body o q).result = .ok c)
    (hk : q.kind = .select ∨ q.kind = .construct ∨ q.kind = .ask) :
    ∃ p plan, q.pattern = some p ∧
      (wherePlan c.namedGraphs p).result = .ok (plan, c.referencedGraphs) ∧
      c.plan = plan.simplify.plan := by
  obtain ⟨p, plan, hp, -, hw, hplan, -⟩ := body_eq_ok h hk
  exact ⟨p, plan, hp, hw, hplan⟩

end Compile

def Ingredient.graphVariables (parts : List Ingredient) : List Text :=
  unique (parts.filterMap graphVar?)

theorem Mapped.Renders.graphVariables_eq {m : Mapped} {parts : List Ingredient}
    (h : m.Renders parts) : m.graphVariables = Ingredient.graphVariables parts := by
  rw [Mapped.graphVariables, h.selectors, List.filterMap_filterMap]
  refine congrArg unique (List.filterMap_congr fun x _ => ?_)
  cases x with
  | graph g => cases g <;> rfl
  | _ => rfl

theorem Compile.parts_wherePlan {named : List Text} {p : Pattern} {plan : Plan} {refs : List Text}
    (h : (wherePlan named p).result = .ok (plan, refs)) :
    ∃ parts, p.ingredients = .ok parts ∧ plan.ingredients =
      parts ++ (Ingredient.graphVariables parts).flatMap (Ingredient.bindings named) := by
  obtain ⟨m, hm, -, hi⟩ := ingredients_wherePlan h
  obtain ⟨parts, hparts, hr⟩ := Pattern.toPlan_renders hm
  rw [hr.plan, hr.graphVariables_eq] at hi
  exact ⟨parts, hparts, hi⟩

/-- Compilation loses, repeats and moves nothing of the pattern. Where there are named graphs, the
variables that select a graph are bound to them behind it. -/
theorem compile_ingredients {o : Options} {q : Query} {c : Command}
    (hk : q.kind = .select ∨ q.kind = .construct ∨ q.kind = .ask)
    (h : (compile o q).result = .ok c) :
    ∃ p parts, q.pattern = some p ∧ p.ingredients = .ok parts ∧
      c.plan.ingredients =
        parts ++ (Ingredient.graphVariables parts).flatMap (Ingredient.bindings c.namedGraphs) := by
  obtain ⟨p, plan, hp, hw, hc⟩ := Compile.body_ok h hk
  obtain ⟨parts, hparts, hi⟩ := Compile.parts_wherePlan hw
  refine ⟨p, parts, hp, hparts, ?_⟩
  rw [hc, Plan.ingredients_simplify, hi]

def repeatedTriple : TriplePattern where
  subject := .var "s"
  predicate := .iri "p"
  object := .int 7
  path := .star

def filteredTriple : TriplePattern where
  subject := .var "s"
  predicate := .iri "q"
  object := .var "o"
  modifiers := { filter := some (.builtIn .bound [.var "o"]) }

/-- A query with an empty pattern to pass over, a filter on an optional side, and a variable that
selects one of two graphs. -/
def optionalQuery : Query where
  kind := .select
  selectAll := true
  pattern := some (.group
    [.empty {}, .optional (.triple repeatedTriple) (.triple filteredTriple) {}]
    { graph := some (.var "g") })
  namedGraphs := ["g1", "g2"]

theorem compile_ingredients_optionalQuery :
    optionalQuery.kind = .select ∧ ∃ c, (compile {} optionalQuery).result = .ok c ∧
      ∃ p parts, optionalQuery.pattern = some p ∧ p.ingredients = .ok parts ∧
        c.plan.ingredients =
          parts ++
            (Ingredient.graphVariables parts).flatMap (Ingredient.bindings c.namedGraphs) :=
  ⟨rfl, _, rfl, compile_ingredients (o := {}) (.inl rfl) rfl⟩

end GraphQuery
