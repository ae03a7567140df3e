import GraphQuery.Proofs.Command.Projection
import GraphQuery.Trace.Step

namespace GraphQuery

namespace Traced

variable {α β : Type} {x : Traced α} {f : α → Traced β} {names names' all : List Text}

/-- The steps have some of the names, in their order. -/
def Reports (x : Traced α) (names : List Text) : Prop := (x.steps.map Step.name).Sublist names

theorem reports_nil (h : x.steps = []) : x.Reports [] := by
  rw [Reports, h]
  exact List.Sublist.slnil

theorem Reports.bind (hx : x.Reports names) (hf : ∀ a, (f a).Reports names')
    (h : names ++ names' = all) : (x >>= f).Reports all := by
  subst h
  cases hr : x.result with
  | error e =>
    -- The steps of what would have followed are missing, which leaves a sublist.
    have hsteps : (x >>= f).steps = x.steps := by
      change (Traced.bind x f).steps = _
      rw [Traced.bind, hr]
    rw [Reports, hsteps]
    exact hx.trans (List.sublist_append_left names names')
  | ok a =>
    rw [Reports, steps_bind hr, List.map_append]
    exact hx.append (hf a)

end Traced

namespace Phase

def resolved : Text := "compile/graphs.resolved"

def mapped : Text := "compile/where.mapped"

def bound : Text := "compile/named-graphs.bound"

def simplified : Text := "compile/where.simplified"

def later : List Text := [mapped, bound, simplified]

def all : List Text := resolved :: later

end Phase

namespace Compile

/-- The steps are phases in their order, and no phase comes without a dataset. -/
structure Phased (x : Traced Command) : Prop where
  reports : x.Reports Phase.all
  resolved : x.steps ≠ [] → Phase.resolved ∈ x.steps.map Step.name

namespace Phased

variable {α : Type}

theorem fail (e : CompileFault) : Phased (Traced.fail e) :=
  ⟨List.nil_sublist _, fun h => absurd rfl h⟩

theorem ofExcept {x : Except CompileFault α} {f : α → Traced Command} (hf : ∀ a, Phased (f a)) :
    Phased (Traced.ofExcept x >>= f) := by
  cases x with
  | error e => exact fail e
  | ok a => exact hf a

theorem dataset {o : Options} {q : Query} {f : Dataset → Traced Command}
    (hf : ∀ d, (f d).Reports Phase.later) : Phased (o.dataset q >>= f) := by
  obtain ⟨e, hd⟩ | ⟨d, _, _, _, _, hd, -⟩ := o.dataset_cases q
  · rw [hd]
    exact fail e
  · rw [hd]
    exact ⟨(hf d).cons_cons _, fun _ => List.mem_cons_self⟩

end Phased

theorem reports_wherePlan (named : List Text) (p : Pattern) :
    (wherePlan named p).Reports [Phase.mapped, Phase.bound] := by
  apply Traced.Reports.bind (Traced.reports_nil rfl) _ (List.nil_append _)
  intro m
  apply Traced.Reports.bind (List.Sublist.refl _) _ List.singleton_append
  intro _
  split
  · exact List.nil_sublist _
  · exact List.Sublist.refl _

theorem reports_describedPlan (named : List Text) (pattern? : Option Pattern) :
    (describedPlan named pattern?).Reports [Phase.mapped, Phase.bound] := by
  cases pattern? with
  | none => exact List.nil_sublist _
  | some p =>
    apply (reports_wherePlan named p).bind _ (List.append_nil _)
    intro mapped
    exact Traced.reports_nil rfl

theorem reports_simplified (p : Plan) : (simplified p).Reports [Phase.simplified] :=
  List.Sublist.refl _

theorem reports_of_pattern {named : List Text} {p : Pattern}
    {rest : Plan × List Text → Plan → Traced Command} (hrest : ∀ m plan, (rest m plan).steps = []) :
    (wherePlan named p >>= fun m => simplified m.1 >>= rest m).Reports Phase.later := by
  apply (reports_wherePlan named p).bind _ rfl
  intro m
  apply (reports_simplified m.1).bind _ rfl
  intro plan
  exact Traced.reports_nil (hrest m plan)

theorem steps_ofExcept_bind {α : Type} {x : Except CompileFault α} {f : α → Traced Command}
    (hf : ∀ a, (f a).steps = []) : (Traced.ofExcept x >>= f).steps = [] := by
  cases x with
  | error e => rfl
  | ok a => exact hf a

section Kinds
variable (o : Options) (q : Query)

theorem phased_select : Phased (select o q) := by
  rw [select]
  split
  · exact .fail _
  · apply Phased.dataset
    intro d
    apply reports_of_pattern
    intro m plan
    apply steps_ofExcept_bind
    intro order
    apply steps_ofExcept_bind
    intro selection
    rfl

theorem phased_construct : Phased (construct o q) := by
  rw [construct]
  split
  · exact .fail _
  · split
    · exact .fail _
    · apply Phased.ofExcept
      intro selection
      apply Phased.dataset
      intro d
      apply reports_of_pattern
      intro m plan
      apply steps_ofExcept_bind
      intro order
      rfl

theorem phased_describe : Phased (describe o q) := by
  rw [describe]
  split
  · exact .fail _
  · apply Phased.dataset
    intro d
    apply (reports_describedPlan d.named q.pattern).bind _ rfl
    intro base
    apply (Traced.reports_nil rfl).bind _ rfl
    intro parts
    apply (reports_simplified _).bind _ rfl
    intro plan
    exact Traced.reports_nil rfl

theorem phased_ask : Phased (ask o q) := by
  rw [ask]
  split
  · exact .fail _
  · split
    · exact .fail _
    · apply Phased.dataset
      intro d
      apply reports_of_pattern
      intro m plan
      rfl

theorem phased_body : Phased (body o q) := by
  rw [body]
  split
  · exact phased_select o q
  · exact phased_construct o q
  · exact phased_describe o q
  · exact phased_ask o q
  · exact .fail _

end Kinds

end Compile

section GraphVariables
variable {v : Text}

theorem Modifiers.graph_mem_ingredients {m : Modifiers} {mods : List Ingredient}
    (h : m.ingredients = .ok mods) : .graph (.var v) ∈ mods ↔ m.graph = some (.var v) := by
  obtain ⟨terms, graphs, hgraphs, rfl⟩ := ingredients_eq_ok h
  have hmem : .graph (.var v) ∈ terms.map Ingredient.condition ++ graphs.map Ingredient.graph ↔
      .var v ∈ graphs := by
    simp
  rw [hmem]
  cases hg : m.graph with
  | none =>
    rw [hg] at hgraphs
    cases hgraphs
    simp
  | some e =>
    rw [hg] at hgraphs
    obtain ⟨g, rest, hsome, hrest, rfl⟩ := List.forall₂_cons_left_iff.1 (mapM_eq_ok.1 hgraphs)
    cases hrest
    cases e with
    | var name | iri value =>
      cases hsome
      simp [eq_comm]
    | _ => cases hsome

namespace Pattern

def HasGraphVariable (p : Pattern) : Prop :=
  ∃ node ∈ p.nodes, ∃ v, node.modifiers.graph = some (.var v)

theorem graph_mem_own {q : Pattern} {own : List Ingredient} (h : q.own = .ok own) :
    .graph (.var v) ∈ own ↔ q.modifiers.graph = some (.var v) := by
  cases q with
  | triple t =>
    obtain ⟨ps, -, h⟩ := bind_eq_ok.1 h
    obtain ⟨mods, hm, rfl⟩ := Modifiers.around_eq_ok.1 h
    rw [List.mem_append, Modifiers.graph_mem_ingredients hm]
    simp [modifiers]
  | bind main var value m =>
    obtain ⟨t, -, h⟩ := bind_eq_ok.1 h
    obtain ⟨mods, hm, rfl⟩ := Modifiers.around_eq_ok.1 h
    rw [List.mem_append, Modifiers.graph_mem_ingredients hm]
    simp [modifiers]
  | _ => exact Modifiers.graph_mem_ingredients h

theorem graph_mem_ingredients {p : Pattern} {parts : List Ingredient}
    (h : p.ingredients = .ok parts) :
    .graph (.var v) ∈ parts ↔ ∃ node ∈ p.nodes, node.modifiers.graph = some (.var v) := by
  rw [← exists_mem_ingredients (P := (· = .graph (.var v))) nofun _ h, exists_eq_right]
  intro q own hown
  rw [exists_eq_right, graph_mem_own hown]

theorem graphVariables_ne_nil {p : Pattern} {parts : List Ingredient}
    (h : p.ingredients = .ok parts) :
    Ingredient.graphVariables parts ≠ [] ↔ p.HasGraphVariable := by
  constructor
  · intro hne
    obtain ⟨v, hv⟩ := List.exists_mem_of_ne_nil _ hne
    obtain ⟨node, hnode, hgraph⟩ :=
      (graph_mem_ingredients h).1 (Ingredient.mem_graphVariables.1 hv)
    exact ⟨node, hnode, v, hgraph⟩
  · intro ⟨node, hnode, v, hgraph⟩
    have hmem := (graph_mem_ingredients h).2 ⟨node, hnode, hgraph⟩
    exact List.ne_nil_of_mem (Ingredient.mem_graphVariables.2 hmem)

end Pattern

end GraphVariables

namespace Compile

theorem steps_describedPlan {named : List Text} {p : Pattern} {mapped : Plan × List Text}
    (h : (wherePlan named p).result = .ok mapped) :
    (describedPlan named (some p)).steps = (wherePlan named p).steps :=
  (Traced.steps_bind h).trans (List.append_nil _)

/-- The plan of the pattern is told of where there is a pattern, and the binding of its variables
where there are variables and graphs to bind them to. -/
theorem names_describedPlan {named : List Text} {pattern? : Option Pattern} {base : Plan}
    {refs : List Text} (h : (describedPlan named pattern?).result = .ok (base, refs)) :
    pattern? = none ∧ (describedPlan named pattern?).steps.map Step.name = [] ∨
      ∃ p, pattern? = some p ∧
        (¬ (named ≠ [] ∧ p.HasGraphVariable) ∧
            (describedPlan named pattern?).steps.map Step.name = [Phase.mapped] ∨
          named ≠ [] ∧ p.HasGraphVariable ∧
            (describedPlan named pattern?).steps.map Step.name =
              [Phase.mapped, Phase.bound]) := by
  cases pattern? with
  | none => exact .inl ⟨rfl, rfl⟩
  | some p =>
    obtain ⟨⟨plan, refs⟩, hw, h⟩ := Traced.bind_eq_ok.1 h
    refine .inr ⟨p, rfl, ?_⟩
    rw [steps_describedPlan hw]
    obtain ⟨m, hm, -, hcases⟩ := wherePlan_eq_ok hw
    obtain ⟨parts, hparts, hr⟩ := Pattern.toPlan_renders hm
    rw [hr.graphVariables_eq] at hcases
    have hvariables := Pattern.graphVariables_ne_nil hparts
    rcases hcases with ⟨hnone, -, hsteps⟩ | ⟨hnamed, hv, -, hsteps⟩
    · rw [hsteps]
      refine .inl ⟨?_, rfl⟩
      rintro ⟨hnamed, hv⟩
      rcases hnone with hnone | hnone
      · exact hnamed hnone
      · exact hvariables.2 hv hnone
    · rw [hsteps]
      exact .inr ⟨hnamed, hvariables.1 hv, rfl⟩

theorem steps_body {o : Options} {q : Query} {c : Command} (h : (body o q).result = .ok c) :
    ∃ base, ∃ plan : Plan, (o.dataset q).result = .ok ⟨c.graph, c.namedGraphs⟩ ∧
      (describedPlan c.namedGraphs q.pattern).result = .ok (base, c.referencedGraphs) ∧
      (q.pattern = none → q.kind = .describe) ∧
      (body o q).steps = (o.dataset q).steps ++
        ((describedPlan c.namedGraphs q.pattern).steps ++
          [.whereSimplified !plan.simplify.sharing.isKept]) := by
  by_cases hk : q.kind = .select ∨ q.kind = .construct ∨ q.kind = .ask
  · obtain ⟨p, plan, hp, hd, hw, -, hsteps⟩ := body_eq_ok h hk
    have hbase : (describedPlan c.namedGraphs (some p)).result =
        .ok (.conj [plan, aboutSubject], c.referencedGraphs) :=
      Traced.bind_eq_ok.2 ⟨_, hw, rfl⟩
    rw [hp, steps_describedPlan hw]
    exact ⟨_, _, hd, hbase, nofun, hsteps⟩
  · cases hkind : q.kind with
    | select | construct | ask => simp [hkind] at hk
    | other name =>
      rw [body, hkind] at h
      cases h
    | describe =>
      simp only [body, hkind, describe] at h ⊢
      split at h
      · cases h
      · rename_i hsome
        rw [if_neg hsome]
        obtain ⟨dataset, hd, h⟩ := Traced.bind_eq_ok.1 h
        obtain ⟨⟨base, refs⟩, hbase, h⟩ := Traced.bind_eq_ok.1 h
        obtain ⟨parts, hparts, h⟩ := Traced.bind_eq_ok.1 h
        cases h
        refine ⟨base, .any (parts.map fun part => .conj [part.2, notBlank o.typeModel]), hd, hbase,
          fun _ => trivial, ?_⟩
        rw [Traced.steps_bind hd, Traced.steps_bind hbase, Traced.steps_bind hparts]
        rfl

/-- The names of the phases that a compilation goes through where it succeeds. -/
structure Completes (q : Query) (named names : List Text) : Prop where
  simplified : Phase.simplified ∈ names
  mapped : Phase.mapped ∈ names ↔ ¬ (q.kind = .describe ∧ q.pattern = none)
  bound : Phase.bound ∈ names ↔
    named ≠ [] ∧ ∃ p ∈ q.pattern, p.HasGraphVariable

theorem completes_body {o : Options} {q : Query} {c : Command} (h : (body o q).result = .ok c) :
    o.resolveNamed q = .ok c.namedGraphs ∧
      Completes q c.namedGraphs ((body o q).steps.map Step.name) := by
  obtain ⟨base, plan, hd, hbase, hpattern, hsteps⟩ := steps_body h
  obtain ⟨hnamed, _, _, _, _, hresolved⟩ := Options.dataset_eq_ok hd
  refine ⟨hnamed, ?_⟩
  have hall : (body o q).steps.map Step.name = Phase.resolved ::
      ((describedPlan c.namedGraphs q.pattern).steps.map Step.name ++ [Phase.simplified]) := by
    rw [hsteps, hresolved, List.map_append, List.map_append]
    rfl
  rw [hall]
  obtain ⟨hnone, hnames⟩ | ⟨p, hp, ⟨hunbound, hnames⟩ | ⟨hgraphs, hvariable, hnames⟩⟩ :=
    names_describedPlan hbase
  · rw [hnames]
    refine ⟨by decide +kernel, ?_, ?_⟩
    · exact iff_of_false (by decide +kernel) (not_not.2 ⟨hpattern hnone, hnone⟩)
    · exact iff_of_false (by decide +kernel) (by simp [hnone])
  · rw [hnames]
    refine ⟨by decide +kernel, ?_, ?_⟩
    · exact iff_of_true (by decide +kernel) (by simp [hp])
    · exact iff_of_false (by decide +kernel) (by simpa [hp] using hunbound)
  · rw [hnames]
    refine ⟨by decide +kernel, ?_, ?_⟩
    · exact iff_of_true (by decide +kernel) (by simp [hp])
    · exact iff_of_true (by decide +kernel) ⟨hgraphs, p, hp, hvariable⟩

end Compile

namespace Journal

theorem add_of_mode_ne_off {j : Journal} (h : j.mode ≠ .off) (e : Event) :
    (j.add e).mode = j.mode ∧ (j.add e).events = j.events ++ [e] := by
  rw [add]
  split
  · contradiction
  · exact ⟨rfl, rfl⟩
  · exact ⟨rfl, rfl⟩

theorem events_addAll {j : Journal} (h : j.mode ≠ .off) (es : List Event) :
    (j.addAll es).events = j.events ++ es := by
  induction es generalizing j with
  | nil => exact (List.append_nil _).symm
  | cons e es ih =>
    obtain ⟨hmode, hevents⟩ := add_of_mode_ne_off h e
    have hrest := ih (hmode ▸ h)
    rw [hevents, List.append_assoc] at hrest
    exact hrest

end Journal

theorem steps_compile (o : Options) (q : Query) :
    (compile o q).steps = .invoked q.kind q.text :: ((Compile.body o q).steps ++
      match (compile o q).result with
      | .ok _ => [.completed q.kind none]
      | .error e => [.failed e.failure, .completed q.kind (some e.failure.message)]) := rfl

/-- What a journal holds of a compilation: the beginning, then phases in their order and none
without a dataset, and at the end either success or one failure and that there is no success. Which
phases a successful compilation goes through depends on the query and the named graphs only. -/
theorem compile_events (o : Options) (q : Query) (id : Text) {j : Journal} (hj : j.mode ≠ .off) :
    ∃ (first : Event) (between ending : List Event),
      (j.addAll ((compile o q).steps.map (Step.event id))).events =
        j.events ++ first :: (between ++ ending) ∧
      (∀ e ∈ first :: (between ++ ending), e.compilation = id) ∧
      first.name = "compile/invoked" ∧
      (between.map (·.name)).Sublist Phase.all ∧
      (between ≠ [] → Phase.resolved ∈ between.map (·.name)) ∧
      match (compile o q).result with
      | .ok c =>
        o.resolveNamed q = .ok c.namedGraphs ∧
        Compile.Completes q c.namedGraphs (between.map (·.name)) ∧
        ∃ last : Event, ending = [last] ∧ last.name = "compile/completed" ∧
          last.data.get "success" = .bool true
      | .error e =>
        ∃ failed last : Event, ending = [failed, last] ∧
          failed.name = (if Failure.categoryOf e.failure.code = "structural" then
              "error/compile.structural"
            else if e.failure.code = "catalog.store.failure" then "error/compile.catalog"
            else "error/compile.unsupported" : Text) ∧
          failed.data.get "code" = .text e.failure.code ∧
          failed.data.get "error" = .text e.failure.message ∧
          last.name = "compile/completed" ∧ last.data.get "success" = .bool false ∧
          last.data.get "error" = .text e.failure.message := by
  have hphased := Compile.phased_body o q
  have hnames : ((Compile.body o q).steps.map (Step.event id)).map (·.name) =
      (Compile.body o q).steps.map Step.name := List.map_map
  rw [Journal.events_addAll hj, steps_compile, List.map_cons, List.map_append]
  refine ⟨_, _, _, rfl, ?_, rfl, ?_, ?_, ?_⟩
  · rw [← List.map_append, ← List.map_cons, List.forall_mem_map]
    intro s _
    rfl
  · rw [hnames]
    exact hphased.reports
  · rw [hnames]
    intro hne
    exact hphased.resolved (fun h => hne (by rw [h, List.map_nil]))
  · cases hr : (compile o q).result with
    | ok c =>
      obtain ⟨hnamed, hcompletes⟩ := Compile.completes_body hr
      rw [hnames]
      exact ⟨hnamed, hcompletes, _, rfl, rfl, rfl⟩
    | error e =>
      refine ⟨_, _, rfl, ?_, rfl, rfl, rfl, rfl, rfl⟩
      simp only [Step.event, Step.name, Step.failureName, Failure.isStructural, Failure.hasCode,
        decide_eq_true_eq]
      rfl

def misorderedQuery : Query := { optionalQuery with orderBy := [⟨.int 1, false⟩] }

/-- A run that ends with a command, and one that ends with a failure. -/
theorem compile_events_optionalQuery :
    Journal.Mode.listening ≠ .off ∧
    (∃ (c : Command) (first last : Event) (between : List Event),
      (compile {} optionalQuery).result = .ok c ∧
      (Journal.addAll ⟨.listening, [], []⟩
          ((compile {} optionalQuery).steps.map (Step.event "0"))).events =
        first :: (between ++ [last]) ∧
      first.name = "compile/invoked" ∧
      Compile.Completes optionalQuery c.namedGraphs (between.map (·.name)) ∧
      last.name = "compile/completed" ∧ last.data.get "success" = .bool true) ∧
    ∃ (first failed last : Event) (between : List Event),
      (Journal.addAll ⟨.listening, [], []⟩
          ((compile {} misorderedQuery).steps.map (Step.event "1"))).events =
        first :: (between ++ [failed, last]) ∧
      first.name = "compile/invoked" ∧ (between.map (·.name)).Sublist Phase.all ∧
      last.name = "compile/completed" ∧ last.data.get "success" = .bool false := by
  have hmode : Journal.Mode.listening ≠ .off := nofun
  refine ⟨hmode, ?_, ?_⟩
  · obtain ⟨c, hr⟩ : ∃ c, (compile {} optionalQuery).result = .ok c := ⟨_, rfl⟩
    obtain ⟨first, between, ending, hevents, -, hfirst, -, -, hending⟩ :=
      compile_events {} optionalQuery "0" (j := ⟨.listening, [], []⟩) hmode
    rw [hr] at hending
    obtain ⟨-, hcompletes, last, rfl, hlast, hsuccess⟩ := hending
    exact ⟨c, first, last, between, hr, hevents, hfirst, hcompletes, hlast, hsuccess⟩
  · obtain ⟨e, hr⟩ : ∃ e, (compile {} misorderedQuery).result = .error e := ⟨_, rfl⟩
    obtain ⟨first, between, ending, hevents, -, hfirst, hbetween, -, hending⟩ :=
      compile_events {} misorderedQuery "1" (j := ⟨.listening, [], []⟩) hmode
    rw [hr] at hending
    obtain ⟨failed, last, rfl, -, -, -, hlast, hsuccess, -⟩ := hending
    exact ⟨first, failed, last, between, hevents, hfirst, hbetween, hlast, hsuccess⟩

example : (compile {} misorderedQuery).steps.map Step.name =
    ([("compile/invoked" : Text)] ++ Phase.all ++ [("error/compile.structural" : Text),
      "compile/completed"]) := by
  decide +kernel

end GraphQuery
