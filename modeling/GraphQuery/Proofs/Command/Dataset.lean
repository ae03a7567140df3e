import GraphQuery.Proofs.Command.Phases
import GraphQuery.Proofs.Plan.GraphTree

namespace GraphQuery

theorem Options.dataset_eq {o : Options} {q : Query} {d : Dataset}
    (h : (o.dataset q).result = .ok d) :
    o.resolveNamed q = .ok d.named ∧ ∃ defaults source,
      o.resolveDefault q = .ok (defaults, source) ∧ d.graph = GraphTree.ofList? defaults := by
  obtain ⟨⟨defaults, source⟩, hdefault, h⟩ := Traced.bind_eq_ok.1 h
  obtain ⟨named, hnamed, h⟩ := Traced.bind_eq_ok.1 h
  cases h
  exact ⟨hnamed, defaults, source, hdefault, rfl⟩

namespace Compile

/-- A query reads its own lists of graphs for its dataset only. -/
theorem result_regraphed {o o' : Options} (q : Query) {graphs named : List Text}
    (hdefault : o'.resolveDefault { q with graphs, namedGraphs := named } = o.resolveDefault q)
    (hnamed : o'.resolveNamed { q with graphs, namedGraphs := named } = o.resolveNamed q)
    (hmodel : o'.typeModel = o.typeModel) :
    (compile o' { q with graphs, namedGraphs := named }).result = (compile o q).result := by
  have hdataset : o'.dataset { q with graphs, namedGraphs := named } = o.dataset q := by
    rw [Options.dataset, Options.dataset, hdefault, hnamed]
  have hselect : select o' { q with graphs, namedGraphs := named } = select o q := by
    rw [select, select, hdataset]
    rfl
  have hconstruct : construct o' { q with graphs, namedGraphs := named } = construct o q := by
    rw [construct, construct, hdataset]
    rfl
  have hdescribe : describe o' { q with graphs, namedGraphs := named } = describe o q := by
    rw [describe, describe, hdataset, hmodel]
    rfl
  have hask : ask o' { q with graphs, namedGraphs := named } = ask o q := by
    rw [ask, ask, hdataset]
    rfl
  have hbody : body o' { q with graphs, namedGraphs := named } = body o q := by
    rw [body, body, hselect, hconstruct, hdescribe, hask]
  change (body o' _).result = (body o q).result
  rw [hbody]

variable {o : Options} {q : Query}

theorem graphs_body {c : Command} (h : (body o.withSystemGraphs q).result = .ok c) :
    c.graphs = (firstFilled [o.defaultGraphs, q.graphs, answered (o.catalog.map (·.defaultGraphs)),
        [if o.fallback = [] then ("sys:default" : Text) else o.fallback]]).eraseDups ∧
      c.graphs ≠ [] ∧
      (o.defaultGraphs = [] → q.graphs = [] →
        ∀ e, o.catalog.map (·.defaultGraphs) ≠ some (.error e)) := by
  obtain ⟨_, _, hdataset, -⟩ := steps_body h
  obtain ⟨-, defaults, source, hdefault, hgraph⟩ := Options.dataset_eq hdataset
  have hfallback : o.withSystemGraphs.fallback =
      if o.fallback = [] then ("sys:default" : Text) else o.fallback := by
    simp only [Options.withSystemGraphs, List.isEmpty_iff]
    rfl
  rw [Options.resolveDefault_eq, hfallback] at hdefault
  obtain ⟨hdefaults, hanswers⟩ := Options.resolve_eq_ok hdefault
  have hne : defaults ≠ [] := by
    rw [hdefaults]
    apply eraseDups_ne_nil
    apply firstFilled_ne_nil (List.mem_append_right _ (List.mem_singleton_self _))
    exact List.cons_ne_nil _ _
  have hgraphs : c.graphs = defaults := by
    change c.graph = _ at hgraph
    rw [Command.graphs, hgraph, GraphTree.toList_ofList? hne, Option.getD_some]
  rw [hgraphs]
  exact ⟨hdefaults, hne, hanswers⟩

theorem namedGraphs_body {c : Command} (h : (body o.withSystemGraphs q).result = .ok c) :
    c.namedGraphs = (firstFilled [o.namedGraphs, q.namedGraphs,
        answered (o.catalog.map (·.namedGraphs))]).eraseDups ∧
      (o.namedGraphs = [] → q.namedGraphs = [] →
        ∀ e, o.catalog.map (·.namedGraphs) ≠ some (.error e)) := by
  obtain ⟨_, _, hdataset, -⟩ := steps_body h
  obtain ⟨hnamed, -⟩ := Options.dataset_eq hdataset
  rw [Options.resolveNamed_eq] at hnamed
  obtain ⟨⟨named, source⟩, hresolve, rfl⟩ := map_eq_ok.1 hnamed
  exact Options.resolve_eq_ok hresolve

end Compile

/-- The default graphs of a command are those of the first place that names any, each once, and the
fallback where no place does, so there is always one; likewise the named graphs, of which there may
be none. There is no command if a catalog fails where it is asked, that is where neither the request
nor the query names graphs. Elsewhere its answers change nothing, and a request that names both
default graphs and named graphs leaves no effect to the query's own lists either. -/
theorem compile_resolves_dataset (o : Options) (q : Query) :
    (∀ c, (compile o.withSystemGraphs q).result = .ok c →
      c.graphs = (firstFilled [o.defaultGraphs, q.graphs,
        answered (o.catalog.map (·.defaultGraphs)),
        [if o.fallback = [] then ("sys:default" : Text) else o.fallback]]).eraseDups ∧
      c.graphs ≠ [] ∧
      c.namedGraphs = (firstFilled [o.namedGraphs, q.namedGraphs,
        answered (o.catalog.map (·.namedGraphs))]).eraseDups ∧
      (o.defaultGraphs = [] → q.graphs = [] →
        ∀ e, o.catalog.map (·.defaultGraphs) ≠ some (.error e)) ∧
      (o.namedGraphs = [] → q.namedGraphs = [] →
        ∀ e, o.catalog.map (·.namedGraphs) ≠ some (.error e))) ∧
    (∀ catalog : Option CatalogView,
      (o.defaultGraphs = [] → q.graphs = [] →
        catalog.map (·.defaultGraphs) = o.catalog.map (·.defaultGraphs)) →
      (o.namedGraphs = [] → q.namedGraphs = [] →
        catalog.map (·.namedGraphs) = o.catalog.map (·.namedGraphs)) →
      (compile { o with catalog }.withSystemGraphs q).result =
        (compile o.withSystemGraphs q).result) ∧
    (o.defaultGraphs ≠ [] → o.namedGraphs ≠ [] →
      ∀ (catalog : Option CatalogView) (graphs named : List Text),
        (compile { o with catalog }.withSystemGraphs
            { q with graphs, namedGraphs := named }).result =
          (compile o.withSystemGraphs q).result) := by
  refine ⟨?_, ?_, ?_⟩
  · intro c hc
    obtain ⟨hgraphs, hne, hdefaults⟩ := Compile.graphs_body hc
    obtain ⟨hnamed, hnameds⟩ := Compile.namedGraphs_body hc
    exact ⟨hgraphs, hne, hnamed, hdefaults, hnameds⟩
  · intro catalog hdefaults hnamed
    apply Compile.result_regraphed q
    · rw [Options.resolveDefault_eq, Options.resolveDefault_eq]
      exact Options.resolve_congr (fun _ => rfl) hdefaults
    · rw [Options.resolveNamed_eq, Options.resolveNamed_eq]
      apply congrArg
      exact Options.resolve_congr (fun _ => rfl) hnamed
    · rfl
  · intro hdefaults hnamed catalog graphs named
    apply Compile.result_regraphed q
    · rw [Options.resolveDefault_eq, Options.resolveDefault_eq]
      apply Options.resolve_congr
      · exact fun hnil => absurd hnil hdefaults
      · exact fun hnil => absurd hnil hdefaults
    · rw [Options.resolveNamed_eq, Options.resolveNamed_eq]
      apply congrArg
      apply Options.resolve_congr
      · exact fun hnil => absurd hnil hnamed
      · exact fun hnil => absurd hnil hnamed
    · rfl

/-- A request for named graphs, and a catalog that fails when it is asked for them. -/
def overridingOptions : Options where
  namedGraphs := ["n", "m", "n"]
  fallback := []
  catalog := some { defaultGraphs := .ok ["d", "e", "d"], namedGraphs := .error (.plain "closed") }

/-- The failure of the catalog has no effect, and neither has the catalog itself nor what the query
names once the request names default graphs as well. -/
theorem compile_resolves_dataset_overridingOptions :
    (∃ c, (compile overridingOptions.withSystemGraphs optionalQuery).result = .ok c ∧
      c.graphs = ["d", "e"] ∧ c.namedGraphs = ["n", "m"] ∧
      (compile { overridingOptions with
          catalog := some { defaultGraphs := .ok ["d", "e", "d"], namedGraphs := .ok ["x"] }
        }.withSystemGraphs optionalQuery).result = .ok c) ∧
    (compile { overridingOptions.withGraphs ["p"] ["n"] with catalog := none }.withSystemGraphs
        { optionalQuery with graphs := ["f"], namedGraphs := [] }).result =
      (compile (overridingOptions.withGraphs ["p"] ["n"]).withSystemGraphs
        optionalQuery).result := by
  obtain ⟨hresolved, hcatalog, -⟩ := compile_resolves_dataset overridingOptions optionalQuery
  obtain ⟨-, -, hrequest⟩ :=
    compile_resolves_dataset (overridingOptions.withGraphs ["p"] ["n"]) optionalQuery
  refine ⟨?_, hrequest nofun nofun none ["f"] []⟩
  obtain ⟨c, hc⟩ : ∃ c, (compile overridingOptions.withSystemGraphs optionalQuery).result = .ok c :=
    ⟨_, rfl⟩
  obtain ⟨hgraphs, -, hnamed, -⟩ := hresolved c hc
  refine ⟨c, hc, hgraphs.trans (by decide +kernel), hnamed.trans (by decide +kernel), ?_⟩
  rw [← hc]
  apply hcatalog
  · exact fun _ _ => rfl
  · exact nofun

end GraphQuery
