import GraphQuery.Proofs.Command.Mentioned
import GraphQuery.Proofs.Command.Selected

namespace GraphQuery

section Exposed
variable (named : List Text) (v : Text)

/-- The ingredient has the variable in a leaf, or leads to such a leaf where graphs are named. -/
def Ingredient.Exposes : Ingredient → Prop
  | leaf l => .var v ∈ l.leafElements
  | graph g => named ≠ [] ∧ g = .var v
  | _ => False

def Pattern.positions : Pattern → List Expression
  | triple t => [t.subject, t.predicate, t.object]
  | _ => []

/-- The variable stands in a triple of the pattern, or selects a graph where graphs are named. -/
def Pattern.Exposes (p : Pattern) : Prop :=
  ∃ q ∈ p.nodes, (∃ e ∈ q.positions, v ∈ e.names) ∨
    named ≠ [] ∧ ∃ e ∈ q.modifiers.graph.toList, v ∈ e.names

instance (p : Pattern) : Decidable (p.Exposes named v) :=
  inferInstanceAs (Decidable (∃ q ∈ p.nodes, _))

end Exposed

section Exposes
variable {named : List Text} {v : Text}

theorem Modifiers.exists_exposes {m : Modifiers} {mods : List Ingredient}
    (h : m.ingredients = .ok mods) :
    (∃ x ∈ mods, x.Exposes named v) ↔ named ≠ [] ∧ ∃ e ∈ m.graph.toList, v ∈ e.names := by
  obtain ⟨terms, graphs, -, hmods⟩ := ingredients_eq_ok h
  have hexposes : ∀ x ∈ mods, (x.Exposes named v ↔ named ≠ [] ∧ x.Binds v) := by
    intro x hx
    rw [hmods] at hx
    rcases List.mem_append.1 hx with hx | hx
    · obtain ⟨t, -, rfl⟩ := List.mem_map.1 hx
      exact ⟨nofun, fun hbinds => hbinds.2.elim⟩
    · obtain ⟨g, -, rfl⟩ := List.mem_map.1 hx
      exact Iff.rfl
  rw [← exists_binds h]
  constructor
  · rintro ⟨x, hx, hv⟩
    obtain ⟨hnamed, hbinds⟩ := (hexposes x hx).1 hv
    exact ⟨hnamed, x, hx, hbinds⟩
  · rintro ⟨hnamed, x, hx, hbinds⟩
    exact ⟨x, hx, (hexposes x hx).2 ⟨hnamed, hbinds⟩⟩

namespace Pattern

theorem exists_exposes_own {q : Pattern} {own : List Ingredient} (h : q.own = .ok own) :
    (∃ x ∈ own, x.Exposes named v) ↔ (∃ e ∈ q.positions, v ∈ e.names) ∨
      named ≠ [] ∧ ∃ e ∈ q.modifiers.graph.toList, v ∈ e.names := by
  cases q with
  | triple t =>
    obtain ⟨ps, hps, h⟩ := bind_eq_ok.1 h
    obtain ⟨mods, hm, rfl⟩ := Modifiers.around_eq_ok.1 h
    have hleaves : (∃ x ∈ ps.map Ingredient.leaf, x.Exposes named v) ↔
        ∃ x ∈ ps.map Ingredient.leaf, x.Binds v := by
      simp [Ingredient.Exposes, Ingredient.Binds]
    simp only [List.mem_append, or_and_right, exists_or, hleaves, TriplePattern.exists_binds hps,
      Modifiers.exists_exposes hm]
    rfl
  | bind main var value m =>
    obtain ⟨t, -, h⟩ := bind_eq_ok.1 h
    obtain ⟨mods, hm, rfl⟩ := Modifiers.around_eq_ok.1 h
    rw [List.singleton_append, List.exists_mem_cons_iff, Modifiers.exists_exposes hm]
    simp [Ingredient.Exposes, positions, modifiers]
  | _ =>
    have hmods : (∃ x ∈ own, x.Exposes named v) ↔ _ := Modifiers.exists_exposes h
    simpa [positions] using hmods

theorem exists_exposes {p : Pattern} {parts : List Ingredient} (h : p.ingredients = .ok parts) :
    (∃ x ∈ parts, x.Exposes named v) ↔ p.Exposes named v :=
  exists_mem_ingredients nofun (fun _ _ hown => exists_exposes_own hown) h

end Pattern

theorem Plan.leavesHave_simplify (p : Plan) : p.simplify.plan.LeavesHave v ↔ p.LeavesHave v := by
  rw [leavesHave_iff, leavesHave_iff, ingredients_simplify]

/-- A variable that selects a graph stands in a leaf once it is bound to the named graphs. -/
theorem Compile.leavesHave_wherePlan {p : Pattern} {plan : Plan} {refs : List Text}
    (h : (wherePlan named p).result = .ok (plan, refs)) :
    plan.LeavesHave v ↔ p.Exposes named v := by
  obtain ⟨parts, hparts, hi⟩ := parts_wherePlan h
  rw [Plan.leavesHave_iff, hi, ← Pattern.exists_exposes hparts]
  constructor
  · rintro ⟨l, hl, hv⟩
    rcases List.mem_append.1 hl with hl | hl
    · exact ⟨.leaf l, hl, hv⟩
    -- A leaf that says which graph a variable is stands for the selector that has the variable.
    · obtain ⟨w, hw, hl⟩ := List.mem_flatMap.1 hl
      obtain ⟨g, hg, hl⟩ := List.mem_map.1 hl
      cases hl
      obtain rfl : v = w := by simpa [Plan.leafElements] using hv
      exact ⟨_, Ingredient.mem_graphVariables.1 hw, List.ne_nil_of_mem hg, rfl⟩
  · rintro ⟨x, hx, hv⟩
    cases x with
    | leaf l => exact ⟨l, List.mem_append_left _ hx, hv⟩
    | graph g =>
      obtain ⟨hnamed, rfl⟩ := hv
      obtain ⟨g, hg⟩ := List.exists_mem_of_ne_nil named hnamed
      refine ⟨.is v (.iri g) none, ?_, List.mem_cons_self⟩
      apply List.mem_append_right
      exact List.mem_flatMap.2 ⟨v, Ingredient.mem_graphVariables.2 hx, List.mem_map_of_mem hg⟩
    | condition | binding => exact hv.elim

end Exposes

/-- The query for all variables over the same pattern and the same graphs. -/
def Query.selectingAll (q : Query) : Query where
  kind := .select
  selectAll := true
  pattern := q.pattern
  graphs := q.graphs
  namedGraphs := q.namedGraphs

namespace Compile

theorem describe_ok {o : Options} {q : Query} {c : Command} (h : (body o q).result = .ok c)
    (hk : q.kind = .describe) :
    ∃ dataset base refs parts, (o.dataset q).result = .ok dataset ∧
      (describedPlan dataset.named q.pattern).result = .ok (base, refs) ∧
      described q ≠ [] ∧ descriptions base 0 (described q) = .ok parts ∧
      c.selection = parts.map (·.1) ∧
      c.plan = .any (parts.map fun part => .conj [part.2.simplify.plan, notBlank o.typeModel]) := by
  rw [body, hk] at h
  simp only [describe] at h
  split at h
  · cases h
  · rename_i hne
    obtain ⟨dataset, hdataset, h⟩ := Traced.bind_eq_ok.1 h
    obtain ⟨⟨base, refs⟩, hbase, h⟩ := Traced.bind_eq_ok.1 h
    obtain ⟨parts, hparts, h⟩ := Traced.bind_eq_ok.1 h
    obtain ⟨plan, hplan, h⟩ := Traced.bind_eq_ok.1 h
    cases hplan
    cases h
    refine ⟨dataset, base, refs, parts, hdataset, hbase, ?_, hparts, rfl, ?_⟩
    · intro hnil
      exact hne (List.isEmpty_iff.2 hnil)
    · simp only [command, Plan.simplify_any, List.map_map, Function.comp_def,
        Plan.simplify_conj_pair]
      rfl

def about (v : Text) : Plan :=
  .constraint { subject := .var v, predicate := .var "_p", object := .var objectName }

theorem renamed_aboutSubject (v : Text) : aboutSubject.renamed subjectName v = about v := by
  have hs : Plan.swapName subjectName v subjectName = v := if_pos rfl
  have hp : Plan.swapName subjectName v "_p" = "_p" := if_neg (by decide +kernel)
  have ho : Plan.swapName subjectName v objectName = objectName := if_neg (by decide +kernel)
  rw [aboutSubject, Plan.renamed, Plan.mapLeaves_of_leafKind? rfl]
  simp only [Plan.renamedLeaf, Plan.mapLeaf, Constraint.map, Plan.swapElement, hs, hp, ho]
  rfl

/-- The description of a selected element, with the given copy of the plan of the pattern. -/
def specialization (typeModel : Text) (copy : Plan) (s : Selection) : Plan :=
  match s.value with
  | none => .conj [.conj [copy, about s.var], notBlank typeModel]
  | some value =>
    .conj [.conj [.conj [copy, aboutSubject], .is subjectName value none], notBlank typeModel]

def copyFor (plan : Plan) (s : Selection) : Plan :=
  match s.value with
  | none => plan.renamed subjectName s.var
  | some _ => plan

theorem simplify_description (plan : Plan) (typeModel : Text) (s : Selection) :
    .conj [(description (.conj [plan, aboutSubject]) s).simplify.plan, notBlank typeModel] =
      specialization typeModel (copyFor plan.simplify.plan s) s := by
  obtain ⟨v, value⟩ := s
  cases value with
  | none =>
    simp only [description, specialization, copyFor, Plan.simplify_renamed,
      Plan.simplify_conj_pair]
    rw [← renamed_aboutSubject]
    rfl
  | some value =>
    simp only [description, specialization, copyFor, Plan.simplify_conj_pair]
    rfl

theorem copyFor_eq_self_iff {plan : Plan} {s : Selection} :
    copyFor plan s = plan ↔
      s.value ≠ none ∨ s.var = subjectName ∨ ¬ plan.LeavesHave subjectName := by
  obtain ⟨v, value⟩ := s
  cases value with
  | none =>
    rw [copyFor, Plan.renamed_eq_self_iff]
    simp [eq_comm]
  | some value => simp [copyFor]

theorem selectingAll_ok {o : Options} {q : Query} {p : Pattern} {dataset : Dataset} {plan : Plan}
    {refs : List Text} (hp : q.pattern = some p) (hd : (o.dataset q).result = .ok dataset)
    (hw : (wherePlan dataset.named p).result = .ok (plan, refs)) :
    ∃ c, (body o q.selectingAll).result = .ok c ∧ c.plan = plan.simplify.plan ∧
      c.namedGraphs = dataset.named := by
  have hdataset : (o.dataset q.selectingAll).result = .ok dataset := hd
  have hpattern : q.selectingAll.pattern = some p := hp
  have hselect : (select o q.selectingAll).result = .ok (command q.selectingAll .select dataset
      plan.simplify.plan refs (q.selectingAll.allVariables.map (⟨·, none⟩)) []) := by
    rw [select, hpattern]
    apply Traced.bind_eq_ok.2
    refine ⟨dataset, hdataset, ?_⟩
    apply Traced.bind_eq_ok.2
    exact ⟨(plan, refs), hw, rfl⟩
  exact ⟨_, hselect, rfl, rfl⟩

theorem describe_specializations {o : Options} {q : Query} {p : Pattern} {c : Command}
    (hc : (body o q).result = .ok c) (hk : q.kind = .describe) (hp : q.pattern = some p) :
    ∃ w, (body o q.selectingAll).result = .ok w ∧ Numbered 0 (described q) c.selection ∧
      c.plan = .any (c.selection.map fun s =>
        specialization o.typeModel (copyFor w.plan s) s) ∧
      (w.plan.LeavesHave subjectName ↔ p.Exposes w.namedGraphs subjectName) := by
  obtain ⟨dataset, base, refs, parts, hd, hbase, -, hparts, hselection, hplan⟩ := describe_ok hc hk
  rw [hp] at hbase
  obtain ⟨⟨plan, refs'⟩, hwhere, hpair⟩ := Traced.bind_eq_ok.1 hbase
  cases hpair
  obtain ⟨w, hw, hwplan, hnamed⟩ := selectingAll_ok hp hd hwhere
  obtain ⟨hnumbered, hdescriptions⟩ := numbered_descriptions hparts
  refine ⟨w, hw, hselection ▸ hnumbered, ?_, ?_⟩
  · rw [hplan, hselection, List.map_map, hwplan]
    apply congrArg Plan.any
    apply List.map_congr_left
    intro part hpart
    rw [hdescriptions part hpart, simplify_description]
    rfl
  · rw [hwplan, hnamed, Plan.leavesHave_simplify]
    exact leavesHave_wherePlan hwhere

end Compile

/-- The query is a description whose pattern exposes the name of the subject, and its command passes
the test. -/
def Query.exposesSubject (test : Command → Bool) (q : Query) : Bool :=
  q.kind = .describe &&
    (q.pattern.any fun p : Pattern =>
      (compile {} q.selectingAll).result.toOption.any fun w : Command =>
        decide (p.Exposes w.namedGraphs Compile.subjectName)) &&
    (compile {} q).result.toOption.any test

theorem Query.exists_of_exposesSubject (t : Text) (test : Command → Bool)
    (h : (Query.ofText t).toOption.any (exposesSubject test) = true) :
    ∃ q p c w, Query.ofText t = .ok q ∧ q.kind = .describe ∧ q.pattern = some p ∧
      (compile {} q).result = .ok c ∧ (compile {} q.selectingAll).result = .ok w ∧
      p.Exposes w.namedGraphs Compile.subjectName ∧ test c = true := by
  obtain ⟨q, hq, htest⟩ := exists_ok_of_any h
  simp only [exposesSubject, Bool.and_eq_true, decide_eq_true_eq] at htest
  obtain ⟨⟨hkind, hpattern⟩, hcommand⟩ := htest
  obtain ⟨p, hp, hexposes⟩ := (Option.any_eq_true _ _).1 hpattern
  obtain ⟨w, hw, hexposes⟩ := exists_ok_of_any hexposes
  obtain ⟨c, hc, htest⟩ := exists_ok_of_any hcommand
  exact ⟨q, p, c, w, hq, hkind, hp, hc, hw, of_decide_eq_true hexposes, htest⟩

open Compile in
/-- The plan of a description is made of one specialization for every element that is described. The
copy of the pattern in it is the plan of a query for all variables over the same pattern, but for
the name of the subject in its leaves: it is the very same plan exactly for constants, for a
variable of that name, and where such a variable neither stands in a triple of the pattern nor
selects one of the named graphs. -/
theorem compile_describes_pattern {o : Options} {q : Query} {p : Pattern} {c : Command}
    (hk : q.kind = .describe) (hp : q.pattern = some p) (hc : (compile o q).result = .ok c) :
    ∃ w, (compile o q.selectingAll).result = .ok w ∧ Numbered 0 (described q) c.selection ∧
      c.plan = .any (c.selection.map fun s =>
        specialization o.typeModel (copyFor w.plan s) s) ∧
      ∀ s ∈ c.selection, copyFor w.plan s = w.plan ↔
        s.value ≠ none ∨ s.var = subjectName ∨ ¬ p.Exposes w.namedGraphs subjectName := by
  obtain ⟨w, hw, hnumbered, hplan, hleaves⟩ := describe_specializations hc hk hp
  refine ⟨w, hw, hnumbered, hplan, ?_⟩
  intro s _
  rw [copyFor_eq_self_iff, hleaves]

/-- A query that describes two variables and a constant, where a variable of the name of the subject
selects the graph. -/
def selectingQuery : Text :=
  "\x7b:describe [?x <i> ?_s] :from-named [<g1> <g2>] :where [?y <p> ?x :graph ?_s]\x7d"

open Compile in
theorem compile_describes_pattern_selectingQuery :
    ∃ q p c w, Query.ofText selectingQuery = .ok q ∧ q.kind = .describe ∧ q.pattern = some p ∧
      (compile {} q).result = .ok c ∧ (compile {} q.selectingAll).result = .ok w ∧
      c.selection.map (·.var) = [("x" : Text), "_const0", "_s"] ∧
      ∀ s ∈ c.selection, copyFor w.plan s = w.plan ↔ s.var ≠ "x" := by
  obtain ⟨q, p, c, w, hq, hkind, hp, hc, hw, hexposes, htest⟩ :=
    Query.exists_of_exposesSubject selectingQuery
      (fun c => decide (c.selection.map (·.var) = [("x" : Text), "_const0", "_s"]) &&
        decide (∀ s ∈ c.selection, s.value ≠ none ∨ s.var = subjectName ↔ s.var ≠ "x"))
      (by decide +kernel)
  simp only [Bool.and_eq_true, decide_eq_true_eq] at htest
  obtain ⟨hvars, hselection⟩ := htest
  obtain ⟨w', hw', -, -, hcopies⟩ := compile_describes_pattern hkind hp hc
  obtain rfl : w = w' := Except.ok.inj (hw.symm.trans hw')
  refine ⟨q, p, c, w, hq, hkind, hp, hc, hw, hvars, ?_⟩
  intro s hs
  rw [hcopies s hs, ← hselection s hs]
  simp [hexposes]

def capturingQuery : Text := "\x7b:describe [?x] :where [?_s <p> ?x]\x7d"

open Compile in
theorem exists_copy_ne_plan :
    ∃ q c w, Query.ofText capturingQuery = .ok q ∧ q.kind = .describe ∧
      (compile {} q).result = .ok c ∧ (compile {} q.selectingAll).result = .ok w ∧
      ∃ s copy, c.selection = [s] ∧
        c.plan = specialization ({} : Options).typeModel copy s ∧ copy ≠ w.plan := by
  obtain ⟨q, p, c, w, hq, hkind, hp, hc, hw, hexposes, htest⟩ :=
    Query.exists_of_exposesSubject capturingQuery
      (fun c => decide (c.selection.length = 1) &&
        decide (∀ s ∈ c.selection, s.value = none ∧ s.var ≠ subjectName))
      (by decide +kernel)
  simp only [Bool.and_eq_true, decide_eq_true_eq] at htest
  obtain ⟨hlength, hselection⟩ := htest
  obtain ⟨s, hs⟩ := List.length_eq_one_iff.1 hlength
  obtain ⟨hvalue, hvar⟩ := hselection s (by rw [hs]; exact List.mem_singleton_self s)
  obtain ⟨w', hw', -, hplan, hleaves⟩ := describe_specializations hc hkind hp
  obtain rfl : w = w' := Except.ok.inj (hw.symm.trans hw')
  refine ⟨q, c, w, hq, hkind, hc, hw, s, copyFor w.plan s, hs, ?_, ?_⟩
  · rw [hplan, hs]
    rfl
  · rw [ne_eq, copyFor_eq_self_iff, hleaves]
    simp [hvalue, hvar, hexposes]

end GraphQuery
