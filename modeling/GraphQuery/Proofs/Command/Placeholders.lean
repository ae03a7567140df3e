import GraphQuery.Proofs.Command.Description
import GraphQuery.Proofs.Command.Mentioned

namespace GraphQuery

namespace Query

def head (q : Query) : List Expression :=
  if q.kind = .construct then q.template else q.selection

/-- The name stands in the head or in the pattern of the query. -/
def Mentions (q : Query) (v : Text) : Prop :=
  (∃ e ∈ q.head, v ∈ e.mentioned) ∨ ∃ p ∈ q.pattern, p.Mentions v

instance (q : Query) (v : Text) : Decidable (q.Mentions v) :=
  inferInstanceAs (Decidable (_ ∨ ∃ p ∈ q.pattern, _))

end Query

namespace Compile

namespace Numbered
variable {n : Nat} {es : List Expression} {ss : List Selection} {v : Text}

theorem mentioned_eq (h : Numbered n es ss) : ∀ e ∈ es, e.mentioned = e.names := by
  induction h with
  | nil => exact nofun
  | named name hname rest ih =>
    refine List.forall_mem_cons.2 ⟨?_, ih⟩
    rcases hname with rfl | rfl
    · rfl
    · rfl
  | constant value hnames hvalue rest ih =>
    exact List.forall_mem_cons.2 ⟨Element.mentioned_of_ofExpression hvalue, ih⟩

theorem mem_variables (h : Numbered n es ss) :
    v ∈ (ss.filter (·.value.isNone)).map (·.var) ↔ ∃ e ∈ es, v ∈ e.mentioned := by
  rw [h.variables_eq, List.mem_flatMap]
  refine exists_congr fun e => and_congr_right fun he => ?_
  rw [h.mentioned_eq e he]

theorem value_ne_var (h : Numbered n es ss) : ∀ s ∈ ss, s.value ≠ some (.var v) := by
  induction h with
  | nil => exact nofun
  | named name hname rest ih => exact List.forall_mem_cons.2 ⟨nofun, ih⟩
  | constant value hnames hvalue rest ih =>
    refine List.forall_mem_cons.2 ⟨?_, ih⟩
    intro hvar
    have hmem := (Element.ofExpression_eq_var hvalue).1 (Option.some.inj hvar)
    rw [hnames] at hmem
    cases hmem

end Numbered

def describingNames : List Text := [subjectName, "_p", objectName]

theorem placeholder_not_mem_describingNames (n : Nat) : placeholder n ∉ describingNames := by
  intro h
  have hshort : (placeholder n).take 2 ∈ describingNames.map (·.take 2) :=
    List.mem_map_of_mem h
  have hstart : (placeholder n).take 2 = "_c" := rfl
  rw [hstart] at hshort
  exact absurd hshort (by decide +kernel)

theorem mentions_aboutSubject {v : Text} : aboutSubject.Mentions v ↔ v ∈ describingNames := by
  rw [aboutSubject, Plan.mentions_leaf (l := .constraint _) rfl]
  simp [Plan.leafElements, Constraint.elements, describingNames]

theorem not_mentions_notBlank {typeModel v : Text} (hv : v ∉ describingNames) :
    ¬ (notBlank typeModel).Mentions v := by
  intro h
  obtain ⟨p, hp, h⟩ := Plan.mentions_disj.1 h
  have hobject : v = objectName := by
    simp only [List.mem_cons, List.not_mem_nil, or_false] at hp
    rcases hp with rfl | rfl
    · simpa [Plan.mentions_leaf (l := .constraint _) rfl, Plan.leafElements, Constraint.elements]
        using h
    · simpa [Plan.mentions_leaf (l := .constraint _) rfl, Plan.leafElements, Constraint.elements]
        using h
  rw [hobject] at hv
  exact hv (by decide +kernel)

theorem construct_ok {o : Options} {q : Query} {c : Command} (h : (body o q).result = .ok c)
    (hk : q.kind = .construct) : templatePositions 0 q.template = .ok c.selection := by
  rw [body, hk] at h
  simp only [construct] at h
  split at h
  · cases h
  · split at h
    · cases h
    · obtain ⟨selection, hs, h⟩ := Traced.bind_eq_ok.1 h
      obtain ⟨_, _, h⟩ := Traced.bind_eq_ok.1 h
      obtain ⟨⟨plan, refs⟩, _, h⟩ := Traced.bind_eq_ok.1 h
      obtain ⟨_, _, h⟩ := Traced.bind_eq_ok.1 h
      obtain ⟨_, _, h⟩ := Traced.bind_eq_ok.1 h
      cases h
      exact hs

section Describe
variable {v : Text} (hv : v ∉ describingNames)
include hv

theorem mentions_describedPlan {named : List Text} {pattern? : Option Pattern} {base : Plan}
    {refs : List Text} (h : (describedPlan named pattern?).result = .ok (base, refs)) :
    base.Mentions v ↔ ∃ p ∈ pattern?, p.Mentions v := by
  cases pattern? with
  | none =>
    cases h
    simp [mentions_aboutSubject, hv]
  | some p =>
    obtain ⟨⟨plan, refs'⟩, hwhere, hpair⟩ := Traced.bind_eq_ok.1 h
    cases hpair
    simp [Plan.mentions_conj, mentions_wherePlan hwhere, mentions_aboutSubject, hv]

theorem mentions_description {base : Plan} {s : Selection} (hs : s.value ≠ some (.var v)) :
    (description base s).Mentions v ↔
      base.Mentions v ∨ s.value = none ∧ v = s.var ∧ base.LeavesHave subjectName := by
  have hsubject : v ≠ subjectName := by
    rintro rfl
    exact hv List.mem_cons_self
  obtain ⟨w, value⟩ := s
  cases value with
  | none =>
    rw [description, Plan.mentions_renamed hsubject]
    simp
  | some value =>
    have his : ¬ (Plan.is subjectName value none).Mentions v := by
      rw [Plan.mentions_leaf (l := .is ..) rfl]
      intro hmem
      simp only [Plan.leafElements, Option.toList_none, List.append_nil, List.mem_cons,
        Element.var.injEq, List.not_mem_nil, or_false] at hmem
      rcases hmem with hname | hvalue
      · exact hsubject hname
      · exact hs (congrArg some hvalue.symm)
    simp [description, Plan.mentions_conj, his]

end Describe

theorem mentions_construct {o : Options} {q : Query} {c : Command}
    (hc : (body o q).result = .ok c) (hk : q.kind = .construct) {v : Text} :
    v ∈ c.variables ∨ c.plan.Mentions v ↔ q.Mentions v := by
  have hhead : q.head = q.template := if_pos hk
  have hnumbered := numbered_templatePositions (construct_ok hc hk)
  obtain ⟨p, plan, hp, hwhere, hplan⟩ := body_ok hc (.inr (.inl hk))
  rw [Command.variables, hnumbered.mem_variables, hplan, Plan.mentions_simplify,
    mentions_wherePlan hwhere, Query.Mentions, hhead, hp]
  simp

theorem mentioned_described {q : Query} (hk : q.kind = .describe) {v : Text} :
    (∃ e ∈ described q, v ∈ e.mentioned) ∨ (∃ p ∈ q.pattern, p.Mentions v) ↔ q.Mentions v := by
  have hhead : q.head = q.selection := if_neg (by rw [hk]; decide)
  rw [Query.Mentions, hhead]
  constructor
  · rintro (⟨e, he, hv⟩ | hpattern)
    · rcases List.mem_append.1 he with he | he
      · exact .inl ⟨e, he, hv⟩
      · split at he
        · obtain ⟨w, hw, rfl⟩ := List.mem_map.1 he
          rw [List.mem_singleton.1 hv]
          rw [Query.allVariables] at hw
          split at hw
          · cases hw
          · rename_i p hp
            exact .inr ⟨p, hp, Pattern.mentions_of_mem_boundVars (mem_unique.1 hw)⟩
        · cases he
    · exact .inr hpattern
  · rintro (⟨e, he, hv⟩ | hpattern)
    · exact .inl ⟨e, List.mem_append_left _ he, hv⟩
    · exact .inr hpattern

theorem mentions_describe {o : Options} {q : Query} {c : Command}
    (hc : (body o q).result = .ok c) (hk : q.kind = .describe) {v : Text}
    (hv : v ∉ describingNames) : v ∈ c.variables ∨ c.plan.Mentions v ↔ q.Mentions v := by
  obtain ⟨dataset, base, refs, parts, -, hbase, hne, hparts, hselection, hplan⟩ := describe_ok hc hk
  obtain ⟨hnumbered, hdescriptions⟩ := numbered_descriptions hparts
  have hvariables : v ∈ c.variables ↔ ∃ e ∈ described q, v ∈ e.mentioned := by
    rw [Command.variables, hselection]
    exact hnumbered.mem_variables
  have hmentions : c.plan.Mentions v ↔ ∃ part ∈ parts, part.2.Mentions v := by
    rw [hplan, Plan.mentions_any]
    simp [Plan.mentions_conj, Plan.mentions_simplify, not_mentions_notBlank hv]
  have hdescription (part : Selection × Plan) (hpart : part ∈ parts) :
      part.2.Mentions v ↔ base.Mentions v ∨
        part.1.value = none ∧ v = part.1.var ∧ base.LeavesHave subjectName := by
    rw [hdescriptions part hpart]
    exact mentions_description hv (hnumbered.value_ne_var _ (List.mem_map_of_mem hpart))
  rw [← mentioned_described hk, ← hvariables, ← mentions_describedPlan hv hbase, hmentions]
  constructor
  · rintro (hvar | ⟨part, hpart, hv⟩)
    · exact .inl hvar
    · rcases (hdescription part hpart).1 hv with hbase | ⟨hnone, rfl, -⟩
      · exact .inr hbase
      · left
        rw [Command.variables, hselection]
        exact List.mem_map_of_mem
          (List.mem_filter.2 ⟨List.mem_map_of_mem hpart, by rw [hnone]; rfl⟩)
  · rintro (hvar | hbase)
    · exact .inl hvar
    -- There is at least one description, and every one keeps the names of the base.
    · cases parts with
      | nil =>
        cases hdescribed : described q with
        | nil => exact absurd hdescribed hne
        | cons e es =>
          rw [hdescribed] at hnumbered
          cases hnumbered
      | cons part rest =>
        have hfirst := (hdescription part List.mem_cons_self).2 (.inl hbase)
        exact .inr ⟨part, List.mem_cons_self, hfirst⟩

theorem numbered_selection {o : Options} {q : Query} {c : Command}
    (hc : (body o q).result = .ok c) (hk : q.kind = .construct ∨ q.kind = .describe) :
    ∃ es, Numbered 0 es c.selection := by
  rcases hk with hk | hk
  · exact ⟨q.template, numbered_templatePositions (construct_ok hc hk)⟩
  · obtain ⟨_, _, _, parts, -, -, -, hparts, hselection, -⟩ := describe_ok hc hk
    exact ⟨described q, hselection ▸ (numbered_descriptions hparts).1⟩

end Compile

open Compile in
/-- The placeholders of a construction or a description are numbered from zero on, so they are
pairwise distinct. A placeholder differs from the variables that are selected and from all names in
the plan exactly where neither the head nor the pattern of the query mentions its name. -/
theorem compile_numbers_constants {o : Options} {q : Query} {c : Command}
    (hk : q.kind = .construct ∨ q.kind = .describe) (hc : (compile o q).result = .ok c) :
    c.placeholders = (List.range c.placeholders.length).map placeholder ∧ c.placeholders.Nodup ∧
      ∀ x ∈ c.placeholders, (x ∉ c.variables ∧ ¬ c.plan.Mentions x) ↔ ¬ q.Mentions x := by
  obtain ⟨es, hnumbered⟩ := numbered_selection hc hk
  obtain ⟨k, hplaceholders⟩ := hnumbered.placeholders_eq
  have hrange : c.placeholders = (List.range k).map placeholder := by
    rw [Command.placeholders, hplaceholders, List.range_eq_range']
  refine ⟨?_, ?_, ?_⟩
  · rw [hrange, List.length_map, List.length_range]
  · rw [hrange]
    exact List.nodup_range.map placeholder_injective
  · intro x hx
    rw [hrange] at hx
    obtain ⟨n, -, rfl⟩ := List.mem_map.1 hx
    have hname := placeholder_not_mem_describingNames n
    rw [← not_or, not_iff_not]
    rcases hk with hk | hk
    · exact mentions_construct hc hk
    · exact mentions_describe hc hk hname

/-- A template of three constants, with the name of the second placeholder in the template itself
and that of the third in a filter only. -/
def constantsQuery : Text :=
  "\x7b:construct [?x <p> 7 ?_const1 <q> _:b] :where [?x <p> _:b :filter (bound ?_const2)]\x7d"

theorem compile_numbers_constants_constantsQuery :
    ∃ q c, Query.ofText constantsQuery = .ok q ∧ q.kind = .construct ∧
      (compile {} q).result = .ok c ∧ c.placeholders = [("_const0" : Text), "_const1", "_const2"] ∧
      c.placeholders.Nodup ∧ ("_const0" : Text) ∉ c.variables ∧ ¬ c.plan.Mentions "_const0" ∧
      ∀ x ∈ [("_const1" : Text), "_const2"], ¬ (x ∉ c.variables ∧ ¬ c.plan.Mentions x) := by
  obtain ⟨q, hq, htest⟩ := exists_ok_of_any (x := Query.ofText constantsQuery)
    (p := fun q => q.kind = .construct && !decide (q.Mentions "_const0") &&
      decide (q.Mentions "_const1") && decide (q.Mentions "_const2") &&
      (compile {} q).result.toOption.any
        fun c => c.placeholders = [("_const0" : Text), "_const1", "_const2"]) (by decide +kernel)
  simp only [Bool.and_eq_true, Bool.not_eq_true', decide_eq_true_eq, decide_eq_false_iff_not]
    at htest
  obtain ⟨⟨⟨⟨hkind, hfirst⟩, hsecond⟩, hthird⟩, htest⟩ := htest
  obtain ⟨c, hc, hplaceholders⟩ := exists_ok_of_any htest
  replace hplaceholders := of_decide_eq_true hplaceholders
  obtain ⟨-, hnodup, hfresh⟩ := compile_numbers_constants (.inl hkind) hc
  rw [hplaceholders] at hfresh
  have hfirstFresh := (hfresh "_const0" (by simp)).2 hfirst
  refine ⟨q, c, hq, hkind, hc, hplaceholders, hnodup, hfirstFresh.1, hfirstFresh.2, ?_⟩
  intro x hx hnot
  have hmentions := (hfresh x (List.mem_cons_of_mem _ hx)).1 hnot
  simp only [List.mem_cons, List.not_mem_nil, or_false] at hx
  rcases hx with rfl | rfl
  · exact hmentions hsecond
  · exact hmentions hthird

def clashingQuery : Text := "\x7b:construct [?_const0 <p> ?x] :where [?_const0 <q> ?x]\x7d"

open Compile in
/-- The placeholder of the constant is also a variable of the template and of the plan. -/
theorem exists_placeholder_clashes :
    ∃ q c, Query.ofText clashingQuery = .ok q ∧ q.kind = .construct ∧
      (compile {} q).result = .ok c ∧
      ∃ x ∈ c.placeholders, x ∈ c.variables ∧ c.plan.Mentions x := by
  obtain ⟨q, hq, htest⟩ := exists_ok_of_any (x := Query.ofText clashingQuery)
    (p := fun q => q.kind = .construct && (compile {} q).result.toOption.any
      fun c : Command => decide (placeholder 0 ∈ c.placeholders) &&
        decide (placeholder 0 ∈ c.variables) && c.plan.leafKind?.isSome &&
        decide (.var (placeholder 0) ∈ c.plan.leafElements))
    (by decide +kernel)
  simp only [Bool.and_eq_true, decide_eq_true_eq] at htest
  obtain ⟨hkind, htest⟩ := htest
  obtain ⟨c, hc, htest⟩ := exists_ok_of_any htest
  simp only [Bool.and_eq_true, decide_eq_true_eq] at htest
  obtain ⟨⟨⟨hplaceholder, hvariable⟩, hleaf⟩, hmem⟩ := htest
  exact ⟨q, c, hq, hkind, hc, _, hplaceholder, hvariable, (Plan.mentions_leaf hleaf).2 hmem⟩

end GraphQuery
