import GraphQuery.Proofs.Command.Resolution
import GraphQuery.Proofs.Command.Where
import GraphQuery.Proofs.Plan.Mappable
import GraphQuery.Proofs.Plan.Origins
import GraphQuery.Proofs.Plan.Renamed
import GraphQuery.Proofs.Query.RoundTrip

namespace GraphQuery

/-- The failure is of exactly one of the two categories. -/
def Failure.IsCategorized (f : Failure) : Prop :=
  Xor (f.isStructural = true) (f.isUnsupported = true)

theorem Failure.of_isCategorized {code : Code} (hcatalog : code ≠ .catalogFailure)
    (hconfig : code ≠ .configInvalid) (message : Text) (fields : Fields) :
    (Failure.of code message fields).IsCategorized := by
  have hcode : (Failure.of code message fields).code = code.text := rfl
  rw [IsCategorized, isStructural, isUnsupported, hcode]
  cases code with
  | catalogFailure => exact absurd rfl hcatalog
  | configInvalid => exact absurd rfl hconfig
  | _ => decide

theorem MeaningFault.failure_isCategorized (f : MeaningFault) : f.failure.IsCategorized := by
  apply Failure.of_isCategorized
  · cases f with
    | lacksFacet facet => cases facet <;> nofun
    | _ => nofun
  · cases f with
    | lacksFacet facet => cases facet <;> nofun
    | _ => nofun

def CompileFault.IsOwn : CompileFault → Prop
  | catalog _ | transform (.rule _) => False
  | _ => True

theorem CompileFault.IsOwn.isCategorized {e : CompileFault} (h : e.IsOwn) :
    e.failure.IsCategorized := by
  cases e with
  | meaning cause => exact cause.failure_isCategorized
  | catalog cause => exact h.elim
  | transform cause =>
    cases cause with
    | rule cause => exact h.elim
    | _ => apply Failure.of_isCategorized <;> nofun
  | _ => apply Failure.of_isCategorized <;> nofun

/-- A step of a compilation succeeds exactly under a condition, and its faults are its own. -/
structure Decides {α : Type} (x : Except CompileFault α) (P : Prop) : Prop where
  ok_iff : (∃ a, x = .ok a) ↔ P
  own : ∀ e, x = .error e → e.IsOwn

namespace Decides

variable {α β : Type} {x : Except CompileFault α} {P Q : Prop}

theorem ok {a : α} (h : P) : Decides (.ok a) P := ⟨⟨fun _ => h, fun _ => ⟨a, rfl⟩⟩, nofun⟩

theorem error {e : CompileFault} (he : e.IsOwn) (h : ¬ P) : Decides (.error e : Except _ α) P := by
  refine ⟨⟨nofun, fun hP => absurd hP h⟩, ?_⟩
  rintro _ ⟨⟩
  exact he

theorem congr (h : Decides x P) (hPQ : P ↔ Q) : Decides x Q := ⟨h.ok_iff.trans hPQ, h.own⟩

theorem map (h : Decides x P) (f : α → β) : Decides (x.map f) P := by
  cases x with
  | error e => exact error (h.own e rfl) fun hP => by simpa using h.ok_iff.2 hP
  | ok a => exact ok (h.ok_iff.1 ⟨a, rfl⟩)

theorem map_cons {P : α → Prop} {b : α} {bs : List α} {x : Except CompileFault β} (hb : P b)
    (h : Decides x (∀ c ∈ bs, P c)) (f : β → β) : Decides (x.map f) (∀ c ∈ b :: bs, P c) := by
  rw [List.forall_mem_cons]
  exact (h.map f).congr (and_iff_right hb).symm

theorem bind {x : Traced α} {f : α → Traced β} (hx : Decides x.result P)
    (hf : ∀ a, x.result = .ok a → Decides (f a).result Q) : Decides (x >>= f).result (P ∧ Q) := by
  change Decides (Traced.bind x f).result (P ∧ Q)
  rw [Traced.bind]
  split
  next e he =>
    apply error (hx.own e he)
    rintro ⟨hP, -⟩
    obtain ⟨a, ha⟩ := hx.ok_iff.2 hP
    rw [he] at ha
    cases ha
  next a ha => exact (hf a ha).congr (iff_and_self.2 fun _ => hx.ok_iff.1 ⟨a, ha⟩)

theorem mapM {f : β → Except CompileFault α} {P : β → Prop} (h : ∀ b, Decides (f b) (P b))
    (bs : List β) : Decides (bs.mapM f) (∀ b ∈ bs, P b) := by
  refine ⟨?_, ?_⟩
  · rw [exists_mapM_eq_ok]
    exact forall₂_congr fun b _ => (h b).ok_iff
  · intro e he
    induction bs with
    | nil => cases he
    | cons b bs ih =>
      rw [List.mapM_cons] at he
      cases hb : f b with
      | error fault =>
        rw [hb] at he
        cases he
        exact (h b).own e hb
      | ok a =>
        rw [hb] at he
        cases hbs : bs.mapM f with
        | error fault =>
          rw [hbs] at he ih
          cases he
          exact ih rfl
        | ok as =>
          rw [hbs] at he
          cases he

end Decides

/-- A catalog, if there is one, answers when it is asked for its graphs. -/
def Options.CatalogAnswers (o : Options) : Prop :=
  ∀ view, o.catalog = some view →
    (∃ graphs, view.defaultGraphs = .ok graphs) ∧ ∃ graphs, view.namedGraphs = .ok graphs

def Pattern.IsComplete (p : Pattern) : Prop := ∀ node ∈ p.nodes, node ≠ .missing

namespace Query

def IsMatchable (q : Query) : Prop := ∃ p, q.pattern = some p ∧ p.IsMappable

def IsOrderable (q : Query) : Prop := ∀ k ∈ q.orderBy, k.expression.IsVar

/-- What is described: all variables of the pattern, or what is listed. -/
def describedElements (q : Query) : List Expression :=
  if q.selectAll then q.allVariables.map .var else q.selection

/-- What a query of each kind asks for to have a command. -/
def IsCompilable (q : Query) : Prop :=
  match q.kind with
  | .select =>
    q.IsMatchable ∧ q.IsOrderable ∧
      (q.selectAll = true ∨ q.selection ≠ [] ∧ ∀ e ∈ q.selection, e.IsVar)
  | .construct =>
    q.IsMatchable ∧ 3 ∣ q.template.length ∧ (∀ e ∈ q.template, e.IsElement) ∧ q.IsOrderable
  | .describe =>
    q.describedElements ≠ [] ∧ (∀ e ∈ q.describedElements, e.IsVar ∨ e.IsIri) ∧
      ∀ p, q.pattern = some p → p.IsMappable
  | .ask => ∃ p, q.pattern = some p ∧ p ≠ .empty {} ∧ p.IsMappable
  | .other _ => False

theorem selection_of_ofHead {h : Head} {q : Query} (hq : ofHead h = .ok q)
    (hall : q.selectAll = true) : q.selection = [] := by
  unfold ofHead at hq
  split at hq
  · cases hq
    rfl
  · split at hq
    · split at hq
      · obtain ⟨es, -, rfl⟩ := map_eq_ok.1 hq
        rfl
      · cases hq
        rfl
      · obtain ⟨es, -, rfl⟩ := map_eq_ok.1 hq
        cases hall
    · cases hq

theorem IsReread.selection_eq_nil {q : Query} (h : q.IsReread) (hall : q.selectAll = true) :
    q.selection = [] :=
  selection_of_ofHead (q := q.headOnly) (h.head.reread q.headForm q.headForm rfl) hall

theorem IsReread.isComplete {q : Query} (h : q.IsReread) (p : Pattern) (hp : q.pattern = some p) :
    p.IsComplete :=
  fun node hnode => (Pattern.partsReread_of_mem_nodes (h.pattern p hp) node hnode).present

end Query

namespace Plan

theorem not_contains_missing {p : Plan} (h : .leaf .missing ∉ p.ingredients) :
    ¬ p.Contains .missing :=
  fun hmissing => h (mem_ingredients.2 ⟨.missing, hmissing, List.mem_singleton_self _⟩)

end Plan

theorem Pattern.missing_notMem_ingredients {p : Pattern} {parts : List Ingredient}
    (h : p.ingredients = .ok parts) : .leaf .missing ∉ parts := by
  intro hmem
  rcases isOfTriple_of_leaf_mem h hmem with hnothing | htriple
  · cases hnothing
  · exact htriple

namespace Compile

section Steps
variable {o : Options}

theorem decides_dataset (ho : o.CatalogAnswers) (q : Query) :
    Decides (o.dataset q).result True := by
  have hdefault : ∃ r, o.resolveDefault q = .ok r := by
    rw [Options.resolveDefault_eq]
    apply Options.exists_resolve_eq_ok
    intro e he
    obtain ⟨view, hview, herror⟩ := Option.map_eq_some_iff.1 he
    obtain ⟨⟨graphs, hgraphs⟩, -⟩ := ho view hview
    cases hgraphs.symm.trans herror
  have hnamed : ∃ r, o.resolveNamed q = .ok r := by
    rw [Options.resolveNamed_eq]
    obtain ⟨r, hr⟩ : ∃ r, Options.resolve o.namedGraphs q.namedGraphs
        (o.catalog.map (·.namedGraphs)) none = .ok r := by
      apply Options.exists_resolve_eq_ok
      intro e he
      obtain ⟨view, hview, herror⟩ := Option.map_eq_some_iff.1 he
      obtain ⟨-, graphs, hgraphs⟩ := ho view hview
      cases hgraphs.symm.trans herror
    exact ⟨r.1, map_eq_ok.2 ⟨r, hr, rfl⟩⟩
  obtain ⟨⟨defaults, source⟩, hdefault⟩ := hdefault
  obtain ⟨named, hnamed⟩ := hnamed
  have hdataset : ∃ d, (o.dataset q).result = .ok d :=
    ⟨_, Traced.bind_eq_ok.2 ⟨_, hdefault, Traced.bind_eq_ok.2 ⟨named, hnamed, rfl⟩⟩⟩
  obtain ⟨d, hd⟩ := hdataset
  rw [hd]
  exact .ok trivial

theorem decides_wherePlan {p : Pattern} (hp : p.IsComplete) (named : List Text) :
    Decides (wherePlan named p).result p.IsMappable := by
  have hplan : Decides (p.toPlan.mapError CompileFault.meaning) p.IsMappable := by
    rw [← Pattern.exists_toPlan_eq_ok hp]
    cases p.toPlan with
    | error e => exact .error trivial nofun
    | ok m => exact .ok ⟨m, rfl⟩
  refine Decides.congr (P := p.IsMappable ∧ True) ?_ (by simp)
  refine hplan.bind (x := Traced.ofExcept _) fun m _ => ?_
  split
  · exact .ok trivial
  · exact .ok trivial

theorem missing_notMem_wherePlan {named : List Text} {p : Pattern} {plan : Plan} {refs : List Text}
    (h : (wherePlan named p).result = .ok (plan, refs)) : .leaf .missing ∉ plan.ingredients := by
  obtain ⟨parts, hparts, hi⟩ := parts_wherePlan h
  rw [hi]
  intro hmem
  rcases List.mem_append.1 hmem with hmem | hmem
  · exact Pattern.missing_notMem_ingredients hparts hmem
  · obtain ⟨v, -, hmem⟩ := List.mem_flatMap.1 hmem
    obtain ⟨g, -, hg⟩ := List.mem_map.1 hmem
    cases hg

theorem decides_simplified (p : Plan) : Decides (simplified p).result True := .ok trivial

theorem decides_orderKeys (q : Query) : Decides (orderKeys q.orderBy).result q.IsOrderable := by
  refine Decides.mapM (fun k => ?_) q.orderBy
  rw [orderKey]
  split
  next name hname => exact .ok ⟨name, hname⟩
  next hnot => exact .error trivial fun ⟨name, hname⟩ => hnot name hname

theorem decides_projected (e : Expression) : Decides (projected e) e.IsVar := by
  rw [projected.eq_def]
  split
  next name => exact .ok ⟨name, rfl⟩
  next hnot => exact .error trivial fun ⟨name, hname⟩ => hnot name hname

theorem decides_projection (q : Query) :
    Decides (projection q)
      (q.selectAll = true ∨ q.selection ≠ [] ∧ ∀ e ∈ q.selection, e.IsVar) := by
  rw [projection]
  split
  next hall => exact .ok (.inl hall)
  next hall =>
    split
    next hempty =>
      refine .error trivial ?_
      rintro (h | ⟨hne, -⟩)
      · exact hall h
      · exact hne (List.isEmpty_iff.1 hempty)
    next hempty =>
      refine (Decides.mapM decides_projected q.selection).congr ?_
      have hne : q.selection ≠ [] := fun h => hempty (List.isEmpty_iff.2 h)
      simp [hall, hne]

theorem decides_templatePositions (n : Nat) (es : List Expression) :
    Decides (templatePositions n es) (∀ e ∈ es, e.IsElement) := by
  fun_induction templatePositions n es with
  | case1 => exact .ok nofun
  | case2 n name rest ih => exact ih.map_cons (.inl ⟨name, rfl⟩) _
  | case3 n label rest ih => exact ih.map_cons (.inr (.inl ⟨label, rfl⟩)) _
  | case4 n e rest hvar hblank fault hfault =>
    refine .error trivial fun h => ?_
    obtain ⟨x, hx⟩ := Expression.exists_ofExpression_eq_ok.2 (h e List.mem_cons_self)
    rw [hfault] at hx
    cases hx
  | case5 n e rest hvar hblank value hvalue ih =>
    exact ih.map_cons (Expression.exists_ofExpression_eq_ok.1 ⟨value, hvalue⟩) _

theorem decides_descriptions {base : Plan} (hbase : ¬ base.Contains .missing) (n : Nat)
    (es : List Expression) :
    Decides (descriptions base n es) (∀ e ∈ es, e.IsVar ∨ e.IsIri) := by
  fun_induction descriptions base n es with
  | case1 => exact .ok nofun
  | case2 n name rest fault hfault =>
    obtain ⟨r, hr⟩ := Plan.exists_rename_eq_ok hbase subjectName name
    rw [hr] at hfault
    cases hfault
  | case3 n name rest r hr ih => exact ih.map_cons (.inl ⟨name, rfl⟩) _
  | case4 n value rest plan ih => exact ih.map_cons (.inr ⟨value, rfl⟩) _
  | case5 n e rest hvar hiri =>
    refine .error trivial fun h => ?_
    rcases h e List.mem_cons_self with ⟨name, hname⟩ | ⟨value, hvalue⟩
    · exact hvar name hname
    · exact hiri value hvalue

theorem decides_describedPlan {pattern? : Option Pattern}
    (hp : ∀ p, pattern? = some p → p.IsComplete) (named : List Text) :
    Decides (describedPlan named pattern?).result (∀ p, pattern? = some p → p.IsMappable) := by
  cases pattern? with
  | none => exact .ok nofun
  | some p =>
    have hwhere := (decides_wherePlan (hp p rfl) named).bind
      (f := fun r => pure (Plan.conj [r.1, aboutSubject], r.2)) (Q := True) fun _ _ => .ok trivial
    exact hwhere.congr (by simp)

theorem missing_notMem_describedPlan {named : List Text} {pattern? : Option Pattern} {base : Plan}
    {refs : List Text} (h : (describedPlan named pattern?).result = .ok (base, refs)) :
    .leaf .missing ∉ base.ingredients := by
  have habout : .leaf .missing ∉ aboutSubject.ingredients := by
    simp [aboutSubject, Plan.ingredients]
  cases pattern? with
  | none =>
    cases h
    exact habout
  | some p =>
    obtain ⟨⟨plan, refs'⟩, hw, h⟩ := Traced.bind_eq_ok.1 h
    cases h
    have hplan := missing_notMem_wherePlan hw
    simp only [Plan.ingredients, Plan.ingredientsAll, List.mem_append, List.not_mem_nil, or_false]
    exact fun hmem => hmem.elim hplan habout

end Steps

section Kinds
variable {o : Options} {q : Query}

theorem decides_select (ho : o.CatalogAnswers)
    (hp : ∀ p, q.pattern = some p → p.IsComplete) :
    Decides (select o q).result (q.IsMatchable ∧ q.IsOrderable ∧
      (q.selectAll = true ∨ q.selection ≠ [] ∧ ∀ e ∈ q.selection, e.IsVar)) := by
  rw [select]
  split
  next hnone =>
    refine .error trivial ?_
    rintro ⟨⟨p, hsome, -⟩, -⟩
    simp [hnone] at hsome
  next p hsome =>
    refine Decides.congr (P := True ∧ p.IsMappable ∧ True ∧ q.IsOrderable ∧
      (q.selectAll = true ∨ q.selection ≠ [] ∧ ∀ e ∈ q.selection, e.IsVar) ∧ True) ?_
      (by simp [Query.IsMatchable, hsome])
    refine (decides_dataset ho q).bind fun dataset _ => ?_
    refine (decides_wherePlan (hp p hsome) dataset.named).bind ?_
    rintro ⟨plan, refs⟩ -
    refine (decides_simplified plan).bind fun plan _ => ?_
    refine (decides_orderKeys q).bind fun order _ => ?_
    refine (decides_projection q).bind (x := Traced.ofExcept _) fun selection _ => ?_
    exact .ok trivial

theorem decides_construct (ho : o.CatalogAnswers)
    (hp : ∀ p, q.pattern = some p → p.IsComplete) :
    Decides (construct o q).result (q.IsMatchable ∧ 3 ∣ q.template.length ∧
      (∀ e ∈ q.template, e.IsElement) ∧ q.IsOrderable) := by
  rw [construct]
  split
  next hnone =>
    refine .error trivial ?_
    rintro ⟨⟨p, hsome, -⟩, -⟩
    simp [hnone] at hsome
  next p hsome =>
    split
    next hlength => exact .error trivial fun h => hlength (Nat.mod_eq_zero_of_dvd h.2.1)
    next hlength =>
      have hthree : 3 ∣ q.template.length := Nat.dvd_of_mod_eq_zero (Classical.not_not.1 hlength)
      refine Decides.congr (P := (∀ e ∈ q.template, e.IsElement) ∧ True ∧ p.IsMappable ∧ True ∧
        q.IsOrderable ∧ True) ?_ (by simp [Query.IsMatchable, hsome, hthree, and_left_comm])
      refine (decides_templatePositions 0 q.template).bind (x := Traced.ofExcept _)
        fun selection _ => ?_
      refine (decides_dataset ho q).bind fun dataset _ => ?_
      refine (decides_wherePlan (hp p hsome) dataset.named).bind ?_
      rintro ⟨plan, refs⟩ -
      refine (decides_simplified plan).bind fun plan _ => ?_
      refine (decides_orderKeys q).bind fun order _ => ?_
      exact .ok trivial

theorem decides_describe (ho : o.CatalogAnswers)
    (hp : ∀ p, q.pattern = some p → p.IsComplete) :
    Decides (describe o q).result (described q ≠ [] ∧ (∀ e ∈ described q, e.IsVar ∨ e.IsIri) ∧
      ∀ p, q.pattern = some p → p.IsMappable) := by
  rw [describe]
  split
  next hempty => exact .error trivial fun h => h.1 (List.isEmpty_iff.1 hempty)
  next hempty =>
    have hne : described q ≠ [] := fun h => hempty (List.isEmpty_iff.2 h)
    refine Decides.congr (P := True ∧ (∀ p, q.pattern = some p → p.IsMappable) ∧
      (∀ e ∈ described q, e.IsVar ∨ e.IsIri) ∧ True ∧ True) ?_ (by simp [hne, and_comm])
    refine (decides_dataset ho q).bind fun dataset _ => ?_
    refine (decides_describedPlan hp dataset.named).bind ?_
    rintro ⟨base, refs⟩ hbase
    have hmissing := Plan.not_contains_missing (missing_notMem_describedPlan hbase)
    refine (decides_descriptions hmissing 0 (described q)).bind (x := Traced.ofExcept _)
      fun parts _ => ?_
    refine (decides_simplified _).bind fun plan _ => ?_
    exact .ok trivial

theorem decides_ask (ho : o.CatalogAnswers)
    (hp : ∀ p, q.pattern = some p → p.IsComplete) :
    Decides (ask o q).result (∃ p, q.pattern = some p ∧ p ≠ .empty {} ∧ p.IsMappable) := by
  rw [ask]
  split
  next hnone =>
    refine .error trivial ?_
    rintro ⟨p, hsome, -⟩
    simp [hnone] at hsome
  next p hsome =>
    simp only [hsome, Option.some.injEq, exists_eq_left']
    split
    next hempty => exact .error trivial fun h => h.1 (Pattern.isEmpty_iff.1 hempty)
    next hempty =>
      have hne : p ≠ .empty {} := fun h => hempty (Pattern.isEmpty_iff.2 h)
      refine Decides.congr (P := True ∧ p.IsMappable ∧ True ∧ True) ?_ (by simp [hne])
      refine (decides_dataset ho q).bind fun dataset _ => ?_
      refine (decides_wherePlan (hp p hsome) dataset.named).bind ?_
      rintro ⟨plan, refs⟩ -
      refine (decides_simplified plan).bind fun plan _ => ?_
      exact .ok trivial

end Kinds

theorem described_eq {q : Query} (hq : q.IsReread) : described q = q.describedElements := by
  rw [described, Query.describedElements]
  split
  next hall => rw [hq.selection_eq_nil hall, List.nil_append]
  next => exact List.append_nil _

theorem decides_body {o : Options} {q : Query} (ho : o.CatalogAnswers) (hq : q.IsReread) :
    Decides (body o q).result q.IsCompilable := by
  rw [body, Query.IsCompilable, ← described_eq hq]
  cases q.kind with
  | select => exact decides_select ho hq.isComplete
  | construct => exact decides_construct ho hq.isComplete
  | describe => exact decides_describe ho hq.isComplete
  | ask => exact decides_ask ho hq.isComplete
  | other n => exact .error trivial id

end Compile

/-- A query that has been read is compiled exactly when it is compilable; otherwise its failure is
of exactly one category. -/
theorem compile_accepts_exactly {o : Options} {t : Text} {q : Query} (ho : o.CatalogAnswers)
    (hq : Query.ofText t = .ok q) :
    ((∃ c, (compile o q).result = .ok c) ↔ q.IsCompilable) ∧
      (¬ q.IsCompilable →
        ∃ e, (compile o q).result = .error e ∧ e.failure.IsCategorized) := by
  have hbody := Compile.decides_body ho (Query.ofText_isReread hq)
  refine ⟨hbody.ok_iff, ?_⟩
  intro hnot
  obtain ⟨e, he⟩ := exists_eq_error.2 fun hok => hnot (hbody.ok_iff.1 hok)
  exact ⟨e, he, (hbody.own e he).isCategorized⟩

def answeringOptions : Options where
  catalog := some { defaultGraphs := .ok ["g"], namedGraphs := .ok ["g"] }

/-- A description that pays no attention to its order, and a construction of too few positions. -/
theorem compile_accepts_exactly_samples :
    answeringOptions.CatalogAnswers ∧
    (∃ q, Query.ofText "\x7b:describe * :where [?s <p> 7 :graph ?g] :order-by [(+ ?s 1)]\x7d" =
      .ok q ∧ q.IsCompilable) ∧
    ∃ q, Query.ofText "\x7b:construct [?s <p>] :where (empty)\x7d" = .ok q ∧ ¬ q.IsCompilable ∧
      ∃ e, (compile answeringOptions q).result = .error e ∧ e.failure.IsCategorized := by
  have ho : answeringOptions.CatalogAnswers := by
    rintro _ ⟨⟩
    exact ⟨⟨_, rfl⟩, ⟨_, rfl⟩⟩
  refine ⟨ho, ?_, ?_⟩
  · obtain ⟨q, hq, htest⟩ := exists_ok_of_any (x := Query.ofText
        "\x7b:describe * :where [?s <p> 7 :graph ?g] :order-by [(+ ?s 1)]\x7d")
      (p := fun q => (compile answeringOptions q).result.toOption.isSome) (by decide +kernel)
    exact ⟨q, hq, (compile_accepts_exactly ho hq).1.1 (exists_eq_ok_of_isSome htest)⟩
  · obtain ⟨q, hq, htest⟩ := exists_ok_of_any
      (x := Query.ofText "\x7b:construct [?s <p>] :where (empty)\x7d")
      (p := fun q => (compile answeringOptions q).result.toOption.isNone) (by decide +kernel)
    obtain ⟨hiff, hrefused⟩ := compile_accepts_exactly ho hq
    have hnot : ¬ q.IsCompilable := by
      intro h
      obtain ⟨c, hc⟩ := hiff.2 h
      rw [hc] at htest
      cases htest
    exact ⟨q, hq, hnot, hrefused hnot⟩

end GraphQuery
