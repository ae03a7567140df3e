import GraphQuery.Proofs.Query.Patterns

namespace GraphQuery

namespace Query

theorem rereads_iri {f : Form} (hf : f.IsLegible) {iri : Text} (h : iriOfForm f = .ok iri) :
    Rereads iriOfForm iri (.iri .start iri) := by
  unfold iriOfForm at h
  split at h
  next pos value =>
    cases h
    cases hf with
    | iri _ _ hvalue =>
      refine ⟨.iri _ _ hvalue, ?_⟩
      intro f hf
      obtain ⟨p, rfl⟩ := hf.iri
      rfl
  · cases h

theorem irisOfForm_rereads {f : Form} (hf : f.IsLegible) {iris : List Text}
    (h : irisOfForm f = .ok iris) : ∀ iri ∈ iris, Rereads iriOfForm iri (.iri .start iri) := by
  unfold irisOfForm at h
  split at h
  next pos value =>
    cases h
    simpa using rereads_iri hf rfl
  next pos forms =>
    cases hf with
    | group _ _ _ hforms _ =>
      exact Rereads.of_forall₂ (mapM_eq_ok.1 h) fun f hf iri hiri => rereads_iri (hforms f hf) hiri
  · cases h

theorem orderKeyOfForm_of_ofForm {f : Form} {e : Expression} (h : Expression.ofForm f = .ok e) :
    orderKeyOfForm f = .ok ⟨e, false⟩ := by
  unfold orderKeyOfForm
  split
  next p q op key =>
    obtain ⟨hdesc, hasc⟩ := Expression.operator?_ne_mark h rfl
    rw [if_neg hdesc, if_neg hasc, h]
    rfl
  · rw [h]
    rfl

theorem rereads_ascending {f : Form} (hf : f.IsLegible) {e : Expression}
    (h : Expression.ofForm f = .ok e) : Rereads orderKeyOfForm ⟨e, false⟩ e.toForm := by
  have hreads := Expression.ofForm_rereads hf h
  exact ⟨hreads.legible, fun g hg => orderKeyOfForm_of_ofForm (hreads.reread g hg)⟩

theorem orderKeyOfForm_rereads {f : Form} (hf : f.IsLegible) {k : OrderKey}
    (h : orderKeyOfForm f = .ok k) : Rereads orderKeyOfForm k k.toForm := by
  unfold orderKeyOfForm at h
  split at h
  next p q op key =>
    have hparts : ∀ f ∈ [.atom q .symbol op, key], f.IsLegible := by
      cases hf with
      | group _ _ _ hforms _ => exact hforms
    split at h
    next hop =>
      obtain ⟨e, he, rfl⟩ := map_eq_ok.1 h
      have hreads := Expression.ofForm_rereads (hparts key (by simp)) he
      subst hop
      refine ⟨.call (hparts _ List.mem_cons_self) (by simpa using hreads.legible), ?_⟩
      intro f hf
      obtain ⟨p', q', fs, rfl, hfs⟩ := hf.call
      cases hfs with
      | cons hkey hfs =>
        cases hfs
        exact map_eq_ok.2 ⟨e, hreads.reread _ hkey, rfl⟩
    · split at h
      · obtain ⟨e, he, rfl⟩ := map_eq_ok.1 h
        exact rereads_ascending (hparts key (by simp)) he
      · obtain ⟨e, he, rfl⟩ := map_eq_ok.1 h
        exact rereads_ascending hf he
  · obtain ⟨e, he, rfl⟩ := map_eq_ok.1 h
    exact rereads_ascending hf he

theorem orderOfForm_rereads {f : Form} (hf : f.IsLegible) {ks : List OrderKey}
    (h : orderOfForm f = .ok ks) : ∀ k ∈ ks, Rereads orderKeyOfForm k k.toForm := by
  unfold orderOfForm at h
  split at h
  next pos forms =>
    cases hf with
    | group _ _ _ hforms _ =>
      exact Rereads.of_forall₂ (mapM_eq_ok.1 h) fun f hf k hk =>
        orderKeyOfForm_rereads (hforms f hf) hk
  · cases h

theorem countOfForm_rereads {f : Form} {n : Int} (h : countOfForm f = .ok n) :
    Rereads countOfForm n (countForm n) := by
  have hrange : 0 ≤ n ∧ n ≤ maxCount := by
    unfold countOfForm at h
    split at h
    · split at h
      next hrange => cases h; exact hrange
      · cases h
    · cases h
  have hint : Form.isInt64 n := by
    simp only [maxCount] at hrange
    simp only [Form.isInt64, Bool.and_eq_true, decide_eq_true_eq]
    omega
  refine ⟨.atom _ _ _ (Atom.isLegible_ofInt n) (Atom.classify_ofInt n), ?_⟩
  intro f hf
  obtain ⟨p, rfl⟩ := hf.atom
  rw [countOfForm, Form.toInt, Text.toInt_ofInt, if_pos hint]
  exact if_pos hrange

theorem templateOfForm_of_ofForm {f : Form} {e : Expression} (h : Expression.ofForm f = .ok e) :
    templateOfForm f = .ok [e] := by
  rw [templateOfForm.eq_def]
  split
  next =>
    obtain ⟨p, op, args, hround, -⟩ := Expression.ofForm_group h
    cases hround
  · rw [h]
    rfl

theorem templateOfForms_of_forall₂ {fs : List Form} {es : List Expression}
    (h : List.Forall₂ (fun f e => Expression.ofForm f = .ok e) fs es) :
    templateOfForms fs = .ok es := by
  induction h with
  | nil => rfl
  | cons hf _ ih =>
    rw [templateOfForms, templateOfForm_of_ofForm hf]
    exact map_eq_ok.2 ⟨_, ih, rfl⟩

/-- However deep a template is nested, its expressions are read back from where they stand. -/
theorem templateOfForms_rereads {forms : List Form}
    (h : ∀ f ∈ forms, ∀ es, templateOfForm f = .ok es →
      ∀ e ∈ es, Rereads Expression.ofForm e e.toForm)
    {es : List Expression} (hes : templateOfForms forms = .ok es) :
    ∀ e ∈ es, Rereads Expression.ofForm e e.toForm := by
  induction forms generalizing es with
  | nil =>
    cases hes
    simp
  | cons f forms ih =>
    rw [templateOfForms] at hes
    split at hes
    · cases hes
    next es₁ hf =>
      obtain ⟨es₂, hes₂, rfl⟩ := map_eq_ok.1 hes
      intro e he
      rcases List.mem_append.1 he with he | he
      · exact h f List.mem_cons_self es₁ hf e he
      · exact ih (fun g hg => h g (List.mem_cons_of_mem f hg)) hes₂ e he

theorem templateOfForm_rereads {f : Form} (hf : f.IsLegible) {es : List Expression}
    (h : templateOfForm f = .ok es) : ∀ e ∈ es, Rereads Expression.ofForm e e.toForm := by
  have hone {f : Form} (hf : f.IsLegible) {es : List Expression}
      (h : (Expression.ofForm f).map ([·]) = .ok es) :
      ∀ e ∈ es, Rereads Expression.ofForm e e.toForm := by
    obtain ⟨e, he, rfl⟩ := map_eq_ok.1 h
    simpa using Expression.ofForm_rereads hf he
  induction f using Form.partsInduction generalizing es with
  | atom pos cls value => exact hone hf h
  | string pos value note => exact hone hf h
  | iri pos value => exact hone hf h
  | group pos bracket forms ih =>
    cases bracket with
    | square =>
      cases hf with
      | group _ _ _ hforms _ =>
        exact templateOfForms_rereads (fun f hm es hes => ih f hm (hforms f hm) hes) h
    | round => exact hone hf h
    | curly => exact hone hf h

def headOnly (q : Query) : Query :=
  { kind := q.kind, selection := q.selection, selectAll := q.selectAll, template := q.template }

structure HeadRereads (q : Query) : Prop where
  key : Form.IsLegible (.atom .start .keyword (":" ++ q.kind.name))
  kind : ∀ p, kindOfKey? (.atom p .keyword (":" ++ q.kind.name)) = some q.kind
  legible : q.headForm.IsLegible
  reread : ∀ key f, f.Similar q.headForm → ofHead ⟨key, q.kind, f⟩ = .ok q
  strings : q.headForm.strings =
    q.template.flatMap Expression.lexicals ++ q.selection.flatMap Expression.lexicals

theorem legible_vector {forms : List Form} (h : ∀ f ∈ forms, f.IsLegible) :
    (Form.vector forms).IsLegible :=
  .group _ _ _ h nofun

def writtenKinds : List QueryKind := [.select, .construct, .describe, .ask]

theorem kindOfKey?_spec {f : Form} {k : QueryKind} (h : kindOfKey? f = some k) :
    k ∈ writtenKinds := by
  unfold kindOfKey? at h
  split at h
  · exact List.mem_of_find?_eq_some h
  · cases h

theorem legible_key {k : QueryKind} (h : k ∈ writtenKinds) :
    Form.IsLegible (.atom .start .keyword (":" ++ k.name)) ∧
      ∀ p, kindOfKey? (.atom p .keyword (":" ++ k.name)) = some k := by
  simp only [writtenKinds, List.mem_cons, List.not_mem_nil, or_false] at h
  rcases h with rfl | rfl | rfl | rfl
  · exact ⟨.keyword rfl rfl, fun _ => rfl⟩
  · exact ⟨.keyword rfl rfl, fun _ => rfl⟩
  · exact ⟨.keyword rfl rfl, fun _ => rfl⟩
  · exact ⟨.keyword rfl rfl, fun _ => rfl⟩

theorem headRereads_star {k : QueryKind} (hk : k = .select ∨ k = .describe) :
    HeadRereads { kind := k, selectAll := true } := by
  have hwritten : k ∈ writtenKinds := by rcases hk with rfl | rfl <;> decide
  have hform : headForm { kind := k, selectAll := true } = .atom .start .symbol "*" := by
    rcases hk with rfl | rfl <;> rfl
  obtain ⟨hkey, hkind⟩ := legible_key hwritten
  refine ⟨hkey, hkind, ?_, ?_, ?_⟩
  · rw [hform]
    exact .atom _ _ _ (Leaf.isLegible_of_isWord rfl) rfl
  · intro key f hf
    rw [hform] at hf
    obtain ⟨p, rfl⟩ := hf.atom
    exact if_pos ⟨rfl, hk⟩
  · rw [hform]
    rfl

theorem ofHead_vector (key : Form) (k : QueryKind) (pos : Position) (forms : List Form) :
    ofHead ⟨key, k, .group pos .square forms⟩ = match k with
      | .construct => (templateOfForms forms).map ({ kind := k, template := · })
      | .ask => .ok { kind := k }
      | _ => (Expression.ofForms forms).map ({ kind := k, selection := · }) :=
  if_neg nofun

theorem headRereads_template {es : List Expression}
    (hes : ∀ e ∈ es, Rereads Expression.ofForm e e.toForm) :
    HeadRereads { kind := .construct, template := es } := by
  obtain ⟨hkey, hkind⟩ := legible_key (k := .construct) (by decide)
  refine ⟨hkey, hkind, legible_vector (Rereads.legible_map hes), ?_, ?_⟩
  · intro key f hf
    obtain ⟨p, fs, rfl, hfs⟩ := hf.group
    rw [ofHead_vector]
    exact map_eq_ok.2 ⟨es, templateOfForms_of_forall₂ (Rereads.forall₂ hes hfs), rfl⟩
  · have hform : headForm { kind := .construct, template := es } =
      .vector (es.map Expression.toForm) := rfl
    rw [hform, Form.strings_vector, Expression.strings_map_toForm]
    simp

theorem headRereads_selection {k : QueryKind} (hk : k = .select ∨ k = .describe)
    {es : List Expression} (hes : ∀ e ∈ es, Rereads Expression.ofForm e e.toForm) :
    HeadRereads { kind := k, selection := es } := by
  have hwritten : k ∈ writtenKinds := by rcases hk with rfl | rfl <;> decide
  have hform : headForm { kind := k, selection := es } = .vector (es.map Expression.toForm) := by
    rcases hk with rfl | rfl <;> rfl
  obtain ⟨hkey, hkind⟩ := legible_key hwritten
  refine ⟨hkey, hkind, ?_, ?_, ?_⟩
  · rw [hform]
    exact legible_vector (Rereads.legible_map hes)
  · intro key f hf
    rw [hform] at hf
    obtain ⟨p, fs, rfl, hfs⟩ := hf.group
    rw [ofHead_vector]
    have hread := Expression.ofForms_eq_ok.2 (Rereads.forall₂ hes hfs)
    rcases hk with rfl | rfl
    · exact map_eq_ok.2 ⟨es, hread, rfl⟩
    · exact map_eq_ok.2 ⟨es, hread, rfl⟩
  · rw [hform, Form.strings_vector, Expression.strings_map_toForm]
    simp

theorem headRereads_ask : HeadRereads { kind := .ask } := by
  obtain ⟨hkey, hkind⟩ := legible_key (k := .ask) (by decide)
  refine ⟨hkey, hkind, legible_vector nofun, ?_, rfl⟩
  intro key f hf
  obtain ⟨p, fs, rfl, -⟩ := hf.group
  rw [ofHead_vector]

theorem ofHead_rereads {h : Head} {q : Query} (hkind : h.kind ∈ writtenKinds)
    (hvalue : h.value.IsLegible) (hq : ofHead h = .ok q) : q.HeadRereads ∧ q.headOnly = q := by
  obtain ⟨key, kind, value⟩ := h
  simp only at hkind hvalue
  by_cases hstar : value.isSymbol "*" ∧ (kind = .select ∨ kind = .describe)
  · rw [ofHead, if_pos hstar] at hq
    cases hq
    exact ⟨headRereads_star hstar.2, rfl⟩
  · have hvector : ∃ pos forms, value = .group pos .square forms := by
      rw [ofHead, if_neg hstar] at hq
      split at hq
      next pos forms hforms => exact ⟨pos, forms, hforms⟩
      · cases hq
    obtain ⟨pos, forms, rfl⟩ := hvector
    cases hvalue with
    | group _ _ _ hforms _ =>
      have hselection {es : List Expression} (hes : Expression.ofForms forms = .ok es) :
          ∀ e ∈ es, Rereads Expression.ofForm e e.toForm :=
        Rereads.of_forall₂ (Expression.ofForms_eq_ok.1 hes) fun f hf e he =>
          Expression.ofForm_rereads (hforms f hf) he
      rw [ofHead_vector] at hq
      simp only [writtenKinds, List.mem_cons, List.not_mem_nil, or_false] at hkind
      rcases hkind with rfl | rfl | rfl | rfl
      · obtain ⟨es, hes, rfl⟩ := map_eq_ok.1 hq
        exact ⟨headRereads_selection (.inl rfl) (hselection hes), rfl⟩
      · obtain ⟨es, hes, rfl⟩ := map_eq_ok.1 hq
        refine ⟨headRereads_template ?_, rfl⟩
        exact templateOfForms_rereads
          (fun f hf es hes => templateOfForm_rereads (hforms f hf) hes) hes
      · obtain ⟨es, hes, rfl⟩ := map_eq_ok.1 hq
        exact ⟨headRereads_selection (.inr rfl) (hselection hes), rfl⟩
      · cases hq
        exact ⟨headRereads_ask, rfl⟩

/-- A query of which every part is read back from its form. -/
structure IsReread (q : Query) : Prop where
  head : q.headOnly.HeadRereads
  pattern : ∀ p, q.pattern = some p → Rereads Pattern.ofForm p p.toForm
  graphs : ∀ iri ∈ q.graphs, Rereads iriOfForm iri (.iri .start iri)
  namedGraphs : ∀ iri ∈ q.namedGraphs, Rereads iriOfForm iri (.iri .start iri)
  orderBy : ∀ k ∈ q.orderBy, Rereads orderKeyOfForm k k.toForm
  limit : ∀ n, q.limit = some n → Rereads countOfForm n (countForm n)
  offset : q.offset ≠ 0 → Rereads countOfForm q.offset (countForm q.offset)

theorem HeadRereads.isReread {q : Query} (h : q.HeadRereads) (hq : q.headOnly = q) :
    q.IsReread := by
  rw [← hq] at h ⊢
  exact ⟨h, nofun, nofun, nofun, nofun, nofun, fun hne => absurd rfl hne⟩

theorem addClause_isReread {q q' : Query} {clause : Form × Form} (h : addClause q clause = .ok q')
    (hq : q.IsReread) (hvalue : clause.2.IsLegible) : q'.IsReread := by
  unfold addClause at h
  split at h
  next pos key value =>
    -- one key after another, in the order of the tests
    simp only at h hvalue
    split at h
    · cases h
      exact hq
    split at h
    · obtain ⟨p, hp, rfl⟩ := map_eq_ok.1 h
      refine { hq with pattern := ?_ }
      rintro _ ⟨⟩
      exact Pattern.ofForm_rereads hvalue hp
    split at h
    · split at h
      · cases h
        exact { hq with }
      · cases h
    split at h
    · obtain ⟨iris, hiris, rfl⟩ := map_eq_ok.1 h
      exact { hq with graphs := irisOfForm_rereads hvalue hiris }
    split at h
    · obtain ⟨iris, hiris, rfl⟩ := map_eq_ok.1 h
      exact { hq with namedGraphs := irisOfForm_rereads hvalue hiris }
    split at h
    · obtain ⟨ks, hks, rfl⟩ := map_eq_ok.1 h
      exact { hq with orderBy := orderOfForm_rereads hvalue hks }
    split at h
    · obtain ⟨n, hn, rfl⟩ := map_eq_ok.1 h
      refine { hq with limit := ?_ }
      rintro _ ⟨⟩
      exact countOfForm_rereads hn
    split at h
    · obtain ⟨n, hn, rfl⟩ := map_eq_ok.1 h
      exact { hq with offset := fun _ => countOfForm_rereads hn }
    · cases h
  · cases h

theorem addClauses_isReread {q q' : Query} {cs : List (Form × Form)}
    (h : cs.foldlM addClause q = .ok q') (hq : q.IsReread) (hcs : ∀ c ∈ cs, c.2.IsLegible) :
    q'.IsReread := by
  induction cs generalizing q with
  | nil =>
    cases h
    exact hq
  | cons c cs ih =>
    rw [List.foldlM_cons] at h
    obtain ⟨q₁, hq₁, h⟩ := bind_eq_ok.1 h
    apply ih h
    · exact addClause_isReread hq₁ hq (hcs c List.mem_cons_self)
    · exact fun c' hc => hcs c' (List.mem_cons_of_mem c hc)

theorem mem_of_mem_clauses {forms : List Form} {c : Form × Form} (h : c ∈ clauses forms) :
    c.2 ∈ forms := by
  fun_induction clauses forms with
  | case1 key value rest ih =>
    rcases List.mem_cons.1 h with rfl | h
    · simp
    · have := ih h
      simp [this]
  | case2 => cases h

theorem findHead_spec {form : Form} {cs : List (Form × Form)} {h : Head}
    (hh : findHead form cs = .ok h) : h.kind ∈ writtenKinds ∧ ∃ c ∈ cs, c.2 = h.value := by
  unfold findHead at hh
  split at hh
  · cases hh
  next h' heq =>
    cases hh
    have hmem : h ∈ cs.filterMap head? := by rw [heq]; exact List.mem_cons_self
    obtain ⟨c, hc, hhead⟩ := List.mem_filterMap.1 hmem
    obtain ⟨k, hk, rfl⟩ := Option.map_eq_some_iff.1 hhead
    exact ⟨kindOfKey?_spec hk, c, hc, rfl⟩
  · cases hh

theorem ofForm_isReread {f : Form} (hf : f.IsLegible) {q : Query} (h : ofForm f = .ok q) :
    q.IsReread := by
  unfold ofForm at h
  split at h
  next pos forms =>
    cases hf with
    | group _ _ _ hforms _ =>
      have hclauses (c : Form × Form) (hc : c ∈ clauses forms) := hforms c.2 (mem_of_mem_clauses hc)
      obtain ⟨head, hhead, h⟩ := bind_eq_ok.1 h
      obtain ⟨base, hbase, h⟩ := bind_eq_ok.1 h
      obtain ⟨hkind, c, hc, hvalue⟩ := findHead_spec hhead
      have hlegible : head.value.IsLegible := hvalue ▸ hclauses c hc
      obtain ⟨hreads, honly⟩ := ofHead_rereads hkind hlegible hbase
      exact addClauses_isReread h (hreads.isReread honly) hclauses
  · cases h

/-- Forms that hold no head and whose clauses take one query into another. -/
def Adds (gs : List Form) (q q' : Query) : Prop :=
  ∀ fs, List.Forall₂ Form.Similar fs gs →
    (clauses fs).filterMap head? = [] ∧ (clauses fs).foldlM addClause q = .ok q'

theorem Adds.nil (q : Query) : Adds [] q q := by
  intro fs hfs
  cases hfs
  exact ⟨rfl, rfl⟩

theorem Adds.option {key : Text} {v : Option Form} {gs : List Form} {q q₁ q' : Query}
    (hkey : ∀ p, kindOfKey? (.atom p .keyword key) = none) (hnone : v = none → q₁ = q)
    (hsome : ∀ g, v = some g → ∀ p f, f.Similar g →
      addClause q (.atom p .keyword key, f) = .ok q₁)
    (h : Adds gs q₁ q') : Adds (Form.option key v ++ gs) q q' := by
  intro fs hfs
  rcases Form.similar_option hfs with ⟨hv, hrest⟩ | ⟨g, p, f, rest, hv, rfl, hf, hrest⟩
  · rw [← hnone hv]
    exact h fs hrest
  · obtain ⟨hheads, hfold⟩ := h rest hrest
    constructor
    · rw [clauses, List.filterMap_cons_none, hheads]
      rw [head?, hkey]
      rfl
    · rw [clauses, List.foldlM_cons, hsome g hv p f hf]
      exact hfold

section Vectors
variable {α : Type} {read : Form → Except QueryError α} {toForm : α → Form} {xs : List α}

theorem vector?_eq_none (h : vector? (xs.map toForm) = none) : xs = [] := by
  rw [vector?] at h
  split at h
  next hempty => simpa using hempty
  · cases h

theorem vector?_similar (hxs : ∀ x ∈ xs, Rereads read x (toForm x)) {f g : Form}
    (hg : vector? (xs.map toForm) = some g) (hf : f.Similar g) :
    ∃ p fs, f = .group p .square fs ∧ List.Forall₂ (fun f x => read f = .ok x) fs xs := by
  rw [vector?] at hg
  split at hg
  · cases hg
  · cases hg
    obtain ⟨p, fs, rfl, hfs⟩ := hf.group
    exact ⟨p, fs, rfl, Rereads.forall₂ hxs hfs⟩

theorem vector?_legible (hxs : ∀ x ∈ xs, Rereads read x (toForm x)) :
    ∀ f, vector? (xs.map toForm) = some f → f.IsLegible := by
  intro f hf
  rw [vector?] at hf
  split at hf
  · cases hf
  · cases hf
    exact legible_vector (Rereads.legible_map hxs)

end Vectors

section Clauses
variable {q q' : Query} {gs : List Form}

theorem Adds.distinct {b : Bool} (hq : q.distinct = false)
    (h : Adds gs { q with distinct := b } q') :
    Adds (Form.option ":distinct" (if b then some (.atom .start .bool "true") else none) ++ gs)
      q q' := by
  refine .option (fun _ => rfl) ?_ ?_ h
  · intro hv
    cases b with
    | false => rw [← hq]
    | true => cases hv
  · intro g hg p f hf
    cases b with
    | false => cases hg
    | true =>
      cases hg
      obtain ⟨p', rfl⟩ := hf.atom
      rfl

theorem Adds.vector {α : Type} {read : Form → Except QueryError α} {toForm : α → Form}
    {xs : List α} {key : Text} (set : List α → Query)
    (hkey : ∀ p, kindOfKey? (.atom p .keyword key) = none)
    (hxs : ∀ x ∈ xs, Rereads read x (toForm x)) (hempty : set [] = q)
    (hclause : ∀ p p' fs,
      addClause q (.atom p .keyword key, .group p' .square fs) = (fs.mapM read).map set)
    (h : Adds gs (set xs) q') : Adds (Form.option key (vector? (xs.map toForm)) ++ gs) q q' := by
  refine .option hkey ?_ ?_ h
  · intro hv
    rw [vector?_eq_none hv, hempty]
  · intro g hg p f hf
    obtain ⟨p', fs, rfl, hfs⟩ := vector?_similar hxs hg hf
    rw [hclause]
    exact map_eq_ok.2 ⟨xs, mapM_eq_ok.2 hfs, rfl⟩

theorem Adds.value {α : Type} {read : Form → Except QueryError α} {toForm : α → Form}
    {v : Option α} {key : Text} (set : Option α → Query)
    (hkey : ∀ p, kindOfKey? (.atom p .keyword key) = none)
    (hv : ∀ x, v = some x → Rereads read x (toForm x)) (hnone : set none = q)
    (hclause : ∀ p f, addClause q (.atom p .keyword key, f) = (read f).map (set ∘ some))
    (h : Adds gs (set v) q') : Adds (Form.option key (v.map toForm) ++ gs) q q' := by
  refine .option hkey ?_ ?_ h
  · intro hv
    rw [Option.map_eq_none_iff.1 hv, hnone]
  · intro g hg p f hf
    obtain ⟨x, rfl, rfl⟩ := Option.map_eq_some_iff.1 hg
    rw [hclause]
    exact map_eq_ok.2 ⟨x, (hv x rfl).reread f hf, rfl⟩

theorem Adds.graphs {iris : List Text}
    (hiris : ∀ iri ∈ iris, Rereads iriOfForm iri (.iri .start iri)) (hq : q.graphs = [])
    (h : Adds gs { q with graphs := iris } q') :
    Adds (Form.option ":from" (vector? (iris.map (.iri .start))) ++ gs) q q' := by
  apply Adds.vector ({ q with graphs := · }) (fun _ => rfl) hiris _ (fun _ _ _ => rfl) h
  rw [← hq]

theorem Adds.namedGraphs {iris : List Text}
    (hiris : ∀ iri ∈ iris, Rereads iriOfForm iri (.iri .start iri)) (hq : q.namedGraphs = [])
    (h : Adds gs { q with namedGraphs := iris } q') :
    Adds (Form.option ":from-named" (vector? (iris.map (.iri .start))) ++ gs) q q' := by
  apply Adds.vector ({ q with namedGraphs := · }) (fun _ => rfl) hiris _ (fun _ _ _ => rfl) h
  rw [← hq]

theorem Adds.pattern {v : Option Pattern}
    (hv : ∀ p, v = some p → Rereads Pattern.ofForm p p.toForm) (hq : q.pattern = none)
    (h : Adds gs { q with pattern := v } q') :
    Adds (Form.option ":where" (v.map Pattern.toForm) ++ gs) q q' := by
  apply Adds.value ({ q with pattern := · }) (fun _ => rfl) hv _ (fun _ _ => rfl) h
  rw [← hq]

theorem Adds.orderBy {ks : List OrderKey}
    (hks : ∀ k ∈ ks, Rereads orderKeyOfForm k k.toForm) (hq : q.orderBy = [])
    (h : Adds gs { q with orderBy := ks } q') :
    Adds (Form.option ":order-by" (vector? (ks.map OrderKey.toForm)) ++ gs) q q' := by
  apply Adds.vector ({ q with orderBy := · }) (fun _ => rfl) hks _ (fun _ _ _ => rfl) h
  rw [← hq]

theorem Adds.limit {v : Option Int} (hv : ∀ n, v = some n → Rereads countOfForm n (countForm n))
    (hq : q.limit = none) (h : Adds gs { q with limit := v } q') :
    Adds (Form.option ":limit" (v.map countForm) ++ gs) q q' := by
  apply Adds.value ({ q with limit := · }) (fun _ => rfl) hv _ (fun _ _ => rfl) h
  rw [← hq]

theorem Adds.offset {n : Int} (hn : n ≠ 0 → Rereads countOfForm n (countForm n))
    (hq : q.offset = 0) (h : Adds gs { q with offset := n } q') :
    Adds (Form.option ":offset" (if n = 0 then none else some (countForm n)) ++ gs) q q' := by
  refine .option (fun _ => rfl) ?_ ?_ h
  · intro hv
    split at hv
    next hzero => rw [hzero, ← hq]
    · cases hv
  · intro g hg p f hf
    split at hg
    · cases hg
    next hne =>
      cases hg
      exact map_eq_ok.2 ⟨n, (hn hne).reread f hf, rfl⟩

end Clauses

/-- The clauses of a query build it up from its head, one field after another. -/
theorem IsReread.adds_clauseForms {q : Query} (hq : q.IsReread) :
    Adds q.clauseForms q.headOnly q := by
  simp only [clauseForms, List.append_assoc]
  rw [← List.append_nil (Form.option ":offset" _)]
  apply Adds.distinct rfl
  apply Adds.graphs hq.graphs rfl
  apply Adds.namedGraphs hq.namedGraphs rfl
  apply Adds.pattern hq.pattern rfl
  apply Adds.orderBy hq.orderBy rfl
  apply Adds.limit hq.limit rfl
  apply Adds.offset hq.offset rfl
  exact .nil q

theorem IsReread.legible_clauseForms {q : Query} (hq : q.IsReread) :
    ∀ f ∈ q.clauseForms, f.IsLegible := by
  have hdistinct : ∀ f,
      (if q.distinct then some (Form.atom .start .bool "true") else none) = some f →
        f.IsLegible := by
    intro f hf
    split at hf
    · cases hf
      exact (Expression.rereads_bool true).legible
    · cases hf
  have hoffset : ∀ f, (if q.offset = 0 then none else some (countForm q.offset)) = some f →
      f.IsLegible := by
    intro f hf
    split at hf
    · cases hf
    next hne =>
      cases hf
      exact (hq.offset hne).legible
  simp only [clauseForms, List.forall_mem_append]
  refine ⟨⟨⟨⟨⟨⟨?_, ?_⟩, ?_⟩, ?_⟩, ?_⟩, ?_⟩, ?_⟩
  · exact .option (.keyword rfl rfl) hdistinct
  · exact .option (.keyword rfl rfl) (vector?_legible hq.graphs)
  · exact .option (.keyword rfl rfl) (vector?_legible hq.namedGraphs)
  · exact .option (.keyword rfl rfl) (Rereads.legible_option hq.pattern)
  · exact .option (.keyword rfl rfl) (vector?_legible hq.orderBy)
  · exact .option (.keyword rfl rfl) (Rereads.legible_option hq.limit)
  · exact .option (.keyword rfl rfl) hoffset

theorem length_option (key : Text) (v : Option Form) :
    (Form.option key v).length = 2 * v.toList.length := by
  cases v <;> rfl

theorem ofForm_of_head {pos : Position} {key : Text} {kind : QueryKind} {value : Form}
    {rest : List Form} {base q : Query} (hkey : kindOfKey? (.atom pos .keyword key) = some kind)
    (hhead : ofHead ⟨.atom pos .keyword key, kind, value⟩ = .ok base)
    (hheads : (clauses rest).filterMap head? = [])
    (hfold : (clauses rest).foldlM addClause base = .ok q) (p : Position) :
    ofForm (.group p .curly (.atom pos .keyword key :: value :: rest)) = .ok q := by
  have hfind (form : Form) : findHead form ((.atom pos .keyword key, value) :: clauses rest) =
      .ok ⟨.atom pos .keyword key, kind, value⟩ := by
    have hone : head? (.atom pos .keyword key, value) =
        some ⟨.atom pos .keyword key, kind, value⟩ := by
      rw [head?, hkey]
      rfl
    rw [findHead, List.filterMap_cons_some hone, hheads]
  have hskip : addClause base (.atom pos .keyword key, value) = .ok base :=
    if_pos (by rw [hkey]; rfl)
  refine bind_eq_ok.2 ⟨_, hfind _, bind_eq_ok.2 ⟨base, hhead, ?_⟩⟩
  rw [clauses, List.foldlM_cons, hskip]
  exact hfold

theorem IsReread.rereads {q : Query} (hq : q.IsReread) : Rereads ofForm q q.toForm := by
  constructor
  · refine .group _ _ _ ?_ ?_
    · simp only [List.forall_mem_cons]
      exact ⟨hq.head.key, hq.head.legible, hq.legible_clauseForms⟩
    · intro _
      simp only [clauseForms, List.length_cons, List.length_append, length_option]
      omega
  · intro f hf
    obtain ⟨p, fs, rfl, hfs⟩ := hf.group
    cases hfs with
    | cons hkey hfs =>
      cases hfs with
      | @cons value _ rest _ hvalue hrest =>
        obtain ⟨p', rfl⟩ := hkey.atom
        obtain ⟨hheads, hfold⟩ := hq.adds_clauseForms rest hrest
        exact ofForm_of_head (hq.head.kind p') (hq.head.reread _ value hvalue) hheads hfold p

theorem IsReread.strings_toForm {q : Query} (hq : q.IsReread) : q.toForm.strings = q.lexicals := by
  have hhead : q.headForm.strings =
      q.template.flatMap Expression.lexicals ++ q.selection.flatMap Expression.lexicals :=
    hq.head.strings
  rw [toForm, lexicals, Form.strings, Form.stringsAll_eq_flatMap, List.flatMap_cons,
    List.flatMap_cons, strings_clauseForms, hhead]
  simp [Form.strings]

end Query

theorem Form.ofText_isLegible {t : Text} {f : Form} (h : Form.ofText t = .ok f) : f.IsLegible := by
  rw [Form.ofText] at h
  cases hr : Form.read t with
  | error e =>
    rw [hr] at h
    cases h
  | ok g =>
    rw [hr] at h
    cases h
    exact Form.read_isLegible hr

theorem Query.ofText_isReread {t : Text} {q : Query} (h : Query.ofText t = .ok q) : q.IsReread := by
  obtain ⟨f, hf, hq⟩ := bind_eq_ok.1 h
  exact Query.ofForm_isReread (Form.ofText_isLegible hf) hq

/-- What is read prints to a text that can be read exactly when its literals are plain, and then
it is read again. -/
def RoundTrips {α : Type} (read : Text → Except QueryError α) (print : α → Text)
    (lexicals : α → List Text) : Prop :=
  ∀ t x, read t = .ok x →
    ((∃ y, read (print x) = .ok y) ↔ ∀ s ∈ lexicals x, s.IsPlain) ∧
      ∀ y, read (print x) = .ok y → y = x

/-- Expressions, patterns and queries are read back from what they print, if the literals in them
are plain: they hold no stray bytes and no control or other unprintable characters but line feeds,
tabs and carriage returns. -/
theorem ofText_text :
    RoundTrips Expression.ofText Expression.text Expression.lexicals ∧
      RoundTrips Pattern.ofText Pattern.text Pattern.lexicals ∧
      RoundTrips Query.ofText Query.text Query.lexicals ∧
      ∀ t : Text, t.IsPlain ↔ ∀ p ∈ Text.pieces t, p.IsOrdinary := by
  refine ⟨?_, ?_, ?_, Text.isPlain_iff⟩
  · intro t e h
    obtain ⟨f, hf, he⟩ := bind_eq_ok.1 h
    have hreads := Expression.ofForm_rereads (Form.ofText_isLegible hf) he
    rw [← e.text_toForm, ← e.strings_toForm]
    exact hreads.ofText
  · intro t p h
    obtain ⟨f, hf, hp⟩ := bind_eq_ok.1 h
    have hreads := Pattern.ofForm_rereads (Form.ofText_isLegible hf) hp
    rw [← p.text_toForm, ← p.strings_toForm]
    exact hreads.ofText
  · intro t q h
    obtain ⟨f, hf, hq⟩ := bind_eq_ok.1 h
    have hreads := Query.ofForm_isReread (Form.ofText_isLegible hf) hq
    rw [← q.text_toForm, ← hreads.strings_toForm]
    exact hreads.rereads.ofText

/-- A literal with a bell cannot be read back; a path, a language and a filter, and a query with a
tab in a literal can. -/
theorem ofText_text_samples :
    (∃ e, Expression.ofText "(= ?x \"\x07\")" = .ok e ∧
      ¬ ∃ y, Expression.ofText e.text = .ok y) ∧
    (∃ p, Pattern.ofText "[?s (* <p>) \"a\\n\"@en :filter (< ?s -1)]" = .ok p ∧
      Pattern.ofText p.text = .ok p) ∧
    ∃ q, Query.ofText
        "\x7b:limit 5, :select [?x (+ ?x 1)] :where [?x <p> \"a\\tb\"] :order-by [(desc ?x)]\x7d" =
          .ok q ∧ Query.ofText q.text = .ok q := by
  refine ⟨?_, ?_, ?_⟩
  · obtain ⟨e, he, hplain⟩ := exists_ok_of_any (x := Expression.ofText "(= ?x \"\x07\")")
      (p := fun e => decide ¬ ∀ s ∈ e.lexicals, s.IsPlain) (by decide +kernel)
    refine ⟨e, he, ?_⟩
    rw [(ofText_text.1 _ e he).1]
    exact of_decide_eq_true hplain
  · obtain ⟨p, hp, hplain⟩ := exists_ok_of_any
      (x := Pattern.ofText "[?s (* <p>) \"a\\n\"@en :filter (< ?s -1)]")
      (p := fun p => decide (∀ s ∈ p.lexicals, s.IsPlain)) (by decide +kernel)
    obtain ⟨hread, hsame⟩ := ofText_text.2.1 _ p hp
    obtain ⟨y, hy⟩ := hread.2 (of_decide_eq_true hplain)
    exact ⟨p, hp, hsame y hy ▸ hy⟩
  · obtain ⟨q, hq, hplain⟩ := exists_ok_of_any (x := Query.ofText
        "\x7b:limit 5, :select [?x (+ ?x 1)] :where [?x <p> \"a\\tb\"] :order-by [(desc ?x)]\x7d")
      (p := fun q => decide (∀ s ∈ q.lexicals, s.IsPlain)) (by decide +kernel)
    obtain ⟨hread, hsame⟩ := ofText_text.2.2.1 _ q hq
    obtain ⟨y, hy⟩ := hread.2 (of_decide_eq_true hplain)
    exact ⟨q, hq, hsame y hy ▸ hy⟩

end GraphQuery
