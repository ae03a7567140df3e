import GraphQuery.Proofs.Query.Expressions

namespace GraphQuery

namespace Modifiers

def Reread (m : Modifiers) : Prop :=
  ∀ e, m.filter = some e ∨ m.graph = some e → Rereads Expression.ofForm e e.toForm

theorem reread_empty : Reread {} := by
  rintro e (h | h) <;> cases h

theorem ofForms_reread {m m' : Modifiers} {fs : List Form} (h : ofForms m fs = .ok m')
    (hm : m.Reread) (hfs : ∀ f ∈ fs, f.IsLegible) : m'.Reread := by
  fun_induction ofForms m fs with
  | case1 m => cases h; exact hm
  | case4 m pos value rest e he ih =>
    apply ih h
    · rintro e' (h' | h')
      · cases h'
        exact Expression.ofForm_rereads (hfs value (by simp)) he
      · exact hm e' (.inr h')
    · exact fun f hf => hfs f (by simp [hf])
  | case5 m pos value rest e he hkey ih =>
    apply ih h
    · rintro e' (h' | h')
      · exact hm e' (.inl h')
      · cases h'
        exact Expression.ofForm_rereads (hfs value (by simp)) he
    · exact fun f hf => hfs f (by simp [hf])
  | _ => cases h

theorem legible_toForms {m : Modifiers} (hm : m.Reread) : ∀ f ∈ m.toForms, f.IsLegible := by
  have hfilter := Rereads.legible_option fun e he => hm e (.inl he)
  have hgraph := Rereads.legible_option fun e he => hm e (.inr he)
  intro f hf
  rcases List.mem_append.1 hf with hf | hf
  · exact Form.IsLegible.option (.keyword rfl rfl) hfilter f hf
  · exact Form.IsLegible.option (.keyword rfl rfl) hgraph f hf

theorem ofForms_graph_similar {v : Option Expression} {filter : Option Expression}
    (hv : ∀ e, v = some e → Rereads Expression.ofForm e e.toForm) {fs : List Form}
    (hfs : List.Forall₂ Form.Similar fs (Form.option ":graph" (v.map Expression.toForm))) :
    ofForms { filter } fs = .ok { filter, graph := v } := by
  rw [← List.append_nil (Form.option _ _)] at hfs
  rcases Form.similar_option hfs with ⟨hnone, hrest⟩ | ⟨g, p, f, rest, hsome, rfl, hf, hrest⟩
  · cases Option.map_eq_none_iff.1 hnone
    cases hrest
    rfl
  · obtain ⟨e, rfl, rfl⟩ := Option.map_eq_some_iff.1 hsome
    cases hrest
    rw [ofForms, (hv e rfl).reread f hf]
    rfl

theorem ofForms_similar {m : Modifiers} (hm : m.Reread) {fs : List Form}
    (hfs : List.Forall₂ Form.Similar fs m.toForms) : ofForms {} fs = .ok m := by
  obtain ⟨filter, graph⟩ := m
  have hgraph (e : Expression) (he : graph = some e) := hm e (.inr he)
  rcases Form.similar_option hfs with ⟨hnone, hrest⟩ | ⟨g, p, f, rest, hsome, rfl, hf, hrest⟩
  · cases Option.map_eq_none_iff.1 hnone
    exact ofForms_graph_similar hgraph hrest
  · obtain ⟨e, rfl, rfl⟩ := Option.map_eq_some_iff.1 hsome
    rw [ofForms, (hm e (.inl rfl)).reread f hf]
    exact ofForms_graph_similar hgraph hrest

theorem isKeywordForm_of_head? {m : Modifiers} {f : Form} (h : m.toForms.head? = some f) :
    f.isKeywordForm = true := by
  obtain ⟨filter, graph⟩ := m
  cases filter <;> cases graph <;> cases h <;> rfl

end Modifiers

/-- Forms like arguments and options: the first keyword divides them. -/
theorem Form.similar_arguments {args : List Form} (hargs : ∀ f ∈ args, f.isKeywordForm = false)
    {m : Modifiers} {fs : List Form} (hfs : List.Forall₂ Form.Similar fs (args ++ m.toForms)) :
    List.Forall₂ Form.Similar (Form.arguments fs) args ∧
      List.Forall₂ Form.Similar (Form.options fs) m.toForms := by
  induction args generalizing fs with
  | nil =>
    rw [List.nil_append] at hfs
    have hhead : ∀ f, fs.head? = some f → f.isKeywordForm = true := by
      intro f hf
      cases hm : m.toForms with
      | nil =>
        rw [hm] at hfs
        cases hfs
        cases hf
      | cons g gs =>
        rw [hm] at hfs
        cases hfs with
        | cons hfg _ =>
          cases hf
          rw [hfg.isKeywordForm_eq]
          exact Modifiers.isKeywordForm_of_head? (by rw [hm]; rfl)
    cases fs with
    | nil => exact ⟨.nil, hfs⟩
    | cons f fs =>
      have hf := hhead f rfl
      simp only [Form.arguments, Form.options, List.takeWhile_cons, List.dropWhile_cons, hf]
      exact ⟨.nil, hfs⟩
  | cons a args ih =>
    cases hfs with
    | @cons f _ fs _ hf hfs =>
      obtain ⟨harguments, hoptions⟩ := ih (fun g hg => hargs g (List.mem_cons_of_mem a hg)) hfs
      have hkey : f.isKeywordForm = false := by
        rw [hf.isKeywordForm_eq]
        exact hargs a List.mem_cons_self
      rw [Form.arguments, Form.options, List.takeWhile_cons, List.dropWhile_cons, hkey]
      exact ⟨.cons hf harguments, hoptions⟩

namespace Path

theorem ofForm_cases (f : Form) :
    (∃ p q g, f = .group p .round [.atom q .symbol "*", g] ∧ ofForm f = (.star, g)) ∨
      (∃ p q g, f = .group p .round [.atom q .symbol "+", g] ∧ ofForm f = (.plus, g)) ∨
      (ofForm f = (.once, f) ∧ ∀ op, f.operator? = some (op, 1) → op ≠ "*" ∧ op ≠ "+") := by
  unfold ofForm
  split
  next p q op g =>
    split
    next hstar => exact .inl ⟨p, q, g, by rw [hstar], rfl⟩
    next hstar =>
      split
      next hplus => exact .inr (.inl ⟨p, q, g, by rw [hplus], rfl⟩)
      next hplus =>
        refine .inr (.inr ⟨rfl, ?_⟩)
        intro op' hop
        cases hop
        exact ⟨hstar, hplus⟩
  next hf =>
    refine .inr (.inr ⟨rfl, ?_⟩)
    intro op hop
    obtain ⟨p, q, g, rfl⟩ := Form.operator?_eq_some hop
    exact absurd rfl (hf p q op g)

theorem ofForm_eq_once {f : Form}
    (h : ∀ op, f.operator? = some (op, 1) → op ≠ "*" ∧ op ≠ "+") : ofForm f = (.once, f) := by
  rcases ofForm_cases f with ⟨p, q, g, rfl, -⟩ | ⟨p, q, g, rfl, -⟩ | ⟨honce, -⟩
  · exact absurd rfl (h _ rfl).1
  · exact absurd rfl (h _ rfl).2
  · exact honce

end Path

namespace TriplePattern

theorem ofForms_eq_ok {form : Form} {forms : List Form} {t : TriplePattern} :
    ofForms form forms = .ok t ↔ ∃ s p o, Form.arguments forms = [s, p, o] ∧
      Modifiers.ofForms {} (Form.options forms) = .ok t.modifiers ∧
      Expression.ofForm s = .ok t.subject ∧ (Path.ofForm p).1 = t.path ∧
      Expression.ofForm (Path.ofForm p).2 = .ok t.predicate ∧
      Expression.ofForm o = .ok t.object := by
  rw [ofForms, bind_eq_ok]
  constructor
  · rintro ⟨m, hm, h⟩
    split at h
    next s p o hargs =>
      obtain ⟨subject, hs, h⟩ := bind_eq_ok.1 h
      obtain ⟨predicate, hp, h⟩ := bind_eq_ok.1 h
      obtain ⟨object, ho, h⟩ := bind_eq_ok.1 h
      cases h
      exact ⟨s, p, o, hargs, hm, hs, rfl, hp, ho⟩
    · cases h
  · rintro ⟨s, p, o, hargs, hm, hs, hpath, hp, ho⟩
    refine ⟨t.modifiers, hm, ?_⟩
    rw [hargs]
    simp only [hs, hp, ho, hpath]
    rfl

theorem path_similar {t : TriplePattern} {q r : Position} {name : Text} {g : Form}
    (hg : Form.IsLegible (.group q .round [.atom r .symbol name, g]))
    (hpredicate : Expression.ofForm g = .ok t.predicate)
    (hpath : ∀ p q g, Path.ofForm (.group p .round [.atom q .symbol name, g]) = (t.path, g)) :
    (Form.call name [t.predicate.toForm]).IsLegible ∧
      ∀ f, f.Similar (Form.call name [t.predicate.toForm]) →
        (Path.ofForm f).1 = t.path ∧ Expression.ofForm (Path.ofForm f).2 = .ok t.predicate := by
  cases hg with
  | group _ _ _ hforms _ =>
    have hreads := Expression.ofForm_rereads (hforms g (by simp)) hpredicate
    refine ⟨.call (hforms _ List.mem_cons_self) (by simpa using hreads.legible), ?_⟩
    intro f hf
    obtain ⟨p', q', fs, rfl, hfs⟩ := hf.call
    cases hfs with
    | cons hg hfs =>
      cases hfs
      rw [hpath]
      exact ⟨rfl, hreads.reread _ hg⟩

theorem predicateForm_similar {t : TriplePattern} {p : Form} (hp : p.IsLegible)
    (hpath : (Path.ofForm p).1 = t.path)
    (hpredicate : Expression.ofForm (Path.ofForm p).2 = .ok t.predicate) :
    t.predicateForm.IsLegible ∧ ∀ f, f.Similar t.predicateForm →
      (Path.ofForm f).1 = t.path ∧ Expression.ofForm (Path.ofForm f).2 = .ok t.predicate := by
  rcases Path.ofForm_cases p with ⟨q, r, g, rfl, hcase⟩ | ⟨q, r, g, rfl, hcase⟩ | ⟨hcase, hop⟩
  · rw [hcase] at hpath hpredicate
    have hstar : t.path = .star := hpath.symm
    rw [predicateForm, if_neg (by rw [hstar]; decide), hstar, Path.name]
    simpa only [hstar] using path_similar hp hpredicate fun _ _ _ => by rw [hstar]; rfl
  · rw [hcase] at hpath hpredicate
    have hplus : t.path = .plus := hpath.symm
    rw [predicateForm, if_neg (by rw [hplus]; decide), hplus, Path.name]
    simpa only [hplus] using path_similar hp hpredicate fun _ _ _ => by rw [hplus]; rfl
  · rw [hcase] at hpath hpredicate
    have hreads := Expression.ofForm_rereads hp hpredicate
    rw [predicateForm, if_pos hpath.symm]
    refine ⟨hreads.legible, ?_⟩
    intro f hf
    have honce : Path.ofForm f = (.once, f) := by
      apply Path.ofForm_eq_once
      intro op hf'
      apply hop
      rw [← hf', hf.operator?_eq, Expression.ofForm_operator? hpredicate]
    rw [honce]
    exact ⟨hpath, hreads.reread f hf⟩

theorem isKeywordForm_predicateForm (t : TriplePattern) :
    t.predicateForm.isKeywordForm = false := by
  rw [predicateForm]
  split
  · exact t.predicate.isKeywordForm_toForm
  · rfl

def parts (t : TriplePattern) : List Form := [t.subject.toForm, t.predicateForm, t.object.toForm]

theorem ofForms_rereads {form : Form} {forms : List Form} {t : TriplePattern}
    (hforms : ∀ f ∈ forms, f.IsLegible) (h : ofForms form forms = .ok t) :
    t.toForm.IsLegible ∧ ∀ form' fs, List.Forall₂ Form.Similar fs (t.parts ++ t.modifiers.toForms) →
      ofForms form' fs = .ok t := by
  obtain ⟨s, p, o, hargs, hm, hs, hpath, hp, ho⟩ := ofForms_eq_ok.1 h
  have hmem : ∀ f ∈ [s, p, o], f.IsLegible := by
    rw [← hargs]
    exact fun f hf => hforms f (List.takeWhile_subset _ hf)
  have hsubject := Expression.ofForm_rereads (hmem s (by simp)) hs
  have hobject := Expression.ofForm_rereads (hmem o (by simp)) ho
  obtain ⟨hlegible, hpredicate⟩ := predicateForm_similar (hmem p (by simp)) hpath hp
  have hmodifiers := Modifiers.ofForms_reread hm Modifiers.reread_empty
    fun f hf => hforms f (List.dropWhile_subset _ hf)
  constructor
  · refine .group _ _ _ ?_ nofun
    intro f hf
    rcases List.mem_append.1 hf with hf | hf
    · simp only [List.mem_cons, List.not_mem_nil, or_false] at hf
      rcases hf with rfl | rfl | rfl
      · exact hsubject.legible
      · exact hlegible
      · exact hobject.legible
    · exact Modifiers.legible_toForms hmodifiers f hf
  · intro form' fs hfs
    have hkeys : ∀ f ∈ t.parts, f.isKeywordForm = false := by
      simp [parts, Expression.isKeywordForm_toForm, isKeywordForm_predicateForm]
    obtain ⟨harguments, hoptions⟩ := Form.similar_arguments hkeys hfs
    rw [ofForms_eq_ok]
    generalize Form.arguments fs = args at harguments ⊢
    cases harguments with
    | cons hs' hargs' =>
      cases hargs' with
      | cons hp' hargs' =>
        cases hargs' with
        | cons ho' hargs' =>
          cases hargs'
          obtain ⟨hpath', hp'⟩ := hpredicate _ hp'
          exact ⟨_, _, _, rfl, Modifiers.ofForms_similar hmodifiers hoptions,
            hsubject.reread _ hs', hpath', hp', hobject.reread _ ho'⟩

theorem ofForm_rereads {f : Form} (hf : f.IsLegible) {t : TriplePattern} (h : ofForm f = .ok t) :
    Rereads ofForm t t.toForm := by
  unfold ofForm at h
  split at h
  next pos forms =>
    cases hf with
    | group _ _ _ hforms _ =>
      obtain ⟨hlegible, hread⟩ := ofForms_rereads hforms h
      refine ⟨hlegible, ?_⟩
      intro g hg
      obtain ⟨p, fs, rfl, hfs⟩ := hg.group
      exact hread _ fs hfs
  · cases h

end TriplePattern

theorem Form.arguments_eq_take (fs : List Form) :
    Form.arguments fs = fs.take (Form.arguments fs).length :=
  List.prefix_iff_eq_take.1 (List.takeWhile_prefix _)

namespace Pattern

/-- The pattern that a name, arguments and modifiers make up. -/
inductive Named : Text → List Form → Modifiers → Pattern → Prop
  | empty (m : Modifiers) : Named "empty" [] m (.empty m)
  | group (m : Modifiers) {args : List Form} {ps : List Pattern}
      (h : List.Forall₂ (fun f p => ofForm f = .ok p) args ps) : Named "group" args m (.group ps m)
  | union (m : Modifiers) {args : List Form} {ps : List Pattern}
      (h : List.Forall₂ (fun f p => ofForm f = .ok p) args ps) : Named "union" args m (.union ps m)
  | optional (m : Modifiers) {f g : Form} {main extra : Pattern} (hf : ofForm f = .ok main)
      (hg : ofForm g = .ok extra) : Named "optional" [f, g] m (.optional main extra m)
  | triples (m : Modifiers) {args : List Form} {ts : List TriplePattern}
      (h : List.Forall₂ (fun f t => TriplePattern.ofForm f = .ok t) args ts) :
      Named "triples" args m (.triples ts m)
  | bind (m : Modifiers) {f g : Form} {pos : Position} {var : Text} {main : Pattern}
      {value : Expression} (hf : ofForm f = .ok main) (hg : Expression.ofForm g = .ok value) :
      Named "bind" [f, .atom pos .var var, g] m (.bind main (var.drop 1) value m)

theorem ofArguments_eq_ok {fs : List Form} {ps : List Pattern} :
    ofArguments fs = .ok ps ↔
      List.Forall₂ (fun f p => ofForm f = .ok p) (Form.arguments fs) ps := by
  induction fs generalizing ps with
  | nil =>
    rw [ofArguments, Form.arguments, List.takeWhile_nil, List.forall₂_nil_left_iff]
    exact ⟨fun h => (Except.ok.inj h).symm, fun h => h ▸ rfl⟩
  | cons f fs ih =>
    rw [ofArguments, Form.arguments, List.takeWhile_cons]
    by_cases hkey : f.isKeywordForm
    · rw [if_pos hkey, if_neg (by simp [hkey]), List.forall₂_nil_left_iff]
      exact ⟨fun h => (Except.ok.inj h).symm, fun h => h ▸ rfl⟩
    · rw [if_neg hkey, if_pos (by simp [hkey]), List.forall₂_cons_left_iff]
      constructor
      · intro h
        split at h
        · cases h
        next p hp =>
          obtain ⟨ps', hps, rfl⟩ := map_eq_ok.1 h
          exact ⟨p, ps', hp, ih.1 hps, rfl⟩
      · rintro ⟨p, ps', hp, hps, rfl⟩
        rw [hp]
        exact map_eq_ok.2 ⟨ps', ih.2 hps, rfl⟩

theorem named_of_ofForm {pos q : Position} {name : Text} {rest : List Form} {p : Pattern}
    (h : ofForm (.group pos .round (.atom q .symbol name :: rest)) = .ok p) :
    ∃ m, Modifiers.ofForms {} (Form.options rest) = .ok m ∧
      Named name (Form.arguments rest) m p := by
  rw [ofForm.eq_def] at h
  simp only at h
  split at h
  · cases h
  next m hm =>
    refine ⟨m, hm, ?_⟩
    have htake := Form.arguments_eq_take rest
    -- one name after another, in the order of the tests
    split at h
    · rename_i hname
      split at h
      next hargs =>
        cases h
        rw [hname, List.isEmpty_iff.1 hargs]
        exact .empty m
      · cases h
    split at h
    · rename_i hname
      obtain ⟨ps, hps, rfl⟩ := map_eq_ok.1 h
      rw [hname]
      exact .group m (ofArguments_eq_ok.1 hps)
    split at h
    · rename_i hname
      obtain ⟨ps, hps, rfl⟩ := map_eq_ok.1 h
      rw [hname]
      exact .union m (ofArguments_eq_ok.1 hps)
    split at h
    · rename_i hname
      split at h
      next f g tail hlength =>
        rw [hlength] at htake
        split at h
        · cases h
        next main hmain =>
          obtain ⟨extra, hextra, rfl⟩ := map_eq_ok.1 h
          rw [hname, htake]
          exact .optional m hmain hextra
      · cases h
    split at h
    · rename_i hname
      obtain ⟨ts, hts, rfl⟩ := map_eq_ok.1 h
      rw [hname]
      exact .triples m (mapM_eq_ok.1 hts)
    split at h
    · rename_i hname
      split at h
      next f target g tail hlength =>
        rw [hlength] at htake
        split at h
        · cases h
        next main hmain =>
          split at h
          next pos var =>
            obtain ⟨value, hvalue, rfl⟩ := map_eq_ok.1 h
            rw [hname, htake]
            exact .bind m hmain hvalue
          · cases h
      · cases h
    · cases h

theorem ofForm_of_named {name : Text} {rest : List Form} {m : Modifiers} {p : Pattern}
    (hm : Modifiers.ofForms {} (Form.options rest) = .ok m)
    (h : Named name (Form.arguments rest) m p) (pos q : Position) :
    ofForm (.group pos .round (.atom q .symbol name :: rest)) = .ok p := by
  rw [ofForm.eq_def]
  simp only [hm]
  have htake := Form.arguments_eq_take rest
  generalize hargs : Form.arguments rest = args at h htake
  cases h with
  | empty m => rfl
  | group m h =>
    rw [← hargs] at h
    exact map_eq_ok.2 ⟨_, ofArguments_eq_ok.2 h, rfl⟩
  | union m h =>
    rw [← hargs] at h
    exact map_eq_ok.2 ⟨_, ofArguments_eq_ok.2 h, rfl⟩
  | optional m hf hg =>
    match rest, htake with
    | f :: g :: tail, htake =>
      cases htake
      simp only [List.length_cons, List.length_nil, hf]
      exact map_eq_ok.2 ⟨_, hg, rfl⟩
  | triples m h =>
    exact map_eq_ok.2 ⟨_, mapM_eq_ok.2 h, rfl⟩
  | bind m hf hg =>
    match rest, htake with
    | f :: target :: g :: tail, htake =>
      cases htake
      simp only [List.length_cons, List.length_nil, hf]
      exact map_eq_ok.2 ⟨_, hg, rfl⟩

theorem isKeywordForm_toForm (p : Pattern) : p.toForm.isKeywordForm = false := by
  cases p <;> rfl

theorem rereads_call {name : Text} {q : Position} {args : List Form} {m : Modifiers} {p : Pattern}
    (hname : Form.IsLegible (.atom q .symbol name)) (hargs : ∀ f ∈ args, f.IsLegible)
    (hkeys : ∀ f ∈ args, f.isKeywordForm = false) (hm : m.Reread)
    (h : ∀ fs, List.Forall₂ Form.Similar fs args → Named name fs m p) :
    Rereads ofForm p (.call name (args ++ m.toForms)) := by
  refine ⟨.call hname ?_, ?_⟩
  · intro f hf
    rcases List.mem_append.1 hf with hf | hf
    · exact hargs f hf
    · exact Modifiers.legible_toForms hm f hf
  · intro f hf
    obtain ⟨p', q', fs, rfl, hfs⟩ := hf.call
    obtain ⟨harguments, hoptions⟩ := Form.similar_arguments hkeys hfs
    exact ofForm_of_named (Modifiers.ofForms_similar hm hoptions) (h _ harguments) p' q'

theorem exists_name_of_ofForm {pos : Position} {forms : List Form} {p : Pattern}
    (h : ofForm (.group pos .round forms) = .ok p) :
    ∃ q name rest, forms = .atom q .symbol name :: rest := by
  rw [ofForm.eq_def] at h
  split at h
  next heq => cases heq
  next heq =>
    cases heq
    exact ⟨_, _, _, rfl⟩
  · cases h
  · cases h

theorem named_rereads {q : Position} {name : Text} {args : List Form} {m : Modifiers} {p : Pattern}
    (hname : Form.IsLegible (.atom q .symbol name)) (hargs : ∀ f ∈ args, f.IsLegible)
    (ih : ∀ f ∈ args, ∀ p, ofForm f = .ok p → Rereads ofForm p p.toForm) (hm : m.Reread)
    (h : Named name args m p) : Rereads ofForm p p.toForm := by
  cases h with
  | empty m =>
    have hread : Rereads ofForm (.empty m) (.call "empty" ([] ++ m.toForms)) := by
      refine rereads_call hname (by simp) (by simp) hm ?_
      intro fs hfs
      cases hfs
      exact .empty m
    exact hread
  | @group m args ps h =>
    have hps := Rereads.of_forall₂ h ih
    rw [toForm, toForms_eq_map]
    refine rereads_call hname (Rereads.legible_map hps) (by simp [isKeywordForm_toForm]) hm ?_
    intro fs hfs
    exact .group m (Rereads.forall₂ hps hfs)
  | @union m args ps h =>
    have hps := Rereads.of_forall₂ h ih
    rw [toForm, toForms_eq_map]
    refine rereads_call hname (Rereads.legible_map hps) (by simp [isKeywordForm_toForm]) hm ?_
    intro fs hfs
    exact .union m (Rereads.forall₂ hps hfs)
  | @optional m f g main extra hf hg =>
    have hmain := ih f (by simp) main hf
    have hextra := ih g (by simp) extra hg
    refine rereads_call hname ?_ (by simp [isKeywordForm_toForm]) hm ?_
    · simp [hmain.legible, hextra.legible]
    · intro fs hfs
      cases hfs with
      | cons hf' hfs =>
        cases hfs with
        | cons hg' hfs =>
          cases hfs
          exact .optional m (hmain.reread _ hf') (hextra.reread _ hg')
  | @triples m args ts h =>
    have hts := Rereads.of_forall₂ h fun f hf t ht =>
      TriplePattern.ofForm_rereads (hargs f hf) ht
    refine rereads_call hname (Rereads.legible_map hts) ?_ hm ?_
    · intro f hf
      obtain ⟨t, -, rfl⟩ := List.mem_map.1 hf
      rfl
    · intro fs hfs
      exact .triples m (Rereads.forall₂ hts hfs)
  | @bind m f g pos var main value hf hg =>
    have hmain := ih f (by simp) main hf
    have hvalue := Expression.ofForm_rereads (hargs g (by simp)) hg
    have htarget := hargs (.atom pos .var var) (by simp)
    cases htarget with
    | atom _ _ _ hleaf hcls =>
      have hvar := Atom.eq_of_classify_var hcls
      rw [toForm, ← hvar]
      refine rereads_call hname ?_ ?_ hm ?_
      · simp only [List.forall_mem_cons]
        exact ⟨hmain.legible, .atom _ _ _ hleaf hcls, hvalue.legible, List.forall_mem_nil _⟩
      · simp only [List.forall_mem_cons]
        exact ⟨main.isKeywordForm_toForm, rfl, value.isKeywordForm_toForm, List.forall_mem_nil _⟩
      · intro fs hfs
        cases hfs with
        | cons hf' hfs =>
          cases hfs with
          | cons ht' hfs =>
            cases hfs with
            | cons hg' hfs =>
              cases hfs
              obtain ⟨p', rfl⟩ := ht'.atom
              exact .bind m (hmain.reread _ hf') (hvalue.reread _ hg')

theorem ofForm_rereads {f : Form} (hf : f.IsLegible) {p : Pattern} (h : ofForm f = .ok p) :
    Rereads ofForm p p.toForm := by
  induction f using Form.partsInduction generalizing p with
  | atom pos cls value => cases h
  | string pos value note => cases h
  | iri pos value => cases h
  | group pos bracket forms ih =>
    cases hf with
    | group _ _ _ hforms _ =>
      cases bracket with
      | square =>
        obtain ⟨t, ht, rfl⟩ := map_eq_ok.1 h
        obtain ⟨hlegible, hread⟩ := TriplePattern.ofForms_rereads hforms ht
        refine ⟨hlegible, ?_⟩
        intro f hf
        obtain ⟨p, fs, rfl, hfs⟩ := hf.group
        exact map_eq_ok.2 ⟨t, hread _ fs hfs, rfl⟩
      | curly => cases h
      | round =>
        obtain ⟨q, name, rest, rfl⟩ := exists_name_of_ofForm h
        obtain ⟨m, hm, hnamed⟩ := named_of_ofForm h
        have hrest (f : Form) (hf : f ∈ rest) := hforms f (List.mem_cons_of_mem _ hf)
        have hargs (f : Form) (hf : f ∈ Form.arguments rest) :=
          hrest f (List.takeWhile_subset _ hf)
        refine named_rereads (hforms _ List.mem_cons_self) hargs ?_ ?_ hnamed
        · intro f hf p hp
          exact ih f (List.mem_cons_of_mem _ (List.takeWhile_subset _ hf)) (hargs f hf) hp
        · exact Modifiers.ofForms_reread hm Modifiers.reread_empty
            fun f hf => hrest f (List.dropWhile_subset _ hf)

end Pattern

end GraphQuery
