import GraphQuery.Proofs.Query.Patterns

namespace GraphQuery

def Text.IsLabel (t : Text) : Prop := ("_:" : Text) <+: t

theorem Atom.not_isLabel_of_isName {name : Text} (h : isName name) : ¬ name.IsLabel := by
  rintro ⟨rest, rfl⟩
  cases h

namespace Expression

/-- The name under which an expression in a position of a triple is bound, if it is bound. -/
def names : Expression → List Text
  | var name => [name]
  | blank label => [label]
  | _ => []

theorem mem_boundVar {e : Expression} {v : Text} : v ∈ e.boundVar ↔ e = .var v := by
  cases e with
  | var name => simp [boundVar, eq_comm]
  | _ => simp [boundVar]

theorem mem_names_of_rereads {e : Expression} (h : Rereads ofForm e e.toForm) {v : Text} :
    v ∈ e.names ∧ ¬ v.IsLabel ↔ e = .var v := by
  have hlegible := h.legible
  cases e with
  | var name =>
    cases hlegible with
    | atom _ _ _ _ hcls =>
      have hname : ¬ name.IsLabel := Atom.not_isLabel_of_isName (Atom.isName_of_classify_var hcls)
      constructor
      · rintro ⟨hv, -⟩
        rw [List.mem_singleton.1 hv]
      · rintro ⟨⟩
        exact ⟨List.mem_singleton_self _, hname⟩
  | blank label =>
    cases hlegible with
    | atom _ _ _ _ hcls =>
      obtain ⟨name, rfl⟩ := Atom.eq_of_classify_blank hcls
      refine ⟨?_, nofun⟩
      rintro ⟨hv, hlabel⟩
      rw [List.mem_singleton.1 hv] at hlabel
      exact absurd (List.prefix_append _ _) hlabel
  | _ => simp [names]

end Expression

namespace Pattern

theorem isEmpty_iff {p : Pattern} : p.isEmpty = true ↔ p = .empty {} := by
  cases p with
  | empty m =>
    obtain ⟨filter, graph⟩ := m
    cases filter <;> cases graph <;> simp [isEmpty]
  | _ => simp [isEmpty]

/-- The patterns that a pattern is directly made of; a list of triples is made of triples. -/
def children : Pattern → List Pattern
  | group ps _ | union ps _ => ps
  | optional main extra _ => [main, extra]
  | triples ts _ => ts.map triple
  | bind main _ _ _ => [main]
  | _ => []

mutual

def nodes : Pattern → List Pattern
  | group ps m => group ps m :: nodesAll ps
  | union ps m => union ps m :: nodesAll ps
  | optional main extra m => optional main extra m :: (nodes main ++ nodes extra)
  | triples ts m => triples ts m :: ts.map triple
  | bind main var value m => bind main var value m :: nodes main
  | p => [p]

def nodesAll : List Pattern → List Pattern
  | [] => []
  | p :: rest => nodes p ++ nodesAll rest

end

theorem nodesAll_eq_flatMap (ps : List Pattern) : nodesAll ps = ps.flatMap nodes := by
  induction ps with
  | nil => rfl
  | cons p ps ih => rw [nodesAll, ih, List.flatMap_cons]

theorem nodes_eq (p : Pattern) : p.nodes = p :: p.children.flatMap nodes := by
  cases p with
  | group ps m | union ps m => rw [nodes, nodesAll_eq_flatMap, children]
  | optional main extra m => simp [nodes, children]
  | triples ts m =>
    rw [nodes, children, List.flatMap_map, List.map_eq_flatMap]
    rfl
  | bind main var value m => simp [nodes, children]
  | _ => rfl

theorem forall_mem_nodes {p : Pattern} {P : Pattern → Prop} :
    (∀ q ∈ p.nodes, P q) ↔ P p ∧ ∀ c ∈ p.children, ∀ q ∈ c.nodes, P q := by
  rw [nodes_eq, List.forall_mem_cons, List.forall_mem_flatMap]

theorem exists_mem_nodes {p : Pattern} {P : Pattern → Prop} :
    (∃ q ∈ p.nodes, P q) ↔ P p ∨ ∃ c ∈ p.children, ∃ q ∈ c.nodes, P q := by
  rw [nodes_eq, List.exists_mem_cons_iff]
  simp only [List.mem_flatMap]
  grind

theorem childInduction {motive : Pattern → Prop}
    (step : ∀ p, (∀ c ∈ p.children, motive c) → motive p) (p : Pattern) : motive p := by
  have htriple (t : TriplePattern) : motive (triple t) := step _ nofun
  induction p using Pattern.rec (motive_2 := fun ps => ∀ p ∈ ps, motive p) with
  | group ps m ih | union ps m ih => exact step _ ih
  | optional main extra m ihm ihe => exact step _ (by simpa [children] using ⟨ihm, ihe⟩)
  | triples ts m => exact step _ (by simpa [children] using fun t _ => htriple t)
  | bind main var value m ih => exact step _ (by simpa [children] using ih)
  | nil => rename_i p hp; cases hp
  | cons p ps ihp ihps =>
    rename_i q hq
    rcases List.mem_cons.1 hq with rfl | hq
    · exact ihp
    · exact ihps q hq
  | _ => exact step _ nofun

/-- The expressions by which a pattern binds variables, apart from its parts. -/
def binders : Pattern → List Expression
  | triple t => [t.subject, t.predicate, t.object] ++ t.modifiers.graph.toList
  | bind _ var _ m => .var var :: m.graph.toList
  | p => p.modifiers.graph.toList

theorem boundVarsAll_eq_flatMap (ps : List Pattern) : boundVarsAll ps = ps.flatMap boundVars := by
  induction ps with
  | nil => rfl
  | cons p ps ih => rw [boundVarsAll, ih, List.flatMap_cons]

theorem mem_boundVars_iff {p : Pattern} {v : Text} :
    v ∈ p.boundVars ↔ .var v ∈ p.binders ∨ ∃ c ∈ p.children, v ∈ c.boundVars := by
  have hgraph (m : Modifiers) : v ∈ m.boundVars ↔ .var v ∈ m.graph.toList := by
    rw [Modifiers.boundVars]
    split
    next hm => simp [hm]
    next e hm => rw [Expression.mem_boundVar, hm, Option.toList_some, List.mem_singleton, eq_comm]
  have htriple (t : TriplePattern) : v ∈ t.boundVars ↔ .var v ∈ binders (.triple t) := by
    simp only [TriplePattern.boundVars, binders, List.mem_append, List.mem_cons, List.not_mem_nil,
      Expression.mem_boundVar, hgraph]
    grind
  cases p with
  | missing => simp [boundVars, binders, modifiers, children]
  | empty m => simp [boundVars, binders, modifiers, children, hgraph]
  | group ps m | union ps m =>
    simp [boundVars, binders, modifiers, children, hgraph, boundVarsAll_eq_flatMap]
  | optional main extra m => simp [boundVars, binders, modifiers, children, hgraph]
  | triple t => simp [boundVars, children, htriple]
  | triples ts m => simp [boundVars, binders, modifiers, children, hgraph]
  | bind main var value m =>
    simp only [boundVars, binders, children, List.mem_append, List.mem_cons, List.not_mem_nil,
      or_false, hgraph, Expression.var.injEq, exists_eq_left]
    tauto

theorem mem_boundVars {p : Pattern} {v : Text} :
    v ∈ p.boundVars ↔ ∃ q ∈ p.nodes, .var v ∈ q.binders := by
  induction p using childInduction with
  | step p ih =>
    rw [mem_boundVars_iff, exists_mem_nodes]
    exact or_congr_right (exists_congr fun c => and_congr_right (ih c))

/-- A pattern is there, and what it is directly made of is read back from its form. -/
structure PartsReread (p : Pattern) : Prop where
  present : p ≠ .missing
  binders : ∀ e ∈ p.binders, Rereads Expression.ofForm e e.toForm
  children : ∀ c ∈ p.children, Rereads ofForm c c.toForm

theorem legible_path {f : Form} (hf : f.IsLegible) : (Path.ofForm f).2.IsLegible := by
  rcases Path.ofForm_cases f with ⟨p, q, g, rfl, hcase⟩ | ⟨p, q, g, rfl, hcase⟩ | ⟨hcase, -⟩
  · rw [hcase]
    cases hf with
    | group _ _ _ hforms _ => exact hforms g (by simp)
  · rw [hcase]
    cases hf with
    | group _ _ _ hforms _ => exact hforms g (by simp)
  · rwa [hcase]

theorem partsReread_triple {form : Form} {forms : List Form} {t : TriplePattern}
    (hforms : ∀ f ∈ forms, f.IsLegible) (h : TriplePattern.ofForms form forms = .ok t) :
    PartsReread (.triple t) := by
  obtain ⟨s, p, o, hargs, hm, hs, -, hp, ho⟩ := TriplePattern.ofForms_eq_ok.1 h
  have hmem : ∀ f ∈ [s, p, o], f.IsLegible := by
    rw [← hargs]
    exact fun f hf => hforms f (List.takeWhile_subset _ hf)
  have hmodifiers := Modifiers.ofForms_reread hm Modifiers.reread_empty
    fun f hf => hforms f (List.dropWhile_subset _ hf)
  refine ⟨nofun, ?_, nofun⟩
  intro e he
  simp only [binders, List.mem_append, List.mem_cons, List.not_mem_nil, or_false,
    Option.mem_toList] at he
  rcases he with (rfl | rfl | rfl) | he
  · exact Expression.ofForm_rereads (hmem s (by simp)) hs
  · exact Expression.ofForm_rereads (legible_path (hmem p (by simp))) hp
  · exact Expression.ofForm_rereads (hmem o (by simp)) ho
  · exact hmodifiers e (.inr he)

theorem ofForm_of_triple {f : Form} {t : TriplePattern} (h : TriplePattern.ofForm f = .ok t) :
    ofForm f = .ok (.triple t) := by
  unfold TriplePattern.ofForm at h
  split at h
  · exact map_eq_ok.2 ⟨t, h, rfl⟩
  · cases h

theorem Named.partsReread {name : Text} {args : List Form} {m : Modifiers} {p : Pattern}
    (h : Named name args m p) (hargs : ∀ f ∈ args, f.IsLegible) (hm : m.Reread) :
    p.PartsReread := by
  have hgraph : ∀ e ∈ m.graph.toList, Rereads Expression.ofForm e e.toForm :=
    fun e he => hm e (.inr (Option.mem_toList.1 he))
  cases h with
  | empty m => exact ⟨nofun, hgraph, nofun⟩
  | group m h | union m h =>
    exact ⟨nofun, hgraph, Rereads.of_forall₂ h fun f hf _ hp => ofForm_rereads (hargs f hf) hp⟩
  | optional m hf hg =>
    simp only [List.forall_mem_cons] at hargs
    refine ⟨nofun, hgraph, ?_⟩
    simp only [Pattern.children, List.forall_mem_cons]
    exact ⟨ofForm_rereads hargs.1 hf, ofForm_rereads hargs.2.1 hg, nofun⟩
  | @triples m args ts h =>
    have hts : List.Forall₂ (fun f p => ofForm f = .ok p) args (ts.map triple) :=
      List.forall₂_map_right_iff.2 (h.imp fun _ _ => ofForm_of_triple)
    exact ⟨nofun, hgraph, Rereads.of_forall₂ hts fun f hf _ hp => ofForm_rereads (hargs f hf) hp⟩
  | @bind m f g pos var main value hf hg =>
    simp only [List.forall_mem_cons] at hargs
    refine ⟨nofun, ?_, ?_⟩
    · simp only [Pattern.binders, List.forall_mem_cons]
      exact ⟨Expression.ofForm_rereads (f := .atom pos .var var) hargs.2.1 rfl, hgraph⟩
    · simp only [Pattern.children, List.forall_mem_cons]
      exact ⟨ofForm_rereads hargs.1 hf, nofun⟩

theorem partsReread_of_rereads {p : Pattern} (h : Rereads ofForm p p.toForm) : p.PartsReread := by
  have hlegible := h.legible
  have hread := h.reread p.toForm rfl
  cases hform : p.toForm with
  | group pos bracket forms =>
    rw [hform] at hlegible hread
    cases hlegible with
    | group _ _ _ hforms _ =>
      cases bracket with
      | square =>
        obtain ⟨t, ht, rfl⟩ := map_eq_ok.1 hread
        exact partsReread_triple hforms ht
      | curly => cases hread
      | round =>
        obtain ⟨q, name, rest, rfl⟩ := exists_name_of_ofForm hread
        obtain ⟨m, hm, hnamed⟩ := named_of_ofForm hread
        have hrest (f : Form) (hf : f ∈ rest) := hforms f (List.mem_cons_of_mem _ hf)
        apply hnamed.partsReread fun f hf => hrest f (List.takeWhile_subset _ hf)
        exact Modifiers.ofForms_reread hm Modifiers.reread_empty
          fun f hf => hrest f (List.dropWhile_subset _ hf)
  | _ =>
    rw [hform] at hread
    cases hread

theorem partsReread_of_mem_nodes {p : Pattern} (h : Rereads ofForm p p.toForm) :
    ∀ q ∈ p.nodes, q.PartsReread := by
  induction p using childInduction with
  | step p ih =>
    have hp := partsReread_of_rereads h
    exact forall_mem_nodes.2 ⟨hp, fun c hc => ih c hc (hp.children c hc)⟩

end Pattern

end GraphQuery
