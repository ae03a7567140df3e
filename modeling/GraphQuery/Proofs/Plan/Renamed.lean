import GraphQuery.Proofs.Plan.Ingredients
import GraphQuery.Proofs.Plan.Normal
import GraphQuery.Proofs.Plan.Transform

namespace GraphQuery

def Constraint.map (f : Element → Element) (c : Constraint) : Constraint :=
  ⟨f c.subject, f c.predicate, f c.object, c.graph.map f⟩

theorem Constraint.map_eq_self {c : Constraint} {f : Element → Element}
    (h : ∀ e ∈ c.elements, f e = e) : c.map f = c := by
  obtain ⟨subject, predicate, object, graph⟩ := c
  have hs : f subject = subject := h _ (by simp [elements])
  have hp : f predicate = predicate := h _ (by simp [elements])
  have ho : f object = object := h _ (by simp [elements])
  cases graph with
  | none => simp only [map, hs, hp, ho, Option.map_none]
  | some g =>
    have hg : f g = g := h _ (by simp [elements])
    simp only [map, hs, hp, ho, hg, Option.map_some]

theorem Constraint.elements_map (c : Constraint) (f : Element → Element) :
    (c.map f).elements = c.elements.map f := by
  obtain ⟨subject, predicate, object, graph⟩ := c
  cases graph <;> rfl

namespace Plan

def mapLeaf (f : Element → Element) (g : Text → Text) : Plan → Plan
  | constraint c => constraint (c.map f)
  | is var value graph => is (g var) (f value) (graph.map f)
  | closure step zero => closure (step.map f) zero
  | transitive step first last zero => transitive (step.map f) (f first) (f last) zero
  | walk start step => walk (f start) (step.map f)
  | p => p

def swapName (old new name : Text) : Text := if name = old then new else name

def swapElement (old new : Text) : Element → Element
  | .var name => .var (swapName old new name)
  | e => e

theorem IsLeaf.isSealed {p : Plan} (h : p.IsLeaf) : p.IsSealed := by
  cases p with
  | filtered | optional | conj | disj | minus => cases h
  | _ => trivial

theorem IsLeaf.mapLeaf {p : Plan} (h : p.IsLeaf) (f : Element → Element) (g : Text → Text) :
    (p.mapLeaf f g).IsLeaf := by
  cases p with
  | constraint | is | closure | transitive | walk => rfl
  | _ => cases h

section MapLeaf
variable {f : Element → Element} {g : Text → Text}

theorem leafElements_mapLeaf (hfg : ∀ v, f (.var v) = .var (g v)) (p : Plan) :
    (p.mapLeaf f g).leafElements = p.leafElements.map f := by
  cases p with
  | constraint c | closure c zero => exact c.elements_map f
  | is var value graph => cases graph <;> simp [mapLeaf, leafElements, hfg]
  | transitive step first last zero => simp [mapLeaf, leafElements, step.elements_map]
  | walk start step => simp [mapLeaf, leafElements, step.elements_map]
  | _ => rfl

theorem mapLeaf_eq_self (hfg : ∀ v, f (.var v) = .var (g v)) {p : Plan}
    (h : ∀ e ∈ p.leafElements, f e = e) : p.mapLeaf f g = p := by
  cases p with
  | constraint c | closure c zero => rw [mapLeaf, Constraint.map_eq_self h]
  | is var value graph =>
    have hvar : f (.var var) = .var var := h _ (by simp [leafElements])
    have hvalue : f value = value := h _ (by simp [leafElements])
    rw [hfg] at hvar
    cases graph with
    | none => simp only [mapLeaf, Element.var.inj hvar, hvalue, Option.map_none]
    | some graph =>
      have hgraph : f graph = graph := h _ (by simp [leafElements])
      simp only [mapLeaf, Element.var.inj hvar, hvalue, hgraph, Option.map_some]
  | transitive step first last zero =>
    have hstep : step.map f = step :=
      Constraint.map_eq_self fun e he => h e (List.mem_append_left _ he)
    have hfirst : f first = first := h _ (by simp [leafElements])
    have hlast : f last = last := h _ (by simp [leafElements])
    rw [mapLeaf, hstep, hfirst, hlast]
  | walk start step =>
    have hstart : f start = start := h _ List.mem_cons_self
    have hstep : step.map f = step :=
      Constraint.map_eq_self fun e he => h e (List.mem_cons_of_mem _ he)
    rw [mapLeaf, hstart, hstep]
  | _ => rfl

end MapLeaf

theorem swapElement_eq_ite (old new : Text) (e : Element) :
    swapElement old new e = if e = .var old then .var new else e := by
  cases e with
  | var name =>
    by_cases h : name = old
    · simp [swapElement, swapName, h]
    · simp [swapElement, swapName, h]
  | _ => rfl

theorem swapElement_eq_var {old new v : Text} {e : Element} :
    swapElement old new e = .var v ↔ e = .var old ∧ v = new ∨ e = .var v ∧ v ≠ old := by
  rw [swapElement_eq_ite]
  by_cases h : e = .var old
  · subst e
    rw [if_pos rfl, Element.var.injEq]
    constructor
    · intro hv
      exact .inl ⟨rfl, hv.symm⟩
    · rintro (⟨-, hv⟩ | ⟨hv, hne⟩)
      · exact hv.symm
      · exact absurd (Element.var.inj hv).symm hne
  · rw [if_neg h]
    constructor
    · rintro rfl
      exact .inr ⟨rfl, fun hv => h (congrArg Element.var hv)⟩
    · rintro (⟨hold, -⟩ | ⟨hv, -⟩)
      · exact absurd hold h
      · exact hv

theorem swapElement_of_not_mem {old : Text} {es : List Element} (h : .var old ∉ es) (new : Text) :
    ∀ e ∈ es, swapElement old new e = e := by
  intro e he
  rw [swapElement_eq_ite, if_neg]
  rintro rfl
  exact h he

def renamedLeaf (old new : Text) (leaf : Plan) : Plan :=
  leaf.mapLeaf (swapElement old new) (swapName old new)

theorem IsLeaf.renamedLeaf {p : Plan} (h : p.IsLeaf) (old new : Text) :
    (renamedLeaf old new p).IsLeaf :=
  h.mapLeaf _ _

/-- The plan with one variable in place of another in its leaves. The variable stays where it
selects a graph, is bound, or stands in a term. -/
def renamed (old new : Text) (p : Plan) : Plan := p.mapLeaves (renamedLeaf old new)

theorem leafElements_renamedLeaf (old new : Text) (p : Plan) :
    (renamedLeaf old new p).leafElements = p.leafElements.map (swapElement old new) :=
  leafElements_mapLeaf (fun _ => rfl) p

theorem leafElements_renamed (old new : Text) (p : Plan) :
    (p.renamed old new).leafElements = p.leafElements.map (swapElement old new) := by
  have hleaf := leafElements_renamedLeaf old new p
  cases p with
  | constraint | is | closure | transitive | walk => exact hleaf
  | _ => rfl

theorem children_renamed (old new : Text) (p : Plan) :
    (p.renamed old new).children = p.children.map (renamed old new) := by
  rcases kind_cases p with rfl | rfl | ⟨kind, hkind⟩ | hinner
  · rfl
  · rfl
  · have hleaf : p.IsLeaf := isLeaf_iff.2 ⟨kind, hkind⟩
    obtain ⟨kind', hkind'⟩ := isLeaf_iff.1 (hleaf.renamedLeaf old new)
    rw [renamed, mapLeaves_of_leafKind? hkind, children_of_leafKind? hkind,
      children_of_leafKind? hkind']
    rfl
  · exact children_mapLeaves hinner _

theorem renamedLeaf_eq_self_iff {old new : Text} {p : Plan} :
    renamedLeaf old new p = p ↔ old = new ∨ .var old ∉ p.leafElements := by
  constructor
  · intro h
    by_cases hold : .var old ∈ p.leafElements
    · left
      have hmem : .var old ∈ p.leafElements.map (swapElement old new) := by
        rw [← leafElements_renamedLeaf, h]
        exact hold
      obtain ⟨e, -, he⟩ := List.mem_map.1 hmem
      rcases swapElement_eq_var.1 he with ⟨-, hnew⟩ | ⟨-, hne⟩
      · exact hnew
      · exact absurd rfl hne
    · exact .inr hold
  · intro h
    apply mapLeaf_eq_self fun _ => rfl
    rcases h with rfl | h
    · intro e _
      rw [swapElement_eq_ite]
      split
      · exact Eq.symm (by assumption)
      · rfl
    · exact swapElement_of_not_mem h new

def LeavesHave (p : Plan) (v : Text) : Prop :=
  ∃ l, p.Contains l ∧ l.IsLeaf ∧ .var v ∈ l.leafElements

theorem renamed_eq_self_iff {old new : Text} {p : Plan} :
    p.renamed old new = p ↔ old = new ∨ ¬ p.LeavesHave old := by
  rw [renamed, mapLeaves_eq_self_iff]
  constructor
  · intro h
    by_cases heq : old = new
    · exact .inl heq
    · right
      rintro ⟨l, hl, hleaf, hold⟩
      rcases renamedLeaf_eq_self_iff.1 (h l hl hleaf) with hnew | hnot
      · exact heq hnew
      · exact hnot hold
  · intro h l hl hleaf
    apply renamedLeaf_eq_self_iff.2
    rcases h with h | h
    · exact .inl h
    · exact .inr fun hold => h ⟨l, hl, hleaf, hold⟩

section Handlers
variable (old new : Text)

theorem swap_eq (e : Element) :
    swap old new e = (swapElement old new e, decide (.var old = e)) := by
  cases e with
  | var name =>
    by_cases h : name = old
    · simp [swap, swapElement, swapName, h]
    · simp [swap, swapElement, swapName, h, Ne.symm h]
  | _ => rfl

theorem swapGraph_eq (graph : Option Element) :
    swapGraph old new graph =
      (graph.map (swapElement old new), decide (.var old ∈ graph.toList)) := by
  cases graph with
  | none => rfl
  | some g => simp [swapGraph, swap_eq]

theorem ite_none_eq {α : Type} {unchanged : Bool} {P : Prop} [Decidable P] {a : Option α}
    (h : unchanged = true ↔ ¬ P) : (if unchanged then none else a) = if P then a else none := by
  by_cases hP : P
  · rw [if_pos hP, if_neg fun hunchanged => h.1 hunchanged hP]
  · rw [if_neg hP, if_pos (h.2 hP)]

/-- The flags of the four positions tell together whether the variable occurs. -/
theorem renameConstraint_eq (c : Constraint) :
    renameConstraint old new c =
      if .var old ∈ c.elements then some (c.map (swapElement old new)) else none := by
  simp only [renameConstraint, swap_eq, swapGraph_eq]
  apply ite_none_eq
  simp [Constraint.elements, and_assoc]

theorem renameConstraint_getD (c : Constraint) :
    (renameConstraint old new c).getD c = c.map (swapElement old new) := by
  rw [renameConstraint_eq]
  split
  · rfl
  · rename_i h
    exact (Constraint.map_eq_self (swapElement_of_not_mem h new)).symm

theorem isNone_renameConstraint (c : Constraint) :
    (renameConstraint old new c).isNone = decide (.var old ∉ c.elements) := by
  rw [renameConstraint_eq]
  split <;> simp_all

theorem renameLeaf_eq (leaf : Plan) :
    renameLeaf old new leaf =
      if .var old ∈ leaf.leafElements then some (renamedLeaf old new leaf) else none := by
  cases leaf with
  | constraint c | closure c zero =>
    rw [renameLeaf, renameConstraint_eq, apply_ite (Option.map _)]
    rfl
  | is var value graph =>
    have hvar : (if var = old then (new, true) else (var, false)) =
        (swapName old new var, decide (old = var)) := by
      rw [swapName]
      split <;> simp_all [eq_comm]
    simp only [renameLeaf, hvar, swap_eq, swapGraph_eq]
    apply ite_none_eq
    simp [leafElements, and_assoc]
  | transitive step first last zero =>
    simp only [renameLeaf, swap_eq, isNone_renameConstraint, renameConstraint_getD]
    apply ite_none_eq
    simp [leafElements, and_assoc]
  | walk start step =>
    simp only [renameLeaf, swap_eq, isNone_renameConstraint, renameConstraint_getD]
    apply ite_none_eq
    simp [leafElements, and_comm]
  | _ => rfl

end Handlers

section Rename
variable {old new : Text}

theorem answer?_renameLeaf {l : Plan} (hl : l.IsLeaf) (path : List Nat) :
    Rules.answer? (fun _ => some fun _ leaf => .ok (renameLeaf old new leaf)) path l =
      some (.ok (renameLeaf old new l)) := by
  obtain ⟨kind, hkind⟩ := isLeaf_iff.1 hl
  rw [Rules.answer?, hkind]
  rfl

theorem exists_rename_eq_ok {p : Plan} (h : ¬ p.Contains .missing) (old new : Text) :
    ∃ r, p.rename old new = .ok r := by
  apply exists_transform_eq_ok.2
  intro path q hq
  refine ⟨?_, fun hleaf => ⟨_, answer?_renameLeaf hleaf path⟩⟩
  rintro rfl
  exact h ⟨path, hq⟩

theorem plan_rename {p : Plan} {r : Revision} (h : p.rename old new = .ok r) :
    r.plan = p.renamed old new := by
  rw [plan_transform h]
  apply mapLeavesAt_eq_iff.2
  intro path l _ hl
  rw [Rules.image, answer?_renameLeaf hl, renameLeaf_eq]
  by_cases hold : .var old ∈ l.leafElements
  · rw [if_pos hold]
  · rw [if_neg hold]
    exact (renamedLeaf_eq_self_iff.2 (.inr hold)).symm

end Rename

section Simplify
variable {f : Plan → Plan} (hf : ∀ l, l.IsLeaf → (f l).IsLeaf)
include hf

theorem IsSealed.mapLeaves {p : Plan} (h : p.IsSealed) : (p.mapLeaves f).IsSealed := by
  cases p with
  | filtered | optional | conj | disj | minus => exact h.elim
  | constraint | is | closure | transitive | walk =>
    apply IsLeaf.isSealed
    apply hf
    rfl
  | _ => trivial

theorem mapLeaves_eq_filtered {p body : Plan} {c : Term} (h : p.mapLeaves f = filtered body c) :
    ∃ inner, p = filtered inner c ∧ body = inner.mapLeaves f := by
  by_cases hp : p.IsSealed
  · have hsealed := IsSealed.mapLeaves hf hp
    rw [h] at hsealed
    exact hsealed.elim
  · cases p with
    | filtered inner d =>
      cases h
      exact ⟨inner, rfl, rfl⟩
    | conj | disj | minus | optional => cases h
    | _ => exact (hp trivial).elim

theorem mapLeaves_eq_optional {p main extra : Plan} {c : Term}
    (h : p.mapLeaves f = optional main extra c) :
    ∃ m e, p = optional m e c ∧ main = m.mapLeaves f ∧ extra = e.mapLeaves f := by
  by_cases hp : p.IsSealed
  · have hsealed := IsSealed.mapLeaves hf hp
    rw [h] at hsealed
    exact hsealed.elim
  · cases p with
    | optional m e d =>
      cases h
      exact ⟨m, e, rfl, rfl, rfl⟩
    | conj | disj | minus | filtered => cases h
    | _ => exact (hp trivial).elim

variable {r s : Revision} (h : s.plan = r.plan.mapLeaves f) (condition : Term)
include h

theorem mapLeaves_simplifyFiltered :
    (simplifyFiltered s condition).plan = (simplifyFiltered r condition).plan.mapLeaves f := by
  unfold simplifyFiltered
  split
  · rename_i body c hs
    obtain ⟨inner, hr, hbody⟩ := mapLeaves_eq_filtered hf (h.symm.trans hs)
    rw [hr, hbody]
    rfl
  · rename_i hs
    split
    · rename_i body c hr
      rw [h, hr] at hs
      exact (hs _ _ rfl).elim
    · rw [wrapped, h]
      rfl

theorem mapLeaves_liftFilter :
    (liftFilter s condition).1.plan = (liftFilter r condition).1.plan.mapLeaves f ∧
      (liftFilter s condition).2 = (liftFilter r condition).2 := by
  unfold liftFilter
  split
  · rename_i body c hs
    obtain ⟨inner, hr, hbody⟩ := mapLeaves_eq_filtered hf (h.symm.trans hs)
    rw [hr, hbody]
    exact ⟨rfl, rfl⟩
  · rename_i hs
    split
    · rename_i body c hr
      rw [h, hr] at hs
      exact (hs _ _ rfl).elim
    · exact ⟨h, rfl⟩

theorem mapLeaves_liftJoin :
    (liftJoin s condition).1.plan = (liftJoin r condition).1.plan.mapLeaves f ∧
      (liftJoin s condition).2 = (liftJoin r condition).2 := by
  unfold liftJoin
  split
  · rename_i main extra c hs
    obtain ⟨m, e, hr, hm, he⟩ := mapLeaves_eq_optional hf (h.symm.trans hs)
    rw [hr, hm, he]
    dsimp only
    split
    · exact ⟨h, rfl⟩
    · exact ⟨rfl, rfl⟩
  · rename_i hs
    split
    · rename_i main extra c hr
      rw [h, hr] at hs
      exact (hs _ _ _ rfl).elim
    · exact ⟨h, rfl⟩

theorem mapLeaves_liftConditions :
    (liftConditions s condition).1.plan = (liftConditions r condition).1.plan.mapLeaves f ∧
      (liftConditions s condition).2 = (liftConditions r condition).2 := by
  obtain ⟨hplan, hterm⟩ := mapLeaves_liftFilter hf h condition
  rw [liftConditions, liftConditions, hterm]
  exact mapLeaves_liftJoin hf hplan _

omit h in
/-- Replacing leaves by leaves commutes with simplification. -/
theorem simplify_mapLeaves (p : Plan) :
    (p.mapLeaves f).simplify.plan = p.simplify.plan.mapLeaves f := by
  induction p using spineInduction with
  | filtered body condition ih => exact mapLeaves_simplifyFiltered hf ih condition
  | optional main extra condition ihm ihe =>
    obtain ⟨hplan, hterm⟩ := mapLeaves_liftConditions hf ihe condition
    rw [mapLeaves_optional, simplify, simplify, simplifyOptional_eq, simplifyOptional_eq, overBoth,
      overBoth, ihm, hplan, hterm]
    rfl
  | conj operands ih =>
    simp only [mapLeaves_conj, simplify_conj, List.map_map]
    exact congrArg conj (List.map_congr_left ih)
  | disj operands ih =>
    simp only [mapLeaves_disj, simplify_disj, List.map_map]
    exact congrArg disj (List.map_congr_left ih)
  | minus left right ihl ihr => simp only [mapLeaves_minus, simplify_minus, overBoth, ihl, ihr]
  | closed p hp =>
    rw [simplify_of_isSealed hp, simplify_of_isSealed (IsSealed.mapLeaves hf hp)]
    rfl

end Simplify

theorem simplify_renamed (old new : Text) (p : Plan) :
    (p.renamed old new).simplify.plan = p.simplify.plan.renamed old new :=
  simplify_mapLeaves (fun _ hl => hl.renamedLeaf old new) p

end Plan

end GraphQuery
