import GraphQuery.Plan.OfPattern
import GraphQuery.Proofs.Query.Nodes

namespace GraphQuery

namespace Expression

def IsVar (e : Expression) : Prop := ∃ name, e = .var name

def IsIri (e : Expression) : Prop := ∃ value, e = .iri value

def IsLiteral : Expression → Prop
  | literal .. | int _ | decimal _ | double _ | bool _ => True
  | _ => False

def IsElement (e : Expression) : Prop :=
  e.IsVar ∨ (∃ label, e = .blank label) ∨ e.IsIri ∨ e.IsLiteral

def IsCondition (e : Expression) : Prop := ∃ t, e.toTerm = .ok t ∧ .filter ∈ t.facets

theorem exists_toCondition_eq_ok {e : Expression} :
    (∃ t, e.toCondition = .ok t) ↔ e.IsCondition := by
  rw [toCondition, IsCondition]
  cases e.toTerm with
  | error fault => simp
  | ok t => by_cases h : .filter ∈ t.facets <;> simp [h]

theorem exists_ofExpression_eq_ok {e : Expression} :
    (∃ x, Element.ofExpression e = .ok x) ↔ e.IsElement := by
  cases e <;> simp [Element.ofExpression, IsElement, IsVar, IsIri, IsLiteral]

theorem exists_ofSelector_eq_ok {e : Expression} :
    (∃ x, Element.ofSelector e = .ok x) ↔ e.IsVar ∨ e.IsIri := by
  cases e <;> simp [Element.ofSelector, IsVar, IsIri]

theorem exists_objects_eq_ok {e : Expression} :
    (∃ xs, Plan.objects e = .ok xs) ↔ e.IsElement := by
  rw [← exists_ofExpression_eq_ok, Plan.objects.eq_def]
  split
  · exact ⟨fun _ => ⟨_, rfl⟩, fun _ => ⟨_, rfl⟩⟩
  · simp only [map_eq_ok]
    grind

end Expression

structure Modifiers.IsMappable (m : Modifiers) : Prop where
  filter : ∀ e, m.filter = some e → e.IsCondition
  graph : ∀ e, m.graph = some e → e.IsVar ∨ e.IsIri

namespace Mapped

theorem exists_filter_eq_ok {m : Mapped} {e? : Option Expression} :
    (∃ n, m.filter e? = .ok n) ↔ ∀ e, e? = some e → e.IsCondition := by
  cases e? with
  | none => exact ⟨fun _ => nofun, fun _ => ⟨m, rfl⟩⟩
  | some e =>
    simp only [filter, map_eq_ok, Option.some.injEq, forall_eq']
    rw [← Expression.exists_toCondition_eq_ok]
    grind

theorem exists_select_eq_ok {m : Mapped} {e? : Option Expression} :
    (∃ n, m.select e? = .ok n) ↔ ∀ e, e? = some e → e.IsVar ∨ e.IsIri := by
  cases e? with
  | none => exact ⟨fun _ => nofun, fun _ => ⟨m, rfl⟩⟩
  | some e =>
    simp only [select, map_eq_ok, Option.some.injEq, forall_eq']
    rw [← Expression.exists_ofSelector_eq_ok]
    grind

theorem exists_modify_eq_ok {m : Mapped} {modifiers : Modifiers} :
    (∃ n, m.modify modifiers = .ok n) ↔ modifiers.IsMappable := by
  have hbind : m.modify modifiers = m.filter modifiers.filter >>= (·.select modifiers.graph) := by
    rw [modify]
    cases m.filter modifiers.filter <;> rfl
  rw [hbind, exists_bind_eq_ok fun _ _ => exists_select_eq_ok, exists_filter_eq_ok]
  exact ⟨fun h => ⟨h.1, h.2⟩, fun h => ⟨h.filter, h.graph⟩⟩

end Mapped

namespace TriplePattern

structure IsMappable (t : TriplePattern) : Prop where
  elements : ∀ e ∈ [t.subject, t.predicate, t.object], e.IsElement
  modifiers : t.modifiers.IsMappable

theorem exists_toPlan_eq_ok {t : TriplePattern} : (∃ m, t.toPlan = .ok m) ↔ t.IsMappable := by
  have htriple : (∃ p, Plan.ofTriple t = .ok p) ↔
      ∀ e ∈ [t.subject, t.predicate, t.object], e.IsElement := by
    rw [Plan.ofTriple, exists_bind_eq_ok fun _ _ => exists_bind_eq_ok fun _ _ =>
      exists_bind_eq_ok (Q := True) fun _ _ => ⟨fun _ => trivial, fun _ => ⟨_, rfl⟩⟩]
    simp only [Expression.exists_ofExpression_eq_ok, Expression.exists_objects_eq_ok]
    simp
  have hbind : t.toPlan = Plan.ofTriple t >>= fun p => Mapped.modify t.modifiers ⟨p, []⟩ := by
    rw [toPlan]
    cases Plan.ofTriple t <;> rfl
  rw [hbind, exists_bind_eq_ok fun _ _ => Mapped.exists_modify_eq_ok, htriple]
  exact ⟨fun h => ⟨h.1, h.2⟩, fun h => ⟨h.elements, h.modifiers⟩⟩

theorem toPlans_eq_mapM (ts : List TriplePattern) : toPlans ts = ts.mapM toPlan := by
  induction ts with
  | nil => rfl
  | cons t ts ih =>
    rw [toPlans, List.mapM_cons, ih]
    cases t.toPlan <;> rfl

end TriplePattern

namespace Pattern

/-- What a pattern asks for, apart from its parts. -/
def IsMappableHere : Pattern → Prop
  | triple t => t.IsMappable
  | bind _ _ value m => (∃ t, value.toTerm = .ok t) ∧ m.IsMappable
  | p => p.modifiers.IsMappable

/-- Nothing that stands in the pattern keeps it from having a plan. -/
def IsMappable (p : Pattern) : Prop := ∀ q ∈ p.nodes, q.IsMappableHere

theorem toPlans_eq_mapM (skip : Bool) (ps : List Pattern) :
    toPlans skip ps = (ps.filter fun p => !(skip && p.isEmpty)).mapM toPlan := by
  induction ps with
  | nil => rfl
  | cons p ps ih =>
    rw [toPlans, List.filter_cons, ih]
    cases skip && p.isEmpty with
    | true => rfl
    | false =>
      rw [if_neg nofun, Bool.not_false, if_pos rfl, List.mapM_cons]
      cases p.toPlan <;> rfl

theorem exists_toPlans_eq_ok {skip : Bool} {ps : List Pattern} :
    (∃ ms, toPlans skip ps = .ok ms) ↔ ∀ p ∈ ps, ∃ m, p.toPlan = .ok m := by
  rw [toPlans_eq_mapM, exists_mapM_eq_ok]
  constructor
  · intro h p hp
    by_cases hempty : p.isEmpty = true
    · rw [isEmpty_iff.1 hempty]
      exact ⟨_, rfl⟩
    · exact h p (List.mem_filter.2 ⟨hp, by simp [hempty]⟩)
  · intro h p hp
    exact h p (List.mem_of_mem_filter hp)

theorem exists_toPlan_iff {p : Pattern} (hp : p ≠ .missing) :
    (∃ m, p.toPlan = .ok m) ↔ p.IsMappableHere ∧ ∀ c ∈ p.children, ∃ m, c.toPlan = .ok m := by
  cases p with
  | missing => exact absurd rfl hp
  | empty m =>
    rw [toPlan, Mapped.exists_modify_eq_ok]
    exact ⟨fun h => ⟨h, List.forall_mem_nil _⟩, And.left⟩
  | group ps m =>
    have hbind : toPlan (.group ps m) =
        toPlans true ps >>= fun ms => (Mapped.combine .all ms).modify m := by
      rw [toPlan]
      cases toPlans true ps <;> rfl
    rw [hbind, exists_bind_eq_ok fun _ _ => Mapped.exists_modify_eq_ok, exists_toPlans_eq_ok]
    exact and_comm
  | union ps m =>
    have hbind : toPlan (.union ps m) =
        toPlans false ps >>= fun ms => (Mapped.combine .any ms).modify m := by
      rw [toPlan]
      cases toPlans false ps <;> rfl
    rw [hbind, exists_bind_eq_ok fun _ _ => Mapped.exists_modify_eq_ok, exists_toPlans_eq_ok]
    exact and_comm
  | optional main extra m =>
    have hbind : toPlan (.optional main extra m) = main.toPlan >>= fun a => extra.toPlan >>=
        fun b => Mapped.modify m ⟨a.plan.join b.plan, a.selectors ++ b.selectors⟩ := by
      rw [toPlan]
      cases main.toPlan with
      | error e => rfl
      | ok a => cases extra.toPlan <;> rfl
    rw [hbind, exists_bind_eq_ok fun _ _ => exists_bind_eq_ok fun _ _ =>
      Mapped.exists_modify_eq_ok]
    simp only [children, List.forall_mem_cons]
    constructor
    · rintro ⟨ha, hb, hm⟩
      exact ⟨hm, ha, hb, List.forall_mem_nil _⟩
    · rintro ⟨hm, ha, hb, -⟩
      exact ⟨ha, hb, hm⟩
  | triple t =>
    rw [toPlan, TriplePattern.exists_toPlan_eq_ok]
    exact ⟨fun h => ⟨h, List.forall_mem_nil _⟩, And.left⟩
  | triples ts m =>
    have hbind : toPlan (.triples ts m) =
        ts.mapM TriplePattern.toPlan >>= fun ms => (Mapped.combine .all ms).modify m := by
      rw [toPlan, TriplePattern.toPlans_eq_mapM]
      cases ts.mapM TriplePattern.toPlan <;> rfl
    rw [hbind, exists_bind_eq_ok fun _ _ => Mapped.exists_modify_eq_ok, exists_mapM_eq_ok]
    simp only [children, List.forall_mem_map]
    exact and_comm
  | bind main var value m =>
    have hbind : toPlan (.bind main var value m) = main.toPlan >>= fun a => value.toTerm >>=
        fun t => Mapped.modify m ⟨.bind a.plan var t, a.selectors⟩ := by
      rw [toPlan]
      cases main.toPlan with
      | error e => rfl
      | ok a => cases value.toTerm <;> rfl
    rw [hbind, exists_bind_eq_ok fun _ _ => exists_bind_eq_ok fun _ _ =>
      Mapped.exists_modify_eq_ok]
    simp only [children, List.forall_mem_cons]
    constructor
    · rintro ⟨ha, ht, hm⟩
      exact ⟨⟨ht, hm⟩, ha, List.forall_mem_nil _⟩
    · rintro ⟨⟨ht, hm⟩, ha, -⟩
      exact ⟨ha, ht, hm⟩

/-- A pattern in which none is missing has a plan exactly when nothing in it stands against it. -/
theorem exists_toPlan_eq_ok {p : Pattern} (hp : ∀ q ∈ p.nodes, q ≠ .missing) :
    (∃ m, p.toPlan = .ok m) ↔ p.IsMappable := by
  induction p using childInduction with
  | step p ih =>
    obtain ⟨hp, hchildren⟩ := forall_mem_nodes.1 hp
    rw [exists_toPlan_iff hp, IsMappable, forall_mem_nodes]
    exact and_congr_right fun _ => forall₂_congr fun c hc => ih c hc (hchildren c hc)

end Pattern

end GraphQuery
