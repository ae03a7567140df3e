import GraphQuery.Plan.Simplify
import GraphQuery.Proofs.Plan.Copies
import Mathlib.Logic.Relation

namespace GraphQuery

theorem Sharing.isKept_rebuiltPair (s : Sharing) : s.rebuiltPair.isKept = false := by
  cases s <;> rfl

namespace Plan

/-- The plans that simplification takes as they are. -/
def IsSealed : Plan → Prop
  | filtered .. | optional .. | conj _ | disj _ | minus .. => False
  | _ => True

def parts : Plan → List Plan
  | filtered body _ => [body]
  | optional main extra _ => [main, extra]
  | conj operands | disj operands => operands
  | minus left right => [left, right]
  | _ => []

def Reaches : Plan → Plan → Prop := Relation.ReflTransGen fun p q => q ∈ p.parts

theorem Reaches.refl (p : Plan) : p.Reaches p := Relation.ReflTransGen.refl

theorem Reaches.head {p q r : Plan} (h : q ∈ p.parts) (hr : q.Reaches r) : p.Reaches r :=
  Relation.ReflTransGen.head h hr

theorem reaches_iff {p r : Plan} : p.Reaches r ↔ p = r ∨ ∃ q ∈ p.parts, q.Reaches r := by
  constructor
  · intro h
    rcases Relation.ReflTransGen.cases_head h with he | ⟨q, hq, hr⟩
    · exact .inl he
    · exact .inr ⟨q, hq, hr⟩
  · rintro (rfl | ⟨q, hq, hr⟩)
    · exact .refl p
    · exact .head hq hr

theorem parts_of_isSealed {p : Plan} (h : p.IsSealed) : p.parts = [] := by
  cases p <;> first | rfl | exact h.elim

theorem spineInduction {motive : Plan → Prop}
    (filtered : ∀ body condition, motive body → motive (filtered body condition))
    (optional : ∀ main extra condition, motive main → motive extra →
      motive (optional main extra condition))
    (conj : ∀ operands, (∀ p ∈ operands, motive p) → motive (conj operands))
    (disj : ∀ operands, (∀ p ∈ operands, motive p) → motive (disj operands))
    (minus : ∀ left right, motive left → motive right → motive (minus left right))
    (closed : ∀ p, p.IsSealed → motive p) (p : Plan) : motive p := by
  induction p using Plan.rec (motive_2 := fun ps => ∀ p ∈ ps, motive p) with
  | filtered body condition ih => exact filtered _ _ ih
  | optional main extra condition ihm ihe => exact optional _ _ _ ihm ihe
  | conj operands ih => exact conj _ ih
  | disj operands ih => exact disj _ ih
  | minus left right ihl ihr => exact minus _ _ ihl ihr
  | nil => rename_i p hp; cases hp
  | cons p ps ihp ihps =>
    rename_i q hq
    rcases List.mem_cons.1 hq with rfl | hq
    · exact ihp
    · exact ihps q hq
  | _ => exact closed _ trivial

theorem partsInduction {motive : Plan → Prop}
    (step : ∀ p, (∀ q ∈ p.parts, motive q) → motive p) (p : Plan) : motive p := by
  induction p using spineInduction with
  | filtered body condition ih => exact step _ (by simpa [parts] using ih)
  | optional main extra condition ihm ihe => exact step _ (by simpa [parts] using ⟨ihm, ihe⟩)
  | conj operands ih => exact step _ ih
  | disj operands ih => exact step _ ih
  | minus left right ihl ihr => exact step _ (by simpa [parts] using ⟨ihl, ihr⟩)
  | closed p hp => exact step p (by simp [parts_of_isSealed hp])

theorem simplify_of_isSealed {p : Plan} (h : p.IsSealed) : p.simplify = .keep p := by
  cases p <;> first | rfl | exact h.elim

def liftConditions (extra : Revision) (condition : Term) : Revision × Term :=
  liftJoin (liftFilter extra condition).1 (liftFilter extra condition).2

theorem simplifyOptional_eq (main extra : Revision) (condition : Term) :
    simplifyOptional main extra condition =
      overBoth (optional · · (liftConditions extra condition).2) main
        (liftConditions extra condition).1 := rfl

section Kept
variable {r : Revision} {condition : Term}

theorem liftFilter_of_isKept (h : (liftFilter r condition).1.sharing.isKept = true) :
    liftFilter r condition = (r, condition) := by
  rw [liftFilter] at h ⊢
  split at h
  · cases h
  · rfl

theorem liftJoin_of_isKept (h : (liftJoin r condition).1.sharing.isKept = true) :
    liftJoin r condition = (r, condition) := by
  rw [liftJoin] at h ⊢
  split at h
  · split at h
    · rw [if_pos (by assumption)]
    · rw [Sharing.isKept_rebuiltPair] at h
      cases h
  · rfl

theorem liftConditions_of_isKept (h : (liftConditions r condition).1.sharing.isKept = true) :
    liftConditions r condition = (r, condition) := by
  have hjoin := liftJoin_of_isKept h
  rw [liftConditions, hjoin] at h ⊢
  rw [liftFilter_of_isKept h]

theorem isKept_overBoth {build : Plan → Plan → Plan} {r s : Revision}
    (h : (overBoth build r s).sharing.isKept = true) :
    r.sharing.isKept = true ∧ s.sharing.isKept = true := by
  have hparts := Sharing.isKept_ofParts.1 h
  exact ⟨hparts _ (by simp), hparts _ (by simp)⟩

theorem simplifyFiltered_of_isKept (h : (simplifyFiltered r condition).sharing.isKept = true) :
    (∀ inner c, r.plan ≠ filtered inner c) ∧ r.sharing.isKept = true ∧
      (simplifyFiltered r condition).plan = filtered r.plan condition := by
  rw [simplifyFiltered] at h ⊢
  split at h
  · cases h
  · rename_i hplan
    have hparts := Sharing.isKept_ofParts.1 h
    exact ⟨hplan, hparts _ (List.mem_singleton_self _), rfl⟩

end Kept

theorem simplify_tells (p : Plan) : Revision.Tells p p.simplify := by
  induction p using spineInduction with
  | filtered body condition ih =>
    intro h
    obtain ⟨-, hbody, hplan⟩ := simplifyFiltered_of_isKept h
    exact hplan.trans (by rw [ih hbody])
  | optional main extra condition ihm ihe =>
    rw [simplify, simplifyOptional_eq]
    intro h
    obtain ⟨hm, hl⟩ := isKept_overBoth h
    have hlift := liftConditions_of_isKept hl
    rw [hlift] at hl ⊢
    rw [overBoth, ihm hm, ihe hl]
  | conj operands => exact Revision.tells_overAll _ _
  | disj operands => exact Revision.tells_overAll _ _
  | minus left right => exact Revision.tells_overAll _ _
  | closed p hp =>
    rw [simplify_of_isSealed hp]
    exact Revision.tells_keep p

theorem forall₂_tells_simplify (ps : List Plan) :
    List.Forall₂ Revision.Tells ps (ps.map simplify) := by
  rw [List.forall₂_map_right_iff, List.forall₂_same]
  exact fun p _ => simplify_tells p

theorem simplifyAll_copyOf {seen : List Plan} {rs : List Revision}
    (h : List.Forall₂ Revision.Tells seen rs) (ps : List Plan) :
    simplifyAll seen (Revision.copyOf rs) ps = Revision.copyOf (rs ++ ps.map simplify) := by
  induction ps generalizing seen rs with
  | nil => rw [simplifyAll, List.map_nil, List.append_nil]
  | cons p ps ih =>
    have hnext : List.Forall₂ Revision.Tells (seen ++ [p]) (rs ++ [p.simplify]) :=
      List.rel_append h (.cons (simplify_tells p) .nil)
    rw [simplifyAll, Revision.copied_copyOf h, ih hnext, List.append_assoc]
    rfl

/-- Going through the operands once and copying late comes to simplifying each of them. -/
theorem simplifyAll_eq (ps : List Plan) :
    simplifyAll [] none ps = Revision.copyOf (ps.map simplify) :=
  simplifyAll_copyOf .nil ps

theorem simplify_conj (ps : List Plan) :
    (conj ps).simplify =
      ⟨conj (ps.map (·.simplify.plan)), .ofParts (ps.map (·.simplify.sharing))⟩ := by
  have htells : List.Forall₂ Revision.Tells (conj ps).children (ps.map simplify) :=
    forall₂_tells_simplify ps
  rw [simplify, simplifyAll_eq, Revision.overAll_copyOf htells, List.map_map, List.map_map]
  rfl

theorem simplify_disj (ps : List Plan) :
    (disj ps).simplify =
      ⟨disj (ps.map (·.simplify.plan)), .ofParts (ps.map (·.simplify.sharing))⟩ := by
  have htells : List.Forall₂ Revision.Tells (disj ps).children (ps.map simplify) :=
    forall₂_tells_simplify ps
  rw [simplify, simplifyAll_eq, Revision.overAll_copyOf htells, List.map_map, List.map_map]
  rfl

theorem simplify_minus (left right : Plan) :
    (minus left right).simplify = overBoth minus left.simplify right.simplify :=
  Revision.overTwo_eq rfl (simplify_tells left) (simplify_tells right)

theorem simplify_any (ps : List Plan) :
    (any ps).simplify.plan = any (ps.map (·.simplify.plan)) := by
  match ps with
  | [] => rfl
  | [p] => rfl
  | p :: q :: rest => exact congrArg Revision.plan (simplify_disj (p :: q :: rest))

theorem simplify_conj_pair (p q : Plan) :
    (conj [p, q]).simplify.plan = conj [p.simplify.plan, q.simplify.plan] :=
  congrArg Revision.plan (simplify_conj [p, q])

end Plan

end GraphQuery
