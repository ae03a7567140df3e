import GraphQuery.Proofs.Plan.Spine

namespace GraphQuery.Plan

/-- The shapes that simplification rewrites. -/
inductive Redex : Plan → Prop
  | filters (body : Plan) (c d : Term) : Redex (filtered (filtered body c) d)
  | optionalFilter (main body : Plan) (c d : Term) : Redex (optional main (filtered body c) d)
  | optionalJoin (main inner extra : Plan) (c d : Term) (h : c.isTrue = false) :
    Redex (optional main (optional inner extra c) d)

def IsNormal (p : Plan) : Prop := ∀ q, p.Reaches q → ¬ q.Redex

theorem isNormal_iff {p : Plan} : p.IsNormal ↔ ¬ p.Redex ∧ ∀ q ∈ p.parts, q.IsNormal := by
  constructor
  · intro h
    exact ⟨h p (.refl p), fun q hq r hr => h r (.head hq hr)⟩
  · rintro ⟨hp, hparts⟩ r hr
    rcases reaches_iff.1 hr with rfl | ⟨q, hq, hr⟩
    · exact hp
    · exact hparts q hq r hr

def IsFiltered : Plan → Prop
  | filtered .. => True
  | _ => False

theorem not_isFiltered {p : Plan} (h : ∀ body c, p = filtered body c → False) :
    ¬ p.IsFiltered := by
  intro hf
  cases p with
  | filtered body c => exact h body c rfl
  | _ => exact hf

/-- The plan, as the optional side of a join, leaves no condition to take over. -/
def IsBare : Plan → Prop
  | filtered .. => False
  | optional _ _ condition => condition.isTrue = true
  | _ => True

theorem redex_filtered_iff {body : Plan} {c : Term} :
    (filtered body c).Redex ↔ body.IsFiltered := by
  constructor
  · intro h
    cases h with
    | filters => trivial
  · intro h
    cases body with
    | filtered body d => exact .filters ..
    | _ => exact h.elim

theorem redex_optional_iff {main extra : Plan} {c : Term} :
    (optional main extra c).Redex ↔ ¬ extra.IsBare := by
  constructor
  · intro h
    cases h with
    | optionalFilter => exact id
    | optionalJoin _ _ _ _ _ hc => exact fun hb => Bool.noConfusion (hc.symm.trans hb)
  · intro h
    cases extra with
    | filtered => exact .optionalFilter ..
    | optional inner extra d => exact .optionalJoin _ _ _ _ _ (Bool.eq_false_iff.2 h)
    | _ => exact (h trivial).elim

theorem isNormal_filtered {body : Plan} {c : Term} :
    (filtered body c).IsNormal ↔ ¬ body.IsFiltered ∧ body.IsNormal := by
  rw [isNormal_iff, redex_filtered_iff]
  simp [parts]

theorem isNormal_optional {main extra : Plan} {c : Term} :
    (optional main extra c).IsNormal ↔ extra.IsBare ∧ main.IsNormal ∧ extra.IsNormal := by
  rw [isNormal_iff, redex_optional_iff, Classical.not_not]
  simp [parts]

theorem isNormal_conj {operands : List Plan} :
    (conj operands).IsNormal ↔ ∀ p ∈ operands, p.IsNormal := by
  rw [isNormal_iff]
  exact ⟨fun h => h.2, fun h => ⟨nofun, h⟩⟩

theorem isNormal_disj {operands : List Plan} :
    (disj operands).IsNormal ↔ ∀ p ∈ operands, p.IsNormal := by
  rw [isNormal_iff]
  exact ⟨fun h => h.2, fun h => ⟨nofun, h⟩⟩

theorem isNormal_minus {left right : Plan} :
    (minus left right).IsNormal ↔ left.IsNormal ∧ right.IsNormal := by
  rw [isNormal_iff]
  simp only [parts, List.mem_cons, List.not_mem_nil, or_false, forall_eq_or_imp, forall_eq]
  constructor
  · intro h
    exact h.2
  · intro h
    refine ⟨?_, h⟩
    intro hr
    cases hr

theorem IsSealed.isNormal {p : Plan} (h : p.IsSealed) : p.IsNormal := by
  rw [isNormal_iff, parts_of_isSealed h]
  refine ⟨fun hr => ?_, nofun⟩
  cases hr <;> exact h

theorem simplifyFiltered_isNormal {r : Revision} (h : r.plan.IsNormal) (condition : Term) :
    (simplifyFiltered r condition).plan.IsNormal := by
  rw [simplifyFiltered]
  split
  · rename_i body c he
    rw [he] at h
    exact isNormal_filtered.2 (isNormal_filtered.1 h)
  · rename_i hn
    exact isNormal_filtered.2 ⟨not_isFiltered hn, h⟩

theorem liftFilter_isNormal {r : Revision} (h : r.plan.IsNormal) (condition : Term) :
    ¬ (liftFilter r condition).1.plan.IsFiltered ∧ (liftFilter r condition).1.plan.IsNormal := by
  rw [liftFilter]
  split
  · rename_i body c he
    rw [he] at h
    exact isNormal_filtered.1 h
  · rename_i hn
    exact ⟨not_isFiltered hn, h⟩

theorem liftJoin_isNormal {r : Revision} (hf : ¬ r.plan.IsFiltered) (h : r.plan.IsNormal)
    (condition : Term) :
    (liftJoin r condition).1.plan.IsBare ∧ (liftJoin r condition).1.plan.IsNormal := by
  rw [liftJoin]
  split
  · rename_i main extra c he
    rw [he] at h
    split
    · rename_i hc
      exact ⟨by rw [he]; exact hc, by rw [he]; exact h⟩
    · exact ⟨rfl, isNormal_optional.2 (isNormal_optional.1 h)⟩
  · rename_i hn
    refine ⟨?_, h⟩
    cases hr : r.plan with
    | filtered body c => rw [hr] at hf; exact (hf trivial).elim
    | optional main extra c => exact (hn main extra c hr).elim
    | _ => trivial

theorem simplifyOptional_isNormal {main extra : Revision} (hm : main.plan.IsNormal)
    (he : extra.plan.IsNormal) (condition : Term) :
    (simplifyOptional main extra condition).plan.IsNormal := by
  obtain ⟨hf, hl⟩ := liftFilter_isNormal he condition
  obtain ⟨hb, hj⟩ := liftJoin_isNormal hf hl (liftFilter extra condition).2
  exact isNormal_optional.2 ⟨hb, hm, hj⟩

/-- One pass reaches a normal form. -/
theorem simplify_isNormal (p : Plan) : p.simplify.plan.IsNormal := by
  induction p using spineInduction with
  | filtered body condition ih => exact simplifyFiltered_isNormal ih condition
  | optional main extra condition ihm ihe => exact simplifyOptional_isNormal ihm ihe condition
  | conj operands ih =>
    rw [simplify_conj]
    refine isNormal_conj.2 fun q hq => ?_
    obtain ⟨p, hp, rfl⟩ := List.mem_map.1 hq
    exact ih p hp
  | disj operands ih =>
    rw [simplify_disj]
    refine isNormal_disj.2 fun q hq => ?_
    obtain ⟨p, hp, rfl⟩ := List.mem_map.1 hq
    exact ih p hp
  | minus left right ihl ihr =>
    rw [simplify_minus]
    exact isNormal_minus.2 ⟨ihl, ihr⟩
  | closed p hp =>
    rw [simplify_of_isSealed hp]
    exact hp.isNormal

theorem simplifyFiltered_keep {body : Plan} (h : ¬ body.IsFiltered) (condition : Term) :
    simplifyFiltered (.keep body) condition = .keep (filtered body condition) := by
  cases body with
  | filtered => exact (h trivial).elim
  | _ => rfl

theorem simplifyOptional_keep {extra : Plan} (h : extra.IsBare) (main : Plan) (condition : Term) :
    simplifyOptional (.keep main) (.keep extra) condition =
      .keep (optional main extra condition) := by
  cases extra with
  | filtered => exact h.elim
  | optional inner extra c =>
    have hc : c.isTrue = true := h
    simp [simplifyOptional, liftFilter, liftJoin, Revision.keep, hc, overBoth, Sharing.ofParts,
      Sharing.isKept]
  | _ => rfl

theorem simplifyAll_eq_none {ps : List Plan} (h : ∀ p ∈ ps, p.simplify = .keep p) :
    simplifyAll [] none ps = none := by
  rw [simplifyAll_eq, List.map_congr_left h, Revision.copyOf, if_pos]
  exact List.forall_mem_map.2 fun _ _ => rfl

theorem IsNormal.simplify_eq_keep {p : Plan} (h : p.IsNormal) : p.simplify = .keep p := by
  induction p using spineInduction with
  | filtered body condition ih =>
    obtain ⟨hf, hb⟩ := isNormal_filtered.1 h
    rw [simplify, ih hb, simplifyFiltered_keep hf]
  | optional main extra condition ihm ihe =>
    obtain ⟨hb, hm, he⟩ := isNormal_optional.1 h
    rw [simplify, ihm hm, ihe he, simplifyOptional_keep hb]
  | conj operands ih =>
    have hkept := fun p hp => ih p hp (isNormal_conj.1 h p hp)
    rw [simplify, simplifyAll_eq_none hkept]
    rfl
  | disj operands ih =>
    have hkept := fun p hp => ih p hp (isNormal_disj.1 h p hp)
    rw [simplify, simplifyAll_eq_none hkept]
    rfl
  | minus left right ihl ihr =>
    obtain ⟨hl, hr⟩ := isNormal_minus.1 h
    rw [simplify, ihl hl, ihr hr]
    rfl
  | closed p hp => exact simplify_of_isSealed hp

/-- The result of simplification is in normal form, and simplifying it again keeps the very plan. -/
theorem simplify_normalizes (p : Plan) :
    p.simplify.plan.IsNormal ∧ p.simplify.plan.simplify = .keep p.simplify.plan :=
  ⟨simplify_isNormal p, (simplify_isNormal p).simplify_eq_keep⟩

end GraphQuery.Plan
