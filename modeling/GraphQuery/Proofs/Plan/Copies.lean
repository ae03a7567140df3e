import GraphQuery.Proofs.Plan.Places

namespace GraphQuery

namespace Sharing

theorem isKept_iff {s : Sharing} : s.isKept = true ↔ s = kept := by
  cases s with
  | kept => simp [isKept]
  | _ => simp [isKept]

theorem isKept_ofParts {parts : List Sharing} :
    (ofParts parts).isKept = true ↔ ∀ s ∈ parts, s.isKept = true := by
  rw [← List.all_eq_true, ofParts]
  split
  · rename_i h
    exact ⟨fun _ => h, fun _ => rfl⟩
  · rename_i h
    exact ⟨nofun, fun hall => absurd hall h⟩

theorem part_ofParts {parts : List Sharing} {i : Nat} {s : Sharing} (h : parts[i]? = some s) :
    (ofParts parts).part i = s := by
  rw [ofParts]
  split
  · rename_i hall
    have hs := List.all_eq_true.1 hall s (List.mem_of_getElem? h)
    rw [isKept_iff.1 hs]
    rfl
  · rw [part, h]
    rfl

end Sharing

namespace Revision

/-- A plan that is told to be kept is the given one. -/
def Tells (given : Plan) (r : Revision) : Prop := r.sharing.isKept = true → r.plan = given

theorem Tells.eq_keep {given : Plan} {r : Revision} (h : Tells given r)
    (hkept : r.sharing.isKept = true) : r = keep given := by
  obtain ⟨plan, sharing⟩ := r
  cases Sharing.isKept_iff.1 hkept
  cases h hkept
  rfl

theorem tells_keep (p : Plan) : Tells p (keep p) := fun _ => rfl

theorem tells_overAll (given : Plan) (copy? : Option (List Revision)) :
    Tells given (overAll given copy?) := by
  cases copy? with
  | none => exact tells_keep given
  | some rs => exact nofun

def copyOf (rs : List Revision) : Option (List Revision) :=
  if ∀ r ∈ rs, r.sharing.isKept = true then none else some rs

theorem eq_map_keep {ps : List Plan} {rs : List Revision} (h : List.Forall₂ Tells ps rs)
    (hkept : ∀ r ∈ rs, r.sharing.isKept = true) : rs = ps.map keep := by
  induction h with
  | nil => rfl
  | cons hr _ ih =>
    obtain ⟨hfirst, hrest⟩ := List.forall_mem_cons.1 hkept
    rw [List.map_cons, hr.eq_keep hfirst, ih hrest]

/-- The copy that is made late is that of all plans. -/
theorem copied_copyOf {seen : List Plan} {rs : List Revision} (h : List.Forall₂ Tells seen rs)
    (r : Revision) : copied seen (copyOf rs) r = copyOf (rs ++ [r]) := by
  have hall : (∀ s ∈ rs ++ [r], s.sharing.isKept = true) ↔
      (∀ s ∈ rs, s.sharing.isKept = true) ∧ r.sharing.isKept = true := by
    rw [List.forall_mem_append, List.forall_mem_singleton]
  by_cases hrs : ∀ s ∈ rs, s.sharing.isKept = true
  · rw [copyOf, if_pos hrs, copied, ← eq_map_keep h hrs]
    by_cases hr : r.sharing.isKept = true
    · rw [if_pos hr, copyOf, if_pos (hall.2 ⟨hrs, hr⟩)]
    · rw [if_neg hr, copyOf, if_neg fun hkept => hr (hall.1 hkept).2]
  · rw [copyOf, if_neg hrs, copied, copyOf, if_neg fun hkept => hrs (hall.1 hkept).1]

theorem overAll_copyOf {given : Plan} {rs : List Revision}
    (h : List.Forall₂ Tells given.children rs) :
    overAll given (copyOf rs) =
      ⟨given.withParts (rs.map (·.plan)), .ofParts (rs.map (·.sharing))⟩ := by
  by_cases hrs : ∀ r ∈ rs, r.sharing.isKept = true
  · have hplans : rs.map (·.plan) = given.children := by
      rw [eq_map_keep h hrs, List.map_map]
      exact List.map_id _
    have hsharing : (rs.map (·.sharing)).all Sharing.isKept = true := by
      rwa [List.all_eq_true, List.forall_mem_map]
    rw [copyOf, if_pos hrs, hplans, Plan.withParts_children, Sharing.ofParts, if_pos hsharing]
    rfl
  · have hsharing : ¬ (rs.map (·.sharing)).all Sharing.isKept = true := by
      rwa [List.all_eq_true, List.forall_mem_map]
    rw [copyOf, if_neg hrs, Sharing.ofParts, if_neg hsharing]
    rfl

theorem overOne_eq {given p : Plan} {r : Revision} (hgiven : given.children = [p])
    (h : Tells p r) : overOne given r = ⟨given.withParts [r.plan], .ofParts [r.sharing]⟩ := by
  have hcopy : copied [] none r = copyOf [r] := copied_copyOf .nil r
  have htells : List.Forall₂ Tells given.children [r] := hgiven ▸ .cons h .nil
  rw [overOne, hcopy, overAll_copyOf htells]
  rfl

theorem overTwo_eq {given p q : Plan} {r s : Revision} (hgiven : given.children = [p, q])
    (hr : Tells p r) (hs : Tells q s) :
    overTwo given p r s =
      ⟨given.withParts [r.plan, s.plan], .ofParts [r.sharing, s.sharing]⟩ := by
  have hcopy : copied [p] (copyOf [r]) s = copyOf [r, s] := copied_copyOf (.cons hr .nil) s
  have hfirst : copied [] none r = copyOf [r] := copied_copyOf .nil r
  have htells : List.Forall₂ Tells given.children [r, s] := hgiven ▸ .cons hr (.cons hs .nil)
  rw [overTwo, hfirst, hcopy, overAll_copyOf htells]
  rfl

end Revision

end GraphQuery
