import GraphQuery.Proofs.Plan.Normal
import GraphQuery.Proofs.Plan.Transform

namespace GraphQuery

namespace Sharing

theorem part_rebuiltPair (s : Sharing) {i : Nat} (hi : i < 2) :
    s.rebuiltPair.part i = s.part i := by
  fun_induction rebuiltPair s with
  | case1 inner ih => exact ih
  | case2 s _ =>
    match i, hi with
    | 0, _ => rfl
    | 1, _ => rfl

end Sharing

namespace Plan

def unfiltered : Plan → Plan
  | filtered body _ => unfiltered body
  | p => p

theorem unfiltered_of_not_isFiltered {p : Plan} (h : ¬ p.IsFiltered) : p.unfiltered = p := by
  cases p with
  | filtered => exact (h trivial).elim
  | _ => rfl

/-- The direct parts that no condition is taken from. -/
def operands : Plan → List Plan
  | conj ps | disj ps => ps
  | minus left right => [left, right]
  | optional main _ _ => [main]
  | _ => []

/-- The plan at a place, which is told by the way to it without the steps into filters. -/
def slot? : List Nat → Plan → Option Plan
  | [], p => some p
  | i :: path, p => p.unfiltered.parts[i]?.bind (slot? path)

theorem Reaches.exists_slot {p q : Plan} (h : p.Reaches q) :
    ∃ path m, p.slot? path = some m ∧ m.unfiltered = q.unfiltered := by
  induction h using Relation.ReflTransGen.head_induction_on with
  | refl => exact ⟨[], q, rfl, rfl⟩
  | @head p c hc _ ih =>
    obtain ⟨path, m, hm, hq⟩ := ih
    by_cases hf : p.IsFiltered
    · cases p with
      | filtered body condition =>
        have hbody : c = body := List.mem_singleton.1 hc
        subst c
        -- A step into a filter adds nothing to the way.
        cases path with
        | nil =>
          cases hm
          exact ⟨[], _, rfl, hq⟩
        | cons i path => exact ⟨i :: path, m, hm, hq⟩
      | _ => exact hf.elim
    · obtain ⟨i, hi⟩ := List.mem_iff_getElem?.1 hc
      refine ⟨i :: path, m, ?_, hq⟩
      rw [slot?, unfiltered_of_not_isFiltered hf, hi]
      exact hm

def unfilteredRevision : Plan → Sharing → Revision
  | filtered body _, s => unfilteredRevision body (s.part 0)
  | p, s => ⟨p, s⟩

end Plan

namespace Revision

def part? (i : Nat) (r : Revision) : Option Revision :=
  r.plan.parts[i]?.map (⟨·, r.sharing.part i⟩)

def below? (i : Nat) (r : Revision) : Option Revision :=
  (r.plan.unfilteredRevision r.sharing).part? i

/-- What stands at a place of the result, with what is told of it. -/
def slot? : List Nat → Revision → Option Revision
  | [], r => some r
  | i :: path, r => (r.below? i).bind (slot? path)

theorem below?_of_not_isFiltered {r : Revision} (h : ¬ r.plan.IsFiltered) (i : Nat) :
    r.below? i = r.part? i := by
  obtain ⟨p, s⟩ := r
  cases p with
  | filtered => exact (h trivial).elim
  | _ => rfl

theorem below?_lifted (p : Plan) (s : Sharing) (i : Nat) :
    (Revision.mk p (.lifted s)).below? i = (Revision.mk p s).below? i := by
  cases p <;> rfl

end Revision

namespace Plan

open Sharing

theorem below?_filtered {r : Revision} {body : Plan} {c : Term} (h : r.plan = filtered body c)
    (i : Nat) : r.below? i = (Revision.mk body (r.sharing.part 0)).below? i := by
  rw [Revision.below?, h]
  rfl

theorem below?_wrapped (r : Revision) (condition : Term) (i : Nat) :
    (wrapped (filtered · condition) r).below? i = r.below? i := by
  have hpart : (ofParts [r.sharing]).part 0 = r.sharing := part_ofParts rfl
  rw [wrapped, Revision.below?, unfilteredRevision, hpart]
  rfl

theorem below?_simplifyFiltered (r : Revision) (condition : Term) (i : Nat) :
    (simplifyFiltered r condition).below? i = r.below? i := by
  rw [simplifyFiltered]
  split
  · rename_i body c hr
    have hlifted := Revision.below?_lifted body (r.sharing.part 0) i
    rw [below?_filtered hr, ← hlifted]
    rfl
  · exact below?_wrapped r condition i

theorem below?_liftFilter (r : Revision) (condition : Term) (i : Nat) :
    (liftFilter r condition).1.below? i = r.below? i := by
  rw [liftFilter]
  split
  · rename_i body c hr
    rw [Revision.below?_lifted, below?_filtered hr]
  · rfl

theorem below?_liftJoin (r : Revision) (condition : Term) (i : Nat) :
    (liftJoin r condition).1.below? i = r.below? i := by
  obtain ⟨plan, sharing⟩ := r
  cases plan with
  | optional main extra c =>
    simp only [liftJoin]
    split
    · rfl
    · by_cases hi : i < 2
      · have hpart := part_rebuiltPair sharing hi
        simp only [Revision.below?, unfilteredRevision, Revision.part?, hpart, parts]
      · have hnone : [main, extra][i]? = none := List.getElem?_eq_none (Nat.le_of_not_lt hi)
        simp only [Revision.below?, unfilteredRevision, Revision.part?, parts, hnone]
        rfl
  | _ => rfl

theorem below?_liftConditions (extra : Revision) (condition : Term) (i : Nat) :
    (liftConditions extra condition).1.below? i = extra.below? i := by
  rw [liftConditions, below?_liftJoin, below?_liftFilter]

theorem part?_operands (build : List Plan → Plan) (hbuild : ∀ ps, (build ps).parts = ps)
    (ps : List Plan) (i : Nat) :
    Revision.part? i ⟨build (ps.map (·.simplify.plan)), .ofParts (ps.map (·.simplify.sharing))⟩ =
      ps[i]?.map simplify := by
  rw [Revision.part?, hbuild, List.getElem?_map]
  cases hp : ps[i]? with
  | none => rfl
  | some p =>
    have hpart : (ofParts (ps.map (·.simplify.sharing))).part i = p.simplify.sharing := by
      apply part_ofParts
      rw [List.getElem?_map, hp]
      rfl
    simp only [Option.map_some, hpart]

theorem part?_overBoth (build : Plan → Plan → Plan) (hbuild : ∀ p q, (build p q).parts = [p, q])
    (r s : Revision) (i : Nat) : (overBoth build r s).part? i = [r, s][i]? := by
  rw [Revision.part?, overBoth, hbuild]
  rcases i with _ | _ | i
  · have hpart : (ofParts [r.sharing, s.sharing]).part 0 = r.sharing := part_ofParts rfl
    simp [hpart]
  · have hpart : (ofParts [r.sharing, s.sharing]).part 1 = s.sharing := part_ofParts rfl
    simp [hpart]
  · rfl

theorem below?_simplify_operand {p q : Plan} {i : Nat} (h : p.unfiltered.operands[i]? = some q) :
    p.simplify.below? i = some q.simplify := by
  induction p using spineInduction with
  | filtered body condition ih =>
    rw [simplify, below?_simplifyFiltered]
    exact ih h
  | optional main extra condition _ _ =>
    have hlt : i < 1 := (List.getElem?_eq_some_iff.1 h).1
    have hi : i = 0 := Nat.lt_one_iff.1 hlt
    subst i
    cases h
    exact part?_overBoth (optional · · _) (fun _ _ => rfl) _ _ 0
  | conj ps _ =>
    rw [simplify_conj, Revision.below?_of_not_isFiltered id, part?_operands conj fun _ => rfl]
    exact congrArg (Option.map simplify) h
  | disj ps _ =>
    rw [simplify_disj, Revision.below?_of_not_isFiltered id, part?_operands disj fun _ => rfl]
    exact congrArg (Option.map simplify) h
  | minus left right _ _ =>
    have hpart := part?_overBoth minus (fun _ _ => rfl) left.simplify right.simplify i
    rw [simplify_minus, Revision.below?_of_not_isFiltered id, hpart]
    have hmap : [left.simplify, right.simplify][i]? = [left, right][i]?.map simplify := by
      rw [← List.getElem?_map]
      rfl
    rw [hmap]
    exact congrArg (Option.map simplify) h
  | closed p hp =>
    cases p with
    | filtered | optional | conj | disj | minus => exact hp.elim
    | _ => cases h

/-- The optional side loses its conditions, but what stands under them is as it is made alone. -/
theorem below?_simplify_extra {p main extra : Plan} {condition : Term}
    (h : p.unfiltered = optional main extra condition) :
    ∃ r, p.simplify.below? 1 = some r ∧ ∀ i, r.below? i = extra.simplify.below? i := by
  induction p using spineInduction with
  | filtered body c ih =>
    rw [simplify, below?_simplifyFiltered]
    exact ih h
  | optional main extra condition _ _ =>
    cases h
    have hpart := part?_overBoth (optional · · (liftConditions extra.simplify condition).2)
      (fun _ _ => rfl) main.simplify (liftConditions extra.simplify condition).1 1
    exact ⟨_, hpart, below?_liftConditions extra.simplify condition⟩
  | conj | disj | minus => cases h
  | closed p hp =>
    cases p with
    | filtered | optional => exact hp.elim
    | _ => cases h

theorem operands_or_extra {p c : Plan} {i : Nat} (h : p.parts[i]? = some c)
    (hp : ¬ p.IsFiltered) :
    p.operands[i]? = some c ∨ ∃ main condition, i = 1 ∧ p = optional main c condition := by
  cases p with
  | filtered => exact (hp trivial).elim
  | conj | disj | minus => exact .inl h
  | optional main extra condition =>
    match i with
    | 0 => exact .inl h
    | 1 =>
      cases h
      exact .inr ⟨main, condition, rfl, rfl⟩
    | i + 2 => cases h
  | _ => cases h

theorem not_isFiltered_unfiltered (p : Plan) : ¬ p.unfiltered.IsFiltered := by
  fun_induction unfiltered p with
  | case1 body c ih => exact ih
  | case2 p hp => exact not_isFiltered hp

theorem below?_simplify {p c : Plan} {i : Nat} (h : p.unfiltered.parts[i]? = some c) :
    ∃ r, p.simplify.below? i = some r ∧ ∀ j, r.below? j = c.simplify.below? j := by
  rcases operands_or_extra h (not_isFiltered_unfiltered p) with hop | ⟨main, condition, hi, hp⟩
  · exact ⟨c.simplify, below?_simplify_operand hop, fun _ => rfl⟩
  · subst i
    exact below?_simplify_extra hp

theorem slot?_congr {r s : Revision} (h : ∀ j, r.below? j = s.below? j) (i : Nat)
    (path : List Nat) : r.slot? (i :: path) = s.slot? (i :: path) := by
  rw [Revision.slot?, Revision.slot?, h]

theorem slot?_simplify {p n : Plan} {path : List Nat} (h : p.slot? path = some n) :
    ∃ r, p.simplify.slot? path = some r ∧ ∀ j, r.below? j = n.simplify.below? j := by
  induction path generalizing p with
  | nil =>
    cases h
    exact ⟨n.simplify, rfl, fun _ => rfl⟩
  | cons i path ih =>
    obtain ⟨c, hc, hn⟩ := Option.bind_eq_some_iff.1 h
    obtain ⟨r, hr, hbelow⟩ := below?_simplify hc
    have hstep : p.simplify.slot? (i :: path) = r.slot? path := by rw [Revision.slot?, hr]; rfl
    obtain ⟨s, hs, hsbelow⟩ := ih hn
    cases path with
    | nil =>
      cases hs
      cases hn
      exact ⟨r, hstep, hbelow⟩
    | cons j path => exact ⟨s, by rw [hstep, slot?_congr hbelow, hs], hsbelow⟩

theorem slot?_append_singleton {r : Revision} {path : List Nat} {s : Revision}
    (h : r.slot? path = some s) (i : Nat) : r.slot? (path ++ [i]) = s.below? i := by
  induction path generalizing r with
  | nil =>
    cases h
    exact Option.bind_fun_some _
  | cons j path ih =>
    obtain ⟨c, hc, hs⟩ := Option.bind_eq_some_iff.1 h
    rw [List.cons_append, Revision.slot?, hc]
    exact ih hs

theorem isNormal_of_isKept {p : Plan} (h : p.simplify.sharing.isKept = true) : p.IsNormal := by
  induction p using spineInduction with
  | filtered body condition ih =>
    obtain ⟨hn, hkept, -⟩ := simplifyFiltered_of_isKept h
    have hbody := ih hkept
    have hf := not_isFiltered hn
    rw [hbody.simplify_eq_keep] at hf
    exact isNormal_filtered.2 ⟨hf, hbody⟩
  | optional main extra condition ihm ihe =>
    obtain ⟨hm, hl⟩ := isKept_overBoth h
    have hextra : (liftConditions extra.simplify condition).1 = extra.simplify :=
      congrArg Prod.fst (liftConditions_of_isKept hl)
    have he : extra.IsNormal := ihe (hextra ▸ hl)
    have hbare : (liftConditions extra.simplify condition).1.plan.IsBare := by
      obtain ⟨hf, hn⟩ := liftFilter_isNormal (simplify_isNormal extra) condition
      exact (liftJoin_isNormal hf hn _).1
    rw [hextra, he.simplify_eq_keep] at hbare
    exact isNormal_optional.2 ⟨hbare, ihm hm, he⟩
  | conj ps ih =>
    rw [simplify_conj] at h
    refine isNormal_conj.2 fun p hp => ih p hp ?_
    exact isKept_ofParts.1 h _ (List.mem_map_of_mem hp)
  | disj ps ih =>
    rw [simplify_disj] at h
    refine isNormal_disj.2 fun p hp => ih p hp ?_
    exact isKept_ofParts.1 h _ (List.mem_map_of_mem hp)
  | minus left right ihl ihr =>
    rw [simplify_minus] at h
    obtain ⟨hl, hr⟩ := isKept_overBoth h
    exact isNormal_minus.2 ⟨ihl hl, ihr hr⟩
  | closed p hp => exact hp.isNormal

/-- Simplification returns the very plan, tells that it does, and returns an equal plan, all three
exactly for the plans in normal form. An operand in normal form stands where it stood, wherever
conditions have moved around it; and every place on the spine is told of. -/
theorem simplify_detects_change (p : Plan) :
    (p.simplify = .keep p ↔ p.IsNormal) ∧
    (p.simplify.sharing.isKept = true ↔ p.IsNormal) ∧
    (p.simplify.plan = p ↔ p.IsNormal) ∧
    (∀ n, p.Reaches n → ∃ path m, p.slot? path = some m ∧ m.unfiltered = n.unfiltered) ∧
    ∀ path m i q, p.slot? path = some m → m.unfiltered.operands[i]? = some q → q.IsNormal →
      p.simplify.slot? (path ++ [i]) = some (.keep q) := by
  have hkept (hp : p.IsNormal) := hp.simplify_eq_keep
  refine ⟨⟨?_, hkept⟩, ⟨isNormal_of_isKept, ?_⟩, ⟨?_, ?_⟩, fun n hn => hn.exists_slot, ?_⟩
  · intro h
    apply isNormal_of_isKept
    rw [h]
    rfl
  · intro hp
    rw [hkept hp]
    rfl
  · intro h
    rw [← h]
    exact simplify_isNormal p
  · intro hp
    rw [hkept hp]
    rfl
  · intro path m i q hm hq hnormal
    obtain ⟨r, hr, hbelow⟩ := slot?_simplify hm
    rw [slot?_append_singleton hr, hbelow, below?_simplify_operand hq, hnormal.simplify_eq_keep]

def movedFilters : Plan :=
  filtered (filtered (optional (tripleOf "p")
    (filtered (conj [tripleOf "q", filtered (filtered (tripleOf "r") (.var "a")) (.var "b")])
      (.var "c")) (.bool true)) (.var "d")) (.var "e")

/-- The conditions move, and the operand on the optional side is the very one that stood there. -/
theorem simplify_detects_change_movedFilters :
    movedFilters.Reaches (tripleOf "p") ∧ ¬ movedFilters.IsNormal ∧
    movedFilters.simplify.plan = filtered (optional (tripleOf "p")
      (conj [tripleOf "q", filtered (tripleOf "r") (.and [.var "a", .var "b"])])
      (.var "c")) (.and [.var "d", .var "e"]) ∧
    movedFilters.simplify.slot? [0] = some (.keep (tripleOf "p")) ∧
    movedFilters.simplify.slot? [1, 0] = some (.keep (tripleOf "q")) := by
  have hp : (tripleOf "p").IsNormal := IsSealed.isNormal trivial
  have hq : (tripleOf "q").IsNormal := IsSealed.isNormal trivial
  have hreaches : movedFilters.Reaches (tripleOf "p") :=
    .head List.mem_cons_self (.head List.mem_cons_self (.head List.mem_cons_self (.refl _)))
  obtain ⟨hsame, -, -, -, hplaces⟩ := simplify_detects_change movedFilters
  refine ⟨hreaches, ?_, rfl, hplaces [] _ 0 _ rfl rfl hp, hplaces [1] _ 0 _ rfl rfl hq⟩
  intro hnormal
  have hkept := congrArg (·.sharing.isKept) (hsame.2 hnormal)
  exact Bool.false_ne_true hkept

end Plan

end GraphQuery
