import GraphQuery.Plan.Basic
import Mathlib.Data.Multiset.Bind

namespace GraphQuery

variable {V : Type}

abbrev Row (V : Type) := Text → Option V

namespace Row

def Compatible (r s : Row V) : Prop := ∀ x a b, r x = some a → s x = some b → a = b

def merge (r s : Row V) : Row V := fun x => (r x).or (s x)

def empty : Row V := fun _ => none

end Row

/-- The rows of the plans that are not taken apart, and the truth of the conditions that are not. -/
structure Interpretation (V : Type) where
  rows : Plan → Multiset (Row V)
  test : Term → Row V → Prop

mutual

def Term.Holds (I : Interpretation V) (r : Row V) : Term → Prop
  | .bool true => True
  | .and operands => Term.HoldAll I r operands
  | t => I.test t r

def Term.HoldAll (I : Interpretation V) (r : Row V) : List Term → Prop
  | [] => True
  | t :: rest => Term.Holds I r t ∧ Term.HoldAll I r rest

end

theorem Term.holds_of_isTrue {t : Term} (h : t.isTrue = true) (I : Interpretation V) (r : Row V) :
    t.Holds I r := by
  rw [Term.isTrue_iff.1 h]
  trivial

theorem Term.holds_conjoin (I : Interpretation V) (r : Row V) (s t : Term) :
    (s.conjoin t).Holds I r ↔ s.Holds I r ∧ t.Holds I r := by
  rw [Term.conjoin]
  split
  · rename_i hs
    exact (and_iff_right (Term.holds_of_isTrue hs I r)).symm
  · split
    · rename_i ht
      exact (and_iff_left (Term.holds_of_isTrue ht I r)).symm
    · simp only [Term.Holds, Term.HoldAll, and_true]

noncomputable section

open scoped Classical

namespace Rows

def select (F : Row V → Prop) (A : Multiset (Row V)) : Multiset (Row V) := A.filter F

theorem select_congr {F G : Row V → Prop} {A : Multiset (Row V)} (h : ∀ r ∈ A, (F r ↔ G r)) :
    select F A = select G A :=
  Multiset.filter_congr h

theorem select_eq_self {F : Row V → Prop} {A : Multiset (Row V)} (h : ∀ r ∈ A, F r) :
    select F A = A :=
  Multiset.filter_eq_self.2 h

theorem select_eq_zero {F : Row V → Prop} {A : Multiset (Row V)} (h : ∀ r ∈ A, ¬ F r) :
    select F A = 0 :=
  Multiset.filter_eq_nil.2 h

theorem select_select (F G : Row V → Prop) (A : Multiset (Row V)) :
    select F (select G A) = select (fun r => G r ∧ F r) A := by
  simp only [select, Multiset.filter_filter, and_comm]

theorem select_map (F : Row V → Prop) (f : Row V → Row V) (A : Multiset (Row V)) :
    select F (A.map f) = (select (fun r => F (f r)) A).map f :=
  Multiset.filter_map ..

/-- A row joined with each of the rows that it is compatible with. -/
def extensions (r : Row V) (B : Multiset (Row V)) : Multiset (Row V) :=
  (select r.Compatible B).map r.merge

def join (A B : Multiset (Row V)) : Multiset (Row V) := A.bind fun r => extensions r B

/-- The joined rows on which the condition is true, or the row itself if there are none. -/
def extend (r : Row V) (B : Multiset (Row V)) (F : Row V → Prop) : Multiset (Row V) :=
  if select F (extensions r B) = 0 then {r} else select F (extensions r B)

def leftJoin (A B : Multiset (Row V)) (F : Row V → Prop) : Multiset (Row V) :=
  A.bind fun r => extend r B F

theorem leftJoin_singleton (r : Row V) (B : Multiset (Row V)) (F : Row V → Prop) :
    leftJoin {r} B F = extend r B F :=
  Multiset.singleton_bind ..

theorem extend_zero (r : Row V) (F : Row V → Prop) : extend r 0 F = {r} := if_pos rfl

theorem extensions_singleton {r s : Row V} (h : r.Compatible s) :
    extensions r {s} = {r.merge s} := by
  rw [extensions, select_eq_self (by simpa using h), Multiset.map_singleton]

theorem extend_singleton_pos {r s : Row V} {F : Row V → Prop} (h : r.Compatible s)
    (hF : F (r.merge s)) : extend r {s} F = {r.merge s} := by
  rw [extend, extensions_singleton h, select_eq_self (by simpa using hF),
    if_neg (Multiset.singleton_ne_zero _)]

theorem extend_singleton_neg {r s : Row V} {F : Row V → Prop} (h : r.Compatible s)
    (hF : ¬ F (r.merge s)) : extend r {s} F = {r} := by
  rw [extend, extensions_singleton h, if_pos (select_eq_zero (by simpa using hF))]

/-- A filter whose truth the left rows do not change may be tested on the joined rows. -/
theorem leftJoin_select {A B : Multiset (Row V)} {X : Row V → Prop}
    (h : ∀ r ∈ A, ∀ s ∈ B, r.Compatible s → (X (r.merge s) ↔ X s)) (F : Row V → Prop) :
    leftJoin A (select X B) F = leftJoin A B fun r => X r ∧ F r := by
  refine Multiset.bind_congr fun r hr => ?_
  have he : select F (extensions r (select X B)) =
      select (fun t => X t ∧ F t) (extensions r B) := by
    rw [extensions, extensions, select_map, select_map, select_select, select_select, select_select]
    refine congrArg _ (select_congr fun s hs => ?_)
    have hX := h r hr s hs
    constructor
    · rintro ⟨hx, hc, hf⟩
      exact ⟨hc, (hX hc).2 hx, hf⟩
    · rintro ⟨hc, hx, hf⟩
      exact ⟨(hX hc).1 hx, hc, hf⟩
  rw [extend, extend, he]

theorem extend_true (r : Row V) (B : Multiset (Row V)) :
    extend r B (fun _ => True) = if extensions r B = 0 then {r} else extensions r B := by
  rw [extend, select_eq_self fun _ _ => trivial]

theorem extend_eq_select {r : Row V} {B : Multiset (Row V)} {F : Row V → Prop}
    (h : ∃ s ∈ extend r B fun _ => True, F s) :
    extend r B F = select F (extend r B fun _ => True) := by
  obtain ⟨s, hs, hF⟩ := h
  rw [extend_true] at hs ⊢
  by_cases hnone : extensions r B = 0
  · rw [if_pos hnone, Multiset.mem_singleton] at hs
    subst s
    rw [if_pos hnone, select_eq_self (by simpa using hF), extend, hnone,
      select_eq_zero (by simp), if_pos rfl]
  · rw [if_neg hnone] at hs ⊢
    exact if_neg fun hzero => Multiset.filter_eq_nil.1 hzero s hs hF

/-- A left outer join on a condition that leaves something of every row is a filter over the join
without the condition. -/
theorem leftJoin_eq_select {A B : Multiset (Row V)} {F : Row V → Prop}
    (h : ∀ r ∈ A, ∃ s ∈ extend r B fun _ => True, F s) :
    leftJoin A B F = select F (leftJoin A B fun _ => True) := by
  rw [leftJoin, leftJoin, select, Multiset.filter_bind]
  exact Multiset.bind_congr fun r hr => extend_eq_select (h r hr)

theorem extend_ne_zero (r : Row V) (B : Multiset (Row V)) (F : Row V → Prop) :
    extend r B F ≠ 0 := by
  rw [extend]
  split
  · exact Multiset.singleton_ne_zero r
  · assumption

end Rows

mutual

/-- The rows of a plan: joins of compatible rows, unions of bags, left rows that are no right ones,
left outer joins on a condition, and rows on which a condition is true. -/
def Plan.meaning (I : Interpretation V) : Plan → Multiset (Row V)
  | .conj operands => (Plan.meanings I operands).foldr Rows.join {Row.empty}
  | .disj operands => (Plan.meanings I operands).sum
  | .minus left right => Rows.select (· ∉ Plan.meaning I right) (Plan.meaning I left)
  | .optional main extra condition =>
    Rows.leftJoin (Plan.meaning I main) (Plan.meaning I extra) (condition.Holds I)
  | .filtered body condition => Rows.select (condition.Holds I) (Plan.meaning I body)
  | p => I.rows p

def Plan.meanings (I : Interpretation V) : List Plan → List (Multiset (Row V))
  | [] => []
  | p :: rest => Plan.meaning I p :: Plan.meanings I rest

end

end

end GraphQuery
