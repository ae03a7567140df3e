import GraphQuery.Success
import Mathlib.Data.List.Forall2

namespace GraphQuery

variable {ε α β : Type} {γ : Type*}

theorem mapM_eq_ok {f : α → Except ε β} {xs : List α} {ys : List β} :
    xs.mapM f = .ok ys ↔ List.Forall₂ (fun x y => f x = .ok y) xs ys := by
  induction xs generalizing ys with
  | nil =>
    rw [List.mapM_nil, List.forall₂_nil_left_iff]
    exact ⟨fun h => (Except.ok.inj h).symm, fun h => h ▸ rfl⟩
  | cons x xs ih =>
    rw [List.mapM_cons, List.forall₂_cons_left_iff, bind_eq_ok]
    simp only [bind_eq_ok, ih]
    constructor
    · rintro ⟨y, hy, zs, hzs, h⟩
      exact ⟨y, zs, hy, hzs, (Except.ok.inj h).symm⟩
    · rintro ⟨y, zs, hy, hzs, rfl⟩
      exact ⟨y, hy, zs, hzs, rfl⟩

theorem exists_forall₂ {R : α → β → Prop} {xs : List α} :
    (∃ ys, List.Forall₂ R xs ys) ↔ ∀ x ∈ xs, ∃ y, R x y := by
  induction xs with
  | nil => simp
  | cons x xs ih =>
    rw [List.forall_mem_cons, ← ih]
    constructor
    · rintro ⟨_, h⟩
      cases h with
      | cons hx hxs => exact ⟨⟨_, hx⟩, _, hxs⟩
    · rintro ⟨⟨y, hx⟩, ys, hxs⟩
      exact ⟨y :: ys, .cons hx hxs⟩

theorem exists_mapM_eq_ok {f : α → Except ε β} {xs : List α} :
    (∃ ys, xs.mapM f = .ok ys) ↔ ∀ x ∈ xs, ∃ y, f x = .ok y := by
  simp only [mapM_eq_ok]
  exact exists_forall₂

section Results
variable {f : α → Except ε β} {xs : List α} {ys : List β}

theorem map_of_mapM_eq_ok (h : xs.mapM f = .ok ys) {g : β → γ} {k : α → γ}
    (hg : ∀ x ∈ xs, ∀ y, f x = .ok y → g y = k x) : ys.map g = xs.map k := by
  replace h := mapM_eq_ok.1 h
  induction h with
  | nil => rfl
  | cons hx _ ih =>
    rw [List.map_cons, List.map_cons, hg _ List.mem_cons_self _ hx]
    rw [ih fun x hx => hg x (List.mem_cons_of_mem _ hx)]

theorem forall_mem_of_mapM_eq_ok (h : xs.mapM f = .ok ys) {P : β → Prop} {Q : α → Prop}
    (hPQ : ∀ x ∈ xs, ∀ y, f x = .ok y → (P y ↔ Q x)) :
    (∀ y ∈ ys, P y) ↔ ∀ x ∈ xs, Q x := by
  have hmap : ys.map P = xs.map Q :=
    map_of_mapM_eq_ok h fun x hx y hy => propext (hPQ x hx y hy)
  have hall : (∀ a ∈ ys.map P, a) ↔ ∀ a ∈ xs.map Q, a := by rw [hmap]
  simpa only [List.forall_mem_map] using hall

theorem exists_mem_of_mapM_eq_ok (h : xs.mapM f = .ok ys) {P : β → Prop} :
    (∃ y ∈ ys, P y) ↔ ∃ x ∈ xs, ∃ y, f x = .ok y ∧ P y := by
  have hall := forall_mem_of_mapM_eq_ok (P := fun y => ¬ P y)
    (Q := fun x => ¬ ∃ y, f x = .ok y ∧ P y) h (by grind)
  grind

theorem getElem?_of_mapM_eq_ok (h : xs.mapM f = .ok ys) {i : Nat} {x : α} (hx : xs[i]? = some x) :
    ∃ y, ys[i]? = some y ∧ f x = .ok y := by
  replace h := mapM_eq_ok.1 h
  induction h generalizing i with
  | nil => cases hx
  | cons hfirst _ ih =>
    cases i with
    | zero =>
      cases hx
      exact ⟨_, rfl, hfirst⟩
    | succ i => exact ih hx

end Results

end GraphQuery
