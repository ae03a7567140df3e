import GraphQuery.Plan.GraphTree
import Mathlib.Algebra.Group.Nat.Defs
import Mathlib.Order.Bounds.Basic

namespace GraphQuery.GraphTree

/-- Every union joins the trees of two halves of a list, of which the first may be longer by one. -/
inductive Halved : List Text → GraphTree → Prop
  | graph (g : Text) : Halved [g] (graph g)
  | union {first second : List Text} {left right : GraphTree} (hleft : Halved first left)
    (hright : Halved second right) (hsecond : second.length ≤ first.length)
    (hfirst : first.length ≤ second.length + 1) : Halved (first ++ second) (union left right)

namespace Halved

variable {gs : List Text} {t : GraphTree}

theorem toList_eq (h : Halved gs t) : t.toList = gs := by
  induction h with
  | graph g => rfl
  | union hleft hright hsecond hfirst ihleft ihright => rw [toList, ihleft, ihright]

theorem length_pos (h : Halved gs t) : 0 < gs.length := by
  induction h with
  | graph g => exact Nat.one_pos
  | union hleft hright hsecond hfirst ihleft ihright =>
    rw [List.length_append]
    omega

theorem depth_le_iff (h : Halved gs t) {d : Nat} : t.depth ≤ d ↔ gs.length ≤ 2 ^ d := by
  induction h generalizing d with
  | graph g =>
    have hone : 1 ≤ 2 ^ d := Nat.one_le_two_pow
    exact iff_of_true (Nat.zero_le d) hone
  | union hleft hright hsecond hfirst ihleft ihright =>
    have hpos := hleft.length_pos
    have hpos' := hright.length_pos
    rw [depth, List.length_append]
    cases d with
    | zero =>
      apply iff_of_false
      · omega
      · rw [Nat.pow_zero]
        omega
    | succ d =>
      -- The levels below hold each half exactly when one level more holds both, as the first half
      -- is longer by one at most and twice a power is even.
      have hhalves := and_congr (ihleft (d := d)) (ihright (d := d))
      rw [Nat.add_comm, Nat.add_le_add_iff_right, Nat.max_le, hhalves, Nat.pow_succ]
      omega

theorem isLeast_depth (h : Halved gs t) : IsLeast {d | gs.length ≤ 2 ^ d} t.depth := by
  constructor
  · exact h.depth_le_iff.1 (Nat.le_refl _)
  · intro d hd
    exact h.depth_le_iff.2 hd

end Halved

theorem exists_halved {gs : List Text} (h : gs ≠ []) : ∃ t, ofList? gs = some t ∧ Halved gs t := by
  induction hn : gs.length using Nat.strong_induction_on generalizing gs with
  | _ n ih =>
    match gs with
    | [] => exact absurd rfl h
    | [g] => exact ⟨graph g, by rw [ofList?], .graph g⟩
    | g :: g' :: rest =>
      let mid := (rest.length + 3) / 2
      have hlength : (g :: g' :: rest).length = rest.length + 2 := rfl
      have hfirst : ((g :: g' :: rest).take mid).length = mid := by
        rw [List.length_take]
        omega
      have hsecond : ((g :: g' :: rest).drop mid).length = rest.length + 2 - mid := by
        rw [List.length_drop, hlength]
      have hne : (g :: g' :: rest).take mid ≠ [] := List.ne_nil_of_length_pos (by omega)
      have hne' : (g :: g' :: rest).drop mid ≠ [] := List.ne_nil_of_length_pos (by omega)
      obtain ⟨left, hl, hleft⟩ := ih _ (by omega) hne rfl
      obtain ⟨right, hr, hright⟩ := ih _ (by omega) hne' rfl
      have hunion := hleft.union hright (by omega) (by omega)
      rw [List.take_append_drop] at hunion
      refine ⟨union left right, ?_, hunion⟩
      rw [ofList?, hl, hr]

theorem toList_ofList? {gs : List Text} (h : gs ≠ []) : (ofList? gs).map toList = some gs := by
  obtain ⟨t, ht, hhalved⟩ := exists_halved h
  rw [ht, Option.map_some, hhalved.toList_eq]

theorem length_toList_le (t : GraphTree) : t.toList.length ≤ 2 ^ t.depth := by
  induction t with
  | graph iri => exact Nat.le_refl 1
  | union left right ihleft ihright =>
    have hleft : 2 ^ left.depth ≤ 2 ^ max left.depth right.depth :=
      Nat.pow_le_pow_right Nat.two_pos (Nat.le_max_left ..)
    have hright : 2 ^ right.depth ≤ 2 ^ max left.depth right.depth :=
      Nat.pow_le_pow_right Nat.two_pos (Nat.le_max_right ..)
    rw [toList, depth, List.length_append, Nat.add_comm 1, Nat.pow_succ]
    omega

/-- Graphs, if there are any, have a union. It is a tree of unions of halves that holds the graphs
in their order, repeated ones as well, and the number of its levels is the least whose power of two
reaches the number of graphs. No tree of unions over as many graphs has fewer levels. -/
theorem ofList?_balances {gs : List Text} (h : gs ≠ []) :
    ∃ t, ofList? gs = some t ∧ t.toList = gs ∧ Halved gs t ∧
      IsLeast {d | gs.length ≤ 2 ^ d} t.depth ∧
      ∀ u : GraphTree, u.toList.length = gs.length → t.depth ≤ u.depth := by
  obtain ⟨t, ht, hhalved⟩ := exists_halved h
  refine ⟨t, ht, hhalved.toList_eq, hhalved, hhalved.isLeast_depth, ?_⟩
  intro u hu
  apply hhalved.depth_le_iff.2
  rw [← hu]
  exact u.length_toList_le

/-- One graph more than two levels of unions hold, with one of them repeated. -/
def fiveGraphs : List Text := ["g1", "g2", "g1", "g3", "g4"]

theorem ofList?_balances_fiveGraphs :
    fiveGraphs ≠ [] ∧ ∃ t, ofList? fiveGraphs = some t ∧ t.toList = fiveGraphs ∧ t.depth = 3 := by
  have hne : fiveGraphs ≠ [] := nofun
  obtain ⟨t, ht, hlist, -, hdepth, -⟩ := ofList?_balances hne
  refine ⟨hne, t, ht, hlist, hdepth.unique ⟨?_, ?_⟩⟩
  · exact (by decide : fiveGraphs.length ≤ 2 ^ 3)
  · intro d hd
    by_contra hlt
    have hpow : 2 ^ d ≤ 2 ^ 2 := Nat.pow_le_pow_right Nat.two_pos (by omega)
    exact absurd (Nat.le_trans hd hpow) (by decide)

end GraphQuery.GraphTree
