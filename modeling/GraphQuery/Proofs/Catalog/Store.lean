import GraphQuery.Catalog.OrderedStore
import GraphQuery.Proofs.Form.Atoms
import Mathlib.Data.List.Sort
import Mathlib.Logic.Function.Basic

namespace GraphQuery

namespace Text

theorem dropStart?_append (start rest : Text) : dropStart? start (start ++ rest) = some rest := by
  induction start with
  | nil => rfl
  | cons a start ih => simp [dropStart?, ih]

theorem trimStart_append (start rest : Text) : trimStart start (start ++ rest) = rest := by
  rw [trimStart, dropStart?_append]
  rfl

theorem append_lt_append_iff {start s t : Text} : start ++ s < start ++ t ↔ s < t := by
  induction start with
  | nil => rfl
  | cons a start ih => simp [ih]

theorem eq_of_mem_iff {xs ys : List Text} (hxs : xs.Pairwise (· < ·)) (hys : ys.Pairwise (· < ·))
    (hmem : ∀ t, t ∈ xs ↔ t ∈ ys) : xs = ys := by
  have hirrefl : Std.Irrefl fun s t : Text => s < t := ⟨List.lt_irrefl⟩
  have hantisymm : Std.Antisymm fun s t : Text => s < t :=
    ⟨fun s t hst hts => absurd hts (List.lt_asymm hst)⟩
  exact List.Pairwise.eq_of_mem_iff hxs hys hmem

end Text

theorem Ascends.eq_of_mem_iff {entries others : List (Text × Text)} (h : Ascends entries)
    (ho : Ascends others) (hmem : ∀ e, e ∈ entries ↔ e ∈ others) : entries = others := by
  have hirrefl : Std.Irrefl fun d e : Text × Text => d.1 < e.1 := ⟨fun e => List.lt_irrefl e.1⟩
  have hantisymm : Std.Antisymm fun d e : Text × Text => d.1 < e.1 :=
    ⟨fun d e hde hed => absurd hed (List.lt_asymm hde)⟩
  exact List.Pairwise.eq_of_mem_iff h ho hmem

theorem Ascends.nodup_keys {entries : List (Text × Text)} (h : Ascends entries) :
    (entries.map (·.1)).Nodup :=
  List.pairwise_map.2 (h.imp Text.ne_of_lt)

abbrev Contents := Text → Option Text

namespace Store

section Representation
variable {σ : Type} [Store σ] (Holds : σ → Contents → Prop)

/-- A transaction does not fail by itself, and the store holds what the transaction has made. -/
def Transacts : Prop :=
  ∀ s m, Holds s m →
    (∀ (f : σ → Except StoreError σ) s' m', f s = .ok s' → Holds s' m' →
      ∃ s'', update s f = .ok s'' ∧ Holds s'' m') ∧
    ∀ (α : Type) (f : σ → Except StoreError α) a, f s = .ok a → view s f = .ok a

/-- A value that is set takes the place of the one under its key, and a key that is there can be
deleted. -/
def IsMap : Prop :=
  ∀ s m key, Holds s m →
    (∀ value, ∃ s', set s key value = .ok s' ∧ Holds s' (Function.update m key (some value))) ∧
    (m key ≠ none → ∃ s', delete s key = .ok s' ∧ Holds s' (Function.update m key none))

/-- A scan finds exactly the entries whose keys have the beginning, in ascending order. -/
def ScansInOrder : Prop :=
  ∀ s m start, Holds s m → ∃ entries : List (Text × Text), scan s start = entries.map Item.ofEntry ∧
    Ascends entries ∧ ∀ e, e ∈ entries ↔ start <+: e.1 ∧ m e.1 = some e.2

/-- To delete a key that is not there changes nothing, whether or not the store tells that it is
not there. -/
def IgnoresAbsent : Prop :=
  ∀ s m key, Holds s m → m key = none →
    (∃ e, delete s key = .error e ∧ e.isKeyNotFound = true) ∨
      ∃ s', delete s key = .ok s' ∧ Holds s' m

structure Laws : Prop where
  transacts : Transacts Holds
  isMap : IsMap Holds
  scansInOrder : ScansInOrder Holds
  ignoresAbsent : IgnoresAbsent Holds

end Representation

namespace Laws

variable {σ : Type} [Store σ] {Holds : σ → Contents → Prop}

theorem foldlM_delete (laws : Laws Holds) {keys : List Text} (hnodup : keys.Nodup) {s : σ}
    {m : Contents} (hs : Holds s m) (hkeys : ∀ key ∈ keys, m key ≠ none) :
    ∃ s', keys.foldlM delete s = .ok s' ∧
      Holds s' fun key => if key ∈ keys then none else m key := by
  induction keys generalizing s m with
  | nil => exact ⟨s, rfl, by simpa using hs⟩
  | cons key keys ih =>
    obtain ⟨hnot, hnodup⟩ := List.nodup_cons.1 hnodup
    obtain ⟨s₁, hdelete, hs₁⟩ := (laws.isMap s m key hs).2 (hkeys key List.mem_cons_self)
    have hrest : ∀ k ∈ keys, Function.update m key none k ≠ none := by
      intro k hk
      have hne : k ≠ key := by
        rintro rfl
        exact hnot hk
      rw [Function.update_of_ne hne]
      exact hkeys k (List.mem_cons_of_mem _ hk)
    obtain ⟨s', hfold, hs'⟩ := ih hnodup hs₁ hrest
    refine ⟨s', ?_, ?_⟩
    · rw [List.foldlM_cons, hdelete]
      exact hfold
    · convert hs' using 2 with k
      by_cases hk : k = key
      · simp [hk]
      · simp [hk]

end Laws

end Store

namespace OrderedStore

def Holds (s : OrderedStore) (m : Contents) : Prop :=
  s.isOpen = true ∧ ∀ e, e ∈ s.entries ↔ m e.1 = some e.2

theorem Holds.opened_eq {s : OrderedStore} {m : Contents} (h : s.Holds m) {α : Type}
    (f : OrderedStore → Except StoreError α) : s.opened f = f s :=
  if_pos h.1

theorem holds_empty : Holds empty fun _ => none := ⟨rfl, by simp [empty]⟩

theorem transacts : Store.Transacts Holds := by
  intro s m hs
  constructor
  · intro f s' m' hf hs'
    exact ⟨s', (hs.opened_eq f).trans hf, hs'⟩
  · intro α f a hf
    exact (hs.opened_eq f).trans hf

theorem holds_erase {s : OrderedStore} {m : Contents} (h : s.Holds m) (key : Text) :
    (s.erase key).Holds (Function.update m key none) := by
  refine ⟨h.1, ?_⟩
  intro e
  by_cases he : e.1 = key
  · simp [erase, he]
  · simp [erase, he, h.2]

theorem isMap : Store.IsMap Holds := by
  intro s m key hs
  refine ⟨?_, fun _ => ⟨s.erase key, rfl, holds_erase hs key⟩⟩
  intro value
  refine ⟨s.insert key value, rfl, hs.1, ?_⟩
  intro e
  rw [insert, mem_insertInto, hs.2]
  by_cases he : e.1 = key
  · simp [he, Prod.ext_iff, eq_comm]
  · simp [he, Prod.ext_iff]

theorem scansInOrder : Store.ScansInOrder Holds := by
  intro s m start hs
  refine ⟨_, rfl, s.ascends.filter _, ?_⟩
  intro e
  rw [List.mem_filter, hs.2, List.isPrefixOf_iff_prefix, and_comm]

theorem ignoresAbsent : Store.IgnoresAbsent Holds := by
  intro s m key hs hkey
  have herase := holds_erase hs key
  rw [← hkey, Function.update_eq_self] at herase
  exact .inr ⟨s.erase key, rfl, herase⟩

theorem laws : Store.Laws Holds := ⟨transacts, isMap, scansInOrder, ignoresAbsent⟩

end OrderedStore

end GraphQuery
