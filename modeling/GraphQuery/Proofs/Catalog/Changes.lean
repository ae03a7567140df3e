import GraphQuery.Catalog.Basic
import GraphQuery.Proofs.Catalog.Store
import GraphQuery.Proofs.Success
import Mathlib.Algebra.Group.Nat.Defs
import Mathlib.Data.List.Induction

namespace GraphQuery

inductive CatalogChange where
  | setDefaults (iris : List Text)
  | addNamed (iri : Text)
  | removeNamed (iri : Text)

namespace CatalogChange

def defaults? : CatalogChange → Option (List Text)
  | setDefaults iris => some iris
  | _ => none

def concerns (iri : Text) : CatalogChange → Bool
  | setDefaults _ => false
  | addNamed other | removeNamed other => other = iri

/-- The default graphs that were set last; there are none before they are set. -/
def lastDefaults (changes : List CatalogChange) : List Text :=
  (changes.filterMap defaults?).getLast?.getD []

/-- Of the changes that add or remove the named graph, the last one adds it. -/
def IsNamedAfter (changes : List CatalogChange) (iri : Text) : Prop :=
  (changes.filter (concerns iri)).getLast? = some (addNamed iri)

section Append
variable (changes : List CatalogChange)

theorem lastDefaults_append (change : CatalogChange) :
    lastDefaults (changes ++ [change]) = change.defaults?.getD (lastDefaults changes) := by
  cases change with
  | setDefaults iris => simp [lastDefaults, defaults?]
  | addNamed iri | removeNamed iri => simp [lastDefaults, defaults?]

theorem isNamedAfter_append (change : CatalogChange) (iri : Text) :
    IsNamedAfter (changes ++ [change]) iri ↔
      if change.concerns iri then change = addNamed iri else IsNamedAfter changes iri := by
  rw [IsNamedAfter, List.filter_append]
  split
  next h => simp [h]
  next h => simp [h, IsNamedAfter]

theorem isNamedAfter_setDefaults (iris : List Text) (iri : Text) :
    IsNamedAfter (changes ++ [setDefaults iris]) iri ↔ IsNamedAfter changes iri :=
  isNamedAfter_append changes _ iri

theorem isNamedAfter_addNamed (added iri : Text) :
    IsNamedAfter (changes ++ [addNamed added]) iri ↔ iri = added ∨ IsNamedAfter changes iri := by
  rw [isNamedAfter_append]
  by_cases h : iri = added
  · simp [h, concerns]
  · simp [h, Ne.symm h, concerns]

theorem isNamedAfter_removeNamed (removed iri : Text) :
    IsNamedAfter (changes ++ [removeNamed removed]) iri ↔
      iri ≠ removed ∧ IsNamedAfter changes iri := by
  rw [isNamedAfter_append]
  by_cases h : iri = removed
  · simp [h, concerns]
  · simp [h, Ne.symm h, concerns]

end Append

end CatalogChange

namespace Catalog

theorem bigEndian_lt {m n : Nat} (hmn : m < n) (hn : n < 2 ^ 32) : bigEndian m < bigEndian n := by
  have hsplit (k : Nat) :
      k / 0x10000 = k / 0x100 / 0x100 ∧ k / 0x1000000 = k / 0x100 / 0x100 / 0x100 := by
    omega
  have hbyte (k : Nat) : k.toUInt8.toNat = k % 0x100 := UInt8.toNat_ofNat'
  simp only [bigEndian, List.cons_lt_cons_iff, UInt8.lt_iff_toNat_lt, ← UInt8.toNat_inj, hbyte,
    List.not_lt_nil, and_false, or_false, hsplit]
  omega

theorem defaultKey_lt {m n : Nat} (hmn : m < n) (hn : n < 2 ^ 32) : defaultKey m < defaultKey n :=
  Text.append_lt_append_iff.2 (bigEndian_lt hmn hn)

theorem defaultKey_inj {m n : Nat} (hm : m < 2 ^ 32) (hn : n < 2 ^ 32)
    (h : defaultKey m = defaultKey n) : m = n := by
  rcases Nat.lt_trichotomy m n with hlt | heq | hgt
  · exact absurd h (Text.ne_of_lt (defaultKey_lt hlt hn))
  · exact heq
  · exact absurd h.symm (Text.ne_of_lt (defaultKey_lt hgt hm))

theorem defaultStart_prefix_defaultKey (n : Nat) : defaultStart <+: defaultKey n :=
  List.prefix_append _ _

theorem namedKey_inj {iri other : Text} : namedKey iri = namedKey other ↔ iri = other :=
  List.append_right_inj namedStart

theorem not_defaultStart_prefix_namedKey (iri : Text) : ¬ defaultStart <+: namedKey iri := by
  rw [← List.isPrefixOf_iff_prefix]
  exact Bool.false_ne_true

end Catalog

namespace Contents

def clear (m : Contents) : Contents :=
  fun key => if Catalog.defaultStart <+: key then none else m key

theorem clear_eq {m : Contents} {entries : List (Text × Text)}
    (hmem : ∀ e, e ∈ entries ↔ Catalog.defaultStart <+: e.1 ∧ m e.1 = some e.2) :
    m.clear = fun key => if key ∈ entries.map (·.1) then none else m key := by
  funext key
  have hkeys : key ∈ entries.map (·.1) ↔ Catalog.defaultStart <+: key ∧ ∃ v, m key = some v := by
    simp [hmem]
  rw [clear, ← Option.ne_none_iff_exists'] at *
  by_cases hstart : Catalog.defaultStart <+: key
  · by_cases hkey : m key = none
    · simp [hstart, hkey]
    · simp only [hkeys, hstart, hkey, ne_eq, not_false_eq_true, and_self, if_true]
  · simp only [hkeys, hstart, false_and, if_false]

theorem clear_namedKey (m : Contents) (iri : Text) :
    m.clear (Catalog.namedKey iri) = m (Catalog.namedKey iri) :=
  if_neg (Catalog.not_defaultStart_prefix_namedKey iri)

def putDefaults (m : Contents) (position : Nat) : List Text → Contents
  | [] => m
  | iri :: rest =>
    putDefaults (Function.update m (Catalog.defaultKey position) (some iri)) (position + 1) rest

theorem putDefaults_of_ne {m : Contents} {n : Nat} {iris : List Text} {key : Text}
    (h : ∀ i, n ≤ i → i < n + iris.length → key ≠ Catalog.defaultKey i) :
    m.putDefaults n iris key = m key := by
  induction iris generalizing m n with
  | nil => rfl
  | cons iri iris ih =>
    rw [List.length_cons] at h
    rw [putDefaults, ih fun i hn hi => h i (by omega) (by omega)]
    exact Function.update_of_ne (h n (by omega) (by omega)) _ _

theorem putDefaults_namedKey (m : Contents) (n : Nat) (iris : List Text) (iri : Text) :
    m.putDefaults n iris (Catalog.namedKey iri) = m (Catalog.namedKey iri) := by
  apply putDefaults_of_ne
  intro i _ _ hkey
  apply Catalog.not_defaultStart_prefix_namedKey iri
  rw [hkey]
  exact Catalog.defaultStart_prefix_defaultKey i

theorem putDefaults_defaultKey {m : Contents} {n : Nat} {iris : List Text} {i : Nat}
    (hi : i < iris.length) (hn : n + iris.length ≤ 2 ^ 32) :
    m.putDefaults n iris (Catalog.defaultKey (n + i)) = iris[i]? := by
  induction iris generalizing m n i with
  | nil => exact absurd hi (Nat.not_lt_zero i)
  | cons iri iris ih =>
    rw [List.length_cons] at hi hn
    cases i with
    | zero =>
      rw [putDefaults, putDefaults_of_ne]
      · simp
      · intro j hj hlt heq
        have := Catalog.defaultKey_inj (by omega) (by omega) heq
        omega
    | succ i =>
      have hnext : n + (i + 1) = n + 1 + i := by omega
      rw [putDefaults, hnext, ih (by omega) (by omega), List.getElem?_cons_succ]

theorem update_namedKey_of_default {m : Contents} {iri key : Text} {value : Option Text}
    (h : Catalog.defaultStart <+: key) :
    Function.update m (Catalog.namedKey iri) value key = m key := by
  apply Function.update_of_ne
  rintro rfl
  exact Catalog.not_defaultStart_prefix_namedKey iri h

/-- The contents are those of a catalog with the given default graphs and named graphs. -/
structure Keeps (m : Contents) (defaults : List Text) (isNamed : Text → Prop) : Prop where
  length_le : defaults.length ≤ 2 ^ 32
  defaults : ∀ key, Catalog.defaultStart <+: key → ∀ value,
    m key = some value ↔ ∃ i, key = Catalog.defaultKey i ∧ defaults[i]? = some value
  named : ∀ iri, m (Catalog.namedKey iri) ≠ none ↔ isNamed iri

def defaultEntries (graphs : List Text) : List (Text × Text) :=
  graphs.mapIdx fun i iri => (Catalog.defaultKey i, iri)

theorem map_snd_defaultEntries (graphs : List Text) :
    (defaultEntries graphs).map (·.2) = graphs := by
  apply List.ext_getElem
  · simp [defaultEntries]
  · simp [defaultEntries]

namespace Keeps

variable {m : Contents} {graphs : List Text} {isNamed : Text → Prop}

theorem empty : Keeps (fun _ => none) [] fun _ => False where
  length_le := Nat.zero_le _
  defaults _ _ _ := by simp
  named _ := by simp

theorem congr {isNamed' : Text → Prop} (h : m.Keeps graphs isNamed)
    (hnamed : ∀ iri, isNamed iri ↔ isNamed' iri) : m.Keeps graphs isNamed' :=
  { h with named := fun iri => (h.named iri).trans (hnamed iri) }

theorem setDefaults (h : m.Keeps graphs isNamed) {iris : List Text} (hiris : iris.length ≤ 2 ^ 32) :
    (m.clear.putDefaults 0 iris).Keeps iris isNamed where
  length_le := hiris
  defaults key hstart value := by
    constructor
    · intro hkey
      by_cases hput : ∃ i < iris.length, key = Catalog.defaultKey i
      · obtain ⟨i, hi, rfl⟩ := hput
        have hvalue := putDefaults_defaultKey (m := m.clear) (n := 0) hi (by omega)
        rw [Nat.zero_add] at hvalue
        exact ⟨i, rfl, hvalue.symm.trans hkey⟩
      · have hfree : ∀ i, 0 ≤ i → i < 0 + iris.length → key ≠ Catalog.defaultKey i := by
          intro i _ hi heq
          exact hput ⟨i, by omega, heq⟩
        rw [putDefaults_of_ne hfree, clear, if_pos hstart] at hkey
        exact absurd hkey (Option.some_ne_none value).symm
    · rintro ⟨i, rfl, hi⟩
      obtain ⟨hlt, -⟩ := List.getElem?_eq_some_iff.1 hi
      have hvalue := putDefaults_defaultKey (m := m.clear) (n := 0) hlt (by omega)
      rw [Nat.zero_add] at hvalue
      exact hvalue.trans hi
  named iri := by
    rw [putDefaults_namedKey, clear_namedKey]
    exact h.named iri

theorem updateNamed (h : m.Keeps graphs isNamed) (iri : Text) (value : Option Text) :
    Keeps (Function.update m (Catalog.namedKey iri) value) graphs
      fun other => if other = iri then value ≠ none else isNamed other where
  length_le := h.length_le
  defaults key hstart v := by
    rw [update_namedKey_of_default hstart]
    exact h.defaults key hstart v
  named other := by
    by_cases hother : other = iri
    · simp [hother]
    · simp only [if_neg hother, ← h.named other,
        Function.update_of_ne (mt Catalog.namedKey_inj.1 hother)]

theorem addNamed (h : m.Keeps graphs isNamed) (iri : Text) :
    Keeps (Function.update m (Catalog.namedKey iri) (some [])) graphs
      fun other => other = iri ∨ isNamed other := by
  apply (h.updateNamed iri (some [])).congr
  intro other
  by_cases hother : other = iri
  · simp [hother]
  · simp [hother]

theorem removeNamed (h : m.Keeps graphs isNamed) (iri : Text) :
    Keeps (Function.update m (Catalog.namedKey iri) none) graphs
      fun other => other ≠ iri ∧ isNamed other := by
  apply (h.updateNamed iri none).congr
  intro other
  by_cases hother : other = iri
  · simp [hother]
  · simp [hother]

theorem ascends_defaultEntries (h : m.Keeps graphs isNamed) : Ascends (defaultEntries graphs) := by
  apply List.pairwise_iff_getElem.2
  intro i j hi hj hij
  rw [defaultEntries, List.length_mapIdx] at hj
  simp only [defaultEntries, List.getElem_mapIdx]
  exact Catalog.defaultKey_lt hij (Nat.lt_of_lt_of_le hj h.length_le)

theorem mem_defaultEntries (h : m.Keeps graphs isNamed) (e : Text × Text) :
    e ∈ defaultEntries graphs ↔ Catalog.defaultStart <+: e.1 ∧ m e.1 = some e.2 := by
  rw [defaultEntries, List.mem_mapIdx]
  constructor
  · rintro ⟨i, hi, rfl⟩
    have hstart := Catalog.defaultStart_prefix_defaultKey i
    exact ⟨hstart, (h.defaults _ hstart _).2 ⟨i, rfl, List.getElem?_eq_getElem hi⟩⟩
  · rintro ⟨hstart, hkey⟩
    obtain ⟨i, hi, hvalue⟩ := (h.defaults _ hstart _).1 hkey
    obtain ⟨hlt, hget⟩ := List.getElem?_eq_some_iff.1 hvalue
    exact ⟨i, hlt, Prod.ext hi.symm hget⟩

end Keeps

end Contents

namespace Catalog

variable {σ : Type} [Store σ]

def apply (c : Catalog σ) : CatalogChange → Except CatalogError (Catalog σ)
  | .setDefaults iris => c.setDefaults iris
  | .addNamed iri => c.addNamed iri
  | .removeNamed iri => c.removeNamed iri

def applyAll (c : Catalog σ) (changes : List CatalogChange) : Except CatalogError (Catalog σ) :=
  changes.foldlM apply c

theorem putDefaults_holds {Holds : σ → Contents → Prop} (laws : Store.Laws Holds) {s : σ}
    {m : Contents} (hs : Holds s m) (n : Nat) (iris : List Text) :
    ∃ s', putDefaults s n iris = .ok s' ∧ Holds s' (m.putDefaults n iris) := by
  induction iris generalizing s m n with
  | nil => exact ⟨s, rfl, hs⟩
  | cons iri iris ih =>
    obtain ⟨s₁, hset, hs₁⟩ := (laws.isMap s m (defaultKey n) hs).1 iri
    obtain ⟨s', hput, hs'⟩ := ih hs₁ (n + 1)
    refine ⟨s', ?_, hs'⟩
    rw [putDefaults, hset]
    exact hput

section Requests
variable {Holds : σ → Contents → Prop} (laws : Store.Laws Holds) {c : Catalog σ} {m : Contents}
  (hc : Holds c.store m)
include laws hc

theorem updated_holds {request : CatalogRequest} {f : σ → Except StoreError σ} {s : σ}
    {m' : Contents} (hf : f c.store = .ok s) (hs : Holds s m') :
    ∃ c', c.updated request f = .ok c' ∧ Holds c'.store m' := by
  obtain ⟨s', hs', hholds⟩ := (laws.transacts _ _ hc).1 f s m' hf hs
  refine ⟨⟨s'⟩, ?_, hholds⟩
  rw [updated, hs']

theorem viewed_eq_ok {α : Type} {request : CatalogRequest} {f : σ → Except StoreError α} {a : α}
    (hf : f c.store = .ok a) : c.viewed request f = .ok a := by
  rw [viewed, (laws.transacts _ _ hc).2 α f a hf]

theorem clear_holds :
    ∃ s, (scanKeys c.store defaultStart).foldlM Store.delete c.store = .ok s ∧ Holds s m.clear := by
  obtain ⟨entries, hscan, hascends, hmem⟩ := laws.scansInOrder _ _ defaultStart hc
  have hkeys : scanKeys c.store defaultStart = entries.map (·.1) := by
    rw [scanKeys, hscan, List.map_map]
    rfl
  have hpresent : ∀ key ∈ entries.map (·.1), m key ≠ none := by
    intro key hkey
    obtain ⟨e, he, rfl⟩ := List.mem_map.1 hkey
    rw [((hmem e).1 he).2]
    exact Option.some_ne_none _
  obtain ⟨s, hdelete, hs⟩ := laws.foldlM_delete hascends.nodup_keys hc hpresent
  refine ⟨s, hkeys ▸ hdelete, ?_⟩
  rw [Contents.clear_eq hmem]
  exact hs

theorem setDefaults_holds (iris : List Text) :
    ∃ c', c.setDefaults iris = .ok c' ∧ Holds c'.store (m.clear.putDefaults 0 iris) := by
  obtain ⟨s, hclear, hs⟩ := clear_holds laws hc
  obtain ⟨s', hput, hs'⟩ := putDefaults_holds laws hs 0 iris
  exact updated_holds laws hc (bind_eq_ok.2 ⟨s, hclear, hput⟩) hs'

theorem addNamed_holds (iri : Text) :
    ∃ c', c.addNamed iri = .ok c' ∧
      Holds c'.store (Function.update m (namedKey iri) (some [])) := by
  obtain ⟨s, hset, hs⟩ := (laws.isMap _ _ (namedKey iri) hc).1 []
  exact updated_holds laws hc hset hs

theorem removeNamed_holds (iri : Text) :
    ∃ c', c.removeNamed iri = .ok c' ∧ Holds c'.store (Function.update m (namedKey iri) none) := by
  by_cases hkey : m (namedKey iri) = none
  · have hsame : Function.update m (namedKey iri) none = m := by
      rw [← hkey, Function.update_eq_self]
    rw [hsame]
    rcases laws.ignoresAbsent _ _ _ hc hkey with ⟨e, hdelete, he⟩ | ⟨s, hdelete, hs⟩
    · exact updated_holds laws hc (by simp [hdelete, he]) hc
    · exact updated_holds laws hc (by simp [hdelete]) hs
  · obtain ⟨s, hdelete, hs⟩ := (laws.isMap _ _ _ hc).2 hkey
    exact updated_holds laws hc (by simp [hdelete]) hs

omit laws hc in
theorem mapM_value_ofEntry (entries : List (Text × Text)) :
    (entries.map Item.ofEntry).mapM Item.value = .ok (entries.map (·.2)) := by
  induction entries with
  | nil => rfl
  | cons e entries ih =>
    rw [List.map_cons, List.mapM_cons, ih]
    rfl

theorem defaults_eq {entries : List (Text × Text)} (hascends : Ascends entries)
    (hmem : ∀ e, e ∈ entries ↔ defaultStart <+: e.1 ∧ m e.1 = some e.2) :
    c.defaults = .ok (entries.map (·.2)) := by
  obtain ⟨found, hscan, hfound, hmem'⟩ := laws.scansInOrder _ _ defaultStart hc
  obtain rfl := hfound.eq_of_mem_iff hascends fun e => (hmem' e).trans (hmem e).symm
  apply viewed_eq_ok laws hc
  rw [hscan]
  exact mapM_value_ofEntry found

theorem named_eq :
    ∃ names, c.named = .ok names ∧ names.Pairwise (· < ·) ∧
      ∀ iri, iri ∈ names ↔ m (namedKey iri) ≠ none := by
  obtain ⟨entries, hscan, hascends, hmem⟩ := laws.scansInOrder _ _ namedStart hc
  -- Every key that is found is that of a name, which is what remains of it.
  obtain ⟨names, hnames⟩ : ∃ names : List Text, entries.map (·.1) = names.map namedKey := by
    refine ⟨entries.map fun e => Text.trimStart namedStart e.1, ?_⟩
    rw [List.map_map]
    apply List.map_congr_left
    intro e he
    obtain ⟨rest, hrest⟩ := ((hmem e).1 he).1
    rw [Function.comp_apply, ← hrest, Text.trimStart_append, namedKey]
  have hkeys : scanKeys c.store namedStart = names.map namedKey := by
    rw [scanKeys, hscan, List.map_map]
    exact hnames
  refine ⟨names, ?_, ?_, ?_⟩
  · apply viewed_eq_ok laws hc
    have htrim : Text.trimStart namedStart ∘ namedKey = id :=
      funext (Text.trimStart_append namedStart)
    rw [hkeys, List.map_map, htrim, List.map_id]
  · have hpairwise := List.pairwise_map.2 hascends
    rw [hnames, List.pairwise_map] at hpairwise
    exact hpairwise.imp Text.append_lt_append_iff.1
  · intro iri
    rw [← List.mem_map_of_injective fun _ _ => namedKey_inj.1, ← hnames, Option.ne_none_iff_exists']
    constructor
    · intro hiri
      obtain ⟨e, he, hkey⟩ := List.mem_map.1 hiri
      exact ⟨e.2, hkey ▸ ((hmem e).1 he).2⟩
    · rintro ⟨value, hvalue⟩
      exact List.mem_map.2 ⟨(namedKey iri, value),
        (hmem _).2 ⟨List.prefix_append _ _, hvalue⟩, rfl⟩

end Requests

section Answers
variable {Holds : σ → Contents → Prop} (laws : Store.Laws Holds) {c c' : Catalog σ}
  {m m' : Contents} (hc : Holds c.store m) (hc' : Holds c'.store m')
include laws hc hc'

theorem defaults_congr (h : ∀ key, defaultStart <+: key → m' key = m key) :
    c'.defaults = c.defaults := by
  obtain ⟨entries, -, hascends, hmem⟩ := laws.scansInOrder _ _ defaultStart hc
  rw [defaults_eq laws hc hascends hmem]
  apply defaults_eq laws hc' hascends
  intro e
  rw [hmem e]
  exact and_congr_right fun hstart => by rw [h e.1 hstart]

theorem named_congr (h : ∀ iri, m' (namedKey iri) = m (namedKey iri)) : c'.named = c.named := by
  obtain ⟨names, hnames, hascend, hmem⟩ := named_eq laws hc
  obtain ⟨names', hnames', hascend', hmem'⟩ := named_eq laws hc'
  rw [hnames, hnames']
  refine congrArg Except.ok (Text.eq_of_mem_iff hascend' hascend fun iri => ?_)
  rw [hmem, hmem', h]

end Answers

section Independence
variable {Holds : σ → Contents → Prop} (laws : Store.Laws Holds) {c : Catalog σ} {m : Contents}
  (hc : Holds c.store m)
include laws hc

theorem named_setDefaults (iris : List Text) :
    ∃ c', c.setDefaults iris = .ok c' ∧ c'.named = c.named := by
  obtain ⟨c', hset, hc'⟩ := setDefaults_holds laws hc iris
  refine ⟨c', hset, named_congr laws hc hc' fun iri => ?_⟩
  rw [Contents.putDefaults_namedKey, Contents.clear_namedKey]

theorem defaults_addNamed (iri : Text) :
    ∃ c', c.addNamed iri = .ok c' ∧ c'.defaults = c.defaults := by
  obtain ⟨c', hadd, hc'⟩ := addNamed_holds laws hc iri
  exact ⟨c', hadd, defaults_congr laws hc hc' fun _ => Contents.update_namedKey_of_default⟩

theorem defaults_removeNamed (iri : Text) :
    ∃ c', c.removeNamed iri = .ok c' ∧ c'.defaults = c.defaults := by
  obtain ⟨c', hremove, hc'⟩ := removeNamed_holds laws hc iri
  exact ⟨c', hremove, defaults_congr laws hc hc' fun _ => Contents.update_namedKey_of_default⟩

end Independence

section Histories
variable {Holds : σ → Contents → Prop} (laws : Store.Laws Holds)
include laws

theorem apply_keeps {c : Catalog σ} {m : Contents} (hc : Holds c.store m)
    {changes : List CatalogChange} {change : CatalogChange}
    (h : m.Keeps (CatalogChange.lastDefaults changes) (CatalogChange.IsNamedAfter changes))
    (hchange : ∀ iris, change = .setDefaults iris → iris.length ≤ 2 ^ 32) :
    ∃ c' m', c.apply change = .ok c' ∧ Holds c'.store m' ∧
      m'.Keeps (CatalogChange.lastDefaults (changes ++ [change]))
        (CatalogChange.IsNamedAfter (changes ++ [change])) := by
  rw [CatalogChange.lastDefaults_append]
  cases change with
  | setDefaults iris =>
    obtain ⟨c', happly, hc'⟩ := setDefaults_holds laws hc iris
    refine ⟨c', _, happly, hc', (h.setDefaults (hchange iris rfl)).congr fun iri => ?_⟩
    exact (CatalogChange.isNamedAfter_setDefaults changes iris iri).symm
  | addNamed added =>
    obtain ⟨c', happly, hc'⟩ := addNamed_holds laws hc added
    refine ⟨c', _, happly, hc', (h.addNamed added).congr fun iri => ?_⟩
    exact (CatalogChange.isNamedAfter_addNamed changes added iri).symm
  | removeNamed removed =>
    obtain ⟨c', happly, hc'⟩ := removeNamed_holds laws hc removed
    refine ⟨c', _, happly, hc', (h.removeNamed removed).congr fun iri => ?_⟩
    exact (CatalogChange.isNamedAfter_removeNamed changes removed iri).symm

theorem applyAll_keeps {c₀ : Catalog σ} (hempty : Holds c₀.store fun _ => none)
    (changes : List CatalogChange)
    (h : ∀ iris, .setDefaults iris ∈ changes → iris.length ≤ 2 ^ 32) :
    ∃ c m, c₀.applyAll changes = .ok c ∧ Holds c.store m ∧
      m.Keeps (CatalogChange.lastDefaults changes) (CatalogChange.IsNamedAfter changes) := by
  -- A history grows at its end, and the last change is the one that decides.
  induction changes using List.reverseRecOn with
  | nil =>
    refine ⟨c₀, _, rfl, hempty, Contents.Keeps.empty.congr fun iri => ?_⟩
    simp [CatalogChange.IsNamedAfter]
  | append_singleton changes change ih =>
    obtain ⟨c, m, happlyAll, hc, hkeeps⟩ := ih fun iris hmem => h iris (List.mem_append_left _ hmem)
    have hchange : ∀ iris, change = .setDefaults iris → iris.length ≤ 2 ^ 32 := by
      rintro iris rfl
      exact h iris (by simp)
    obtain ⟨c', m', happly, hc', hkeeps'⟩ := apply_keeps laws hc hkeeps hchange
    refine ⟨c', m', ?_, hc', hkeeps'⟩
    rw [applyAll, List.foldlM_append]
    exact bind_eq_ok.2 ⟨c, happlyAll, bind_eq_ok.2 ⟨c', happly, rfl⟩⟩

end Histories

/-- Of a store that obeys the laws of a key-value store: after any changes, the default graphs are
those that were set last, with their order and their repetitions, and the named graphs are in
ascending order those that were added and not removed since. A change of one leaves the other
alone. -/
theorem answers_after_changes {Holds : σ → Contents → Prop} (htransacts : Store.Transacts Holds)
    (hmap : Store.IsMap Holds) (hscans : Store.ScansInOrder Holds)
    (habsent : Store.IgnoresAbsent Holds) {c₀ : Catalog σ} (hempty : Holds c₀.store fun _ => none)
    (changes : List CatalogChange)
    (h : ∀ iris, .setDefaults iris ∈ changes → iris.length ≤ 2 ^ 32) :
    ∃ c names, c₀.applyAll changes = .ok c ∧
      c.defaults = .ok (CatalogChange.lastDefaults changes) ∧
      c.named = .ok names ∧ names.Pairwise (· < ·) ∧
      (∀ iri, iri ∈ names ↔ CatalogChange.IsNamedAfter changes iri) ∧
      (∀ iris, ∃ c', c.setDefaults iris = .ok c' ∧ c'.named = c.named) ∧
      ∀ iri, (∃ c', c.addNamed iri = .ok c' ∧ c'.defaults = c.defaults) ∧
        ∃ c', c.removeNamed iri = .ok c' ∧ c'.defaults = c.defaults := by
  have laws : Store.Laws Holds := ⟨htransacts, hmap, hscans, habsent⟩
  obtain ⟨c, m, happlyAll, hc, hkeeps⟩ := applyAll_keeps laws hempty changes h
  obtain ⟨names, hnames, hascend, hmem⟩ := named_eq laws hc
  have hdefaults := defaults_eq laws hc hkeeps.ascends_defaultEntries hkeeps.mem_defaultEntries
  rw [Contents.map_snd_defaultEntries] at hdefaults
  refine ⟨c, names, happlyAll, hdefaults, hnames, hascend, ?_, ?_, ?_⟩
  · intro iri
    exact (hmem iri).trans (hkeeps.named iri)
  · exact named_setDefaults laws hc
  · intro iri
    exact ⟨defaults_addNamed laws hc iri, defaults_removeNamed laws hc iri⟩

/-- A shorter list after a longer one, a graph whose name begins as the key of a default graph, and
one that is removed again. -/
def sampleChanges : List CatalogChange :=
  [.setDefaults ["b", "a", "b"], .addNamed "graph/default/", .addNamed "x", .setDefaults ["d", "d"],
    .removeNamed "x", .addNamed []]

theorem answers_after_sampleChanges :
    Store.Laws OrderedStore.Holds ∧ OrderedStore.Holds .empty (fun _ => none) ∧
      (∀ iris, .setDefaults iris ∈ sampleChanges → iris.length ≤ 2 ^ 32) ∧
      ∃ c names, (⟨.empty⟩ : Catalog OrderedStore).applyAll sampleChanges = .ok c ∧
        c.defaults = .ok ["d", "d"] ∧ c.named = .ok names ∧ names.Pairwise (· < ·) ∧
        ∀ iri, iri ∈ names ↔ CatalogChange.IsNamedAfter sampleChanges iri := by
  have hlength : ∀ iris, .setDefaults iris ∈ sampleChanges → iris.length ≤ 2 ^ 32 := by
    intro iris hmem
    simp only [sampleChanges, List.mem_cons, CatalogChange.setDefaults.injEq, List.not_mem_nil,
      reduceCtorEq, or_false, false_or] at hmem
    rcases hmem with rfl | rfl
    · decide
    · decide
  have laws := OrderedStore.laws
  have hempty : OrderedStore.Holds (⟨.empty⟩ : Catalog OrderedStore).store fun _ => none :=
    OrderedStore.holds_empty
  obtain ⟨c, names, hc, hdefaults, hnames, hascend, hmem, -, -⟩ :=
    answers_after_changes laws.transacts laws.isMap laws.scansInOrder laws.ignoresAbsent hempty
      sampleChanges hlength
  exact ⟨laws, hempty, hlength, c, names, hc, hdefaults, hnames, hascend, hmem⟩

example :
    ((⟨.empty⟩ : Catalog OrderedStore).applyAll sampleChanges >>= Catalog.named) =
      .ok [[], "graph/default/"] :=
  rfl

end Catalog

end GraphQuery
