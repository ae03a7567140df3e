import GraphQuery.Proofs.Plan.Normal
import GraphQuery.Proofs.Plan.Rows

namespace GraphQuery

variable {V : Type}

/-- A plan read as the simplifier reads it. -/
structure Reading (V : Type) where
  /-- The rows of the plan by itself. -/
  alone : Multiset (Row V)
  /-- The rows that it offers as the optional side of a join. -/
  offered : Multiset (Row V)
  /-- The condition that a join takes over from it. -/
  demand : Row V → Prop

namespace Reading

def plain (rows : Multiset (Row V)) : Reading V := ⟨rows, rows, fun _ => True⟩

noncomputable def filtered (b : Reading V) (F : Row V → Prop) : Reading V :=
  ⟨Rows.select F b.alone, b.offered, fun r => b.demand r ∧ F r⟩

/-- A join on the condition of its optional side and its own; as an optional side it gives both of
them on. -/
noncomputable def optional (m e : Reading V) (F : Row V → Prop) : Reading V :=
  ⟨Rows.leftJoin m.alone e.offered fun r => e.demand r ∧ F r,
    Rows.leftJoin m.alone e.offered fun _ => True, fun r => e.demand r ∧ F r⟩

theorem filtered_filtered (b : Reading V) (F G : Row V → Prop) :
    (b.filtered F).filtered G = b.filtered fun r => F r ∧ G r := by
  simp only [filtered, Rows.select_select, and_assoc]

theorem optional_filtered (m e : Reading V) (F G : Row V → Prop) :
    m.optional (e.filtered F) G = m.optional e fun r => F r ∧ G r := by
  simp only [optional, filtered, and_assoc]

theorem optional_optional (m n e : Reading V) (F G : Row V → Prop) :
    m.optional (n.optional e F) G =
      m.optional (n.optional e fun _ => True) fun r => F r ∧ G r := by
  simp only [optional, and_true, and_assoc]

end Reading

namespace Plan

mutual

noncomputable def reading (I : Interpretation V) : Plan → Reading V
  | conj operands => .plain ((readings I operands).foldr Rows.join {Row.empty})
  | disj operands => .plain (readings I operands).sum
  | minus left right =>
    .plain (Rows.select (· ∉ (reading I right).alone) (reading I left).alone)
  | optional main extra condition =>
    (reading I main).optional (reading I extra) (condition.Holds I)
  | filtered body condition => (reading I body).filtered (condition.Holds I)
  | p => .plain (I.rows p)

noncomputable def readings (I : Interpretation V) : List Plan → List (Multiset (Row V))
  | [] => []
  | p :: rest => (reading I p).alone :: readings I rest

end

theorem meanings_eq_map (I : Interpretation V) (ps : List Plan) :
    meanings I ps = ps.map (meaning I) := by
  induction ps with
  | nil => rfl
  | cons p ps ih => rw [meanings, ih, List.map_cons]

theorem readings_eq_map (I : Interpretation V) (ps : List Plan) :
    readings I ps = ps.map fun p => (reading I p).alone := by
  induction ps with
  | nil => rfl
  | cons p ps ih => rw [readings, ih, List.map_cons]

theorem readings_map {I : Interpretation V} {f : Plan → Plan} {ps : List Plan}
    (h : ∀ p ∈ ps, (f p).reading I = p.reading I) : readings I (ps.map f) = readings I ps := by
  rw [readings_eq_map, readings_eq_map, List.map_map]
  apply List.map_congr_left
  intro p hp
  rw [Function.comp_apply, h p hp]

theorem meanings_eq_readings {I : Interpretation V} {ps : List Plan}
    (h : ∀ p ∈ ps, p.meaning I = (p.reading I).alone) : meanings I ps = readings I ps := by
  rw [meanings_eq_map, readings_eq_map]
  exact List.map_congr_left h

theorem reading_of_isSealed {p : Plan} (h : p.IsSealed) (I : Interpretation V) :
    p.reading I = .plain (I.rows p) := by
  cases p <;> first | rfl | exact h.elim

theorem reading_simplifyFiltered (I : Interpretation V) (r : Revision) (condition : Term) :
    (simplifyFiltered r condition).plan.reading I =
      (r.plan.reading I).filtered (condition.Holds I) := by
  rw [simplifyFiltered]
  split
  · rename_i body c he
    simp only [he, reading, Reading.filtered_filtered, Term.holds_conjoin]
  · rfl

theorem reading_liftFilter (I : Interpretation V) (m : Reading V) (r : Revision)
    (condition : Term) :
    m.optional ((liftFilter r condition).1.plan.reading I) ((liftFilter r condition).2.Holds I) =
      m.optional (r.plan.reading I) (condition.Holds I) := by
  rw [liftFilter]
  split
  · rename_i body c he
    simp only [he, reading, Reading.optional_filtered, Term.holds_conjoin]
  · rfl

theorem reading_liftJoin (I : Interpretation V) (m : Reading V) (r : Revision) (condition : Term) :
    m.optional ((liftJoin r condition).1.plan.reading I) ((liftJoin r condition).2.Holds I) =
      m.optional (r.plan.reading I) (condition.Holds I) := by
  rw [liftJoin]
  split
  · rename_i main extra c he
    split
    · rfl
    · simp only [he, reading, Term.holds_conjoin, Term.Holds]
      exact (Reading.optional_optional ..).symm
  · rfl

theorem reading_simplify (I : Interpretation V) (p : Plan) :
    p.simplify.plan.reading I = p.reading I := by
  induction p using spineInduction with
  | filtered body condition ih =>
    rw [simplify, reading_simplifyFiltered, ih, reading]
  | optional main extra condition ihm ihe =>
    have hm : ∀ e c, reading I (optional main.simplify.plan e c) =
        (main.reading I).optional (e.reading I) (c.Holds I) := by
      intro e c
      rw [reading, ihm]
    calc (optional main extra condition).simplify.plan.reading I
        = (main.reading I).optional
            ((liftJoin (liftFilter extra.simplify condition).1
              (liftFilter extra.simplify condition).2).1.plan.reading I)
            ((liftJoin (liftFilter extra.simplify condition).1
              (liftFilter extra.simplify condition).2).2.Holds I) := hm _ _
      _ = (main.reading I).optional (extra.simplify.plan.reading I) (condition.Holds I) := by
          rw [reading_liftJoin, reading_liftFilter]
      _ = (optional main extra condition).reading I := by rw [ihe, reading]
  | conj operands ih => rw [simplify_conj, reading, readings_map ih, reading]
  | disj operands ih => rw [simplify_disj, reading, readings_map ih, reading]
  | minus left right ihl ihr => simp only [simplify_minus, overBoth, reading, ihl, ihr]
  | closed p hp =>
    rw [simplify_of_isSealed hp]
    rfl

/-- Every condition that a join would take over is the literal true. -/
def IsUnconditional : Plan → Prop
  | filtered body condition => IsUnconditional body ∧ condition.isTrue = true
  | optional _ extra condition => IsUnconditional extra ∧ condition.isTrue = true
  | _ => True

/-- A join with the given main rows may take over the conditions of the plan without a change. A
condition may go if a joined row decides it as the row of the plan does; and that of a join, only
if it leaves something of every main row of that join. -/
def Portable (I : Interpretation V) (A : Multiset (Row V)) : Plan → Prop
  | filtered body condition => Portable I A body ∧
      ∀ r ∈ A, ∀ s ∈ body.meaning I, r.Compatible s →
        (condition.Holds I (r.merge s) ↔ condition.Holds I s)
  | optional main extra condition =>
    let demand (s : Row V) : Prop := (extra.reading I).demand s ∧ condition.Holds I s
    let offered : Multiset (Row V) := (extra.reading I).offered
    (∀ b ∈ main.meaning I, ∃ s ∈ Rows.extend b offered fun _ => True, demand s) ∧
      ∀ r ∈ A, ∀ s ∈ Rows.leftJoin (main.meaning I) offered fun _ => True, r.Compatible s →
        (demand (r.merge s) ↔ demand s)
  | _ => True

theorem IsUnconditional.reading_eq_plain {p : Plan} (h : p.IsUnconditional)
    (I : Interpretation V) : p.reading I = .plain (p.reading I).alone := by
  have hc {condition : Term} (ht : condition.isTrue = true) (r : Row V) :
      condition.Holds I r ↔ True := iff_true_intro (Term.holds_of_isTrue ht I r)
  induction p using spineInduction with
  | filtered body condition ih =>
    rw [reading, ih h.1]
    simp only [Reading.filtered, Reading.plain, hc h.2, and_true]
    rw [Rows.select_eq_self fun _ _ => trivial]
  | optional main extra condition ihm ihe =>
    rw [reading, ihe h.1]
    simp only [Reading.optional, Reading.plain, hc h.2, and_true]
  | conj => rfl
  | disj => rfl
  | minus => rfl
  | closed p hp => rw [reading_of_isSealed hp]; rfl

theorem Portable.leftJoin_eq {I : Interpretation V} {A : Multiset (Row V)} {p : Plan}
    (h : p.Portable I A) (hp : ∀ q, p.Reaches q → q.meaning I = (q.reading I).alone)
    (F : Row V → Prop) :
    Rows.leftJoin A (p.reading I).offered (fun r => (p.reading I).demand r ∧ F r) =
      Rows.leftJoin A (p.meaning I) F := by
  induction p using spineInduction generalizing F with
  | filtered body condition ih =>
    have hb := ih h.1 fun q hq => hp q (.head (List.mem_singleton.2 rfl) hq)
    rw [meaning, Rows.leftJoin_select h.2, ← hb]
    simp only [reading, Reading.filtered, and_assoc]
  | optional main extra condition ihm ihe =>
    have hmain := hp main (.head (by simp [parts]) (.refl main))
    have hrows : (optional main extra condition).meaning I =
        Rows.select ((optional main extra condition).reading I).demand
          ((optional main extra condition).reading I).offered := by
      rw [hp _ (.refl _)]
      simp only [reading, Reading.optional]
      rw [← hmain]
      exact Rows.leftJoin_eq_select h.1
    rw [hrows, Rows.leftJoin_select]
    simp only [reading, Reading.optional]
    rw [← hmain]
    exact h.2
  | conj => rw [hp _ (.refl _)]; simp only [reading, Reading.plain, true_and]
  | disj => rw [hp _ (.refl _)]; simp only [reading, Reading.plain, true_and]
  | minus => rw [hp _ (.refl _)]; simp only [reading, Reading.plain, true_and]
  | closed p hs =>
    rw [hp _ (.refl _), reading_of_isSealed hs]
    simp only [Reading.plain, true_and]

/-- Every join on the spine may take over the conditions of its optional side without a change. -/
def IsPortable (I : Interpretation V) (p : Plan) : Prop :=
  ∀ main extra condition, p.Reaches (optional main extra condition) →
    extra.Portable I (main.meaning I)

theorem IsPortable.part {I : Interpretation V} {p q : Plan} (h : p.IsPortable I)
    (hq : q ∈ p.parts) : q.IsPortable I :=
  fun main extra condition hr => h main extra condition (.head hq hr)

theorem IsPortable.meaning_eq_of_parts {I : Interpretation V} {p : Plan} (h : p.IsPortable I)
    (hq : ∀ q ∈ p.parts, ∀ r, q.Reaches r → r.meaning I = (r.reading I).alone) :
    p.meaning I = (p.reading I).alone := by
  have hp : ∀ q ∈ p.parts, q.meaning I = (q.reading I).alone := fun q hm => hq q hm q (.refl q)
  cases p with
  | filtered body condition =>
    rw [meaning, reading, hp body (by simp [parts])]
    rfl
  | optional main extra condition =>
    have hx := h main extra condition (.refl _)
    rw [meaning, ← hx.leftJoin_eq (hq extra (by simp [parts])), hp main (by simp [parts])]
    rfl
  | conj operands | disj operands =>
    have hoperands : meanings I operands = readings I operands := meanings_eq_readings hp
    rw [meaning, reading, hoperands]
    rfl
  | minus left right =>
    rw [meaning, reading, hp left (by simp [parts]), hp right (by simp [parts])]
    rfl
  | _ => rfl

theorem IsPortable.meaning_eq {I : Interpretation V} {p : Plan} (h : p.IsPortable I) :
    ∀ q, p.Reaches q → q.meaning I = (q.reading I).alone := by
  induction p using partsInduction with
  | step p ih =>
    intro q hq
    have hparts : ∀ r ∈ p.parts, ∀ s, r.Reaches s → s.meaning I = (s.reading I).alone :=
      fun r hr => ih r hr (h.part hr)
    rcases reaches_iff.1 hq with rfl | ⟨r, hr, hq⟩
    · exact h.meaning_eq_of_parts hparts
    · exact hparts r hr q hq

theorem IsNormal.isUnconditional {p : Plan} (h : p.IsNormal) (hb : p.IsBare) :
    p.IsUnconditional := by
  induction p using spineInduction with
  | filtered => exact hb.elim
  | optional main extra condition ihm ihe =>
    obtain ⟨he, _, hn⟩ := isNormal_optional.1 h
    exact ⟨ihe hn he, hb⟩
  | conj => trivial
  | disj => trivial
  | minus => trivial
  | closed p hp => cases p <;> trivial

theorem IsUnconditional.portable {p : Plan} (h : p.IsUnconditional) (I : Interpretation V)
    (A : Multiset (Row V)) : p.Portable I A := by
  induction p using spineInduction with
  | filtered body condition ih =>
    refine ⟨ih h.1, ?_⟩
    intro r _ s _ _
    exact iff_of_true (Term.holds_of_isTrue h.2 I _) (Term.holds_of_isTrue h.2 I _)
  | optional main extra condition =>
    have hdemand (s : Row V) : (extra.reading I).demand s ∧ condition.Holds I s := by
      rw [h.1.reading_eq_plain I]
      exact ⟨trivial, Term.holds_of_isTrue h.2 I s⟩
    constructor
    · intro b _
      obtain ⟨s, hs⟩ := Multiset.exists_mem_of_ne_zero
        (Rows.extend_ne_zero b (extra.reading I).offered fun _ => True)
      exact ⟨s, hs, hdemand s⟩
    · intro r _ s _ _
      exact iff_of_true (hdemand _) (hdemand s)
  | conj => trivial
  | disj => trivial
  | minus => trivial
  | closed p hp => cases p <;> trivial

theorem IsNormal.isPortable {p : Plan} (h : p.IsNormal) (I : Interpretation V) :
    p.IsPortable I := by
  intro main extra condition hr
  have hj : (optional main extra condition).IsNormal := fun q hq => h q (hr.trans hq)
  obtain ⟨hb, _, hn⟩ := isNormal_optional.1 hj
  exact (hn.isUnconditional hb).portable I _

/-- A simplified plan has the rows of the plan with the conditions of optional sides taken over by
their joins. Where that makes no difference to any join, it has the rows of the plan itself. -/
theorem meaning_simplify (I : Interpretation V) (p : Plan) :
    p.simplify.plan.meaning I = (p.reading I).alone ∧
      (p.IsPortable I → p.simplify.plan.meaning I = p.meaning I) := by
  have hs : p.simplify.plan.meaning I = (p.reading I).alone := by
    rw [((simplify_isNormal p).isPortable I).meaning_eq _ (.refl _), reading_simplify]
  refine ⟨hs, fun h => ?_⟩
  rw [hs, h.meaning_eq p (.refl p)]

def unitRow (x : Text) : Row Unit := fun y => if y = x then some () else none

/-- A triple has the one row that binds its subject, and `bound` asks for a value. -/
def boundness : Interpretation Unit where
  rows
    | constraint { subject := .var x, .. } => {unitRow x}
    | _ => 0
  test
    | .test .bound [.var x], r => r x = some ()
    | _, _ => False

def about (x : Text) : Plan :=
  constraint { subject := .var x, predicate := .iri "p", object := .iri "o" }

def isBound (x : Text) : Term := .test .bound [.var x]

theorem holds_isBound (x : Text) (r : Row Unit) :
    (isBound x).Holds boundness r ↔ r x = some () := Iff.rfl

theorem compatible_unit (r s : Row Unit) : r.Compatible s := fun _ _ _ _ _ => rfl

theorem merge_unitRow_ne {x y : Text} (h : y ≠ x) : (unitRow x).merge (unitRow y) ≠ unitRow x := by
  intro he
  have hy := congrFun he y
  simp [Row.merge, unitRow, h] at hy

/-- The filter on the optional side asks for a variable of the main side. -/
def foreignFilter : Plan :=
  optional (about "x") (filtered (about "y") (isBound "x")) (.bool true)

/-- The condition of the join on the optional side is never true. -/
def failingJoin : Plan :=
  optional (about "x") (optional (about "y") (about "z") (isBound "w")) (.bool true)

def ownFilter : Plan :=
  optional (about "x") (filtered (about "y") (isBound "y")) (.bool true)

def ownJoin : Plan :=
  optional (about "x") (optional (about "y") (about "z") (isBound "y")) (.bool true)

theorem meaning_simplify_ne :
    foreignFilter.simplify.plan.meaning boundness ≠ foreignFilter.meaning boundness ∧
      failingJoin.simplify.plan.meaning boundness ≠ failingJoin.meaning boundness := by
  have hne : (unitRow "x").merge (unitRow "y") ≠ unitRow "x" := merge_unitRow_ne (by decide)
  constructor
  · -- the main row alone becomes both rows together
    have hs : foreignFilter.simplify.plan.meaning boundness =
        {(unitRow "x").merge (unitRow "y")} := by
      change Rows.leftJoin {unitRow "x"} {unitRow "y"} ((isBound "x").Holds boundness) = _
      rw [Rows.leftJoin_singleton]
      exact Rows.extend_singleton_pos (compatible_unit _ _) ((holds_isBound _ _).2 (by decide))
    have hp : foreignFilter.meaning boundness = {unitRow "x"} := by
      change Rows.leftJoin {unitRow "x"} (Rows.select ((isBound "x").Holds boundness)
        {unitRow "y"}) _ = _
      rw [Rows.leftJoin_singleton, Rows.select_eq_zero, Rows.extend_zero]
      simp only [Multiset.mem_singleton, forall_eq, holds_isBound]
      decide
    rw [hs, hp, Ne, Multiset.singleton_inj]
    exact hne
  · -- the main row loses the row that the inner join kept
    have hs : failingJoin.simplify.plan.meaning boundness = {unitRow "x"} := by
      change Rows.leftJoin {unitRow "x"} (Rows.leftJoin {unitRow "y"} {unitRow "z"}
        ((Term.bool true).Holds boundness)) ((isBound "w").Holds boundness) = _
      rw [Rows.leftJoin_singleton, Rows.leftJoin_singleton,
        Rows.extend_singleton_pos (compatible_unit _ _) (Term.holds_of_isTrue rfl _ _)]
      refine Rows.extend_singleton_neg (compatible_unit _ _) fun h => ?_
      exact absurd ((holds_isBound _ _).1 h) (by decide)
    have hp : failingJoin.meaning boundness = {(unitRow "x").merge (unitRow "y")} := by
      change Rows.leftJoin {unitRow "x"} (Rows.leftJoin {unitRow "y"} {unitRow "z"}
        ((isBound "w").Holds boundness)) ((Term.bool true).Holds boundness) = _
      rw [Rows.leftJoin_singleton, Rows.leftJoin_singleton,
        Rows.extend_singleton_neg (compatible_unit _ _) fun h =>
          absurd ((holds_isBound _ _).1 h) (by decide)]
      exact Rows.extend_singleton_pos (compatible_unit _ _) (Term.holds_of_isTrue rfl _ _)
    rw [hs, hp, Ne, Multiset.singleton_inj]
    exact hne.symm

theorem ownFilter_isPortable : ownFilter.IsPortable boundness := by
  intro main extra condition hr
  rcases reaches_iff.1 hr with he | ⟨q, hq, hr⟩
  · cases he
    refine ⟨trivial, fun r hr s hs _ => ?_⟩
    rw [Multiset.mem_singleton.1 hr, Multiset.mem_singleton.1 hs, holds_isBound, holds_isBound]
    decide
  · have hn : q.IsNormal := by
      rcases List.mem_pair.1 hq with rfl | rfl
      · exact IsSealed.isNormal trivial
      · exact isNormal_filtered.2 ⟨id, IsSealed.isNormal trivial⟩
    exact hn.isPortable boundness main extra condition hr

theorem ownJoin_isPortable : ownJoin.IsPortable boundness := by
  have hrows : Rows.extend (unitRow "y") {unitRow "z"} (fun _ => True) =
      {(unitRow "y").merge (unitRow "z")} :=
    Rows.extend_singleton_pos (compatible_unit _ _) trivial
  intro main extra condition hr
  rcases reaches_iff.1 hr with he | ⟨q, hq, hr⟩
  · cases he
    constructor
    · intro b hb
      rw [Multiset.mem_singleton.1 hb]
      refine ⟨_, hrows ▸ Multiset.mem_singleton_self _, trivial, ?_⟩
      exact (holds_isBound _ _).2 (by decide)
    · intro r hr s hs _
      have hs' : s ∈ Rows.leftJoin {unitRow "y"} {unitRow "z"} fun _ => True := hs
      rw [Rows.leftJoin_singleton, hrows] at hs'
      rw [Multiset.mem_singleton.1 hr, Multiset.mem_singleton.1 hs']
      refine and_congr Iff.rfl ?_
      rw [holds_isBound, holds_isBound]
      decide
  · have hn : q.IsNormal := by
      rcases List.mem_pair.1 hq with rfl | rfl
      · exact IsSealed.isNormal trivial
      · refine isNormal_optional.2 ⟨trivial, ?_, ?_⟩
        · exact IsSealed.isNormal trivial
        · exact IsSealed.isNormal trivial
    exact hn.isPortable boundness main extra condition hr

/-- Both kinds of conditions are taken over without a change: that of a filter, and that of a
join. -/
theorem meaning_simplify_ownFilter :
    (ownFilter.simplify.plan = optional (about "x") (about "y") (isBound "y") ∧
      ownFilter.IsPortable boundness ∧
      ownFilter.simplify.plan.meaning boundness = ownFilter.meaning boundness) ∧
    ownJoin.simplify.plan =
        optional (about "x") (optional (about "y") (about "z") (.bool true)) (isBound "y") ∧
      ownJoin.IsPortable boundness ∧
      ownJoin.simplify.plan.meaning boundness = ownJoin.meaning boundness :=
  ⟨⟨rfl, ownFilter_isPortable, (meaning_simplify boundness ownFilter).2 ownFilter_isPortable⟩,
    rfl, ownJoin_isPortable, (meaning_simplify boundness ownJoin).2 ownJoin_isPortable⟩

end Plan

end GraphQuery
