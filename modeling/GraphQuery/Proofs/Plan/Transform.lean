import GraphQuery.Proofs.Plan.Copies

namespace GraphQuery

namespace Sharing

/-- What has become of the part at a place. -/
def along : List Nat → Sharing → Sharing
  | [], s => s
  | i :: path, s => along path (s.part i)

end Sharing

/-- The very part that stood at a place of the given plan stands there still. -/
def Revision.KeepsAt (r : Revision) (given : Plan) (path : List Nat) : Prop :=
  (r.sharing.along path).isKept = true ∧ r.plan.at? path = given.at? path

namespace Plan

/-- What the rule for the kind of a leaf answers at its place, if there is a rule. -/
def Rules.answer? (rules : Rules) (path : List Nat) (leaf : Plan) :
    Option (Except Failure (Option Plan)) :=
  leaf.leafKind?.bind fun kind => (rules kind).map fun rule => rule path leaf

theorem Rules.answer?_below (rules : Rules) (i : Nat) (path : List Nat) (leaf : Plan) :
    (rules.below i).answer? path leaf = rules.answer? (i :: path) leaf := by
  simp only [answer?, below, Option.map_map]
  rfl

def Rules.image (rules : Rules) (path : List Nat) (leaf : Plan) : Plan :=
  match rules.answer? path leaf with
  | some (.ok (some p)) => p
  | _ => leaf

theorem Rules.image_below (rules : Rules) (i : Nat) :
    (rules.below i).image = fun path => rules.image (i :: path) := by
  funext path leaf
  rw [image, image, answer?_below]

def Rules.Keeps (rules : Rules) (path : List Nat) (leaf : Plan) : Prop :=
  rules.answer? path leaf = some (.ok none)

/-- The rules can make something of the plan at a place, as far as its direct parts do not
matter. -/
def Rules.Covers (rules : Rules) (path : List Nat) (p : Plan) : Prop :=
  p ≠ missing ∧ (p.IsLeaf → ∃ answer, rules.answer? path p = some (.ok answer))

section Below
variable {rules : Rules} {i : Nat} {path : List Nat} {p : Plan}

theorem Rules.keeps_below : (rules.below i).Keeps path p ↔ rules.Keeps (i :: path) p := by
  rw [Keeps, Keeps, answer?_below]

theorem Rules.covers_below : (rules.below i).Covers path p ↔ rules.Covers (i :: path) p := by
  rw [Covers, Covers, answer?_below]

theorem Rules.not_covers_iff :
    ¬ rules.Covers path p ↔ p = missing ∨ p.IsLeaf ∧
      (rules.answer? path p = none ∨ ∃ cause, rules.answer? path p = some (.error cause)) := by
  have hanswer (a : Option (Except Failure (Option Plan))) :
      (¬ ∃ answer, a = some (.ok answer)) ↔ a = none ∨ ∃ cause, a = some (.error cause) := by
    rcases a with _ | _ | _ <;> simp
  rw [Covers, Classical.not_and_iff_not_or_not, Classical.not_not, Classical.not_imp, hanswer]

end Below

variable {rules : Rules} {p : Plan}

theorem transform_of_leafKind? {kind : LeafKind} (h : p.leafKind? = some kind) :
    p.transform rules = transformLeaf rules kind p := by
  cases p with
  | constraint | is | closure | transitive | walk => cases h; rfl
  | _ => cases h

theorem transformLeaf_eq_ok {kind : LeafKind} (h : p.leafKind? = some kind) {r : Revision} :
    transformLeaf rules kind p = .ok r ↔
      ∃ answer, rules.answer? [] p = some (.ok answer) ∧
        r = answer.elim (.keep p) (⟨·, .replaced⟩) := by
  rw [transformLeaf, Rules.answer?, h, Option.bind_some]
  cases rules kind with
  | none => simp
  | some rule =>
    simp only [Option.map_some]
    cases rule [] p with
    | error e => simp
    | ok answer =>
      cases answer with
      | none => simp [eq_comm]
      | some q => simp [eq_comm]

theorem transform_tells {r : Revision} (h : p.transform rules = .ok r) : Revision.Tells p r := by
  rcases kind_cases p with rfl | rfl | ⟨kind, hkind⟩ | hinner
  · cases h
  · cases h
    exact Revision.tells_keep nothing
  · rw [transform_of_leafKind? hkind] at h
    obtain ⟨answer, -, rfl⟩ := (transformLeaf_eq_ok hkind).1 h
    cases answer with
    | none => exact Revision.tells_keep p
    | some q => exact nofun
  · cases p with
    | conj | disj | filtered | within | bind =>
      obtain ⟨copy, -, rfl⟩ := map_eq_ok.1 h
      exact Revision.tells_overAll _ _
    | minus | optional =>
      obtain ⟨l, -, hr⟩ := bind_eq_ok.1 h
      obtain ⟨r, -, heq⟩ := bind_eq_ok.1 hr
      cases heq
      exact Revision.tells_overAll _ _
    | _ => exact hinner.elim

def transformEach (rules : Rules) (n : Nat) (ps : List Plan) :
    Except TransformError (List Revision) :=
  (ps.zipIdx n).mapM fun e => e.1.transform (rules.below e.2)

theorem transformEach_tells {n : Nat} {ps : List Plan} {rs : List Revision}
    (h : transformEach rules n ps = .ok rs) : List.Forall₂ Revision.Tells ps rs := by
  have hrs := mapM_eq_ok.1 h
  rw [← List.zipIdx_map_fst (l := ps) (i := n), List.forall₂_map_left_iff]
  exact hrs.imp fun _ _ hr => transform_tells hr

theorem transformAll_copyOf {seen : List Plan} {rs : List Revision}
    (h : List.Forall₂ Revision.Tells seen rs) (ps : List Plan) :
    transformAll rules seen (Revision.copyOf rs) ps =
      (transformEach rules seen.length ps).map fun ss => Revision.copyOf (rs ++ ss) := by
  induction ps generalizing seen rs with
  | nil =>
    rw [transformAll, transformEach, List.zipIdx_nil, List.mapM_nil]
    exact congrArg (Except.ok ∘ Revision.copyOf) (List.append_nil rs).symm
  | cons p ps ih =>
    rw [transformAll, transformEach, List.zipIdx_cons, List.mapM_cons]
    cases hr : p.transform (rules.below seen.length) with
    | error e => rfl
    | ok r =>
      have hnext : List.Forall₂ Revision.Tells (seen ++ [p]) (rs ++ [r]) :=
        List.rel_append h (.cons (transform_tells hr) .nil)
      have hrest := ih hnext
      rw [← Revision.copied_copyOf h, List.length_append, transformEach] at hrest
      refine hrest.trans ?_
      cases (ps.zipIdx (seen.length + 1)).mapM fun e => e.1.transform (rules.below e.2) with
      | error e => rfl
      | ok ss => exact congrArg (Except.ok ∘ Revision.copyOf) (List.append_assoc rs [r] ss)

theorem overAll_transformAll {ps : List Plan} (h : p.children = ps) :
    (transformAll rules [] none ps).map (Revision.overAll p) =
      (transformEach rules 0 ps).map fun rs =>
        ⟨p.withParts (rs.map (·.plan)), .ofParts (rs.map (·.sharing))⟩ := by
  have hall : transformAll rules [] none ps = (transformEach rules 0 ps).map Revision.copyOf :=
    transformAll_copyOf .nil ps
  rw [hall]
  cases hrs : transformEach rules 0 ps with
  | error e => rfl
  | ok rs => exact congrArg Except.ok (Revision.overAll_copyOf (h ▸ transformEach_tells hrs))

/-- The kinds of plans with direct parts are all treated alike: the direct parts are transformed
one after another, and the plan is made over the results. -/
theorem transform_of_isInner (h : p.IsInner) :
    p.transform rules = (transformEach rules 0 p.children).map fun rs =>
      ⟨p.withParts (rs.map (·.plan)), .ofParts (rs.map (·.sharing))⟩ := by
  cases p with
  | conj ps => exact overAll_transformAll rfl
  | disj ps => exact overAll_transformAll rfl
  | minus left right | optional left right condition =>
    simp only [transform, transformEach, children, List.zipIdx, List.mapM_cons, List.mapM_nil]
    cases hl : left.transform (rules.below 0) with
    | error e => rfl
    | ok l =>
      cases hr : right.transform (rules.below 1) with
      | error e => rfl
      | ok r =>
        exact congrArg Except.ok
          (Revision.overTwo_eq rfl (transform_tells hl) (transform_tells hr))
  | filtered body | within body | bind body =>
    simp only [transform, transformEach, children, List.zipIdx, List.mapM_cons, List.mapM_nil]
    cases hr : body.transform (rules.below 0) with
    | error e => rfl
    | ok r => exact congrArg Except.ok (Revision.overOne_eq rfl (transform_tells hr))
  | _ => exact h.elim

theorem exists_transform_eq_ok :
    (∃ r, p.transform rules = .ok r) ↔ ∀ path q, p.at? path = some q → rules.Covers path q := by
  induction p using childInduction generalizing rules with
  | step p ih =>
    rw [forall_at?]
    rcases kind_cases p with rfl | rfl | ⟨kind, hkind⟩ | hinner
    · exact ⟨nofun, fun h => absurd rfl h.1.1⟩
    · refine ⟨fun _ => ⟨⟨nofun, nofun⟩, nofun⟩, fun _ => ⟨_, rfl⟩⟩
    · rw [transform_of_leafKind? hkind, children_of_leafKind? hkind]
      simp only [transformLeaf_eq_ok hkind]
      constructor
      · rintro ⟨r, answer, hanswer, -⟩
        refine ⟨⟨?_, fun _ => ⟨answer, hanswer⟩⟩, nofun⟩
        rintro rfl
        cases hkind
      · rintro ⟨⟨-, hleaf⟩, -⟩
        obtain ⟨answer, hanswer⟩ := hleaf (isLeaf_iff.2 ⟨kind, hkind⟩)
        exact ⟨_, answer, hanswer, rfl⟩
    · have hcovers : rules.Covers [] p :=
        ⟨hinner.ne_missing, fun hleaf => absurd hleaf hinner.not_isLeaf⟩
      have hparts : (∃ rs, transformEach rules 0 p.children = .ok rs) ↔
          ∀ i c, p.children[i]? = some c → ∀ path q, c.at? path = some q →
            rules.Covers (i :: path) q := by
        simp only [transformEach, exists_mapM_eq_ok, forall_mem_zipIdx, ← Rules.covers_below]
        exact forall₃_congr fun i c hc => ih c (List.mem_of_getElem? hc)
      rw [transform_of_isInner hinner, and_iff_right hcovers, ← hparts]
      constructor
      · rintro ⟨r, hr⟩
        obtain ⟨rs, hrs, -⟩ := map_eq_ok.1 hr
        exact ⟨rs, hrs⟩
      · rintro ⟨rs, hrs⟩
        exact ⟨_, map_eq_ok.2 ⟨rs, hrs, rfl⟩⟩

/-- The answers of the rules take the places of the leaves. -/
theorem plan_transform {r : Revision} (h : p.transform rules = .ok r) :
    r.plan = p.mapLeavesAt rules.image := by
  induction p using childInduction generalizing rules r with
  | step p ih =>
    rcases kind_cases p with rfl | rfl | ⟨kind, hkind⟩ | hinner
    · cases h
    · cases h
      rfl
    · rw [transform_of_leafKind? hkind] at h
      obtain ⟨answer, hanswer, rfl⟩ := (transformLeaf_eq_ok hkind).1 h
      rw [mapLeavesAt_of_leafKind? hkind, Rules.image, hanswer]
      cases answer <;> rfl
    · rw [transform_of_isInner hinner] at h
      obtain ⟨rs, hrs, rfl⟩ := map_eq_ok.1 h
      have hplans := map_of_mapM_eq_ok hrs fun e he r hr =>
        ih e.1 (List.mem_of_getElem? (List.mem_zipIdx_iff_getElem?.1 he)) hr
      rw [mapLeavesAt_of_isInner hinner, hplans]
      simp only [Rules.image_below]

/-- A plan is kept exactly when the rules leave all its leaves alone. -/
theorem isKept_transform {r : Revision} (h : p.transform rules = .ok r) :
    r.sharing.isKept = true ↔
      ∀ path l, p.at? path = some l → l.IsLeaf → rules.Keeps path l := by
  induction p using childInduction generalizing rules r with
  | step p ih =>
    rw [forall_at?]
    rcases kind_cases p with rfl | rfl | ⟨kind, hkind⟩ | hinner
    · cases h
    · cases h
      exact ⟨fun _ => ⟨nofun, nofun⟩, fun _ => rfl⟩
    · rw [transform_of_leafKind? hkind] at h
      obtain ⟨answer, hanswer, rfl⟩ := (transformLeaf_eq_ok hkind).1 h
      rw [children_of_leafKind? hkind, Rules.Keeps, hanswer, IsLeaf, hkind]
      cases answer with
      | none => simp [Revision.keep, Sharing.isKept]
      | some q => simp [Sharing.isKept]
    · rw [transform_of_isInner hinner] at h
      obtain ⟨rs, hrs, rfl⟩ := map_eq_ok.1 h
      rw [and_iff_right fun hleaf => absurd hleaf hinner.not_isLeaf, Sharing.isKept_ofParts,
        List.forall_mem_map, forall_mem_of_mapM_eq_ok hrs fun e he r hr =>
          ih e.1 (List.mem_of_getElem? (List.mem_zipIdx_iff_getElem?.1 he)) hr, forall_mem_zipIdx]
      simp only [Rules.keeps_below]

theorem transform_child {r : Revision} (h : p.transform rules = .ok r) {i : Nat} {c : Plan}
    (hc : p.children[i]? = some c) :
    ∃ s, c.transform (rules.below i) = .ok s ∧ r.plan.children[i]? = some s.plan ∧
      r.sharing.part i = s.sharing := by
  have hinner := isInner_of_mem_children (List.mem_of_getElem? hc)
  rw [transform_of_isInner hinner] at h
  obtain ⟨rs, hrs, rfl⟩ := map_eq_ok.1 h
  have hindexed : p.children.zipIdx[i]? = some (c, i) := by
    rw [List.getElem?_zipIdx, hc, Option.map_some, Nat.zero_add]
  obtain ⟨s, hs, hcs⟩ := getElem?_of_mapM_eq_ok hrs hindexed
  have hlength : (rs.map (·.plan)).length = p.children.length := by
    rw [List.length_map, ← (mapM_eq_ok.1 hrs).length_eq, List.length_zipIdx]
  refine ⟨s, hcs, ?_, ?_⟩
  · rw [children_withParts hinner hlength, List.getElem?_map, hs]
    rfl
  · apply Sharing.part_ofParts
    rw [List.getElem?_map, hs]
    rfl

theorem keepsAt_transform {r : Revision} (h : p.transform rules = .ok r) {path : List Nat}
    {q : Plan} (hq : p.at? path = some q) :
    r.KeepsAt p path ↔
      ∀ below l, q.at? below = some l → l.IsLeaf → rules.Keeps (path ++ below) l := by
  induction path generalizing p rules r with
  | nil =>
    cases hq
    simp only [List.nil_append]
    rw [← isKept_transform h]
    refine ⟨fun hkeeps => hkeeps.1, fun hkept => ⟨hkept, ?_⟩⟩
    rw [transform_tells h hkept]
  | cons i path ih =>
    obtain ⟨c, hc, hq⟩ := at?_cons_eq_some.1 hq
    obtain ⟨s, hs, hplan, hsharing⟩ := transform_child h hc
    have hrest := ih hs hq
    simp only [Rules.keeps_below] at hrest
    simp only [List.cons_append]
    rw [← hrest, Revision.KeepsAt, Revision.KeepsAt, Sharing.along, hsharing, at?, at?, hplan, hc]
    rfl

theorem eq_keep_iff_keepsAt {r : Revision} : r = .keep p ↔ r.KeepsAt p [] := by
  obtain ⟨plan, sharing⟩ := r
  constructor
  · rintro ⟨⟩
    exact ⟨rfl, rfl⟩
  · rintro ⟨hkept, hplan⟩
    cases Sharing.isKept_iff.1 hkept
    cases hplan
    rfl

/-- A transformation fails exactly when a plan was left out somewhere, or a leaf has no rule or
one that fails. Otherwise the answers of the rules stand in the places of the leaves, everything
else is as it was, and the very part that stood at a place stands there still exactly when the
rules leave all leaves under it alone. -/
theorem transform_replaces_leaves (rules : Rules) (p : Plan) :
    ((∃ e, p.transform rules = .error e) ↔
      p.Contains missing ∨ ∃ path l, p.at? path = some l ∧ l.IsLeaf ∧
        (rules.answer? path l = none ∨ ∃ cause, rules.answer? path l = some (.error cause))) ∧
    ∀ r, p.transform rules = .ok r →
      r.plan = p.mapLeavesAt rules.image ∧
      (∀ path q, p.at? path = some q →
        (r.KeepsAt p path ↔
          ∀ below l, q.at? below = some l → l.IsLeaf → rules.Keeps (path ++ below) l)) ∧
      (r = .keep p ↔ ∀ path l, p.at? path = some l → l.IsLeaf → rules.Keeps path l) := by
  constructor
  · rw [exists_eq_error, exists_transform_eq_ok]
    simp only [Classical.not_forall, Rules.not_covers_iff, exists_prop]
    constructor
    · rintro ⟨path, q, hq, rfl | hleaf⟩
      · exact .inl ⟨path, hq⟩
      · exact .inr ⟨path, q, hq, hleaf⟩
    · rintro (⟨path, hmissing⟩ | ⟨path, l, hl, hleaf⟩)
      · exact ⟨path, missing, hmissing, .inl rfl⟩
      · exact ⟨path, l, hl, .inr hleaf⟩
  · intro r hr
    refine ⟨plan_transform hr, fun path q hq => keepsAt_transform hr hq, ?_⟩
    rw [eq_keep_iff_keepsAt]
    exact keepsAt_transform hr rfl

/-- Drops the constraint at a place; other kinds of leaves have no rule. -/
def droppingAt (place : List Nat) : Rules
  | .constraint => some fun path _ => .ok (if path = place then some nothing else none)
  | _ => none

def tripleOf (predicate : Text) : Plan :=
  constraint { subject := .var "s", predicate := .iri predicate, object := .var "o" }

def twoTriples : Plan :=
  conj [filtered (disj [tripleOf "p", tripleOf "q"]) (.bool true),
    within (tripleOf "q") (.var "g")]

/-- One of two equal constraints is dropped; what does not stand above it is kept. Where there is no
rule for a leaf, the transformation fails. -/
theorem transform_replaces_leaves_dropping :
    (∃ r, twoTriples.transform (droppingAt [0, 0, 1]) = .ok r ∧
      r.plan = conj [filtered (disj [tripleOf "p", nothing]) (.bool true),
        within (tripleOf "q") (.var "g")] ∧
      r.KeepsAt twoTriples [1] ∧ ¬ r.KeepsAt twoTriples [0] ∧ r ≠ .keep twoTriples) ∧
    ∃ e, (conj [twoTriples, is "s" (.iri "o") none]).transform (droppingAt [0, 0, 1]) =
      .error e := by
  have hdropped : ¬ (droppingAt [0, 0, 1]).Keeps [0, 0, 1] (tripleOf "q") := nofun
  constructor
  · obtain ⟨hplan, hplaces, hroot⟩ :=
      (transform_replaces_leaves (droppingAt [0, 0, 1]) twoTriples).2 _ rfl
    refine ⟨_, rfl, hplan, ?_, ?_, ?_⟩
    · rw [hplaces [1] _ rfl]
      refine forall_at?.2 ⟨nofun, ?_⟩
      intro i c hc
      obtain ⟨rfl, rfl⟩ : i = 0 ∧ c = tripleOf "q" := by
        cases i with
        | zero => exact ⟨rfl, (Option.some.inj hc).symm⟩
        | succ i => cases hc
      exact forall_at?.2 ⟨fun _ => rfl, nofun⟩
    · rw [hplaces [0] _ rfl]
      intro hall
      exact hdropped (hall [0, 1] _ rfl rfl)
    · rw [Ne, hroot]
      intro hall
      exact hdropped (hall [0, 0, 1] _ rfl rfl)
  · apply (transform_replaces_leaves (droppingAt [0, 0, 1]) _).1.2
    exact .inr ⟨[1], _, rfl, rfl, .inl rfl⟩

end Plan

end GraphQuery
