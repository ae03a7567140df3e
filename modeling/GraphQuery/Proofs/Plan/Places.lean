import GraphQuery.Plan.Transform
import GraphQuery.Proofs.Success

namespace GraphQuery.Plan

/-- The part at a place, which is given by the numbers of the direct parts on the way. -/
def at? : List Nat → Plan → Option Plan
  | [], p => some p
  | i :: path, p => p.children[i]?.bind (at? path)

def Contains (p q : Plan) : Prop := ∃ path, p.at? path = some q

theorem at?_cons_eq_some {i : Nat} {path : List Nat} {p q : Plan} :
    p.at? (i :: path) = some q ↔ ∃ c, p.children[i]? = some c ∧ c.at? path = some q :=
  Option.bind_eq_some_iff

theorem contains_iff {p q : Plan} : p.Contains q ↔ p = q ∨ ∃ c ∈ p.children, c.Contains q := by
  constructor
  · rintro ⟨path, h⟩
    cases path with
    | nil => exact .inl (Option.some.inj h)
    | cons i path =>
      obtain ⟨c, hc, h⟩ := at?_cons_eq_some.1 h
      exact .inr ⟨c, List.mem_of_getElem? hc, path, h⟩
  · rintro (rfl | ⟨c, hc, path, h⟩)
    · exact ⟨[], rfl⟩
    · obtain ⟨i, hi⟩ := List.mem_iff_getElem?.1 hc
      exact ⟨i :: path, at?_cons_eq_some.2 ⟨c, hi, h⟩⟩

/-- What holds at all places of a plan holds of the plan and at all places of its direct parts. -/
theorem forall_at? {p : Plan} {P : List Nat → Plan → Prop} :
    (∀ path q, p.at? path = some q → P path q) ↔
      P [] p ∧ ∀ i c, p.children[i]? = some c →
        ∀ path q, c.at? path = some q → P (i :: path) q := by
  constructor
  · intro h
    exact ⟨h [] p rfl,
      fun i c hc path q hq => h (i :: path) q (at?_cons_eq_some.2 ⟨c, hc, hq⟩)⟩
  · rintro ⟨hp, hchildren⟩ path q hq
    cases path with
    | nil => exact Option.some.inj hq ▸ hp
    | cons i path =>
      obtain ⟨c, hc, hq⟩ := at?_cons_eq_some.1 hq
      exact hchildren i c hc path q hq

theorem childInduction {motive : Plan → Prop}
    (step : ∀ p, (∀ c ∈ p.children, motive c) → motive p) (p : Plan) : motive p := by
  induction p using Plan.rec (motive_2 := fun ps => ∀ p ∈ ps, motive p) with
  | conj operands ih => exact step _ ih
  | disj operands ih => exact step _ ih
  | minus left right ihl ihr => exact step _ (by simpa [children] using ⟨ihl, ihr⟩)
  | optional main extra condition ihm ihe =>
    exact step _ (by simpa [children] using ⟨ihm, ihe⟩)
  | filtered body condition ih => exact step _ (by simpa [children] using ih)
  | within body graph ih => exact step _ (by simpa [children] using ih)
  | bind body var value ih => exact step _ (by simpa [children] using ih)
  | nil => rename_i p hp; cases hp
  | cons p ps ihp ihps =>
    rename_i q hq
    rcases List.mem_cons.1 hq with rfl | hq
    · exact ihp
    · exact ihps q hq
  | _ => exact step _ (by simp [children])

theorem forall_mem_zipIdx {α : Type} {xs : List α} {P : α × Nat → Prop} :
    (∀ e ∈ xs.zipIdx, P e) ↔ ∀ i x, xs[i]? = some x → P (x, i) := by
  constructor
  · intro h i x hx
    exact h (x, i) (List.mem_zipIdx_iff_getElem?.2 hx)
  · intro h e he
    exact h e.2 e.1 (List.mem_zipIdx_iff_getElem?.1 he)

def IsLeaf (p : Plan) : Prop := p.leafKind?.isSome = true

theorem isLeaf_iff {p : Plan} : p.IsLeaf ↔ ∃ kind, p.leafKind? = some kind :=
  Option.isSome_iff_exists

def IsInner : Plan → Prop
  | conj _ | disj _ | minus .. | optional .. | filtered .. | within .. | bind .. => True
  | _ => False

theorem kind_cases (p : Plan) :
    p = missing ∨ p = nothing ∨ (∃ kind, p.leafKind? = some kind) ∨ p.IsInner := by
  cases p with
  | missing => exact .inl rfl
  | nothing => exact .inr (.inl rfl)
  | constraint | is | closure | transitive | walk => exact .inr (.inr (.inl ⟨_, rfl⟩))
  | _ => exact .inr (.inr (.inr trivial))

theorem IsInner.not_isLeaf {p : Plan} (h : p.IsInner) : ¬ p.IsLeaf := by
  cases p with
  | conj | disj | minus | optional | filtered | within | bind => exact Bool.false_ne_true
  | _ => exact h.elim

theorem IsInner.ne_missing {p : Plan} (h : p.IsInner) : p ≠ missing := by
  rintro rfl
  exact h

def leafElements : Plan → List Element
  | constraint c => c.elements
  | is var value graph => [.var var, value] ++ graph.toList
  | closure step _ => step.elements
  | transitive step first last _ => step.elements ++ [first, last]
  | walk start step => start :: step.elements
  | _ => []

theorem isInner_of_mem_children {p c : Plan} (h : c ∈ p.children) : p.IsInner := by
  cases p with
  | conj | disj | minus | optional | filtered | within | bind => trivial
  | _ => cases h

theorem children_of_leafKind? {p : Plan} {kind : LeafKind} (h : p.leafKind? = some kind) :
    p.children = [] := by
  cases p with
  | conj | disj | minus | optional | filtered | within | bind => cases h
  | _ => rfl

theorem children_withParts {p : Plan} (hp : p.IsInner) {ps : List Plan}
    (h : ps.length = p.children.length) : (p.withParts ps).children = ps := by
  cases p with
  | conj | disj => rfl
  | minus left right | optional left right condition =>
    obtain ⟨a, b, rfl⟩ := List.length_eq_two.1 h
    rfl
  | filtered body | within body | bind body =>
    obtain ⟨a, rfl⟩ := List.length_eq_one_iff.1 h
    rfl
  | _ => exact hp.elim

theorem withParts_children (p : Plan) : p.withParts p.children = p := by
  cases p <;> rfl

theorem IsInner.withParts {p : Plan} (hp : p.IsInner) (ps : List Plan) :
    (p.withParts ps).IsInner := by
  fun_cases Plan.withParts p ps with
  | case8 => exact hp
  | _ => trivial

theorem withParts_withParts {p : Plan} (hp : p.IsInner) {ps qs : List Plan}
    (hps : ps.length = p.children.length) (hqs : qs.length = p.children.length) :
    (p.withParts ps).withParts qs = p.withParts qs := by
  cases p with
  | conj | disj => rfl
  | minus left right | optional left right condition =>
    obtain ⟨a, b, rfl⟩ := List.length_eq_two.1 hps
    obtain ⟨c, d, rfl⟩ := List.length_eq_two.1 hqs
    rfl
  | filtered body | within body | bind body =>
    obtain ⟨a, rfl⟩ := List.length_eq_one_iff.1 hps
    obtain ⟨b, rfl⟩ := List.length_eq_one_iff.1 hqs
    rfl
  | _ => exact hp.elim

mutual

/-- The plan with every leaf replaced by what is made of it at its place, and everything else as it
is. -/
def mapLeavesAt (f : List Nat → Plan → Plan) : Plan → Plan
  | conj operands => conj (mapLeavesFrom f 0 operands)
  | disj operands => disj (mapLeavesFrom f 0 operands)
  | minus left right =>
    minus (mapLeavesAt (fun path => f (0 :: path)) left)
      (mapLeavesAt (fun path => f (1 :: path)) right)
  | optional main extra condition =>
    optional (mapLeavesAt (fun path => f (0 :: path)) main)
      (mapLeavesAt (fun path => f (1 :: path)) extra) condition
  | filtered body condition => filtered (mapLeavesAt (fun path => f (0 :: path)) body) condition
  | within body graph => within (mapLeavesAt (fun path => f (0 :: path)) body) graph
  | bind body var value => bind (mapLeavesAt (fun path => f (0 :: path)) body) var value
  | missing => missing
  | nothing => nothing
  | leaf => f [] leaf

def mapLeavesFrom (f : List Nat → Plan → Plan) (n : Nat) : List Plan → List Plan
  | [] => []
  | p :: rest => mapLeavesAt (fun path => f (n :: path)) p :: mapLeavesFrom f (n + 1) rest

end

def mapLeaves (f : Plan → Plan) : Plan → Plan := mapLeavesAt fun _ => f

theorem mapLeavesFrom_eq_map (f : List Nat → Plan → Plan) (n : Nat) (ps : List Plan) :
    mapLeavesFrom f n ps =
      (ps.zipIdx n).map fun e => e.1.mapLeavesAt fun path => f (e.2 :: path) := by
  induction ps generalizing n with
  | nil => rfl
  | cons p ps ih => rw [mapLeavesFrom, ih, List.zipIdx_cons, List.map_cons]

theorem mapLeavesAt_of_leafKind? {p : Plan} {kind : LeafKind} (h : p.leafKind? = some kind)
    (f : List Nat → Plan → Plan) : p.mapLeavesAt f = f [] p := by
  cases p with
  | constraint | is | closure | transitive | walk => rfl
  | _ => cases h

theorem mapLeavesAt_of_isInner {p : Plan} (h : p.IsInner) (f : List Nat → Plan → Plan) :
    p.mapLeavesAt f =
      p.withParts (p.children.zipIdx.map fun e => e.1.mapLeavesAt fun path => f (e.2 :: path)) := by
  rw [← mapLeavesFrom_eq_map]
  cases p with
  | conj | disj | minus | optional | filtered | within | bind => rfl
  | _ => exact h.elim

theorem mapLeaves_of_leafKind? {p : Plan} {kind : LeafKind} (h : p.leafKind? = some kind)
    (f : Plan → Plan) : p.mapLeaves f = f p :=
  mapLeavesAt_of_leafKind? h _

theorem mapLeaves_of_isInner {p : Plan} (h : p.IsInner) (f : Plan → Plan) :
    p.mapLeaves f = p.withParts (p.children.map (mapLeaves f)) := by
  have hparts : p.children.zipIdx.map (mapLeaves f ∘ Prod.fst) = p.children.map (mapLeaves f) := by
    rw [← List.map_map, List.zipIdx_map_fst]
  rw [← hparts]
  exact mapLeavesAt_of_isInner h _

section Equations
variable (f : Plan → Plan)

@[simp] theorem mapLeaves_conj (ps : List Plan) :
    (conj ps).mapLeaves f = conj (ps.map (mapLeaves f)) := by
  rw [mapLeaves_of_isInner (by trivial)]
  rfl

@[simp] theorem mapLeaves_disj (ps : List Plan) :
    (disj ps).mapLeaves f = disj (ps.map (mapLeaves f)) := by
  rw [mapLeaves_of_isInner (by trivial)]
  rfl

@[simp] theorem mapLeaves_minus (left right : Plan) :
    (minus left right).mapLeaves f = minus (left.mapLeaves f) (right.mapLeaves f) := rfl

@[simp] theorem mapLeaves_optional (main extra : Plan) (condition : Term) :
    (optional main extra condition).mapLeaves f =
      optional (main.mapLeaves f) (extra.mapLeaves f) condition := rfl

@[simp] theorem mapLeaves_filtered (body : Plan) (condition : Term) :
    (filtered body condition).mapLeaves f = filtered (body.mapLeaves f) condition := rfl

@[simp] theorem mapLeaves_within (body : Plan) (graph : Element) :
    (within body graph).mapLeaves f = within (body.mapLeaves f) graph := rfl

@[simp] theorem mapLeaves_bind (body : Plan) (var : Text) (value : Term) :
    (bind body var value).mapLeaves f = bind (body.mapLeaves f) var value := rfl

end Equations

theorem children_mapLeaves {p : Plan} (h : p.IsInner) (f : Plan → Plan) :
    (p.mapLeaves f).children = p.children.map (mapLeaves f) := by
  rw [mapLeaves_of_isInner h, children_withParts h (List.length_map _)]

theorem Contains.mapLeaves {p q : Plan} (h : p.Contains q) (f : Plan → Plan) :
    (p.mapLeaves f).Contains (q.mapLeaves f) := by
  obtain ⟨path, hq⟩ := h
  refine ⟨path, ?_⟩
  induction path generalizing p with
  | nil =>
    cases hq
    rfl
  | cons i path ih =>
    obtain ⟨c, hc, hq⟩ := at?_cons_eq_some.1 hq
    have hinner := isInner_of_mem_children (List.mem_of_getElem? hc)
    apply at?_cons_eq_some.2
    refine ⟨c.mapLeaves f, ?_, ih hq⟩
    rw [children_mapLeaves hinner, List.getElem?_map, hc]
    rfl

theorem mapLeaves_mapLeaves {f : Plan → Plan} (hf : ∀ l, l.IsLeaf → (f l).IsLeaf) (g : Plan → Plan)
    (p : Plan) : (p.mapLeaves f).mapLeaves g = p.mapLeaves fun l => g (f l) := by
  induction p using childInduction with
  | step p ih =>
    rcases kind_cases p with rfl | rfl | ⟨kind, hkind⟩ | hinner
    · rfl
    · rfl
    · rw [mapLeaves_of_leafKind? hkind, mapLeaves_of_leafKind? hkind]
      obtain ⟨kind, hkind⟩ := isLeaf_iff.1 (hf p (isLeaf_iff.2 ⟨kind, hkind⟩))
      exact mapLeaves_of_leafKind? hkind g
    · have hlength : (p.children.map (mapLeaves f)).length = p.children.length := List.length_map _
      rw [mapLeaves_of_isInner hinner f, mapLeaves_of_isInner (hinner.withParts _),
        children_withParts hinner hlength, List.map_map,
        withParts_withParts hinner hlength (List.length_map _), mapLeaves_of_isInner hinner]
      exact congrArg p.withParts (List.map_congr_left ih)

theorem mapLeavesAt_eq_iff {p : Plan} {f g : List Nat → Plan → Plan} :
    p.mapLeavesAt f = p.mapLeavesAt g ↔
      ∀ path l, p.at? path = some l → l.IsLeaf → f path l = g path l := by
  induction p using childInduction generalizing f g with
  | step p ih =>
    rw [forall_at?]
    rcases kind_cases p with rfl | rfl | ⟨kind, hkind⟩ | hinner
    · exact ⟨fun _ => ⟨nofun, nofun⟩, fun _ => rfl⟩
    · exact ⟨fun _ => ⟨nofun, nofun⟩, fun _ => rfl⟩
    · have hleaf : p.IsLeaf := isLeaf_iff.2 ⟨kind, hkind⟩
      rw [mapLeavesAt_of_leafKind? hkind, mapLeavesAt_of_leafKind? hkind,
        children_of_leafKind? hkind]
      exact ⟨fun h => ⟨fun _ => h, nofun⟩, fun h => h.1 hleaf⟩
    · have hlength (k : List Nat → Plan → Plan) :
          (p.children.zipIdx.map fun e => e.1.mapLeavesAt fun path => k (e.2 :: path)).length =
            p.children.length := by
        rw [List.length_map, List.length_zipIdx]
      rw [and_iff_right fun hleaf => absurd hleaf hinner.not_isLeaf,
        mapLeavesAt_of_isInner hinner, mapLeavesAt_of_isInner hinner]
      constructor
      · intro h i c hc
        have hchildren := congrArg children h
        rw [children_withParts hinner (hlength f),
          children_withParts hinner (hlength g)] at hchildren
        have hmem : (c, i) ∈ p.children.zipIdx := List.mem_zipIdx_iff_getElem?.2 hc
        exact (ih c (List.mem_of_getElem? hc)).1 (List.map_inj_left.1 hchildren _ hmem)
      · intro h
        refine congrArg p.withParts (List.map_congr_left fun e he => ?_)
        have hc := List.mem_zipIdx_iff_getElem?.1 he
        exact (ih e.1 (List.mem_of_getElem? hc)).2 (h e.2 e.1 hc)

theorem mapLeaves_eq_iff {p : Plan} {f g : Plan → Plan} :
    p.mapLeaves f = p.mapLeaves g ↔ ∀ l, p.Contains l → l.IsLeaf → f l = g l := by
  rw [mapLeaves, mapLeaves, mapLeavesAt_eq_iff]
  exact ⟨fun h l ⟨path, hl⟩ => h path l hl, fun h path l hl => h l ⟨path, hl⟩⟩

theorem mapLeavesAt_id (p : Plan) : p.mapLeavesAt (fun _ l => l) = p := by
  induction p using childInduction with
  | step p ih =>
    rcases kind_cases p with rfl | rfl | ⟨kind, hkind⟩ | hinner
    · rfl
    · rfl
    · exact mapLeavesAt_of_leafKind? hkind _
    · have hparts : (p.children.zipIdx.map fun e => e.1.mapLeavesAt fun _ l => l) = p.children := by
        conv_rhs => rw [← List.zipIdx_map_fst (l := p.children) (i := 0)]
        refine List.map_congr_left fun e he => ?_
        exact ih e.1 (List.mem_of_getElem? (List.mem_zipIdx_iff_getElem?.1 he))
      rw [mapLeavesAt_of_isInner hinner, hparts, withParts_children]

theorem mapLeavesAt_eq_self_iff {p : Plan} {f : List Nat → Plan → Plan} :
    p.mapLeavesAt f = p ↔ ∀ path l, p.at? path = some l → l.IsLeaf → f path l = l := by
  have hiff := mapLeavesAt_eq_iff (p := p) (f := f) (g := fun _ l => l)
  rwa [mapLeavesAt_id] at hiff

theorem mapLeaves_eq_self_iff {p : Plan} {f : Plan → Plan} :
    p.mapLeaves f = p ↔ ∀ l, p.Contains l → l.IsLeaf → f l = l := by
  rw [mapLeaves, mapLeavesAt_eq_self_iff]
  exact ⟨fun h l ⟨path, hl⟩ => h path l hl, fun h path l hl => h l ⟨path, hl⟩⟩

end GraphQuery.Plan
