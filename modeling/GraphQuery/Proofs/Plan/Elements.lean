import GraphQuery.Proofs.Plan.Renamed

namespace GraphQuery

theorem Constraint.map_map (c : Constraint) (f g : Element → Element) :
    (c.map f).map g = c.map fun e => g (f e) := by
  obtain ⟨subject, predicate, object, graph⟩ := c
  cases graph <;> rfl

namespace Plan

theorem mapLeaf_mapLeaf (f f' : Element → Element) (g g' : Text → Text) (p : Plan) :
    (p.mapLeaf f g).mapLeaf f' g' = p.mapLeaf (fun e => f' (f e)) fun v => g' (g v) := by
  cases p with
  | constraint c | closure c zero => rw [mapLeaf, mapLeaf, mapLeaf, Constraint.map_map]
  | is var value graph => cases graph <;> rfl
  | transitive step first last zero => rw [mapLeaf, mapLeaf, mapLeaf, Constraint.map_map]
  | walk start step => rw [mapLeaf, mapLeaf, mapLeaf, Constraint.map_map]
  | _ => rfl

theorem isLeaf_of_mem_leafElements {p : Plan} {e : Element} (h : e ∈ p.leafElements) :
    p.IsLeaf := by
  cases p with
  | constraint | is | closure | transitive | walk => rfl
  | _ => cases h

mutual

def elements : Plan → List Element
  | conj operands | disj operands => elementsAll operands
  | minus left right => elements left ++ elements right
  | optional main extra _ => elements main ++ elements extra
  | filtered body _ | within body _ | bind body _ _ => elements body
  | leaf => leaf.leafElements

def elementsAll : List Plan → List Element
  | [] => []
  | p :: rest => elements p ++ elementsAll rest

end

/-- The plan with the elements of its leaves blanked out. Kinds and numbers of parts, closures,
conditions, graphs and bindings are still there. -/
def outline (p : Plan) : Plan := p.mapLeaves (mapLeaf (fun _ => .node 0) fun _ => [])

theorem elementsAll_eq_flatMap (ps : List Plan) : elementsAll ps = ps.flatMap elements := by
  induction ps with
  | nil => rfl
  | cons p ps ih => rw [elementsAll, ih, List.flatMap_cons]

theorem elements_eq (p : Plan) : p.elements = p.leafElements ++ p.children.flatMap elements := by
  cases p with
  | conj operands | disj operands => exact elementsAll_eq_flatMap operands
  | minus left right | optional left right condition =>
    simp [elements, leafElements, children]
  | filtered body | within body | bind body => simp [elements, leafElements, children]
  | _ => exact (List.append_nil _).symm

theorem mem_elements {p : Plan} {e : Element} :
    e ∈ p.elements ↔ ∃ l, p.Contains l ∧ l.IsLeaf ∧ e ∈ l.leafElements := by
  induction p using childInduction with
  | step p ih =>
    rw [elements_eq, List.mem_append, List.mem_flatMap]
    constructor
    · rintro (he | ⟨c, hc, he⟩)
      · exact ⟨p, contains_iff.2 (.inl rfl), isLeaf_of_mem_leafElements he, he⟩
      · obtain ⟨l, hl, he⟩ := (ih c hc).1 he
        exact ⟨l, contains_iff.2 (.inr ⟨c, hc, hl⟩), he⟩
    · rintro ⟨l, hl, he⟩
      rcases contains_iff.1 hl with rfl | ⟨c, hc, hl⟩
      · exact .inl he.2
      · exact .inr ⟨c, hc, (ih c hc).2 ⟨l, hl, he⟩⟩

section Renaming
variable {old new : Text}

theorem swapElement_swapElement {e : Element} (h : e ≠ .var new) :
    swapElement new old (swapElement old new e) = e := by
  rw [swapElement_eq_ite, swapElement_eq_ite]
  by_cases hold : e = .var old
  · rw [if_pos hold, if_pos rfl, hold]
  · rw [if_neg hold, if_neg h]

theorem elements_renamed (p : Plan) :
    (p.renamed old new).elements = p.elements.map (swapElement old new) := by
  induction p using childInduction with
  | step p ih =>
    rw [elements_eq, elements_eq p, leafElements_renamed, children_renamed, List.map_append,
      List.flatMap_map, List.map_flatMap, List.flatMap_congr ih]

theorem outline_renamed (p : Plan) : (p.renamed old new).outline = p.outline := by
  rw [outline, renamed, mapLeaves_mapLeaves fun _ hl => hl.renamedLeaf old new]
  apply mapLeaves_eq_iff.2
  intro l _ _
  rw [renamedLeaf, mapLeaf_mapLeaf]

theorem renamed_renamed {p : Plan} (h : .var new ∉ p.elements) :
    (p.renamed old new).renamed new old = p := by
  rw [renamed, renamed, mapLeaves_mapLeaves fun _ hl => hl.renamedLeaf old new]
  apply mapLeaves_eq_self_iff.2
  intro l hl hleaf
  rw [renamedLeaf, renamedLeaf, mapLeaf_mapLeaf]
  apply mapLeaf_eq_self fun _ => rfl
  intro e he
  apply swapElement_swapElement
  rintro rfl
  exact h (mem_elements.2 ⟨l, hl, hleaf, he⟩)

theorem keepsAt_rename {p q : Plan} {r : Revision} (h : p.rename old new = .ok r)
    {path : List Nat} (hq : p.at? path = some q) :
    r.KeepsAt p path ↔ .var old ∉ q.elements := by
  have hkeeps {l : Plan} (hl : l.IsLeaf) (place : List Nat) :
      Rules.Keeps (fun _ => some fun _ leaf => .ok (renameLeaf old new leaf)) place l ↔
        .var old ∉ l.leafElements := by
    rw [Rules.Keeps, answer?_renameLeaf hl, renameLeaf_eq]
    by_cases hold : .var old ∈ l.leafElements <;> simp [hold]
  rw [keepsAt_transform h hq, mem_elements]
  constructor
  · rintro hall ⟨l, ⟨below, hl⟩, hleaf, hold⟩
    exact (hkeeps hleaf _).1 (hall below l hl hleaf) hold
  · intro hnone below l hl hleaf
    exact (hkeeps hleaf _).2 fun hold => hnone ⟨l, ⟨below, hl⟩, hleaf, hold⟩

end Renaming

/-- Renaming succeeds on every plan that is complete. It puts the new variable in the place of the
old one among the elements of the leaves and leaves everything else as it is; the very part that
stood at a place stands there still exactly when the old variable does not occur under it, even if
both names are the same; and if the new name does not occur, renaming back restores the plan. -/
theorem rename_replaces_elements {p : Plan} (h : ¬ p.Contains missing) (old new : Text) :
    ∃ r, p.rename old new = .ok r ∧
      r.plan.elements = p.elements.map (fun e => if e = .var old then .var new else e) ∧
      r.plan.outline = p.outline ∧
      (∀ path q, p.at? path = some q → (r.KeepsAt p path ↔ .var old ∉ q.elements)) ∧
      (r = .keep p ↔ .var old ∉ p.elements) ∧
      (.var new ∉ p.elements → ∃ s, r.plan.rename new old = .ok s ∧ s.plan = p) := by
  obtain ⟨r, hr⟩ := exists_rename_eq_ok h old new
  have hplan := plan_rename hr
  refine ⟨r, hr, ?_, ?_, fun path q hq => keepsAt_rename hr hq, ?_, ?_⟩
  · rw [hplan, elements_renamed]
    exact List.map_congr_left fun e _ => swapElement_eq_ite old new e
  · rw [hplan, outline_renamed]
  · rw [eq_keep_iff_keepsAt]
    exact keepsAt_rename hr rfl
  · intro hnew
    have hback : r.plan.renamed new old = p := by rw [hplan, renamed_renamed hnew]
    have hcomplete : ¬ r.plan.Contains missing := by
      intro hmissing
      have hp := hmissing.mapLeaves (renamedLeaf new old)
      rw [← renamed, hback] at hp
      exact h hp
    obtain ⟨s, hs⟩ := exists_rename_eq_ok hcomplete new old
    exact ⟨s, hs, (plan_rename hs).trans hback⟩

def closureBesideGraph : Plan :=
  conj [closure { subject := .var "s", predicate := .iri "p", object := .var "o" } true,
    within (is "o" (.iri "e") none) (.var "s")]

/-- The variable is renamed where the closure starts, and still selects the graph. -/
theorem rename_replaces_elements_closureBesideGraph :
    ¬ closureBesideGraph.Contains missing ∧
      ∃ r, closureBesideGraph.rename "s" "x" = .ok r ∧
        r.plan.elements = [.var "x", .iri "p", .var "o", .var "o", .iri "e"] ∧
        r.plan.outline = closureBesideGraph.outline ∧
        r.KeepsAt closureBesideGraph [1] ∧ r ≠ .keep closureBesideGraph ∧
        ∃ s, r.plan.rename "x" "s" = .ok s ∧ s.plan = closureBesideGraph := by
  have hrename : ∃ r, closureBesideGraph.rename "s" "x" = .ok r := ⟨_, rfl⟩
  have hmissing : ¬ closureBesideGraph.Contains missing :=
    fun ⟨path, h⟩ => (exists_transform_eq_ok.1 hrename path missing h).1 rfl
  obtain ⟨r, hr, helements, houtline, hkeeps, hkept, hback⟩ :=
    rename_replaces_elements hmissing "s" "x"
  refine ⟨hmissing, r, hr, helements.trans (by decide), houtline, ?_, ?_, hback (by decide)⟩
  · exact (hkeeps [1] _ rfl).2 (by decide)
  · exact fun h => hkept.1 h (by decide)

end Plan

end GraphQuery
