import GraphQuery.Command.Dataset
import Mathlib.Data.List.Induction
import Mathlib.Data.List.Nodup

namespace GraphQuery

section Unique
variable {α : Type} [DecidableEq α]

theorem foldl_unique (xs seen : List α) (hseen : seen.Nodup) :
    (xs.foldl (fun seen x => if x ∈ seen then seen else seen ++ [x]) seen).Nodup ∧
      ∀ x, x ∈ xs.foldl (fun seen x => if x ∈ seen then seen else seen ++ [x]) seen ↔
        x ∈ seen ∨ x ∈ xs := by
  induction xs generalizing seen with
  | nil => exact ⟨hseen, by simp⟩
  | cons y ys ih =>
    rw [List.foldl_cons]
    split
    next hy =>
      obtain ⟨hnodup, hmem⟩ := ih seen hseen
      exact ⟨hnodup, by grind⟩
    next hy =>
      obtain ⟨hnodup, hmem⟩ := ih (seen ++ [y]) (by
        simpa using List.Nodup.concat hy hseen)
      exact ⟨hnodup, by grind⟩

theorem nodup_unique (xs : List α) : (unique xs).Nodup := (foldl_unique xs [] List.nodup_nil).1

theorem mem_unique {xs : List α} {x : α} : x ∈ unique xs ↔ x ∈ xs := by
  rw [unique, (foldl_unique xs [] List.nodup_nil).2 x]
  simp

theorem unique_concat (xs : List α) (x : α) :
    unique (xs ++ [x]) = if x ∈ unique xs then unique xs else unique xs ++ [x] := by
  rw [unique, List.foldl_append]
  rfl

theorem unique_eq_eraseDups [BEq α] [LawfulBEq α] (xs : List α) : unique xs = xs.eraseDups := by
  -- Members are taken from the left, so the list grows at its end.
  induction xs using List.reverseRecOn with
  | nil => rfl
  | append_singleton xs x ih =>
    rw [unique_concat, List.eraseDups_append, ← ih]
    by_cases hx : x ∈ xs
    · have hnone : [x].removeAll xs = [] := by simp [List.removeAll, hx]
      rw [if_pos (mem_unique.2 hx), hnone, List.eraseDups_nil, List.append_nil]
    · have hone : [x].removeAll xs = [x] := by simp [List.removeAll, hx]
      rw [if_neg fun h => hx (mem_unique.1 h), hone]
      rfl

end Unique

def firstFilled (lists : List (List Text)) : List Text := (lists.find? (!·.isEmpty)).getD []

def answered : Option (Except Failure (List Text)) → List Text
  | some (.ok graphs) => graphs
  | _ => []

section FirstFilled
variable {graphs : List Text} {lists : List (List Text)}

theorem firstFilled_nil_cons (lists : List (List Text)) :
    firstFilled ([] :: lists) = firstFilled lists := rfl

theorem firstFilled_cons (h : graphs ≠ []) (lists : List (List Text)) :
    firstFilled (graphs :: lists) = graphs := by
  cases graphs with
  | nil => exact absurd rfl h
  | cons g graphs => rfl

theorem firstFilled_ne_nil (hmem : graphs ∈ lists) (h : graphs ≠ []) : firstFilled lists ≠ [] := by
  induction lists with
  | nil => cases hmem
  | cons first lists ih =>
    by_cases hfirst : first = []
    · subst hfirst
      apply ih
      exact (List.mem_cons.1 hmem).resolve_left h
    · rw [firstFilled_cons hfirst]
      exact hfirst

theorem eraseDups_ne_nil (h : graphs ≠ []) : graphs.eraseDups ≠ [] := by
  obtain ⟨g, rest, rfl⟩ := List.exists_cons_of_ne_nil h
  rw [List.eraseDups_cons]
  exact List.cons_ne_nil _ _

end FirstFilled

namespace Options

/-- The graphs that a request, a query and the answer of a catalog name, or else a fallback. -/
def resolve (request query : List Text) (answer? : Option (Except Failure (List Text)))
    (fallback? : Option Text) : Except CompileFault (List Text × GraphSource) :=
  if request ≠ [] then .ok (request.eraseDups, .protocol)
  else if query ≠ [] then .ok (query.eraseDups, .query)
  else match answer? with
    | none => .ok (fallback?.toList, .fallback)
    | some (.error e) => .error (.catalog e)
    | some (.ok []) => .ok (fallback?.toList, .fallback)
    | some (.ok (g :: graphs)) => .ok ((g :: graphs).eraseDups, .catalog)

section Resolve
variable {request query graphs : List Text} {answer? : Option (Except Failure (List Text))}
  {fallback? : Option Text} {source : GraphSource}

theorem resolve_of_request (h : request ≠ []) :
    resolve request query answer? fallback? = .ok (request.eraseDups, .protocol) := if_pos h

theorem resolve_of_query (h : query ≠ []) :
    resolve [] query answer? fallback? = .ok (query.eraseDups, .query) := if_pos h

theorem resolve_eq_ok (h : resolve request query answer? fallback? = .ok (graphs, source)) :
    graphs = (firstFilled ([request, query, answered answer?] ++
        fallback?.toList.map ([·]))).eraseDups ∧
      (request = [] → query = [] → ∀ e, answer? ≠ some (.error e)) := by
  by_cases hrequest : request = []
  · subst hrequest
    by_cases hquery : query = []
    · subst hquery
      have hfallback : fallback?.toList = (firstFilled (fallback?.toList.map ([·]))).eraseDups := by
        cases fallback? with
        | none => rfl
        | some g => rfl
      match answer? with
      | none =>
        cases h
        exact ⟨hfallback, fun _ _ => nofun⟩
      | some (.error e) => cases h
      | some (.ok []) =>
        cases h
        exact ⟨hfallback, fun _ _ => nofun⟩
      | some (.ok (g :: graphs)) =>
        cases h
        exact ⟨rfl, fun _ _ => nofun⟩
    · rw [resolve_of_query hquery] at h
      cases h
      refine ⟨?_, fun _ hnil => absurd hnil hquery⟩
      rw [List.cons_append, firstFilled_nil_cons, List.cons_append, firstFilled_cons hquery]
  · rw [resolve_of_request hrequest] at h
    cases h
    refine ⟨?_, fun hnil => absurd hnil hrequest⟩
    rw [List.cons_append, firstFilled_cons hrequest]

theorem nodup_of_resolve_eq_ok
    (h : resolve request query answer? fallback? = .ok (graphs, source)) : graphs.Nodup := by
  rw [(resolve_eq_ok h).1, ← unique_eq_eraseDups]
  exact nodup_unique _

theorem exists_resolve_eq_ok (h : ∀ e, answer? ≠ some (.error e)) :
    ∃ r, resolve request query answer? fallback? = .ok r := by
  by_cases hrequest : request = []
  · subst hrequest
    by_cases hquery : query = []
    · subst hquery
      match answer? with
      | none => exact ⟨_, rfl⟩
      | some (.error e) => exact absurd rfl (h e)
      | some (.ok []) => exact ⟨_, rfl⟩
      | some (.ok (g :: graphs)) => exact ⟨_, rfl⟩
    · exact ⟨_, resolve_of_query hquery⟩
  · exact ⟨_, resolve_of_request hrequest⟩

/-- A place makes a difference only where the places before it name nothing. -/
theorem resolve_congr {query' : List Text} {answer?' : Option (Except Failure (List Text))}
    (hquery : request = [] → query' = query)
    (hanswer : request = [] → query = [] → answer?' = answer?) :
    resolve request query' answer?' fallback? = resolve request query answer? fallback? := by
  by_cases hrequest : request = []
  · rw [hquery hrequest]
    subst hrequest
    by_cases hnil : query = []
    · rw [hanswer rfl hnil]
    · rw [resolve_of_query hnil, resolve_of_query hnil]
  · rw [resolve_of_request hrequest, resolve_of_request hrequest]

end Resolve

theorem resolveDefault_eq (o : Options) (q : Query) :
    o.resolveDefault q = resolve o.defaultGraphs q.graphs (o.catalog.map (·.defaultGraphs))
      (some o.fallback) := by
  obtain ⟨request, _, fallback, _, catalog⟩ := o
  simp only [resolveDefault, unique_eq_eraseDups]
  cases request with
  | cons g request => rfl
  | nil =>
    cases q.graphs with
    | cons g query => rfl
    | nil =>
      match catalog with
      | none => rfl
      | some ⟨.error e, _⟩ => rfl
      | some ⟨.ok [], _⟩ => rfl
      | some ⟨.ok (g :: graphs), _⟩ => rfl

theorem resolveNamed_eq (o : Options) (q : Query) :
    o.resolveNamed q = (resolve o.namedGraphs q.namedGraphs (o.catalog.map (·.namedGraphs))
      none).map (·.1) := by
  obtain ⟨_, request, _, _, catalog⟩ := o
  simp only [resolveNamed, unique_eq_eraseDups]
  cases request with
  | cons g request => rfl
  | nil =>
    cases q.namedGraphs with
    | cons g query => rfl
    | nil =>
      match catalog with
      | none => rfl
      | some ⟨_, .error e⟩ => rfl
      | some ⟨_, .ok []⟩ => rfl
      | some ⟨_, .ok (g :: graphs)⟩ => exact congrArg Except.ok (unique_eq_eraseDups _)

end Options

end GraphQuery
