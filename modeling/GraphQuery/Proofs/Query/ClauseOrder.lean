import GraphQuery.Proofs.Success
import GraphQuery.Query.OfForm
import Mathlib.Data.List.Pairwise

namespace GraphQuery

inductive Clause where
  /-- The clause that decides the kind of the query and is taken before the others. -/
  | head
  | pattern (p : Pattern)
  | distinct (b : Bool)
  | graphs (iris : List Text)
  | namedGraphs (iris : List Text)
  | orderBy (keys : List OrderKey)
  | limit (n : Int)
  | offset (n : Int)

namespace Clause

/-- The key that stands in front of a clause; a head has several. -/
def key? : Clause → Option Text
  | head => none
  | pattern _ => some ":where"
  | distinct _ => some ":distinct"
  | graphs _ => some ":from"
  | namedGraphs _ => some ":from-named"
  | orderBy _ => some ":order-by"
  | limit _ => some ":limit"
  | offset _ => some ":offset"

def apply (c : Clause) (q : Query) : Query :=
  match c with
  | head => q
  | pattern p => { q with pattern := some p }
  | distinct b => { q with distinct := b }
  | graphs iris => { q with graphs := iris }
  | namedGraphs iris => { q with namedGraphs := iris }
  | orderBy keys => { q with orderBy := keys }
  | limit n => { q with limit := some n }
  | offset n => { q with offset := n }

theorem apply_comm {a b : Clause} (h : ∀ key, a.key? = some key → b.key? ≠ some key) (q : Query) :
    a.apply (b.apply q) = b.apply (a.apply q) := by
  cases a <;> cases b <;> try rfl
  -- what is left are two clauses for the same part
  all_goals exact absurd rfl (h _ rfl)

end Clause

def Form.keyword? : Form → Option Text
  | .atom _ .keyword key => some key
  | _ => none

namespace Query

/-- A pair of forms is this clause for every query. -/
def Says (c : Form × Form) (a : Clause) : Prop :=
  (∀ key, a.key? = some key → c.1.keyword? = some key) ∧ ∀ q, addClause q c = .ok (a.apply q)

def IsSettled (c : Form × Form) : Prop :=
  (∃ a, Says c a) ∨ ∃ e, ∀ q, addClause q c = .error e

theorem isSettled_of_set {α : Type} {pos : Position} {key : Text} {value : Form}
    {x : Except QueryError α} (set : α → Clause) (hkey : ∀ v, (set v).key? = some key)
    (hclause : ∀ q, addClause q (.atom pos .keyword key, value) = x.map fun v => (set v).apply q) :
    IsSettled (.atom pos .keyword key, value) := by
  cases x with
  | error e => exact .inr ⟨e, hclause⟩
  | ok v =>
    refine .inl ⟨set v, ?_, hclause⟩
    intro key' hkey'
    rw [← hkey', hkey]
    rfl

theorem isSettled_keyword (pos : Position) (key : Text) (value : Form) :
    IsSettled (.atom pos .keyword key, value) := by
  by_cases hhead : (kindOfKey? (.atom pos .keyword key)).isSome
  · exact .inl ⟨.head, nofun, fun q => by simp [addClause, hhead, Clause.apply]⟩
  by_cases hwhere : key = ":where"
  · subst hwhere
    exact isSettled_of_set .pattern (fun _ => rfl) fun _ => rfl
  by_cases hdistinct : key = ":distinct"
  · subst hdistinct
    refine isSettled_of_set .distinct (fun _ => rfl)
      (x := value.toBool.mapError fun _ => .invalid .distinctNotBoolean value) ?_
    intro q
    cases hvalue : value.toBool <;> simp [addClause, hhead, hvalue] <;> rfl
  by_cases hfrom : key = ":from"
  · subst hfrom
    exact isSettled_of_set .graphs (fun _ => rfl) fun _ => rfl
  by_cases hnamed : key = ":from-named"
  · subst hnamed
    exact isSettled_of_set .namedGraphs (fun _ => rfl) fun _ => rfl
  by_cases horder : key = ":order-by"
  · subst horder
    exact isSettled_of_set .orderBy (fun _ => rfl) fun _ => rfl
  by_cases hlimit : key = ":limit"
  · subst hlimit
    exact isSettled_of_set .limit (fun _ => rfl) fun _ => rfl
  by_cases hoffset : key = ":offset"
  · subst hoffset
    exact isSettled_of_set .offset (fun _ => rfl) fun _ => rfl
  refine .inr ⟨.invalid (.unknownClause key) (.atom pos .keyword key), fun q => ?_⟩
  simp [addClause, hhead, hwhere, hdistinct, hfrom, hnamed, horder, hlimit, hoffset]

theorem isSettled (c : Form × Form) : IsSettled c := by
  obtain ⟨form, value⟩ := c
  by_cases hform : ∃ pos key, form = .atom pos .keyword key
  · obtain ⟨pos, key, rfl⟩ := hform
    exact isSettled_keyword pos key value
  · refine .inr ⟨.invalid .keyNotKeyword form, fun q => ?_⟩
    unfold addClause
    split
    next pos key _ heq =>
      cases heq
      exact absurd ⟨pos, key, rfl⟩ hform
    next heq =>
      cases heq
      rfl

def takeClause (q? : Option Query) (c : Form × Form) : Option Query :=
  q?.bind fun q => (addClause q c).toOption

theorem Says.takeClause_eq {c : Form × Form} {a : Clause} (h : Says c a) (q? : Option Query) :
    takeClause q? c = q?.map a.apply := by
  cases q? with
  | none => rfl
  | some q => simp [takeClause, h.2 q, Except.toOption]

theorem takeClause_error {c : Form × Form} {e : QueryError} (h : ∀ q, addClause q c = .error e)
    (q? : Option Query) : takeClause q? c = none := by
  cases q? with
  | none => rfl
  | some q => simp [takeClause, h q, Except.toOption]

theorem takeClause_comm {c d : Form × Form}
    (h : ∀ key, c.1.keyword? = some key → d.1.keyword? ≠ some key) (q? : Option Query) :
    takeClause (takeClause q? c) d = takeClause (takeClause q? d) c := by
  rcases isSettled c with ⟨a, ha⟩ | ⟨e, he⟩
  · rcases isSettled d with ⟨b, hb⟩ | ⟨e, he⟩
    · rw [ha.takeClause_eq, hb.takeClause_eq, hb.takeClause_eq, ha.takeClause_eq,
        Option.map_map, Option.map_map]
      congr 1
      funext q
      exact Clause.apply_comm (fun key hkey hkey' => h key (ha.1 key hkey') (hb.1 key hkey)) q
    · rw [takeClause_error he, takeClause_error he]
      rfl
  · rw [takeClause_error he, takeClause_error he]
    rfl

theorem foldl_takeClause_none (cs : List (Form × Form)) : cs.foldl takeClause none = none := by
  induction cs with
  | nil => rfl
  | cons c cs ih => exact ih

theorem toOption_foldlM (cs : List (Form × Form)) (q : Query) :
    (cs.foldlM addClause q).toOption = cs.foldl takeClause (some q) := by
  induction cs generalizing q with
  | nil => rfl
  | cons c cs ih =>
    rw [List.foldlM_cons, List.foldl_cons]
    rcases isSettled c with ⟨a, ha⟩ | ⟨e, he⟩
    · rw [ha.2, ha.takeClause_eq]
      exact ih (a.apply q)
    · rw [he, takeClause_error he, foldl_takeClause_none]
      rfl

/-- Clauses with keys of their own may be taken in any order. -/
theorem foldl_takeClause_perm {cs ds : List (Form × Form)} (h : cs.Perm ds)
    (hkeys : (cs.filterMap (·.1.keyword?)).Nodup) (q? : Option Query) :
    cs.foldl takeClause q? = ds.foldl takeClause q? := by
  have hpairs := List.pairwise_filterMap.1 hkeys
  apply h.foldl_eq'
  intro c hc d hd q?
  -- only distinct clauses have distinct keys
  by_cases heq : c = d
  · rw [heq]
  · apply takeClause_comm
    intro key hkey hkey'
    have : Std.Symm fun c d : Form × Form => ∀ k, c.1.keyword? = some k →
        ∀ k', d.1.keyword? = some k' → k ≠ k' :=
      ⟨fun c d hne k hk k' hk' => (hne k' hk' k hk).symm⟩
    exact hpairs.forall hc hd heq key hkey key hkey' rfl

theorem findHead_eq_ok {form : Form} {cs : List (Form × Form)} {h : Head} :
    findHead form cs = .ok h ↔ cs.filterMap head? = [h] := by
  rw [findHead]
  split
  next hnone => simp [hnone]
  next h' hone => simp [hone]
  next h₁ h₂ rest hmany => simp [hmany]

theorem foldlM_eq_ok {cs : List (Form × Form)} {q q' : Query} :
    cs.foldlM addClause q = .ok q' ↔ cs.foldl takeClause (some q) = some q' := by
  rw [← toOption_foldlM]
  cases cs.foldlM addClause q <;> simp [Except.toOption]

theorem ofForm_map_eq_ok {pos : Position} {forms : List Form} {q : Query} :
    ofForm (.group pos .curly forms) = .ok q ↔
      ∃ h base, (clauses forms).filterMap head? = [h] ∧ ofHead h = .ok base ∧
        (clauses forms).foldl takeClause (some base) = some q := by
  simp only [ofForm, bind_eq_ok, findHead_eq_ok, foldlM_eq_ok, exists_and_left]

theorem ofForm_map_perm {forms forms' : List Form}
    (hperm : (clauses forms).Perm (clauses forms'))
    (hkeys : ((clauses forms).filterMap (·.1.keyword?)).Nodup) {pos pos' : Position} {q : Query} :
    ofForm (.group pos .curly forms) = .ok q ↔ ofForm (.group pos' .curly forms') = .ok q := by
  have hheads (h : Head) :
      (clauses forms).filterMap head? = [h] ↔ (clauses forms').filterMap head? = [h] := by
    rw [← List.perm_singleton, ← List.perm_singleton]
    exact ⟨(hperm.filterMap head?).symm.trans, (hperm.filterMap head?).trans⟩
  simp only [ofForm_map_eq_ok, hheads, foldl_takeClause_perm hperm hkeys]

end Query

theorem QueryError.code_failure (e : QueryError) : e.failure.code = "structural.query.invalid" := by
  cases e <;> rfl

/-- The clauses of a map with distinct keywords may stand in any order: the same query is read from
them, or none in either order, and a fault is reported as an invalid query. -/
theorem Query.ofForm_clauses_perm {forms forms' : List Form}
    (hperm : (clauses forms).Perm (clauses forms'))
    (hkeys : ((clauses forms).filterMap (·.1.keyword?)).Nodup) (pos pos' : Position) :
    (∃ q, ofForm (.group pos .curly forms) = .ok q ∧ ofForm (.group pos' .curly forms') = .ok q) ∨
      ∃ e e', ofForm (.group pos .curly forms) = .error e ∧
        ofForm (.group pos' .curly forms') = .error e' ∧
        e.failure.code = "structural.query.invalid" ∧
        e'.failure.code = "structural.query.invalid" := by
  cases hread : ofForm (.group pos .curly forms) with
  | ok q => exact .inl ⟨q, rfl, (ofForm_map_perm hperm hkeys).1 hread⟩
  | error e =>
    right
    have hnone : ¬ ∃ q, ofForm (.group pos' .curly forms') = .ok q := by
      rintro ⟨q, hq⟩
      have hok : ofForm (.group pos .curly forms) = .ok q := (ofForm_map_perm hperm hkeys).2 hq
      rw [hread] at hok
      cases hok
    obtain ⟨e', he'⟩ := exists_eq_error.2 hnone
    exact ⟨e, e', rfl, he', e.code_failure, e'.code_failure⟩

def limitedQuery (limit : Text) : List Form :=
  [.atom .start .keyword ":limit", .atom .start .int limit,
    .atom .start .keyword ":select", .group .start .square [.atom .start .var "?x"],
    .atom .start .keyword ":distinct", .atom .start .bool "true"]

def lateLimitedQuery (limit : Text) : List Form :=
  [.atom .start .keyword ":select", .group .start .square [.atom .start .var "?x"],
    .atom .start .keyword ":distinct", .atom .start .bool "true",
    .atom .start .keyword ":limit", .atom .start .int limit]

theorem Query.ofForm_clauses_perm_limitedQuery :
    (∃ q, ofForm (.group .start .curly (limitedQuery "2")) = .ok q ∧
      ofForm (.group .start .curly (lateLimitedQuery "2")) = .ok q) ∧
    ∃ e e', ofForm (.group .start .curly (limitedQuery "-2")) = .error e ∧
      ofForm (.group .start .curly (lateLimitedQuery "-2")) = .error e' ∧
      e.failure.code = "structural.query.invalid" ∧
      e'.failure.code = "structural.query.invalid" := by
  have hperm (limit : Text) :
      (clauses (limitedQuery limit)).Perm (clauses (lateLimitedQuery limit)) := by
    rw [← List.take_append_drop 1 (clauses (limitedQuery limit))]
    exact List.perm_append_comm
  have hkeys (limit : Text) : ((clauses (limitedQuery limit)).filterMap (·.1.keyword?)).Nodup := by
    have hkeys : (clauses (limitedQuery limit)).filterMap (·.1.keyword?) =
      [":limit", ":select", ":distinct"] := rfl
    rw [hkeys]
    decide +kernel
  constructor
  · rcases ofForm_clauses_perm (hperm "2") (hkeys "2") .start .start with hread | ⟨e, e', he, -⟩
    · exact hread
    · obtain ⟨q, hq⟩ := exists_eq_ok_of_isSome
        (x := ofForm (.group .start .curly (limitedQuery "2"))) (by decide +kernel)
      rw [he] at hq
      cases hq
  · rcases ofForm_clauses_perm (hperm "-2") (hkeys "-2") .start .start with ⟨q, hq, -⟩ | hfails
    · have hnone : (ofForm (.group .start .curly (limitedQuery "-2"))).toOption.isSome = false := by
        decide +kernel
      rw [hq] at hnone
      cases hnone
    · exact hfails

end GraphQuery
