import GraphQuery.Proofs.Form.AtomClasses
import GraphQuery.Proofs.Query.ClauseOrder
import GraphQuery.Proofs.Query.Expressions
import Mathlib.Data.Nat.Digits.Defs

namespace GraphQuery

def Atom.value (t : Text) : Int :=
  let digits := (Text.unsigned t).map fun b => b.toNat - '0'.toNat
  (if t.head? = some '-'.toUInt8 then -1 else 1) * (Nat.ofDigits 10 digits.reverse : Nat)

section Values
variable {t : Text}

theorem Text.toNat_eq_ofDigits (h : ∀ b ∈ t, isDigit b) :
    toNat t = Nat.ofDigits 10 (t.map fun b => b.toNat - '0'.toNat).reverse := by
  induction t using List.reverseRecOn with
  | nil => rfl
  | append_singleton t b ih =>
    obtain ⟨ht, hb⟩ := List.forall_mem_append.1 h
    have hdigit : (b - '0'.toUInt8).toNat = b.toNat - '0'.toNat := by
      have hle := hb b List.mem_cons_self
      simp only [isDigit, Bool.and_eq_true, decide_eq_true_eq] at hle
      exact UInt8.toNat_sub_of_le _ _ hle.1
    have hsnoc : toNat (t ++ [b]) = 10 * toNat t + (b - '0'.toUInt8).toNat := by
      simp [toNat]
    rw [hsnoc, ih ht, hdigit, List.map_append, List.reverse_append]
    simp [Nat.ofDigits_cons, Nat.add_comm]

theorem Atom.toInt_eq_value (h : isInteger t) : Text.toInt t = value t := by
  have hdigits := (isDigits_iff.1 h).2
  rw [Text.toInt, value, Text.toNat_eq_ofDigits hdigits]
  split
  · simp
  · simp

end Values

namespace Atom
variable {t : Text}

theorem classify_of_isInteger (h : isInteger t) : classify t = .ok .int := by
  rw [classify, if_neg, if_pos h]
  rintro (rfl | rfl)
  · exact absurd h (by decide)
  · exact absurd h (by decide)

theorem mem_of_isInteger (h : isInteger t) {b : UInt8} (hb : b ∈ t) :
    b ∈ ("+-" : Text) ++ ("0123456789" : Text) := by
  have hdigits := (isDigits_iff.1 h).2
  cases t with
  | nil => cases hb
  | cons c rest =>
    rw [Text.unsigned] at hdigits
    split at hdigits
    next hc =>
      rcases List.mem_cons.1 hb with rfl | hb
      · exact List.mem_append_left _ (mem_signs_iff.2 hc)
      · exact List.mem_append_right _ (mem_digits_iff.2 (hdigits b hb))
    next hc => exact List.mem_append_right _ (mem_digits_iff.2 (hdigits b hb))

theorem isLegible_of_isInteger (h : isInteger t) : (Leaf.atom t).IsLegible := by
  have hall : (("+-" : Text) ++ ("0123456789" : Text)).all fun b =>
      Scan.isAtomByte b ∧ b ≠ '<'.toUInt8 := by decide
  have hbytes (b : UInt8) (hb : b ∈ t) : Scan.isAtomByte b ∧ b ≠ '<'.toUInt8 := by
    simpa using List.all_eq_true.1 hall b (mem_of_isInteger h hb)
  refine Leaf.isLegible_atom ?_ (fun b hb => (hbytes b hb).1) ?_
  · rintro rfl
    exact absurd h (by decide)
  · intro hhead
    exact (hbytes _ (List.mem_of_mem_head? hhead)).2 rfl

theorem exists_read_eq_int (h : isInteger t) : ∃ pos, Form.read t = .ok (.atom pos .int t) := by
  have hlegible := Form.IsLegible.atom .start .int t (isLegible_of_isInteger h)
    (classify_of_isInteger h)
  obtain ⟨f, hf, hsimilar⟩ := hlegible.read_text (by simp [Form.strings])
  obtain ⟨pos, rfl⟩ := Form.Similar.atom hsimilar
  exact ⟨pos, hf⟩

end Atom

def IsInt64 (i : Int) : Prop := -(2 ^ 63) ≤ i ∧ i ≤ 2 ^ 63 - 1

def IsCount (i : Int) : Prop := 0 ≤ i ∧ i ≤ 2 ^ 31 - 1

section Readers
variable {t : Text} (h : Atom.isInteger t) (pos : Position)
include h

theorem Form.toInt_eq_ok {i : Int} :
    (atom pos .int t).toInt = .ok i ↔ IsInt64 (Atom.value t) ∧ i = Atom.value t := by
  have hfits : isInt64 (Atom.value t) ↔ IsInt64 (Atom.value t) := by
    simp only [isInt64, IsInt64, Bool.and_eq_true, decide_eq_true_eq]
    omega
  rw [toInt, Atom.toInt_eq_value h, ← hfits]
  by_cases hvalue : isInt64 (Atom.value t)
  · simp [hvalue, eq_comm]
  · simp [hvalue]

theorem Expression.ofAtom_int_eq_ok {e : Expression} :
    ofAtom pos .int t = .ok e ↔ IsInt64 (Atom.value t) ∧ e = .int (Atom.value t) := by
  have hatom : ofAtom pos .int t = .ok e ↔
      ∃ i, (Form.atom pos .int t).toInt = .ok i ∧ e = .int i := by
    rw [ofAtom]
    cases (Form.atom pos .int t).toInt <;> simp [eq_comm]
  simp [hatom, Form.toInt_eq_ok h pos, and_assoc]

/-- A count is an integer of 64 bits, so that the narrower bound decides. -/
theorem Query.countOfForm_int_eq_ok {n : Int} :
    countOfForm (.atom pos .int t) = .ok n ↔ IsCount (Atom.value t) ∧ n = Atom.value t := by
  have hcount : countOfForm (.atom pos .int t) = .ok n ↔
      ∃ i, (Form.atom pos .int t).toInt = .ok i ∧ (0 ≤ i ∧ i ≤ maxCount) ∧ n = i := by
    rw [countOfForm]
    cases (Form.atom pos .int t).toInt with
    | error e => simp
    | ok i => grind
  rw [hcount]
  simp only [Form.toInt_eq_ok h pos, IsInt64, IsCount, maxCount]
  constructor
  · rintro ⟨i, ⟨-, rfl⟩, hi, rfl⟩
    exact ⟨by omega, rfl⟩
  · rintro ⟨hi, rfl⟩
    exact ⟨_, ⟨by omega, rfl⟩, by omega, rfl⟩

end Readers

theorem Expression.ofText_integer {t : Text} (h : Atom.isInteger t) {e : Expression} :
    ofText t = .ok e ↔ IsInt64 (Atom.value t) ∧ e = .int (Atom.value t) := by
  obtain ⟨pos, hread⟩ := Atom.exists_read_eq_int h
  have hatom : ofText t = ofAtom pos .int t := by
    rw [ofText, Form.ofText, hread]
    exact ofForm.eq_1 pos .int t
  rw [hatom]
  exact ofAtom_int_eq_ok h pos

namespace Query

section Insertion
variable {front back : List Form} {c : Form × Form} {cs : List (Form × Form)}

theorem clauses_append (h : front.length % 2 = 0) (back : List Form) :
    clauses (front ++ back) = clauses front ++ clauses back := by
  induction front using List.twoStepInduction with
  | nil => rfl
  | singleton key => cases h
  | cons_cons key value rest ih _ =>
    rw [List.length_cons, List.length_cons] at h
    rw [List.cons_append, List.cons_append, clauses, clauses, ih (by omega), List.cons_append]

theorem isSome_foldl_takeClause (cs : List (Form × Form)) (q q' : Query) :
    (cs.foldl takeClause (some q)).isSome = (cs.foldl takeClause (some q')).isSome := by
  induction cs generalizing q q' with
  | nil => rfl
  | cons c cs ih =>
    rw [List.foldl_cons, List.foldl_cons]
    rcases isSettled c with ⟨a, ha⟩ | ⟨e, he⟩
    · rw [ha.takeClause_eq, ha.takeClause_eq]
      exact ih _ _
    · rw [takeClause_error he, takeClause_error he]

theorem foldl_takeClause_comm
    (h : ∀ d ∈ cs, ∀ key, c.1.keyword? = some key → d.1.keyword? ≠ some key)
    (q? : Option Query) :
    cs.foldl takeClause (takeClause q? c) = takeClause (cs.foldl takeClause q?) c := by
  induction cs generalizing q? with
  | nil => rfl
  | cons d cs ih =>
    obtain ⟨hd, hcs⟩ := List.forall_mem_cons.1 h
    rw [List.foldl_cons, List.foldl_cons, takeClause_comm hd]
    exact ih hcs _

theorem takeClause_some {q q' : Query} :
    takeClause (some q) c = some q' ↔ addClause q c = .ok q' := by
  rw [takeClause, Option.bind_some]
  cases addClause q c <;> simp [Except.toOption]

theorem ofForm_eq_ok_iff_foldl {forms : List Form} {hd : Head} {base q : Query}
    (hhd : (clauses forms).filterMap head? = [hd]) (hbase : ofHead hd = .ok base)
    (pos : Position) :
    ofForm (.group pos .curly forms) = .ok q ↔
      (clauses forms).foldl takeClause (some base) = some q := by
  rw [ofForm_map_eq_ok, hhd]
  constructor
  · rintro ⟨hd', base', hhd', hbase', hfold⟩
    cases hhd'
    rw [hbase] at hbase'
    cases hbase'
    exact hfold
  · intro hfold
    exact ⟨hd, base, rfl, hbase, hfold⟩

theorem ofForm_insert {key value : Form} {pos : Position} {q : Query}
    (heven : front.length % 2 = 0) (hhead : head? (key, value) = none)
    (h : ofForm (.group pos .curly (front ++ back)) = .ok q) :
    ((∃ q', ofForm (.group pos .curly (front ++ key :: value :: back)) = .ok q') ↔
      ∃ q', addClause q (key, value) = .ok q') ∧
    ((∀ d ∈ clauses back, ∀ k, key.keyword? = some k → d.1.keyword? ≠ some k) →
      ∀ q', ofForm (.group pos .curly (front ++ key :: value :: back)) = .ok q' →
        addClause q (key, value) = .ok q') := by
  obtain ⟨hd, base, hhd, hbase, hfold⟩ := ofForm_map_eq_ok.1 h
  have hclauses : clauses (front ++ key :: value :: back) =
      clauses front ++ (key, value) :: clauses back := clauses_append heven _
  have hheads : (clauses (front ++ key :: value :: back)).filterMap head? = [hd] := by
    rw [← hhd, hclauses, clauses_append heven, List.filterMap_append, List.filterMap_append,
      List.filterMap_cons_none hhead]
  simp only [ofForm_eq_ok_iff_foldl hheads hbase, hclauses, List.foldl_append, List.foldl_cons]
  rw [clauses_append heven, List.foldl_append] at hfold
  cases hfront : (clauses front).foldl takeClause (some base) with
  | none =>
    rw [hfront, foldl_takeClause_none] at hfold
    cases hfold
  | some q₁ =>
    rw [hfront] at hfold
    constructor
    · rcases isSettled (key, value) with ⟨a, ha⟩ | ⟨e, he⟩
      · have hsome := isSome_foldl_takeClause (clauses back) (a.apply q₁) q₁
        rw [hfold] at hsome
        rw [ha.takeClause_eq]
        exact iff_of_true (Option.isSome_iff_exists.1 hsome) ⟨_, ha.2 q⟩
      · rw [takeClause_error he, foldl_takeClause_none]
        simp [he]
    · intro hkeys q' hq'
      rw [foldl_takeClause_comm hkeys, hfold] at hq'
      exact takeClause_some.1 hq'

end Insertion

/-- A clause with the integer `t` behind a key may be put among those of a query exactly if the
integer is a count, and where no later clause has the key this count is the query's. -/
def TakesCount (key : Text) (set : Int → Clause) (t : Text) : Prop :=
  ∀ (pos keyPos valuePos : Position) (front back : List Form) (q : Query),
    front.length % 2 = 0 → ofForm (.group pos .curly (front ++ back)) = .ok q →
    let counted := Form.group pos .curly
      (front ++ .atom keyPos .keyword key :: .atom valuePos .int t :: back)
    ((∃ q', ofForm counted = .ok q') ↔ IsCount (Atom.value t)) ∧
    ((∀ c ∈ clauses back, c.1.keyword? ≠ some key) →
      ∀ q', ofForm counted = .ok q' → q' = (set (Atom.value t)).apply q)

theorem takesCount {key : Text} {set : Int → Clause}
    (hhead : ∀ pos value, head? (.atom pos .keyword key, value) = none)
    (hset : ∀ q pos value, addClause q (.atom pos .keyword key, value) =
      (countOfForm value).map fun n => (set n).apply q)
    {t : Text} (h : Atom.isInteger t) : TakesCount key set t := by
  intro pos keyPos valuePos front back q heven hq
  have hadd {q' : Query} : addClause q (.atom keyPos .keyword key, .atom valuePos .int t) = .ok q' ↔
      IsCount (Atom.value t) ∧ q' = (set (Atom.value t)).apply q := by
    rw [hset, map_eq_ok]
    simp only [countOfForm_int_eq_ok h valuePos]
    constructor
    · rintro ⟨n, ⟨hcount, rfl⟩, rfl⟩
      exact ⟨hcount, rfl⟩
    · rintro ⟨hcount, rfl⟩
      exact ⟨_, ⟨hcount, rfl⟩, rfl⟩
  obtain ⟨hexists, heq⟩ := ofForm_insert heven (hhead keyPos (.atom valuePos .int t)) hq
  constructor
  · rw [hexists]
    simp [hadd]
  · intro hkeys q' hq'
    refine (hadd.1 (heq ?_ q' hq')).2
    rintro d hd k ⟨⟩
    exact hkeys d hd

end Query

/-- The tests for the classes of atoms exclude one another, so that their order does not matter. An
atom that matches the pattern of integers is one wherever it stands; it is an expression exactly if
its value has 64 bits, and a limit or an offset exactly if its value is a count, and then that value
is what is read. -/
theorem Atom.classes_exact (t : Text) :
    rules.countP (·.test t) ≤ 1 ∧
    (∀ rs : List Rule, rs.Perm rules → firstOf rs t = classify t) ∧
    (integerPattern.rmatch t →
      (∀ pos, Form.ofLeaf pos (.atom t) = .ok (.atom pos .int t)) ∧
      (∀ e, Expression.ofText t = .ok e ↔ IsInt64 (value t) ∧ e = .int (value t)) ∧
      Query.TakesCount ":limit" .limit t ∧
      Query.TakesCount ":offset" .offset t) := by
  refine ⟨countP_rules_le_one t, ?_, ?_⟩
  · intro rs hrs
    rw [classify_eq_firstOf]
    exact (firstOf_perm hrs.symm (countP_rules_le_one t)).symm
  · intro hmatch
    have h := integer_rmatch_iff.1 hmatch
    refine ⟨?_, ?_, ?_, ?_⟩
    · intro pos
      rw [Form.ofLeaf, classify_of_isInteger h]
    · intro e
      exact Expression.ofText_integer h
    · exact Query.takesCount (fun _ _ => rfl) (fun _ _ _ => rfl) h
    · exact Query.takesCount (fun _ _ => rfl) (fun _ _ _ => rfl) h

def unlimitedQuery : List Form := (limitedQuery []).drop 2

/-- Leading zeros and signs, at the bounds and one beyond them. -/
theorem Atom.classes_exact_bounds :
    firstOf rules.reverse "+.5E-07" = classify "+.5E-07" ∧
    Expression.ofText "-009223372036854775808" = .ok (.int (-(2 ^ 63))) ∧
    (¬ ∃ e, Expression.ofText "+9223372036854775808" = .ok e) ∧
    (∃ q q', Query.ofForm (.group .start .curly unlimitedQuery) = .ok q ∧
      Query.ofForm (.group .start .curly (limitedQuery "002147483647")) = .ok q' ∧
      q' = { q with limit := some (2 ^ 31 - 1) }) ∧
    ¬ ∃ q, Query.ofForm (.group .start .curly (limitedQuery "2147483648")) = .ok q := by
  have hleast : value "-009223372036854775808" = -(2 ^ 63) := by decide +kernel
  have hbeyond : value "+9223372036854775808" = 2 ^ 63 := by decide +kernel
  have hgreatest : value "002147483647" = 2 ^ 31 - 1 := by decide +kernel
  have hover : value "2147483648" = 2 ^ 31 := by decide +kernel
  obtain ⟨q, hq⟩ := exists_eq_ok_of_isSome
    (x := Query.ofForm (.group .start .curly unlimitedQuery)) (by decide +kernel)
  refine ⟨(classes_exact "+.5E-07").2.1 _ (List.reverse_perm rules), ?_, ?_, ?_, ?_⟩
  · obtain ⟨-, hread, -⟩ := (classes_exact "-009223372036854775808").2.2 (by decide +kernel)
    rw [hread, hleast]
    exact ⟨⟨by decide, by decide⟩, rfl⟩
  · obtain ⟨-, hread, -⟩ := (classes_exact "+9223372036854775808").2.2 (by decide +kernel)
    rintro ⟨e, he⟩
    obtain ⟨⟨-, hle⟩, -⟩ := (hread e).1 he
    rw [hbeyond] at hle
    exact absurd hle (by decide)
  · obtain ⟨-, -, hlimit, -⟩ := (classes_exact "002147483647").2.2 (by decide +kernel)
    obtain ⟨haccepts, hcount⟩ := hlimit .start .start .start [] unlimitedQuery q rfl hq
    rw [hgreatest] at haccepts hcount
    obtain ⟨q', hq'⟩ := haccepts.2 ⟨by decide, by decide⟩
    have hkeys : (Query.clauses unlimitedQuery).all fun c => c.1.keyword? ≠ some ":limit" := by
      decide +kernel
    exact ⟨q, q', hq, hq', hcount (by simpa using hkeys) q' hq'⟩
  · obtain ⟨-, -, hlimit, -⟩ := (classes_exact "2147483648").2.2 (by decide +kernel)
    obtain ⟨haccepts, -⟩ := hlimit .start .start .start [] unlimitedQuery q rfl hq
    intro hexists
    obtain ⟨-, hle⟩ := haccepts.1 hexists
    rw [hover] at hle
    exact absurd hle (by decide)

end GraphQuery
