import GraphQuery.Proofs.Success
import GraphQuery.Term.OfExpression

namespace GraphQuery

namespace Term

theorem require_eq_ok {facet : Facet} {e : Expression} {t u : Term} :
    t.require facet e = .ok u ↔ u = t ∧ facet ∈ t.facets := by
  rw [require]
  split
  · rename_i h
    constructor
    · intro hu
      exact ⟨(Except.ok.inj hu).symm, h⟩
    · rintro ⟨rfl, -⟩
      rfl
  · rename_i h
    constructor
    · intro hu
      cases hu
    · rintro ⟨-, hfacet⟩
      exact absurd hfacet h

theorem accept_eq_ok {facet? : Option Facet} {e : Expression} {t u : Term} :
    t.accept facet? e = .ok u ↔ u = t ∧ ∀ facet ∈ facet?, facet ∈ t.facets := by
  cases facet? with
  | none =>
    constructor
    · intro hu
      exact ⟨(Except.ok.inj hu).symm, nofun⟩
    · rintro ⟨rfl, -⟩
      rfl
  | some facet =>
    rw [accept, require_eq_ok]
    simp

end Term

namespace Expression

def operands : Expression → List Expression
  | signed _ e | not e => [e]
  | compare _ left right => [left, right]
  | call _ es | arithmetic _ es | logic _ es | builtIn _ es => es
  | _ => []

theorem operandInduction {motive : Expression → Prop}
    (step : ∀ e, (∀ x ∈ e.operands, motive x) → motive e) (e : Expression) : motive e := by
  induction e using Expression.rec (motive_2 := fun es => ∀ e ∈ es, motive e) with
  | signed _ e ih | not e ih => exact step _ (by simpa [operands] using ih)
  | compare _ left right ihl ihr => exact step _ (by simpa [operands] using ⟨ihl, ihr⟩)
  | call _ es ih | arithmetic _ es ih | logic _ es ih | builtIn _ es ih => exact step _ ih
  | nil => rename_i e he; cases he
  | cons e es ihe ihes =>
    rename_i x hx
    rcases List.mem_cons.1 hx with rfl | hx
    · exact ihe
    · exact ihes x hx
  | _ => exact step _ nofun

/-- The expression has the term, and the term has the facet that the place asks for, if any. -/
def HasTerm (facet? : Option Facet) (e : Expression) (t : Term) : Prop :=
  e.toTerm = .ok t ∧ ∀ facet ∈ facet?, facet ∈ t.facets

inductive TermOf : Expression → Term → Prop
  | bool (value : Bool) : TermOf (.bool value) (.bool value)
  | int (value : Int) :
    TermOf (.int value) (.numeric (Text.ofInt value) (Vocabulary.xsd "integer"))
  | decimal (lexical : Text) :
    TermOf (.decimal lexical) (.numeric lexical (Vocabulary.xsd "decimal"))
  | double (lexical : Text) : TermOf (.double lexical) (.numeric lexical (Vocabulary.xsd "double"))
  | var (name : Text) : TermOf (.var name) (.var name)
  | blank (label : Text) : TermOf (.blank label) (.var label)
  | literal (lexical language : Text) (datatype : Option Text) :
    TermOf (.literal lexical language datatype)
      (Term.ofLiteral lexical language (datatype.getD []))
  | iri (value : Text) : TermOf (.iri value) (.iri value)
  | cast {function : Text} {e : Expression} {t : Term} (hf : Vocabulary.isCast function = true)
    (h : e.HasTerm (some .value) t) : TermOf (.call function [e]) (.cast function t)
  | external {function : Text} {es : List Expression} {ts : List Term}
    (hf : Vocabulary.isCast function = false) (h : List.Forall₂ (HasTerm none) es ts) :
    TermOf (.call function es) (.external function ts)
  | plus {e : Expression} {t : Term} (h : e.HasTerm (some .numeric) t) : TermOf (.signed .plus e) t
  | minus {sign : Sign} {e : Expression} {lexical datatype : Text} (hs : sign ≠ .plus)
    (h : e.toTerm = .ok (.numeric lexical datatype)) :
    TermOf (.signed sign e) (.minus lexical datatype)
  | arithmetic {op : ArithmeticOp} {e e' : Expression} {es : List Expression} {t : Term}
    {ts : List Term} (hop : ∀ name, op ≠ .other name)
    (h : List.Forall₂ (HasTerm (some .numeric)) (e :: e' :: es) (t :: ts)) :
    TermOf (.arithmetic op (e :: e' :: es)) (ts.foldl (.arithmetic op) t)
  | compare {op : CompareOp} {left right : Expression} {l r : Term}
    (hop : ∀ name, op ≠ .other name) (hl : left.HasTerm op.operandFacet l)
    (hr : right.HasTerm op.operandFacet r) : TermOf (.compare op left right) (.compare op l r)
  | not {e : Expression} {t : Term} (h : e.HasTerm (some .filter) t) : TermOf (.not e) (.not t)
  | and {es : List Expression} {ts : List Term} (hes : 2 ≤ es.length)
    (h : List.Forall₂ (HasTerm (some .filter)) es ts) : TermOf (.logic .and es) (.and ts)
  | or {es : List Expression} {ts : List Term} (hes : 2 ≤ es.length)
    (h : List.Forall₂ (HasTerm (some .filter)) es ts) : TermOf (.logic .or es) (.or ts)
  | bound (name : Text) : TermOf (.builtIn .bound [.var name]) (.test .bound [.var name])
  | builtIn {name : BuiltIn} {es : List Expression} {ts : List Term} {least most : Nat}
    (hname : name ≠ .bound) (harity : name.arity? = some (least, most))
    (hes : least ≤ es.length ∧ es.length ≤ most)
    (h : List.Forall₂ (HasTerm (some .value)) es ts) :
    TermOf (.builtIn name es) (Term.ofBuiltIn name ts)

theorem toTerms_eq_ok {facet? : Option Facet} {es : List Expression} {ts : List Term} :
    toTerms facet? es = .ok ts ↔ List.Forall₂ (HasTerm facet?) es ts := by
  have hone (e : Expression) (t : Term) :
      (e.toTerm >>= (·.accept facet? e)) = .ok t ↔ e.HasTerm facet? t := by
    rw [bind_eq_ok, HasTerm]
    simp only [Term.accept_eq_ok]
    constructor
    · rintro ⟨u, hu, rfl, hfacet⟩
      exact ⟨hu, hfacet⟩
    · rintro ⟨ht, hfacet⟩
      exact ⟨t, ht, rfl, hfacet⟩
  have hmapM : toTerms facet? es = es.mapM fun e => e.toTerm >>= (·.accept facet? e) := by
    induction es with
    | nil => rfl
    | cons e es ih =>
      rw [toTerms, List.mapM_cons, ih]
      cases e.toTerm with
      | error fault => rfl
      | ok t =>
        have haccept : (Except.ok t >>= (·.accept facet? e)) = t.accept facet? e := rfl
        rw [haccept]
        dsimp only
        cases t.accept facet? e <;> rfl
  rw [hmapM, mapM_eq_ok]
  simp only [hone]

theorem toCondition_eq_ok {e : Expression} {t : Term} :
    e.toCondition = .ok t ↔ e.HasTerm (some .filter) t := by
  rw [toCondition, HasTerm]
  cases e.toTerm with
  | error fault => exact ⟨nofun, nofun⟩
  | ok u =>
    dsimp only
    split
    · rename_i hfacet
      constructor
      · rintro ⟨⟩
        exact ⟨rfl, by simpa using hfacet⟩
      · rintro ⟨⟨⟩, -⟩
        rfl
    · rename_i hfacet
      constructor
      · exact nofun
      · rintro ⟨⟨⟩, hall⟩
        exact absurd (hall .filter rfl) hfacet

theorem termOf_call {function : Text} {es : List Expression} {t : Term}
    (h : (call function es).toTerm = .ok t) : TermOf (call function es) t := by
  rw [toTerm] at h
  split at h
  · rename_i hf
    split at h
    · cases h
    · rename_i arg harg
      cases h
      have hes := toTerms_eq_ok.1 harg
      cases hes with
      | cons he hnil =>
        cases hnil
        exact .cast hf he
    · cases h
  · rename_i hf
    obtain ⟨ts, hts, rfl⟩ := map_eq_ok.1 h
    exact .external (Bool.eq_false_iff.2 hf) (toTerms_eq_ok.1 hts)

theorem termOf_signed {sign : Sign} {e : Expression} {t : Term}
    (h : (signed sign e).toTerm = .ok t) : TermOf (signed sign e) t := by
  rw [toTerm] at h
  split at h
  · cases h
  · rename_i u hu
    split at h
    · rename_i hs
      subst sign
      obtain ⟨rfl, hfacet⟩ := Term.require_eq_ok.1 h
      exact .plus ⟨hu, by simpa using hfacet⟩
    · rename_i hs
      split at h
      · cases h
        exact .minus hs hu
      · cases h

theorem termOf_arithmetic {op : ArithmeticOp} {es : List Expression} {t : Term}
    (h : (arithmetic op es).toTerm = .ok t) : TermOf (arithmetic op es) t := by
  rw [toTerm.eq_def] at h
  dsimp only at h
  split at h
  · split at h
    · cases h
    · rename_i hop
      split at h
      · cases h
      · rename_i u hu
        split at h
        · cases h
        · rename_i v hv
          obtain ⟨ts, hts, rfl⟩ := map_eq_ok.1 h
          obtain ⟨rfl, hfacet⟩ := Term.require_eq_ok.1 hv
          exact .arithmetic hop (.cons ⟨hu, by simpa using hfacet⟩ (toTerms_eq_ok.1 hts))
  · cases h

theorem termOf_compare {op : CompareOp} {left right : Expression} {t : Term}
    (h : (compare op left right).toTerm = .ok t) : TermOf (compare op left right) t := by
  rw [toTerm.eq_def] at h
  dsimp only at h
  split at h
  · cases h
  · rename_i hop
    split at h
    · cases h
    · rename_i l hl
      split at h
      · cases h
      · rename_i l' hl'
        split at h
        · cases h
        · rename_i r hr
          obtain ⟨r', hr', rfl⟩ := map_eq_ok.1 h
          obtain ⟨rfl, hlf⟩ := Term.accept_eq_ok.1 hl'
          obtain ⟨rfl, hrf⟩ := Term.accept_eq_ok.1 hr'
          exact .compare hop ⟨hl, hlf⟩ ⟨hr, hrf⟩

theorem termOf_not {e : Expression} {t : Term} (h : (not e).toTerm = .ok t) : TermOf (not e) t := by
  rw [toTerm] at h
  split at h
  · cases h
  · rename_i u hu
    obtain ⟨v, hv, rfl⟩ := map_eq_ok.1 h
    obtain ⟨rfl, hfacet⟩ := Term.require_eq_ok.1 hv
    exact .not ⟨hu, by simpa using hfacet⟩

theorem termOf_logic {op : LogicOp} {es : List Expression} {t : Term}
    (h : (logic op es).toTerm = .ok t) : TermOf (logic op es) t := by
  rw [toTerm] at h
  split at h
  · cases h
  · rename_i hes
    split at h
    · cases h
    · rename_i ts hts
      have hoperands := toTerms_eq_ok.1 hts
      cases op with
      | and =>
        cases h
        exact .and (Nat.le_of_not_lt hes) hoperands
      | or =>
        cases h
        exact .or (Nat.le_of_not_lt hes) hoperands
      | other => cases h

theorem termOf_builtIn {name : BuiltIn} {es : List Expression} {t : Term}
    (h : (builtIn name es).toTerm = .ok t) : TermOf (builtIn name es) t := by
  rw [toTerm.eq_def] at h
  dsimp only at h
  split at h
  · cases h
  · rename_i least most harity
    split at h
    · cases h
    · rename_i hes
      split at h
      · cases h
        exact .bound _
      · cases h
      · rename_i hvar hother
        obtain ⟨ts, hts, rfl⟩ := map_eq_ok.1 h
        have hlength : least ≤ es.length ∧ es.length ≤ most := by omega
        have hname : name ≠ .bound := by
          rintro rfl
          cases harity
          obtain ⟨e, rfl⟩ := List.length_eq_one_iff.1 (Nat.le_antisymm hlength.2 hlength.1)
          exact hother e rfl rfl
        exact .builtIn hname harity hlength (toTerms_eq_ok.1 hts)

theorem termOf_toTerm {e : Expression} {t : Term} (h : e.toTerm = .ok t) : TermOf e t := by
  cases e with
  | missing => cases h
  | bool value => cases h; exact .bool value
  | int value => cases h; exact .int value
  | decimal lexical => cases h; exact .decimal lexical
  | double lexical => cases h; exact .double lexical
  | var name => cases h; exact .var name
  | blank label => cases h; exact .blank label
  | literal lexical language datatype => cases h; exact .literal lexical language datatype
  | iri value => cases h; exact .iri value
  | call function es => exact termOf_call h
  | signed sign e => exact termOf_signed h
  | arithmetic op es => exact termOf_arithmetic h
  | compare op left right => exact termOf_compare h
  | not e => exact termOf_not h
  | logic op es => exact termOf_logic h
  | builtIn name es => exact termOf_builtIn h

section Converse

variable {e : Expression} {t : Term}

theorem toTerm_arithmetic {op : ArithmeticOp} (hop : ∀ name, op ≠ .other name) {e' : Expression}
    {es : List Expression} {ts : List Term}
    (h : List.Forall₂ (HasTerm (some .numeric)) (e :: e' :: es) (t :: ts)) :
    (arithmetic op (e :: e' :: es)).toTerm = .ok (ts.foldl (.arithmetic op) t) := by
  cases h with
  | cons he hes =>
    have hrequire : t.require .numeric e = .ok t := Term.require_eq_ok.2 ⟨rfl, he.2 _ rfl⟩
    have hrest := toTerms_eq_ok.2 hes
    cases op with
    | other name => exact absurd rfl (hop name)
    | _ =>
      rw [toTerm.eq_def]
      simp only [he.1, hrequire, hrest]
      rfl

theorem toTerm_compare {op : CompareOp} (hop : ∀ name, op ≠ .other name) {left right : Expression}
    {l r : Term} (hl : left.HasTerm op.operandFacet l) (hr : right.HasTerm op.operandFacet r) :
    (compare op left right).toTerm = .ok (.compare op l r) := by
  have hleft : l.accept op.operandFacet left = .ok l := Term.accept_eq_ok.2 ⟨rfl, hl.2⟩
  have hright : r.accept op.operandFacet right = .ok r := Term.accept_eq_ok.2 ⟨rfl, hr.2⟩
  cases op with
  | other name => exact absurd rfl (hop name)
  | _ =>
    rw [toTerm.eq_def]
    simp only [hl.1, hleft, hr.1, hright]
    rfl

theorem toTerm_builtIn {name : BuiltIn} {es : List Expression} {ts : List Term} {least most : Nat}
    (hname : name ≠ .bound) (harity : name.arity? = some (least, most))
    (hes : least ≤ es.length ∧ es.length ≤ most)
    (h : List.Forall₂ (HasTerm (some .value)) es ts) :
    (builtIn name es).toTerm = .ok (Term.ofBuiltIn name ts) := by
  have hlength : ¬ (es.length < least ∨ most < es.length) := by omega
  rw [toTerm.eq_def]
  simp only [harity, if_neg hlength]
  split
  · exact absurd rfl hname
  · exact absurd rfl hname
  · rw [toTerms_eq_ok.2 h]
    rfl

theorem TermOf.toTerm_eq (h : TermOf e t) : e.toTerm = .ok t := by
  cases h with
  | cast hf h => rw [toTerm, if_pos hf, toTerms_eq_ok.2 (.cons h .nil)]
  | external hf h =>
    rw [toTerm, if_neg (Bool.eq_false_iff.1 hf), toTerms_eq_ok.2 h]
    rfl
  | plus h =>
    rw [toTerm, h.1]
    exact Term.require_eq_ok.2 ⟨rfl, h.2 _ rfl⟩
  | minus hs h =>
    rw [toTerm, h]
    exact if_neg hs
  | arithmetic hop h => exact toTerm_arithmetic hop h
  | compare hop hl hr => exact toTerm_compare hop hl hr
  | not h =>
    rw [toTerm, h.1]
    exact map_eq_ok.2 ⟨_, Term.require_eq_ok.2 ⟨rfl, h.2 _ rfl⟩, rfl⟩
  | and hes h | or hes h => rw [toTerm, if_neg (Nat.not_lt.2 hes), toTerms_eq_ok.2 h]
  | builtIn hname harity hes h => exact toTerm_builtIn hname harity hes h
  | _ => rfl

theorem toTerm_eq_ok : e.toTerm = .ok t ↔ TermOf e t := ⟨termOf_toTerm, TermOf.toTerm_eq⟩

end Converse

end Expression

end GraphQuery
