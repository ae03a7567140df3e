import GraphQuery.Proofs.Term.OfExpression

namespace GraphQuery

namespace ArithmeticOp

theorem mem_known {op : ArithmeticOp} : op ∈ known ↔ ∀ name, op ≠ .other name := by
  cases op <;> simp [known]

end ArithmeticOp

namespace CompareOp

theorem mem_known {op : CompareOp} : op ∈ known ↔ ∀ name, op ≠ .other name := by
  cases op <;> simp [known]

def isEquality (op : CompareOp) : Bool := op = .eq || op = .ne

theorem forall_operandFacet {op : CompareOp} (hop : op ∈ known) {P : Facet → Prop} :
    (∀ facet ∈ op.operandFacet, P facet) ↔ op.isEquality = true ∨ P .comparable := by
  cases op with
  | other name => exact absurd rfl (mem_known.1 hop name)
  | _ => simp [operandFacet, isEquality]

end CompareOp

namespace BuiltIn

def takes : BuiltIn → Nat → Bool
  | langMatches, n | sameTerm, n => n = 2
  | regex, n => n = 2 || n = 3
  | other _, _ => false
  | _, n => n = 1

theorem takes_iff {name : BuiltIn} {n : Nat} :
    name.takes n = true ↔
      ∃ least most, name.arity? = some (least, most) ∧ least ≤ n ∧ n ≤ most := by
  cases name with
  | other => simp [takes, arity?]
  | _ =>
    simp only [takes, arity?, Option.some.injEq, Prod.mk.injEq, exists_and_left, exists_eq_left',
      Bool.or_eq_true, decide_eq_true_eq, and_assoc]
    omega

def isAccessor (name : BuiltIn) : Bool := name = .datatype || name = .lang || name = .str

end BuiltIn

namespace Expression

def isNumber (language : Text) (datatype : Option Text) : Bool :=
  language.isEmpty && datatype.any Vocabulary.isNumeric

def isTruth (lexical language : Text) (datatype : Option Text) : Bool :=
  language.isEmpty && datatype = some (Vocabulary.xsd "boolean") &&
    lexical ∈ (["true", "1", "false", "0"] : List Text)

/-- Whether an expression is a numeric literal under any number of plus signs. -/
def isNumeral : Expression → Bool
  | int _ | decimal _ | double _ => true
  | literal _ language datatype => isNumber language datatype
  | signed .plus e => isNumeral e
  | _ => false

/-- The facets of an expression, by its kind. -/
def facets : Expression → List Facet
  | missing => []
  | var _ | blank _ | call .. => [.filter, .numeric, .comparable, .value]
  | bool _ => [.filter, .comparable, .value]
  | int _ | decimal _ | double _ | arithmetic .. => [.numeric, .comparable, .value]
  | literal lexical language datatype =>
    if isTruth lexical language datatype then [.filter, .comparable, .value]
    else if isNumber language datatype then [.numeric, .comparable, .value]
    else [.comparable, .value]
  | iri _ => [.comparable, .value]
  | signed .plus e => facets e
  | signed _ _ => [.numeric, .comparable, .value]
  | compare .. | not _ | logic .. => [.filter]
  | builtIn name _ => if name.isAccessor then [.comparable, .value] else [.filter]

def isVariable : Expression → Bool
  | var _ => true
  | _ => false

mutual

/-- Whether every place in an expression holds what it asks for. -/
def isWellFormed : Expression → Bool
  | missing => false
  | call function args =>
    if Vocabulary.isCast function then args.length = 1 && areWellFormed (some .value) args
    else areWellFormed none args
  | signed .plus e => isWellFormed e && .numeric ∈ e.facets
  | signed _ e => isWellFormed e && e.isNumeral
  | arithmetic op es =>
    op ∈ ArithmeticOp.known && 2 ≤ es.length && areWellFormed (some .numeric) es
  | compare op left right =>
    op ∈ CompareOp.known && isWellFormed left && isWellFormed right &&
      (op.isEquality || .comparable ∈ left.facets && .comparable ∈ right.facets)
  | not e => isWellFormed e && .filter ∈ e.facets
  | logic op es => op ∈ LogicOp.known && 2 ≤ es.length && areWellFormed (some .filter) es
  | builtIn name args =>
    name.takes args.length && areWellFormed (some .value) args &&
      (name ≠ .bound || args.all isVariable)
  | _ => true

def areWellFormed (facet? : Option Facet) : List Expression → Bool
  | [] => true
  | e :: rest => isWellFormed e && facet?.all (· ∈ e.facets) && areWellFormed facet? rest

end

theorem areWellFormed_iff {facet? : Option Facet} {es : List Expression} :
    areWellFormed facet? es = true ↔
      ∀ e ∈ es, e.isWellFormed = true ∧ ∀ facet ∈ facet?, facet ∈ e.facets := by
  induction es with
  | nil => simp [areWellFormed]
  | cons e es ih =>
    rw [areWellFormed, Bool.and_eq_true, Bool.and_eq_true, ih, List.forall_mem_cons]
    cases facet? with
    | none => simp
    | some facet => simp

end Expression

namespace Term

def IsNumeral (t : Term) : Prop := ∃ lexical datatype, t = .numeric lexical datatype

theorem isSome_truth? (lexical : Text) :
    (truth? lexical).isSome = true ↔ lexical ∈ (["true", "1", "false", "0"] : List Text) := by
  unfold truth?
  split
  next h => rcases h with rfl | rfl <;> decide
  next h =>
    split
    next h' => rcases h' with rfl | rfl <;> decide
    next h' => simp_all

theorem ofLiteral_cases (lexical datatype : Text) :
    (∃ b, ofLiteral lexical [] datatype = bool b ∧
        Expression.isTruth lexical [] (some datatype) = true ∧
        Expression.isNumber [] (some datatype) = false) ∨
      (ofLiteral lexical [] datatype = numeric lexical datatype ∧
        Expression.isTruth lexical [] (some datatype) = false ∧
        Expression.isNumber [] (some datatype) = true) ∨
      ((ofLiteral lexical [] datatype = simple lexical [] ∨
          ofLiteral lexical [] datatype = typed lexical datatype) ∧
        Expression.isTruth lexical [] (some datatype) = false ∧
        Expression.isNumber [] (some datatype) = false) := by
  have hnumber : Expression.isNumber [] (some datatype) = Vocabulary.isNumeric datatype := rfl
  have htruth : Expression.isTruth lexical [] (some datatype) = true ↔
      datatype = Vocabulary.xsd "boolean" ∧ (truth? lexical).isSome = true := by
    rw [isSome_truth?]
    simp [Expression.isTruth]
  rw [hnumber, ← Bool.not_eq_true (Expression.isTruth lexical [] (some datatype)), htruth,
    ofLiteral]
  split
  next hplain =>
    obtain rfl : datatype = [] := by simpa using hplain
    have hboolean : [] ≠ Vocabulary.xsd "boolean" := by decide
    exact .inr (.inr ⟨.inl rfl, fun h => hboolean h.1, by decide⟩)
  next =>
    split
    next hnumeric =>
      refine .inr (.inl ⟨rfl, ?_, hnumeric⟩)
      rintro ⟨rfl, -⟩
      revert hnumeric
      decide
    next hnumeric =>
      have hnumeric := Bool.eq_false_iff.2 hnumeric
      split
      next hboolean =>
        split
        next b hb => exact .inl ⟨b, rfl, ⟨hboolean, by rw [hb]; rfl⟩, hnumeric⟩
        next hnone => exact .inr (.inr ⟨.inr rfl, by simp [hnone], hnumeric⟩)
      next hboolean => exact .inr (.inr ⟨.inr rfl, fun h => hboolean h.1, hnumeric⟩)

theorem ofLiteral_typed (lexical language : Text) (datatype : Option Text) :
    (ofLiteral lexical language (datatype.getD [])).facets =
        (Expression.literal lexical language datatype).facets ∧
      ((ofLiteral lexical language (datatype.getD [])).IsNumeral ↔
        Expression.isNumber language datatype = true) := by
  cases datatype with
  | none =>
    simp [ofLiteral, facets, IsNumeral, Expression.facets, Expression.isTruth, Expression.isNumber]
  | some datatype =>
    by_cases hlanguage : language = []
    · subst hlanguage
      rw [Option.getD_some, Expression.facets]
      rcases ofLiteral_cases lexical datatype with
          ⟨b, he, ht, hn⟩ | ⟨he, ht, hn⟩ | ⟨he | he, ht, hn⟩ <;>
        simp [he, ht, hn, facets, IsNumeral]
    · simp [ofLiteral, hlanguage, facets, IsNumeral, Expression.facets, Expression.isTruth,
        Expression.isNumber]

theorem facets_ofBuiltIn {name : BuiltIn} {ts : List Term} (hts : name.takes ts.length = true) :
    (ofBuiltIn name ts).facets = if name.isAccessor then [.comparable, .value] else [.filter] := by
  cases name with
  | datatype | lang | str =>
    obtain ⟨t, rfl⟩ := List.length_eq_one_iff.1 (of_decide_eq_true hts)
    rfl
  | _ => rfl

theorem not_isNumeral_ofBuiltIn (name : BuiltIn) (ts : List Term) :
    ¬ (ofBuiltIn name ts).IsNumeral := by
  unfold ofBuiltIn
  split
  · exact nofun
  · exact nofun
  · exact nofun
  · exact nofun

theorem foldl_arithmetic (op : ArithmeticOp) (t s : Term) (ts : List Term) :
    ∃ l r, (s :: ts).foldl (arithmetic op) t = arithmetic op l r := by
  induction ts generalizing t s with
  | nil => exact ⟨t, s, rfl⟩
  | cons u ts ih => exact ih (arithmetic op t s) u

end Term

namespace Expression

/-- A term has the facets of its expression, and is a numeric literal if the expression is one under
any number of plus signs. -/
theorem toTerm_typed {e : Expression} {t : Term} (h : e.toTerm = .ok t) :
    t.facets = e.facets ∧ (t.IsNumeral ↔ e.isNumeral = true) := by
  induction e using operandInduction generalizing t with
  | step e ih =>
    cases toTerm_eq_ok.1 h with
    | literal lexical language datatype => exact Term.ofLiteral_typed lexical language datatype
    -- The term under a plus sign is that of the operand itself, whatever stands there.
    | plus h => exact ih _ (List.mem_singleton_self _) h.1
    | @minus sign e lexical datatype hs =>
      cases sign with
      | plus => exact absurd rfl hs
      | _ => simp [Term.IsNumeral, Term.facets, facets, isNumeral]
    | @arithmetic op e e' es t ts hop hes =>
      cases hes with
      | cons _ hes =>
        cases hes with
        | @cons _ s _ ts =>
          obtain ⟨l, r, hfold⟩ := Term.foldl_arithmetic op t s ts
          rw [hfold]
          simp [Term.IsNumeral, Term.facets, facets, isNumeral]
    | @builtIn name es ts least most hname harity hlength hes =>
      have htakes : name.takes ts.length = true :=
        BuiltIn.takes_iff.2 ⟨least, most, harity, hes.length_eq ▸ hlength⟩
      rw [Term.facets_ofBuiltIn htakes]
      exact ⟨rfl, iff_of_false (Term.not_isNumeral_ofBuiltIn name ts) nofun⟩
    | bound name => exact ⟨rfl, iff_of_false nofun nofun⟩
    | _ => simp [Term.IsNumeral, Term.facets, facets, isNumeral]

section Acceptance

def Decided (e : Expression) : Prop := (∃ t, e.toTerm = .ok t) ↔ e.isWellFormed = true

variable {facet? : Option Facet} {e left right : Expression} {es : List Expression}

theorem exists_hasTerm (h : e.Decided) :
    (∃ t, e.HasTerm facet? t) ↔ e.isWellFormed = true ∧ ∀ facet ∈ facet?, facet ∈ e.facets := by
  constructor
  · rintro ⟨t, ht, hfacet⟩
    rw [(toTerm_typed ht).1] at hfacet
    exact ⟨h.1 ⟨t, ht⟩, hfacet⟩
  · rintro ⟨hwf, hfacet⟩
    obtain ⟨t, ht⟩ := h.2 hwf
    rw [← (toTerm_typed ht).1] at hfacet
    exact ⟨t, ht, hfacet⟩

theorem exists_hasTerm_some {facet : Facet} (h : e.Decided) :
    (∃ t, e.HasTerm (some facet) t) ↔ e.isWellFormed = true ∧ facet ∈ e.facets := by
  rw [exists_hasTerm h]
  simp

theorem exists_forall₂_hasTerm (h : ∀ e ∈ es, e.Decided) :
    (∃ ts, List.Forall₂ (HasTerm facet?) es ts) ↔ areWellFormed facet? es = true := by
  rw [exists_forall₂, areWellFormed_iff]
  exact forall₂_congr fun e he => exists_hasTerm (h e he)

theorem decided_call {function : Text} (ih : ∀ e ∈ es, e.Decided) :
    (call function es).Decided := by
  rw [Decided, isWellFormed]
  split
  next hf =>
    rw [Bool.and_eq_true, decide_eq_true_eq, ← exists_forall₂_hasTerm ih]
    constructor
    · rintro ⟨t, ht⟩
      cases termOf_toTerm ht with
      | cast _ h => exact ⟨rfl, _, .cons h .nil⟩
      | external hf' => exact absurd hf (Bool.eq_false_iff.1 hf')
    · rintro ⟨hlength, ts, hts⟩
      obtain ⟨e, rfl⟩ := List.length_eq_one_iff.1 hlength
      cases hts with
      | cons h hnil => exact ⟨_, (TermOf.cast hf h).toTerm_eq⟩
  next hf =>
    rw [← exists_forall₂_hasTerm ih]
    constructor
    · rintro ⟨t, ht⟩
      cases termOf_toTerm ht with
      | cast hf' => exact absurd hf' hf
      | external _ h => exact ⟨_, h⟩
    · rintro ⟨ts, hts⟩
      exact ⟨_, (TermOf.external (Bool.eq_false_iff.2 hf) hts).toTerm_eq⟩

theorem decided_plus (ih : e.Decided) : (signed .plus e).Decided := by
  rw [Decided, isWellFormed, Bool.and_eq_true, decide_eq_true_eq, ← exists_hasTerm_some ih]
  constructor
  · rintro ⟨t, ht⟩
    cases termOf_toTerm ht with
    | plus h => exact ⟨t, h⟩
    | minus hs => exact absurd rfl hs
  · rintro ⟨t, ht⟩
    exact ⟨t, (TermOf.plus ht).toTerm_eq⟩

theorem decided_minus {sign : Sign} (hs : sign ≠ .plus) (ih : e.Decided) :
    (signed sign e).Decided := by
  rw [Decided, isWellFormed, Bool.and_eq_true]
  · constructor
    · rintro ⟨t, ht⟩
      cases termOf_toTerm ht with
      | plus => exact absurd rfl hs
      | minus _ h => exact ⟨ih.1 ⟨_, h⟩, (toTerm_typed h).2.1 ⟨_, _, rfl⟩⟩
    · rintro ⟨hwf, hnumeral⟩
      obtain ⟨t, ht⟩ := ih.2 hwf
      obtain ⟨lexical, datatype, rfl⟩ := (toTerm_typed ht).2.2 hnumeral
      exact ⟨_, (TermOf.minus hs ht).toTerm_eq⟩
  · exact hs

theorem decided_arithmetic {op : ArithmeticOp} (ih : ∀ e ∈ es, e.Decided) :
    (arithmetic op es).Decided := by
  rw [Decided, isWellFormed, Bool.and_eq_true, Bool.and_eq_true, decide_eq_true_eq,
    decide_eq_true_eq, ← exists_forall₂_hasTerm ih, ArithmeticOp.mem_known]
  constructor
  · rintro ⟨t, ht⟩
    cases termOf_toTerm ht with
    | arithmetic hop h => exact ⟨⟨hop, by simp⟩, _, h⟩
  · rintro ⟨⟨hop, hlength⟩, ts, hts⟩
    match es, ts, hlength, hts with
    | e :: e' :: es, t :: ts, _, hts => exact ⟨_, (TermOf.arithmetic hop hts).toTerm_eq⟩

theorem decided_compare {op : CompareOp} (ihl : left.Decided) (ihr : right.Decided) :
    (compare op left right).Decided := by
  have hwf : (compare op left right).isWellFormed = true ↔
      op ∈ CompareOp.known ∧ (∃ t, left.HasTerm op.operandFacet t) ∧
        ∃ t, right.HasTerm op.operandFacet t := by
    simp only [isWellFormed, Bool.and_eq_true, Bool.or_eq_true, decide_eq_true_eq, and_assoc]
    refine and_congr_right fun hop => ?_
    rw [exists_hasTerm ihl, exists_hasTerm ihr, CompareOp.forall_operandFacet hop,
      CompareOp.forall_operandFacet hop]
    tauto
  rw [Decided, hwf, CompareOp.mem_known]
  constructor
  · rintro ⟨t, ht⟩
    cases termOf_toTerm ht with
    | compare hop hl hr => exact ⟨hop, ⟨_, hl⟩, _, hr⟩
  · rintro ⟨hop, ⟨l, hl⟩, r, hr⟩
    exact ⟨_, (TermOf.compare hop hl hr).toTerm_eq⟩

theorem decided_not (ih : e.Decided) : (not e).Decided := by
  rw [Decided, isWellFormed, Bool.and_eq_true, decide_eq_true_eq, ← exists_hasTerm_some ih]
  constructor
  · rintro ⟨t, ht⟩
    cases termOf_toTerm ht with
    | not h => exact ⟨_, h⟩
  · rintro ⟨t, ht⟩
    exact ⟨_, (TermOf.not ht).toTerm_eq⟩

theorem decided_logic {op : LogicOp} (ih : ∀ e ∈ es, e.Decided) :
    (logic op es).Decided := by
  rw [Decided, isWellFormed, Bool.and_eq_true, Bool.and_eq_true, decide_eq_true_eq,
    decide_eq_true_eq, ← exists_forall₂_hasTerm ih]
  constructor
  · rintro ⟨t, ht⟩
    cases termOf_toTerm ht with
    | and hes h | or hes h => exact ⟨⟨by decide, hes⟩, _, h⟩
  · rintro ⟨⟨hop, hes⟩, ts, hts⟩
    cases op with
    | and => exact ⟨_, (TermOf.and hes hts).toTerm_eq⟩
    | or => exact ⟨_, (TermOf.or hes hts).toTerm_eq⟩
    | other name => simp [LogicOp.known] at hop

theorem decided_builtIn {name : BuiltIn} (ih : ∀ e ∈ es, e.Decided) :
    (builtIn name es).Decided := by
  simp only [Decided, isWellFormed, Bool.and_eq_true, Bool.or_eq_true, decide_eq_true_eq]
  rw [← exists_forall₂_hasTerm ih]
  constructor
  · rintro ⟨t, ht⟩
    cases termOf_toTerm ht with
    | bound v => exact ⟨⟨rfl, _, .cons ⟨rfl, by simp [Term.facets]⟩ .nil⟩, .inr rfl⟩
    | builtIn hname harity hes h =>
      exact ⟨⟨BuiltIn.takes_iff.2 ⟨_, _, harity, hes⟩, _, h⟩, .inl hname⟩
  · rintro ⟨⟨htakes, ts, hts⟩, hvariable⟩
    obtain ⟨least, most, harity, hes⟩ := BuiltIn.takes_iff.1 htakes
    -- `bound` looks at its argument and not at the term of it, which a blank node shares with a
    -- variable.
    by_cases hname : name = .bound
    · subst hname
      have hall := hvariable.resolve_left (· rfl)
      obtain ⟨e, rfl⟩ := List.length_eq_one_iff.1 (of_decide_eq_true htakes)
      cases e with
      | var v => exact ⟨_, (TermOf.bound v).toTerm_eq⟩
      | _ => cases hall
    · exact ⟨_, (TermOf.builtIn hname harity hes hts).toTerm_eq⟩

theorem decided (e : Expression) : e.Decided := by
  induction e using operandInduction with
  | step e ih =>
    cases e with
    | missing => exact iff_of_false nofun nofun
    | call function es => exact decided_call ih
    | signed sign e =>
      have ihe := ih e (List.mem_singleton_self e)
      by_cases hs : sign = .plus
      · subst hs
        exact decided_plus ihe
      · exact decided_minus hs ihe
    | arithmetic op es => exact decided_arithmetic ih
    | compare op left right =>
      exact decided_compare (ih left (by simp [operands])) (ih right (by simp [operands]))
    | not e => exact decided_not (ih e (List.mem_singleton_self e))
    | logic op es => exact decided_logic ih
    | builtIn name es => exact decided_builtIn ih
    | _ => exact iff_of_true ⟨_, rfl⟩ rfl

end Acceptance

theorem toOption_toTermWith (facet : Facet) (e : Expression) :
    (e.toTermWith facet).toOption = if facet ∈ e.facets then e.toTerm.toOption else none := by
  rw [toTermWith]
  cases he : e.toTerm with
  | error fault => exact (ite_self none).symm
  | ok t =>
    rw [← (toTerm_typed he).1]
    dsimp only [Term.require]
    split
    · rfl
    · rfl

theorem toOption_toCondition (e : Expression) :
    e.toCondition.toOption = (e.toTermWith .filter).toOption := by
  rw [toCondition, toTermWith]
  cases e.toTerm with
  | error fault => rfl
  | ok t =>
    dsimp only [Term.require]
    split
    · rfl
    · rfl

/-- An expression has a term exactly if it is well formed, the term has exactly the facets of the
expression, and a place that asks for a facet takes exactly the expressions with that facet. -/
theorem toTerm_accepts_typed (e : Expression) :
    e.toTerm.toOption.map Term.facets = (if e.isWellFormed then some e.facets else none) ∧
      (∀ facet, (e.toTermWith facet).toOption =
        if facet ∈ e.facets then e.toTerm.toOption else none) ∧
      e.toCondition.toOption = if .filter ∈ e.facets then e.toTerm.toOption else none := by
  refine ⟨?_, fun facet => toOption_toTermWith facet e, ?_⟩
  · split
    next hwf =>
      obtain ⟨t, ht⟩ := (decided e).2 hwf
      rw [ht, ← (toTerm_typed ht).1]
      rfl
    next hwf =>
      obtain ⟨fault, hfault⟩ : ∃ fault, e.toTerm = .error fault :=
        exists_eq_error.2 fun h => hwf ((decided e).1 h)
      rw [hfault]
      rfl
  · rw [toOption_toCondition, toOption_toTermWith]

end Expression

end GraphQuery
