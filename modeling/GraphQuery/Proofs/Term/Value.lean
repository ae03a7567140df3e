import GraphQuery.Proofs.Term.OfExpression
import Mathlib.Algebra.Ring.Int.Defs

namespace GraphQuery

universe u

/-- What literals, operators and functions mean in a domain of values. -/
structure Domain (V : Type u) where
  truth : Bool → V
  numeric : (lexical datatype : Text) → V
  simple : (lexical language : Text) → V
  typed : (lexical datatype : Text) → V
  iri : Text → V
  arithmetic : ArithmeticOp → V → V → V
  negate : V → V
  compare : CompareOp → V → V → V
  not : V → V
  and : List V → V
  or : List V → V
  builtIn : BuiltIn → List V → V
  cast : (datatype : Text) → V → V
  external : (function : Text) → List V → V

namespace Domain

variable {V : Type u} (D : Domain V)

def truthForms : Bool → List Text
  | true => ["true", "1"]
  | false => ["false", "0"]

/-- A literal of a datatype; a truth value can be written in two ways. -/
def ofDatatype (lexical datatype : Text) : V :=
  if datatype = Vocabulary.xsd "boolean" ∧ lexical ∈ truthForms true then D.truth true
  else if datatype = Vocabulary.xsd "boolean" ∧ lexical ∈ truthForms false then D.truth false
  else if Vocabulary.isNumeric datatype then D.numeric lexical datatype
  else D.typed lexical datatype

/-- A literal as it is written. One with a language tag has no datatype, and neither has one whose
datatype is empty. -/
def literal (lexical language : Text) : Option Text → V
  | some (b :: datatype) =>
    if language = [] then D.ofDatatype lexical (b :: datatype) else D.simple lexical language
  | _ => D.simple lexical language

/-- A call by the name of a function; the functions that cast take one argument. -/
def call? (function : Text) (args : List V) : Option V :=
  if Vocabulary.isCast function then
    match args with
    | [arg] => some (D.cast function arg)
    | _ => none
  else some (D.external function args)

def chain? (op : ArithmeticOp) : List V → Option V
  | [] => none
  | v :: vs => some (vs.foldl (D.arithmetic op) v)

def logic? (op : LogicOp) (vs : List V) : Option V :=
  match op with
  | .and => some (D.and vs)
  | .or => some (D.or vs)
  | .other _ => none

def signed (sign : Sign) (v : V) : V := if sign = .plus then v else D.negate v

end Domain

section Values
variable {V : Type u} (D : Domain V) (row : Text → V)

mutual

/-- The value of an expression as it is written, if it has one. Variables and blank nodes have the
values that the row gives to their names. -/
def Expression.value? : Expression → Option V
  | .missing => none
  | .bool value => some (D.truth value)
  | .int value => some (D.numeric (Text.ofInt value) (Vocabulary.xsd "integer"))
  | .decimal lexical => some (D.numeric lexical (Vocabulary.xsd "decimal"))
  | .double lexical => some (D.numeric lexical (Vocabulary.xsd "double"))
  | .var name => some (row name)
  | .blank label => some (row label)
  | .literal lexical language datatype => some (D.literal lexical language datatype)
  | .iri value => some (D.iri value)
  | .call function args => (Expression.values? args).bind (D.call? function)
  | .signed sign operand => (Expression.value? operand).map (D.signed sign)
  | .arithmetic op operands => (Expression.values? operands).bind (D.chain? op)
  | .compare op left right =>
    (Expression.value? left).bind fun l => (Expression.value? right).map (D.compare op l)
  | .not operand => (Expression.value? operand).map D.not
  | .logic op operands => (Expression.values? operands).bind (D.logic? op)
  | .builtIn name args => (Expression.values? args).map (D.builtIn name)

def Expression.values? : List Expression → Option (List V)
  | [] => some []
  | e :: rest => (Expression.value? e).bind fun v => (Expression.values? rest).map (v :: ·)

end

mutual

def Term.value : Term → V
  | .var name => row name
  | .numeric lexical datatype => D.numeric lexical datatype
  | .bool value => D.truth value
  | .simple lexical language => D.simple lexical language
  | .typed lexical datatype => D.typed lexical datatype
  | .iri value => D.iri value
  | .arithmetic op left right => D.arithmetic op (Term.value left) (Term.value right)
  | .minus lexical datatype => D.negate (D.numeric lexical datatype)
  | .compare op left right => D.compare op (Term.value left) (Term.value right)
  | .not operand => D.not (Term.value operand)
  | .and operands => D.and (Term.values operands)
  | .or operands => D.or (Term.values operands)
  | .test name args => D.builtIn name (Term.values args)
  | .accessor name arg => D.builtIn name [Term.value arg]
  | .cast datatype arg => D.cast datatype (Term.value arg)
  | .external function args => D.external function (Term.values args)

def Term.values : List Term → List V
  | [] => []
  | t :: rest => Term.value t :: Term.values rest

end

namespace Term

theorem value_foldl_arithmetic (op : ArithmeticOp) (ts : List Term) (t : Term) :
    (ts.foldl (arithmetic op) t).value D row =
      (values D row ts).foldl (D.arithmetic op) (t.value D row) := by
  induction ts generalizing t with
  | nil => rfl
  | cons s ts ih =>
    rw [List.foldl_cons, ih, values, List.foldl_cons, value]

theorem value_ofBuiltIn (name : BuiltIn) (ts : List Term) :
    (ofBuiltIn name ts).value D row = D.builtIn name (values D row ts) := by
  unfold ofBuiltIn
  split
  · rfl
  · rfl
  · rfl
  · rfl

theorem truth?_eq_some {lexical : Text} {b : Bool} :
    truth? lexical = some b ↔ lexical ∈ Domain.truthForms b := by
  unfold truth?
  split
  next htrue =>
    have hnot : lexical ∉ Domain.truthForms false := by
      rcases htrue with rfl | rfl
      · decide
      · decide
    cases b with
    | true => simpa [Domain.truthForms] using htrue
    | false => simpa using hnot
  next htrue =>
    have hnot : lexical ∉ Domain.truthForms true := by
      simpa [Domain.truthForms] using htrue
    split
    next hfalse =>
      cases b with
      | true => simpa using hnot
      | false => simpa [Domain.truthForms] using hfalse
    next hfalse =>
      cases b with
      | true => simpa using hnot
      | false => simpa [Domain.truthForms] using hfalse

theorem value_ofDatatype {datatype : Text} (h : datatype ≠ []) (lexical : Text) :
    (ofLiteral lexical [] datatype).value D row = D.ofDatatype lexical datatype := by
  have hplain : ¬ (!([] : Text).isEmpty || datatype.isEmpty) = true := by simpa using h
  rw [ofLiteral, if_neg hplain, Domain.ofDatatype]
  by_cases hboolean : datatype = Vocabulary.xsd "boolean"
  · subst hboolean
    have hnumeric : Vocabulary.isNumeric (Vocabulary.xsd "boolean") = false := by decide
    simp only [hnumeric, ← truth?_eq_some, true_and, if_true]
    cases htruth : truth? lexical with
    | none => rfl
    | some b => cases b <;> rfl
  · simp only [hboolean, false_and, if_false]
    split
    · rfl
    · rfl

theorem value_ofLiteral (lexical language : Text) (datatype : Option Text) :
    (ofLiteral lexical language (datatype.getD [])).value D row =
      D.literal lexical language datatype := by
  cases datatype with
  | none => simp [ofLiteral, value, Domain.literal]
  | some datatype =>
    cases datatype with
    | nil => simp [ofLiteral, value, Domain.literal]
    | cons b datatype =>
      rw [Domain.literal, Option.getD_some]
      by_cases hlanguage : language = []
      · subst hlanguage
        rw [if_pos rfl]
        exact value_ofDatatype D row (List.cons_ne_nil _ _) lexical
      · rw [if_neg hlanguage]
        simp [ofLiteral, value, hlanguage]

end Term

namespace Expression

theorem values?_of_forall₂ {facet? : Option Facet} {es : List Expression} {ts : List Term}
    (h : List.Forall₂ (HasTerm facet?) es ts)
    (ih : ∀ e ∈ es, ∀ t, e.toTerm = .ok t → e.value? D row = some (t.value D row)) :
    values? D row es = some (Term.values D row ts) := by
  induction h with
  | nil => rfl
  | @cons e t es ts he _ ihes =>
    have hhead := ih e List.mem_cons_self t he.1
    have htail := ihes fun e he => ih e (List.mem_cons_of_mem _ he)
    rw [values?, hhead, htail]
    rfl

/-- Whatever literals, operators and functions mean, the term of an expression has its value. -/
theorem toTerm_preserves_value {e : Expression} {t : Term} (h : e.toTerm = .ok t) :
    e.value? D row = some (t.value D row) := by
  induction e using operandInduction generalizing t with
  | step e ih =>
    cases termOf_toTerm h with
    | bool | int | decimal | double | var | blank | iri => rfl
    | literal lexical language datatype =>
      rw [value?, Term.value_ofLiteral]
    | @cast function arg t hf harg =>
      have hvalue := ih arg (List.mem_singleton_self arg) harg.1
      rw [value?, values?, hvalue]
      simp [values?, Domain.call?, hf, Term.value]
    | external hf hargs =>
      rw [value?, values?_of_forall₂ D row hargs fun e he t => ih e he]
      simp [Domain.call?, hf, Term.value]
    | @plus operand _ hoperand =>
      rw [value?, ih operand (List.mem_singleton_self operand) hoperand.1]
      rfl
    | @minus sign operand _ _ hs hoperand =>
      rw [value?, ih operand (List.mem_singleton_self operand) hoperand]
      simp [Domain.signed, hs, Term.value]
    | arithmetic hop hoperands =>
      rw [value?, values?_of_forall₂ D row hoperands fun e he t => ih e he,
        Term.value_foldl_arithmetic]
      rfl
    | compare hop hl hr =>
      have hleft := ih _ List.mem_cons_self hl.1
      have hright := ih _ (List.mem_cons_of_mem _ (List.mem_singleton_self _)) hr.1
      rw [value?, hleft, hright]
      rfl
    | @not operand _ hoperand =>
      rw [value?, ih operand (List.mem_singleton_self operand) hoperand.1]
      rfl
    | and hes hoperands | or hes hoperands =>
      rw [value?, values?_of_forall₂ D row hoperands fun e he t => ih e he]
      rfl
    | bound name => rfl
    | builtIn hname harity hes hargs =>
      rw [value?, values?_of_forall₂ D row hargs fun e he t => ih e he, Term.value_ofBuiltIn]
      rfl

end Expression

end Values

/-- Integers with their arithmetic; every other literal or name means its length. -/
def integerDomain : Domain Int where
  truth b := if b then 1 else 0
  numeric lexical _ := Text.toInt lexical
  simple lexical _ := lexical.length
  typed lexical _ := lexical.length
  iri value := value.length
  arithmetic op a b := match op with
    | .add => a + b
    | .subtract => a - b
    | .multiply => a * b
    | .divide => a / b
    | .other _ => 0
  negate a := -a
  compare op a b := match op with
    | .lt => if a < b then 1 else 0
    | _ => if a = b then 1 else 0
  not a := 1 - a
  and := List.prod
  or := List.sum
  builtIn _ args := args.length
  cast _ a := a
  external _ args := args.sum

/-- Ten less a variable less minus two is smaller than a blank node, and true is true. -/
def differences : Expression :=
  .logic .and
    [.compare .lt
      (.arithmetic .subtract
        [.literal "10" [] (some (Vocabulary.xsd "byte")), .signed .plus (.var "x"),
          .signed .minus (.literal "2" [] (some (Vocabulary.xsd "integer")))])
      (.call (Vocabulary.xsd "integer") [.blank "_:b"]),
      .literal "1" [] (some (Vocabulary.xsd "boolean"))]

theorem toTerm_preserves_value_differences :
    ∃ t, differences.toTerm = .ok t ∧
      ∀ row : Text → Int, differences.value? integerDomain row = some (t.value integerDomain row) :=
  ⟨_, rfl, fun row => Expression.toTerm_preserves_value integerDomain row rfl⟩

example :
    differences.value? integerDomain (fun name => if name = "x" then 3 else 9) = some 0 ∧
      differences.value? integerDomain (fun name => if name = "x" then 3 else 10) = some 1 := by
  decide +kernel

end GraphQuery
