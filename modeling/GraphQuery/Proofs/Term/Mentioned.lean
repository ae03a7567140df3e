import GraphQuery.Proofs.Plan.Ingredients
import GraphQuery.Proofs.Term.OfExpression

namespace GraphQuery

mutual

def Expression.mentioned : Expression → List Text
  | .var name | .blank name => [name]
  | .signed _ operand | .not operand => Expression.mentioned operand
  | .compare _ left right => Expression.mentioned left ++ Expression.mentioned right
  | .call _ es | .arithmetic _ es | .logic _ es | .builtIn _ es => Expression.mentionedAll es
  | _ => []

def Expression.mentionedAll : List Expression → List Text
  | [] => []
  | e :: rest => Expression.mentioned e ++ Expression.mentionedAll rest

end

mutual

def Term.mentioned : Term → List Text
  | .var name => [name]
  | .arithmetic _ left right | .compare _ left right =>
    Term.mentioned left ++ Term.mentioned right
  | .not t | .accessor _ t | .cast _ t => Term.mentioned t
  | .and ts | .or ts | .test _ ts | .external _ ts => Term.mentionedAll ts
  | _ => []

def Term.mentionedAll : List Term → List Text
  | [] => []
  | t :: rest => Term.mentioned t ++ Term.mentionedAll rest

end

namespace Term

theorem mentioned_foldl_arithmetic (op : ArithmeticOp) (ts : List Term) (t : Term) :
    (ts.foldl (arithmetic op) t).mentioned = t.mentioned ++ mentionedAll ts := by
  induction ts generalizing t with
  | nil => exact (List.append_nil _).symm
  | cons u ts ih => rw [List.foldl_cons, ih, mentioned, mentionedAll, List.append_assoc]

theorem mentioned_ofBuiltIn (name : BuiltIn) (ts : List Term) :
    (ofBuiltIn name ts).mentioned = mentionedAll ts := by
  unfold ofBuiltIn
  split
  · exact (List.append_nil _).symm
  · exact (List.append_nil _).symm
  · exact (List.append_nil _).symm
  · rfl

theorem mentioned_ofLiteral (lexical language datatype : Text) :
    (ofLiteral lexical language datatype).mentioned = [] := by
  unfold ofLiteral
  split
  · rfl
  split
  · rfl
  split
  · split <;> rfl
  · rfl

theorem mentioned_conjuncts (t : Term) : t.conjuncts.flatMap mentioned = t.mentioned := by
  induction t using Term.rec
      (motive_2 := fun ts => (conjunctsAll ts).flatMap mentioned = mentionedAll ts) with
  | and ts ih => exact ih
  | bool value =>
    cases value with
    | true => rfl
    | false => rfl
  | nil => rfl
  | cons t ts iht ihts => rw [conjunctsAll, List.flatMap_append, iht, ihts, mentionedAll]
  | _ => exact List.append_nil _

end Term

namespace Expression

theorem mentionedAll_of_forall₂ {facet? : Option Facet} {es : List Expression} {ts : List Term}
    (h : List.Forall₂ (HasTerm facet?) es ts)
    (ih : ∀ e ∈ es, ∀ t, e.toTerm = .ok t → t.mentioned = e.mentioned) :
    Term.mentionedAll ts = mentionedAll es := by
  induction h with
  | nil => rfl
  | cons he _ ihes =>
    have hfirst := ih _ List.mem_cons_self _ he.1
    have hrest := ihes fun e he => ih e (List.mem_cons_of_mem _ he)
    rw [Term.mentionedAll, mentionedAll, hfirst, hrest]

theorem mentioned_toTerm {e : Expression} {t : Term} (h : e.toTerm = .ok t) :
    t.mentioned = e.mentioned := by
  induction e using operandInduction generalizing t with
  | step e ih =>
    cases termOf_toTerm h with
    | bool | int | decimal | double | var | blank | iri | bound => rfl
    | literal => exact Term.mentioned_ofLiteral ..
    | cast hf he =>
      have hoperand := ih _ List.mem_cons_self he.1
      rw [Term.mentioned, mentioned, mentionedAll, mentionedAll, List.append_nil, hoperand]
    | plus he => exact ih _ List.mem_cons_self he.1
    | minus hs he =>
      have hoperand := ih _ List.mem_cons_self he
      exact hoperand
    | not he =>
      have hoperand := ih _ List.mem_cons_self he.1
      exact hoperand
    | compare hop hl hr =>
      have hleft := ih _ List.mem_cons_self hl.1
      have hright := ih _ (List.mem_cons_of_mem _ List.mem_cons_self) hr.1
      rw [Term.mentioned, mentioned, hleft, hright]
    | external hf hes => exact mentionedAll_of_forall₂ hes fun e he _ ht => ih e he ht
    | and hlength hes | or hlength hes =>
      exact mentionedAll_of_forall₂ hes fun e he _ ht => ih e he ht
    | arithmetic hop hes =>
      rw [Term.mentioned_foldl_arithmetic, mentioned]
      exact mentionedAll_of_forall₂ hes fun e he _ ht => ih e he ht
    | builtIn hname harity hlength hes =>
      rw [Term.mentioned_ofBuiltIn, mentioned]
      exact mentionedAll_of_forall₂ hes fun e he _ ht => ih e he ht

end Expression

end GraphQuery
