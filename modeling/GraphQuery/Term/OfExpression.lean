import GraphQuery.Term.Fault

namespace GraphQuery

/-- The least and the greatest number of arguments of a built-in function. -/
def BuiltIn.arity? : BuiltIn → Option (Nat × Nat)
  | bound | datatype | isBlank | isIri | isLiteral | isUri | lang | str => some (1, 1)
  | langMatches | sameTerm => some (2, 2)
  | regex => some (2, 3)
  | other _ => none

def BuiltIn.arityText (least most : Nat) : Text :=
  if least = most then "exactly " ++ Text.ofNat least
  else Text.ofNat least ++ " to " ++ Text.ofNat most

def Term.ofBuiltIn (name : BuiltIn) (args : List Term) : Term :=
  match name, args with
  | .datatype, [arg] | .lang, [arg] | .str, [arg] => accessor name arg
  | _, _ => test name args

def Term.require (facet : Facet) (e : Expression) (t : Term) : Except MeaningFault Term :=
  if facet ∈ t.facets then .ok t else .error (.lacksFacet facet e t)

/-- The term, if it has the facet that is asked for, if any. -/
def Term.accept (facet? : Option Facet) (e : Expression) (t : Term) : Except MeaningFault Term :=
  match facet? with
  | none => .ok t
  | some facet => t.require facet e

def CompareOp.operandFacet : CompareOp → Option Facet
  | eq | ne | other _ => none
  | lt | le | gt | ge => some .comparable

mutual

def Expression.toTerm : Expression → Except MeaningFault Term
  | .missing => .error .missingExpression
  | .bool value => .ok (.bool value)
  | .int value => .ok (.numeric (Text.ofInt value) (Vocabulary.xsd "integer"))
  | .decimal lexical => .ok (.numeric lexical (Vocabulary.xsd "decimal"))
  | .double lexical => .ok (.numeric lexical (Vocabulary.xsd "double"))
  | .var name => .ok (.var name)
  | .blank label => .ok (.var label)
  | .literal lexical language datatype =>
    .ok (Term.ofLiteral lexical language (datatype.getD []))
  | .iri value => .ok (.iri value)
  | .call function args =>
    if Vocabulary.isCast function then
      match Expression.toTerms (some .value) args with
      | .error e => .error e
      | .ok [arg] => .ok (.cast function arg)
      | .ok terms => .error (.arity (.call function args) "exactly 1" terms.length)
    else (Expression.toTerms none args).map (.external function)
  | .signed sign operand =>
    match Expression.toTerm operand with
    | .error e => .error e
    | .ok t =>
      if sign = .plus then t.require .numeric operand
      else match t with
        | .numeric lexical datatype => .ok (.minus lexical datatype)
        | t => .error (.notNegatable (.signed sign operand) t)
  | .arithmetic op operands =>
    match operands with
    | first :: second :: rest =>
      match op with
      | .other _ => .error (.unsupportedArithmetic (.arithmetic op operands))
      | op =>
        match Expression.toTerm first with
        | .error e => .error e
        | .ok t =>
          match t.require .numeric first with
          | .error e => .error e
          | .ok t =>
            (Expression.toTerms (some .numeric) (second :: rest)).map
              (List.foldl (Term.arithmetic op) t)
    | _ => .error (.arity (.arithmetic op operands) "at least 2" operands.length)
  | .compare op left right =>
    match op with
    | .other _ => .error (.unsupportedComparison (.compare op left right))
    | op =>
      match Expression.toTerm left with
      | .error e => .error e
      | .ok l =>
        match l.accept op.operandFacet left with
        | .error e => .error e
        | .ok l =>
          match Expression.toTerm right with
          | .error e => .error e
          | .ok r => (r.accept op.operandFacet right).map (.compare op l)
  | .not operand =>
    match Expression.toTerm operand with
    | .error e => .error e
    | .ok t => (t.require .filter operand).map .not
  | .logic op operands =>
    if operands.length < 2 then
      .error (.arity (.logic op operands) "at least 2" operands.length)
    else match Expression.toTerms (some .filter) operands with
      | .error e => .error e
      | .ok terms =>
        match op with
        | .and => .ok (.and terms)
        | .or => .ok (.or terms)
        | .other _ => .error (.unsupportedLogic (.logic op operands))
  | .builtIn name args =>
    match name.arity? with
    | none => .error (.unsupportedBuiltIn (.builtIn name args))
    | some (least, most) =>
      if args.length < least ∨ most < args.length then
        .error (.arity (.builtIn name args) (BuiltIn.arityText least most) args.length)
      else match name, args with
        | .bound, [.var v] => .ok (.test .bound [.var v])
        | .bound, [arg] => .error (.notVariable (.builtIn name args) arg)
        | name, args => (Expression.toTerms (some .value) args).map (Term.ofBuiltIn name)

def Expression.toTerms (facet? : Option Facet) : List Expression → Except MeaningFault (List Term)
  | [] => .ok []
  | e :: rest =>
    match Expression.toTerm e with
    | .error e => .error e
    | .ok t =>
      match t.accept facet? e with
      | .error e => .error e
      | .ok t => (Expression.toTerms facet? rest).map (t :: ·)

end

def Expression.toTermWith (facet : Facet) (e : Expression) : Except MeaningFault Term :=
  match e.toTerm with
  | .error fault => .error fault
  | .ok t => t.require facet e

def Expression.toCondition (e : Expression) : Except MeaningFault Term :=
  match e.toTerm with
  | .error fault => .error fault
  | .ok t => if .filter ∈ t.facets then .ok t else .error (.notCondition e t)

end GraphQuery
