import GraphQuery.Query.Fault

namespace GraphQuery

def Expression.ofOperator (form : Form) (name : Text) (args : List Expression) :
    Except QueryError Expression :=
  match CompareOp.ofName? name, ArithmeticOp.ofName? name with
  | some op, _ =>
    match args with
    | [left, right] => .ok (.compare op left right)
    | _ => .error (.invalid (.twoOperands name) form)
  | none, some op =>
    match args with
    | [] => .error (.invalid (.someOperands name) form)
    | [operand] =>
      if op = .add ∨ op = .subtract then .ok (.signed (.ofName name) operand)
      else .ok (.arithmetic op [operand])
    | args => .ok (.arithmetic op args)
  | none, none =>
    if name = "not" then
      match args with
      | [operand] => .ok (.not operand)
      | _ => .error (.invalid .oneOperand form)
    else match LogicOp.ofName? name, BuiltIn.ofName? name with
      | some op, _ => .ok (.logic op args)
      | none, some f => .ok (.builtIn f args)
      | none, none => .error (.invalid (.unknownOperator name) form)

def Expression.ofAtom (pos : Position) (cls : AtomClass) (value : Text) :
    Except QueryError Expression :=
  let form := Form.atom pos cls value
  match cls with
  | .bool => .ok (.bool (value = "true"))
  | .int =>
    match form.toInt with
    | .ok i => .ok (.int i)
    | .error _ => .error (.invalid .integerRange form)
  | .decimal => .ok (.decimal value)
  | .double => .ok (.double value)
  | .var => .ok (.var (value.drop 1))
  | .blank => .ok (.blank value)
  | .symbol | .keyword => .error (.invalid (.notExpression form.kind) form)

mutual

def Expression.ofForm : Form → Except QueryError Expression
  | .atom pos cls value => Expression.ofAtom pos cls value
  | .string _ value .none => .ok (.literal value [] none)
  | .string _ value (.language tag) => .ok (.literal value tag none)
  | .string _ value (.datatype d) => .ok (.literal value [] (some d))
  | .iri _ value => .ok (.iri value)
  | .group pos .round (.atom opPos .symbol op :: rest) =>
    let form := Form.group pos .round (.atom opPos .symbol op :: rest)
    if op = "call" then
      match rest with
      | .iri _ function :: args => (Expression.ofForms args).map (.call function)
      | _ => .error (.invalid .callWithoutIri form)
    else match Expression.ofForms rest with
      | .error e => .error e
      | .ok args => Expression.ofOperator form op args
  | .group pos .round forms => .error (.invalid .noOperator (.group pos .round forms))
  | .group pos bracket forms =>
    let form := Form.group pos bracket forms
    .error (.invalid (.notExpression form.kind) form)

def Expression.ofForms : List Form → Except QueryError (List Expression)
  | [] => .ok []
  | f :: rest =>
    match Expression.ofForm f with
    | .error e => .error e
    | .ok e => (Expression.ofForms rest).map (e :: ·)

end

def Form.isKeywordForm : Form → Bool
  | .atom _ .keyword _ => true
  | _ => false

/-- The filter and the graph selector among the options of a pattern; a later one wins. -/
def Modifiers.ofForms (m : Modifiers) : List Form → Except QueryError Modifiers
  | [] => .ok m
  | .atom pos .keyword key :: rest =>
    let form := Form.atom pos .keyword key
    match rest with
    | [] => .error (.invalid (.optionWithoutValue key) form)
    | value :: rest =>
      match Expression.ofForm value with
      | .error e => .error e
      | .ok e =>
        if key = ":filter" then Modifiers.ofForms { m with filter := some e } rest
        else if key = ":graph" then Modifiers.ofForms { m with graph := some e } rest
        else .error (.invalid (.unknownOption key) form)
  | form :: _ => .error (.invalid .lateArgument form)

/-- The arguments of a pattern stand in front of its first keyword. -/
def Form.arguments (forms : List Form) : List Form := forms.takeWhile (!·.isKeywordForm)

def Form.options (forms : List Form) : List Form := forms.dropWhile (!·.isKeywordForm)

def Path.ofForm : Form → Path × Form
  | .group pos .round [.atom opPos .symbol op, predicate] =>
    if op = "*" then (.star, predicate)
    else if op = "+" then (.plus, predicate)
    else (.once, .group pos .round [.atom opPos .symbol op, predicate])
  | form => (.once, form)

def TriplePattern.ofForms (form : Form) (forms : List Form) : Except QueryError TriplePattern := do
  let modifiers ← Modifiers.ofForms {} (Form.options forms)
  match Form.arguments forms with
  | [s, p, o] =>
    let (path, p) := Path.ofForm p
    let subject ← Expression.ofForm s
    let predicate ← Expression.ofForm p
    let object ← Expression.ofForm o
    return { subject, predicate, object, path, modifiers }
  | _ => .error (.invalid .tripleArguments form)

def TriplePattern.ofForm : Form → Except QueryError TriplePattern
  | .group pos .square forms => TriplePattern.ofForms (.group pos .square forms) forms
  | form => .error (.invalid .triplesArgument form)

mutual

def Pattern.ofForm : Form → Except QueryError Pattern
  | .group pos .square forms =>
    (TriplePattern.ofForms (.group pos .square forms) forms).map .triple
  | .group pos .round (.atom namePos .symbol name :: rest) =>
    let form := Form.group pos .round (.atom namePos .symbol name :: rest)
    match Modifiers.ofForms {} (Form.options rest) with
    | .error e => .error e
    | .ok m =>
      if name = "empty" then
        if (Form.arguments rest).isEmpty then .ok (.empty m)
        else .error (.invalid .emptyArguments form)
      else if name = "group" then (Pattern.ofArguments rest).map (.group · m)
      else if name = "union" then (Pattern.ofArguments rest).map (.union · m)
      else if name = "optional" then
        match rest, (Form.arguments rest).length with
        | main :: extra :: _, 2 =>
          match Pattern.ofForm main with
          | .error e => .error e
          | .ok main => (Pattern.ofForm extra).map (.optional main · m)
        | _, _ => .error (.invalid .optionalArguments form)
      else if name = "triples" then
        ((Form.arguments rest).mapM TriplePattern.ofForm).map (.triples · m)
      else if name = "bind" then
        match rest, (Form.arguments rest).length with
        | main :: target :: value :: _, 3 =>
          match Pattern.ofForm main with
          | .error e => .error e
          | .ok main =>
            match target with
            | .atom _ .var var => (Expression.ofForm value).map (.bind main (var.drop 1) · m)
            | target => .error (.invalid .bindTarget target)
        | _, _ => .error (.invalid .bindArguments form)
      else .error (.invalid (.unknownPattern name) form)
  | .group pos .round forms => .error (.invalid .noPatternName (.group pos .round forms))
  | form => .error (.invalid (.notPattern form.kind) form)

def Pattern.ofArguments : List Form → Except QueryError (List Pattern)
  | [] => .ok []
  | f :: rest =>
    if f.isKeywordForm then .ok []
    else match Pattern.ofForm f with
      | .error e => .error e
      | .ok p => (Pattern.ofArguments rest).map (p :: ·)

end

mutual

/-- A template may be written flat or with triples in brackets of their own. -/
def Query.templateOfForm : Form → Except QueryError (List Expression)
  | .group _ .square forms => Query.templateOfForms forms
  | form => (Expression.ofForm form).map ([·])

def Query.templateOfForms : List Form → Except QueryError (List Expression)
  | [] => .ok []
  | f :: rest =>
    match Query.templateOfForm f with
    | .error e => .error e
    | .ok es => (Query.templateOfForms rest).map (es ++ ·)

end

namespace Query

def clauses : List Form → List (Form × Form)
  | key :: value :: rest => (key, value) :: clauses rest
  | _ => []

def kindOfKey? : Form → Option QueryKind
  | .atom _ .keyword key =>
    [QueryKind.select, .construct, .describe, .ask].find? (":" ++ ·.name = key)
  | _ => none

structure Head where
  key : Form
  kind : QueryKind
  value : Form

def head? (clause : Form × Form) : Option Head :=
  (kindOfKey? clause.1).map (⟨clause.1, ·, clause.2⟩)

def findHead (form : Form) (cs : List (Form × Form)) : Except QueryError Head :=
  match cs.filterMap head? with
  | [] => .error (.invalid .noHead form)
  | [h] => .ok h
  | _ :: h :: _ => .error (.invalid .manyHeads h.key)

/-- The query that a head starts: a selection, a star, or a template. -/
def ofHead (h : Head) : Except QueryError Query :=
  if h.value.isSymbol "*" ∧ (h.kind = .select ∨ h.kind = .describe) then
    .ok { kind := h.kind, selectAll := true }
  else match h.value with
    | .group _ .square forms =>
      match h.kind with
      | .construct => (templateOfForms forms).map ({ kind := h.kind, template := · })
      | .ask => .ok { kind := h.kind }
      | _ => (Expression.ofForms forms).map ({ kind := h.kind, selection := · })
    | value => .error (.invalid (.headNotVector h.kind) value)

def iriOfForm : Form → Except QueryError Text
  | .iri _ value => .ok value
  | form => .error (.invalid (.notIri form.kind) form)

/-- One IRI, or IRIs in square brackets. -/
def irisOfForm : Form → Except QueryError (List Text)
  | .iri _ value => .ok [value]
  | .group _ .square forms => forms.mapM iriOfForm
  | form => .error (.invalid .notIris form)

def orderKeyOfForm (form : Form) : Except QueryError OrderKey :=
  match form with
  | .group _ .round [.atom _ .symbol op, key] =>
    if op = "desc" then (Expression.ofForm key).map (⟨·, true⟩)
    else if op = "asc" then (Expression.ofForm key).map (⟨·, false⟩)
    else (Expression.ofForm form).map (⟨·, false⟩)
  | _ => (Expression.ofForm form).map (⟨·, false⟩)

def orderOfForm : Form → Except QueryError (List OrderKey)
  | .group _ .square forms => forms.mapM orderKeyOfForm
  | form => .error (.invalid .orderNotVector form)

def maxCount : Int := 0x7FFFFFFF

def countOfForm (form : Form) : Except QueryError Int :=
  match form.toInt with
  | .ok n => if 0 ≤ n ∧ n ≤ maxCount then .ok n else .error (.invalid .notCount form)
  | .error _ => .error (.invalid .notCount form)

/-- Takes one clause into a query; a clause that decides the kind has been taken before. -/
def addClause (q : Query) (clause : Form × Form) : Except QueryError Query :=
  match clause with
  | (.atom pos .keyword key, value) =>
    let form := Form.atom pos .keyword key
    if (kindOfKey? form).isSome then .ok q
    else if key = ":where" then (Pattern.ofForm value).map ({ q with pattern := some · })
    else if key = ":distinct" then
      match value.toBool with
      | .ok b => .ok { q with distinct := b }
      | .error _ => .error (.invalid .distinctNotBoolean value)
    else if key = ":from" then (irisOfForm value).map ({ q with graphs := · })
    else if key = ":from-named" then (irisOfForm value).map ({ q with namedGraphs := · })
    else if key = ":order-by" then (orderOfForm value).map ({ q with orderBy := · })
    else if key = ":limit" then (countOfForm value).map ({ q with limit := some · })
    else if key = ":offset" then (countOfForm value).map ({ q with offset := · })
    else .error (.invalid (.unknownClause key) form)
  | (key, _) => .error (.invalid .keyNotKeyword key)

def ofForm (form : Form) : Except QueryError Query :=
  match form with
  | .group _ .curly forms => do
    let head ← findHead form (clauses forms)
    let q ← ofHead head
    (clauses forms).foldlM addClause q
  | _ => .error (.invalid (.notMap form.kind) form)

end Query

def Form.ofText (t : Text) : Except QueryError Form := (Form.read t).mapError .unreadable

def Expression.ofText (t : Text) : Except QueryError Expression := do
  Expression.ofForm (← Form.ofText t)

def Pattern.ofText (t : Text) : Except QueryError Pattern := do
  Pattern.ofForm (← Form.ofText t)

def Query.ofText (t : Text) : Except QueryError Query := do
  Query.ofForm (← Form.ofText t)

end GraphQuery
