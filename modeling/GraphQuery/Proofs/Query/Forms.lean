import GraphQuery.Proofs.Form.RoundTrip
import GraphQuery.Query.Basic

namespace GraphQuery

theorem Text.spaced_nil : Text.spaced [] = [] := rfl

theorem Text.spaced_cons (t : Text) (ts : List Text) :
    Text.spaced (t :: ts) = " " ++ t ++ Text.spaced ts := rfl

theorem Text.spaced_append (ts us : List Text) :
    Text.spaced (ts ++ us) = Text.spaced ts ++ Text.spaced us := by
  induction ts with
  | nil => rfl
  | cons t ts ih => simp only [List.cons_append, spaced_cons, ih, List.append_assoc]

theorem Text.ofOption_map {α β : Type} (f : β → Text) (g : α → β) (v : Option α) :
    Text.ofOption f (v.map g) = Text.ofOption (fun a => f (g a)) v := by
  cases v <;> rfl

namespace Form

abbrev call (name : Text) (args : List Form) : Form :=
  .group .start .round (.atom .start .symbol name :: args)

abbrev vector (forms : List Form) : Form := .group .start .square forms

def option (key : Text) : Option Form → List Form
  | none => []
  | some value => [.atom .start .keyword key, value]

theorem textList_cons (f : Form) (forms : List Form) :
    textList (f :: forms) = f.text ++ Text.spaced (forms.map text) := by
  induction forms generalizing f with
  | nil => simp [textList, Text.spaced]
  | cons g forms ih =>
    rw [textList, ih, List.map_cons, Text.spaced_cons]
    simp only [List.append_assoc]

theorem text_call (name : Text) (args : List Form) :
    (call name args).text = "(" ++ name ++ Text.spaced (args.map text) ++ ")" := by
  rw [text, textList_cons, text]
  simp only [List.append_assoc]
  rfl

theorem text_vector_cons (f : Form) (forms : List Form) :
    (vector (f :: forms)).text = "[" ++ f.text ++ Text.spaced (forms.map text) ++ "]" := by
  rw [text, textList_cons]
  simp only [List.append_assoc]
  rfl

theorem text_option {key lead : Text} (hlead : lead = " " ++ key ++ " ") (v : Option Form) :
    Text.spaced ((option key v).map text) = Text.ofOption (lead ++ ·.text) v := by
  cases v with
  | none => rfl
  | some f =>
    simp only [option, List.map_cons, List.map_nil, Text.spaced_cons, Text.spaced_nil,
      Text.ofOption, hlead, text, List.append_nil, List.append_assoc]

theorem strings_option {α : Type} {toForm : α → Form} {lexicals : α → List Text}
    (h : ∀ a, (toForm a).strings = lexicals a) (key : Text) (v : Option α) :
    (option key (v.map toForm)).flatMap strings = v.elim [] lexicals := by
  cases v <;> simp [option, strings, h]

theorem stringsAll_eq_flatMap (forms : List Form) :
    stringsAll forms = forms.flatMap strings := by
  induction forms with
  | nil => rfl
  | cons f forms ih => rw [stringsAll, ih, List.flatMap_cons]

theorem strings_call (name : Text) (args : List Form) :
    (call name args).strings = args.flatMap strings := by
  rw [strings, stringsAll_eq_flatMap, List.flatMap_cons]
  rfl

end Form

/-- The annotation of a literal; a language comes before a datatype. -/
def Note.ofParts (language : Text) (datatype : Option Text) : Note :=
  if language.isEmpty then datatype.elim .none .datatype else .language language

namespace Expression

mutual

def toForm : Expression → Form
  | missing => .iri .start "nil"
  | bool value => .atom .start .bool (Text.ofBool value)
  | int value => .atom .start .int (Text.ofInt value)
  | decimal lexical => .atom .start .decimal lexical
  | double lexical => .atom .start .double lexical
  | var name => .atom .start .var ("?" ++ name)
  | blank label => .atom .start .blank label
  | literal lexical language datatype => .string .start lexical (.ofParts language datatype)
  | iri value => .iri .start value
  | call function args => .call "call" (.iri .start function :: toForms args)
  | signed sign operand => .call sign.name [toForm operand]
  | arithmetic op operands => .call op.name (toForms operands)
  | compare op left right => .call op.name [toForm left, toForm right]
  | not operand => .call "not" [toForm operand]
  | logic op operands => .call op.name (toForms operands)
  | builtIn name args => .call name.name (toForms args)

def toForms : List Expression → List Form
  | [] => []
  | e :: rest => toForm e :: toForms rest

end

mutual

/-- The lexical forms of the literals in an expression. -/
def lexicals : Expression → List Text
  | literal lexical _ _ => [lexical]
  | call _ args => lexicalsAll args
  | signed _ operand => lexicals operand
  | arithmetic _ operands => lexicalsAll operands
  | compare _ left right => lexicals left ++ lexicals right
  | not operand => lexicals operand
  | logic _ operands => lexicalsAll operands
  | builtIn _ args => lexicalsAll args
  | _ => []

def lexicalsAll : List Expression → List Text
  | [] => []
  | e :: rest => lexicals e ++ lexicalsAll rest

end

theorem toForms_eq_map (es : List Expression) : toForms es = es.map toForm := by
  induction es with
  | nil => rfl
  | cons e es ih => rw [toForms, ih, List.map_cons]

theorem textArgs_eq_spaced (es : List Expression) : textArgs es = Text.spaced (es.map text) := by
  induction es with
  | nil => rfl
  | cons e es ih =>
    rw [textArgs, ih, List.map_cons, Text.spaced_cons]

theorem text_ofParts (language : Text) (datatype : Option Text) :
    (Note.ofParts language datatype).text =
      if language.isEmpty then Text.ofOption ("^^<" ++ · ++ ">") datatype else "@" ++ language := by
  rw [Note.ofParts]
  split
  · cases datatype <;> rfl
  · rfl

theorem text_toForm (e : Expression) : e.toForm.text = e.text := by
  induction e using Expression.rec
      (motive_2 := fun es => (toForms es).map Form.text = es.map text) with
  | literal lexical language datatype => rw [toForm, text, Form.text, text_ofParts]
  | call function args ih =>
    rw [toForm, text, Form.text_call, List.map_cons, ih, textArgs_eq_spaced, Text.spaced_cons,
      Form.text]
    simp only [List.append_assoc]
    rfl
  | signed sign operand ih =>
    rw [toForm, text, Form.text_call, List.map_singleton, ih]
    simp only [Text.spaced_cons, Text.spaced_nil, List.append_nil, List.append_assoc]
  | arithmetic op operands ih => rw [toForm, text, Form.text_call, ih, textArgs_eq_spaced]
  | compare op left right ihl ihr =>
    rw [toForm, text, Form.text_call, List.map_cons, List.map_singleton, ihl, ihr]
    simp only [Text.spaced_cons, Text.spaced_nil, List.append_nil, List.append_assoc]
  | not operand ih =>
    rw [toForm, text, Form.text_call, List.map_singleton, ih]
    simp only [Text.spaced_cons, Text.spaced_nil, List.append_nil, List.append_assoc]
    rfl
  | logic op operands ih => rw [toForm, text, Form.text_call, ih, textArgs_eq_spaced]
  | builtIn name args ih => rw [toForm, text, Form.text_call, ih, textArgs_eq_spaced]
  | nil => rfl
  | cons e es ihe ih => rw [toForms, List.map_cons, List.map_cons, ihe, ih]
  | _ => rfl

theorem strings_toForm (e : Expression) : e.toForm.strings = e.lexicals := by
  induction e using Expression.rec
      (motive_2 := fun es => (toForms es).flatMap Form.strings = lexicalsAll es) with
  | call function args ih =>
    rw [toForm, lexicals, Form.strings_call, List.flatMap_cons, ih]
    rfl
  | signed sign operand ih => rw [toForm, lexicals, Form.strings_call]; simp [ih]
  | arithmetic op operands ih => rw [toForm, lexicals, Form.strings_call, ih]
  | compare op left right ihl ihr => rw [toForm, lexicals, Form.strings_call]; simp [ihl, ihr]
  | not operand ih => rw [toForm, lexicals, Form.strings_call]; simp [ih]
  | logic op operands ih => rw [toForm, lexicals, Form.strings_call, ih]
  | builtIn name args ih => rw [toForm, lexicals, Form.strings_call, ih]
  | nil => rfl
  | cons e es ihe ih => rw [toForms, List.flatMap_cons, lexicalsAll, ihe, ih]
  | _ => rfl

theorem text_map_toForm (es : List Expression) :
    (es.map toForm).map Form.text = es.map text := by
  simp [Function.comp_def, text_toForm]

theorem strings_map_toForm (es : List Expression) :
    (es.map toForm).flatMap Form.strings = es.flatMap lexicals := by
  simp [List.flatMap_map, strings_toForm]

end Expression

namespace Modifiers

def toForms (m : Modifiers) : List Form :=
  Form.option ":filter" (m.filter.map Expression.toForm) ++
    Form.option ":graph" (m.graph.map Expression.toForm)

def lexicals (m : Modifiers) : List Text :=
  m.filter.elim [] Expression.lexicals ++ m.graph.elim [] Expression.lexicals

theorem text_toForms (m : Modifiers) : Text.spaced (m.toForms.map Form.text) = m.text := by
  rw [toForms, text, List.map_append, Text.spaced_append, Form.text_option rfl,
    Form.text_option rfl, Text.ofOption_map, Text.ofOption_map]
  simp only [Expression.text_toForm]
  rfl

theorem strings_toForms (m : Modifiers) : m.toForms.flatMap Form.strings = m.lexicals := by
  rw [toForms, lexicals, List.flatMap_append, Form.strings_option Expression.strings_toForm,
    Form.strings_option Expression.strings_toForm]

end Modifiers

namespace TriplePattern

def predicateForm (t : TriplePattern) : Form :=
  if t.path = .once then t.predicate.toForm else .call t.path.name [t.predicate.toForm]

def toForm (t : TriplePattern) : Form :=
  .vector ([t.subject.toForm, t.predicateForm, t.object.toForm] ++ t.modifiers.toForms)

def lexicals (t : TriplePattern) : List Text :=
  t.subject.lexicals ++ t.predicate.lexicals ++ t.object.lexicals ++ t.modifiers.lexicals

theorem text_predicateForm (t : TriplePattern) : t.predicateForm.text = t.predicateText := by
  rw [predicateForm, predicateText]
  split
  · exact t.predicate.text_toForm
  · rw [Form.text_call, List.map_singleton, Expression.text_toForm]
    simp only [Text.spaced_cons, Text.spaced_nil, List.append_nil, List.append_assoc]

theorem text_toForm (t : TriplePattern) : t.toForm.text = t.text := by
  rw [toForm, text, List.cons_append, Form.text_vector_cons, List.map_append,
    Text.spaced_append, Modifiers.text_toForms]
  simp only [List.map_cons, List.map_nil, Text.spaced_cons, Text.spaced_nil, text_predicateForm,
    Expression.text_toForm, List.append_nil, List.append_assoc]

theorem strings_predicateForm (t : TriplePattern) :
    t.predicateForm.strings = t.predicate.lexicals := by
  rw [predicateForm]
  split
  · exact t.predicate.strings_toForm
  · rw [Form.strings_call]
    simp [Expression.strings_toForm]

theorem strings_toForm (t : TriplePattern) : t.toForm.strings = t.lexicals := by
  rw [toForm, lexicals, Form.strings, Form.stringsAll_eq_flatMap, List.flatMap_append,
    Modifiers.strings_toForms]
  simp [Expression.strings_toForm, strings_predicateForm]

end TriplePattern

namespace Pattern

mutual

def toForm : Pattern → Form
  | missing => .iri .start "nil"
  | empty m => .call "empty" m.toForms
  | group ps m => .call "group" (toForms ps ++ m.toForms)
  | union ps m => .call "union" (toForms ps ++ m.toForms)
  | optional main extra m => .call "optional" ([toForm main, toForm extra] ++ m.toForms)
  | triple t => t.toForm
  | triples ts m => .call "triples" (ts.map TriplePattern.toForm ++ m.toForms)
  | bind main var value m =>
    .call "bind" ([toForm main, .atom .start .var ("?" ++ var), value.toForm] ++ m.toForms)

def toForms : List Pattern → List Form
  | [] => []
  | p :: rest => toForm p :: toForms rest

end

mutual

def lexicals : Pattern → List Text
  | missing => []
  | empty m => m.lexicals
  | group ps m => lexicalsAll ps ++ m.lexicals
  | union ps m => lexicalsAll ps ++ m.lexicals
  | optional main extra m => lexicals main ++ lexicals extra ++ m.lexicals
  | triple t => t.lexicals
  | triples ts m => ts.flatMap TriplePattern.lexicals ++ m.lexicals
  | bind main _ value m => lexicals main ++ value.lexicals ++ m.lexicals

def lexicalsAll : List Pattern → List Text
  | [] => []
  | p :: rest => lexicals p ++ lexicalsAll rest

end

theorem toForms_eq_map (ps : List Pattern) : toForms ps = ps.map toForm := by
  induction ps with
  | nil => rfl
  | cons p ps ih => rw [toForms, ih, List.map_cons]

theorem textArgs_eq_spaced (ps : List Pattern) : textArgs ps = Text.spaced (ps.map text) := by
  induction ps with
  | nil => rfl
  | cons p ps ih => rw [textArgs, ih, List.map_cons, Text.spaced_cons]

theorem text_call_modifiers (name : Text) (args : List Form) (m : Modifiers) :
    (Form.call name (args ++ m.toForms)).text =
      "(" ++ name ++ Text.spaced (args.map Form.text) ++ m.text ++ ")" := by
  rw [Form.text_call, List.map_append, Text.spaced_append, Modifiers.text_toForms]
  simp only [List.append_assoc]

theorem text_toForm (p : Pattern) : p.toForm.text = p.text := by
  induction p using Pattern.rec
      (motive_2 := fun ps => (toForms ps).map Form.text = ps.map text) with
  | missing => rfl
  | empty m => exact text_call_modifiers "empty" [] m
  | group ps m ih =>
    rw [toForm, text, text_call_modifiers, ih, textArgs_eq_spaced]
    rfl
  | union ps m ih =>
    rw [toForm, text, text_call_modifiers, ih, textArgs_eq_spaced]
    rfl
  | optional main extra m ihm ihe =>
    rw [toForm, text, text_call_modifiers]
    simp only [List.map_cons, List.map_nil, Text.spaced_cons, Text.spaced_nil, ihm, ihe,
      List.append_nil, List.append_assoc]
    rfl
  | triple t => exact t.text_toForm
  | triples ts m =>
    rw [toForm, text, text_call_modifiers, List.map_map]
    simp only [Function.comp_def, TriplePattern.text_toForm]
    rfl
  | bind main var value m ih =>
    rw [toForm, text, text_call_modifiers]
    simp only [List.map_cons, List.map_nil, Text.spaced_cons, Text.spaced_nil, ih,
      Expression.text_toForm, Form.text, List.append_nil, List.append_assoc]
    rfl
  | nil => rfl
  | cons p ps ihp ih => rw [toForms, List.map_cons, List.map_cons, ihp, ih]

theorem strings_toForm (p : Pattern) : p.toForm.strings = p.lexicals := by
  induction p using Pattern.rec
      (motive_2 := fun ps => (toForms ps).flatMap Form.strings = lexicalsAll ps) with
  | missing => rfl
  | empty m => rw [toForm, lexicals, Form.strings_call, Modifiers.strings_toForms]
  | group ps m ih | union ps m ih =>
    rw [toForm, lexicals, Form.strings_call, List.flatMap_append, ih, Modifiers.strings_toForms]
  | optional main extra m ihm ihe =>
    rw [toForm, lexicals, Form.strings_call, List.flatMap_append, Modifiers.strings_toForms]
    simp [ihm, ihe]
  | triple t => exact t.strings_toForm
  | triples ts m =>
    rw [toForm, lexicals, Form.strings_call, List.flatMap_append, Modifiers.strings_toForms]
    simp [List.flatMap_map, TriplePattern.strings_toForm]
  | bind main var value m ih =>
    rw [toForm, lexicals, Form.strings_call, List.flatMap_append, Modifiers.strings_toForms]
    simp [ih, Expression.strings_toForm, Form.strings]
  | nil => rfl
  | cons p ps ihp ih => rw [toForms, List.flatMap_cons, lexicalsAll, ihp, ih]

end Pattern

theorem Text.join_blank (t : Text) (ts : List Text) :
    Text.join " " (t :: ts) = t ++ Text.spaced ts := by
  induction ts generalizing t with
  | nil => simp [join, spaced]
  | cons u ts ih => rw [join, ih, spaced_cons, List.append_assoc, List.append_assoc]

theorem Form.text_vector (forms : List Form) :
    (vector forms).text = "[" ++ Text.join " " (forms.map text) ++ "]" := by
  cases forms with
  | nil => rfl
  | cons f forms =>
    rw [text_vector_cons, List.map_cons, Text.join_blank]
    simp only [List.append_assoc]

theorem Form.strings_vector (forms : List Form) :
    (vector forms).strings = forms.flatMap strings := by
  rw [strings, stringsAll_eq_flatMap]

def OrderKey.toForm (k : OrderKey) : Form :=
  if k.descending then .call "desc" [k.expression.toForm] else k.expression.toForm

theorem OrderKey.text_toForm (k : OrderKey) : k.toForm.text = k.text := by
  rw [toForm, text]
  split
  · rw [Form.text_call, List.map_singleton, Expression.text_toForm]
    simp only [Text.spaced_cons, Text.spaced_nil, List.append_nil, List.append_assoc]
    rfl
  · exact k.expression.text_toForm

theorem OrderKey.strings_toForm (k : OrderKey) : k.toForm.strings = k.expression.lexicals := by
  rw [toForm]
  split
  · rw [Form.strings_call]
    simp [Expression.strings_toForm]
  · exact k.expression.strings_toForm

namespace Query

def headForm (q : Query) : Form :=
  if q.kind = .construct then .vector (q.template.map Expression.toForm)
  else if q.selectAll then .atom .start .symbol "*"
  else .vector (q.selection.map Expression.toForm)

def vector? (forms : List Form) : Option Form :=
  if forms.isEmpty then none else some (.vector forms)

def countForm (n : Int) : Form := .atom .start .int (Text.ofInt n)

def clauseForms (q : Query) : List Form :=
  Form.option ":distinct" (if q.distinct then some (.atom .start .bool "true") else none) ++
    Form.option ":from" (vector? (q.graphs.map (.iri .start))) ++
    Form.option ":from-named" (vector? (q.namedGraphs.map (.iri .start))) ++
    Form.option ":where" (q.pattern.map Pattern.toForm) ++
    Form.option ":order-by" (vector? (q.orderBy.map OrderKey.toForm)) ++
    Form.option ":limit" (q.limit.map countForm) ++
    Form.option ":offset" (if q.offset = 0 then none else some (countForm q.offset))

def toForm (q : Query) : Form :=
  .group .start .curly (.atom .start .keyword (":" ++ q.kind.name) :: q.headForm :: q.clauseForms)

def lexicals (q : Query) : List Text :=
  q.template.flatMap Expression.lexicals ++ q.selection.flatMap Expression.lexicals ++
    q.pattern.elim [] Pattern.lexicals ++ q.orderBy.flatMap (·.expression.lexicals)

theorem text_headForm (q : Query) : q.headForm.text = q.headText := by
  rw [headForm, headText]
  split
  · rw [Form.text_vector, Expression.text_map_toForm]
    rfl
  · split
    · rfl
    · rw [Form.text_vector, Expression.text_map_toForm]
      rfl

theorem text_vector? (lead : Text) (forms : List Form) :
    Text.ofOption (lead ++ ·.text) (vector? forms) =
      Text.when (!forms.isEmpty) (lead ++ ("[" ++ Text.join " " (forms.map Form.text) ++ "]")) := by
  rw [vector?]
  cases forms with
  | nil => rfl
  | cons f forms => exact congrArg (lead ++ ·) (Form.text_vector (f :: forms))

theorem text_iris (iris : List Text) :
    "[" ++ Text.join " " ((iris.map (.iri .start)).map Form.text) ++ "]" = iriVector iris := by
  rw [iriVector, Expression.textVector, List.map_map, List.map_map]
  rfl

theorem text_clauseForms (q : Query) : Text.spaced (q.clauseForms.map Form.text) =
    Text.when q.distinct " :distinct true" ++
      Text.when (!q.graphs.isEmpty) (" :from " ++ iriVector q.graphs) ++
      Text.when (!q.namedGraphs.isEmpty) (" :from-named " ++ iriVector q.namedGraphs) ++
      Text.ofOption (" :where " ++ ·.text) q.pattern ++
      Text.when (!q.orderBy.isEmpty)
        (" :order-by [" ++ Text.join " " (q.orderBy.map OrderKey.text) ++ "]") ++
      Text.ofOption (" :limit " ++ Text.ofInt ·) q.limit ++
      Text.when (q.offset ≠ 0) (" :offset " ++ Text.ofInt q.offset) := by
  simp only [clauseForms, List.map_append, Text.spaced_append]
  rw [@Form.text_option ":distinct" " :distinct " rfl, @Form.text_option ":from" " :from " rfl,
    @Form.text_option ":from-named" " :from-named " rfl, @Form.text_option ":where" " :where " rfl,
    @Form.text_option ":order-by" " :order-by " rfl, @Form.text_option ":limit" " :limit " rfl,
    @Form.text_option ":offset" " :offset " rfl]
  simp only [text_vector?, text_iris, Text.ofOption_map, List.isEmpty_map, Pattern.text_toForm]
  have hdistinct : Text.ofOption (" :distinct " ++ ·.text)
      (if q.distinct then some (Form.atom .start .bool "true") else none) =
        Text.when q.distinct " :distinct true" := by
    cases q.distinct <;> rfl
  have horder : (" :order-by " ++ ("[" ++
      Text.join " " ((q.orderBy.map OrderKey.toForm).map Form.text) ++ "]") : Text) =
        " :order-by [" ++ Text.join " " (q.orderBy.map OrderKey.text) ++ "]" := by
    simp only [List.map_map, Function.comp_def, OrderKey.text_toForm]
    rfl
  have hoffset : Text.ofOption (" :offset " ++ ·.text)
      (if q.offset = 0 then none else some (countForm q.offset)) =
        Text.when (q.offset ≠ 0) (" :offset " ++ Text.ofInt q.offset) := by
    by_cases h : q.offset = 0 <;> simp [h, Text.when, Text.ofOption, countForm, Form.text]
  rw [hdistinct, horder, hoffset]
  rfl

theorem text_toForm (q : Query) : q.toForm.text = q.text := by
  rw [toForm, text, Form.text, Form.textList_cons, List.map_cons, Text.spaced_cons, text_headForm,
    text_clauseForms]
  simp only [Form.text, List.append_assoc]
  rfl

theorem strings_vector? (key : Text) (forms : List Form) :
    (Form.option key (vector? forms)).flatMap Form.strings = forms.flatMap Form.strings := by
  rw [vector?]
  cases forms with
  | nil => rfl
  | cons f forms => simp [Form.option, Form.strings, Form.stringsAll_eq_flatMap]

theorem strings_clauseForms (q : Query) : q.clauseForms.flatMap Form.strings =
    q.pattern.elim [] Pattern.lexicals ++ q.orderBy.flatMap (·.expression.lexicals) := by
  have hdistinct : (Form.option ":distinct"
      (if q.distinct then some (Form.atom .start .bool "true") else none)).flatMap Form.strings =
        [] := by
    cases q.distinct <;> rfl
  have hiris (iris : List Text) : (iris.map (Form.iri .start)).flatMap Form.strings = [] := by
    simp [List.flatMap_map, Form.strings]
  have hlimit : (Form.option ":limit" (q.limit.map countForm)).flatMap Form.strings = [] := by
    cases q.limit <;> rfl
  have hoffset : (Form.option ":offset"
      (if q.offset = 0 then none else some (countForm q.offset))).flatMap Form.strings = [] := by
    split <;> rfl
  simp only [clauseForms, List.flatMap_append, strings_vector?, hdistinct, hiris, hlimit, hoffset,
    Form.strings_option Pattern.strings_toForm, List.flatMap_map, OrderKey.strings_toForm,
    List.nil_append, List.append_nil]

end Query

end GraphQuery
