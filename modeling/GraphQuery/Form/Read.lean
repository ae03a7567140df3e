import GraphQuery.Form.Atom
import GraphQuery.Form.Scan

namespace GraphQuery

inductive ReadError where
  | scan (cause : ScanError)
  | unexpectedEnd (pos : Position)
  | unexpectedToken (token : Token)
  | unclosed (bracket : Bracket) (pos : Position)
  | mismatched (bracket : Bracket) (pos : Position)
  | oddMap (pos : Position)
  | invalidAtom (fault : Atom.Fault) (value : Text) (pos : Position)
  | trailing (token : Token)
deriving DecidableEq

def ReadError.message : ReadError → Text
  | scan cause => cause.message
  | unexpectedEnd pos => "unexpected EOF at " ++ pos.text
  | unexpectedToken token => "unexpected token " ++ token.text
  | unclosed bracket pos =>
    "unclosed " ++ (Form.group pos bracket []).kind.name ++ " starting at " ++ pos.text
  | mismatched bracket pos =>
    "mismatched delimiter " ++ [bracket.closing] ++ " at " ++ pos.text
  | oddMap pos => "map literal must contain an even number of forms at " ++ pos.text
  | invalidAtom .keyword value pos => "invalid keyword '" ++ value ++ "' at " ++ pos.text
  | invalidAtom .var value pos => "invalid variable " ++ value ++ " at " ++ pos.text
  | invalidAtom .blank value pos => "invalid blank node label " ++ value ++ " at " ++ pos.text
  | trailing token => "unexpected trailing input " ++ token.text

namespace Form

/-- A bracketed form that is still open, with the forms read so far, the last one first. -/
structure Frame where
  bracket : Bracket
  pos : Position
  done : List Form

def ofLeaf (pos : Position) : Leaf → Except ReadError Form
  | .string value note => .ok (.string pos value note)
  | .iri value => .ok (.iri pos value)
  | .atom value =>
    match Atom.classify value with
    | .ok cls => .ok (.atom pos cls value)
    | .error fault => .error (.invalidAtom fault value pos)

/-- The form of a frame that is being closed; a map has an even number of parts. -/
def Frame.close (f : Frame) : Except ReadError Form :=
  if f.bracket = .curly ∧ f.done.length % 2 = 1 then .error (.oddMap f.pos)
  else .ok (.group f.pos f.bracket f.done.reverse)

def Frame.push (f : Frame) (form : Form) : Frame := ⟨f.bracket, f.pos, form :: f.done⟩

/-- Reads until the outermost form is complete; `stop` is the place where the tokens end. -/
def readForm (stop : Position) : List Frame → List Token → Except ReadError (Form × List Token)
  | [], [] => .error (.unexpectedEnd stop)
  | frame :: _, [] => .error (.unclosed frame.bracket frame.pos)
  | frames, ⟨.opening bracket, pos⟩ :: rest => readForm stop (⟨bracket, pos, []⟩ :: frames) rest
  | [], ⟨.closing bracket, pos⟩ :: _ => .error (.unexpectedToken ⟨.closing bracket, pos⟩)
  | frame :: outer, ⟨.closing bracket, pos⟩ :: rest =>
    if bracket = frame.bracket then
      match frame.close, outer with
      | .error e, _ => .error e
      | .ok form, [] => .ok (form, rest)
      | .ok form, next :: outer => readForm stop (next.push form :: outer) rest
    else .error (.mismatched bracket pos)
  | frames, ⟨.leaf leaf, pos⟩ :: rest =>
    match ofLeaf pos leaf, frames with
    | .error e, _ => .error e
    | .ok form, [] => .ok (form, rest)
    | .ok form, next :: outer => readForm stop (next.push form :: outer) rest

theorem length_readForm_lt {stop : Position} {frames : List Frame} {tokens rest : List Token}
    {form : Form} (h : readForm stop frames tokens = .ok (form, rest)) :
    rest.length < tokens.length := by
  fun_induction readForm stop frames tokens generalizing form rest with
  | case3 _ _ _ _ ih => exact Nat.lt_succ_of_lt (ih h)
  | case6 => cases h; simp
  | case7 _ _ _ _ _ _ _ ih => exact Nat.lt_succ_of_lt (ih h)
  | case10 => cases h; simp
  | case11 _ _ _ _ _ _ _ ih => exact Nat.lt_succ_of_lt (ih h)
  | _ => cases h

def readForms (stop : Position) (tokens : List Token) : Except ReadError (List Form) :=
  match tokens with
  | [] => .ok []
  | token :: rest =>
    match _h : readForm stop [] (token :: rest) with
    | .error e => .error e
    | .ok (form, left) => (readForms stop left).map (form :: ·)
termination_by tokens.length
decreasing_by exact length_readForm_lt _h

def read (t : Text) : Except ReadError Form :=
  match scan t with
  | .error e => .error (.scan e)
  | .ok (tokens, stop) =>
    match readForm stop [] tokens with
    | .error e => .error e
    | .ok (form, []) => .ok form
    | .ok (_, token :: _) => .error (.trailing token)

def readAll (t : Text) : Except ReadError (List Form) :=
  match scan t with
  | .error e => .error (.scan e)
  | .ok (tokens, stop) => readForms stop tokens

end Form

end GraphQuery
