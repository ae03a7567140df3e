import GraphQuery.Proofs.Form.Concatenation

namespace GraphQuery

namespace Scan

structure State where
  pos : Position
  rest : Text
  found : List Token

namespace State

def start (t : Text) : State := ⟨.start, t, []⟩

/-- One turn of the loop: it goes on behind the next token, or the scan is over. -/
def turn (s : State) : State ⊕ Except ScanError (List Token × Position) :=
  match skip false s.pos s.rest with
  | (stop, []) => .inr (.ok (s.found, stop))
  | (start, b :: rest) =>
    match lexeme start b rest with
    | .error e => .inr (.error e)
    | .ok p => .inl ⟨p.pos, p.rest, s.found ++ [⟨p.value, start⟩]⟩

/-- The loop, unless it takes more than the given number of turns. -/
def run : Nat → State → Option (Except ScanError (List Token × Position))
  | 0, _ => none
  | turns + 1, s =>
    match s.turn with
    | .inl s' => s'.run turns
    | .inr outcome => some outcome

def Advances (s s' : State) : Prop :=
  ∃ taken, taken ≠ [] ∧ s.rest = taken ++ s'.rest ∧ s'.pos = s.pos.after taken

end State

def IsUnexpected (e : ScanError) : Prop := ∃ b pos, e = .unexpectedByte b pos

end Scan

namespace Form

mutual

/-- Reads a form within the given number of nested calls, one of them for the parts of a bracketed
form. -/
def descend (stop : Position) : Nat → List Token → Option (Except ReadError (Form × List Token))
  | 0, _ => none
  | _ + 1, [] => some (.error (.unexpectedEnd stop))
  | _ + 1, ⟨.leaf leaf, pos⟩ :: rest => some ((ofLeaf pos leaf).map (·, rest))
  | _ + 1, ⟨.closing bracket, pos⟩ :: _ => some (.error (.unexpectedToken ⟨.closing bracket, pos⟩))
  | calls + 1, ⟨.opening bracket, pos⟩ :: rest => do
    match ← descendParts stop calls ⟨bracket, pos, []⟩ rest with
    | .error e => return .error e
    | .ok (frame, left) => return frame.close.map (·, left)

def descendParts (stop : Position) :
    Nat → Frame → List Token → Option (Except ReadError (Frame × List Token))
  | 0, _, _ => none
  | _ + 1, frame, [] => some (.error (.unclosed frame.bracket frame.pos))
  | _ + 1, frame, ⟨.closing bracket, pos⟩ :: rest =>
    if bracket = frame.bracket then some (.ok (frame, rest))
    else some (.error (.mismatched bracket pos))
  | calls + 1, frame, token :: rest => do
    match ← descend stop calls (token :: rest) with
    | .error e => return .error e
    | .ok (form, left) => descendParts stop calls (frame.push form) left

end

def descendAll (stop : Position) :
    Nat → List Form → List Token → Option (Except ReadError (List Form))
  | 0, _, _ => none
  | _ + 1, found, [] => some (.ok found)
  | calls + 1, found, token :: rest => do
    match ← descend stop calls (token :: rest) with
    | .error e => return .error e
    | .ok (form, left) => descendAll stop calls (found ++ [form]) left

def readByDescent (limit : Nat) (t : Text) : Option (Except ReadError Form) := do
  match ← (Scan.State.start t).run limit with
  | .error e => return .error (.scan e)
  | .ok (ts, stop) =>
    match ← descend stop limit ts with
    | .error e => return .error e
    | .ok (form, []) => return .ok form
    | .ok (_, token :: _) => return .error (.trailing token)

def readAllByDescent (limit : Nat) (t : Text) : Option (Except ReadError (List Form)) := do
  match ← (Scan.State.start t).run limit with
  | .error e => return .error (.scan e)
  | .ok (ts, stop) => descendAll stop limit [] ts

end Form

namespace Scan

section Turns
variable {e : ScanError} {pos start : Position} {t rest : Text} {b : UInt8}

theorem not_isUnexpected_stringBody (h : stringBody start pos t = .error e) :
    ¬ IsUnexpected e := by
  fun_induction stringBody start pos t with
  | case1 =>
    cases h
    simp [IsUnexpected]
  | case2 => cases h
  | case3 =>
    cases h
    simp [IsUnexpected]
  | case4 =>
    cases h
    simp [IsUnexpected]
  | case5 pos e rest c he hquote ih => exact ih (map_eq_error.1 h)
  | case6 pos b rest hquote hslash ih => exact ih (map_eq_error.1 h)

theorem not_isUnexpected_note (h : note pos t = .error e) : ¬ IsUnexpected e := by
  rintro ⟨b, p, rfl⟩
  unfold note languageTag datatypeIri at h
  grind

theorem not_isUnexpected_string (h : string start pos t = .error e) : ¬ IsUnexpected e := by
  rw [string] at h
  split at h
  next e' he =>
    cases h
    exact not_isUnexpected_stringBody he
  next body hbody => exact not_isUnexpected_note (map_eq_error.1 h)

theorem IsGap.head_not_separator {gap : Text} (h : IsGap rest gap) :
    ∀ b, rest.head? = some b → isSeparator b = false := by
  induction h with
  | nil hrest => exact hrest
  | blank hb _ ih => exact ih
  | comment hwords hend _ ih => exact ih

/-- The byte behind a gap is one of an atom, unless it starts a string or is a bracket. -/
theorem takeWhile_isAtomByte_ne_nil (h : skip false pos t = (start, b :: rest))
    (hquote : b ≠ '"'.toUInt8) (hbracket : isBracket b = false) :
    (b :: rest).takeWhile isAtomByte ≠ [] := by
  obtain ⟨gap, hgap, -, -⟩ := skip_eq.1 h
  have hb := isAtomByte_iff.2 ⟨hgap.head_not_separator b rfl, hquote, hbracket⟩
  rw [List.takeWhile_cons_of_pos hb]
  exact List.cons_ne_nil b _

theorem not_isUnexpected_lexeme (hskip : skip false pos t = (start, b :: rest))
    (h : lexeme start b rest = .error e) : ¬ IsUnexpected e := by
  rw [lexeme] at h
  split at h
  · exact not_isUnexpected_string h
  next hquote =>
    split at h
    · cases h
    · cases h
    next hopening hclosing =>
      split at h
      · split at h
        · cases h
          simp [IsUnexpected]
        · cases h
      · have hbracket : isBracket b = false := by simp [isBracket, hopening, hclosing]
        have hatom := takeWhile_isAtomByte_ne_nil hskip hquote hbracket
        rw [atom, if_neg (by simpa using hatom)] at h
        cases h

end Turns

namespace State
variable {s s' : State} {e : ScanError}

theorem turn_advances (h : s.turn = .inl s') : s.Advances s' := by
  rw [turn] at h
  split at h
  · cases h
  next start b rest hskip =>
    split at h
    · cases h
    next p hlexeme =>
      cases h
      obtain ⟨gap, -, htext, rfl⟩ := skip_eq.1 hskip
      obtain ⟨more, -, rfl, hpos⟩ := lexeme_eq_ok.1 hlexeme
      refine ⟨gap ++ b :: more, by simp, by simp [htext], ?_⟩
      rw [hpos, Position.after_append]

theorem not_isUnexpected_turn (h : s.turn = .inr (.error e)) : ¬ IsUnexpected e := by
  rw [turn] at h
  split at h
  · cases h
  next start b rest hskip =>
    split at h
    next e' hlexeme =>
      cases h
      exact not_isUnexpected_lexeme hskip hlexeme
    · cases h

theorem Advances.length_lt (h : s.Advances s') : s'.rest.length < s.rest.length := by
  obtain ⟨taken, htaken, hrest, -⟩ := h
  have hpos := List.length_pos_iff.2 htaken
  rw [hrest, List.length_append]
  omega

theorem turn_of_lexeme {pos start : Position} {t rest : Text} {b : UInt8} {p : Piece Lexeme}
    (hskip : skip false pos t = (start, b :: rest)) (hlexeme : lexeme start b rest = .ok p)
    (found : List Token) :
    turn ⟨pos, t, found⟩ = .inl ⟨p.pos, p.rest, found ++ [⟨p.value, start⟩]⟩ := by
  simp [turn, hskip, hlexeme]

theorem run_eq (pos : Position) (t : Text) (found : List Token) {turns : Nat}
    (h : t.length < turns) :
    run turns ⟨pos, t, found⟩ =
      some ((tokens pos t).map fun (ts, stop) => (found ++ ts, stop)) := by
  fun_induction tokens pos t generalizing found turns with
  | case1 pos t stop hskip =>
    obtain ⟨more, rfl⟩ := Nat.exists_eq_add_of_lt h
    simp [run, turn, hskip, Except.map]
  | case2 pos t start b rest hskip e hlexeme =>
    obtain ⟨more, rfl⟩ := Nat.exists_eq_add_of_lt h
    simp [run, turn, hskip, hlexeme, Except.map]
  | case3 pos t start b rest hskip p hlexeme ih =>
    obtain ⟨more, rfl⟩ := Nat.exists_eq_add_of_lt h
    have hturn := turn_of_lexeme hskip hlexeme found
    have hlt : p.rest.length < t.length := (turn_advances hturn).length_lt
    simp only [run, hturn]
    rw [ih _ (by omega)]
    cases tokens p.pos p.rest <;> simp [Except.map]

theorem run_start {t : Text} {turns : Nat} (h : t.length < turns) :
    (start t).run turns = some (scan t) := by
  rw [start, run_eq _ _ _ h, scan]
  cases tokens .start t <;> rfl

end State

theorem length_tokens_le {pos stop : Position} {t : Text} {ts : List Token}
    (h : tokens pos t = .ok (ts, stop)) : ts.length ≤ t.length := by
  fun_induction tokens pos t generalizing ts stop with
  | case1 pos t =>
    cases h
    exact Nat.zero_le _
  | case2 => cases h
  | case3 pos t start b rest hskip p hlexeme ih =>
    obtain ⟨⟨ts', stop'⟩, htokens, hts⟩ := map_eq_ok.1 h
    cases hts
    have hlt := (State.turn_advances (State.turn_of_lexeme hskip hlexeme [])).length_lt
    exact Nat.lt_of_le_of_lt (ih htokens) hlt

end Scan

namespace Form

theorem exists_taken_of_readForm {stop : Position} {ts left : List Token} {f : Form}
    (h : readForm stop [] ts = .ok (f, left)) :
    ∃ n, 0 < n ∧ n ≤ ts.length ∧ left = ts.drop n := by
  obtain ⟨tree, rfl, -, -⟩ := TokenTree.readForm_eq_ok.1 h
  obtain ⟨token, rest, htokens, -⟩ := tree.tokens_head
  exact ⟨tree.tokens.length, by simp [htokens], by simp, by simp⟩

section Descent
variable {stop : Position} {rest : List Token}

/-- Descent reads a form as it is read by itself, and inside of others the reader goes on from
it. -/
def ReadsForm (stop : Position) (token : Token) (rest : List Token) : Prop :=
  (∀ calls, 2 * rest.length + 1 < calls →
    descend stop calls (token :: rest) = some (readForm stop [] (token :: rest))) ∧
  ∀ frames, readForm stop frames (token :: rest) =
    (readForm stop [] (token :: rest)).bind fun (f, left) => resume stop frames f left

/-- Descent reads the parts of an open form, and the reader goes on once the form is closed. -/
def ReadsParts (stop : Position) (ts : List Token) : Prop :=
  ∀ frame, ∃ r,
    (∀ calls, 2 * ts.length < calls → descendParts stop calls frame ts = some r) ∧
    ∀ outer, readForm stop (frame :: outer) ts =
      r.bind fun (frame, left) => frame.close.bind (resume stop outer · left)

theorem readForm_leaf_eq (stop pos : Position) (l : Leaf) (frames : List Frame)
    (rest : List Token) :
    readForm stop frames (⟨.leaf l, pos⟩ :: rest) =
      (ofLeaf pos l).bind (resume stop frames · rest) := by
  cases h : ofLeaf pos l with
  | error e => cases frames <;> simp [readForm, h, Except.bind]
  | ok f => exact readForm_leaf h stop frames rest

theorem readForm_closing_eq (stop pos : Position) (frame : Frame) (outer : List Frame)
    (rest : List Token) :
    readForm stop (frame :: outer) (⟨.closing frame.bracket, pos⟩ :: rest) =
      frame.close.bind (resume stop outer · rest) := by
  cases h : frame.close with
  | error e => cases outer <;> simp [readForm, h, Except.bind]
  | ok f => exact readForm_closing h stop pos outer rest

theorem readsForm_leaf (stop pos : Position) (l : Leaf) (rest : List Token) :
    ReadsForm stop ⟨.leaf l, pos⟩ rest := by
  constructor
  · intro calls hcalls
    obtain ⟨more, rfl⟩ := Nat.exists_eq_add_of_lt hcalls
    rw [descend, readForm_leaf_eq]
    cases ofLeaf pos l <;> rfl
  · intro frames
    rw [readForm_leaf_eq, readForm_leaf_eq]
    cases ofLeaf pos l <;> rfl

theorem readsForm_opening (h : ReadsParts stop rest) (bracket : Bracket) (pos : Position) :
    ReadsForm stop ⟨.opening bracket, pos⟩ rest := by
  obtain ⟨r, hparts, hread⟩ := h ⟨bracket, pos, []⟩
  have hopening (frames : List Frame) : readForm stop frames (⟨.opening bracket, pos⟩ :: rest) =
      readForm stop (⟨bracket, pos, []⟩ :: frames) rest := by
    simp [readForm]
  constructor
  · intro calls hcalls
    obtain ⟨more, rfl⟩ := Nat.exists_eq_add_of_lt hcalls
    rw [descend, hparts _ (by omega), hopening, hread]
    cases r with
    | error e => rfl
    | ok closed =>
      obtain ⟨frame, left⟩ := closed
      cases hclose : frame.close <;> simp [Except.bind, Except.map, hclose, resume]
  · intro frames
    rw [hopening, hopening, hread, hread]
    cases r with
    | error e => rfl
    | ok closed =>
      obtain ⟨frame, left⟩ := closed
      cases hclose : frame.close <;> simp [Except.bind, hclose, resume]

theorem readsParts_nil (stop : Position) : ReadsParts stop [] := by
  intro frame
  refine ⟨.error (.unclosed frame.bracket frame.pos), ?_, fun outer => rfl⟩
  intro calls hcalls
  obtain ⟨more, rfl⟩ := Nat.exists_eq_add_of_lt hcalls
  rw [descendParts]

theorem readsParts_closing (stop pos : Position) (bracket : Bracket) (rest : List Token) :
    ReadsParts stop (⟨.closing bracket, pos⟩ :: rest) := by
  intro frame
  refine ⟨if bracket = frame.bracket then .ok (frame, rest) else .error (.mismatched bracket pos),
    ?_, ?_⟩
  · intro calls hcalls
    obtain ⟨more, rfl⟩ := Nat.exists_eq_add_of_lt hcalls
    rw [descendParts, apply_ite some]
  · intro outer
    by_cases hbracket : bracket = frame.bracket
    · subst hbracket
      rw [if_pos rfl]
      exact readForm_closing_eq stop pos frame outer rest
    · simp [readForm, hbracket, Except.bind]

theorem readsParts_of_readsForm {token : Token} (hform : ReadsForm stop token rest)
    (hclosing : ∀ bracket, token.lexeme ≠ .closing bracket)
    (hleft : ∀ left : List Token, left.length < (token :: rest).length → ReadsParts stop left) :
    ReadsParts stop (token :: rest) := by
  obtain ⟨hdescend, hinside⟩ := hform
  intro frame
  have hne : ∀ bracket pos, token ≠ ⟨.closing bracket, pos⟩ := by
    rintro bracket pos rfl
    exact hclosing bracket rfl
  have hcons : (token :: rest).length = rest.length + 1 := List.length_cons
  cases hread : readForm stop [] (token :: rest) with
  | error e =>
    refine ⟨.error e, ?_, ?_⟩
    · intro calls hcalls
      obtain ⟨more, rfl⟩ := Nat.exists_eq_add_of_lt hcalls
      rw [descendParts.eq_4 stop frame _ token rest hne, hdescend _ (by omega), hread]
      rfl
    · intro outer
      rw [hinside, hread]
      rfl
  | ok found =>
    obtain ⟨f, left⟩ := found
    have hlength := length_readForm_lt hread
    obtain ⟨r, hr, hgoesOn⟩ := hleft left hlength (frame.push f)
    refine ⟨r, ?_, ?_⟩
    · intro calls hcalls
      obtain ⟨more, rfl⟩ := Nat.exists_eq_add_of_lt hcalls
      rw [descendParts.eq_4 stop frame _ token rest hne, hdescend _ (by omega), hread]
      exact hr _ (by omega)
    · intro outer
      rw [hinside, hread]
      exact hgoesOn outer

theorem readsParts (stop : Position) (ts : List Token) : ReadsParts stop ts := by
  -- on the number of tokens, since the parts behind a form stand in what the form leaves
  induction hn : ts.length using Nat.strongRecOn generalizing ts with
  | ind n ih =>
    subst hn
    cases ts with
    | nil => exact readsParts_nil stop
    | cons token rest =>
      obtain ⟨lexeme, pos⟩ := token
      have hleft : ∀ left : List Token, left.length < rest.length + 1 → ReadsParts stop left :=
        fun left hlt => ih left.length hlt left rfl
      cases lexeme with
      | leaf l => exact readsParts_of_readsForm (readsForm_leaf stop pos l rest) (by simp) hleft
      | opening bracket =>
        have hrest := hleft rest (Nat.lt_succ_self _)
        exact readsParts_of_readsForm (readsForm_opening hrest bracket pos) (by simp) hleft
      | closing bracket => exact readsParts_closing stop pos bracket rest

/-- Descent ends with the outcome of the reader that keeps the open forms in a stack. -/
theorem descend_eq (stop : Position) {ts : List Token} {calls : Nat} (h : 2 * ts.length < calls) :
    descend stop calls ts = some (readForm stop [] ts) := by
  cases ts with
  | nil =>
    obtain ⟨more, rfl⟩ := Nat.exists_eq_add_of_lt h
    rfl
  | cons token rest =>
    obtain ⟨lexeme, pos⟩ := token
    rw [List.length_cons] at h
    cases lexeme with
    | leaf l => exact (readsForm_leaf stop pos l rest).1 _ (by omega)
    | opening bracket =>
      exact (readsForm_opening (readsParts stop rest) bracket pos).1 _ (by omega)
    | closing bracket =>
      obtain ⟨more, rfl⟩ := Nat.exists_eq_add_of_lt h
      rw [descend]
      simp [readForm]

theorem descendAll_eq (stop : Position) (found : List Form) (ts : List Token) {calls : Nat}
    (h : 2 * ts.length + 1 < calls) :
    descendAll stop calls found ts = some ((readForms stop ts).map (found ++ ·)) := by
  fun_induction readForms stop ts generalizing found calls with
  | case1 =>
    obtain ⟨more, rfl⟩ := Nat.exists_eq_add_of_lt h
    simp [descendAll, Except.map]
  | case2 token rest e hread =>
    obtain ⟨more, rfl⟩ := Nat.exists_eq_add_of_lt h
    rw [descendAll, descend_eq stop (by omega), hread]
    rfl
  | case3 token rest form left hread ih =>
    obtain ⟨more, rfl⟩ := Nat.exists_eq_add_of_lt h
    have hlength := length_readForm_lt hread
    rw [descendAll, descend_eq stop (by omega), hread]
    simp only [Option.bind_eq_bind, Option.bind_some]
    rw [ih _ (by omega)]
    cases readForms stop left <;> simp [Except.map]

end Descent

section Texts
variable {t : Text} {limit : Nat} (h : 2 * t.length + 1 < limit)
include h

theorem readByDescent_eq : readByDescent limit t = some (read t) := by
  rw [readByDescent, Scan.State.run_start (by omega), read]
  cases hscan : scan t with
  | error e => rfl
  | ok scanned =>
    obtain ⟨ts, stop⟩ := scanned
    have hlength := Scan.length_tokens_le hscan
    simp only [Option.bind_eq_bind, Option.bind_some]
    rw [descend_eq stop (by omega)]
    cases readForm stop [] ts with
    | error e => rfl
    | ok found =>
      obtain ⟨f, left⟩ := found
      cases left <;> rfl

theorem readAllByDescent_eq : readAllByDescent limit t = some (readAll t) := by
  rw [readAllByDescent, Scan.State.run_start (by omega), readAll]
  cases hscan : scan t with
  | error e => rfl
  | ok scanned =>
    obtain ⟨ts, stop⟩ := scanned
    have hlength := Scan.length_tokens_le hscan
    simp only [Option.bind_eq_bind, Option.bind_some]
    rw [descendAll_eq stop [] ts (by omega)]
    cases readForms stop ts <;> simp [Except.map]

end Texts

/-- Scanning and reading end on every text, with a result or an error. A turn of the scan that is
not the last takes at least one byte, and none is the last because of a byte that starts no token,
as the atom read there is not empty. Descent ends on all tokens, and a form takes at least one of
them and none behind the last. So the loop, the reader of one form and the reader of all forms end,
within a number of turns and of nested calls that is linear in the length of the text. -/
theorem reading_ends (t : Text) :
    (∀ s s' : Scan.State, s.turn = .inl s' → s.Advances s') ∧
    (∀ (s : Scan.State) (e : ScanError), s.turn = .inr (.error e) → ¬ Scan.IsUnexpected e) ∧
    (∀ pos u start b rest, Scan.skip false pos u = (start, b :: rest) → b ≠ '"'.toUInt8 →
      Scan.isBracket b = false → (b :: rest).takeWhile Scan.isAtomByte ≠ []) ∧
    (∀ stop ts,
      (∀ calls, 2 * ts.length < calls → descend stop calls ts = some (readForm stop [] ts)) ∧
      ∀ f left, readForm stop [] ts = .ok (f, left) →
        ∃ n, 0 < n ∧ n ≤ ts.length ∧ left = ts.drop n) ∧
    (∀ limit, 2 * t.length + 1 < limit →
      (Scan.State.start t).run limit = some (scan t) ∧
      readByDescent limit t = some (read t) ∧
      readAllByDescent limit t = some (readAll t)) := by
  refine ⟨?_, ?_, ?_, ?_, ?_⟩
  · intro s s' h
    exact Scan.State.turn_advances h
  · intro s e h
    exact Scan.State.not_isUnexpected_turn h
  · intro pos u start b rest hskip hquote hbracket
    exact Scan.takeWhile_isAtomByte_ne_nil hskip hquote hbracket
  · intro stop ts
    refine ⟨fun calls hcalls => descend_eq stop hcalls, ?_⟩
    intro f left h
    exact exists_taken_of_readForm h
  · intro limit hlimit
    exact ⟨Scan.State.run_start (by omega), readByDescent_eq hlimit, readAllByDescent_eq hlimit⟩

def unclosedSample : Text := ";(\n([<a> <= \x7b \"b\"@en"

theorem reading_ends_unclosedSample :
    (∃ s, (Scan.State.start unclosedSample).turn = .inl s ∧
      (Scan.State.start unclosedSample).Advances s) ∧
    (∃ e, readByDescent 50 unclosedSample = some (.error e)) ∧
    (∃ fs, readAllByDescent 50 "a (b ?c) ;d" = some (.ok fs) ∧ fs.length = 2) ∧
    ∃ ts stop f left n, scan "a (b ?c) ;d" = .ok (ts, stop) ∧
      descend stop (2 * ts.length + 1) ts = some (.ok (f, left)) ∧
      0 < n ∧ n ≤ ts.length ∧ left = ts.drop n := by
  obtain ⟨hturn, -, -, hdescend, hends⟩ := reading_ends unclosedSample
  refine ⟨?_, ?_, ?_, ?_⟩
  · have hleft : (Scan.State.start unclosedSample).turn.isLeft := by decide +kernel
    obtain ⟨s, hs⟩ := Sum.isLeft_iff.1 hleft
    exact ⟨s, hs, hturn _ s hs⟩
  · obtain ⟨-, hread, -⟩ := hends 50 (by decide)
    rw [hread]
    cases hform : read unclosedSample with
    | error e => exact ⟨e, rfl⟩
    | ok f =>
      have hnone : (read unclosedSample).toOption.isNone := by decide +kernel
      rw [hform] at hnone
      cases hnone
  · obtain ⟨-, -, hreadAll⟩ := (reading_ends "a (b ?c) ;d").2.2.2.2 50 (by decide)
    obtain ⟨fs, hfs, hlength⟩ := exists_ok_of_any (x := readAll "a (b ?c) ;d")
      (p := fun fs => fs.length = 2) (by decide +kernel)
    exact ⟨fs, by rw [hreadAll, hfs], of_decide_eq_true hlength⟩
  · obtain ⟨⟨ts, stop⟩, hscan, hfirst⟩ := exists_ok_of_any (x := scan "a (b ?c) ;d")
      (p := fun r => (readForm r.2 [] r.1).toOption.isSome) (by decide +kernel)
    obtain ⟨⟨f, left⟩, hform⟩ := exists_eq_ok_of_isSome hfirst
    obtain ⟨hcalls, htaken⟩ := hdescend stop ts
    obtain ⟨n, hn⟩ := htaken f left hform
    exact ⟨ts, stop, f, left, n, hscan, by rw [hcalls _ (Nat.lt_succ_self _), hform], hn⟩

end Form

end GraphQuery
