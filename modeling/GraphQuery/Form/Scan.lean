import GraphQuery.Form.Token
import GraphQuery.Success

namespace GraphQuery

inductive ScanError where
  | unterminatedString (pos : Position)
  | unterminatedIri (pos : Position)
  | invalidEscape (byte : UInt8) (pos : Position)
  | emptyLanguage (pos : Position)
  | datatypeNotIri (pos : Position)
  | unexpectedByte (byte : UInt8) (pos : Position)
deriving DecidableEq

def byteCharacter (b : UInt8) : Text := String.utf8EncodeChar (Char.ofNat b.toNat)

def ScanError.message : ScanError → Text
  | unterminatedString pos => "unterminated string at " ++ pos.text
  | unterminatedIri pos => "unterminated IRI at " ++ pos.text
  | invalidEscape b pos => "invalid escape sequence \\" ++ byteCharacter b ++ " at " ++ pos.text
  | emptyLanguage pos => "empty language tag at " ++ pos.text
  | datatypeNotIri pos => "datatype must be an IRI at " ++ pos.text
  | unexpectedByte b pos =>
    "unexpected character '" ++ byteCharacter b ++ "' at " ++ pos.text

namespace Scan

/-- What has been read, where the reading stopped, and what is left. -/
structure Piece (α : Type) where
  value : α
  pos : Position
  rest : Text

def Piece.map {α β : Type} (f : α → β) (p : Piece α) : Piece β := ⟨f p.value, p.pos, p.rest⟩

/-- Skips blanks, commas and comments; a comment runs from a semicolon to the end of its line. -/
def skip (inComment : Bool) (pos : Position) : Text → Position × Text
  | [] => (pos, [])
  | b :: rest =>
    if inComment then skip (b ≠ '\n'.toUInt8) (pos.next b) rest
    else if b = ';'.toUInt8 then skip true (pos.next b) rest
    else if b = ','.toUInt8 || Text.isBlankByte b then skip false (pos.next b) rest
    else (pos, b :: rest)

def isBracket (b : UInt8) : Bool :=
  (Bracket.ofOpening? b).isSome || (Bracket.ofClosing? b).isSome

def isAtomByte (b : UInt8) : Bool :=
  !(Text.isBlankByte b || b = ','.toUInt8 || b = ';'.toUInt8 || b = '"'.toUInt8 || isBracket b)

/-- The bytes a language tag is made of: hyphens, and the letters and digits among the first 256
characters. -/
def isTagByte (b : UInt8) : Bool :=
  b = '-'.toUInt8 || Text.isLetter b || Text.isDigit b || b = 0xAA || b = 0xB5 || b = 0xBA ||
    (0xC0 ≤ b && b ≠ 0xD7 && b ≠ 0xF7)

/-- Whether a `<` with this text behind it starts an IRI rather than a comparison. -/
def startsIri : Text → Bool
  | [] => false
  | b :: _ =>
    !(b = 0 || b = '='.toUInt8 || b = '>'.toUInt8 || Text.isBlankByte b || isBracket b)

/-- An IRI up to its closing bracket; a blank inside it is refused. -/
def iriBody (pos : Position) : Text → Option (Piece Text)
  | [] => none
  | b :: rest =>
    if b = '>'.toUInt8 then some ⟨[], pos.next b, rest⟩
    else if Text.isBlankByte b then none
    else (iriBody (pos.next b) rest).map (Piece.map (b :: ·))

def escape? (b : UInt8) : Option UInt8 :=
  if b = 'n'.toUInt8 then some '\n'.toUInt8
  else if b = 't'.toUInt8 then some '\t'.toUInt8
  else if b = 'r'.toUInt8 then some '\r'.toUInt8
  else if b = '\\'.toUInt8 || b = '"'.toUInt8 then some b
  else none

def stringBody (start pos : Position) : Text → Except ScanError (Piece Text)
  | [] => .error (.unterminatedString start)
  | b :: rest =>
    if b = '"'.toUInt8 then .ok ⟨[], pos.next b, rest⟩
    else if b = '\\'.toUInt8 then
      match rest with
      | [] => .error (.unterminatedString start)
      | e :: rest =>
        match escape? e with
        | none => .error (.invalidEscape e (pos.next b))
        | some c => (stringBody start ((pos.next b).next e) rest).map (Piece.map (c :: ·))
    else (stringBody start (pos.next b) rest).map (Piece.map (b :: ·))

def languageTag (pos : Position) (t : Text) : Except ScanError (Piece Note) :=
  let tag := t.takeWhile isTagByte
  if tag.isEmpty then .error (.emptyLanguage pos)
  else .ok ⟨.language tag, pos.after tag, t.dropWhile isTagByte⟩

def datatypeIri (pos : Position) : Text → Except ScanError (Piece Note)
  | [] => .error (.datatypeNotIri pos)
  | b :: rest =>
    if b = '<'.toUInt8 then
      match iriBody (pos.next b) rest with
      | none => .error (.unterminatedIri pos)
      | some iri => .ok (iri.map .ofDatatype)
    else .error (.datatypeNotIri pos)

def note (pos : Position) (t : Text) : Except ScanError (Piece Note) :=
  match t with
  | [] => .ok ⟨.none, pos, t⟩
  | a :: rest =>
    if a = '@'.toUInt8 then languageTag (pos.next a) rest
    else match rest with
      | [] => .ok ⟨.none, pos, t⟩
      | b :: rest =>
        if a = '^'.toUInt8 && b = '^'.toUInt8 then datatypeIri ((pos.next a).next b) rest
        else .ok ⟨.none, pos, t⟩

def string (start pos : Position) (t : Text) : Except ScanError (Piece Lexeme) :=
  match stringBody start pos t with
  | .error e => .error e
  | .ok body =>
    (note body.pos body.rest).map (Piece.map fun note => .leaf (.string body.value note))

def atom (pos : Position) (b : UInt8) (t : Text) : Except ScanError (Piece Lexeme) :=
  let value := t.takeWhile isAtomByte
  if value.isEmpty then .error (.unexpectedByte b pos)
  else .ok ⟨.leaf (.atom value), pos.after value, t.dropWhile isAtomByte⟩

def lexeme (pos : Position) (b : UInt8) (rest : Text) : Except ScanError (Piece Lexeme) :=
  if b = '"'.toUInt8 then string pos (pos.next b) rest
  else match Bracket.ofOpening? b, Bracket.ofClosing? b with
    | some bracket, _ => .ok ⟨.opening bracket, pos.next b, rest⟩
    | none, some bracket => .ok ⟨.closing bracket, pos.next b, rest⟩
    | none, none =>
      if b = '<'.toUInt8 && startsIri rest then
        match iriBody (pos.next b) rest with
        | none => .error (.unterminatedIri pos)
        | some iri => .ok (iri.map fun value => .leaf (.iri value))
      else atom pos b (b :: rest)

theorem length_skip_le (c : Bool) (pos : Position) (t : Text) :
    (skip c pos t).2.length ≤ t.length := by
  induction t generalizing c pos with
  | nil => simp [skip]
  | cons b rest ih =>
    rw [skip]
    split
    · exact Nat.le_succ_of_le (ih _ _)
    · split
      · exact Nat.le_succ_of_le (ih _ _)
      · split
        · exact Nat.le_succ_of_le (ih _ _)
        · exact Nat.le_refl _

theorem length_iriBody_lt {pos : Position} {t : Text} {p : Piece Text}
    (h : iriBody pos t = some p) : p.rest.length < t.length := by
  induction t generalizing pos p with
  | nil => simp [iriBody] at h
  | cons b rest ih =>
    rw [iriBody] at h
    split at h
    · cases h
      simp
    · split at h
      · cases h
      · obtain ⟨q, hq, rfl⟩ := Option.map_eq_some_iff.1 h
        have := ih hq
        simp only [Piece.map, List.length_cons]
        omega

theorem length_stringBody_lt {start pos : Position} {t : Text} {p : Piece Text}
    (h : stringBody start pos t = .ok p) : p.rest.length < t.length := by
  fun_induction stringBody start pos t generalizing p with
  | case1 => cases h
  | case2 => cases h; simp
  | case3 => cases h
  | case4 => cases h
  | case5 _ _ _ _ _ _ ih =>
    obtain ⟨q, hq, rfl⟩ := map_eq_ok.1 h
    have := ih hq
    simp only [Piece.map, List.length_cons]
    omega
  | case6 _ _ _ _ _ ih =>
    obtain ⟨q, hq, rfl⟩ := map_eq_ok.1 h
    have := ih hq
    simp only [Piece.map, List.length_cons]
    omega

theorem length_dropWhile_le (f : UInt8 → Bool) (t : Text) : (t.dropWhile f).length ≤ t.length :=
  (List.dropWhile_sublist f).length_le

theorem length_languageTag_le {pos : Position} {t : Text} {p : Piece Note}
    (h : languageTag pos t = .ok p) : p.rest.length ≤ t.length := by
  simp only [languageTag] at h
  split at h
  · cases h
  · cases h
    exact length_dropWhile_le _ _

theorem length_datatypeIri_le {pos : Position} {t : Text} {p : Piece Note}
    (h : datatypeIri pos t = .ok p) : p.rest.length ≤ t.length := by
  cases t with
  | nil => cases h
  | cons b rest =>
    rw [datatypeIri] at h
    split at h
    · split at h
      · cases h
      · rename_i hi
        cases h
        have := length_iriBody_lt hi
        simp only [Piece.map, List.length_cons]
        omega
    · cases h

theorem length_note_le {pos : Position} {t : Text} {p : Piece Note}
    (h : note pos t = .ok p) : p.rest.length ≤ t.length := by
  cases t with
  | nil => cases h; exact Nat.le_refl _
  | cons a rest =>
    simp only [note] at h
    split at h
    · exact Nat.le_succ_of_le (length_languageTag_le h)
    · cases rest with
      | nil => cases h; exact Nat.le_refl _
      | cons b rest =>
        simp only at h
        split at h
        · exact Nat.le_succ_of_le (Nat.le_succ_of_le (length_datatypeIri_le h))
        · cases h; exact Nat.le_refl _

theorem length_string_lt {start pos : Position} {t : Text} {p : Piece Lexeme}
    (h : string start pos t = .ok p) : p.rest.length < t.length := by
  rw [string] at h
  split at h
  · cases h
  · rename_i hb
    obtain ⟨q, hq, rfl⟩ := map_eq_ok.1 h
    exact Nat.lt_of_le_of_lt (length_note_le hq) (length_stringBody_lt hb)

theorem length_atom_lt {pos : Position} {b : UInt8} {t : Text} {p : Piece Lexeme}
    (h : atom pos b t = .ok p) : p.rest.length < t.length := by
  simp only [atom] at h
  split at h
  · cases h
  · rename_i hv
    cases h
    cases t with
    | nil => simp at hv
    | cons c rest =>
      by_cases hc : isAtomByte c
      · simp only [List.dropWhile_cons, hc, if_true]
        exact Nat.lt_succ_of_le (length_dropWhile_le _ _)
      · simp [hc] at hv

/-- A lexeme takes at least the byte that starts it. -/
theorem length_lexeme_lt {pos : Position} {b : UInt8} {rest : Text} {p : Piece Lexeme}
    (h : lexeme pos b rest = .ok p) : p.rest.length < (b :: rest).length := by
  rw [lexeme] at h
  split at h
  · exact Nat.lt_succ_of_lt (length_string_lt h)
  · split at h
    · cases h; simp
    · cases h; simp
    · split at h
      · split at h
        · cases h
        · rename_i hi
          cases h
          exact Nat.lt_succ_of_lt (length_iriBody_lt hi)
      · exact length_atom_lt h

def tokens (pos : Position) (t : Text) : Except ScanError (List Token × Position) :=
  match _hs : skip false pos t with
  | (stop, []) => .ok ([], stop)
  | (start, b :: rest) =>
    match _hl : lexeme start b rest with
    | .error e => .error e
    | .ok p => (tokens p.pos p.rest).map fun (ts, stop) => (⟨p.value, start⟩ :: ts, stop)
termination_by t.length
decreasing_by
  have h := length_skip_le false pos t
  rw [_hs] at h
  exact Nat.lt_of_lt_of_le (length_lexeme_lt _hl) h

end Scan

def scan (t : Text) : Except ScanError (List Token × Position) := Scan.tokens .start t

end GraphQuery
