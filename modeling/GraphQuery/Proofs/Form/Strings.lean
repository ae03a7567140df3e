import GraphQuery.Form.Scan
import GraphQuery.Proofs.Text.Pieces

namespace GraphQuery

namespace Text

def basicEscapes : List Text := ["\\n", "\\t", "\\r", "\\\\", "\\\""]

/-- A piece that quoting leaves as it is or writes with one of the basic escapes. -/
def Piece.IsPlain (p : Piece) : Prop := p.quoted = p.bytes ∨ p.quoted ∈ basicEscapes

instance (p : Piece) : Decidable p.IsPlain := inferInstanceAs (Decidable (_ ∨ _))

def IsPlain (t : Text) : Prop := ∀ p ∈ pieces t, p.IsPlain

instance (t : Text) : Decidable t.IsPlain := inferInstanceAs (Decidable (∀ p ∈ pieces t, _))

theorem mem_basicEscapes_iff {e : UInt8} {rest : Text} :
    '\\'.toUInt8 :: e :: rest ∈ basicEscapes ↔ (Scan.escape? e).isSome ∧ rest = [] := by
  have h : basicEscapes = ['n', 't', 'r', '\\', '"'].map (['\\'.toUInt8, ·.toUInt8]) := rfl
  rw [h]
  simp [Scan.escape?]
  grind

def basicControls : List Char := ['\n', '\t', '\r']

theorem shortEscape?_basicControls : ∀ c ∈ basicControls,
    ∃ e, shortEscape? c = some ['\\'.toUInt8, e] ∧ (Scan.escape? e).isSome := by
  simp only [basicControls, List.forall_mem_cons]
  exact ⟨⟨_, rfl, rfl⟩, ⟨_, rfl, rfl⟩, ⟨_, rfl, rfl⟩, nofun⟩

theorem escape_cases (c : Char) :
    (∃ e b, shortEscape? c = some ['\\'.toUInt8, e] ∧ c.toNat = b.toNat ∧
        Scan.escape? e = some b ∧ 0 < b ∧ b < 0x80 ∧ c ∈ basicControls) ∨
      ∃ e rest, (shortEscape? c).getD (numericEscape c) = '\\'.toUInt8 :: e :: rest ∧
        Scan.escape? e = none := by
  have hcontrol {d : Char} (hd : d ∈ basicControls) (h : c.toNat = d.toNat) :
      c ∈ basicControls := by
    rwa [Char.toNat_inj.1 h]
  unfold shortEscape? numericEscape
  split
  · exact .inr ⟨_, _, rfl, by decide⟩
  · exact .inr ⟨_, _, rfl, by decide⟩
  next h =>
    have hmem := hcontrol (d := '\t') (by decide) h
    exact .inl ⟨_, 9, rfl, h, by decide, by decide, by decide, hmem⟩
  next h =>
    have hmem := hcontrol (d := '\n') (by decide) h
    exact .inl ⟨_, 10, rfl, h, by decide, by decide, by decide, hmem⟩
  · exact .inr ⟨_, _, rfl, by decide⟩
  · exact .inr ⟨_, _, rfl, by decide⟩
  next h =>
    have hmem := hcontrol (d := '\r') (by decide) h
    exact .inl ⟨_, 13, rfl, h, by decide, by decide, by decide, hmem⟩
  · right
    rw [Option.getD_none]
    split
    · exact ⟨_, _, rfl, by decide⟩
    · split
      · exact ⟨_, _, rfl, by decide⟩
      · exact ⟨_, _, rfl, by decide⟩

def Piece.IsOrdinary (p : Piece) : Prop :=
  ∃ c, p.char? = some c ∧ (isPrintable c ∨ c ∈ basicControls)

theorem Piece.not_isOrdinary {p : Piece} {c : Char} (hp : p.char? = some c)
    (hprintable : ¬ isPrintable c) {e : UInt8} {rest : Text}
    (he : (shortEscape? c).getD (numericEscape c) = '\\'.toUInt8 :: e :: rest)
    (hn : Scan.escape? e = none) : ¬ p.IsOrdinary := by
  rintro ⟨c', hc', hordinary⟩
  obtain rfl : c = c' := Option.some.inj (hp.symm.trans hc')
  rcases hordinary with hordinary | hcontrol
  · exact hprintable hordinary
  · obtain ⟨e', he', hsome⟩ := shortEscape?_basicControls c hcontrol
    rw [he', Option.getD_some] at he
    cases he
    rw [hn] at hsome
    cases hsome

/-- How a piece stands between quotes: as it is, by an escape for its only byte, or by an escape
that the notation does not know. -/
theorem Piece.Decoded.quoted_cases {p : Piece} (h : p.Decoded) :
    (p.quoted = p.bytes ∧ (∀ b ∈ p.bytes, b ≠ '"'.toUInt8 ∧ b ≠ '\\'.toUInt8) ∧ p.IsOrdinary) ∨
      (∃ e b, p.quoted = ['\\'.toUInt8, e] ∧ p.bytes = [b] ∧ Scan.escape? e = some b ∧
        p.IsOrdinary) ∨
      ∃ e rest, p.quoted = '\\'.toUInt8 :: e :: rest ∧ p.quoted ≠ p.bytes ∧
        Scan.escape? e = none ∧ ¬ p.IsOrdinary := by
  cases hp : p.char? with
  | none =>
    obtain ⟨bytes, c?⟩ := p
    cases hp
    cases h with
    | stray b =>
      refine .inr (.inr ⟨'x'.toUInt8, _, rfl, ?_, by decide, ?_⟩)
      · intro heq
        simpa [Piece.quoted, hex] using congrArg List.length heq
      · rintro ⟨c, hc, -⟩
        cases hc
  | some c =>
    have hne {d : UInt8} (hd : d < 0x80) (hc : c.toNat ≠ d.toNat) : d ∉ p.bytes :=
      fun hm => hc (h.toNat_eq hp hm hd)
    have hquoted : p.quoted = if c = '"' || c = '\\' then '\\'.toUInt8 :: p.bytes
        else if isPrintable c then p.bytes else (shortEscape? c).getD (numericEscape c) := by
      rw [Piece.quoted, hp]
    rw [hquoted]
    split
    next hc =>
      simp only [Bool.or_eq_true, decide_eq_true_eq] at hc
      rcases hc with rfl | rfl
      · have hb : p.bytes = [34] := h.bytes_eq hp rfl (by decide)
        exact .inr (.inl ⟨34, 34, by rw [hb], hb, by decide, _, hp, .inl (by decide)⟩)
      · have hb : p.bytes = [92] := h.bytes_eq hp rfl (by decide)
        exact .inr (.inl ⟨92, 92, by rw [hb], hb, by decide, _, hp, .inl (by decide)⟩)
    next hc =>
      simp only [Bool.or_eq_true, decide_eq_true_eq, not_or] at hc
      have hquote : '"'.toUInt8 ∉ p.bytes := hne (by decide) fun hn => hc.1 (Char.toNat_inj.1 hn)
      have hslash : '\\'.toUInt8 ∉ p.bytes := hne (by decide) fun hn => hc.2 (Char.toNat_inj.1 hn)
      split
      next hprintable =>
        refine .inl ⟨rfl, fun b hb => ⟨?_, ?_⟩, c, hp, .inl hprintable⟩
        · rintro rfl
          exact hquote hb
        · rintro rfl
          exact hslash hb
      next hprintable =>
        rcases escape_cases c with ⟨e, b, he, hn, hb, hpos, hascii, hcontrol⟩ | ⟨e, rest, he, hn⟩
        · refine .inr (.inl ⟨e, b, by rw [he, Option.getD_some], ?_, hb, c, hp, .inr hcontrol⟩)
          exact h.bytes_eq hp hn ⟨hpos, hascii⟩
        · refine .inr (.inr ⟨e, rest, he, ?_, hn, ?_⟩)
          · intro heq
            rw [he] at heq
            exact hslash (heq ▸ List.mem_cons_self)
          · exact Piece.not_isOrdinary hp hprintable he hn

theorem Piece.not_isPlain {p : Piece} {e : UInt8} {rest : Text}
    (hq : p.quoted = '\\'.toUInt8 :: e :: rest) (hne : p.quoted ≠ p.bytes)
    (he : Scan.escape? e = none) : ¬ p.IsPlain := by
  rintro (h | h)
  · exact hne h
  · rw [hq, mem_basicEscapes_iff, he] at h
    cases h.1

theorem Piece.isPlain_of_escape {p : Piece} {e b : UInt8} (hq : p.quoted = ['\\'.toUInt8, e])
    (he : Scan.escape? e = some b) : p.IsPlain := by
  refine .inr ?_
  rw [hq, mem_basicEscapes_iff, he]
  exact ⟨rfl, rfl⟩

theorem Piece.Decoded.isPlain_iff {p : Piece} (h : p.Decoded) : p.IsPlain ↔ p.IsOrdinary := by
  rcases h.quoted_cases with ⟨hq, -, ho⟩ | ⟨e, b, hq, -, he, ho⟩ | ⟨e, rest, hq, hne, he, ho⟩
  · exact iff_of_true (.inl hq) ho
  · exact iff_of_true (Piece.isPlain_of_escape hq he) ho
  · exact iff_of_false (Piece.not_isPlain hq hne he) ho

/-- The plain texts are those without stray bytes and with printable characters, line feeds, tabs
and carriage returns only. -/
theorem isPlain_iff (t : Text) : t.IsPlain ↔ ∀ p ∈ pieces t, p.IsOrdinary := by
  constructor
  · intro h p hp
    exact (decoded_of_mem_pieces hp).isPlain_iff.1 (h p hp)
  · intro h p hp
    exact (decoded_of_mem_pieces hp).isPlain_iff.2 (h p hp)

end Text

namespace Scan

def outcome {α : Type} (x : Except ScanError (Piece α)) : Option (α × Text) :=
  x.toOption.map fun p => (p.value, p.rest)

@[simp] theorem outcome_ok {α : Type} (p : Piece α) :
    outcome (.ok p) = some (p.value, p.rest) := rfl

theorem outcome_map {α β : Type} (f : α → β) (x : Except ScanError (Piece α)) :
    outcome (x.map (Piece.map f)) = (outcome x).map fun p => (f p.1, p.2) := by
  cases x <;> rfl

theorem outcome_eq_some {α : Type} {x : Except ScanError (Piece α)} {value : α} {rest : Text} :
    outcome x = some (value, rest) ↔ ∃ pos, x = .ok ⟨value, pos, rest⟩ := by
  constructor
  · intro h
    cases x with
    | error e => cases h
    | ok p =>
      cases h
      exact ⟨p.pos, rfl⟩
  · rintro ⟨pos, rfl⟩
    rfl

theorem outcome_eq_none {α : Type} {x : Except ScanError (Piece α)} :
    outcome x = none ↔ ∃ e, x = .error e := by
  constructor
  · intro h
    cases x with
    | error e => exact ⟨e, rfl⟩
    | ok p => cases h
  · rintro ⟨e, rfl⟩
    rfl

def ReadsString (t : Text) (r : Option (Text × Text)) : Prop :=
  ∀ start pos, outcome (stringBody start pos t) = r

theorem ReadsString.closing (t : Text) : ReadsString ('"'.toUInt8 :: t) (some ([], t)) := by
  intro start pos
  rw [stringBody.eq_def]
  rfl

theorem ReadsString.byte {b : UInt8} {t : Text} {r : Option (Text × Text)} (h : ReadsString t r)
    (hb : b ≠ '"'.toUInt8 ∧ b ≠ '\\'.toUInt8) :
    ReadsString (b :: t) (r.map fun p => (b :: p.1, p.2)) := by
  intro start pos
  rw [stringBody.eq_def]
  simp only [if_neg hb.1, if_neg hb.2]
  rw [outcome_map, h]

theorem ReadsString.bytes {s t : Text} {r : Option (Text × Text)} (h : ReadsString t r)
    (hs : ∀ b ∈ s, b ≠ '"'.toUInt8 ∧ b ≠ '\\'.toUInt8) :
    ReadsString (s ++ t) (r.map fun p => (s ++ p.1, p.2)) := by
  induction s with
  | nil => simpa using h
  | cons b s ih =>
    have hb := hs b List.mem_cons_self
    have := (ih fun c hc => hs c (List.mem_cons_of_mem b hc)).byte hb
    simpa [Function.comp_def] using this

theorem ReadsString.escape {e b : UInt8} {t : Text} {r : Option (Text × Text)}
    (h : ReadsString t r) (he : escape? e = some b) :
    ReadsString ('\\'.toUInt8 :: e :: t) (r.map fun p => (b :: p.1, p.2)) := by
  intro start pos
  rw [stringBody.eq_def]
  simp only [he, if_pos, show '\\'.toUInt8 ≠ '"'.toUInt8 by decide, if_neg, not_false_eq_true]
  rw [outcome_map, h]

theorem ReadsString.unknownEscape {e : UInt8} (t : Text) (he : escape? e = none) :
    ReadsString ('\\'.toUInt8 :: e :: t) none := by
  intro start pos
  rw [stringBody.eq_def]
  simp only [he, if_pos, show '\\'.toUInt8 ≠ '"'.toUInt8 by decide, if_neg, not_false_eq_true]
  rfl

theorem readsString_quoted (ps : List Text.Piece) (hps : ∀ p ∈ ps, p.Decoded) (rest : Text) :
    ReadsString (ps.flatMap Text.Piece.quoted ++ '"'.toUInt8 :: rest)
      (if ∀ p ∈ ps, p.IsPlain then some (ps.flatMap Text.Piece.bytes, rest) else none) := by
  induction ps with
  | nil => exact .closing rest
  | cons p ps ih =>
    have ih := ih fun q hq => hps q (List.mem_cons_of_mem p hq)
    rcases (hps p List.mem_cons_self).quoted_cases with
      ⟨hq, hb, -⟩ | ⟨e, b, hq, hb, he, -⟩ | ⟨e, more, hq, hne, he, -⟩
    · have hp : p.IsPlain := .inl hq
      have := ih.bytes hb
      rw [← hq] at this
      by_cases hall : ∀ q ∈ ps, q.IsPlain <;> simpa [hp, hall, hq] using this
    · have hp : p.IsPlain := Text.Piece.isPlain_of_escape hq he
      have := ih.escape he
      by_cases hall : ∀ q ∈ ps, q.IsPlain <;> simpa [hp, hall, hq, hb] using this
    · have hp : ¬ p.IsPlain := Text.Piece.not_isPlain hq hne he
      simpa [hp, hq] using ReadsString.unknownEscape _ he

/-- A quoted text reads back as itself exactly when it is plain. -/
theorem readsString_quote (value rest : Text) :
    ReadsString ((Text.pieces value).flatMap Text.Piece.quoted ++ '"'.toUInt8 :: rest)
      (if value.IsPlain then some (value, rest) else none) := by
  have h := readsString_quoted (Text.pieces value)
    (fun p hp => Text.decoded_of_mem_pieces hp) rest
  rw [Text.flatMap_bytes_pieces] at h
  exact h

end Scan

end GraphQuery
