import GraphQuery.Proofs.Form.Scanning
import GraphQuery.Proofs.Form.Strings

namespace GraphQuery

def Note.IsLegible : Note → Prop
  | none => True
  | language tag => tag ≠ [] ∧ ∀ b ∈ tag, Scan.isTagByte b
  | datatype iri => iri ≠ [] ∧ IsIriText iri

/-- A leaf that has a spelling; an atom must not look like the beginning of an IRI. -/
def Leaf.IsLegible : Leaf → Prop
  | string _ note => note.IsLegible
  | atom value => value ≠ [] ∧ (∀ b ∈ value, Scan.isAtomByte b) ∧
      ∀ rest, value = '<'.toUInt8 :: rest → Scan.startsIri rest = false
  | iri value => Scan.startsIri value ∧ IsIriText value

def Leaf.text : Leaf → Text
  | string value note => Text.quote value ++ note.text
  | atom value => value
  | iri value => "<" ++ value ++ ">"

def Leaf.strings : Leaf → List Text
  | string value _ => [value]
  | _ => []

def Lexeme.IsLegible : Lexeme → Prop
  | leaf l => l.IsLegible
  | _ => True

namespace Scan

theorem IsNote.isLegible {rest word : Text} {n : Note} (h : IsNote rest n word) :
    n.IsLegible := by
  cases h with
  | none hat hcarets => trivial
  | language tag hne htag hrest => exact ⟨hne, htag⟩
  | datatype iri hiri =>
    cases iri with
    | nil => trivial
    | cons b iri => exact ⟨List.cons_ne_nil b iri, hiri⟩

theorem startsIri_of_append_eq_false {t rest : Text} (h : startsIri (t ++ rest) = false) :
    startsIri t = false := by
  cases t with
  | nil => rfl
  | cons b t => exact h

theorem IsWord.isLegible {rest word : Text} {l : Lexeme} (h : IsWord rest l word) :
    l.IsLegible := by
  cases h with
  | opening bracket => trivial
  | closing bracket => trivial
  | string hbody hnote => exact hnote.isLegible
  | iri value hstart hvalue => exact ⟨hstart, hvalue⟩
  | atom b more hb hmore hlt hrest =>
    refine ⟨List.cons_ne_nil b more, List.forall_mem_cons.2 ⟨hb, hmore⟩, ?_⟩
    intro tail htail
    obtain ⟨rfl, rfl⟩ := List.cons.inj htail
    exact startsIri_of_append_eq_false (hlt rfl)

theorem Scanned.isLegible {pos stop : Position} {t : Text} {ts : List Token}
    (h : Scanned pos t ts stop) : ∀ token ∈ ts, token.lexeme.IsLegible := by
  induction h with
  | done hgap => simp
  | token hgap hword _ ih => exact List.forall_mem_cons.2 ⟨hword.isLegible, ih⟩

theorem tokens_isLegible {pos stop : Position} {t : Text} {ts : List Token}
    (h : tokens pos t = .ok (ts, stop)) : ∀ token ∈ ts, token.lexeme.IsLegible :=
  (tokens_eq_ok.1 h).isLegible

/-- A text is scanned into these lexemes, or not at all, wherever it stands. -/
def Scans (t : Text) (r : Option (List Lexeme)) : Prop :=
  ∀ pos, ((tokens pos t).toOption.map fun x => x.1.map Token.lexeme) = r

theorem Scans.nil : Scans [] (some []) := by
  intro pos
  rw [tokens]
  rfl

theorem Scans.blank {t : Text} {r : Option (List Lexeme)} (h : Scans t r) :
    Scans (' '.toUInt8 :: t) r := by
  intro pos
  rw [← h (pos.next ' '.toUInt8)]
  congr 1
  rw [tokens, tokens]
  rfl

theorem Scans.word {rest word : Text} {l : Lexeme} {r : Option (List Lexeme)} (h : Scans rest r)
    (hword : IsWord rest l word) : Scans (word ++ rest) (r.map (l :: ·)) := by
  intro pos
  obtain ⟨b, more, rfl⟩ := hword.exists_cons
  have hskip : skip false pos (b :: (more ++ rest)) = (pos, b :: (more ++ rest)) :=
    skip_of_isGap hword.isGap_nil pos
  rw [List.cons_append, tokens_of_skip hskip, lexeme_of_isWord hword, ← h (pos.after (b :: more))]
  simp only
  cases tokens (pos.after (b :: more)) rest <;> rfl

theorem Scans.fail {b : UInt8} {t : Text} (hb : isSeparator b = false)
    (hl : ∀ pos, outcome (lexeme pos b t) = none) : Scans (b :: t) none := by
  intro pos
  obtain ⟨e, he⟩ := outcome_eq_none.1 (hl pos)
  rw [tokens_of_skip (skip_of_isSeparator hb pos t), he]
  rfl

/-- What may stand behind a leaf: a blank, a closing bracket, or nothing. -/
def Ends (t : Text) : Prop :=
  ∀ b, t.head? = some b → b = ' '.toUInt8 ∨ ∃ bracket : Bracket, b = bracket.closing

theorem Ends.head_eq_false {t : Text} {p : UInt8 → Bool} (h : Ends t)
    (hp : (' '.toUInt8 :: [Bracket.round, .square, .curly].map Bracket.closing).all (!p ·)) :
    ∀ b, t.head? = some b → p b = false := by
  intro b hb
  have hmem : b ∈ ' '.toUInt8 :: [Bracket.round, .square, .curly].map Bracket.closing := by
    rcases h b hb with rfl | ⟨bracket, rfl⟩
    · decide
    · cases bracket <;> decide
  simpa using List.all_eq_true.1 hp b hmem

theorem Ends.isNote {n : Note} {rest : Text} (hrest : Ends rest) (hn : n.IsLegible) :
    IsNote rest n n.text := by
  cases n with
  | none =>
    have hmark := hrest.head_eq_false (p := fun b => b = '@'.toUInt8 || b = '^'.toUInt8) (by decide)
    refine .none ?_ ?_
    · intro hat
      exact absurd (hmark _ hat) (by decide)
    · intro hcarets
      cases rest with
      | nil => cases hcarets
      | cons b rest =>
        obtain ⟨rfl, -⟩ := List.cons.inj hcarets
        exact absurd (hmark _ rfl) (by decide)
  | language tag =>
    obtain ⟨hne, htag⟩ := hn
    exact .language tag hne htag (hrest.head_eq_false (by decide))
  | datatype iri =>
    obtain ⟨hne, hiri⟩ := hn
    have hnote : Note.ofDatatype iri = .datatype iri := by simp [Note.ofDatatype, hne]
    have hword : IsNote rest _ _ := .datatype iri hiri
    rwa [hnote] at hword

theorem outcome_string_eq_none {t : Text} (ht : ReadsString t none) (start pos : Position) :
    outcome (string start pos t) = none := by
  obtain ⟨e, he⟩ := outcome_eq_none.1 (ht start pos)
  rw [string, he]
  rfl

section Leaves
variable {rest : Text} {r : Option (List Lexeme)}

theorem Scans.string {value : Text} {n : Note} (h : Scans rest r) (hn : n.IsLegible)
    (hrest : Ends rest) :
    Scans (Leaf.text (.string value n) ++ rest)
      (if value.IsPlain then r.map (.leaf (.string value n) :: ·) else none) := by
  have htext : Leaf.text (.string value n) ++ rest = '"'.toUInt8 ::
      ((Text.pieces value).flatMap Text.Piece.quoted ++ '"'.toUInt8 :: (n.text ++ rest)) := by
    simp [Leaf.text, Text.quote]
  have hread := readsString_quote value (n.text ++ rest)
  rw [htext]
  by_cases hplain : value.IsPlain
  · rw [if_pos hplain] at hread
    rw [if_pos hplain]
    obtain ⟨stop, hbody⟩ := outcome_eq_some.1 (hread .start .start)
    obtain ⟨body, hquoted, hspelling⟩ := exists_isQuoted hbody
    rw [hspelling]
    simpa using h.word (.string hquoted (hrest.isNote hn))
  · rw [if_neg hplain] at hread
    rw [if_neg hplain]
    apply Scans.fail (by decide)
    intro pos
    exact outcome_string_eq_none hread pos _

theorem Scans.atom {value : Text} (h : Scans rest r) (hl : Leaf.IsLegible (.atom value))
    (hrest : Ends rest) :
    Scans (Leaf.text (.atom value) ++ rest) (r.map (.leaf (.atom value) :: ·)) := by
  obtain ⟨hne, hbytes, hlt⟩ := hl
  cases value with
  | nil => exact absurd rfl hne
  | cons b value =>
    obtain ⟨hb, hvalue⟩ := List.forall_mem_cons.1 hbytes
    refine h.word (.atom b value hb hvalue ?_ ?_)
    · rintro rfl
      exact startsIri_append (hlt value rfl)
        (hrest.head_eq_false (p := fun b => startsIri [b]) (by decide))
    · exact hrest.head_eq_false (by decide)

/-- The spelling of a legible leaf is scanned as the leaf, unless it needs an escape that the
notation does not know. -/
theorem Scans.leaf {l : Leaf} (h : Scans rest r) (hl : l.IsLegible) (hrest : Ends rest) :
    Scans (l.text ++ rest) (if ∀ s ∈ l.strings, s.IsPlain then r.map (.leaf l :: ·) else none) := by
  cases l with
  | string value n => simpa [Leaf.strings] using h.string hl hrest
  | atom value => simpa [Leaf.strings] using h.atom hl hrest
  | iri value =>
    rw [if_pos nofun]
    exact h.word (.iri value hl.1 hl.2)

end Leaves

end Scan

end GraphQuery
