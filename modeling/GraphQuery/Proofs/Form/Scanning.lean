import GraphQuery.Form.Scan

namespace GraphQuery

namespace Position

@[simp] theorem after_nil (p : Position) : p.after [] = p := rfl

@[simp] theorem after_cons (p : Position) (b : UInt8) (t : Text) :
    p.after (b :: t) = (p.next b).after t := rfl

@[simp] theorem after_append (p : Position) (t u : Text) :
    p.after (t ++ u) = (p.after t).after u := List.foldl_append

end Position

def IsIriText (t : Text) : Prop := ∀ b ∈ t, b ≠ '>'.toUInt8 ∧ Text.isBlankByte b = false

namespace Scan

def isSeparator (b : UInt8) : Bool := b = ';'.toUInt8 || b = ','.toUInt8 || Text.isBlankByte b

inductive IsQuoted : Text → Text → Prop
  | nil : IsQuoted [] []
  | byte {b : UInt8} {value body : Text} (hquote : b ≠ '"'.toUInt8) (hslash : b ≠ '\\'.toUInt8)
      (h : IsQuoted value body) : IsQuoted (b :: value) (b :: body)
  | escape {e b : UInt8} {value body : Text} (he : escape? e = some b) (h : IsQuoted value body) :
      IsQuoted (b :: value) ('\\'.toUInt8 :: e :: body)

inductive IsNote (rest : Text) : Note → Text → Prop
  | none (hat : rest.head? ≠ some '@'.toUInt8)
      (hcarets : rest.take 2 ≠ ['^'.toUInt8, '^'.toUInt8]) : IsNote rest .none []
  | language (tag : Text) (hne : tag ≠ []) (htag : ∀ b ∈ tag, isTagByte b)
      (hrest : ∀ b, rest.head? = some b → isTagByte b = false) :
      IsNote rest (.language tag) ('@'.toUInt8 :: tag)
  | datatype (iri : Text) (hiri : IsIriText iri) :
      IsNote rest (.ofDatatype iri)
        ('^'.toUInt8 :: '^'.toUInt8 :: '<'.toUInt8 :: (iri ++ ['>'.toUInt8]))

/-- How a lexeme is written in front of a text that does not continue it. -/
inductive IsWord (rest : Text) : Lexeme → Text → Prop
  | opening (bracket : Bracket) : IsWord rest (.opening bracket) [bracket.opening]
  | closing (bracket : Bracket) : IsWord rest (.closing bracket) [bracket.closing]
  | string {value body word : Text} {note : Note} (hbody : IsQuoted value body)
      (hnote : IsNote rest note word) :
      IsWord rest (.leaf (.string value note)) ('"'.toUInt8 :: (body ++ '"'.toUInt8 :: word))
  | iri (value : Text) (hstart : startsIri value) (hvalue : IsIriText value) :
      IsWord rest (.leaf (.iri value)) ('<'.toUInt8 :: (value ++ ['>'.toUInt8]))
  | atom (b : UInt8) (more : Text) (hb : isAtomByte b) (hmore : ∀ c ∈ more, isAtomByte c)
      (hlt : b = '<'.toUInt8 → startsIri (more ++ rest) = false)
      (hrest : ∀ c, rest.head? = some c → isAtomByte c = false) :
      IsWord rest (.leaf (.atom (b :: more))) (b :: more)

/-- What separates words. A comment ends in front of a newline or at the end of the text. -/
inductive IsGap (rest : Text) : Text → Prop
  | nil (hrest : ∀ b, rest.head? = some b → isSeparator b = false) : IsGap rest []
  | blank {b : UInt8} {gap : Text} (hb : b = ','.toUInt8 ∨ Text.isBlankByte b)
      (h : IsGap rest gap) : IsGap rest (b :: gap)
  | comment {words gap : Text} (hwords : '\n'.toUInt8 ∉ words)
      (hend : ∀ b, (gap ++ rest).head? = some b → b = '\n'.toUInt8) (h : IsGap rest gap) :
      IsGap rest (';'.toUInt8 :: (words ++ gap))

/-- A text at the given place is made of these tokens and ends at that place. -/
inductive Scanned : Position → Text → List Token → Position → Prop
  | done {pos : Position} {gap : Text} (hgap : IsGap [] gap) : Scanned pos gap [] (pos.after gap)
  | token {pos stop : Position} {gap word rest : Text} {l : Lexeme} {ts : List Token}
      (hgap : IsGap (word ++ rest) gap) (hword : IsWord rest l word)
      (hrest : Scanned ((pos.after gap).after word) rest ts stop) :
      Scanned pos (gap ++ (word ++ rest)) (⟨l, pos.after gap⟩ :: ts) stop

section Words
variable {rest : Text}

theorem iriBody_spec {pos : Position} {t : Text} {p : Piece Text} (h : iriBody pos t = some p) :
    t = p.value ++ '>'.toUInt8 :: p.rest ∧ IsIriText p.value := by
  induction t generalizing pos p with
  | nil => cases h
  | cons b rest ih =>
    rw [iriBody] at h
    split at h
    next hb =>
      cases h
      exact ⟨by rw [hb]; rfl, by simp [IsIriText]⟩
    next hb =>
      split at h
      · cases h
      next hblank =>
        obtain ⟨q, hq, rfl⟩ := Option.map_eq_some_iff.1 h
        obtain ⟨hrest, hvalue⟩ := ih hq
        refine ⟨congrArg (b :: ·) hrest, ?_⟩
        intro c hc
        rcases List.mem_cons.1 hc with rfl | hc
        · exact ⟨hb, Bool.eq_false_iff.2 hblank⟩
        · exact hvalue c hc

theorem startsIri_of_append {value rest : Text} (h : startsIri (value ++ '>'.toUInt8 :: rest)) :
    startsIri value := by
  cases value with
  | nil => exact absurd h (by simp [startsIri])
  | cons b value => exact h

theorem startsIri_append {t : Text} (ht : startsIri t = false)
    (hrest : ∀ b, rest.head? = some b → startsIri [b] = false) : startsIri (t ++ rest) = false := by
  cases t with
  | cons b t => exact ht
  | nil =>
    cases rest with
    | nil => rfl
    | cons b rest => exact hrest b rfl

theorem takeWhile_append {p : UInt8 → Bool} {t rest : Text} (ht : ∀ b ∈ t, p b)
    (hrest : ∀ b, rest.head? = some b → p b = false) :
    (t ++ rest).takeWhile p = t ∧ (t ++ rest).dropWhile p = rest := by
  rw [List.takeWhile_append_of_pos ht, List.dropWhile_append_of_pos ht]
  cases rest with
  | nil => simp
  | cons b rest => simp [hrest b rfl]

theorem takeWhile_spec (f : UInt8 → Bool) (t : Text) :
    (∀ b ∈ t.takeWhile f, f b) ∧ (∀ b, (t.dropWhile f).head? = some b → f b = false) ∧
      t = t.takeWhile f ++ t.dropWhile f := by
  refine ⟨List.all_eq_true.1 List.all_takeWhile, ?_, List.takeWhile_append_dropWhile.symm⟩
  intro b hb
  have := List.head?_dropWhile_not f t
  rw [hb] at this
  exact this

theorem isAtomByte_iff {b : UInt8} : isAtomByte b = true ↔
    isSeparator b = false ∧ b ≠ '"'.toUInt8 ∧ isBracket b = false := by
  simp only [isAtomByte, isSeparator, Bool.not_eq_true', Bool.or_eq_false_iff,
    decide_eq_false_iff_not]
  grind

theorem lexeme_of_isAtomByte {b : UInt8} (hb : isAtomByte b) (pos : Position) {t : Text}
    (ht : b = '<'.toUInt8 → startsIri t = false) : lexeme pos b t = atom pos b (b :: t) := by
  obtain ⟨-, hquote, hbracket⟩ := isAtomByte_iff.1 hb
  simp only [isBracket, Bool.or_eq_false_iff, Option.isSome_eq_false_iff,
    Option.isNone_iff_eq_none] at hbracket
  rw [lexeme, if_neg hquote, hbracket.1, hbracket.2]
  simp only
  rw [if_neg]
  rw [Bool.and_eq_true, decide_eq_true_eq]
  rintro ⟨hlt, hiri⟩
  rw [ht hlt] at hiri
  cases hiri

theorem iriBody_of_isIriText {value : Text} (h : IsIriText value) (pos : Position) (rest : Text) :
    iriBody pos (value ++ '>'.toUInt8 :: rest) =
      some ⟨value, pos.after (value ++ ['>'.toUInt8]), rest⟩ := by
  induction value generalizing pos with
  | nil => rw [List.nil_append, iriBody, if_pos rfl]; rfl
  | cons b value ih =>
    obtain ⟨hb, hblank⟩ := h b List.mem_cons_self
    have hrest := ih (fun c hc => h c (List.mem_cons_of_mem b hc)) (pos.next b)
    rw [List.cons_append, iriBody, if_neg hb, if_neg (by simp [hblank]), hrest]
    rfl

theorem stringBody_of_isQuoted {value body : Text} (h : IsQuoted value body)
    (start pos : Position) (rest : Text) :
    stringBody start pos (body ++ '"'.toUInt8 :: rest) =
      .ok ⟨value, pos.after (body ++ ['"'.toUInt8]), rest⟩ := by
  induction h generalizing pos with
  | nil => rw [List.nil_append, stringBody.eq_def]; rfl
  | byte hquote hslash _ ih =>
    rw [List.cons_append, stringBody.eq_def]
    simp only [if_neg hquote, if_neg hslash, ih]
    rfl
  | escape he _ ih =>
    rw [List.cons_append, List.cons_append, stringBody.eq_def]
    simp only [he, ih]
    rfl

theorem note_of_isNote {n : Note} {word : Text} (h : IsNote rest n word) (pos : Position) :
    note pos (word ++ rest) = .ok ⟨n, pos.after word, rest⟩ := by
  cases h with
  | none hat hcarets =>
    cases rest with
    | nil => rfl
    | cons a more =>
      rw [List.nil_append, note.eq_def]
      simp only
      rw [if_neg (fun ha => hat (by rw [ha]; rfl))]
      cases more with
      | nil => rfl
      | cons b more =>
        simp only
        rw [if_neg]
        · rfl
        · rw [Bool.and_eq_true, decide_eq_true_eq, decide_eq_true_eq]
          rintro ⟨rfl, rfl⟩
          exact hcarets rfl
  | language tag hne htag hrest =>
    obtain ⟨htake, hdrop⟩ := takeWhile_append htag hrest
    rw [List.cons_append, note.eq_def]
    simp only [if_pos, languageTag, htake, hdrop]
    rw [if_neg (by simpa using hne)]
    rfl
  | datatype iri hiri =>
    have hbody := iriBody_of_isIriText hiri
      (((pos.next '^'.toUInt8).next '^'.toUInt8).next '<'.toUInt8) rest
    simp only [List.cons_append, List.append_assoc, List.nil_append]
    rw [note.eq_def]
    simp only [show '^'.toUInt8 ≠ '@'.toUInt8 by decide, if_false, decide_true, Bool.and_self,
      if_true, datatypeIri, hbody]
    rfl

theorem lexeme_of_isWord {l : Lexeme} {b : UInt8} {more : Text} (h : IsWord rest l (b :: more))
    (pos : Position) :
    lexeme pos b (more ++ rest) = .ok ⟨l, pos.after (b :: more), rest⟩ := by
  generalize hword : b :: more = word at h
  cases h with
  | opening bracket =>
    cases hword
    cases bracket <;> rfl
  | closing bracket =>
    cases hword
    cases bracket <;> rfl
  | @string value body word note hbody hnote =>
    cases hword
    rw [lexeme, if_pos rfl, string]
    rw [List.append_assoc, List.cons_append, stringBody_of_isQuoted hbody]
    simp only
    rw [note_of_isNote hnote]
    simp [Except.map, Piece.map]
  | iri value hstart hvalue =>
    cases hword
    have hiri : startsIri (value ++ '>'.toUInt8 :: rest) := by
      cases value with
      | nil => cases hstart
      | cons c value => exact hstart
    have hopen : Bracket.ofOpening? '<'.toUInt8 = none := by decide
    have hclose : Bracket.ofClosing? '<'.toUInt8 = none := by decide
    rw [List.append_assoc, List.singleton_append, lexeme, if_neg (by decide), hopen, hclose]
    simp only
    rw [if_pos (by simp [hiri]), iriBody_of_isIriText hvalue]
    rfl
  | atom c more hc hmore hlt hrest =>
    cases hword
    have hbytes : ∀ d ∈ b :: more, isAtomByte d := List.forall_mem_cons.2 ⟨hc, hmore⟩
    obtain ⟨htake, hdrop⟩ := takeWhile_append hbytes hrest
    rw [lexeme_of_isAtomByte hc pos hlt]
    rw [List.cons_append] at htake hdrop
    simp only [atom, htake, hdrop]
    rfl

theorem exists_isQuoted {start pos : Position} {t : Text} {p : Piece Text}
    (h : stringBody start pos t = .ok p) :
    ∃ body, IsQuoted p.value body ∧ t = body ++ '"'.toUInt8 :: p.rest := by
  fun_induction stringBody start pos t generalizing p with
  | case1 => cases h
  | case2 pos rest =>
    cases h
    exact ⟨[], .nil, rfl⟩
  | case3 => cases h
  | case4 => cases h
  | case5 pos e rest c he hquote ih =>
    obtain ⟨q, hq, rfl⟩ := map_eq_ok.1 h
    obtain ⟨body, hbody, hrest⟩ := ih hq
    refine ⟨'\\'.toUInt8 :: e :: body, .escape he hbody, ?_⟩
    rw [hrest]
    rfl
  | case6 pos b rest hquote hslash ih =>
    obtain ⟨q, hq, rfl⟩ := map_eq_ok.1 h
    obtain ⟨body, hbody, hrest⟩ := ih hq
    exact ⟨b :: body, .byte hquote hslash hbody, congrArg (b :: ·) hrest⟩

theorem exists_isNote {pos : Position} {t : Text} {p : Piece Note} (h : note pos t = .ok p) :
    ∃ word, IsNote p.rest p.value word ∧ t = word ++ p.rest := by
  cases t with
  | nil =>
    cases h
    exact ⟨[], .none (by simp) (by simp), rfl⟩
  | cons a rest =>
    simp only [note] at h
    split at h
    next ha =>
      simp only [languageTag] at h
      split at h
      · cases h
      next hne =>
        cases h
        obtain ⟨htag, hrest, htext⟩ := takeWhile_spec isTagByte rest
        refine ⟨_, .language _ (fun hnil => hne (by rw [hnil]; rfl)) htag hrest, ?_⟩
        rw [ha]
        exact congrArg _ htext
    next ha =>
      have hat : (a :: rest).head? ≠ some '@'.toUInt8 := fun h => ha (Option.some.inj h)
      cases rest with
      | nil =>
        cases h
        exact ⟨[], .none hat (by simp), rfl⟩
      | cons b rest =>
        simp only at h
        split at h
        next hcarets =>
          rw [Bool.and_eq_true, decide_eq_true_eq, decide_eq_true_eq] at hcarets
          obtain ⟨rfl, rfl⟩ := hcarets
          cases rest with
          | nil => cases h
          | cons c rest =>
            rw [datatypeIri] at h
            split at h
            next hc =>
              split at h
              · cases h
              next iri hiri =>
                cases h
                obtain ⟨htext, hvalue⟩ := iriBody_spec hiri
                refine ⟨_, .datatype iri.value hvalue, ?_⟩
                rw [hc, htext]
                simp [Piece.map]
            · cases h
        next hcarets =>
          cases h
          refine ⟨[], .none hat ?_, rfl⟩
          intro htake
          simp only [List.take_succ_cons, List.cons.injEq] at htake
          exact hcarets (by simp [htake.1, htake.2.1])

theorem exists_isWord {pos : Position} {b : UInt8} {t : Text} {p : Piece Lexeme}
    (h : lexeme pos b t = .ok p) :
    ∃ more, IsWord p.rest p.value (b :: more) ∧ t = more ++ p.rest := by
  rw [lexeme] at h
  split at h
  next hb =>
    rw [string] at h
    split at h
    · cases h
    next q hq =>
      obtain ⟨body, hbody, rfl⟩ := exists_isQuoted hq
      obtain ⟨n, hn, rfl⟩ := map_eq_ok.1 h
      obtain ⟨word, hword, hrest⟩ := exists_isNote hn
      refine ⟨body ++ '"'.toUInt8 :: word, ?_, ?_⟩
      · rw [hb]
        exact .string hbody hword
      · rw [hrest]
        simp [Piece.map]
  next hquote =>
    split at h
    next bracket hb =>
      cases h
      obtain rfl : bracket.opening = b := by simpa using List.find?_some hb
      exact ⟨[], .opening bracket, rfl⟩
    next bracket _ hb =>
      cases h
      obtain rfl : bracket.closing = b := by simpa using List.find?_some hb
      exact ⟨[], .closing bracket, rfl⟩
    next hopening hclosing =>
      split at h
      next hiri =>
        split at h
        · cases h
        next q hq =>
          cases h
          obtain ⟨rfl, hvalue⟩ := iriBody_spec hq
          rw [Bool.and_eq_true, decide_eq_true_eq] at hiri
          obtain ⟨rfl, hiri⟩ := hiri
          refine ⟨q.value ++ ['>'.toUInt8], .iri _ (startsIri_of_append hiri) hvalue, ?_⟩
          simp [Piece.map]
      next hiri =>
        by_cases hb : isAtomByte b
        · simp only [atom, List.takeWhile_cons_of_pos hb, List.dropWhile_cons_of_pos hb] at h
          cases h
          obtain ⟨hmore, hrest, htext⟩ := takeWhile_spec isAtomByte t
          refine ⟨_, .atom b _ hb hmore ?_ hrest, htext⟩
          rintro rfl
          simpa [List.takeWhile_append_dropWhile] using hiri
        · simp only [atom, List.takeWhile_cons_of_neg hb] at h
          cases h

end Words

section Gaps

theorem skip_of_isSeparator {b : UInt8} (h : isSeparator b = false) (pos : Position)
    (rest : Text) : skip false pos (b :: rest) = (pos, b :: rest) := by
  simp only [isSeparator, Bool.or_eq_false_iff, decide_eq_false_iff_not] at h
  simp [skip, h]

theorem skip_comment (pos : Position) (t : Text) :
    skip true pos t = skip false (pos.after (t.takeWhile (· ≠ '\n'.toUInt8)))
      (t.dropWhile (· ≠ '\n'.toUInt8)) := by
  induction t generalizing pos with
  | nil => rfl
  | cons b rest ih =>
    rw [skip, if_pos rfl]
    by_cases hb : b = '\n'.toUInt8
    · subst hb
      rfl
    · rw [List.takeWhile_cons_of_pos (by simpa using hb),
        List.dropWhile_cons_of_pos (by simpa using hb)]
      simp only [hb, ne_eq, not_false_eq_true, decide_true]
      exact ih _

theorem skip_of_isGap {rest gap : Text} (h : IsGap rest gap) (pos : Position) :
    skip false pos (gap ++ rest) = (pos.after gap, rest) := by
  induction h generalizing pos with
  | nil hrest =>
    cases rest with
    | nil => rfl
    | cons b rest => exact skip_of_isSeparator (hrest b rfl) pos rest
  | @blank b gap hb _ ih =>
    have hsemicolon : b ≠ ';'.toUInt8 := by
      rintro rfl
      revert hb
      decide
    rw [List.cons_append, skip, if_neg Bool.false_ne_true, if_neg hsemicolon,
      if_pos (by simpa using hb)]
    exact ih _
  | @comment words gap hwords hend _ ih =>
    have hinside : ∀ b ∈ words, decide (b ≠ '\n'.toUInt8) := by grind
    have hstop : ∀ b, (gap ++ rest).head? = some b → decide (b ≠ '\n'.toUInt8) = false := by grind
    obtain ⟨htake, hdrop⟩ := takeWhile_append hinside hstop
    rw [List.cons_append, skip, if_neg Bool.false_ne_true, if_pos rfl, List.append_assoc,
      skip_comment, htake, hdrop, ih]
    simp

theorem exists_isGap (pos : Position) (t : Text) :
    ∃ gap, IsGap (skip false pos t).2 gap ∧ t = gap ++ (skip false pos t).2 := by
  -- on the length, since a comment is left in one step by `dropWhile`
  induction hn : t.length using Nat.strongRecOn generalizing pos t with
  | ind n ih =>
    cases t with
    | nil => exact ⟨[], .nil nofun, rfl⟩
    | cons b rest =>
      rw [List.length_cons] at hn
      rw [skip, if_neg Bool.false_ne_true]
      split
      next hb =>
        subst hb
        obtain ⟨hwords, hend, htext⟩ := takeWhile_spec (· ≠ '\n'.toUInt8) rest
        have hlength := length_dropWhile_le (· ≠ '\n'.toUInt8) rest
        rw [skip_comment]
        obtain ⟨gap, hgap, hrest⟩ := ih _ (by omega)
          ((pos.next ';'.toUInt8).after (rest.takeWhile (· ≠ '\n'.toUInt8)))
          (rest.dropWhile (· ≠ '\n'.toUInt8)) rfl
        have hnewline : '\n'.toUInt8 ∉ rest.takeWhile (· ≠ '\n'.toUInt8) :=
          fun hmem => by simpa using hwords _ hmem
        refine ⟨_, .comment hnewline ?_ hgap, ?_⟩
        · rw [← hrest]
          simpa using hend
        · rw [List.cons_append, List.append_assoc, ← hrest, ← htext]
      next hb =>
        split
        next hblank =>
          obtain ⟨gap, hgap, hrest⟩ := ih rest.length (by omega) (pos.next b) rest rfl
          refine ⟨b :: gap, .blank (by simpa using hblank) hgap, ?_⟩
          rw [List.cons_append, ← hrest]
        next hblank =>
          refine ⟨[], .nil ?_, rfl⟩
          intro c hc
          cases hc
          simp only [isSeparator, hb, decide_false, Bool.false_or]
          exact Bool.eq_false_iff.2 hblank

theorem skip_eq {pos stop : Position} {t rest : Text} :
    skip false pos t = (stop, rest) ↔
      ∃ gap, IsGap rest gap ∧ t = gap ++ rest ∧ stop = pos.after gap := by
  constructor
  · intro h
    obtain ⟨gap, hgap, htext⟩ := exists_isGap pos t
    rw [h] at hgap htext
    rw [htext, skip_of_isGap hgap] at h
    cases h
    exact ⟨gap, hgap, htext, rfl⟩
  · rintro ⟨gap, hgap, rfl, rfl⟩
    exact skip_of_isGap hgap pos

end Gaps

theorem lexeme_eq_ok {pos : Position} {b : UInt8} {t : Text} {p : Piece Lexeme} :
    lexeme pos b t = .ok p ↔ ∃ more, IsWord p.rest p.value (b :: more) ∧ t = more ++ p.rest ∧
      p.pos = pos.after (b :: more) := by
  constructor
  · intro h
    obtain ⟨more, hword, htext⟩ := exists_isWord h
    rw [htext, lexeme_of_isWord hword] at h
    exact ⟨more, hword, htext, congrArg Piece.pos (Except.ok.inj h).symm⟩
  · rintro ⟨more, hword, rfl, hpos⟩
    rw [lexeme_of_isWord hword, ← hpos]

theorem tokens_of_skip {pos start : Position} {t rest : Text} {b : UInt8}
    (h : skip false pos t = (start, b :: rest)) :
    tokens pos t = match lexeme start b rest with
      | .error e => .error e
      | .ok p => (tokens p.pos p.rest).map fun (ts, stop) => (⟨p.value, start⟩ :: ts, stop) := by
  rw [tokens]
  split
  next hs => simp [hs] at h
  next hs =>
    rw [hs] at h
    cases h
    split <;> rename_i hl <;> rw [hl]

theorem tokens_of_skip_nil {pos stop : Position} {t : Text} (h : skip false pos t = (stop, [])) :
    tokens pos t = .ok ([], stop) := by
  rw [tokens]
  split
  next hs =>
    rw [hs] at h
    cases h
    rfl
  next hs => simp [hs] at h

theorem IsWord.exists_cons {rest word : Text} {l : Lexeme} (h : IsWord rest l word) :
    ∃ b more, word = b :: more := by
  cases h <;> exact ⟨_, _, rfl⟩

theorem IsWord.isGap_nil {rest word : Text} {l : Lexeme} (h : IsWord rest l word) :
    IsGap (word ++ rest) [] := by
  refine .nil ?_
  intro b hb
  cases h with
  | opening bracket =>
    cases hb
    cases bracket <;> decide
  | closing bracket =>
    cases hb
    cases bracket <;> decide
  | string hbody hnote =>
    cases hb
    decide
  | iri value hstart hvalue =>
    cases hb
    decide
  | atom c more hc hmore hlt hrest =>
    cases hb
    exact (isAtomByte_iff.1 hc).1

/-- The scan of a text succeeds exactly when the text is made of gaps and words. -/
theorem tokens_eq_ok {pos stop : Position} {t : Text} {ts : List Token} :
    tokens pos t = .ok (ts, stop) ↔ Scanned pos t ts stop := by
  constructor
  · intro h
    fun_induction tokens pos t generalizing ts stop with
    | case1 pos t stop' hskip =>
      cases h
      obtain ⟨gap, hgap, rfl, rfl⟩ := skip_eq.1 hskip
      rw [List.append_nil]
      exact .done hgap
    | case2 => cases h
    | case3 pos t start b rest hskip p hl ih =>
      obtain ⟨⟨us, stop'⟩, hus, heq⟩ := map_eq_ok.1 h
      cases heq
      obtain ⟨gap, hgap, rfl, rfl⟩ := skip_eq.1 hskip
      obtain ⟨more, hword, rfl, hpos⟩ := lexeme_eq_ok.1 hl
      have hrest := ih hus
      rw [hpos] at hrest
      exact .token hgap hword hrest
  · intro h
    induction h with
    | @done pos gap hgap => exact tokens_of_skip_nil (skip_eq.2 ⟨gap, hgap, by simp, rfl⟩)
    | @token pos stop gap word rest l ts hgap hword _ ih =>
      obtain ⟨b, more, rfl⟩ := hword.exists_cons
      have hskip : skip false pos (gap ++ (b :: more ++ rest)) =
          (pos.after gap, b :: (more ++ rest)) := skip_of_isGap hgap pos
      rw [tokens_of_skip hskip, lexeme_of_isWord hword]
      simp only
      rw [ih]
      rfl

theorem Scanned.stop_eq {pos stop : Position} {t : Text} {ts : List Token}
    (h : Scanned pos t ts stop) : stop = pos.after t := by
  induction h with
  | done => rfl
  | token _ _ _ ih => rw [ih, Position.after_append, Position.after_append]

end Scan

end GraphQuery
