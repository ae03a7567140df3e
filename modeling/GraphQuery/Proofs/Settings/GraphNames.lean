import GraphQuery.Proofs.Form.Lexemes
import GraphQuery.Proofs.Success
import GraphQuery.Settings.Basic

namespace GraphQuery

namespace Text

theorem isBlankChar_ofNat {b : UInt8} (hb : b < 0x80) :
    isBlankChar (Char.ofNat b.toNat) = isBlankByte b := by
  simp only [UInt8.lt_iff_toNat_lt, UInt8.reduceToNat] at hb
  have hchar : (Char.ofNat b.toNat).toNat = b.toNat := by
    rw [toNat_charOfNat, if_pos (.inl (by omega))]
  rw [Bool.eq_iff_iff]
  simp only [isBlankChar, isBlankByte, hchar, Bool.or_eq_true, Bool.and_eq_true, decide_eq_true_eq,
    UInt8.le_iff_toNat_le, ← UInt8.toNat_inj, UInt8.reduceToNat]
  omega

theorem eq_of_isBlankByte {b : UInt8} (hb : 0x80 ≤ b) (hblank : isBlankByte b) :
    b = 0x85 ∨ b = 0xA0 := by
  simp only [isBlankByte, Bool.or_eq_true, Bool.and_eq_true, decide_eq_true_eq,
    UInt8.le_iff_toNat_le, ← UInt8.toNat_inj, UInt8.reduceToNat] at hb hblank ⊢
  omega

end Text

namespace Scan

theorem isBracket_iff {b : UInt8} :
    isBracket b ↔ ∃ bracket : Bracket, b = bracket.opening ∨ b = bracket.closing := by
  rw [isBracket, Bool.or_eq_true, Option.isSome_iff_exists, Option.isSome_iff_exists]
  constructor
  · rintro (⟨bracket, hb⟩ | ⟨bracket, hb⟩)
    · have hopening : bracket.opening = b := by simpa using List.find?_some hb
      exact ⟨bracket, .inl hopening.symm⟩
    · have hclosing : bracket.closing = b := by simpa using List.find?_some hb
      exact ⟨bracket, .inr hclosing.symm⟩
  · rintro ⟨bracket, rfl | rfl⟩
    · exact .inl ⟨bracket, by cases bracket <;> rfl⟩
    · exact .inr ⟨bracket, by cases bracket <;> rfl⟩

end Scan

theorem scan_iri {value : Text} :
    (∃ stop, scan ("<" ++ value ++ ">") = .ok ([⟨.leaf (.iri value), .start⟩], stop)) ↔
      Leaf.IsLegible (.iri value) := by
  constructor
  · rintro ⟨stop, h⟩
    exact Scan.tokens_isLegible h _ List.mem_cons_self
  · rintro ⟨hstart, hvalue⟩
    have hword : Scan.IsWord [] (.leaf (.iri value)) _ := .iri value hstart hvalue
    have hscanned : Scan.Scanned .start _ [⟨.leaf (.iri value), .start⟩] _ :=
      .token hword.isGap_nil hword (.done (.nil nofun))
    rw [List.append_nil] at hscanned
    exact ⟨_, Scan.tokens_eq_ok.2 hscanned⟩

namespace Settings

variable {key : SettingKey} {iri : Text}

theorem checkIri_eq_none : checkIri key iri = none ↔ iri ≠ [] ∧ isIriText iri := by
  cases iri with
  | nil => simp [checkIri]
  | cons b rest => simp [checkIri]

/-- What settings let pass: no delimiter, and no blank within ASCII. -/
theorem not_mem_of_isIriText (h : isIriText iri) {b : UInt8} (hb : b ∈ iri) :
    b ∉ forbiddenBytes ∧ (b < 0x80 → Text.isBlankByte b = false) := by
  simp only [isIriText, Bool.and_eq_true, Bool.not_eq_true', List.any_eq_false] at h
  obtain ⟨hforbidden, hblank⟩ := h
  refine ⟨by simpa using hforbidden b hb, ?_⟩
  intro hascii
  have hpiece := hblank _ (Text.mem_pieces_of_ascii hb hascii)
  rw [← Text.isBlankChar_ofNat hascii]
  simpa [Text.Piece.isBlank] using hpiece

theorem isIriText_iff (h : isIriText iri) : IsIriText iri ↔ 0x85 ∉ iri ∧ 0xA0 ∉ iri := by
  constructor
  · intro hiri
    exact ⟨fun hb => absurd (hiri _ hb).2 (by decide), fun hb => absurd (hiri _ hb).2 (by decide)⟩
  · rintro ⟨h85, hA0⟩ b hb
    obtain ⟨hforbidden, hascii⟩ := not_mem_of_isIriText h hb
    refine ⟨?_, Bool.eq_false_iff.2 ?_⟩
    · rintro rfl
      exact hforbidden (by decide)
    · intro hblank
      have hhigh : 0x80 ≤ b := UInt8.not_lt.1 fun hlt => absurd hblank (by simp [hascii hlt])
      -- settings see the character that such a byte is part of, so they do not rule it out
      rcases Text.eq_of_isBlankByte hhigh hblank with rfl | rfl
      · exact h85 hb
      · exact hA0 hb

/-- The bytes that make a name begin like an operator, where settings do not forbid them. -/
def operatorBytes : Text := 0 :: ("=()[]" : Text)

theorem startsIri_iff (h : isIriText iri) (hne : iri ≠ []) (hiri : IsIriText iri) :
    Scan.startsIri iri ↔ ∀ b, iri.head? = some b → b ∉ operatorBytes := by
  cases iri with
  | nil => exact absurd rfl hne
  | cons b rest =>
    obtain ⟨hforbidden, -⟩ := not_mem_of_isIriText h List.mem_cons_self
    obtain ⟨-, hblank⟩ := hiri b List.mem_cons_self
    constructor
    · rintro hstart c ⟨⟩ hc
      have hoperators : operatorBytes.all fun b => !Scan.startsIri [b] := by decide
      have hnot : Scan.startsIri [b] = false := by simpa using List.all_eq_true.1 hoperators b hc
      exact absurd hstart (by simpa [Scan.startsIri] using hnot)
    · intro hoperator
      have hother {c : UInt8} (hc : c ∈ operatorBytes ++ forbiddenBytes) : b ≠ c := by
        rintro rfl
        rcases List.mem_append.1 hc with hc | hc
        · exact hoperator b rfl hc
        · exact hforbidden hc
      have hbracket : Scan.isBracket b = false := by
        rw [Bool.eq_false_iff, ne_eq, Scan.isBracket_iff]
        rintro ⟨bracket, hb | hb⟩
        · exact hother (by cases bracket <;> decide) hb
        · exact hother (by cases bracket <;> decide) hb
      have hzero : b ≠ 0 := hother (by decide)
      have hequals : b ≠ '='.toUInt8 := hother (by decide)
      have hcloses : b ≠ '>'.toUInt8 := hother (by decide)
      simp [Scan.startsIri, hzero, hequals, hcloses, hblank, hbracket]

/-- A graph that settings name can be written in the notation exactly if its name neither begins
like an operator nor has a blank byte beyond ASCII. -/
theorem scan_checked_iri (h : checkIri key iri = none) :
    (∃ stop, scan ("<" ++ iri ++ ">") = .ok ([⟨.leaf (.iri iri), .start⟩], stop)) ↔
      (∀ b, iri.head? = some b → b ∉ operatorBytes) ∧ 0x85 ∉ iri ∧ 0xA0 ∉ iri := by
  obtain ⟨hne, htext⟩ := checkIri_eq_none.1 h
  rw [scan_iri, Leaf.IsLegible, ← isIriText_iff htext]
  exact and_congr_left (startsIri_iff htext hne)

theorem scan_checked_iri_euroGraph :
    checkIri .namedGraphs "http://example.org/€" = none ∧
      ∃ stop, scan "<http://example.org/€>" =
        .ok ([⟨.leaf (.iri "http://example.org/€"), .start⟩], stop) := by
  have hcheck : checkIri .namedGraphs "http://example.org/€" = none :=
    Option.isNone_iff_eq_none.1 (by decide +kernel)
  refine ⟨hcheck, (scan_checked_iri hcheck).2 ⟨?_, ?_⟩⟩
  · rintro b ⟨⟩
    decide
  · decide +kernel

/-- The second byte of the letter à is a blank, and a name may begin like an operator. -/
theorem exists_checked_iri_unreadable :
    (checkIri .namedGraphs "http://example.org/à" = none ∧
      scan "<http://example.org/à>" = .error (.unterminatedIri .start)) ∧
    checkIri .namedGraphs "=a" = none ∧
      scan "<=a>" = .ok ([⟨.leaf (.atom "<=a>"), .start⟩], ⟨1, 5⟩) := by
  refine ⟨⟨Option.isNone_iff_eq_none.1 (by decide +kernel), ?_⟩,
    Option.isNone_iff_eq_none.1 (by decide +kernel), ?_⟩
  · decide +kernel
  · decide +kernel

end Settings

end GraphQuery
