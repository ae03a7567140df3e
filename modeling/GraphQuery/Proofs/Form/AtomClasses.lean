import GraphQuery.Proofs.Form.Atoms
import Mathlib.Computability.RegularExpressions

namespace GraphQuery

theorem Text.dropStart?_eq (start t : Text) :
    dropStart? start t = if start.isPrefixOf t then some (t.drop start.length) else none := by
  fun_induction dropStart? start t with
  | case1 t => simp
  | case2 => simp
  | case3 a start t ih => simp [ih]
  | case4 a start b t hab => simp [hab]

namespace Atom

def oneOf : Text → RegularExpression UInt8
  | [] => 0
  | b :: rest => .char b + oneOf rest

def digitPattern : RegularExpression UInt8 := oneOf "0123456789"

def digitsPattern : RegularExpression UInt8 := digitPattern * digitPattern.star

def signPattern : RegularExpression UInt8 := 1 + oneOf "+-"

def pointPattern : RegularExpression UInt8 := oneOf "."

def integerPattern : RegularExpression UInt8 := signPattern * digitsPattern

def fractionPattern : RegularExpression UInt8 :=
  digitPattern.star * (pointPattern * digitsPattern)

def decimalPattern : RegularExpression UInt8 := signPattern * fractionPattern

def mantissaPattern : RegularExpression UInt8 :=
  digitsPattern * ((1 + pointPattern) * digitPattern.star) + pointPattern * digitsPattern

def doublePattern : RegularExpression UInt8 :=
  signPattern * (mantissaPattern * (oneOf "eE" * integerPattern))

structure Rule where
  cls : AtomClass
  test : Text → Bool
  outcome : Text → Except Fault AtomClass

def rules : List Rule :=
  [⟨.bool, fun t => t = "true" ∨ t = "false", fun _ => .ok .bool⟩,
    ⟨.int, integerPattern.rmatch, fun _ => .ok .int⟩,
    ⟨.decimal, decimalPattern.rmatch, fun _ => .ok .decimal⟩,
    ⟨.double, doublePattern.rmatch, fun _ => .ok .double⟩,
    ⟨.keyword, (":" : Text).isPrefixOf,
      fun t => if t.length = 1 then .error .keyword else .ok .keyword⟩,
    ⟨.var, ("?" : Text).isPrefixOf,
      fun t => if isName (t.drop 1) then .ok .var else .error .var⟩,
    ⟨.blank, ("_:" : Text).isPrefixOf,
      fun t => if isName (t.drop 2) then .ok .blank else .error .blank⟩]

/-- The outcome of the first rule whose test an atom passes; an atom that passes none is a
symbol. -/
def firstOf (rs : List Rule) (t : Text) : Except Fault AtomClass :=
  match rs.find? (·.test t) with
  | some rule => rule.outcome t
  | none => .ok .symbol

def classOfMark (b : UInt8) : Option AtomClass :=
  if b = 't'.toUInt8 ∨ b = 'f'.toUInt8 then some .bool
  else if b = ':'.toUInt8 then some .keyword
  else if b = '?'.toUInt8 then some .var
  else if b = '_'.toUInt8 then some .blank
  else none

def classOfNumber (t : Text) : AtomClass :=
  if t.any isExponentMark then .double else if '.'.toUInt8 ∈ t then .decimal else .int

/-- The only class whose test an atom can pass. -/
def candidate (t : Text) : AtomClass :=
  (t.head?.bind classOfMark).getD (classOfNumber (Text.unsigned t))

section Patterns
open RegularExpression
variable {t : Text}

theorem oneOf_rmatch_iff {bs : Text} : (oneOf bs).rmatch t ↔ ∃ b ∈ bs, t = [b] := by
  induction bs with
  | nil => simp [oneOf]
  | cons b bs ih =>
    rw [oneOf, add_rmatch_iff, char_rmatch_iff, ih]
    simp

theorem star_oneOf_rmatch_iff {bs : Text} : (oneOf bs).star.rmatch t ↔ ∀ b ∈ t, b ∈ bs := by
  rw [star_rmatch_iff]
  constructor
  · rintro ⟨parts, rfl, hparts⟩ b hb
    obtain ⟨part, hpart, hb⟩ := List.mem_flatten.1 hb
    obtain ⟨c, hc, rfl⟩ := oneOf_rmatch_iff.1 (hparts part hpart).2
    rwa [List.mem_singleton.1 hb]
  · intro h
    refine ⟨t.map ([·]), by rw [← List.flatMap_def, List.flatMap_singleton'], ?_⟩
    simp only [List.forall_mem_map]
    intro b hb
    exact ⟨List.cons_ne_nil b [], oneOf_rmatch_iff.2 ⟨b, h b hb, rfl⟩⟩

theorem mem_digits_iff {b : UInt8} : b ∈ ("0123456789" : Text) ↔ Text.isDigit b := by
  have hdigits : ("0123456789" : Text) = [48, 49, 50, 51, 52, 53, 54, 55, 56, 57] := by decide
  have hfirst : '0'.toUInt8.toNat = 48 := by decide
  have hlast : '9'.toUInt8.toNat = 57 := by decide
  simp only [hdigits, Text.isDigit, List.mem_cons, List.not_mem_nil, or_false, Bool.and_eq_true,
    decide_eq_true_eq, UInt8.le_iff_toNat_le, ← UInt8.toNat_inj, UInt8.reduceToNat, hfirst, hlast]
  omega

theorem star_digit_rmatch_iff : digitPattern.star.rmatch t ↔ ∀ b ∈ t, Text.isDigit b := by
  simp only [digitPattern, star_oneOf_rmatch_iff, mem_digits_iff]

theorem isDigits_iff : isDigits t ↔ t ≠ [] ∧ ∀ b ∈ t, Text.isDigit b := by
  simp [isDigits]

theorem digits_rmatch_iff : digitsPattern.rmatch t ↔ isDigits t := by
  rw [digitsPattern, mul_rmatch_iff, isDigits_iff]
  constructor
  · rintro ⟨u, v, rfl, hu, hv⟩
    obtain ⟨b, hb, rfl⟩ := oneOf_rmatch_iff.1 hu
    refine ⟨List.cons_ne_nil b v, ?_⟩
    exact List.forall_mem_cons.2 ⟨mem_digits_iff.1 hb, star_digit_rmatch_iff.1 hv⟩
  · rintro ⟨hne, ht⟩
    cases t with
    | nil => exact absurd rfl hne
    | cons b rest =>
      obtain ⟨hb, hrest⟩ := List.forall_mem_cons.1 ht
      have hfirst : digitPattern.rmatch [b] := oneOf_rmatch_iff.2 ⟨b, mem_digits_iff.2 hb, rfl⟩
      exact ⟨[b], rest, rfl, hfirst, star_digit_rmatch_iff.2 hrest⟩

theorem point_rmatch_iff : pointPattern.rmatch t ↔ t = ['.'.toUInt8] := by
  have hpoint : ("." : Text) = ['.'.toUInt8] := by decide
  rw [pointPattern, oneOf_rmatch_iff, hpoint]
  simp

theorem mem_signs_iff {b : UInt8} :
    b ∈ ("+-" : Text) ↔ (b = '+'.toUInt8 || b = '-'.toUInt8) = true := by
  have hsigns : ("+-" : Text) = ['+'.toUInt8, '-'.toUInt8] := by decide
  simp [hsigns]

theorem mem_marks_iff {b : UInt8} : b ∈ ("eE" : Text) ↔ isExponentMark b := by
  have hmarks : ("eE" : Text) = ['e'.toUInt8, 'E'.toUInt8] := by decide
  simp [hmarks, isExponentMark]

def mantissaBytes : Text := ".0123456789"

theorem mantissaBytes_spec {b : UInt8} (hb : b ∈ mantissaBytes) :
    b ∉ ("+-" : Text) ∧ isExponentMark b = false ∧ classOfMark b = none := by
  have hall : mantissaBytes.all fun b =>
      b ∉ ("+-" : Text) ∧ isExponentMark b = false ∧ classOfMark b = none := by decide
  simpa using List.all_eq_true.1 hall b hb

theorem mem_mantissaBytes_of_isDigit {b : UInt8} (hb : Text.isDigit b) : b ∈ mantissaBytes :=
  List.mem_cons_of_mem _ (mem_digits_iff.2 hb)

theorem point_mem_mantissaBytes : '.'.toUInt8 ∈ mantissaBytes := by decide

def BeginsNumber (t : Text) : Prop := ∀ b, t.head? = some b → b ∈ mantissaBytes

theorem BeginsNumber.unsigned_eq (h : BeginsNumber t) : Text.unsigned t = t := by
  cases t with
  | nil => rfl
  | cons b rest =>
    have hb := (mantissaBytes_spec (h b rfl)).1
    rw [mem_signs_iff] at hb
    rw [Text.unsigned, if_neg hb]

theorem signed_rmatch_iff {p : RegularExpression UInt8} (hp : ∀ u, p.rmatch u → BeginsNumber u) :
    (signPattern * p).rmatch t ↔ p.rmatch (Text.unsigned t) := by
  simp only [mul_rmatch_iff, signPattern, add_rmatch_iff, one_rmatch_iff, oneOf_rmatch_iff]
  constructor
  · rintro ⟨s, u, rfl, rfl | ⟨b, hb, rfl⟩, hu⟩
    · rwa [List.nil_append, (hp u hu).unsigned_eq]
    · rwa [List.singleton_append, Text.unsigned, if_pos (mem_signs_iff.1 hb)]
  · intro hu
    cases t with
    | nil => exact ⟨[], [], rfl, .inl rfl, hu⟩
    | cons b rest =>
      rw [Text.unsigned] at hu
      split at hu
      next hb => exact ⟨[b], rest, rfl, .inr ⟨b, mem_signs_iff.2 hb, rfl⟩, hu⟩
      next hb => exact ⟨[], b :: rest, rfl, .inl rfl, hu⟩

theorem beginsNumber_of_forall (h : ∀ b ∈ t, b ∈ mantissaBytes) : BeginsNumber t :=
  fun b hb => h b (List.mem_of_mem_head? hb)

theorem mem_mantissaBytes_of_isDigits (h : isDigits t) : ∀ b ∈ t, b ∈ mantissaBytes :=
  fun b hb => mem_mantissaBytes_of_isDigit ((isDigits_iff.1 h).2 b hb)

theorem integer_rmatch_iff : integerPattern.rmatch t ↔ isInteger t := by
  rw [integerPattern, signed_rmatch_iff, digits_rmatch_iff, isInteger]
  intro u hu
  exact beginsNumber_of_forall (mem_mantissaBytes_of_isDigits (digits_rmatch_iff.1 hu))

def IsFraction (t : Text) : Prop :=
  ∃ whole fraction, t = whole ++ '.'.toUInt8 :: fraction ∧ (∀ b ∈ whole, Text.isDigit b) ∧
    isDigits fraction

theorem fraction_rmatch_iff : fractionPattern.rmatch t ↔ IsFraction t := by
  simp only [fractionPattern, mul_rmatch_iff, star_digit_rmatch_iff, point_rmatch_iff,
    digits_rmatch_iff]
  constructor
  · rintro ⟨whole, v, rfl, hwhole, u, fraction, rfl, rfl, hfraction⟩
    exact ⟨whole, fraction, rfl, hwhole, hfraction⟩
  · rintro ⟨whole, fraction, rfl, hwhole, hfraction⟩
    exact ⟨whole, _, rfl, hwhole, ['.'.toUInt8], fraction, rfl, rfl, hfraction⟩

theorem dropWhile_digits {whole rest : Text} (h : ∀ b ∈ whole, Text.isDigit b) :
    (whole ++ '.'.toUInt8 :: rest).dropWhile Text.isDigit = '.'.toUInt8 :: rest :=
  (Scan.takeWhile_append h (by rintro b ⟨⟩; decide)).2

theorem isDecimal_iff : isDecimal t ↔ IsFraction (Text.unsigned t) := by
  rw [isDecimal]
  constructor
  · intro h
    obtain ⟨hwhole, -, hu⟩ := Scan.takeWhile_spec Text.isDigit (Text.unsigned t)
    split at h
    · cases h
    next b fraction hdrop =>
      rw [hdrop] at hu
      rw [Bool.and_eq_true, decide_eq_true_eq] at h
      obtain ⟨rfl, hfraction⟩ := h
      exact ⟨_, fraction, hu, hwhole, hfraction⟩
  · rintro ⟨whole, fraction, hu, hwhole, hfraction⟩
    rw [hu, dropWhile_digits hwhole]
    simp [hfraction]

theorem IsFraction.mem_mantissaBytes (h : IsFraction t) : ∀ b ∈ t, b ∈ mantissaBytes := by
  obtain ⟨whole, fraction, rfl, hwhole, hfraction⟩ := h
  intro b hb
  rcases List.mem_append.1 hb with hb | hb
  · exact mem_mantissaBytes_of_isDigit (hwhole b hb)
  · rcases List.mem_cons.1 hb with rfl | hb
    · exact point_mem_mantissaBytes
    · exact mem_mantissaBytes_of_isDigits hfraction b hb

theorem decimal_rmatch_iff : decimalPattern.rmatch t ↔ isDecimal t := by
  rw [decimalPattern, signed_rmatch_iff, fraction_rmatch_iff, isDecimal_iff]
  intro u hu
  exact beginsNumber_of_forall (fraction_rmatch_iff.1 hu).mem_mantissaBytes

def IsMantissa (t : Text) : Prop :=
  isDigits t ∨ (∃ whole fraction, t = whole ++ '.'.toUInt8 :: fraction ∧ isDigits whole ∧
    ∀ b ∈ fraction, Text.isDigit b) ∨ ∃ fraction, t = '.'.toUInt8 :: fraction ∧ isDigits fraction

theorem mantissa_rmatch_iff : mantissaPattern.rmatch t ↔ IsMantissa t := by
  simp only [mantissaPattern, mul_rmatch_iff, add_rmatch_iff, one_rmatch_iff,
    star_digit_rmatch_iff, point_rmatch_iff, digits_rmatch_iff]
  constructor
  · rintro (⟨whole, v, rfl, hwhole, u, fraction, rfl, rfl | rfl, hfraction⟩ |
      ⟨u, fraction, rfl, rfl, hfraction⟩)
    · refine .inl (isDigits_iff.2 ⟨?_, ?_⟩)
      · simp [(isDigits_iff.1 hwhole).1]
      · exact List.forall_mem_append.2 ⟨(isDigits_iff.1 hwhole).2, hfraction⟩
    · exact .inr (.inl ⟨whole, fraction, rfl, hwhole, hfraction⟩)
    · exact .inr (.inr ⟨fraction, rfl, hfraction⟩)
  · rintro (h | ⟨whole, fraction, rfl, hwhole, hfraction⟩ | ⟨fraction, rfl, hfraction⟩)
    · exact .inl ⟨t, [], by simp, h, [], [], rfl, .inl rfl, by simp⟩
    · exact .inl ⟨whole, _, rfl, hwhole, ['.'.toUInt8], fraction, rfl, .inr rfl, hfraction⟩
    · exact .inr ⟨['.'.toUInt8], fraction, rfl, rfl, hfraction⟩

theorem isMantissa_iff : isMantissa t ↔ IsMantissa t := by
  rw [isMantissa]
  constructor
  · intro h
    obtain ⟨hwhole, -, ht⟩ := Scan.takeWhile_spec Text.isDigit t
    split at h
    next hdrop =>
      rw [hdrop, List.append_nil] at ht
      rw [← ht] at hwhole
      exact .inl (isDigits_iff.2 ⟨by simpa using h, hwhole⟩)
    next b fraction hdrop =>
      rw [hdrop] at ht
      simp only [Bool.and_eq_true, decide_eq_true_eq, List.all_eq_true, Bool.or_eq_true,
        Bool.not_eq_true', List.isEmpty_eq_false_iff] at h
      obtain ⟨⟨rfl, hfraction⟩, hne⟩ := h
      by_cases hnil : t.takeWhile Text.isDigit = []
      · rw [hnil, List.nil_append] at ht
        refine .inr (.inr ⟨fraction, ht, isDigits_iff.2 ⟨?_, hfraction⟩⟩)
        rintro rfl
        simp [← ht] at hne
      · exact .inr (.inl ⟨_, fraction, ht, isDigits_iff.2 ⟨hnil, hwhole⟩, hfraction⟩)
  · rintro (h | ⟨whole, fraction, rfl, hwhole, hfraction⟩ | ⟨fraction, rfl, hfraction⟩)
    · obtain ⟨hne, hdigits⟩ := isDigits_iff.1 h
      have hdrop : t.dropWhile Text.isDigit = [] := by
        have happend : (t ++ []).dropWhile Text.isDigit = [] :=
          (Scan.takeWhile_append hdigits (by simp)).2
        rwa [List.append_nil] at happend
      rw [hdrop]
      simpa using hne
    · obtain ⟨hne, hdigits⟩ := isDigits_iff.1 hwhole
      have hpoint : whole ++ '.'.toUInt8 :: fraction ≠ ['.'.toUInt8] := by
        intro h
        have hlength := congrArg List.length h
        have hpos := List.length_pos_of_ne_nil hne
        simp only [List.length_append, List.length_cons, List.length_nil] at hlength
        omega
      rw [dropWhile_digits hdigits]
      simp [List.all_eq_true.2 hfraction, hpoint]
    · obtain ⟨hne, hdigits⟩ := isDigits_iff.1 hfraction
      have hdrop : ([] ++ '.'.toUInt8 :: fraction).dropWhile Text.isDigit =
          '.'.toUInt8 :: fraction := dropWhile_digits (by simp)
      rw [List.nil_append] at hdrop
      rw [hdrop]
      simp [List.all_eq_true.2 hdigits, hne]

theorem IsMantissa.ne_nil (h : IsMantissa t) : t ≠ [] := by
  rcases h with h | ⟨whole, fraction, rfl, -, -⟩ | ⟨fraction, rfl, -⟩
  · exact (isDigits_iff.1 h).1
  · simp
  · simp

theorem IsMantissa.mem_mantissaBytes (h : IsMantissa t) : ∀ b ∈ t, b ∈ mantissaBytes := by
  rcases h with h | ⟨whole, fraction, rfl, hwhole, hfraction⟩ | ⟨fraction, rfl, hfraction⟩
  · exact mem_mantissaBytes_of_isDigits h
  · have hbehind : ∀ b ∈ fraction, b ∈ mantissaBytes :=
      fun b hb => mem_mantissaBytes_of_isDigit (hfraction b hb)
    exact List.forall_mem_append.2 ⟨mem_mantissaBytes_of_isDigits hwhole,
      List.forall_mem_cons.2 ⟨point_mem_mantissaBytes, hbehind⟩⟩
  · exact List.forall_mem_cons.2 ⟨point_mem_mantissaBytes, mem_mantissaBytes_of_isDigits hfraction⟩

def IsScientific (t : Text) : Prop :=
  ∃ mantissa mark exponent, t = mantissa ++ mark :: exponent ∧ IsMantissa mantissa ∧
    isExponentMark mark ∧ isInteger exponent

theorem scientific_rmatch_iff :
    (mantissaPattern * (oneOf "eE" * integerPattern)).rmatch t ↔ IsScientific t := by
  simp only [mul_rmatch_iff, mantissa_rmatch_iff, oneOf_rmatch_iff, mem_marks_iff,
    integer_rmatch_iff]
  constructor
  · rintro ⟨mantissa, v, rfl, hmantissa, u, exponent, rfl, ⟨mark, hmark, rfl⟩, hexponent⟩
    exact ⟨mantissa, mark, exponent, rfl, hmantissa, hmark, hexponent⟩
  · rintro ⟨mantissa, mark, exponent, rfl, hmantissa, hmark, hexponent⟩
    exact ⟨mantissa, _, rfl, hmantissa, [mark], exponent, rfl, ⟨mark, hmark, rfl⟩, hexponent⟩

theorem isDouble_iff : isDouble t ↔ IsScientific (Text.unsigned t) := by
  simp only [isDouble]
  constructor
  · intro h
    obtain ⟨-, hmark, hu⟩ := Scan.takeWhile_spec (!isExponentMark ·) (Text.unsigned t)
    split at h
    · cases h
    next mark exponent hdrop =>
      rw [hdrop] at hu hmark
      rw [Bool.and_eq_true] at h
      exact ⟨_, mark, exponent, hu, isMantissa_iff.1 h.1, by simpa using hmark mark rfl, h.2⟩
  · rintro ⟨mantissa, mark, exponent, hu, hmantissa, hmark, hexponent⟩
    have hbefore : ∀ b ∈ mantissa, !isExponentMark b := fun b hb => by
      simp [(mantissaBytes_spec (hmantissa.mem_mantissaBytes b hb)).2.1]
    have hbehind : ∀ b, (mark :: exponent).head? = some b → (!isExponentMark b) = false := by
      rintro b ⟨⟩
      simp [hmark]
    obtain ⟨htake, hdrop⟩ := Scan.takeWhile_append hbefore hbehind
    rw [hu, htake, hdrop]
    simp [isMantissa_iff.2 hmantissa, hexponent]

theorem IsScientific.beginsNumber (h : IsScientific t) : BeginsNumber t := by
  obtain ⟨mantissa, mark, exponent, rfl, hmantissa, -⟩ := h
  cases mantissa with
  | nil => exact absurd rfl hmantissa.ne_nil
  | cons b mantissa =>
    rintro c ⟨⟩
    exact hmantissa.mem_mantissaBytes b List.mem_cons_self

theorem double_rmatch_iff : doublePattern.rmatch t ↔ isDouble t := by
  rw [doublePattern, signed_rmatch_iff, scientific_rmatch_iff, isDouble_iff]
  intro u hu
  exact (scientific_rmatch_iff.1 hu).beginsNumber

end Patterns

section Classes
variable {t : Text}

theorem candidate_of_beginsNumber (h : BeginsNumber (Text.unsigned t)) :
    candidate t = classOfNumber (Text.unsigned t) := by
  have hmark : t.head?.bind classOfMark = none := by
    cases t with
    | nil => rfl
    | cons b rest =>
      by_cases hb : b ∈ ("+-" : Text)
      · have hall : ("+-" : Text).all fun b => classOfMark b = none := by decide
        simpa using List.all_eq_true.1 hall b hb
      · rw [Text.unsigned, if_neg (mt mem_signs_iff.2 hb)] at h
        exact (mantissaBytes_spec (h b rfl)).2.2
  rw [candidate, hmark]
  rfl

theorem candidate_of_isPrefixOf {b : UInt8} {start : Text} {cls : AtomClass}
    (hb : classOfMark b = some cls) (h : (b :: start).isPrefixOf t) : candidate t = cls := by
  obtain ⟨rest, rfl⟩ := List.isPrefixOf_iff_prefix.1 h
  simp [candidate, hb]

theorem any_isExponentMark_eq_false (h : ∀ b ∈ t, b ∈ mantissaBytes) :
    t.any isExponentMark = false := by
  rw [List.any_eq_false]
  intro b hb
  rw [(mantissaBytes_spec (h b hb)).2.1]
  exact Bool.false_ne_true

theorem classOfNumber_of_isDigits (h : isDigits t) : classOfNumber t = .int := by
  have hmark := any_isExponentMark_eq_false (mem_mantissaBytes_of_isDigits h)
  have hpoint : '.'.toUInt8 ∉ t := by
    intro hmem
    exact absurd ((isDigits_iff.1 h).2 _ hmem) (by decide)
  rw [classOfNumber, hmark, if_neg Bool.false_ne_true, if_neg hpoint]

theorem IsFraction.classOfNumber_eq (h : IsFraction t) : classOfNumber t = .decimal := by
  have hmark := any_isExponentMark_eq_false h.mem_mantissaBytes
  have hpoint : '.'.toUInt8 ∈ t := by
    obtain ⟨whole, fraction, rfl, -, -⟩ := h
    simp
  rw [classOfNumber, hmark, if_neg Bool.false_ne_true, if_pos hpoint]

theorem IsScientific.classOfNumber_eq (h : IsScientific t) : classOfNumber t = .double := by
  obtain ⟨mantissa, mark, exponent, rfl, -, hmark, -⟩ := h
  rw [classOfNumber, if_pos]
  rw [List.any_eq_true]
  exact ⟨mark, by simp, hmark⟩

theorem candidate_of_test {r : Rule} (hr : r ∈ rules) (h : r.test t) : candidate t = r.cls := by
  simp only [rules, List.mem_cons, List.not_mem_nil, or_false] at hr
  rcases hr with rfl | rfl | rfl | rfl | rfl | rfl | rfl
  · rcases of_decide_eq_true h with rfl | rfl
    · rfl
    · rfl
  · have hdigits := integer_rmatch_iff.1 h
    rw [candidate_of_beginsNumber (beginsNumber_of_forall (mem_mantissaBytes_of_isDigits hdigits))]
    exact classOfNumber_of_isDigits hdigits
  · have hfraction := isDecimal_iff.1 (decimal_rmatch_iff.1 h)
    rw [candidate_of_beginsNumber (beginsNumber_of_forall hfraction.mem_mantissaBytes)]
    exact hfraction.classOfNumber_eq
  · have hscientific := isDouble_iff.1 (double_rmatch_iff.1 h)
    rw [candidate_of_beginsNumber hscientific.beginsNumber]
    exact hscientific.classOfNumber_eq
  · exact candidate_of_isPrefixOf rfl h
  · exact candidate_of_isPrefixOf rfl h
  · exact candidate_of_isPrefixOf rfl h

/-- An atom passes at most one test, as the rules are for distinct classes. -/
theorem countP_rules_le_one (t : Text) : rules.countP (·.test t) ≤ 1 := by
  have hpassed : ∀ r ∈ rules.filter (·.test t), r.cls = candidate t := by
    intro r hr
    obtain ⟨hmem, htest⟩ := List.mem_filter.1 hr
    exact (candidate_of_test hmem htest).symm
  have hclasses : (rules.map Rule.cls).Nodup := by decide
  have hnodup := hclasses.sublist ((List.filter_sublist (p := (·.test t))).map Rule.cls)
  have hsame : (rules.filter (·.test t)).map Rule.cls =
      List.replicate (rules.filter (·.test t)).length (candidate t) := by
    rw [List.eq_replicate_iff, List.forall_mem_map]
    exact ⟨List.length_map _, hpassed⟩
  rw [hsame, List.nodup_replicate] at hnodup
  rwa [List.countP_eq_length_filter]

theorem firstOf_perm {rs rs' : List Rule} (h : rs.Perm rs') (hone : rs.countP (·.test t) ≤ 1) :
    firstOf rs t = firstOf rs' t := by
  have hfind : rs.find? (·.test t) = rs'.find? (·.test t) := by
    have hpassed := h.filter (·.test t)
    rw [List.countP_eq_length_filter] at hone
    rw [← List.head?_filter, ← List.head?_filter]
    cases hrs : rs.filter (·.test t) with
    | nil =>
      rw [hrs] at hpassed
      rw [← hpassed.nil_eq]
    | cons r rest =>
      rw [hrs, List.length_cons] at hone
      obtain rfl : rest = [] := List.eq_nil_of_length_eq_zero (by omega)
      rw [hrs] at hpassed
      rw [List.perm_singleton.1 hpassed.symm]
  rw [firstOf, firstOf, hfind]

theorem firstOf_cons (r : Rule) (rs : List Rule) (t : Text) :
    firstOf (r :: rs) t = if r.test t then r.outcome t else firstOf rs t := by
  by_cases h : r.test t
  · simp [firstOf, h]
  · simp [firstOf, h]

theorem classify_eq_firstOf (t : Text) : classify t = firstOf rules t := by
  have hvar : ("?" : Text).length = 1 := by decide
  have hblank : ("_:" : Text).length = 2 := by decide
  simp only [classify, rules, firstOf_cons, decide_eq_true_eq, integer_rmatch_iff,
    decimal_rmatch_iff, double_rmatch_iff, Text.dropStart?_eq, hvar, hblank]
  by_cases hcolon : (":" : Text).isPrefixOf t
  · simp [hcolon]
  by_cases hmark : ("?" : Text).isPrefixOf t
  · simp [hcolon, hmark]
  by_cases hlabel : ("_:" : Text).isPrefixOf t
  · simp [hcolon, hmark, hlabel]
  · simp [hcolon, hmark, hlabel, firstOf]

end Classes

end Atom

end GraphQuery
