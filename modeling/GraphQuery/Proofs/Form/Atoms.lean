import GraphQuery.Form.Atom
import GraphQuery.Proofs.Form.Lexemes

namespace GraphQuery

namespace Text

theorem digit_spec : ∀ d < 10, (digit d - '0'.toUInt8).toNat = d ∧ isDigit (digit d) ∧
    Scan.isAtomByte (digit d) ∧ digit d ∉ ['+'.toUInt8, '-'.toUInt8, '<'.toUInt8] := by
  decide

theorem ofNat_ne_nil (n : Nat) : ofNat n ≠ [] := by
  rw [ofNat]
  split <;> simp

theorem exists_digit_of_mem_ofNat {n : Nat} {b : UInt8} (hb : b ∈ ofNat n) :
    ∃ d < 10, b = digit d := by
  fun_induction ofNat n with
  | case1 n hn => exact ⟨n, hn, List.mem_singleton.1 hb⟩
  | case2 n hn ih =>
    rcases List.mem_append.1 hb with hb | hb
    · exact ih hb
    · exact ⟨n % 10, Nat.mod_lt n (by decide), List.mem_singleton.1 hb⟩

theorem toNat_ofNat (n : Nat) : toNat (ofNat n) = n := by
  fun_induction ofNat n with
  | case1 n hn => simpa [toNat] using (digit_spec n hn).1
  | case2 n hn ih =>
    have hd := (digit_spec (n % 10) (Nat.mod_lt n (by decide))).1
    rw [toNat, List.foldl_append]
    rw [toNat] at ih
    simp only [ih, List.foldl_cons, List.foldl_nil, hd]
    omega

theorem unsigned_ofNat (n : Nat) : unsigned (ofNat n) = ofNat n := by
  cases h : ofNat n with
  | nil => rfl
  | cons b rest =>
    obtain ⟨d, hd, rfl⟩ := exists_digit_of_mem_ofNat (n := n) (b := b) (by simp [h])
    have hsign := (digit_spec d hd).2.2.2
    simp only [List.mem_cons, not_or] at hsign
    rw [unsigned, if_neg (by simp [hsign.1, hsign.2.1])]

theorem unsigned_ofInt (i : Int) : unsigned (ofInt i) = ofNat i.natAbs := by
  cases i with
  | ofNat n => exact unsigned_ofNat n
  | negSucc n => rfl

theorem toInt_ofInt (i : Int) : toInt (ofInt i) = i := by
  rw [toInt, unsigned_ofInt, toNat_ofNat]
  cases i with
  | ofNat n =>
    rw [if_neg]
    · rfl
    · intro hhead
      obtain ⟨d, hd, heq⟩ := exists_digit_of_mem_ofNat (List.mem_of_mem_head? hhead)
      have hsign := (digit_spec d hd).2.2.2
      rw [← heq] at hsign
      simp at hsign
  | negSucc n =>
    have hhead : (ofInt (.negSucc n)).head? = some '-'.toUInt8 := rfl
    rw [if_pos hhead]
    rfl

theorem dropStart?_eq_some {start t rest : Text} (h : dropStart? start t = some rest) :
    t = start ++ rest := by
  fun_induction dropStart? start t with
  | case1 t => cases h; rfl
  | case2 => cases h
  | case3 a start t ih => rw [ih h]; rfl
  | case4 => cases h

end Text

theorem Leaf.isLegible_atom {value : Text} (hne : value ≠ [])
    (hvalue : ∀ b ∈ value, Scan.isAtomByte b) (hhead : value.head? ≠ some '<'.toUInt8) :
    (Leaf.atom value).IsLegible := by
  refine ⟨hne, hvalue, ?_⟩
  rintro rest rfl
  exact absurd rfl hhead

def Leaf.isWord (value : Text) : Bool :=
  !value.isEmpty && value.all Scan.isAtomByte && value.head? ≠ some '<'.toUInt8

theorem Leaf.isLegible_of_isWord {value : Text} (h : Leaf.isWord value) :
    (Leaf.atom value).IsLegible := by
  simp only [isWord, Bool.and_eq_true, Bool.not_eq_true', List.isEmpty_eq_false_iff,
    List.all_eq_true, decide_eq_true_eq] at h
  exact Leaf.isLegible_atom h.1.1 h.1.2 h.2

namespace Atom

theorem isInteger_ofInt (i : Int) : isInteger (Text.ofInt i) := by
  rw [isInteger, Text.unsigned_ofInt, isDigits, Bool.and_eq_true]
  refine ⟨by simpa using Text.ofNat_ne_nil _, ?_⟩
  rw [List.all_eq_true]
  intro b hb
  obtain ⟨d, hd, rfl⟩ := Text.exists_digit_of_mem_ofNat hb
  exact (Text.digit_spec d hd).2.1

theorem classify_ofInt (i : Int) : classify (Text.ofInt i) = .ok .int := by
  have h := isInteger_ofInt i
  rw [classify, if_neg, if_pos h]
  rintro (ht | ht) <;> rw [ht] at h <;> exact absurd h (by decide)

theorem isLegible_ofInt (i : Int) : (Leaf.atom (Text.ofInt i)).IsLegible := by
  have hnat (n : Nat) : ∀ b ∈ Text.ofNat n, Scan.isAtomByte b ∧ b ≠ '<'.toUInt8 := by
    intro b hb
    obtain ⟨d, hd, rfl⟩ := Text.exists_digit_of_mem_ofNat hb
    obtain ⟨-, -, hatom, hne⟩ := Text.digit_spec d hd
    exact ⟨hatom, fun heq => hne (by rw [heq]; decide)⟩
  cases i with
  | ofNat n =>
    refine Leaf.isLegible_atom (Text.ofNat_ne_nil n) (fun b hb => (hnat n b hb).1) ?_
    intro hhead
    exact (hnat n _ (List.mem_of_mem_head? hhead)).2 rfl
  | negSucc n =>
    have hhead : some '-'.toUInt8 ≠ some '<'.toUInt8 := by decide
    refine Leaf.isLegible_atom (by simp [Text.ofInt]) ?_ hhead
    intro b hb
    rcases List.mem_cons.1 hb with rfl | hb
    · decide
    · exact (hnat (n + 1) b hb).1

theorem eq_of_classify_var {value : Text} (h : classify value = .ok .var) :
    value = "?" ++ value.drop 1 := by
  have hstart : ∃ name, Text.dropStart? "?" value = some name := by
    rw [classify] at h
    repeat' split at h
    case h_1.isTrue name hname _ => exact ⟨name, hname⟩
    all_goals cases h
  obtain ⟨name, hname⟩ := hstart
  rw [Text.dropStart?_eq_some hname]
  rfl

/-- An atom that belongs to a class: it is no lone colon, and a name stands behind the mark of a
variable or of a blank node. -/
structure IsAdmitted (t : Text) : Prop where
  colon : t ≠ ":"
  var : ∀ name, t = "?" ++ name → isName name
  blank : ∀ name, t = "_:" ++ name → isName name

theorem not_literal_of_mark {b : UInt8} (hb : b = '?'.toUInt8 ∨ b = '_'.toUInt8) (rest : Text) :
    ¬ (b :: rest = "true" ∨ b :: rest = "false") ∧ isInteger (b :: rest) = false ∧
      isDecimal (b :: rest) = false ∧ isDouble (b :: rest) = false := by
  rcases hb with rfl | rfl
  · refine ⟨?_, rfl, rfl, ?_⟩
    · rintro (h | h) <;> cases h
    · rw [isDouble]
      split <;> rfl
  · refine ⟨?_, rfl, rfl, ?_⟩
    · rintro (h | h) <;> cases h
    · rw [isDouble]
      split <;> rfl

theorem classify_var (name : Text) :
    classify ("?" ++ name) = if isName name then .ok .var else .error .var := by
  obtain ⟨hbool, hint, hdecimal, hdouble⟩ := not_literal_of_mark (.inl rfl) name
  change classify ('?'.toUInt8 :: name) = _
  rw [classify, if_neg hbool, hint, hdecimal, hdouble]
  rfl

theorem classify_blank (name : Text) :
    classify ("_:" ++ name) = if isName name then .ok .blank else .error .blank := by
  obtain ⟨hbool, hint, hdecimal, hdouble⟩ := not_literal_of_mark (.inr rfl) (':'.toUInt8 :: name)
  change classify ('_'.toUInt8 :: ':'.toUInt8 :: name) = _
  rw [classify, if_neg hbool, hint, hdecimal, hdouble]
  rfl

theorem IsAdmitted.exists_classify {t : Text} (h : IsAdmitted t) : ∃ cls, classify t = .ok cls := by
  rw [classify]
  split
  · exact ⟨_, rfl⟩
  split
  · exact ⟨_, rfl⟩
  split
  · exact ⟨_, rfl⟩
  split
  · exact ⟨_, rfl⟩
  split
  next hcolon =>
    split
    next hlength =>
      obtain ⟨rest, hrest⟩ := Option.isSome_iff_exists.1 hcolon
      have ht := Text.dropStart?_eq_some hrest
      rw [ht] at hlength
      have hnil : rest = [] := List.eq_nil_of_length_eq_zero (Nat.succ.inj hlength)
      exact absurd (by rw [ht, hnil]; rfl) h.colon
    · exact ⟨_, rfl⟩
  split
  next name hname =>
    rw [if_pos (h.var name (Text.dropStart?_eq_some hname))]
    exact ⟨_, rfl⟩
  split
  next name hname =>
    rw [if_pos (h.blank name (Text.dropStart?_eq_some hname))]
    exact ⟨_, rfl⟩
  · exact ⟨_, rfl⟩

theorem isAdmitted_of_classify {t : Text} {cls : AtomClass} (h : classify t = .ok cls) :
    IsAdmitted t := by
  refine ⟨?_, ?_, ?_⟩
  · rintro rfl
    cases h
  · rintro name rfl
    rw [classify_var] at h
    by_cases hname : isName name
    · exact hname
    · rw [if_neg hname] at h
      cases h
  · rintro name rfl
    rw [classify_blank] at h
    by_cases hname : isName name
    · exact hname
    · rw [if_neg hname] at h
      cases h

theorem isName_of_classify_var {value : Text} (h : classify value = .ok .var) :
    isName (value.drop 1) :=
  (isAdmitted_of_classify h).var _ (eq_of_classify_var h)

theorem eq_of_classify_blank {value : Text} (h : classify value = .ok .blank) :
    ∃ name, value = "_:" ++ name := by
  rw [classify] at h
  repeat' split at h
  all_goals cases h
  next name hname _ => exact ⟨name, Text.dropStart?_eq_some hname⟩

end Atom

end GraphQuery
