import GraphQuery.Text.Quoted

namespace GraphQuery.Text

/-- What decoding can give: an ASCII byte, a stray byte, or the bytes of a character beyond ASCII.
A number that is no scalar value would decode to the null character. -/
inductive Piece.Decoded : Piece → Prop
  | ascii (b : UInt8) (c : Char) (hc : c.toNat = b.toNat) : Decoded ⟨[b], some c⟩
  | stray (b : UInt8) : Decoded ⟨[b], none⟩
  | wide (bytes : Text) (c : Char) (hbytes : ∀ b ∈ bytes, 0x80 ≤ b)
      (hc : c.toNat = 0 ∨ 0x80 ≤ c.toNat) : Decoded ⟨bytes, some c⟩

theorem Piece.Decoded.bytes_eq {p : Piece} {c : Char} {b : UInt8} (h : p.Decoded)
    (hp : p.char? = some c) (hc : c.toNat = b.toNat) (hb : 0 < b ∧ b < 0x80) : p.bytes = [b] := by
  cases h with
  | ascii d c' hd =>
    cases hp
    rw [UInt8.toNat_inj.1 (hd.symm.trans hc)]
  | stray => cases hp
  | wide bytes c' _ hd =>
    cases hp
    simp only [UInt8.lt_iff_toNat_lt, UInt8.reduceToNat] at hb
    omega

theorem Piece.Decoded.toNat_eq {p : Piece} {c : Char} {b : UInt8} (h : p.Decoded)
    (hp : p.char? = some c) (hm : b ∈ p.bytes) (hb : b < 0x80) : c.toNat = b.toNat := by
  cases h with
  | ascii d c' hd =>
    cases hp
    rw [List.mem_singleton.1 hm, hd]
  | stray => cases hp
  | wide bytes c' hbytes _ => exact absurd hb (UInt8.not_lt.2 (hbytes b hm))

theorem toNat_charOfNat (n : Nat) : (Char.ofNat n).toNat = if n.isValidChar then n else 0 := by
  by_cases h : n.isValidChar
  · rw [if_pos h, Char.ofNat, dif_pos h]
    rfl
  · rw [if_neg h, Char.ofNat, dif_neg h]
    rfl

namespace Utf8

/-- Where a first byte leaves no bits to the character, the bound of the next byte makes up for
it. -/
theorem lead?_spec {b low high : UInt8} {n : Nat} (h : lead? b = some (n, low, high)) :
    0x80 ≤ low ∧ high ≤ 0xBF ∧ (n = 1 ∧ 2 ≤ leadBits n b ∨
      n = 2 ∧ (1 ≤ leadBits n b ∨ 0xA0 ≤ low) ∨
      n = 3 ∧ (1 ≤ leadBits n b ∨ 0x90 ≤ low)) := by
  simp only [lead?, UInt8.lt_iff_toNat_lt, ← UInt8.toNat_inj] at h
  repeat' split at h
  all_goals grind [leadBits]

theorem tail?_spec {b : UInt8} {rest more : Text} (h : tail? b rest = some more) :
    more = rest.take more.length ∧ (∀ c ∈ more, 0x80 ≤ c) ∧
      0x80 ≤ more.foldl (fun n c => 64 * n + c.toNat % 64) (leadBits more.length b) := by
  rw [tail?] at h
  split at h
  · cases h
  next n low high hl =>
    split at h
    · cases h
    next c cs ht =>
      split at h
      next hc =>
        cases h
        simp only [Bool.and_eq_true, decide_eq_true_eq, List.all_eq_true] at hc
        obtain ⟨⟨⟨hlow, hhigh⟩, hcs⟩, hlen⟩ := hc
        obtain ⟨hl80, hhBF, hn⟩ := lead?_spec hl
        rw [List.length_cons, hlen]
        refine ⟨ht.symm, ?_, ?_⟩
        · intro d hd
          rcases List.mem_cons.1 hd with rfl | hd
          · exact UInt8.le_trans hl80 hlow
          · exact (hcs d hd).1
        · generalize leadBits n b = m at hn
          simp only [UInt8.le_iff_toNat_le, UInt8.reduceToNat] at hlow hhigh hl80 hhBF hn
          rcases hn with ⟨rfl, hb⟩ | ⟨rfl, hb⟩ | ⟨rfl, hb⟩
          · obtain rfl : cs = [] := List.eq_nil_of_length_eq_zero (by omega)
            simp only [List.foldl_cons, List.foldl_nil]
            omega
          · obtain ⟨d, rfl⟩ := List.length_eq_one_iff.1 (show cs.length = 1 by omega)
            simp only [List.foldl_cons, List.foldl_nil]
            omega
          · obtain ⟨d, e, rfl⟩ : ∃ d e, cs = [d, e] := by
              match cs, hlen with
              | [d, e], _ => exact ⟨d, e, rfl⟩
            simp only [List.foldl_cons, List.foldl_nil]
            omega
      · cases h

theorem decoded_first (b : UInt8) (rest : Text) : (first b rest).Decoded := by
  rw [first]
  split
  next hb =>
    refine .ascii b _ ?_
    simp only [UInt8.lt_iff_toNat_lt, UInt8.reduceToNat] at hb
    rw [toNat_charOfNat, if_pos (.inl (by omega))]
  next hb =>
    split
    · exact .stray b
    next more hm =>
      obtain ⟨-, hmore, hn⟩ := tail?_spec hm
      refine .wide _ _ ?_ ?_
      · intro c hc
        rcases List.mem_cons.1 hc with rfl | hc
        · exact UInt8.not_lt.1 hb
        · exact hmore c hc
      · rw [toNat_charOfNat]
        split
        · exact .inr hn
        · exact .inl rfl

theorem bytes_first (b : UInt8) (rest : Text) :
    (first b rest).bytes = b :: rest.take ((first b rest).bytes.length - 1) := by
  rw [first]
  split
  · rfl
  · split
    · rfl
    next more hm =>
      obtain ⟨hmore, -, -⟩ := tail?_spec hm
      simpa using hmore

theorem exists_eq_first {skip : Nat} {t : Text} {p : Piece} (h : p ∈ piecesAfter skip t) :
    ∃ b rest, p = first b rest := by
  fun_induction piecesAfter skip t with
  | case1 => cases h
  | case2 skip b rest ih => exact ih h
  | case3 b rest ih =>
    rcases List.mem_cons.1 h with rfl | h
    · exact ⟨b, rest, rfl⟩
    · exact ih h

/-- An ASCII byte is no part of a longer character, and it is never stray. -/
theorem first_eq_of_mem_bytes {b c : UInt8} {rest : Text} (hc : c ∈ (first b rest).bytes)
    (hascii : c < 0x80) : first b rest = ⟨[c], some (Char.ofNat c.toNat)⟩ := by
  rw [first] at hc ⊢
  split at hc
  next hb =>
    obtain rfl := List.mem_singleton.1 hc
    rw [if_pos hb]
  next hb =>
    have hhigh : ¬ c < 0x80 := by
      split at hc
      · rwa [List.mem_singleton.1 hc]
      next more hm =>
        obtain ⟨-, hmore, -⟩ := tail?_spec hm
        rcases List.mem_cons.1 hc with rfl | hc
        · exact hb
        · exact UInt8.not_lt.2 (hmore c hc)
    exact absurd hascii hhigh

theorem flatMap_bytes_piecesAfter (skip : Nat) (t : Text) :
    (piecesAfter skip t).flatMap Piece.bytes = t.drop skip := by
  fun_induction piecesAfter skip t with
  | case1 => simp
  | case2 skip b rest ih => exact ih
  | case3 b rest ih =>
    have hb := bytes_first b rest
    rw [List.flatMap_cons, ih]
    generalize (first b rest).bytes.length - 1 = k at hb ⊢
    simp [hb]

end Utf8

theorem decoded_of_mem_pieces {t : Text} {p : Piece} (h : p ∈ pieces t) : p.Decoded := by
  obtain ⟨b, rest, rfl⟩ := Utf8.exists_eq_first h
  exact Utf8.decoded_first b rest

theorem flatMap_bytes_pieces (t : Text) : (pieces t).flatMap Piece.bytes = t :=
  Utf8.flatMap_bytes_piecesAfter 0 t

theorem mem_pieces_of_ascii {t : Text} {b : UInt8} (hb : b ∈ t) (hascii : b < 0x80) :
    ⟨[b], some (Char.ofNat b.toNat)⟩ ∈ pieces t := by
  rw [← flatMap_bytes_pieces t] at hb
  obtain ⟨p, hp, hbytes⟩ := List.mem_flatMap.1 hb
  obtain ⟨c, rest, rfl⟩ := Utf8.exists_eq_first hp
  rwa [Utf8.first_eq_of_mem_bytes hbytes hascii] at hp

end GraphQuery.Text
