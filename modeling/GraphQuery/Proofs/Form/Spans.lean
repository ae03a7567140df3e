import GraphQuery.Proofs.Form.Scanning
import GraphQuery.Proofs.Success
import Mathlib.Data.List.Induction

namespace GraphQuery

/-- The place behind the first `n` bytes: its line counts the newlines among them, its column the
bytes since the last of these. -/
def Text.placeAt (s : Text) (n : Nat) : Position :=
  ⟨1 + (s.take n).count '\n'.toUInt8,
    1 + ((s.take n).reverse.takeWhile (· ≠ '\n'.toUInt8)).length⟩

structure Span where
  first : Nat
  stop : Nat

namespace Span

def bytes (r : Span) (s : Text) : Text := (s.take r.stop).drop r.first

def Holds (r : Span) (i : Nat) : Prop := r.first ≤ i ∧ i < r.stop

def Apart (r r' : Span) : Prop := r.stop ≤ r'.first ∨ r'.stop ≤ r.first

/-- A comment runs from a semicolon to the next newline or to the end. -/
def IsComment (r : Span) (s : Text) : Prop :=
  (∃ words, r.bytes s = ';'.toUInt8 :: words ∧ '\n'.toUInt8 ∉ words) ∧
    (r.stop = s.length ∨ s[r.stop]? = some '\n'.toUInt8)

end Span

/-- A byte that separates tokens: a comma, a blank, or part of a comment that is where `P` says. -/
def Text.Separates (s : Text) (P : Span → Prop) (i : Nat) (b : UInt8) : Prop :=
  b = ','.toUInt8 ∨ Text.isBlankByte b ∨ ∃ c : Span, c.IsComment s ∧ c.Holds i ∧ P c

/-- A token is written in a range, and its place is where the range begins. -/
structure Token.StandsIn (s : Text) (token : Token) (r : Span) : Prop where
  nonempty : r.first < r.stop
  within : r.stop ≤ s.length
  word : Scan.IsWord (s.drop r.stop) token.lexeme (r.bytes s)
  place : token.pos = s.placeAt r.first

/-- Tokens behind the first `n` bytes of a text, and the ranges they stand in. -/
structure Tiles (s : Text) (n : Nat) (ts : List Token) (spans : List Span) : Prop where
  stand : List.Forall₂ (Token.StandsIn s) ts spans
  behind : ∀ r ∈ spans, n ≤ r.first
  ordered : spans.Pairwise fun r r' => r.stop ≤ r'.first
  between : ∀ i b, n ≤ i → s[i]? = some b → (∀ r ∈ spans, ¬ r.Holds i) →
    s.Separates (fun c => n ≤ c.first ∧ ∀ r ∈ spans, c.Apart r) i b

theorem Text.Separates.mono {s : Text} {P Q : Span → Prop} {i : Nat} {b : UInt8}
    (h : s.Separates P i b) (hPQ : ∀ c, P c → Q c) : s.Separates Q i b := by
  rcases h with h | h | ⟨c, hc, hholds, hP⟩
  · exact .inl h
  · exact .inr (.inl h)
  · exact .inr (.inr ⟨c, hc, hholds, hPQ c hP⟩)

theorem Position.start_after (t : Text) : Position.start.after t =
    ⟨1 + t.count '\n'.toUInt8, 1 + (t.reverse.takeWhile (· ≠ '\n'.toUInt8)).length⟩ := by
  induction t using List.reverseRecOn with
  | nil => rfl
  | append_singleton t b ih =>
    rw [after_append, ih]
    by_cases hb : b = '\n'.toUInt8
    · simp [next, hb, Nat.add_assoc]
    · simp [next, hb, Nat.add_comm]

theorem Text.placeAt_append (t u : Text) : (t ++ u).placeAt t.length = Position.start.after t := by
  rw [Position.start_after]
  simp [placeAt]

theorem Span.bytes_append (front word rest : Text) :
    Span.bytes ⟨front.length, (front ++ word).length⟩ (front ++ word ++ rest) = word := by
  rw [bytes, List.take_left, List.drop_left]

namespace Scan

theorem isComment_append {front words more : Text} (hwords : '\n'.toUInt8 ∉ words)
    (hend : ∀ b, more.head? = some b → b = '\n'.toUInt8) :
    Span.IsComment ⟨front.length, (front ++ ';'.toUInt8 :: words).length⟩
      (front ++ ';'.toUInt8 :: words ++ more) := by
  refine ⟨⟨words, Span.bytes_append _ _ _, hwords⟩, ?_⟩
  cases more with
  | nil => exact .inl (by simp)
  | cons b more => exact .inr (by simpa using hend b rfl)

theorem IsGap.separates {rest gap : Text} (h : IsGap rest gap) {s front : Text}
    (hs : s = front ++ gap ++ rest) {i : Nat} {b : UInt8} (hfront : front.length ≤ i)
    (hi : i < (front ++ gap).length) (hb : s[i]? = some b) :
    s.Separates (fun c => front.length ≤ c.first ∧ c.stop ≤ (front ++ gap).length) i b := by
  induction h generalizing front with
  | nil =>
    rw [List.append_nil] at hi
    omega
  | @blank a gap ha _ ih =>
    by_cases hfirst : i = front.length
    · obtain rfl : a = b := by simpa [hs, hfirst] using hb
      rcases ha with ha | ha
      · exact .inl ha
      · exact .inr (.inl ha)
    · have hgap : front ++ a :: gap = front ++ [a] ++ gap := by simp
      have hlength : (front ++ [a]).length = front.length + 1 := by simp
      rw [hgap] at hs hi ⊢
      refine (ih hs (by omega) hi).mono ?_
      rintro c ⟨hfirst, hstop⟩
      exact ⟨by omega, hstop⟩
  | @comment words gap hwords hend _ ih =>
    have hgap : front ++ ';'.toUInt8 :: (words ++ gap) = front ++ ';'.toUInt8 :: words ++ gap := by
      simp
    have hlength : front.length ≤ (front ++ ';'.toUInt8 :: words).length := by simp
    rw [hgap] at hs hi ⊢
    by_cases hcomment : i < (front ++ ';'.toUInt8 :: words).length
    · refine .inr (.inr ⟨⟨front.length, (front ++ ';'.toUInt8 :: words).length⟩, ?_,
        ⟨hfront, hcomment⟩, Nat.le_refl _, (List.prefix_append _ _).length_le⟩)
      rw [hs, List.append_assoc]
      exact isComment_append hwords hend
    · refine (ih hs (by omega) hi).mono ?_
      rintro c ⟨hfirst, hstop⟩
      exact ⟨by omega, hstop⟩

end Scan

namespace Tiles
open Scan

theorem nil {s front gap : Text} (hs : s = front ++ gap) (hgap : IsGap [] gap) :
    Tiles s front.length [] [] := by
  refine ⟨.nil, nofun, .nil, ?_⟩
  intro i b hi hb _
  have hlength : i < (front ++ gap).length := by
    rw [← hs]
    exact (List.getElem?_eq_some_iff.1 hb).1
  refine (hgap.separates (by simpa using hs) hi hlength hb).mono ?_
  rintro c ⟨hfirst, -⟩
  exact ⟨hfirst, nofun⟩

theorem cons {s front gap word rest : Text} {l : Lexeme} {ts : List Token} {spans : List Span}
    (h : Tiles s (front ++ gap ++ word).length ts spans) (hs : s = front ++ gap ++ word ++ rest)
    (hgap : IsGap (word ++ rest) gap) (hword : IsWord rest l word) :
    Tiles s front.length (⟨l, Position.start.after (front ++ gap)⟩ :: ts)
      (⟨(front ++ gap).length, (front ++ gap ++ word).length⟩ :: spans) := by
  have hgapped : front.length ≤ (front ++ gap).length := by simp
  have hnonempty : (front ++ gap).length < (front ++ gap ++ word).length := by
    obtain ⟨b, more, rfl⟩ := hword.exists_cons
    simp
  have hstands : Token.StandsIn s ⟨l, Position.start.after (front ++ gap)⟩
      ⟨(front ++ gap).length, (front ++ gap ++ word).length⟩ := by
    refine ⟨hnonempty, ?_, ?_, ?_⟩
    · rw [hs]
      exact (List.prefix_append _ _).length_le
    · rw [hs, List.drop_left, Span.bytes_append]
      exact hword
    · rw [hs, List.append_assoc, Text.placeAt_append]
  refine ⟨.cons hstands h.stand, ?_, .cons h.behind h.ordered, ?_⟩
  · intro r hr
    rcases List.mem_cons.1 hr with rfl | hr
    · exact hgapped
    · have := h.behind r hr
      omega
  · intro i b hi hb hout
    -- a byte outside of the ranges is in the gap in front of the word, or it is behind the word
    by_cases hin : i < (front ++ gap).length
    · refine (hgap.separates (by simpa using hs) hi hin hb).mono ?_
      rintro c ⟨hfirst, hstop⟩
      refine ⟨hfirst, List.forall_mem_cons.2 ⟨.inl hstop, ?_⟩⟩
      intro r hr
      have := h.behind r hr
      exact .inl (by omega)
    · obtain ⟨hword, hothers⟩ := List.forall_mem_cons.1 hout
      have hbehind : (front ++ gap ++ word).length ≤ i :=
        Nat.not_lt.1 fun hlt => hword ⟨Nat.not_lt.1 hin, hlt⟩
      refine (h.between i b hbehind hb hothers).mono ?_
      rintro c ⟨hfirst, hapart⟩
      exact ⟨by omega, List.forall_mem_cons.2 ⟨.inr hfirst, hapart⟩⟩

end Tiles

theorem Scan.Scanned.tiles {pos stop : Position} {t : Text} {ts : List Token}
    (h : Scanned pos t ts stop) {s front : Text} (hs : s = front ++ t)
    (hpos : pos = Position.start.after front) : ∃ spans, Tiles s front.length ts spans := by
  induction h generalizing front with
  | done hgap => exact ⟨[], .nil hs hgap⟩
  | @token pos stop gap word rest l ts hgap hword _ ih =>
    have hs' : s = front ++ gap ++ word ++ rest := by simp [hs]
    obtain ⟨spans, htiles⟩ := ih hs' (by simp [hpos])
    have hcons := htiles.cons hs' hgap hword
    rw [Position.after_append, ← hpos] at hcons
    exact ⟨_, hcons⟩

/-- The tokens of a text stand in ranges of its bytes that are not empty and follow one another,
and every byte outside of them is a blank, a comma or part of a comment. The place of a token is
that of the first byte of its range, and the scan ends at the place of the end. -/
theorem scan_tiles {s : Text} {ts : List Token} {stop : Position} (h : scan s = .ok (ts, stop)) :
    (∃ spans, Tiles s 0 ts spans) ∧ stop = s.placeAt s.length := by
  have hscanned := Scan.tokens_eq_ok.1 h
  have htiles : ∃ spans, Tiles s ([] : Text).length ts spans := hscanned.tiles rfl rfl
  refine ⟨htiles, ?_⟩
  rw [hscanned.stop_eq, ← Text.placeAt_append s [], List.append_nil]

def layoutSample : Text := " (a\t\"x\ny\"@en,;c (\n <b>"

theorem scan_tiles_layoutSample :
    ∃ ts, scan layoutSample = .ok (ts, ⟨3, 5⟩) ∧
      ts.map Token.pos = [⟨1, 2⟩, ⟨1, 3⟩, ⟨1, 5⟩, ⟨3, 2⟩] ∧
      (∃ spans, Tiles layoutSample 0 ts spans) ∧
      layoutSample.placeAt layoutSample.length = ⟨3, 5⟩ := by
  obtain ⟨⟨ts, stop⟩, hscan, hpos⟩ := exists_ok_of_any (x := scan layoutSample)
    (p := fun r => r.1.map Token.pos = [⟨1, 2⟩, ⟨1, 3⟩, ⟨1, 5⟩, ⟨3, 2⟩] ∧ r.2 = ⟨3, 5⟩)
    (by decide +kernel)
  obtain ⟨hpos, rfl⟩ := of_decide_eq_true hpos
  obtain ⟨htiles, hstop⟩ := scan_tiles hscan
  exact ⟨ts, hscan, hpos, htiles, hstop.symm⟩

end GraphQuery
