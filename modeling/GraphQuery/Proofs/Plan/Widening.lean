import GraphQuery.Proofs.Form.Atoms
import GraphQuery.Proofs.Plan.OfPattern
import Mathlib.Algebra.Ring.Int.Defs
import Mathlib.Data.List.Nodup

namespace GraphQuery

namespace Text

theorem ofString_append (s t : String) : ofString (s ++ t) = ofString s ++ ofString t := by
  simp [ofString]

theorem ofString_injective : Function.Injective ofString := by
  intro s t h
  apply String.toByteArray_inj.1
  apply ByteArray.ext
  exact Array.toList_inj.1 h

theorem ofString_digitChar : ∀ d < 10, ofString (.singleton d.digitChar) = [digit d] := by
  decide +kernel

theorem ofNat_eq_toString (n : Nat) : ofNat n = ofString (toString n) := by
  rw [Nat.toString_eq_repr]
  fun_induction ofNat n with
  | case1 n hn => rw [Nat.repr_of_lt hn, ofString_digitChar n hn]
  | case2 n hn ih =>
    have hlast : n % 10 < 10 := Nat.mod_lt n (by decide)
    rw [Nat.repr_of_ge (Nat.not_lt.1 hn), ofString_append, ih, ofString_digitChar _ hlast]

theorem ofInt_eq_toString (i : Int) : ofInt i = ofString (toString i) := by
  rw [Int.toString_eq_repr]
  cases i with
  | ofNat n => exact ofNat_eq_toString n
  | negSucc n =>
    have hrepr : (Int.negSucc n).repr = "-" ++ (n + 1).repr := rfl
    rw [hrepr, ofString_append]
    exact congrArg ('-'.toUInt8 :: ·) (ofNat_eq_toString (n + 1))

end Text

theorem Vocabulary.xsd_injective : Function.Injective xsd := by
  intro s t h
  exact Text.ofString_injective (List.append_cancel_left h)

namespace Widening

/-- An integer belongs to a datatype, where zero belongs to no unsigned one. -/
inductive Admits (v : Int) : String → Prop
  | decimal : Admits v "decimal"
  | integer : Admits v "integer"
  | long : Admits v "long"
  | int : -2 ^ 31 ≤ v → v ≤ 2 ^ 31 - 1 → Admits v "int"
  | short : -2 ^ 15 ≤ v → v ≤ 2 ^ 15 - 1 → Admits v "short"
  | byte : -2 ^ 7 ≤ v → v ≤ 2 ^ 7 - 1 → Admits v "byte"
  | nonPositiveInteger : v ≤ 0 → Admits v "nonPositiveInteger"
  | negativeInteger : v < 0 → Admits v "negativeInteger"
  | nonNegativeInteger : 0 ≤ v → Admits v "nonNegativeInteger"
  | positiveInteger : 0 < v → Admits v "positiveInteger"
  | unsignedLong : 0 < v → v ≤ 2 ^ 64 - 1 → Admits v "unsignedLong"
  | unsignedInt : 0 < v → v ≤ 2 ^ 32 - 1 → Admits v "unsignedInt"
  | unsignedShort : 0 < v → v ≤ 2 ^ 16 - 1 → Admits v "unsignedShort"
  | unsignedByte : 0 < v → v ≤ 2 ^ 8 - 1 → Admits v "unsignedByte"

variable {v : Int} {d : String}

theorem mem_signed : d ∈ signed v ↔
    (-0x80000000 ≤ v ∧ v < 0x80000000) ∧ d = "int" ∨ (-0x8000 ≤ v ∧ v < 0x8000) ∧ d = "short" ∨
      (-0x80 ≤ v ∧ v < 0x80) ∧ d = "byte" := by
  simp only [signed, List.mem_append, List.mem_ite_nil_right, List.mem_singleton, or_assoc]

theorem mem_unsigned : d ∈ unsigned v ↔
    d = "unsignedLong" ∨ v < 0x100000000 ∧ d = "unsignedInt" ∨
      v < 0x10000 ∧ d = "unsignedShort" ∨ v < 0x100 ∧ d = "unsignedByte" := by
  simp only [unsigned, List.mem_append, List.mem_ite_nil_right, List.mem_singleton, or_assoc]

theorem mem_bySign : d ∈ bySign v ↔
    v ≤ 0 ∧ d = "nonPositiveInteger" ∨ v < 0 ∧ d = "negativeInteger" ∨
      0 ≤ v ∧ d = "nonNegativeInteger" ∨ 0 < v ∧ d = "positiveInteger" ∨
        0 < v ∧ d ∈ unsigned v := by
  rcases Int.lt_trichotomy v 0 with hv | rfl | hv
  · have hle := Int.le_of_lt hv
    simp [bySign, hv, hle, Int.not_le.2 hv, Int.not_lt.2 hle]
  · simp [bySign, or_comm]
  · have hle := Int.le_of_lt hv
    simp [bySign, hv, hle, Int.ne_of_gt hv, Int.not_le.2 hv, Int.not_lt.2 hle]

/-- The datatypes of an integer that fits in 64 bits are those to which it belongs. -/
theorem mem_datatypes (hmax : v ≤ 2 ^ 64 - 1) : d ∈ datatypes v ↔ Admits v d := by
  have hfixed : d ∈ ["decimal", "integer", "long"] ↔
      d = "decimal" ∨ d = "integer" ∨ d = "long" := by simp
  rw [datatypes, List.mem_append, List.mem_append, hfixed, mem_signed, mem_bySign, mem_unsigned]
  constructor
  · rintro ((hd | hd) | hd)
    · rcases hd with rfl | rfl | rfl
      · exact .decimal
      · exact .integer
      · exact .long
    · rcases hd with ⟨hv, rfl⟩ | ⟨hv, rfl⟩ | ⟨hv, rfl⟩
      · exact .int hv.1 (by omega)
      · exact .short hv.1 (by omega)
      · exact .byte hv.1 (by omega)
    · rcases hd with ⟨hv, rfl⟩ | ⟨hv, rfl⟩ | ⟨hv, rfl⟩ | ⟨hv, rfl⟩ | ⟨hv, hd⟩
      · exact .nonPositiveInteger hv
      · exact .negativeInteger hv
      · exact .nonNegativeInteger hv
      · exact .positiveInteger hv
      · rcases hd with rfl | ⟨hlt, rfl⟩ | ⟨hlt, rfl⟩ | ⟨hlt, rfl⟩
        · exact .unsignedLong hv hmax
        · exact .unsignedInt hv (by omega)
        · exact .unsignedShort hv (by omega)
        · exact .unsignedByte hv (by omega)
  · intro h
    cases h with
    | decimal | integer | long => simp
    | int hmin hmax | short hmin hmax | byte hmin hmax => simp; omega
    | nonPositiveInteger hv | negativeInteger hv | nonNegativeInteger hv | positiveInteger hv
    | unsignedLong hv => simp [hv]
    | unsignedInt hv hmax | unsignedShort hv hmax | unsignedByte hv hmax => simp; omega

theorem ite_sublist (c : Prop) [Decidable c] (ds : List String) :
    (if c then ds else []).Sublist ds := by
  split
  · exact List.Sublist.refl ds
  · exact List.nil_sublist ds

theorem signed_sublist (v : Int) : (signed v).Sublist ["int", "short", "byte"] :=
  ((ite_sublist _ ["int"]).append (ite_sublist _ ["short"])).append (ite_sublist _ ["byte"])

theorem unsigned_sublist (v : Int) :
    (unsigned v).Sublist ["unsignedLong", "unsignedInt", "unsignedShort", "unsignedByte"] :=
  (((List.Sublist.refl ["unsignedLong"]).append (ite_sublist _ ["unsignedInt"])).append
    (ite_sublist _ ["unsignedShort"])).append (ite_sublist _ ["unsignedByte"])

theorem bySign_sublist (v : Int) : (bySign v).Sublist
    (["nonNegativeInteger", "nonPositiveInteger", "negativeInteger", "positiveInteger"] ++
      ["unsignedLong", "unsignedInt", "unsignedShort", "unsignedByte"]) := by
  rw [bySign]
  split
  · decide
  · split
    · decide
    · exact List.Sublist.append (by decide) (unsigned_sublist v)

theorem nodup_datatypes (v : Int) : (datatypes v).Nodup := by
  have hsublist := ((List.Sublist.refl ["decimal", "integer", "long"]).append
    (signed_sublist v)).append (bySign_sublist v)
  apply List.Nodup.sublist hsublist
  decide

end Widening

theorem Element.widen_eq (v : Int) : widen v =
    ((Widening.datatypes v).map Vocabulary.xsd).map (typed (Text.ofString (toString v))) := by
  rw [widen, Text.ofInt_eq_toString, List.map_map]
  rfl

theorem Plan.ofTriple_of_int {t : TriplePattern} {v : Int} {s p : Element}
    (ho : t.object = .int v) (hs : Element.ofExpression t.subject = .ok s)
    (hp : Element.ofExpression t.predicate = .ok p) :
    ofTriple t = .ok (.disj ((Element.widen v).flatMap fun object =>
      Constraint.alternatives { subject := s, predicate := p, object } t.path)) := by
  have hany : ofTriple t = .ok (any ((Element.widen v).flatMap fun object =>
      withPath t.path { subject := s, predicate := p, object })) := by
    rw [ofTriple, ho, hs, hp]
    rfl
  rw [hany]
  simp only [withPath_eq_alternatives]
  cases t.path <;> rfl

/-- An integer is widened to one literal for every datatype to which it belongs, each written in
decimal. A triple about it is one disjunction of their constraints, each with its closure directly
behind it if the predicate is repeated. -/
theorem Element.widen_lists_datatypes (v : Int64) :
    ∃ ds : List Text,
      widen v.toInt = ds.map (typed (Text.ofString (toString v.toInt))) ∧
      Text.toInt (Text.ofString (toString v.toInt)) = v.toInt ∧
      ds.Nodup ∧
      (∀ d, d ∈ ds ↔ ∃ name, Widening.Admits v.toInt name ∧ d = Vocabulary.xsd name) ∧
      ∀ (t : TriplePattern) (s p : Element), t.object = .int v.toInt →
        ofExpression t.subject = .ok s → ofExpression t.predicate = .ok p →
          ∃ ops, ops = ds.flatMap (fun d => Constraint.alternatives
              ⟨s, p, typed (Text.ofString (toString v.toInt)) d, none⟩ t.path) ∧
            Plan.ofTriple t = .ok (.disj ops) ∧
            (Pattern.triple t).toPlan = Mapped.modify t.modifiers ⟨.disj ops, []⟩ := by
  have hwiden := widen_eq v.toInt
  refine ⟨(Widening.datatypes v.toInt).map Vocabulary.xsd, hwiden, ?_, ?_, ?_, ?_⟩
  · rw [← Text.ofInt_eq_toString, Text.toInt_ofInt]
  · exact (Widening.nodup_datatypes v.toInt).map Vocabulary.xsd_injective
  · intro d
    have hmax : v.toInt ≤ 2 ^ 64 - 1 := by
      have hlt := v.toInt_lt
      omega
    simp only [List.mem_map, Widening.mem_datatypes hmax, eq_comm]
  · intro t s p ho hs hp
    have hplan := Plan.ofTriple_of_int ho hs hp
    rw [hwiden, List.flatMap_map] at hplan
    refine ⟨_, rfl, hplan, ?_⟩
    rw [Pattern.toPlan, TriplePattern.toPlan, hplan]

/-- The least integer of 64 bits, under a predicate that is repeated at least once. -/
def leastTriple : TriplePattern where
  subject := .var "s"
  predicate := .iri "p"
  object := .int Int64.minValue.toInt
  path := .plus

theorem Element.widen_lists_datatypes_leastTriple :
    ∃ (ds : List Text) (ops : List Plan),
      widen Int64.minValue.toInt = ds.map (typed "-9223372036854775808") ∧ ds.Nodup ∧
      Vocabulary.xsd "negativeInteger" ∈ ds ∧ ds.length = 5 ∧
      Plan.ofTriple leastTriple = .ok (.disj ops) ∧ ops.length = 10 := by
  obtain ⟨ds, hwiden, -, hnodup, hmem, htriple⟩ := widen_lists_datatypes Int64.minValue
  obtain ⟨ops, hops, hplan, -⟩ := htriple leastTriple (.var "s") (.iri "p") rfl rfl rfl
  have hlength : ds.length = 5 := by
    have hlengths := congrArg List.length hwiden
    rw [List.length_map] at hlengths
    exact hlengths.symm
  refine ⟨ds, ops, hwiden, hnodup, ?_, hlength, hplan, ?_⟩
  · exact (hmem _).2 ⟨_, .negativeInteger (by decide), rfl⟩
  · have htwo (c : Constraint) : (c.alternatives leastTriple.path).length = 2 := rfl
    simp [hops, List.length_flatMap, htwo, hlength]

end GraphQuery
