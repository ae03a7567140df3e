import GraphQuery.Proofs.Command.Acceptance
import GraphQuery.Proofs.Plan.Renamed

namespace GraphQuery

def Command.placeholders (c : Command) : List Text :=
  (c.selection.filter (·.value.isSome)).map (·.var)

def Command.variables (c : Command) : List Text :=
  (c.selection.filter (·.value.isNone)).map (·.var)

theorem Text.ofNat_injective : Function.Injective Text.ofNat := by
  intro m n h
  have hnat := congrArg Text.toNat h
  rwa [toNat_ofNat, toNat_ofNat] at hnat

namespace Compile

theorem placeholder_injective : Function.Injective placeholder := by
  intro m n h
  exact Text.ofNat_injective (List.append_cancel_left h)

/-- The positions are those of the expressions, with the constants numbered from the given number
on. -/
inductive Numbered : Nat → List Expression → List Selection → Prop
  | nil (n : Nat) : Numbered n [] []
  | named {n : Nat} {e : Expression} {es : List Expression} {ss : List Selection} (name : Text)
    (hname : e = .var name ∨ e = .blank name) (rest : Numbered n es ss) :
    Numbered n (e :: es) (⟨name, none⟩ :: ss)
  | constant {n : Nat} {e : Expression} {es : List Expression} {ss : List Selection}
    (value : Element) (hnames : e.names = []) (hvalue : Element.ofExpression e = .ok value)
    (rest : Numbered (n + 1) es ss) : Numbered n (e :: es) (⟨placeholder n, some value⟩ :: ss)

namespace Numbered

variable {n : Nat} {es : List Expression} {ss : List Selection}

theorem placeholders_eq (h : Numbered n es ss) :
    ∃ k, (ss.filter (·.value.isSome)).map (·.var) = (List.range' n k).map placeholder := by
  induction h with
  | nil n => exact ⟨0, rfl⟩
  | named name hname rest ih => exact ih
  | @constant n e es ss value hnames hvalue rest ih =>
    obtain ⟨k, hk⟩ := ih
    refine ⟨k + 1, ?_⟩
    rw [List.filter_cons_of_pos rfl, List.map_cons, hk, List.range'_succ, List.map_cons]

theorem variables_eq (h : Numbered n es ss) :
    (ss.filter (·.value.isNone)).map (·.var) = es.flatMap Expression.names := by
  induction h with
  | nil n => rfl
  | named name hname rest ih =>
    rw [List.filter_cons_of_pos rfl, List.map_cons, ih, List.flatMap_cons]
    rcases hname with rfl | rfl
    · rfl
    · rfl
  | constant value hnames hvalue rest ih =>
    rw [List.filter_cons_of_neg Bool.false_ne_true, ih, List.flatMap_cons, hnames, List.nil_append]

end Numbered

theorem names_eq_nil {e : Expression} (hvar : ∀ name, e = .var name → False)
    (hblank : ∀ label, e = .blank label → False) : e.names = [] := by
  cases e with
  | var name => exact (hvar name rfl).elim
  | blank label => exact (hblank label rfl).elim
  | _ => rfl

theorem numbered_templatePositions {n : Nat} {es : List Expression} {ss : List Selection}
    (h : templatePositions n es = .ok ss) : Numbered n es ss := by
  fun_induction templatePositions n es generalizing ss with
  | case1 n =>
    cases h
    exact .nil n
  | case2 n name rest ih =>
    obtain ⟨ss, hss, rfl⟩ := map_eq_ok.1 h
    exact .named name (.inl rfl) (ih hss)
  | case3 n label rest ih =>
    obtain ⟨ss, hss, rfl⟩ := map_eq_ok.1 h
    exact .named label (.inr rfl) (ih hss)
  | case4 n e rest hvar hblank fault hfault => cases h
  | case5 n e rest hvar hblank value hvalue ih =>
    obtain ⟨ss, hss, rfl⟩ := map_eq_ok.1 h
    exact .constant value (names_eq_nil hvar hblank) hvalue (ih hss)

/-- The description of a selected element: a variable takes the place of the subject, and a constant
is what the subject is. -/
def description (base : Plan) (s : Selection) : Plan :=
  match s.value with
  | none => base.renamed subjectName s.var
  | some value => .conj [base, .is subjectName value none]

theorem numbered_descriptions {base : Plan} {n : Nat} {es : List Expression}
    {parts : List (Selection × Plan)} (h : descriptions base n es = .ok parts) :
    Numbered n es (parts.map (·.1)) ∧ ∀ part ∈ parts, part.2 = description base part.1 := by
  fun_induction descriptions base n es generalizing parts with
  | case1 n =>
    cases h
    exact ⟨.nil n, List.forall_mem_nil _⟩
  | case2 n name rest fault hfault => cases h
  | case3 n name rest r hr ih =>
    obtain ⟨parts, hparts, rfl⟩ := map_eq_ok.1 h
    obtain ⟨hnumbered, hplans⟩ := ih hparts
    exact ⟨.named name (.inl rfl) hnumbered,
      List.forall_mem_cons.2 ⟨Plan.plan_rename hr, hplans⟩⟩
  | case4 n value rest plan =>
    rename_i ih
    obtain ⟨parts, hparts, rfl⟩ := map_eq_ok.1 h
    obtain ⟨hnumbered, hplans⟩ := ih hparts
    exact ⟨.constant (.iri value) rfl rfl hnumbered, List.forall_mem_cons.2 ⟨rfl, hplans⟩⟩
  | case5 n e rest hvar hiri => cases h

end Compile

end GraphQuery
