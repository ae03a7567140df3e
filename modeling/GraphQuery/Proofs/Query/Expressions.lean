import GraphQuery.Proofs.Form.Atoms
import GraphQuery.Proofs.Query.Forms
import GraphQuery.Proofs.Success
import GraphQuery.Query.OfForm

namespace GraphQuery

namespace Form

/-- Two forms that differ in places only. -/
def Similar (f g : Form) : Prop := f.unplaced = g.unplaced

theorem forall₂_similar {fs gs : List Form} (h : unplacedAll fs = unplacedAll gs) :
    List.Forall₂ Similar fs gs := by
  induction fs generalizing gs with
  | nil =>
    cases gs with
    | nil => exact .nil
    | cons g gs => cases h
  | cons f fs ih =>
    cases gs with
    | nil => cases h
    | cons g gs =>
      obtain ⟨hf, hfs⟩ := List.cons.inj h
      exact .cons hf (ih hfs)

theorem Similar.atom {f : Form} {pos : Position} {cls : AtomClass} {value : Text}
    (h : f.Similar (.atom pos cls value)) : ∃ p, f = .atom p cls value := by
  cases f with
  | atom p cls' value' => cases h; exact ⟨p, rfl⟩
  | _ => cases h

theorem Similar.string {f : Form} {pos : Position} {value : Text} {note : Note}
    (h : f.Similar (.string pos value note)) : ∃ p, f = .string p value note := by
  cases f with
  | string p value' note' => cases h; exact ⟨p, rfl⟩
  | _ => cases h

theorem Similar.iri {f : Form} {pos : Position} {value : Text} (h : f.Similar (.iri pos value)) :
    ∃ p, f = .iri p value := by
  cases f with
  | iri p value' => cases h; exact ⟨p, rfl⟩
  | _ => cases h

theorem Similar.group {f : Form} {pos : Position} {bracket : Bracket} {gs : List Form}
    (h : f.Similar (.group pos bracket gs)) :
    ∃ p fs, f = .group p bracket fs ∧ List.Forall₂ Similar fs gs := by
  cases f with
  | group p bracket' fs =>
    injection h with _ hbracket hforms
    exact ⟨p, fs, by rw [hbracket], forall₂_similar hforms⟩
  | _ => cases h

theorem Similar.call {f : Form} {name : Text} {gs : List Form} (h : f.Similar (.call name gs)) :
    ∃ p q fs, f = .group p .round (.atom q .symbol name :: fs) ∧ List.Forall₂ Similar fs gs := by
  obtain ⟨p, fs, rfl, hfs⟩ := h.group
  cases hfs with
  | cons hf hfs =>
    obtain ⟨q, rfl⟩ := hf.atom
    exact ⟨p, q, _, rfl, hfs⟩

theorem isKeywordForm_unplaced (f : Form) : f.unplaced.isKeywordForm = f.isKeywordForm := by
  cases f with
  | atom pos cls value => cases cls <;> rfl
  | _ => rfl

theorem Similar.isKeywordForm_eq {f g : Form} (h : f.Similar g) :
    f.isKeywordForm = g.isKeywordForm := by
  rw [← f.isKeywordForm_unplaced, h, g.isKeywordForm_unplaced]

def operator? : Form → Option (Text × Nat)
  | .group _ .round (.atom _ .symbol op :: args) => some (op, args.length)
  | _ => none

theorem operator?_eq_some {f : Form} {op : Text} (h : f.operator? = some (op, 1)) :
    ∃ p q g, f = .group p .round [.atom q .symbol op, g] := by
  unfold operator? at h
  split at h
  next p q op' args =>
    simp only [Option.some.injEq, Prod.mk.injEq] at h
    obtain ⟨rfl, hlength⟩ := h
    obtain ⟨g, rfl⟩ := List.length_eq_one_iff.1 hlength
    exact ⟨p, q, g, rfl⟩
  · cases h

theorem operator?_unplaced (f : Form) : f.unplaced.operator? = f.operator? := by
  cases f with
  | group pos bracket forms =>
    cases bracket <;> try rfl
    cases forms with
    | nil => rfl
    | cons f forms =>
      cases f with
      | atom q cls value => cases cls <;> simp [unplaced, unplacedAll_eq_map, operator?]
      | _ => rfl
  | _ => rfl

theorem Similar.operator?_eq {f g : Form} (h : f.Similar g) : f.operator? = g.operator? := by
  rw [← f.operator?_unplaced, h, g.operator?_unplaced]

end Form

/-- A form from which a value is read, wherever its parts stand. -/
structure Rereads {α : Type} (read : Form → Except QueryError α) (x : α) (g : Form) : Prop where
  legible : g.IsLegible
  reread : ∀ f, f.Similar g → read f = .ok x

/-- A value is read from the text of its form exactly when the strings in it are plain. -/
theorem Rereads.ofText {α : Type} {read : Form → Except QueryError α} {x : α} {g : Form}
    (h : Rereads read x g) :
    ((∃ y, (do read (← Form.ofText g.text)) = .ok y) ↔ ∀ s ∈ g.strings, s.IsPlain) ∧
      ∀ y, (do read (← Form.ofText g.text)) = .ok y → y = x := by
  by_cases hs : ∀ s ∈ g.strings, s.IsPlain
  · obtain ⟨f, hf, hsimilar⟩ := h.legible.read_text hs
    have hread : (do read (← Form.ofText g.text)) = .ok x := by
      rw [Form.ofText, hf]
      exact h.reread f hsimilar
    rw [hread]
    exact ⟨⟨fun _ => hs, fun _ => ⟨x, rfl⟩⟩, fun y hy => (Except.ok.inj hy).symm⟩
  · obtain ⟨e, he⟩ := h.legible.read_text_error hs
    have hread : (do read (← Form.ofText g.text)) = .error (.unreadable e) := by
      rw [Form.ofText, he]
      rfl
    rw [hread]
    exact ⟨⟨nofun, fun hall => absurd hall hs⟩, nofun⟩

section Lists
variable {α : Type} {read : Form → Except QueryError α} {toForm : α → Form}

theorem Rereads.of_forall₂ {fs : List Form} {xs : List α}
    (h : List.Forall₂ (fun f x => read f = .ok x) fs xs)
    (hfs : ∀ f ∈ fs, ∀ x, read f = .ok x → Rereads read x (toForm x)) :
    ∀ x ∈ xs, Rereads read x (toForm x) := by
  induction h with
  | nil => simp
  | cons hf _ ih =>
    intro x hx
    rcases List.mem_cons.1 hx with rfl | hx
    · exact hfs _ List.mem_cons_self _ hf
    · exact ih (fun f hm => hfs f (List.mem_cons_of_mem _ hm)) x hx

theorem Rereads.forall₂ {xs : List α} (h : ∀ x ∈ xs, Rereads read x (toForm x)) {fs : List Form}
    (hfs : List.Forall₂ Form.Similar fs (xs.map toForm)) :
    List.Forall₂ (fun f x => read f = .ok x) fs xs := by
  induction xs generalizing fs with
  | nil =>
    cases hfs
    exact .nil
  | cons x xs ih =>
    cases hfs with
    | cons hf hfs =>
      refine .cons ((h x List.mem_cons_self).reread _ hf) ?_
      exact ih (fun y hy => h y (List.mem_cons_of_mem x hy)) hfs

theorem Rereads.legible_map {xs : List α} (h : ∀ x ∈ xs, Rereads read x (toForm x)) :
    ∀ f ∈ xs.map toForm, f.IsLegible := by
  intro f hf
  obtain ⟨x, hx, rfl⟩ := List.mem_map.1 hf
  exact (h x hx).legible

theorem Rereads.legible_option {v : Option α}
    (h : ∀ x, v = some x → Rereads read x (toForm x)) :
    ∀ f, v.map toForm = some f → f.IsLegible := by
  intro f hf
  obtain ⟨x, hx, rfl⟩ := Option.map_eq_some_iff.1 hf
  exact (h x hx).legible

end Lists

theorem Form.IsLegible.call {name : Text} {args : List Form} {pos : Position}
    (hname : Form.IsLegible (.atom pos .symbol name)) (hargs : ∀ f ∈ args, f.IsLegible) :
    (Form.call name args).IsLegible := by
  refine .group _ _ _ ?_ nofun
  intro f hf
  rcases List.mem_cons.1 hf with rfl | hf
  · cases hname with
    | atom _ _ _ hvalue hcls => exact .atom _ _ _ hvalue hcls
  · exact hargs f hf

theorem Form.IsLegible.keyword {key : Text} (hkey : Leaf.isWord key)
    (hcls : Atom.classify key = .ok .keyword) : Form.IsLegible (.atom .start .keyword key) :=
  .atom _ _ _ (Leaf.isLegible_of_isWord hkey) hcls

theorem Form.IsLegible.option {key : Text} {v : Option Form}
    (hkey : Form.IsLegible (.atom .start .keyword key)) (hv : ∀ f, v = some f → f.IsLegible) :
    ∀ f ∈ Form.option key v, f.IsLegible := by
  intro f hf
  cases v with
  | none => cases hf
  | some value =>
    rcases List.mem_cons.1 hf with rfl | hf
    · exact hkey
    · rw [List.mem_singleton.1 hf]
      exact hv value rfl

theorem Form.similar_option {key : Text} {v : Option Form} {fs gs : List Form}
    (h : List.Forall₂ Form.Similar fs (Form.option key v ++ gs)) :
    (v = none ∧ List.Forall₂ Form.Similar fs gs) ∨ ∃ g p f rest, v = some g ∧
      fs = .atom p .keyword key :: f :: rest ∧ f.Similar g ∧ List.Forall₂ Form.Similar rest gs := by
  cases v with
  | none => exact .inl ⟨rfl, h⟩
  | some g =>
    cases h with
    | cons hkey h =>
      cases h with
      | cons hf h =>
        obtain ⟨p, rfl⟩ := hkey.atom
        exact .inr ⟨g, p, _, _, rfl, rfl, hf, h⟩

theorem name_of_find? {α : Type} {name : α → Text} {known : List α} {t : Text} {a : α}
    (h : known.find? (name · = t) = some a) : name a = t := by
  simpa using List.find?_some h

namespace Expression

theorem ofForms_eq_ok {fs : List Form} {es : List Expression} :
    ofForms fs = .ok es ↔ List.Forall₂ (fun f e => ofForm f = .ok e) fs es := by
  induction fs generalizing es with
  | nil =>
    rw [ofForms, List.forall₂_nil_left_iff]
    exact ⟨fun h => (Except.ok.inj h).symm, fun h => h ▸ rfl⟩
  | cons f fs ih =>
    rw [ofForms, List.forall₂_cons_left_iff]
    constructor
    · intro h
      split at h
      · cases h
      next e he =>
        obtain ⟨es', hes, rfl⟩ := map_eq_ok.1 h
        exact ⟨e, es', he, ih.1 hes, rfl⟩
    · rintro ⟨e, es', he, hes, rfl⟩
      rw [he]
      exact map_eq_ok.2 ⟨es', ih.2 hes, rfl⟩

/-- An operator form prints its name and its operands; which form it was read from matters for
errors only. -/
theorem ofOperator_spec {form : Form} {name : Text} {args : List Expression} {e : Expression}
    (h : ofOperator form name args = .ok e) :
    e.toForm = .call name (args.map toForm) ∧ ∀ form', ofOperator form' name args = .ok e := by
  unfold ofOperator at h ⊢
  split at h
  next op hop =>
    split at h
    next left right =>
      cases h
      refine ⟨?_, fun _ => rfl⟩
      rw [toForm, name_of_find? hop]
      rfl
    · cases h
  next op hcompare hop =>
    have hname := name_of_find? hop
    split at h
    · cases h
    next operand =>
      split at h
      next hsign =>
        cases h
        refine ⟨?_, fun _ => if_pos hsign⟩
        rcases hsign with rfl | rfl <;> subst hname <;> rfl
      next hsign =>
        cases h
        refine ⟨?_, fun _ => if_neg hsign⟩
        rw [toForm, hname]
        rfl
    next args hnil hone =>
      cases h
      refine ⟨?_, fun _ => rfl⟩
      rw [toForm, hname, toForms_eq_map]
  next hcompare harith =>
    split at h
    next hnot =>
      split at h
      next operand =>
        cases h
        refine ⟨?_, fun _ => if_pos hnot⟩
        rw [toForm, hnot]
        rfl
      · cases h
    next hnot =>
      split at h
      next op hop =>
        cases h
        refine ⟨?_, fun _ => if_neg hnot⟩
        rw [toForm, name_of_find? hop, toForms_eq_map]
      next f hlogic hop =>
        cases h
        refine ⟨?_, fun _ => if_neg hnot⟩
        rw [toForm, name_of_find? hop, toForms_eq_map]
      · cases h

theorem ofForm_group {pos : Position} {bracket : Bracket} {forms : List Form} {e : Expression}
    (h : ofForm (.group pos bracket forms) = .ok e) :
    ∃ p op args, bracket = .round ∧ forms = .atom p .symbol op :: args ∧
      ((op = "call" ∧ ∃ q function rest es, args = .iri q function :: rest ∧
          ofForms rest = .ok es ∧ e = .call function es) ∨
        (op ≠ "call" ∧ ∃ es, ofForms args = .ok es ∧
          ofOperator (.group pos bracket forms) op es = .ok e)) := by
  rw [ofForm.eq_def] at h
  split at h
  case h_6 q p op args heq =>
    cases heq
    refine ⟨p, op, args, rfl, rfl, ?_⟩
    simp only at h
    split at h
    next hcall =>
      split at h
      next q function rest =>
        obtain ⟨es, hes, rfl⟩ := map_eq_ok.1 h
        exact .inl ⟨hcall, q, function, rest, es, rfl, hes, rfl⟩
      · cases h
    next hcall =>
      split at h
      · cases h
      next es hes => exact .inr ⟨hcall, es, hes, h⟩
  all_goals contradiction

theorem rereads_atom {cls : AtomClass} {value : Text} {e : Expression}
    (hvalue : (Leaf.atom value).IsLegible) (hcls : Atom.classify value = .ok cls)
    (h : ∀ p, ofAtom p cls value = .ok e) : Rereads ofForm e (.atom .start cls value) := by
  refine ⟨.atom _ _ _ hvalue hcls, ?_⟩
  intro f hf
  obtain ⟨p, rfl⟩ := hf.atom
  exact h p

theorem rereads_bool (b : Bool) : Rereads ofForm (.bool b) (bool b).toForm := by
  cases b with
  | true => exact rereads_atom (Leaf.isLegible_of_isWord rfl) rfl fun _ => rfl
  | false => exact rereads_atom (Leaf.isLegible_of_isWord rfl) rfl fun _ => rfl

theorem ofAtom_rereads {pos : Position} {cls : AtomClass} {value : Text} {e : Expression}
    (hvalue : (Leaf.atom value).IsLegible) (hcls : Atom.classify value = .ok cls)
    (h : ofAtom pos cls value = .ok e) : Rereads ofForm e e.toForm := by
  cases cls with
  | bool =>
    cases h
    exact rereads_bool _
  | int =>
    rw [ofAtom, Form.toInt] at h
    by_cases hrange : Form.isInt64 (Text.toInt value)
    · rw [if_pos hrange] at h
      cases h
      refine rereads_atom (Atom.isLegible_ofInt _) (Atom.classify_ofInt _) ?_
      intro p
      rw [ofAtom, Form.toInt, Text.toInt_ofInt, if_pos hrange]
    · rw [if_neg hrange] at h
      cases h
  | decimal => cases h; exact rereads_atom hvalue hcls fun _ => rfl
  | double => cases h; exact rereads_atom hvalue hcls fun _ => rfl
  | blank => cases h; exact rereads_atom hvalue hcls fun _ => rfl
  | var =>
    cases h
    rw [toForm, ← Atom.eq_of_classify_var hcls]
    exact rereads_atom hvalue hcls fun _ => rfl
  | symbol => cases h
  | keyword => cases h

theorem rereads_string {value : Text} {note : Note} {e : Expression} (hnote : note.IsLegible)
    (h : ∀ p, ofForm (.string p value note) = .ok e) :
    Rereads ofForm e (.string .start value note) := by
  refine ⟨.string _ _ _ hnote, ?_⟩
  intro f hf
  obtain ⟨p, rfl⟩ := hf.string
  exact h p

theorem rereads_call {p q : Position} {function : Text} {es : List Expression}
    (hop : Form.IsLegible (.atom p .symbol "call")) (hiri : Form.IsLegible (.iri q function))
    (hes : ∀ e ∈ es, Rereads ofForm e e.toForm) :
    Rereads ofForm (.call function es) (toForm (.call function es)) := by
  rw [toForm, toForms_eq_map]
  constructor
  · apply Form.IsLegible.call hop
    intro f hf
    rcases List.mem_cons.1 hf with rfl | hf
    · cases hiri with
      | iri _ _ hvalue => exact .iri _ _ hvalue
    · exact Rereads.legible_map hes f hf
  · intro f hf
    obtain ⟨p', q', fs, rfl, hfs⟩ := hf.call
    cases hfs with
    | cons hiri' hfs =>
      obtain ⟨r, rfl⟩ := hiri'.iri
      rw [ofForm, if_pos rfl, ofForms_eq_ok.2 (Rereads.forall₂ hes hfs)]
      rfl

theorem rereads_operator {p : Position} {form : Form} {op : Text} {es : List Expression}
    {e : Expression} (hop : Form.IsLegible (.atom p .symbol op)) (hcall : op ≠ "call")
    (hes : ∀ e ∈ es, Rereads ofForm e e.toForm) (he : ofOperator form op es = .ok e) :
    Rereads ofForm e e.toForm := by
  obtain ⟨hform, hother⟩ := ofOperator_spec he
  rw [hform]
  constructor
  · exact .call hop (Rereads.legible_map hes)
  · intro f hf
    obtain ⟨p', q', fs, rfl, hfs⟩ := hf.call
    rw [ofForm.eq_def]
    simp only [if_neg hcall, ofForms_eq_ok.2 (Rereads.forall₂ hes hfs)]
    exact hother _

theorem ofForm_rereads {f : Form} (hf : f.IsLegible) {e : Expression} (h : ofForm f = .ok e) :
    Rereads ofForm e e.toForm := by
  induction f using Form.partsInduction generalizing e with
  | atom pos cls value =>
    cases hf with
    | atom _ _ _ hvalue hcls => exact ofAtom_rereads hvalue hcls h
  | string pos value note =>
    cases hf with
    | string _ _ _ hnote =>
      cases note with
      | none => cases h; exact rereads_string hnote fun _ => rfl
      | language tag =>
        cases h
        have htag : Note.ofParts tag none = .language tag := if_neg (by simpa using hnote.1)
        rw [toForm, htag]
        exact rereads_string hnote fun _ => rfl
      | datatype d => cases h; exact rereads_string hnote fun _ => rfl
  | iri pos value =>
    cases hf with
    | iri _ _ hvalue =>
      cases h
      refine ⟨.iri _ _ hvalue, ?_⟩
      intro f hf
      obtain ⟨p, rfl⟩ := hf.iri
      rfl
  | group pos bracket forms ih =>
    cases hf with
    | group _ _ _ hforms _ =>
      have hall {args : List Form} {es : List Expression} (hargs : args ⊆ forms)
          (hes : ofForms args = .ok es) : ∀ e ∈ es, Rereads ofForm e e.toForm :=
        Rereads.of_forall₂ (ofForms_eq_ok.1 hes) fun f hf e he =>
          ih f (hargs hf) (hforms f (hargs hf)) he
      obtain ⟨p, op, args, rfl, rfl, hcases⟩ := ofForm_group h
      have hop := hforms _ List.mem_cons_self
      rcases hcases with ⟨rfl, q, function, rest, es, rfl, hes, rfl⟩ | ⟨hcall, es, hes, he⟩
      · have hiri := hforms (.iri q function) (by simp)
        apply rereads_call hop hiri
        exact hall (fun f hf => by simp [hf]) hes
      · exact rereads_operator hop hcall (hall (List.subset_cons_self _ _) hes) he

theorem isKeywordForm_toForm (e : Expression) : e.toForm.isKeywordForm = false := by
  cases e <;> rfl

theorem ofAtom_operator? {pos : Position} {cls : AtomClass} {value : Text} {e : Expression}
    (h : ofAtom pos cls value = .ok e) : e.toForm.operator? = none := by
  cases cls with
  | int =>
    rw [ofAtom] at h
    split at h <;> cases h
    rfl
  | _ => cases h <;> rfl

theorem ofForm_operator? {f : Form} {e : Expression} (h : ofForm f = .ok e) :
    e.toForm.operator? = f.operator? := by
  cases f with
  | atom pos cls value => exact ofAtom_operator? h
  | string pos value note => cases note <;> cases h <;> rfl
  | iri pos value => cases h; rfl
  | group pos bracket forms =>
    obtain ⟨p, op, args, rfl, rfl, hcases⟩ := ofForm_group h
    rcases hcases with ⟨rfl, q, function, rest, es, rfl, hes, rfl⟩ | ⟨-, es, hes, he⟩
    · have hlength := (ofForms_eq_ok.1 hes).length_eq
      simp [toForm, toForms_eq_map, Form.operator?, hlength]
    · have hlength := (ofForms_eq_ok.1 hes).length_eq
      rw [(ofOperator_spec he).1]
      simp [Form.operator?, hlength]

theorem operator?_ne_mark {f : Form} {e : Expression} (h : ofForm f = .ok e) {op : Text} {n : Nat}
    (hop : f.operator? = some (op, n)) : op ≠ "desc" ∧ op ≠ "asc" := by
  cases f with
  | group pos bracket forms =>
    obtain ⟨p, op', args, rfl, rfl, hcases⟩ := ofForm_group h
    cases hop
    rcases hcases with ⟨rfl, -⟩ | ⟨-, es, -, he⟩
    · decide
    · constructor <;> rintro rfl <;> cases he
  | _ => cases hop

end Expression

end GraphQuery
