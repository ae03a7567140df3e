import GraphQuery.Form.Read
import GraphQuery.Proofs.Form.Lexemes
import GraphQuery.Proofs.Success

namespace GraphQuery.Form

@[elab_as_elim]
theorem partsInduction {P : Form → Prop} (atom : ∀ pos cls value, P (.atom pos cls value))
    (string : ∀ pos value note, P (.string pos value note)) (iri : ∀ pos value, P (.iri pos value))
    (group : ∀ pos bracket forms, (∀ f ∈ forms, P f) → P (.group pos bracket forms)) (f : Form) :
    P f := by
  induction f using Form.rec (motive_2 := fun forms => ∀ f ∈ forms, P f) with
  | atom pos cls value => exact atom pos cls value
  | string pos value note => exact string pos value note
  | iri pos value => exact iri pos value
  | group pos bracket forms ih => exact group pos bracket forms ih
  | nil => contradiction
  | cons f forms ihf ih g hg =>
    rcases List.mem_cons.1 hg with rfl | hg
    · exact ihf
    · exact ih g hg

inductive IsLegible : Form → Prop
  | atom (pos : Position) (cls : AtomClass) (value : Text) (hvalue : (Leaf.atom value).IsLegible)
      (hcls : Atom.classify value = .ok cls) : IsLegible (.atom pos cls value)
  | string (pos : Position) (value : Text) (note : Note) (hnote : note.IsLegible) :
      IsLegible (.string pos value note)
  | iri (pos : Position) (value : Text) (hvalue : (Leaf.iri value).IsLegible) :
      IsLegible (.iri pos value)
  | group (pos : Position) (bracket : Bracket) (forms : List Form)
      (hforms : ∀ f ∈ forms, IsLegible f)
      (heven : bracket = .curly → forms.length % 2 = 0) : IsLegible (.group pos bracket forms)

mutual

def unplaced : Form → Form
  | atom _ cls value => atom .start cls value
  | string _ value note => string .start value note
  | iri _ value => iri .start value
  | group _ bracket forms => group .start bracket (unplacedAll forms)

def unplacedAll : List Form → List Form
  | [] => []
  | f :: rest => unplaced f :: unplacedAll rest

end

mutual

def strings : Form → List Text
  | string _ value _ => [value]
  | group _ _ forms => stringsAll forms
  | _ => []

def stringsAll : List Form → List Text
  | [] => []
  | f :: rest => strings f ++ stringsAll rest

end

mutual

def lexemes : Form → List Lexeme
  | atom _ _ value => [.leaf (.atom value)]
  | string _ value note => [.leaf (.string value note)]
  | iri _ value => [.leaf (.iri value)]
  | group _ bracket forms => .opening bracket :: (lexemesAll forms ++ [.closing bracket])

def lexemesAll : List Form → List Lexeme
  | [] => []
  | f :: rest => lexemes f ++ lexemesAll rest

end

theorem unplacedAll_eq_map (forms : List Form) : unplacedAll forms = forms.map unplaced := by
  induction forms with
  | nil => rfl
  | cons f forms ih => rw [unplacedAll, ih, List.map_cons]

section Scanning
open Scan

/-- A text in front of others is scanned into these lexemes, if the strings in it are plain. -/
def Spells (t : Text) (strings : List Text) (ls : List Lexeme) : Prop :=
  ∀ rest r, Scans rest r → Ends rest →
    Scans (t ++ rest) (if ∀ s ∈ strings, s.IsPlain then r.map (ls ++ ·) else none)

theorem Spells.leaf {l : Leaf} (hl : l.IsLegible) : Spells l.text l.strings [.leaf l] := by
  intro rest r hr hrest
  exact hr.leaf hl hrest

theorem Spells.append {t u : Text} {ss ss' : List Text} {ls ls' : List Lexeme}
    (h : Spells t ss ls) (h' : Spells u ss' ls') :
    Spells (t ++ " " ++ u) (ss ++ ss') (ls ++ ls') := by
  intro rest r hr hrest
  have hu := (h' rest r hr hrest).blank
  have ht := h _ _ hu (by rintro b hb; cases hb; exact .inl rfl)
  have htext : t ++ " " ++ u ++ rest = t ++ ' '.toUInt8 :: (u ++ rest) := by
    simp only [List.append_assoc]
    rfl
  rw [htext]
  by_cases hs : ∀ s ∈ ss, s.IsPlain
  · by_cases hs' : ∀ s ∈ ss', s.IsPlain
    · rw [if_pos hs, if_pos hs', Option.map_map] at ht
      rw [if_pos (List.forall_mem_append.2 ⟨hs, hs'⟩)]
      simpa [Function.comp_def] using ht
    · rw [if_pos hs, if_neg hs'] at ht
      rwa [if_neg (fun hall => hs' (List.forall_mem_append.1 hall).2)]
  · rw [if_neg hs] at ht
    rwa [if_neg (fun hall => hs (List.forall_mem_append.1 hall).1)]

theorem Spells.forms {forms : List Form} (h : ∀ f ∈ forms, Spells f.text f.strings f.lexemes) :
    Spells (textList forms) (stringsAll forms) (lexemesAll forms) := by
  induction forms with
  | nil =>
    intro rest r hr hrest
    simpa [textList, stringsAll, lexemesAll] using hr
  | cons f forms ih =>
    have hf := h f List.mem_cons_self
    have ih := ih fun g hg => h g (List.mem_cons_of_mem f hg)
    cases forms with
    | nil => simpa [textList, stringsAll, lexemesAll] using hf
    | cons g forms => exact hf.append ih

theorem Spells.brackets {t : Text} {ss : List Text} {ls : List Lexeme} (h : Spells t ss ls)
    (bracket : Bracket) :
    Spells (bracket.opening :: (t ++ [bracket.closing])) ss
      (.opening bracket :: (ls ++ [.closing bracket])) := by
  intro rest r hr hrest
  have hend : Ends (bracket.closing :: rest) := by
    intro b hb
    cases hb
    exact .inr ⟨bracket, rfl⟩
  have ht := (h _ _ (hr.word (.closing bracket)) hend).word (.opening bracket)
  have htext : bracket.opening :: (t ++ [bracket.closing]) ++ rest =
      bracket.opening :: (t ++ bracket.closing :: rest) := by
    simp
  rw [htext]
  by_cases hs : ∀ s ∈ ss, s.IsPlain
  · rw [if_pos hs] at ht ⊢
    simpa [Function.comp_def] using ht
  · rw [if_neg hs] at ht ⊢
    exact ht

theorem IsLegible.spells {f : Form} (hf : f.IsLegible) : Spells f.text f.strings f.lexemes := by
  induction f using partsInduction with
  | atom pos cls value =>
    cases hf with
    | atom _ _ _ hvalue _ => exact .leaf hvalue
  | string pos value note =>
    cases hf with
    | string _ _ _ hnote => exact .leaf (l := .string value note) hnote
  | iri pos value =>
    cases hf with
    | iri _ _ hvalue => exact .leaf hvalue
  | group pos bracket forms ih =>
    cases hf with
    | group _ _ _ hforms _ =>
      exact (Spells.forms fun f hf => ih f hf (hforms f hf)).brackets bracket

end Scanning

def resume (stop : Position) (frames : List Frame) (f : Form) (rest : List Token) :
    Except ReadError (Form × List Token) :=
  match frames with
  | [] => .ok (f, rest)
  | frame :: outer => readForm stop (frame.push f :: outer) rest

theorem readForm_leaf {pos : Position} {l : Leaf} {f : Form} (h : ofLeaf pos l = .ok f)
    (stop : Position) (frames : List Frame) (rest : List Token) :
    readForm stop frames (⟨.leaf l, pos⟩ :: rest) = resume stop frames f rest := by
  cases frames <;> simp [readForm, h, resume]

theorem readForm_closing {frame : Frame} {f : Form} (h : frame.close = .ok f) (stop pos : Position)
    (outer : List Frame) (rest : List Token) :
    readForm stop (frame :: outer) (⟨.closing frame.bracket, pos⟩ :: rest) =
      resume stop outer f rest := by
  cases outer <;> simp [readForm, h, resume]

/-- The tokens of a form are read as the form, with places of its own. -/
def ReadsAs (ts : List Token) (f : Form) : Prop :=
  ∃ g : Form, g.unplaced = f.unplaced ∧
    ∀ stop frames rest, readForm stop frames (ts ++ rest) = resume stop frames g rest

theorem readForm_forms {forms : List Form}
    (h : ∀ f ∈ forms, ∀ ts : List Token, ts.map Token.lexeme = f.lexemes → ReadsAs ts f)
    {ts : List Token} (hts : ts.map Token.lexeme = lexemesAll forms) :
    ∃ gs, unplacedAll gs = unplacedAll forms ∧ ∀ stop frame outer rest,
      readForm stop (frame :: outer) (ts ++ rest) =
        readForm stop (⟨frame.bracket, frame.pos, gs.reverse ++ frame.done⟩ :: outer) rest := by
  induction forms generalizing ts with
  | nil =>
    obtain rfl : ts = [] := by simpa [lexemesAll] using hts
    exact ⟨[], rfl, fun _ _ _ _ => rfl⟩
  | cons f forms ih =>
    obtain ⟨us, vs, rfl, hus, hvs⟩ := List.map_eq_append_iff.1 hts
    obtain ⟨g, hg, hread⟩ := h f List.mem_cons_self us hus
    obtain ⟨gs, hgs, hreads⟩ := ih (fun f' hf' => h f' (List.mem_cons_of_mem f hf')) hvs
    refine ⟨g :: gs, by rw [unplacedAll, unplacedAll, hg, hgs], ?_⟩
    intro stop frame outer rest
    rw [List.append_assoc, hread, resume, hreads]
    simp [Frame.push]

theorem readForm_group {pos : Position} {bracket : Bracket} {forms : List Form}
    (h : ∀ f ∈ forms, ∀ ts : List Token, ts.map Token.lexeme = f.lexemes → ReadsAs ts f)
    (heven : bracket = .curly → forms.length % 2 = 0) {ts : List Token}
    (hts : ts.map Token.lexeme = (group pos bracket forms).lexemes) :
    ReadsAs ts (group pos bracket forms) := by
  obtain ⟨⟨_, start⟩, us, rfl, rfl, hus⟩ := List.map_eq_cons_iff.1 hts
  obtain ⟨vs, ws, rfl, hvs, hws⟩ := List.map_eq_append_iff.1 hus
  obtain ⟨⟨_, stop⟩, _, rfl, rfl, hnil⟩ := List.map_eq_cons_iff.1 hws
  obtain rfl := List.map_eq_nil_iff.1 hnil
  obtain ⟨gs, hgs, hreads⟩ := readForm_forms h hvs
  refine ⟨.group start bracket gs, by rw [unplaced, unplaced, hgs], ?_⟩
  intro last frames rest
  have hlength : gs.length = forms.length := by
    simpa [unplacedAll_eq_map] using congrArg List.length hgs
  have hclose : Frame.close ⟨bracket, start, gs.reverse ++ []⟩ = .ok (.group start bracket gs) := by
    rw [Frame.close, if_neg]
    · simp
    · rintro ⟨hcurly, hodd⟩
      have := heven hcurly
      simp only [List.append_nil, List.length_reverse] at hodd
      omega
  calc readForm last frames
        (⟨.opening bracket, start⟩ :: (vs ++ [⟨.closing bracket, stop⟩]) ++ rest)
      = readForm last (⟨bracket, start, []⟩ :: frames)
          (vs ++ ⟨.closing bracket, stop⟩ :: rest) := by
        simp [readForm]
    _ = readForm last (⟨bracket, start, gs.reverse ++ []⟩ :: frames)
          (⟨.closing bracket, stop⟩ :: rest) := hreads _ _ _ _
    _ = resume last frames (.group start bracket gs) rest := readForm_closing hclose _ _ _ _

theorem IsLegible.readsAs {f : Form} (hf : f.IsLegible) {ts : List Token}
    (hts : ts.map Token.lexeme = f.lexemes) : ReadsAs ts f := by
  induction f using partsInduction generalizing ts with
  | atom pos cls value =>
    cases hf with
    | atom _ _ _ _ hcls =>
      obtain ⟨⟨_, start⟩, _, rfl, rfl, hnil⟩ := List.map_eq_cons_iff.1 hts
      obtain rfl := List.map_eq_nil_iff.1 hnil
      exact ⟨.atom start cls value, rfl, readForm_leaf (by rw [ofLeaf, hcls])⟩
  | string pos value note =>
    obtain ⟨⟨_, start⟩, _, rfl, rfl, hnil⟩ := List.map_eq_cons_iff.1 hts
    obtain rfl := List.map_eq_nil_iff.1 hnil
    exact ⟨.string start value note, rfl, readForm_leaf rfl⟩
  | iri pos value =>
    obtain ⟨⟨_, start⟩, _, rfl, rfl, hnil⟩ := List.map_eq_cons_iff.1 hts
    obtain rfl := List.map_eq_nil_iff.1 hnil
    exact ⟨.iri start value, rfl, readForm_leaf rfl⟩
  | group pos bracket forms ih =>
    cases hf with
    | group _ _ _ hforms heven =>
      exact readForm_group (fun f hf us hus => ih f hf (hforms f hf) hus) heven hts

theorem IsLegible.ofLeaf {pos : Position} {l : Leaf} {f : Form} (hl : l.IsLegible)
    (h : Form.ofLeaf pos l = .ok f) : f.IsLegible := by
  cases l with
  | string value note => cases h; exact .string pos value note hl
  | iri value => cases h; exact .iri pos value hl
  | atom value =>
    rw [Form.ofLeaf] at h
    split at h
    next cls hcls => cases h; exact .atom pos cls value hl hcls
    · cases h

theorem IsLegible.close {frame : Frame} {f : Form} (hdone : ∀ g ∈ frame.done, g.IsLegible)
    (h : frame.close = .ok f) : f.IsLegible := by
  rw [Frame.close] at h
  split at h
  · cases h
  next heven =>
    cases h
    refine .group _ _ _ (fun g hg => hdone g (List.mem_reverse.1 hg)) ?_
    intro hcurly
    rw [List.length_reverse]
    have hodd : ¬ frame.done.length % 2 = 1 := fun hodd => heven ⟨hcurly, hodd⟩
    omega

def Frame.AllLegible (frames : List Frame) : Prop :=
  ∀ frame ∈ frames, ∀ f ∈ frame.done, f.IsLegible

theorem Frame.AllLegible.push {frame : Frame} {outer : List Frame} {f : Form}
    (h : AllLegible (frame :: outer)) (hf : f.IsLegible) : AllLegible (frame.push f :: outer) := by
  intro frame' hframe g hg
  rcases List.mem_cons.1 hframe with rfl | hframe
  · rcases List.mem_cons.1 hg with rfl | hg
    · exact hf
    · exact h frame List.mem_cons_self g hg
  · exact h frame' (List.mem_cons_of_mem frame hframe) g hg

theorem readForm_isLegible {stop : Position} {frames : List Frame} {ts rest : List Token} {f : Form}
    (h : readForm stop frames ts = .ok (f, rest)) (hts : ∀ t ∈ ts, t.lexeme.IsLegible)
    (hframes : Frame.AllLegible frames) : f.IsLegible := by
  fun_induction readForm stop frames ts with
  | case3 frames bracket pos ts ih =>
    apply ih h
    · exact fun t ht => hts t (List.mem_cons_of_mem _ ht)
    · intro frame hframe g hg
      rcases List.mem_cons.1 hframe with rfl | hframe
      · cases hg
      · exact hframes frame hframe g hg
  | case6 frame pos ts form hclose =>
    cases h
    exact .close (hframes frame List.mem_cons_self) hclose
  | case7 frame pos ts form next outer hclose ih =>
    have hform := IsLegible.close (hframes frame List.mem_cons_self) hclose
    apply ih h
    · exact fun t ht => hts t (List.mem_cons_of_mem _ ht)
    · exact .push (fun frame' hframe => hframes frame' (List.mem_cons_of_mem frame hframe)) hform
  | case10 leaf pos ts form hleaf =>
    cases h
    exact .ofLeaf (hts _ List.mem_cons_self) hleaf
  | case11 leaf pos ts form next outer hleaf ih =>
    have hform := IsLegible.ofLeaf (hts _ List.mem_cons_self) hleaf
    apply ih h
    · exact fun t ht => hts t (List.mem_cons_of_mem _ ht)
    · exact hframes.push hform
  | _ => cases h

theorem read_isLegible {t : Text} {f : Form} (h : read t = .ok f) : f.IsLegible := by
  rw [read] at h
  split at h
  · cases h
  next ts stop hscan =>
    split at h
    · cases h
    next hread =>
      cases h
      exact readForm_isLegible hread (Scan.tokens_isLegible hscan) (by simp [Frame.AllLegible])
    · cases h

/-- A legible form whose strings are plain is read from its text, places apart. -/
theorem IsLegible.read_text {f : Form} (hf : f.IsLegible) (hs : ∀ s ∈ f.strings, s.IsPlain) :
    ∃ g, read f.text = .ok g ∧ g.unplaced = f.unplaced := by
  have hscan := hf.spells [] (some []) .nil (by rintro b ⟨⟩) .start
  rw [List.append_nil, if_pos hs] at hscan
  cases htokens : Scan.tokens .start f.text with
  | error e =>
    rw [htokens] at hscan
    cases hscan
  | ok tokens =>
    obtain ⟨ts, stop⟩ := tokens
    rw [htokens] at hscan
    have hts : ts.map Token.lexeme = f.lexemes := by
      simpa [Except.toOption] using hscan
    obtain ⟨g, hg, hread⟩ := hf.readsAs hts
    have hform := hread stop [] []
    rw [List.append_nil] at hform
    refine ⟨g, ?_, hg⟩
    simp only [read, scan, htokens, hform, resume]

theorem IsLegible.read_text_error {f : Form} (hf : f.IsLegible)
    (hs : ¬ ∀ s ∈ f.strings, s.IsPlain) : ∃ e, read f.text = .error e := by
  have hscan := hf.spells [] (some []) .nil (by rintro b ⟨⟩) .start
  rw [List.append_nil, if_neg hs] at hscan
  cases htokens : Scan.tokens .start f.text with
  | error e => exact ⟨.scan e, by simp only [read, scan, htokens]⟩
  | ok tokens =>
    rw [htokens] at hscan
    cases hscan

/-- A form that has been read prints to a text that can be read exactly when quoting its strings
takes no other escapes than those of the notation, and then the form is read again, places apart. -/
theorem read_text_of_read {t : Text} {f : Form} (h : read t = .ok f) :
    ((∃ g, read f.text = .ok g) ↔ ∀ s ∈ f.strings, s.IsPlain) ∧
      ∀ g, read f.text = .ok g → g.unplaced = f.unplaced := by
  have hf := read_isLegible h
  by_cases hs : ∀ s ∈ f.strings, s.IsPlain
  · obtain ⟨g, hg, hsame⟩ := hf.read_text hs
    refine ⟨iff_of_true ⟨g, hg⟩ hs, ?_⟩
    intro g' hg'
    rw [hg] at hg'
    cases hg'
    exact hsame
  · obtain ⟨e, he⟩ := hf.read_text_error hs
    have hnone : ¬ ∃ g, read f.text = .ok g := exists_eq_error.1 ⟨e, he⟩
    exact ⟨iff_of_false hnone hs, fun g hg => absurd ⟨g, hg⟩ hnone⟩

/-- The second byte of the letter behind the language tag is an atom of its own. -/
def crowdedSample : Text := "\x7b:a,[\"s\"@é<=,<a;\"(b>] \"\\n\"^^<>(<)\x7d"

/-- Tokens that stand close together are read again with blanks between them; a bell is not. -/
theorem read_text_of_read_crowdedSample :
    (∃ f g, read crowdedSample = .ok f ∧ read f.text = .ok g ∧ g.unplaced = f.unplaced) ∧
      ∃ f, read "(a \"\x07\")" = .ok f ∧ ¬ ∃ g, read f.text = .ok g := by
  constructor
  · obtain ⟨f, hf, hplain⟩ := exists_ok_of_any (x := read crowdedSample)
      (p := fun f => decide (∀ s ∈ f.strings, s.IsPlain)) (by decide +kernel)
    obtain ⟨hread, hsame⟩ := read_text_of_read hf
    obtain ⟨g, hg⟩ := hread.2 (of_decide_eq_true hplain)
    exact ⟨f, g, hf, hg, hsame g hg⟩
  · obtain ⟨f, hf, hplain⟩ := exists_ok_of_any (x := read "(a \"\x07\")")
      (p := fun f => decide ¬ ∀ s ∈ f.strings, s.IsPlain) (by decide +kernel)
    refine ⟨f, hf, ?_⟩
    rw [(read_text_of_read hf).1]
    exact of_decide_eq_true hplain

end GraphQuery.Form
