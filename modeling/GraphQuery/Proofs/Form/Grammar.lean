import GraphQuery.Proofs.Form.Atoms
import GraphQuery.Proofs.Form.RoundTrip
import GraphQuery.Proofs.Success

namespace GraphQuery

namespace Atom

def classOf (t : Text) : AtomClass :=
  match classify t with
  | .ok cls => cls
  | .error _ => .symbol

end Atom

/-- The tokens of a form, put together by its brackets. -/
inductive TokenTree where
  | leaf (leaf : Leaf) (pos : Position)
  | group (bracket : Bracket) (first last : Position) (parts : List TokenTree)

namespace TokenTree

mutual

def tokens : TokenTree → List Token
  | leaf l pos => [⟨.leaf l, pos⟩]
  | group bracket first last parts =>
    ⟨.opening bracket, first⟩ :: (tokensAll parts ++ [⟨.closing bracket, last⟩])

def tokensAll : List TokenTree → List Token
  | [] => []
  | tree :: rest => tokens tree ++ tokensAll rest

end

mutual

/-- The form that a tree is read as: it stands where its first token does. -/
def form : TokenTree → Form
  | leaf (.string value note) pos => .string pos value note
  | leaf (.iri value) pos => .iri pos value
  | leaf (.atom value) pos => .atom pos (Atom.classOf value) value
  | group bracket first _ parts => .group first bracket (formAll parts)

def formAll : List TokenTree → List Form
  | [] => []
  | tree :: rest => form tree :: formAll rest

end

/-- The atoms belong to a class, and maps have an even number of parts. -/
inductive IsWellFormed : TokenTree → Prop
  | leaf (l : Leaf) (pos : Position) (hl : ∀ value, l = .atom value → Atom.IsAdmitted value) :
      IsWellFormed (.leaf l pos)
  | group (bracket : Bracket) (first last : Position) (parts : List TokenTree)
      (hparts : ∀ tree ∈ parts, IsWellFormed tree)
      (heven : bracket = .curly → parts.length % 2 = 0) :
      IsWellFormed (.group bracket first last parts)

theorem tokensAll_append (ps qs : List TokenTree) :
    tokensAll (ps ++ qs) = tokensAll ps ++ tokensAll qs := by
  induction ps with
  | nil => rfl
  | cons p ps ih => rw [List.cons_append, tokensAll, tokensAll, ih, List.append_assoc]

theorem formAll_eq_map (ps : List TokenTree) : formAll ps = ps.map form := by
  induction ps with
  | nil => rfl
  | cons p ps ih => rw [formAll, ih, List.map_cons]

theorem tokens_head (tree : TokenTree) :
    ∃ token rest, tree.tokens = token :: rest ∧ ∀ bracket, token.lexeme ≠ .closing bracket := by
  cases tree with
  | leaf l pos => exact ⟨_, _, rfl, nofun⟩
  | group bracket first last parts => exact ⟨_, _, rfl, nofun⟩

theorem tokensAll_cons_ne_closing {tree : TokenTree} {rest : List TokenTree} {ts us : List Token}
    {bracket : Bracket} {pos : Position} :
    tokensAll (tree :: rest) ++ ts ≠ ⟨.closing bracket, pos⟩ :: us := by
  obtain ⟨token, others, htokens, hne⟩ := tree.tokens_head
  intro h
  rw [tokensAll, htokens] at h
  exact hne bracket (by rw [(List.cons.inj h).1])

/-- The tokens of a tree say where it ends and which tree it is. -/
theorem tokens_append_inj {a b : TokenTree} {r s : List Token}
    (h : a.tokens ++ r = b.tokens ++ s) : a = b ∧ r = s := by
  induction a using TokenTree.rec
      (motive_2 := fun ps => ∀ qs bracket bracket' pos pos' r s,
        tokensAll ps ++ ⟨.closing bracket, pos⟩ :: r =
          tokensAll qs ++ ⟨.closing bracket', pos'⟩ :: s →
        ps = qs ∧ pos = pos' ∧ r = s) generalizing b r s with
  | leaf l pos =>
    cases b with
    | leaf l' pos' =>
      cases h
      exact ⟨rfl, rfl⟩
    | group => cases h
  | group bracket first last parts ih =>
    cases b with
    | leaf => cases h
    | group bracket' first' last' parts' =>
      simp only [tokens, List.cons_append, List.append_assoc, List.nil_append] at h
      obtain ⟨hopening, hrest⟩ := List.cons.inj h
      cases hopening
      obtain ⟨rfl, rfl, rfl⟩ := ih _ _ _ _ _ _ _ hrest
      exact ⟨rfl, rfl⟩
  | nil =>
    rename_i qs bracket bracket' pos pos' r s h
    cases qs with
    | nil =>
      cases h
      exact ⟨rfl, rfl, rfl⟩
    | cons q qs => exact absurd h.symm tokensAll_cons_ne_closing
  | cons p ps ihp ihps =>
    rename_i qs bracket bracket' pos pos' r s h
    cases qs with
    | nil => exact absurd h tokensAll_cons_ne_closing
    | cons q qs =>
      rw [tokensAll, tokensAll, List.append_assoc, List.append_assoc] at h
      obtain ⟨rfl, hrest⟩ := ihp h
      obtain ⟨rfl, hpos, hr⟩ := ihps _ _ _ _ _ _ _ hrest
      exact ⟨rfl, hpos, hr⟩

theorem tokens_injective {a b : TokenTree} (h : a.tokens = b.tokens) : a = b :=
  (tokens_append_inj (r := []) (s := []) (by rw [h])).1

theorem isWellFormed_leaf {l : Leaf} {pos : Position} :
    (leaf l pos).IsWellFormed ↔ ∀ value, l = .atom value → Atom.IsAdmitted value := by
  constructor
  · intro h
    cases h with
    | leaf _ _ hl => exact hl
  · exact .leaf l pos

section Reading
open Form

theorem ofLeaf_eq_ok {pos : Position} {l : Leaf} {f : Form} :
    ofLeaf pos l = .ok f ↔ (leaf l pos).IsWellFormed ∧ (leaf l pos).form = f := by
  rw [isWellFormed_leaf]
  cases l with
  | string value note => simp [ofLeaf, form]
  | iri value => simp [ofLeaf, form]
  | atom value =>
    have hvalue : (∀ v, Leaf.atom value = .atom v → Atom.IsAdmitted v) ↔ Atom.IsAdmitted value :=
      ⟨fun h => h value rfl, by rintro h _ ⟨⟩; exact h⟩
    rw [hvalue, ofLeaf, form, Atom.classOf]
    cases hcls : Atom.classify value with
    | error fault =>
      constructor
      · intro h
        cases h
      · rintro ⟨h, -⟩
        obtain ⟨cls, h⟩ := h.exists_classify
        rw [hcls] at h
        cases h
    | ok cls => simp [Atom.isAdmitted_of_classify hcls]

theorem readForm_parts {parts : List TokenTree}
    (h : ∀ tree ∈ parts, ∀ stop frames rest,
      readForm stop frames (tree.tokens ++ rest) = resume stop frames tree.form rest)
    (stop : Position) (frame : Frame) (outer : List Frame) (rest : List Token) :
    readForm stop (frame :: outer) (tokensAll parts ++ rest) =
      readForm stop (⟨frame.bracket, frame.pos, (formAll parts).reverse ++ frame.done⟩ :: outer)
        rest := by
  induction parts generalizing frame with
  | nil => rfl
  | cons tree parts ih =>
    rw [tokensAll, List.append_assoc, h tree List.mem_cons_self, resume,
      ih fun t ht => h t (List.mem_cons_of_mem tree ht)]
    simp [Frame.push, formAll]

theorem close_eq_ok {bracket : Bracket} {first : Position} {parts : List TokenTree} {f : Form}
    (hparts : ∀ tree ∈ parts, tree.IsWellFormed) (last : Position) :
    Frame.close ⟨bracket, first, (formAll parts).reverse⟩ = .ok f ↔
      (group bracket first last parts).IsWellFormed ∧
        (group bracket first last parts).form = f := by
  have hlength : (formAll parts).reverse.length = parts.length := by simp [formAll_eq_map]
  rw [Frame.close, hlength, List.reverse_reverse]
  by_cases hodd : bracket = .curly ∧ parts.length % 2 = 1
  · rw [if_pos hodd]
    constructor
    · intro h
      cases h
    · rintro ⟨h, -⟩
      cases h with
      | group _ _ _ _ _ heven =>
        have := heven hodd.1
        omega
  · rw [if_neg hodd]
    have heven : bracket = .curly → parts.length % 2 = 0 := by
      intro hcurly
      have hne : ¬ parts.length % 2 = 1 := fun h => hodd ⟨hcurly, h⟩
      omega
    have hgroup := IsWellFormed.group bracket first last parts hparts heven
    exact ⟨fun h => ⟨hgroup, Except.ok.inj h⟩, fun h => congrArg _ h.2⟩

/-- The tokens of a well-formed tree are read as its form, whatever is open and whatever follows. -/
theorem readForm_tokens {tree : TokenTree} (h : tree.IsWellFormed) (stop : Position)
    (frames : List Frame) (rest : List Token) :
    readForm stop frames (tree.tokens ++ rest) = resume stop frames tree.form rest := by
  induction h generalizing stop frames rest with
  | leaf l pos hl => exact readForm_leaf (ofLeaf_eq_ok.2 ⟨.leaf l pos hl, rfl⟩) stop frames rest
  | group bracket first last parts hparts heven ih =>
    have hclose := (close_eq_ok hparts last).2 ⟨.group bracket first last parts hparts heven, rfl⟩
    calc readForm stop frames ((group bracket first last parts).tokens ++ rest)
        = readForm stop (⟨bracket, first, []⟩ :: frames)
            (tokensAll parts ++ ⟨.closing bracket, last⟩ :: rest) := by
          simp [tokens, readForm]
      _ = readForm stop (⟨bracket, first, (formAll parts).reverse ++ []⟩ :: frames)
            (⟨.closing bracket, last⟩ :: rest) := readForm_parts ih _ _ _ _
      _ = resume stop frames (group bracket first last parts).form rest := by
          rw [List.append_nil]
          exact readForm_closing hclose stop last frames rest

/-- A tree that is still open: its bracket, and its parts so far. -/
structure Open where
  bracket : Bracket
  first : Position
  parts : List TokenTree

namespace Open

def frame (g : Open) : Frame := ⟨g.bracket, g.first, (formAll g.parts).reverse⟩

def push (g : Open) (tree : TokenTree) : Open := ⟨g.bracket, g.first, g.parts ++ [tree]⟩

def consumed : List Open → List Token
  | [] => []
  | g :: outer => consumed outer ++ ⟨.opening g.bracket, g.first⟩ :: tokensAll g.parts

def AllWellFormed (gs : List Open) : Prop := ∀ g ∈ gs, ∀ tree ∈ g.parts, tree.IsWellFormed

theorem frame_push (g : Open) (tree : TokenTree) :
    (g.push tree).frame = g.frame.push tree.form := by
  simp [frame, push, Frame.push, formAll_eq_map]

theorem consumed_push (g : Open) (tree : TokenTree) (outer : List Open) :
    consumed (g.push tree :: outer) = consumed (g :: outer) ++ tree.tokens := by
  simp [consumed, push, tokensAll_append, tokensAll]

theorem AllWellFormed.push {g : Open} {tree : TokenTree} {outer : List Open}
    (h : AllWellFormed (g :: outer)) (htree : tree.IsWellFormed) :
    AllWellFormed (g.push tree :: outer) := by
  intro g' hg tree' htree'
  rcases List.mem_cons.1 hg with rfl | hg
  · rcases List.mem_append.1 htree' with hmem | hmem
    · exact h g List.mem_cons_self tree' hmem
    · rw [List.mem_singleton.1 hmem]
      exact htree
  · exact h g' (List.mem_cons_of_mem g hg) tree' htree'

theorem AllWellFormed.tail {g : Open} {outer : List Open} (h : AllWellFormed (g :: outer)) :
    AllWellFormed outer :=
  fun g' hg => h g' (List.mem_cons_of_mem g hg)

/-- What has been read and what is read until the outermost form is complete are the tokens of a
well-formed tree. -/
theorem readForm_sound {stop : Position} {frames : List Frame} {ts rest : List Token} {f : Form}
    (h : readForm stop frames ts = .ok (f, rest)) {gs : List Open}
    (hframes : gs.map frame = frames) (hgs : AllWellFormed gs) :
    ∃ tree : TokenTree, consumed gs ++ ts = tree.tokens ++ rest ∧ tree.IsWellFormed ∧
      tree.form = f := by
  fun_induction readForm stop frames ts generalizing gs with
  | case3 frames bracket pos ts ih =>
    have hnew : AllWellFormed (⟨bracket, pos, []⟩ :: gs) := by
      intro g hg
      rcases List.mem_cons.1 hg with rfl | hg
      · exact List.forall_mem_nil _
      · exact hgs g hg
    obtain ⟨tree, htokens, htree⟩ := ih h (by rw [List.map_cons, hframes]; rfl) hnew
    exact ⟨tree, by simpa [consumed, tokensAll] using htokens, htree⟩
  | case6 frame pos ts form hclose =>
    cases h
    obtain ⟨g, gs, rfl, rfl, hnil⟩ := List.map_eq_cons_iff.1 hframes
    obtain rfl := List.map_eq_nil_iff.1 hnil
    obtain htree := (close_eq_ok (hgs g List.mem_cons_self) pos).1 hclose
    exact ⟨_, by simp [consumed, tokens, Open.frame], htree⟩
  | case7 frame pos ts form next outer hclose ih =>
    obtain ⟨g, gs, rfl, rfl, hrest⟩ := List.map_eq_cons_iff.1 hframes
    obtain ⟨g', gs, rfl, rfl, rfl⟩ := List.map_eq_cons_iff.1 hrest
    obtain ⟨htree, rfl⟩ := (close_eq_ok (hgs g List.mem_cons_self) pos).1 hclose
    obtain ⟨tree, htokens, hread⟩ :=
      ih h (by rw [List.map_cons, frame_push]) (hgs.tail.push htree)
    refine ⟨tree, ?_, hread⟩
    rw [← htokens, consumed_push]
    simp [consumed, tokens, Open.frame]
  | case10 leaf pos ts form hleaf =>
    cases h
    obtain rfl := List.map_eq_nil_iff.1 hframes
    exact ⟨_, rfl, ofLeaf_eq_ok.1 hleaf⟩
  | case11 leaf pos ts form next outer hleaf ih =>
    obtain ⟨g, gs, rfl, rfl, rfl⟩ := List.map_eq_cons_iff.1 hframes
    obtain ⟨htree, rfl⟩ := ofLeaf_eq_ok.1 hleaf
    obtain ⟨tree, htokens, hread⟩ := ih h (by rw [List.map_cons, frame_push]) (hgs.push htree)
    refine ⟨tree, ?_, hread⟩
    rw [← htokens, consumed_push]
    simp [tokens]
  | _ => cases h

end Open

theorem readForm_eq_ok {stop : Position} {ts rest : List Token} {f : Form} :
    readForm stop [] ts = .ok (f, rest) ↔
      ∃ tree : TokenTree, ts = tree.tokens ++ rest ∧ tree.IsWellFormed ∧ tree.form = f := by
  constructor
  · intro h
    have hnone : ([] : List Open).map Open.frame = [] := rfl
    exact Open.readForm_sound h hnone nofun
  · rintro ⟨tree, rfl, htree, rfl⟩
    exact readForm_tokens htree stop [] rest

end Reading

end TokenTree

theorem Form.read_eq_ok {t : Text} {ts : List Token} {stop : Position}
    (h : scan t = .ok (ts, stop)) {f : Form} :
    read t = .ok f ↔ ∃ tree : TokenTree, tree.tokens = ts ∧ tree.IsWellFormed ∧ tree.form = f := by
  have hread : read t = .ok f ↔ readForm stop [] ts = .ok (f, []) := by
    rw [read, h]
    simp only
    split
    next he => simp [he]
    next he => simp [he]
    next he => simp [he]
  rw [hread, TokenTree.readForm_eq_ok]
  simp only [List.append_nil, eq_comm]

/-- The reader accepts exactly its grammar: a text is read as a form when its tokens are those of
exactly one tree, which is well formed and gives the form, and every other text that can be
scanned is refused. -/
theorem Form.read_accepts_grammar {t : Text} {ts : List Token} {stop : Position}
    (h : scan t = .ok (ts, stop)) :
    (∀ f, read t = .ok f ↔
      ∃ tree : TokenTree, (∀ other : TokenTree, other.tokens = ts ↔ other = tree) ∧
        tree.IsWellFormed ∧ tree.form = f) ∧
    ((¬ ∃ tree : TokenTree, tree.tokens = ts ∧ tree.IsWellFormed) → ∃ e, read t = .error e) := by
  constructor
  · intro f
    rw [read_eq_ok h]
    constructor
    · rintro ⟨tree, rfl, htree⟩
      exact ⟨tree, fun other => ⟨TokenTree.tokens_injective, fun he => by rw [he]⟩, htree⟩
    · rintro ⟨tree, honly, htree⟩
      exact ⟨tree, (honly tree).2 rfl, htree⟩
  · intro hnone
    rw [exists_eq_error]
    rintro ⟨f, hf⟩
    obtain ⟨tree, htokens, htree, -⟩ := (read_eq_ok h).1 hf
    exact hnone ⟨tree, htokens, htree⟩

def mapSample : Text := "\x7b:a [?x \"s\"@en\n _:b]\x7d"

theorem Form.read_accepts_grammar_mapSample :
    ∃ ts stop f, scan mapSample = .ok (ts, stop) ∧ read mapSample = .ok f ∧
      ∃ tree : TokenTree, (∀ other : TokenTree, other.tokens = ts ↔ other = tree) ∧
        tree.IsWellFormed ∧ tree.form = f := by
  obtain ⟨⟨ts, stop⟩, hscan⟩ :=
    exists_eq_ok_of_isSome (x := scan mapSample) (by decide +kernel)
  obtain ⟨f, hread⟩ := exists_eq_ok_of_isSome (x := read mapSample) (by decide +kernel)
  exact ⟨ts, stop, f, hscan, hread, ((read_accepts_grammar hscan).1 f).1 hread⟩

end GraphQuery
