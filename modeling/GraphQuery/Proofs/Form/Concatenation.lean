import GraphQuery.Proofs.Form.Grammar
import GraphQuery.Proofs.Form.Spans

namespace GraphQuery

namespace Position

def down (n : Nat) (p : Position) : Position := ⟨p.line + n, p.column⟩

theorem next_down (n : Nat) (p : Position) (b : UInt8) : (p.down n).next b = (p.next b).down n := by
  by_cases hb : b = '\n'.toUInt8
  · simp [next, down, hb, Nat.add_right_comm]
  · simp [next, down, hb]

theorem after_down (n : Nat) (p : Position) (t : Text) :
    (p.down n).after t = (p.after t).down n := by
  induction t generalizing p with
  | nil => rfl
  | cons b t ih => rw [after_cons, next_down, ih, after_cons]

theorem start_after_newline (t : Text) :
    (start.after t).next '\n'.toUInt8 = start.down (1 + t.count '\n'.toUInt8) := by
  rw [start_after]
  simp [next, down, start, Nat.add_comm]

end Position

def Token.moved (f : Position → Position) (token : Token) : Token := ⟨token.lexeme, f token.pos⟩

namespace Form

mutual

def moved (f : Position → Position) : Form → Form
  | atom pos cls value => atom (f pos) cls value
  | string pos value note => string (f pos) value note
  | iri pos value => iri (f pos) value
  | group pos bracket forms => group (f pos) bracket (movedAll f forms)

def movedAll (f : Position → Position) : List Form → List Form
  | [] => []
  | form :: rest => moved f form :: movedAll f rest

end

theorem movedAll_eq_map (f : Position → Position) (forms : List Form) :
    movedAll f forms = forms.map (moved f) := by
  induction forms with
  | nil => rfl
  | cons form forms ih => rw [movedAll, ih, List.map_cons]

end Form

namespace Scan

theorem Scanned.down {pos stop : Position} {t : Text} {ts : List Token} (h : Scanned pos t ts stop)
    (n : Nat) : Scanned (pos.down n) t (ts.map (Token.moved (Position.down n))) (stop.down n) := by
  induction h with
  | done hgap =>
    rw [← Position.after_down]
    exact .done hgap
  | token hgap hword _ ih =>
    rw [← Position.after_down, ← Position.after_down] at ih
    rw [List.map_cons, Token.moved, ← Position.after_down]
    exact .token hgap hword ih

section Behind
variable {rest : Text}

theorem head?_append_newline {P : UInt8 → Prop} (h : ∀ b, rest.head? = some b → P b)
    (hnewline : P '\n'.toUInt8) (u : Text) :
    ∀ b, (rest ++ '\n'.toUInt8 :: u).head? = some b → P b := by
  cases rest with
  | nil =>
    rintro b ⟨⟩
    exact hnewline
  | cons c rest => exact h

theorem IsNote.append_newline {n : Note} {word : Text} (h : IsNote rest n word) (u : Text) :
    IsNote (rest ++ '\n'.toUInt8 :: u) n word := by
  cases h with
  | none hat hcarets =>
    refine .none ?_ ?_
    · have hne : ∀ b, rest.head? = some b → b ≠ '@'.toUInt8 := by
        rintro b hb rfl
        exact hat hb
      intro hb
      exact head?_append_newline hne (by decide) u _ hb rfl
    · match rest with
      | [] =>
        rintro ⟨⟩
      | [c] =>
        rintro ⟨⟩
      | c :: d :: rest => exact hcarets
  | language tag hne htag hrest =>
    exact .language tag hne htag (head?_append_newline hrest (by decide) u)
  | datatype iri hiri => exact .datatype iri hiri

theorem IsWord.append_newline {l : Lexeme} {word : Text} (h : IsWord rest l word) (u : Text) :
    IsWord (rest ++ '\n'.toUInt8 :: u) l word := by
  cases h with
  | opening bracket => exact .opening bracket
  | closing bracket => exact .closing bracket
  | string hbody hnote => exact .string hbody (hnote.append_newline u)
  | iri value hstart hvalue => exact .iri value hstart hvalue
  | atom b more hb hmore hlt hrest =>
    refine .atom b more hb hmore ?_ (head?_append_newline hrest (by decide) u)
    intro hb
    rw [← List.append_assoc]
    apply startsIri_append (hlt hb)
    rintro c ⟨⟩
    decide

theorem head?_append_of_ne_nil {t : Text} (ht : t ≠ []) (u : Text) : (t ++ u).head? = t.head? := by
  cases t with
  | nil => exact absurd rfl ht
  | cons b t => rfl

theorem IsGap.append {gap : Text} (h : IsGap rest gap) (hrest : rest ≠ []) (u : Text) :
    IsGap (rest ++ u) gap := by
  induction h with
  | nil hhead =>
    refine .nil ?_
    rwa [head?_append_of_ne_nil hrest]
  | blank hb _ ih => exact .blank hb ih
  | @comment words gap hwords hend _ ih =>
    refine .comment hwords ?_ ih
    rwa [← List.append_assoc, head?_append_of_ne_nil (by simp [hrest])]

/-- A newline closes the comment that a gap may end with. -/
theorem IsGap.newline {gap gap' : Text} (h : IsGap [] gap) (h' : IsGap rest gap') :
    IsGap rest (gap ++ '\n'.toUInt8 :: gap') := by
  induction h with
  | nil _ => exact .blank (.inr (by decide)) h'
  | blank hb _ ih => exact .blank hb ih
  | @comment words gap hwords hend _ ih =>
    rw [List.cons_append, List.append_assoc]
    refine .comment hwords ?_ ih
    rw [List.append_assoc]
    rw [List.append_nil] at hend
    exact head?_append_newline hend rfl _

end Behind

theorem Scanned.append {pos middle stop : Position} {t u : Text} {ts us : List Token}
    (h : Scanned pos t ts middle) (h' : Scanned (middle.next '\n'.toUInt8) u us stop) :
    Scanned pos (t ++ '\n'.toUInt8 :: u) (ts ++ us) stop := by
  induction h with
  | @done pos gap hgap =>
    -- the last gap of the first text, the newline and the first gap of the second become one
    cases h' with
    | done hgap' =>
      have hstop : ((pos.after gap).next '\n'.toUInt8).after u =
          pos.after (gap ++ '\n'.toUInt8 :: u) := by simp
      rw [hstop]
      exact .done (hgap.newline hgap')
    | @token _ _ gap' word rest l us hgap' hword hrest =>
      have hstart : ((pos.after gap).next '\n'.toUInt8).after gap' =
          pos.after (gap ++ '\n'.toUInt8 :: gap') := by simp
      have htext : gap ++ '\n'.toUInt8 :: (gap' ++ (word ++ rest)) =
          gap ++ '\n'.toUInt8 :: gap' ++ (word ++ rest) := by simp
      rw [hstart] at hrest ⊢
      rw [htext]
      exact .token (hgap.newline hgap') hword hrest
  | @token pos _ gap word rest l ts hgap hword _ ih =>
    have htext : gap ++ (word ++ rest) ++ '\n'.toUInt8 :: u =
        gap ++ (word ++ (rest ++ '\n'.toUInt8 :: u)) := by simp
    have hne : word ++ rest ≠ [] := by
      obtain ⟨b, more, rfl⟩ := hword.exists_cons
      exact List.cons_ne_nil _ _
    have hgap' := hgap.append hne ('\n'.toUInt8 :: u)
    rw [List.append_assoc] at hgap'
    rw [htext]
    exact .token hgap' (hword.append_newline u) (ih h')

end Scan

namespace TokenTree

mutual

def moved (f : Position → Position) : TokenTree → TokenTree
  | leaf l pos => leaf l (f pos)
  | group bracket first last parts => group bracket (f first) (f last) (movedAll f parts)

def movedAll (f : Position → Position) : List TokenTree → List TokenTree
  | [] => []
  | tree :: rest => moved f tree :: movedAll f rest

end

theorem movedAll_eq_map (f : Position → Position) (trees : List TokenTree) :
    movedAll f trees = trees.map (moved f) := by
  induction trees with
  | nil => rfl
  | cons tree trees ih => rw [movedAll, ih, List.map_cons]

theorem tokensAll_moved (f : Position → Position) (trees : List TokenTree) :
    tokensAll (movedAll f trees) = (tokensAll trees).map (Token.moved f) := by
  induction trees using TokenTree.rec_1 (motive_1 := fun tree =>
      (tree.moved f).tokens = tree.tokens.map (Token.moved f)) with
  | leaf l pos => rfl
  | group bracket first last parts ih => simp [moved, tokens, ih, Token.moved]
  | nil => rfl
  | cons tree trees ih ihs => rw [movedAll, tokensAll, ih, ihs, tokensAll, List.map_append]

theorem formAll_moved (f : Position → Position) (trees : List TokenTree) :
    formAll (movedAll f trees) = Form.movedAll f (formAll trees) := by
  induction trees using TokenTree.rec_1 (motive_1 := fun tree =>
      (tree.moved f).form = tree.form.moved f) with
  | leaf l pos => cases l <;> rfl
  | group bracket first last parts ih => rw [moved, form, ih, form, Form.moved]
  | nil => rfl
  | cons tree trees ih ihs => rw [movedAll, formAll, ih, ihs, formAll, Form.movedAll]

theorem IsWellFormed.moved {tree : TokenTree} (h : tree.IsWellFormed) (f : Position → Position) :
    (tree.moved f).IsWellFormed := by
  induction h with
  | leaf l pos hl => exact .leaf l (f pos) hl
  | group bracket first last parts _ heven ih =>
    rw [TokenTree.moved, movedAll_eq_map]
    refine .group _ _ _ _ ?_ (by simpa using heven)
    simpa using ih

end TokenTree

namespace Form
open TokenTree

theorem readForms_of_readForm {stop : Position} {ts left : List Token} {f : Form}
    (h : readForm stop [] ts = .ok (f, left)) :
    readForms stop ts = (readForms stop left).map (f :: ·) := by
  cases ts with
  | nil => cases h
  | cons token rest =>
    rw [readForms]
    split
    next he =>
      rw [h] at he
      cases he
    next he =>
      rw [h] at he
      cases he
      rfl

/-- All forms are read from tokens exactly when these are the tokens of well-formed trees, one
behind the other. -/
theorem readForms_eq_ok {stop : Position} {ts : List Token} {fs : List Form} :
    readForms stop ts = .ok fs ↔
      ∃ trees : List TokenTree, tokensAll trees = ts ∧ (∀ tree ∈ trees, tree.IsWellFormed) ∧
        formAll trees = fs := by
  constructor
  · intro h
    fun_induction readForms stop ts generalizing fs with
    | case1 =>
      cases h
      exact ⟨[], rfl, nofun, rfl⟩
    | case2 => cases h
    | case3 token ts form left hread ih =>
      obtain ⟨gs, hgs, rfl⟩ := map_eq_ok.1 h
      obtain ⟨tree, htokens, htree, rfl⟩ := readForm_eq_ok.1 hread
      obtain ⟨trees, rfl, htrees, rfl⟩ := ih hgs
      refine ⟨tree :: trees, by rw [tokensAll, htokens], ?_, by rw [formAll]⟩
      exact List.forall_mem_cons.2 ⟨htree, htrees⟩
  · rintro ⟨trees, rfl, htrees, rfl⟩
    induction trees with
    | nil => rw [tokensAll, readForms]; rfl
    | cons tree trees ih =>
      obtain ⟨htree, htrees⟩ := List.forall_mem_cons.1 htrees
      have hread := readForm_tokens htree stop [] (tokensAll trees)
      rw [tokensAll, readForms_of_readForm hread, ih htrees, formAll]
      rfl

theorem readForms_moved {stop : Position} {ts : List Token} {fs : List Form}
    (h : readForms stop ts = .ok fs) (f : Position → Position) (stop' : Position) :
    readForms stop' (ts.map (Token.moved f)) = .ok (fs.map (moved f)) := by
  obtain ⟨trees, rfl, htrees, rfl⟩ := readForms_eq_ok.1 h
  refine readForms_eq_ok.2 ⟨TokenTree.movedAll f trees, tokensAll_moved f trees, ?_, ?_⟩
  · rw [TokenTree.movedAll_eq_map, List.forall_mem_map]
    intro tree htree
    exact (htrees tree htree).moved f
  · rw [formAll_moved, movedAll_eq_map]

theorem readForms_append {stop stop' : Position} {ts us : List Token} {fs gs : List Form}
    (h : readForms stop ts = .ok fs) (h' : readForms stop' us = .ok gs) (last : Position) :
    readForms last (ts ++ us) = .ok (fs ++ gs) := by
  obtain ⟨trees, rfl, htrees, rfl⟩ := readForms_eq_ok.1 h
  obtain ⟨trees', rfl, htrees', rfl⟩ := readForms_eq_ok.1 h'
  refine readForms_eq_ok.2 ⟨trees ++ trees', tokensAll_append trees trees', ?_, ?_⟩
  · exact List.forall_mem_append.2 ⟨htrees, htrees'⟩
  · simp only [formAll_eq_map, List.map_append]

theorem readAll_eq_ok {t : Text} {fs : List Form} :
    readAll t = .ok fs ↔ ∃ ts stop, scan t = .ok (ts, stop) ∧ readForms stop ts = .ok fs := by
  rw [readAll]
  split
  next e he => simp [he]
  next ts stop he => simp [he]

/-- The forms of two texts with a newline between them are those of the first and, as many lines
further down as the first and the newline take, those of the second. -/
theorem readAll_append {a b : Text} {fs gs : List Form} (ha : readAll a = .ok fs)
    (hb : readAll b = .ok gs) :
    readAll (a ++ '\n'.toUInt8 :: b) =
      .ok (fs ++ gs.map (moved (Position.down (1 + a.count '\n'.toUInt8)))) := by
  obtain ⟨ts, middle, hscan, hread⟩ := readAll_eq_ok.1 ha
  obtain ⟨us, stop, hscan', hread'⟩ := readAll_eq_ok.1 hb
  have hfirst := Scan.tokens_eq_ok.1 hscan
  have hsecond := (Scan.tokens_eq_ok.1 hscan').down (1 + a.count '\n'.toUInt8)
  rw [← Position.start_after_newline, ← hfirst.stop_eq] at hsecond
  have hscans := Scan.tokens_eq_ok.2 (hfirst.append hsecond)
  have hmoved := readForms_moved hread' (Position.down (1 + a.count '\n'.toUInt8)) stop
  exact readAll_eq_ok.2 ⟨_, _, hscans, readForms_append hread hmoved _⟩

/-- The first text ends in a comment, the second has a string over two lines in a list. -/
theorem readAll_append_samples :
    ∃ fs gs, readAll "a\n<b> ;c (" = .ok fs ∧ readAll "(\"x\ny\" ?z) <" = .ok gs ∧
      readAll ("a\n<b> ;c (" ++ '\n'.toUInt8 :: "(\"x\ny\" ?z) <") =
        .ok (fs ++ gs.map (moved (Position.down 2))) := by
  obtain ⟨fs, hfs⟩ := exists_eq_ok_of_isSome (x := readAll "a\n<b> ;c (") (by decide +kernel)
  obtain ⟨gs, hgs⟩ := exists_eq_ok_of_isSome (x := readAll "(\"x\ny\" ?z) <") (by decide +kernel)
  have hcount : 1 + (Text.ofString "a\n<b> ;c (").count '\n'.toUInt8 = 2 := by decide +kernel
  have happend := readAll_append hfs hgs
  rw [hcount] at happend
  exact ⟨fs, gs, hfs, hgs, happend⟩

end Form

end GraphQuery
