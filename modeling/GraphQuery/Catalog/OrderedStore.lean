import GraphQuery.Catalog.Basic
import GraphQuery.Text.Quoted

namespace GraphQuery

namespace Text

theorem before_eq_true {s t : Text} : before s t = true ↔ s < t := by
  fun_induction before s t with
  | case1 s => simp
  | case2 b t => simp
  | case3 a s b t ih => simp [List.cons_lt_cons_iff, ih]

theorem lt_trichotomy (s t : Text) : s < t ∨ s = t ∨ t < s := by
  by_cases h : t < s
  · exact .inr (.inr h)
  · rcases List.le_iff_lt_or_eq.1 (List.not_lt.1 h) with hlt | heq
    · exact .inl hlt
    · exact .inr (.inl heq)

theorem ne_of_lt {s t : Text} (h : s < t) : s ≠ t := by
  rintro rfl
  exact List.lt_irrefl s h

end Text

def Item.ofEntry (e : Text × Text) : Item := ⟨e.1, .ok e.2⟩

/-- The keys ascend, so that each of them is there once. -/
def Ascends (entries : List (Text × Text)) : Prop := entries.Pairwise fun d e => d.1 < e.1

namespace OrderedStore

def insertInto (key value : Text) (entries : List (Text × Text)) : List (Text × Text) :=
  entries.filter (Text.before ·.1 key) ++ (key, value) :: entries.filter (Text.before key ·.1)

section Entries
variable {entries : List (Text × Text)} {key value : Text}

theorem mem_insertInto {e : Text × Text} :
    e ∈ insertInto key value entries ↔ e = (key, value) ∨ e ∈ entries ∧ e.1 ≠ key := by
  have hne : e.1 ≠ key ↔ e.1 < key ∨ key < e.1 := by
    constructor
    · intro h
      rcases Text.lt_trichotomy e.1 key with hlt | heq | hgt
      · exact .inl hlt
      · exact absurd heq h
      · exact .inr hgt
    · rintro (hlt | hgt)
      · exact Text.ne_of_lt hlt
      · exact (Text.ne_of_lt hgt).symm
  simp only [insertInto, List.mem_append, List.mem_cons, List.mem_filter, Text.before_eq_true, hne]
  grind

theorem ascends_insertInto (h : Ascends entries) : Ascends (insertInto key value entries) := by
  have hbelow : ∀ e ∈ entries.filter (Text.before ·.1 key), e.1 < key := by
    intro e he
    exact Text.before_eq_true.1 (List.mem_filter.1 he).2
  have habove : ∀ e ∈ entries.filter (Text.before key ·.1), key < e.1 := by
    intro e he
    exact Text.before_eq_true.1 (List.mem_filter.1 he).2
  apply List.pairwise_append.2
  refine ⟨h.filter _, List.pairwise_cons.2 ⟨habove, h.filter _⟩, ?_⟩
  intro d hd e he
  rcases List.mem_cons.1 he with rfl | he
  · exact hbelow d hd
  · exact List.lt_trans (hbelow d hd) (habove e he)

end Entries

end OrderedStore

structure OrderedStore where
  entries : List (Text × Text)
  isOpen : Bool
  ascends : Ascends entries

namespace OrderedStore

def empty : OrderedStore where
  entries := []
  isOpen := true
  ascends := List.Pairwise.nil

def insert (s : OrderedStore) (key value : Text) : OrderedStore where
  entries := insertInto key value s.entries
  isOpen := s.isOpen
  ascends := ascends_insertInto s.ascends

def erase (s : OrderedStore) (key : Text) : OrderedStore where
  entries := s.entries.filter (·.1 ≠ key)
  isOpen := s.isOpen
  ascends := s.ascends.filter _

def itemsUnder (s : OrderedStore) (start : Text) : List Item :=
  (s.entries.filter (start.isPrefixOf ·.1)).map Item.ofEntry

def opened {α : Type} (s : OrderedStore) (transaction : OrderedStore → Except StoreError α) :
    Except StoreError α :=
  if s.isOpen then transaction s else .error { cause := "DB Closed" }

instance : Store OrderedStore where
  update := opened
  view := opened
  set s key value := .ok (s.insert key value)
  delete s key := .ok (s.erase key)
  scan := itemsUnder
  close s := { s with isOpen := false }

def hexText (t : Text) : Text := t.flatMap fun b => Text.hex 2 b.toNat

def entryLine (e : Text × Text) : Text := hexText e.1 ++ " " ++ hexText e.2 ++ "\n"

def written (s : OrderedStore) : Text := s.entries.flatMap entryLine

def hexValue (b : UInt8) : UInt8 :=
  if Text.isDigit b then b - '0'.toUInt8 else b - 'a'.toUInt8 + 10

def ofHex : Text → Text
  | a :: b :: rest => (16 * hexValue a + hexValue b) :: ofHex rest
  | _ => []

/-- The store that lines describe; a line without a blank describes nothing. -/
def ofLines : List Text → OrderedStore
  | [] => empty
  | line :: rest =>
    match Text.splitAt ' '.toUInt8 line with
    | [key, value] => (ofLines rest).insert (ofHex key) (ofHex value)
    | _ => ofLines rest

def ofWritten (t : Text) : OrderedStore := ofLines (Text.splitAt '\n'.toUInt8 t)

end OrderedStore

def CatalogError.notDirectory (path : Text) : CatalogError :=
  let lock := path ++ "/LOCK"
  ⟨.open path, "Cannot write pid file " ++ Text.quote lock ++ " error: open " ++ lock ++
    ": not a directory"⟩

def CatalogError.noSuchDirectory (path : Text) : CatalogError :=
  ⟨.open path, "Invalid Dir: " ++ Text.quote path ++ " error: stat " ++ path ++
    ": not a directory"⟩

end GraphQuery
