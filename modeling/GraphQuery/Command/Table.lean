import GraphQuery.Command.Basic
import GraphQuery.Text.Utf8
import GraphQuery.Text.Width

namespace GraphQuery

namespace Table

def blanks (n : Nat) : Text := List.replicate n ' '.toUInt8

def cellLines (t : Text) : List Text := Text.splitAt '\n'.toUInt8 (Text.trimBlank t)

def cellWidth (t : Text) : Nat :=
  ((cellLines t).map fun l => Text.width (Text.trimBlank l)).foldl max 0

def leftCell (width : Nat) (t : Text) : Text := t ++ blanks (width - Text.width t)

/-- A cell in the middle of its column; an odd blank goes to the right. -/
def middleCell (width : Nat) (t : Text) : Text :=
  let spare := width - Text.width t
  blanks (spare / 2) ++ t ++ blanks (spare - spare / 2)

def widths (rows : List (List Text)) : List Nat :=
  rows.foldr (fun row ws => zipMax (row.map cellWidth) ws) []
where
  zipMax : List Nat → List Nat → List Nat
    | [], ws => ws
    | vs, [] => vs
    | v :: vs, w :: ws => max v w :: zipMax vs ws

def cells (cell : Nat → Text → Text) : List Nat → List Text → Text
  | w :: ws, t :: row => " " ++ cell w t ++ " |" ++ cells cell ws row
  | _, _ => []

def line (cell : Nat → Text → Text) (ws : List Nat) (row : List Text) : Text :=
  "|" ++ cells cell ws row ++ "\n"

def dashes : List Nat → Text
  | [] => []
  | w :: ws => List.replicate (w + 2) '-'.toUInt8 ++ "|" ++ dashes ws

/-- The lines of a row: those of its cells side by side, where a cell that has no more is empty. -/
def rowLines (row : List Text) : List (List Text) :=
  let cells := row.map cellLines
  let height := (cells.map List.length).foldl max 0
  (List.range height).map fun i => cells.map fun ls => ls.getD i []

def separator (ws : List Nat) : Text := "|" ++ dashes ws ++ "\n"

def render (header : List Text) (rows : List (List Text)) : Text :=
  let ws := widths (header :: rows)
  line middleCell ws header ++ separator ws ++
    rows.flatMap fun row => (rowLines row).flatMap (line leftCell ws)

end Table

namespace Command

def selectionRows (n : Nat) : List Selection → List (List Text)
  | [] => []
  | s :: rest =>
    [Text.ofNat n, Element.varText s.var, Text.ofOption Element.text s.value] ::
      selectionRows (n + 1) rest

def selectionTable (c : Command) : Text :=
  if c.selection.isEmpty then "_No projection_\n"
  else Table.render ["#", "variable", "constant"] (selectionRows 0 c.selection)

def listed (iris : List Text) : Text := Text.join ", " iris

def explainDataset (c : Command) : Text :=
  "Dataset\n  default graphs: " ++ listed c.graphs ++ " (union depth " ++
    Text.ofNat c.graphDepth ++ ")\n" ++
    Text.when (!c.namedGraphs.isEmpty) ("  named graphs:   " ++ listed c.namedGraphs ++ "\n") ++
    Text.when (!c.referencedGraphs.isEmpty)
      ("  GRAPH IRIs:     " ++ listed c.referencedGraphs ++ "\n")

def modifierLine (t : Text) : Text := "  " ++ t ++ "\n"

def orderModifier (o : Order) : Text := "order by " ++ o.text

def limitModifier (n : Int) : Text := "limit " ++ Text.ofInt n

def modifiers (c : Command) : List Text :=
  let offset : List Text := if 0 < c.offset then ["offset " ++ Text.ofInt c.offset] else []
  let distinct : List Text := if c.distinct then ["distinct"] else []
  c.order.map orderModifier ++ c.limit.toList.map limitModifier ++ offset ++ distinct

def explain (c : Command) : Text :=
  c.kind.heading ++ " query\n\n" ++ c.explainDataset ++ "\nProjection\n" ++ c.selectionTable ++
    "\nWhere\n  " ++ c.plan.text ++ "\n" ++
    Text.when (!c.modifiers.isEmpty) ("\nModifiers\n" ++ c.modifiers.flatMap modifierLine)

end Command

end GraphQuery
