import Quadratics.Report.Roots
/-! The terms of an equation in a box with rounded corners. -/
namespace Quadratics.Report

def pad (width : Nat) (text : String) : String :=
  text ++ String.ofList (List.replicate (width - text.length) ' ')

def dashes (width : Nat) : String := String.ofList (List.replicate (width + 2) '─')

def rule (left middle right : String) (widths : List Nat) : String :=
  left ++ middle.intercalate (widths.map dashes) ++ right

def row (widths : List Nat) (cells : List String) : String :=
  "│" ++ "│".intercalate ((widths.zip cells).map fun (w, text) => s!" {pad w text} ") ++ "│"

def columnWidths (rows : List (List String)) : List Nat :=
  rows.foldl (fun widths cells => List.zipWith (fun w text => max w text.length) widths cells)
    ((rows.headD []).map fun _ => 0)

def box (rows : List (List String)) : String :=
  let widths := columnWidths rows
  let inside := (rows.map (row widths)).intersperse (rule "├" "┼" "┤" widths)
  "\n".intercalate ([rule "╭" "┬" "╮" widths] ++ inside ++ [rule "╰" "┴" "╯" widths])

def termTable (ts : List Term) (precision : Nat) : String :=
  box (["power", "coefficient"] ::
    ts.map fun t => [toString t.power.toInt, number t.coefficient precision])

end Quadratics.Report
