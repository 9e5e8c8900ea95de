import LocalRepair.Stats
import LocalRepair.Problem
import LocalRepair.Decimal.Fixed

/-!
# The statistics table

A line with the totals and below it a table with one row for every constraint
that took part, the most picked ones first. Columns are as wide as their widest
cell with a blank on both sides, and a rule stands above and below every row.

## Main definitions

* `Table.render`: rows of cells as text.
* `Stats.table`: the statistics of a search on a problem.
-/

namespace LocalRepair

namespace Table

/-- The width of the widest cell in each column. -/
def widths (rows : List (List String)) : List Nat :=
  rows.foldl
    (fun widest row =>
      (List.range (max widest.length row.length)).map fun i =>
        max (widest.getD i 0) ((row.getD i "").length))
    []

/-- A line between rows. -/
def rule (widths : List Nat) : String :=
  "+" ++ String.join (widths.map fun w => String.ofList (List.replicate (w + 2) '-') ++ "+")
    ++ "\n"

/-- One row. -/
def line (widths : List Nat) (row : List String) : String :=
  "|" ++ String.join (List.zipWith
      (fun w cell =>
        " " ++ cell ++ String.ofList (List.replicate (w - cell.length) ' ') ++ " |")
      widths row)
    ++ "\n"

/-- A table. -/
def render (rows : List (List String)) : String :=
  let ws := widths rows
  rule ws ++ String.join (rows.map fun row => line ws row ++ rule ws)

end Table

namespace Stats

/-- The titles of the columns. -/
def titles : List String :=
  ["Constraint Type", "ID", "Description", "Picks", "Transitions", "Time / Pick (µs)",
    "Total Time (ms)"]

/-- Microseconds per pick; without picks there is no time either. -/
def microsPerPick (a : Activity) : Float :=
  if a.picks = 0 then 0.0 else a.micros.toUInt64.toFloat / a.picks.toUInt64.toFloat

/-- The row of one constraint. -/
def row (p : Problem) (id : Nat) (a : Activity) : Except Fault (List String) := do
  let c ← p.constraint id
  return [c.kindName, toString id, c.describe p.graphs, toString a.picks,
    toString a.transitions, twoPlaces (microsPerPick a),
    twoPlaces (a.micros.toUInt64.toFloat / 1000.0)]

/-- The statistics of a search on a problem as text. -/
def table (s : Stats) (p : Problem) : Except Fault String := do
  let busiestFirst := s.activity.mergeSort fun x y => y.2.picks ≤ x.2.picks
  let rows ← busiestFirst.mapM fun (id, a) => row p id a
  return "attempts: " ++ toString s.attempts ++ "  flips: " ++ toString s.flips
    ++ "  random walks: " ++ toString s.randomPicks ++ "\n" ++ Table.render (titles :: rows)

end Stats
end LocalRepair
