import ServingSweep.Plan.Basic
import ServingSweep.Sweep.Rows

/-!
# Grids

Explicit sets of overrides. Neighbours that differ in the batch size only form a
row.
-/

namespace ServingSweep.Grid

/-- The axes with values, those of the batch size moved to the end. -/
def nesting (axes : List Axis) : List Axis :=
  let used := axes.filter (fun a => !a.values.isEmpty)
  used.filter (·.key != Overrides.batchSizeKey) ++ used.filter (·.key == Overrides.batchSizeKey)

/-- Each set of overrides with each value of the axis, the values varying faster. -/
def extend (sets : List Overrides) (axis : Axis) : List Overrides :=
  sets.flatMap (fun o => axis.values.map (fun v => Keyed.insert o axis.key v))

/-- Every choice of one value from each axis; without axes there is none. -/
def choices (axes : List Axis) : List Overrides :=
  ((nesting axes).foldl extend [[]]).filter (fun o => !o.isBaseline)

def rows (sets : List Overrides) : Rows Overrides := Rows.ofBlocks Overrides.rowKey sets

def ofAxes (axes : List Axis) : Rows Overrides := rows (choices axes)

end ServingSweep.Grid
