import TileArchive.Directory.Entry

/-!
# `TileArchive.Directory.Search`: the row responsible for a tile

`Directory.find?` looks for a tile number by halving the range of rows that may hold it. A
row with exactly that number wins. Otherwise the row before the gap is the answer, provided
it is a pointer, whose leaf may hold any later number, or a run that covers the number.

`locate` carries the proof that its range lies within the rows, so every row that it looks at exists
and no case is needed for one that does not. `Directory.checkedFind?` in
`Proofs/Directory/Halving.lean` is the same search with machine indices and without this proof.

In a directory out of order the search still ends, and what it finds depends on the rows it happens
to look at. It is then a row that is responsible for the number all the same, or none.
-/

set_option autoImplicit false

namespace TileArchive.Directory

/-- Where a search ends. The search compares numbers only, and whether the row before a gap
is responsible for the number is asked afterwards. -/
inductive Place where
  /-- The row has the number looked for. -/
  | found (e : Entry)
  /-- No row met on the way has it; the number belongs in front of the row at `index`. -/
  | gap (index : Nat)
deriving DecidableEq, Repr

/-- Searches the rows from `low` up to but not including `high`. -/
def locate (es : List Entry) (id : UInt64) (low high : Nat) (fits : high ≤ es.length) : Place :=
  if h : low < high then
    let middle := (low + high - 1) / 2
    have : middle < es.length := by omega
    let e := es[middle]
    if e.tileId < id then locate es id (middle + 1) high fits
    else if id < e.tileId then locate es id low middle (by omega)
    else .found e
  else .gap low
termination_by high - low

/-- The row responsible for a tile number. -/
def find? (d : Directory) (id : UInt64) : Option Entry :=
  match locate d.entries id 0 d.entries.length (Nat.le_refl _) with
  | .found e => some e
  | .gap 0 => none
  | .gap (index + 1) =>
    d.entries[index]?.filter fun e => e.isPointer || e.covers id

end TileArchive.Directory
