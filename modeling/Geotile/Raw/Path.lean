/-
**Paths as a word and a byte.**

A tile is held in memory as a word and a byte, and nothing about the two says that they belong
together.  This module does on them what `Geotile.Tile` does on tiles, one level of the tree being
two bits of the word, and every shift and every sum or difference of bytes is checked.  Several of
the operations rely on what their callers know: a path is cut only to a depth that it has, and its
parts are only asked for below it.  A caller that was wrong would end in a fault, or in a word with
bits that its depth leaves no room for.

Main definitions:

* `Geotile.Raw.Path`, `Geotile.Tile.raw` — a word and a byte, and those of a tile;
* `Geotile.Raw.Cell`, `Geotile.Cell.raw` — a row, a column and a zoom, and those of a cell;
* `Geotile.Raw.Path.parse`, `Geotile.Raw.Path.ofNumbers`, `Geotile.Raw.Path.ofCell`,
  `Geotile.Raw.Path.atPosition` — paths read from texts, numbers, cells and positions;
* `Geotile.Raw.Path.digit?`, `Geotile.Raw.Path.text` — the digits of a path;
* `Geotile.Raw.Path.cut`, `Geotile.Raw.Path.contains`, `Geotile.Raw.Path.parent?`,
  `Geotile.Raw.Path.shorten` — dropping levels;
* `Geotile.Raw.Path.children?`, `Geotile.Raw.Path.descendants`, `Geotile.Raw.Path.below`,
  `Geotile.Raw.Path.edge` — adding levels;
* `Geotile.Raw.Path.compare` — the order;
* `Geotile.Raw.Path.step`, `Geotile.Raw.Path.neighbour` — the tiles around;
* `Geotile.Raw.Path.cell` — the row and the column.
-/

import Geotile.Raw.Checked
import Geotile.Heading
import Geotile.Position
import Geotile.Tile.Text

set_option autoImplicit false

namespace Geotile

namespace Raw

open Checked

/-- A packed path, with nothing promised of it. -/
structure Path where
  /-- The packed quadrants, the deepest in the lowest bits. -/
  bits : UInt64
  /-- The number of quadrants. -/
  depth : UInt8
  deriving DecidableEq

/-- A row, a column and a zoom. -/
structure Cell where
  /-- The row, counted southward. -/
  row : UInt32
  /-- The column, counted eastward. -/
  column : UInt32
  /-- The zoom of the grid. -/
  zoom : UInt8
  deriving DecidableEq

end Raw

/-- A tile as it is held in memory. -/
def Tile.raw (t : Tile) : Raw.Path := ⟨t.code, .ofNat t.depth⟩

/-- The numbers that the words of a cell stand for. -/
def Raw.Cell.cell (c : Raw.Cell) : Geotile.Cell := ⟨c.row.toNat, c.column.toNat, c.zoom.toNat⟩

/-- A cell in words, which stand for its numbers as long as these fit into them. -/
def Cell.raw (c : Cell) : Raw.Cell := ⟨.ofNat c.row, .ofNat c.column, .ofNat c.zoom⟩

namespace Raw

open Checked

/-! ### Reading -/

/-- A word read on by the quadrants that items stand for; the first item that stands for none ends
the reading. -/
def readInto {α : Type} (read : α → Option Quadrant) : UInt64 → List α → Checked (Except α UInt64)
  | w, [] => pure (.ok w)
  | w, a :: as =>
    match read a with
    | none => pure (.error a)
    | some q => do
      let above ← shiftLeft w 2
      readInto read (above ||| Packed.bits q) as

namespace Path

/-- A path put together from a word and a byte that their maker vouches for. -/
def ofParts (bits : UInt64) (depth : UInt8) : Checked Path :=
  if depth = 0 ∨ maxDepth < depth.toNat then .error .offTree else .ok ⟨bits, depth⟩

/-- A path read from items that take up a number of places, which is to be its depth. -/
def ofItems {α : Type} (read : α → Option Quadrant) (places : Nat) (deep : PathError)
    (bad : α → PathError) (items : List α) : Checked (Except PathError Path) :=
  if places = 0 then pure (.error .empty)
  else if maxDepth < places then pure (.error deep)
  else do
    match ← readInto read 0 items with
    | .error a => return .error (bad a)
    | .ok w => return .ok ⟨w, .ofNat places⟩

/-- A path read from the text of its digits. -/
def parse (s : String) : Checked (Except PathError Path) :=
  let bytes := Text.byteLength s.toList
  ofItems Quadrant.ofDigit? bytes (.tooDeep s bytes) (.badDigit s) s.toList

/-- A path read from the numbers of its quadrants. -/
def ofNumbers (numbers : List UInt8) : Checked (Except PathError Path) :=
  let shown := numbers.map UInt8.toNat
  ofItems (fun n => Quadrant.ofNumber? n.toNat) numbers.length
    (.tooDeep (PathError.showNumbers shown) numbers.length)
    (fun n => .badNumber shown n.toNat) numbers

/-- A word read on by the lowest bits of a row and a column, the higher ones first. -/
def interleave (row column : UInt64) : (levels : Nat) → UInt64 → Checked UInt64
  | 0, w => pure w
  | n + 1, w => do
    let r ← shiftRight row n
    let c ← shiftRight column n
    let above ← shiftLeft w 2
    let south ← shiftLeft (r &&& 1) 1
    interleave row column n (above ||| south ||| (c &&& 1))

end Path

/-- Whether a cell lies inside its grid. -/
def Cell.inGrid (c : Cell) : Checked Bool := do
  if maxDepth < c.zoom.toNat then return false
  let side ← shiftLeft 1 c.zoom.toNat
  return c.row.toUInt64 < side && c.column.toUInt64 < side

namespace Path

/-- The path to a cell. -/
def ofCell (c : Cell) : Checked (Except PathError Path) := do
  if c.zoom = 0 then return .error (.outsideGrid c.cell)
  if ← c.inGrid then
    return .ok ⟨← interleave c.row.toUInt64 c.column.toUInt64 c.zoom.toNat 0, c.zoom⟩
  return .error (.outsideGrid c.cell)

/-- The path to the tile of a position at a depth. -/
def atPosition (p : Position) (depth : UInt8) :
    Checked (Except PositionError (Except PathError Path)) := do
  if !p.isFinite then return .error (.notFinite p)
  if depth = 0 ∨ maxDepth < depth.toNat then return .error (.badZoom depth.toNat)
  -- the last row and column of the grid, at which the projection stops
  let last := (← shiftLeft 1 depth.toNat) - 1
  let row := min (UInt64.ofNat (p.row depth.toNat)) last
  let column := min (UInt64.ofNat (p.column depth.toNat)) last
  return .ok (← ofCell ⟨row.toUInt32, column.toUInt32, depth⟩)

/-! ### Digits -/

/-- The number of the quadrant at a level. -/
def digit? (p : Path) (level : UInt8) : Checked (Option UInt8) := do
  if p.depth ≤ level then return none
  let rest ← minus (← minus p.depth 1) level
  return some ((← shiftRight p.bits (2 * rest.toNat)) &&& 3).toUInt8

/-- The numbers of all quadrants, from the whole map down. -/
def digits (p : Path) : Checked (List UInt8) := do
  let each ← (List.range p.depth.toNat).mapM fun level => p.digit? (.ofNat level)
  return each.filterMap id

/-- The digits of a path as one text. -/
def text (p : Path) : Checked String := do
  let chars ← (← p.digits).mapM fun d => return Char.ofNat (← plus 48 d).toNat
  return .ofList chars

/-! ### Dropping levels -/

/-- The first levels of a path; the depth must be one that it has. -/
def cut (p : Path) (depth : UInt8) : Checked Path := do
  let dropped ← minus p.depth depth
  return ⟨← shiftRight p.bits (2 * dropped.toNat), depth⟩

/-- Whether the second path lies inside the first. -/
def contains (p q : Path) : Checked Bool := do
  if q.depth < p.depth then return false
  return (← q.cut p.depth).bits == p.bits

/-- Whether one of two paths lies inside the other. -/
def meets (p q : Path) : Checked Bool := do
  if ← p.contains q then return true
  q.contains p

/-- The path one level up. -/
def parent? (p : Path) : Checked (Option Path) := do
  if p.depth ≤ 1 then return none
  return some (← p.cut (← minus p.depth 1))

/-- The path with as many levels as a selector asks for. -/
def shorten (p : Path) (selector : Int64) : Checked Path := do
  let current := Int64.ofNat p.depth.toNat
  let asked := if selector ≤ 0 then saturatingPlus current selector else selector
  p.cut (← clamp 1 current asked).toUInt64.toUInt8

/-! ### Adding levels -/

/-- The four paths one level down. -/
def children? (p : Path) : Checked (Option (List Path)) := do
  if maxDepth ≤ p.depth.toNat then return none
  let base ← shiftLeft p.bits 2
  let depth ← plus p.depth 1
  return some (Quadrant.all.map fun q => ⟨base ||| Packed.bits q, depth⟩)

/-- All paths inside a path at a depth, which must not be above it. -/
def descendants (p : Path) (depth : UInt8) : Checked (List Path) := do
  let extra ← minus depth p.depth
  let base ← shiftLeft p.bits (2 * extra.toNat)
  let count ← shiftLeft 1 (2 * extra.toNat)
  return (List.range count.toNat).map fun suffix => ⟨base ||| UInt64.ofNat suffix, depth⟩

/-- The path at a row and a column of the grid a number of levels below. -/
def below (p : Path) (row column : UInt64) (extra : UInt8) : Checked Path := do
  let suffix ← interleave row column extra.toNat 0
  let base ← shiftLeft p.bits (2 * extra.toNat)
  ofParts (base ||| suffix) (← plus p.depth extra)

/-- The paths at a depth inside the path that a heading leads to, as far as they touch the path left
behind; the depth must not be above it. -/
def edge (p : Path) (h : Heading) (depth : UInt8) : Checked (List Path) := do
  let extra ← minus depth p.depth
  let side ← shiftLeft 1 extra.toNat
  let pieces ← (h.rowShift.strip side.toNat).mapM fun row =>
    (h.columnShift.strip side.toNat).mapM fun column => p.below (.ofNat row) (.ofNat column) extra
  return pieces.flatten

/-! ### Order -/

/-- The word of a path with its first level in the highest bits. -/
def aligned (p : Path) : Checked UInt64 := do
  shiftLeft p.bits (2 * (← minus (.ofNat maxDepth) p.depth).toNat)

/-- The order of digit strings. -/
def compare (p q : Path) : Checked Ordering := do
  return (Ord.compare (← p.aligned) (← q.aligned)).then (Ord.compare p.depth q.depth)

/-! ### Neighbours -/

/-- The bit of a quadrant that says in which half of an axis it lies. -/
def halfBit : Axis → UInt64
  | .row => 2
  | .column => 1

/-- A step along an axis on a number of levels from the given one up, counted from the deepest, and
whether the last of them passed it on. -/
def stepFrom (axis : Axis) (ahead : Bool) :
    (levels level : Nat) → UInt64 → Checked (UInt64 × Bool)
  | 0, _, w => pure (w, true)
  | n + 1, level, w => do
    let mask ← shiftLeft (halfBit axis) (2 * level)
    if (w &&& mask != 0) != ahead then return (w ^^^ mask, false)
    stepFrom axis ahead n (level + 1) (w ^^^ mask)

/-- The path one step along an axis, westward and eastward around the globe. -/
def step (axis : Axis) (ahead : Bool) (p : Path) : Checked (Option Path) := do
  let (bits, out) ← stepFrom axis ahead p.depth.toNat 0 p.bits
  if axis = .row && out then return none
  return some (← ofParts bits p.depth)

/-- The path at a shift along an axis. -/
def shift (axis : Axis) (p : Path) : Shift → Checked (Option Path)
  | .back => step axis false p
  | .stay => pure (some p)
  | .ahead => step axis true p

/-- The path of the same depth in a heading; beyond the poles there is none. -/
def neighbour (p : Path) (h : Heading) : Checked (Option Path) := do
  match ← p.shift .row h.rowShift with
  | none => return none
  | some q => q.shift .column h.columnShift

/-- The headings that lead to a path, with that path. -/
def presentNeighbours (p : Path) : Checked (List (Heading × Path)) := do
  let each ← Heading.all.mapM fun h => return (← p.neighbour h).map fun q => (h, q)
  return each.filterMap id

/-! ### Cells -/

/-- A row and a column read on by the bits of quadrants, which are given by their numbers. -/
def deinterleave : UInt32 → UInt32 → List UInt8 → Checked (UInt32 × UInt32)
  | row, column, [] => pure (row, column)
  | row, column, n :: ns => do
    let east := n.toUInt64 &&& halfBit .column
    let south ← shiftRight (n.toUInt64 &&& halfBit .row) 1
    let right ← double column
    let down ← double row
    deinterleave (down ||| south.toUInt32) (right ||| east.toUInt32) ns

/-- The cell that a path leads to. -/
def cell (p : Path) : Checked Cell := do
  let (row, column) ← deinterleave 0 0 (← p.digits)
  return ⟨row, column, p.depth⟩

end Path

end Raw

end Geotile
