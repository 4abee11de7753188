/-
**Paths are read and written without a fault.**

Reading stops at an item that is no quadrant or as soon as there are too many of them, so a word is
never read further than it is wide.  What is read is the path of the tile that the same text, the
same numbers, the same cell or the same position names, with the same error where there is none.
The digits of the path of a tile are those of the tile.

Main results:

* `Geotile.Raw.Path.parse_eq`, `Geotile.Raw.Path.ofNumbers_eq`, `Geotile.Raw.Path.ofCell_eq`,
  `Geotile.Raw.Path.atPosition_eq` — what is read;
* `Geotile.Raw.Path.interleave_eq` — a row and a column as a word;
* `Geotile.Raw.Path.digit?_eq`, `Geotile.Raw.Path.text_eq` — the digits.
-/

import Geotile.Proofs.Digits
import Geotile.Proofs.RawWords

set_option autoImplicit false

namespace Geotile

open Checked

/-! ### Reading -/

namespace Tile

theorem readEach_map {α β : Type} (read : α → Option Quadrant) (f : β → α) (bs : List β) :
    readEach read (bs.map f) = (readEach (fun b => read (f b)) bs).mapError f := by
  induction bs with
  | nil => rfl
  | cons b bs ih =>
      rw [List.map_cons, readEach, readEach, ih]
      cases read (f b) with
      | none => rfl
      | some q => cases readEach (fun b => read (f b)) bs <;> rfl

end Tile

namespace Raw

theorem readInto_eq {α : Type} (read : α → Option Quadrant) {as : List α} {w : UInt64} {d : Nat}
    (room : d + as.length ≤ maxDepth) (h : w.toNat < tileCount d) :
    readInto read w as = .ok ((Tile.readEach read as).map fun qs => qs.foldl Packed.push w) := by
  induction as generalizing w d with
  | nil => rfl
  | cons a as ih =>
      rw [List.length_cons] at room
      rw [readInto, Tile.readEach]
      cases read a with
      | none => rfl
      | some q =>
          have fits : w.toNat < tileCount 31 :=
            Nat.lt_of_lt_of_le h (tileCount_le (by unfold maxDepth at room; omega))
          have pushed := Packed.toNat_push_lt (by omega) h q
          dsimp only
          rw [shiftLeft_level fits, ok_bind, ← Packed.push, ih (d := d + 1) (by omega) pushed]
          cases Tile.readEach read as <;> rfl

/-- Quadrants as the path that they make up. -/
def packed : Except PathError (List Quadrant) → Except PathError Path :=
  Except.map fun qs => ⟨Packed.pack qs, .ofNat qs.length⟩

/-- Items of which there are no more than places are read without a fault. -/
theorem Path.ofItems_eq {α : Type} (read : α → Option Quadrant) {places : Nat} (deep : PathError)
    (bad : α → PathError) {items : List α} (le : items.length ≤ places)
    (all : ∀ qs, Tile.readEach read items = .ok qs → places = qs.length) :
    ofItems read places deep bad items = .ok (
      if places = 0 then .error .empty
      else if maxDepth < places then .error deep
      else packed ((Tile.readEach read items).mapError bad)) := by
  rw [ofItems]
  split
  · rfl
  · split
    · rfl
    · next room =>
      rw [readInto_eq read (d := 0) (by omega) (by decide), ok_bind]
      cases ok : Tile.readEach read items with
      | error a => rfl
      | ok qs =>
          rw [all qs ok]
          rfl

/-- A text is read as the path of the tile that it names. -/
theorem Path.parse_eq (s : String) : Path.parse s = .ok ((Tile.parse s).map Tile.raw) := by
  have places : ∀ qs, Tile.readEach Quadrant.ofDigit? s.toList = .ok qs →
      Text.byteLength s.toList = qs.length := by
    intro qs ok
    rw [(Tile.readEach_eq_ok_iff Quadrant.ofDigit?_eq_some_iff).mp ok,
      Quadrant.byteLength_map_digit]
  rw [Path.parse, ofItems_eq _ _ _ (Text.length_le_byteLength _) places, Tile.parse]
  refine congrArg Except.ok ?_
  by_cases blank : Text.byteLength s.toList = 0
  · rw [if_pos blank, dif_pos blank]
    rfl
  · by_cases deep : maxDepth < Text.byteLength s.toList
    · rw [if_neg blank, dif_neg blank, if_pos deep, dif_pos deep]
      rfl
    · rw [if_neg blank, dif_neg blank, if_neg deep, dif_neg deep]
      split
      · next c bad => exact congrArg (fun r => packed (r.mapError (.badDigit s))) bad
      · next qs ok => exact congrArg (fun r => packed (r.mapError (.badDigit s))) ok

/-- Numbers are read as the path of the tile whose quadrants have them. -/
theorem Path.ofNumbers_eq (numbers : List UInt8) :
    Path.ofNumbers numbers = .ok ((Tile.ofNumbers (numbers.map UInt8.toNat)).map Tile.raw) := by
  rw [Path.ofNumbers, ofItems_eq _ _ _ (Nat.le_refl _)
    fun qs ok => (Tile.length_of_readEach ok).symm, Tile.ofNumbers]
  refine congrArg Except.ok ?_
  by_cases blank : numbers.length = 0
  · rw [if_pos blank, dif_pos (by simpa using blank)]
    rfl
  · by_cases deep : maxDepth < numbers.length
    · rw [if_neg blank, dif_neg (by simpa using blank), if_pos deep, dif_pos (by simpa using deep),
        List.length_map]
      rfl
    · rw [if_neg blank, dif_neg (by simpa using blank), if_neg deep, dif_neg (by simpa using deep)]
      have same := Tile.readEach_map Quadrant.ofNumber? UInt8.toNat numbers
      cases each : Tile.readEach (fun n : UInt8 => Quadrant.ofNumber? n.toNat) numbers with
      | error a =>
          rw [each] at same
          split
          · next n bad =>
            rw [same] at bad
            cases bad
            rfl
          · next qs ok =>
            rw [same] at ok
            cases ok
      | ok qs =>
          rw [each] at same
          split
          · next n bad =>
            rw [same] at bad
            cases bad
          · next qs ok =>
            rw [same] at ok
            cases ok
            rfl

theorem toNat_shifted (w : UInt64) {n : Nat} (narrow : n < 64) :
    (w >>> UInt64.ofNat n).toNat = w.toNat / axisLength n := by
  have amount : (UInt64.ofNat n).toNat % 64 = n := by
    rw [UInt64.toNat_ofNat']
    omega
  rw [UInt64.toNat_shiftRight, amount, Nat.shiftRight_eq_div_pow, axisLength_eq_two_pow]

theorem Path.interleave_eq (row column : UInt64) {n d : Nat} {w : UInt64}
    (room : d + n ≤ maxDepth) (h : w.toNat < tileCount d) :
    interleave row column n w
      = .ok ((Geotile.Cell.path n row.toNat column.toNat).foldl Packed.push w) := by
  induction n generalizing w d with
  | zero => rfl
  | succ n ih =>
      have narrow : n < 64 := by
        unfold maxDepth at room
        omega
      have fits : w.toNat < tileCount 31 :=
        Nat.lt_of_lt_of_le h (tileCount_le (by unfold maxDepth at room; omega))
      obtain ⟨south, digit⟩ := Packed.bits_ofHalves (row >>> .ofNat n) (column >>> .ofNat n)
      rw [toNat_shifted row narrow, toNat_shifted column narrow] at digit
      rw [interleave, shiftRight_eq row narrow, shiftRight_eq column narrow]
      simp only [ok_bind]
      rw [shiftLeft_level fits, ok_bind, south, ok_bind, UInt64.or_assoc, digit, ← Packed.push,
        ih (d := d + 1) (by omega) (Packed.toNat_push_lt (by omega) h _),
        Geotile.Cell.path_succ, List.foldl_cons]

/-- A cell is tested against its grid without a fault. -/
theorem Cell.inGrid_eq (c : Cell) : c.inGrid = .ok c.cell.inGrid := by
  rw [inGrid, Geotile.Cell.inGrid]
  by_cases deep : maxDepth < c.zoom.toNat
  · have none : ¬ c.cell.zoom ≤ maxDepth := Nat.not_le_of_lt deep
    rw [if_pos deep, decide_eq_false none]
    rfl
  · have within : c.cell.zoom ≤ maxDepth := Nat.le_of_not_lt deep
    obtain ⟨side, shifted, value⟩ := shiftLeft_one (k := c.zoom.toNat) (by
      unfold maxDepth at deep
      omega)
    rw [← axisLength_eq_two_pow] at value
    rw [if_neg deep, shifted, decide_eq_true within, Bool.true_and]
    simp only [ok_bind, UInt64.lt_iff_toNat_lt, value, UInt32.toNat_toUInt64]
    rfl

/-- A cell of a grid is turned into the path of its tile. -/
theorem Path.ofCell_eq (c : Cell) : Path.ofCell c = .ok ((Tile.ofCell c.cell).map Tile.raw) := by
  rw [Path.ofCell, Tile.ofCell]
  by_cases top : c.zoom = 0
  · have none : ¬ (0 < c.cell.zoom ∧ c.cell.inGrid = true) := by
      rintro ⟨pos, -⟩
      rw [Cell.cell, top] at pos
      cases pos
    rw [if_pos top, dif_neg none]
    rfl
  · rw [if_neg top, Cell.inGrid_eq]
    have pos : 0 < c.cell.zoom := Nat.pos_of_ne_zero fun e => top (UInt8.toNat_inj.mp e)
    by_cases within : c.cell.inGrid = true
    · have room := (Geotile.Cell.inGrid_iff.mp within).1
      have word := interleave_eq c.row.toUInt64 c.column.toUInt64 (n := c.zoom.toNat) (d := 0)
        (w := 0) (by rw [Nat.zero_add]; exact room) (by decide)
      rw [dif_pos ⟨pos, within⟩, ok_bind, if_pos within, word]
      refine congrArg (fun depth => Except.ok (Except.ok (Path.mk _ depth))) ?_
      rw [Tile.depth_ofQuadrants, Geotile.Cell.length_path]
      exact UInt8.ofNat_toNat.symm
    · rw [dif_neg fun h => within h.2, ok_bind, if_neg within]
      rfl

/-- The rows and columns of a grid fit into words of half the width. -/
theorem axisLength_le_halfWord {d : Nat} (le : d ≤ maxDepth) : axisLength d ≤ 2 ^ 32 := by
  rw [axisLength_eq_two_pow]
  exact Nat.pow_le_pow_right (by decide) le

/-- A row or a column of a grid stays what it is on its way through the words. -/
theorem toNat_index {n d : Nat} {side : UInt64} (h : n < axisLength d) (le : d ≤ maxDepth)
    (value : side.toNat = axisLength d) :
    (min (UInt64.ofNat n) (side - 1)).toUInt32.toNat = n := by
  have wide := axisLength_le_halfWord le
  have last : (side - 1).toNat = axisLength d - 1 := by
    rw [UInt64.toNat_sub_of_le _ _ (by rw [UInt64.le_iff_toNat_le, value, UInt64.toNat_one]; omega),
      value, UInt64.toNat_one]
  have word : (UInt64.ofNat n).toNat = n := by
    rw [UInt64.toNat_ofNat']
    omega
  have first : min (UInt64.ofNat n) (side - 1) = UInt64.ofNat n := by
    refine if_pos ?_
    rw [UInt64.le_iff_toNat_le, word, last]
    omega
  rw [first, UInt64.toNat_toUInt32, word]
  omega

/-- The position's cell lies in the grid, so that it is turned into a path. -/
theorem Path.atPosition_eq (p : Position) (depth : UInt8) :
    Path.atPosition p depth
      = .ok ((Tile.atPosition p depth.toNat).map fun t => .ok t.raw) := by
  rw [Path.atPosition, Tile.atPosition]
  by_cases finite : (!p.isFinite) = true
  · rw [if_pos finite, if_pos finite]
    rfl
  · rw [if_neg finite, if_neg finite]
    have zero : depth = 0 ↔ depth.toNat = 0 := UInt8.toNat_inj.symm
    by_cases outside : depth.toNat = 0 ∨ maxDepth < depth.toNat
    · rw [if_pos (by rwa [zero]), dif_pos outside]
      rfl
    · rw [if_neg (by rwa [zero]), dif_neg outside]
      have le : depth.toNat ≤ maxDepth := by omega
      obtain ⟨side, shifted, value⟩ := shiftLeft_one (k := depth.toNat) (by
        unfold maxDepth at outside
        omega)
      rw [← axisLength_eq_two_pow] at value
      have rows : p.row depth.toNat < axisLength depth.toNat := gridIndex_lt _ _
      have columns : p.column depth.toNat < axisLength depth.toNat := gridIndex_lt _ _
      have inside : (⟨p.row depth.toNat, p.column depth.toNat, depth.toNat⟩ : Geotile.Cell).inGrid
          = true := Geotile.Cell.inGrid_iff.mpr ⟨le, rows, columns⟩
      rw [shifted, ok_bind]
      dsimp only
      rw [ofCell_eq, Cell.cell]
      dsimp only
      rw [toNat_index rows le value, toNat_index columns le value, Tile.ofCell,
        dif_pos ⟨Nat.pos_of_ne_zero fun e => outside (.inl e), inside⟩]
      rfl

/-! ### Digits -/

/-- The quadrants of a tile are read off its path level by level. -/
theorem Path.digit?_eq (t : Tile) {level : Nat} (small : level < 2 ^ 8) :
    t.raw.digit? (.ofNat level) = .ok ((t.quadrant? level).map fun q => .ofNat q.number) := by
  have pos := t.depth_pos
  have le := t.depth_le
  have order := UInt8.ofNat_le_iff_le t.depth_lt_byte small
  rw [Path.digit?, Tile.quadrant?, Tile.depth_raw]
  by_cases h : level < t.depth
  · have low : ∀ w : UInt64, (w &&& 3).toUInt8 = .ofNat (Packed.lowest w).number := by
      intro w
      have three : (w &&& 3).toNat = w.toNat % 4 := by
        rw [UInt64.toNat_and]
        exact Nat.and_two_pow_sub_one_eq_mod w.toNat 2
      rw [Packed.number_lowest, ← three]
      rfl
    rw [if_neg (mt order.mp (Nat.not_le_of_lt h)), if_pos h]
    have last : t.depth - 1 < 2 ^ 8 := Nat.lt_of_le_of_lt (Nat.sub_le ..) t.depth_lt_byte
    have after := UInt8.toNat_ofNat_of_lt' (Nat.lt_of_le_of_lt (Nat.sub_le _ level) last)
    rw [minus_one pos t.depth_lt_byte, ok_bind, minus_eq (by omega) last, ok_bind]
    rw [after, Tile.bits_raw, shiftRight_levels _ (by omega), ok_bind, low]
    rfl
  · rw [if_pos (order.mpr (Nat.le_of_not_lt h)), if_neg h]
    rfl

theorem Path.digits_eq (t : Tile) :
    t.raw.digits = .ok (t.quadrants.map fun q => .ofNat q.number) := by
  have present : ((List.range t.depth).map fun level =>
      (t.quadrant? level).map fun q => UInt8.ofNat q.number)
        = t.quadrants.map fun q => some (.ofNat q.number) := by
    rw [Tile.quadrants, Packed.unpack_eq_map t.depth_le, List.map_map]
    refine List.map_congr_left fun level h => ?_
    rw [Tile.quadrant?, if_pos (List.mem_range.mp h)]
    rfl
  have each : (List.range t.depth).mapM (fun level => t.raw.digit? (.ofNat level))
      = .ok (t.quadrants.map fun q => some (.ofNat q.number)) := by
    rw [← present]
    refine mapM_eq fun level h => ?_
    exact digit?_eq t (Nat.lt_trans (List.mem_range.mp h) t.depth_lt_byte)
  rw [Path.digits, Tile.toNat_depth_raw, each, ok_bind, List.filterMap_map, pure_eq]
  exact congrArg Except.ok (congrFun List.filterMap_eq_map' _)

/-- The path of a tile is written as the tile. -/
theorem Path.text_eq (t : Tile) : t.raw.text = .ok t.text := by
  have each : ∀ q ∈ t.quadrants,
      (do return Char.ofNat (← plus 48 (.ofNat q.number)).toNat : Checked Char)
        = .ok q.digit := by
    rintro q -
    cases q <;> rfl
  rw [Path.text, digits_eq, ok_bind, mapM_map each]
  rfl

end Raw

end Geotile
