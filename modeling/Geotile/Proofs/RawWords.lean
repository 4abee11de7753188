/-
**Words and bytes that stand for levels.**

The word of a tile leaves the levels that its depth does not reach free, and its depth is a small
number.  So the shifts by whole levels that an operation makes are narrow enough and lose nothing,
sums and differences of depths stay within a byte, and the word that a shift, a mask or an
exclusive or leads to is known by the quadrants in it.

Main results:

* `Geotile.Tile.raw_inj` — a tile is determined by its word and its byte;
* `Geotile.Checked.shiftLeft_levels`, `Geotile.Checked.shiftRight_levels` — shifts by whole levels;
* `Geotile.Packed.toNat_raise_or`, `Geotile.Packed.raise_or_pack` — levels put below a word;
* `Geotile.Packed.unpack_eq_map`, `Geotile.Packed.xor_halfBit` — one level read, and one flipped.
-/

import Geotile.Proofs.Moves
import Geotile.Raw.Path

set_option autoImplicit false

namespace Geotile

open Checked

/-! ### Words and bytes of tiles -/

/-- The levels of the tree are few enough for a byte. -/
theorem lt_byte_of_le_maxDepth {d : Nat} (le : d ≤ maxDepth) : d < 2 ^ 8 :=
  Nat.lt_of_le_of_lt le (by decide)

namespace Tile

theorem depth_lt_byte (t : Tile) : t.depth < 2 ^ 8 := lt_byte_of_le_maxDepth t.depth_le

@[simp] theorem bits_raw (t : Tile) : t.raw.bits = t.code := rfl

@[simp] theorem depth_raw (t : Tile) : t.raw.depth = .ofNat t.depth := rfl

theorem toNat_depth_raw (t : Tile) : t.raw.depth.toNat = t.depth :=
  UInt8.toNat_ofNat_of_lt' t.depth_lt_byte

theorem toNat_levels {t : Tile} {k : Nat} (room : t.depth + k ≤ maxDepth) :
    (UInt8.ofNat k).toNat = k :=
  UInt8.toNat_ofNat_of_lt' (lt_byte_of_le_maxDepth (Nat.le_of_add_left_le room))

/-- A tile is determined by its word and its byte. -/
theorem raw_inj {t u : Tile} : t.raw = u.raw ↔ t = u := by
  rw [eq_iff, Raw.Path.mk.injEq, depth_raw, depth_raw, byte_inj t.depth_lt_byte u.depth_lt_byte]
  exact Iff.rfl

end Tile

/-- A tile may be put together from its word and its byte. -/
theorem Raw.Path.ofParts_eq (t : Tile) : ofParts t.code (.ofNat t.depth) = .ok t.raw := by
  have pos := t.depth_pos
  have le := t.depth_le
  have value := UInt8.toNat_ofNat_of_lt' t.depth_lt_byte
  refine if_neg ?_
  rw [value, ← UInt8.toNat_inj, value, UInt8.toNat_zero]
  omega

namespace Checked

theorem shiftLeft_level {w : UInt64} (h : w.toNat < tileCount 31) :
    shiftLeft w 2 = .ok (w <<< 2) := by
  refine shiftLeft_eq (by decide) ?_
  have : tileCount 31 = 4611686018427387904 := by decide
  omega

theorem shiftLeft_levels {w : UInt64} {d k : Nat} (pos : 0 < d) (room : d + k ≤ maxDepth)
    (h : w.toNat < tileCount d) : shiftLeft w (2 * k) = .ok (Packed.raise k w) := by
  have pow : 2 ^ (2 * k) = tileCount k := Packed.two_pow_eq_tileCount k
  have le := tileCount_le room
  rw [tileCount_maxDepth, tileCount_add] at le
  refine shiftLeft_eq (by unfold maxDepth at room; omega) ?_
  rw [pow]
  exact Nat.lt_of_lt_of_le (Nat.mul_lt_mul_of_pos_right h (tileCount_pos k)) le

theorem shiftRight_levels (w : UInt64) {k : Nat} (h : k < maxDepth) :
    shiftRight w (2 * k) = .ok (Packed.drop k w) := by
  unfold maxDepth at h
  exact shiftRight_eq w (by omega)

end Checked

/-! ### Words of quadrants -/

theorem Cell.path_succ (n row column : Nat) :
    path (n + 1) row column
      = .ofHalves (row / axisLength n % 2 == 1) (column / axisLength n % 2 == 1)
        :: path n row column := by
  induction n generalizing row column with
  | zero => simp [path]
  | succ n ih =>
      rw [path, ih, axisLength_succ, Nat.div_div_eq_div_mul, Nat.div_div_eq_div_mul, path]
      rfl

/-- The lowest bit of a word. -/
theorem Packed.and_one (w : UInt64) : w &&& 1 = if w.toNat % 2 == 1 then 1 else 0 := by
  refine UInt64.toNat_inj.mp ?_
  rw [UInt64.toNat_and, UInt64.toNat_one, Nat.and_one_is_mod]
  rcases Nat.mod_two_eq_zero_or_one w.toNat with even | odd
  · rw [even]
    rfl
  · rw [odd]
    rfl

/-- A row bit and a column bit are the two bits of a quadrant. -/
theorem Packed.bits_ofHalves (r c : UInt64) :
    shiftLeft (r &&& 1) 1 = .ok ((r &&& 1) <<< 1) ∧
      ((r &&& 1) <<< 1) ||| (c &&& 1)
        = bits (.ofHalves (r.toNat % 2 == 1) (c.toNat % 2 == 1)) := by
  rw [and_one, and_one]
  cases r.toNat % 2 == 1 <;> cases c.toNat % 2 == 1 <;> exact ⟨rfl, rfl⟩

theorem Packed.unpack_eq_map {n : Nat} (hn : n ≤ maxDepth) (w : UInt64) :
    unpack n w = (List.range n).map fun i => lowest (drop (n - 1 - i) w) := by
  induction n generalizing w with
  | zero => rfl
  | succ n ih =>
      rw [unpack, ih (by omega), List.range_succ, List.map_append, List.map_singleton,
        Nat.add_sub_cancel, Nat.sub_self, drop_zero]
      refine congrArg (· ++ _) (List.map_congr_left fun i hi => ?_)
      have := List.mem_range.mp hi
      rw [drop_upper (by omega)]
      congr 2
      omega

namespace Packed

/-- Below empty levels there is room for a number of that many levels. -/
theorem toNat_raise_or {d k s : Nat} {w : UInt64} (pos : 0 < d) (room : d + k ≤ maxDepth)
    (h : w.toNat < tileCount d) (fits : s < tileCount k) :
    (raise k w ||| UInt64.ofNat s).toNat = w.toNat * tileCount k + s := by
  have pow : 2 ^ (2 * k) = tileCount k := two_pow_eq_tileCount k
  have le := tileCount_le room
  rw [tileCount_maxDepth, tileCount_add] at le
  have few : tileCount k ≤ tileCount d * tileCount k :=
    Nat.le_mul_of_pos_left _ (tileCount_pos d)
  have small : (UInt64.ofNat s).toNat = s := by
    rw [UInt64.toNat_ofNat']
    omega
  have apart := Nat.two_pow_add_eq_or_of_lt (i := 2 * k) (by rwa [pow]) w.toNat
  rw [UInt64.toNat_or, toNat_raise pos room h, small, ← pow, Nat.mul_comm]
  exact apart.symm

/-- Quadrants pushed onto a word come below its levels. -/
theorem toNat_foldl_push (qs : List Quadrant) {d : Nat} {w : UInt64}
    (room : d + qs.length ≤ maxDepth) (h : w.toNat < tileCount d) :
    (qs.foldl push w).toNat = w.toNat * tileCount qs.length + (pack qs).toNat := by
  induction qs generalizing w d with
  | nil => simp
  | cons q qs ih =>
      rw [List.length_cons] at room
      have fits : w.toNat < tileCount 31 :=
        Nat.lt_of_lt_of_le h (tileCount_le (by unfold maxDepth at room; omega))
      have step := ih (d := d + 1) (by omega) (toNat_push_lt (by omega) h q)
      have first := ih (w := push 0 q) (d := 1) (by omega) (toNat_push_lt (d := 0) (by decide)
        (by decide) q)
      rw [toNat_push fits] at step
      rw [toNat_push (by decide)] at first
      rw [pack, List.foldl_cons, List.foldl_cons, step, first, List.length_cons, tileCount_succ]
      simp only [UInt64.toNat_zero]
      ring

theorem raise_or_pack {d : Nat} {w : UInt64} (qs : List Quadrant) (pos : 0 < d)
    (room : d + qs.length ≤ maxDepth) (h : w.toNat < tileCount d) :
    raise qs.length w ||| pack qs = qs.foldl push w := by
  have fits := toNat_pack_lt qs (by omega)
  have both := toNat_raise_or pos room h fits
  rw [UInt64.ofNat_toNat] at both
  refine UInt64.toNat_inj.mp ?_
  rw [both, toNat_foldl_push qs room h]

end Packed

/-- The half bit of the deepest quadrant, and the word with that quadrant flipped. -/
theorem Packed.isFar_lowest (axis : Axis) (w : UInt64) :
    (lowest w).isFar axis = (w &&& Raw.Path.halfBit axis != 0) := by
  cases axis with
  | row => exact Quadrant.isFar_row_ofHalves _ _
  | column => exact Quadrant.isFar_column_ofHalves _ _

theorem Packed.xor_halfBit (axis : Axis) (w : UInt64) :
    w.toNat ^^^ (Raw.Path.halfBit axis).toNat
      = 4 * (w.toNat / 4) + ((lowest w).flip axis).number := by
  have four : w.toNat ^^^ (Raw.Path.halfBit axis).toNat
      = 4 * ((w.toNat ^^^ (Raw.Path.halfBit axis).toNat) / 4)
        + (w.toNat ^^^ (Raw.Path.halfBit axis).toNat) % 4 := (Nat.div_add_mod ..).symm
  have high := Nat.xor_div_two_pow (a := w.toNat) (b := (Raw.Path.halfBit axis).toNat) (n := 2)
  have low := Nat.xor_mod_two_pow (a := w.toNat) (b := (Raw.Path.halfBit axis).toNat) (n := 2)
  have flipped : (lowest w).number ^^^ (Raw.Path.halfBit axis).toNat
      = ((lowest w).flip axis).number := by
    cases axis <;> cases lowest w <;> rfl
  have small : (Raw.Path.halfBit axis).toNat < 4 := by cases axis <;> decide
  rw [show 2 ^ 2 = 4 from rfl, Nat.div_eq_of_lt small, Nat.xor_zero] at high
  rw [show 2 ^ 2 = 4 from rfl, Nat.mod_eq_of_lt small, ← number_lowest, flipped] at low
  rw [four, high, low]

end Geotile
