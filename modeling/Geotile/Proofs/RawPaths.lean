/-
**Operations on paths do what they do on tiles.**

Every operation on the word and the byte of a tile ends without a fault, in the word and the byte
of the tile that the operation on tiles ends in.  Where an operation relies on its caller, the
equation holds for the callers that it has: a path is cut to a depth that it reaches, and its parts
are asked for at its own depth or below.

Main results:

* `Geotile.Raw.Path.cut_eq`, `Geotile.Raw.Path.contains_eq`, `Geotile.Raw.Path.parent?_eq`,
  `Geotile.Raw.Path.shorten_eq` — dropping levels;
* `Geotile.Raw.Path.children?_eq`, `Geotile.Raw.Path.descendants_eq`, `Geotile.Raw.Path.below_eq`,
  `Geotile.Raw.Path.edge_eq` — adding levels;
* `Geotile.Raw.Path.compare_eq` — the order;
* `Geotile.Raw.Path.stepFrom_eq`, `Geotile.Raw.Path.neighbour_eq` — the tiles around.
-/

import Geotile.Proofs.RawReading
import Mathlib.Data.Nat.Bitwise

set_option autoImplicit false

namespace Geotile

open Checked

/-! ### Three answers -/

namespace Tile

theorem compare_of_lt {t u : Tile} (h : t < u) : t.compare u = .lt := if_pos h

theorem compare_of_gt {t u : Tile} (h : u < t) : t.compare u = .gt := by
  rw [compare, if_neg (lt_asymm h), if_pos h]

@[simp] theorem compare_self (t : Tile) : t.compare t = .eq := by
  rw [compare, if_neg (lt_irrefl t), if_neg (lt_irrefl t)]

theorem lt_or_eq_or_gt (t u : Tile) : t < u ∨ t = u ∨ u < t := by
  by_cases before : t < u
  · exact .inl before
  · by_cases after : u < t
    · exact .inr (.inr after)
    · exact .inr (.inl (eq_of_not_lt before after))

end Tile

namespace Raw

/-! ### Dropping levels -/

theorem Path.cut_eq (t : Tile) {d : Nat} (pos : 0 < d) (le : d ≤ t.depth) :
    t.raw.cut (.ofNat d) = .ok (t.ancestor d pos le).raw := by
  have room := t.depth_le
  have small := t.depth_lt_byte
  have dropped := UInt8.toNat_ofNat_of_lt' (Nat.lt_of_le_of_lt (Nat.sub_le t.depth d) small)
  rw [cut, Tile.depth_raw, minus_eq le small, ok_bind, dropped, shiftRight_levels _ (by omega)]
  rfl

theorem Path.contains_eq (t u : Tile) : t.raw.contains u.raw = .ok (t.contains u) := by
  have order := UInt8.ofNat_lt_iff_lt u.depth_lt_byte t.depth_lt_byte
  rw [contains, Tile.depth_raw, Tile.depth_raw, Tile.contains]
  by_cases deep : u.depth < t.depth
  · rw [if_pos (order.mpr deep), decide_eq_false (Nat.not_le_of_lt deep)]
    rfl
  · have le := Nat.le_of_not_lt deep
    rw [if_neg (mt order.mp deep), cut_eq u t.depth_pos le, decide_eq_true le]
    rfl

theorem Path.meets_eq (t u : Tile) : t.raw.meets u.raw = .ok (t.meets u) := by
  rw [meets, contains_eq, contains_eq, Tile.meets]
  cases t.contains u <;> rfl

theorem Path.parent?_eq (t : Tile) : t.raw.parent? = .ok (t.parent?.map Tile.raw) := by
  have order : t.raw.depth ≤ 1 ↔ t.depth ≤ 1 :=
    UInt8.ofNat_le_iff_le t.depth_lt_byte (by decide)
  rw [parent?, Tile.parent?]
  by_cases deep : 1 < t.depth
  · rw [if_neg (by rw [order]; omega), dif_pos deep, Tile.depth_raw,
      minus_one t.depth_pos t.depth_lt_byte, ok_bind, cut_eq t (by omega) (by omega)]
    rfl
  · rw [if_pos (order.mpr (Nat.le_of_not_lt deep)), dif_neg deep]
    rfl

/-- A path is shortened as its tile is, for every selector. -/
theorem Path.shorten_eq (t : Tile) (selector : Int64) :
    t.raw.shorten selector = .ok (t.shorten selector.toInt).raw := by
  have pos := t.depth_pos
  have small := t.depth_lt_byte
  have current : (Int64.ofNat t.depth).toInt = t.depth := Int64.toInt_ofNat_of_lt (by omega)
  have zero : (0 : Int64).toInt = 0 := by decide
  have asked : (Tile.shortenedDepth t.depth selector.toInt : Int) = max 1 (min
      (if selector ≤ 0 then saturatingPlus (.ofNat t.depth) selector else selector).toInt
      t.depth) := by
    rw [Tile.shortenedDepth]
    by_cases drops : selector ≤ 0
    · rw [if_pos drops]
      rw [Int64.le_iff_toInt_le, zero] at drops
      rw [if_pos drops, toInt_saturatingPlus (by rw [current]; omega), current]
      omega
    · rw [if_neg drops]
      rw [Int64.le_iff_toInt_le, zero] at drops
      rw [if_neg drops]
      omega
  rw [shorten, Tile.toNat_depth_raw, clamp_one pos (by omega) asked]
  dsimp only [ok_bind]
  rw [Int64.toUInt64_ofNat', UInt64.toUInt8_ofNat', cut_eq t (Tile.shortenedDepth_pos ..)
    (Tile.shortenedDepth_le pos _)]
  rfl

/-! ### Adding levels -/

theorem Path.children?_eq (t : Tile) :
    t.raw.children? = .ok (t.children?.map (·.map Tile.raw)) := by
  rw [Path.children?, Tile.children?, Tile.toNat_depth_raw]
  by_cases room : t.depth < maxDepth
  · rw [if_neg (Nat.not_le_of_lt room), dif_pos room, Tile.bits_raw,
      shiftLeft_level (Tile.code_lt_of_room room), ok_bind, Tile.depth_raw,
      plus_one (by unfold maxDepth at room; omega), ok_bind]
    rfl
  · rw [if_pos (Nat.le_of_not_lt room), dif_neg room]
    rfl

theorem range_four (n : Nat) :
    List.range (4 * n)
      = Quadrant.all.flatMap fun q => (List.range n).map fun i => q.number * n + i := by
  have four : 4 * n = n + n + n + n := by omega
  rw [four, List.range_add, List.range_add, List.range_add]
  simp [Quadrant.all, Quadrant.number, Nat.succ_mul, List.append_assoc]

theorem map_raw_descendants {t : Tile} {k : Nat} (room : t.depth + k ≤ maxDepth) :
    (t.descendants k room).map Tile.raw = (List.range (tileCount k)).map fun s =>
      ⟨Packed.raise k t.code ||| .ofNat s, .ofNat (t.depth + k)⟩ := by
  induction k generalizing t with
  | zero =>
      have same : Packed.raise 0 t.code ||| .ofNat 0 = t.code := by
        refine UInt64.toNat_inj.mp ?_
        rw [Packed.toNat_raise_or t.depth_pos room t.code_lt (by decide), tileCount_zero,
          Nat.mul_one, Nat.add_zero]
      show [t.raw] = [⟨_, .ofNat (t.depth + 0)⟩]
      rw [same]
      rfl
  | succ k ih =>
      rw [Tile.descendants, List.map_flatMap, tileCount_succ, range_four, List.map_flatMap,
        List.flatMap_def, List.flatMap_def]
      refine congrArg List.flatten (List.map_congr_left fun q _ => ?_)
      rw [ih, List.map_map]
      refine List.map_congr_left fun s hs => ?_
      have small := List.mem_range.mp hs
      have digit := Nat.mul_le_mul_right (tileCount k) (Nat.le_of_lt_succ q.number_lt)
      have word : Packed.raise k (t.child q (by omega)).code ||| .ofNat s
          = Packed.raise (k + 1) t.code ||| .ofNat (q.number * tileCount k + s) := by
        refine UInt64.toNat_inj.mp ?_
        rw [Packed.toNat_raise_or (t.child q (by omega)).depth_pos
            (by rw [Tile.depth_child]; omega) (t.child q (by omega)).code_lt small,
          Packed.toNat_raise_or t.depth_pos room t.code_lt (by rw [tileCount_succ]; omega)]
        show (Packed.push t.code q).toNat * _ + _ = _
        rw [Packed.toNat_push (Tile.code_lt_of_room (by omega)), tileCount_succ]
        ring
      rw [Function.comp_apply, word, Tile.depth_child, Nat.add_right_comm]
      rfl

/-- The words of the descendants follow each other. -/
theorem Path.descendants_eq {t : Tile} {d k : Nat} (room : t.depth + k ≤ maxDepth)
    (sum : t.depth + k = d) :
    t.raw.descendants (.ofNat d) = .ok ((t.descendants k room).map Tile.raw) := by
  subst sum
  have pos := t.depth_pos
  have deep := lt_byte_of_le_maxDepth room
  obtain ⟨count, shifted, value⟩ := shiftLeft_one (k := 2 * k) (by
    unfold maxDepth at room
    omega)
  rw [show 2 ^ (2 * k) = tileCount k from Packed.two_pow_eq_tileCount k] at value
  rw [Path.descendants, Tile.depth_raw, minus_eq (Nat.le_add_right ..) deep, ok_bind,
    Nat.add_sub_cancel_left, Tile.toNat_levels room, Tile.bits_raw,
    shiftLeft_levels pos room t.code_lt, ok_bind, shifted, ok_bind, value, map_raw_descendants]
  rfl

theorem Path.below_eq {t : Tile} {k row column : Nat} (room : t.depth + k ≤ maxDepth)
    (hr : row < axisLength k) (hc : column < axisLength k) :
    t.raw.below (.ofNat row) (.ofNat column) (.ofNat k)
      = .ok (t.below k row column room).raw := by
  have pos := t.depth_pos
  have wide : axisLength k < 2 ^ 64 := by
    rw [axisLength_eq_two_pow]
    exact Nat.pow_lt_pow_right (by decide) (by unfold maxDepth at room; omega)
  have deep := lt_byte_of_le_maxDepth room
  have value : ∀ n, n < axisLength k → (UInt64.ofNat n).toNat = n := by
    intro n hn
    rw [UInt64.toNat_ofNat']
    omega
  have word := Packed.raise_or_pack (Geotile.Cell.path k row column) pos (by simpa using room)
    t.code_lt
  rw [Geotile.Cell.length_path] at word
  rw [Path.below, Tile.toNat_levels room, interleave_eq _ _ (d := 0) (by omega) (by decide),
    ok_bind, value row hr, value column hc, Tile.bits_raw, shiftLeft_levels pos room t.code_lt,
    ok_bind, Tile.depth_raw, plus_eq deep, ok_bind, ← Packed.pack, word]
  exact ofParts_eq (t.below k row column room)

theorem Path.edge_eq {t : Tile} {d k : Nat} (h : Heading) (room : t.depth + k ≤ maxDepth)
    (sum : t.depth + k = d) :
    t.raw.edge h (.ofNat d) = .ok ((t.edge h k room).map Tile.raw) := by
  subst sum
  have deep := lt_byte_of_le_maxDepth room
  obtain ⟨side, shifted, value⟩ := shiftLeft_one (k := k) (by
    unfold maxDepth at room
    omega)
  rw [← axisLength_eq_two_pow] at value
  have columns : ∀ row ∈ h.rowShift.strip (axisLength k),
      (h.columnShift.strip (axisLength k)).mapM
          (fun column => t.raw.below (.ofNat row) (.ofNat column) (.ofNat k))
        = .ok ((h.columnShift.strip (axisLength k)).map fun column =>
            (t.below k row column room).raw) := by
    intro row hr
    refine mapM_eq fun column hc => below_eq room ?_ ?_
    · exact ((Shift.mem_strip (axisLength_pos k)).mp hr).1
    · exact ((Shift.mem_strip (axisLength_pos k)).mp hc).1
  rw [Path.edge, Tile.depth_raw, minus_eq (Nat.le_add_right ..) deep, ok_bind,
    Nat.add_sub_cancel_left, Tile.toNat_levels room, shifted, ok_bind, value, mapM_eq columns,
    ok_bind, Tile.edge, List.map_flatMap, List.flatMap]
  simp only [List.map_map]
  rfl

/-! ### Order -/

theorem Path.aligned_eq (t : Tile) : t.raw.aligned = .ok t.aligned := by
  have le := t.depth_le
  rw [Path.aligned, Tile.depth_raw, minus_eq le (by decide), ok_bind,
    UInt8.toNat_ofNat_of_lt' (lt_byte_of_le_maxDepth (Nat.sub_le ..))]
  exact shiftLeft_levels t.depth_pos (by omega) t.code_lt

theorem Path.compare_eq (t u : Tile) : t.raw.compare u.raw = .ok (t.compare u) := by
  have deeper := UInt8.ofNat_lt_iff_lt t.depth_lt_byte u.depth_lt_byte
  have same := byte_inj t.depth_lt_byte u.depth_lt_byte
  rw [Path.compare, aligned_eq, aligned_eq]
  refine congrArg Except.ok ?_
  rw [Tile.depth_raw, Tile.depth_raw]
  show (compareOfLessAndEq t.aligned u.aligned).then (compareOfLessAndEq _ _) = _
  simp only [compareOfLessAndEq, deeper, same, Tile.compare, Tile.lt_iff, UInt64.lt_iff_toNat_lt,
    ← UInt64.toNat_inj]
  repeat' split
  all_goals first | rfl | omega

/-! ### Steps -/

/-- A flipped bit of one level, in the levels from it up and in those below. -/
theorem Path.flip_level (axis : Axis) {level : Nat} {w hi mask : UInt64}
    (top : hi.toNat = w.toNat / tileCount level)
    (value : mask.toNat = (halfBit axis).toNat * tileCount level) :
    (w &&& mask != 0) = (Packed.lowest hi).isFar axis ∧
      (w ^^^ mask).toNat / tileCount level
        = 4 * (hi.toNat / 4) + ((Packed.lowest hi).flip axis).number ∧
      (w ^^^ mask).toNat % tileCount level = w.toNat % tileCount level := by
  have pow : tileCount level = 2 ^ (2 * level) := (Packed.two_pow_eq_tileCount level).symm
  refine ⟨?_, ?_, ?_⟩
  · obtain ⟨b, bit⟩ : ∃ b, (halfBit axis).toNat = 2 ^ b := by
      cases axis
      · exact ⟨1, rfl⟩
      · exact ⟨0, rfl⟩
    have same : w.toNat.testBit (b + 2 * level) = hi.toNat.testBit b := by
      rw [top, pow, Nat.testBit_div_two_pow, Nat.add_comm]
    rw [Packed.isFar_lowest, Bool.eq_iff_iff, bne_iff_ne, bne_iff_ne, ne_eq, ne_eq,
      ← UInt64.toNat_inj, ← UInt64.toNat_inj, UInt64.toNat_and, UInt64.toNat_and, value, bit, pow,
      ← Nat.pow_add, Nat.and_two_pow, Nat.and_two_pow, same]
    simp
  · rw [← Packed.xor_halfBit, top, UInt64.toNat_xor, pow, Nat.xor_div_two_pow, value, pow,
      Nat.mul_div_cancel _ (Nat.two_pow_pos _)]
  · rw [UInt64.toNat_xor, pow, Nat.xor_mod_two_pow, value, pow, Nat.mul_mod_left, Nat.xor_zero]

theorem Path.stepFrom_eq (axis : Axis) (ahead : Bool) {n level : Nat} {w hi : UInt64}
    (room : level + n ≤ maxDepth) (h : hi.toNat < tileCount n)
    (top : hi.toNat = w.toNat / tileCount level) :
    ∃ v, stepFrom axis ahead n level w = .ok (v, (Packed.step axis ahead n hi).2) ∧
      v.toNat / tileCount level = (Packed.step axis ahead n hi).1.toNat ∧
      v.toNat % tileCount level = w.toNat % tileCount level := by
  induction n generalizing level w hi with
  | zero => exact ⟨w, rfl, top.symm, rfl⟩
  | succ n ih =>
      have small : (halfBit axis).toNat < tileCount 1 := by cases axis <;> decide
      have shifted := shiftLeft_levels (w := halfBit axis) (d := 1) (k := level) (by decide)
        (by omega) small
      have value := Packed.toNat_raise (d := 1) (k := level) (by decide) (by omega) small
      obtain ⟨far, high, low⟩ := flip_level axis top value
      have above : (Packed.upper hi).toNat < tileCount n := by
        rw [Packed.toNat_upper]
        rw [tileCount_succ] at h
        omega
      have digit := ((Packed.lowest hi).flip axis).number_lt
      rw [stepFrom, shifted, ok_bind, far, Packed.step]
      dsimp only
      split
      · refine ⟨_, rfl, ?_, low⟩
        rw [high, Packed.toNat_push (Nat.lt_of_lt_of_le above (tileCount_le (by
          unfold maxDepth at room; omega))), Packed.toNat_upper]
      · have next : (Packed.upper hi).toNat
            = (w ^^^ Packed.raise level (halfBit axis)).toNat / tileCount (level + 1) := by
          rw [tileCount_succ, Nat.mul_comm, ← Nat.div_div_eq_div_mul, high, Packed.toNat_upper]
          omega
        obtain ⟨v, run, quotient, rest⟩ := ih (by omega) above next
        have stays := Packed.toNat_step_lt axis ahead (by omega) above
        rw [tileCount_succ, Nat.mul_comm] at quotient rest
        -- the number of the flipped quadrant is what is left between the two levels
        have between : v.toNat / tileCount level % 4 = ((Packed.lowest hi).flip axis).number := by
          rw [← Nat.mod_mul_right_div_self, rest, Nat.mod_mul_right_div_self, high]
          omega
        refine ⟨v, run, ?_, ?_⟩
        · rw [Packed.toNat_push (Nat.lt_of_lt_of_le stays (tileCount_le (by
            unfold maxDepth at room; omega))), ← quotient, ← between, ← Nat.div_div_eq_div_mul]
          exact (Nat.div_add_mod ..).symm
        · rw [← low, ← Nat.mod_mul_right_mod v.toNat _ 4, rest, Nat.mod_mul_right_mod]

theorem Path.step_eq (axis : Axis) (ahead : Bool) (t : Tile) :
    t.raw.step axis ahead = .ok ((t.step axis ahead).map Tile.raw) := by
  have room : 0 + t.depth ≤ maxDepth := by
    rw [Nat.zero_add]
    exact t.depth_le
  have top : t.code.toNat = t.code.toNat / tileCount 0 := (Nat.div_one _).symm
  obtain ⟨v, run, word, -⟩ := stepFrom_eq axis ahead room t.code_lt top
  rw [tileCount_zero, Nat.div_one] at word
  rw [UInt64.toNat_inj.mp word] at run
  rw [Path.step, Tile.step, Tile.toNat_depth_raw, Tile.bits_raw, run, ok_bind]
  dsimp only
  split
  · rfl
  · exact congrArg (fun r => r >>= fun p => pure (some p)) (ofParts_eq ⟨_, t.depth, _, _, _⟩)

theorem Path.shift_eq (axis : Axis) (t : Tile) (s : Shift) :
    t.raw.shift axis s = .ok ((t.shift axis s).map Tile.raw) := by
  cases s with
  | back => exact step_eq axis false t
  | stay => rfl
  | ahead => exact step_eq axis true t

theorem Path.neighbour_eq (t : Tile) (h : Heading) :
    t.raw.neighbour h = .ok ((t.neighbour h).map Tile.raw) := by
  rw [Path.neighbour, Tile.neighbour, shift_eq, ok_bind]
  cases t.shift .row h.rowShift with
  | none => rfl
  | some u => exact shift_eq .column u h.columnShift

theorem Path.presentNeighbours_eq (t : Tile) :
    t.raw.presentNeighbours = .ok (t.presentNeighbours.map fun (h, n) => (h, n.raw)) := by
  have each : Heading.all.mapM (fun h => do return (← t.raw.neighbour h).map fun q => (h, q))
      = (.ok (Heading.all.map fun h => (t.neighbour h).map fun n => (h, n.raw)) : Checked _) := by
    refine mapM_eq fun h _ => ?_
    rw [neighbour_eq, ok_bind, pure_eq, Option.map_map]
    rfl
  rw [Path.presentNeighbours, each, ok_bind, List.filterMap_map, Tile.presentNeighbours,
    List.map_filterMap, pure_eq]
  simp only [Option.map_map]
  rfl

end Raw

end Geotile
