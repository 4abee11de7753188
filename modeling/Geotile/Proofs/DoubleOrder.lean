/-
**The place of a double and the comparison of doubles.**

Doubles are put in order by their place, which is read from all bits at once, and they are compared
as numbers, for which the bits are taken apart into sign, exponent and significand.  The two agree
on most doubles but not on all: negative zero has its place before zero, though the two are equal,
and not-a-number has the last place, though nothing compares with it.  These are the only
differences.

The comparison looks at exponents first, and at significands only where the exponents are equal.
That is one comparison of the bits, because a significand that lacks its leading digit stands at
the least exponent only.  There is one not-a-number, whose bits are fixed.

Main definitions:

* `Geotile.Binary64.Fits`, `Geotile.Binary64.packed` — significands and exponents that a double
  can hold, and their bits as one number;
* `Geotile.Binary64.parts`, `Geotile.Binary64.height` — a double taken apart, and the number of its
  bits below the sign, with the sign;
* `Geotile.Binary64.level` — the place of a double when the two zeros are put at one;
* `Geotile.Binary64.Before` — the order of all doubles, told by the comparison as numbers.

Main results:

* `Geotile.Binary64.compare_packed` — exponents first and then significands is one comparison of
  the bits;
* `Geotile.Binary64.le_iff_level`, `Geotile.Binary64.lt_iff_level` — numbers compare like their
  levels;
* `Geotile.Binary64.rank_lt_iff` — **one double has its place before another when it is less, when
  the two are negative zero and zero, or when only the other one is not a number**;
* `Geotile.Binary64.le_of_rank_le` — what has its place before something that is at most `z` is at
  most `z` as well.
-/

import Mathlib.Algebra.Group.Int.Defs
import Mathlib.Algebra.Group.Nat.Defs
import Geotile.Number.Binary64

set_option autoImplicit false

namespace Geotile.Binary64

open Float.Model (UnpackedFloat)
open Float.Model.UnpackedFloat (Sign)

/-! ### Sizes with a sign -/

/-- A size with a sign. -/
def signed : Sign → Nat → Int
  | .negative, n => -n
  | .positive, n => n

/-- How numbers of two signs compare when their sizes compare like that. -/
def bySigns : Sign → Sign → Ordering → Ordering
  | .negative, .negative, o => o.swap
  | .negative, .positive, _ => .lt
  | .positive, .negative, _ => .gt
  | .positive, .positive, o => o

/-- Numbers with a sign compare by their signs and sizes, unless both are zero. -/
theorem compare_signed (s s' : Sign) {n n' : Nat} {o : Ordering} (sizes : compare n n' = o)
    (h : 0 < n + n') : compare (signed s n) (signed s' n') = bySigns s s' o := by
  subst sizes
  cases s <;> cases s' <;> simp only [signed, bySigns]
  · rw [Nat.compare_swap]
    simp only [Int.compare_eq_ite_lt, Nat.compare_eq_ite_lt, Int.neg_lt_neg_iff, Int.ofNat_lt]
  · rw [Int.compare_eq_lt]
    omega
  · rw [Int.compare_eq_gt]
    omega
  · simp only [Int.compare_eq_ite_lt, Nat.compare_eq_ite_lt, Int.ofNat_lt]

/-! ### Doubles that are taken apart -/

/-- The bits of exponent and significand as one number.  The leading digit of a significand, which
is not stored, counts for the lowest bit of the exponent. -/
def packed (m : Nat) (e : Int) : Nat := (e + 1074).toNat * 2 ^ 52 + m

/-- A significand and an exponent that a double can hold: fifty-three digits, and fewer only at
the least exponent. -/
def Fits (m : Nat) (e : Int) : Prop :=
  m < 2 ^ 53 ∧ (m < 2 ^ 52 → e = -1074) ∧ -1074 ≤ e ∧ e ≤ 971

/-- Exponents first and then significands is one comparison of the bits. -/
theorem compare_packed {m m' : Nat} {e e' : Int} (h : Fits m e) (h' : Fits m' e') :
    compare (packed m e) (packed m' e') = (compare e e').then (compare m m') := by
  unfold Fits at h h'
  rcases Int.lt_trichotomy e e' with lt | rfl | gt
  · rw [Int.compare_eq_lt.mpr lt, Ordering.lt_then, Nat.compare_eq_lt, packed, packed]
    omega
  · rw [Int.compare_eq_eq.mpr rfl, Ordering.eq_then]
    simp only [packed, Nat.compare_eq_ite_lt, Nat.add_lt_add_iff_left]
  · rw [Int.compare_eq_gt.mpr gt, Ordering.gt_then, Nat.compare_eq_gt, packed, packed]
    omega

theorem packed_pos {m : Nat} {e : Int} (pos : 0 < m) : 0 < packed m e := by
  unfold packed
  omega

/-- What is finite is packed below infinity. -/
theorem packed_lt {m : Nat} {e : Int} (h : Fits m e) : packed m e < 2047 * 2 ^ 52 := by
  unfold Fits at h
  unfold packed
  omega

/-- Whether a double that is taken apart can be packed. -/
def Packable : UnpackedFloat → Prop
  | .finite _ m e _ => Fits m e
  | _ => True

/-- The bits below the sign as a number, with the sign; of a double that is a number. -/
def height : UnpackedFloat → Int
  | .infinity s => signed s (2047 * 2 ^ 52)
  | .notANumber => 0
  | .zero s => signed s 0
  | .finite s m e _ => signed s (packed m e)

/-- Doubles that are taken apart compare like their heights, where both are numbers. -/
theorem compare_eq_some {u v : UnpackedFloat} (hu : Packable u) (hv : Packable v)
    (number : u.isNaN = false) (number' : v.isNaN = false) :
    u.compare v = some (compare (height u) (height v)) := by
  cases u with
  | notANumber => cases number
  | infinity s =>
      cases v with
      | notANumber => cases number'
      | infinity s' => cases s <;> cases s' <;> rfl
      | zero s' => cases s <;> cases s' <;> rfl
      | finite s' m' e' pos' =>
          have below := packed_lt hv
          have order := compare_signed s s' (Nat.compare_eq_gt.mpr below) (by omega)
          cases s <;> cases s' <;> exact congrArg some order.symm
  | zero s =>
      cases v with
      | notANumber => cases number'
      | infinity s' => cases s <;> cases s' <;> rfl
      | zero s' => cases s <;> cases s' <;> rfl
      | finite s' m' e' pos' =>
          have above : 0 < packed m' e' := packed_pos pos'
          have order := compare_signed s s' (Nat.compare_eq_lt.mpr above) (by omega)
          cases s <;> cases s' <;> exact congrArg some order.symm
  | finite s m e pos =>
      have below := packed_lt hu
      have above : 0 < packed m e := packed_pos pos
      cases v with
      | notANumber => cases number'
      | infinity s' =>
          have order := compare_signed s s' (Nat.compare_eq_lt.mpr below) (by omega)
          cases s <;> cases s' <;> exact congrArg some order.symm
      | zero s' =>
          have order := compare_signed s s' (Nat.compare_eq_gt.mpr above) (by omega)
          cases s <;> cases s' <;> exact congrArg some order.symm
      | finite s' m' e' pos' =>
          have order := compare_signed s s' (compare_packed hu hv) (by omega)
          cases s <;> cases s' <;> exact congrArg some order.symm

/-! ### Taking a double apart -/

/-- The sign that the first bit stands for. -/
def signOf (b : BitVec 64) : Sign := if 2 ^ 63 ≤ b.toNat then .negative else .positive

section Unpack

open Float.Model.UnpackedFloat (unpack unpackMantissa unpackExponent unpackSign)
open Float.Model.Format (binary64)

theorem toNat_mantissa (b : BitVec 64) :
    (@unpackMantissa binary64 b).toNat = b.toNat % 2 ^ 52 := by
  simp [unpackMantissa, BitVec.extractLsb, BitVec.extractLsb']

theorem toNat_exponent (b : BitVec 64) :
    (@unpackExponent binary64 b).toNat = b.toNat / 2 ^ 52 % 2 ^ 11 := by
  simp [unpackExponent, BitVec.extractLsb, BitVec.extractLsb', Nat.shiftRight_eq_div_pow]

theorem toNat_sign (b : BitVec 64) : (@unpackSign binary64 b).toNat = b.toNat / 2 ^ 63 := by
  have small := b.isLt
  change (b.extractLsb 63 63).toNat = b.toNat / 2 ^ 63
  rw [BitVec.extractLsb_toNat, Nat.shiftRight_eq_div_pow]
  omega

theorem sign_eq (b : BitVec 64) : Sign.ofBitVec (@unpackSign binary64 b) = signOf b := by
  have small := b.isLt
  have plus : @unpackSign binary64 b = 0#1 ↔ ¬2 ^ 63 ≤ b.toNat := by
    rw [← BitVec.toNat_inj, toNat_sign, BitVec.toNat_ofNat]
    omega
  simp only [Sign.ofBitVec, signOf, plus, ite_not]

theorem mantissa_eq_zero_iff (b : BitVec 64) :
    @unpackMantissa binary64 b = 0#_ ↔ b.toNat % 2 ^ 52 = 0 := by
  rw [← BitVec.toNat_inj, toNat_mantissa]
  rfl

theorem exponent_eq_top_iff (b : BitVec 64) :
    @unpackExponent binary64 b = -1#_ ↔ b.toNat / 2 ^ 52 % 2 ^ 11 = 2047 := by
  rw [← BitVec.toNat_inj, toNat_exponent]
  rfl

theorem exponent_eq_zero_iff (b : BitVec 64) :
    @unpackExponent binary64 b = 0#_ ↔ b.toNat / 2 ^ 52 % 2 ^ 11 = 0 := by
  rw [← BitVec.toNat_inj, toNat_exponent]
  rfl

/-- The significand with the leading digit that is not stored. -/
theorem toNat_leading_mantissa (b : BitVec 64) :
    (1#1 ++ @unpackMantissa binary64 b).toNat = 2 ^ 52 + b.toNat % 2 ^ 52 := by
  rw [BitVec.toNat_append, ← Nat.shiftLeft_add_eq_or_of_lt (BitVec.isLt _), toNat_mantissa]
  rfl

/-- What the bits below the sign stand for. -/
theorem unpack_cases (b : BitVec 64) :
    (b.toNat % 2 ^ 63 = 2047 * 2 ^ 52 ∧ unpack binary64 b = .infinity (signOf b)) ∨
    (2047 * 2 ^ 52 < b.toNat % 2 ^ 63 ∧ unpack binary64 b = .notANumber) ∨
    (b.toNat % 2 ^ 63 = 0 ∧ unpack binary64 b = .zero (signOf b)) ∨
    ∃ m e pos, unpack binary64 b = .finite (signOf b) m e pos ∧ Fits m e ∧
      packed m e = b.toNat % 2 ^ 63 := by
  have bias : (binary64.exponentBias : Int) + (binary64.mantissaBitsWithoutImplicit : Nat) = 1075 :=
    rfl
  rw [← sign_eq]
  by_cases special : @unpackExponent binary64 b = -1#_
  · have top := (exponent_eq_top_iff b).mp special
    by_cases empty : @unpackMantissa binary64 b = 0#_
    · have none := (mantissa_eq_zero_iff b).mp empty
      exact .inl ⟨by omega, (if_pos special).trans (if_pos empty)⟩
    · have some := mt (mantissa_eq_zero_iff b).mpr empty
      exact .inr (.inl ⟨by omega, (if_pos special).trans (if_neg empty)⟩)
  · have below := mt (exponent_eq_top_iff b).mpr special
    by_cases least : @unpackExponent binary64 b = 0#_
    · have bottom := (exponent_eq_zero_iff b).mp least
      by_cases empty : @unpackMantissa binary64 b = 0#_
      · have none := (mantissa_eq_zero_iff b).mp empty
        exact .inr (.inr (.inl
          ⟨by omega, (if_neg special).trans ((if_pos least).trans (dif_pos empty))⟩))
      · have some := mt (mantissa_eq_zero_iff b).mpr empty
        refine .inr (.inr (.inr
          ⟨_, _, _, (if_neg special).trans ((if_pos least).trans (dif_neg empty)), ?_⟩))
        rw [bias, toNat_mantissa, toNat_exponent, Fits, packed]
        omega
    · have above := mt (exponent_eq_zero_iff b).mpr least
      refine .inr (.inr (.inr ⟨_, _, _, (if_neg special).trans (if_neg least), ?_⟩))
      rw [bias, toNat_leading_mantissa, toNat_exponent, Fits, packed]
      omega

theorem fields_of_not_number {b : BitVec 64} (h : unpack binary64 b = .notANumber) :
    @unpackExponent binary64 b = -1#_ ∧ @unpackMantissa binary64 b ≠ 0#_ := by
  rw [ne_eq, exponent_eq_top_iff, mantissa_eq_zero_iff]
  rcases unpack_cases b with ⟨-, eq⟩ | ⟨high, -⟩ | ⟨-, eq⟩ | ⟨m, e, pos, eq, -⟩
  · cases h.symm.trans eq
  · omega
  · cases h.symm.trans eq
  · cases h.symm.trans eq

end Unpack

/-! ### Places and levels -/

/-- The parts of a double. -/
def parts (x : Float) : UnpackedFloat := x.toModel.unpack

theorem parts_eq (x : Float) :
    parts x = Float.Model.UnpackedFloat.unpack .binary64 x.toBits.toBitVec := rfl

theorem isNaN_eq (x : Float) : x.isNaN = (parts x).isNaN := rfl

theorem le_iff_compare {x y : Float} :
    x ≤ y ↔ ∃ o, (parts x).compare (parts y) = some o ∧ o.isLE = true := by
  change decide ((parts x).le (parts y) = true) = true ↔ _
  rw [decide_eq_true_eq, UnpackedFloat.le, Option.any_eq_true]

theorem lt_iff_compare {x y : Float} : x < y ↔ (parts x).compare (parts y) = some .lt := by
  change decide ((parts x).lt (parts y) = true) = true ↔ _
  rw [decide_eq_true_eq, UnpackedFloat.lt, beq_iff_eq]

theorem rank_inj {x y : Float} : rank x = rank y ↔ x = y := by
  refine ⟨fun h => ?_, congrArg rank⟩
  have small := x.toBits.toNat_lt
  have small' := y.toBits.toNat_lt
  have bits : x.toBits.toNat = y.toBits.toNat := by
    simp only [rank] at h
    omega
  have same : x.toModel.toBits = y.toModel.toBits := UInt64.toNat_inj.mp bits
  obtain ⟨bitsX, _⟩ := x
  obtain ⟨bitsY, _⟩ := y
  cases same
  rfl

/-- There is one double that is not a number, and its place is the last. -/
theorem rank_of_isNaN {x : Float} (h : x.isNaN = true) : rank x = 0x7FF8000000000000 := by
  rw [isNaN_eq] at h
  have none : parts x = .notANumber := by
    cases parts : parts x with
    | notANumber => rfl
    | infinity | zero | finite =>
        rw [parts] at h
        cases h
  obtain ⟨special, filled⟩ := fields_of_not_number none
  have bits : x.toBits.toBitVec = 0x7FF8000000000000#64 :=
    x.toModel.valid.eq_packedNaN special filled
  have nat : x.toBits.toNat = 0x7FF8000000000000 := congrArg BitVec.toNat bits
  rw [rank, nat]
  rfl

/-- The place of a double when the two zeros are put at one. -/
def level (x : Float) : Int := if rank x < 0 then rank x + 1 else rank x

/-- The level has the sign and the other bits of the double. -/
theorem level_eq_signed (x : Float) :
    level x = signed (signOf x.toBits.toBitVec) (x.toBits.toBitVec.toNat % 2 ^ 63) := by
  have small := x.toBits.toBitVec.isLt
  have nat : x.toBits.toNat = x.toBits.toBitVec.toNat := rfl
  rw [level, rank, nat, signOf]
  by_cases minus : 2 ^ 63 ≤ x.toBits.toBitVec.toNat
  · simp only [minus, if_true, signed]
    omega
  · simp only [minus, if_false, signed]
    omega

/-- The parts of a number can be packed, and their height is the level. -/
theorem parts_of_number {x : Float} (h : x.isNaN = false) :
    Packable (parts x) ∧ height (parts x) = level x ∧ level x ≤ 2047 * 2 ^ 52 := by
  rw [isNaN_eq] at h
  rw [parts_eq] at h ⊢
  rw [level_eq_signed]
  rcases unpack_cases x.toBits.toBitVec with ⟨bits, eq⟩ | ⟨-, eq⟩ | ⟨bits, eq⟩ |
    ⟨m, e, pos, eq, fits, bits⟩
  · rw [eq, bits]
    refine ⟨trivial, rfl, ?_⟩
    cases signOf x.toBits.toBitVec <;> decide
  · rw [eq] at h
    cases h
  · rw [eq, bits]
    refine ⟨trivial, rfl, ?_⟩
    cases signOf x.toBits.toBitVec <;> decide
  · have below := packed_lt fits
    rw [eq, ← bits]
    refine ⟨fits, rfl, ?_⟩
    cases signOf x.toBits.toBitVec <;> simp only [signed] <;> omega

theorem compare_parts {x y : Float} (hx : x.isNaN = false) (hy : y.isNaN = false) :
    (parts x).compare (parts y) = some (compare (level x) (level y)) := by
  obtain ⟨packable, height, -⟩ := parts_of_number hx
  obtain ⟨packable', height', -⟩ := parts_of_number hy
  rw [compare_eq_some packable packable' hx hy, height, height']

theorem le_iff_level {x y : Float} (hx : x.isNaN = false) (hy : y.isNaN = false) :
    x ≤ y ↔ level x ≤ level y := by
  rw [le_iff_compare, compare_parts hx hy]
  simp only [Option.some.injEq, exists_eq_left', Int.isLE_compare]

theorem lt_iff_level {x y : Float} (hx : x.isNaN = false) (hy : y.isNaN = false) :
    x < y ↔ level x < level y := by
  rw [lt_iff_compare, compare_parts hx hy, Option.some.injEq, Int.compare_eq_lt]

/-- Only numbers compare. -/
theorem numbers_of_compare {x y : Float} {o : Ordering}
    (h : (parts x).compare (parts y) = some o) : x.isNaN = false ∧ y.isNaN = false := by
  rw [isNaN_eq, isNaN_eq]
  generalize parts x = u at h ⊢
  generalize parts y = v at h ⊢
  cases u with
  | notANumber => cases v <;> cases h
  | infinity | zero | finite =>
      cases v with
      | notANumber => cases h
      | infinity | zero | finite => exact ⟨rfl, rfl⟩

theorem numbers_of_le {x y : Float} (h : x ≤ y) : x.isNaN = false ∧ y.isNaN = false := by
  obtain ⟨o, compared, -⟩ := le_iff_compare.mp h
  exact numbers_of_compare compared

theorem numbers_of_lt {x y : Float} (h : x < y) : x.isNaN = false ∧ y.isNaN = false :=
  numbers_of_compare (lt_iff_compare.mp h)

/-! ### The order of all doubles -/

/-- The order of all doubles, told by the comparison as numbers: negative zero comes before zero,
and what is not a number comes after all numbers. -/
def Before (x y : Float) : Prop :=
  x < y ∨ x = -0.0 ∧ y = 0.0 ∨ x.isNaN = false ∧ y.isNaN = true

theorem rank_neg_zero : rank (-0.0) = -1 := by decide

theorem rank_zero : rank 0.0 = 0 := by decide

theorem rank_le_of_number {x : Float} (h : x.isNaN = false) : rank x ≤ 2047 * 2 ^ 52 := by
  obtain ⟨-, -, bound⟩ := parts_of_number h
  unfold level at bound
  omega

/-- Nothing has its place after what is not a number. -/
theorem rank_le_last (x : Float) : rank x ≤ 0x7FF8000000000000 := by
  cases h : x.isNaN with
  | true => exact Int.le_of_eq (rank_of_isNaN h)
  | false =>
      have bound := rank_le_of_number h
      omega

/-- **One double has its place before another** when it is less, when the two are negative zero
and zero, or when only the other one is not a number. -/
theorem rank_lt_iff {x y : Float} : rank x < rank y ↔ Before x y := by
  have zeros : x = -0.0 ∧ y = 0.0 ↔ rank x = -1 ∧ rank y = 0 := by
    rw [← rank_neg_zero, ← rank_zero, rank_inj, rank_inj]
  rw [Before, zeros]
  cases hx : x.isNaN with
  | true =>
      have last := rank_of_isNaN hx
      have bound := rank_le_last y
      refine iff_of_false (by omega) ?_
      rintro (less | ⟨place, -⟩ | ⟨number, -⟩)
      · cases hx.symm.trans (numbers_of_lt less).1
      · omega
      · cases number
  | false =>
      have bound := rank_le_of_number hx
      cases hy : y.isNaN with
      | true =>
          have last := rank_of_isNaN hy
          exact iff_of_true (by omega) (.inr (.inr ⟨rfl, rfl⟩))
      | false =>
          -- between numbers, places and levels differ at the zeros only
          rw [lt_iff_level hx hy]
          simp only [level, Bool.false_eq_true, and_false, or_false]
          omega

/-- What has its place before something that is at most `z` is at most `z` as well. -/
theorem le_of_rank_le {x y z : Float} (place : rank x ≤ rank y) (h : y ≤ z) : x ≤ z := by
  obtain ⟨hy, hz⟩ := numbers_of_le h
  have hx : x.isNaN = false := by
    rw [← Bool.not_eq_true]
    intro none
    have last := rank_of_isNaN none
    have bound := rank_le_of_number hy
    omega
  rw [le_iff_level hx hz]
  rw [le_iff_level hy hz] at h
  unfold level at h ⊢
  omega

/-- Numbers of one level have the same doubles up to them. -/
theorem le_iff_of_level_eq {x y z : Float} (hy : y.isNaN = false) (hz : z.isNaN = false)
    (same : level y = level z) : x ≤ y ↔ x ≤ z := by
  cases hx : x.isNaN with
  | true =>
      refine iff_of_false ?_ ?_
      · intro h
        cases hx.symm.trans (numbers_of_le h).1
      · intro h
        cases hx.symm.trans (numbers_of_le h).1
  | false => rw [le_iff_level hx hy, le_iff_level hx hz, same]

end Geotile.Binary64
