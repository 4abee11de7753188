/-
**Finite doubles and their quanta.**

The bits below the sign of a double are a number, and the size of the double grows with it: from one
such number to the next a significand grows by one, or it has all its digits and the exponent grows
by one.  So finite doubles compare like their quanta, and a double other than the two zeros is
determined by them.

The other way around, a number that a double can hold is the size that its bits stand for.  The
leading digit of a significand, which is not stored, counts for the lowest bit of the exponent, so
that the bits of exponent and significand are put together by an addition.

Main definitions:

* `Geotile.Binary64.size`, `Geotile.Binary64.value` — the quanta that the bits below the sign stand
  for, and those that a level stands for;
* `Geotile.Binary64.signBit`, `Geotile.Binary64.bitsOf` — the bits that stand for a sign and for a
  number of quanta.

Main results:

* `Geotile.Binary64.toBits_ofBits` — the bits of a finite double are the bits it is made of;
* `Geotile.Binary64.quanta?_eq_some_iff` — which doubles have quanta, and which;
* `Geotile.Binary64.lt_iff_quanta`, `Geotile.Binary64.le_iff_quanta` — **finite doubles compare like
  their quanta**;
* `Geotile.Binary64.quanta?_ofQuanta` — **what a double can hold is held by the double made of it**.
-/

import Geotile.Proofs.DoubleOrder
import Geotile.Proofs.Rounding
import Mathlib.Order.Monotone.Basic

set_option autoImplicit false

namespace Geotile.Binary64

open Float.Model.UnpackedFloat (Sign)

/-! ### Putting a double together -/

/-- The first bit as a number. -/
def signBit : Sign → Nat
  | .negative => 2 ^ 63
  | .positive => 0

theorem signBit_signOf (b : BitVec 64) : signBit (signOf b) + b.toNat % 2 ^ 63 = b.toNat := by
  have small := b.isLt
  rw [signOf]
  split
  · rw [signBit]
    omega
  · rw [signBit]
    omega

section Pack

open Float.Model.UnpackedFloat (pack unpack packComponents)
open Float.Model.Format (binary64)

theorem toNat_components (s : Sign) (e : BitVec 11) (m : BitVec 52) :
    (packComponents binary64 s e m).toNat = signBit s + e.toNat * 2 ^ 52 + m.toNat := by
  change (s.toBitVec ++ e ++ m).toNat = _
  rw [BitVec.toNat_append, ← Nat.shiftLeft_add_eq_or_of_lt m.isLt, BitVec.toNat_append,
    ← Nat.shiftLeft_add_eq_or_of_lt e.isLt, Nat.shiftLeft_eq, Nat.shiftLeft_eq]
  cases s with
  | negative =>
      rw [Sign.toBitVec, signBit, BitVec.toNat_ofNat]
      omega
  | positive =>
      rw [Sign.toBitVec, signBit, BitVec.toNat_ofNat]
      omega

/-- What fits is packed without loss. -/
theorem toNat_pack_finite (s : Sign) {m : Nat} {e : Int} (pos : 0 < m) (fits : Fits m e) :
    (pack binary64 (.finite s m e pos)).toNat = signBit s + packed m e := by
  obtain ⟨digits, leading, low, high⟩ := fits
  have bias : (e + binary64.exponentBias + binary64.mantissaBitsWithoutImplicit).toNat =
      (e + 1075).toNat := by
    change (e + 1023 + 52).toNat = _
    omega
  have exponent : ¬ 2 ^ 11 ≤ (e + 1023 + 52).toNat + 1 := by omega
  refine (congrArg BitVec.toNat (if_neg exponent)).trans ?_
  by_cases less : m < 2 ^ 52
  · have few : ¬ m.log2 + 1 = 53 := by
      have := (Nat.log2_lt (Nat.ne_of_gt pos)).mpr less
      omega
    refine (congrArg BitVec.toNat (if_neg few)).trans ?_
    rw [toNat_components, BitVec.toNat_ofNat, BitVec.toNat_ofNat, packed]
    omega
  · have full : m.log2 + 1 = 53 := by
      have := (Nat.log2_eq_iff (Nat.ne_of_gt pos)).mpr ⟨Nat.le_of_not_lt less, digits⟩
      omega
    refine (congrArg BitVec.toNat (if_pos full)).trans ?_
    rw [toNat_components, BitVec.toNat_ofNat, BitVec.toNat_ofNat, bias, packed]
    omega

theorem toNat_pack_zero (s : Sign) : (pack binary64 (.zero s)).toNat = signBit s := by
  cases s <;> rfl

theorem pack_unpack {b : BitVec 64} (finite : b.toNat % 2 ^ 63 < 2047 * 2 ^ 52) :
    pack binary64 (unpack binary64 b) = b := by
  have whole := signBit_signOf b
  rw [← BitVec.toNat_inj]
  rcases unpack_cases b with ⟨bits, -⟩ | ⟨bits, -⟩ | ⟨bits, eq⟩ | ⟨m, e, pos, eq, fits, bits⟩
  · omega
  · omega
  · rw [eq, toNat_pack_zero]
    omega
  · rw [eq, toNat_pack_finite _ pos fits]
    omega

end Pack

/-- The bits of a finite double are the bits it is made of. -/
theorem toBits_ofBits {w : UInt64} (finite : w.toNat % 2 ^ 63 < 2047 * 2 ^ 52) :
    (Float.ofBits w).toBits = w :=
  congrArg UInt64.ofBitVec (pack_unpack finite)

/-! ### The size that bits stand for -/

/-- The quanta that the bits below the sign of a finite double stand for. -/
def size (n : Nat) : Nat :=
  if n / 2 ^ 52 = 0 then n % 2 ^ 52 else (2 ^ 52 + n % 2 ^ 52) * 2 ^ (n / 2 ^ 52 - 1)

theorem size_zero : size 0 = 0 := rfl

/-- The bits are put together by an addition, to which the leading digit of a significand adds one
exponent. -/
theorem size_add {m j : Nat} (digits : m < 2 ^ 53) (leading : m < 2 ^ 52 → j = 0) :
    size (j * 2 ^ 52 + m) = m * 2 ^ j := by
  rw [size]
  by_cases less : m < 2 ^ 52
  · rw [leading less, if_pos (by omega), Nat.pow_zero]
    omega
  · rw [if_neg (by omega), show (j * 2 ^ 52 + m) / 2 ^ 52 - 1 = j by omega,
      show 2 ^ 52 + (j * 2 ^ 52 + m) % 2 ^ 52 = m by omega]

/-- All bits are put together so. -/
theorem exists_bits (n : Nat) :
    ∃ m j, m < 2 ^ 53 ∧ (m < 2 ^ 52 → j = 0) ∧ n = j * 2 ^ 52 + m := by
  by_cases less : n < 2 ^ 52
  · exact ⟨n, 0, by omega, fun _ => rfl, by omega⟩
  · exact ⟨2 ^ 52 + n % 2 ^ 52, n / 2 ^ 52 - 1, by omega, by omega, by omega⟩

theorem size_lt_size_succ (n : Nat) : size n < size (n + 1) := by
  obtain ⟨m, j, digits, leading, rfl⟩ := exists_bits n
  have pos := Nat.two_pow_pos j
  rw [size_add digits leading]
  by_cases last : m + 1 = 2 ^ 53
  · -- the next significand has one digit more, and all of them zero but the first
    rw [show j * 2 ^ 52 + m + 1 = (j + 1) * 2 ^ 52 + 2 ^ 52 by omega,
      size_add (by decide) (by omega), Nat.pow_succ]
    have := Nat.mul_lt_mul_of_pos_right digits pos
    omega
  · rw [Nat.add_assoc, size_add (by omega) (by omega), Nat.add_mul]
    omega

theorem size_strictMono : StrictMono size := strictMono_nat_of_lt_succ size_lt_size_succ

theorem held_size (n : Nat) : Held (size n) := by
  obtain ⟨m, j, digits, leading, rfl⟩ := exists_bits n
  exact ⟨m, j, digits, size_add digits leading⟩

/-! ### From doubles to quanta -/

/-- The quanta that a level stands for. -/
def value (k : Int) : Int := if k < 0 then -(size k.natAbs : Int) else size k.natAbs

theorem value_lt_value {k l : Int} (less : k < l) : value k < value l := by
  have sizes {n m : Nat} (h : n < m) : size n < size m := size_strictMono h
  rw [value, value]
  by_cases negative : l < 0
  · have := sizes (show l.natAbs < k.natAbs by omega)
    rw [if_pos (by omega), if_pos negative]
    omega
  · by_cases negative' : k < 0
    · have := sizes (show 0 < k.natAbs by omega)
      rw [if_pos negative', if_neg negative]
      omega
    · have := sizes (show k.natAbs < l.natAbs by omega)
      rw [if_neg negative', if_neg negative]
      omega

theorem value_lt_iff {k l : Int} : value k < value l ↔ k < l := by
  refine ⟨fun less => ?_, value_lt_value⟩
  rcases Int.lt_trichotomy k l with lt | rfl | gt
  · exact lt
  · exact absurd less (Int.lt_irrefl _)
  · exact absurd less (Int.lt_asymm (value_lt_value gt))

theorem value_le_iff {k l : Int} : value k ≤ value l ↔ k ≤ l := by
  rw [← Int.not_lt, value_lt_iff, Int.not_lt]

theorem value_inj {k l : Int} : value k = value l ↔ k = l := by
  rw [Int.le_antisymm_iff, value_le_iff, value_le_iff, ← Int.le_antisymm_iff]

theorem value_signed (s : Sign) (n : Nat) : value (signed s n) = signed s (size n) := by
  cases s with
  | negative =>
      rw [signed, signed, value]
      rcases Nat.eq_zero_or_pos n with rfl | pos
      · rfl
      · rw [if_pos (by omega), Int.natAbs_neg, Int.natAbs_natCast]
  | positive =>
      rw [signed, signed, value, if_neg (by omega), Int.natAbs_natCast]

theorem natAbs_value (k : Int) : (value k).natAbs = size k.natAbs := by
  rw [value]
  split <;> omega

/-- A double is finite when its bits below the sign are below those of infinity. -/
theorem isFinite_iff (x : Float) :
    x.isFinite = true ↔ x.toBits.toNat % 2 ^ 63 < 2047 * 2 ^ 52 := by
  change (parts x).isFinite = true ↔ x.toBits.toBitVec.toNat % 2 ^ 63 < _
  rw [parts_eq]
  rcases unpack_cases x.toBits.toBitVec with ⟨bits, eq⟩ | ⟨bits, eq⟩ | ⟨bits, eq⟩ |
    ⟨m, e, pos, eq, fits, bits⟩
  · rw [eq]
    exact iff_of_false Bool.false_ne_true (by omega)
  · rw [eq]
    exact iff_of_false Bool.false_ne_true (by omega)
  · rw [eq]
    exact iff_of_true rfl (by omega)
  · have below := packed_lt fits
    rw [eq]
    exact iff_of_true rfl (by omega)

theorem isNaN_of_isFinite {x : Float} (finite : x.isFinite = true) : x.isNaN = false := by
  change (parts x).isFinite = true at finite
  rw [isNaN_eq]
  cases parts : parts x with
  | notANumber =>
      rw [parts] at finite
      cases finite
  | infinity | zero | finite => rfl

theorem magnitude?_eq_some_iff {x : Float} {n : Nat} :
    magnitude? x = some n ↔ x.isFinite = true ∧ size (x.toBits.toNat % 2 ^ 63) = n := by
  have top : x.toBits.toNat % 2 ^ 63 / 2 ^ 52 = 2047 ↔ ¬ x.isFinite = true := by
    rw [isFinite_iff]
    omega
  change (if x.toBits.toNat % 2 ^ 63 / 2 ^ 52 = 2047 then none else _) = some n ↔ _
  by_cases finite : x.isFinite = true
  · rw [if_neg (mt top.mp (not_not_intro finite)), size, Nat.shiftLeft_eq, ← apply_ite some,
      Option.some.injEq]
    exact (and_iff_right finite).symm
  · rw [if_pos (top.mpr finite)]
    exact iff_of_false (fun h => nomatch h) fun h => finite h.1

theorem quanta?_eq_signed (x : Float) :
    quanta? x = (magnitude? x).map (signed (signOf x.toBits.toBitVec)) := by
  rw [quanta?]
  cases magnitude? x with
  | none => rfl
  | some n =>
      refine congrArg some ?_
      change (if decide (2 ^ 63 ≤ x.toBits.toBitVec.toNat) = true then _ else _) = _
      rw [signOf]
      by_cases minus : 2 ^ 63 ≤ x.toBits.toBitVec.toNat
      · rw [if_pos (decide_eq_true minus), if_pos minus, signed]
      · rw [if_neg (mt of_decide_eq_true minus), if_neg minus, signed]

/-- The finite doubles are those with quanta, and their quanta are what their levels stand for. -/
theorem quanta?_eq_some_iff {x : Float} {q : Int} :
    quanta? x = some q ↔ x.isFinite = true ∧ value (level x) = q := by
  rw [quanta?_eq_signed, Option.map_eq_some_iff, level_eq_signed, value_signed]
  constructor
  · rintro ⟨n, magnitude, rfl⟩
    obtain ⟨finite, rfl⟩ := magnitude?_eq_some_iff.mp magnitude
    exact ⟨finite, rfl⟩
  · rintro ⟨finite, rfl⟩
    exact ⟨_, magnitude?_eq_some_iff.mpr ⟨finite, rfl⟩, rfl⟩

/-- The quanta of a double that is given by its bits. -/
theorem quanta?_of_bits {x : Float} {s : Sign} {n : Nat} (bits : x.toBits.toNat = signBit s + n)
    (finite : n < 2047 * 2 ^ 52) : quanta? x = some (signed s (size n)) := by
  have low : x.toBits.toNat % 2 ^ 63 = n := by
    cases s <;> simp only [signBit] at bits <;> omega
  have sign : signOf x.toBits.toBitVec = s := by
    change (if 2 ^ 63 ≤ x.toBits.toNat then Sign.negative else .positive) = s
    cases s with
    | negative =>
        rw [signBit] at bits
        rw [if_pos (by omega)]
    | positive =>
        rw [signBit] at bits
        rw [if_neg (by omega)]
  rw [quanta?_eq_signed, sign, Option.map_eq_some_iff]
  refine ⟨_, magnitude?_eq_some_iff.mpr ⟨?_, rfl⟩, by rw [low]⟩
  rwa [isFinite_iff, low]

section Compare

variable {x y : Float} {p q : Int}

/-- Finite doubles compare like their quanta. -/
theorem lt_iff_quanta (hx : quanta? x = some p) (hy : quanta? y = some q) : x < y ↔ p < q := by
  obtain ⟨finite, rfl⟩ := quanta?_eq_some_iff.mp hx
  obtain ⟨finite', rfl⟩ := quanta?_eq_some_iff.mp hy
  rw [lt_iff_level (isNaN_of_isFinite finite) (isNaN_of_isFinite finite'), value_lt_iff]

theorem le_iff_quanta (hx : quanta? x = some p) (hy : quanta? y = some q) : x ≤ y ↔ p ≤ q := by
  obtain ⟨finite, rfl⟩ := quanta?_eq_some_iff.mp hx
  obtain ⟨finite', rfl⟩ := quanta?_eq_some_iff.mp hy
  rw [le_iff_level (isNaN_of_isFinite finite) (isNaN_of_isFinite finite'), value_le_iff]

/-- Only the two zeros have the same quanta. -/
theorem eq_of_quanta (hx : quanta? x = some q) (hy : quanta? y = some q) (nonzero : q ≠ 0) :
    x = y := by
  obtain ⟨-, eq⟩ := quanta?_eq_some_iff.mp hx
  obtain ⟨-, eq'⟩ := quanta?_eq_some_iff.mp hy
  have same : level x = level y := value_inj.mp (eq.trans eq'.symm)
  have apart : level x ≠ 0 := by
    intro zero
    rw [zero] at eq
    exact nonzero eq.symm
  rw [← rank_inj]
  unfold level at same apart
  omega

theorem held_of_quanta (hx : quanta? x = some q) : Held q.natAbs := by
  obtain ⟨-, rfl⟩ := quanta?_eq_some_iff.mp hx
  rw [natAbs_value]
  exact held_size _

end Compare

/-! ### From quanta to doubles -/

/-- The bits of exponent and significand for a number of quanta. -/
def bitsOf (n : Nat) : Nat := ((bitLength n - 53) <<< 52) + (n >>> (bitLength n - 53))

theorem bitsOf_eq (n : Nat) : bitsOf n = (bitLength n - 53) * 2 ^ 52 + n / grain n := by
  rw [bitsOf, grain, Nat.shiftLeft_eq, Nat.shiftRight_eq_div_pow]

/-- A number that can be held is the size that its bits stand for. -/
theorem size_bitsOf {n : Nat} (held : Held n) : size (bitsOf n) = n := by
  have pos := grain_pos n
  have digits : n / grain n < 2 ^ 53 := (Nat.div_lt_iff_lt_mul pos).mpr (lt_grain n)
  rw [bitsOf_eq]
  refine (size_add digits fun less => ?_).trans (Nat.div_mul_cancel (grain_dvd held))
  rcases grain_le n with few | large
  · omega
  · have := (Nat.le_div_iff_mul_le pos).mpr large
    omega

/-- The bits of what is not too large are below those of infinity. -/
theorem bitsOf_lt {n : Nat} (bounded : n < 1 <<< 2098) : bitsOf n < 2047 * 2 ^ 52 := by
  have digits : n / grain n < 2 ^ 53 := (Nat.div_lt_iff_lt_mul (grain_pos n)).mpr (lt_grain n)
  have length : bitLength n ≤ 2098 := by
    rw [bitLength]
    split
    · omega
    · next pos =>
      rw [Nat.one_shiftLeft] at bounded
      exact (Nat.log2_lt pos).mpr bounded
  rw [bitsOf_eq]
  omega

theorem toNat_ofMagnitude (negative : Bool) {n : Nat} (bounded : n < 1 <<< 2098) :
    (ofMagnitude negative n).toBits.toNat =
      signBit (if negative then .negative else .positive) + bitsOf n := by
  have below := bitsOf_lt bounded
  have made : ofMagnitude negative n =
      .ofBits (.ofNat (signBit (if negative then .negative else .positive) + bitsOf n)) := by
    rw [ofMagnitude, ← bitsOf, Nat.min_eq_left (by omega)]
    cases negative with
    | false => rw [if_neg Bool.false_ne_true, if_neg Bool.false_ne_true, signBit, Nat.zero_add]
    | true =>
        rw [if_pos rfl, if_pos rfl, signBit, Nat.add_comm]
        rfl
  have sign : signBit (if negative then .negative else .positive) % 2 ^ 63 = 0 ∧
      signBit (if negative then .negative else .positive) ≤ 2 ^ 63 := by
    cases negative <;> decide
  have small : signBit (if negative then .negative else .positive) + bitsOf n < 2 ^ 64 := by omega
  rw [made, toBits_ofBits, UInt64.toNat_ofNat_of_lt' small]
  rw [UInt64.toNat_ofNat_of_lt' small]
  omega

/-- What a double can hold is held by the double made of it. -/
theorem quanta?_ofQuanta {q : Int} (held : Held q.natAbs) (bounded : q.natAbs < 1 <<< 2098) :
    quanta? (ofQuanta q) = some q := by
  rw [ofQuanta, quanta?_of_bits (toNat_ofMagnitude _ bounded) (bitsOf_lt bounded),
    size_bitsOf held, Option.some.injEq]
  by_cases negative : q < 0
  · rw [decide_eq_true negative, if_pos rfl, signed]
    omega
  · rw [decide_eq_false negative, if_neg Bool.false_ne_true, signed]
    omega

end Geotile.Binary64
