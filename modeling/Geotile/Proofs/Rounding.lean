/-
**Rounding to what a double can hold.**

A number of quanta is rounded to fifty-three binary digits.  Two facts say all that is needed of it
later on: rounding moves no number past one that a double can hold, and its result is one.  So a
number that can be held stays as it is, and what lies between two of them is rounded to something
between them.

The numbers that can be held are multiples of a power of two that grows with their size.  A sum or
a remainder of such multiples is one again, and where it is not too large for its power it can be
held.  That is why the difference of two numbers of which neither is more than twice the other needs
no rounding, and no remainder does.

Main definitions:

* `Geotile.Binary64.Held` — the numbers that a double can hold, if they are not too large;
* `Geotile.Binary64.grain` — the power of two that a number is rounded to a multiple of.

Main results:

* `Geotile.Binary64.dvd_of_held` — large numbers that can be held are multiples of large powers;
* `Geotile.Binary64.le_round`, `Geotile.Binary64.round_le` — **rounding moves nothing past a number
  that can be held**;
* `Geotile.Binary64.held_round`, `Geotile.Binary64.dvd_round` — what a rounded number is;
* `Geotile.Binary64.held_sub`, `Geotile.Binary64.held_tmod` — differences and remainders that need
  no rounding.
-/

import Geotile.Number.Binary64
import Mathlib.Algebra.Order.Ring.Int
import Mathlib.Tactic.Ring

set_option autoImplicit false

namespace Geotile.Binary64

/-! ### Numbers that can be held -/

/-- A number with at most fifty-three binary digits before its last zeros. -/
def Held (n : Nat) : Prop := ∃ m k, m < 2 ^ 53 ∧ n = m * 2 ^ k

theorem held_zero : Held 0 := ⟨0, 0, by decide, rfl⟩

/-- What can be held and is large is a multiple of a large power of two. -/
theorem dvd_of_held {n k : Nat} (held : Held n) (large : 2 ^ 52 * 2 ^ k ≤ n) : 2 ^ k ∣ n := by
  obtain ⟨m, j, digits, rfl⟩ := held
  rcases Nat.lt_or_ge j k with less | le
  · -- then the number would be too small
    have step : 2 ^ 53 * 2 ^ j ≤ 2 ^ 52 * 2 ^ k := by
      have next : 2 ^ (j + 1) ≤ 2 ^ k := Nat.pow_le_pow_right (by decide) less
      rw [Nat.pow_succ] at next
      omega
    have small := Nat.mul_lt_mul_of_pos_right digits (Nat.two_pow_pos j)
    omega
  · exact Nat.dvd_mul_left_of_dvd (Nat.pow_dvd_pow 2 le) m

/-- A multiple of a power of two that is small for it can be held. -/
theorem held_of_dvd {n k : Nat} (whole : 2 ^ k ∣ n) (small : n < 2 ^ 53 * 2 ^ k) : Held n := by
  obtain ⟨m, rfl⟩ := whole
  refine ⟨m, k, ?_, Nat.mul_comm _ _⟩
  rw [Nat.mul_comm] at small
  exact Nat.lt_of_mul_lt_mul_right small

/-- The difference of two numbers that can be held can be held when neither is more than twice the
other. -/
theorem held_natSub {a b : Nat} (ha : Held a) (hb : Held b) (le : a ≤ b) (near : b ≤ 2 * a) :
    Held (b - a) := by
  obtain ⟨m, j, digits, rfl⟩ := ha
  obtain ⟨m', k, digits', rfl⟩ := hb
  -- both are multiples of the smaller of the two powers, and the difference is small for it
  rcases Nat.le_total j k with jk | kj
  · have whole : 2 ^ j ∣ m' * 2 ^ k := Nat.dvd_mul_left_of_dvd (Nat.pow_dvd_pow 2 jk) m'
    refine held_of_dvd (Nat.dvd_sub whole (Nat.dvd_mul_left ..)) ?_
    have small := Nat.mul_lt_mul_of_pos_right digits (Nat.two_pow_pos j)
    omega
  · have whole : 2 ^ k ∣ m * 2 ^ j := Nat.dvd_mul_left_of_dvd (Nat.pow_dvd_pow 2 kj) m
    refine held_of_dvd (Nat.dvd_sub (Nat.dvd_mul_left ..) whole) ?_
    have small := Nat.mul_lt_mul_of_pos_right digits' (Nat.two_pow_pos k)
    omega

/-- A remainder can be held when both numbers can. -/
theorem held_mod {a b : Nat} (ha : Held a) (hb : Held b) : Held (a % b) := by
  rcases Nat.eq_zero_or_pos b with rfl | pos
  · rwa [Nat.mod_zero]
  obtain ⟨m, j, digits, rfl⟩ := ha
  obtain ⟨m', k, digits', rfl⟩ := hb
  rcases Nat.le_total j k with jk | kj
  · have whole : 2 ^ j ∣ m' * 2 ^ k := Nat.dvd_mul_left_of_dvd (Nat.pow_dvd_pow 2 jk) m'
    refine held_of_dvd ((Nat.dvd_mod_iff whole).mpr (Nat.dvd_mul_left ..)) ?_
    have small := Nat.mul_lt_mul_of_pos_right digits (Nat.two_pow_pos j)
    exact Nat.lt_of_le_of_lt (Nat.mod_le ..) small
  · have whole : 2 ^ k ∣ m * 2 ^ j := Nat.dvd_mul_left_of_dvd (Nat.pow_dvd_pow 2 kj) m
    refine held_of_dvd ((Nat.dvd_mod_iff (Nat.dvd_mul_left ..)).mpr whole) ?_
    have small := Nat.mul_lt_mul_of_pos_right digits' (Nat.two_pow_pos k)
    exact Nat.lt_trans (Nat.mod_lt _ pos) small

/-! ### Rounding sizes -/

/-- The power of two that a number is rounded to a multiple of. -/
def grain (n : Nat) : Nat := 2 ^ (bitLength n - 53)

theorem grain_pos (n : Nat) : 0 < grain n := Nat.two_pow_pos _

/-- A number has at most fifty-three digits above its grain. -/
theorem lt_grain (n : Nat) : n < 2 ^ 53 * grain n := by
  have digits : n < 2 ^ bitLength n := by
    rw [bitLength]
    split
    · next zero =>
      rw [zero]
      decide
    · exact Nat.lt_log2_self
  rw [grain, ← Nat.pow_add]
  exact Nat.lt_of_lt_of_le digits (Nat.pow_le_pow_right (by decide) (by omega))

theorem grain_of_bitLength_le {n : Nat} (few : bitLength n ≤ 53) : grain n = 1 := by
  rw [grain, Nat.sub_eq_zero_of_le few, Nat.pow_zero]

/-- And as many, unless it has no more at all. -/
theorem grain_le (n : Nat) : bitLength n ≤ 53 ∨ 2 ^ 52 * grain n ≤ n := by
  rcases Nat.lt_or_ge 53 (bitLength n) with many | few
  · right
    rw [grain, ← Nat.pow_add]
    rw [bitLength] at many ⊢
    split at many
    · omega
    · next pos =>
      rw [if_neg pos]
      exact Nat.le_trans (Nat.pow_le_pow_right (by decide) (by omega)) (Nat.log2_self_le pos)
  · exact .inl few

theorem nearest_eq (n : Nat) : nearestQuotient n 1 = roundDiv n (grain n) * grain n := by
  rw [nearestQuotient, Nat.div_one, Nat.one_shiftLeft, Nat.shiftLeft_eq]
  rfl

theorem nearest_of_dvd {n : Nat} (whole : grain n ∣ n) : nearestQuotient n 1 = n := by
  have pos := grain_pos n
  rw [nearest_eq, roundDiv, Nat.mod_eq_zero_of_dvd whole, if_pos (by omega),
    Nat.div_mul_cancel whole]

/-- What can be held and is no larger than a number is a multiple of the number's grain, or smaller
than all numbers with that grain. -/
theorem dvd_or_lt_of_held {a : Nat} (held : Held a) (n : Nat) :
    grain n ∣ a ∨ (2 ^ 52 * grain n ≤ n ∧ a < 2 ^ 52 * grain n) := by
  rcases grain_le n with few | large
  · exact .inl (grain_of_bitLength_le few ▸ Nat.one_dvd a)
  · rcases Nat.lt_or_ge a (2 ^ 52 * grain n) with less | le
    · exact .inr ⟨large, less⟩
    · exact .inl (dvd_of_held held le)

theorem grain_dvd {n : Nat} (held : Held n) : grain n ∣ n := by
  rcases dvd_or_lt_of_held held n with whole | ⟨large, less⟩
  · exact whole
  · omega

theorem le_nearest {a n : Nat} (held : Held a) (le : a ≤ n) : a ≤ nearestQuotient n 1 := by
  have pos := grain_pos n
  have down := Nat.mul_le_mul_right (grain n) (le_roundDiv n (grain n))
  rw [nearest_eq]
  refine Nat.le_trans ?_ down
  rcases dvd_or_lt_of_held held n with ⟨c, rfl⟩ | ⟨large, less⟩
  · rw [Nat.mul_comm]
    exact Nat.mul_le_mul_right _ ((Nat.le_div_iff_mul_le pos).mpr (by rwa [Nat.mul_comm]))
  · have digits := Nat.mul_le_mul_right (grain n) ((Nat.le_div_iff_mul_le pos).mpr large)
    omega

theorem nearest_le {n b : Nat} (held : Held b) (le : n ≤ b) : nearestQuotient n 1 ≤ b := by
  have pos := grain_pos n
  by_cases whole : grain n ∣ n
  · rwa [nearest_of_dvd whole]
  · -- the next multiple of the grain above the number is not above `b`
    have up := Nat.mul_le_mul_right (grain n) (roundDiv_le n (grain n))
    rw [nearest_eq]
    refine Nat.le_trans up ?_
    rcases dvd_or_lt_of_held held n with ⟨c, rfl⟩ | ⟨large, less⟩
    · have less : n < grain n * c := Nat.lt_of_le_of_ne le fun same => whole ⟨c, same⟩
      have next : n / grain n < c := (Nat.div_lt_iff_lt_mul pos).mpr (by rwa [Nat.mul_comm])
      rw [Nat.mul_comm (grain n) c]
      exact Nat.mul_le_mul_right _ next
    · omega

/-- What is rounded can be held. -/
theorem held_nearest (n : Nat) : Held (nearestQuotient n 1) := by
  have pos := grain_pos n
  have digits : n / grain n < 2 ^ 53 := (Nat.div_lt_iff_lt_mul pos).mpr (lt_grain n)
  have up := roundDiv_le n (grain n)
  rw [nearest_eq]
  rcases Nat.lt_or_ge (roundDiv n (grain n)) (2 ^ 53) with few | many
  · exact ⟨_, _, few, rfl⟩
  · -- rounded up to one digit more, and all of them zero but the first
    refine ⟨2 ^ 52, bitLength n - 53 + 1, by decide, ?_⟩
    rw [show roundDiv n (grain n) = 2 ^ 53 by omega, grain, Nat.pow_succ 2 (bitLength n - 53)]
    ring

theorem dvd_nearest {n k : Nat} (whole : 2 ^ k ∣ n) : 2 ^ k ∣ nearestQuotient n 1 := by
  rcases Nat.le_total k (bitLength n - 53) with coarse | fine
  · rw [nearest_eq]
    exact Nat.dvd_mul_left_of_dvd (Nat.pow_dvd_pow 2 coarse) _
  · rwa [nearest_of_dvd (Nat.dvd_trans (Nat.pow_dvd_pow 2 fine) whole)]

/-! ### Powers of two -/

theorem one_eq_mul {j k : Nat} (h : j + k = 1074) : one = 2 ^ j * 2 ^ k := by
  rw [one, ← h, Nat.one_shiftLeft, Nat.pow_add]

theorem mul_two_pow_lt {m j k l : Nat} (digits : m < 2 ^ j) (le : j + k ≤ l) :
    m * 2 ^ k < 1 <<< l := by
  rw [Nat.one_shiftLeft]
  calc m * 2 ^ k < 2 ^ j * 2 ^ k := Nat.mul_lt_mul_of_pos_right digits (Nat.two_pow_pos k)
    _ = 2 ^ (j + k) := (Nat.pow_add 2 j k).symm
    _ ≤ 2 ^ l := Nat.pow_le_pow_right (by decide) le

theorem two_pow_dvd_iff {n : Int} {k : Nat} : 2 ^ k ∣ n ↔ 2 ^ k ∣ n.natAbs := by
  rw [← Int.natCast_dvd, Int.natCast_pow]
  rfl

/-! ### Rounding numbers with a sign -/

theorem held_neg {n : Int} (held : Held n.natAbs) : Held (-n).natAbs := by
  rwa [Int.natAbs_neg]

theorem natAbs_round (n : Int) : (round n).natAbs = nearestQuotient n.natAbs 1 := by
  rw [round]
  split <;> omega

theorem round_neg (n : Int) : round (-n) = -round n := by
  have zero : nearestQuotient 0 1 = 0 := by decide
  rcases Int.lt_trichotomy n 0 with less | rfl | more
  · rw [round, round, if_neg (by omega), if_pos less, Int.natAbs_neg, Int.neg_neg]
  · rw [round, Int.neg_zero, Int.natAbs_zero, zero]
    rfl
  · rw [round, round, if_pos (by omega), if_neg (by omega), Int.natAbs_neg]

/-- Rounding moves no number below one that can be held. -/
theorem le_round {a n : Int} (held : Held a.natAbs) (le : a ≤ n) : a ≤ round n := by
  rw [round]
  split
  · have := nearest_le (n := n.natAbs) held (by omega)
    omega
  · rcases Int.lt_or_le a 0 with negative | positive
    · omega
    · have := le_nearest (n := n.natAbs) held (by omega)
      omega

/-- Nor above one. -/
theorem round_le {n b : Int} (held : Held b.natAbs) (le : n ≤ b) : round n ≤ b := by
  have := le_round (a := -b) (n := -n) (held_neg held) (by omega)
  rw [round_neg] at this
  omega

theorem round_of_held {n : Int} (held : Held n.natAbs) : round n = n :=
  Int.le_antisymm (round_le held (Int.le_refl n)) (le_round held (Int.le_refl n))

theorem held_round (n : Int) : Held (round n).natAbs := by
  rw [natAbs_round]
  exact held_nearest _

theorem dvd_round {n : Int} {k : Nat} (whole : 2 ^ k ∣ n) : 2 ^ k ∣ round n := by
  rw [two_pow_dvd_iff] at whole ⊢
  rw [natAbs_round]
  exact dvd_nearest whole

/-! ### What needs no rounding -/

theorem held_mul_two_pow {m : Int} (k : Nat) (digits : m.natAbs < 2 ^ 53) :
    Held (m * 2 ^ k).natAbs :=
  ⟨m.natAbs, k, digits, by rw [Int.natAbs_mul, Int.natAbs_pow]; rfl⟩

/-- The difference of two numbers of which neither is more than twice the other. -/
theorem held_sub {a b : Int} (ha : Held a.natAbs) (hb : Held b.natAbs) (near : a ≤ 2 * b)
    (near' : b ≤ 2 * a) : Held (a - b).natAbs := by
  rcases Int.le_total a b with le | le
  · rw [show (a - b).natAbs = b.natAbs - a.natAbs by omega]
    exact held_natSub ha hb (by omega) (by omega)
  · rw [show (a - b).natAbs = a.natAbs - b.natAbs by omega]
    exact held_natSub hb ha (by omega) (by omega)

/-- A remainder with the sign of the first number. -/
theorem held_tmod {a b : Int} (ha : Held a.natAbs) (hb : Held b.natAbs) :
    Held (a.tmod b).natAbs := by
  rw [Int.natAbs_tmod]
  exact held_mod ha hb

end Geotile.Binary64
