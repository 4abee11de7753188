/-
**Where wrapping a longitude leaves one turn.**

A longitude is wrapped by three roundings: the half turn is added, a turn is added to a negative
remainder, the half turn is taken off.  Most of them are exact.  The remainder is; so is the last
difference wherever its result is not small, and where it is small the half turn that is added to it
again gives a number that can be held.  So what has been wrapped to within one turn is wrapped onto
itself.

A negative remainder comes from a longitude below a half turn west, where doubles are multiples of
`2 ^ -45`, the last bit of a half turn.  Just below a whole turn they are multiples of twice as
much.  A remainder of one last bit below zero is therefore rounded to a whole turn, and the
longitude is wrapped onto the eastern bound, which is left out of the range.  There is one such
longitude, the greatest double below a half turn west.  It falls into the last column, and what it
is wrapped onto falls into the first one.

Main definitions:

* `Geotile.lastBit` — the last bit of a half turn;
* `Geotile.strayLongitude` — the longitude that is wrapped onto the eastern bound;
* `Geotile.restOfTurn`, `Geotile.withinTurn` — the remainder by a whole turn, before and after it is
  made positive.

Main results:

* `Geotile.eq_stray_of_restOfTurn` — no other longitude leaves a remainder of one last bit below
  zero;
* `Geotile.wrapQuanta_spec` — every other longitude is wrapped to within one turn;
* `Geotile.wrapQuanta_eq_self` — what lies within one turn stays, if the half turn can be added to
  it without rounding;
* `Geotile.wrapQuanta_stray` — where the stray longitude goes;
* `Geotile.wrap_settles_iff` — **wrapping ends within one turn, changes nothing the second time, and
  keeps the cell, for all finite longitudes but one**.
-/

import Geotile.Proofs.Quanta
import Geotile.Position

set_option autoImplicit false

namespace Geotile

open Binary64 (Held quanta?)
open Float.Model.UnpackedFloat (Sign)

/-! ### Half turns and their last bits -/

/-- The last bit of a half turn, in quanta. -/
def lastBit : Int := 2 ^ 1029

theorem natCast_lastBit : ((2 ^ 1029 : Nat) : Int) = lastBit := by
  rw [Int.natCast_pow, Int.cast_ofNat_Int, lastBit]

theorem natAbs_lastBit : lastBit.natAbs = 2 ^ 1029 := by
  rw [← natCast_lastBit, Int.natAbs_natCast]

theorem lastBit_pos : 0 < lastBit := Int.pow_pos (by decide)

theorem two_lastBit : 2 * lastBit = 2 ^ 1030 := (pow_succ' 2 1029).symm

theorem natAbs_two_lastBit : (2 * lastBit).natAbs = 2 ^ 1030 := by
  rw [two_lastBit, ← Int.natAbs_natCast (2 ^ 1030), Int.natCast_pow, Int.cast_ofNat_Int]

theorem one_eq : (Binary64.one : Int) = 2 ^ 45 * lastBit := by
  rw [Binary64.one_eq_mul (j := 45) (k := 1029) rfl, Int.natCast_mul, natCast_lastBit]
  rfl

/-- A quarter turn, in quanta. -/
def quarterTurn : Int := 90 * Binary64.one

theorem quarterTurn_eq : quarterTurn = 90 * 2 ^ 45 * lastBit := by
  rw [quarterTurn, one_eq, Int.mul_assoc]

theorem halfTurn_eq : halfTurn = 180 * 2 ^ 45 * lastBit := by
  rw [halfTurn, one_eq, Int.mul_assoc]

theorem turn_eq : turn = 360 * 2 ^ 45 * lastBit := by
  rw [turn, one_eq, Int.mul_assoc]

theorem halfTurn_eq_two_quarterTurn : halfTurn = 2 * quarterTurn := by
  rw [halfTurn_eq, quarterTurn_eq]
  omega

theorem turn_eq_two_halfTurn : turn = 2 * halfTurn := by
  rw [turn_eq, halfTurn_eq]
  omega

theorem turn_pos : 0 < turn := by
  have := lastBit_pos
  rw [turn_eq]
  omega

theorem held_quarterTurn : Held quarterTurn.natAbs := by
  rw [quarterTurn_eq]
  exact Binary64.held_mul_two_pow 1029 (by decide)

theorem held_halfTurn : Held halfTurn.natAbs := by
  rw [halfTurn_eq]
  exact Binary64.held_mul_two_pow 1029 (by decide)

theorem halfTurn_lt : halfTurn.natAbs < 1 <<< 2098 := by
  rw [halfTurn_eq, Int.natAbs_mul, natAbs_lastBit]
  exact Binary64.mul_two_pow_lt (j := 53) (by decide) (by decide)

/-- Near a whole turn, what can be held is counted in two last bits. -/
theorem held_two_lastBit {m : Int} (digits : m.natAbs < 2 ^ 53) :
    Held (m * (2 * lastBit)).natAbs := by
  rw [two_lastBit]
  exact Binary64.held_mul_two_pow 1030 digits

theorem held_turn : Held turn.natAbs := by
  rw [turn_eq, show 360 * 2 ^ 45 * lastBit = 180 * 2 ^ 45 * (2 * lastBit) by omega]
  exact held_two_lastBit (by decide)

/-! ### The remainder by a whole turn -/

/-- The remainder by a whole turn, counted from a half turn west. -/
def restOfTurn (lon : Int) : Int := (Binary64.round (lon + halfTurn)).tmod turn

/-- The remainder made positive. -/
def withinTurn (lon : Int) : Int :=
  if restOfTurn lon < 0 then Binary64.round (restOfTurn lon + turn) else restOfTurn lon

theorem wrapQuanta_eq (lon : Int) :
    wrapQuanta lon = Binary64.round (withinTurn lon - halfTurn) := rfl

theorem held_restOfTurn (lon : Int) : Held (restOfTurn lon).natAbs :=
  Binary64.held_tmod (Binary64.held_round _) held_turn

theorem restOfTurn_lt (lon : Int) : restOfTurn lon < turn := Int.tmod_lt_of_pos _ turn_pos

theorem neg_lt_restOfTurn (lon : Int) : -turn < restOfTurn lon := Int.lt_tmod_of_pos _ turn_pos

/-- What divides the sum and a whole turn divides the remainder. -/
theorem dvd_restOfTurn {d lon : Int} (sum : d ∣ Binary64.round (lon + halfTurn))
    (whole : d ∣ turn) : d ∣ restOfTurn lon := by
  rw [restOfTurn, Int.tmod_def]
  exact Int.dvd_sub sum (Int.dvd_mul_of_dvd_left whole)

/-- A negative remainder comes from the west of the map. -/
theorem west_of_restOfTurn {lon : Int} (negative : restOfTurn lon < 0) : lon + halfTurn < 0 := by
  rw [← Int.not_le]
  intro east
  have positive : 0 ≤ Binary64.round (lon + halfTurn) := Binary64.le_round Binary64.held_zero east
  have := Int.tmod_nonneg turn positive
  rw [restOfTurn] at negative
  omega

/-- A sum that is a whole turn or more from zero is a multiple of two last bits, and so is its
remainder. -/
theorem lt_round_of_restOfTurn {lon : Int} (last : restOfTurn lon = -lastBit) :
    -turn < Binary64.round (lon + halfTurn) := by
  rw [← Int.not_le]
  intro far
  have pos := lastBit_pos
  have large : 2 ^ 52 * 2 ^ 1030 ≤ (Binary64.round (lon + halfTurn)).natAbs := by
    rw [← natAbs_two_lastBit]
    rw [turn_eq] at far
    omega
  have sum : 2 * lastBit ∣ Binary64.round (lon + halfTurn) := by
    rw [two_lastBit, Binary64.two_pow_dvd_iff]
    exact Binary64.dvd_of_held (Binary64.held_round _) large
  have whole : 2 * lastBit ∣ turn := ⟨180 * 2 ^ 45, by rw [turn_eq]; omega⟩
  have rest := dvd_restOfTurn sum whole
  rw [last, Int.dvd_neg] at rest
  have := Int.le_of_dvd pos rest
  omega

section West

variable {lon : Int} (held : Held lon.natAbs)

include held

/-- To the west of the map, longitudes are multiples of the last bit. -/
theorem lastBit_dvd (west : lon + halfTurn < 0) : lastBit ∣ lon + halfTurn := by
  have large : 2 ^ 52 * 2 ^ 1029 ≤ lon.natAbs := by
    have := lastBit_pos
    rw [← natAbs_lastBit]
    rw [halfTurn_eq] at west
    omega
  refine Int.dvd_add ?_ ⟨180 * 2 ^ 45, by rw [halfTurn_eq, Int.mul_comm]⟩
  exact Binary64.two_pow_dvd_iff.mpr (Binary64.dvd_of_held held large)

theorem lastBit_dvd_restOfTurn (negative : restOfTurn lon < 0) : lastBit ∣ restOfTurn lon := by
  have sum := Binary64.dvd_round (lastBit_dvd held (west_of_restOfTurn negative))
  exact dvd_restOfTurn sum ⟨360 * 2 ^ 45, by rw [turn_eq, Int.mul_comm]⟩

/-- A sum that is small for its last bit is not rounded. -/
theorem round_add_halfTurn (west : lon + halfTurn < 0)
    (small : -(2 ^ 53 * lastBit) < Binary64.round (lon + halfTurn)) :
    Binary64.round (lon + halfTurn) = lon + halfTurn := by
  have pos := lastBit_pos
  have near : -(2 ^ 53 * lastBit) < lon + halfTurn := by
    rw [← Int.not_le]
    intro far
    have bound : Held (-(2 ^ 53 * lastBit)).natAbs := by
      rw [show -(2 ^ 53 * lastBit) = -2 ^ 52 * (2 * lastBit) by omega]
      exact held_two_lastBit (by decide)
    have := Binary64.round_le bound far
    omega
  refine Binary64.round_of_held (Binary64.held_of_dvd
    (Binary64.two_pow_dvd_iff.mp (lastBit_dvd held west)) ?_)
  rw [← natAbs_lastBit]
  omega

/-- One longitude only leaves a remainder of one last bit below zero. -/
theorem eq_stray_of_restOfTurn (last : restOfTurn lon = -lastBit) : lon = -halfTurn - lastBit := by
  have pos := lastBit_pos
  have near := lt_round_of_restOfTurn last
  have west := west_of_restOfTurn (show restOfTurn lon < 0 by omega)
  have below : Binary64.round (lon + halfTurn) ≤ 0 :=
    Binary64.round_le Binary64.held_zero (Int.le_of_lt west)
  -- the sum is its own remainder, and it was not rounded
  have same : Binary64.round (lon + halfTurn) = -lastBit := by
    rw [← last, restOfTurn, ← Int.neg_neg (Binary64.round _), Int.neg_tmod,
      Int.tmod_eq_of_lt (by omega) (by omega)]
  rw [round_add_halfTurn held west (by omega)] at same
  omega

theorem withinTurn_spec (ordinary : lon ≠ -halfTurn - lastBit) :
    0 ≤ withinTurn lon ∧ withinTurn lon < turn := by
  have low := neg_lt_restOfTurn lon
  have high := restOfTurn_lt lon
  rw [withinTurn]
  split
  · next negative =>
    have pos := lastBit_pos
    have whole := Int.dvd_neg.mpr (lastBit_dvd_restOfTurn held negative)
    have one := Int.le_of_dvd (by omega) whole
    have more : restOfTurn lon ≠ -lastBit := mt (eq_stray_of_restOfTurn held) ordinary
    have two := Int.le_of_dvd (by omega) (Int.dvd_sub whole (Int.dvd_refl lastBit))
    -- two last bits below a whole turn there is something that can be held
    have bound : Held (turn - 2 * lastBit).natAbs := by
      rw [show turn - 2 * lastBit = (180 * 2 ^ 45 - 1) * (2 * lastBit) by rw [turn_eq]; omega]
      exact held_two_lastBit (by decide)
    have up : Binary64.round (restOfTurn lon + turn) ≤ turn - 2 * lastBit :=
      Binary64.round_le bound (by omega)
    have down : 0 ≤ Binary64.round (restOfTurn lon + turn) :=
      Binary64.le_round Binary64.held_zero (by omega)
    omega
  · omega

end West

theorem held_withinTurn (lon : Int) : Held (withinTurn lon).natAbs := by
  rw [withinTurn]
  split
  · exact Binary64.held_round _
  · exact held_restOfTurn lon

/-! ### The last difference -/

/-- Taking the half turn off gives a number to which it can be added again without rounding. -/
theorem sub_halfTurn_spec {w : Int} (held : Held w.natAbs) (low : 0 ≤ w) (high : w < turn) :
    -halfTurn ≤ Binary64.round (w - halfTurn) ∧ Binary64.round (w - halfTurn) < halfTurn ∧
      Held (Binary64.round (w - halfTurn) + halfTurn).natAbs := by
  have double := turn_eq_two_halfTurn
  rcases Int.lt_or_le (2 * w) halfTurn with less | more
  · -- the difference is rounded, but it stays near enough to the half turn
    have quarter := halfTurn_eq_two_quarterTurn
    have down : -halfTurn ≤ Binary64.round (w - halfTurn) :=
      Binary64.le_round (Binary64.held_neg held_halfTurn) (by omega)
    have up : Binary64.round (w - halfTurn) ≤ -quarterTurn :=
      Binary64.round_le (Binary64.held_neg held_quarterTurn) (by omega)
    refine ⟨down, by omega, ?_⟩
    rw [Int.add_comm, ← Int.sub_neg]
    exact Binary64.held_sub held_halfTurn (Binary64.held_neg (Binary64.held_round _))
      (by omega) (by omega)
  · -- the difference is not rounded
    have unrounded : Held (w - halfTurn).natAbs :=
      Binary64.held_sub held held_halfTurn (by omega) (by omega)
    rw [Binary64.round_of_held unrounded, Int.sub_add_cancel]
    exact ⟨by omega, by omega, held⟩

/-- All longitudes but one are wrapped to within one turn, where the half turn can be added again
without rounding. -/
theorem wrapQuanta_spec {lon : Int} (held : Held lon.natAbs)
    (ordinary : lon ≠ -halfTurn - lastBit) :
    -halfTurn ≤ wrapQuanta lon ∧ wrapQuanta lon < halfTurn ∧
      Held (wrapQuanta lon + halfTurn).natAbs := by
  obtain ⟨low, high⟩ := withinTurn_spec held ordinary
  exact sub_halfTurn_spec (held_withinTurn lon) low high

theorem held_wrapQuanta (lon : Int) : Held (wrapQuanta lon).natAbs := Binary64.held_round _

/-- What lies within one turn stays, where the half turn can be added to it without rounding. -/
theorem wrapQuanta_eq_self {y : Int} (held : Held y.natAbs) (held' : Held (y + halfTurn).natAbs)
    (low : -halfTurn ≤ y) (high : y < halfTurn) : wrapQuanta y = y := by
  have double := turn_eq_two_halfTurn
  have same : restOfTurn y = y + halfTurn := by
    rw [restOfTurn, Binary64.round_of_held held', Int.tmod_eq_of_lt (by omega) (by omega)]
  rw [wrapQuanta_eq, withinTurn, same, if_neg (by omega), Int.add_sub_cancel,
    Binary64.round_of_held held]

/-! ### The bounds of the range -/

/-- The last bit below a whole turn is a tie, and it goes to the whole turn. -/
theorem round_turn_sub_lastBit : Binary64.round (turn - lastBit) = turn := by decide +kernel

/-- The stray longitude is wrapped onto the eastern bound. -/
theorem wrapQuanta_stray : wrapQuanta (-halfTurn - lastBit) = halfTurn := by
  have pos := lastBit_pos
  have scale := turn_eq
  have held : Held lastBit.natAbs := by
    rw [← Int.one_mul lastBit]
    exact Binary64.held_mul_two_pow 1029 (by decide)
  have sum : -halfTurn - lastBit + halfTurn = -lastBit := by omega
  have rest : restOfTurn (-halfTurn - lastBit) = -lastBit := by
    rw [restOfTurn, sum, Binary64.round_of_held (Binary64.held_neg held), Int.neg_tmod,
      Int.tmod_eq_of_lt (by omega) (by omega)]
  rw [wrapQuanta_eq, withinTurn, rest, if_pos (by omega), Int.add_comm, ← Int.sub_eq_add_neg,
    round_turn_sub_lastBit, show turn - halfTurn = halfTurn by rw [turn_eq_two_halfTurn]; omega,
    Binary64.round_of_held held_halfTurn]

/-- And the eastern bound onto the western one. -/
theorem wrapQuanta_halfTurn : wrapQuanta halfTurn = -halfTurn := by
  have sum : halfTurn + halfTurn = turn := by
    rw [turn_eq_two_halfTurn]
    omega
  have rest : restOfTurn halfTurn = 0 := by
    rw [restOfTurn, sum, Binary64.round_of_held held_turn, Int.tmod_self]
  rw [wrapQuanta_eq, withinTurn, rest, if_neg (by decide), Int.zero_sub]
  exact Binary64.round_of_held (Binary64.held_neg held_halfTurn)

/-! ### Wrapped longitudes -/

/-- Doubles from 128 to 256 count their last bits. -/
theorem quanta?_of_lastBits {x : Float} {s : Sign} {m : Nat}
    (bits : x.toBits.toNat = Binary64.signBit s + (1029 * 2 ^ 52 + m)) (leading : 2 ^ 52 ≤ m)
    (digits : m < 2 ^ 53) : quanta? x = some (Binary64.signed s m * lastBit) := by
  rw [Binary64.quanta?_of_bits bits (by omega), Binary64.size_add digits (by omega)]
  cases s with
  | negative =>
      rw [Binary64.signed, Binary64.signed, Int.natCast_mul, natCast_lastBit, Int.neg_mul]
  | positive => rw [Binary64.signed, Binary64.signed, Int.natCast_mul, natCast_lastBit]

theorem quanta?_halfTurn : quanta? 180.0 = some halfTurn := by
  rw [halfTurn_eq]
  exact quanta?_of_lastBits (s := .positive) (m := 180 * 2 ^ 45) (by decide) (by decide) (by decide)

theorem quanta?_neg_halfTurn : quanta? (-180.0) = some (-halfTurn) := by
  rw [halfTurn_eq, ← Int.neg_mul]
  exact quanta?_of_lastBits (s := .negative) (m := 180 * 2 ^ 45) (by decide) (by decide) (by decide)

/-- The greatest longitude below a half turn west. -/
def strayLongitude : Float := -180.00000000000003

theorem quanta?_strayLongitude : quanta? strayLongitude = some (-halfTurn - lastBit) := by
  rw [halfTurn_eq,
    show -(180 * 2 ^ 45 * lastBit) - lastBit = -(180 * 2 ^ 45 + 1) * lastBit by omega]
  exact quanta?_of_lastBits (s := .negative) (m := 180 * 2 ^ 45 + 1)
    (by decide) (by decide) (by decide)

theorem isFinite_strayLongitude : strayLongitude.isFinite = true :=
  (Binary64.quanta?_eq_some_iff.mp quanta?_strayLongitude).1

theorem halfTurn_ne_zero : halfTurn ≠ 0 := by
  have := lastBit_pos
  rw [halfTurn_eq]
  omega

theorem wrapLongitude_eq {lon : Float} {q : Int} (h : quanta? lon = some q) :
    wrapLongitude lon = Binary64.ofQuanta (wrapQuanta q) := by
  rw [wrapLongitude, h]

theorem wrap_strayLongitude : wrapLongitude strayLongitude = 180.0 := by
  rw [wrapLongitude_eq quanta?_strayLongitude, wrapQuanta_stray]
  exact Binary64.eq_of_quanta (Binary64.quanta?_ofQuanta held_halfTurn halfTurn_lt)
    quanta?_halfTurn halfTurn_ne_zero

theorem wrap_wrap_strayLongitude : wrapLongitude (wrapLongitude strayLongitude) = -180.0 := by
  have bounded : (-halfTurn).natAbs < 1 <<< 2098 := by
    rw [Int.natAbs_neg]
    exact halfTurn_lt
  rw [wrap_strayLongitude, wrapLongitude_eq quanta?_halfTurn, wrapQuanta_halfTurn]
  exact Binary64.eq_of_quanta
    (Binary64.quanta?_ofQuanta (Binary64.held_neg held_halfTurn) bounded)
    quanta?_neg_halfTurn (Int.neg_ne_zero.mpr halfTurn_ne_zero)

/-- Cells of positions on one parallel are told apart by their columns, where there are cells. -/
theorem cell_eq_cell_iff {lat lon lon' : Float} (finite : lat.isFinite = true)
    (east : lon.isFinite = true) (east' : lon'.isFinite = true) (zoom : Nat) :
    Position.cell ⟨lat, lon⟩ zoom = Position.cell ⟨lat, lon'⟩ zoom ↔
      (zoom = 0 ∨ maxDepth < zoom) ∨
        Position.column ⟨lat, lon⟩ zoom = Position.column ⟨lat, lon'⟩ zoom := by
  have row : Position.row ⟨lat, lon⟩ zoom = Position.row ⟨lat, lon'⟩ zoom := rfl
  simp only [Position.cell, Position.isFinite, finite, east, east', row, Bool.and_self,
    Bool.not_true, Bool.false_eq_true, if_false]
  by_cases bad : zoom = 0 ∨ maxDepth < zoom
  · simp only [bad, if_true, true_or]
  · simp only [bad, if_false, false_or, Except.ok.injEq, Cell.mk.injEq, true_and, and_true]

section Ordinary

variable {lon : Float} (finite : lon.isFinite = true) (ordinary : lon ≠ strayLongitude)

include finite ordinary

/-- Every other longitude is wrapped to within one turn, and stays there. -/
theorem exists_wrapped : ∃ y, wrapLongitude lon = Binary64.ofQuanta y ∧
    quanta? (Binary64.ofQuanta y) = some y ∧ wrapQuanta y = y ∧ -halfTurn ≤ y ∧ y < halfTurn := by
  have quanta : quanta? lon = some (Binary64.value (Binary64.level lon)) :=
    Binary64.quanta?_eq_some_iff.mpr ⟨finite, rfl⟩
  generalize Binary64.value (Binary64.level lon) = q at quanta
  have apart : q ≠ -halfTurn - lastBit := by
    intro same
    rw [same] at quanta
    refine ordinary (Binary64.eq_of_quanta quanta quanta?_strayLongitude ?_)
    have := lastBit_pos
    rw [halfTurn_eq]
    omega
  obtain ⟨low, high, held⟩ := wrapQuanta_spec (Binary64.held_of_quanta quanta) apart
  have bounded : (wrapQuanta q).natAbs < 1 <<< 2098 :=
    Nat.lt_of_le_of_lt (by omega) halfTurn_lt
  exact ⟨wrapQuanta q, wrapLongitude_eq quanta,
    Binary64.quanta?_ofQuanta (held_wrapQuanta q) bounded,
    wrapQuanta_eq_self (held_wrapQuanta q) held low high, low, high⟩

theorem isFinite_wrap : (wrapLongitude lon).isFinite = true := by
  obtain ⟨y, eq, quanta, -⟩ := exists_wrapped finite ordinary
  rw [eq]
  exact (Binary64.quanta?_eq_some_iff.mp quanta).1

theorem wrap_range : -180.0 ≤ wrapLongitude lon ∧ wrapLongitude lon < 180.0 := by
  obtain ⟨y, eq, quanta, -, low, high⟩ := exists_wrapped finite ordinary
  rw [eq, Binary64.le_iff_quanta quanta?_neg_halfTurn quanta,
    Binary64.lt_iff_quanta quanta quanta?_halfTurn]
  exact ⟨low, high⟩

theorem wrap_wrap : wrapLongitude (wrapLongitude lon) = wrapLongitude lon := by
  obtain ⟨y, eq, quanta, self, -⟩ := exists_wrapped finite ordinary
  rw [eq, wrapLongitude_eq quanta, self]

/-- Wrapping first changes nothing about the cell. -/
theorem cell_wrap {lat : Float} (finite' : lat.isFinite = true) (zoom : Nat) :
    Position.cell ⟨lat, wrapLongitude lon⟩ zoom = Position.cell ⟨lat, lon⟩ zoom := by
  have column :
      Position.column ⟨lat, wrapLongitude lon⟩ zoom = Position.column ⟨lat, lon⟩ zoom := by
    rw [Position.column, Position.column, Position.westFraction, Position.westFraction,
      wrap_wrap finite ordinary]
  rw [cell_eq_cell_iff finite' (isFinite_wrap finite ordinary) finite]
  exact .inr column

end Ordinary

/-! ### The stray longitude -/

theorem gridIndex_one (zoom : Nat) : gridIndex 1.0 zoom = axisLength zoom - 1 := by
  have bits : (1.0 : Float).toBits.toNat =
      Binary64.signBit .positive + (1022 * 2 ^ 52 + 2 ^ 52) := by decide
  have quanta : quanta? 1.0 = some (Binary64.one : Int) := by
    rw [Binary64.quanta?_of_bits bits (by decide), Binary64.size_add (by decide) (by decide),
      Binary64.signed, Binary64.one_eq_mul (j := 52) (k := 1022) rfl]
  have nonzero : (Binary64.one : Int) ≠ 0 := by
    have := lastBit_pos
    rw [one_eq]
    omega
  rw [gridIndex, quanta]
  change min (axisLength zoom - 1) ((Binary64.one * axisLength zoom / Binary64.one : Int)).toNat = _
  rw [Int.mul_ediv_cancel_left _ nonzero]
  omega

theorem gridIndex_zero (zoom : Nat) : gridIndex 0.0 zoom = 0 := by
  have bits : (0.0 : Float).toBits.toNat = Binary64.signBit .positive + 0 := by decide
  have quanta : quanta? 0.0 = some 0 := by
    rw [Binary64.quanta?_of_bits bits (by decide), Binary64.size_zero, Binary64.signed]
    rfl
  rw [gridIndex, quanta]
  change min (axisLength zoom - 1) ((0 * axisLength zoom / Binary64.one : Int)).toNat = _
  rw [Int.zero_mul, Int.zero_ediv]
  omega

/-- The stray longitude falls into the last column. -/
theorem column_strayLongitude (lat : Float) (zoom : Nat) :
    Position.column ⟨lat, strayLongitude⟩ zoom = axisLength zoom - 1 := by
  have whole : (180.0 + 180.0 : Float) / 360.0 = 1.0 := by decide +kernel
  rw [Position.column, Position.westFraction, wrap_strayLongitude, whole, gridIndex_one]

/-- And what it is wrapped onto, into the first one. -/
theorem column_wrap_strayLongitude (lat : Float) (zoom : Nat) :
    Position.column ⟨lat, wrapLongitude strayLongitude⟩ zoom = 0 := by
  have none : (-180.0 + 180.0 : Float) / 360.0 = 0.0 := by decide
  rw [Position.column, Position.westFraction, wrap_wrap_strayLongitude, none, gridIndex_zero]

theorem cell_wrap_strayLongitude_iff {lat : Float} (finite : lat.isFinite = true) (zoom : Nat) :
    Position.cell ⟨lat, wrapLongitude strayLongitude⟩ zoom =
        Position.cell ⟨lat, strayLongitude⟩ zoom ↔ zoom = 0 ∨ maxDepth < zoom := by
  have wrapped : (wrapLongitude strayLongitude).isFinite = true := by
    rw [wrap_strayLongitude]
    decide
  refine (cell_eq_cell_iff finite wrapped isFinite_strayLongitude zoom).trans
    (or_iff_left_of_imp fun columns => ?_)
  rw [column_strayLongitude, column_wrap_strayLongitude] at columns
  cases zoom with
  | zero => exact .inl rfl
  | succ z =>
      have wide := axisLength_pos z
      rw [axisLength_succ] at columns
      omega

/-! ### All longitudes -/

/-- **Wrapping settles all longitudes but one.**  The one is wrapped onto the eastern bound of the
range, which the range leaves out, and from there onto the western one; wrapping it first moves it
from the last column to the first.  Every other finite longitude is wrapped to within the range and
stays there, and it falls into the same cell whether it is wrapped first or not. -/
theorem wrap_settles_iff (lon : Float) (finite : lon.isFinite = true) :
    (-180.0 ≤ wrapLongitude lon ∧ wrapLongitude lon < 180.0 ↔ lon ≠ strayLongitude) ∧
    (wrapLongitude (wrapLongitude lon) = wrapLongitude lon ↔ lon ≠ strayLongitude) ∧
    ∀ (lat : Float) (zoom : Nat), lat.isFinite = true →
      (Position.cell ⟨lat, wrapLongitude lon⟩ zoom = Position.cell ⟨lat, lon⟩ zoom ↔
        lon ≠ strayLongitude ∨ zoom = 0 ∨ maxDepth < zoom) := by
  by_cases ordinary : lon ≠ strayLongitude
  · refine ⟨iff_of_true (wrap_range finite ordinary) ordinary,
      iff_of_true (wrap_wrap finite ordinary) ordinary, fun lat zoom finite' => ?_⟩
    exact iff_of_true (cell_wrap finite ordinary finite' zoom) (.inl ordinary)
  · have stray := not_not.mp ordinary
    subst stray
    refine ⟨iff_of_false (fun range => ?_) ordinary, iff_of_false ?_ ordinary,
      fun lat zoom finite' => ?_⟩
    · rw [wrap_strayLongitude] at range
      exact absurd range.2 (by decide)
    · rw [wrap_wrap_strayLongitude, wrap_strayLongitude]
      decide
    · exact (cell_wrap_strayLongitude_iff finite' zoom).trans (or_iff_right ordinary).symm

/-- An ordinary longitude beyond the range, and the stray one. -/
theorem wrap_settles_iff_beyond :
    (-180.0 ≤ wrapLongitude 190.0 ∧ wrapLongitude 190.0 < 180.0) ∧
      Position.cell ⟨43.6, wrapLongitude 190.0⟩ 8 = Position.cell ⟨43.6, 190.0⟩ 8 ∧
      ¬ wrapLongitude (wrapLongitude strayLongitude) = wrapLongitude strayLongitude := by
  have finite : (190.0 : Float).isFinite = true := by decide
  have finite' : (43.6 : Float).isFinite = true := by decide
  have apart : (190.0 : Float) ≠ strayLongitude := by decide
  have settled := wrap_settles_iff 190.0 finite
  have stray := wrap_settles_iff strayLongitude isFinite_strayLongitude
  exact ⟨settled.1.mpr apart, (settled.2.2 43.6 8 finite').mpr (.inl apart),
    fun same => stray.2.1.mp same rfl⟩

/-- The stray longitude leaves the range, is not settled, and changes its column. -/
theorem stray_leaves_range :
    strayLongitude.isFinite = true ∧ wrapLongitude strayLongitude = 180.0 ∧
      ¬ wrapLongitude strayLongitude < 180.0 ∧
      wrapLongitude (wrapLongitude strayLongitude) = -180.0 ∧
      Position.column ⟨0.0, strayLongitude⟩ 8 = 255 ∧
      Position.column ⟨0.0, wrapLongitude strayLongitude⟩ 8 = 0 := by
  refine ⟨isFinite_strayLongitude, wrap_strayLongitude, ?_, wrap_wrap_strayLongitude,
    column_strayLongitude 0.0 8, column_wrap_strayLongitude 0.0 8⟩
  rw [wrap_strayLongitude]
  decide

end Geotile
