/-
**Quadrant paths packed into words.**

A path of up to thirty-two quadrants is stored in one word of sixty-four bits, two bits per level,
the deepest level in the lowest bits.  This module holds the word operations and says what each of
them does to the number that the word stands for: as long as the path fits, pushing a quadrant
multiplies by four and adds its number, with no bit lost.

Main definitions:

* `Geotile.Packed.push`, `Geotile.Packed.upper`, `Geotile.Packed.lowest` — add a deepest level,
  drop it, read it;
* `Geotile.Packed.pack`, `Geotile.Packed.unpack` — a list of quadrants as a word, and back;
* `Geotile.Packed.drop`, `Geotile.Packed.raise` — drop several levels, or make room for them.

Main results:

* `Geotile.Packed.toNat_push`, `Geotile.Packed.toNat_upper`, `Geotile.Packed.toNat_drop`,
  `Geotile.Packed.toNat_raise` — the words stand for the expected numbers;
* `Geotile.Packed.unpack_pack`, `Geotile.Packed.pack_unpack` — packing is inverse to unpacking.
-/

import Geotile.Quadrant
import Geotile.Grid

set_option autoImplicit false

namespace Geotile.Packed

/-- The two bits of a quadrant. -/
def bits : Quadrant → UInt64
  | .northWest => 0
  | .northEast => 1
  | .southWest => 2
  | .southEast => 3

@[simp] theorem toNat_bits (q : Quadrant) : (bits q).toNat = q.number := by cases q <;> rfl

/-! ### One level -/

/-- The word with one more level below it. -/
def push (w : UInt64) (q : Quadrant) : UInt64 := (w <<< 2) ||| bits q

/-- The word without its deepest level. -/
def upper (w : UInt64) : UInt64 := w >>> 2

/-- The quadrant in the deepest level of a word. -/
def lowest (w : UInt64) : Quadrant := .ofHalves (w &&& 2 != 0) (w &&& 1 != 0)

theorem toNat_upper (w : UInt64) : (upper w).toNat = w.toNat / 4 := by
  simp [upper, UInt64.toNat_shiftRight, Nat.shiftRight_eq_div_pow]

theorem number_lowest (w : UInt64) : (lowest w).number = w.toNat % 4 := by
  -- both masks look at the two lowest bits only, and those are the remainder by four
  have low : (w &&& 3).toNat = w.toNat % 4 := by
    rw [UInt64.toNat_and]
    exact Nat.and_two_pow_sub_one_eq_mod w.toNat 2
  have two : w &&& 2 = (w &&& 3) &&& 2 := by rw [UInt64.and_assoc]; rfl
  have one : w &&& 1 = (w &&& 3) &&& 1 := by rw [UInt64.and_assoc]; rfl
  -- so it is enough to look at the four words that these bits can be
  have split : ∀ v : UInt64, v.toNat < 4 →
      (Quadrant.ofHalves (v &&& 2 != 0) (v &&& 1 != 0)).number = v.toNat := by
    intro v hv
    have : v = 0 ∨ v = 1 ∨ v = 2 ∨ v = 3 := by
      simp only [← UInt64.toNat_inj]
      have h0 : (0 : UInt64).toNat = 0 := rfl
      have h1 : (1 : UInt64).toNat = 1 := rfl
      have h2 : (2 : UInt64).toNat = 2 := rfl
      have h3 : (3 : UInt64).toNat = 3 := rfl
      omega
    rcases this with rfl | rfl | rfl | rfl <;> decide
  rw [lowest, two, one, split _ (by rw [low]; omega), low]

/-- Pushing a quadrant multiplies by four and adds its number, as long as the top two bits are
free. -/
theorem toNat_push {w : UInt64} (h : w.toNat < tileCount 31) (q : Quadrant) :
    (push w q).toNat = 4 * w.toNat + q.number := by
  have hw : w.toNat < 4611686018427387904 := h
  have shifted : (w <<< 2).toNat = 4 * w.toNat := by
    rw [UInt64.toNat_shiftLeft, show (2 : UInt64).toNat % 64 = 2 from rfl, Nat.shiftLeft_eq]
    omega
  have apart := Nat.two_pow_add_eq_or_of_lt (i := 2) q.number_lt w.toNat
  rw [push, UInt64.toNat_or, shifted, toNat_bits]
  exact apart.symm

theorem toNat_push_lt {w : UInt64} {d : Nat} (hd : d < maxDepth) (h : w.toNat < tileCount d)
    (q : Quadrant) : (push w q).toNat < tileCount (d + 1) := by
  have hw : w.toNat < tileCount 31 := Nat.lt_of_lt_of_le h (tileCount_le (Nat.le_of_lt_succ hd))
  have hq := q.number_lt
  rw [toNat_push hw, tileCount_succ]
  omega

@[simp] theorem upper_push {w : UInt64} (h : w.toNat < tileCount 31) (q : Quadrant) :
    upper (push w q) = w := by
  have hq := q.number_lt
  apply UInt64.toNat_inj.mp
  rw [toNat_upper, toNat_push h]
  omega

@[simp] theorem lowest_push {w : UInt64} (h : w.toNat < tileCount 31) (q : Quadrant) :
    lowest (push w q) = q := by
  have hq := q.number_lt
  apply Quadrant.number_inj.mp
  rw [number_lowest, toNat_push h]
  omega

/-- A word is what its upper levels and its deepest quadrant make of it. -/
@[simp] theorem push_upper_lowest (w : UInt64) : push (upper w) (lowest w) = w := by
  have hw := w.toNat_lt
  have hu : (upper w).toNat < tileCount 31 := by
    rw [toNat_upper]
    have : tileCount 31 = 4611686018427387904 := by decide
    omega
  apply UInt64.toNat_inj.mp
  rw [toNat_push hu, toNat_upper, number_lowest]
  omega

/-! ### Lists of quadrants -/

/-- The word of a list of quadrants, the first one highest. -/
def pack (qs : List Quadrant) : UInt64 := qs.foldl push 0

/-- The lowest `n` levels of a word, the highest first. -/
def unpack : Nat → UInt64 → List Quadrant
  | 0, _ => []
  | n + 1, w => unpack n (upper w) ++ [lowest w]

@[simp] theorem pack_nil : pack [] = 0 := rfl

@[simp] theorem pack_append_singleton (qs : List Quadrant) (q : Quadrant) :
    pack (qs ++ [q]) = push (pack qs) q := by simp [pack]

@[simp] theorem length_unpack (n : Nat) (w : UInt64) : (unpack n w).length = n := by
  induction n generalizing w with
  | zero => rfl
  | succ n ih => simp [unpack, ih]

/-- Pushing quadrants one after the other stays below the number of paths of that length. -/
theorem toNat_foldl_push_lt (qs : List Quadrant) {w : UInt64} {d : Nat}
    (hd : d + qs.length ≤ maxDepth) (h : w.toNat < tileCount d) :
    (qs.foldl push w).toNat < tileCount (d + qs.length) := by
  induction qs generalizing w d with
  | nil => simpa using h
  | cons q qs ih =>
      simp only [List.length_cons] at hd
      have step := ih (w := push w q) (d := d + 1) (by omega) (toNat_push_lt (by omega) h q)
      simpa [Nat.add_assoc, Nat.add_comm 1] using step

theorem toNat_pack_lt (qs : List Quadrant) (h : qs.length ≤ maxDepth) :
    (pack qs).toNat < tileCount qs.length := by
  simpa [pack] using toNat_foldl_push_lt qs (w := 0) (d := 0) (by simpa using h) (by decide)

theorem unpack_foldl_push (qs : List Quadrant) {w : UInt64} {d : Nat}
    (hd : d + qs.length ≤ maxDepth) (h : w.toNat < tileCount d) :
    unpack (d + qs.length) (qs.foldl push w) = unpack d w ++ qs := by
  induction qs generalizing w d with
  | nil => simp
  | cons q qs ih =>
      simp only [List.length_cons] at hd
      have hw : w.toNat < tileCount 31 :=
        Nat.lt_of_lt_of_le h (tileCount_le (by unfold maxDepth at hd; omega))
      have step := ih (w := push w q) (d := d + 1) (by omega) (toNat_push_lt (by omega) h q)
      rw [show d + (q :: qs).length = d + 1 + qs.length by simp only [List.length_cons]; omega,
        List.foldl_cons, step, unpack, upper_push hw, lowest_push hw]
      simp

/-- Unpacking gives back the quadrants that were packed. -/
theorem unpack_pack (qs : List Quadrant) (h : qs.length ≤ maxDepth) :
    unpack qs.length (pack qs) = qs := by
  have := unpack_foldl_push qs (w := 0) (d := 0) (by simpa using h) (by decide)
  simpa [pack, unpack] using this

/-- Packing gives back the word that was unpacked, when it holds no further level. -/
theorem pack_unpack {n : Nat} {w : UInt64} (h : w.toNat < tileCount n) :
    pack (unpack n w) = w := by
  induction n generalizing w with
  | zero =>
      apply UInt64.toNat_inj.mp
      have : w.toNat = 0 := by simpa using h
      simpa [unpack] using this.symm
  | succ n ih =>
      rw [tileCount_succ] at h
      rw [unpack, pack_append_singleton, ih (by rw [toNat_upper]; omega), push_upper_lowest]

/-! ### Several levels -/

/-- The word without its `k` deepest levels. -/
def drop (k : Nat) (w : UInt64) : UInt64 := w >>> UInt64.ofNat (2 * k)

/-- The word with `k` empty levels below it. -/
def raise (k : Nat) (w : UInt64) : UInt64 := w <<< UInt64.ofNat (2 * k)

theorem two_pow_eq_tileCount (k : Nat) : Nat.pow 2 (2 * k) = tileCount k := by
  induction k with
  | zero => rfl
  | succ k ih =>
      have ih' : 2 ^ (2 * k) = tileCount k := ih
      show 2 ^ (2 * (k + 1)) = tileCount (k + 1)
      rw [tileCount_succ, ← ih', Nat.mul_succ, Nat.pow_add]
      omega

/-- Dropping levels divides by the number of tiles on them. -/
theorem toNat_drop {k : Nat} (hk : k < maxDepth) (w : UInt64) :
    (drop k w).toNat = w.toNat / tileCount k := by
  have shift : (UInt64.ofNat (2 * k)).toNat % 64 = 2 * k := by
    rw [UInt64.toNat_ofNat']
    unfold maxDepth at hk
    omega
  rw [drop, UInt64.toNat_shiftRight, shift, Nat.shiftRight_eq_div_pow]
  exact congrArg (w.toNat / ·) (two_pow_eq_tileCount k)

theorem toNat_drop_lt {k d : Nat} {w : UInt64} (hk : k < maxDepth)
    (h : w.toNat < tileCount (d + k)) : (drop k w).toNat < tileCount d := by
  rw [toNat_drop hk]
  rw [tileCount_add, Nat.mul_comm] at h
  exact Nat.div_lt_of_lt_mul h

/-- Making room for levels multiplies by the number of tiles on them, when the word fits above
them. -/
theorem toNat_raise {k d : Nat} {w : UInt64} (hd : 0 < d) (hk : d + k ≤ maxDepth)
    (h : w.toNat < tileCount d) : (raise k w).toNat = w.toNat * tileCount k := by
  have shift : (UInt64.ofNat (2 * k)).toNat % 64 = 2 * k := by
    rw [UInt64.toNat_ofNat']
    unfold maxDepth at hk
    omega
  have pow : 2 ^ (2 * k) = tileCount k := two_pow_eq_tileCount k
  have bound : w.toNat * tileCount k < 2 ^ 64 := by
    have le : tileCount (d + k) ≤ tileCount maxDepth := tileCount_le hk
    rw [tileCount_maxDepth, tileCount_add] at le
    exact Nat.lt_of_lt_of_le (Nat.mul_lt_mul_of_pos_right h (tileCount_pos k)) le
  rw [raise, UInt64.toNat_shiftLeft, shift, Nat.shiftLeft_eq, pow, Nat.mod_eq_of_lt bound]

end Geotile.Packed
