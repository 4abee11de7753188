/-
**Arithmetic that reports what it cannot do.**

Words and bytes stand for numbers only as long as nothing goes over their edge.  A shift by the
width of the word means nothing, a bit that is shifted out at the top is lost, and a byte does not
go below zero or above its largest value.  Here each of these is a fault, which ends a computation
with what went wrong; so to show that a computation ends in a value is to show that none of them
happens on the way.  Bits shifted out at the bottom are dropped on purpose and are no fault.

Main definitions:

* `Geotile.Fault`, `Geotile.Checked` — what can go wrong, and computations that may end in it;
* `Geotile.Checked.shiftLeft`, `Geotile.Checked.shiftRight`, `Geotile.Checked.double` — shifts of
  words;
* `Geotile.Checked.minus`, `Geotile.Checked.plus` — differences and sums of bytes;
* `Geotile.Checked.clamp`, `Geotile.Checked.saturatingPlus` — numbers moved into a range;
* `Geotile.Checked.filter`, `Geotile.Checked.dropWhile`, `Geotile.Checked.takeWhile` — lists
  searched by a test that may fault.

Main results:

* `Geotile.Checked.shiftLeft_eq`, `Geotile.Checked.shiftRight_eq`, `Geotile.Checked.minus_eq`,
  `Geotile.Checked.plus_eq` — when there is no fault;
* `Geotile.Checked.mapM_eq`, `Geotile.Checked.filter_map` and so on — a list is gone through without
  a fault when each of its items is.
-/

import Mathlib.Algebra.Group.Int.Defs
import Mathlib.Algebra.Group.Nat.Defs

set_option autoImplicit false

namespace Geotile

/-- What goes wrong where words and bytes do not stand for numbers any more. -/
inductive Fault where
  /-- A word is shifted by its width or more. -/
  | wideShift
  /-- A set bit is shifted out at the top of a word. -/
  | lostBit
  /-- A byte goes below zero. -/
  | belowZero
  /-- A byte goes above its largest value. -/
  | aboveByte
  /-- A range ends before it begins. -/
  | noRange
  /-- A path is put together with a depth that is no level of the tree. -/
  | offTree
  /-- A loop has not come to its end after as many rounds as it can need. -/
  | endless
  deriving DecidableEq

/-- A computation that may end in a fault. -/
abbrev Checked := Except Fault

namespace Checked

/-! ### Words and bytes -/

/-- A word shifted to the left. -/
def shiftLeft (w : UInt64) (amount : Nat) : Checked UInt64 :=
  if 64 ≤ amount then .error .wideShift
  else if 2 ^ 64 ≤ w.toNat * 2 ^ amount then .error .lostBit
  else .ok (w <<< UInt64.ofNat amount)

/-- A word shifted to the right. -/
def shiftRight (w : UInt64) (amount : Nat) : Checked UInt64 :=
  if 64 ≤ amount then .error .wideShift else .ok (w >>> UInt64.ofNat amount)

/-- A word of half the width shifted to the left by one bit. -/
def double (w : UInt32) : Checked UInt32 :=
  if 2 ^ 32 ≤ w.toNat * 2 then .error .lostBit else .ok (w <<< 1)

/-- The difference of two bytes. -/
def minus (a b : UInt8) : Checked UInt8 := if a < b then .error .belowZero else .ok (a - b)

/-- The sum of two bytes. -/
def plus (a b : UInt8) : Checked UInt8 :=
  if 2 ^ 8 ≤ a.toNat + b.toNat then .error .aboveByte else .ok (a + b)

/-- A number moved into a range. -/
def clamp (low high n : Int64) : Checked Int64 :=
  if high < low then .error .noRange
  else .ok (if n < low then low else if high < n then high else n)

/-- The sum of two numbers, or the end of their range that is next to it. -/
def saturatingPlus (m n : Int64) : Int64 := .ofIntClamp (m.toInt + n.toInt)

theorem shiftLeft_eq {w : UInt64} {amount : Nat} (narrow : amount < 64)
    (fits : w.toNat * 2 ^ amount < 2 ^ 64) :
    shiftLeft w amount = .ok (w <<< UInt64.ofNat amount) := by
  rw [shiftLeft, if_neg (Nat.not_le_of_lt narrow), if_neg (Nat.not_le_of_lt fits)]

theorem shiftRight_eq (w : UInt64) {amount : Nat} (narrow : amount < 64) :
    shiftRight w amount = .ok (w >>> UInt64.ofNat amount) := by
  rw [shiftRight, if_neg (Nat.not_le_of_lt narrow)]

theorem byte_inj {m n : Nat} (hm : m < 2 ^ 8) (hn : n < 2 ^ 8) :
    UInt8.ofNat m = UInt8.ofNat n ↔ m = n := by
  rw [← UInt8.toNat_inj, UInt8.toNat_ofNat_of_lt' hm, UInt8.toNat_ofNat_of_lt' hn]

theorem minus_eq {m n : Nat} (le : n ≤ m) (fits : m < 2 ^ 8) :
    minus (UInt8.ofNat m) (UInt8.ofNat n) = .ok (UInt8.ofNat (m - n)) := by
  have order : ¬ UInt8.ofNat m < UInt8.ofNat n := by
    rw [UInt8.ofNat_lt_iff_lt fits (Nat.lt_of_le_of_lt le fits)]
    exact Nat.not_lt_of_le le
  rw [minus, if_neg order, UInt8.ofNat_sub le]

theorem plus_eq {m n : Nat} (fits : m + n < 2 ^ 8) :
    plus (UInt8.ofNat m) (UInt8.ofNat n) = .ok (UInt8.ofNat (m + n)) := by
  have first := UInt8.toNat_ofNat_of_lt' (Nat.lt_of_le_of_lt (Nat.le_add_right m n) fits)
  have second := UInt8.toNat_ofNat_of_lt' (Nat.lt_of_le_of_lt (Nat.le_add_left n m) fits)
  rw [plus, if_neg (by rw [first, second]; exact Nat.not_le_of_lt fits), UInt8.ofNat_add]

theorem minus_one {m : Nat} (pos : 0 < m) (fits : m < 2 ^ 8) :
    minus (.ofNat m) 1 = .ok (.ofNat (m - 1)) := minus_eq (n := 1) pos fits

theorem plus_one {m : Nat} (fits : m + 1 < 2 ^ 8) :
    plus (.ofNat m) 1 = .ok (.ofNat (m + 1)) := plus_eq (n := 1) fits

/-- One shifted to the left is a power of two. -/
theorem shiftLeft_one {k : Nat} (h : k < 64) :
    ∃ w : UInt64, shiftLeft 1 k = .ok w ∧ w.toNat = 2 ^ k := by
  have fits : 1 * 2 ^ k < 2 ^ 64 := by
    rw [Nat.one_mul]
    exact Nat.pow_lt_pow_right (by decide) h
  have amount : (UInt64.ofNat k).toNat % 64 = k := by
    rw [UInt64.toNat_ofNat']
    omega
  refine ⟨_, shiftLeft_eq h fits, ?_⟩
  rw [UInt64.toNat_shiftLeft, amount, UInt64.toNat_one, Nat.shiftLeft_eq, Nat.mod_eq_of_lt fits,
    Nat.one_mul]

theorem toInt_saturatingPlus {m n : Int64} (low : m.toInt + n.toInt < 2 ^ 63) :
    (saturatingPlus m n).toInt = max (-2 ^ 63) (m.toInt + n.toInt) := by
  have least : Int64.minValue.toInt = -2 ^ 63 := by decide
  have most : Int64.maxValue.toInt = 2 ^ 63 - 1 := by decide
  rw [saturatingPlus, Int64.ofIntClamp]
  split
  · rw [dif_pos (by omega), Int64.toInt_ofIntLE]
    omega
  · omega

/-- A number moved into the range from one to a small number. -/
theorem clamp_one {d k : Nat} {n : Int64} (pos : 0 < d) (small : d < 2 ^ 63)
    (h : (k : Int) = max 1 (min n.toInt d)) : clamp 1 (.ofNat d) n = .ok (.ofNat k) := by
  have one : (1 : Int64).toInt = 1 := by decide
  have high : (Int64.ofNat d).toInt = d := Int64.toInt_ofNat_of_lt small
  rw [clamp, if_neg (by rw [Int64.lt_iff_toInt_lt, one, high]; omega)]
  refine congrArg Except.ok (Int64.toInt_inj.mp ?_)
  simp only [Int64.lt_iff_toInt_lt, one, high]
  rw [Int64.toInt_ofNat_of_lt (by omega)]
  split
  · omega
  · split <;> omega

/-! ### Going on after a value -/

@[simp] theorem pure_eq {α : Type} (a : α) : (pure a : Checked α) = .ok a := rfl

@[simp] theorem ok_bind {α β : Type} (a : α) (f : α → Checked β) : (.ok a >>= f) = f a := rfl

/-! ### Lists -/

variable {α β γ : Type}

/-- The items that pass a test. -/
def filter (test : α → Checked Bool) : List α → Checked (List α)
  | [] => pure []
  | a :: as => do
    let passed ← test a
    let rest ← filter test as
    return if passed then a :: rest else rest

/-- The items from the first one on that does not pass a test. -/
def dropWhile (test : α → Checked Bool) : List α → Checked (List α)
  | [] => pure []
  | a :: as => do if ← test a then dropWhile test as else return a :: as

/-- The items before the first one that does not pass a test. -/
def takeWhile (test : α → Checked Bool) : List α → Checked (List α)
  | [] => pure []
  | a :: as => do if ← test a then return a :: (← takeWhile test as) else return []

theorem mapM_eq {g : α → Checked γ} {k : α → γ} {as : List α} (h : ∀ a ∈ as, g a = .ok (k a)) :
    as.mapM g = .ok (as.map k) := by
  induction as with
  | nil => rfl
  | cons a as ih =>
      rw [List.forall_mem_cons] at h
      rw [List.mapM_cons, h.1, ih h.2]
      rfl

theorem anyM_eq {test : α → Checked Bool} {p : α → Bool} {as : List α}
    (h : ∀ a ∈ as, test a = .ok (p a)) : as.anyM test = .ok (as.any p) := by
  induction as with
  | nil => rfl
  | cons a as ih =>
      rw [List.forall_mem_cons] at h
      rw [List.anyM, h.1, ih h.2, List.any_cons]
      cases p a <;> rfl

theorem foldlM_eq {δ ε : Type} {g : δ → ε} {s : ε → α → Checked ε} {k : δ → α → δ} {as : List α}
    (h : ∀ d, ∀ a ∈ as, s (g d) a = .ok (g (k d a))) (d : δ) :
    as.foldlM s (g d) = .ok (g (as.foldl k d)) := by
  induction as generalizing d with
  | nil => rfl
  | cons a as ih =>
      rw [List.foldlM_cons, h d a (List.mem_cons_self ..), List.foldl_cons]
      exact ih (fun d a ha => h d a (List.mem_cons_of_mem _ ha)) (k d a)

section

variable {f : β → α}

theorem mapM_map {g : α → Checked γ} {k : β → γ} {bs : List β}
    (h : ∀ b ∈ bs, g (f b) = .ok (k b)) : (bs.map f).mapM g = .ok (bs.map k) := by
  rw [List.mapM_map]
  exact mapM_eq h

theorem allM_map {test : α → Checked Bool} {p : β → Bool} {bs : List β}
    (h : ∀ b ∈ bs, test (f b) = .ok (p b)) : (bs.map f).allM test = .ok (bs.all p) := by
  induction bs with
  | nil => rfl
  | cons b bs ih =>
      rw [List.forall_mem_cons] at h
      rw [List.map_cons, List.allM, h.1, ih h.2, List.all_cons]
      cases p b <;> rfl

theorem filter_map {test : α → Checked Bool} {p : β → Bool} {bs : List β}
    (h : ∀ b ∈ bs, test (f b) = .ok (p b)) :
    filter test (bs.map f) = .ok ((bs.filter p).map f) := by
  induction bs with
  | nil => rfl
  | cons b bs ih =>
      rw [List.forall_mem_cons] at h
      rw [List.map_cons, filter, h.1, ih h.2, List.filter_cons]
      cases p b <;> rfl

theorem dropWhile_map {test : α → Checked Bool} {p : β → Bool} {bs : List β}
    (h : ∀ b ∈ bs, test (f b) = .ok (p b)) :
    dropWhile test (bs.map f) = .ok ((bs.dropWhile p).map f) := by
  induction bs with
  | nil => rfl
  | cons b bs ih =>
      rw [List.forall_mem_cons] at h
      rw [List.map_cons, dropWhile, h.1, ih h.2, List.dropWhile_cons]
      cases p b <;> rfl

theorem takeWhile_map {test : α → Checked Bool} {p : β → Bool} {bs : List β}
    (h : ∀ b ∈ bs, test (f b) = .ok (p b)) :
    takeWhile test (bs.map f) = .ok ((bs.takeWhile p).map f) := by
  induction bs with
  | nil => rfl
  | cons b bs ih =>
      rw [List.forall_mem_cons] at h
      rw [List.map_cons, takeWhile, h.1, ih h.2, List.takeWhile_cons]
      cases p b <;> rfl

theorem foldlM_map {δ ε : Type} {g : δ → ε} {s : ε → α → Checked ε} {k : δ → β → δ} {bs : List β}
    (h : ∀ d, ∀ b ∈ bs, s (g d) (f b) = .ok (g (k d b))) (d : δ) :
    (bs.map f).foldlM s (g d) = .ok (g (bs.foldl k d)) := by
  rw [List.foldlM_map]
  exact foldlM_eq h d

end

end Checked

end Geotile
