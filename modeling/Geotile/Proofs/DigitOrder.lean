/-
**Tiles are ordered and cut as their digits are.**

A tile is a word and a depth, and what is asked about tiles is answered by shifting and comparing
words.  The answers are those that the texts of their digits give: lying inside is beginning alike,
dropping levels is taking the first digits, and going down a level adds a digit.

The order takes most care.  Two words are aligned, so that their first levels lie in the highest
bits, and then compared as numbers.  A path and its continuation by zeros have the same aligned
word, and then the depths decide.  Padding a path to a fixed number of levels turns it into a
number, and of two paths the one with the smaller number comes first in the order of digits, or, of
equal numbers, the shorter one.

Main definitions:

* `Geotile.Quadrant.padded` — the number of a path continued to a number of levels.

Main results:

* `Geotile.Tile.toNat_aligned_eq_padded` — the aligned word of a tile;
* `Geotile.Tile.lt_iff_digits`, `Geotile.Tile.compare_eq_compare_text` — the order of tiles is that
  of their texts;
* `Geotile.Tile.refines_text` — **what is asked about tiles is told by their texts**.
-/

import Geotile.Proofs.RawPaths

set_option autoImplicit false

namespace Geotile

/-! ### Paths as numbers -/

theorem Quadrant.digit_lt_iff {p q : Quadrant} : p.digit < q.digit ↔ p.number < q.number := by
  cases p <;> cases q <;> decide

/-- The number of a path that is continued by zeros to the given number of levels. -/
def Quadrant.padded : (levels : Nat) → List Quadrant → Nat
  | n + 1, q :: qs => q.number * tileCount n + padded n qs
  | _, _ => 0

theorem Quadrant.padded_lt (n : Nat) (qs : List Quadrant) : padded n qs < tileCount n := by
  induction n generalizing qs with
  | zero => exact tileCount_pos 0
  | succ n ih =>
      cases qs with
      | nil => exact tileCount_pos _
      | cons q qs =>
          have rest := ih qs
          have digit := Nat.mul_le_mul_right (tileCount n) (Nat.le_of_lt_succ q.number_lt)
          rw [padded, tileCount_succ]
          omega

/-- Paths of at most as many levels come in the order of their digits exactly when they come in that
of their padded numbers, of equal numbers the shorter one first. -/
theorem Quadrant.lt_digits_iff_padded {n : Nat} {ps qs : List Quadrant} (hp : ps.length ≤ n)
    (hq : qs.length ≤ n) :
    ps.map digit < qs.map digit ↔ padded n ps < padded n qs ∨
      (padded n ps = padded n qs ∧ ps.length < qs.length) := by
  induction n generalizing ps qs with
  | zero =>
      rw [List.eq_nil_of_length_eq_zero (Nat.le_zero.mp hp),
        List.eq_nil_of_length_eq_zero (Nat.le_zero.mp hq)]
      simp
  | succ n ih =>
      cases ps with
      | nil =>
          cases qs with
          | nil => simp
          | cons q qs =>
              refine iff_of_true (List.nil_lt_cons ..) ?_
              rw [show padded (n + 1) [] = 0 from rfl, List.length_cons, List.length_nil]
              omega
      | cons p ps =>
          cases qs with
          | nil =>
              refine iff_of_false (List.not_lt_nil _) ?_
              rw [show padded (n + 1) [] = 0 from rfl, List.length_cons, List.length_nil]
              omega
          | cons q qs =>
              simp only [List.length_cons, Nat.add_le_add_iff_right] at hp hq
              have small := padded_lt n ps
              have small' := padded_lt n qs
              rw [List.map_cons, List.map_cons, List.cons_lt_cons_iff, digit_lt_iff, digit_inj,
                ih hp hq, padded, padded, List.length_cons, List.length_cons]
              rcases Nat.lt_trichotomy p.number q.number with less | same | more
              · have step := Nat.mul_le_mul_right (tileCount n) less
                rw [Nat.succ_mul] at step
                exact iff_of_true (.inl less) (.inl (by omega))
              · rw [number_inj] at same
                subst same
                simp
              · have step := Nat.mul_le_mul_right (tileCount n) more
                rw [Nat.succ_mul] at step
                refine iff_of_false ?_ (by omega)
                rintro (less | ⟨rfl, -⟩)
                · omega
                · omega

theorem Packed.toNat_pack_cons {q : Quadrant} {qs : List Quadrant} (h : qs.length < maxDepth) :
    (pack (q :: qs)).toNat = q.number * tileCount qs.length + (pack qs).toNat := by
  have first := toNat_push_lt (d := 0) (w := 0) (by decide) (by decide) q
  rw [pack, List.foldl_cons, toNat_foldl_push qs (d := 1) (by omega) first,
    toNat_push (by decide), UInt64.toNat_zero, Nat.mul_zero, Nat.zero_add]

theorem Packed.padded_eq_toNat_pack {n : Nat} {qs : List Quadrant} (h : qs.length ≤ n)
    (le : n ≤ maxDepth) :
    Quadrant.padded n qs = (pack qs).toNat * tileCount (n - qs.length) := by
  induction qs generalizing n with
  | nil => cases n <;> simp [Quadrant.padded]
  | cons q qs ih =>
      cases n with
      | zero => cases h
      | succ n =>
          rw [List.length_cons, Nat.add_le_add_iff_right] at h
          have split : tileCount n = tileCount qs.length * tileCount (n - qs.length) := by
            rw [← tileCount_add, Nat.add_sub_cancel' h]
          rw [Quadrant.padded, ih h (by omega), toNat_pack_cons (by omega), List.length_cons,
            Nat.add_sub_add_right, Nat.add_mul, Nat.mul_assoc, ← split]

namespace Tile

/-! ### The order -/

/-- The aligned word of a tile is the padded number of its path. -/
theorem toNat_aligned_eq_padded (t : Tile) :
    t.aligned.toNat = Quadrant.padded maxDepth t.quadrants := by
  rw [toNat_aligned, Packed.padded_eq_toNat_pack (by simpa using t.depth_le) (Nat.le_refl _),
    length_quadrants, quadrants, Packed.pack_unpack t.code_lt]

theorem lt_iff_digits {t u : Tile} : t < u ↔ t.digits < u.digits := by
  rw [digits, digits, Quadrant.lt_digits_iff_padded (n := maxDepth) (by simpa using t.depth_le)
    (by simpa using u.depth_le), ← toNat_aligned_eq_padded, ← toNat_aligned_eq_padded,
    length_quadrants, length_quadrants, lt_iff, UInt64.lt_iff_toNat_lt, ← UInt64.toNat_inj]

theorem text_lt_iff {t u : Tile} : t.text < u.text ↔ t < u := by
  rw [lt_iff_digits, ← toList_text, ← toList_text]
  exact String.lt_iff

/-- The order of tiles is that of their texts. -/
theorem compare_eq_compare_text (t u : Tile) : t.compare u = Ord.compare t.text u.text := by
  show _ = compareOfLessAndEq t.text u.text
  rcases t.lt_or_eq_or_gt u with before | rfl | after
  · rw [compare_of_lt before, compareOfLessAndEq, if_pos (text_lt_iff.mpr before)]
  · rw [compare_self, compareOfLessAndEq, if_neg (mt text_lt_iff.mp (lt_irrefl t)), if_pos rfl]
  · have other : t.text ≠ u.text := by
      rw [ne_eq, text_inj]
      rintro rfl
      exact lt_irrefl t after
    rw [compare_of_gt after, compareOfLessAndEq, if_neg (mt text_lt_iff.mp (lt_asymm after)),
      if_neg other]

theorem compare_eq_eq_iff {t u : Tile} : t.compare u = .eq ↔ t = u := by
  rcases t.lt_or_eq_or_gt u with before | rfl | after
  · rw [compare_of_lt before]
    refine iff_of_false (by decide) ?_
    rintro rfl
    exact lt_irrefl t before
  · exact iff_of_true (compare_self t) rfl
  · rw [compare_of_gt after]
    refine iff_of_false (by decide) ?_
    rintro rfl
    exact lt_irrefl t after

/-! ### Levels and digits -/

theorem contains_iff_text {t u : Tile} :
    t.contains u = true ↔ t.text.toList <+: u.text.toList := by
  rw [toList_text, toList_text, digits_prefix_iff]

theorem toList_text_ancestor (t : Tile) (d : Nat) (pos : 0 < d) (le : d ≤ t.depth) :
    (t.ancestor d pos le).text.toList = t.text.toList.take d := by
  rw [toList_text, toList_text, digits, quadrants_ancestor, List.map_take]
  rfl

theorem text_child (t : Tile) (q : Quadrant) (room : t.depth < maxDepth) :
    (t.child q room).text = t.text ++ String.singleton q.digit := by
  refine String.toList_inj.mp ?_
  rw [toList_text, digits, quadrants_child, List.map_append, String.toList_append, toList_text,
    String.toList_singleton]
  rfl

/-- **What is asked about tiles is told by their texts.**  A tile lies inside another exactly when
its text begins with the text of the other, and two tiles overlap when one of the texts begins
the other.  Tiles compare as their texts do, and are equal when they compare equal.  The tile one
level up has the text without its last digit; a selector keeps the first digits, as many as it asks
for, but at least one and at most all of them, and no selector is out of range; and the four tiles
one level down have the text with one more digit, in order.  On words the same is computed, and
without a fault. -/
theorem refines_text (t u : Tile) (selector : Int64) :
    (t.contains u = true ↔ t.text.toList <+: u.text.toList) ∧
    (t.meets u = true ↔ t.text.toList <+: u.text.toList ∨ u.text.toList <+: t.text.toList) ∧
    t.compare u = Ord.compare t.text u.text ∧ (t.compare u = .eq ↔ t = u) ∧
    t.parent?.map (fun p => p.text.toList)
      = (if t.depth = 1 then none else some t.text.toList.dropLast) ∧
    (t.shorten selector.toInt).text.toList = t.text.toList.take (max 1 (min
      (if selector.toInt ≤ 0 then t.depth + selector.toInt else selector.toInt) t.depth)).toNat ∧
    t.raw.shorten selector = .ok (t.shorten selector.toInt).raw ∧
    t.children?.map (List.map text)
      = (if t.depth = 32 then none
        else some [t.text ++ "0", t.text ++ "1", t.text ++ "2", t.text ++ "3"]) ∧
    t.raw.contains u.raw = .ok (t.contains u) ∧ t.raw.meets u.raw = .ok (t.meets u) ∧
    t.raw.compare u.raw = .ok (t.compare u) ∧
    t.raw.parent? = .ok (t.parent?.map Tile.raw) ∧
    t.raw.children? = .ok (t.children?.map (·.map Tile.raw)) := by
  have length : t.text.toList.length = t.depth := by rw [toList_text, length_digits]
  refine ⟨contains_iff_text, ?_, compare_eq_compare_text t u, compare_eq_eq_iff, ?_,
    toList_text_ancestor .., Raw.Path.shorten_eq t selector, ?_, Raw.Path.contains_eq t u,
    Raw.Path.meets_eq t u, Raw.Path.compare_eq t u, Raw.Path.parent?_eq t,
    Raw.Path.children?_eq t⟩
  · rw [meets, Bool.or_eq_true, contains_iff_text, contains_iff_text]
  · rw [parent?]
    split
    · next deep =>
      rw [if_neg (by omega), Option.map_some, toList_text_ancestor, List.dropLast_eq_take, length]
    · next top =>
      have pos := t.depth_pos
      rw [if_pos (by omega)]
      rfl
  · rw [children?]
    split
    · next room =>
      rw [if_neg (show t.depth ≠ 32 from Nat.ne_of_lt room), Option.map_some, List.map_map]
      simp only [Quadrant.all, List.map_cons, List.map_nil, Function.comp_apply, text_child]
      rfl
    · next full =>
      rw [if_pos (show t.depth = 32 from Nat.le_antisymm t.depth_le (Nat.le_of_not_lt full))]
      rfl

end Tile

end Geotile
