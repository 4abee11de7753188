/-
**Tiles as digits.**

The digits of a tile are those of its quadrants, so they name the tile, one tile contains another
exactly when the digits of the first begin those of the second, and no other character occurs
among them.  A digit is one byte long, so the number of bytes that is checked before the
characters is the depth, and what is read as a tile is exactly what a tile is written as.

Main definitions:

* `Geotile.Tile.levels` — the digits as levels of a topic, one each.

Main results:

* `Geotile.Tile.digits_prefix_iff`, `Geotile.Tile.levels_prefix_iff`, `Geotile.Tile.digits_inj` —
  lying inside, and being equal, on digits;
* `Geotile.Tile.parse_eq_ok_iff` — reading a tile from a text accepts exactly its digits;
* `Geotile.Scheme.tileOfLevels?_eq_some_iff` — so does reading it from levels.
-/

import Geotile.Proofs.Containment
import Geotile.Topic

set_option autoImplicit false

namespace Geotile

theorem Quadrant.utf8Size_digit (q : Quadrant) : q.digit.utf8Size = 1 := by cases q <;> rfl

/-- Each digit takes one byte. -/
theorem Quadrant.byteLength_map_digit (qs : List Quadrant) :
    Text.byteLength (qs.map digit) = qs.length := by
  induction qs with
  | nil => rfl
  | cons q qs ih =>
      rw [List.map_cons, Text.byteLength, utf8Size_digit, ih, List.length_cons, Nat.add_comm]

namespace Tile

/-! ### The digits of a tile -/

/-- A tile contains another exactly when its digits begin those of the other. -/
theorem digits_prefix_iff {t u : Tile} : t.digits <+: u.digits ↔ t.contains u = true := by
  rw [contains_iff_path, digits, digits]
  exact List.prefix_map_iff_of_injective fun _ _ => Quadrant.digit_inj.mp

/-- A tile is named by its digits. -/
theorem digits_inj {t u : Tile} : t.digits = u.digits ↔ t = u := by
  constructor
  · intro h
    refine contains_antisymm (digits_prefix_iff.mp ?_) (digits_prefix_iff.mp ?_)
    · exact h ▸ List.prefix_refl _
    · exact h ▸ List.prefix_refl _
  · rintro rfl
    rfl

theorem toList_text (t : Tile) : t.text.toList = t.digits := String.toList_ofList

theorem text_inj {t u : Tile} : t.text = u.text ↔ t = u := by
  rw [← digits_inj]
  exact String.ofList_inj

/-- A character that is no digit of a quadrant is none of a tile. -/
theorem notMem_digits {c : Char} (h : Quadrant.ofDigit? c = none) (t : Tile) : c ∉ t.digits := by
  intro mem
  obtain ⟨q, -, rfl⟩ := List.mem_map.mp mem
  rw [Quadrant.ofDigit?_digit] at h
  cases h

theorem byteLength_digits (t : Tile) : Text.byteLength t.digits = t.depth := by
  rw [digits, Quadrant.byteLength_map_digit, length_quadrants]

/-! ### Reading a tile -/

/-- A text names a tile exactly when it consists of the digits of the tile. -/
theorem parse_eq_ok_iff {s : String} {t : Tile} : parse s = .ok t ↔ s.toList = t.digits := by
  have read : readEach Quadrant.ofDigit? s.toList = .ok t.quadrants ↔
      s.toList = t.quadrants.map Quadrant.digit := readEach_eq_ok_iff Quadrant.ofDigit?_eq_some_iff
  rw [digits, ← read]
  constructor
  · intro h
    unfold parse at h
    dsimp only at h
    split at h
    · cases h
    · split at h
      · cases h
      · split at h
        · cases h
        · next qs ok =>
          cases h
          rw [quadrants_ofQuadrants, ok]
  · intro ok
    have bytes : Text.byteLength s.toList = t.depth := by
      rw [read.mp ok]
      exact byteLength_digits t
    have pos := t.depth_pos
    have le := t.depth_le
    unfold parse
    rw [dif_neg (by omega), dif_neg (by omega)]
    split
    · next c bad =>
      rw [ok] at bad
      cases bad
    · next qs ok' =>
      rw [ok] at ok'
      cases ok'
      rw [ofQuadrants_quadrants]

/-! ### Digits as levels -/

/-- The digits of a tile as the levels of a topic, one each. -/
def levels (t : Tile) : List (List Char) := t.digits.map fun c => [c]

theorem levels_ne_nil (t : Tile) : t.levels ≠ [] := by
  intro h
  have pos := t.depth_pos
  rw [← length_digits, List.map_eq_nil_iff.mp h] at pos
  cases pos

/-- No level holds a character that is no digit of a quadrant. -/
theorem notMem_of_mem_levels {c : Char} (h : Quadrant.ofDigit? c = none) {t : Tile}
    {level : List Char} (mem : level ∈ t.levels) : c ∉ level := by
  obtain ⟨d, hd, rfl⟩ := List.mem_map.mp mem
  rw [List.mem_singleton]
  rintro rfl
  exact notMem_digits h t hd

theorem byteLength_of_mem_levels {t : Tile} {level : List Char} (mem : level ∈ t.levels) :
    Text.byteLength level = 1 := by
  obtain ⟨d, hd, rfl⟩ := List.mem_map.mp mem
  obtain ⟨q, -, rfl⟩ := List.mem_map.mp hd
  exact Quadrant.byteLength_map_digit [q]

/-- A tile contains another exactly when its levels begin those of the other. -/
theorem levels_prefix_iff {t u : Tile} : t.levels <+: u.levels ↔ t.contains u = true := by
  rw [← digits_prefix_iff, levels, levels]
  exact List.prefix_map_iff_of_injective fun _ _ => List.singleton_inj.mp

@[simp] theorem flatten_levels (t : Tile) : t.levels.flatten = t.digits :=
  List.flatMap_singleton' t.digits

/-- Levels of one byte each are the characters that they are made of. -/
theorem map_singleton_flatten {levels : List (List Char)}
    (h : ∀ level ∈ levels, Text.byteLength level = 1) :
    levels.flatten.map (fun c => [c]) = levels := by
  induction levels with
  | nil => rfl
  | cons level levels ih =>
      obtain ⟨c, rfl⟩ := Text.eq_singleton_of_byteLength_eq_one (h level (List.mem_cons_self ..))
      rw [List.flatten_cons, List.singleton_append, List.map_cons,
        ih fun l hl => h l (List.mem_cons_of_mem _ hl)]

end Tile

/-- Levels name a tile exactly when they are its digits, one each. -/
theorem Scheme.tileOfLevels?_eq_some_iff {levels : List (List Char)} {t : Tile} :
    tileOfLevels? levels = some t ↔ levels = t.levels := by
  have read : (Tile.parse (String.ofList levels.flatten)).toOption = some t ↔
      levels.flatten = t.digits := by
    rw [← String.toList_ofList (l := levels.flatten), ← Tile.parse_eq_ok_iff,
      String.toList_ofList]
    cases Tile.parse (String.ofList levels.flatten) <;> simp [Except.toOption]
  rw [tileOfLevels?]
  constructor
  · intro h
    split at h
    · next bytes =>
      simp only [List.all_eq_true, beq_iff_eq] at bytes
      rw [Tile.levels, ← read.mp h, Tile.map_singleton_flatten bytes]
    · cases h
  · rintro rfl
    rw [if_pos, read, Tile.flatten_levels]
    simp only [List.all_eq_true, beq_iff_eq]
    exact fun _ => Tile.byteLength_of_mem_levels

end Geotile
