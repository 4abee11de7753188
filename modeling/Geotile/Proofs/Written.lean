/-
**What is read is what is written.**

A tile is written as its digits, and there are two ways to read one: from a text, whose bytes are
counted before its characters are looked at, and from a list of numbers.  Both accept exactly what
is written, one to thirty-two digits from `0` to `3`, and both undo the writing.  A text of other
characters does not slip through by its number of bytes, since each digit takes one byte.

An area is written as the texts of its members in order, and the order of tiles is that of their
texts.  So an area that is read from any texts is written as these in increasing order, each of them
once, and an area is named by what it is written as.

Main results:

* `Geotile.Tile.exists_parse_iff`, `Geotile.Tile.exists_ofNumbers_iff` — which texts and which
  numbers are read;
* `Geotile.Tile.ofNumbers_eq_ok_iff`, `Geotile.Area.parse_eq_ok_iff` — what they are read as;
* `Geotile.Raw.Members.parse_raw`, `Geotile.Raw.Members.texts_raw` — sets of paths read and written;
* `Geotile.Tile.read_as_written` — **what is read is what is written**.
-/

import Mathlib.Data.Set.List
import Geotile.Proofs.DigitOrder
import Geotile.Proofs.RawMembers
import Geotile.Report.Lookup

set_option autoImplicit false

namespace Geotile

/-! ### Digits and numbers of quadrants -/

namespace Quadrant

/-- The digits are the characters from `0` to `3`. -/
theorem exists_digit_iff {c : Char} : (∃ q, digit q = c) ↔ '0' ≤ c ∧ c ≤ '3' := by
  constructor
  · rintro ⟨q, rfl⟩
    cases q <;> decide
  · rintro ⟨low, high⟩
    have least : 48 ≤ c.toNat := low
    have most : c.toNat ≤ 51 := high
    have four : c.toNat = 48 ∨ c.toNat = 49 ∨ c.toNat = 50 ∨ c.toNat = 51 := by omega
    rcases four with value | value | value | value
    · exact ⟨northWest, Char.toNat_inj.mp value.symm⟩
    · exact ⟨northEast, Char.toNat_inj.mp value.symm⟩
    · exact ⟨southWest, Char.toNat_inj.mp value.symm⟩
    · exact ⟨southEast, Char.toNat_inj.mp value.symm⟩

/-- The numbers are those up to three. -/
theorem exists_number_iff {n : Nat} : (∃ q, number q = n) ↔ n ≤ 3 := by
  constructor
  · rintro ⟨q, rfl⟩
    exact Nat.le_of_lt_succ q.number_lt
  · intro small
    match n with
    | 0 => exact ⟨northWest, rfl⟩
    | 1 => exact ⟨northEast, rfl⟩
    | 2 => exact ⟨southWest, rfl⟩
    | 3 => exact ⟨southEast, rfl⟩

end Quadrant

namespace Tile

/-- A list is what some tile is written as, item by item, when it has as many items as a tile may
have levels, and each of them is what a quadrant is written as. -/
theorem exists_map_quadrants_iff {α : Type} {write : Quadrant → α} {as : List α} :
    (∃ t : Tile, as = t.quadrants.map write) ↔
      1 ≤ as.length ∧ as.length ≤ maxDepth ∧ ∀ a ∈ as, ∃ q, write q = a := by
  constructor
  · rintro ⟨t, rfl⟩
    rw [List.length_map, length_quadrants]
    refine ⟨t.depth_pos, t.depth_le, fun a mem => ?_⟩
    obtain ⟨q, -, same⟩ := List.mem_map.mp mem
    exact ⟨q, same⟩
  · rintro ⟨pos, le, each⟩
    obtain ⟨qs, rfl⟩ := (Set.ext_iff.mp (Set.range_list_map write) as).mpr each
    rw [List.length_map] at pos le
    exact ⟨ofQuadrants qs pos le, by rw [quadrants_ofQuadrants]⟩

/-! ### Texts -/

/-- The texts that are read consist of one to thirty-two digits. -/
theorem exists_parse_iff {s : String} :
    (∃ t, parse s = .ok t) ↔
      1 ≤ s.length ∧ s.length ≤ 32 ∧ ∀ c ∈ s.toList, '0' ≤ c ∧ c ≤ '3' := by
  simp only [parse_eq_ok_iff, digits, exists_map_quadrants_iff, Quadrant.exists_digit_iff,
    String.length_toList]
  exact Iff.rfl

theorem parse_text (t : Tile) : parse t.text = .ok t := parse_eq_ok_iff.mpr t.toList_text

/-- What is read from a text is written as that text. -/
theorem text_of_parse {s : String} {t : Tile} (h : parse s = .ok t) : t.text = s := by
  rw [← String.toList_inj, toList_text, parse_eq_ok_iff.mp h]

/-! ### Numbers -/

/-- Numbers name a tile exactly when they are those of its quadrants. -/
theorem ofNumbers_eq_ok_iff {ns : List Nat} {t : Tile} :
    ofNumbers ns = .ok t ↔ ns = t.quadrants.map Quadrant.number := by
  have read : readEach Quadrant.ofNumber? ns = .ok t.quadrants ↔
      ns = t.quadrants.map Quadrant.number := readEach_eq_ok_iff Quadrant.ofNumber?_eq_some_iff
  rw [← read]
  constructor
  · intro h
    unfold ofNumbers at h
    split at h
    · cases h
    · split at h
      · cases h
      · split at h
        · cases h
        · next qs ok =>
          cases h
          rw [quadrants_ofQuadrants, ok]
  · intro ok
    have length : ns.length = t.depth := by
      rw [← length_of_readEach ok, length_quadrants]
    have pos := t.depth_pos
    have le := t.depth_le
    unfold ofNumbers
    rw [dif_neg (by omega), dif_neg (by omega)]
    split
    · next n bad =>
      rw [ok] at bad
      cases bad
    · next qs ok' =>
      rw [ok] at ok'
      cases ok'
      rw [ofQuadrants_quadrants]

/-- The numbers that are read are one to thirty-two, and none is above three. -/
theorem exists_ofNumbers_iff {ds : List UInt8} :
    (∃ t, ofNumbers (ds.map UInt8.toNat) = .ok t) ↔
      1 ≤ ds.length ∧ ds.length ≤ 32 ∧ ∀ d ∈ ds, d ≤ 3 := by
  simp only [ofNumbers_eq_ok_iff, exists_map_quadrants_iff, Quadrant.exists_number_iff,
    List.length_map, List.forall_mem_map]
  exact Iff.rfl

/-- The text of a tile is its numbers one after the other. -/
theorem join_numbers (t : Tile) :
    String.join (t.quadrants.map fun q => toString q.number) = t.text := by
  have digit : ∀ q : Quadrant, (toString q.number).toList = [q.digit] := by
    intro q
    cases q <;> rfl
  rw [← String.toList_inj, String.toList_join, toList_text, digits, List.flatMap_map,
    List.map_eq_flatMap]
  simp only [digit]

/-- Numbers that are read are read as their digits one after the other are. -/
theorem parse_of_ofNumbers {ds : List UInt8} {t : Tile}
    (h : ofNumbers (ds.map UInt8.toNat) = .ok t) :
    parse (String.join (ds.map fun d => toString d.toNat)) = .ok t := by
  have texts := congrArg (List.map fun n : Nat => toString n) (ofNumbers_eq_ok_iff.mp h)
  rw [List.map_map, List.map_map] at texts
  have written : String.join (ds.map fun d => toString d.toNat) = t.text :=
    (congrArg String.join texts).trans t.join_numbers
  rw [written, parse_text]

/-- The numbers that are read off again are those that were given. -/
theorem digits_of_ofNumbers {ds : List UInt8} {t : Tile}
    (h : ofNumbers (ds.map UInt8.toNat) = .ok t) : t.raw.digits = .ok ds := by
  have bytes := congrArg (List.map UInt8.ofNat) (ofNumbers_eq_ok_iff.mp h)
  rw [List.map_map, List.map_map] at bytes
  have same : ds.map (UInt8.ofNat ∘ UInt8.toNat) = ds :=
    List.map_id'' (fun d => UInt8.ofNat_toNat) ds
  rw [Raw.Path.digits_eq]
  exact congrArg Except.ok (bytes.symm.trans same)

end Tile

/-! ### Areas -/

namespace Area

theorem parse_cons (s : String) (ss : List String) :
    parse (s :: ss) = (Tile.parse s).bind fun t => (parse ss).map (insert t) := by
  rw [parse, List.mapM_cons, parse]
  cases Tile.parse s with
  | error e => rfl
  | ok t => cases ss.mapM Tile.parse <;> rfl

/-- The texts of tiles are read as the area of these tiles. -/
theorem parse_map_text (ts : List Tile) : parse (ts.map Tile.text) = .ok (ofList ts) := by
  induction ts with
  | nil => rfl
  | cons t ts ih =>
      rw [List.map_cons, parse_cons, Tile.parse_text, ih]
      rfl

/-- Texts are read as an area when each of them is read as a tile. -/
theorem exists_parsed_iff {ss : List String} :
    (∃ a, parse ss = .ok a) ↔ ∀ s ∈ ss, ∃ t, Tile.parse s = .ok t := by
  induction ss with
  | nil => exact iff_of_true ⟨empty, rfl⟩ (List.forall_mem_nil _)
  | cons s ss ih =>
      rw [List.forall_mem_cons, ← ih, parse_cons]
      cases Tile.parse s with
      | error e => simp [Except.bind]
      | ok t => cases parse ss <;> simp [Except.bind, Except.map]

/-- Then they are the texts of tiles, and the area consists of these. -/
theorem parse_eq_ok_iff {ss : List String} {a : Area} :
    parse ss = .ok a ↔ ∃ ts : List Tile, ts.map Tile.text = ss ∧ a = ofList ts := by
  constructor
  · intro h
    have each : ∀ s ∈ ss, ∃ t : Tile, t.text = s := by
      intro s mem
      obtain ⟨t, named⟩ := exists_parsed_iff.mp ⟨a, h⟩ s mem
      exact ⟨t, Tile.text_of_parse named⟩
    obtain ⟨ts, rfl⟩ := (Set.ext_iff.mp (Set.range_list_map Tile.text) ss).mpr each
    rw [parse_map_text] at h
    cases h
    exact ⟨ts, rfl, rfl⟩
  · rintro ⟨ts, rfl, rfl⟩
    exact parse_map_text ts

/-- An area is written in increasing order. -/
theorem pairwise_texts (a : Area) : a.texts.Pairwise (· < ·) :=
  List.pairwise_map.mpr (a.sorted.imp Tile.text_lt_iff.mpr)

/-- An area that is read is written as the texts that it is read from. -/
theorem mem_texts_of_parse {ss : List String} {a : Area} (h : parse ss = .ok a) {s : String} :
    s ∈ a.texts ↔ s ∈ ss := by
  obtain ⟨ts, rfl, rfl⟩ := parse_eq_ok_iff.mp h
  rw [texts, List.mem_map, List.mem_map]
  exact exists_congr fun t => and_congr_left fun _ => mem_ofList

theorem parse_texts (a : Area) : parse a.texts = .ok a := by
  rw [texts, parse_map_text]
  exact congrArg Except.ok (ext_mem fun t => mem_ofList)

end Area

namespace Raw.Members

open Checked

/-- Sets of paths are read as the areas that texts name. -/
theorem parse_raw (ss : List String) : parse ss = .ok ((Area.parse ss).map Area.raw) := by
  induction ss with
  | nil => rfl
  | cons s ss ih =>
      rw [parse, Path.parse_eq, ok_bind, Area.parse_cons]
      cases Tile.parse s with
      | error e => rfl
      | ok t =>
          dsimp only [Except.map, Except.bind]
          rw [ih, ok_bind]
          cases Area.parse ss with
          | error e => rfl
          | ok a =>
              dsimp only [Except.map]
              rw [insert_raw]
              rfl

theorem texts_raw (a : Area) : texts a.raw = .ok a.texts :=
  mapM_map fun t _ => Path.text_eq t

end Raw.Members

/-- **What is read is what is written.**  The texts that are read as a tile consist of one to
thirty-two characters from `0` to `3`; the tile is written as that text, and every tile is read from
what it is written as.  The numbers that are read are one to thirty-two, none above three; they are
read as their digits are, and read off again.  Texts are read as an area when each of them is read
as a tile; the area is written as these texts in increasing order, each of them once, and is itself
read from what it is written as.  On words all this happens without a fault. -/
theorem Tile.read_as_written :
    (∀ s : String,
      ((∃ t, parse s = .ok t) ↔
        1 ≤ s.length ∧ s.length ≤ 32 ∧ ∀ c ∈ s.toList, '0' ≤ c ∧ c ≤ '3') ∧
      (∀ t, parse s = .ok t → t.text = s) ∧ Raw.Path.parse s = .ok ((parse s).map raw)) ∧
    (∀ t : Tile, parse t.text = .ok t ∧ t.raw.text = .ok t.text) ∧
    (∀ ds : List UInt8,
      ((∃ t, ofNumbers (ds.map UInt8.toNat) = .ok t) ↔
        1 ≤ ds.length ∧ ds.length ≤ 32 ∧ ∀ d ∈ ds, d ≤ 3) ∧
      (∀ t, ofNumbers (ds.map UInt8.toNat) = .ok t →
        parse (String.join (ds.map fun d => toString d.toNat)) = .ok t ∧
          t.raw.digits = .ok ds) ∧
      Raw.Path.ofNumbers ds = .ok ((ofNumbers (ds.map UInt8.toNat)).map raw)) ∧
    (∀ ss : List String,
      ((∃ a, Area.parse ss = .ok a) ↔ ∀ s ∈ ss, ∃ t, parse s = .ok t) ∧
      (∀ a, Area.parse ss = .ok a →
        a.texts.Pairwise (· < ·) ∧ ∀ s, s ∈ a.texts ↔ s ∈ ss) ∧
      Raw.Members.parse ss = .ok ((Area.parse ss).map Area.raw)) ∧
    ∀ a : Area, Area.parse a.texts = .ok a ∧ Raw.Members.texts a.raw = .ok a.texts := by
  refine ⟨fun s => ⟨exists_parse_iff, fun t => text_of_parse, Raw.Path.parse_eq s⟩,
    fun t => ⟨parse_text t, Raw.Path.text_eq t⟩,
    fun ds => ⟨exists_ofNumbers_iff, fun t h => ?_, Raw.Path.ofNumbers_eq ds⟩,
    fun ss => ⟨Area.exists_parsed_iff, fun a h => ?_, Raw.Members.parse_raw ss⟩,
    fun a => ⟨Area.parse_texts a, Raw.Members.texts_raw a⟩⟩
  · exact ⟨parse_of_ofNumbers h, digits_of_ofNumbers h⟩
  · exact ⟨a.pairwise_texts, fun s => Area.mem_texts_of_parse h⟩

end Geotile
