/-
**What the filters of an area select.**

A filter is matched with a topic level by level.  The leading levels are the same on both sides, so
what decides is the type, which has to be the same, and the digits: those of the filter have to
begin those of the topic, since the last level of the filter takes whatever is left.  So the filter
of a tile selects the messages that are published at the tiles inside it, and the filters of an
area those at the tiles that it covers.  If no member lies inside another, two members do not
contain the same tile, and no message is selected twice.

Main definitions:

* `Geotile.matchLevels`, `Geotile.filterMatches` — matching with wildcards;
* `Geotile.IsLevel` — texts that can be a level, with no wildcard.

Main results:

* `Geotile.matchLevels_append_left` — equal levels in front do not matter;
* `Geotile.matchLevels_prefix` — levels without wildcards before a final `#` are matched by what
  they begin;
* `Geotile.Scheme.filter_matches_publish` — what the filter of one tile selects;
* `Geotile.Scheme.filters_select_covered` — **what the filters of an area select**.
-/

import Geotile.Proofs.SmallestForm
import Geotile.Proofs.Topics

set_option autoImplicit false

namespace Geotile

/-! ### Wildcards -/

/-- Whether the levels of a filter match those of a topic: a final `#` matches all levels that are
left, also when there are none, a `+` matches any one level, and another level matches itself. -/
def matchLevels : (filter topic : List (List Char)) → Bool
  | [['#']], _ => true
  | f :: fs, t :: ts => (f = ['+'] || f = t) && matchLevels fs ts
  | [], [] => true
  | _, _ => false

/-- Whether a filter matches a topic. -/
def filterMatches (filter topic : String) : Bool :=
  matchLevels (Text.split '/' filter.toList) (Text.split '/' topic.toList)

/-- A text that is a single level without wildcards. -/
structure IsLevel (text : String) : Prop where
  single : '/' ∉ text.toList
  noPlus : '+' ∉ text.toList
  noHash : '#' ∉ text.toList

@[simp] theorem matchLevels_hash (topic : List (List Char)) : matchLevels [['#']] topic = true := by
  cases topic <;> rfl

theorem matchLevels_cons {fs : List (List Char)} (h : fs ≠ []) (f t : List Char)
    (ts : List (List Char)) :
    matchLevels (f :: fs) (t :: ts) = ((f = ['+'] || f = t) && matchLevels fs ts) := by
  cases fs with
  | nil => exact absurd rfl h
  | cons f' fs => simp [matchLevels]

/-- Equal levels in front do not matter, whatever they are. -/
theorem matchLevels_append_left (front : List (List Char)) {fs : List (List Char)} (h : fs ≠ [])
    (ts : List (List Char)) : matchLevels (front ++ fs) (front ++ ts) = matchLevels fs ts := by
  induction front with
  | nil => rfl
  | cons level front ih =>
      rw [List.cons_append, List.cons_append, matchLevels_cons (by simp [h]), ih]
      simp

/-- Levels without wildcards before a final `#` match the topics that they begin. -/
theorem matchLevels_prefix {fs : List (List Char)} (plain : ['+'] ∉ fs) (ts : List (List Char)) :
    matchLevels (fs ++ [['#']]) ts = true ↔ fs <+: ts := by
  induction fs generalizing ts with
  | nil => simp
  | cons f fs ih =>
      simp only [List.mem_cons, not_or] at plain
      cases ts with
      | nil => cases fs <;> simp [matchLevels]
      | cons t ts =>
          rw [List.cons_append, matchLevels_cons (by simp), Bool.and_eq_true, ih plain.2,
            List.cons_prefix_cons]
          simp [Ne.symm plain.1]

namespace Scheme

/-! ### What the filter of a tile selects -/

/-- The filter of a tile selects the messages of its type that are published inside the tile. -/
theorem filter_matches_publish (s : Scheme) {messageType published source : String}
    (wanted : IsLevel messageType) (oneType : '/' ∉ published.toList)
    (oneSource : '/' ∉ source.toList) (t u : Tile) :
    filterMatches (s.filter messageType t) (s.publish published source u) = true ↔
      messageType = published ∧ t.contains u = true := by
  have plain : ['+'] ∉ t.levels := fun mem =>
    Tile.notMem_of_mem_levels (by decide) mem (List.mem_singleton.mpr rfl)
  have noWildcard : messageType.toList ≠ ['+'] := by
    intro h
    refine wanted.noPlus ?_
    rw [h]
    exact List.mem_singleton.mpr rfl
  rw [filterMatches, split_filter s wanted.single, split_publish s oneType oneSource,
    matchLevels_append_left _ (by simp), matchLevels_cons (by simp), matchLevels_cons (by simp),
    Bool.and_eq_true, Bool.and_eq_true, matchLevels_prefix plain, Tile.levels_prefix_iff]
  simp [noWildcard, String.toList_inj]

/-- A final `#` matches the level above too. -/
example : filterMatches "v2x/denm/+/1/2/#" "v2x/denm/rsu/1/2" = true := by decide

end Scheme

/-! ### What the filters of an area select -/

/-- A test that only one element of a list can pass is passed at most once. -/
theorem countP_le_one {α : Type} {p : α → Bool} {xs : List α} (nodup : xs.Nodup)
    (unique : ∀ x ∈ xs, ∀ y ∈ xs, p x = true → p y = true → x = y) : xs.countP p ≤ 1 := by
  have once : (xs.filter p).Nodup := nodup.filter p
  rw [List.countP_eq_length_filter]
  match found : xs.filter p with
  | [] => simp
  | [x] => simp
  | x :: y :: rest =>
    have hx : x ∈ xs.filter p := by simp [found]
    have hy : y ∈ xs.filter p := by simp [found]
    rw [List.mem_filter] at hx hy
    rw [found, unique x hx.1 y hy.1 hx.2 hy.2] at once
    simp at once

namespace Scheme

/-- **The filters of an area select what it covers.**  Some filter of an area matches the topic of
a message exactly when the filters are for its type and the area covers the tile where it was
published.  If no member of the area lies inside another, as in smallest form, at most one of the
filters does. -/
theorem filters_select_covered (s : Scheme) {messageType published source : String}
    (wanted : IsLevel messageType) (given : IsLevel published) (oneSource : '/' ∉ source.toList)
    (a : Area) (t : Tile) :
    ((∃ f ∈ s.filters messageType a, filterMatches f (s.publish published source t) = true) ↔
      messageType = published ∧ a.covers t = true) ∧
    (a.Antichain → (s.filters messageType a).countP
      (fun f => filterMatches f (s.publish published source t)) ≤ 1) ∧
    (a.isOptimised = true → a.Antichain) := by
  have one := s.filter_matches_publish wanted given.single oneSource
  refine ⟨?_, fun apart => ?_,
    fun smallest => (Area.isOptimised_iff_canonical.mp smallest).antichain⟩
  · simp only [filters, List.mem_map, Area.covers_iff]
    constructor
    · rintro ⟨_, ⟨u, hu, rfl⟩, found⟩
      obtain ⟨same, inside⟩ := (one u t).mp found
      exact ⟨same, u, hu, inside⟩
    · rintro ⟨same, u, hu, inside⟩
      exact ⟨_, ⟨u, hu, rfl⟩, (one u t).mpr ⟨same, inside⟩⟩
  · rw [filters, List.countP_map]
    refine countP_le_one a.nodup fun u hu v hv foundU foundV => ?_
    exact apart.eq_of_contains hu hv ((one u t).mp foundU).2 ((one v t).mp foundV).2

/-- A message below one of two members, from a source whose name holds a wildcard. -/
theorem filters_select_covered_below_member :
    IsLevel "denm" ∧ '/' ∉ "rsu+3".toList ∧
      (∃ f ∈ standard.filters "denm" (Area.ofList
          [Tile.ofQuadrants [.northEast, .southWest, .northWest] (by decide) (by decide),
            Tile.ofQuadrants [.northEast, .southEast] (by decide) (by decide)]),
        filterMatches f (standard.publish "denm" "rsu+3" (Tile.ofQuadrants
          [.northEast, .southWest, .northWest, .southEast] (by decide) (by decide))) = true) ∧
      (standard.filters "denm" (Area.ofList
          [Tile.ofQuadrants [.northEast, .southWest, .northWest] (by decide) (by decide),
            Tile.ofQuadrants [.northEast, .southEast] (by decide) (by decide)])).countP
        (fun f => filterMatches f (standard.publish "denm" "rsu+3" (Tile.ofQuadrants
          [.northEast, .southWest, .northWest, .southEast] (by decide) (by decide)))) ≤ 1 := by
  have level : IsLevel "denm" := ⟨by decide, by decide, by decide⟩
  have oneSource : '/' ∉ "rsu+3".toList := by decide
  have smallest : (Area.ofList
      [Tile.ofQuadrants [.northEast, .southWest, .northWest] (by decide) (by decide),
        Tile.ofQuadrants [.northEast, .southEast] (by decide) (by decide)]).isOptimised = true :=
    decide_eq_true (Area.optimise_of_tidy_eq (by decide +kernel))
  obtain ⟨selected, once, apart⟩ := filters_select_covered standard level level oneSource _
    (Tile.ofQuadrants [.northEast, .southWest, .northWest, .southEast] (by decide) (by decide))
  exact ⟨level, oneSource, selected.mpr ⟨rfl, by decide⟩, once (apart smallest)⟩

end Scheme

end Geotile
