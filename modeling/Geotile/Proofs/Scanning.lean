/-
**Searching the members in order.**

What lies inside a tile is looked up by a scan of the ordered members, which starts at the tile and
ends at the first member outside, and what a tile lies in by asking for its ancestors one after the
other.  Neither looks at all members, and both find what looking at all of them would: the tiles
inside a tile are one stretch of the order, which begins at the tile, whatever depths are mixed.

Main results:

* `Geotile.Area.membersWithin_eq_filter` — the scan is a filter;
* `Geotile.Area.membersWithin_inOrder` — it yields the members in the order of their texts, each
  once;
* `Geotile.Raw.Members.filter_contains_raw` — the filter on words;
* `Geotile.Area.scan_finds_inside` — **what is found is what testing every member finds**.
-/

import Geotile.Proofs.Differences
import Geotile.Proofs.DigitOrder
import Geotile.Proofs.RawMembers

set_option autoImplicit false

namespace Geotile

/-- The test of every member on words. -/
theorem Raw.Members.filter_contains_raw (a : Area) (t : Tile) :
    Checked.filter t.raw.contains a.raw = .ok ((a.tiles.filter t.contains).map Tile.raw) :=
  Checked.filter_map fun u _ => Path.contains_eq t u

namespace Area

theorem membersWithin_sublist (a : Area) (t : Tile) : (a.membersWithin t).Sublist a.tiles :=
  (List.takeWhile_sublist _).trans (List.dropWhile_sublist _)

/-- The scan yields what a filter does. -/
theorem membersWithin_eq_filter (a : Area) (t : Tile) :
    a.membersWithin t = a.tiles.filter t.contains := by
  refine eq_of_sorted_of_mem (a.sorted.sublist (membersWithin_sublist a t))
    (a.sorted.filter t.contains) fun u => ?_
  rw [mem_membersWithin, List.mem_filter]
  exact Iff.rfl

theorem membersWithin_inOrder (a : Area) (t : Tile) :
    (a.membersWithin t).Pairwise fun u v => u.text < v.text :=
  (a.sorted.sublist (membersWithin_sublist a t)).imp Tile.text_lt_iff.mpr

/-- **What is found is what testing every member finds.**  The scan for the members inside a tile,
whether the tile is a member or not and however deep it is, yields exactly those, each once and in
the order of their texts.  There are some below the tile exactly when another member lies inside it,
and the tile is covered exactly when it lies inside a member.  On words the scan is the filter, and
all three searches end without a fault. -/
theorem scan_finds_inside (a : Area) (t : Tile) :
    a.membersWithin t = a.tiles.filter t.contains ∧
    (∀ u, u ∈ a.membersWithin t ↔ u ∈ a ∧ t.contains u = true) ∧
    (a.membersWithin t).Nodup ∧
    (a.membersWithin t).Pairwise (fun u v => u.text < v.text) ∧
    (a.hasMembersBelow t = true ↔ ∃ u ∈ a, u ≠ t ∧ t.contains u = true) ∧
    (a.covers t = true ↔ ∃ u ∈ a, u.contains t = true) ∧
    Raw.Members.within a.raw t.raw = Checked.filter t.raw.contains a.raw ∧
    Raw.Members.within a.raw t.raw = .ok ((a.membersWithin t).map Tile.raw) ∧
    Raw.Members.hasBelow a.raw t.raw = .ok (a.hasMembersBelow t) ∧
    Raw.Members.covers a.raw t.raw = .ok (a.covers t) := by
  have found := Raw.Members.within_raw a t
  refine ⟨membersWithin_eq_filter a t, fun u => mem_membersWithin,
    a.nodup.sublist (membersWithin_sublist a t), membersWithin_inOrder a t, hasMembersBelow_iff,
    covers_iff, ?_, found, Raw.Members.hasBelow_raw a t, Raw.Members.covers_raw a t⟩
  rw [found, membersWithin_eq_filter, Raw.Members.filter_contains_raw]

end Area

end Geotile
