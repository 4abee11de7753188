/-
**Areas of interest.**

The area of interest around a tile is the block of tiles near it, in smallest form.  Below the first
level the four tiles of one larger tile are merged into it, and no more: the parent of the tile in
the middle is a member, and so are the neighbours outside of it.  On the first level the block is
the whole map, and its four quadrants stay members, since nothing is larger.

On the level of its tile an area of interest covers exactly the block, so the tile can be read off
it again, unless it is one of the quadrants of the map.  Hence a tracker has something to change
whenever its station comes to another tile, on the same level or on another one, and never
otherwise.

Main definitions:

* `Geotile.Tile.blockSize` — the number of members around a tile;
* `Geotile.Area.IsBlockOf` — the parent of a tile and the neighbours outside of it.

Main results:

* `Geotile.Area.covers_around_iff` — what an area of interest covers on the level of its tile;
* `Geotile.Area.around_eq_parent_outside`, `Geotile.Area.around_of_top` — what it consists of;
* `Geotile.Tracker.holds_block` — **after every accepted fix a tracker holds such a block**;
* `Geotile.Area.around_eq_around_iff` — the areas around two tiles;
* `Geotile.Tracker.change_isEmpty_iff_same_tile` — **a tracker changes when its tile does**.
-/

import Geotile.Proofs.Blocks
import Geotile.Proofs.Changes
import Geotile.Proofs.FewestMembers

set_option autoImplicit false

namespace Geotile

namespace Area

/-! ### What they cover -/

theorem canonical_around (t : Tile) : (around t).Canonical := canonical_optimise _

/-- On the deepest level an area of interest covers what lies in a tile nearby. -/
theorem covers_around_of_deepest {t c : Tile} (hc : c.depth = maxDepth) :
    (around t).covers c = true ↔ ∃ u, t.Near u ∧ u.contains c = true := by
  rw [around_eq, sameCover_optimise _ c hc, covers_iff]
  simp only [mem_ofList, List.mem_cons, Tile.mem_presentNeighbours]
  exact Iff.rfl

/-- On the level of its tile an area of interest covers what is near. -/
theorem covers_around_iff {t u : Tile} (level : u.depth = t.depth) :
    (around t).covers u = true ↔ t.Near u := by
  constructor
  · intro covered
    obtain ⟨c, deepest, inside⟩ := u.exists_deepest
    obtain ⟨v, near, around⟩ :=
      (covers_around_of_deepest deepest).mp (covers_of_contains covered inside)
    have depth : v.depth = u.depth := near.depth_eq.trans level.symm
    have within := Tile.contains_of_common around inside (Nat.le_of_eq depth)
    rwa [← Tile.eq_of_contains_of_depth_le within (Nat.le_of_eq depth.symm)]
  · intro near
    exact (canonical_around t).covers_of_fills fun c deepest inside =>
      (covers_around_of_deepest deepest).mpr ⟨u, near, inside⟩

/-! ### What they consist of -/

theorem mem_parent_outside {t u p : Tile} :
    u ∈ ofList (p :: t.outside) ↔ u = p ∨ u ∈ t.outside := by
  rw [mem_ofList, List.mem_cons]

/-- The parent contains none of the tiles outside of it. -/
theorem antichain_parent_outside {t p : Tile} (hp : t.parent? = some p) :
    (ofList (p :: t.outside)).Antichain := by
  have level := Tile.depth_of_parent? hp
  intro u hu v hv inside
  have le := Tile.depth_le_of_contains inside
  rw [mem_parent_outside] at hu hv
  rcases hu with rfl | outU
  · rcases hv with rfl | outV
    · rfl
    · have depth := Tile.depth_of_mem_outside outV
      have apart := (Tile.mem_outside.mp outV).2
      rw [hp] at apart
      exact absurd (Tile.parent?_eq_some_iff_contains.mpr ⟨by omega, inside⟩) apart
  · have depth := Tile.depth_of_mem_outside outU
    refine Tile.eq_of_contains_of_depth_le inside ?_
    rcases hv with rfl | outV
    · omega
    · rw [depth, Tile.depth_of_mem_outside outV]

/-- Nor do they make up another tile. -/
theorem canonical_parent_outside {t p : Tile} (hp : t.parent? = some p) :
    (ofList (p :: t.outside)).Canonical where
  antichain := antichain_parent_outside hp
  incomplete u := by
    have pos := u.depth_pos
    rw [Bool.eq_false_iff]
    intro complete
    obtain ⟨room, members⟩ := isComplete_iff.mp complete
    simp only [mem_parent_outside] at members
    by_cases depth : u.depth + 1 = t.depth
    · -- all four children lie outside of the parent, but only in the parent there is room for them
      have level := Tile.depth_of_parent? hp
      have outer : ∀ q, u.child q room ∈ t.outside := by
        intro q
        rcases members q with same | out
        · have := congrArg Tile.depth same
          rw [Tile.depth_child] at this
          omega
        · exact out
      have around := Tile.parent?_of_near_children (by omega) room fun q =>
        (Tile.near_iff_parent_or_outside hp).mpr (.inr (outer q))
      exact (Tile.mem_outside.mp (outer .northWest)).2 ((Tile.parent?_child ..).trans around.symm)
    · -- on any other level all four children would be the parent
      have only : ∀ q, u.child q room = p := by
        intro q
        rcases members q with same | out
        · exact same
        · exact absurd (Tile.depth_of_mem_outside out) depth
      cases Tile.child_inj.mp ((only .northWest).trans (only .northEast).symm)

/-- Below the first level an area of interest consists of the parent of the tile and the neighbours
outside of it. -/
theorem around_eq_parent_outside {t p : Tile} (hp : t.parent? = some p) :
    around t = ofList (p :: t.outside) := by
  have level := Tile.depth_of_parent? hp
  have bottom := t.depth_le
  refine (canonical_around t).eq_of_sameCover (canonical_parent_outside hp) fun c deepest => ?_
  rw [Bool.eq_iff_iff, covers_around_of_deepest deepest, covers_iff]
  simp only [Tile.near_iff_parent_or_outside hp, mem_parent_outside]
  constructor
  · rintro ⟨u, within | out, inside⟩
    · have around := (Tile.parent?_eq_some_iff_contains.mp within).2
      exact ⟨p, .inl rfl, Tile.contains_trans around inside⟩
    · exact ⟨u, .inr out, inside⟩
  · rintro ⟨u, rfl | out, inside⟩
    · obtain ⟨q, room, within⟩ := Tile.exists_child_contains inside (by omega)
      exact ⟨u.child q room, .inl (Tile.parent?_child u q room), within⟩
    · exact ⟨u, .inr out, inside⟩

/-- The four quadrants of the map. -/
def quadrantsOfMap : Area :=
  ofList (Quadrant.all.map fun q => Tile.ofQuadrants [q] Nat.one_pos (by decide : 1 ≤ maxDepth))

theorem mem_quadrantsOfMap {t : Tile} : t ∈ quadrantsOfMap ↔ t.depth = 1 := by
  rw [quadrantsOfMap, mem_ofList, List.mem_map]
  simp only [Quadrant.mem_all, true_and]
  constructor
  · rintro ⟨q, rfl⟩
    rfl
  · intro top
    rw [← Tile.length_quadrants, List.length_eq_one_iff] at top
    obtain ⟨q, path⟩ := top
    refine ⟨q, Tile.eq_iff_quadrants.mpr ?_⟩
    rw [Tile.quadrants_ofQuadrants, path]

/-- On the first level it consists of them. -/
theorem around_of_top {t : Tile} (top : t.depth = 1) : around t = quadrantsOfMap := by
  have canonical := canonical_around t
  refine ext_mem fun u => ?_
  rw [mem_quadrantsOfMap]
  constructor
  · intro mem
    -- the quadrant of the map around `u` is covered, and no member lies strictly inside
    have inside := Tile.ancestor_contains u 1 (by decide) u.depth_pos
    have level : (u.ancestor 1 (by decide) u.depth_pos).depth = t.depth := top.symm
    have covered := (covers_around_iff level).mpr (Tile.near_of_top top (level.trans top))
    rw [← canonical.antichain.eq_of_covers covered mem inside]
    rfl
  · intro depth
    have covered := (covers_around_iff (depth.trans top.symm)).mpr (Tile.near_of_top top depth)
    obtain ⟨m, mem, inside⟩ := covers_iff.mp covered
    have pos := m.depth_pos
    rwa [← Tile.eq_of_contains_of_depth_le inside (by omega)]

end Area

/-! ### How many members they have -/

/-- The number of members of the area around a tile. -/
def Tile.blockSize (t : Tile) : Nat :=
  if t.depth = 1 then 4 else if t.atPole then 3 else 6

/-- An area consists of the block around a tile, as far as it can be merged. -/
structure Area.IsBlockOf (a : Area) (t : Tile) : Prop where
  /-- Below the first level, of the parent of the tile and its neighbours outside of the parent. -/
  deep : 1 < t.depth → ∀ u, u ∈ a ↔
    t.parent? = some u ∨ (∃ h, t.neighbour h = some u) ∧ u.parent? ≠ t.parent?
  /-- On the first level, of the four quadrants of the map. -/
  top : t.depth = 1 → a.texts = ["0", "1", "2", "3"]
  size : a.size = t.blockSize

/-- The area of interest around a tile consists of its block. -/
theorem Area.isBlockOf_around (t : Tile) : (around t).IsBlockOf t where
  deep := by
    intro deep u
    obtain ⟨p, hp⟩ := Tile.exists_parent? deep
    rw [around_eq_parent_outside hp, mem_parent_outside, Tile.mem_outside, hp, Option.some_inj,
      eq_comm]
  top := by
    intro top
    rw [around_of_top top]
    decide +kernel
  size := by
    rcases t.top_or_deep with top | deep
    · rw [around_of_top top, Tile.blockSize, if_pos top]
      decide +kernel
    · obtain ⟨p, hp⟩ := Tile.exists_parent? deep
      have apart : (p :: t.outside).Nodup := by
        refine List.nodup_cons.mpr ⟨fun mem => ?_, Tile.nodup_outside deep⟩
        have := Tile.depth_of_mem_outside mem
        have := Tile.depth_of_parent? hp
        omega
      rw [around_eq_parent_outside hp, size_ofList apart, List.length_cons,
        Tile.length_outside deep, Tile.blockSize, if_neg (Nat.ne_of_gt deep)]
      split <;> rfl

namespace Tracker

/-- An accepted fix leads to a tile and the area around it. -/
theorem receive_ok {tr next : Tracker} {p : Position} {speed : Float} {c : Change}
    (h : tr.receive p speed = (.ok c, next)) :
    ∃ t, c = .between tr.area (.around t) ∧
      next = { tr with area := .around t, tile := some t } := by
  by_cases finite : p.isFinite = true
  · obtain ⟨_, t, -, -, -, placed⟩ := tr.receive_of_finite finite speed
    rw [placed] at h
    cases h
    exact ⟨t, rfl, rfl⟩
  · rw [tr.receive_of_not_finite (Bool.eq_false_iff.mpr finite) speed] at h
    cases h

theorem length_filters (tr : Tracker) :
    tr.filters.length = tr.settings.messageTypes.length * tr.area.size := by
  rw [filters, filtersFor, List.length_flatMap]
  simp only [Scheme.length_filters, List.map_const', List.sum_replicate_nat]

/-- **After every accepted fix a tracker holds a block.**  The area of interest around a tile below
the first level consists of the parent of the tile and of those neighbours that lie in other parents;
around a quadrant of the map it consists of all four.  So it has six members, three where the tile
lies at a pole, and four on the first level; and after an accepted fix a tracker has as many
filters, all of them different, for each type of message. -/
theorem holds_block :
    (∀ t, (Area.around t).IsBlockOf t) ∧
    ∀ (tr : Tracker) (p : Position) (speed : Float) (c : Change) (next : Tracker),
      tr.receive p speed = (.ok c, next) →
      ∃ t, next.tile = some t ∧ next.area.IsBlockOf t ∧
        next.filters.length = next.settings.messageTypes.length * t.blockSize ∧
        ∀ messageType, (next.scheme.filters messageType next.area).Nodup ∧
          (next.scheme.filters messageType next.area).length = t.blockSize := by
  refine ⟨Area.isBlockOf_around, fun tr p speed c next accepted => ?_⟩
  obtain ⟨t, -, rfl⟩ := receive_ok accepted
  have block := Area.isBlockOf_around t
  refine ⟨t, rfl, block, ?_, fun messageType => ⟨Scheme.nodup_filters .., ?_⟩⟩
  · rw [length_filters, block.size]
  · rw [Scheme.length_filters, block.size]

/-- The first fix of a tracker, at depth eighteen with three types of messages, and on the first
level, where the members are the same wherever the station is. -/
theorem holds_block_first_fix :
    (∃ c next t, (start .standard).receive ⟨43.6, 1.44⟩ 5.0 = (.ok c, next) ∧
      next.tile = some t ∧ t.depth = 18 ∧ next.area.IsBlockOf t ∧
      next.filters.length = 3 * t.blockSize) ∧
    ∃ c next, (start twoLevels).receive ⟨43.6, 1.44⟩ 30.0 = (.ok c, next) ∧
      next.area.texts = ["0", "1", "2", "3"] ∧ next.filters.length = 12 := by
  have finite : (⟨43.6, 1.44⟩ : Position).isFinite = true := by decide
  have slow : Settings.standard.depthForSpeed 5.0 = 18 := by decide +kernel
  have fast : twoLevels.depthForSpeed 30.0 = 1 := by decide +kernel
  constructor
  · obtain ⟨_, t, -, -, depth, accepted⟩ := (start .standard).receive_of_finite finite 5.0
    obtain ⟨u, placed, block, count, -⟩ := holds_block.2 _ _ _ _ _ accepted
    cases Option.some.inj placed
    exact ⟨_, _, t, accepted, rfl, depth.trans slow, block, count⟩
  · obtain ⟨_, t, -, -, depth, accepted⟩ := (start twoLevels).receive_of_finite finite 30.0
    obtain ⟨u, placed, block, count, -⟩ := holds_block.2 _ _ _ _ _ accepted
    cases Option.some.inj placed
    have top : t.depth = 1 := depth.trans fast
    refine ⟨_, _, accepted, block.top top, ?_⟩
    rw [count, Tile.blockSize, if_pos top]
    rfl

end Tracker

/-! ### Telling the tile from the area -/

namespace Area

theorem deepest?_eq_some_iff {a : Area} {d : Nat} :
    a.deepest? = some d ↔ (∃ t ∈ a, t.depth = d) ∧ ∀ t ∈ a, t.depth ≤ d := by
  rw [deepest?, List.max?_eq_some_iff, List.mem_map, List.forall_mem_map]
  exact Iff.rfl

/-- The deepest members of an area of interest are on the level of its tile. -/
theorem deepest?_around (t : Tile) : (around t).deepest? = some t.depth := by
  rw [deepest?_eq_some_iff]
  rcases t.top_or_deep with top | deep
  · simp only [around_of_top top, mem_quadrantsOfMap]
    exact ⟨⟨t, top, rfl⟩, fun u hu => Nat.le_of_eq (hu.trans top.symm)⟩
  · obtain ⟨p, hp⟩ := Tile.exists_parent? deep
    have level := Tile.depth_of_parent? hp
    simp only [around_eq_parent_outside hp, mem_parent_outside]
    constructor
    · obtain ⟨u, out⟩ : ∃ u, u ∈ t.outside := by
        refine List.exists_mem_of_length_pos ?_
        rw [Tile.length_outside deep]
        split <;> decide
      exact ⟨u, .inr out, Tile.depth_of_mem_outside out⟩
    · rintro u (rfl | out)
      · omega
      · exact Nat.le_of_eq (Tile.depth_of_mem_outside out)

/-- **The area of interest tells the tile**, below the first level. -/
theorem around_eq_around_iff {t u : Tile} :
    around t = around u ↔ t = u ∨ t.depth = 1 ∧ u.depth = 1 := by
  constructor
  · intro same
    have depth : t.depth = u.depth := by
      have := congrArg deepest? same
      rwa [deepest?_around, deepest?_around, Option.some_inj] at this
    rcases t.top_or_deep with top | deep
    · exact .inr ⟨top, depth ▸ top⟩
    · refine .inl (Tile.eq_of_near_iff deep fun v => ?_)
      constructor
      · intro near
        have level := near.depth_eq
        rw [← covers_around_iff level, same] at near
        exact (covers_around_iff (level.trans depth)).mp near
      · intro near
        have level := near.depth_eq
        rw [← covers_around_iff level, ← same] at near
        exact (covers_around_iff (level.trans depth.symm)).mp near
  · rintro (rfl | ⟨ht, hu⟩)
    · rfl
    · rw [around_of_top ht, around_of_top hu]

theorem around_ne_empty (t : Tile) : around t ≠ empty := by
  intro none
  have covered := (covers_around_iff rfl).mpr t.near_refl
  rw [none, covers_empty] at covered
  cases covered

end Area

namespace Tracker

/-- A tracker that follows its station has the area around its tile, and an empty one without. -/
theorem Follows.area_eq {s : Settings} {last : Option (Position × Float)} {tr : Tracker}
    (h : Follows s last tr) : tr.area = tr.tile.elim .empty .around := by
  cases last with
  | none =>
      obtain ⟨tile, area⟩ := h.idle rfl
      rw [tile, area]
      rfl
  | some fix =>
      obtain ⟨_, t, -, -, tile, -, -, -, area⟩ := h.placed fix.1 fix.2 rfl
      rw [tile, area]
      exact (Area.around_eq t).symm

/-- **A tracker changes when its tile does.**  After any run of events, an accepted fix gives an
empty change exactly when it leads to the last tile again, or from a quadrant of the map to another;
and where there was no tile the change is not empty.  So two trackers, or one at two times, have the
same area exactly when they have the same tile or both have quadrants of the map. -/
theorem change_isEmpty_iff_same_tile (s : Settings) (events : List Event) :
    (∀ (p : Position) (speed : Float) (c : Change) (next : Tracker),
      ((start s).run events).receive p speed = (.ok c, next) →
      ∃ t, next.tile = some t ∧
        (((start s).run events).tile = none → c.isEmpty = false) ∧
        ∀ last, ((start s).run events).tile = some last →
          (c.isEmpty = true ↔ t = last ∨ t.depth = 1 ∧ last.depth = 1)) ∧
    ∀ (s' : Settings) (events' : List Event) (t t' : Tile),
      ((start s).run events).tile = some t → ((start s').run events').tile = some t' →
      (((start s).run events).area = ((start s').run events').area ↔
        t = t' ∨ t.depth = 1 ∧ t'.depth = 1) := by
  have reached := ((follows_start s).run events).area_eq
  constructor
  · intro p speed c next accepted
    obtain ⟨t, rfl, rfl⟩ := receive_ok accepted
    refine ⟨t, rfl, fun idle => ?_, fun last placed => ?_⟩
    · rw [Bool.eq_false_iff, ne_eq, Change.isEmpty_between_iff, reached, idle]
      exact (Area.around_ne_empty t).symm
    · rw [Change.isEmpty_between_iff, reached, placed, eq_comm]
      exact Area.around_eq_around_iff
  · intro s' events' t t' placed placed'
    rw [reached, ((follows_start s').run events').area_eq, placed, placed']
    exact Area.around_eq_around_iff

/-- The same fix again changes nothing.  At a higher speed the position lies in a larger tile, and
that changes the area. -/
theorem change_isEmpty_iff_same_tile_faster :
    ∃ t u again larger,
      ((start .standard).run [.fix ⟨43.6, 1.44⟩ 5.0]).tile = some t ∧ t.depth = 18 ∧
      (((start .standard).run [.fix ⟨43.6, 1.44⟩ 5.0]).receive ⟨43.6, 1.44⟩ 5.0).1 = .ok again ∧
      again.isEmpty = true ∧
      (((start .standard).run [.fix ⟨43.6, 1.44⟩ 5.0]).receive ⟨43.6, 1.44⟩ 30.0).1 = .ok larger ∧
      larger.isEmpty = false ∧
      ((start .standard).run [.fix ⟨43.6, 1.44⟩ 5.0, .fix ⟨43.6, 1.44⟩ 30.0]).tile = some u ∧
      u.depth = 14 ∧
      ((start .standard).run [.fix ⟨43.6, 1.44⟩ 5.0]).area
        ≠ ((start .standard).run [.fix ⟨43.6, 1.44⟩ 5.0, .fix ⟨43.6, 1.44⟩ 30.0]).area := by
  have finite : (⟨43.6, 1.44⟩ : Position).isFinite = true := by decide
  have slow : Settings.standard.depthForSpeed 5.0 = 18 := by decide +kernel
  have fast : Settings.standard.depthForSpeed 30.0 = 14 := by decide +kernel
  have settings := ((follows_start .standard).run [.fix ⟨43.6, 1.44⟩ 5.0]).settings
  obtain ⟨tells, apart⟩ := change_isEmpty_iff_same_tile .standard [.fix ⟨43.6, 1.44⟩ 5.0]
  obtain ⟨c, t, cell, encoded, depth, first⟩ := (start .standard).receive_of_finite finite 5.0
  have placed : ((start .standard).run [.fix ⟨43.6, 1.44⟩ 5.0]).tile = some t :=
    congrArg (fun outcome => outcome.2.tile) first
  obtain ⟨c', t', cell', encoded', -, second⟩ :=
    ((start .standard).run [.fix ⟨43.6, 1.44⟩ 5.0]).receive_of_finite finite 5.0
  obtain ⟨-, u, -, -, depth', third⟩ :=
    ((start .standard).run [.fix ⟨43.6, 1.44⟩ 5.0]).receive_of_finite finite 30.0
  rw [settings] at cell' depth'
  -- the same position at the same depth has the same cell, and so the same tile
  cases cell.symm.trans cell'
  cases encoded.symm.trans encoded'
  have deep : t.depth = 18 := depth.trans slow
  have flat : u.depth = 14 := depth'.trans fast
  have other : t ≠ u := by
    rintro rfl
    omega
  obtain ⟨_, reached, -, same⟩ := tells _ _ _ _ second
  cases Option.some.inj reached
  obtain ⟨_, reached', -, moved⟩ := tells _ _ _ _ third
  cases Option.some.inj reached'
  have placed' : ((start .standard).run [.fix ⟨43.6, 1.44⟩ 5.0, .fix ⟨43.6, 1.44⟩ 30.0]).tile
      = some u := congrArg (fun outcome => outcome.2.tile) third
  refine ⟨t, u, _, _, placed, deep, congrArg Prod.fst second, (same t placed).mpr (.inl rfl),
    congrArg Prod.fst third, Bool.eq_false_iff.mpr fun none => ?_, placed', flat, fun areas => ?_⟩
  · rcases (moved t placed).mp none with together | ⟨top, -⟩
    · exact other together.symm
    · omega
  · rcases (apart .standard _ t u placed placed').mp areas with together | ⟨top, -⟩
    · exact other together
    · omega

end Tracker

end Geotile
