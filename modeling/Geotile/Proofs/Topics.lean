/-
**Topics read back.**

A topic is the leading levels of its scheme, a type, a source and the digits of a tile, joined by
separators.  Reading takes off the leading levels as they stand, whatever separators they hold, and
cuts the rest.  When neither the type nor the source holds a separator the pieces are those that
were joined, and since the digits are all that is left, nothing but a published topic is read.

A type may hold separators and wildcards of its own.  Even then the filters for different types and
tiles are different: no digit is a `+`, so the last `+` of a filter shows where the type ends.

Main results:

* `Geotile.Scheme.toList_publish`, `Geotile.Scheme.toList_filter` — a topic and a filter as joined
  levels;
* `Geotile.Scheme.split_publish`, `Geotile.Scheme.split_filter` — and cut into levels again;
* `Geotile.Scheme.filter_inj` — different filters for different types and tiles;
* `Geotile.Scheme.readLevels?_eq_some_iff` — what levels are read as;
* `Geotile.Scheme.read?_publish_eq_some_iff`, `Geotile.Scheme.read?_publish_eq_none` — when a
  published topic is read back, and when it is not read at all;
* `Geotile.Scheme.reads_exactly_published` — **reading accepts exactly what is published**, with a
  type and a source that are one level each and not empty.
-/

import Geotile.Proofs.Digits

set_option autoImplicit false

namespace Geotile

/-- The digits with separators between them are the joined levels. -/
theorem Tile.toList_joined (t : Tile) : (t.joined "/").toList = Text.join ['/'] t.levels := by
  rw [joined, String.toList_ofList]
  rfl

theorem Tile.separator_notMem_levels (t : Tile) : ∀ level ∈ t.levels, '/' ∉ level :=
  fun _ => notMem_of_mem_levels (by decide)

/-- A tile is named by its joined levels. -/
theorem Tile.eq_of_join_levels {t u : Tile}
    (h : Text.join ['/'] t.levels = Text.join ['/'] u.levels) : t = u := by
  have cut := congrArg (Text.split '/') h
  rw [Text.split_join '/' t.levels_ne_nil t.separator_notMem_levels,
    Text.split_join '/' u.levels_ne_nil u.separator_notMem_levels] at cut
  rw [← digits_inj, ← flatten_levels, cut, flatten_levels]

namespace Scheme

/-! ### What a topic consists of -/

/-- After the leading levels of a topic come a type, a source and the digits of a tile. -/
theorem toList_publish (s : Scheme) (messageType source : String) (t : Tile) :
    (s.publish messageType source t).toList
      = s.base.toList ++ '/' ::
        Text.join ['/'] (messageType.toList :: source.toList :: t.levels) := by
  have sep : "/".toList = ['/'] := rfl
  rw [Text.join_cons _ _ (by simp), Text.join_cons _ _ t.levels_ne_nil]
  simp only [publish, String.toList_append, sep, Tile.toList_joined, List.append_assoc,
    List.cons_append, List.nil_append]

/-- After the leading levels of a filter come a type, any one source, the digits of a tile, and
whatever goes on from there. -/
theorem toList_filter (s : Scheme) (messageType : String) (t : Tile) :
    (s.filter messageType t).toList
      = s.base.toList ++ '/' ::
        Text.join ['/'] (messageType.toList :: ['+'] :: (t.levels ++ [['#']])) := by
  have sep : "/".toList = ['/'] := rfl
  have anySource : "/+/".toList = ['/', '+', '/'] := rfl
  have below : "/#".toList = ['/', '#'] := rfl
  rw [Text.join_cons _ _ (by simp), Text.join_cons _ _ (by simp),
    Text.join_append _ t.levels_ne_nil (by simp)]
  simp only [filter, String.toList_append, sep, anySource, below, Tile.toList_joined, Text.join,
    List.append_assoc, List.cons_append, List.nil_append]

/-- What comes after the leading levels has, after the levels of the type, those of the source and
of the tile. -/
theorem split_join_parts (messageType : List Char) {source : List Char} (oneSource : '/' ∉ source)
    (t : Tile) : Text.split '/' (Text.join ['/'] (messageType :: source :: t.levels))
      = Text.split '/' messageType ++ source :: t.levels := by
  rw [Text.join_cons _ _ (by simp), List.append_assoc, List.singleton_append, Text.split_append,
    Text.split_join '/' (by simp)]
  exact List.forall_mem_cons.mpr ⟨oneSource, t.separator_notMem_levels⟩

/-- Cut at its separators, a topic has the levels that were published. -/
theorem split_publish (s : Scheme) {messageType source : String}
    (oneType : '/' ∉ messageType.toList) (oneSource : '/' ∉ source.toList) (t : Tile) :
    Text.split '/' (s.publish messageType source t).toList
      = Text.split '/' s.base.toList ++ messageType.toList :: source.toList :: t.levels := by
  rw [toList_publish, Text.split_append, split_join_parts _ oneSource,
    Text.split_of_notMem '/' oneType, List.singleton_append]

theorem split_filter (s : Scheme) {messageType : String} (oneType : '/' ∉ messageType.toList)
    (t : Tile) :
    Text.split '/' (s.filter messageType t).toList
      = Text.split '/' s.base.toList ++ messageType.toList :: ['+'] :: (t.levels ++ [['#']]) := by
  rw [toList_filter, Text.split_append, Text.split_join '/' (by simp)]
  simp only [List.forall_mem_cons, List.forall_mem_append]
  exact ⟨oneType, by decide, t.separator_notMem_levels, by decide, by simp⟩

/-! ### Different filters -/

/-- The last `+` of a filter stands where any source is accepted, since no digit is one. -/
theorem split_plus_filter (s : Scheme) (messageType : String) (t : Tile) :
    Text.split '+' (s.filter messageType t).toList
      = Text.split '+' (s.base.toList ++ '/' :: (messageType.toList ++ ['/']))
        ++ ['/' :: (Text.join ['/'] t.levels ++ ['/', '#'])] := by
  have digits : '+' ∉ '/' :: (Text.join ['/'] t.levels ++ ['/', '#']) := by
    have joined : '+' ∉ Text.join ['/'] t.levels :=
      Text.notMem_join (by decide) fun _ => Tile.notMem_of_mem_levels (by decide)
    simp [joined]
  rw [← Text.split_of_notMem '+' digits, ← Text.split_append, toList_filter,
    Text.join_cons _ _ (by simp), Text.join_cons _ _ (by simp),
    Text.join_append _ t.levels_ne_nil (by simp)]
  simp [Text.join]

/-- Filters for different types or tiles are different, whatever separators and wildcards the types
hold. -/
theorem filter_inj (s : Scheme) {messageType messageType' : String} {t t' : Tile} :
    s.filter messageType t = s.filter messageType' t' ↔ messageType = messageType' ∧ t = t' := by
  constructor
  · intro h
    have cut := congrArg (fun f : String => Text.split '+' f.toList) h
    simp only [split_plus_filter] at cut
    obtain ⟨front, back⟩ := List.append_inj' cut rfl
    constructor
    · have joined := congrArg (Text.join ['+']) front
      rw [Text.join_split, Text.join_split] at joined
      simpa [String.toList_inj] using joined
    · refine Tile.eq_of_join_levels ?_
      simpa using back
  · rintro ⟨rfl, rfl⟩
    rfl

/-! ### Reading -/

/-- Levels are read as a type, a source and a tile exactly when they are those, the first two not
empty. -/
theorem readLevels?_eq_some_iff {levels : List (List Char)} {r : Topic} :
    readLevels? levels = some r ↔ r.messageType ≠ "" ∧ r.source ≠ "" ∧
      levels = r.messageType.toList :: r.source.toList :: r.tile.levels := by
  constructor
  · intro h
    unfold readLevels? at h
    split at h
    · next messageType source levels =>
      split at h
      · cases h
      · next full =>
        obtain ⟨t, read, rfl⟩ := Option.map_eq_some_iff.mp h
        rw [Bool.or_eq_true, not_or, List.isEmpty_iff, List.isEmpty_iff] at full
        rw [tileOfLevels?_eq_some_iff.mp read]
        simpa [← String.toList_inj] using full
    · cases h
  · obtain ⟨messageType, source, t⟩ := r
    rintro ⟨someType, someSource, rfl⟩
    rw [ne_eq, ← String.toList_inj] at someType someSource
    rw [readLevels?, if_neg, tileOfLevels?_eq_some_iff.mpr rfl]
    · simp
    · rw [Bool.or_eq_true, not_or, List.isEmpty_iff, List.isEmpty_iff]
      exact ⟨someType, someSource⟩

/-- The leading levels of a published topic are taken off whole. -/
theorem read?_publish (s : Scheme) (messageType source : String) (t : Tile) :
    s.read? (s.publish messageType source t) = readLevels?
      (Text.split '/' (Text.join ['/'] (messageType.toList :: source.toList :: t.levels))) := by
  have base := Text.after?_eq_some_iff.mpr (s.toList_publish messageType source t)
  have sep := Text.after?_eq_some_iff.mpr (List.singleton_append (x := '/')
    (l := Text.join ['/'] (messageType.toList :: source.toList :: t.levels))).symm
  simp only [read?, base, Option.bind_some]
  rw [sep, Option.bind_some]

/-- A published topic is read back exactly when its type and its source are levels that are not
empty. -/
theorem read?_publish_eq_some_iff (s : Scheme) {messageType source : String} {t : Tile} :
    s.read? (s.publish messageType source t) = some ⟨messageType, source, t⟩ ↔
      messageType ≠ "" ∧ source ≠ "" ∧ '/' ∉ messageType.toList ∧ '/' ∉ source.toList := by
  rw [read?_publish, readLevels?_eq_some_iff, Text.split_eq_iff]
  constructor
  · rintro ⟨someType, someSource, -, free, -⟩
    exact ⟨someType, someSource, free _ (by simp), free _ (by simp)⟩
  · rintro ⟨someType, someSource, oneType, oneSource⟩
    refine ⟨someType, someSource, by simp, ?_, rfl⟩
    simp only [List.forall_mem_cons]
    exact ⟨oneType, oneSource, t.separator_notMem_levels⟩

/-- When the type holds a separator, the source is among the levels that should be digits. -/
theorem read?_publish_eq_none (s : Scheme) {messageType source : String}
    (parted : '/' ∈ messageType.toList) (oneSource : '/' ∉ source.toList)
    (long : Text.byteLength source.toList ≠ 1) (t : Tile) :
    s.read? (s.publish messageType source t) = none := by
  rw [read?_publish, split_join_parts _ oneSource, Option.eq_none_iff_forall_ne_some]
  intro r read
  obtain ⟨-, -, levels⟩ := readLevels?_eq_some_iff.mp read
  cases pieces : Text.split '/' messageType.toList with
  | nil => exact Text.split_ne_nil _ _ pieces
  | cons first rest =>
      cases rest with
      | nil =>
          -- a text that is cut into one piece holds no separator
          obtain ⟨-, free, whole⟩ := Text.split_eq_iff.mp pieces
          rw [whole] at parted
          exact free first (List.mem_singleton_self _) parted
      | cons second rest =>
          rw [pieces] at levels
          injection levels with _ levels
          injection levels with _ levels
          exact long (Tile.byteLength_of_mem_levels (t := r.tile) (levels ▸ by simp))

/-- **Reading accepts exactly what is published.**  A topic of a scheme says a type, a source and a
tile exactly when it is what is published for them, and the type and the source are levels that
are not empty.  So what is published for such parts is read back, what is read is published the
same way again, and nothing else is read. -/
theorem reads_exactly_published (s : Scheme) (topic : String) (r : Topic) :
    s.read? topic = some r ↔
      r.messageType ≠ "" ∧ r.source ≠ "" ∧ '/' ∉ r.messageType.toList ∧ '/' ∉ r.source.toList ∧
        topic = s.publish r.messageType r.source r.tile := by
  have digits : ∀ level ∈ r.tile.levels, '/' ∉ level := fun _ =>
    Tile.notMem_of_mem_levels (by decide)
  rw [← String.toList_inj, toList_publish]
  simp only [read?, Option.bind_eq_some_iff, Text.after?_eq_some_iff, readLevels?_eq_some_iff,
    Text.split_eq_iff]
  constructor
  · rintro ⟨rest, whole, levels, rfl, someType, someSource, -, free, rfl⟩
    exact ⟨someType, someSource, free _ (by simp), free _ (by simp), whole⟩
  · rintro ⟨someType, someSource, oneType, oneSource, whole⟩
    refine ⟨_, whole, _, rfl, someType, someSource, by simp, ?_, rfl⟩
    simp only [List.forall_mem_cons]
    exact ⟨oneType, oneSource, digits⟩

end Scheme

end Geotile
