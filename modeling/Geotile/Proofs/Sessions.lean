/-
**Whatever is done, paths fit their depths.**

A path in memory is a word and a byte, and equality, hashing and order look at nothing else.  They
are right only as long as the word has no bit above the levels that the byte counts.  Most of the
operations see to that, but some only if their caller keeps to what they expect, and at thirty-two
levels the word is full.

A session is a run of steps in any order: paths are read from texts, numbers, cells and positions;
from paths others are made; paths are put together to areas; and areas are combined, brought to
their smallest form, surrounded and taken apart.  Every step may use all that came before it.  A run
on words and bytes with all shifts, sums and differences checked never ends in a fault, and it makes
word for word the paths of the tiles that the same run on tiles makes.  Hence each path fits its
depth, and two of them are equal exactly when their digits are.

Main definitions:

* `Geotile.Step`, `Geotile.Session` — the steps, and the paths and areas made so far;
* `Geotile.Step.outcome`, `Geotile.Raw.outcome` — what a step makes, on tiles and on paths;
* `Geotile.Session.run` — a run of steps.

Main results:

* `Geotile.Raw.outcome_eq`, `Geotile.Raw.advance_eq` — one step;
* `Geotile.Raw.run_eq` — **a run never faults, and does what it does on tiles**;
* `Geotile.Raw.run_fits` — **all paths of a run fit their depths**.
-/

import Geotile.Proofs.Editing
import Geotile.Proofs.RawOptimise

set_option autoImplicit false

namespace Geotile

/-! ### Steps and sessions -/

/-- What can be done with paths and areas. -/
inductive Step (P R : Type) where
  /-- A path is read from the text of its digits. -/
  | parse (s : String)
  /-- A path is read from the numbers of its quadrants. -/
  | ofNumbers (numbers : List UInt8)
  /-- A path is read from a cell. -/
  | ofCell (c : Raw.Cell)
  /-- A path is read from a position and a depth. -/
  | atPosition (p : Position) (depth : UInt8)
  /-- One level is taken off a path. -/
  | parent (p : P)
  /-- A path is shortened as a selector asks. -/
  | shorten (p : P) (selector : Int64)
  /-- The four paths one level below a path are made. -/
  | children (p : P)
  /-- A path is moved in a heading. -/
  | neighbour (p : P) (h : Heading)
  /-- A path is split, to a depth or by a number of levels. -/
  | split (p : P) (target extra : Option UInt8)
  /-- Paths are put together to an area. -/
  | collect (ps : List P)
  /-- The members of an area are taken out of it. -/
  | members (r : R)
  /-- A path is added to an area. -/
  | insert (p : P) (r : R)
  /-- A member is taken away from an area. -/
  | remove (p : P) (r : R)
  /-- Two areas are combined. -/
  | combine (op : Area.Combination) (r s : R)
  /-- An area is brought to its smallest form. -/
  | optimise (r : R)
  /-- The ring around an area is made, at a depth. -/
  | ring (r : R) (depth : UInt8)

/-- The paths and the areas that have been made. -/
structure Session (P R : Type) where
  /-- The paths, the first one made first. -/
  paths : List P
  /-- The areas, the first one made first. -/
  areas : List R

namespace Session

variable {P P' R R' : Type}

/-- The session in which nothing has been made. -/
def empty : Session P R := ⟨[], []⟩

/-- A session of paths only. -/
def ofPaths (ps : List P) : Session P R := ⟨ps, []⟩

/-- A session of areas only. -/
def ofAreas (rs : List R) : Session P R := ⟨[], rs⟩

/-- A session continued by another. -/
def append (s t : Session P R) : Session P R := ⟨s.paths ++ t.paths, s.areas ++ t.areas⟩

/-- A session with each path and each area replaced. -/
def map (f : P → P') (g : R → R') (s : Session P R) : Session P' R' :=
  ⟨s.paths.map f, s.areas.map g⟩

end Session

namespace Step

variable {P P' R R' : Type}

/-- A step with each path and each area replaced. -/
def map (f : P → P') (g : R → R') : Step P R → Step P' R'
  | parse s => parse s
  | ofNumbers numbers => ofNumbers numbers
  | ofCell c => ofCell c
  | atPosition p depth => atPosition p depth
  | parent p => parent (f p)
  | shorten p selector => shorten (f p) selector
  | children p => children (f p)
  | neighbour p h => neighbour (f p) h
  | split p target extra => split (f p) target extra
  | collect ps => collect (ps.map f)
  | members r => members (g r)
  | insert p r => insert (f p) (g r)
  | remove p r => remove (f p) (g r)
  | combine op r s => combine op (g r) (g s)
  | optimise r => optimise (g r)
  | ring r depth => ring (g r) depth

/-- A step on the paths and areas with given numbers, as a step on those of a session; there is none
when a number is too large. -/
def resolve (s : Session P R) : Step Nat Nat → Option (Step P R)
  | parse t => some (parse t)
  | ofNumbers numbers => some (ofNumbers numbers)
  | ofCell c => some (ofCell c)
  | atPosition p depth => some (atPosition p depth)
  | parent i => s.paths[i]?.map parent
  | shorten i selector => s.paths[i]?.map fun p => shorten p selector
  | children i => s.paths[i]?.map children
  | neighbour i h => s.paths[i]?.map fun p => neighbour p h
  | split i target extra => s.paths[i]?.map fun p => split p target extra
  | collect is => some (collect (is.filterMap fun i => s.paths[i]?))
  | members i => s.areas[i]?.map members
  | insert i j => s.paths[i]?.bind fun p => s.areas[j]?.map fun r => insert p r
  | remove i j => s.paths[i]?.bind fun p => s.areas[j]?.map fun r => remove p r
  | combine op i j => s.areas[i]?.bind fun r => s.areas[j]?.map fun r' => combine op r r'
  | optimise i => s.areas[i]?.map optimise
  | ring i depth => s.areas[i]?.map fun r => ring r depth

end Step

namespace Session

variable {P R : Type} {m : Type → Type} [Monad m]

/-- A session after a step, given what a step makes. -/
def advance (outcome : Step P R → m (Session P R)) (s : Session P R) (x : Step Nat Nat) :
    m (Session P R) :=
  match x.resolve s with
  | none => pure s
  | some y => do return s.append (← outcome y)

/-- The session that a list of steps leads to. -/
def run (outcome : Step P R → m (Session P R)) (steps : List (Step Nat Nat)) : m (Session P R) :=
  steps.foldlM (advance outcome) empty

end Session

/-! ### What a step makes -/

/-- What a step on tiles and areas makes; where an operation gives nothing, it is nothing. -/
def Step.outcome : Step Tile Area → Session Tile Area
  | parse s => .ofPaths (Tile.parse s).toOption.toList
  | ofNumbers numbers => .ofPaths (Tile.ofNumbers (numbers.map UInt8.toNat)).toOption.toList
  | ofCell c => .ofPaths (Tile.ofCell c.cell).toOption.toList
  | atPosition p depth => .ofPaths (Tile.atPosition p depth.toNat).toOption.toList
  | parent t => .ofPaths t.parent?.toList
  | shorten t selector => .ofPaths [t.shorten selector.toInt]
  | children t => .ofPaths (t.children?.getD [])
  | neighbour t h => .ofPaths (t.neighbour h).toList
  | split t target extra =>
    .ofAreas (t.split (target.map UInt8.toNat) (extra.map UInt8.toNat)).toOption.toList
  | collect ts => .ofAreas [.ofList ts]
  | members a => .ofPaths a.tiles
  | insert t a => .ofAreas [a.insert t]
  | remove t a => .ofAreas [a.erase t]
  | combine op a b => .ofAreas [op.apply a b]
  | optimise a => .ofAreas [a.optimise]
  | ring a depth => .ofAreas [a.ring depth.toNat]

namespace Raw

open Checked

/-- Two sets of paths combined. -/
def combine : Area.Combination → Members → Members → Checked Members
  | .union => Members.union
  | .inter => Members.inter
  | .diff => Members.diff
  | .symmDiff => Members.symmDiff

/-- What a step on paths and their sets makes. -/
def outcome : Step Path Members → Checked (Session Path Members)
  | .parse s => do return .ofPaths (← Path.parse s).toOption.toList
  | .ofNumbers numbers => do return .ofPaths (← Path.ofNumbers numbers).toOption.toList
  | .ofCell c => do return .ofPaths (← Path.ofCell c).toOption.toList
  | .atPosition p depth => do
    return .ofPaths ((← Path.atPosition p depth).toOption.bind Except.toOption).toList
  | .parent p => do return .ofPaths (← p.parent?).toList
  | .shorten p selector => do return .ofPaths [← p.shorten selector]
  | .children p => do return .ofPaths ((← p.children?).getD [])
  | .neighbour p h => do return .ofPaths (← p.neighbour h).toList
  | .split p target extra => do return .ofAreas (← p.split target extra).toOption.toList
  | .collect ps => do return .ofAreas [← Members.ofList ps]
  | .members ms => return .ofPaths ms
  | .insert p ms => do return .ofAreas [← Members.insert p ms]
  | .remove p ms => do return .ofAreas [← Members.remove p ms]
  | .combine op a b => do return .ofAreas [← combine op a b]
  | .optimise ms => do return .ofAreas [← ms.optimise]
  | .ring ms depth => do return .ofAreas [← ms.ring depth]

theorem combine_raw (op : Area.Combination) (a b : Area) :
    combine op a.raw b.raw = .ok (op.apply a b).raw := by
  cases op with
  | union => exact Members.union_raw a b
  | inter => exact Members.inter_raw a b
  | diff => exact Members.diff_raw a b
  | symmDiff => exact Members.symmDiff_raw a b

/-- The session on tiles as it is held in memory. -/
def held (s : Session Tile Area) : Session Path Members := s.map Tile.raw Area.raw

/-- A step on words and bytes ends without a fault in what it makes of the tiles. -/
theorem outcome_eq (x : Step Tile Area) :
    outcome (x.map Tile.raw Area.raw) = .ok (held x.outcome) := by
  cases x with
  | parse s =>
      rw [Step.map, outcome, Path.parse_eq, Step.outcome]
      cases Tile.parse s <;> rfl
  | ofNumbers numbers =>
      rw [Step.map, outcome, Path.ofNumbers_eq, Step.outcome]
      cases Tile.ofNumbers (numbers.map UInt8.toNat) <;> rfl
  | ofCell c =>
      rw [Step.map, outcome, Path.ofCell_eq, Step.outcome]
      cases Tile.ofCell c.cell <;> rfl
  | atPosition p depth =>
      rw [Step.map, outcome, Path.atPosition_eq, Step.outcome]
      cases Tile.atPosition p depth.toNat <;> rfl
  | parent t =>
      rw [Step.map, outcome, Path.parent?_eq, Step.outcome]
      cases t.parent? <;> rfl
  | shorten t selector =>
      rw [Step.map, outcome, Path.shorten_eq, Step.outcome]
      rfl
  | children t =>
      rw [Step.map, outcome, Path.children?_eq, Step.outcome]
      cases t.children? <;> rfl
  | neighbour t h =>
      rw [Step.map, outcome, Path.neighbour_eq, Step.outcome]
      cases t.neighbour h <;> rfl
  | split t target extra =>
      rw [Step.map, outcome, Path.split_eq, Step.outcome]
      cases t.split (target.map UInt8.toNat) (extra.map UInt8.toNat) <;> rfl
  | collect ts =>
      rw [Step.map, outcome, Members.ofList_raw, Step.outcome]
      rfl
  | members a => rfl
  | insert t a =>
      rw [Step.map, outcome, Members.insert_raw, Step.outcome]
      rfl
  | remove t a =>
      rw [Step.map, outcome, Members.remove_raw, Step.outcome]
      rfl
  | combine op a b =>
      rw [Step.map, outcome, combine_raw, Step.outcome]
      rfl
  | optimise a =>
      rw [Step.map, outcome, Members.optimise_raw, Step.outcome]
      rfl
  | ring a depth =>
      rw [Step.map, outcome, Members.ring_raw, Step.outcome]
      rfl

/-! ### Runs -/

/-- A step finds the same places in a session as in what it is held as. -/
theorem resolve_held (s : Session Tile Area) (x : Step Nat Nat) :
    x.resolve (held s) = (x.resolve s).map (Step.map Tile.raw Area.raw) := by
  cases x <;> simp [Step.resolve, held, Session.map, Step.map, Option.map_map, Function.comp_def,
    Option.bind_map, Option.map_bind, List.map_filterMap]

theorem held_append (s t : Session Tile Area) :
    held (s.append t) = (held s).append (held t) := by
  simp [held, Session.map, Session.append]

theorem advance_eq (s : Session Tile Area) (x : Step Nat Nat) :
    Session.advance outcome (held s) x
      = .ok (held (Session.advance (m := Id) Step.outcome s x)) := by
  rw [Session.advance, Session.advance, resolve_held]
  cases x.resolve s with
  | none => rfl
  | some y =>
      dsimp only [Option.map_some]
      rw [outcome_eq, ok_bind]
      exact congrArg Except.ok (held_append s y.outcome).symm

/-- **A run never faults, and does what it does on tiles.** -/
theorem run_eq (steps : List (Step Nat Nat)) :
    Session.run outcome steps = .ok (held (Session.run (m := Id) Step.outcome steps)) := by
  have plain : Session.run (m := Id) Step.outcome steps
      = steps.foldl (Session.advance (m := Id) Step.outcome) Session.empty := List.idRun_foldlM ..
  rw [plain]
  exact foldlM_eq (g := held) (fun s x _ => advance_eq s x) Session.empty

/-! ### Paths that fit -/

/-- All paths of a session, those in areas included. -/
def obtained (s : Session Path Members) : List Path := s.paths ++ s.areas.flatten

/-- What the hash of a path is computed from. -/
def Path.hashed (p : Path) : UInt64 × UInt8 := (p.bits, p.depth)

theorem exists_tile_of_mem_obtained {s : Session Tile Area} {p : Path} (h : p ∈ obtained (held s)) :
    ∃ t : Tile, p = t.raw := by
  simp only [obtained, held, Session.map, List.mem_append, List.mem_map, List.mem_flatten] at h
  rcases h with ⟨t, -, rfl⟩ | ⟨_, ⟨a, -, rfl⟩, mem⟩
  · exact ⟨t, rfl⟩
  · obtain ⟨t, -, rfl⟩ := List.mem_map.mp mem
    exact ⟨t, rfl⟩

theorem raw_eq_iff_text {t u : Tile} : t.raw = u.raw ↔ t.text = u.text := by
  rw [Tile.raw_inj, Tile.text_inj]

theorem Path.hashed_inj {p q : Path} : p.hashed = q.hashed ↔ p = q := by
  cases p
  cases q
  simp [Path.hashed]

/-- **All paths of a run fit their depths.**  However paths and areas are made from one another, the
run ends without a fault: no word is shifted by its width, no set bit is shifted out at its top, and
no depth goes below zero.  It makes what the same run on tiles makes.  Every path that has been
made, on its own or in an area, has between one and thirty-two levels and a word that has no bit
above them.  So two of them are equal, and are computed into the same hash, exactly when they are
written with the same digits. -/
theorem run_fits (steps : List (Step Nat Nat)) :
    ∃ s : Session Path Members, Session.run outcome steps = .ok s ∧
      s = held (Session.run (m := Id) Step.outcome steps) ∧
      (∀ p ∈ obtained s, 1 ≤ p.depth.toNat ∧ p.depth.toNat ≤ 32 ∧
        p.bits.toNat < 4 ^ p.depth.toNat) ∧
      ∀ p ∈ obtained s, ∀ q ∈ obtained s, ∃ x y, p.text = .ok x ∧ q.text = .ok y ∧
        (p = q ↔ x = y) ∧ (p.hashed = q.hashed ↔ x = y) := by
  refine ⟨_, run_eq steps, rfl, fun p hp => ?_, fun p hp q hq => ?_⟩
  · obtain ⟨t, rfl⟩ := exists_tile_of_mem_obtained hp
    have fits := t.code_lt
    rw [← Packed.two_pow_eq_tileCount] at fits
    rw [Tile.toNat_depth_raw, show 4 = 2 ^ 2 from rfl, ← Nat.pow_mul]
    exact ⟨t.depth_pos, t.depth_le, fits⟩
  · obtain ⟨t, rfl⟩ := exists_tile_of_mem_obtained hp
    obtain ⟨u, rfl⟩ := exists_tile_of_mem_obtained hq
    refine ⟨_, _, Path.text_eq t, Path.text_eq u, raw_eq_iff_text, ?_⟩
    rw [Path.hashed_inj, raw_eq_iff_text]

end Raw

end Geotile
