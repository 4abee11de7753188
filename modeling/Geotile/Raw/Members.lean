/-
**Sets of paths as ordered lists.**

An area is held in memory as a set of paths that is ordered by comparing them, and every search in
it goes by that order: a path that is equal to no member, because its word has a bit too many, is
not found where it belongs.  This module does on ordered lists of paths what `Geotile.Area` does on
areas.  It shifts and counts only through the operations on paths, so all that can go wrong is what
goes wrong there, and a loop that does not end.

Cutting and merging follow the loops that they model.  A tile that is cut up is followed down its
four parts, the last of them first, for no more levels than there are below it; and members are
merged one group after the other, each time the four parts removed and the whole put in.

Main definitions:

* `Geotile.Raw.Members`, `Geotile.Raw.Members.insert`, `Geotile.Raw.Members.remove`,
  `Geotile.Raw.Members.has` — ordered sets of paths;
* `Geotile.Raw.Members.parse`, `Geotile.Raw.Members.texts` — sets read from texts and written;
* `Geotile.Raw.Members.covers`, `Geotile.Raw.Members.within`, `Geotile.Raw.Members.hasBelow` — what
  they cover;
* `Geotile.Raw.Members.union`, `Geotile.Raw.Members.inter`, `Geotile.Raw.Members.diff`,
  `Geotile.Raw.Members.symmDiff` — combining them;
* `Geotile.Raw.Members.optimise` — their smallest form;
* `Geotile.Raw.Members.ring`, `Geotile.Raw.Path.split` — the paths around, and the parts of one.
-/

import Geotile.Raw.Path
import Geotile.Area.Algebra
import Geotile.Area.Split

set_option autoImplicit false

namespace Geotile

namespace Raw

open Checked

/-- A set of paths, in the order of their digits. -/
abbrev Members := List Path

end Raw

/-- The members of an area as they are held in memory. -/
def Area.raw (a : Area) : Raw.Members := a.tiles.map Tile.raw

namespace Raw.Members

open Checked

/-! ### Members -/

/-- The set with one more path. -/
def insert (p : Path) : Members → Checked Members
  | [] => pure [p]
  | q :: qs => do
    match ← p.compare q with
    | .lt => return p :: q :: qs
    | .eq => return q :: qs
    | .gt => return q :: (← insert p qs)

/-- The set without one path. -/
def remove (p : Path) : Members → Checked Members
  | [] => pure []
  | q :: qs => do
    match ← p.compare q with
    | .lt => return q :: qs
    | .eq => return qs
    | .gt => return q :: (← remove p qs)

/-- Whether a path is a member. -/
def has (p : Path) : Members → Checked Bool
  | [] => pure false
  | q :: qs => do
    match ← p.compare q with
    | .lt => return false
    | .eq => return true
    | .gt => has p qs

/-- The set with all paths of a list. -/
def insertEach (ps : List Path) (ms : Members) : Checked Members :=
  ps.foldlM (fun ms p => insert p ms) ms

/-- The set of the paths of a list. -/
def ofList (ps : List Path) : Checked Members := insertEach ps []

/-- The set of the paths that are read from texts; the first text that names none ends the
reading. -/
def parse : List String → Checked (Except PathError Members)
  | [] => pure (.ok [])
  | s :: ss => do
    match ← Path.parse s with
    | .error e => return .error e
    | .ok p =>
      match ← parse ss with
      | .error e => return .error e
      | .ok ms => return .ok (← insert p ms)

/-- The members as digit texts, in order. -/
def texts (ms : Members) : Checked (List String) := ms.mapM Path.text

/-! ### What they cover -/

/-- Whether a path lies inside some member. -/
def covers (ms : Members) (p : Path) : Checked Bool :=
  (List.range p.depth.toNat).anyM fun d => do has (← p.cut (.ofNat (d + 1))) ms

/-- The members inside a path: the stretch of members that starts at the path. -/
def within (ms : Members) (p : Path) : Checked (List Path) := do
  takeWhile p.contains (← dropWhile (fun q => return (← q.compare p) == .lt) ms)

/-- Whether some member lies inside a path and is not that path. -/
def hasBelow (ms : Members) (p : Path) : Checked Bool := do
  return (← ms.within p).any fun q => q ≠ p

/-! ### Combining them -/

/-- The members of both sets. -/
def union (a b : Members) : Checked Members := insertEach b a

/-- What both sets cover. -/
def inter (a b : Members) : Checked Members :=
  a.foldlM (fun out p => do
    if ← b.covers p then insert p out else insertEach (← b.within p) out) []

/-- A set with the pieces of a path that another set leaves uncovered, looked for on a number of
levels below the path. -/
def carve (cut : Members) : (levels : Nat) → Path → Members → Checked Members
  | levels, p, out => do
    if ← cut.covers p then return out
    match ← p.children? with
    | none => insert p out
    | some children =>
      if ← cut.hasBelow p then
        match levels with
        | 0 => .error .endless
        | n + 1 => children.reverse.foldlM (fun out child => carve cut n child out) out
      else insert p out

/-- What the first set covers and the second does not. -/
def diff (a b : Members) : Checked Members :=
  a.foldlM (fun out p => do
    if ← b.covers p then return out
    if ← b.hasBelow p then carve b maxDepth p out else insert p out) []

/-! ### The smallest form -/

/-- Whether a path lies inside the last one that was kept. -/
def coveredBy (p : Path) : (kept : Option Path) → Checked Bool
  | none => pure false
  | some k => k.contains p

/-- The members that do not lie inside the last one kept before them. -/
def dropCoveredAfter (kept : Option Path) : Members → Checked Members
  | [] => pure []
  | p :: ps => do
    if ← coveredBy p kept then dropCoveredAfter kept ps
    else return p :: (← dropCoveredAfter (some p) ps)

/-- Whether the four paths one level below a path are all members. -/
def isComplete (ms : Members) (p : Path) : Checked Bool := do
  match ← p.children? with
  | none => return false
  | some children => children.allM fun child => has child ms

/-- The path that four members of a level make up, given the first of them. -/
def mergedBy? (ms : Members) (level : UInt8) (p : Path) : Checked (Option Path) := do
  if p.depth ≠ level then return none
  if (← p.digit? (← minus level 1)) ≠ some 0 then return none
  match ← p.parent? with
  | none => return none
  | some parent => return if ← ms.isComplete parent then some parent else none

/-- The set with a path in place of the four paths one level below it. -/
def merge (ms : Members) (parent : Path) : Checked Members := do
  match ← parent.children? with
  | none => insert parent ms
  | some children => insert parent (← children.foldlM (fun ms child => remove child ms) ms)

/-- Each four members of one level that make up a path replaced by it, and whether there are any. -/
def mergeAt (level : UInt8) (ms : Members) : Checked (Members × Bool) := do
  let parents := (← ms.mapM (ms.mergedBy? level)).filterMap id
  return (← parents.foldlM merge ms, !parents.isEmpty)

/-- Merging on every level from the given one up to the second, and whether anything is merged. -/
def mergeFrom : (level : Nat) → Members → Checked (Members × Bool)
  | 0, ms | 1, ms => pure (ms, false)
  | n + 2, ms => do
    let (next, merged) ← mergeAt (.ofNat (n + 2)) ms
    let (last, more) ← mergeFrom (n + 1) next
    return (last, merged || more)

/-- Merging on every level from the deepest one up. -/
def mergeSiblings (ms : Members) : Checked (Members × Bool) :=
  mergeFrom (((ms.map fun p => p.depth.toNat).max?).getD 0) ms

/-- A number of rounds at most, up to the first in which no member is dropped and none merged. -/
def settle : (rounds : Nat) → Members → Checked Members
  | 0, _ => .error .endless
  | n + 1, ms => do
    let kept ← dropCoveredAfter none ms
    let (next, merged) ← mergeSiblings kept
    if kept.length = ms.length && !merged then return next
    settle n next

/-- The smallest set that covers the same; each round but the last leaves fewer members. -/
def optimise (ms : Members) : Checked Members := settle (ms.length + 1) ms

/-- What one of two sets covers and the other does not, in its smallest form. -/
def symmDiff (a b : Members) : Checked Members := do
  optimise (← diff (← union a b) (← inter a b))

/-! ### The paths around -/

/-- What a neighbour in a heading contributes to the ring around a set at a depth. -/
def ringPiece (ms : Members) (depth : UInt8) (h : Heading) (n : Path) : Checked (List Path) := do
  if ← ms.covers n then return []
  match Ord.compare depth n.depth with
  | .eq => return [n]
  | .lt => return [← n.shorten (.ofNat depth.toNat)]
  | .gt => Checked.filter (fun p => return !(← ms.covers p)) (← n.edge h depth)

/-- The paths around a set at a depth, the depth moved into the levels of the tree. -/
def ring (ms : Members) (depth : UInt8) : Checked Members :=
  let last := UInt8.ofNat maxDepth
  let depth := if depth < 1 then 1 else if last < depth then last else depth
  ms.foldlM (fun out p => do
    (← p.presentNeighbours).foldlM (fun out (h, n) => do
      insertEach (← ms.ringPiece depth h n) out) out) []

end Raw.Members

namespace Raw.Path

open Checked

/-! ### The parts of one path -/

/-- The parts of a path at a depth. -/
def splitTo (p : Path) (target : Nat) : Checked (Except String Members) := do
  if target < p.depth.toNat then
    return .error <| "Invalid depth request: " ++ ("cannot split " ++ (← p.text) ++ " (depth "
      ++ toString p.depth.toNat ++ ") to shallower depth " ++ toString target)
  if maxDepth < target then return .error (SplitError.tooDeep target).message
  return .ok (← Members.ofList (← p.descendants (.ofNat target)))

/-- The parts of a path, at a depth or a number of levels further down; exactly one of the two is
to be given. -/
def split (p : Path) : (target extra : Option UInt8) → Checked (Except String Members)
  | some _, some _ => pure (.error SplitError.both.message)
  | none, none => pure (.error SplitError.neither.message)
  | some target, none => p.splitTo target.toNat
  | none, some extra =>
    if extra = 0 then pure (.error SplitError.noLevels.message)
    else p.splitTo (p.depth.toNat + extra.toNat)

end Raw.Path

end Geotile
