/-
**Topics of messages that are spread over the map.**

A message published at a tile goes to a topic whose last levels are the digits of the tile, one
digit a level, after the levels of the scheme, the type of the message and the name of its source.
A filter for a tile leaves the source open and accepts every level below the tile, so it selects
the messages published at the tile and at every tile inside it.

Main definitions:

* `Geotile.Scheme`, `Geotile.Scheme.ofText` — the leading levels of all topics;
* `Geotile.Topic` — what a topic says: type, source and tile;
* `Geotile.Scheme.publish`, `Geotile.Scheme.filter`, `Geotile.Scheme.filters` — the topic of a
  message, the filter of a tile, and the filters of an area;
* `Geotile.Scheme.read?` — what a topic of the scheme says.
-/

import Geotile.Area.Basic

set_option autoImplicit false

namespace Geotile

/-- How topics are laid out: the levels with which each of them begins. -/
structure Scheme where
  /-- The leading levels, which may hold separators themselves. -/
  base : String
  deriving DecidableEq

/-- What a topic says. -/
structure Topic where
  /-- The type of the message. -/
  messageType : String
  /-- The name of the station that sent it. -/
  source : String
  /-- The tile at which it was published. -/
  tile : Tile
  deriving DecidableEq

namespace Scheme

/-- The leading levels that are used where none are given. -/
def defaultBase : String := "its/v2x"

/-- The scheme used where none is given. -/
def standard : Scheme := ⟨defaultBase⟩

instance : Inhabited Scheme := ⟨standard⟩

/-- The scheme with given leading levels, separators at their end left out. -/
def ofText (base : String) : Scheme :=
  ⟨String.ofList (Text.trimEnd (fun c => c == '/') base.toList)⟩

/-! ### Writing -/

/-- The topic of a message of a type from a source at a tile. -/
def publish (s : Scheme) (messageType source : String) (t : Tile) : String :=
  s.base ++ "/" ++ messageType ++ "/" ++ source ++ "/" ++ t.joined "/"

/-- The filter that selects the messages of a type inside a tile, from any source. -/
def filter (s : Scheme) (messageType : String) (t : Tile) : String :=
  s.base ++ "/" ++ messageType ++ "/+/" ++ t.joined "/" ++ "/#"

/-- One filter for every member of an area, in order. -/
def filters (s : Scheme) (messageType : String) (a : Area) : List String :=
  a.tiles.map (s.filter messageType)

/-! ### Reading -/

/-- The tile whose digits are the given levels, one byte each. -/
def tileOfLevels? (levels : List (List Char)) : Option Tile :=
  if levels.all fun level => Text.byteLength level == 1 then
    (Tile.parse (String.ofList levels.flatten)).toOption
  else none

/-- What the levels after the leading ones say: a type, a source, and a tile. -/
def readLevels? : List (List Char) → Option Topic
  | messageType :: source :: levels =>
    -- an empty level cannot have been published, so such a topic is not one of the scheme
    if messageType.isEmpty || source.isEmpty then none
    else (tileOfLevels? levels).map fun t => ⟨String.ofList messageType, String.ofList source, t⟩
  | _ => none

/-- What a topic says, when it is one of the scheme. -/
def read? (s : Scheme) (topic : String) : Option Topic :=
  (Text.after? s.base.toList topic.toList).bind fun rest =>
    (Text.after? ['/'] rest).bind fun levels => readLevels? (Text.split '/' levels)

end Scheme

end Geotile
