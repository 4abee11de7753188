/-
**Reports as JSON.**

A report is turned into a small JSON value and written over several lines, each level indented by
two spaces.  An empty list or record stays on its line.

Main definitions:

* `Geotile.Json` — the values that reports are made of;
* `Geotile.Json.quote` — a text between quotes;
* `Geotile.Json.pretty` — a value over several lines.
-/

set_option autoImplicit false

namespace Geotile

/-- A JSON value.  A number is given by its digits. -/
inductive Json where
  | null
  | number (digits : String)
  | text (value : String)
  | list (items : List Json)
  | record (fields : List (String × Json))

namespace Json

/-- The hexadecimal digit of a number below sixteen. -/
def hexDigit (n : Nat) : Char := if n < 10 then Char.ofNat (48 + n) else Char.ofNat (87 + n)

/-- A character as it stands between quotes: quotes and backslashes are escaped, and control
characters by a letter or their number. -/
def escape (c : Char) : List Char :=
  if c = '"' then ['\\', '"']
  else if c = '\\' then ['\\', '\\']
  else if c.toNat = 8 then ['\\', 'b']
  else if c = '\t' then ['\\', 't']
  else if c = '\n' then ['\\', 'n']
  else if c.toNat = 12 then ['\\', 'f']
  else if c = '\r' then ['\\', 'r']
  else if c.toNat < 32 then ['\\', 'u', '0', '0', hexDigit (c.toNat / 16), hexDigit (c.toNat % 16)]
  else [c]

/-- A text between quotes. -/
def quote (s : String) : String := String.ofList ('"' :: s.toList.flatMap escape ++ ['"'])

/-- A line end and the indentation of a level. -/
def newLine (level : Nat) : String := String.ofList ('\n' :: List.replicate (2 * level) ' ')

/-- Items between an opening and a closing mark, each on a line of its own. -/
def between (opening closing : String) (level : Nat) (items : List String) : String :=
  if items.isEmpty then opening ++ closing
  else
    opening ++ newLine (level + 1) ++ String.intercalate ("," ++ newLine (level + 1)) items
      ++ newLine level ++ closing

mutual

/-- A value over several lines, its own lines indented to a level. -/
def prettyAt (level : Nat) : Json → String
  | null => "null"
  | number digits => digits
  | text value => quote value
  | list items => between "[" "]" level (prettyItems (level + 1) items)
  | record fields => between "\x7b" "\x7d" level (prettyFields (level + 1) fields)

/-- The items of a list. -/
def prettyItems (level : Nat) : List Json → List String
  | [] => []
  | item :: items => prettyAt level item :: prettyItems level items

/-- The fields of a record, each with its name. -/
def prettyFields (level : Nat) : List (String × Json) → List String
  | [] => []
  | (name, value) :: fields =>
    (quote name ++ ": " ++ prettyAt level value) :: prettyFields level fields

end

/-- A value over several lines. -/
def pretty (value : Json) : String := prettyAt 0 value

/-- A text, or nothing. -/
def ofText? : Option String → Json
  | some s => text s
  | none => null

/-- A list of texts. -/
def ofTexts (texts : List String) : Json := list (texts.map text)

/-- A whole number. -/
def ofNat (n : Nat) : Json := number (toString n)

end Json

end Geotile
