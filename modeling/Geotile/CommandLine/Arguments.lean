/-
**Arguments of a command line.**

The words of a command line are options and other words.  An option begins with two dashes; it
either stands alone or takes a value, which is the rest of the word after an equals sign or else
the next word.  A next word that begins with a dash is no value, unless the option takes numbers
and the word is a negative one, or the option takes every word.  After a word of two dashes there
are no more options.

Main definitions:

* `Geotile.OptionKind`, `Geotile.OptionRule` — which options there are and what they take;
* `Geotile.UsageError` — why words are refused;
* `Geotile.Arguments` — the options and other words of a level;
* `Geotile.Arguments.read` — the words of a level as options and other words;
* `Geotile.Arguments.readLeading` — the options before a command, the command, and its words.
-/

import Geotile.Number.Reader

set_option autoImplicit false

namespace Geotile

/-- What an option takes. -/
inductive OptionKind where
  /-- Nothing: it is a switch. -/
  | switch
  /-- A value that begins with no dash. -/
  | value
  /-- A value that begins with no dash, or a negative number. -/
  | number
  /-- The next word, whatever it is. -/
  | anything
  deriving DecidableEq

/-- An option that is understood. -/
structure OptionRule where
  /-- The name, without the dashes. -/
  name : String
  /-- What it takes. -/
  kind : OptionKind
  /-- Whether it may be given more than once. -/
  repeats : Bool
  deriving DecidableEq

/-- Why the words of a command line are refused. -/
inductive UsageError where
  /-- There is no command. -/
  | noCommand
  /-- A command is not known. -/
  | unknownCommand (word : String)
  /-- An option is not known. -/
  | unknownOption (word : String)
  /-- An option that takes a value has none. -/
  | noValue (name : String)
  /-- A switch has a value. -/
  | needlessValue (name : String)
  /-- An option is given more often than once. -/
  | repeated (name : String)
  /-- An option or a word that has to be given is not. -/
  | missing (name : String)
  /-- A value is not what it has to be. -/
  | badValue (name value : String)
  /-- Two options exclude each other. -/
  | exclusive (name other : String)
  /-- There is a word too many. -/
  | needless (word : String)
  deriving DecidableEq

namespace UsageError

/-- The message about words that are refused. -/
def message : UsageError → String
  | noCommand => "a command is required"
  | unknownCommand word => "unknown command '" ++ word ++ "'"
  | unknownOption word => "unknown option '" ++ word ++ "'"
  | noValue name => "'--" ++ name ++ "' needs a value"
  | needlessValue name => "'--" ++ name ++ "' takes no value"
  | repeated name => "'--" ++ name ++ "' is given more than once"
  | missing name => "'" ++ name ++ "' is required"
  | badValue name value => "invalid value '" ++ value ++ "' for '" ++ name ++ "'"
  | exclusive name other => "'--" ++ name ++ "' excludes '--" ++ other ++ "'"
  | needless word => "unexpected word '" ++ word ++ "'"

end UsageError

/-- The options and other words of a level, in order. -/
structure Arguments where
  /-- The options with their values, an empty one for a switch. -/
  options : List (String × String)
  /-- The other words. -/
  words : List String
  deriving DecidableEq

namespace Arguments

/-- No options and no words. -/
def none : Arguments := ⟨[], []⟩

/-- One more option before the others. -/
def addOption (name value : String) (a : Arguments) : Arguments :=
  { a with options := (name, value) :: a.options }

/-- One more word before the others. -/
def addWord (word : String) (a : Arguments) : Arguments := { a with words := word :: a.words }

/-- The values of an option. -/
def values (a : Arguments) (name : String) : List String :=
  a.options.filterMap fun (n, v) => if n = name then some v else Option.none

/-- The value of an option that is given at most once. -/
def value? (a : Arguments) (name : String) : Option String := (a.values name).head?

/-- Whether a switch is given. -/
def has (a : Arguments) (name : String) : Bool := !(a.values name).isEmpty

/-! ### Words -/

/-- Whether characters are digits with at most one point among them, not as the first, and at most
one exponent mark after them, neither the first nor the last. -/
def isPlainNumber (cs : List Char) : Bool :=
  let whole := cs.takeWhile Decimal.isDigit
  match cs.dropWhile Decimal.isDigit with
  | [] => true
  | '.' :: rest => !whole.isEmpty && exponentOnly (rest.dropWhile Decimal.isDigit)
  | rest => !whole.isEmpty && exponentOnly rest
where
  /-- Nothing, or an exponent mark and digits. -/
  exponentOnly : List Char → Bool
    | [] => true
    | c :: rest => (c = 'e' || c = 'E') && !rest.isEmpty && rest.all Decimal.isDigit

/-- Whether a word may be the value of an option of a kind. -/
def canFollow (kind : OptionKind) (word : String) : Bool :=
  match kind, word.toList with
  | .switch, _ => false
  | .anything, _ => true
  | _, ['-'] => true
  | .number, '-' :: '-' :: _ => false
  | .number, '-' :: cs => isPlainNumber cs
  | .value, '-' :: _ => false
  | _, _ => true

/-- A word of an option taken apart into its name and the value after an equals sign. -/
def takeApart (cs : List Char) : String × Option String :=
  match Text.splitFirst? '=' cs with
  | some (name, value) => (String.ofList name, some (String.ofList value))
  | Option.none => (String.ofList cs, Option.none)

/-- What a word is. -/
inductive WordClass where
  /-- The end of the options. -/
  | endOfOptions
  /-- An option, with the value after an equals sign. -/
  | option (name : String) (value : Option String)
  /-- A word with one dash, which is no option here. -/
  | dashed
  /-- Another word. -/
  | plain

/-- What a word is. -/
def classify (word : String) : WordClass :=
  match word.toList with
  | ['-', '-'] => .endOfOptions
  | '-' :: '-' :: cs =>
    let (name, value) := takeApart cs
    .option name value
  | '-' :: _ :: _ => .dashed
  | _ => .plain

/-- The value of an option, and the words after it. -/
def takeValue (rule : OptionRule) (given : Option String) (rest : List String) :
    Except UsageError (String × List String) :=
  match rule.kind, given, rest with
  | .switch, some _, _ => .error (.needlessValue rule.name)
  | .switch, Option.none, _ => .ok ("", rest)
  | _, some value, _ => .ok (value, rest)
  | _, Option.none, [] => .error (.noValue rule.name)
  | kind, Option.none, word :: rest =>
    if canFollow kind word then .ok (word, rest) else .error (.noValue rule.name)

theorem length_takeValue_le {rule : OptionRule} {given : Option String} {rest : List String}
    {r : String × List String} (h : takeValue rule given rest = .ok r) :
    r.2.length ≤ rest.length := by
  unfold takeValue at h
  split at h
  · cases h
  · cases h; exact Nat.le_refl _
  · cases h; exact Nat.le_refl _
  · cases h
  · split at h
    · cases h; exact Nat.le_succ _
    · cases h

/-- The rule of an option. -/
def ruleOf (rules : List OptionRule) (name : String) : Except UsageError OptionRule :=
  match rules.find? fun rule => rule.name == name with
  | some rule => .ok rule
  | Option.none => .error (.unknownOption name)

/-! ### Levels -/

/-- The words of a level as options and other words. -/
def collect (rules : List OptionRule) : List String → Except UsageError Arguments
  | [] => .ok none
  | word :: rest =>
    match classify word with
    | .endOfOptions => .ok ⟨[], rest⟩
    | .dashed => .error (.unknownOption word)
    | .plain => (collect rules rest).map (addWord word)
    | .option name given =>
      match ruleOf rules name with
      | .error e => .error e
      | .ok rule =>
        match _taken : takeValue rule given rest with
        | .error e => .error e
        | .ok (value, rest') => (collect rules rest').map (addOption name value)
termination_by words => words.length
decreasing_by
  · simp
  · have := length_takeValue_le _taken
    simp only [List.length_cons] at this ⊢
    omega

/-- The first option that is given more often than it may be. -/
def repeated? (rules : List OptionRule) (a : Arguments) : Option String :=
  (rules.find? fun rule => !rule.repeats && 1 < (a.values rule.name).length).map OptionRule.name

/-- Arguments in which no option is given too often. -/
def checked (rules : List OptionRule) (a : Arguments) : Except UsageError Arguments :=
  match repeated? rules a with
  | some name => .error (.repeated name)
  | Option.none => .ok a

/-- The words of a level as options and other words, no option being given too often. -/
def read (rules : List OptionRule) (words : List String) : Except UsageError Arguments :=
  (collect rules words).bind (checked rules)

/-- The options before a command, the command, and the words after it. -/
def collectLeading (rules : List OptionRule) :
    List String → Except UsageError (Arguments × String × List String)
  | [] => .error .noCommand
  | word :: rest =>
    match classify word with
    | .endOfOptions => .error .noCommand
    | .dashed => .error (.unknownOption word)
    | .plain => .ok (none, word, rest)
    | .option name given =>
      match ruleOf rules name with
      | .error e => .error e
      | .ok rule =>
        match _taken : takeValue rule given rest with
        | .error e => .error e
        | .ok (value, rest') =>
          (collectLeading rules rest').map fun (a, more) => (a.addOption name value, more)
termination_by words => words.length
decreasing_by
  have := length_takeValue_le _taken
  simp only [List.length_cons] at this ⊢
  omega

/-- The options before a command, no option being given too often, the command, and the words
after it. -/
def readLeading (rules : List OptionRule) (words : List String) :
    Except UsageError (Arguments × String × List String) :=
  (collectLeading rules words).bind fun (a, more) =>
    (checked rules a).map fun a => (a, more)

end Arguments

end Geotile
