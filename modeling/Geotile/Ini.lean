/-
**Texts of sections and entries.**

A text is a sequence of sections, each a name in brackets, and of entries, each a key, a mark and
a value.  Entries belong to the section opened last.  When a section or a key is repeated, looking
it up finds the first one.

A key may run over several lines, up to an equals sign or a colon.  A value ends with its line; it
may begin with quoted pieces, inside which lines may end.  A backslash gives the next character a
meaning of its own everywhere but in comments.  A comment takes a whole line, from its first
character.

Main definitions:

* `Geotile.Ini`, `Geotile.Ini.section?`, `Geotile.Ini.Section.get?` — sections and entries, and
  how they are looked up;
* `Geotile.IniError` — why a text is refused;
* `Geotile.Ini.Fault` — why and where the reading of a piece came to a halt;
* `Geotile.Ini.readUntil`, `Geotile.Ini.readValue` — the text up to a mark, and a value;
* `Geotile.Ini.step`, `Geotile.Ini.parse` — one piece of a text, and the whole of it.

Main results:

* `Geotile.Ini.length_readUntil_le`, `Geotile.Ini.length_step_le` — reading a piece leaves less of
  the text, so that reading ends.
-/

import Geotile.Text.Blank

set_option autoImplicit false

namespace Geotile

/-- Why a text of sections and entries is refused. -/
inductive IniError where
  /-- A comment does not begin its line. -/
  | commentInLine
  /-- The name of a section does not end. -/
  | openSection
  /-- A value has no key. -/
  | noKey
  /-- A key has no value. -/
  | noValue
  /-- A quoted piece does not end. -/
  | openQuote
  /-- A character given by its number does not exist, or its number is cut short. -/
  | badNumber
  deriving DecidableEq

namespace Ini

/-- A section: its name, none before the first one is opened, and its entries in order. -/
structure Section where
  /-- The name. -/
  name : Option String
  /-- The keys with their values. -/
  entries : List (String × String)
  deriving DecidableEq

/-- The first value of a key. -/
def Section.get? (s : Section) (key : String) : Option String :=
  (s.entries.find? fun (k, _) => k == key).map Prod.snd

end Ini

/-- The sections of a text, in order. -/
structure Ini where
  /-- The sections. -/
  sections : List Ini.Section
  deriving DecidableEq

namespace Ini

/-- The first section of a name. -/
def section? (ini : Ini) (name : String) : Option Section :=
  ini.sections.find? fun s => s.name == some name

/-! ### Characters -/

/-- A character and whether it is the first one of its line. -/
abbrev Marked := Char × Bool

/-- A text with its characters marked, given whether it begins a line. -/
def mark (first : Bool) : List Char → List Marked
  | [] => []
  | c :: cs => (c, first) :: mark (c == '\n') cs

/-- Whether a character ends a line. -/
def isLineEnd (c : Char) : Bool := c == '\n' || c == '\r'

/-- Whether a character indents a line. -/
def isIndent (c : Char) : Bool := c == ' ' || c == '\t'

/-- Whether a character separates a key from its value. -/
def isAssign (c : Char) : Bool := c == '=' || c == ':'

/-- Whether a character opens and closes a quoted piece. -/
def isQuote (c : Char) : Bool := c == '"' || c.toNat == 39

/-- The value of a hexadecimal digit. -/
def hexDigit? (c : Char) : Option Nat :=
  if '0' ≤ c && c ≤ '9' then some (c.toNat - 48)
  else if 'a' ≤ c && c ≤ 'f' then some (c.toNat - 87)
  else if 'A' ≤ c && c ≤ 'F' then some (c.toNat - 55)
  else none

/-- The number of hexadecimal digits, a plus sign being allowed before them. -/
def hexNumber? (cs : List Char) : Option Nat :=
  let digits := match cs with
    | '+' :: rest => rest
    | _ => cs
  digits.foldlM (fun n c => (hexDigit? c).map fun d => 16 * n + d) 0

/-- The character with a number given by four hexadecimal digits. -/
def numbered? (cs : List Char) : Option Char :=
  (hexNumber? cs).bind fun n => if n.isValidChar then some (Char.ofNat n) else none

/-- The character that a backslash makes of the one after it. -/
def escaped (c : Char) : Char :=
  if c = '0' then Char.ofNat 0
  else if c = 'a' then Char.ofNat 7
  else if c = 'b' then Char.ofNat 8
  else if c = 't' then '\t'
  else if c = 'r' then '\r'
  else if c = 'n' then '\n'
  else c

/-! ### Pieces of text -/

/-- What was read and what is left. -/
abbrev Reading := List Char × List Marked

/-- A reading with one more character before it. -/
def Reading.cons (c : Char) (r : Reading) : Reading := (c :: r.1, r.2)

/-- Why the reading of a piece came to a halt, and the text from the character at which it did. -/
structure Fault where
  /-- The reason. -/
  cause : IniError
  /-- The text from the last character that was looked at. -/
  left : List Marked

/-- The text from the last character that is looked at in reading a number of one more character
than given that is none.  A backslash is taken together with the line end after it; any other
character after a backslash ends the reading at once. -/
def faultInNumber : (more : Nat) → List Marked → List Marked
  | _, [] => []
  | 0, (c, first) :: rest => if c = '\\' then rest else (c, first) :: rest
  | n + 1, (c, _) :: rest =>
    if c = '\\' then
      match rest with
      | [] => []
      | (d, first) :: rest => if d = '\n' then faultInNumber n rest else (d, first) :: rest
    else faultInNumber n rest

theorem length_faultInNumber_le (more : Nat) (cs : List Marked) :
    (faultInNumber more cs).length ≤ cs.length := by
  fun_induction faultInNumber more cs with
  | case1 => exact Nat.le_refl _
  | case2 => exact Nat.le_succ _
  | case3 => exact Nat.le_refl _
  | case4 => exact Nat.zero_le _
  | case5 _ _ _ _ ih =>
      simp only [List.length_cons]
      omega
  | case6 =>
      simp only [List.length_cons]
      omega
  | case7 _ _ _ _ _ ih =>
      simp only [List.length_cons]
      omega

/-- The text up to a character of a class, which is left, or up to the end. -/
def readUntil (stop : Char → Bool) : List Marked → Except Fault Reading
  | [] => .ok ([], [])
  | (c, first) :: rest =>
    if stop c then .ok ([], (c, first) :: rest)
    else if c = '\\' then
      match rest with
      | [] => .ok (['\\'], [])
      | (d, _) :: rest =>
        if d = '\n' then readUntil stop rest
        else if d = 'x' then
          -- four characters are taken whatever they are, and only then read as a number
          match rest with
          | h₁ :: h₂ :: h₃ :: h₄ :: rest =>
            match numbered? [h₁.1, h₂.1, h₃.1, h₄.1] with
            | some e => (readUntil stop rest).map (Reading.cons e)
            | none => .error ⟨.badNumber, faultInNumber 3 (h₁ :: h₂ :: h₃ :: h₄ :: rest)⟩
          | rest => .error ⟨.badNumber, faultInNumber 3 rest⟩
        else (readUntil stop rest).map (Reading.cons (escaped d))
    else (readUntil stop rest).map (Reading.cons c)

/-- The text up to a character of a class, where a fault in it is one of the whole text. -/
def readPiece (stop : Char → Bool) (cs : List Marked) : Except IniError Reading :=
  (readUntil stop cs).mapError Fault.cause

theorem map_eq_ok {ε α β : Type} {f : α → β} {x : Except ε α} {b : β} (h : x.map f = .ok b) :
    ∃ a, x = .ok a ∧ f a = b := by
  cases x with
  | error e => cases h
  | ok a => exact ⟨a, rfl, Except.ok.inj h⟩

theorem readPiece_eq_ok_iff {stop : Char → Bool} {cs : List Marked} {r : Reading} :
    readPiece stop cs = .ok r ↔ readUntil stop cs = .ok r := by
  unfold readPiece
  cases readUntil stop cs with
  | error e => exact ⟨nofun, nofun⟩
  | ok a => exact ⟨fun h => congrArg _ (Except.ok.inj h), fun h => congrArg _ (Except.ok.inj h)⟩

/-- Reading leaves no more than there was. -/
theorem length_readUntil_le {stop : Char → Bool} {cs : List Marked} {r : Reading}
    (h : readUntil stop cs = .ok r) : r.2.length ≤ cs.length := by
  fun_induction readUntil stop cs generalizing r with
  | case1 => cases h; exact Nat.le_refl _
  | case2 => cases h; exact Nat.le_refl _
  | case3 => cases h; exact Nat.zero_le _
  | case4 _ _ _ _ ih =>
      have := ih h
      simp only [List.length_cons]
      omega
  | case5 _ _ _ _ _ _ _ _ _ _ _ ih =>
      obtain ⟨a, ha, rfl⟩ := map_eq_ok h
      have := ih ha
      simp only [List.length_cons, Reading.cons]
      omega
  | case6 => cases h
  | case7 => cases h
  | case8 _ _ _ _ _ _ _ ih =>
      obtain ⟨a, ha, rfl⟩ := map_eq_ok h
      have := ih ha
      simp only [List.length_cons, Reading.cons]
      omega
  | case9 _ _ _ _ _ ih =>
      obtain ⟨a, ha, rfl⟩ := map_eq_ok h
      have := ih ha
      simp only [List.length_cons, Reading.cons]
      omega

/-- A fault lies inside the text that was read. -/
theorem length_left_le {stop : Char → Bool} {cs : List Marked} {f : Fault}
    (h : readUntil stop cs = .error f) : f.left.length ≤ cs.length := by
  have of_map : ∀ {c : Char} {x : Except Fault Reading}, x.map (Reading.cons c) = .error f →
      x = .error f := by
    intro c x hx
    cases x with
    | error e => simpa [Except.map] using hx
    | ok a => cases hx
  fun_induction readUntil stop cs with
  | case1 => cases h
  | case2 => cases h
  | case3 => cases h
  | case4 _ _ _ _ ih =>
      have := ih h
      simp only [List.length_cons]
      omega
  | case5 _ _ _ _ _ _ _ _ _ _ _ ih =>
      have := ih (of_map h)
      simp only [List.length_cons]
      omega
  | case6 =>
      cases h
      exact Nat.le_trans (length_faultInNumber_le _ _) (by simp only [List.length_cons]; omega)
  | case7 =>
      cases h
      exact Nat.le_trans (length_faultInNumber_le _ _) (by simp only [List.length_cons]; omega)
  | case8 _ _ _ _ _ _ _ ih =>
      have := ih (of_map h)
      simp only [List.length_cons]
      omega
  | case9 _ _ _ _ _ ih =>
      have := ih (of_map h)
      simp only [List.length_cons]
      omega

theorem length_readUntil_lt {stop : Char → Bool} {c : Marked} {cs : List Marked} {r : Reading}
    (start : stop c.1 = false) (h : readUntil stop (c :: cs) = .ok r) :
    r.2.length ≤ cs.length := by
  obtain ⟨c, first⟩ := c
  rw [readUntil.eq_def] at h
  simp only [start, Bool.false_eq_true, ↓reduceIte] at h
  split at h
  · split at h
    · cases h
      exact Nat.zero_le _
    · split at h
      · have := length_readUntil_le h
        simp only [List.length_cons]
        omega
      · split at h
        · split at h
          · split at h
            · obtain ⟨a, ha, rfl⟩ := map_eq_ok h
              have := length_readUntil_le ha
              simp only [List.length_cons, Reading.cons]
              omega
            · cases h
          · cases h
        · obtain ⟨a, ha, rfl⟩ := map_eq_ok h
          have := length_readUntil_le ha
          simp only [List.length_cons, Reading.cons]
          omega
  · obtain ⟨a, ha, rfl⟩ := map_eq_ok h
    exact length_readUntil_le (r := a) ha

/-- What is left after white space.  A line end before an indented line ends the white space, so
that the indentation is seen. -/
def skipBlank : List Marked → List Marked
  | [] => []
  | (c, first) :: rest =>
    if isLineEnd c then
      if rest.head?.any fun d => isIndent d.1 then rest else skipBlank rest
    else if Text.isBlank c then skipBlank rest
    else (c, first) :: rest

theorem length_skipBlank_le (cs : List Marked) : (skipBlank cs).length ≤ cs.length := by
  induction cs with
  | nil => exact Nat.le_refl _
  | cons c cs ih =>
      rw [skipBlank]
      split
      · split
        · exact Nat.le_succ _
        · exact Nat.le_succ_of_le ih
      · split
        · exact Nat.le_succ_of_le ih
        · exact Nat.le_refl _

/-- What is left after the end of the line. -/
def skipLine (cs : List Marked) : List Marked := (cs.dropWhile fun c => c.1 != '\n').drop 1

theorem length_skipLine_le (cs : List Marked) : (skipLine cs).length ≤ cs.length := by
  have := (List.dropWhile_suffix (l := cs) fun c => c.1 != '\n').length_le
  simp only [skipLine, List.length_drop]
  omega

/-! ### Values -/

/-- A value: quoted pieces, and then what is left of the line.  White space around the rest of the
line does not belong to it, but after a quoted piece it does. -/
def readValue (quoted : Bool) : List Marked → Except IniError Reading
  | [] => .ok ([], [])
  | (c, first) :: rest =>
    if isQuote c then
      match _read : readPiece (fun d => d == c) rest with
      | .error e => .error e
      | .ok (_, []) => .error .openQuote
      | .ok (piece, _ :: rest') =>
        (readValue true rest').map fun r => (piece ++ r.1, r.2)
    else
      (readPiece isLineEnd ((c, first) :: rest)).map fun r =>
        (if quoted then Text.trimEnd Text.isBlank r.1 else Text.trimBlank r.1, r.2)
termination_by cs => cs.length
decreasing_by
  have := length_readUntil_le (readPiece_eq_ok_iff.mp _read)
  simp only [List.length_cons] at this ⊢
  omega

theorem length_readValue_le {quoted : Bool} {cs : List Marked} {r : Reading}
    (h : readValue quoted cs = .ok r) : r.2.length ≤ cs.length := by
  fun_induction readValue quoted cs generalizing r with
  | case1 => cases h; exact Nat.le_refl _
  | case2 => cases h
  | case3 => cases h
  | case4 _ _ _ _ _ _ _ _ read ih =>
      obtain ⟨a, ha, rfl⟩ := map_eq_ok h
      have := ih ha
      have := length_readUntil_le (readPiece_eq_ok_iff.mp read)
      simp only [List.length_cons] at this ⊢
      omega
  | case5 =>
      obtain ⟨a, ha, rfl⟩ := map_eq_ok h
      exact length_readUntil_le (r := a) (readPiece_eq_ok_iff.mp ha)

/-! ### Whole texts -/

/-- What has been read of a text. -/
structure State where
  /-- The sections, the last one first. -/
  opened : List Section
  /-- The key that waits for its value, empty if none does. -/
  key : List Char

namespace State

/-- A text of which nothing has been read. -/
def start : State := ⟨[⟨none, []⟩], []⟩

/-- A section opened. -/
def openSection (s : State) (name : List Char) : State :=
  { s with opened := ⟨some (String.ofList (Text.trimBlank name)), []⟩ :: s.opened }

/-- A key read. -/
def setKey (s : State) (key : List Char) : State := { s with key := Text.trimBlank key }

/-- A value read, for the key that waits. -/
def setValue (s : State) (value : List Char) : State :=
  let entry := (String.ofList s.key, String.ofList value)
  match s.opened with
  | [] => ⟨[⟨none, [entry]⟩], []⟩
  | current :: earlier => ⟨{ current with entries := current.entries ++ [entry] } :: earlier, []⟩

/-- The sections read. -/
def result (s : State) : Ini := ⟨s.opened.reverse⟩

end State

/-- What has been read after a step, and what is left. -/
abbrev Progress := State × List Marked

/-- A section after its opening bracket. -/
def readSection (s : State) (cs : List Marked) : Except IniError Progress :=
  (readPiece (fun c => c == ']') cs).bind fun r =>
    match r.2 with
    | [] => .error .openSection
    | _ :: rest => .ok (s.openSection r.1, skipBlank rest)

theorem length_readSection_le {s : State} {cs : List Marked} {p : Progress}
    (h : readSection s cs = .ok p) : p.2.length ≤ cs.length := by
  unfold readSection at h
  cases hr : readPiece (fun c => c == ']') cs with
  | error e => simp [hr, Except.bind] at h
  | ok r =>
      have le := length_readUntil_le (readPiece_eq_ok_iff.mp hr)
      simp only [hr, Except.bind] at h
      split at h
      · cases h
      · next rest eq =>
        cases h
        have := length_skipBlank_le rest
        rw [eq, List.length_cons] at le
        exact Nat.le_trans this (Nat.le_of_succ_le le)

/-- An indented line after its indentation.  Where a key is broken off, by the end of the text or by
a fault in it, what was read of it does not count, and the text goes on with the first character
that is no white space from there. -/
def readIndented (s : State) : List Marked → Except IniError Progress
  | [] => .ok (s, [])
  | (c, first) :: rest =>
    if c = '[' then readSection s rest
    else if isLineEnd c then .ok (s, rest)
    else
      match readUntil isAssign ((c, first) :: rest) with
      | .error f => .ok (s, f.left.dropWhile fun d => Text.isBlank d.1)
      | .ok r => .ok (if r.2.isEmpty then (s, []) else (s.setKey r.1, skipBlank r.2))

theorem length_readIndented_le {s : State} {cs : List Marked} {p : Progress}
    (h : readIndented s cs = .ok p) : p.2.length ≤ cs.length := by
  cases cs with
  | nil => cases h; exact Nat.le_refl _
  | cons c cs =>
      obtain ⟨c, first⟩ := c
      rw [readIndented] at h
      split at h
      · exact Nat.le_succ_of_le (length_readSection_le h)
      · split at h
        · cases h
          exact Nat.le_succ _
        · split at h
          · next hr =>
            cases h
            exact Nat.le_trans (List.dropWhile_suffix _).length_le (length_left_le hr)
          · next hr =>
            have le := length_readUntil_le hr
            cases h
            split
            · exact Nat.zero_le _
            · exact Nat.le_trans (length_skipBlank_le _) le

/-- One piece of a text, given its first character: a comment, a section, a value, an indented
line, a line end or a key. -/
def step (s : State) (c : Marked) (rest : List Marked) : Except IniError Progress :=
  if c.1 = ';' || c.1 = '#' then
    if c.2 then .ok (s, skipBlank (skipLine rest)) else .error .commentInLine
  else if c.1 = '[' then readSection s rest
  else if isAssign c.1 then
    if s.key = [] then .error .noKey
    else
      (readValue false (rest.dropWhile fun d => Text.isBlank d.1 && !isLineEnd d.1)).map fun r =>
        (s.setValue r.1, skipBlank r.2)
  else if isIndent c.1 then readIndented s (rest.dropWhile fun d => isIndent d.1)
  else if isLineEnd c.1 then .ok (s, skipBlank rest)
  else
    (readPiece isAssign (c :: rest)).bind fun r =>
      if r.2.isEmpty then .error .noValue else .ok (s.setKey r.1, skipBlank r.2)

/-- Every step leaves no more than what stood after its first character. -/
theorem length_step_le {s : State} {c : Marked} {rest : List Marked} {p : Progress}
    (h : step s c rest = .ok p) : p.2.length ≤ rest.length := by
  unfold step at h
  split at h
  · split at h
    · cases h
      exact Nat.le_trans (length_skipBlank_le _) (length_skipLine_le _)
    · cases h
  · split at h
    · exact length_readSection_le h
    · split at h
      · split at h
        · cases h
        · obtain ⟨r, hr, rfl⟩ := map_eq_ok h
          have le := length_readValue_le hr
          have := (List.dropWhile_suffix (l := rest) fun d =>
            Text.isBlank d.1 && !isLineEnd d.1).length_le
          have := length_skipBlank_le r.2
          simp only
          omega
      · next key =>
        split at h
        · have le := length_readIndented_le h
          have := (List.dropWhile_suffix (l := rest) fun d => isIndent d.1).length_le
          omega
        · split at h
          · cases h
            exact length_skipBlank_le rest
          · cases hr : readPiece isAssign (c :: rest) with
            | error e => simp [hr, Except.bind] at h
            | ok r =>
                have le := length_readUntil_lt (by simpa using key) (readPiece_eq_ok_iff.mp hr)
                simp only [hr, Except.bind] at h
                split at h
                · cases h
                · cases h
                  exact Nat.le_trans (length_skipBlank_le _) le

/-- The pieces of a text one after the other. -/
def run (s : State) : List Marked → Except IniError State
  | [] => .ok s
  | c :: rest =>
    match _read : step s c rest with
    | .error e => .error e
    | .ok (s', rest') => run s' rest'
termination_by cs => cs.length
decreasing_by
  have := length_step_le _read
  simp only [List.length_cons]
  simp only at this
  omega

/-- The sections and entries of a text. -/
def parse (text : String) : Except IniError Ini :=
  (run .start (mark true text.toList)).map State.result

end Ini

end Geotile
