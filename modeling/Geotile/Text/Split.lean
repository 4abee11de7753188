/-
**Cutting text at a separator and joining it again.**

Text is handled as lists of characters.  Cutting at a separator keeps empty pieces and always
gives at least one piece; joining the pieces with the separator gives the text back.

Main definitions:

* `Geotile.Text.split`, `Geotile.Text.join` — cut at every separator, and join;
* `Geotile.Text.splitFirst?` — cut at the first separator;
* `Geotile.Text.after?` — the text after a given beginning;
* `Geotile.Text.trimEnd`, `Geotile.Text.trim` — drop a class of characters from the ends;
* `Geotile.Text.byteLength` — the number of bytes of the text in UTF-8.

Main results:

* `Geotile.Text.join_split` — joining what was cut gives the text back;
* `Geotile.Text.split_join` — cutting what was joined gives the pieces back, when none of them
  holds the separator;
* `Geotile.Text.split_eq_iff` — so a text is cut into given pieces exactly when they are joined
  to it and none of them holds the separator;
* `Geotile.Text.splitFirst?_eq_some_iff` — a text is cut at the first separator and nowhere else;
* `Geotile.Text.after?_eq_some_iff` — the text after a beginning is what completes it;
* `Geotile.Text.getLast?_trimEnd`, `Geotile.Text.trimEnd_eq_self` — what trimming the end reaches.
-/

set_option autoImplicit false

namespace Geotile.Text

/-! ### Cutting and joining -/

/-- The pieces of a text between its separators. -/
def split (sep : Char) : List Char → List (List Char)
  | [] => [[]]
  | c :: cs =>
    if c = sep then [] :: split sep cs
    else
      match split sep cs with
      | [] => [[c]]
      | piece :: pieces => (c :: piece) :: pieces

/-- The pieces one after the other, with the separator between two of them. -/
def join (sep : List Char) : List (List Char) → List Char
  | [] => []
  | [piece] => piece
  | piece :: pieces => piece ++ sep ++ join sep pieces

theorem split_ne_nil (sep : Char) (cs : List Char) : split sep cs ≠ [] := by
  cases cs with
  | nil => simp [split]
  | cons c cs =>
      rw [split]
      split
      · simp
      · split <;> simp

theorem join_cons (sep piece : List Char) {pieces : List (List Char)} (h : pieces ≠ []) :
    join sep (piece :: pieces) = piece ++ sep ++ join sep pieces := by
  cases pieces with
  | nil => exact absurd rfl h
  | cons p ps => rfl

theorem join_cons_cons (sep : List Char) (c : Char) (piece : List Char)
    (pieces : List (List Char)) :
    join sep ((c :: piece) :: pieces) = c :: join sep (piece :: pieces) := by
  cases pieces <;> rfl

/-- Two runs of pieces are joined to what each of them is joined to, with the separator between. -/
theorem join_append (sep : List Char) {ps qs : List (List Char)} (hp : ps ≠ []) (hq : qs ≠ []) :
    join sep (ps ++ qs) = join sep ps ++ sep ++ join sep qs := by
  induction ps with
  | nil => exact absurd rfl hp
  | cons p ps ih =>
      cases ps with
      | nil => exact join_cons sep p hq
      | cons p' ps =>
          rw [List.cons_append, join_cons sep p (by simp), ih (by simp),
            join_cons sep p (by simp)]
          simp only [List.append_assoc]

/-- What occurs in no piece and not in the separator does not occur in the joined text. -/
theorem notMem_join {sep : List Char} {pieces : List (List Char)} {c : Char} (hs : c ∉ sep)
    (hp : ∀ piece ∈ pieces, c ∉ piece) : c ∉ join sep pieces := by
  induction pieces with
  | nil => exact List.not_mem_nil
  | cons p ps ih =>
      obtain ⟨first, rest⟩ := List.forall_mem_cons.mp hp
      cases ps with
      | nil => exact first
      | cons q qs =>
          rw [join_cons sep p (by simp)]
          simp only [List.mem_append, not_or]
          exact ⟨⟨first, hs⟩, ih rest⟩

/-- Joining what was cut gives the text back. -/
theorem join_split (sep : Char) (cs : List Char) : join [sep] (split sep cs) = cs := by
  induction cs with
  | nil => rfl
  | cons c cs ih =>
      rw [split]
      split
      · next h => rw [join_cons _ _ (split_ne_nil sep cs), ih, h]; rfl
      · split
        · next h => exact absurd h (split_ne_nil sep cs)
        · next h => rw [join_cons_cons, ← h, ih]

theorem split_of_notMem (sep : Char) {piece : List Char} (h : sep ∉ piece) :
    split sep piece = [piece] := by
  induction piece with
  | nil => rfl
  | cons c piece ih =>
      simp only [List.mem_cons, not_or] at h
      simp [split, ih h.2, Ne.symm h.1]

/-- A text that goes on after a separator is cut into the pieces of its two parts. -/
theorem split_append (sep : Char) (cs ds : List Char) :
    split sep (cs ++ sep :: ds) = split sep cs ++ split sep ds := by
  induction cs with
  | nil => simp [split]
  | cons c cs ih =>
      rw [List.cons_append, split, split, ih]
      split
      · rfl
      · cases h : split sep cs with
        | nil => exact absurd h (split_ne_nil sep cs)
        | cons piece pieces => rfl

/-- No piece holds the separator. -/
theorem notMem_of_mem_split {sep : Char} {cs piece : List Char} (h : piece ∈ split sep cs) :
    sep ∉ piece := by
  induction cs generalizing piece with
  | nil =>
      rw [List.mem_singleton.mp h]
      exact List.not_mem_nil
  | cons c cs ih =>
      rw [split] at h
      split at h
      · rcases List.mem_cons.mp h with rfl | h
        · exact List.not_mem_nil
        · exact ih h
      · next other =>
        split at h
        · next none => exact absurd none (split_ne_nil sep cs)
        · next first rest pieces =>
          rw [pieces] at ih
          rcases List.mem_cons.mp h with rfl | h
          · rw [List.mem_cons, not_or]
            exact ⟨Ne.symm other, ih (List.mem_cons_self ..)⟩
          · exact ih (List.mem_cons_of_mem _ h)

/-- Cutting what was joined gives the pieces back, when none of them holds the separator. -/
theorem split_join (sep : Char) {pieces : List (List Char)} (nonempty : pieces ≠ [])
    (h : ∀ piece ∈ pieces, sep ∉ piece) : split sep (join [sep] pieces) = pieces := by
  induction pieces with
  | nil => exact absurd rfl nonempty
  | cons piece pieces ih =>
      have first := h piece (List.mem_cons_self ..)
      cases pieces with
      | nil => exact split_of_notMem sep first
      | cons p ps =>
          rw [join_cons _ _ (by simp), List.append_assoc]
          show split sep (piece ++ sep :: join [sep] (p :: ps)) = _
          rw [split_append, split_of_notMem sep first, ih (by simp)]
          · rfl
          · exact fun q hq => h q (List.mem_cons_of_mem _ hq)

/-- A text is cut into given pieces exactly when it is what they are joined to, and none of them
holds the separator. -/
theorem split_eq_iff {sep : Char} {cs : List Char} {pieces : List (List Char)} :
    split sep cs = pieces ↔
      pieces ≠ [] ∧ (∀ piece ∈ pieces, sep ∉ piece) ∧ cs = join [sep] pieces := by
  constructor
  · rintro rfl
    exact ⟨split_ne_nil sep cs, fun _ => notMem_of_mem_split, (join_split sep cs).symm⟩
  · rintro ⟨nonempty, free, rfl⟩
    exact split_join sep nonempty free

/-- The text before the first separator and the text after it. -/
def splitFirst? (sep : Char) : List Char → Option (List Char × List Char)
  | [] => none
  | c :: cs =>
    if c = sep then some ([], cs)
    else (splitFirst? sep cs).map fun (before, rest) => (c :: before, rest)

/-- A text is cut into two parts exactly when the separator stands between them and not in the
first. -/
theorem splitFirst?_eq_some_iff {sep : Char} {cs before rest : List Char} :
    splitFirst? sep cs = some (before, rest) ↔ cs = before ++ sep :: rest ∧ sep ∉ before := by
  constructor
  · intro h
    induction cs generalizing before with
    | nil => cases h
    | cons c cs ih =>
        rw [splitFirst?] at h
        split at h
        · next same =>
          cases h
          exact ⟨congrArg (· :: rest) same, List.not_mem_nil⟩
        · next other =>
          obtain ⟨⟨front, back⟩, cut, parts⟩ := Option.map_eq_some_iff.mp h
          cases parts
          obtain ⟨rfl, free⟩ := ih cut
          rw [List.mem_cons, not_or]
          exact ⟨rfl, Ne.symm other, free⟩
  · rintro ⟨rfl, free⟩
    induction before with
    | nil => exact if_pos rfl
    | cons c before ih =>
        rw [List.mem_cons, not_or] at free
        rw [List.cons_append, splitFirst?, if_neg (Ne.symm free.1), ih free.2]
        rfl

/-! ### Beginnings and ends -/

/-- The text that follows a given beginning, when the text has it. -/
def after? : (beginning text : List Char) → Option (List Char)
  | [], cs => some cs
  | _ :: _, [] => none
  | b :: bs, c :: cs => if b = c then after? bs cs else none

/-- The text after a beginning is what completes it. -/
theorem after?_eq_some_iff {beginning text rest : List Char} :
    after? beginning text = some rest ↔ text = beginning ++ rest := by
  induction beginning generalizing text with
  | nil => simp [after?]
  | cons b bs ih =>
      cases text with
      | nil => simp [after?]
      | cons c cs =>
          rw [after?]
          split
          · next h => simp [ih, h]
          · next h => simp [Ne.symm h]

/-- The text without the characters of a class at its end. -/
def trimEnd (drop : Char → Bool) (cs : List Char) : List Char :=
  (cs.reverse.dropWhile drop).reverse

/-- What is left of a text ends with no character of the class. -/
theorem getLast?_trimEnd {drop : Char → Bool} {cs : List Char} {c : Char}
    (h : (trimEnd drop cs).getLast? = some c) : drop c = false := by
  have first := List.head?_dropWhile_not drop cs.reverse
  rw [trimEnd, List.getLast?_reverse] at h
  rw [h] at first
  exact first

/-- A text that ends with no character of the class is left as it is. -/
theorem trimEnd_eq_self {drop : Char → Bool} {cs : List Char}
    (h : ∀ c, cs.getLast? = some c → drop c = false) : trimEnd drop cs = cs := by
  rw [← List.head?_reverse] at h
  rw [trimEnd]
  cases reversed : cs.reverse with
  | nil => exact (List.reverse_eq_nil_iff.mp reversed).symm
  | cons c rest =>
      rw [reversed] at h
      rw [List.dropWhile_cons_of_neg (by simp [h c rfl]), ← reversed, List.reverse_reverse]

/-- The text without the characters of a class at its two ends. -/
def trim (drop : Char → Bool) (cs : List Char) : List Char := trimEnd drop (cs.dropWhile drop)

/-! ### Size -/

/-- The number of bytes of a text in UTF-8. -/
def byteLength : List Char → Nat
  | [] => 0
  | c :: cs => c.utf8Size + byteLength cs

theorem length_le_byteLength (cs : List Char) : cs.length ≤ byteLength cs := by
  induction cs with
  | nil => exact Nat.le_refl 0
  | cons c cs ih =>
      have := c.utf8Size_pos
      rw [List.length_cons, byteLength]
      omega

@[simp] theorem byteLength_eq_zero {cs : List Char} : byteLength cs = 0 ↔ cs = [] := by
  constructor
  · intro h
    exact List.eq_nil_of_length_eq_zero (by have := length_le_byteLength cs; omega)
  · rintro rfl
    rfl

/-- Every character takes a byte or more, so a text of one byte is one character. -/
theorem eq_singleton_of_byteLength_eq_one {cs : List Char} (h : byteLength cs = 1) :
    ∃ c, cs = [c] := by
  match cs with
  | [] => cases h
  | [c] => exact ⟨c, rfl⟩
  | c :: d :: ds =>
    have first := c.utf8Size_pos
    have second := d.utf8Size_pos
    simp only [byteLength] at h
    omega

end Geotile.Text
