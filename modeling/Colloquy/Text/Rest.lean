/-!
# The rest of a text

A reader takes something off the front of a text and returns it with what is left.  That what is
left is shorter is part of its type, and this is what makes a loop over items end.

The operations here compose what several readers left of one text, so that a reader is written
without proofs: `cons` puts a character that was read back in front of the text, and `trans` says
that what is left of a rest is left of the text.
-/

namespace Colloquy

/-- What is left of a text after something was read from it; it is shorter than the text. -/
abbrev Rest (s : List Char) := { r : List Char // r.length < s.length }

/-- What is left of a text after something may have been read from it; it is no longer than the
text. -/
abbrev Remainder (s : List Char) := { r : List Char // r.length ≤ s.length }

/-- Dropping from the front makes nothing longer. -/
theorem Text.length_dropWhile_le (p : Char → Bool) (s : List Char) :
    (s.dropWhile p).length ≤ s.length := by
  have := congrArg List.length (List.takeWhile_append_dropWhile (p := p) (l := s))
  simp only [List.length_append] at this
  omega

/-- Dropping a run that is not empty makes the text shorter. -/
theorem Text.length_dropWhile_lt {p : Char → Bool} {s : List Char} (h : s.takeWhile p ≠ []) :
    (s.dropWhile p).length < s.length := by
  have := congrArg List.length (List.takeWhile_append_dropWhile (p := p) (l := s))
  have := List.length_pos_iff.mpr h
  simp only [List.length_append] at *
  omega

namespace Remainder

variable {s : List Char}

/-- Nothing was read. -/
def whole (s : List Char) : Remainder s := ⟨s, Nat.le_refl _⟩

/-- All was read. -/
def nothing (s : List Char) : Remainder s := ⟨[], Nat.zero_le _⟩

/-- What follows the characters that pass a test. -/
def dropWhile (p : Char → Bool) (s : List Char) : Remainder s :=
  ⟨s.dropWhile p, Text.length_dropWhile_le p s⟩

/-- A remainder of a text is a rest of the text with a character more in front. -/
def cons (c : Char) (r : Remainder s) : Rest (c :: s) := ⟨r.1, Nat.lt_succ_of_le r.2⟩

/-- A rest of a remainder is a rest of the text. -/
def trans (r : Remainder s) (t : Rest r.1) : Rest s := ⟨t.1, Nat.lt_of_lt_of_le t.2 r.2⟩

end Remainder

namespace Rest

variable {s : List Char}

/-- A rest is a remainder. -/
def weaken (r : Rest s) : Remainder s := ⟨r.1, Nat.le_of_lt r.2⟩

instance : Coe (Rest s) (Remainder s) := ⟨weaken⟩

/-- What follows the first character. -/
def tail (c : Char) (s : List Char) : Rest (c :: s) := (Remainder.whole s).cons c

/-- A rest of a text is a rest of the text with a character more in front. -/
def cons (c : Char) (r : Rest s) : Rest (c :: s) := r.weaken.cons c

/-- A remainder of a rest is a rest of the text. -/
def trans (r : Rest s) (t : Remainder r.1) : Rest s := ⟨t.1, Nat.lt_of_le_of_lt t.2 r.2⟩

/-- A rest with the last character that was read put back. -/
def restore (c : Char) (r : Rest s) : Remainder s := ⟨c :: r.1, r.2⟩

/-- What follows a character, if the text starts with it. -/
def after? (c : Char) : (s : List Char) → Option (Rest s)
  | [] => none
  | d :: s => if d = c then some (tail d s) else none

/-- The first character that fails a test, and what follows it. -/
def next? (skipped : Char → Bool) : (s : List Char) → Option (Char × Rest s)
  | [] => none
  | c :: s =>
    if skipped c then (next? skipped s).map fun (d, r) => (d, r.cons c) else some (c, tail c s)

/-- The characters at the start of a text that pass a test, if there are any. -/
def run? (p : Char → Bool) (s : List Char) : Option (List Char × Rest s) :=
  if h : s.takeWhile p = [] then none
  else some (s.takeWhile p, ⟨s.dropWhile p, Text.length_dropWhile_lt h⟩)

end Rest

end Colloquy
