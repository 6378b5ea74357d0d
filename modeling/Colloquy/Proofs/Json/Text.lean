import Colloquy.Json.Printer
import Mathlib.Tactic.Common

/-!
# The characters of JSON text

JSON text shows all of its characters: strings escape the control characters, and what is not part
of a string is written with visible characters, blanks and line breaks.  So whatever a value holds,
no control character but a line break gets from it into its text.
-/

namespace Colloquy

/-- The text has no control characters but line breaks. -/
def Text.Shown (s : List Char) : Prop := ∀ c ∈ s, 0x20 ≤ c.toNat ∨ c = '\n'

namespace Text

variable {s t : List Char}

@[simp] lemma shown_nil : Shown [] := fun _ hc => absurd hc List.not_mem_nil

@[simp] lemma shown_cons {c : Char} : Shown (c :: s) ↔ (0x20 ≤ c.toNat ∨ c = '\n') ∧ Shown s :=
  List.forall_mem_cons

@[simp] lemma shown_append : Shown (s ++ t) ↔ Shown s ∧ Shown t := List.forall_mem_append

lemma shown_replicate {c : Char} (h : 0x20 ≤ c.toNat) (n : Nat) : Shown (List.replicate n c) := by
  intro d hd
  rw [List.eq_of_mem_replicate hd]
  exact .inl h

lemma Shown.take (h : Shown s) (n : Nat) : Shown (s.take n) :=
  fun c hc => h c (List.mem_of_mem_take hc)

lemma Shown.drop (h : Shown s) (n : Nat) : Shown (s.drop n) :=
  fun c hc => h c (List.mem_of_mem_drop hc)

lemma shown_toDigits (n : Nat) : Shown (Nat.toDigits 10 n) := by
  intro c hc
  have digit := Nat.isDigit_of_mem_toDigits (by decide) (by decide) hc
  have bounds := Char.isDigit_iff_toNat.mp digit
  exact .inl (Nat.le_trans (by decide) bounds.1)

end Text

open Text

/-! ## Numbers -/

namespace Decimal

lemma shown_positional {digits : List Char} (h : Shown digits) (leading : Int) :
    Shown (positional digits leading) := by
  have zeros (n : Nat) : Shown (List.replicate n '0') := shown_replicate (by decide) n
  rw [positional]
  dsimp only
  split
  · simp [h, zeros]
  · split
    · simp [h, zeros]
    · simp [h.take, h.drop]

lemma shown_scientific {digits : List Char} (h : Shown digits) (leading : Int) :
    Shown (scientific digits leading) := by
  have fraction : Shown digits.tail := by simpa using h.drop 1
  rw [scientific]
  split
  · split <;> simp [h.take, shown_toDigits]
  · split <;> simp [h.take, shown_toDigits, fraction]

lemma shown_text (x : Binary) (layout : Layout) : Shown (x.text layout) := by
  have digits := shown_toDigits (x.shortest layout.tie).digits
  have unsigned {s : List Char} (h : Shown s) : Shown (if x.negative then '-' :: s else s) := by
    split
    · simp [h]
    · exact h
  rw [Binary.text]
  refine unsigned ?_
  split
  · simp
  · dsimp only
    split
    · exact shown_positional digits _
    · exact shown_scientific digits _

end Decimal

namespace Json

lemma shown_numberText (n : Number) : Shown (numberText n) := by
  cases n with
  | int i =>
    rw [numberText, Int.toString_eq_repr, Int.repr_eq_if]
    split
    · rw [Nat.toList_repr]
      exact shown_toDigits _
    · rw [String.toList_append, Nat.toList_repr, shown_append]
      exact ⟨by simp, shown_toDigits _⟩
  | double x => exact Decimal.shown_text x numberLayout

/-! ## Strings -/

lemma shown_hexDigit : ∀ n < 16, 0x20 ≤ (hexDigit n).toNat := by
  decide

/-- Escapes are shown, and characters that do not show are escaped. -/
lemma shown_escaped (c : Char) : Shown (escaped c) := by
  rw [escaped]
  split
  · simp
  · split
    · simp
    · split
      · rename_i hc
        have high := shown_hexDigit (c.toNat / 16) (by omega)
        have low := shown_hexDigit (c.toNat % 16) (by omega)
        split_ifs <;> simp [high, low]
      · rename_i hc
        simpa using .inl (Nat.le_of_not_lt hc)

lemma shown_quoted (s : List Char) : Shown (quoted s) := by
  have inner : Shown (s.flatMap escaped) := by
    intro c hc
    obtain ⟨d, _, hd⟩ := List.mem_flatMap.mp hc
    exact shown_escaped d c hd
  simp [quoted, inner]

/-! ## Values -/

/-- What the style puts between members is shown. -/
structure Style.Shown (style : Style) : Prop where
  lineBreak : ∀ level, Text.Shown (style.lineBreak level)
  afterColon : Text.Shown style.afterColon

lemma Style.shown_compact : Style.compact.Shown := ⟨fun _ => shown_nil, shown_nil⟩

lemma Style.shown_indented (width : Nat) : (Style.indented width).Shown where
  lineBreak level := by simp [indented, shown_replicate]
  afterColon := by simp [indented]

section Values

variable {style : Style} (hs : style.Shown)

include hs

mutual

/-- **JSON text shows all of its characters.** -/
theorem shown_print (level : Nat) : (v : Json) → Text.Shown (print style level v)
  | null => by simp [print]
  | bool true => by simp [print]
  | bool false => by simp [print]
  | num n => shown_numberText n
  | str s => shown_quoted s.toList
  | arr [] => by simp [print]
  | arr (item :: items) => by
    have head := shown_print (level + 1) item
    have rest := shown_printItems (level + 1) items
    simp [print, head, rest, hs.lineBreak]
  | obj [] => by simp [print]
  | obj ((key, value) :: fields) => by
    have head := shown_print (level + 1) value
    have rest := shown_printFields (level + 1) fields
    simp [print, head, rest, hs.lineBreak, hs.afterColon, shown_quoted]

theorem shown_printItems (level : Nat) :
    (items : List Json) → Text.Shown (printItems style level items)
  | [] => shown_nil
  | item :: items => by
    have head := shown_print level item
    have rest := shown_printItems level items
    simp [printItems, head, rest, hs.lineBreak]

theorem shown_printFields (level : Nat) :
    (fields : List (String × Json)) → Text.Shown (printFields style level fields)
  | [] => shown_nil
  | (key, value) :: fields => by
    have head := shown_print level value
    have rest := shown_printFields level fields
    simp [printFields, head, rest, hs.lineBreak, hs.afterColon, shown_quoted]

end

end Values

end Json

end Colloquy
