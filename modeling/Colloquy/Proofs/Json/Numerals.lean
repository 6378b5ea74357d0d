import Colloquy.Json.Printer
import Colloquy.Proofs.Json.Places

/-!
# Numerals that are read

A numeral is read up to the first character that belongs to no number, whatever follows.  An integer
within sixty-four bits is read as itself from its digits.
-/

namespace Colloquy.Json

/-! ## The end of a numeral -/

/-- No word and no number goes on in the text. -/
def Ends (rest : List Char) : Prop := ∀ c ∈ rest.head?, isPlain c = false

lemma ends_nil : Ends [] := fun _ hc => absurd hc (Option.not_mem_none _)

variable {s t rest : List Char} {c : Char}

section

variable (he : Ends rest)

include he

lemma digits_append (s : List Char) :
    Numeral.digits (s ++ rest) = ((Numeral.digits s).1, (Numeral.digits s).2 ++ rest) := by
  have none_here : Numeral.digits rest = ([], rest) := by
    cases rest with
    | nil => rfl
    | cons c more =>
      have noDigit : ¬ c.isDigit = true := by
        intro hc
        cases (isPlain_of_isDigit hc).symm.trans (he c rfl)
      simp [Numeral.digits, noDigit]
  induction s with
  | nil => exact none_here
  | cons c s ih =>
    rw [Numeral.digits, Numeral.digits, Prod.mk.injEq] at ih ⊢
    by_cases hc : c.isDigit = true
    · simp [hc, ih]
    · simp [hc]

lemma scanWhole_append {digits : List Char} (h : Numeral.scanWhole s = some (digits, t)) :
    Numeral.scanWhole (s ++ rest) = some (digits, t ++ rest) := by
  rw [Numeral.scanWhole] at h ⊢
  rw [digits_append he]
  generalize Numeral.digits s = taken at h ⊢
  obtain ⟨ds, r⟩ := taken
  dsimp only at h ⊢
  split at h
  · cases h
  · cases h
  · rename_i nonempty noZero hd
    obtain ⟨rfl, rfl⟩ := Prod.mk.inj hd
    obtain ⟨rfl, rfl⟩ := Prod.mk.inj (Option.some.inj h)
    split
    · rename_i hd
      exact absurd (Prod.mk.inj hd).1 nonempty
    · rename_i hd
      exact absurd (Prod.mk.inj hd).1 (noZero _ _)
    · rename_i hd
      obtain ⟨rfl, rfl⟩ := Prod.mk.inj hd
      rfl

/-- Digits that have to be there are. -/
lemma digits_match_append {α : Type} {f : List Char → α} {a : α}
    (h : (match Numeral.digits s with
      | ([], _) => none
      | (ds, rest) => some (f ds, rest)) = some (a, t)) :
    (match Numeral.digits (s ++ rest) with
      | ([], _) => none
      | (ds, rest) => some (f ds, rest)) = some (a, t ++ rest) := by
  rw [digits_append he]
  generalize Numeral.digits s = taken at h ⊢
  obtain ⟨ds, r⟩ := taken
  cases ds with
  | nil => cases h
  | cons d ds =>
    obtain ⟨rfl, rfl⟩ := Prod.mk.inj (Option.some.inj h)
    rfl

lemma scanFraction_append {fraction : Option (List Char)}
    (h : Numeral.scanFraction s = some (fraction, t)) :
    Numeral.scanFraction (s ++ rest) = some (fraction, t ++ rest) := by
  have plain {s : List Char} (hs : s.head? ≠ some '.') :
      Numeral.scanFraction s = some (none, s) := by
    rw [Numeral.scanFraction.eq_def]
    split
    · exact absurd rfl hs
    · rfl
  cases s with
  | nil =>
    obtain ⟨rfl, rfl⟩ := Prod.mk.inj (Option.some.inj h)
    exact plain fun hr => absurd (he _ hr) (by decide)
  | cons c s =>
    by_cases hc : c = '.'
    · subst hc
      exact digits_match_append he h
    · rw [plain (by simpa using hc)] at h
      obtain ⟨rfl, rfl⟩ := Prod.mk.inj (Option.some.inj h)
      exact plain (by simpa using hc)

lemma scanSign_append (s : List Char) :
    Numeral.scanSign (s ++ rest) = ((Numeral.scanSign s).1, (Numeral.scanSign s).2 ++ rest) := by
  have plain {s : List Char} (hp : s.head? ≠ some '+') (hm : s.head? ≠ some '-') :
      Numeral.scanSign s = (false, s) := by
    rw [Numeral.scanSign.eq_def]
    split
    · exact absurd rfl hm
    · exact absurd rfl hp
    · rfl
  cases s with
  | nil =>
    exact plain (fun hr => absurd (he _ hr) (by decide)) fun hr => absurd (he _ hr) (by decide)
  | cons c s =>
    by_cases hm : c = '-'
    · subst hm
      rfl
    · by_cases hp : c = '+'
      · subst hp
        rfl
      · rw [plain (by simpa using hp) (by simpa using hm), List.cons_append,
          plain (by simpa using hp) (by simpa using hm)]
        rfl

lemma scanExponent_append {exponent : Option Int}
    (h : Numeral.scanExponent s = some (exponent, t)) :
    Numeral.scanExponent (s ++ rest) = some (exponent, t ++ rest) := by
  cases s with
  | nil =>
    obtain ⟨rfl, rfl⟩ := Prod.mk.inj (Option.some.inj h)
    cases rest with
    | nil => rfl
    | cons c rest =>
      have noLetter : ¬ (c = 'e' ∨ c = 'E') := by
        rintro (rfl | rfl)
        all_goals exact absurd (he _ rfl) (by decide)
      rw [List.nil_append, Numeral.scanExponent, if_neg noLetter]
  | cons c s =>
    rw [Numeral.scanExponent] at h
    rw [List.cons_append, Numeral.scanExponent]
    split at h
    · rename_i letter
      rw [if_pos letter, scanSign_append he]
      exact digits_match_append he h
    · rename_i noLetter
      obtain ⟨rfl, rfl⟩ := Prod.mk.inj (Option.some.inj h)
      rw [if_neg noLetter]
      rfl

/-- A numeral is read off a longer text alike. -/
lemma scan_append {n : Numeral} (h : Numeral.scan s = some (n, t)) :
    Numeral.scan (s ++ rest) = some (n, t ++ rest) := by
  have unsigned {s : List Char} {negative : Bool} (h : scanUnsigned negative s = some (n, t)) :
      scanUnsigned negative (s ++ rest) = some (n, t ++ rest) := by
    obtain ⟨whole, fraction, exponent, r₁, r₂, hw, hf, hx, rfl⟩ := exists_of_scanUnsigned h
    simp only [scanUnsigned, scanWhole_append he hw, scanFraction_append he hf,
      scanExponent_append he hx, bind, Option.bind_some]
    rfl
  cases s with
  | nil => cases h
  | cons c s =>
    by_cases hc : c = '-'
    · subst hc
      exact unsigned h
    · rw [scan_of_ne (by simpa using hc)] at h
      rw [List.cons_append, scan_of_ne (by simpa using hc)]
      exact unsigned h

end

/-- A numeral begins with a digit or a sign. -/
lemma exists_of_scan {n : Numeral} (h : Numeral.scan s = some (n, t)) :
    ∃ c more, s = c :: more ∧ (c.isDigit = true ∨ c = '-') := by
  cases s with
  | nil => cases h
  | cons c s =>
    refine ⟨c, s, rfl, ?_⟩
    by_cases hc : c = '-'
    · exact .inr hc
    · rw [scan_of_ne (by simpa using hc)] at h
      obtain ⟨_, _, _, _, _, hw, -⟩ := exists_of_scanUnsigned h
      by_contra hd
      have noDigit : ¬ c.isDigit = true := fun hd' => hd (.inl hd')
      simp [Numeral.scanWhole, Numeral.digits, noDigit] at hw

lemma exists_scan_of_read? {n : Number} (h : Numeral.read? s = some n) :
    ∃ m, Numeral.scan s = some (m, []) ∧ m.value? = some n := by
  rw [Numeral.read?] at h
  split at h
  · exact ⟨_, ‹_›, h⟩
  · cases h

/-! ## Integers -/

lemma le_ofDigitChars (digits : List Char) (n : Nat) : n ≤ Nat.ofDigitChars 10 digits n := by
  induction digits generalizing n with
  | nil => exact Nat.le_refl n
  | cons c digits ih =>
    have step : n ≤ 10 * n + (c.toNat - '0'.toNat) := by omega
    exact step.trans (ih _)

/-- Digits are kept as long as their number fits. -/
lemma accumulate_eq {digits : List Char} {n : Nat}
    (h : Nat.ofDigitChars 10 digits n ≤ Numeral.largestSignificand) :
    Numeral.accumulate n digits = (Nat.ofDigitChars 10 digits n, 0) := by
  induction digits generalizing n with
  | nil => rfl
  | cons c digits ih =>
    have fits : 10 * n + Text.digitValue c ≤ Numeral.largestSignificand :=
      (le_ofDigitChars digits _).trans h
    rw [Numeral.accumulate, if_pos fits]
    exact ih h

/-- The digits of a number do not start with a zero, unless that is all of them. -/
lemma head?_toDigits {n : Nat} (h : n ≠ 0) : (Nat.toDigits 10 n).head? ≠ some '0' := by
  induction n using Nat.strong_induction_on with
  | _ n ih =>
  by_cases small : n < 10
  · rw [Nat.toDigits_of_lt_base small]
    simpa using h
  · rw [Nat.toDigits_of_base_le (by decide) (by omega),
      List.head?_append_of_ne_nil _ Nat.toDigits_ne_nil]
    exact ih (n / 10) (by omega) (by omega)

lemma scanWhole_toDigits (n : Nat) :
    Numeral.scanWhole (Nat.toDigits 10 n) = some (Nat.toDigits 10 n, []) := by
  have all : ∀ c ∈ Nat.toDigits 10 n, c.isDigit = true :=
    fun c hc => Nat.isDigit_of_mem_toDigits (by decide) (by decide) hc
  have digits : Numeral.digits (Nat.toDigits 10 n) = (Nat.toDigits 10 n, []) := by
    rw [Numeral.digits, List.takeWhile_eq_self_iff.mpr all, List.dropWhile_eq_nil_iff.mpr all]
  rw [Numeral.scanWhole, digits]
  split
  · rename_i hd
    exact absurd (Prod.mk.inj hd).1 Nat.toDigits_ne_nil
  · rename_i c more _ hd
    have first := (Prod.mk.inj hd).1
    by_cases h : n = 0
    · subst h
      cases first
    · exact absurd (by rw [first]; rfl) (head?_toDigits h)
  · rename_i hd
    obtain ⟨rfl, rfl⟩ := Prod.mk.inj hd
    rfl

lemma scan_toDigits (n : Nat) :
    Numeral.scan (Nat.toDigits 10 n) = some (⟨false, Nat.toDigits 10 n, none, none⟩, []) := by
  have noSign : (Nat.toDigits 10 n).head? ≠ some '-' := by
    intro hs
    have digit : ('-').isDigit = true :=
      Nat.isDigit_of_mem_toDigits (by decide) (by decide) (List.mem_of_mem_head? hs)
    exact absurd digit (by decide)
  rw [scan_of_ne noSign, scanUnsigned, scanWhole_toDigits]
  rfl

lemma scan_minus_toDigits (n : Nat) :
    Numeral.scan ('-' :: Nat.toDigits 10 n) =
      some (⟨true, Nat.toDigits 10 n, none, none⟩, []) := by
  rw [scan_minus, scanUnsigned, scanWhole_toDigits]
  rfl

/-- An integer within sixty-four bits is read as itself from its text. -/
theorem read?_int {n : Int} (least : -Decimal.twoTo 63 ≤ n) (largest : n < Decimal.twoTo 64) :
    Numeral.read? (numberText (.int n)) = some (.int n) := by
  have kept {m : Nat} (h : m < Decimal.twoTo 64) :
      Numeral.accumulate 0 (Nat.toDigits 10 m) = (m, 0) := by
    have value : Nat.ofDigitChars 10 (Nat.toDigits 10 m) 0 = m :=
      Nat.ofDigitChars_toDigits (by decide) (by decide)
    have all := @accumulate_eq (Nat.toDigits 10 m) 0
    rw [value] at all
    exact all (Nat.le_sub_one_of_lt h)
  rw [numberText, Int.toString_eq_repr, Int.repr_eq_if]
  split
  · rename_i positive
    rw [Nat.toList_repr, Numeral.read?, scan_toDigits]
    simp [Numeral.value?, kept (by omega : n.toNat < Decimal.twoTo 64)]
    omega
  · rename_i negative
    have bounds : 0 < (-n).toNat ∧ (-n).toNat ≤ Decimal.twoTo 63 := by omega
    have fits : Decimal.twoTo 63 < Decimal.twoTo 64 := by decide
    rw [String.toList_append, Nat.toList_repr]
    change Numeral.read? ('-' :: Nat.toDigits 10 (-n).toNat) = _
    rw [Numeral.read?, scan_minus_toDigits]
    simp [Numeral.value?, kept (bounds.2.trans_lt fits), bounds]
    omega

end Colloquy.Json
