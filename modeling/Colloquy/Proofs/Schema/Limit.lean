import Colloquy.Proofs.Schema.Checking
import Mathlib.Data.List.Basic
import Mathlib.Data.List.ProdSigma
import Mathlib.Order.Monotone.Basic

/-!
# How many references are followed

A checker follows a limited number of references, one after the other.  The more it may follow the
more it finds wrong, so the pairs of a reference and a value that it finds something wrong with
become more as the number grows.  Only the references of the document and the parts of the value
count, so there are finitely many pairs, and once no pair is added none ever will be.

Hence the number that is allowed is enough: `check_checker_of_le` says that nothing else is found
with any larger one.
-/

namespace Colloquy.JsonSchema

variable (strict : Bool) (root : Json)

lemma checker_strict (n : Nat) : (checker strict root n).strict = strict := by
  cases n <;> rfl

variable {strict root}

lemma follow_of_target {reference : String} {found : Json} (h : target? root reference = some found)
    (n : Nat) (v : Json) :
    (checker strict root (n + 1)).follow reference v = check (checker strict root n) found v := by
  rw [checker]
  dsimp only
  rw [h]

lemma follow_of_no_target {reference : String} (h : target? root reference = none) (n : Nat)
    (v : Json) : (checker strict root n).follow reference v = [] := by
  cases n with
  | zero => rfl
  | succ n =>
    rw [checker]
    dsimp only
    rw [h]

variable {refs : List String} {values : List Json}

lemma Checker.Covers.trans {c c' c'' : Checker} (h : c.Covers refs values c')
    (h' : c'.Covers refs values c'') (hs : c'.strict = c.strict) : c.Covers refs values c'' where
  strict := by
    rcases h'.strict with strict | strict
    · exact .inl (hs ▸ strict)
    · exact .inr (strict.trans hs)
  follow r hr v hv hc := h'.follow r hr v hv (h.follow r hr v hv hc)

/-- A checker that may follow fewer references accepts what one accepts that may follow more. -/
lemma covers_of_le {n m : Nat} (h : n ≤ m) :
    (checker strict root m).Covers refs values (checker strict root n) := by
  have succ (n : Nat) : ∀ refs values,
      (checker strict root (n + 1)).Covers refs values (checker strict root n) := by
    induction n with
    | zero => exact fun _ _ => ⟨.inr rfl, fun _ _ _ _ _ => rfl⟩
    | succ n ih =>
      intro refs values
      refine ⟨.inr rfl, fun reference _ v _ hc => ?_⟩
      cases ht : target? root reference with
      | none => exact follow_of_no_target ht (n + 1) v
      | some found =>
        rw [follow_of_target ht] at hc ⊢
        exact check_of_covers found v (ih _ _) hc
  induction m, h using Nat.le_induction with
  | base => exact ⟨.inr rfl, fun _ _ _ _ hc => hc⟩
  | succ m h ih =>
    refine (succ m refs values).trans ih ?_
    rw [checker_strict, checker_strict]

lemma follow_of_le {n m : Nat} (h : n ≤ m) {reference : String} {v : Json}
    (hc : (checker strict root m).follow reference v = []) :
    (checker strict root n).follow reference v = [] := by
  have covers : (checker strict root m).Covers [reference] [v] (checker strict root n) :=
    covers_of_le h
  exact covers.follow reference List.mem_cons_self v List.mem_cons_self hc

/-! ## Pairs with which something is wrong -/

variable (strict root)

/-- The references of a document with the parts of a value for which a checker finds something
wrong under them. -/
def rejected (v : Json) (n : Nat) : List (String × Json) :=
  (references root ×ˢ parts v).filter fun p =>
    !((checker strict root n).follow p.1 p.2).isEmpty

variable {strict root} {v : Json}

lemma mem_rejected {n : Nat} {p : String × Json} :
    p ∈ rejected strict root v n ↔
      (p.1 ∈ references root ∧ p.2 ∈ parts v) ∧ (checker strict root n).follow p.1 p.2 ≠ [] := by
  obtain ⟨reference, w⟩ := p
  rw [rejected, List.mem_filter, List.mem_product]
  simp

lemma length_rejected_le (n : Nat) :
    (rejected strict root v n).length ≤ (references root).length * (parts v).length := by
  rw [← List.length_product]
  exact List.length_filter_le _ _

lemma rejected_sublist {n m : Nat} (h : n ≤ m) :
    (rejected strict root v n).Sublist (rejected strict root v m) := by
  refine List.monotone_filter_right _ fun p hp => ?_
  rw [Bool.not_eq_true', List.isEmpty_eq_false_iff] at hp ⊢
  intro hm
  exact hp (follow_of_le h hm)

/-- As long as no pair is added, a checker accepts what one accepts that may follow fewer
references. -/
lemma covers_of_length_rejected {n m : Nat} (h : n ≤ m)
    (hl : (rejected strict root v n).length = (rejected strict root v m).length) :
    (checker strict root n).Covers (references root) (parts v) (checker strict root m) := by
  have same := (rejected_sublist h).eq_of_length hl
  refine ⟨.inr (by rw [checker_strict, checker_strict]), fun reference hr w hw hc => ?_⟩
  by_contra hm
  have added : (reference, w) ∈ rejected strict root v m := mem_rejected.mpr ⟨⟨hr, hw⟩, hm⟩
  rw [← same, mem_rejected] at added
  exact added.2 hc

/-- If following one reference more adds no pair, nor does following another one. -/
lemma length_rejected_succ {n : Nat} (h : (rejected strict root v n).length =
    (rejected strict root v (n + 1)).length) :
    (rejected strict root v (n + 1)).length = (rejected strict root v (n + 2)).length := by
  have covers := covers_of_length_rejected (Nat.le_succ n) h
  refine congrArg List.length (List.filter_congr fun p hp => ?_)
  have hw : p.2 ∈ parts v := (List.mem_product.mp hp).2
  refine congrArg (fun b => !b) (Bool.eq_iff_iff.mpr ?_)
  rw [List.isEmpty_iff, List.isEmpty_iff]
  constructor
  · intro hc
    cases ht : target? root p.1 with
    | none => exact follow_of_no_target ht _ _
    | some found =>
      rw [follow_of_target ht] at hc ⊢
      exact check_of_covers found p.2
        (covers.mono (references_target ht) (parts_subset v p.2 hw)) hc
  · exact follow_of_le (Nat.le_succ (n + 1))

/-- **The number of references that may be followed is enough**: a checker finds something wrong
with the value if one does that may follow more. -/
theorem check_checker_of_le {n : Nat} (h : referenceLimit root v ≤ n) :
    check (checker strict root n) root v = [] ↔
      check (checker strict root (referenceLimit root v)) root v = [] := by
  have bound : (references root).length * (parts v).length ≤ referenceLimit root v := by
    rw [length_parts, referenceLimit, Nat.mul_comm]
    exact Nat.mul_le_mul (Nat.le_succ _) (Nat.le_succ_of_le (length_references root))
  -- Pairs are only ever added, so their number settles within a bound for it.
  have settled {m : Nat} (hm : (references root).length * (parts v).length ≤ m) :=
    Nat.stabilises_of_monotone (f := fun n => (rejected strict root v n).length)
      (fun n m hnm => (rejected_sublist hnm).length_le) length_rejected_le
      (fun n hn => length_rejected_succ hn) hm
  constructor
  · exact check_of_covers root v (covers_of_le h)
  · have same := (settled bound).trans (settled (bound.trans h)).symm
    exact check_of_covers root v (covers_of_length_rejected h same)

end Colloquy.JsonSchema
