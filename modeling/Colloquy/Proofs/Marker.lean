import Colloquy.Marker
import Colloquy.Proofs.Text

/-!
# Markers in a text

A marker that was written is found again, with the fields that it has after `stripReserved`, in
whatever text it stands: the text before it only has to be free of the character that starts a
marker, and the text after it does not matter.  `scan_pieces` puts this together for a whole text
that is written piece by piece.
-/

namespace Colloquy

namespace Marker

/-! ## Reserved characters -/

/-- The text has none of the characters that markers are built from. -/
def Unreserved (s : List Char) : Prop := ∀ c ∈ s, isReserved c = false

lemma unreserved_stripChars (s : List Char) : Unreserved (stripChars s) := by
  intro c hc
  simpa using (List.mem_filter.mp hc).2

lemma unreserved_of_all {s : List Char} (h : (s.all fun c => !isReserved c) = true) :
    Unreserved s := by
  intro c hc
  simpa using List.all_eq_true.mp h c hc

lemma Unreserved.start_notMem {s : List Char} (h : Unreserved s) : start ∉ s := by
  intro hm
  exact absurd (h start hm) (by decide)

/-- The marker as it is read back: its fields without reserved characters, and no content type in
the place of an empty one. -/
def normal : Marker → Marker
  | role name => role (stripReserved name)
  | media url contentType =>
    media (stripReserved url) ((contentType.map stripReserved).filter (· ≠ ""))
  | history => history

lemma unreserved_fields (m : Marker) : ∀ f ∈ m.fields, Unreserved f := by
  have kind : Unreserved "role".toList ∧ Unreserved "media".toList ∧
      Unreserved "history".toList :=
    ⟨unreserved_of_all rfl, unreserved_of_all rfl, unreserved_of_all rfl⟩
  intro f hf
  rcases m with name | ⟨url, _ | contentType⟩ | _
  all_goals
    simp only [fields, List.mem_cons, List.not_mem_nil, or_false] at hf
  · rcases hf with rfl | rfl
    · exact kind.1
    · exact unreserved_stripChars _
  · rcases hf with rfl | rfl
    · exact kind.2.1
    · exact unreserved_stripChars _
  · rcases hf with rfl | rfl | rfl
    · exact kind.2.1
    · exact unreserved_stripChars _
    · exact unreserved_stripChars _
  · subst hf
    exact kind.2.2

lemma fields_ne_nil (m : Marker) : m.fields ≠ [] := by
  rcases m with name | ⟨url, _ | contentType⟩ | _ <;> exact List.cons_ne_nil _ _

/-- A marker does not hold the character that ends it. -/
lemma stop_notMem_body (m : Marker) : stop ∉ m.body := by
  intro hm
  rcases Text.mem_intercalate hm with hs | ⟨f, hf, hc⟩
  · exact absurd hs (by decide)
  · exact absurd (m.unreserved_fields f hf stop hc) (by decide)

/-! ## Reading markers back -/

/-- The fields of a marker are read back from its body. -/
lemma pieces_body (m : Marker) : Text.pieces (· == separator) m.body = m.fields := by
  have free : ∀ f ∈ m.fields, separator ∉ f := by
    intro f hf hm
    exact absurd (m.unreserved_fields f hf separator hm) (by decide)
  rw [Text.pieces_eq_splitOnP, ← List.splitOn_eq_splitOnP]
  exact List.splitOn_intercalate separator free m.fields_ne_nil

lemma ofFields?_fields (m : Marker) : ofFields? m.fields = some m.normal := by
  rcases m with name | ⟨url, _ | contentType⟩ | _
  · rfl
  · rfl
  · rw [fields, ofFields?, if_neg (by decide), if_pos rfl, normal, Option.map_some]
    by_cases h : stripChars contentType.toList = []
    · simp [stripReserved, Option.filter, h]
    · simp [stripReserved, Option.filter, h]
  · rfl

/-- **A marker is read back in its normal form.** -/
lemma decode?_body (m : Marker) : decode? m.body = some m.normal := by
  rw [decode?, pieces_body, ofFields?_fields]

end Marker

namespace Segment

open Marker

/-- A text in which no marker starts is plain text. -/
lemma scan_of_start_notMem {s : List Char} (h : start ∉ s) : scan s = ofText s := by
  rw [scan]
  split
  · rfl
  · rename_i before tail hc
    cases (Text.cutAt?_eq_none h).symm.trans hc

/-- The first marker of a text is found with the text before it, and the scan goes on behind it. -/
lemma scan_append_encode {before : List Char} (h : start ∉ before) (m : Marker)
    (rest : List Char) :
    scan (before ++ m.encode ++ rest) = ofText before ++ marker m.normal :: scan rest := by
  have first : Text.cutAt? (· == start) (before ++ m.encode ++ rest) =
      some (before, m.body ++ stop :: rest) := by
    rw [encode, List.append_assoc, List.cons_append, List.cons_append, List.append_assoc]
    exact Text.cutAt?_append_cons h _
  have last : Text.cutAt? (· == stop) (m.body ++ stop :: rest) = some (m.body, rest) :=
    Text.cutAt?_append_cons m.stop_notMem_body rest
  rw [scan]
  split
  · rename_i hn
    cases first.symm.trans hn
  · rename_i b tail hc
    obtain ⟨rfl, rfl⟩ := Prod.mk.inj (Option.some.inj (first.symm.trans hc))
    split
    · rename_i hn
      cases last.symm.trans hn
    · rename_i body r hc'
      obtain ⟨rfl, rfl⟩ := Prod.mk.inj (Option.some.inj (last.symm.trans hc'))
      rw [decode?_body]

end Segment

end Colloquy
