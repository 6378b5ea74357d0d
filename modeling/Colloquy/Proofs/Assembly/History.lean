import Colloquy.Proofs.Assembly.Placement
import Colloquy.Proofs.Table

/-!
# The conversation so far

What was said before takes its place among the messages of a text and changes none of them.  The
outline of a text does not depend on it, and filling the outline copies it whole into each place
(`filter_isTemplate_fill`, `filter_isHistory_fill`).  A copy can be told from the messages of the text
by its purpose, which those never have.

`Adds` says where the copies are: one for each history marker, with the messages of what stands
before the marker in front of it and the messages of what stands behind it at its back, and without
a marker one copy in front of the last message, or behind it if that is not the user's.
-/

namespace Colloquy

namespace Message

/-- The message is one of the text itself. -/
def isTemplate (m : Message) : Bool := !m.isHistory

/-- The second message is the first one with the purpose of history, and nothing else is changed. -/
structure Tagged (m tagged : Message) : Prop where
  role : tagged.role = m.role
  content : tagged.content = m.content
  purpose : tagged.metadataValue? purposeKey = some (.str historyPurpose)
  /-- All other metadata is as it was, in the same order. -/
  others : (tagged.metadata.getD []).filter (·.1 ≠ purposeKey) =
    (m.metadata.getD []).filter (·.1 ≠ purposeKey)

lemma isHistory_asHistory (m : Message) : m.asHistory.isHistory = true := by
  simp [isHistory, asHistory, withMetadata, metadataValue?]

lemma isHistory_of_plain {m : Message} (h : m.metadata = none) : m.isHistory = false := by
  simp [isHistory, metadataValue?, h]

lemma asHistory_tagged (m : Message) : Tagged m m.asHistory := by
  refine ⟨rfl, rfl, ?_, ?_⟩
  · simp [asHistory, withMetadata, metadataValue?]
  · exact Table.filter_set_ne _ _ _

end Message

namespace Slot

open Message Segment

/-! ## Filling an outline -/

/-- Whole copies of a conversation, one behind the other. -/
def copies (conversation : List Message) (n : Nat) : List Message :=
  (List.replicate n (conversation.map asHistory)).flatten

lemma copies_succ (conversation : List Message) (n : Nat) :
    copies conversation (n + 1) = conversation.map asHistory ++ copies conversation n := by
  rw [copies, List.replicate_succ, List.flatten_cons, copies]

lemma filter_isHistory_asHistory (conversation : List Message) :
    (conversation.map asHistory).filter isHistory = conversation.map asHistory := by
  rw [List.filter_eq_self]
  intro m hm
  obtain ⟨m, _, rfl⟩ := List.mem_map.mp hm
  exact m.isHistory_asHistory

lemma filter_isTemplate_asHistory (conversation : List Message) :
    (conversation.map asHistory).filter isTemplate = [] := by
  rw [List.filter_eq_nil_iff]
  intro m hm
  obtain ⟨m, _, rfl⟩ := List.mem_map.mp hm
  simp [isTemplate, isHistory_asHistory]

variable {slots : List Slot} (plain : ∀ m ∈ fill [] slots, m.metadata = none)
include plain

/-- **The messages of the text are those without the conversation.** -/
lemma filter_isTemplate_fill (conversation : List Message) :
    (fill conversation slots).filter isTemplate = fill [] slots := by
  induction slots with
  | nil => rfl
  | cons slot rest ih =>
    cases slot with
    | history =>
      rw [fill, List.filter_append, filter_isTemplate_asHistory]
      exact ih plain
    | message m =>
      have own : m.isTemplate = true := by
        simp [isTemplate, isHistory_of_plain (plain m List.mem_cons_self)]
      rw [fill, List.filter_cons_of_pos own]
      exact congrArg (m :: ·) (ih fun m hm => plain m (List.mem_cons_of_mem _ hm))

/-- **The others are one copy of the conversation for each place.** -/
lemma filter_isHistory_fill (conversation : List Message) :
    (fill conversation slots).filter isHistory = copies conversation (slots.count history) := by
  induction slots with
  | nil => rfl
  | cons slot rest ih =>
    cases slot with
    | history =>
      rw [fill, List.filter_append, filter_isHistory_asHistory, List.count_cons_self, copies_succ,
        ih plain]
    | message m =>
      have own : ¬m.isHistory = true := by
        simp [isHistory_of_plain (plain m List.mem_cons_self)]
      have other : message m ≠ history := by simp
      rw [fill, List.filter_cons_of_neg own, List.count_cons_of_ne other]
      exact ih fun m hm => plain m (List.mem_cons_of_mem _ hm)

omit plain

/-! ## The places of a text -/

lemma count_history_close (role : Role) (parts : List Part) (text : String) :
    (close role parts text).count history = 0 := by
  unfold close
  split
  · rfl
  · rfl

/-- An outline has a place for each history marker. -/
lemma count_history_outlineFrom (role : Role) (parts : List Part) (text : String)
    (segments : List Segment) :
    (outlineFrom role parts text segments).count history =
      segments.count (.marker .history) := by
  induction segments generalizing role parts text with
  | nil => exact count_history_close role parts text
  | cons s rest ih =>
    cases s with
    | text t =>
      rw [outlineFrom, ih]
      simp
    | marker m =>
      cases m with
      | media url contentType =>
        rw [outlineFrom, ih]
        simp
      | role name =>
        rw [outlineFrom, List.count_append, count_history_close, ih]
        simp
      | history =>
        rw [outlineFrom, List.count_append, count_history_close, List.count_cons_self, ih]
        simp

/-- Behind a history marker the outline begins anew, whatever stands before. -/
lemma outlineFrom_append_history (role : Role) (parts : List Part) (text : String)
    (front back : List Segment) :
    outlineFrom role parts text (front ++ .marker .history :: back) =
      outlineFrom role parts text front ++ history :: outlineFrom .model [] "" back := by
  induction front generalizing role parts text with
  | nil => rfl
  | cons s rest ih =>
    cases s with
    | text t => exact ih role parts (text ++ t)
    | marker m =>
      cases m with
      | media url contentType => exact ih role _ ""
      | role name =>
        rw [List.cons_append, outlineFrom, outlineFrom, ih, List.append_assoc]
      | history =>
        rw [List.cons_append, outlineFrom, outlineFrom, ih, List.append_assoc, List.cons_append]

/-- There is one place at least. -/
lemma count_history_withPlace (slots : List Slot) :
    (withPlace slots).count history = max 1 (slots.count history) := by
  rcases withPlace_cases slots with
    ⟨some, same⟩ | ⟨none, others, last, rfl, _, before⟩ | ⟨none, _, behind⟩
  · have pos : 0 < slots.count history := List.count_pos_iff.mpr some
    rw [same]
    omega
  · have zero : (others ++ [message last]).count history = 0 := List.count_eq_zero.mpr none
    rw [List.count_append] at zero
    rw [before, List.count_append, List.count_append]
    simp
    omega
  · have zero : slots.count history = 0 := List.count_eq_zero.mpr none
    rw [behind, List.count_append, zero]
    rfl

/-- The number of history markers in a text. -/
def places (rendered : String) : Nat := (scan rendered.toList).count (.marker .history)

lemma count_history_outline (rendered : String) :
    (outline rendered).count history = places rendered := by
  by_cases marked : HasMarker rendered
  · rw [outline, if_pos ((any_isMarker_iff rendered).mpr marked), count_history_outlineFrom, places]
  · have none : .marker .history ∉ scan rendered.toList := fun h => marked ⟨.history, h⟩
    rw [outline_of_not_hasMarker marked, places, List.count_eq_zero.mpr none]
    rfl

lemma plain_of_holds {messages : List Message} {groups : List (List Placed)}
    (h : List.Forall₂ Placed.Holds messages groups) : ∀ m ∈ messages, m.metadata = none := by
  intro m hm
  obtain ⟨_, _, holds⟩ := Placed.exists_holds h m hm
  exact holds.plain

/-- The messages of a text have no metadata. -/
lemma plain_outline (rendered : String) : ∀ m ∈ fill [] (outline rendered), m.metadata = none := by
  by_cases marked : HasMarker rendered
  · exact plain_of_holds (outline_holds marked)
  · rw [outline_of_not_hasMarker marked]
    intro m hm
    obtain rfl : m = .ofText .user rendered := by simpa [fill] using hm
    rfl

/-- An outline without places is a list of messages, whatever the conversation. -/
lemma map_message_fill (conversation : List Message) {slots : List Slot} (h : history ∉ slots) :
    (fill conversation slots).map message = slots := by
  induction slots with
  | nil => rfl
  | cons slot rest ih =>
    rw [List.mem_cons, not_or] at h
    cases slot with
    | history => exact absurd rfl h.1
    | message m => exact congrArg (message m :: ·) (ih h.2)

lemma fill_of_notMem (conversation : List Message) {slots : List Slot} (h : history ∉ slots) :
    fill conversation slots = fill [] slots := by
  have injective : Function.Injective message := fun _ _ same => message.inj same
  apply injective.list_map
  rw [map_message_fill conversation h, map_message_fill [] h]

/-- These are the messages of some segments behind others, with one copy of the conversation for
each history marker among them. -/
structure Becomes (conversation : List Message) (before segments : List Segment)
    (messages : List Message) : Prop where
  template : List.Forall₂ Placed.Holds (messages.filter isTemplate)
    ((placedFrom before segments).splitBy Placed.together)
  copies : messages.filter isHistory =
    copies conversation (segments.count (.marker .history))

lemma outlineFrom_becomes (conversation : List Message) {segments : List Segment}
    (apart : segments.IsChain Apart) (before : List Segment) :
    Becomes conversation before segments
      (fill conversation (outlineFrom (roleAfter before) [] "" segments)) := by
  have fresh : ∀ p ∈ ([] : List Placed), p.Open before := by simp
  have holds := outlineFrom_holds apart before fresh
  have plain := plain_of_holds holds
  refine ⟨?_, ?_⟩
  · rw [List.map_nil] at plain
    rw [filter_isTemplate_fill plain]
    exact holds
  · rw [List.map_nil] at plain
    rw [filter_isHistory_fill plain, count_history_outlineFrom]

end Slot

namespace Message

open Segment Slot

/-- What a conversation adds to the messages of a text. -/
structure Adds (rendered : String) (conversation messages : List Message) : Prop where
  /-- Without what was taken over, the messages are those of the text alone. -/
  template : messages.filter isTemplate = assemble rendered []
  /-- What was taken over is the conversation, once for each history marker, and once if there is
  none. -/
  copies : messages.filter isHistory = copies conversation (max 1 (places rendered))
  /-- Only the purpose of its messages is another one. -/
  tagged : List.Forall₂ Tagged conversation (conversation.map asHistory)
  /-- There is a copy where each history marker stands: behind the messages of what is before the
  marker and the copies for markers before, and in front of the others. -/
  marked : ∀ front back, runs (scan rendered.toList) = front ++ .marker .history :: back →
    ∃ before behind, messages = before ++ conversation.map asHistory ++ behind ∧
      Becomes conversation [] front before ∧
      Becomes conversation (front ++ [.marker .history]) back behind
  /-- Without a history marker the copy is in front of the last message if that is the user's, and
  at the end if it is not, or if there is none. -/
  unmarked : places rendered = 0 →
    (∃ others last, assemble rendered [] = others ++ [last] ∧ last.role = .user ∧
      messages = others ++ conversation.map asHistory ++ [last]) ∨
    ((∀ last ∈ (assemble rendered []).getLast?, last.role ≠ .user) ∧
      messages = assemble rendered [] ++ conversation.map asHistory)

/-- **A conversation only adds messages.**  Whatever the text and the conversation are. -/
theorem assemble_adds (rendered : String) (conversation : List Message) :
    Adds rendered conversation (assemble rendered conversation) := by
  have plain : ∀ m ∈ fill [] (withPlace (outline rendered)), m.metadata = none := by
    rw [fill_nil_withPlace]
    exact plain_outline rendered
  refine ⟨filter_isTemplate_fill plain conversation, ?_, ?_, ?_, ?_⟩
  · rw [assemble, filter_isHistory_fill plain, count_history_withPlace, count_history_outline]
  · rw [List.forall₂_map_right_iff, List.forall₂_same]
    exact fun m _ => m.asHistory_tagged
  · intro front back h
    have known : HasMarker rendered := by
      have inside : .marker .history ∈ runs (scan rendered.toList) := by simp [h]
      refine ⟨.history, ?_⟩
      rwa [← List.count_pos_iff, ← count_runs, List.count_pos_iff]
    have apart := isChain_runs (scan rendered.toList)
    rw [h] at apart
    have split : outline rendered =
        outlineFrom .user [] "" front ++ history :: outlineFrom .model [] "" back := by
      rw [outline_of_hasMarker known, h, outlineFrom_append_history]
    have place : withPlace (outline rendered) = outline rendered := by
      rw [withPlace, if_pos]
      simp [split]
    refine ⟨_, _, ?_, outlineFrom_becomes conversation apart.left_of_append [],
      outlineFrom_becomes conversation apart.right_of_append.tail (front ++ [.marker .history])⟩
    rw [assemble, place, split, fill_append, fill, ← List.append_assoc,
      roleAfter_concat_of_some front rfl]
    rfl
  · intro none
    have free : history ∉ outline rendered := by
      rw [← List.count_eq_zero, count_history_outline, none]
    rw [assemble_nil, assemble]
    rcases withPlace_cases (outline rendered) with
      ⟨place, _⟩ | ⟨_, others, last, whole, user, before⟩ | ⟨_, other, behind⟩
    · exact absurd place free
    · refine .inl ⟨fill [] others, last, ?_, user, ?_⟩
      · rw [whole, fill_append]
        rfl
      · rw [whole, List.mem_append, not_or] at free
        rw [before, fill_append, fill_of_notMem conversation free.1, List.append_assoc]
        rfl
    · refine .inr ⟨fun last hl => other last ?_, ?_⟩
      · rw [← map_message_fill [] free, List.getLast?_map, hl]
        rfl
      · rw [behind, fill_append, fill_of_notMem conversation free, fill, fill, List.append_nil]

/-- The conversation stands where the marker does, and behind it the model speaks. -/
example :
    assemble (String.ofList ("One".toList ++ Marker.history.encode ++ "Two".toList))
        [.ofText .user "Before"] =
      [.ofText .user "One", (ofText .user "Before").asHistory, .ofText .model "Two"] := by
  cbv

end Message

end Colloquy
