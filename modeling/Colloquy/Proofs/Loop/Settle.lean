import Colloquy.Loop.Batch
import Colloquy.Proofs.Message
import Mathlib.Data.List.Forall2

/-!
# How a batch is settled

Requests, outcomes, answers and the parts of the message are four rows that run side by side.  The
lemmas here walk along all of them at once, one request at a time, and never by position: that is
what makes them hold for repeated names and absent references.
-/

namespace Colloquy

/-- The response is one to the request: it has its name and its reference. -/
def ToolResponse.Answers (request : ToolRequest) (response : ToolResponse) : Prop :=
  response.name = request.name ∧ response.reference = request.reference

/-- What the model is told of the outcome of a call.  An interrupt is not told. -/
def Outcome.output? : Outcome → Option Json
  | success output => some output
  | failure message => some (ToolResponse.errorPayload message)
  | interrupt _ => none

/-- The first part is in the place of the second: it is the same, unless both are requests. -/
def Part.Replaces (new old : Part) : Prop :=
  new = old ∨ new.toolRequest?.isSome ∧ old.toolRequest?.isSome

namespace Batch

@[simp] lemma answers_cons (r : ToolRequest) (requests : List ToolRequest) (o : Outcome)
    (outcomes : List Outcome) :
    answers (r :: requests) (o :: outcomes) = Answer.ofOutcome r o :: answers requests outcomes :=
  rfl

/-- A call that does not interrupt has a response to its request. -/
lemma ofOutcome_answers {r : ToolRequest} {o : Outcome} {response : ToolResponse}
    (h : Answer.ofOutcome r o = .response response) : response.Answers r := by
  cases o with
  | success output =>
    obtain rfl := Answer.response.inj h
    exact ⟨rfl, rfl⟩
  | failure message =>
    obtain rfl := Answer.response.inj h
    exact ⟨rfl, rfl⟩
  | interrupt metadata => exact Answer.noConfusion h

section Rows

variable {T : ToolRequest → Outcome → Prop} {requests : List ToolRequest} {outcomes : List Outcome}

/-- When no call interrupts, each response is the one that the outcome of its call gives. -/
lemma responses_of_forall₂ (h : List.Forall₂ T requests outcomes)
    (none : interrupts requests (answers requests outcomes) = []) :
    List.Forall₂ (fun r response => ∃ o, T r o ∧ Answer.ofOutcome r o = .response response)
      requests (responses (answers requests outcomes)) := by
  induction h with
  | nil => exact List.Forall₂.nil
  | @cons r o requests outcomes ho rest ih =>
    rw [answers_cons] at none ⊢
    cases ha : Answer.ofOutcome r o with
    | response response =>
      rw [ha] at none
      exact List.Forall₂.cons ⟨o, ho, ha⟩ (ih none)
    | interrupt metadata =>
      rw [ha] at none
      exact absurd none (List.cons_ne_nil _ _)

/-- An interrupt is one that the outcome of a call gives. -/
lemma mem_interrupts_of_forall₂ (h : List.Forall₂ T requests outcomes) {i : Interrupt}
    (hi : i ∈ interrupts requests (answers requests outcomes)) :
    ∃ r o metadata, T r o ∧ Answer.ofOutcome r o = .interrupt metadata ∧
      i = ⟨r.name, r.reference, r.input, metadata⟩ := by
  induction h with
  | nil => exact absurd hi List.not_mem_nil
  | @cons r o requests outcomes ho rest ih =>
    rw [answers_cons] at hi
    cases ha : Answer.ofOutcome r o with
    | response response =>
      rw [ha] at hi
      exact ih hi
    | interrupt metadata =>
      rw [ha] at hi
      rcases List.mem_cons.mp hi with rfl | hi
      · exact ⟨r, o, metadata, ho, ha, rfl⟩
      · exact ih hi

/-- Each request of an annotated message carries the answer that the outcome of its call gives. -/
lemma annotate_of_forall₂ {parts : List Part} (hr : parts.filterMap Part.toolRequest? = requests)
    (h : List.Forall₂ T requests outcomes) :
    List.Forall₂ (fun r q => ∃ o, T r o ∧ q = mark r (Answer.ofOutcome r o)) requests
      ((annotate parts (answers requests outcomes)).filterMap Part.toolRequest?) := by
  induction parts generalizing requests outcomes with
  | nil =>
    subst hr
    exact List.Forall₂.nil
  | cons part parts ih =>
    cases part with
    | toolRequest r =>
      subst hr
      cases h with
      | @cons _ o _ outcomes ho rest => exact List.Forall₂.cons ⟨o, ho, rfl⟩ (ih rfl rest)
    | _ => exact ih hr h

/-- When no call interrupts there is one response to each request, in order. -/
lemma responses_answer (hl : outcomes.length = requests.length)
    (h : interrupts requests (answers requests outcomes) = []) :
    List.Forall₂ ToolResponse.Answers requests (responses (answers requests outcomes)) := by
  have all : List.Forall₂ (fun _ _ => True) requests outcomes :=
    List.forall₂_iff_zip.mpr ⟨hl.symm, fun _ => trivial⟩
  exact (responses_of_forall₂ all h).imp fun _ _ ⟨_, _, ha⟩ => ofOutcome_answers ha

end Rows

/-- No call of a batch interrupted if none is settled as an interrupt. -/
lemma interrupts_eq_nil_iff {requests : List ToolRequest} {outcomes : List Outcome}
    (hl : outcomes.length = requests.length) :
    interrupts requests (answers requests outcomes) = [] ↔
      ∀ metadata, .interrupt metadata ∉ outcomes := by
  induction requests generalizing outcomes with
  | nil =>
    obtain rfl := List.length_eq_zero_iff.mp hl
    simp [interrupts]
  | cons r requests ih =>
    obtain ⟨o, outcomes, rfl⟩ := List.exists_cons_of_length_eq_add_one hl
    have rest := ih (Nat.succ.inj hl)
    cases o with
    | success output => simp [Answer.ofOutcome, interrupts, rest]
    | failure message => simp [Answer.ofOutcome, interrupts, rest]
    | interrupt metadata =>
      exact ⟨fun h => absurd h (List.cons_ne_nil _ _),
        fun h => absurd List.mem_cons_self (h metadata)⟩

/-- A batch is answered with its responses when no call interrupted. -/
lemma settle_eq_answered {message : Message} {outcomes : List Outcome}
    {rs : List ToolResponse} (h : settle message outcomes = .answered rs) :
    interrupts message.toolRequests (answers message.toolRequests outcomes) = [] ∧
      rs = responses (answers message.toolRequests outcomes) := by
  rw [settle] at h
  split at h
  · rename_i hi
    exact ⟨hi, (Settled.answered.inj h).symm⟩
  · exact Settled.noConfusion h

/-- A batch pauses with the interrupts of its calls, and the message carries the answers. -/
lemma settle_eq_paused {message m : Message} {outcomes : List Outcome} {is : List Interrupt}
    (h : settle message outcomes = .paused m is) :
    is = interrupts message.toolRequests (answers message.toolRequests outcomes) ∧ is ≠ [] ∧
      m = { message with
        content := annotate message.content (answers message.toolRequests outcomes) } := by
  rw [settle] at h
  split at h
  · exact Settled.noConfusion h
  · rename_i hne
    obtain ⟨rfl, rfl⟩ := Settled.paused.inj h
    exact ⟨rfl, hne, rfl⟩

end Batch

end Colloquy
