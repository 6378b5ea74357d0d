import Colloquy.Proofs.Loop.Continuation
import Colloquy.Proofs.Loop.Refusal

/-!
# Transcripts that are stored

A run that paused is taken up again later, and until then its transcript is stored as JSON.  What
goes into a transcript comes from three sides: the conversation that the run began with, the answers
of the model, and the annotations of a batch that paused.  The first two come back as they were if
they did so before.  The annotations do so but for one case: a call of the batch that completed with
null (`annotate_lasting_iff`).

`run_reload` puts this together.  A stored transcript is the one that was stored, and is resumed like
it, unless the run paused in such a batch.  Then the call that completed looks like one that did not
run, and to resume the stored transcript a directive is needed for it that the one in memory does not
need.
-/

namespace Colloquy

variable {ω : Type}

namespace Message

/-- A conversation as it is stored. -/
def store (messages : List Message) : Json := .arr (messages.map toJson)

/-- Reads a conversation that was stored. -/
def reload : Json → Decoded (List Message) := Decode.list ofJson

lemma reload_store (messages : List Message) :
    reload (store messages) = .ok (messages.map restored) :=
  Decode.list_map ofJson_toJson messages

/-- A conversation comes back as it was up to a message that may not. -/
lemma reload_store_concat {messages : List Message} (h : ∀ m ∈ messages, m.Lasting) (m : Message) :
    reload (store (messages ++ [m])) = .ok (messages ++ [m.restored]) := by
  have same : messages.map restored = messages.map id :=
    List.map_congr_left fun m hm => restored_eq_self_iff.mpr (h m hm)
  rw [reload_store, List.map_append, same, List.map_id]
  rfl

lemma lasting_ofResponses (responses : List ToolResponse) : (ofResponses responses).Lasting := by
  intro r hr
  rw [mem_toolRequests, ofResponses, List.mem_map] at hr
  obtain ⟨response, _, he⟩ := hr
  cases he

end Message

/-! ## Batches that paused -/

namespace Batch

/-- The answer to a request is kept, unless it is the output null. -/
lemma mark_lasting_iff {r : ToolRequest} (h : r.Lasting) (o : Outcome) :
    (mark r (Answer.ofOutcome r o)).Lasting ↔ o ≠ .success .null := by
  cases o with
  | success output => simp [mark, Answer.ofOutcome, ToolRequest.Lasting]
  | failure message =>
    simp [mark, Answer.ofOutcome, ToolRequest.Lasting, ToolResponse.errorPayload]
  | interrupt metadata =>
    refine iff_of_true h ?_
    exact fun he => Outcome.noConfusion he

/-- **Annotations last unless a call completed with null.** -/
lemma annotate_lasting_iff {parts : List Part} {requests : List ToolRequest}
    {outcomes : List Outcome} (hr : parts.filterMap Part.toolRequest? = requests)
    (lasting : ∀ r ∈ requests, r.Lasting) (hl : outcomes.length = requests.length) :
    (∀ r, Part.toolRequest r ∈ annotate parts (answers requests outcomes) → r.Lasting) ↔
      .success .null ∉ outcomes := by
  -- By induction on the parts: an outcome is used up by each request, and by nothing else.
  induction parts generalizing requests outcomes with
  | nil =>
    subst hr
    obtain rfl := List.length_eq_zero_iff.mp hl
    simp [annotate]
  | cons part parts ih =>
    cases hp : part.toolRequest? with
    | none =>
      rw [List.filterMap_cons_none hp] at hr
      rw [annotate_other hp, ← ih hr lasting hl]
      have other : ∀ r, Part.toolRequest r ≠ part := by
        rintro r rfl
        cases hp
      simp [other]
    | some r =>
      obtain rfl := Part.eq_of_toolRequest?_eq_some hp
      rw [List.filterMap_cons_some hp] at hr
      subst hr
      obtain ⟨o, outcomes, rfl⟩ := List.exists_cons_of_length_eq_add_one hl
      have first := mark_lasting_iff (lasting r List.mem_cons_self) o
      have rest := ih rfl (fun q hq => lasting q (List.mem_cons_of_mem r hq)) (Nat.succ.inj hl)
      rw [answers_cons, annotate, List.mem_cons, not_or, ← rest, eq_comm, ← ne_eq, ← first]
      constructor
      · intro h
        exact ⟨h _ List.mem_cons_self, fun q hq => h q (List.mem_cons_of_mem _ hq)⟩
      · rintro ⟨hf, hrest⟩ q hq
        rcases List.mem_cons.mp hq with he | hq
        · rwa [Part.toolRequest.inj he]
        · exact hrest q hq

/-- The message of a batch that paused lasts unless a call of the batch completed with null. -/
lemma paused_lasting_iff {message m : Message} {outcomes : List Outcome} {is : List Interrupt}
    (h : settle message outcomes = .paused m is) (lasting : message.Lasting)
    (hl : outcomes.length = message.toolRequests.length) :
    m.Lasting ↔ .success .null ∉ outcomes := by
  obtain ⟨_, _, rfl⟩ := settle_eq_paused h
  rw [← annotate_lasting_iff rfl lasting hl]
  exact forall_congr' fun r => imp_congr_left Message.mem_toolRequests

end Batch

/-! ## Conversations that are resumed -/

namespace Resume

variable (tools : ToolLookup ω) (options : CallOptions)

/-- A conversation that lasts does so when its requests were answered. -/
lemma apply_lasting {messages resumed : List Message} {directives : List Directive}
    {s : Session ω} {n : Nat}
    (h : (apply tools options messages directives s).2 = .ok (resumed, n))
    (lasting : ∀ m ∈ messages, m.Lasting) : ∀ m ∈ resumed, m.Lasting := by
  obtain ⟨last, _, a, _, ha, _, _, rfl⟩ := apply_eq_ok (Prod.ext rfl h)
  intro m hm
  rcases List.mem_append.mp hm with hm | hm
  · rcases List.mem_append.mp hm with hm | hm
    · exact lasting m (List.mem_of_mem_take (List.dropLast_eq_take ▸ hm))
    · rw [List.mem_singleton.mp hm]
      intro r hr
      have none := (answerParts_closes ha).pendingOutput hr
      rw [ToolRequest.Lasting, none]
      exact Option.some_ne_none _ |>.symm
  · split at hm
    · exact absurd hm List.not_mem_nil
    · rw [List.mem_singleton.mp hm]
      exact Message.lasting_ofResponses a.responses

end Resume

/-! ## Whole runs -/

namespace Run

/-- All that the model says lasts. -/
def Enduring (model : Model ω) : Prop :=
  ∀ request message, Returns model request message → message.Lasting

section

variable {model : Model ω} {tools : ToolLookup ω} {options : RunOptions}

lemma resume_lasting {directives : List Directive} {request first : Request} {s : Session ω}
    (h : (Run.resume tools options directives request s).2 = .ok first)
    (lasting : ∀ m ∈ request.messages, m.Lasting) : ∀ m ∈ first.messages, m.Lasting := by
  rcases resume_eq_ok (Prod.ext rfl h) with ⟨_, _, rfl⟩ | ⟨_, _, _, _, applied, _, rfl⟩
  · exact lasting
  · exact Resume.apply_lasting tools options.calls (congrArg Prod.snd applied) lasting

/-- A turn adds messages that last. -/
lemma Turn.lasting {t : Turn} (h : t.answer.Lasting) : ∀ m ∈ t.messages, m.Lasting := by
  intro m hm
  rw [Turn.messages, List.mem_pair] at hm
  rcases hm with rfl | rfl
  · exact h
  · exact Message.lasting_ofResponses t.responses

/-- The message that a run paused with lasts unless a call of the batch completed with null. -/
lemma PausedIn.lasting_iff {answer : Message} {outcomes : List Outcome} {r : Response}
    (h : PausedIn model tools options answer outcomes r) (enduring : Enduring model) :
    r.message.Lasting ↔ .success .null ∉ outcomes := by
  obtain ⟨p, s, reply, s', worked, _, rfl⟩ := h.worked
  obtain ⟨t, replied, _⟩ := worked.replied
  have lasting := enduring p.request reply.message replied.returns
  exact Batch.paused_lasting_iff h.settled lasting worked.length_outcomes

/-- A run that paused has interrupts. -/
lemma PausedIn.interrupts_ne_nil {answer : Message} {outcomes : List Outcome} {r : Response}
    (h : PausedIn model tools options answer outcomes r) : r.interrupts ≠ [] :=
  (Batch.settle_eq_paused h.settled).2.1

/-- What a run sent lasts, and so does the message that it ends with unless it paused in a batch in
which a call completed with null. -/
structure Lasts (model : Model ω) (tools : ToolLookup ω) (options : RunOptions) (r : Response) :
    Prop where
  messages : r.messages = r.request.messages ++ [r.message]
  sent : ∀ m ∈ r.request.messages, m.Lasting
  last : r.message.Lasting ↔
    ∀ answer outcomes, PausedIn model tools options answer outcomes r → .success .null ∉ outcomes

lemma Ended.lasts {left : Nat} {p : Progress} {s : Session ω} {result : Result ω}
    (h : Ended model tools options left p s result) (enduring : Enduring model)
    (sent : ∀ m ∈ p.request.messages, m.Lasting) {r : Response} (hr : result.2 = .ok r) :
    Lasts model tools options r := by
  -- A run that did not pause ends with what the model said.
  have said {reply : Reply} {s' : Session ω} (replied : Replied model options p s reply s')
      (state : RunState) :
      Lasts model tools options
        ((p.use reply.usage).response reply.message reply.finishReason state []) := by
    refine ⟨rfl, by rwa [Progress.response, use_request], ?_⟩
    refine iff_of_true (enduring p.request reply.message replied.returns) ?_
    exact fun answer outcomes paused => absurd rfl paused.interrupts_ne_nil
  cases h with
  | cancelled h => cases hr
  | failed h asked => cases hr
  | done replied h =>
    rw [← Except.ok.inj hr]
    exact said replied .done
  | returned replied h hr' =>
    rw [← Except.ok.inj hr]
    exact said replied .toolRequests
  | exceeded replied h => cases hr
  | dropped replied h batch => cases hr
  | @paused _ _ _ reply outcomes _ message interrupts worked settled =>
    obtain rfl := Except.ok.inj hr
    have paused : PausedIn model tools options reply.message outcomes
        ((p.use reply.usage).response message .interrupted .interrupted interrupts) :=
      ⟨⟨_, _, _, _, worked, (use_request _ _).symm, rfl⟩, settled, rfl⟩
    refine ⟨rfl, by rwa [Progress.response, use_request], ?_⟩
    constructor
    · intro lasting answer outcomes' other
      exact (other.lasting_iff enduring).mp lasting
    · intro none
      exact (paused.lasting_iff enduring).mpr (none _ _ paused)

lemma Turned.lasting {p p' : Progress} {s s' : Session ω} {turn : Turn}
    (h : Turned model tools options p s turn p' s') (enduring : Enduring model)
    (sent : ∀ m ∈ p.request.messages, m.Lasting) : ∀ m ∈ p'.request.messages, m.Lasting := by
  obtain ⟨⟨_, returns⟩, hp, _⟩ := h.dialogue
  rw [hp, requestAfter]
  intro m hm
  rcases List.mem_append.mp hm with hm | hm
  · exact sent m hm
  · rw [List.flatMap_cons, List.flatMap_nil, List.append_nil] at hm
    exact Turn.lasting (enduring _ _ returns) m hm

lemma Course.lasts {left : Nat} {turns : List Turn} {p : Progress} {s : Session ω}
    {result : Result ω} (h : Course model tools options left turns p s result)
    (enduring : Enduring model) (sent : ∀ m ∈ p.request.messages, m.Lasting) {r : Response}
    (hr : result.2 = .ok r) : Lasts model tools options r := by
  induction h with
  | last h => exact h.lasts enduring sent hr
  | turn h rest ih => exact ih (h.lasting enduring sent) hr

/-- **What becomes of a transcript that is stored**, when `last` is the message that comes back for
its last one. -/
structure Reloaded (model : Model ω) (tools : ToolLookup ω) (options : RunOptions) (r : Response)
    (last : Message) : Prop where
  /-- All other messages come back as they were. -/
  reload : Message.reload (Message.store r.messages) = .ok (r.request.messages ++ [last])
  /-- If the last one does too, then each message does that is written on its own. -/
  each : last = r.message ↔ ∀ m ∈ r.messages, Message.ofJson m.toJson = .ok m
  /-- It does unless the run paused in a batch in which a call completed with null. -/
  same : last = r.message ↔
    ∀ answer outcomes, PausedIn model tools options answer outcomes r → .success .null ∉ outcomes
  /-- If it does, any run goes on from what was stored as from what is in memory. -/
  resumes : last = r.message → ∀ {ω : Type} (model : Model ω) (tools : ToolLookup ω)
    (options : RunOptions) (directives : List Directive) (request : Request) (s : Session ω),
    run model tools options directives
        { request with messages := r.request.messages ++ [last] } s =
      run model tools options directives { request with messages := r.messages } s
  /-- If not, a call that completed with null is taken for one that has to be answered: when there
  are directives and none is for it, no run goes on from what was stored. -/
  refused : ∀ q ∈ r.message.toolRequests, ¬q.Lasting → ∀ {ω : Type} (tools : ToolLookup ω)
    (options : RunOptions) (directives : List Directive) (request : Request) (s : Session ω),
    directives ≠ [] → Directive.Unmatched q directives →
    Refused tools options directives
      { request with messages := r.request.messages ++ [last] } s

lemma Lasts.reloaded {r : Response} (h : Lasts model tools options r) :
    Reloaded model tools options r r.message.restored where
  reload := by
    rw [h.messages]
    exact Message.reload_store_concat h.sent r.message
  each := by
    rw [Message.restored_eq_self_iff, h.messages]
    constructor
    · intro last m hm
      refine Message.ofJson_toJson_eq_iff.mpr ?_
      rcases List.mem_append.mp hm with hm | hm
      · exact h.sent m hm
      · rwa [List.mem_singleton.mp hm]
    · intro all
      exact Message.ofJson_toJson_eq_iff.mp (all _ (List.mem_append_right _ List.mem_cons_self))
  same := by rw [Message.restored_eq_self_iff, h.last]
  resumes he := by
    intros
    rw [he, h.messages]
  refused q hq hn := by
    intro ω' tools' options' directives request s given unmatched
    have kept : q.restored.pendingOutput = none := by
      rw [ToolRequest.Lasting, not_not] at hn
      rw [ToolRequest.restored, hn]
      rfl
    have member : q.restored ∈ r.message.restored.toolRequests := by
      rw [Message.mem_toolRequests] at hq ⊢
      exact List.mem_map.mpr ⟨_, hq, rfl⟩
    have unmatched' : Directive.Unmatched q.restored directives := unmatched
    let resumed := { request with messages := r.request.messages ++ [r.message.restored] }
    have ends : resumed.messages.getLast? = some r.message.restored := List.getLast?_concat
    obtain ⟨e, failed⟩ := resume_unmatched tools' options' given ends member kept unmatched' s
    exact refused_of_resume failed

/-- **A transcript survives being stored** unless the run paused in a batch in which a call
completed with null.  This takes a conversation to begin with and a model whose messages survive
it. -/
theorem run_reload {request : Request} {directives : List Directive} {s s' : Session ω}
    {r : Response} (h : run model tools options directives request s = (s', .ok r))
    (lasting : ∀ m ∈ request.messages, m.Lasting) (enduring : Enduring model) :
    ∃ last, Reloaded model tools options r last := by
  rcases hr : Run.resume tools options directives request s with ⟨t, e | first⟩
  · rw [run_eq_error hr] at h
    cases congrArg Prod.snd h
  · have sent := resume_lasting (congrArg Prod.snd hr) lasting
    rw [run_eq_turns model hr] at h
    obtain ⟨turns, course⟩ := exists_course model tools options options.maxTurns ⟨first, {}, 0⟩ t
    rw [h] at course
    exact ⟨_, (course.lasts enduring sent rfl).reloaded⟩

end

/-- Two calls, of which one completes and the other asks a person. -/
def survey : Message :=
  ⟨.model, [.toolRequest { name := "look", reference := some "l1" },
    .toolRequest { name := "ask", reference := some "a1" }], none⟩

/-- A model that begins with these calls and has nothing to ask after that. -/
def surveyor : Model Unit where
  name := "surveyor"
  call request around :=
    ⟨[], .ok { message := if request.messages.isEmpty then survey else .ofText .model "done" },
      around⟩

/-- The tools that it calls; the one that completes gives a fixed output. -/
def surveyTools (output : Json) : ToolLookup Unit := fun name =>
  if name = "look" then
    some ⟨{ name := "look", description := "", inputSchema := .null },
      fun _ _ => .done (.returned (.success output))⟩
  else some (Tool.asking { name := "ask", description := "", inputSchema := .null })

def surveyOptions : RunOptions := { concurrent := false, calls := { validate := false } }

lemma enduring_surveyor : Enduring surveyor := by
  rintro request _ ⟨around, reply, h, rfl⟩
  obtain rfl := Except.ok.inj h
  show (if request.messages.isEmpty then survey else .ofText .model "done").Lasting
  split
  · decide
  · decide

/-- With an output that is not null the transcript survives, though the interrupt came without
metadata. -/
theorem run_reload_survey :
    ∃ s r, run surveyor (surveyTools (.bool true)) surveyOptions [] {} ⟨[], ⟨false, ()⟩⟩ =
        (s, .ok r) ∧ r.state = .interrupted ∧ (∀ m ∈ ([] : List Message), m.Lasting) ∧
      Enduring surveyor ∧
      ∃ last, Reloaded surveyor (surveyTools (.bool true)) surveyOptions r last ∧
        last = r.message := by
  obtain ⟨s, r, h, hi, each⟩ : ∃ s r,
      run surveyor (surveyTools (.bool true)) surveyOptions [] {} ⟨[], ⟨false, ()⟩⟩ =
        (s, .ok r) ∧ r.state = .interrupted ∧
      ∀ m ∈ r.messages, Message.ofJson m.toJson = .ok m := ⟨_, _, rfl, rfl, by decide⟩
  have lasting : ∀ m ∈ ([] : List Message), m.Lasting := fun m hm => absurd hm List.not_mem_nil
  obtain ⟨last, reloaded⟩ := run_reload h lasting enduring_surveyor
  exact ⟨s, r, h, hi, lasting, enduring_surveyor, last, reloaded, reloaded.each.mpr each⟩

/-- With the output null it does not: the person's answer is enough to go on from memory, and not
enough to go on from what was stored. -/
theorem run_reload_null :
    ∃ s r reloaded,
      run surveyor (surveyTools .null) surveyOptions [] {} ⟨[], ⟨false, ()⟩⟩ = (s, .ok r) ∧
      (∃ m ∈ r.messages, Message.ofJson m.toJson ≠ .ok m) ∧
      Message.reload (Message.store r.messages) = .ok reloaded ∧
      (∃ s' r', run surveyor (surveyTools .null) surveyOptions
        [.respond "ask" (some "a1") (.bool true)] { messages := r.messages } ⟨[], ⟨false, ()⟩⟩ =
        (s', .ok r') ∧ r'.state = .done) ∧
      (run surveyor (surveyTools .null) surveyOptions
        [.respond "ask" (some "a1") (.bool true)] { messages := reloaded } ⟨[], ⟨false, ()⟩⟩).2 =
        .error (.unresolvedInterrupt "look" (some "l1")) :=
  ⟨_, _, _, rfl, by decide, rfl, ⟨_, _, rfl, rfl⟩, rfl⟩

end Run

end Colloquy
