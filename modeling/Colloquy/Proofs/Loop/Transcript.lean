import Colloquy.Proofs.Loop.Course
import Colloquy.Proofs.Loop.Journal
import Colloquy.Proofs.Loop.Settle

/-!
# The transcript of a run

A journal holds, among other things, what was asked of the model and what it answered.  Read off as
a dialogue, this is what a provider sees of a run, and `Transcript` is what a provider expects of
it: each call repeats the conversation so far and adds turns to it, and a turn is the answer of the
model as it came followed by one message with a response to each of its tool requests.

`run_transcript` says that every run has such a transcript, whatever the model and the tools do.
-/

namespace Colloquy

variable {ω : Type}

/-! ## Dialogues -/

/-- What passes between a run and its model. -/
inductive Utterance where
  | asked (request : Request)
  | answered (message : Message)
  deriving DecidableEq, Repr

/-- What an entry tells about the dialogue with the model. -/
def Entry.utterance? : Entry → Option Utterance
  | .asked _ request => some (.asked request)
  | .event (.modelResponse _ message _) => some (.answered message)
  | _ => none

/-- The dialogue that a journal tells of. -/
def Session.dialogue (s : Session ω) : List Utterance := s.journal.filterMap Entry.utterance?

/-- The model calls of a dialogue: each request with the message that answered it, if one did. -/
def Utterance.calls : List Utterance → List (Request × Option Message)
  | [] => []
  | .asked request :: .answered message :: rest => (request, some message) :: calls rest
  | .asked request :: rest => (request, none) :: calls rest
  | .answered _ :: rest => calls rest

namespace Session

@[simp] lemma dialogue_note (entry : Entry) (s : Session ω) :
    (s.note entry).dialogue = s.dialogue ++ entry.utterance?.toList :=
  filterMap_note _ entry s

@[simp] lemma dialogue_noteEvents (events : List Event) (s : Session ω) :
    (s.noteEvents events).dialogue =
      s.dialogue ++ events.filterMap fun e => (Entry.event e).utterance? :=
  filterMap_noteEvents _ events s

/-- Entries that tell nothing of the dialogue leave it as it is. -/
lemma Notes.dialogue_eq {kind : Entry → Prop} (hk : ∀ e, kind e → e.utterance? = none)
    {s s' : Session ω} (h : Notes kind s s') : s'.dialogue = s.dialogue :=
  h.filterMap_eq _ hk

end Session

/-- Tool calls take no part in the dialogue. -/
lemma Entry.OfCall.utterance?_eq_none {tools : ToolLookup ω} {options : CallOptions} {e : Entry}
    (h : OfCall tools options e) : e.utterance? = none := by
  rcases h with _ | (_ | ⟨_, _ | _ | _⟩) <;> rfl

namespace Run

/-! ## Turns in a conversation -/

/-- The messages that a turn adds to the conversation. -/
def Turn.messages (t : Turn) : List Message := [t.answer, Message.ofResponses t.responses]

/-- The answer asks for tool calls, and each of its requests has its response, in order. -/
structure Turn.Complete (t : Turn) : Prop where
  asks : t.answer.hasToolRequests = true
  answered : List.Forall₂ ToolResponse.Answers t.answer.toolRequests t.responses

/-- The request after some turns: the conversation has grown, and all else is as it was. -/
def requestAfter (first : Request) (turns : List Turn) : Request :=
  { first with messages := first.messages ++ turns.flatMap Turn.messages }

@[simp] lemma requestAfter_nil (first : Request) : requestAfter first [] = first := by
  simp [requestAfter]

lemma requestAfter_cons (first : Request) (t : Turn) (turns : List Turn) :
    requestAfter first (t :: turns) = requestAfter (requestAfter first [t]) turns := by
  simp [requestAfter]

/-- The dialogue of some turns. -/
def exchanges (first : Request) : List Turn → List Utterance
  | [] => []
  | t :: turns => .asked first :: .answered t.answer :: exchanges (requestAfter first [t]) turns

/-- Asked with the request, the model returns the message, if what surrounds it is right. -/
def Returns (model : Model ω) (request : Request) (message : Message) : Prop :=
  ∃ around reply, (model.call request around).result = .ok reply ∧ reply.message = message

/-- **What a provider expects** of the model calls of a run that began with `first`, completed
`turns` and came to `result`. -/
structure Transcript (model : Model ω) (first : Request) (turns : List Turn)
    (calls : List (Request × Option Message)) (result : Except RunError Response) : Prop where
  /-- Every turn answers every tool call that the model asked for. -/
  complete : ∀ t ∈ turns, t.Complete
  /-- Every turn was one call, and at most one call came after the last turn. -/
  length_calls : calls.length = turns.length ∨ calls.length = turns.length + 1
  /-- A call sends the first conversation with the turns before it, and everything else as in the
  first call. -/
  sent : ∀ (k : Nat) (request : Request) (answer : Option Message),
    calls[k]? = some (request, answer) → request = requestAfter first (turns.take k)
  /-- A turn has the message that the model returned to its call, as it came. -/
  answered : ∀ (k : Nat) (t : Turn), turns[k]? = some t →
    calls[k]? = some (requestAfter first (turns.take k), some t.answer) ∧
      Returns model (requestAfter first (turns.take k)) t.answer
  /-- No call takes back what the one before it sent. -/
  grows : ∀ (k : Nat) (a b : Request × Option Message), calls[k]? = some a →
    calls[k + 1]? = some b → a.1.messages <+: b.1.messages
  /-- What a run returns belongs to its last call. -/
  returned : ∀ r : Response, result = .ok r →
    calls.length = turns.length + 1 ∧ calls.getLast?.map Prod.fst = some r.request ∧
      r.messages = r.request.messages ++ [r.message] ∧ r.turns = turns.length

/-! ## One turn and one end -/

/-- What is said after the last turn of a run that comes to a result: nothing more, or one more
call, which the model may have answered.  A response is about that call. -/
inductive Closing (request : Request) (turn : Nat) :
    List Utterance → Except RunError Response → Prop
  | unasked (e : RunError) : Closing request turn [] (.error e)
  | unanswered (e : RunError) : Closing request turn [.asked request] (.error e)
  | refused (answer : Message) (e : RunError) :
      Closing request turn [.asked request, .answered answer] (.error e)
  | returned (answer : Message) (r : Response) (hr : r.request = request)
      (hm : r.messages = request.messages ++ [r.message]) (ht : r.turns = turn) :
      Closing request turn [.asked request, .answered answer] (.ok r)

section Dialogue

variable {model : Model ω} {tools : ToolLookup ω} {options : RunOptions} {p p' : Progress}
  {s s' : Session ω} {reply : Reply}

@[simp] lemma use_request (p : Progress) (usage : Option Usage) :
    (p.use usage).request = p.request := by
  cases usage <;> rfl

@[simp] lemma use_turn (p : Progress) (usage : Option Usage) : (p.use usage).turn = p.turn := by
  cases usage <;> rfl

/-- Asking the model is told once, whatever chunks come and however the call ends. -/
lemma dialogue_ask (model : Model ω) (p : Progress) (s : Session ω) :
    (ask model p s).1.dialogue = s.dialogue ++ [.asked p.request] := by
  have around (t : Session ω) (a : Surroundings ω) :
      Session.dialogue { t with around := a } = t.dialogue := rfl
  rw [ask, around, Session.dialogue_noteEvents, Session.dialogue_note, List.filterMap_map]
  simp [Function.comp_def, Entry.utterance?]

lemma dialogue_opened (options : RunOptions) (p : Progress) (s : Session ω) :
    (opened options p s).dialogue = s.dialogue := by
  simp [opened, Entry.utterance?]

lemma Replied.dialogue (h : Replied model options p s reply s') :
    s'.dialogue = s.dialogue ++ [.asked p.request, .answered reply.message] := by
  obtain ⟨_, asked, ha, rfl⟩ := h
  have hd := dialogue_ask model p (opened options p s)
  rw [ha, dialogue_opened] at hd
  have events : (replyEvents p.turn reply).filterMap (fun e => (Entry.event e).utterance?) =
      [.answered reply.message] := by
    rw [replyEvents]
    cases reply.usage <;> rfl
  rw [Session.dialogue_noteEvents, hd, events, List.append_assoc]
  rfl

lemma Replied.returns (h : Replied model options p s reply s') :
    Returns model p.request reply.message := by
  obtain ⟨_, asked, ha, _⟩ := h
  refine ⟨s.around, reply, ?_, rfl⟩
  rw [ask] at ha
  exact congrArg Prod.snd ha

lemma dialogue_runBatch {message : Message} {result : Option (List Outcome)}
    (h : runBatch tools options p message s = (s', result)) : s'.dialogue = s.dialogue := by
  obtain rfl := congrArg Prod.fst h
  have batch := (Batch.run_notes tools options.calls options.concurrent message.toolRequests
    (s.note (.event (.toolCallsReceived p.turn message.toolRequests.length)))).1
  have hd := batch.dialogue_eq fun e he => he.utterance?_eq_none
  rw [runBatch, hd, Session.dialogue_note]
  exact List.append_nil _

lemma dialogue_noteResults (message : Message) (outcomes : List Outcome) (s : Session ω) :
    (noteResults message outcomes s).dialogue = s.dialogue := by
  have none : (Batch.resultEvents (Batch.answers message.toolRequests outcomes)).filterMap
      (fun e => (Entry.event e).utterance?) = [] := by
    refine List.filterMap_eq_nil_iff.mpr fun e he => ?_
    obtain ⟨answer, _, ha⟩ := List.mem_filterMap.mp he
    cases answer with
    | response r => rw [← Option.some.inj ha]; rfl
    | interrupt metadata => cases ha
  rw [noteResults, Session.dialogue_noteEvents, none, List.append_nil]

lemma length_outcomes {message : Message} {outcomes : List Outcome}
    (h : runBatch tools options p message s = (s', some outcomes)) :
    outcomes.length = message.toolRequests.length := by
  have batch := (Batch.run_notes tools options.calls options.concurrent message.toolRequests
    (s.note (.event (.toolCallsReceived p.turn message.toolRequests.length)))).2
  rw [runBatch] at h
  exact batch outcomes (by rw [h])

variable {outcomes : List Outcome}

lemma Worked.length_outcomes (h : Worked model tools options p s reply outcomes s') :
    outcomes.length = reply.message.toolRequests.length := by
  obtain ⟨_, _, batch⟩ := h
  exact Run.length_outcomes batch

lemma Worked.replied (h : Worked model tools options p s reply outcomes s') :
    ∃ t, Replied model options p s reply t ∧ CallsTools options reply := by
  obtain ⟨replied, calls, _⟩ := h
  exact ⟨_, replied, calls⟩

lemma Worked.dialogue (h : Worked model tools options p s reply outcomes s') :
    s'.dialogue = s.dialogue ++ [.asked p.request, .answered reply.message] := by
  cases h with
  | intro replied _ batch =>
    rw [dialogue_noteResults, dialogue_runBatch batch, replied.dialogue]

/-- A turn is one call with its answer, and what it appends answers every request. -/
lemma Turned.dialogue {turn : Turn} (h : Turned model tools options p s turn p' s') :
    (turn.Complete ∧ Returns model p.request turn.answer) ∧
      p'.request = requestAfter p.request [turn] ∧ p'.turn = p.turn + 1 ∧
      s'.dialogue = s.dialogue ++ [.asked p.request, .answered turn.answer] := by
  obtain ⟨worked, settled⟩ := h
  obtain ⟨hi, rfl⟩ := Batch.settle_eq_answered settled
  obtain ⟨t, replied, calls⟩ := worked.replied
  have answered := Batch.responses_answer worked.length_outcomes hi
  refine ⟨⟨⟨calls.1, answered⟩, replied.returns⟩, ?_, ?_, worked.dialogue⟩
  · simp [Progress.advance, requestAfter, Turn.messages]
  · simp [Progress.advance]

/-- The last entry of a run tells nothing of the dialogue. -/
lemma dialogue_finish (state : RunState) : (finish p reply state s).1.dialogue = s.dialogue := by
  rw [finish, Session.dialogue_note]
  exact List.append_nil _

lemma dialogue_pause (message : Message) (interrupts : List Interrupt) :
    (pause p message interrupts s).1.dialogue = s.dialogue := by
  rw [pause, Session.dialogue_note]
  exact List.append_nil _

lemma dialogue_exceed : (exceed options s).1.dialogue = s.dialogue := by
  rw [exceed, Session.dialogue_note, Session.dialogue_note, List.append_assoc]
  exact List.append_nil _

/-- A response that a run makes of its progress is about the request that went to the model last. -/
lemma closing_response (answer message : Message) (finishReason : FinishReason) (state : RunState)
    (interrupts : List Interrupt) (usage : Option Usage) :
    Closing p.request p.turn [.asked p.request, .answered answer]
      (.ok ((p.use usage).response message finishReason state interrupts)) := by
  refine .returned answer _ (use_request p usage) ?_ (use_turn p usage)
  rw [Progress.response, use_request]

/-- However a run ends, it closes the dialogue with at most one more call. -/
lemma Ended.dialogue {left : Nat} {r : Result ω} (h : Ended model tools options left p s r) :
    ∃ tail, r.1.dialogue = s.dialogue ++ tail ∧ Closing p.request p.turn tail r.2 := by
  cases h with
  | cancelled h => exact ⟨[], by rw [dialogue_opened, List.append_nil], .unasked _⟩
  | failed h asked =>
    have hd := dialogue_ask model p (opened options p s)
    rw [asked, dialogue_opened] at hd
    exact ⟨_, hd, .unanswered _⟩
  | done replied h =>
    exact ⟨_, by rw [dialogue_finish, replied.dialogue], closing_response ..⟩
  | returned replied h hr =>
    exact ⟨_, by rw [dialogue_finish, replied.dialogue], closing_response ..⟩
  | exceeded replied h =>
    exact ⟨_, by rw [dialogue_exceed, replied.dialogue], .refused _ _⟩
  | dropped replied h batch =>
    exact ⟨_, by rw [dialogue_runBatch batch, replied.dialogue], .refused _ _⟩
  | paused worked settled =>
    exact ⟨_, by rw [dialogue_pause, worked.dialogue], closing_response ..⟩

/-- Each of the turns is complete, and its answer is what the model returned to the request after
the turns before it. -/
def Sound (model : Model ω) (first : Request) (turns : List Turn) : Prop :=
  ∀ k t, turns[k]? = some t →
    t.Complete ∧ Returns model (requestAfter first (turns.take k)) t.answer

lemma Sound.cons {first : Request} {turn : Turn} {turns : List Turn}
    (h : turn.Complete ∧ Returns model first turn.answer)
    (rest : Sound model (requestAfter first [turn]) turns) : Sound model first (turn :: turns) := by
  intro k t hk
  cases k with
  | zero =>
    obtain rfl := Option.some.inj hk
    exact ⟨h.1, by rw [List.take_zero, requestAfter_nil]; exact h.2⟩
  | succ k =>
    rw [List.take_succ_cons, requestAfter_cons]
    exact rest k t hk

/-- The dialogue of a course: that of its turns, and then at most one more call. -/
lemma Course.dialogue {left : Nat} {turns : List Turn} {r : Result ω}
    (h : Course model tools options left turns p s r) :
    Sound model p.request turns ∧ ∃ tail,
      r.1.dialogue = s.dialogue ++ (exchanges p.request turns ++ tail) ∧
      Closing (requestAfter p.request turns) (p.turn + turns.length) tail r.2 := by
  -- By induction on the course: a turn hands on the request with its messages, and the rest of the
  -- course is about that request.
  induction h with
  | last h =>
    obtain ⟨tail, hd, closing⟩ := h.dialogue
    exact ⟨fun k t hk => (by cases hk), tail, hd, by rwa [requestAfter_nil]⟩
  | turn h rest ih =>
    rename_i turn turns p s p' s' r
    obtain ⟨complete, hr, ht, hd⟩ := h.dialogue
    obtain ⟨others, tail, hd', closing⟩ := ih
    rw [hr] at others
    refine ⟨Sound.cons complete others, tail, ?_, ?_⟩
    · rw [hd', hd, hr, exchanges]
      simp
    · rw [requestAfter_cons, ← hr, List.length_cons, Nat.add_comm turns.length,
        ← Nat.add_assoc, ← ht]
      exact closing

end Dialogue

/-! ## Calls and turns -/

variable {request : Request} {turn : Nat} {tail : List Utterance}
  {result : Except RunError Response}

lemma calls_exchanges_cons (first : Request) (t : Turn) (turns : List Turn)
    (tail : List Utterance) :
    Utterance.calls (exchanges first (t :: turns) ++ tail) = (first, some t.answer) ::
      Utterance.calls (exchanges (requestAfter first [t]) turns ++ tail) :=
  rfl

lemma Closing.calls_eq (h : Closing request turn tail result) :
    Utterance.calls tail = [] ∨ ∃ answer, Utterance.calls tail = [(request, answer)] := by
  cases h with
  | unasked e => exact .inl rfl
  | unanswered e => exact .inr ⟨none, rfl⟩
  | refused answer e => exact .inr ⟨some answer, rfl⟩
  | returned answer r hr hm ht => exact .inr ⟨some answer, rfl⟩

lemma length_calls_exchanges (first : Request) (turns : List Turn) (tail : List Utterance) :
    (Utterance.calls (exchanges first turns ++ tail)).length =
      turns.length + (Utterance.calls tail).length := by
  induction turns generalizing first with
  | nil => simp [exchanges]
  | cons t turns ih =>
    rw [calls_exchanges_cons, List.length_cons, ih, List.length_cons]
    omega

/-- The call after `k` turns sends the first conversation with those turns. -/
lemma calls_exchanges_sent (first : Request) (turns : List Turn)
    (h : Closing (requestAfter first turns) turn tail result) (k : Nat)
    (call : Request × Option Message)
    (hk : (Utterance.calls (exchanges first turns ++ tail))[k]? = some call) :
    call.1 = requestAfter first (turns.take k) := by
  induction turns generalizing first k with
  | nil =>
    rw [requestAfter_nil] at h
    rw [exchanges, List.nil_append] at hk
    rcases h.calls_eq with hc | ⟨answer, hc⟩
    · rw [hc] at hk
      cases hk
    · rw [hc] at hk
      obtain rfl : call = (first, answer) := by simpa using List.mem_of_getElem? hk
      simp
  | cons t turns ih =>
    rw [calls_exchanges_cons] at hk
    cases k with
    | zero =>
      obtain rfl := Option.some.inj hk
      simp
    | succ k =>
      rw [requestAfter_cons] at h
      rw [List.take_succ_cons, requestAfter_cons]
      exact ih (requestAfter first [t]) h k hk

/-- The call of a turn was answered with the answer of the turn. -/
lemma calls_exchanges_answered (first : Request) (turns : List Turn) (tail : List Utterance)
    (k : Nat) (t : Turn) (hk : turns[k]? = some t) :
    (Utterance.calls (exchanges first turns ++ tail))[k]? =
      some (requestAfter first (turns.take k), some t.answer) := by
  induction turns generalizing first k with
  | nil => cases hk
  | cons u turns ih =>
    rw [calls_exchanges_cons]
    cases k with
    | zero =>
      obtain rfl := Option.some.inj hk
      simp
    | succ k =>
      rw [List.take_succ_cons, requestAfter_cons first u (turns.take k)]
      exact ih (requestAfter first [u]) k hk

/-- More turns only add messages. -/
lemma prefix_requestAfter (first : Request) {some all : List Turn} (h : some <+: all) :
    (requestAfter first some).messages <+: (requestAfter first all).messages := by
  obtain ⟨rest, rfl⟩ := h
  exact ⟨rest.flatMap Turn.messages, by simp [requestAfter]⟩

/-- The call after all turns is the last one. -/
lemma calls_exchanges_last (first : Request) (turns : List Turn)
    (h : Closing (requestAfter first turns) turn tail result)
    (hl : (Utterance.calls tail).length = 1) :
    (Utterance.calls (exchanges first turns ++ tail)).getLast?.map Prod.fst =
      some (requestAfter first turns) := by
  have length := length_calls_exchanges first turns tail
  rw [hl] at length
  obtain ⟨call, hc⟩ : ∃ call,
      (Utterance.calls (exchanges first turns ++ tail))[turns.length]? = some call :=
    ⟨_, List.getElem?_eq_getElem (by omega)⟩
  have sent := calls_exchanges_sent first turns h turns.length call hc
  rw [List.take_length] at sent
  rw [List.getLast?_eq_getElem?, length, Nat.add_sub_cancel, hc, Option.map_some, sent]

/-- What turns and a closing make up is a transcript. -/
lemma transcript_of_closing {model : Model ω} {first : Request} {turns : List Turn}
    (sound : Sound model first turns)
    (h : Closing (requestAfter first turns) turns.length tail result) :
    Transcript model first turns (Utterance.calls (exchanges first turns ++ tail)) result where
  complete t ht := by
    obtain ⟨k, hk⟩ := List.mem_iff_getElem?.mp ht
    exact (sound k t hk).1
  length_calls := by
    rw [length_calls_exchanges]
    rcases h.calls_eq with hc | ⟨answer, hc⟩
    · exact .inl (by rw [hc]; rfl)
    · exact .inr (by rw [hc]; rfl)
  sent k request answer hk := calls_exchanges_sent first turns h k (request, answer) hk
  answered k t hk := ⟨calls_exchanges_answered first turns tail k t hk, (sound k t hk).2⟩
  grows k a b ha hb := by
    rw [calls_exchanges_sent first turns h k a ha, calls_exchanges_sent first turns h (k + 1) b hb]
    exact prefix_requestAfter first (List.take_prefix_take_left (Nat.le_succ k))
  returned r hr := by
    subst hr
    have last := calls_exchanges_last first turns h
    cases h with
    | returned answer _ hr hm ht =>
      rw [length_calls_exchanges, hr]
      exact ⟨rfl, last rfl, hm, ht⟩

/-! ## Whole runs -/

/-- A run resumes, and then it loops from the request that came of that. -/
lemma run_eq_turns (model : Model ω) {tools : ToolLookup ω} {options : RunOptions}
    {directives : List Directive} {request first : Request} {s s' : Session ω}
    (h : Run.resume tools options directives request s = (s', .ok first)) :
    run model tools options directives request s =
      Run.turns model tools options options.maxTurns ⟨first, {}, 0⟩ s' := by
  rw [run, h]

lemma run_eq_error {model : Model ω} {tools : ToolLookup ω} {options : RunOptions}
    {directives : List Directive} {request : Request} {s s' : Session ω} {e : RunError}
    (h : Run.resume tools options directives request s = (s', .error e)) :
    run model tools options directives request s = (s', .error e) := by
  rw [run, h]

/-- Resumption changes nothing of a request but its messages, and is not heard by the model. -/
lemma resume_dialogue (tools : ToolLookup ω) (options : RunOptions) (directives : List Directive)
    (request : Request) (s : Session ω) :
    (Run.resume tools options directives request s).1.dialogue = s.dialogue ∧
      ∀ first, (Run.resume tools options directives request s).2 = .ok first →
        first = { request with messages := first.messages } := by
  have applied := (Resume.apply_notes tools options.calls request.messages directives
    s).dialogue_eq fun e he => (Entry.OfCall.ofTools he).utterance?_eq_none
  rcases h : Run.resume tools options directives request s with ⟨s', e | first⟩
  · rw [(resume_eq_error h).2] at applied
    exact ⟨applied, fun first hf => by cases hf⟩
  · rcases resume_eq_ok h with ⟨_, rfl, rfl⟩ | ⟨_, _, _, _, ha, rfl, rfl⟩
    · exact ⟨rfl, fun first hf => by rw [← Except.ok.inj hf]⟩
    · rw [ha] at applied
      refine ⟨?_, fun first hf => by rw [← Except.ok.inj hf]⟩
      rw [Session.dialogue_note, applied]
      exact List.append_nil _

/-- **Every run has a transcript.**  After resumption, which the model does not hear of, the calls
of the run are those of its turns and at most one more, and each sends the conversation so far.
When the run cannot be resumed there is no call at all. -/
theorem run_transcript (model : Model ω) (tools : ToolLookup ω) (options : RunOptions)
    (directives : List Directive) (request : Request) (s : Session ω) :
    ∃ said, (run model tools options directives request s).1.dialogue = s.dialogue ++ said ∧
      (∀ e, (Run.resume tools options directives request s).2 = .error e →
        said = [] ∧ (run model tools options directives request s).2 = .error e) ∧
      ∀ first, (Run.resume tools options directives request s).2 = .ok first →
        first = { request with messages := first.messages } ∧
          ∃ turns, Transcript model first turns (Utterance.calls said)
            (run model tools options directives request s).2 := by
  obtain ⟨hd, hr⟩ := resume_dialogue tools options directives request s
  rcases h : Run.resume tools options directives request s with ⟨s', e | first⟩
  · rw [h] at hd
    rw [run_eq_error h]
    refine ⟨[], by rw [hd, List.append_nil], ?_, fun first hf => by cases hf⟩
    intro e' he
    obtain rfl := Except.error.inj he
    exact ⟨rfl, rfl⟩
  · rw [h] at hd hr
    rw [run_eq_turns model h]
    obtain ⟨turns, course⟩ := exists_course model tools options options.maxTurns
      ⟨first, {}, 0⟩ s'
    obtain ⟨sound, tail, ht, closing⟩ := course.dialogue
    rw [Nat.zero_add] at closing
    refine ⟨_, by rw [ht, hd], fun e he => (by cases he), ?_⟩
    intro first' hf
    obtain rfl := Except.ok.inj hf
    exact ⟨hr first rfl, turns, transcript_of_closing sound closing⟩

end Run

end Colloquy
