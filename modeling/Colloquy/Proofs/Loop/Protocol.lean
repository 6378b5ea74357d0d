import Colloquy.Proofs.Loop.Budget

/-!
# The protocol of events

A handler sees a run as a row of events and reconstructs from their order what goes on.  `Trace` is
the protocol that it may rely on: first perhaps the number of responses that a resumption appended,
then turn by turn the call of the model, its answer and the batch of its tool calls, and at last how
the run ended.

That the calls of a batch are announced in the order of the requests is a matter of activities, and
is the same whether they run side by side or one after the other.  The rest follows the course of
the run.
-/

namespace Colloquy

variable {ω : Type}

/-! ## Reading events -/

/-- The event of an entry, if it is one. -/
def Entry.event? : Entry → Option Event
  | .event e => some e
  | _ => none

namespace Session

lemma events_eq (s : Session ω) : s.events = s.journal.filterMap Entry.event? := rfl

lemma events_note (entry : Entry) (s : Session ω) :
    (s.note entry).events = s.events ++ entry.event?.toList := by
  rw [events_eq, events_eq, filterMap_note]

lemma events_note_event (event : Event) (s : Session ω) :
    (s.note (.event event)).events = s.events ++ [event] :=
  events_note (.event event) s

lemma events_noteEvents (events : List Event) (s : Session ω) :
    (s.noteEvents events).events = s.events ++ events := by
  rw [events_eq, events_eq, filterMap_noteEvents]
  exact congrArg _ List.filterMap_some

/-- Entries that are no events add none. -/
lemma Notes.events_eq {kind : Entry → Prop} (hk : ∀ e, kind e → e.event? = none)
    {s s' : Session ω} (h : Notes kind s s') : s'.events = s.events := by
  rw [Session.events_eq, Session.events_eq, h.filterMap_eq _ hk]

end Session

/-- Tool calls add no events; it is the batch that announces them and reports their results. -/
lemma Entry.OfTools.event?_eq_none {tools : ToolLookup ω} {options : CallOptions} {e : Entry}
    (h : OfTools tools options e) : e.event? = none := by
  rcases h with _ | ⟨_, _ | _ | _⟩ <;> rfl

/-! ## Batches -/

namespace Batch

/-- The event that announces the call of a request. -/
def executing (r : ToolRequest) : Event := .toolExecuting r.name r.reference r.input

/-- The event that reports the outcome of the call of a request, unless it interrupted. -/
def reported? (r : ToolRequest) : Outcome → Option Event
  | .success output => some (.toolResult r.name r.reference output)
  | .failure message =>
    some (.toolResult r.name r.reference (ToolResponse.errorPayload message))
  | .interrupt _ => none

variable (tools : ToolLookup ω) (options : CallOptions)

lemma resultEvents_answers (requests : List ToolRequest) (outcomes : List Outcome) :
    resultEvents (answers requests outcomes) =
      (requests.zip outcomes).filterMap fun (r, o) => reported? r o := by
  rw [resultEvents, answers, ← List.map_uncurry_zip_eq_zipWith, List.filterMap_map]
  refine List.filterMap_congr fun ⟨r, o⟩ _ => ?_
  cases o <;> rfl

/-- A call announces itself and adds no other event. -/
lemma announces_runRequest (r : ToolRequest) :
    Activity.Announces Session.events (executing r) (runRequest tools options r) := by
  have silent {x : Activity (Session ω) Outcome}
      (hx : x.Obeys (Session.Notes (Entry.OfTools tools options)) fun _ => True) :
      x.Obeys (Activity.Keeps Session.events) fun _ => True :=
    hx.mono (fun _ _ h => h.events_eq fun _ he => he.event?_eq_none) fun _ h => h
  refine ⟨_, _, rfl, Session.events_note_event (executing r), fun _ => silent ?_⟩
  cases found : tools r.name with
  | some tool => exact Tool.obeys_run_of_found options _ _ found
  | none => exact (Session.obeys_noting (.warning _)).bind fun _ _ => trivial

/-- Unless it is broken off, a batch announces its calls in the order of the requests, whether they
run side by side or one after the other. -/
theorem run_events {concurrent : Bool} {requests : List ToolRequest} {s s' : Session ω}
    {outcomes : List Outcome}
    (h : (run tools options concurrent requests).run s = (s', some outcomes)) :
    s'.events = s.events ++ requests.map executing := by
  have announced : ∀ r ∈ requests,
      Activity.Announces Session.events (executing r) (runRequest tools options r) :=
    fun r _ => announces_runRequest tools options r
  have calls : (if concurrent then Activity.together (requests.map (runRequest tools options))
      else Activity.inOrder (requests.map (runRequest tools options))).Writes Session.events
      (requests.map executing) := by
    split
    · exact Activity.writes_together announced
    · exact Activity.writes_inOrder announced
  exact calls.run_guarded _ h

end Batch

namespace Run

variable {model : Model ω} {tools : ToolLookup ω} {options : RunOptions}

/-! ## Traces -/

/-- Called with the request, the model reports the chunks and comes to the result, if what surrounds
it is right. -/
def Calls (model : Model ω) (request : Request) (chunks : List (List Part))
    (result : Except ModelError Reply) : Prop :=
  ∃ around after, model.call request around = ⟨chunks, result, after⟩

/-- The events of a model call: that it starts, and its chunks. -/
def callEvents (options : RunOptions) (turn : Nat) (request : Request)
    (chunks : List (List Part)) : List Event :=
  .turnStart turn options.maxTurns request.messages.length :: chunks.map (.chunk turn)

/-- The events of a model call that was answered. -/
def answeredEvents (options : RunOptions) (turn : Nat) (request : Request)
    (chunks : List (List Part)) (reply : Reply) : List Event :=
  callEvents options turn request chunks ++ replyEvents turn reply

/-- The events of a batch: the number of requests, then the calls that are made, and at last the
results of those that did not interrupt. -/
def batchEvents (turn : Nat) (requests : List ToolRequest) (outcomes : List Outcome) :
    List Event :=
  .toolCallsReceived turn requests.length :: requests.map Batch.executing ++
    (requests.zip outcomes).filterMap fun (r, o) => Batch.reported? r o

/-- The conversation goes on with an answer and a response to each of its requests. -/
def continued (request : Request) (answer : Message) (outcomes : List Outcome) : Request :=
  { request with messages := request.messages ++ [answer, Message.ofResponses
      (Batch.responses (Batch.answers answer.toolRequests outcomes))] }

/-- The events of a loop from a turn on in which a request is sent, and what the loop comes to. -/
inductive Protocol (model : Model ω) (options : RunOptions) :
    (turn : Nat) → Request → List Event → Except RunError Response → Prop
  /-- The model failed. -/
  | failed {turn request chunks e} (call : Calls model request chunks (.error e)) :
      Protocol model options turn request (callEvents options turn request chunks)
        (.error (.model e))
  /-- The answer asks for no tool calls, or the tool calls are left to the caller. -/
  | finished {turn request chunks reply} {r : Response}
      (call : Calls model request chunks (.ok reply))
      (state : reply.message.hasToolRequests = false ∧ r.state = .done ∨
        reply.message.hasToolRequests = true ∧ options.returnToolRequests = true ∧
          r.state = .toolRequests) (turns : r.turns = turn) :
      Protocol model options turn request
        (answeredEvents options turn request chunks reply ++ [.finished r.turns]) (.ok r)
  /-- No turn is left for the tool calls. -/
  | exceeded {turn request chunks reply} (call : Calls model request chunks (.ok reply))
      (h : CallsTools options reply) (limit : turn = options.maxTurns) :
      Protocol model options turn request
        (answeredEvents options turn request chunks reply ++ [.turnLimitReached options.maxTurns])
        (.error (.turnLimitExceeded options.maxTurns))
  /-- A call of the batch interrupted. -/
  | paused {turn request chunks reply outcomes} {r : Response}
      (call : Calls model request chunks (.ok reply)) (h : CallsTools options reply)
      (limit : turn < options.maxTurns)
      (batch : outcomes.length = reply.message.toolRequests.length)
      (interrupt : ∃ metadata, .interrupt metadata ∈ outcomes) (state : r.state = .interrupted)
      (interrupts : r.interrupts = Batch.interrupts reply.message.toolRequests
        (Batch.answers reply.message.toolRequests outcomes)) :
      Protocol model options turn request
        (answeredEvents options turn request chunks reply ++
          (batchEvents turn reply.message.toolRequests outcomes ++ [.interrupted r.interrupts]))
        (.ok r)
  /-- No call of the batch interrupted, and the next turn follows. -/
  | turn {turn request chunks reply outcomes events result}
      (call : Calls model request chunks (.ok reply)) (h : CallsTools options reply)
      (limit : turn < options.maxTurns)
      (batch : outcomes.length = reply.message.toolRequests.length)
      (completed : ∀ metadata, .interrupt metadata ∉ outcomes)
      (rest : Protocol model options (turn + 1) (continued request reply.message outcomes) events
        result) :
      Protocol model options turn request
        (answeredEvents options turn request chunks reply ++
          (batchEvents turn reply.message.toolRequests outcomes ++ events)) result

/-- The events of a run. -/
inductive Trace (model : Model ω) (options : RunOptions) (directives : List Directive)
    (request : Request) : List Event → Except RunError Response → Prop
  /-- There is nothing to resume. -/
  | fresh {events result} (h : directives = [])
      (protocol : Protocol model options 0 request events result) :
      Trace model options directives request events result
  /-- The run cannot be resumed. -/
  | refused {e} (h : directives ≠ []) (other : ∀ n, e ≠ .turnLimitExceeded n) :
      Trace model options directives request [] (.error e)
  /-- The requests of the last message were answered, and a message with the responses, if there are
  any, is appended. -/
  | resumed {answered responses events result} (h : directives ≠ [])
      (length : answered.length = request.messages.length)
      (protocol : Protocol model options 0
        { request with messages := answered ++
            if responses.isEmpty then [] else [Message.ofResponses responses] } events result) :
      Trace model options directives request (.resumed responses.length :: events) result

/-! ## Turns and ends -/

section Events

variable {p p' : Progress} {s s' : Session ω} {reply : Reply} {outcomes : List Outcome}

lemma events_ask {asked : Session ω} {result : Except ModelError Reply}
    (h : ask model p (opened options p s) = (asked, result)) :
    ∃ chunks, Calls model p.request chunks result ∧
      asked.events = s.events ++ callEvents options p.turn p.request chunks := by
  obtain ⟨rfl, rfl⟩ := Prod.mk.inj h
  refine ⟨_, ⟨s.around, _, rfl⟩, ?_⟩
  have around (t : Session ω) (a : Surroundings ω) :
      Session.events { t with around := a } = t.events := rfl
  rw [around, Session.events_noteEvents, Session.events_note, opened, Session.events_note_event,
    callEvents]
  simp [Entry.event?, Session.note]

lemma Replied.events (h : Replied model options p s reply s') :
    ∃ chunks, Calls model p.request chunks (.ok reply) ∧
      s'.events = s.events ++ answeredEvents options p.turn p.request chunks reply := by
  obtain ⟨_, asked, ha, rfl⟩ := h
  obtain ⟨chunks, call, he⟩ := events_ask ha
  refine ⟨chunks, call, ?_⟩
  rw [Session.events_noteEvents, he, answeredEvents, List.append_assoc]

lemma Worked.events (h : Worked model tools options p s reply outcomes s') :
    ∃ chunks, Calls model p.request chunks (.ok reply) ∧
      s'.events = s.events ++ (answeredEvents options p.turn p.request chunks reply ++
        batchEvents p.turn reply.message.toolRequests outcomes) := by
  obtain ⟨replied, calls, batch⟩ := h
  obtain ⟨chunks, call, he⟩ := replied.events
  have announced := Batch.run_events tools options.calls batch
  refine ⟨chunks, call, ?_⟩
  rw [noteResults, Session.events_noteEvents, announced, Session.events_note_event, he, use_turn,
    Batch.resultEvents_answers, batchEvents]
  simp only [List.append_assoc, List.cons_append, List.nil_append]

lemma advance_request (p : Progress) (usage : Option Usage) (answer : Message)
    (outcomes : List Outcome) :
    ((p.use usage).advance answer
      (Batch.responses (Batch.answers answer.toolRequests outcomes))).request =
      continued p.request answer outcomes := by
  rw [Progress.advance, continued, use_request]

/-- An end that was not cancelled is an end of the protocol. -/
lemma Ended.protocol {left : Nat} {r : Result ω} (h : Ended model tools options left p s r)
    (hl : p.turn + left = options.maxTurns) (hc : r.2 ≠ .error .cancelled) :
    ∃ events, r.1.events = s.events ++ events ∧
      Protocol model options p.turn p.request events r.2 := by
  cases h with
  | cancelled h => exact absurd rfl hc
  | dropped replied h batch => exact absurd rfl hc
  | @failed _ _ _ s' error h asked =>
    obtain ⟨chunks, call, he⟩ := events_ask asked
    exact ⟨_, he, .failed call⟩
  | @done _ _ _ reply s' replied h =>
    obtain ⟨chunks, call, he⟩ := replied.events
    refine ⟨_, ?_, .finished call (.inl ⟨h, rfl⟩) (use_turn p reply.usage)⟩
    rw [finish, Session.events_note_event, he, List.append_assoc]
    rfl
  | @returned _ _ _ reply s' replied h hr =>
    obtain ⟨chunks, call, he⟩ := replied.events
    refine ⟨_, ?_, .finished call (.inr ⟨h, hr, rfl⟩) (use_turn p reply.usage)⟩
    rw [finish, Session.events_note_event, he, List.append_assoc]
    rfl
  | @exceeded _ _ reply s' replied h =>
    obtain ⟨chunks, call, he⟩ := replied.events
    refine ⟨_, ?_, .exceeded call h hl⟩
    rw [exceed, Session.events_note_event, Session.events_note, he]
    simp [Entry.event?]
  | @paused left _ _ reply outcomes s' message interrupts worked settled =>
    obtain ⟨chunks, call, he⟩ := worked.events
    obtain ⟨t, replied, h⟩ := worked.replied
    obtain ⟨rfl, hi, rfl⟩ := Batch.settle_eq_paused settled
    rw [ne_eq, Batch.interrupts_eq_nil_iff worked.length_outcomes, not_forall_not] at hi
    refine ⟨_, ?_, .paused call h (by omega) worked.length_outcomes hi rfl rfl⟩
    rw [pause, Session.events_note_event, he]
    simp only [List.append_assoc]
    rfl

/-- **The loop keeps to the protocol**, by induction on its course. -/
lemma Course.protocol {left : Nat} {turns : List Turn} {r : Result ω}
    (h : Course model tools options left turns p s r) (hl : p.turn + left = options.maxTurns)
    (hc : r.2 ≠ .error .cancelled) :
    ∃ events, r.1.events = s.events ++ events ∧
      Protocol model options p.turn p.request events r.2 := by
  induction h with
  | last h => exact h.protocol hl hc
  | @turn left turn turns p s p' s' r h rest ih =>
    cases h with
    | @intro reply outcomes responses _ worked settled =>
      obtain ⟨chunks, call, he⟩ := worked.events
      obtain ⟨t, replied, calls⟩ := worked.replied
      obtain ⟨hi, rfl⟩ := Batch.settle_eq_answered settled
      have completed := (Batch.interrupts_eq_nil_iff worked.length_outcomes).mp hi
      obtain ⟨events, hr, protocol⟩ := ih (by rw [advance_turn, use_turn]; omega) hc
      rw [advance_turn, use_turn, advance_request] at protocol
      refine ⟨_, ?_, .turn call calls (by omega) worked.length_outcomes completed protocol⟩
      rw [hr, he]
      simp only [List.append_assoc]

end Events

/-! ## Turns and ends of a trace -/

/-- The event tells that the run ended. -/
def isClosing : Event → Bool
  | .finished _ | .interrupted _ | .turnLimitReached _ => true
  | _ => false

def isResumption : Event → Bool
  | .resumed _ => true
  | _ => false

/-- The number of the turn that an event starts. -/
def started? : Event → Option Nat
  | .turnStart turn .. => some turn
  | _ => none

/-- The event with which a run ends that comes to a result, if there is one. -/
def closing : Except RunError Response → List Event
  | .ok r => if r.state = .interrupted then [.interrupted r.interrupts] else [.finished r.turns]
  | .error (.turnLimitExceeded maxTurns) => [.turnLimitReached maxTurns]
  | .error _ => []

/-- The events are those of some turns, counted from one on: they resume nothing and end nothing,
and the turns start in order. -/
structure Inner (turn count : Nat) (events : List Event) : Prop where
  ongoing : ∀ e ∈ events, isClosing e = false
  begun : ∀ e ∈ events, isResumption e = false
  starts : events.filterMap started? = List.range' turn count

section Ends

variable {turn count more : Nat} {request : Request} {events others : List Event}
  {result : Except RunError Response}

lemma Inner.append (h : Inner turn count events) (ho : Inner (turn + count) more others) :
    Inner turn (count + more) (events ++ others) where
  ongoing := List.forall_mem_append.mpr ⟨h.ongoing, ho.ongoing⟩
  begun := List.forall_mem_append.mpr ⟨h.begun, ho.begun⟩
  starts := by rw [List.filterMap_append, h.starts, ho.starts, List.range'_append_1]

/-- Events within a turn. -/
lemma inner_of_forall
    (h : ∀ e ∈ events, isClosing e = false ∧ isResumption e = false ∧ started? e = none) :
    Inner turn 0 events where
  ongoing e he := (h e he).1
  begun e he := (h e he).2.1
  starts := List.filterMap_eq_nil_iff.mpr fun e he => (h e he).2.2

lemma inner_callEvents (options : RunOptions) (turn : Nat) (request : Request)
    (chunks : List (List Part)) : Inner turn 1 (callEvents options turn request chunks) := by
  have start : Inner turn 1 [.turnStart turn options.maxTurns request.messages.length] :=
    ⟨by simp [isClosing], by simp [isResumption], rfl⟩
  refine start.append (inner_of_forall fun e he => ?_)
  obtain ⟨chunk, _, rfl⟩ := List.mem_map.mp he
  exact ⟨rfl, rfl, rfl⟩

lemma inner_answeredEvents (options : RunOptions) (turn : Nat) (request : Request)
    (chunks : List (List Part)) (reply : Reply) :
    Inner turn 1 (answeredEvents options turn request chunks reply) := by
  refine (inner_callEvents options turn request chunks).append (inner_of_forall fun e he => ?_)
  rcases List.mem_append.mp he with hu | hr
  · cases h : reply.usage with
    | none => rw [h] at hu; cases hu
    | some usage =>
      rw [h] at hu
      obtain rfl := List.mem_singleton.mp hu
      exact ⟨rfl, rfl, rfl⟩
  · obtain rfl := List.mem_singleton.mp hr
    exact ⟨rfl, rfl, rfl⟩

lemma inner_batchEvents (turn : Nat) (requests : List ToolRequest) (outcomes : List Outcome) :
    Inner (turn + 1) 0 (batchEvents turn requests outcomes) := by
  refine inner_of_forall fun e he => ?_
  rcases List.mem_append.mp he with he | he
  · rcases List.mem_cons.mp he with rfl | he
    · exact ⟨rfl, rfl, rfl⟩
    · obtain ⟨r, _, rfl⟩ := List.mem_map.mp he
      exact ⟨rfl, rfl, rfl⟩
  · obtain ⟨⟨r, o⟩, _, ho⟩ := List.mem_filterMap.mp he
    cases o with
    | success output =>
      obtain rfl := Option.some.inj ho
      exact ⟨rfl, rfl, rfl⟩
    | failure message =>
      obtain rfl := Option.some.inj ho
      exact ⟨rfl, rfl, rfl⟩
    | interrupt metadata => cases ho

/-- The events of a loop are those of its turns, and then the one that tells how it ended. -/
lemma Protocol.exists_inner (h : Protocol model options turn request events result) :
    ∃ inner count, events = inner ++ closing result ∧ Inner turn (count + 1) inner := by
  induction h with
  | failed call => exact ⟨_, 0, (List.append_nil _).symm, inner_callEvents ..⟩
  | @finished turn request chunks reply r call state turns =>
    refine ⟨_, 0, ?_, inner_answeredEvents options turn request chunks reply⟩
    have going : r.state ≠ .interrupted := by
      rcases state with ⟨_, h⟩ | ⟨_, _, h⟩ <;> rw [h] <;> decide
    rw [closing, if_neg going]
  | exceeded call h limit => exact ⟨_, 0, rfl, inner_answeredEvents ..⟩
  | @paused turn request chunks reply outcomes r call h limit batch interrupt state interrupts =>
    refine ⟨_, 0, ?_, (inner_answeredEvents options turn request chunks reply).append
      (inner_batchEvents turn reply.message.toolRequests outcomes)⟩
    rw [closing, if_pos state, List.append_assoc]
  | @turn turn request chunks reply outcomes events result call h limit batch completed rest ih =>
    obtain ⟨inner, count, rfl, others⟩ := ih
    have first := (inner_answeredEvents options turn request chunks reply).append
      (inner_batchEvents turn reply.message.toolRequests outcomes)
    have all : Inner turn (1 + (count + 1)) _ := first.append others
    rw [Nat.add_comm] at all
    exact ⟨_, count + 1, by simp only [List.append_assoc], all⟩

end Ends

/-! ## Whole runs -/

lemma apply_events (tools : ToolLookup ω) (options : CallOptions) (messages : List Message)
    (directives : List Directive) (s : Session ω) :
    (Resume.apply tools options messages directives s).1.events = s.events :=
  (Resume.apply_notes tools options messages directives s).events_eq
    fun _ he => he.event?_eq_none

section Resumption

variable {tools : ToolLookup ω} {options : RunOptions} {directives : List Directive}
  {request first : Request} {s s' : Session ω}

/-- A resumption that fails is not heard of. -/
lemma resume_refused {e : RunError}
    (h : Run.resume tools options directives request s = (s', .error e)) :
    directives ≠ [] ∧ s'.events = s.events := by
  obtain ⟨directed, ha⟩ := resume_eq_error h
  have silent := apply_events tools options.calls request.messages directives s
  rw [ha] at silent
  exact ⟨directed, silent⟩

/-- One that succeeds tells the number of responses. -/
lemma resume_succeeded (h : Run.resume tools options directives request s = (s', .ok first)) :
    directives = [] ∧ s' = s ∧ first = request ∨
      directives ≠ [] ∧ ∃ (answered : List Message) (responses : List ToolResponse),
        answered.length = request.messages.length ∧
        first = { request with messages := answered ++
          if responses.isEmpty then [] else [Message.ofResponses responses] } ∧
        s'.events = s.events ++ [.resumed responses.length] := by
  refine (resume_eq_ok h).imp_right ?_
  rintro ⟨directed, messages, n, s'', ha, rfl, rfl⟩
  have silent := apply_events tools options.calls request.messages directives s
  rw [ha] at silent
  obtain ⟨last, _, a, hl, _, _, rfl, rfl⟩ := Resume.apply_eq_ok ha
  refine ⟨directed, _, a.responses, ?_, rfl, by rw [Session.events_note_event, silent]⟩
  have nonempty : request.messages ≠ [] := by
    intro hn
    rw [hn] at hl
    cases hl
  have := List.length_pos_iff.mpr nonempty
  rw [List.length_append, List.length_dropLast, List.length_singleton]
  omega

end Resumption

lemma closing_eq_nil {e : RunError} (h : ∀ n, e ≠ .turnLimitExceeded n) :
    closing (.error e) = [] := by
  cases e with
  | turnLimitExceeded n => exact absurd rfl (h n)
  | _ => rfl

/-- **Every run keeps to the protocol** unless it is cancelled.  Besides, its events are at most one
of a resumption, then those of its turns, which start in order from zero, and at last the one that
tells how the run ended, if there is one. -/
theorem run_traced (model : Model ω) (tools : ToolLookup ω) (options : RunOptions)
    (directives : List Directive) (request : Request) (s : Session ω)
    (h : (run model tools options directives request s).2 ≠ .error .cancelled) :
    ∃ events, (run model tools options directives request s).1.events = s.events ++ events ∧
      Trace model options directives request events
        (run model tools options directives request s).2 ∧
      ∃ resumed inner count,
        events = resumed ++ (inner ++ closing (run model tools options directives request s).2) ∧
        (resumed = [] ∨ ∃ n, resumed = [.resumed n]) ∧ Inner 0 count inner := by
  rcases hr : Run.resume tools options directives request s with ⟨s', e | first⟩
  · rw [run_eq_error hr]
    have other := resume_error tools (congrArg Prod.snd hr)
    obtain ⟨directed, silent⟩ := resume_refused hr
    refine ⟨[], by rw [silent, List.append_nil], .refused directed other, [], [], 0, ?_, .inl rfl,
      inner_of_forall fun e he => absurd he List.not_mem_nil⟩
    rw [closing_eq_nil other]
    rfl
  · rw [run_eq_turns model hr] at h ⊢
    obtain ⟨turns, course⟩ := exists_course model tools options options.maxTurns
      ⟨first, {}, 0⟩ s'
    obtain ⟨events, he, protocol⟩ := course.protocol (Nat.zero_add _) h
    obtain ⟨inner, count, hi, turns⟩ := protocol.exists_inner
    rcases resume_succeeded hr with ⟨fresh, rfl, rfl⟩ | ⟨directed, answered, responses, hl, rfl, hs⟩
    · exact ⟨events, he, .fresh fresh protocol, [], inner, count + 1, hi, .inl rfl, turns⟩
    · refine ⟨.resumed responses.length :: events, ?_, .resumed directed hl protocol,
        [.resumed responses.length], inner, count + 1, by rw [hi]; rfl, .inr ⟨_, rfl⟩, turns⟩
      rw [he, hs, List.append_assoc]
      rfl

/-- An answer that asks for a tool call. -/
def looking : Message := ⟨.model, [.toolRequest { name := "look" }], none⟩

/-- An answer that asks for nothing. -/
def looked : Message := ⟨.model, [.text "nothing there"], none⟩

/-- A model that gives the first answer with a chunk, and then the second with its usage. -/
def looker : Model Bool where
  name := "looker"
  call _ around :=
    if around.world then ⟨[], .ok { message := looked, usage := some {} }, around⟩
    else ⟨[[.text "well"]], .ok { message := looking }, { around with world := true }⟩

/-- A run of the model without any tools. -/
def lookup : Result Bool := run looker (fun _ => none) {} [] {} ⟨[], ⟨false, false⟩⟩

theorem run_traced_looker :
    lookup.2 ≠ .error .cancelled ∧ Trace looker {} [] {} lookup.1.events lookup.2 ∧
      lookup.1.events = [.turnStart 0 5 0, .chunk 0 [.text "well"], .modelResponse 0 looking .stop,
        .toolCallsReceived 0 1, .toolExecuting "look" none .null,
        .toolResult "look" none (ToolResponse.errorPayload "unknown tool 'look'"),
        .turnStart 1 5 2, .tokenUsage {}, .modelResponse 1 looked .stop, .finished 1] := by
  have going : lookup.2 ≠ .error .cancelled := by decide +kernel
  obtain ⟨events, he, trace, _⟩ := run_traced looker (fun _ => none) {} [] {} _ going
  have all : lookup.1.events = events := he
  refine ⟨going, ?_, by decide +kernel⟩
  rw [all]
  exact trace

end Run

end Colloquy
