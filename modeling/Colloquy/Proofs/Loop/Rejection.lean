import Colloquy.Proofs.Loop.Answering
import Colloquy.Proofs.Loop.Validation

/-!
# Rejected inputs

A call whose input is rejected is not made, and its result is an error payload that tells why.  So
it is in a batch (`ToolLookup.Allows`), and so it is when a call that interrupted is made again with
such an input (`Resume.follow_rejected`).

A rejection ends no run.  Where a batch pauses it, some call interrupted, and its input was accepted
(`Batch.interrupts_accepted`); where resumption fails, it fails at a request for another reason
(`Resume.Fails`).

`run_validates` puts this together with what the tools get to see.
-/

namespace Colloquy

variable {ω : Type}

/-! ## Batches -/

namespace ToolLookup

/-- The outcome is one that a call may come to which checks its input first. -/
structure Allows (tools : ToolLookup ω) (r : ToolRequest) (o : Outcome) : Prop where
  /-- A rejection is a failure, with the message that it has. -/
  rejected : ∀ message, tools.Rejects r.name r.input message → o = .failure message
  /-- What interrupts is a tool that accepted its input. -/
  interrupted : ∀ metadata, o = .interrupt metadata → tools.Accepts r.name r.input

/-- The response tells of the rejection, if the input of the request is rejected. -/
def Tells (tools : ToolLookup ω) (r : ToolRequest) (response : ToolResponse) : Prop :=
  ∀ message, tools.Rejects r.name r.input message →
    response = ⟨r.name, r.reference, ToolResponse.errorPayload message⟩

/-- The second request is the first with the error payload as its output for later, if the input is
rejected. -/
def Keeps (tools : ToolLookup ω) (r q : ToolRequest) : Prop :=
  ∀ message, tools.Rejects r.name r.input message →
    q = { r with pendingOutput := some (ToolResponse.errorPayload message) }

variable {tools : ToolLookup ω} {r : ToolRequest} {o : Outcome}

lemma Allows.tells (h : tools.Allows r o) {response : ToolResponse}
    (answer : Answer.ofOutcome r o = .response response) : tools.Tells r response := by
  intro message rejected
  obtain rfl := h.rejected message rejected
  exact (Answer.response.inj answer).symm

lemma Allows.keeps (h : tools.Allows r o) :
    tools.Keeps r (Batch.mark r (Answer.ofOutcome r o)) := by
  intro message rejected
  obtain rfl := h.rejected message rejected
  rfl

lemma Allows.accepts (h : tools.Allows r o) {metadata : Json}
    (answer : Answer.ofOutcome r o = .interrupt metadata) : tools.Accepts r.name r.input := by
  cases o with
  | interrupt metadata => exact h.interrupted metadata rfl
  | success output => cases answer
  | failure message => cases answer

end ToolLookup

namespace Batch

variable {tools : ToolLookup ω} {options : CallOptions}

lemma obeys_runRequest_allows (hv : options.validate = true) (r : ToolRequest) :
    (runRequest tools options r).Obeys (Session.Notes (Entry.OfCall tools options))
      (tools.Allows r) := by
  refine (Session.obeys_noting (.executing r.name r.reference r.input)).bind fun _ _ => ?_
  split
  · rename_i tool found
    rcases ToolLookup.rejects_or_accepts found r.input with ⟨message, rejected, only⟩ | accepted
    · rw [Tool.run_of_rejected hv rejected]
      exact ⟨fun message' h => by rw [only message' h], fun metadata h => by cases h⟩
    · have allowed (o : Outcome) : tools.Allows r o :=
        ⟨fun message h => absurd accepted h.not_accepts, fun _ _ => accepted⟩
      exact (Tool.obeys_run_of_found options _ _ found).mono
        (fun _ _ h => h.mono fun _ => .ofTools) fun o _ => allowed o
  · rename_i none
    refine (Session.obeys_noting (.ofTools (.warning _))).bind fun _ _ => ⟨?_, ?_⟩
    · rintro message ⟨_, found, _⟩
      cases none.symm.trans found
    · intro metadata h
      cases h

variable {message : Message} {outcomes : List Outcome}

/-- Where a batch is answered, each rejected request has a response that tells of it. -/
lemma responses_tell (h : List.Forall₂ tools.Allows message.toolRequests outcomes)
    {responses : List ToolResponse} (settled : settle message outcomes = .answered responses) :
    List.Forall₂ tools.Tells message.toolRequests responses := by
  obtain ⟨none, rfl⟩ := settle_eq_answered settled
  exact (responses_of_forall₂ h none).imp fun _ _ ⟨_, allowed, answer⟩ => allowed.tells answer

variable {paused : Message} {interrupts : List Interrupt}

/-- Where a batch pauses, the inputs of the calls that interrupted were accepted. -/
lemma interrupts_accepted (h : List.Forall₂ tools.Allows message.toolRequests outcomes)
    (settled : settle message outcomes = .paused paused interrupts) :
    ∀ i ∈ interrupts, tools.Accepts i.toolName i.input := by
  obtain ⟨rfl, _, _⟩ := settle_eq_paused settled
  intro i hi
  obtain ⟨r, o, metadata, allowed, answer, rfl⟩ := mem_interrupts_of_forall₂ h hi
  exact allowed.accepts answer

/-- Where a batch pauses, each rejected request keeps the error payload for later. -/
lemma paused_keeps (h : List.Forall₂ tools.Allows message.toolRequests outcomes)
    (settled : settle message outcomes = .paused paused interrupts) :
    List.Forall₂ tools.Keeps message.toolRequests paused.toolRequests := by
  obtain ⟨_, _, rfl⟩ := settle_eq_paused settled
  refine (annotate_of_forall₂ rfl h).imp ?_
  rintro r _ ⟨o, allowed, rfl⟩
  exact allowed.keeps

end Batch

/-! ## Resumption -/

/-- The directive restarts the request with an input that the tool rejects, with a message. -/
def Directive.Rejected (tools : ToolLookup ω) (r : ToolRequest) (message : String) :
    Directive → Prop
  | respond .. => False
  | restart name _ input _ => tools.Rejects name (input.getD r.input) message

namespace Resume

/-- The response tells of the rejection, if the request is restarted with a rejected input. -/
def Tells (tools : ToolLookup ω) (q : ToolRequest × Option Directive) (response : ToolResponse) :
    Prop :=
  ∀ d message, q.2 = some d → d.Rejected tools q.1 message →
    response = ⟨q.1.name, q.1.reference, ToolResponse.errorPayload message⟩

/-- Why resumption fails at a request with the directive that it takes, unless it is cancelled. -/
inductive Fails (tools : ToolLookup ω) (r : ToolRequest) : Option Directive → RunError → Prop
  | unresolved : Fails tools r none (.unresolvedInterrupt r.name r.reference)
  | unknown {name reference input resumed} (h : tools name = none) :
      Fails tools r (some (.restart name reference input resumed)) (.unknownRestartTool name)
  | reinterrupted {name reference input resumed} (h : tools.Accepts name (input.getD r.input)) :
      Fails tools r (some (.restart name reference input resumed))
        (.reinterruptOnRestart r.name r.reference)

section

variable {tools : ToolLookup ω} {options : CallOptions} {s s' : Session ω} {r q : ToolRequest}
  {d : Directive} {response : ToolResponse} {directives rest : List Directive} {e : RunError}

/-- Resumption never fails for a rejected input. -/
lemma Fails.not_rejected (h : Fails tools r (some d) e) (message : String) :
    ¬d.Rejected tools r message := by
  intro rejected
  cases h with
  | unknown none =>
    obtain ⟨_, found, _⟩ := rejected
    cases none.symm.trans found
  | reinterrupted accepted => exact rejected.not_accepts accepted

/-- A restart with a rejected input calls no tool: nothing happens to the session, and the response
is an error payload unless the run is cancelled. -/
lemma follow_rejected (hv : options.validate = true) (s : Session ω) {message : String}
    (h : d.Rejected tools r message) :
    follow tools options s r d = (s, .error .cancelled) ∨ ∃ q, follow tools options s r d =
      (s, .ok (q, ⟨r.name, r.reference, ToolResponse.errorPayload message⟩)) := by
  cases d with
  | respond name reference output => exact absurd h id
  | restart name reference input resumed =>
    obtain ⟨tool, found, rejected⟩ := h
    rw [follow, found]
    dsimp only
    rw [Tool.run_of_rejected hv rejected, Activity.run_guarded_done]
    cases s.around.cancelled with
    | true => exact .inl rfl
    | false => exact .inr ⟨_, rfl⟩

lemma follow_eq_error (hv : options.validate = true)
    (h : follow tools options s r d = (s', .error e)) :
    e = .cancelled ∨ Fails tools r (some d) e := by
  cases d with
  | respond name reference output => cases congrArg Prod.snd h
  | restart name reference input resumed =>
    cases found : tools name with
    | none =>
      rw [follow, found] at h
      obtain rfl := Except.error.inj (congrArg Prod.snd h)
      exact .inr (.unknown found)
    | some tool =>
      rcases ToolLookup.rejects_or_accepts found (input.getD r.input) with
        ⟨message, rejected, _⟩ | accepted
      · have rejects : Directive.Rejected tools r message
          (.restart name reference input resumed) := ⟨tool, found, rejected⟩
        rcases follow_rejected hv s rejects with he | ⟨q, hq⟩
        · exact .inl (Except.error.inj (congrArg Prod.snd (h.symm.trans he)))
        · cases congrArg Prod.snd (h.symm.trans hq)
      · rw [follow, found] at h
        dsimp only at h
        split at h
        · exact .inl (Except.error.inj (congrArg Prod.snd h)).symm
        · rename_i outcome _
          cases outcome with
          | success output => cases congrArg Prod.snd h
          | failure message => cases congrArg Prod.snd h
          | interrupt metadata =>
            obtain rfl := Except.error.inj (congrArg Prod.snd h)
            exact .inr (.reinterrupted accepted)

/-- A request that is restarted with a rejected input is answered with an error payload, if it is
answered at all. -/
lemma Stage.output?_rejected (hv : options.validate = true) {message : String}
    (h : d.Rejected tools r message) {output : Json}
    (answered : Stage.output? tools options ⟨s, r, some d⟩ = some output) :
    output = ToolResponse.errorPayload message := by
  cases d with
  | respond name reference output => exact absurd h id
  | restart name reference input resumed =>
    obtain ⟨tool, found, rejected⟩ := h
    rw [Stage.output?_restart found, callAgain, Tool.run_of_rejected hv rejected,
      Activity.run_guarded_done] at answered
    split at answered
    · cases answered
    · exact (Option.some.inj answered).symm

/-- Each request is answered as planned. -/
lemma answerParts_tells (hv : options.validate = true) {parts : List Part} {a : Answered}
    (h : (answerParts tools options parts directives s).2 = .ok a) :
    List.Forall₂ (Tells tools) (plan (parts.filterMap Part.toolRequest?) directives)
      a.responses := by
  have closes := answerParts_closes (Prod.ext rfl h)
  have row := closes.responses.imp fun stage response ⟨answers, answered⟩ =>
    show Tells tools (stage.request, stage.directive) response by
      rintro d message taken rejected
      obtain ⟨s, r, _⟩ := stage
      obtain rfl := taken
      obtain ⟨name, reference, output⟩ := response
      obtain ⟨rfl, rfl⟩ := answers
      rw [← Stage.output?_rejected hv rejected answered]
  have mapped := (List.forall₂_map_left_iff (R := Tells tools)
    (f := fun stage : Stage ω => (stage.request, stage.directive))).mpr row
  rwa [map_stages] at mapped

/-- Where resumption stops, the request fails with the directive that it takes. -/
lemma Stage.Stops.fails (hv : options.validate = true) {stage : Stage ω}
    (h : stage.Stops tools options s' e) :
    e = .cancelled ∨ Fails tools stage.request stage.directive e := by
  cases h with
  | unresolved bare => exact .inr .unresolved
  | unfollowed bare followed => exact follow_eq_error hv followed

/-- Where not all requests are answered, one of them fails with the directive that it takes. -/
lemma answerParts_fails (hv : options.validate = true) {parts : List Part}
    (h : (answerParts tools options parts directives s).2 = .error e) :
    e = .cancelled ∨ ∃ r taken, (r, taken) ∈ plan (parts.filterMap Part.toolRequest?) directives ∧
      Fails tools r taken e := by
  obtain ⟨before, r, taken, left, planned, -, stops⟩ := answerParts_stops (Prod.ext rfl h)
  have member : (r, taken) ∈ plan (parts.filterMap Part.toolRequest?) directives := by
    rw [planned]
    exact List.mem_append_right _ List.mem_cons_self
  exact (stops.fails hv).imp_right fun failed => ⟨r, taken, member, failed⟩

end

end Resume

/-! ## Whole runs -/

namespace Run

section

variable {model : Model ω} {tools : ToolLookup ω} {options : RunOptions} {p p' : Progress}
  {s s' : Session ω}

lemma Worked.allows (hv : options.calls.validate = true) {reply : Reply} {outcomes : List Outcome}
    (h : Worked model tools options p s reply outcomes s') :
    List.Forall₂ tools.Allows reply.message.toolRequests outcomes := by
  obtain ⟨_, _, batch⟩ := h
  exact (Batch.notes_run_of_obeys tools options.calls
    (fun r _ => Batch.obeys_runRequest_allows hv r) options.concurrent _).2 _
      (congrArg Prod.snd batch)

/-- A turn tells the model of every rejection. -/
lemma Turned.tells (hv : options.calls.validate = true) {turn : Turn}
    (h : Turned model tools options p s turn p' s') :
    List.Forall₂ tools.Tells turn.answer.toolRequests turn.responses := by
  obtain ⟨worked, settled⟩ := h
  exact Batch.responses_tell (worked.allows hv) settled

lemma Course.tells (hv : options.calls.validate = true) {left : Nat} {turns : List Turn}
    {r : Result ω} (h : Course model tools options left turns p s r) :
    ∀ turn ∈ turns, List.Forall₂ tools.Tells turn.answer.toolRequests turn.responses := by
  induction h with
  | last h => exact fun turn ht => absurd ht List.not_mem_nil
  | turn h rest ih =>
    intro turn ht
    rcases List.mem_cons.mp ht with rfl | ht
    · exact h.tells hv
    · exact ih turn ht

lemma PausedIn.allows (hv : options.calls.validate = true) {answer : Message}
    {outcomes : List Outcome} {r : Response}
    (h : PausedIn model tools options answer outcomes r) :
    List.Forall₂ tools.Allows answer.toolRequests outcomes := by
  obtain ⟨_, _, _, _, worked, _, rfl⟩ := h.worked
  exact worked.allows hv

/-- When a transcript is taken up, the responses tell of rejected restarts. -/
lemma resume_tells (hv : options.calls.validate = true) {directives : List Directive}
    {request first : Request} (directed : directives ≠ [])
    (h : Run.resume tools options directives request s = (s', .ok first)) :
    ∃ last content responses, request.messages.getLast? = some last ∧
      first.messages = request.messages.dropLast ++ [{ last with content }] ++
        (if responses.isEmpty then [] else [Message.ofResponses responses]) ∧
      List.Forall₂ (Resume.Tells tools) (Resume.plan last.toolRequests directives) responses := by
  rcases resume_eq_ok h with ⟨fresh, _⟩ | ⟨_, messages, n, s'', applied, _, rfl⟩
  · exact absurd fresh directed
  · obtain ⟨last, _, a, hl, answered, _, _, hm⟩ := Resume.apply_eq_ok applied
    exact ⟨last, a.content, a.responses, hl, hm,
      Resume.answerParts_tells hv (congrArg Prod.snd answered)⟩

/-- When it is not, it is for something else. -/
lemma resume_fails (hv : options.calls.validate = true) {directives : List Directive}
    {request : Request} {e : RunError}
    (h : Run.resume tools options directives request s = (s', .error e)) :
    e = .cancelled ∨ (∃ found, e = .resumeRequiresModelMessage found) ∨
      ∃ last r taken, request.messages.getLast? = some last ∧
        (r, taken) ∈ Resume.plan last.toolRequests directives ∧ Resume.Fails tools r taken e ∧
        ∀ d message, taken = some d → ¬d.Rejected tools r message := by
  rcases Resume.apply_eq_error (resume_eq_error h).2 with ⟨_, _, other⟩ | ⟨last, hl, failed⟩
  · exact .inr (.inl ⟨_, other⟩)
  · rcases Resume.answerParts_fails hv (congrArg Prod.snd failed) with
      rfl | ⟨r, taken, planned, fails⟩
    · exact .inl rfl
    · refine .inr (.inr ⟨last, r, taken, hl, planned, fails, ?_⟩)
      rintro d message rfl
      exact fails.not_rejected message

/-- A run that was interrupted has paused in an answer. -/
lemma exists_pausedIn {directives : List Directive} {request : Request} {r : Response}
    (hr : (run model tools options directives request s).2 = .ok r)
    (hi : r.state = .interrupted) :
    ∃ answer outcomes, PausedIn model tools options answer outcomes r := by
  rcases h : Run.resume tools options directives request s with ⟨s', e | first⟩
  · rw [run_eq_error h] at hr
    cases hr
  · rw [run_eq_turns model h] at hr
    obtain ⟨turns, course⟩ := exists_course model tools options options.maxTurns
      ⟨first, {}, 0⟩ s'
    obtain ⟨answer, outcomes, paused, _⟩ := course.pausedIn hr hi
    exact ⟨answer, outcomes, paused⟩

end

/-- **What a run does about inputs** when it checks them. -/
structure Validates (model : Model ω) (tools : ToolLookup ω) (options : RunOptions)
    (directives : List Directive) (request : Request) (s : Session ω) : Prop where
  /-- Whatever the run invokes is a tool that it finds and that accepts the input. -/
  invoked : Session.Notes (Entry.Checked tools) s (run model tools options directives request s).1
  /-- What the tools would do with other inputs makes no difference. -/
  blind : ∀ tools', tools.Alike tools' →
    run model tools options directives request s = run model tools' options directives request s
  /-- When a transcript is taken up, its last requests are answered as planned, and the responses
  tell of each rejected restart. -/
  resumed : ∀ s' first, directives ≠ [] →
    Run.resume tools options directives request s = (s', .ok first) →
    ∃ last content responses, request.messages.getLast? = some last ∧
      first.messages = request.messages.dropLast ++ [{ last with content }] ++
        (if responses.isEmpty then [] else [Message.ofResponses responses]) ∧
      List.Forall₂ (Resume.Tells tools) (Resume.plan last.toolRequests directives) responses
  /-- When it is not, the run is cancelled, or the transcript does not end with a message of the
  model, or there is a request that fails, and this one is not restarted with a rejected input. -/
  refused : ∀ s' e, Run.resume tools options directives request s = (s', .error e) →
    e = .cancelled ∨ (∃ found, e = .resumeRequiresModelMessage found) ∨
      ∃ last r taken, request.messages.getLast? = some last ∧
        (r, taken) ∈ Resume.plan last.toolRequests directives ∧ Resume.Fails tools r taken e ∧
        ∀ d message, taken = some d → ¬d.Rejected tools r message
  /-- The responses of every turn tell of each rejected request, and the run goes on with them. -/
  turned : ∀ s' first, Run.resume tools options directives request s = (s', .ok first) →
    ∃ turns, Course model tools options options.maxTurns turns ⟨first, {}, 0⟩ s'
        (run model tools options directives request s) ∧
      ∀ turn ∈ turns, List.Forall₂ tools.Tells turn.answer.toolRequests turn.responses
  /-- When the run pauses, it is for calls whose input was accepted.  The rejected ones of the batch
  keep their error payloads. -/
  paused : ∀ r, (run model tools options directives request s).2 = .ok r →
    r.state = .interrupted →
    r.interrupts ≠ [] ∧ (∀ i ∈ r.interrupts, tools.Accepts i.toolName i.input) ∧
      ∃ answer outcomes, PausedIn model tools options answer outcomes r ∧
        List.Forall₂ tools.Keeps answer.toolRequests r.message.toolRequests

/-- **No tool sees an input that its schema rejects**, in a run that checks inputs, and a rejection
is told and ends nothing. -/
theorem run_validates (model : Model ω) (primary fallback : ToolLookup ω) {options : RunOptions}
    (hv : options.calls.validate = true) (directives : List Directive) (request : Request)
    (s : Session ω) :
    Validates model (primary.orElse fallback) options directives request s where
  invoked := (notes_run model _ options directives request s).mono fun _ he => he.checked hv
  blind tools' alike := run_alike model alike hv directives request s
  resumed s' first directed h := resume_tells hv directed h
  refused s' e h := resume_fails hv h
  turned s' first h := by
    rw [run_eq_turns model h]
    obtain ⟨turns, course⟩ := exists_course model (primary.orElse fallback) options
      options.maxTurns ⟨first, {}, 0⟩ s'
    exact ⟨turns, course, course.tells hv⟩
  paused r hr hi := by
    obtain ⟨answer, outcomes, paused⟩ := exists_pausedIn hr hi
    have nonempty : r.interrupts ≠ [] := (Batch.settle_eq_paused paused.settled).2.1
    have allows := paused.allows hv
    exact ⟨nonempty, Batch.interrupts_accepted allows paused.settled, answer, outcomes, paused,
      Batch.paused_keeps allows paused.settled⟩

/-- A tool that takes objects only, and leaves a mark on the world when it is invoked. -/
def strict : Tool Bool where
  definition :=
    { name := "look", description := "", inputSchema := .obj [("type", .str "object")] }
  invoke _ _ := (Activity.modify fun around => { around with world := true }).bind fun _ =>
    .done (.returned (.success .null))

/-- A model that asks for the tool with null until it has seen two responses. -/
def prober : Model Bool where
  name := "prober"
  call request around :=
    if request.messages.length < 4 then
      ⟨[], .ok { message := ⟨.model, [.toolRequest { name := "look" }], none⟩ }, around⟩
    else ⟨[], .ok { message := .ofText .model "enough" }, around⟩

/-- The tool, known to the second of two lookups. -/
def strictly : ToolLookup Bool :=
  ToolLookup.orElse (fun _ => none) fun name => if name = "look" then some strict else none

/-- The model asked for the tool, and the call interrupted. -/
def probing : Request where
  messages := [⟨.model, [.toolRequest { name := "look", interrupt := some .null }], none⟩]

/-- A run that takes this up and restarts the call with a text. -/
def probe : Result Bool :=
  run prober strictly {} [.restart "look" none (some (.str "here")) none] probing
    ⟨[], ⟨false, false⟩⟩

theorem run_validates_probe :
    ({} : RunOptions).calls.validate = true ∧
      Validates prober strictly {} [.restart "look" none (some (.str "here")) none] probing
        ⟨[], ⟨false, false⟩⟩ ∧
      probe.1.around.world = false ∧
      probe.2.toOption.map (·.messages) = some [
        ⟨.model, [.toolRequest
          { name := "look", input := .str "here", resolvedInterrupt := some .null }], none⟩,
        .ofResponses [⟨"look", none, ToolResponse.errorPayload
          "input validation failed for tool 'look': \"here\" is not of type \"object\""⟩],
        ⟨.model, [.toolRequest { name := "look" }], none⟩,
        .ofResponses [⟨"look", none, ToolResponse.errorPayload
          "input validation failed for tool 'look': null is not of type \"object\""⟩],
        .ofText .model "enough"] :=
  ⟨rfl, run_validates prober _ _ rfl _ probing _, by decide +kernel, by decide +kernel⟩

end Run

end Colloquy
