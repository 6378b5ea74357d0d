import Colloquy.Proofs.Loop.Matching
import Colloquy.Proofs.Loop.Transcript

/-!
# Taking up a paused run

A run that paused leaves a message that carries the answers to its batch: interrupts on some
requests, outputs on the others.  `annotate` writes these answers and resumption reads them, and
this module shows that nothing gets lost between the two: once every interrupt has been given an
output, the next model call is the one that would have come if the calls had succeeded with these
outputs in the first place, with no tool called in between.

Requests are matched with directives by name and reference.  These need not tell requests apart, so
directives in the order of the interrupts always do, and directives in another order do as long as
no two interrupts share a name and a reference (`Directive.Serve`).
-/

namespace Colloquy

variable {ω : Type}

/-! ## Outputs for interrupts -/

namespace Batch

/-- The outcomes that there would have been if the calls that interrupted had succeeded, each with
the next of some outputs. -/
def complete : List Outcome → List Json → List Outcome
  | .interrupt _ :: outcomes, output :: outputs => .success output :: complete outcomes outputs
  | outcome :: outcomes, outputs => outcome :: complete outcomes outputs
  | [], _ => []

/-- A request that remembers the interrupt that was the answer to it. -/
def remember (r : ToolRequest) : Answer → ToolRequest
  | .response _ => r
  | .interrupt metadata => { r with resolvedInterrupt := some metadata }

/-- Parts in which each tool request in turn remembers its interrupt, if the next answer is one. -/
def remembering : List Part → List Answer → List Part
  | .toolRequest r :: parts, answer :: answers =>
    .toolRequest (remember r answer) :: remembering parts answers
  | part :: parts, answers => part :: remembering parts answers
  | [], _ => []

end Batch

/-- The message after its interrupts were answered: the requests that interrupted remember it, and
nothing else differs. -/
def Message.remembering (m : Message) (outcomes : List Outcome) : Message :=
  { m with content := Batch.remembering m.content (Batch.answers m.toolRequests outcomes) }

/-- The request carries no annotation. -/
structure ToolRequest.Plain (r : ToolRequest) : Prop where
  interrupt : r.interrupt = none
  pendingOutput : r.pendingOutput = none
  resolvedInterrupt : r.resolvedInterrupt = none

instance (r : ToolRequest) : Decidable r.Plain :=
  decidable_of_iff
    (r.interrupt = none ∧ r.pendingOutput = none ∧ r.resolvedInterrupt = none)
    ⟨fun ⟨hi, hp, hr⟩ => ⟨hi, hp, hr⟩, fun ⟨hi, hp, hr⟩ => ⟨hi, hp, hr⟩⟩

namespace Batch

/-- A call either has a response, with or without outputs for interrupts, or it interrupted. -/
lemma ofOutcome_cases (r : ToolRequest) (o : Outcome) :
    (∃ output, Answer.ofOutcome r o = .response ⟨r.name, r.reference, output⟩ ∧
      ∀ outcomes outputs, complete (o :: outcomes) outputs = o :: complete outcomes outputs) ∨
    ∃ metadata noted, o = .interrupt metadata ∧ Answer.ofOutcome r o = .interrupt noted := by
  cases o with
  | success output => exact .inl ⟨output, rfl, fun _ _ => rfl⟩
  | failure message => exact .inl ⟨_, rfl, fun _ _ => rfl⟩
  | interrupt metadata => exact .inr ⟨metadata, _, rfl, rfl⟩

lemma annotate_other {part : Part} (h : part.toolRequest? = none) (parts : List Part)
    (answers : List Answer) :
    annotate (part :: parts) answers = part :: annotate parts answers := by
  cases part with
  | toolRequest r => exact absurd h (Option.some_ne_none r)
  | _ => rfl

lemma remembering_other {part : Part} (h : part.toolRequest? = none) (parts : List Part)
    (answers : List Answer) :
    remembering (part :: parts) answers = part :: remembering parts answers := by
  cases part with
  | toolRequest r => exact absurd h (Option.some_ne_none r)
  | _ => rfl

end Batch

/-! ## Directives for interrupts -/

/-- What a call is known by: the name of the tool and the reference. -/
def Interrupt.key (i : Interrupt) : String × Option String := (i.toolName, i.reference)

namespace Directive

/-- The directives answer the interrupts with the outputs: in the order of the interrupts, or in any
order if no two interrupts have the same key. -/
def Serve (interrupts : List Interrupt) (outputs : List Json) (directives : List Directive) :
    Prop :=
  directives = interrupts.zipWith answering outputs ∨
    directives.Perm (interrupts.zipWith answering outputs) ∧ (interrupts.map Interrupt.key).Nodup

/-- A directive that is the only one for a request is taken, and only that one. -/
lemma take?_of_unique {r : ToolRequest} {d : Directive} {directives : List Directive}
    (hd : d.key = (r.name, r.reference)) (hm : d ∈ directives)
    (unique : ∀ e ∈ directives, e.key = (r.name, r.reference) → e = d) :
    take? r directives = some (d, directives.erase d) := by
  induction directives with
  | nil => exact absurd hm List.not_mem_nil
  | cons e rest ih =>
    rw [take?]
    by_cases he : e = d
    · subst he
      rw [if_pos (isCall_iff.mpr hd), List.erase_cons_head]
    · have hne : ¬r.isCall e.name e.reference = true := fun hc =>
        he (unique e List.mem_cons_self (isCall_iff.mp hc))
      have hrest : d ∈ rest := (List.mem_cons.mp hm).resolve_left (Ne.symm he)
      have taken := ih hrest fun f hf => unique f (List.mem_cons_of_mem e hf)
      rw [if_neg hne, taken, List.erase_cons_tail (by simpa using he)]
      rfl

lemma key_of_mem_zipWith {interrupts : List Interrupt} {outputs : List Json} {d : Directive}
    (h : d ∈ interrupts.zipWith answering outputs) : d.key ∈ interrupts.map Interrupt.key := by
  induction interrupts generalizing outputs with
  | nil => exact absurd h List.not_mem_nil
  | cons i interrupts ih =>
    cases outputs with
    | nil => exact absurd h List.not_mem_nil
    | cons output outputs =>
      rcases List.mem_cons.mp h with rfl | h
      · exact List.mem_cons_self
      · exact List.mem_cons_of_mem _ (ih h)

/-- The request that interrupted first takes the directive for its interrupt, and what is left
serves the other interrupts. -/
lemma Serve.take? {r : ToolRequest} {i : Interrupt} {interrupts : List Interrupt} {output : Json}
    {outputs : List Json} {directives : List Directive}
    (h : Serve (i :: interrupts) (output :: outputs) directives)
    (hi : (answering i output).key = (r.name, r.reference)) :
    ∃ rest, Directive.take? r directives = some (answering i output, rest) ∧
      Serve interrupts outputs rest := by
  rcases h with rfl | ⟨perm, distinct⟩
  · refine ⟨interrupts.zipWith answering outputs, ?_, .inl rfl⟩
    rw [List.zipWith_cons_cons, Directive.take?, if_pos (isCall_iff.mpr hi)]
  · rw [List.map_cons, List.nodup_cons] at distinct
    rw [List.zipWith_cons_cons] at perm
    have hm : answering i output ∈ directives := perm.mem_iff.mpr List.mem_cons_self
    -- The keys of the other directives are those of other interrupts.
    have taken := take?_of_unique hi hm fun e he hk => by
      rcases List.mem_cons.mp (perm.mem_iff.mp he) with rfl | he
      · rfl
      · have hm := key_of_mem_zipWith he
        rw [hk, ← hi] at hm
        exact absurd hm distinct.1
    refine ⟨_, taken, .inr ⟨?_, distinct.2⟩⟩
    have rest := perm.erase (answering i output)
    rwa [List.erase_cons_head] at rest

lemma Serve.eq_nil {outputs : List Json} {directives : List Directive}
    (h : Serve [] outputs directives) : directives = [] := by
  rcases h with rfl | ⟨perm, _⟩
  · rfl
  · exact perm.eq_nil

lemma Serve.length_eq {interrupts : List Interrupt} {outputs : List Json}
    {directives : List Directive} (h : Serve interrupts outputs directives)
    (ho : outputs.length = interrupts.length) : directives.length = interrupts.length := by
  have all : (interrupts.zipWith answering outputs).length = interrupts.length := by
    rw [List.length_zipWith, ho, Nat.min_self]
  rcases h with rfl | ⟨perm, _⟩
  · exact all
  · exact perm.length_eq.trans all

end Directive

/-! ## Answering an annotated message -/

namespace Resume

variable (tools : ToolLookup ω) (options : CallOptions)

/-- A request that carries an output is answered with it. -/
lemma answerRequest_response (s : Session ω) {r : ToolRequest} (plain : r.Plain)
    (output : Json) (directives : List Directive) :
    answerRequest tools options s { r with pendingOutput := some output } directives =
      (s, .ok (r, ⟨r.name, r.reference, output⟩, directives)) := by
  obtain ⟨name, reference, input, interrupt, pendingOutput, resolvedInterrupt⟩ := r
  obtain rfl : pendingOutput = none := plain.pendingOutput
  rfl

/-- A request that interrupted is answered by a directive that gives an output, and remembers its
interrupt. -/
lemma answerRequest_interrupt (s : Session ω) {r : ToolRequest} (plain : r.Plain)
    (metadata output : Json) {i : Interrupt} {directives rest : List Directive}
    (taken : Directive.take? { r with interrupt := some metadata } directives =
      some (.answering i output, rest)) :
    answerRequest tools options s { r with interrupt := some metadata } directives =
      (s, .ok ({ r with resolvedInterrupt := some metadata },
        ⟨r.name, r.reference, output⟩, rest)) := by
  obtain ⟨name, reference, input, interrupt, pendingOutput, resolvedInterrupt⟩ := r
  obtain rfl : interrupt = none := plain.interrupt
  obtain rfl : pendingOutput = none := plain.pendingOutput
  rw [answerRequest]
  dsimp only
  rw [taken]
  rfl

/-- A part that is no request is passed over. -/
lemma answerParts_other {part : Part} (h : part.toolRequest? = none) (parts : List Part)
    (directives : List Directive) (s s' : Session ω) (a : Answered)
    (rest : answerParts tools options parts directives s = (s', .ok a)) :
    answerParts tools options (part :: parts) directives s =
      (s', .ok { a with content := part :: a.content }) := by
  have hp : ∀ r, part = .toolRequest r → False := by
    rintro r rfl
    exact Option.some_ne_none r h
  rw [answerParts.eq_3 tools options directives s part parts hp, rest]

/-- **Answers written are answers read.**  Resuming with directives for all interrupts undoes the
annotations, and gives the responses of a batch in which the calls that interrupted succeeded. -/
lemma answerParts_annotate (s : Session ω) {parts : List Part} {requests : List ToolRequest}
    {outcomes : List Outcome} {outputs : List Json} {directives : List Directive}
    (hr : parts.filterMap Part.toolRequest? = requests) (plain : ∀ r ∈ requests, r.Plain)
    (hl : outcomes.length = requests.length)
    (ho : outputs.length =
      (Batch.interrupts requests (Batch.answers requests outcomes)).length)
    (serve : Directive.Serve (Batch.interrupts requests (Batch.answers requests outcomes))
      outputs directives) :
    answerParts tools options (Batch.annotate parts (Batch.answers requests outcomes))
        directives s =
      (s, .ok {
        content := Batch.remembering parts (Batch.answers requests outcomes)
        responses := Batch.responses
          (Batch.answers requests (Batch.complete outcomes outputs))
        unused := [] }) := by
  -- By induction on the parts.  An outcome is used up by each request, and a directive and an output
  -- by each that interrupted, so what is left still fits together.
  induction parts generalizing requests outcomes outputs directives with
  | nil =>
    subst hr
    obtain rfl := List.length_eq_zero_iff.mp hl
    rw [serve.eq_nil]
    rfl
  | cons part parts ih =>
    cases hp : part.toolRequest? with
    | none =>
      rw [List.filterMap_cons_none hp] at hr
      rw [Batch.annotate_other hp, Batch.remembering_other hp]
      exact answerParts_other tools options hp _ _ _ _ _ (ih hr plain hl ho serve)
    | some r =>
      obtain rfl := Part.eq_of_toolRequest?_eq_some hp
      rw [List.filterMap_cons_some hp] at hr
      subst hr
      obtain ⟨o, outcomes, rfl⟩ := List.exists_cons_of_length_eq_add_one hl
      have hplain : r.Plain := plain r List.mem_cons_self
      have others : ∀ q ∈ parts.filterMap Part.toolRequest?, q.Plain :=
        fun q hq => plain q (List.mem_cons_of_mem r hq)
      rcases Batch.ofOutcome_cases r o with ⟨output, ha, hc⟩ | ⟨metadata, m, rfl, ha⟩
      · rw [Batch.answers_cons, ha] at ho serve ⊢
        have rest := ih rfl others (Nat.succ.inj hl) ho serve
        rw [Batch.annotate, Batch.mark, answerParts, answerRequest_response tools options s hplain,
          hc, Batch.answers_cons, ha]
        dsimp only
        rw [rest]
        rfl
      · rw [Batch.answers_cons, ha] at ho serve ⊢
        obtain ⟨output, outputs, rfl⟩ := List.exists_cons_of_length_eq_add_one ho
        obtain ⟨left, taken, hs⟩ := serve.take? (r := { r with interrupt := some m }) rfl
        have rest := ih rfl others (Nat.succ.inj hl) (Nat.succ.inj ho) hs
        rw [Batch.annotate, Batch.mark, answerParts,
          answerRequest_interrupt tools options s hplain m output taken]
        dsimp only
        rw [rest]
        rfl

/-- Resuming a conversation that ends with an annotated message, with directives for all interrupts,
needs no tool: each request gets its response and no directive is left over. -/
lemma apply_annotated (s : Session ω) (before : List Message) {m : Message} (hm : m.role = .model)
    (plain : ∀ r ∈ m.toolRequests, r.Plain) {outcomes : List Outcome} {outputs : List Json}
    {directives : List Directive} {r : List ToolResponse}
    (hl : outcomes.length = m.toolRequests.length)
    (ho : outputs.length =
      (Batch.interrupts m.toolRequests (Batch.answers m.toolRequests outcomes)).length)
    (serve : Directive.Serve
      (Batch.interrupts m.toolRequests (Batch.answers m.toolRequests outcomes)) outputs directives)
    (hr : r = Batch.responses (Batch.answers m.toolRequests (Batch.complete outcomes outputs)))
    (nonempty : r ≠ []) :
    apply tools options (before ++ [{ m with
        content := Batch.annotate m.content (Batch.answers m.toolRequests outcomes) }])
        directives s =
      (s, .ok (before ++ [m.remembering outcomes, Message.ofResponses r], r.length)) := by
  have hr' : m.content.filterMap Part.toolRequest? = m.toolRequests := rfl
  have parts := answerParts_annotate tools options s hr' plain hl ho serve
  have hn : r.isEmpty = false := List.isEmpty_eq_false_iff.mpr nonempty
  rw [apply, List.getLast?_concat, List.dropLast_concat]
  dsimp only
  rw [if_neg (not_not.mpr hm), parts]
  dsimp only
  rw [← hr, hn, noteUnused, List.map_nil, List.append_nil, List.append_assoc]
  rfl

end Resume

/-! ## Batches without their interrupts -/

namespace Batch

/-- With an output for each interrupt, every call has a response. -/
lemma interrupts_complete {requests : List ToolRequest} {outcomes : List Outcome}
    {outputs : List Json}
    (ho : outputs.length = (interrupts requests (answers requests outcomes)).length) :
    interrupts requests (answers requests (complete outcomes outputs)) = [] := by
  induction requests generalizing outcomes outputs with
  | nil => cases complete outcomes outputs <;> rfl
  | cons r requests ih =>
    cases outcomes with
    | nil => rfl
    | cons o outcomes =>
      rcases ofOutcome_cases r o with ⟨output, ha, hc⟩ | ⟨metadata, m, rfl, ha⟩
      · rw [answers_cons, ha] at ho
        rw [hc, answers_cons, ha]
        exact ih ho
      · rw [answers_cons, ha] at ho
        obtain ⟨output, outputs, rfl⟩ := List.exists_cons_of_length_eq_add_one ho
        exact ih (Nat.succ.inj ho)

lemma length_complete (outcomes : List Outcome) (outputs : List Json) :
    (complete outcomes outputs).length = outcomes.length := by
  fun_induction complete outcomes outputs <;> simp_all

/-- A batch that interrupted has some request. -/
lemma toolRequests_ne_nil {m : Message} {outcomes : List Outcome}
    (h : interrupts m.toolRequests (answers m.toolRequests outcomes) ≠ []) :
    m.toolRequests ≠ [] := by
  intro hn
  rw [hn] at h
  exact h rfl

end Batch

namespace Run

/-! ## The first call of a run -/

section Journal

variable {model : Model ω} {tools : ToolLookup ω} {options : RunOptions} {p p' : Progress}
  {s s' : Session ω} {reply : Reply} {outcomes : List Outcome}

/-- The session in which the model has just been asked. -/
def calling (model : Model ω) (options : RunOptions) (p : Progress) (s : Session ω) : Session ω :=
  (opened options p s).note (.asked model.name p.request)

lemma Replied.prefix_journal (h : Replied model options p s reply s') :
    (calling model options p s).journal <+: s'.journal := by
  obtain ⟨_, asked, ha, rfl⟩ := h
  obtain rfl := congrArg Prod.fst ha
  exact (Session.prefix_noteEvents _ _).trans (Session.prefix_noteEvents _ _)

lemma runBatch_prefix_journal {message : Message} {result : Option (List Outcome)}
    (h : runBatch tools options p message s = (s', result)) : s.journal <+: s'.journal := by
  obtain rfl := congrArg Prod.fst h
  have batch := Batch.run_notes tools options.calls options.concurrent message.toolRequests
    (s.note (.event (.toolCallsReceived p.turn message.toolRequests.length)))
  exact (Session.prefix_note _ _).trans batch.1.prefix_journal

lemma Worked.prefix_journal (h : Worked model tools options p s reply outcomes s') :
    (calling model options p s).journal <+: s'.journal := by
  cases h with
  | intro replied _ batch =>
    have before := replied.prefix_journal.trans (runBatch_prefix_journal batch)
    exact before.trans (Session.prefix_noteEvents _ _)

/-- A run that takes no further turn was cancelled, or it has asked the model. -/
lemma Ended.prefix_journal {left : Nat} {r : Result ω} (h : Ended model tools options left p s r) :
    (s.around.cancelled = true ∧ r.1 = opened options p s) ∨
      (calling model options p s).journal <+: r.1.journal := by
  cases h with
  | cancelled h => exact .inl ⟨h, rfl⟩
  | failed h asked =>
    obtain rfl := congrArg Prod.fst asked
    exact .inr (Session.prefix_noteEvents _ _)
  | done replied h => exact .inr (replied.prefix_journal.trans (Session.prefix_note _ _))
  | returned replied h hr => exact .inr (replied.prefix_journal.trans (Session.prefix_note _ _))
  | exceeded replied h =>
    exact .inr ((replied.prefix_journal.trans (Session.prefix_note _ _)).trans
      (Session.prefix_note _ _))
  | dropped replied h batch =>
    exact .inr (replied.prefix_journal.trans (runBatch_prefix_journal batch))
  | paused worked settled => exact .inr (worked.prefix_journal.trans (Session.prefix_note _ _))

lemma calling_prefix_journal : s.journal <+: (calling model options p s).journal :=
  (Session.prefix_note _ _).trans (Session.prefix_note _ _)

lemma Course.prefix_journal {left : Nat} {turns : List Turn} {r : Result ω}
    (h : Course model tools options left turns p s r) : s.journal <+: r.1.journal := by
  induction h with
  | last h =>
    rcases h.prefix_journal with ⟨_, hr⟩ | asked
    · rw [hr]
      exact Session.prefix_note _ _
    · exact calling_prefix_journal.trans asked
  | turn h rest ih =>
    obtain ⟨worked, _⟩ := h
    exact (calling_prefix_journal.trans worked.prefix_journal).trans ih

/-- **A run asks the model first** unless it is cancelled before that. -/
lemma turns_prefix_journal (model : Model ω) (tools : ToolLookup ω) (options : RunOptions)
    (left : Nat) (p : Progress) {s : Session ω} (hc : s.around.cancelled = false) :
    (calling model options p s).journal <+:
      (Run.turns model tools options left p s).1.journal := by
  obtain ⟨turns, course⟩ := exists_course model tools options left p s
  cases course with
  | last h =>
    rcases h.prefix_journal with ⟨ht, _⟩ | asked
    · exact absurd (hc.symm.trans ht) Bool.false_ne_true
    · exact asked
  | turn h rest =>
    obtain ⟨worked, _⟩ := h
    exact worked.prefix_journal.trans rest.prefix_journal

end Journal

/-! ## The pause -/

/-- The run that came to a response asked the model, got an answer with tool requests, and paused
because some of the outcomes were interrupts. -/
structure PausedIn (model : Model ω) (tools : ToolLookup ω) (options : RunOptions)
    (answer : Message) (outcomes : List Outcome) (r : Response) : Prop where
  worked : ∃ p s reply s', Worked model tools options p s reply outcomes s' ∧
    p.request = r.request ∧ reply.message = answer
  settled : Batch.settle answer outcomes = .paused r.message r.interrupts
  messages : r.messages = r.request.messages ++ [r.message]

lemma PausedIn.length_outcomes {model : Model ω} {tools : ToolLookup ω} {options : RunOptions}
    {answer : Message} {outcomes : List Outcome} {r : Response}
    (h : PausedIn model tools options answer outcomes r) :
    outcomes.length = answer.toolRequests.length := by
  obtain ⟨_, _, _, _, worked, _, rfl⟩ := h.worked
  exact worked.length_outcomes

/-- A run that was interrupted has paused, and what the model said last is the answer that it paused
in. -/
lemma Course.pausedIn {model : Model ω} {tools : ToolLookup ω} {options : RunOptions} {left : Nat}
    {turns : List Turn} {p : Progress} {s : Session ω} {result : Result ω}
    (h : Course model tools options left turns p s result) {r : Response}
    (hr : result.2 = .ok r) (hi : r.state = .interrupted) :
    ∃ answer outcomes, PausedIn model tools options answer outcomes r ∧
      ∃ said, result.1.dialogue = said ++ [.asked r.request, .answered answer] := by
  induction h with
  | last h =>
    cases h with
    | cancelled h => cases hr
    | failed h asked => cases hr
    | done replied h =>
      obtain rfl := Except.ok.inj hr
      cases hi
    | returned replied h hr' =>
      obtain rfl := Except.ok.inj hr
      cases hi
    | exceeded replied h => cases hr
    | dropped replied h batch => cases hr
    | paused worked settled =>
      obtain rfl := Except.ok.inj hr
      refine ⟨_, _, ⟨⟨_, _, _, _, worked, (use_request _ _).symm, rfl⟩, settled, rfl⟩, ?_⟩
      rw [dialogue_pause, worked.dialogue, Progress.response, use_request]
      exact ⟨_, rfl⟩
  | turn h rest ih => exact ih hr

/-! ## Resumption -/

section Resumption

variable {model : Model ω} {tools : ToolLookup ω} {options : RunOptions} {answer : Message}
  {outcomes : List Outcome} {r : Response} {outputs : List Json} {directives : List Directive}

/-- With an output for each interrupt the batch is answered, and each request has its response. -/
lemma PausedIn.settle_complete (h : PausedIn model tools options answer outcomes r)
    (ho : outputs.length = r.interrupts.length) :
    ∃ responses, Batch.settle answer (Batch.complete outcomes outputs) = .answered responses ∧
      List.Forall₂ ToolResponse.Answers answer.toolRequests responses := by
  obtain ⟨hi, _, _⟩ := Batch.settle_eq_paused h.settled
  rw [hi] at ho
  have none := Batch.interrupts_complete ho
  have length := (Batch.length_complete outcomes outputs).trans h.length_outcomes
  refine ⟨_, ?_, Batch.responses_answer length none⟩
  rw [Batch.settle, none]

/-- Resuming a paused conversation with an output for each interrupt gives the conversation in which
the responses to the batch stand already. -/
lemma PausedIn.resume {ω' : Type} (h : PausedIn model tools options answer outcomes r)
    (role : answer.role = .model) (plain : ∀ q ∈ answer.toolRequests, q.Plain)
    (ho : outputs.length = r.interrupts.length)
    (serve : Directive.Serve r.interrupts outputs directives) {responses : List ToolResponse}
    (settled : Batch.settle answer (Batch.complete outcomes outputs) = .answered responses)
    (tools' : ToolLookup ω') (options' : RunOptions) {request : Request}
    (hm : request.messages = r.messages) (s : Session ω') :
    Run.resume tools' options' directives request s =
      (s.note (.event (.resumed responses.length)), .ok { request with
        messages := r.request.messages ++
          [answer.remembering outcomes, Message.ofResponses responses] }) := by
  obtain ⟨hi, nonempty, hr⟩ := Batch.settle_eq_paused h.settled
  obtain ⟨none, hs⟩ := Batch.settle_eq_answered settled
  have given : directives.isEmpty = false := by
    refine List.isEmpty_eq_false_iff.mpr fun hd => nonempty ?_
    have length := serve.length_eq ho
    rw [hd] at length
    exact List.length_eq_zero_iff.mp length.symm
  have some : responses ≠ [] := by
    have answered := Batch.responses_answer
      ((Batch.length_complete outcomes outputs).trans h.length_outcomes) none
    rw [← hs] at answered
    intro hn
    rw [hn] at answered
    rw [hi] at nonempty
    exact Batch.toolRequests_ne_nil nonempty (List.forall₂_nil_right_iff.mp answered)
  have applied := Resume.apply_annotated tools' options'.calls s r.request.messages role plain
    h.length_outcomes (by rw [ho, hi]) (by rwa [← hi]) hs some
  rw [Run.resume, given, hm, h.messages, hr, applied]
  rfl

/-- **What taking up a paused run comes to**, when its interrupts have outputs and directives give
them: the responses are those that the batch would have had. -/
structure Continues (r : Response) (answer : Message) (outcomes : List Outcome)
    (outputs : List Json) (directives : List Directive) (responses : List ToolResponse) :
    Prop where
  /-- Had the interrupted calls succeeded with the outputs, these would be the responses. -/
  settled : Batch.settle answer (Batch.complete outcomes outputs) = .answered responses
  /-- There is one to each request, in order. -/
  answered : List.Forall₂ ToolResponse.Answers answer.toolRequests responses
  /-- A run in which this happened would go on with the answer and these responses. -/
  turned : ∀ {ω : Type} {model : Model ω} {tools : ToolLookup ω} {options : RunOptions}
    {p : Progress} {s s' : Session ω} {reply : Reply}, reply.message = answer →
    Worked model tools options p s reply (Batch.complete outcomes outputs) s' →
    Turned model tools options p s ⟨answer, responses⟩
      ((p.use reply.usage).advance answer responses) s'
  /-- The resumed run loops from what was sent before the pause with the answer and these responses.
  The requests of the answer remember their interrupts, and the answer is as it came otherwise. -/
  resumed : ∀ {ω : Type} (model : Model ω) (tools : ToolLookup ω) (options : RunOptions)
    (request : Request) (s : Session ω), request.messages = r.messages →
    run model tools options directives request s =
      Run.turns model tools options options.maxTurns
        ⟨{ request with messages := r.request.messages ++
          [answer.remembering outcomes, Message.ofResponses responses] }, {}, 0⟩
        (s.note (.event (.resumed responses.length)))
  /-- Unless the run is cancelled, this is what its first model call sends, and no tool is invoked
  before it. -/
  asks : ∀ {ω : Type} (model : Model ω) (tools : ToolLookup ω) (options : RunOptions)
    (request : Request) (s : Session ω), request.messages = r.messages →
    s.around.cancelled = false → ∃ later,
    (run model tools options directives request s).1.journal = s.journal ++
      [.event (.resumed responses.length),
        .event (.turnStart 0 options.maxTurns (r.request.messages.length + 2)),
        .asked model.name { request with messages := r.request.messages ++
          [answer.remembering outcomes, Message.ofResponses responses] }] ++ later

lemma PausedIn.continues (h : PausedIn model tools options answer outcomes r)
    (role : answer.role = .model) (plain : ∀ q ∈ answer.toolRequests, q.Plain)
    (ho : outputs.length = r.interrupts.length)
    (serve : Directive.Serve r.interrupts outputs directives) :
    ∃ responses, Continues r answer outcomes outputs directives responses := by
  obtain ⟨responses, settled, answered⟩ := h.settle_complete ho
  have resumed {ω' : Type} (model : Model ω') (tools : ToolLookup ω') (options : RunOptions)
      (request : Request) (s : Session ω') (hm : request.messages = r.messages) :=
    run_eq_turns model (h.resume role plain ho serve settled tools options hm s)
  refine ⟨responses, settled, answered, ?_, resumed, ?_⟩
  · rintro _ _ _ _ _ _ _ _ rfl worked
    exact .intro worked settled
  · intro _ model tools options request s hm hc
    rw [resumed model tools options request s hm]
    obtain ⟨later, hl⟩ := turns_prefix_journal model tools options options.maxTurns _
      (s := s.note (.event (.resumed responses.length))) hc
    refine ⟨later, ?_⟩
    rw [← hl]
    simp [calling, opened, Session.note]

/-- **A run that paused goes on as if it had not.**  It paused in the batch of an answer, the last
that the model gave.  If that is a message of the model without annotations, then any outputs for
the interrupts can be given by directives, and the run continues with them. -/
theorem run_continues {request : Request} {before : List Directive} {s s' : Session ω}
    (h : run model tools options before request s = (s', .ok r)) (hi : r.state = .interrupted) :
    ∃ answer outcomes, PausedIn model tools options answer outcomes r ∧
      (∃ said, s'.dialogue = said ++ [.asked r.request, .answered answer]) ∧
      (answer.role = .model → (∀ q ∈ answer.toolRequests, q.Plain) →
        ∀ outputs directives, outputs.length = r.interrupts.length →
          Directive.Serve r.interrupts outputs directives →
          ∃ responses, Continues r answer outcomes outputs directives responses) := by
  rcases hr : Run.resume tools options before request s with ⟨t, e | first⟩
  · rw [run_eq_error hr] at h
    cases congrArg Prod.snd h
  · rw [run_eq_turns model hr] at h
    obtain ⟨turns, course⟩ := exists_course model tools options options.maxTurns ⟨first, {}, 0⟩ t
    rw [h] at course
    obtain ⟨answer, outcomes, paused, said⟩ := course.pausedIn rfl hi
    exact ⟨answer, outcomes, paused, said, fun role plain outputs directives ho serve =>
      paused.continues role plain ho serve⟩

/-- An answer that asks a question twice, with no reference to tell one from the other, and between
the two asks for a tool that there is not. -/
def inquiry : Message :=
  ⟨.model, [.text "well", .toolRequest { name := "ask" },
    .toolRequest { name := "look", reference := some "1" }, .toolRequest { name := "ask" }], none⟩

def inquirer : Model Unit where
  name := "inquirer"
  call _ around := ⟨[], .ok { message := inquiry }, around⟩

/-- A tool that asks a person, under the name that the answer has for it. -/
def inquiryTools : ToolLookup Unit := fun name =>
  if name = "ask" then some (Tool.asking { name := "ask", description := "", inputSchema := .null })
  else none

theorem run_continues_inquiry :
    ∃ s r, run inquirer inquiryTools { concurrent := false, calls := { validate := false } } []
        {} ⟨[], ⟨false, ()⟩⟩ = (s, .ok r) ∧ r.state = .interrupted ∧
      ∃ answer outcomes responses, Continues r answer outcomes [.null, .bool true]
        (r.interrupts.zipWith Directive.answering [.null, .bool true]) responses := by
  obtain ⟨s, r, h, hi, hl, hd⟩ : ∃ s r,
      run inquirer inquiryTools { concurrent := false, calls := { validate := false } } [] {}
        ⟨[], ⟨false, ()⟩⟩ = (s, .ok r) ∧ r.state = .interrupted ∧ 2 = r.interrupts.length ∧
      s.dialogue = [.asked {}, .answered inquiry] := ⟨_, _, rfl, rfl, rfl, rfl⟩
  obtain ⟨answer, outcomes, paused, ⟨said, hs⟩, continues⟩ := run_continues h hi
  have last : some (Utterance.answered answer) = some (.answered inquiry) := by
    have := congrArg List.getLast? (hs.symm.trans hd)
    rwa [List.getLast?_append, List.getLast?_cons_cons] at this
  obtain rfl := Utterance.answered.inj (Option.some.inj last)
  have plain : ∀ q ∈ inquiry.toolRequests, q.Plain := by decide
  obtain ⟨responses, c⟩ := continues rfl plain [.null, .bool true] _ hl (.inl rfl)
  exact ⟨s, r, h, hi, _, _, _, c⟩

end Resumption

end Run

end Colloquy
