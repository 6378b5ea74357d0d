import Colloquy.Proofs.Independence
import Colloquy.Proofs.Loop.Journal
import Colloquy.Proofs.Loop.Settle
import Mathlib.Data.List.ReduceOption

/-!
# How a batch completes

The calls of a batch may be done in any order, and each of them may come to any outcome.  Neither
matters for what is told of which call.  Requests, outcomes, answers and parts are put together by
their places alone, so names and references play no role: a batch is answered with a response to
each request, in order, or if some call interrupted it pauses with a message in which each request
carries the outcome of its own call (`settle_settles`).

Side by side, calls meet states of the session that they would not meet one after the other, so they
may come to other outcomes.  When the outcome of each call is fixed once it has begun, they do not,
and the batch comes to the same either way (`run_orderless`).
-/

namespace Colloquy

variable {ω : Type}

/-! ## Settling by places -/

/-- The metadata of an interrupt.  One without metadata has `true` for it. -/
def Outcome.metadata? : Outcome → Option Json
  | interrupt metadata => some (if metadata.isNull then .bool true else metadata)
  | _ => none

namespace ToolRequest

/-- The response to the request, unless its call interrupted. -/
def response? (r : ToolRequest) (o : Outcome) : Option ToolResponse :=
  o.output?.map fun output => ⟨r.name, r.reference, output⟩

/-- The interrupt that the call of the request came to, if it is one. -/
def interruption? (r : ToolRequest) (o : Outcome) : Option Interrupt :=
  o.metadata?.map fun metadata => ⟨r.name, r.reference, r.input, metadata⟩

/-- The request with the outcome of its call: either it is annotated as interrupted, or it carries
the output for later. -/
def carrying (r : ToolRequest) (o : Outcome) : ToolRequest :=
  match o.metadata? with
  | some metadata => { r with interrupt := some metadata }
  | none => { r with pendingOutput := o.output? }

end ToolRequest

namespace Batch

/-- **How a batch is settled** from the outcomes of its calls. -/
structure Settles (message : Message) (outcomes : List Outcome) : Prop where
  /-- If no call interrupts, there is nothing but one response to each request, in order. -/
  answered : (∀ metadata, .interrupt metadata ∉ outcomes) →
    ∃ responses, settle message outcomes = .answered responses ∧
      responses.map some = message.toolRequests.zipWith ToolRequest.response? outcomes
  /-- If some call does, there are no responses.  There is one interrupt for each call that
  interrupted, in order, each request carries the outcome of its call, and nothing else in the
  message is changed. -/
  paused : (∃ metadata, .interrupt metadata ∈ outcomes) →
    ∃ content, settle message outcomes = .paused { message with content }
        (message.toolRequests.zipWith ToolRequest.interruption? outcomes).reduceOption ∧
      content.filterMap Part.toolRequest? =
        message.toolRequests.zipWith ToolRequest.carrying outcomes ∧
      List.Forall₂ Part.Replaces content message.content

lemma mark_ofOutcome (r : ToolRequest) (o : Outcome) :
    mark r (Answer.ofOutcome r o) = r.carrying o := by
  cases o <;> rfl

section

variable {requests : List ToolRequest} {outcomes : List Outcome} {parts : List Part}

lemma responses_eq (none : ∀ metadata, .interrupt metadata ∉ outcomes) :
    (responses (answers requests outcomes)).map some =
      requests.zipWith ToolRequest.response? outcomes := by
  induction requests generalizing outcomes with
  | nil => rfl
  | cons r requests ih =>
    cases outcomes with
    | nil => rfl
    | cons o outcomes =>
      have rest := ih fun metadata hm => none metadata (List.mem_cons_of_mem o hm)
      cases o with
      | interrupt metadata => exact absurd List.mem_cons_self (none metadata)
      | success output => exact congrArg (_ :: ·) rest
      | failure message => exact congrArg (_ :: ·) rest

lemma interrupts_eq (requests : List ToolRequest) (outcomes : List Outcome) :
    interrupts requests (answers requests outcomes) =
      (requests.zipWith ToolRequest.interruption? outcomes).reduceOption := by
  induction requests generalizing outcomes with
  | nil => rfl
  | cons r requests ih =>
    cases outcomes with
    | nil => rfl
    | cons o outcomes =>
      cases o with
      | interrupt metadata => exact congrArg (_ :: ·) (ih outcomes)
      | success output => exact ih outcomes
      | failure message => exact ih outcomes

lemma requests_annotate (hr : parts.filterMap Part.toolRequest? = requests)
    (hl : outcomes.length = requests.length) :
    (annotate parts (answers requests outcomes)).filterMap Part.toolRequest? =
      requests.zipWith ToolRequest.carrying outcomes := by
  induction parts generalizing requests outcomes with
  | nil =>
    subst hr
    rfl
  | cons part parts ih =>
    cases part with
    | toolRequest r =>
      subst hr
      obtain ⟨o, outcomes, rfl⟩ := List.exists_cons_of_length_eq_add_one hl
      have rest := ih rfl (Nat.succ.inj hl)
      exact List.cons_eq_cons.mpr ⟨mark_ofOutcome r o, rest⟩
    | _ => exact ih hr hl

lemma annotate_replaces (parts : List Part) (answers : List Answer) :
    List.Forall₂ Part.Replaces (annotate parts answers) parts := by
  fun_induction annotate parts answers with
  | case1 r parts answer answers ih => exact .cons (.inr ⟨rfl, rfl⟩) ih
  | case2 part parts answers other ih => exact .cons (.inl rfl) ih
  | case3 answers => exact .nil

/-- Every batch is settled by places. -/
lemma settle_settles {message : Message} (hl : outcomes.length = message.toolRequests.length) :
    Settles message outcomes where
  answered none := by
    refine ⟨_, ?_, responses_eq none⟩
    rw [settle, (interrupts_eq_nil_iff hl).mpr none]
  paused some := by
    have interrupted :
        interrupts message.toolRequests (answers message.toolRequests outcomes) ≠ [] :=
      fun none => some.elim fun metadata hm => (interrupts_eq_nil_iff hl).mp none metadata hm
    refine ⟨_, ?_, requests_annotate rfl hl, annotate_replaces _ _⟩
    rw [settle, ← interrupts_eq]
    split
    · rename_i none
      exact absurd none interrupted
    · rfl

end

/-! ## Running in any order -/

/-- The change does not cancel the run. -/
def GoesOn (s t : Session ω) : Prop := t.around.cancelled = s.around.cancelled

/-- **What a batch comes to does not depend on how its calls are run.** -/
structure Orderless (tools : ToolLookup ω) (options : CallOptions) (message : Message)
    (s : Session ω) : Prop where
  /-- A batch that is not broken off has an outcome for each request, one that the call of this
  request may come to, and is settled by places. -/
  settles : ∀ concurrent outcomes,
    ((run tools options concurrent message.toolRequests).run s).2 = some outcomes →
      List.Forall₂ (fun r o => Activity.Reaches o (runRequest tools options r))
        message.toolRequests outcomes ∧
      Settles message outcomes
  /-- When the outcome of each call is fixed once the calls up to it have begun, these are the
  outcomes of the batch, side by side and one after the other. -/
  fixed : ∀ R I outcomes,
    Activity.Fixes (fun s : Session ω => s.around.cancelled) R I
      (message.toolRequests.map (runRequest tools options)) outcomes → I s →
    ∀ concurrent, ((run tools options concurrent message.toolRequests).run s).2 = some outcomes
  /-- So it is when each call has an outcome of its own, whatever it meets. -/
  independent : s.around.cancelled = false → ∀ outcomes,
    List.Forall₂ (fun r o => (runRequest tools options r).Obeys GoesOn (· = o))
      message.toolRequests outcomes →
    ∀ concurrent, ((run tools options concurrent message.toolRequests).run s).2 = some outcomes

/-- **A batch may run its calls in any order.** -/
theorem run_orderless (tools : ToolLookup ω) (options : CallOptions) (message : Message)
    (s : Session ω) : Orderless tools options message s := by
  have fixed (R : Session ω → Session ω → Prop) (I : Session ω → Prop) (outcomes : List Outcome)
      (fixes : Activity.Fixes (fun s : Session ω => s.around.cancelled) R I
        (message.toolRequests.map (runRequest tools options)) outcomes) (hs : I s)
      (concurrent : Bool) :
      ((run tools options concurrent message.toolRequests).run s).2 = some outcomes := by
    obtain ⟨side, order⟩ := fixes.run_guarded hs
    cases concurrent with
    | true => exact side
    | false => exact order
  refine ⟨fun concurrent outcomes completed => ?_, fixed, fun going outcomes alone => ?_⟩
  · have reached := (notes_run_of_obeys tools options
      (fun r _ => (obeys_runRequest tools options r).reaches) concurrent s).2 outcomes completed
    exact ⟨reached, settle_settles reached.length_eq.symm⟩
  · have calm : Activity.Calm (fun s : Session ω => s.around.cancelled) GoesOn
        fun s => s.around.cancelled = false :=
      ⟨fun _ _ same going => same.trans going, fun _ going => going⟩
    have each : List.Forall₂ (fun x o => x.Obeys GoesOn (· = o))
        (message.toolRequests.map (runRequest tools options)) outcomes :=
      List.forall₂_map_left_iff.mpr alone
    exact fixed _ _ outcomes (Activity.fixes_of_obeys calm each) going

/-- A tool that counts its calls.  The first call takes longer and interrupts. -/
def relay : Tool Nat where
  definition := { name := "look", description := "", inputSchema := .obj [] }
  invoke _ _ := .step (fun around => { around with world := around.world + 1 }) fun around =>
    match around.world with
    | 0 => .wait 2 (.done (.returned (.interrupt .null)))
    | n => .wait 1 (.done (.returned (.success (.ofNat n))))

def relays : ToolLookup Nat := fun name => if name = "look" then some relay else none

/-- Two requests for the same call, with a text between them, and one for a tool that nobody
knows. -/
def looks : Message :=
  ⟨.model, [.toolRequest { name := "look" }, .text "and", .toolRequest { name := "look" },
    .toolRequest { name := "ask" }], none⟩

/-- The states of the session when so many calls were counted. -/
def Counted (n : Nat) (s : Session Nat) : Prop := s.around = ⟨false, n⟩

lemma calm_counted (n : Nat) :
    Activity.Calm (fun s : Session Nat => s.around.cancelled) (fun s t => t.around = s.around)
      (Counted n) where
  kept _ _ same hs := same.trans hs
  going s hs := by rw [hs]

/-- The outcome of each call is fixed when it has been counted. -/
lemma fixes_looks :
    Activity.Fixes (fun s : Session Nat => s.around.cancelled) (fun s t => t.around = s.around)
      (Counted 0) (looks.toolRequests.map (runRequest relays { validate := false }))
      [.interrupt .null, .success (.ofNat 1), .failure "unknown tool 'ask'"] := by
  have first : ∀ s, Counted 0 s → (runRequest relays { validate := false } { name := "look" }).Opens
      (fun s t => t.around = s.around) (Counted 1) (.interrupt .null) s := by
    rintro ⟨journal, around⟩ rfl
    exact ⟨rfl, fun s => rfl, fun s => rfl⟩
  have second : ∀ s, Counted 1 s →
      (runRequest relays { validate := false } { name := "look" }).Opens
        (fun s t => t.around = s.around) (Counted 2) (.success (.ofNat 1)) s := by
    rintro ⟨journal, around⟩ rfl
    exact ⟨rfl, fun s => rfl, fun s => rfl⟩
  have third : ∀ s, Counted 2 s → (runRequest relays { validate := false } { name := "ask" }).Opens
      (fun s t => t.around = s.around) (Counted 2) (.failure "unknown tool 'ask'") s := by
    rintro ⟨journal, around⟩ rfl
    exact ⟨rfl, rfl⟩
  exact .cons (calm_counted 0) first <| .cons (calm_counted 1) second <|
    .cons (calm_counted 2) third (.nil (calm_counted 2))

/-- The second of two equal calls is done first, and still each request gets its own outcome. -/
theorem run_orderless_looks :
    (∀ concurrent, ((run relays { validate := false } concurrent looks.toolRequests).run
        ⟨[], ⟨false, 0⟩⟩).2 =
      some [.interrupt .null, .success (.ofNat 1), .failure "unknown tool 'ask'"]) ∧
    settle looks [.interrupt .null, .success (.ofNat 1), .failure "unknown tool 'ask'"] =
      .paused
        ⟨.model, [.toolRequest { name := "look", interrupt := some (.bool true) }, .text "and",
          .toolRequest { name := "look", pendingOutput := some (.ofNat 1) },
          .toolRequest {
            name := "ask"
            pendingOutput := some (ToolResponse.errorPayload "unknown tool 'ask'") }], none⟩
        [⟨"look", none, .null, .bool true⟩] :=
  ⟨(run_orderless relays { validate := false } looks ⟨[], ⟨false, 0⟩⟩).fixed _ _ _ fixes_looks rfl,
    rfl⟩

end Batch

end Colloquy
