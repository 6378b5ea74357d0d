import Colloquy.Proofs.Loop.Answering
import Colloquy.Proofs.Loop.Budget
import Colloquy.Proofs.Loop.Refusal

/-!
# What a failed run has invoked

Resumption answers the requests of a message one after the other, and to answer one may be to make
its call again.  That a later request finds no directive, or one for a tool that nobody knows, only
shows when its turn comes.  So a resumption that is refused for its directives has made the calls
for the requests before the refused one, and no others (`run_invokes`), and their outputs are lost.

The turn limit is looked at before a batch: none of the calls that it refuses is made.
-/

namespace Colloquy

variable {ω : Type}

/-- What the journal tells of invocations. -/
def Session.invocations (s : Session ω) : List Entry := s.journal.filter Entry.isInvocation

lemma Session.Notes.invocations_eq {kind : Entry → Prop} (hk : ∀ e, kind e → e.isInvocation = false)
    {s s' : Session ω} (h : Notes kind s s') : s'.invocations = s.invocations := by
  obtain ⟨entries, he, all⟩ := h
  have none : entries.filter Entry.isInvocation = [] :=
    List.filter_eq_nil_iff.mpr fun e hm => Bool.eq_false_iff.mp (hk e (all e hm))
  rw [invocations, he, List.filter_append, none, List.append_nil, invocations]

/-! ## Calls -/

namespace Tool

/-- The invocation that a call of the tool comes to: none if the input is rejected. -/
def invocation? (t : Tool ω) (options : CallOptions) (context : CallContext) (input : Json) :
    Option Entry :=
  if options.validate && (t.definition.rejection? input).isSome then none
  else some (.invoked t.definition context input)

/-- A call writes its invocation, before it is done. -/
lemma writes_run (t : Tool ω) (options : CallOptions) (context : CallContext) (input : Json) :
    (t.run options context input).Writes Session.invocations
      (t.invocation? options context input).toList := by
  rcases t.run_cases options context input with
    ⟨message, hv, rejected, hr⟩ | ⟨accepted, rest, hr, after⟩
  · have none : t.invocation? options context input = none := by
      rw [invocation?, hv, rejected]
      rfl
    rw [hr, none]
    rfl
  · have one : t.invocation? options context input =
        some (.invoked t.definition context input) := by
      refine if_neg fun both => ?_
      obtain ⟨hv, rejected⟩ := Bool.and_eq_true_iff.mp both
      rw [accepted hv] at rejected
      cases rejected
    have silent : rest.Obeys (Activity.Keeps Session.invocations) fun _ => True :=
      after.mono (fun _ _ h => h.invocations_eq fun e he => by cases he <;> rfl) fun _ h => h
    have announced : Activity.Announces Session.invocations
        (.invoked t.definition context input)
        ((Session.noting (.invoked t.definition context input)).bind fun _ => rest) :=
      ⟨_, _, rfl, fun s => List.filter_append .., fun _ => silent⟩
    rw [hr, one]
    exact announced.writes

end Tool

/-! ## Resumption -/

namespace Resume

/-- The invocation that it takes to answer a request with the directive for it. -/
def invocation? (tools : ToolLookup ω) (options : CallOptions) :
    ToolRequest × Option Directive → Option Entry
  | (r, some (.restart name _ input resumed)) =>
    (tools name).bind fun tool =>
      tool.invocation? options ⟨r.reference, resumed⟩ (input.getD r.input)
  | _ => none

/-- The reason to refuse a request with the directive for it. -/
inductive Refuses (tools : ToolLookup ω) : ToolRequest × Option Directive → RunError → Prop
  /-- The request carries no output, and no directive is left for it. -/
  | unresolved {r} (bare : r.pendingOutput = none) :
      Refuses tools (r, none) (.unresolvedInterrupt r.name r.reference)
  /-- The call is to be made again, and nobody knows the tool. -/
  | unknown {r name reference input resumed} (h : tools name = none) :
      Refuses tools (r, some (.restart name reference input resumed)) (.unknownRestartTool name)

end Resume

/-- The run was refused for its transcript or its directives. -/
def RunError.IsRefusal : RunError → Prop
  | resumeRequiresModelMessage _ | unresolvedInterrupt .. | unknownRestartTool _ => True
  | cancelled | model _ | turnLimitExceeded _ | reinterruptOnRestart .. => False

namespace Resume

section

variable {tools : ToolLookup ω} {options : CallOptions} {s s' : Session ω} {r : ToolRequest}
  {taken : Option Directive} {e : RunError}

/-- A request that is answered has made the invocation that it takes. -/
lemma invocations_after (h : (Stage.output? tools options ⟨s, r, taken⟩).isSome) :
    (after tools options s (r, taken)).invocations =
      s.invocations ++ (invocation? tools options (r, taken)).toList := by
  rcases taken with _ | (_ | ⟨name, reference, input, resumed⟩)
  · exact (List.append_nil _).symm
  · exact (List.append_nil _).symm
  · obtain ⟨output, told⟩ := Option.isSome_iff_exists.mp h
    obtain ⟨tool, found, told⟩ := Option.bind_eq_some_iff.mp told
    obtain ⟨outcome, came, -⟩ := Option.bind_eq_some_iff.mp told
    have written := (tool.writes_run options ⟨r.reference, resumed⟩
      (input.getD r.input)).run_guarded (fun s => s.around.cancelled) (Prod.ext rfl came)
    rw [after, follow_known found, invocation?, found]
    exact written

/-- When all requests of a plan are answered, each has made its invocation. -/
lemma invocations_foldl {plan : List (ToolRequest × Option Directive)}
    (h : ∀ stage ∈ stages tools options plan s, (stage.output? tools options).isSome) :
    (plan.foldl (after tools options) s).invocations =
      s.invocations ++ plan.filterMap (invocation? tools options) := by
  induction plan generalizing s with
  | nil => exact (List.append_nil _).symm
  | cons q plan ih =>
    have first := invocations_after (h _ List.mem_cons_self)
    rw [List.foldl_cons, ih fun stage hs => h stage (List.mem_cons_of_mem _ hs), first,
      List.append_assoc, List.filterMap_cons]
    cases invocation? tools options q <;> rfl

/-- A request that is refused has invoked nothing. -/
lemma Stage.Stops.refuses {stage : Stage ω} (h : stage.Stops tools options s' e)
    (refusal : e.IsRefusal) :
    s' = stage.session ∧ Refuses tools (stage.request, stage.directive) e := by
  cases h with
  | unresolved bare => exact ⟨rfl, .unresolved bare⟩
  | @unfollowed s _ r d _ bare h =>
    cases d with
    | respond name reference output => cases congrArg Prod.snd h
    | restart name reference input resumed =>
      rcases found : tools name with _ | tool
      · rw [follow_unknown found] at h
        obtain ⟨rfl, he⟩ := Prod.mk.inj h
        obtain rfl := Except.error.inj he
        exact ⟨rfl, .unknown found⟩
      · rw [follow_known found] at h
        have failed := congrArg Prod.snd h
        dsimp only at failed
        split at failed
        · obtain rfl := Except.error.inj failed
          exact refusal.elim
        · rename_i outcome _
          cases outcome with
          | interrupt metadata =>
            obtain rfl := Except.error.inj failed
            exact refusal.elim
          | _ => cases failed

end

/-- Resumption is refused after some requests were answered: at the transcript, or at the next
request. -/
inductive RefusedAfter (tools : ToolLookup ω) (messages : List Message)
    (directives : List Directive) : List (ToolRequest × Option Directive) → RunError → Prop
  | transcript (h : messages.getLast?.map Message.role ≠ some .model) :
      RefusedAfter tools messages directives []
        (.resumeRequiresModelMessage (messages.getLast?.map Message.role))
  | request {last before q left e} (hl : messages.getLast? = some last)
      (planned : plan last.toolRequests directives = before ++ q :: left)
      (refuses : Refuses tools q e) : RefusedAfter tools messages directives before e

end Resume

/-! ## Whole runs -/

namespace Run

/-- What a run has invoked that failed before it made the calls that it was asked to make. -/
structure Withholds (model : Model ω) (tools : ToolLookup ω) (options : RunOptions)
    (directives : List Directive) (request : Request) (s : Session ω) : Prop where
  /-- A run that is refused has made the invocations for the requests before the refused one. -/
  refused : ∀ s' e, run model tools options directives request s = (s', .error e) →
    e.IsRefusal → ∃ before, Resume.RefusedAfter tools request.messages directives before e ∧
      s'.invocations = s.invocations ++ before.filterMap (Resume.invocation? tools options.calls)
  /-- A run that exceeds its turns has invoked nothing after the last model call. -/
  exceeded : ∀ s' n, run model tools options directives request s =
    (s', .error (.turnLimitExceeded n)) →
      ∃ entries, s'.journal = s.journal ++ entries ∧ Withheld model entries

section

variable {model : Model ω} {tools : ToolLookup ω} {options : RunOptions} {p : Progress}
  {left : Nat} {s s' : Session ω} {e : RunError}

lemma Ended.not_refusal {r : Result ω} (h : Ended model tools options left p s r)
    (hr : r.2 = .error e) : ¬e.IsRefusal := by
  cases h with
  | cancelled h =>
    obtain rfl := Except.error.inj hr
    exact id
  | failed h asked =>
    obtain rfl := Except.error.inj hr
    exact id
  | exceeded replied h =>
    obtain rfl := Except.error.inj hr
    exact id
  | dropped replied h batch =>
    obtain rfl := Except.error.inj hr
    exact id
  | done replied h => cases hr
  | returned replied h hr' => cases hr
  | paused worked settled => cases hr

lemma Course.not_refusal {turns : List Turn} {r : Result ω}
    (h : Course model tools options left turns p s r) (hr : r.2 = .error e) : ¬e.IsRefusal := by
  induction h with
  | last h => exact h.not_refusal hr
  | turn h rest ih => exact ih hr

/-- A run that is refused is refused before its first turn. -/
lemma resume_of_refusal {directives : List Directive} {request : Request}
    (h : run model tools options directives request s = (s', .error e)) (refusal : e.IsRefusal) :
    Run.resume tools options directives request s = (s', .error e) := by
  rcases hr : Run.resume tools options directives request s with ⟨s'', e' | first⟩
  · rw [run_eq_error hr] at h
    obtain ⟨rfl, he⟩ := Prod.mk.inj h
    rw [Except.error.inj he]
  · rw [run_eq_turns model hr] at h
    obtain ⟨turns, course⟩ := exists_course model tools options options.maxTurns ⟨first, {}, 0⟩ s''
    exact absurd refusal (course.not_refusal (congrArg Prod.snd h))

end

/-- **A run that is refused for its directives has made the calls that come first.** -/
theorem run_invokes (model : Model ω) (tools : ToolLookup ω) (options : RunOptions)
    (directives : List Directive) (request : Request) (s : Session ω) :
    Withholds model tools options directives request s where
  refused s' e failed refusal := by
    have refused := (resume_eq_error (resume_of_refusal failed refusal)).2
    rcases Resume.apply_eq_error refused with ⟨rfl, other, rfl⟩ | ⟨last, hl, stopped⟩
    · exact ⟨[], .transcript other, (List.append_nil _).symm⟩
    · obtain ⟨before, r, taken, left, planned, ready, stops⟩ := Resume.answerParts_stops stopped
      obtain ⟨rfl, refuses⟩ := stops.refuses refusal
      exact ⟨before, .request hl planned refuses, Resume.invocations_foldl ready⟩
  exceeded s' n exceeded := by
    rcases h : Run.resume tools options directives request s with ⟨s'', e | first⟩
    · rw [run_eq_error h] at exceeded
      obtain rfl := Except.error.inj (congrArg Prod.snd exceeded)
      exact absurd rfl (resume_error tools (congrArg Prod.snd h) n)
    · rw [run_eq_turns model h] at exceeded
      obtain ⟨turns, course⟩ := exists_course model tools options options.maxTurns
        ⟨first, {}, 0⟩ s''
      obtain ⟨entries, replies, hj, spends⟩ := course.spends
      obtain ⟨before, hb, aside⟩ := resume_aside tools options directives request s 0
      rw [exceeded] at hj spends
      rw [h] at hb
      exact ⟨before ++ entries, by rw [hj, hb, List.append_assoc],
        (spends.prepend aside).withheld n rfl⟩

/-- Two calls that interrupted. -/
def charging : Request where
  messages := [⟨.model, [.toolRequest { name := "pay", interrupt := some .null },
    .toolRequest { name := "ask", interrupt := some .null }], none⟩]

/-- A run that makes the first call again and has no directive for the second. -/
def charge : Result Unit :=
  run talker Resume.billing {} [.restart "pay" none none (some (.bool true))] charging
    ⟨[], ⟨false, ()⟩⟩

theorem run_invokes_charge :
    charge.2 = .error (.unresolvedInterrupt "ask" none) ∧
      charge.1.invocations = [.invoked Resume.bill.definition ⟨none, some (.bool true)⟩ .null] := by
  decide +kernel

end Run

end Colloquy
