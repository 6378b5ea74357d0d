import Colloquy.Proofs.Loop.Answering
import Colloquy.Proofs.Loop.Transcript

/-!
# Resumption that is refused

A request of the last message that carries no output from before can only be answered by a
directive with its name and reference.  Without such a directive none is due to it, wherever it
stands, so resumption fails there, or has failed before, and the run fails with it.

`run_refused` says this of whole runs.  Resumption begins with the first directive: a run without
directives takes its transcript as it is, whatever the requests in it carry, and
`run_undirected_asks` is such a run.
-/

namespace Colloquy

variable {ω : Type}

/-! ## Directives that do not match -/

namespace Directive

/-- No directive is for the request. -/
def Unmatched (r : ToolRequest) (directives : List Directive) : Prop :=
  ∀ d ∈ directives, r.isCall d.name d.reference = false

instance (r : ToolRequest) (directives : List Directive) : Decidable (Unmatched r directives) :=
  inferInstanceAs (Decidable (∀ d ∈ directives, r.isCall d.name d.reference = false))

lemma Unmatched.forCall_eq_nil {r : ToolRequest} {directives : List Directive}
    (h : Unmatched r directives) : forCall r.call directives = [] := by
  refine List.filter_eq_nil_iff.mpr fun d hd matched => ?_
  have call := isCall_iff.mpr (of_decide_eq_true matched)
  rw [h d hd] at call
  cases call

end Directive

/-! ## Requests that no directive answers -/

namespace Resume

variable (tools : ToolLookup ω) (options : CallOptions) (s : Session ω) {r : ToolRequest}
  {directives : List Directive}

/-- Among parts with such a request not all are answered, wherever it stands. -/
lemma answerParts_unmatched {parts : List Part} (hr : r ∈ parts.filterMap Part.toolRequest?)
    (hp : r.pendingOutput = none) (unmatched : Directive.Unmatched r directives) :
    ∃ e, (answerParts tools options parts directives s).2 = .error e := by
  rcases h : answerParts tools options parts directives s with ⟨s', e | a⟩
  · exact ⟨e, rfl⟩
  · have planned : (r, none) ∈ plan (parts.filterMap Part.toolRequest?) directives := by
      obtain ⟨i, hi, rfl⟩ := List.getElem_of_mem hr
      rw [plan_eq, List.mem_mapIdx]
      refine ⟨i, hi, Prod.ext rfl ?_⟩
      rw [due, unmatched.forCall_eq_nil]
      split <;> rfl
    have matched := (answerParts_closes h).matched planned
    rw [hp] at matched
    exact absurd matched (by decide)

/-- A conversation that ends with such a request is not taken up. -/
lemma apply_unmatched {messages : List Message} {m : Message} (hm : messages.getLast? = some m)
    (hr : r ∈ m.toolRequests) (hp : r.pendingOutput = none)
    (unmatched : Directive.Unmatched r directives) :
    ∃ e, (apply tools options messages directives s).2 = .error e := by
  obtain ⟨e, he⟩ := answerParts_unmatched tools options s hr hp unmatched
  rcases h : apply tools options messages directives s with ⟨s', e' | ⟨messages', n⟩⟩
  · exact ⟨e', rfl⟩
  · obtain ⟨last, s'', a, hl, answered, _⟩ := apply_eq_ok h
    obtain rfl := Option.some.inj (hl.symm.trans hm)
    rw [answered] at he
    cases he

end Resume

/-! ## Whole runs -/

namespace Run

/-- The run fails, in the same way for every model, and no model is asked before. -/
def Refused (tools : ToolLookup ω) (options : RunOptions) (directives : List Directive)
    (request : Request) (s : Session ω) : Prop :=
  ∃ s' e, s'.dialogue = s.dialogue ∧
    ∀ model, run model tools options directives request s = (s', .error e)

/-- A run that cannot be resumed is refused. -/
lemma refused_of_resume {tools : ToolLookup ω} {options : RunOptions} {directives : List Directive}
    {request : Request} {s : Session ω} {e : RunError}
    (h : (Run.resume tools options directives request s).2 = .error e) :
    Refused tools options directives request s := by
  have quiet := (resume_dialogue tools options directives request s).1
  exact ⟨_, e, quiet, fun model => run_eq_error (Prod.ext rfl h)⟩

/-- Nothing is resumed when the last message has a request that no directive answers. -/
lemma resume_unmatched (tools : ToolLookup ω) (options : RunOptions) {directives : List Directive}
    {request : Request} {m : Message} {r : ToolRequest} (given : directives ≠ [])
    (hm : request.messages.getLast? = some m) (hr : r ∈ m.toolRequests)
    (hp : r.pendingOutput = none) (unmatched : Directive.Unmatched r directives) (s : Session ω) :
    ∃ e, (Run.resume tools options directives request s).2 = .error e := by
  obtain ⟨e, he⟩ := Resume.apply_unmatched tools options.calls s hm hr hp unmatched
  rcases h : Run.resume tools options directives request s with ⟨s', e' | first⟩
  · exact ⟨e', rfl⟩
  · rcases resume_eq_ok h with ⟨none, _⟩ | ⟨_, _, _, _, applied, _⟩
    · exact absurd none given
    · rw [applied] at he
      cases he

/-- **A request that no directive answers keeps a run from the model.**  The last message has a
request without an output from before, as every request has that interrupted, and there are
directives but none for this request: then the run is refused. -/
theorem run_refused (tools : ToolLookup ω) (options : RunOptions) {directives : List Directive}
    {request : Request} {m : Message} {r : ToolRequest} (given : directives ≠ [])
    (hm : request.messages.getLast? = some m) (hr : r ∈ m.toolRequests)
    (hp : r.pendingOutput = none) (unmatched : Directive.Unmatched r directives) (s : Session ω) :
    Refused tools options directives request s := by
  obtain ⟨e, failed⟩ := resume_unmatched tools options given hm hr hp unmatched s
  exact refused_of_resume failed

/-- A model message in which one call completed and the other still waits for a person. -/
def halted : Message :=
  ⟨.model, [.text "one moment",
    .toolRequest { name := "look", reference := some "l1", pendingOutput := some (.bool true) },
    .toolRequest { name := "ask", reference := some "a1", interrupt := some .null }], none⟩

/-- A directive for the call that completed is none for the one that waits. -/
theorem run_refused_halted :
    ([.respond "look" (some "l1") .null] : List Directive) ≠ [] ∧
      Directive.Unmatched { name := "ask", reference := some "a1", interrupt := some .null }
        [.respond "look" (some "l1") .null] ∧
      Refused (fun _ => none) {} [.respond "look" (some "l1") .null] { messages := [halted] }
        (⟨[], ⟨false, ()⟩⟩ : Session Unit) := by
  have given : ([.respond "look" (some "l1") .null] : List Directive) ≠ [] := by decide
  have unmatched : Directive.Unmatched
      { name := "ask", reference := some "a1", interrupt := some .null }
      [.respond "look" (some "l1") .null] := by decide
  have asks : { name := "ask", reference := some "a1", interrupt := some .null } ∈
      halted.toolRequests := by decide
  exact ⟨given, unmatched, run_refused _ {} given rfl asks rfl unmatched _⟩

/-- A model that answers whatever it is asked. -/
def talker : Model Unit where
  name := "talker"
  call _ around := ⟨[], .ok { message := .ofText .model "hello" }, around⟩

/-- Without directives nothing is resumed: the model is asked, with the call still waiting. -/
theorem run_undirected_asks :
    halted.role = .model ∧
      (∃ r ∈ halted.toolRequests, r.interrupt.isSome ∧ r.pendingOutput = none ∧
        Directive.Unmatched r []) ∧
      (∃ s r, run talker (fun _ => none) {} [] { messages := [halted] } ⟨[], ⟨false, ()⟩⟩ =
        (s, .ok r) ∧ Utterance.asked { messages := [halted] } ∈ s.dialogue) ∧
      ¬Refused (fun _ => none) {} [] { messages := [halted] }
        (⟨[], ⟨false, ()⟩⟩ : Session Unit) := by
  obtain ⟨s, r, returned, asked⟩ : ∃ s r,
      run talker (fun _ => none) {} [] { messages := [halted] } ⟨[], ⟨false, ()⟩⟩ = (s, .ok r) ∧
        Utterance.asked { messages := [halted] } ∈ s.dialogue :=
    ⟨_, _, rfl, by decide⟩
  refine ⟨rfl, by decide, ⟨s, r, returned, asked⟩, ?_⟩
  rintro ⟨s', e, _, failed⟩
  cases congrArg Prod.snd (returned.symm.trans (failed talker))

end Run

end Colloquy
