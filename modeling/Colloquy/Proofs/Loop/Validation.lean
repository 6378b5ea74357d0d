import Colloquy.Proofs.Loop.Continuation

/-!
# Accepted inputs

A run that checks inputs shows a tool only those that the schema of the tool accepts.  That is said
twice: of the journal, in which each invocation has such an input (`Entry.Checked`), and of the
tools themselves, for what a tool would do with any other input makes no difference to the run
(`ToolLookup.Alike`).
-/

namespace Colloquy

variable {ω : Type}

/-! ## Accepted and rejected inputs -/

/-- The schema that the tool declares accepts the input. -/
def ToolDefinition.Accepts (d : ToolDefinition) (input : Json) : Prop :=
  JsonSchema.accepts d.inputSchema input = true

lemma ToolDefinition.rejection?_eq_none_iff {d : ToolDefinition} {input : Json} :
    d.rejection? input = none ↔ d.Accepts input := by
  rw [rejection?, Accepts, JsonSchema.accepts, List.isEmpty_iff]
  cases JsonSchema.violations d.inputSchema input with
  | nil => simp
  | cons violation rest => simp

/-- The tool of the name rejects the input, with a message. -/
def ToolLookup.Rejects (tools : ToolLookup ω) (name : String) (input : Json) (message : String) :
    Prop :=
  ∃ tool, tools name = some tool ∧ tool.definition.rejection? input = some message

/-- The tool of the name accepts the input. -/
def ToolLookup.Accepts (tools : ToolLookup ω) (name : String) (input : Json) : Prop :=
  ∃ tool, tools name = some tool ∧ tool.definition.Accepts input

section Lookup

variable {tools : ToolLookup ω} {name : String} {tool : Tool ω} {input : Json}

lemma ToolLookup.Rejects.not_accepts {message : String} (h : tools.Rejects name input message) :
    ¬tools.Accepts name input := by
  rintro ⟨tool, found, accepted⟩
  obtain ⟨_, same, rejected⟩ := h
  obtain rfl := Option.some.inj (found.symm.trans same)
  rw [ToolDefinition.rejection?_eq_none_iff.mpr accepted] at rejected
  cases rejected

/-- A tool that is found either rejects an input, with one message, or accepts it. -/
lemma ToolLookup.rejects_or_accepts (found : tools name = some tool) (input : Json) :
    (∃ message, tool.definition.rejection? input = some message ∧
      ∀ message', tools.Rejects name input message' → message' = message) ∨
      tools.Accepts name input := by
  cases hr : tool.definition.rejection? input with
  | none => exact .inr ⟨tool, found, ToolDefinition.rejection?_eq_none_iff.mp hr⟩
  | some message =>
    refine .inl ⟨message, rfl, fun message' h => ?_⟩
    obtain ⟨_, same, rejected⟩ := h
    obtain rfl := Option.some.inj (found.symm.trans same)
    exact Option.some.inj (rejected.symm.trans hr)

end Lookup

namespace Tool

variable {t u : Tool ω} {options : CallOptions} {context : CallContext} {input : Json}

lemma run_of_rejected {message : String} (hv : options.validate = true)
    (h : t.definition.rejection? input = some message) :
    t.run options context input = .done (.failure message) := by
  rw [run, if_pos hv, h]

/-- The tools have the same definition, and do the same with every input that it accepts. -/
structure Alike (t u : Tool ω) : Prop where
  definition : t.definition = u.definition
  invoke : ∀ context input, t.definition.Accepts input →
    t.invoke context input = u.invoke context input

/-- What a tool does with other inputs makes no difference. -/
lemma Alike.run_eq (h : t.Alike u) (hv : options.validate = true) (context : CallContext)
    (input : Json) : t.run options context input = u.run options context input := by
  obtain ⟨definition, invoke⟩ := t
  obtain ⟨definition', invoke'⟩ := u
  obtain ⟨same, agree⟩ := h
  obtain rfl : definition = definition' := same
  cases hr : definition.rejection? input with
  | some message => rw [run_of_rejected hv hr, run_of_rejected hv hr]
  | none =>
    have answer : invoke context input = invoke' context input :=
      agree context input (ToolDefinition.rejection?_eq_none_iff.mp hr)
    simp only [run, invokeNoted, answer]
    rfl

end Tool

/-- Under each name the lookups have alike tools, or none. -/
def ToolLookup.Alike (tools tools' : ToolLookup ω) : Prop :=
  ∀ name, Option.Rel Tool.Alike (tools name) (tools' name)

lemma ToolLookup.Alike.found {tools tools' : ToolLookup ω} (h : tools.Alike tools')
    (name : String) : (tools name = none ∧ tools' name = none) ∨
      ∃ t u, tools name = some t ∧ tools' name = some u ∧ t.Alike u := by
  have rel := h name
  generalize tools name = found at rel
  generalize tools' name = found' at rel
  cases rel with
  | none => exact .inl ⟨rfl, rfl⟩
  | some ha => exact .inr ⟨_, _, rfl, rfl, ha⟩

/-! ## Runs with alike tools -/

section Alike

variable {tools tools' : ToolLookup ω}

lemma Batch.run_alike {options : CallOptions} (h : tools.Alike tools')
    (hv : options.validate = true) (concurrent : Bool) (requests : List ToolRequest) :
    run tools options concurrent requests = run tools' options concurrent requests := by
  have calls : runRequest tools options = runRequest tools' options := by
    funext r
    rw [runRequest, runRequest]
    rcases h.found r.name with ⟨ht, hu⟩ | ⟨t, u, ht, hu, alike⟩
    · rw [ht, hu]
    · simp only [ht, hu, alike.run_eq hv]
  rw [run, run, calls]

namespace Resume

variable {options : CallOptions}

lemma follow_alike (h : tools.Alike tools') (hv : options.validate = true) :
    follow tools options = follow tools' options := by
  funext s r d
  cases d with
  | respond name reference output => rfl
  | restart name reference input resumed =>
    rw [follow, follow]
    rcases h.found name with ⟨ht, hu⟩ | ⟨t, u, ht, hu, alike⟩
    · rw [ht, hu]
    · simp only [ht, hu, alike.run_eq hv]

lemma answerParts_alike (h : tools.Alike tools') (hv : options.validate = true)
    (parts : List Part) (directives : List Directive) (s : Session ω) :
    answerParts tools options parts directives s =
      answerParts tools' options parts directives s := by
  have requests : answerRequest tools options = answerRequest tools' options := by
    funext s r directives
    rw [answerRequest, answerRequest, follow_alike h hv]
  induction parts generalizing directives s with
  | nil => rfl
  | cons part parts ih =>
    cases part with
    | toolRequest r => simp only [answerParts, requests, ih]
    | _ => simp only [answerParts, ih]

lemma apply_alike (h : tools.Alike tools') (hv : options.validate = true) :
    apply tools options = apply tools' options := by
  funext messages directives s
  rw [apply, apply]
  simp only [answerParts_alike h hv]

end Resume

lemma Run.turns_alike (model : Model ω) {options : RunOptions} (h : tools.Alike tools')
    (hv : options.calls.validate = true) (left : Nat) (p : Progress) (s : Session ω) :
    turns model tools options left p s = turns model tools' options left p s := by
  have batches : runBatch tools options = runBatch tools' options := by
    funext p message s
    rw [runBatch, runBatch, Batch.run_alike h hv]
  induction left generalizing p s with
  | zero =>
    rw [turns, turns]
  | succ left ih =>
    rw [turns, turns]
    simp only [batches, ih]

/-- Runs with alike tools are the same. -/
theorem run_alike (model : Model ω) {options : RunOptions} (h : tools.Alike tools')
    (hv : options.calls.validate = true) (directives : List Directive) (request : Request)
    (s : Session ω) :
    run model tools options directives request s =
      run model tools' options directives request s := by
  rw [run, run, Run.resume, Run.resume, Resume.apply_alike h hv]
  simp only [Run.turns_alike model h hv]

end Alike

/-! ## The journal -/

/-- What a run may add to a journal: events, requests to the model, and what belongs to tool
calls. -/
inductive Entry.OfRun (tools : ToolLookup ω) (options : CallOptions) : Entry → Prop
  | event (event : Event) : OfRun tools options (.event event)
  | asked (model : String) (request : Request) : OfRun tools options (.asked model request)
  | ofTools {e : Entry} (h : Entry.OfTools tools options e) : OfRun tools options e

/-- If the entry is an invocation, then the tool is one of the lookup and accepts the input. -/
def Entry.Checked (tools : ToolLookup ω) (e : Entry) : Prop :=
  ∀ definition context input, e = .invoked definition context input →
    definition.Accepts input ∧ ∃ name tool, tools name = some tool ∧ tool.definition = definition

namespace Entry

variable {tools : ToolLookup ω} {options : CallOptions} {e : Entry}

lemma OfCall.ofRun (h : OfCall tools options e) : OfRun tools options e := by
  cases h with
  | executing name reference input => exact .event _
  | ofTools h => exact .ofTools h

lemma OfRun.checked (h : OfRun tools options e) (hv : options.validate = true) :
    Checked tools e := by
  rintro definition context input rfl
  rcases h with _ | _ | (_ | ⟨found, _ | accepted | _⟩)
  exact ⟨ToolDefinition.rejection?_eq_none_iff.mp (accepted hv), _, _, found, rfl⟩

end Entry

namespace Run

section Journal

open Session (Notes notes_refl notes_trans notes_note)

variable {model : Model ω} {tools : ToolLookup ω} {options : RunOptions} {p p' : Progress}
  {s s' : Session ω} {reply : Reply} {outcomes : List Outcome}

lemma notes_event (event : Event) (s : Session ω) :
    Notes (Entry.OfRun tools options.calls) s (s.note (.event event)) :=
  notes_note (.event event) s

lemma notes_noteEvents (events : List Event) (s : Session ω) :
    Notes (Entry.OfRun tools options.calls) s (s.noteEvents events) := by
  refine ⟨_, rfl, fun e he => ?_⟩
  obtain ⟨event, _, rfl⟩ := List.mem_map.mp he
  exact .event event

lemma notes_ask (model : Model ω) (p : Progress) (s : Session ω) :
    Notes (Entry.OfRun tools options.calls) s (ask model p s).1 :=
  notes_trans _ _ _ (notes_note (.asked model.name p.request) s) (notes_noteEvents _ _)

lemma Replied.notes (h : Replied model options p s reply s') :
    Notes (Entry.OfRun tools options.calls) s s' := by
  obtain ⟨_, asked, ha, rfl⟩ := h
  obtain rfl := congrArg Prod.fst ha
  exact notes_trans _ _ _ (notes_event _ s)
    (notes_trans _ _ _ (notes_ask model p _) (notes_noteEvents _ _))

lemma notes_runBatch {message : Message} {result : Option (List Outcome)}
    (h : runBatch tools options p message s = (s', result)) :
    Notes (Entry.OfRun tools options.calls) s s' := by
  obtain rfl := congrArg Prod.fst h
  have batch := Batch.run_notes tools options.calls options.concurrent message.toolRequests
    (s.note (.event (.toolCallsReceived p.turn message.toolRequests.length)))
  exact notes_trans _ _ _ (notes_event _ s) (batch.1.mono fun e he => he.ofRun)

lemma Worked.notes (h : Worked model tools options p s reply outcomes s') :
    Notes (Entry.OfRun tools options.calls) s s' := by
  obtain ⟨replied, _, batch⟩ := h
  exact notes_trans _ _ _ (notes_trans _ _ _ replied.notes (notes_runBatch batch))
    (notes_noteEvents _ _)

lemma Ended.notes {left : Nat} {r : Result ω} (h : Ended model tools options left p s r) :
    Notes (Entry.OfRun tools options.calls) s r.1 := by
  cases h with
  | cancelled h => exact notes_event _ s
  | failed h asked =>
    obtain rfl := congrArg Prod.fst asked
    exact notes_trans _ _ _ (notes_event _ s) (notes_ask model p _)
  | done replied h => exact notes_trans _ _ _ replied.notes (notes_event _ _)
  | returned replied h hr => exact notes_trans _ _ _ replied.notes (notes_event _ _)
  | exceeded replied h =>
    exact notes_trans _ _ _ replied.notes (notes_trans _ _ _
      (notes_note (.ofTools (.warning (.turnLimitExceeded options.maxTurns))) _) (notes_event _ _))
  | dropped replied h batch => exact notes_trans _ _ _ replied.notes (notes_runBatch batch)
  | paused worked settled => exact notes_trans _ _ _ worked.notes (notes_event _ _)

lemma Course.notes {left : Nat} {turns : List Turn} {r : Result ω}
    (h : Course model tools options left turns p s r) :
    Notes (Entry.OfRun tools options.calls) s r.1 := by
  induction h with
  | last h => exact h.notes
  | turn h rest ih =>
    obtain ⟨worked, _⟩ := h
    exact notes_trans _ _ _ worked.notes ih

lemma notes_resume (directives : List Directive) (request : Request) (s : Session ω) :
    Notes (Entry.OfRun tools options.calls) s
      (Run.resume tools options directives request s).1 := by
  have applied := (Resume.apply_notes tools options.calls request.messages directives s).mono
    fun e he => Entry.OfRun.ofTools he
  rcases h : Run.resume tools options directives request s with ⟨s', e | first⟩
  · rwa [(resume_eq_error h).2] at applied
  · rcases resume_eq_ok h with ⟨_, rfl, _⟩ | ⟨_, _, _, _, ha, rfl, _⟩
    · exact notes_refl s'
    · rw [ha] at applied
      exact notes_trans _ _ _ applied (notes_event _ _)

/-- A run adds nothing else. -/
theorem notes_run (model : Model ω) (tools : ToolLookup ω) (options : RunOptions)
    (directives : List Directive) (request : Request) (s : Session ω) :
    Notes (Entry.OfRun tools options.calls) s
      (run model tools options directives request s).1 := by
  have resumed : Notes (Entry.OfRun tools options.calls) s
      (Run.resume tools options directives request s).1 := notes_resume directives request s
  rcases hr : Run.resume tools options directives request s with ⟨s', e | first⟩
  · rw [hr] at resumed
    rw [run_eq_error hr]
    exact resumed
  · rw [hr] at resumed
    rw [run_eq_turns model hr]
    obtain ⟨turns, course⟩ := exists_course model tools options options.maxTurns
      ⟨first, {}, 0⟩ s'
    exact notes_trans _ _ _ resumed course.notes

end Journal

end Run

end Colloquy
