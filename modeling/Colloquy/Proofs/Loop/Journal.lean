import Colloquy.Proofs.Activity
import Colloquy.Proofs.Loop.Resumption

/-!
# What a run adds to its journal

A journal only grows, and each part of a run adds entries of its own kinds.  This module says which
entries a call of a given tool may add (`Entry.OfTool`) and which a request for a call
(`Entry.OfCall`).  Neither a batch nor the answering of requests before a run is resumed adds any
other: only the loop itself asks the model and reports its answers.
-/

namespace Colloquy

variable {ω : Type}

namespace Session

lemma prefix_note (entry : Entry) (s : Session ω) : s.journal <+: (s.note entry).journal :=
  List.prefix_append _ _

lemma prefix_noteEvents (events : List Event) (s : Session ω) :
    s.journal <+: (s.noteEvents events).journal :=
  List.prefix_append _ _

/-- The journal went on, with entries of some kind only. -/
def Notes (kind : Entry → Prop) (s s' : Session ω) : Prop :=
  ∃ entries, s'.journal = s.journal ++ entries ∧ ∀ e ∈ entries, kind e

variable {kind : Entry → Prop}

lemma notes_refl (s : Session ω) : Notes kind s s := ⟨[], by simp, by simp⟩

lemma notes_trans (s t u : Session ω) (hst : Notes kind s t) (htu : Notes kind t u) :
    Notes kind s u := by
  obtain ⟨es, hes, hk⟩ := hst
  obtain ⟨fs, hfs, hl⟩ := htu
  refine ⟨es ++ fs, by rw [hfs, hes, List.append_assoc], fun e he => ?_⟩
  rcases List.mem_append.mp he with h | h
  · exact hk e h
  · exact hl e h

lemma notes_note {entry : Entry} (h : kind entry) (s : Session ω) :
    Notes kind s (s.note entry) :=
  ⟨[entry], rfl, fun e he => by rw [List.mem_singleton.mp he]; exact h⟩

lemma Notes.prefix_journal {s s' : Session ω} (h : Notes kind s s') : s.journal <+: s'.journal := by
  obtain ⟨entries, he, _⟩ := h
  exact ⟨entries, he.symm⟩

lemma Notes.mono {kind' : Entry → Prop} (hk : ∀ e, kind e → kind' e) {s s' : Session ω}
    (h : Notes kind s s') : Notes kind' s s' := by
  obtain ⟨entries, he, hall⟩ := h
  exact ⟨entries, he, fun e hm => hk e (hall e hm)⟩

section Reading

/-! A journal is read by picking something out of each entry, if the entry has it. -/

variable {α : Type} (pick : Entry → Option α)

lemma filterMap_note (entry : Entry) (s : Session ω) :
    (s.note entry).journal.filterMap pick =
      s.journal.filterMap pick ++ (pick entry).toList := by
  rw [note, List.filterMap_append]
  cases h : pick entry <;> simp [h]

lemma filterMap_noteEvents (events : List Event) (s : Session ω) :
    (s.noteEvents events).journal.filterMap pick =
      s.journal.filterMap pick ++ events.filterMap fun e => pick (.event e) := by
  rw [noteEvents, List.filterMap_append, List.filterMap_map]
  rfl

/-- Nothing is picked out of entries of which none has it. -/
lemma Notes.filterMap_eq (hk : ∀ e, kind e → pick e = none) {s s' : Session ω}
    (h : Notes kind s s') : s'.journal.filterMap pick = s.journal.filterMap pick := by
  obtain ⟨entries, he, hall⟩ := h
  have hn : entries.filterMap pick = [] :=
    List.filterMap_eq_nil_iff.mpr fun e hm => hk e (hall e hm)
  rw [he, List.filterMap_append, hn, List.append_nil]

end Reading

/-- A change of the surroundings leaves the journal alone. -/
lemma notes_around (around : Surroundings ω) (s : Session ω) :
    Notes kind s { s with around } :=
  ⟨[], by simp, by simp⟩

lemma obeys_noting {entry : Entry} (h : kind entry) :
    (noting entry : Activity (Session ω) Unit).Obeys (Notes kind) fun _ => True :=
  ⟨fun s => notes_note h s, fun _ => trivial⟩

end Session

/-! ## Tool calls -/

/-- What a call of a tool may add to a journal.  An invocation is added only when the input
satisfies the schema of the tool, if inputs are checked. -/
inductive Entry.OfTool (options : CallOptions) (definition : ToolDefinition)
    (context : CallContext) (input : Json) : Entry → Prop
  | warning (w : Warning) : OfTool options definition context input (.warning w)
  | invoked (accepted : options.validate = true → definition.rejection? input = none) :
      OfTool options definition context input (.invoked definition context input)
  | returned (outcome : Outcome) :
      OfTool options definition context input (.returned definition context outcome)

/-- What calls of the tools that are found may add to a journal. -/
inductive Entry.OfTools (tools : ToolLookup ω) (options : CallOptions) : Entry → Prop
  | warning (w : Warning) : OfTools tools options (.warning w)
  | ofTool {name : String} {tool : Tool ω} {context : CallContext} {input : Json} {e : Entry}
      (found : tools name = some tool)
      (h : Entry.OfTool options tool.definition context input e) : OfTools tools options e

/-- What a request for a tool call may add to a journal: that it is carried out, and what belongs to
the call. -/
inductive Entry.OfCall (tools : ToolLookup ω) (options : CallOptions) : Entry → Prop
  | executing (name : String) (reference : Option String) (input : Json) :
      OfCall tools options (.event (.toolExecuting name reference input))
  | ofTools {e : Entry} (h : Entry.OfTools tools options e) : OfCall tools options e

/-- What a call of a tool may add to a journal once the tool was invoked. -/
inductive Entry.AfterInvocation (definition : ToolDefinition) (context : CallContext) : Entry → Prop
  | warning (w : Warning) : AfterInvocation definition context (.warning w)
  | returned (outcome : Outcome) :
      AfterInvocation definition context (.returned definition context outcome)

lemma Entry.AfterInvocation.ofTool {options : CallOptions} {definition : ToolDefinition}
    {context : CallContext} {input : Json} {e : Entry} (h : AfterInvocation definition context e) :
    OfTool options definition context input e := by
  cases h with
  | warning w => exact .warning w
  | returned outcome => exact .returned outcome

namespace Tool

variable (t : Tool ω) (options : CallOptions) (context : CallContext) (input : Json)

lemma obeys_invokeNoted : (t.invokeNoted context input).Obeys
    (Session.Notes (Entry.AfterInvocation t.definition context)) fun _ => True := by
  refine (Activity.obeys_lift (fun s u => Session.notes_around s u) _).bind fun ending _ => ?_
  cases ending with
  | returned outcome => exact (Session.obeys_noting (.returned outcome)).bind fun _ _ => trivial
  | panicked message => trivial

lemma obeys_conclude (ending : Ending) : (t.conclude ending).Obeys
    (Session.Notes (Entry.AfterInvocation t.definition context)) fun _ => True := by
  cases ending with
  | returned outcome => trivial
  | panicked message => exact (Session.obeys_noting (.warning _)).bind fun _ _ => trivial

/-- A call is rejected, or the tool is invoked at once and only once. -/
lemma run_cases :
    (∃ message, options.validate = true ∧ t.definition.rejection? input = some message ∧
      t.run options context input = .done (.failure message)) ∨
    (options.validate = true → t.definition.rejection? input = none) ∧
      ∃ rest : Activity (Session ω) Outcome,
        t.run options context input =
          (Session.noting (.invoked t.definition context input)).bind (fun _ => rest) ∧
        rest.Obeys (Session.Notes (Entry.AfterInvocation t.definition context)) fun _ => True := by
  rw [run]
  split
  · rename_i message rejected
    by_cases hv : options.validate = true
    · rw [if_pos hv] at rejected
      exact .inl ⟨message, hv, rejected, rfl⟩
    · rw [if_neg hv] at rejected
      cases rejected
  · rename_i accepted
    refine .inr ⟨fun hv => by rwa [if_pos hv] at accepted, _, rfl, ?_⟩
    have invoked := t.obeys_invokeNoted context input
    split
    · exact invoked.bind fun ending _ => t.obeys_conclude context ending
    · refine (invoked.within _).bind fun o _ => ?_
      cases o with
      | some ending => exact t.obeys_conclude context ending
      | none => trivial

/-- A call of a tool adds nothing but what belongs to this call. -/
lemma obeys_run : (t.run options context input).Obeys
    (Session.Notes (Entry.OfTool options t.definition context input)) fun _ => True := by
  rcases t.run_cases options context input with
    ⟨message, _, _, hr⟩ | ⟨accepted, rest, hr, after⟩
  · rw [hr]
    trivial
  · rw [hr]
    exact (Session.obeys_noting (.invoked accepted)).bind fun _ _ =>
      after.mono (fun _ _ h => h.mono fun _ he => he.ofTool) fun _ h => h

variable {t}

lemma obeys_run_of_found {tools : ToolLookup ω} {name : String} (found : tools name = some t) :
    (t.run options context input).Obeys (Session.Notes (Entry.OfTools tools options))
      fun _ => True :=
  (t.obeys_run options context input).mono
    (fun _ _ h => h.mono fun _ he => .ofTool found he) fun _ _ => trivial

end Tool

namespace Batch

variable (tools : ToolLookup ω) (options : CallOptions)

lemma obeys_runRequest (r : ToolRequest) :
    (runRequest tools options r).Obeys (Session.Notes (Entry.OfCall tools options))
      fun _ => True := by
  refine (Session.obeys_noting (.executing r.name r.reference r.input)).bind fun _ _ => ?_
  split
  · rename_i tool found
    exact (Tool.obeys_run_of_found options _ _ found).mono
      (fun _ _ h => h.mono fun _ => .ofTools) fun _ _ => trivial
  · exact (Session.obeys_noting (.ofTools (.warning _))).bind fun _ _ => trivial

/-- A batch adds only what its calls add, and when it is not broken off each call has come to an
outcome of its own kind. -/
lemma notes_run_of_obeys {kind : Entry → Prop} {T : ToolRequest → Outcome → Prop}
    {requests : List ToolRequest}
    (h : ∀ r ∈ requests, (runRequest tools options r).Obeys (Session.Notes kind) (T r))
    (concurrent : Bool) (s : Session ω) :
    Session.Notes kind s ((run tools options concurrent requests).run s).1 ∧
      ∀ outcomes, ((run tools options concurrent requests).run s).2 = some outcomes →
        List.Forall₂ T requests outcomes := by
  have calls : (if concurrent then Activity.together (requests.map (runRequest tools options))
      else Activity.inOrder (requests.map (runRequest tools options))).Obeys
      (Session.Notes kind) (List.Forall₂ T requests) := by
    split
    · exact Activity.obeys_together h
    · exact Activity.obeys_inOrder h
  exact (calls.guarded Session.notes_refl (fun s => s.around.cancelled)).run
    Session.notes_refl Session.notes_trans s

/-- A batch adds only what tool calls add, and when it is not broken off it has one outcome for each
request. -/
theorem run_notes (concurrent : Bool) (requests : List ToolRequest) (s : Session ω) :
    Session.Notes (Entry.OfCall tools options) s
        ((run tools options concurrent requests).run s).1 ∧
      ∀ outcomes, ((run tools options concurrent requests).run s).2 = some outcomes →
        outcomes.length = requests.length := by
  obtain ⟨notes, row⟩ := notes_run_of_obeys tools options
    (fun r _ => obeys_runRequest tools options r) concurrent s
  exact ⟨notes, fun outcomes ho => (row outcomes ho).length_eq.symm⟩

end Batch

/-! ## Resumption -/

namespace Resume

variable (tools : ToolLookup ω) (options : CallOptions)

lemma follow_notes (s : Session ω) (r : ToolRequest) (d : Directive) :
    Session.Notes (Entry.OfTools tools options) s (follow tools options s r d).1 := by
  cases d with
  | respond name reference output => exact Session.notes_refl s
  | restart name reference input resumed =>
    rw [follow]
    split
    · exact Session.notes_refl s
    · rename_i tool found
      have call := ((Tool.obeys_run_of_found options ⟨r.reference, resumed⟩
        (input.getD r.input) found).guarded Session.notes_refl (fun s => s.around.cancelled)).run
        Session.notes_refl Session.notes_trans s
      dsimp only
      split
      · rename_i h
        rw [h] at call
        exact call.1
      · rename_i h
        rw [h] at call
        exact call.1

lemma answerRequest_notes (s : Session ω) (r : ToolRequest) (directives : List Directive) :
    Session.Notes (Entry.OfTools tools options) s
      (answerRequest tools options s r directives).1 := by
  rcases h : answerRequest tools options s r directives with ⟨s', e | ⟨q, response, rest⟩⟩
  · rcases answerRequest_eq_error h with ⟨_, ⟨_, rfl, _⟩ | ⟨d, _, _, followed⟩⟩
    · exact Session.notes_refl s'
    · have notes := follow_notes tools options s r d
      rwa [followed] at notes
  · rcases answerRequest_eq_ok h with ⟨_, _, rfl, _⟩ | ⟨_, d, _, _, followed, _⟩
    · exact Session.notes_refl s'
    · have notes := follow_notes tools options s r d
      rwa [followed] at notes

lemma answerParts_notes (parts : List Part) (directives : List Directive) (s : Session ω) :
    Session.Notes (Entry.OfTools tools options) s
      (answerParts tools options parts directives s).1 := by
  fun_induction answerParts tools options parts directives s with
  | case1 directives s => exact Session.notes_refl s
  | case2 r parts directives s s' e h =>
    have head := answerRequest_notes tools options s r directives
    rw [h] at head
    exact head
  | case3 r parts directives s s' r' response rest h s'' e h' ih =>
    have head := answerRequest_notes tools options s r directives
    rw [h] at head
    rw [h'] at ih
    exact Session.notes_trans _ _ _ head ih
  | case4 r parts directives s s' r' response rest h s'' a h' ih =>
    have head := answerRequest_notes tools options s r directives
    rw [h] at head
    rw [h'] at ih
    exact Session.notes_trans _ _ _ head ih
  | case5 part parts directives s _ s' e h ih =>
    rw [h] at ih
    exact ih
  | case6 part parts directives s _ s' a h ih =>
    rw [h] at ih
    exact ih

lemma noteUnused_notes (unused : List Directive) (s : Session ω) :
    Session.Notes (Entry.OfTools tools options) s (noteUnused unused s) := by
  refine ⟨_, rfl, fun e he => ?_⟩
  obtain ⟨d, _, rfl⟩ := List.mem_map.mp he
  exact .warning _

/-- Answering the requests of a transcript adds only what tool calls add, and no event. -/
theorem apply_notes (tools : ToolLookup ω) (options : CallOptions) (messages : List Message)
    (directives : List Directive) (s : Session ω) :
    Session.Notes (Entry.OfTools tools options) s
      (apply tools options messages directives s).1 := by
  rcases h : apply tools options messages directives s with ⟨s', e | ⟨messages', n⟩⟩
  · rcases apply_eq_error h with ⟨rfl, _⟩ | ⟨last, _, hp⟩
    · exact Session.notes_refl s'
    · have parts := answerParts_notes tools options last.content directives s
      rwa [hp] at parts
  · obtain ⟨last, s'', a, _, hp, rfl, _, _⟩ := apply_eq_ok h
    have parts := answerParts_notes tools options last.content directives s
    rw [hp] at parts
    exact Session.notes_trans _ _ _ parts (noteUnused_notes tools options a.unused s'')

end Resume

end Colloquy
