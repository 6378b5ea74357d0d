import Colloquy.Loop.Run
import Mathlib.Tactic.Common

/-!
# What resumption comes to

Resumption goes through the requests of the last message of a transcript and ends with the first
that it cannot answer.  The lemmas here say, layer by layer, what has happened when a layer has
succeeded and what when it has failed, so that nothing above has to be opened again.
-/

namespace Colloquy

variable {ω : Type}

namespace Resume

variable {tools : ToolLookup ω} {options : CallOptions} {s s' : Session ω}
  {directives : List Directive}

section Requests

variable {r : ToolRequest}

/-- A request is answered with the output that it carries, or else the first directive for it is
followed. -/
lemma answerRequest_eq_ok {q : ToolRequest} {response : ToolResponse} {rest : List Directive}
    (h : answerRequest tools options s r directives = (s', .ok (q, response, rest))) :
    (∃ output, r.pendingOutput = some output ∧ s' = s ∧ rest = directives ∧
        q = { r with pendingOutput := none } ∧ response = ⟨r.name, r.reference, output⟩) ∨
      r.pendingOutput = none ∧ ∃ d q', Directive.take? r directives = some (d, rest) ∧
        follow tools options s r d = (s', .ok (q', response)) ∧ q = resolve q' := by
  rw [answerRequest] at h
  split at h
  · rename_i output carried
    obtain ⟨rfl, he⟩ := Prod.mk.inj h
    obtain ⟨rfl, rfl, rfl⟩ := Except.ok.inj he
    exact .inl ⟨output, carried, rfl, rfl, rfl, rfl⟩
  · rename_i bare
    split at h
    · cases congrArg Prod.snd h
    · rename_i d left taken
      split at h
      · cases congrArg Prod.snd h
      · rename_i q' response' followed
        obtain ⟨rfl, he⟩ := Prod.mk.inj h
        obtain ⟨rfl, rfl, rfl⟩ := Except.ok.inj he
        exact .inr ⟨bare, d, q', taken, followed, rfl⟩

/-- One that is not answered carries no output, and there is no directive for it or this one could
not be followed. -/
lemma answerRequest_eq_error {e : RunError}
    (h : answerRequest tools options s r directives = (s', .error e)) :
    r.pendingOutput = none ∧
      (Directive.take? r directives = none ∧ s' = s ∧
          e = .unresolvedInterrupt r.name r.reference ∨
        ∃ d rest, Directive.take? r directives = some (d, rest) ∧
          follow tools options s r d = (s', .error e)) := by
  rw [answerRequest] at h
  split at h
  · cases congrArg Prod.snd h
  · rename_i bare
    refine ⟨bare, ?_⟩
    split at h
    · rename_i untaken
      obtain ⟨rfl, he⟩ := Prod.mk.inj h
      exact .inl ⟨untaken, rfl, (Except.error.inj he).symm⟩
    · rename_i d rest taken
      split at h
      · rename_i followed
        obtain ⟨rfl, he⟩ := Prod.mk.inj h
        obtain rfl := Except.error.inj he
        exact .inr ⟨d, rest, taken, followed⟩
      · cases congrArg Prod.snd h

end Requests

variable {messages : List Message}

/-- A transcript that is taken up ends with a message of the model, and all requests of that message
were answered. -/
lemma apply_eq_ok {messages' : List Message} {n : Nat}
    (h : apply tools options messages directives s = (s', .ok (messages', n))) :
    ∃ last s'' a, messages.getLast? = some last ∧
      answerParts tools options last.content directives s = (s'', .ok a) ∧
      s' = noteUnused a.unused s'' ∧ n = a.responses.length ∧
      messages' = messages.dropLast ++ [{ last with content := a.content }] ++
        if a.responses.isEmpty then [] else [Message.ofResponses a.responses] := by
  rw [apply] at h
  split at h
  · cases congrArg Prod.snd h
  · rename_i last hl
    split at h
    · cases congrArg Prod.snd h
    · split at h
      · cases congrArg Prod.snd h
      · rename_i s'' a hp
        obtain ⟨rfl, he⟩ := Prod.mk.inj h
        obtain ⟨rfl, rfl⟩ := Prod.mk.inj (Except.ok.inj he)
        exact ⟨last, s'', a, hl, hp, rfl, rfl, rfl⟩

/-- One that is not taken up does not end with a message of the model, or some request could not be
answered. -/
lemma apply_eq_error {e : RunError}
    (h : apply tools options messages directives s = (s', .error e)) :
    (s' = s ∧ messages.getLast?.map Message.role ≠ some .model ∧
        e = .resumeRequiresModelMessage (messages.getLast?.map Message.role)) ∨
      ∃ last, messages.getLast? = some last ∧
        answerParts tools options last.content directives s = (s', .error e) := by
  rw [apply] at h
  split at h
  · rename_i none
    obtain ⟨rfl, he⟩ := Prod.mk.inj h
    rw [none]
    exact .inl ⟨rfl, Option.some_ne_none _ ∘ Eq.symm, (Except.error.inj he).symm⟩
  · rename_i last hl
    split at h
    · rename_i other
      obtain ⟨rfl, he⟩ := Prod.mk.inj h
      rw [hl]
      exact .inl ⟨rfl, fun spoken => other (Option.some.inj spoken), (Except.error.inj he).symm⟩
    · split at h
      · rename_i hp
        obtain ⟨rfl, he⟩ := Prod.mk.inj h
        obtain rfl := Except.error.inj he
        exact .inr ⟨last, hl, hp⟩
      · cases congrArg Prod.snd h

end Resume

namespace Run

/-- A resumption that succeeded had nothing to do, or it took up the transcript and told the number
of responses. -/
lemma resume_eq_ok {tools : ToolLookup ω} {options : RunOptions} {directives : List Directive}
    {request first : Request} {s s' : Session ω}
    (h : Run.resume tools options directives request s = (s', .ok first)) :
    directives = [] ∧ s' = s ∧ first = request ∨
      directives ≠ [] ∧ ∃ messages n s'',
        Resume.apply tools options.calls request.messages directives s =
          (s'', .ok (messages, n)) ∧
        s' = s''.note (.event (.resumed n)) ∧ first = { request with messages } := by
  rw [Run.resume] at h
  split at h
  · rename_i hd
    obtain ⟨rfl, hf⟩ := Prod.mk.inj h
    exact .inl ⟨List.isEmpty_iff.mp hd, rfl, (Except.ok.inj hf).symm⟩
  · rename_i hd
    split at h
    · cases congrArg Prod.snd h
    · rename_i s'' messages n ha
      obtain ⟨rfl, hf⟩ := Prod.mk.inj h
      exact .inr ⟨by simpa using hd, messages, n, s'', ha, rfl, (Except.ok.inj hf).symm⟩

/-- One that failed could not take up the transcript. -/
lemma resume_eq_error {tools : ToolLookup ω} {options : RunOptions} {directives : List Directive}
    {request : Request} {s s' : Session ω} {e : RunError}
    (h : Run.resume tools options directives request s = (s', .error e)) :
    directives ≠ [] ∧
      Resume.apply tools options.calls request.messages directives s = (s', .error e) := by
  rw [Run.resume] at h
  split at h
  · cases congrArg Prod.snd h
  · rename_i hd
    refine ⟨by simpa using hd, ?_⟩
    split at h
    · rename_i ha
      obtain ⟨rfl, he⟩ := Prod.mk.inj h
      obtain rfl := Except.error.inj he
      exact ha
    · cases congrArg Prod.snd h

end Run

end Colloquy
