import Colloquy.Loop.Run
import Mathlib.Tactic.Common

/-!
# The course of a run

The loop takes a turn as long as it can, and then it ends in one of seven ways.  `Replied` is what
both have in common: the model was asked and answered.  `Turned` is one turn from start to end,
`Ended` is how a run ends when it takes no further turn, and `Course` puts turns in front of an end.

`exists_course` says that the loop follows such a course for every model, every tools and every
session.  Whatever is to be shown of all runs is shown once for a turn and once for an end, by
induction on the course, and the loop itself is not opened again.
-/

namespace Colloquy.Run

variable {ω : Type}

/-- A turn as the conversation keeps it: an answer of the model and the responses to it. -/
structure Turn where
  answer : Message
  responses : List ToolResponse
  deriving DecidableEq, Repr

/-- The session in which a model call is about to start. -/
def opened (options : RunOptions) (p : Progress) (s : Session ω) : Session ω :=
  s.note (.event (.turnStart p.turn options.maxTurns p.request.messages.length))

/-- The model was asked and answered: the session goes from `s` to `s'`. -/
def Replied (model : Model ω) (options : RunOptions) (p : Progress) (s : Session ω) (reply : Reply)
    (s' : Session ω) : Prop :=
  s.around.cancelled = false ∧ ∃ asked,
    ask model p (opened options p s) = (asked, .ok reply) ∧
      s' = asked.noteEvents (replyEvents p.turn reply)

lemma Replied.of_ask {model : Model ω} {options : RunOptions} {p : Progress} {s s' : Session ω}
    {reply : Reply} (h : ¬(opened options p s).around.cancelled = true)
    (asked : ask model p (opened options p s) = (s', .ok reply)) :
    Replied model options p s reply (s'.noteEvents (replyEvents p.turn reply)) :=
  ⟨Bool.eq_false_iff.mpr h, s', asked, rfl⟩

/-- The answer of the model asks for tool calls, and the loop makes them. -/
def CallsTools (options : RunOptions) (reply : Reply) : Prop :=
  reply.message.hasToolRequests = true ∧ options.returnToolRequests = false

lemma CallsTools.of_not {options : RunOptions} {reply : Reply}
    (hm : ¬(!reply.message.hasToolRequests) = true) (hr : ¬options.returnToolRequests = true) :
    CallsTools options reply :=
  ⟨by simpa using hm, Bool.eq_false_iff.mpr hr⟩

/-- The model answered with tool requests, and every call of the batch came to an outcome: the
session goes from `s` to `s'`. -/
inductive Worked (model : Model ω) (tools : ToolLookup ω) (options : RunOptions) (p : Progress)
    (s : Session ω) (reply : Reply) (outcomes : List Outcome) : Session ω → Prop
  | intro {s' s''} (replied : Replied model options p s reply s') (h : CallsTools options reply)
      (batch : runBatch tools options (p.use reply.usage) reply.message s' =
        (s'', some outcomes)) :
      Worked model tools options p s reply outcomes (noteResults reply.message outcomes s'')

/-- One turn: a batch in which every call has a response, and both are appended. -/
inductive Turned (model : Model ω) (tools : ToolLookup ω) (options : RunOptions) (p : Progress)
    (s : Session ω) : Turn → Progress → Session ω → Prop
  | intro {reply outcomes responses s'}
      (worked : Worked model tools options p s reply outcomes s')
      (settled : Batch.settle reply.message outcomes = .answered responses) :
      Turned model tools options p s ⟨reply.message, responses⟩
        ((p.use reply.usage).advance reply.message responses) s'

/-- How a run ends that takes no further turn. -/
inductive Ended (model : Model ω) (tools : ToolLookup ω) (options : RunOptions) :
    Nat → Progress → Session ω → Result ω → Prop
  /-- The run was cancelled before the model call. -/
  | cancelled {left p s} (h : s.around.cancelled = true) :
      Ended model tools options left p s (opened options p s, .error .cancelled)
  /-- The model failed. -/
  | failed {left p s s' e} (h : s.around.cancelled = false)
      (asked : ask model p (opened options p s) = (s', .error e)) :
      Ended model tools options left p s (s', .error (.model e))
  /-- The answer asks for no tool calls. -/
  | done {left p s reply s'} (replied : Replied model options p s reply s')
      (h : reply.message.hasToolRequests = false) :
      Ended model tools options left p s (finish (p.use reply.usage) reply .done s')
  /-- The tool calls are left to the caller. -/
  | returned {left p s reply s'} (replied : Replied model options p s reply s')
      (h : reply.message.hasToolRequests = true) (hr : options.returnToolRequests = true) :
      Ended model tools options left p s (finish (p.use reply.usage) reply .toolRequests s')
  /-- No turn is left for the tool calls. -/
  | exceeded {p s reply s'} (replied : Replied model options p s reply s')
      (h : CallsTools options reply) :
      Ended model tools options 0 p s (exceed options s')
  /-- The run was cancelled before or during the batch. -/
  | dropped {left p s reply s' s''} (replied : Replied model options p s reply s')
      (h : CallsTools options reply)
      (batch : runBatch tools options (p.use reply.usage) reply.message s' = (s'', none)) :
      Ended model tools options (left + 1) p s (s'', .error .cancelled)
  /-- A tool call interrupted. -/
  | paused {left p s reply outcomes s' message interrupts}
      (worked : Worked model tools options p s reply outcomes s')
      (settled : Batch.settle reply.message outcomes = .paused message interrupts) :
      Ended model tools options (left + 1) p s
        (pause (p.use reply.usage) message interrupts s')

/-- Some turns and then an end. -/
inductive Course (model : Model ω) (tools : ToolLookup ω) (options : RunOptions) :
    Nat → List Turn → Progress → Session ω → Result ω → Prop
  | last {left p s r} (h : Ended model tools options left p s r) :
      Course model tools options left [] p s r
  | turn {left turn turns p s p' s' r} (h : Turned model tools options p s turn p' s')
      (rest : Course model tools options left turns p' s' r) :
      Course model tools options (left + 1) (turn :: turns) p s r

variable (model : Model ω) (tools : ToolLookup ω) (options : RunOptions)

/-- **The loop follows a course**: it takes some turns, not more than are left, and ends. -/
theorem exists_course (left : Nat) (p : Progress) (s : Session ω) :
    ∃ turns, Course model tools options left turns p s
      (Run.turns model tools options left p s) := by
  fun_induction Run.turns model tools options left p s with
  | case1 left p s _ h => exact ⟨[], .last (.cancelled h)⟩
  | case2 left p s _ h s' e asked =>
    exact ⟨[], .last (.failed (Bool.eq_false_iff.mpr h) asked)⟩
  | case3 left p s _ h s' reply asked _ _ hm =>
    exact ⟨[], .last (.done (.of_ask h asked) (by simpa using hm))⟩
  | case4 left p s _ h s' reply asked _ _ hm hr =>
    exact ⟨[], .last (.returned (.of_ask h asked) (by simpa using hm) hr)⟩
  | case5 p s _ h s' reply asked _ hm hr =>
    exact ⟨[], .last (.exceeded (.of_ask h asked) (.of_not hm hr))⟩
  | case6 p s _ h s' reply asked _ _ hm hr left s'' batch =>
    exact ⟨[], .last (.dropped (.of_ask h asked) (.of_not hm hr) batch)⟩
  | case7 p s _ h s' reply asked _ _ hm hr left s'' outcomes batch _ responses settled ih =>
    have worked := Worked.intro (.of_ask h asked) (.of_not hm hr) batch
    obtain ⟨turns, course⟩ := ih
    exact ⟨⟨reply.message, responses⟩ :: turns, .turn (.intro worked settled) course⟩
  | case8 p s _ h s' reply asked _ _ hm hr left s'' outcomes batch _ message interrupts settled =>
    have worked := Worked.intro (.of_ask h asked) (.of_not hm hr) batch
    exact ⟨[], .last (.paused worked settled)⟩

end Colloquy.Run
