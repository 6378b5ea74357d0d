import Colloquy.Proofs.Loop.Answering
import Colloquy.Proofs.Loop.Transcript
import Mathlib.Algebra.GroupWithZero.Nat

/-!
# What a run spends

Model calls and batches cost, so a run is given a number of turns.  The journal tells what it made
of them: the requests that went to the model, the batches that began, and the number of the turn in
which things happened.  The replies of the model decide when the run ends (`Decided`), and they say
what was used.

`run_budget` says what a run may spend at most, exactly when the turns fail it, and that the tool
calls that came too late were not made.
-/

namespace Colloquy

variable {ω : Type}

/-! ## Sums of usage -/

namespace Usage

/-- The sum of several usages, field by field. -/
def sum (usages : List Usage) : Usage where
  inputTokens := (usages.map inputTokens).sum
  outputTokens := (usages.map outputTokens).sum
  totalTokens := (usages.map totalTokens).sum

lemma add_sum_nil (u : Usage) : u.add (sum []) = u := by
  simp [add, sum]

lemma add_add_sum (u v : Usage) (usages : List Usage) :
    (u.add v).add (sum usages) = u.add (sum (v :: usages)) := by
  simp [add, sum, Nat.add_assoc]

end Usage

/-! ## Reading a journal -/

namespace Entry

/-- The request of a model call. -/
def request? : Entry → Option Request
  | .asked _ request => some request
  | _ => none

/-- The entry tells that a batch begins. -/
def isBatch : Entry → Bool
  | .event (.toolCallsReceived ..) => true
  | _ => false

/-- The entry tells that a tool is invoked. -/
def isInvocation : Entry → Bool
  | .invoked .. => true
  | _ => false

/-- The number of the turn in which something happened, if the entry tells it. -/
def turn? : Entry → Option Nat
  | .event (.turnStart turn ..) => some turn
  | .event (.chunk turn _) => some turn
  | .event (.modelResponse turn ..) => some turn
  | .event (.toolCallsReceived turn _) => some turn
  | .event (.finished turn) => some turn
  | _ => none

/-- The requests that went to the model, in order. -/
def requests (entries : List Entry) : List Request := entries.filterMap request?

/-- The number of batches that began. -/
def batches (entries : List Entry) : Nat := entries.countP isBatch

@[simp] lemma requests_append (first second : List Entry) :
    requests (first ++ second) = requests first ++ requests second :=
  List.filterMap_append

@[simp] lemma batches_append (first second : List Entry) :
    batches (first ++ second) = batches first + batches second :=
  List.countP_append

/-- The entry tells of no model call and of no batch, and of no turn but a given one. -/
structure Aside (turn : Nat) (e : Entry) : Prop where
  request : e.request? = none
  batch : e.isBatch = false
  turn_eq : ∀ t, e.turn? = some t → t = turn

lemma OfCall.aside {tools : ToolLookup ω} {options : CallOptions} {e : Entry}
    (h : OfCall tools options e) (turn : Nat) : Aside turn e := by
  rcases h with _ | (_ | ⟨_, _ | _ | _⟩) <;> exact ⟨rfl, rfl, fun t ht => by cases ht⟩

lemma aside_of_turn {turn : Nat} {e : Entry} (hr : e.request? = none) (hb : e.isBatch = false)
    (ht : e.turn? = some turn) : Aside turn e :=
  ⟨hr, hb, fun _ h => Option.some.inj (h.symm.trans ht)⟩

lemma requests_of_aside {turn : Nat} {entries : List Entry} (h : ∀ e ∈ entries, Aside turn e) :
    requests entries = [] :=
  List.filterMap_eq_nil_iff.mpr fun e he => (h e he).request

lemma batches_of_aside {turn : Nat} {entries : List Entry} (h : ∀ e ∈ entries, Aside turn e) :
    batches entries = 0 :=
  List.countP_eq_zero.mpr fun e he => by simp [(h e he).batch]

end Entry

namespace Run

open Entry (requests batches)

/-! ## The entries of a call -/

/-- The entries are about one model call and some batches, all in the turn of the progress. -/
structure OneCall (p : Progress) (count : Nat) (entries : List Entry) : Prop where
  requests_eq : requests entries = [p.request]
  batches_eq : batches entries = count
  turn_eq : ∀ e ∈ entries, ∀ t, e.turn? = some t → t = p.turn

section Entries

variable {model : Model ω} {tools : ToolLookup ω} {options : RunOptions} {p : Progress}
  {s s' : Session ω} {reply : Reply} {outcomes : List Outcome} {entries more : List Entry}
  {count : Nat}

lemma OneCall.append (h : OneCall p count entries) (hm : ∀ e ∈ more, Entry.Aside p.turn e) :
    OneCall p count (entries ++ more) where
  requests_eq := by
    rw [Entry.requests_append, Entry.requests_of_aside hm, List.append_nil, h.requests_eq]
  batches_eq := by
    rw [Entry.batches_append, Entry.batches_of_aside hm, Nat.add_zero, h.batches_eq]
  turn_eq e he t ht := by
    rcases List.mem_append.mp he with he | he
    · exact h.turn_eq e he t ht
    · exact (hm e he).turn_eq t ht

/-- What is noted up to the answer of a model: that it is asked, and the chunks it reports. -/
def askEntries (model : Model ω) (options : RunOptions) (p : Progress)
    (chunks : List (List Part)) : List Entry :=
  .event (.turnStart p.turn options.maxTurns p.request.messages.length) ::
    .asked model.name p.request :: (chunks.map (.chunk p.turn)).map .event

lemma aside_chunks (turn : Nat) (chunks : List (List Part)) :
    ∀ e ∈ (chunks.map (.chunk turn)).map Entry.event, Entry.Aside turn e := by
  intro e he
  obtain ⟨event, hm, rfl⟩ := List.mem_map.mp he
  obtain ⟨c, _, rfl⟩ := List.mem_map.mp hm
  exact Entry.aside_of_turn rfl rfl rfl

lemma oneCall_ask (model : Model ω) (options : RunOptions) (p : Progress)
    (chunks : List (List Part)) : OneCall p 0 (askEntries model options p chunks) := by
  have call : OneCall p 0 [.event (.turnStart p.turn options.maxTurns p.request.messages.length),
      .asked model.name p.request] := by
    refine ⟨rfl, rfl, fun e he t ht => ?_⟩
    rcases List.mem_pair.mp he with rfl | rfl
    · exact (Option.some.inj ht).symm
    · cases ht
  exact call.append (aside_chunks p.turn chunks)

lemma journal_ask (model : Model ω) (options : RunOptions) (p : Progress) (s : Session ω) :
    ∃ chunks, (ask model p (opened options p s)).1.journal =
      s.journal ++ askEntries model options p chunks := by
  refine ⟨(model.call p.request s.around).chunks, ?_⟩
  simp [ask, opened, Session.note, Session.noteEvents, askEntries]

lemma aside_replyEvents (turn : Nat) (reply : Reply) :
    ∀ e ∈ (replyEvents turn reply).map Entry.event, Entry.Aside turn e := by
  intro e he
  obtain ⟨event, hm, rfl⟩ := List.mem_map.mp he
  rcases List.mem_append.mp hm with hu | hr
  · cases h : reply.usage with
    | none => rw [h] at hu; cases hu
    | some usage =>
      rw [h] at hu
      obtain rfl := List.mem_singleton.mp hu
      exact ⟨rfl, rfl, fun t ht => by cases ht⟩
  · obtain rfl := List.mem_singleton.mp hr
    exact Entry.aside_of_turn rfl rfl rfl

/-- The model gives the reply to the request, if what surrounds it is right. -/
def Gives (model : Model ω) (request : Request) (reply : Reply) : Prop :=
  ∃ around, (model.call request around).result = .ok reply

lemma Replied.journal (h : Replied model options p s reply s') :
    Gives model p.request reply ∧ ∃ chunks, s'.journal = s.journal ++
      (askEntries model options p chunks ++ (replyEvents p.turn reply).map Entry.event) := by
  obtain ⟨_, asked, ha, rfl⟩ := h
  obtain ⟨chunks, hj⟩ := journal_ask model options p s
  have result := congrArg Prod.snd ha
  refine ⟨⟨s.around, result⟩, chunks, ?_⟩
  rw [ha] at hj
  rw [Session.noteEvents, hj, List.append_assoc]

lemma Replied.oneCall (h : Replied model options p s reply s') :
    ∃ entries, s'.journal = s.journal ++ entries ∧ OneCall p 0 entries := by
  obtain ⟨_, chunks, hj⟩ := h.journal
  exact ⟨_, hj, (oneCall_ask model options p chunks).append (aside_replyEvents p.turn reply)⟩

/-- A batch adds itself and what its calls add. -/
lemma OneCall.runBatch {result : Option (List Outcome)} (hj : s.journal = more ++ entries)
    (h : OneCall p 0 entries) (usage : Option Usage)
    (batch : runBatch tools options (p.use usage) reply.message s = (s', result)) :
    ∃ entries, s'.journal = more ++ entries ∧ OneCall p 1 entries := by
  have notes := (Batch.run_notes tools options.calls options.concurrent reply.message.toolRequests
    (s.note (.event (.toolCallsReceived (p.use usage).turn
      reply.message.toolRequests.length)))).1
  obtain ⟨calls, hc, ofCall⟩ := notes
  obtain rfl := congrArg Prod.fst batch
  have begun : OneCall p 1 (entries ++
      [.event (.toolCallsReceived p.turn reply.message.toolRequests.length)]) := by
    refine ⟨?_, ?_, fun e he t ht => ?_⟩
    · rw [Entry.requests_append, h.requests_eq]
      rfl
    · rw [Entry.batches_append, h.batches_eq]
      rfl
    · rcases List.mem_append.mp he with he | he
      · exact h.turn_eq e he t ht
      · rw [List.mem_singleton.mp he] at ht
        exact (Option.some.inj ht).symm
  refine ⟨_, ?_, begun.append fun e he => (ofCall e he).aside p.turn⟩
  rw [Run.runBatch, hc, Session.note, hj, use_turn]
  simp only [List.append_assoc]

lemma aside_results (turn : Nat) (answers : List Answer) :
    ∀ e ∈ (Batch.resultEvents answers).map Entry.event, Entry.Aside turn e := by
  intro e he
  obtain ⟨event, hm, rfl⟩ := List.mem_map.mp he
  obtain ⟨answer, _, ha⟩ := List.mem_filterMap.mp hm
  cases answer with
  | response r =>
    obtain rfl := Option.some.inj ha
    exact ⟨rfl, rfl, fun t ht => by cases ht⟩
  | interrupt metadata => cases ha

lemma Worked.oneCall (h : Worked model tools options p s reply outcomes s') :
    ∃ entries, s'.journal = s.journal ++ entries ∧ OneCall p 1 entries := by
  obtain ⟨replied, calls, batch⟩ := h
  obtain ⟨entries, hj, one⟩ := replied.oneCall
  obtain ⟨entries, hj, one⟩ := one.runBatch hj reply.usage batch
  refine ⟨_, ?_, one.append (aside_results p.turn
    (Batch.answers reply.message.toolRequests outcomes))⟩
  rw [noteResults, Session.noteEvents, hj, List.append_assoc]

end Entries

/-! ## What the replies decide -/

/-- What the replies of the model, in order, make of a run with some turns left.  A run that breaks
off for another reason may do so after any of them. -/
inductive Decided (options : RunOptions) :
    Nat → Progress → List Reply → Except RunError Response → Prop
  /-- The run broke off, but not for the limit. -/
  | broken {left p replies e} (h : ∀ n, e ≠ .turnLimitExceeded n) :
      Decided options left p replies (.error e)
  | done {left p reply} (h : reply.message.hasToolRequests = false) :
      Decided options left p [reply]
        (.ok ((p.use reply.usage).response reply.message reply.finishReason .done []))
  | returned {left p reply} (hr : options.returnToolRequests = true) :
      Decided options left p [reply]
        (.ok ((p.use reply.usage).response reply.message reply.finishReason .toolRequests []))
  | exceeded {p reply} (h : CallsTools options reply) :
      Decided options 0 p [reply] (.error (.turnLimitExceeded options.maxTurns))
  | paused {left p reply message interrupts} (h : CallsTools options reply) :
      Decided options (left + 1) p [reply]
        (.ok ((p.use reply.usage).response message .interrupted .interrupted interrupts))
  | turn {left p reply responses replies result} (h : CallsTools options reply)
      (rest : Decided options left ((p.use reply.usage).advance reply.message responses) replies
        result) :
      Decided options (left + 1) p (reply :: replies) result

/-- The run was not cancelled, neither resumption nor the model failed, and no call interrupted. -/
def Unhindered : Except RunError Response → Prop
  | .ok r => r.state ≠ .interrupted
  | .error e => ∃ n, e = .turnLimitExceeded n

section Decisions

variable {options : RunOptions} {left : Nat} {p : Progress} {replies : List Reply}
  {result : Except RunError Response}

lemma advance_turn (p : Progress) (answer : Message) (responses : List ToolResponse) :
    (p.advance answer responses).turn = p.turn + 1 :=
  rfl

lemma add_usages (p : Progress) (reply : Reply) (replies : List Reply) :
    (p.use reply.usage).usage.add (Usage.sum (replies.filterMap Reply.usage)) =
      p.usage.add (Usage.sum ((reply :: replies).filterMap Reply.usage)) := by
  cases h : reply.usage with
  | none =>
    rw [List.filterMap_cons_none h]
    rfl
  | some u =>
    rw [List.filterMap_cons_some h]
    exact Usage.add_add_sum p.usage u _

lemma usage_single (p : Progress) (reply : Reply) :
    (p.use reply.usage).usage = p.usage.add (Usage.sum ([reply].filterMap Reply.usage)) := by
  rw [← add_usages p reply [], List.filterMap_nil, Usage.add_sum_nil]

/-- The usage of a response is what was used before with the usages of all replies. -/
lemma Decided.usage (h : Decided options left p replies result) {r : Response}
    (hr : result = .ok r) : r.usage = p.usage.add (Usage.sum (replies.filterMap Reply.usage)) := by
  induction h with
  | broken h => cases hr
  | exceeded h => cases hr
  | done h =>
    obtain rfl := Except.ok.inj hr
    exact usage_single _ _
  | returned hr' =>
    obtain rfl := Except.ok.inj hr
    exact usage_single _ _
  | paused h =>
    obtain rfl := Except.ok.inj hr
    exact usage_single _ _
  | turn h rest ih =>
    rw [ih hr]
    exact add_usages _ _ _

/-- Every reply asks for tool calls, and there is one more than turns were left. -/
structure Spent (left : Nat) (replies : List Reply) : Prop where
  length_eq : replies.length = left + 1
  asks : ∀ q ∈ replies, q.message.hasToolRequests = true

/-- The run ended with a reply that asks for no tool calls, the first such one. -/
structure Concludes (turn : Nat) (replies : List Reply) (r : Response) : Prop where
  state : r.state = .done
  first : ∃ earlier last, replies = earlier ++ [last] ∧
    (∀ q ∈ earlier, q.message.hasToolRequests = true) ∧ last.message.hasToolRequests = false ∧
    r.message = last.message ∧ r.turns = turn + earlier.length

/-- A run that makes its tool calls itself and is not hindered either spends its turns or ends with
the first reply that asks for no tool calls. -/
lemma Decided.unhindered (h : Decided options left p replies result)
    (hr : options.returnToolRequests = false) (hu : Unhindered result) :
    (result = .error (.turnLimitExceeded options.maxTurns) ∧ Spent left replies) ∨
      ∃ r, result = .ok r ∧ Concludes p.turn replies r := by
  induction h with
  | broken h =>
    obtain ⟨n, hn⟩ := hu
    exact absurd hn (h n)
  | @done _ p reply h =>
    refine .inr ⟨_, rfl, rfl, [], reply, rfl, ?_, h, rfl, ?_⟩
    · exact fun q hq => absurd hq List.not_mem_nil
    · rw [Progress.response, use_turn]
      rfl
  | returned hr' => exact absurd (hr.symm.trans hr') Bool.false_ne_true
  | exceeded h => exact .inl ⟨rfl, rfl, by simpa using h.1⟩
  | paused h => exact absurd rfl hu
  | @turn _ p reply responses replies _ h rest ih =>
    rcases ih hu with ⟨he, spent⟩ | ⟨r, he, state, earlier, last, rfl, asks, silent, hm, ht⟩
    · refine .inl ⟨he, by rw [List.length_cons, spent.length_eq], ?_⟩
      exact List.forall_mem_cons.mpr ⟨h.1, spent.asks⟩
    · refine .inr ⟨r, he, state, reply :: earlier, last, rfl, ?_, silent, hm, ?_⟩
      · exact List.forall_mem_cons.mpr ⟨h.1, asks⟩
      · rw [ht, advance_turn, use_turn, List.length_cons]
        omega

/-- A run that leaves the tool calls to its caller does not fail for the limit. -/
lemma Decided.of_return (h : Decided options left p replies result)
    (hr : options.returnToolRequests = true) (n : Nat) : result ≠ .error (.turnLimitExceeded n) := by
  cases h with
  | broken h => exact fun he => h n (Except.error.inj he)
  | exceeded h => exact absurd (h.2.symm.trans hr) Bool.false_ne_true
  | turn h rest => exact absurd (h.2.symm.trans hr) Bool.false_ne_true
  | _ => exact fun he => by cases he

end Decisions

/-! ## What a loop spends -/

/-- The replies are those of the model to the requests, in order.  Only to the last request there may
be no reply, and then the model has failed, and the run with it. -/
inductive Answered (model : Model ω) :
    List Request → List Reply → Except RunError Response → Prop
  | nil {result} : Answered model [] [] result
  | failed {request around e} (h : (model.call request around).result = .error e) :
      Answered model [request] [] (.error (.model e))
  | cons {request reply requests replies result} (h : Gives model request reply)
      (rest : Answered model requests replies result) :
      Answered model (request :: requests) (reply :: replies) result

/-- No tool is invoked after the last call of the model. -/
def Withheld (model : Model ω) (entries : List Entry) : Prop :=
  ∃ before request after, entries = before ++ .asked model.name request :: after ∧
    ∀ e ∈ after, e.request? = none ∧ e.isInvocation = false

/-- What a loop does with the turns that are left: `entries` is what it adds to the journal, and
`replies` are those of the model. -/
structure Spends (model : Model ω) (options : RunOptions) (left : Nat) (p : Progress)
    (entries : List Entry) (replies : List Reply) (result : Except RunError Response) : Prop where
  requests_le : (requests entries).length ≤ left + 1
  batches_le : batches entries ≤ left
  turn_le : ∀ e ∈ entries, ∀ t, e.turn? = some t → t ≤ p.turn + left
  answered : Answered model (requests entries) replies result
  decided : Decided options left p replies result
  /-- When the limit fails the loop, the tool calls of the last reply are not made. -/
  withheld : ∀ n, result = .error (.turnLimitExceeded n) → Withheld model entries
  /-- When the tool calls are left to the caller, there is one call and no batch. -/
  returned : options.returnToolRequests = true →
    (requests entries).length ≤ 1 ∧ batches entries = 0

section Spending

variable {model : Model ω} {tools : ToolLookup ω} {options : RunOptions} {p p' : Progress}
  {s s' : Session ω} {left : Nat} {entries : List Entry} {result : Except RunError Response}

/-- An end with one model call that was answered. -/
lemma OneCall.spends {count : Nat} {reply : Reply} (one : OneCall p count entries)
    (hc : count ≤ left) (gives : Gives model p.request reply)
    (decided : Decided options left p [reply] result)
    (withheld : ∀ n, result = .error (.turnLimitExceeded n) → Withheld model entries)
    (returned : options.returnToolRequests = true → count = 0) :
    Spends model options left p entries [reply] result where
  requests_le := by
    rw [one.requests_eq, List.length_singleton]
    omega
  batches_le := by rwa [one.batches_eq]
  turn_le e he t ht := by
    have := one.turn_eq e he t ht
    omega
  answered := by
    rw [one.requests_eq]
    exact .cons gives .nil
  decided := decided
  withheld := withheld
  returned hr := ⟨by rw [one.requests_eq]; exact Nat.le_refl 1, by rw [one.batches_eq, returned hr]⟩

/-- A loop that finishes has made one model call and no batch. -/
lemma Replied.spends {reply : Reply} {state : RunState}
    (replied : Replied model options p s reply s')
    (decided : Decided options left p [reply] (finish (p.use reply.usage) reply state s').2) :
    ∃ entries, (finish (p.use reply.usage) reply state s').1.journal = s.journal ++ entries ∧
      Spends model options left p entries [reply] (finish (p.use reply.usage) reply state s').2 := by
  obtain ⟨entries, hj, one⟩ := replied.oneCall
  have ended : OneCall p 0 (entries ++ [.event (.finished p.turn)]) := one.append fun e he => by
    rw [List.mem_singleton.mp he]
    exact Entry.aside_of_turn rfl rfl rfl
  refine ⟨_, ?_, ended.spends (Nat.zero_le left) replied.journal.1 decided
    (fun n hn => by cases hn) fun _ => rfl⟩
  rw [finish, Session.note, hj, use_turn, List.append_assoc]

/-- What is noted when no turn is left. -/
def limitEntries (options : RunOptions) : List Entry :=
  [.warning (.turnLimitExceeded options.maxTurns), .event (.turnLimitReached options.maxTurns)]

lemma quiet_limitEntries (options : RunOptions) (turn : Nat) :
    ∀ e ∈ limitEntries options, Entry.Aside turn e ∧ e.isInvocation = false := by
  intro e he
  rcases List.mem_pair.mp he with rfl | rfl
  · exact ⟨⟨rfl, rfl, fun t ht => by cases ht⟩, rfl⟩
  · exact ⟨⟨rfl, rfl, fun t ht => by cases ht⟩, rfl⟩

/-- Events are no invocations. -/
lemma isInvocation_events (events : List Event) :
    ∀ e ∈ events.map Entry.event, e.isInvocation = false := by
  intro e he
  obtain ⟨_, _, rfl⟩ := List.mem_map.mp he
  rfl

/-- When the limit fails a loop, the model was called once more and no tool after that. -/
lemma Replied.exceeds {reply : Reply} (replied : Replied model options p s reply s')
    (h : CallsTools options reply) :
    ∃ entries, (exceed options s').1.journal = s.journal ++ entries ∧
      Spends model options 0 p entries [reply] (exceed options s').2 := by
  obtain ⟨gives, chunks, hj⟩ := replied.journal
  have limit := quiet_limitEntries options p.turn
  have one := ((oneCall_ask model options p chunks).append
    (aside_replyEvents p.turn reply)).append fun e he => (limit e he).1
  refine ⟨_, ?_, one.spends (Nat.le_refl 0) gives (.exceeded h) (fun n _ => ?_) fun _ => rfl⟩
  · rw [exceed, Session.note, Session.note, hj, limitEntries, List.append_assoc, List.append_assoc]
    rfl
  · refine ⟨[.event (.turnStart p.turn options.maxTurns p.request.messages.length)], p.request,
      _, rfl, fun e he => ?_⟩
    rcases List.mem_append.mp he with he | he
    · rcases List.mem_append.mp he with he | he
      · exact ⟨(aside_chunks p.turn chunks e he).request, isInvocation_events _ e he⟩
      · exact ⟨(aside_replyEvents p.turn reply e he).request, isInvocation_events _ e he⟩
    · exact ⟨(limit e he).1.request, (limit e he).2⟩

/-- What a loop spends that takes no further turn. -/
lemma Ended.spends {r : Result ω} (h : Ended model tools options left p s r) :
    ∃ entries replies, r.1.journal = s.journal ++ entries ∧
      Spends model options left p entries replies r.2 := by
  cases h with
  | cancelled h =>
    refine ⟨[.event (.turnStart p.turn options.maxTurns p.request.messages.length)], [], rfl, ?_⟩
    refine ⟨Nat.zero_le _, Nat.zero_le _, fun e he t ht => ?_, .nil,
      .broken fun n hn => (by cases hn), fun n hn => (by cases hn), fun _ => ⟨Nat.zero_le _, rfl⟩⟩
    rw [List.mem_singleton.mp he] at ht
    obtain rfl := Option.some.inj ht
    exact Nat.le_add_right _ _
  | @failed _ _ _ s' error h asked =>
    obtain ⟨chunks, hj⟩ := journal_ask model options p s
    have one := oneCall_ask model options p chunks
    have result : (model.call p.request s.around).result = .error error := congrArg Prod.snd asked
    rw [asked] at hj
    refine ⟨_, [], hj, ?_, ?_, fun e he t ht => ?_, ?_, .broken fun n hn => (by cases hn),
      fun n hn => (by cases hn), fun _ => ?_⟩
    · rw [one.requests_eq, List.length_singleton]
      omega
    · rw [one.batches_eq]
      exact Nat.zero_le left
    · rw [one.turn_eq e he t ht]
      exact Nat.le_add_right _ _
    · rw [one.requests_eq]
      exact .failed result
    · rw [one.requests_eq, one.batches_eq]
      exact ⟨Nat.le_refl 1, rfl⟩
  | @done _ _ _ reply s' replied h =>
    obtain ⟨entries, hj, spends⟩ := replied.spends (.done h)
    exact ⟨entries, [reply], hj, spends⟩
  | @returned _ _ _ reply s' replied h hr =>
    obtain ⟨entries, hj, spends⟩ := replied.spends (.returned hr)
    exact ⟨entries, [reply], hj, spends⟩
  | @exceeded _ _ reply s' replied h =>
    obtain ⟨entries, hj, spends⟩ := replied.exceeds h
    exact ⟨entries, [reply], hj, spends⟩
  | @dropped left _ _ reply s' s'' replied h batch =>
    obtain ⟨entries, hj, one⟩ := replied.oneCall
    obtain ⟨entries, hj, one⟩ := one.runBatch hj reply.usage batch
    exact ⟨_, [reply], hj, one.spends (Nat.succ_le_succ (Nat.zero_le left)) replied.journal.1
      (.broken fun n hn => by cases hn) (fun n hn => by cases hn)
      fun hr => absurd (h.2.symm.trans hr) Bool.false_ne_true⟩
  | @paused left _ _ reply outcomes s' message interrupts worked settled =>
    obtain ⟨entries, hj, one⟩ := worked.oneCall
    obtain ⟨t, replied, h⟩ := worked.replied
    have ended : OneCall p 1 (entries ++ [.event (.interrupted interrupts)]) := one.append (by
      simp only [List.mem_singleton, forall_eq]
      exact ⟨rfl, rfl, fun t ht => by cases ht⟩)
    refine ⟨_, [reply], ?_, ended.spends (Nat.succ_le_succ (Nat.zero_le left)) replied.journal.1
      (.paused h) (fun n hn => by cases hn)
      fun hr => absurd (h.2.symm.trans hr) Bool.false_ne_true⟩
    rw [pause, Session.note, hj, List.append_assoc]

/-- **What a loop spends**, by induction on its course: a turn is one call and one batch, and it
leaves one turn less. -/
lemma Course.spends {turns : List Turn} {r : Result ω}
    (h : Course model tools options left turns p s r) :
    ∃ entries replies, r.1.journal = s.journal ++ entries ∧
      Spends model options left p entries replies r.2 := by
  induction h with
  | last h => exact h.spends
  | @turn left turn turns p s p' s' r h rest ih =>
    obtain ⟨entries, replies, hj, spends⟩ := ih
    cases h with
    | @intro reply outcomes responses _ worked settled =>
      obtain ⟨first, hf, one⟩ := worked.oneCall
      obtain ⟨t, replied, calls⟩ := worked.replied
      refine ⟨first ++ entries, reply :: replies, by rw [hj, hf, List.append_assoc], ?_⟩
      refine ⟨?_, ?_, fun e he t ht => ?_, ?_, .turn calls spends.decided, fun n hn => ?_,
        fun hr => absurd (calls.2.symm.trans hr) Bool.false_ne_true⟩
      · have := spends.requests_le
        rw [Entry.requests_append, one.requests_eq, List.length_append, List.length_singleton]
        omega
      · have := spends.batches_le
        rw [Entry.batches_append, one.batches_eq]
        omega
      · rcases List.mem_append.mp he with he | he
        · rw [one.turn_eq e he t ht]
          exact Nat.le_add_right _ _
        · have := spends.turn_le e he t ht
          rw [advance_turn, use_turn] at this
          omega
      · rw [Entry.requests_append, one.requests_eq]
        exact .cons replied.journal.1 spends.answered
      · obtain ⟨before, request, after, rfl, quiet⟩ := spends.withheld n hn
        exact ⟨first ++ before, request, after, by rw [List.append_assoc], quiet⟩

/-- What happens before the loop, if it is no model call and no batch, is not spent. -/
lemma Spends.prepend {before : List Entry} {replies : List Reply}
    (h : Spends model options left p entries replies result)
    (hb : ∀ e ∈ before, Entry.Aside p.turn e) :
    Spends model options left p (before ++ entries) replies result := by
  have requests_eq : requests (before ++ entries) = requests entries := by
    rw [Entry.requests_append, Entry.requests_of_aside hb, List.nil_append]
  have batches_eq : batches (before ++ entries) = batches entries := by
    rw [Entry.batches_append, Entry.batches_of_aside hb, Nat.zero_add]
  refine ⟨?_, ?_, fun e he t ht => ?_, ?_, h.decided, fun n hn => ?_, ?_⟩
  · rw [requests_eq]
    exact h.requests_le
  · rw [batches_eq]
    exact h.batches_le
  · rcases List.mem_append.mp he with he | he
    · rw [(hb e he).turn_eq t ht]
      exact Nat.le_add_right _ _
    · exact h.turn_le e he t ht
  · rw [requests_eq]
    exact h.answered
  · obtain ⟨first, request, after, rfl, quiet⟩ := h.withheld n hn
    exact ⟨before ++ first, request, after, by rw [List.append_assoc], quiet⟩
  · rw [requests_eq, batches_eq]
    exact h.returned

end Spending

/-! ## Resumption -/

section Resumption

variable (tools : ToolLookup ω) (options : CallOptions)

/-- A call that is made again fails the run in ways of its own. -/
lemma follow_error {s : Session ω} {r : ToolRequest} {d : Directive} {e : RunError}
    (h : (Resume.follow tools options s r d).2 = .error e) (n : Nat) :
    e ≠ .turnLimitExceeded n := by
  rintro rfl
  cases d with
  | respond name reference output => cases h
  | restart name reference input resumed =>
    rw [Resume.follow] at h
    split at h
    · cases h
    · dsimp only at h
      split at h
      · cases h
      · rename_i outcome _
        cases outcome <;> cases h

lemma stops_error {stage : Resume.Stage ω} {s : Session ω} {e : RunError}
    (h : stage.Stops tools options s e) (n : Nat) : e ≠ .turnLimitExceeded n := by
  cases h with
  | unresolved bare => exact fun he => by cases he
  | unfollowed bare followed => exact follow_error tools options (congrArg Prod.snd followed) n

/-- Whatever resumption fails for, it is not the limit. -/
lemma resume_error {options : RunOptions} {directives : List Directive} {request : Request}
    {s : Session ω} {e : RunError}
    (h : (Run.resume tools options directives request s).2 = .error e) (n : Nat) :
    e ≠ .turnLimitExceeded n := by
  have refused := (resume_eq_error (Prod.ext rfl h)).2
  rcases Resume.apply_eq_error refused with ⟨_, _, rfl⟩ | ⟨last, _, hp⟩
  · exact fun he => by cases he
  · obtain ⟨before, r, taken, left, -, -, stops⟩ := Resume.answerParts_stops hp
    exact stops_error tools options.calls stops n

/-- Resumption makes no model call and no batch. -/
lemma resume_aside (options : RunOptions) (directives : List Directive) (request : Request)
    (s : Session ω) (turn : Nat) :
    ∃ entries,
      (Run.resume tools options directives request s).1.journal = s.journal ++ entries ∧
      ∀ e ∈ entries, Entry.Aside turn e := by
  obtain ⟨entries, hj, ofTools⟩ := Resume.apply_notes tools options.calls request.messages
    directives s
  have aside : ∀ e ∈ entries, Entry.Aside turn e :=
    fun e he => (Entry.OfCall.ofTools (ofTools e he)).aside turn
  rcases h : Run.resume tools options directives request s with ⟨s', e | first⟩
  · rw [(resume_eq_error h).2] at hj
    exact ⟨entries, hj, aside⟩
  · rcases resume_eq_ok h with ⟨_, rfl, _⟩ | ⟨_, _, n, s'', ha, rfl, _⟩
    · exact ⟨[], (List.append_nil _).symm, fun e he => absurd he List.not_mem_nil⟩
    · rw [ha] at hj
      refine ⟨entries ++ [.event (.resumed n)], ?_, List.forall_mem_append.mpr ⟨aside, ?_⟩⟩
      · rw [Session.note, hj, List.append_assoc]
      · rintro e he
        rw [List.mem_singleton.mp he]
        exact ⟨rfl, rfl, fun t ht => by cases ht⟩

end Resumption

/-! ## Whole runs -/

/-- **What a run spends, and when its turns fail it.**  `entries` is what the run adds to the journal,
and `replies` are those of the model. -/
structure Budget (model : Model ω) (options : RunOptions) (entries : List Entry)
    (replies : List Reply) (result : Except RunError Response) : Prop where
  /-- There is at most one model call more than turns are allowed. -/
  requests_le : (requests entries).length ≤ options.maxTurns + 1
  /-- There are at most as many batches as turns are allowed. -/
  batches_le : batches entries ≤ options.maxTurns
  /-- Turns are never counted beyond those that are allowed, so a counter that can hold that number
  does not overflow. -/
  turn_le : ∀ e ∈ entries, ∀ t, e.turn? = some t → t ≤ options.maxTurns
  /-- The replies are those to the model calls. -/
  answered : Answered model (requests entries) replies result
  /-- The limit fails a run that makes its tool calls exactly if each of the replies that may come
  asks for tool calls. -/
  exceeds : options.returnToolRequests = false → Unhindered result →
    (result = .error (.turnLimitExceeded options.maxTurns) ↔ Spent options.maxTurns replies)
  /-- The tool calls of the last reply are not made then. -/
  withheld : result = .error (.turnLimitExceeded options.maxTurns) → Withheld model entries
  /-- Otherwise the run ends with the first reply that asks for no tool calls. -/
  concludes : options.returnToolRequests = false → Unhindered result →
    result ≠ .error (.turnLimitExceeded options.maxTurns) →
    ∃ r, result = .ok r ∧ Concludes 0 replies r
  /-- A run that leaves the tool calls to its caller makes one model call at most and no batch, and
  the limit is nothing to it. -/
  returned : options.returnToolRequests = true → (requests entries).length ≤ 1 ∧
    batches entries = 0 ∧ ∀ n, result ≠ .error (.turnLimitExceeded n)
  /-- A response has the usages of all model calls together. -/
  usage : ∀ r, result = .ok r → replies.length = (requests entries).length ∧
    r.usage = Usage.sum (replies.filterMap Reply.usage)

lemma Answered.length_eq {model : Model ω} {requests : List Request} {replies : List Reply}
    {result : Except RunError Response} (h : Answered model requests replies result)
    {r : Response} (hr : result = .ok r) : replies.length = requests.length := by
  induction h with
  | nil => rfl
  | failed h => cases hr
  | cons h rest ih => rw [List.length_cons, List.length_cons, ih hr]

lemma Spends.budget {model : Model ω} {options : RunOptions} {first : Request}
    {entries : List Entry} {replies : List Reply} {result : Except RunError Response}
    (h : Spends model options options.maxTurns ⟨first, {}, 0⟩ entries replies result) :
    Budget model options entries replies result where
  requests_le := h.requests_le
  batches_le := h.batches_le
  turn_le e he t ht := by
    have := h.turn_le e he t ht
    rwa [Nat.zero_add] at this
  answered := h.answered
  exceeds hr hu := by
    rcases h.decided.unhindered hr hu with ⟨he, spent⟩ | ⟨r, he, concludes⟩
    · exact ⟨fun _ => spent, fun _ => he⟩
    · refine ⟨fun hn => (by cases he.symm.trans hn), fun spent => ?_⟩
      obtain ⟨earlier, last, rfl, _, silent, _⟩ := concludes.first
      have asks := spent.asks last (List.mem_append_right _ List.mem_cons_self)
      exact absurd (silent.symm.trans asks) Bool.false_ne_true
  withheld := h.withheld _
  concludes hr hu hn := by
    rcases h.decided.unhindered hr hu with ⟨he, _⟩ | concludes
    · exact absurd he hn
    · exact concludes
  returned hr := ⟨(h.returned hr).1, (h.returned hr).2, h.decided.of_return hr⟩
  usage r hr := by
    refine ⟨h.answered.length_eq hr, ?_⟩
    rw [h.decided.usage hr]
    simp [Usage.add]

end Run

end Colloquy
