import Colloquy.Proofs.Loop.Matching
import Colloquy.Proofs.Loop.Settle

/-!
# Resumption, request by request

Whether a transcript is taken up can be told request by request.  A request is ready when it carries
an output or has a directive, and a directive to make the call again is one for a tool that is known
and now comes to an outcome without an interrupt (`Stage.Ready`).  What such a call comes to depends
on the calls made before it, so every request is looked at in the session that it meets (`stages`).

`answerParts_closes` says what becomes of a message whose requests are all answered, and
`answerParts_stops` where it ends otherwise.  `apply_matches` is what comes of this for a
transcript.  A call that is made again can also be broken off because the run was cancelled, and
`apply_cancelled` is such a resumption: each request has an output or a directive, and the tool
would not interrupt.
-/

namespace Colloquy

variable {ω : Type}

namespace Directive

/-- The input that a directive brings for the call. -/
def input? : Directive → Option Json
  | respond .. => none
  | restart _ _ input _ => input

end Directive

namespace Resume

/-! ## Requests in turn -/

/-- Makes the call of a request again, unless the run is cancelled before or while it waits. -/
def callAgain (options : CallOptions) (tool : Tool ω) (r : ToolRequest)
    (input resumed : Option Json) : Activity (Session ω) (Option Outcome) :=
  Activity.guarded (fun s => s.around.cancelled)
    (tool.run options ⟨r.reference, resumed⟩ (input.getD r.input))

/-- A request whose turn has come, with the session that it meets and the directive that it
takes. -/
structure Stage (ω : Type) where
  session : Session ω
  request : ToolRequest
  directive : Option Directive

section

variable (tools : ToolLookup ω) (options : CallOptions)

/-- The session after a request was answered that takes a certain directive. -/
def after (s : Session ω) : ToolRequest × Option Directive → Session ω
  | (_, none) => s
  | (r, some d) => (follow tools options s r d).1

/-- The requests of a plan, each when its turn has come. -/
def stages : List (ToolRequest × Option Directive) → Session ω → List (Stage ω)
  | [], _ => []
  | (r, taken) :: plan, s => ⟨s, r, taken⟩ :: stages plan (after tools options s (r, taken))

namespace Stage

/-- The request can be answered. -/
structure Ready (stage : Stage ω) : Prop where
  /-- It carries an output, or there is a directive for it. -/
  matched : stage.request.pendingOutput.isSome ∨ stage.directive.isSome
  /-- If the call is to be made again, its tool is known, and the call comes to an outcome that is
  no interrupt. -/
  restarted : ∀ name reference input resumed,
    stage.directive = some (.restart name reference input resumed) →
      ∃ tool outcome, tools name = some tool ∧
        ((callAgain options tool stage.request input resumed).run stage.session).2 = some outcome ∧
        ∀ metadata, outcome ≠ .interrupt metadata

/-- The output with which the request is answered: the one that it carries, or the one that the
directive gives, or what the call comes to that is made again. -/
def output? : Stage ω → Option Json
  | ⟨_, r, none⟩ => r.pendingOutput
  | ⟨_, _, some (.respond _ _ output)⟩ => some output
  | ⟨s, r, some (.restart name _ input resumed)⟩ =>
    (tools name).bind fun tool => ((callAgain options tool r input resumed).run s).2.bind
      Outcome.output?

/-- Resumption stops at the request, with a session and for a reason. -/
inductive Stops : Stage ω → Session ω → RunError → Prop
  | unresolved {s r} (bare : r.pendingOutput = none) :
      Stops ⟨s, r, none⟩ s (.unresolvedInterrupt r.name r.reference)
  | unfollowed {s s' r d e} (bare : r.pendingOutput = none)
      (h : follow tools options s r d = (s', .error e)) : Stops ⟨s, r, some d⟩ s' e

end Stage

end

/-- A request after it was answered, given the directive that it took, if it took one. -/
def closed : ToolRequest × Option Directive → ToolRequest
  | (r, none) => { r with pendingOutput := none }
  | (r, some d) =>
    { r with
      input := d.input?.getD r.input
      interrupt := none
      pendingOutput := none
      resolvedInterrupt := r.interrupt.or r.resolvedInterrupt }

section

variable {tools : ToolLookup ω} {options : CallOptions} {s s' : Session ω} {r q : ToolRequest}
  {d : Directive} {response : ToolResponse} {directives rest : List Directive} {e : RunError}

lemma stages_append (before plan : List (ToolRequest × Option Directive)) (s : Session ω) :
    stages tools options (before ++ plan) s =
      stages tools options before s ++
        stages tools options plan (before.foldl (after tools options) s) := by
  induction before generalizing s with
  | nil => rfl
  | cons q before ih => exact congrArg (_ :: ·) (ih _)

lemma map_stages (plan : List (ToolRequest × Option Directive)) (s : Session ω) :
    (stages tools options plan s).map (fun stage => (stage.request, stage.directive)) = plan := by
  induction plan generalizing s with
  | nil => rfl
  | cons q plan ih => exact congrArg (q :: ·) (ih _)

/-! ### Following a directive -/

lemma follow_unknown {name : String} (unknown : tools name = none) (reference : Option String)
    (input resumed : Option Json) (s : Session ω) (r : ToolRequest) :
    follow tools options s r (.restart name reference input resumed) =
      (s, .error (.unknownRestartTool name)) := by
  rw [follow, unknown]

lemma follow_known {tool : Tool ω} {name : String} (found : tools name = some tool)
    (reference : Option String) (input resumed : Option Json) (s : Session ω) (r : ToolRequest) :
    follow tools options s r (.restart name reference input resumed) =
      (((callAgain options tool r input resumed).run s).1,
        match ((callAgain options tool r input resumed).run s).2 with
        | none => .error .cancelled
        | some outcome => (restarted r outcome).map fun response =>
            ({ r with input := input.getD r.input }, response)) := by
  rw [follow, found, callAgain]
  dsimp only
  split
  · rename_i broken
    rw [broken]
  · rename_i outcome came
    rw [came]
    cases outcome <;> rfl

lemma Stage.output?_restart {tool : Tool ω} {name : String} (found : tools name = some tool)
    (reference : Option String) (input resumed : Option Json) (s : Session ω) (r : ToolRequest) :
    output? tools options ⟨s, r, some (.restart name reference input resumed)⟩ =
      ((callAgain options tool r input resumed).run s).2.bind Outcome.output? := by
  rw [output?, found, Option.bind_some]

/-- A request is ready exactly if there is an output with which it is answered. -/
lemma Stage.ready_iff {stage : Stage ω} :
    stage.Ready tools options ↔ (stage.output? tools options).isSome := by
  obtain ⟨s, r, _ | d⟩ := stage
  · refine ⟨fun h => h.matched.resolve_right Bool.false_ne_true, fun h => ⟨.inl h, ?_⟩⟩
    intro _ _ _ _ none
    cases none
  · cases d with
    | respond name reference output =>
      refine ⟨fun _ => rfl, fun _ => ⟨.inr rfl, ?_⟩⟩
      intro _ _ _ _ given
      cases given
    | restart name reference input resumed =>
      constructor
      · intro h
        obtain ⟨tool, outcome, found, came, other⟩ := h.restarted name reference input resumed rfl
        rw [output?_restart found, came, Option.bind_some]
        cases outcome with
        | interrupt metadata => exact absurd rfl (other metadata)
        | _ => rfl
      · intro h
        refine ⟨.inr rfl, ?_⟩
        rintro _ _ _ _ ⟨⟩
        obtain ⟨output, told⟩ := Option.isSome_iff_exists.mp h
        obtain ⟨tool, found, told⟩ := Option.bind_eq_some_iff.mp told
        obtain ⟨outcome, came, told⟩ := Option.bind_eq_some_iff.mp told
        refine ⟨tool, outcome, found, came, ?_⟩
        rintro metadata rfl
        cases told

/-- A directive that was followed gave the request its input and answered it. -/
lemma follow_answers (h : follow tools options s r d = (s', .ok (q, response))) :
    q = { r with input := d.input?.getD r.input } ∧ response.Answers r ∧
      Stage.output? tools options ⟨s, r, some d⟩ = some response.output := by
  cases d with
  | respond name reference output =>
    obtain ⟨rfl, rfl⟩ := Prod.mk.inj (Except.ok.inj (congrArg Prod.snd h))
    exact ⟨rfl, ⟨rfl, rfl⟩, rfl⟩
  | restart name reference input resumed =>
    rcases found : tools name with _ | tool
    · rw [follow_unknown found] at h
      cases congrArg Prod.snd h
    · rw [follow_known found] at h
      have answered := congrArg Prod.snd h
      dsimp only at answered
      split at answered
      · cases answered
      · rename_i outcome came
        rw [Stage.output?_restart found, came, Option.bind_some]
        cases outcome with
        | interrupt metadata => cases answered
        | _ =>
          obtain ⟨rfl, rfl⟩ := Prod.mk.inj (Except.ok.inj answered)
          exact ⟨rfl, ⟨rfl, rfl⟩, rfl⟩

/-- A directive that was not followed gave no output. -/
lemma follow_stops (h : follow tools options s r d = (s', .error e)) :
    Stage.output? tools options ⟨s, r, some d⟩ = none := by
  cases d with
  | respond name reference output => cases congrArg Prod.snd h
  | restart name reference input resumed =>
    rcases found : tools name with _ | tool
    · rw [Stage.output?, found, Option.bind_none]
    · rw [follow_known found] at h
      rw [Stage.output?_restart found]
      have failed := congrArg Prod.snd h
      dsimp only at failed
      split at failed
      · rename_i broken
        rw [broken, Option.bind_none]
      · rename_i outcome came
        rw [came, Option.bind_some]
        cases outcome with
        | interrupt metadata => rfl
        | _ => cases failed

/-- Where resumption stops there is no output. -/
lemma Stage.Stops.output?_eq_none {stage : Stage ω} (h : stage.Stops tools options s' e) :
    stage.output? tools options = none := by
  cases h with
  | unresolved bare => exact bare
  | unfollowed bare h => exact follow_stops h

/-! ### Answering a request -/

/-- What became of a request that was answered. -/
structure Closes (tools : ToolLookup ω) (options : CallOptions) (s : Session ω) (r : ToolRequest)
    (directives : List Directive) (s' : Session ω) (q : ToolRequest) (response : ToolResponse)
    (rest : List Directive) (taken : Option Directive) : Prop where
  planned : ∀ requests, plan (r :: requests) directives = (r, taken) :: plan requests rest
  gone : directives.Perm (taken.toList ++ rest)
  left : rest.Sublist directives
  session : s' = after tools options s (r, taken)
  request : q = closed (r, taken)
  answers : response.Answers r
  output : Stage.output? tools options ⟨s, r, taken⟩ = some response.output

lemma resolve_eq (r : ToolRequest) :
    resolve r =
      { r with interrupt := none, resolvedInterrupt := r.interrupt.or r.resolvedInterrupt } := by
  obtain ⟨_, _, _, _ | metadata, _, _⟩ := r <;> rfl

/-- A request that is answered takes the directive that is planned for it. -/
lemma answerRequest_closes
    (h : answerRequest tools options s r directives = (s', .ok (q, response, rest))) :
    ∃ taken, Closes tools options s r directives s' q response rest taken := by
  rcases answerRequest_eq_ok h with
    ⟨output, carried, rfl, rfl, rfl, rfl⟩ | ⟨bare, d, q', taken, followed, rfl⟩
  · exact ⟨none, {
      planned requests := by simp only [plan, carried]
      gone := List.Perm.refl _
      left := List.Sublist.refl _
      session := rfl
      request := rfl
      answers := ⟨rfl, rfl⟩
      output := carried }⟩
  · obtain ⟨rfl, answers, output⟩ := follow_answers followed
    obtain ⟨front, back, rfl, rfl, -, -⟩ := Directive.take?_eq_some taken
    exact ⟨some d, {
      planned requests := by simp only [plan, bare, taken]
      gone := List.perm_middle
      left := (List.sublist_cons_self d back).append_left front
      session := (congrArg Prod.fst followed).symm
      request := by rw [resolve_eq, closed, ← bare]
      answers := answers
      output := output }⟩

/-- So does one that is not, and resumption stops there. -/
lemma answerRequest_stops (h : answerRequest tools options s r directives = (s', .error e)) :
    ∃ taken, (∀ requests, ∃ left, plan (r :: requests) directives = (r, taken) :: left) ∧
      (⟨s, r, taken⟩ : Stage ω).Stops tools options s' e := by
  rcases answerRequest_eq_error h with
    ⟨bare, ⟨untaken, rfl, rfl⟩ | ⟨d, rest, taken, followed⟩⟩
  · refine ⟨none, fun requests => ⟨plan requests directives, ?_⟩, .unresolved bare⟩
    simp only [plan, bare, untaken]
  · refine ⟨some d, fun requests => ⟨plan requests rest, ?_⟩, .unfollowed bare followed⟩
    simp only [plan, bare, taken]

/-! ### Answering all requests -/

/-- What became of some parts whose requests were all answered. -/
structure ClosesAll (tools : ToolLookup ω) (options : CallOptions) (s : Session ω)
    (parts : List Part) (directives : List Directive) (s' : Session ω) (a : Answered) : Prop where
  /-- The requests were closed. -/
  requests : a.content.filterMap Part.toolRequest? =
    (plan (parts.filterMap Part.toolRequest?) directives).map closed
  /-- Each request has a response, with the output for it. -/
  responses : List.Forall₂
    (fun stage response => response.Answers stage.request ∧
      stage.output? tools options = some response.output)
    (stages tools options (plan (parts.filterMap Part.toolRequest?) directives) s) a.responses
  /-- All other parts are as before, where they were. -/
  others : List.Forall₂ Part.Replaces a.content parts
  /-- The directives that were taken are gone. -/
  gone : directives.Perm
    ((plan (parts.filterMap Part.toolRequest?) directives).filterMap Prod.snd ++ a.unused)
  /-- The others are left, in their order. -/
  left : a.unused.Sublist directives
  /-- Nothing has happened but the calls that were made again, one after the other. -/
  session : s' =
    (plan (parts.filterMap Part.toolRequest?) directives).foldl (after tools options) s

/-- Requests that were all answered were ready. -/
lemma ClosesAll.ready {parts : List Part} {a : Answered}
    (h : ClosesAll tools options s parts directives s' a) :
    ∀ stage ∈ stages tools options (plan (parts.filterMap Part.toolRequest?) directives) s,
      stage.Ready tools options := by
  have both := h.responses.imp fun stage response ⟨_, output⟩ =>
    And.intro (Stage.ready_iff.mpr (Option.isSome_iff_exists.mpr ⟨_, output⟩)) output
  exact ((List.forall₂_and_left _ _).mp both).1

/-- Each of them carried an output or took a directive. -/
lemma ClosesAll.matched {parts : List Part} {a : Answered}
    (h : ClosesAll tools options s parts directives s' a) {taken : Option Directive}
    (planned : (r, taken) ∈ plan (parts.filterMap Part.toolRequest?) directives) :
    r.pendingOutput.isSome ∨ taken.isSome := by
  rw [← @map_stages _ tools options (plan _ _) s] at planned
  obtain ⟨stage, reached, he⟩ := List.mem_map.mp planned
  obtain ⟨rfl, rfl⟩ := Prod.mk.inj he
  exact (h.ready stage reached).matched

/-- None of them carries an output any more. -/
lemma ClosesAll.pendingOutput {parts : List Part} {a : Answered}
    (h : ClosesAll tools options s parts directives s' a)
    (hr : r ∈ a.content.filterMap Part.toolRequest?) : r.pendingOutput = none := by
  rw [h.requests] at hr
  obtain ⟨⟨q, _ | d⟩, -, rfl⟩ := List.mem_map.mp hr <;> rfl

/-- All requests are answered as planned. -/
lemma answerParts_closes {parts : List Part} {a : Answered}
    (h : answerParts tools options parts directives s = (s', .ok a)) :
    ClosesAll tools options s parts directives s' a := by
  -- By induction on the parts.  A request takes its directive from the plan and leaves the plan of
  -- the others to what is left, and another part leaves both alone.
  fun_induction answerParts tools options parts directives s generalizing s' a with
  | case1 directives s =>
    obtain ⟨rfl, ha⟩ := Prod.mk.inj h
    obtain rfl := Except.ok.inj ha
    exact ⟨rfl, List.Forall₂.nil, List.Forall₂.nil, List.Perm.refl _, List.Sublist.refl _, rfl⟩
  | case2 r parts directives s s' e hr => cases congrArg Prod.snd h
  | case3 r parts directives s s' q response rest hr s'' e hp ih => cases congrArg Prod.snd h
  | case4 r parts directives s s' q response rest hr s'' a' hp ih =>
    obtain ⟨rfl, ha⟩ := Prod.mk.inj h
    obtain rfl := Except.ok.inj ha
    obtain ⟨taken, head⟩ := answerRequest_closes hr
    have tail := ih hp
    have planned : plan ((Part.toolRequest r :: parts).filterMap Part.toolRequest?) directives =
        (r, taken) :: plan (parts.filterMap Part.toolRequest?) rest := head.planned _
    obtain rfl := head.session
    obtain rfl := head.request
    constructor
    · rw [planned, List.map_cons, ← tail.requests]
      rfl
    · rw [planned]
      exact List.Forall₂.cons ⟨head.answers, head.output⟩ tail.responses
    · exact List.Forall₂.cons (.inr ⟨rfl, rfl⟩) tail.others
    · rw [planned]
      have all := head.gone.trans (tail.gone.append_left taken.toList)
      cases taken with
      | none => exact all
      | some d => exact all
    · exact tail.left.trans head.left
    · rw [planned, List.foldl_cons]
      exact tail.session
  | case5 part parts directives s other s' e hp ih => cases congrArg Prod.snd h
  | case6 part parts directives s other s' a' hp ih =>
    obtain ⟨rfl, ha⟩ := Prod.mk.inj h
    obtain rfl := Except.ok.inj ha
    have tail := ih hp
    have row (others : List Part) : (part :: others).filterMap Part.toolRequest? =
        others.filterMap Part.toolRequest? :=
      List.filterMap_cons_none (Part.toolRequest?_eq_none other)
    constructor
    · rw [row, row]
      exact tail.requests
    · rw [row]
      exact tail.responses
    · exact List.Forall₂.cons (.inl rfl) tail.others
    · rw [row]
      exact tail.gone
    · exact tail.left
    · rw [row]
      exact tail.session

/-- Where not all requests are answered, it stops at one of them, and those before it are ready. -/
lemma answerParts_stops {parts : List Part}
    (h : answerParts tools options parts directives s = (s', .error e)) :
    ∃ before r taken left,
      plan (parts.filterMap Part.toolRequest?) directives = before ++ (r, taken) :: left ∧
      (∀ stage ∈ stages tools options before s, (stage.output? tools options).isSome) ∧
      (⟨before.foldl (after tools options) s, r, taken⟩ : Stage ω).Stops tools options s' e := by
  fun_induction answerParts tools options parts directives s generalizing s' with
  | case1 directives s => cases congrArg Prod.snd h
  | case2 r parts directives s s' e' hr =>
    obtain ⟨rfl, he⟩ := Prod.mk.inj h
    obtain rfl := Except.error.inj he
    obtain ⟨taken, planned, stops⟩ := answerRequest_stops hr
    obtain ⟨left, planned⟩ := planned (parts.filterMap Part.toolRequest?)
    exact ⟨[], r, taken, left, planned, fun _ none => absurd none List.not_mem_nil, stops⟩
  | case3 r parts directives s s' q response rest hr s'' e' hp ih =>
    obtain ⟨rfl, he⟩ := Prod.mk.inj h
    obtain rfl := Except.error.inj he
    obtain ⟨taken, head⟩ := answerRequest_closes hr
    obtain ⟨before, r', taken', left, planned, ready, stops⟩ := ih hp
    obtain rfl := head.session
    refine ⟨(r, taken) :: before, r', taken', left, ?_, ?_, stops⟩
    · exact (head.planned _).trans (congrArg _ planned)
    · intro stage hs
      rcases List.mem_cons.mp hs with rfl | hs
      · rw [head.output]
        rfl
      · exact ready stage hs
  | case4 r parts directives s s' q response rest hr s'' a hp ih => cases congrArg Prod.snd h
  | case5 part parts directives s other s' e' hp ih =>
    obtain ⟨rfl, he⟩ := Prod.mk.inj h
    obtain rfl := Except.error.inj he
    rw [List.filterMap_cons_none (Part.toolRequest?_eq_none other)]
    exact ih hp
  | case6 part parts directives s other s' a hp ih => cases congrArg Prod.snd h

end

/-! ## Transcripts -/

/-- **How resumption goes** for a transcript that ends with a certain message. -/
structure Matches (tools : ToolLookup ω) (options : CallOptions) (messages : List Message)
    (last : Message) (directives : List Directive) (s : Session ω) : Prop where
  /-- Each request takes the directive for its call that is due to it. -/
  planned : plan last.toolRequests directives =
    last.toolRequests.mapIdx fun i r => (r, due directives (last.toolRequests.take i) r)
  /-- The transcript is taken up exactly if each request is ready when its turn comes. -/
  answered :
    (∃ s' messages' n, apply tools options messages directives s = (s', .ok (messages', n))) ↔
      ∀ stage ∈ stages tools options (plan last.toolRequests directives) s,
        stage.Ready tools options
  /-- Then its requests are closed, and if there are any, one message with a response to each of
  them is appended.  Directives that no request took are warned of. -/
  applied : ∀ s' messages' n,
    apply tools options messages directives s = (s', .ok (messages', n)) →
      n = last.toolRequests.length ∧
      ∃ s'' a, ClosesAll tools options s last.content directives s'' a ∧
        s' = noteUnused a.unused s'' ∧
        messages' = messages.dropLast ++ [{ last with content := a.content }] ++
          if n = 0 then [] else [Message.ofResponses a.responses]
  /-- Directives that agree with these come to the same, but for what is left of them. -/
  indifferent : ∀ directives', Agree last.toolRequests directives directives' →
    ∃ s' result unused unused',
      apply tools options messages directives s = (noteUnused unused s', result) ∧
      apply tools options messages directives' s = (noteUnused unused' s', result)

section

variable {tools : ToolLookup ω} {options : CallOptions} {messages : List Message} {last : Message}

lemma noteUnused_nil (s : Session ω) : noteUnused [] s = s := by
  rw [noteUnused, List.map_nil, List.append_nil]

lemma length_plan (requests : List ToolRequest) (directives : List Directive) :
    (plan requests directives).length = requests.length := by
  rw [plan_eq, List.length_mapIdx]

/-- What becomes of a transcript that ends with a message of the model is what becomes of the parts
of this message. -/
lemma apply_of_last (hl : messages.getLast? = some last) (spoken : last.role = .model)
    (directives : List Directive) (s : Session ω) :
    apply tools options messages directives s =
      match answerParts tools options last.content directives s with
      | (s, .error e) => (s, .error e)
      | (s, .ok a) => (noteUnused a.unused s,
          .ok (messages.dropLast ++ [{ last with content := a.content }] ++
            (if a.responses.isEmpty then [] else [Message.ofResponses a.responses]),
            a.responses.length)) := by
  rw [apply, hl]
  exact if_neg (not_not.mpr spoken)

/-- **Resumption answers a transcript request by request.** -/
theorem apply_matches (tools : ToolLookup ω) (options : CallOptions)
    (hl : messages.getLast? = some last) (spoken : last.role = .model)
    (directives : List Directive) (s : Session ω) :
    Matches tools options messages last directives s where
  planned := plan_eq _ _
  answered := by
    constructor
    · rintro ⟨s', messages', n, applied⟩
      obtain ⟨last', s'', a, hl', answered, _⟩ := apply_eq_ok applied
      obtain rfl := Option.some.inj (hl.symm.trans hl')
      exact (answerParts_closes answered).ready
    · intro ready
      rw [apply_of_last hl spoken]
      rcases hp : answerParts tools options last.content directives s with ⟨s', e | a⟩
      · obtain ⟨before, r, taken, left, planned, -, stops⟩ := answerParts_stops hp
        have reached : (⟨before.foldl (after tools options) s, r, taken⟩ : Stage ω) ∈
            stages tools options (plan last.toolRequests directives) s := by
          rw [Message.toolRequests, planned, stages_append]
          exact List.mem_append_right _ List.mem_cons_self
        have output := Stage.ready_iff.mp (ready _ reached)
        rw [stops.output?_eq_none] at output
        cases output
      · exact ⟨_, _, _, rfl⟩
  applied s' messages' n applied := by
    obtain ⟨last', s'', a, hl', answered, rfl, rfl, rfl⟩ := apply_eq_ok applied
    obtain rfl := Option.some.inj (hl.symm.trans hl')
    have closes := answerParts_closes answered
    have count : a.responses.length = last.toolRequests.length := by
      rw [← closes.responses.length_eq, ← List.length_map, map_stages, length_plan,
        Message.toolRequests]
    refine ⟨count, s'', a, closes, rfl, ?_⟩
    cases a.responses <;> rfl
  indifferent directives' agree := by
    obtain ⟨s', result, unused, unused', he, he'⟩ := answerParts_agree tools options agree s
    rw [apply_of_last hl spoken, apply_of_last hl spoken, he, he']
    cases result with
    | error e =>
      exact ⟨s', .error e, [], [], by rw [noteUnused_nil]; rfl, by rw [noteUnused_nil]; rfl⟩
    | ok both => exact ⟨s', _, unused, unused', rfl, rfl⟩

/-- A tool that settles a bill: it asks for a confirmation until it is told of one. -/
def bill : Tool Unit where
  definition := { name := "pay", description := "", inputSchema := .obj [] }
  invoke context input :=
    match context.resumed with
    | some note => .done (.returned (.success (.arr [input, note])))
    | none => .done (.returned (.interrupt .null))

def billing : ToolLookup Unit := fun name => if name = "pay" then some bill else none

/-- Two payments that are the same call, with a request between them that carries its output. -/
def bills : Message :=
  ⟨.model, [.toolRequest { name := "pay", input := .str "rent", interrupt := some .null },
    .toolRequest { name := "look", pendingOutput := some (.bool true) }, .text "and then",
    .toolRequest { name := "pay", input := .str "gas", interrupt := some (.bool true) }], none⟩

/-- The first payment is made again with a note, the second is given an output, and the last
directive finds no request. -/
def paying : List Directive :=
  [.restart "pay" none none (some (.str "yes")), .respond "pay" none (.bool false),
    .respond "look" none .null]

theorem apply_matches_bills :
    [bills].getLast? = some bills ∧ bills.role = .model ∧
      Matches billing {} [bills] bills paying ⟨[], ⟨false, ()⟩⟩ ∧
      (apply billing {} [bills] paying ⟨[], ⟨false, ()⟩⟩).2 = .ok ([
        ⟨.model, [
          .toolRequest { name := "pay", input := .str "rent", resolvedInterrupt := some .null },
          .toolRequest { name := "look" }, .text "and then",
          .toolRequest
            { name := "pay", input := .str "gas", resolvedInterrupt := some (.bool true) }], none⟩,
        .ofResponses [⟨"pay", none, .arr [.str "rent", .str "yes"]⟩, ⟨"look", none, .bool true⟩,
          ⟨"pay", none, .bool false⟩]], 3) :=
  ⟨rfl, rfl, apply_matches billing {} rfl rfl paying _, by decide +kernel⟩

/-- In a run that was cancelled, the same directives are matched and the call would not interrupt,
but resumption fails. -/
theorem apply_cancelled :
    (plan bills.toolRequests paying).map Prod.snd =
        [paying[0]?, none, paying[1]?] ∧
      billing "pay" = some bill ∧
      ((bill.run {} ⟨none, some (.str "yes")⟩ (.str "rent")).run ⟨[], ⟨true, ()⟩⟩).2 =
        .success (.arr [.str "rent", .str "yes"]) ∧
      (apply billing {} [bills] paying ⟨[], ⟨true, ()⟩⟩).2 = .error .cancelled :=
  ⟨rfl, rfl, by decide +kernel, rfl⟩

end

end Resume

end Colloquy
