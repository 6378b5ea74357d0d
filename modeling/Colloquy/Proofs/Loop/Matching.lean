import Colloquy.Proofs.Loop.Journal
import Colloquy.Proofs.Message
import Mathlib.Data.List.Basic

/-!
# How directives find their requests

Each request without an output takes, when its turn comes, the first directive with its name and
reference that no request before it took.  Requests of different calls never compete, so the
directive of a request can be told in advance: of the directives for its call it takes the one in
the place that the request itself has among the requests for that call (`Resume.plan_eq`).

Nothing else about the directives matters.  They may stand in any other order that keeps the
directives for each call in theirs, and others may stand between them
(`Resume.answerParts_agree`).
-/

namespace Colloquy

variable {ω : Type}

/-- What the call of a request is known by. -/
def ToolRequest.call (r : ToolRequest) : String × Option String := (r.name, r.reference)

/-! ## Directives for one call -/

namespace Directive

/-- What the call of a directive is known by. -/
def key (d : Directive) : String × Option String := (d.name, d.reference)

/-- The directives for a call, in their order. -/
def forCall (call : String × Option String) (directives : List Directive) : List Directive :=
  directives.filter fun d => d.key = call

section

variable {call : String × Option String} {q r : ToolRequest} {d : Directive}
  {directives rest : List Directive}

lemma isCall_iff {r : ToolRequest} {d : Directive} :
    r.isCall d.name d.reference = true ↔ d.key = (r.name, r.reference) := by
  rw [ToolRequest.isCall, key, Bool.and_eq_true, beq_iff_eq, beq_iff_eq, Prod.mk.injEq,
    eq_comm, @eq_comm _ r.reference]

@[simp] lemma forCall_append (front back : List Directive) :
    forCall call (front ++ back) = forCall call front ++ forCall call back :=
  List.filter_append ..

@[simp] lemma forCall_cons_self (d : Directive) (rest : List Directive) :
    forCall d.key (d :: rest) = d :: forCall d.key rest :=
  List.filter_cons_of_pos (decide_eq_true rfl)

lemma forCall_cons_of_ne (h : d.key ≠ call) (rest : List Directive) :
    forCall call (d :: rest) = forCall call rest :=
  List.filter_cons_of_neg (by simpa using h)

/-- The directive that is taken is the first for the call, and the others stay in their order. -/
lemma take?_eq_some (h : take? r directives = some (d, rest)) :
    ∃ front back, directives = front ++ d :: back ∧ rest = front ++ back ∧ d.key = r.call ∧
      forCall r.call front = [] := by
  induction directives generalizing rest with
  | nil => cases h
  | cons e others ih =>
    rw [take?] at h
    split at h
    · rename_i he
      obtain ⟨rfl, rfl⟩ := Prod.mk.inj (Option.some.inj h)
      exact ⟨[], others, rfl, rfl, isCall_iff.mp he, rfl⟩
    · rename_i he
      obtain ⟨⟨d', rest'⟩, taken, hd⟩ := Option.map_eq_some_iff.mp h
      obtain ⟨rfl, rfl⟩ := Prod.mk.inj hd
      obtain ⟨front, back, rfl, rfl, key, hf⟩ := ih taken
      have other : e.key ≠ r.call := fun hk => he (isCall_iff.mpr hk)
      exact ⟨e :: front, back, rfl, rfl, key, (forCall_cons_of_ne other front).trans hf⟩

lemma forCall_of_take?_eq_none (h : take? r directives = none) :
    forCall r.call directives = [] := by
  induction directives with
  | nil => rfl
  | cons e others ih =>
    rw [take?] at h
    split at h
    · cases h
    · rename_i he
      have other : e.key ≠ r.call := fun hk => he (isCall_iff.mpr hk)
      rw [forCall_cons_of_ne other, ih (Option.map_eq_none_iff.mp h)]

lemma forCall_of_take?_eq_some (h : take? r directives = some (d, rest)) :
    forCall r.call directives = d :: forCall r.call rest := by
  obtain ⟨front, back, rfl, rfl, key, none⟩ := take?_eq_some h
  rw [forCall_append, forCall_append, none, ← key, forCall_cons_self]
  rfl

/-- Requests for other calls keep all their directives. -/
lemma forCall_of_take?_other (h : take? r directives = some (d, rest)) (other : r.call ≠ call) :
    forCall call directives = forCall call rest := by
  obtain ⟨front, back, rfl, rfl, key, -⟩ := take?_eq_some h
  rw [forCall_append, forCall_append, forCall_cons_of_ne (key ▸ other)]

/-- If there are directives for the call, the first of them is taken. -/
lemma take?_of_forCall {others : List Directive} (h : forCall r.call directives = d :: others) :
    ∃ rest, take? r directives = some (d, rest) := by
  rcases taken : take? r directives with _ | ⟨e, rest⟩
  · rw [forCall_of_take?_eq_none taken] at h
    cases h
  · rw [forCall_of_take?_eq_some taken] at h
    obtain rfl := (List.cons.inj h).1
    exact ⟨rest, rfl⟩

end

end Directive

namespace Resume

/-! ## The directive that is due to a request -/

/-- Some requests, each with the directive that it takes, if it takes one.  A request that carries
an output takes none, and a directive that was taken is gone for the requests after it. -/
def plan : List ToolRequest → List Directive → List (ToolRequest × Option Directive)
  | [], _ => []
  | r :: requests, directives =>
    match r.pendingOutput, Directive.take? r directives with
    | none, some (d, rest) => (r, some d) :: plan requests rest
    | _, _ => (r, none) :: plan requests directives

/-- The number of requests that take a directive for the same call, if there is one. -/
def rivals (r : ToolRequest) (before : List ToolRequest) : Nat :=
  before.countP fun q => q.pendingOutput.isNone && q.call = r.call

/-- The directive that a request takes, with the requests before it.  One that carries an output
takes none. -/
def due (directives : List Directive) (before : List ToolRequest) (r : ToolRequest) :
    Option Directive :=
  if r.pendingOutput.isNone then (Directive.forCall r.call directives)[rivals r before]? else none

section

variable {q : ToolRequest} {d : Directive} {directives rest : List Directive}

/-- A request that takes no directive leaves to others what is due to them. -/
lemma due_cons_of_untaken
    (h : q.pendingOutput.isNone = false ∨ Directive.take? q directives = none)
    (before : List ToolRequest) (r : ToolRequest) :
    due directives (q :: before) r = due directives before r := by
  rw [due, due, rivals, List.countP_cons]
  by_cases same : q.call = r.call
  · rcases h with carried | untaken
    · simp [carried, rivals]
    · simp [← same, Directive.forCall_of_take?_eq_none untaken]
  · simp [same, rivals]

/-- So does one that takes a directive: this one is gone, and the request counts from now on. -/
lemma due_cons_of_taken (bare : q.pendingOutput = none)
    (taken : Directive.take? q directives = some (d, rest)) (before : List ToolRequest)
    (r : ToolRequest) : due directives (q :: before) r = due rest before r := by
  rw [due, due, rivals, List.countP_cons]
  by_cases same : q.call = r.call
  · simp [← same, bare, rivals, Directive.forCall_of_take?_eq_some taken]
  · simp [same, rivals, Directive.forCall_of_take?_other taken same]

lemma due_nil_of_untaken
    (h : q.pendingOutput.isNone = false ∨ Directive.take? q directives = none) :
    due directives [] q = none := by
  rw [due]
  rcases h with carried | untaken
  · simp [carried]
  · simp [Directive.forCall_of_take?_eq_none untaken]

lemma due_nil_of_taken (bare : q.pendingOutput = none)
    (taken : Directive.take? q directives = some (d, rest)) : due directives [] q = some d := by
  simp [due, rivals, bare, Directive.forCall_of_take?_eq_some taken]

/-- **Each request takes the directive that is due to it.** -/
lemma plan_eq (requests : List ToolRequest) (directives : List Directive) :
    plan requests directives =
      requests.mapIdx fun i r => (r, due directives (requests.take i) r) := by
  -- By induction on the requests.  What the first one takes is counted from then on as one request
  -- more before the others, and this comes to the same as taking it out of the directives.
  induction requests generalizing directives with
  | nil => rfl
  | cons q requests ih =>
    rw [plan, List.mapIdx_cons]
    split
    · rename_i bare taken
      rw [ih]
      simp [due_nil_of_taken bare taken, due_cons_of_taken bare taken]
    · rename_i other
      have untaken : q.pendingOutput.isNone = false ∨ Directive.take? q directives = none := by
        rcases hp : q.pendingOutput with _ | output
        · rcases ht : Directive.take? q directives with _ | ⟨d, rest⟩
          · exact .inr rfl
          · exact absurd ht (other d rest hp)
        · exact .inl rfl
      rw [ih]
      simp [due_nil_of_untaken untaken, due_cons_of_untaken untaken]

end

/-! ## Directives in another order -/

/-- Two lists of directives agree for some requests: each that carries no output finds the same
directives for its call in both, in the same order. -/
def Agree (requests : List ToolRequest) (directives directives' : List Directive) : Prop :=
  ∀ r ∈ requests, r.pendingOutput = none →
    Directive.forCall r.call directives = Directive.forCall r.call directives'

section

variable {requests : List ToolRequest} {r : ToolRequest} {d : Directive}
  {directives directives' rest rest' : List Directive}

lemma Agree.tail (h : Agree (r :: requests) directives directives') :
    Agree requests directives directives' :=
  fun q hq => h q (List.mem_cons_of_mem r hq)

/-- When a request takes its directive from both lists, what is left agrees too. -/
lemma Agree.of_taken (h : Agree requests directives directives')
    (taken : Directive.take? r directives = some (d, rest))
    (taken' : Directive.take? r directives' = some (d, rest')) : Agree requests rest rest' := by
  intro q hq bare
  have same := h q hq bare
  by_cases call : r.call = q.call
  · rw [← call] at same ⊢
    rw [Directive.forCall_of_take?_eq_some taken, Directive.forCall_of_take?_eq_some taken'] at same
    exact (List.cons.inj same).2
  · rwa [Directive.forCall_of_take?_other taken call,
      Directive.forCall_of_take?_other taken' call] at same

variable (tools : ToolLookup ω) (options : CallOptions)

lemma answerRequest_of_carried {output : Json} (carried : r.pendingOutput = some output)
    (directives : List Directive) (s : Session ω) :
    answerRequest tools options s r directives =
      (s, .ok ({ r with pendingOutput := none }, ⟨r.name, r.reference, output⟩, directives)) := by
  rw [answerRequest, carried]

lemma answerRequest_of_untaken (bare : r.pendingOutput = none)
    (untaken : Directive.take? r directives = none) (s : Session ω) :
    answerRequest tools options s r directives =
      (s, .error (.unresolvedInterrupt r.name r.reference)) := by
  rw [answerRequest, bare]
  dsimp only
  rw [untaken]

lemma answerRequest_of_taken (bare : r.pendingOutput = none)
    (taken : Directive.take? r directives = some (d, rest)) (s : Session ω) :
    answerRequest tools options s r directives =
      ((follow tools options s r d).1,
        (follow tools options s r d).2.map fun (q, response) => (resolve q, response, rest)) := by
  rw [answerRequest, bare]
  dsimp only
  rw [taken]
  dsimp only
  rcases follow tools options s r d with ⟨s', e | ⟨q, response⟩⟩ <;> rfl

/-- A request is answered in the same way from lists that agree for it. -/
lemma answerRequest_agree (h : Agree (r :: requests) directives directives') (s : Session ω) :
    ∃ (s' : Session ω) (result : Except RunError (ToolRequest × ToolResponse))
        (rest rest' : List Directive),
      answerRequest tools options s r directives =
        (s', result.map fun (q, response) => (q, response, rest)) ∧
      answerRequest tools options s r directives' =
        (s', result.map fun (q, response) => (q, response, rest')) ∧
      Agree requests rest rest' := by
  rcases bare : r.pendingOutput with _ | output
  · have same := h r List.mem_cons_self bare
    rcases taken : Directive.take? r directives with _ | ⟨d, rest⟩
    · rcases taken' : Directive.take? r directives' with _ | ⟨d', rest'⟩
      · exact ⟨s, .error (.unresolvedInterrupt r.name r.reference), directives, directives',
          answerRequest_of_untaken tools options bare taken s,
          answerRequest_of_untaken tools options bare taken' s, h.tail⟩
      · rw [Directive.forCall_of_take?_eq_none taken, Directive.forCall_of_take?_eq_some taken']
          at same
        cases same
    · rw [Directive.forCall_of_take?_eq_some taken] at same
      obtain ⟨rest', taken'⟩ := Directive.take?_of_forCall same.symm
      refine ⟨(follow tools options s r d).1,
        (follow tools options s r d).2.map fun (q, response) => (resolve q, response), rest, rest',
        ?_, ?_, h.tail.of_taken taken taken'⟩
      · rw [answerRequest_of_taken tools options bare taken]
        cases (follow tools options s r d).2 <;> rfl
      · rw [answerRequest_of_taken tools options bare taken']
        cases (follow tools options s r d).2 <;> rfl
  · exact ⟨s, .ok ({ r with pendingOutput := none }, ⟨r.name, r.reference, output⟩), directives,
      directives', answerRequest_of_carried tools options bare directives s,
      answerRequest_of_carried tools options bare directives' s, h.tail⟩

/-- **Only the order of directives for the same call matters**, and only for calls that still need
one. -/
lemma answerParts_agree {parts : List Part}
    (h : Agree (parts.filterMap Part.toolRequest?) directives directives') (s : Session ω) :
    ∃ (s' : Session ω) (result : Except RunError (List Part × List ToolResponse))
        (unused unused' : List Directive),
      answerParts tools options parts directives s =
        (s', result.map fun (content, responses) => ⟨content, responses, unused⟩) ∧
      answerParts tools options parts directives' s =
        (s', result.map fun (content, responses) => ⟨content, responses, unused'⟩) := by
  induction parts generalizing directives directives' s with
  | nil => exact ⟨s, .ok ([], []), directives, directives', rfl, rfl⟩
  | cons part parts ih =>
    rcases hp : part.toolRequest? with _ | r
    · rw [List.filterMap_cons_none hp] at h
      have other : ∀ r, part = .toolRequest r → False := by
        rintro r rfl
        exact Option.some_ne_none r hp
      obtain ⟨s', result, unused, unused', he, he'⟩ := ih h s
      rw [answerParts.eq_3 tools options directives s part parts other,
        answerParts.eq_3 tools options directives' s part parts other, he, he']
      cases result with
      | error e => exact ⟨s', .error e, [], [], rfl, rfl⟩
      | ok both => exact ⟨s', .ok (part :: both.1, both.2), unused, unused', rfl, rfl⟩
    · obtain rfl := Part.eq_of_toolRequest?_eq_some hp
      rw [List.filterMap_cons_some hp] at h
      obtain ⟨s', answer, rest, rest', ha, ha', left⟩ := answerRequest_agree tools options h s
      rw [answerParts, answerParts, ha, ha']
      cases answer with
      | error e => exact ⟨s', .error e, [], [], rfl, rfl⟩
      | ok both =>
        obtain ⟨s'', result, unused, unused', he, he'⟩ := ih left s'
        dsimp only [Except.map]
        rw [he, he']
        cases result with
        | error e => exact ⟨s'', .error e, [], [], rfl, rfl⟩
        | ok others =>
          exact ⟨s'', .ok (.toolRequest both.1 :: others.1, both.2 :: others.2), unused, unused',
            rfl, rfl⟩

end

end Resume

end Colloquy
