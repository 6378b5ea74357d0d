import Colloquy.Proofs.Failure
import Colloquy.Proofs.Template.Expansion

/-!
# Scopes

The body of a `with`, the rounds of an `each` and a template that is called with a context look at
the variables from a scope of their own, and a path leads out of it by `../`.  `Nested` follows
rendering to a place inside, and counts the scopes that were opened on the way: they are what stands
on top of the scopes outside, so as many `../` lead back out.

A loop variable is made up in each round and is no part of the variables, so it opens no scope.  A
`with` on it, or a call with it, shows its nodes in the scope around the tag.
-/

namespace Colloquy.Template

/-! ## Loop variables -/

/-- The expression names what a loop around it knows of the round: its position, its key, whether it
is the first or the last. -/
def Context.LoopVariable (ctx : Context) (e : Expr) : Prop :=
  ∃ name segments loop, e = .path ⟨.data name, segments⟩ ∧ ctx.loop? = some loop ∧
    (name = "index" ∨ name = "first" ∨ name = "last" ∨ name = "key" ∧ loop.key.isSome = true)

variable {ctx : Context} {e : Expr}

/-- Loop variables are made up, and nothing else is. -/
lemma loopVariable_iff : ctx.LoopVariable e ↔ ∃ json, ctx.eval e = .computed json := by
  constructor
  · rintro ⟨name, segments, loop, rfl, hl, hn⟩
    have computed : ∃ json, ctx.dataValue name = .computed json := by
      rw [Context.dataValue, hl]
      rcases hn with rfl | rfl | rfl | ⟨rfl, hk⟩
      · exact ⟨_, rfl⟩
      · exact ⟨_, rfl⟩
      · exact ⟨_, rfl⟩
      · obtain ⟨key, hk⟩ := Option.isSome_iff_exists.mp hk
        exact ⟨.str key, by simp [hk]⟩
    obtain ⟨json, hd⟩ := computed
    exact ⟨_, by rw [Context.eval, hd]; rfl⟩
  · rintro ⟨json, he⟩
    cases e with
    | literal value => cases he
    | path path =>
      obtain ⟨_ | name, segments⟩ := path
      · cases he
      · rw [Context.eval] at he
        refine ⟨name, segments, ?_⟩
        rw [Context.dataValue] at he
        split at he
        · cases he
        · split at he
          · rename_i known
            cases hl : ctx.loop? with
            | none =>
              rw [hl] at he
              cases he
            | some loop =>
              rw [hl] at he
              refine ⟨loop, rfl, rfl, ?_⟩
              rcases known with rfl | rfl | rfl | rfl
              · exact .inl rfl
              · cases hk : loop.key with
                | none => simp [hk, Value.map] at he
                | some key => simp
              · exact .inr (.inl rfl)
              · exact .inr (.inr (.inl rfl))
          · cases he

/-- The value of anything else is part of the variables. -/
lemma eval_of_not_loopVariable (h : ¬ctx.LoopVariable e) :
    ctx.eval e = .stored (ctx.eval e).json := by
  cases he : ctx.eval e with
  | stored json => rfl
  | computed json => exact absurd (loopVariable_iff.mpr ⟨json, he⟩) h

lemma called_of_not_loopVariable (h : ¬ctx.LoopVariable e) :
    ctx.called (some e) = ctx.enter ⟨(ctx.eval e).json, none⟩ := by
  rw [Context.called, Option.map_some, eval_of_not_loopVariable h]
  rfl

lemma called_of_loopVariable (h : ctx.LoopVariable e) : ctx.called (some e) = ctx := by
  obtain ⟨json, he⟩ := loopVariable_iff.mp h
  rw [Context.called, Option.map_some, he]

/-! ## Places inside -/

/-- The number of scopes that an expression opens. -/
def Context.opens (ctx : Context) (context : Option Expr) : Nat :=
  match context.map ctx.eval with
  | some (.stored _) => 1
  | _ => 0

/-- The number of scopes that a round of a block opens. -/
def Context.opensIn (ctx : Context) (param : Expr) : BlockKind → Nat
  | .inScope => ctx.opens (some param)
  | .forEach => 1
  | _ => 0

/-- Rendering some nodes in a context comes to others, in a context that lies a number of scopes
further in. -/
inductive Nested (templates : Table (List Node)) (ctx : Context) (nodes : List Node) :
    Nat → Context → List Node → Prop
  | here : Nested templates ctx nodes 0 ctx nodes
  | body {depth inner around kind param body inverse rounds round}
      (h : Nested templates ctx nodes depth inner around)
      (hm : .block kind param body inverse ∈ around) (hr : inner.rounds? kind param = some rounds)
      (hi : round ∈ rounds) :
      Nested templates ctx nodes (depth + inner.opensIn param kind) round body
  | inverse {depth inner around kind param body inverse}
      (h : Nested templates ctx nodes depth inner around)
      (hm : .block kind param body inverse ∈ around) (hr : inner.rounds? kind param = none) :
      Nested templates ctx nodes depth inner inverse
  | call {depth inner around name context called}
      (h : Nested templates ctx nodes depth inner around) (hm : .call name context ∈ around)
      (hn : templates.get? name = some called) :
      Nested templates ctx nodes (depth + inner.opens context) (inner.called context) called

/-- A context that lies a number of scopes inside another one. -/
def Within (ctx : Context) (depth : Nat) (inner : Context) : Prop :=
  ∃ entered, entered.length = depth ∧ inner = { ctx with scopes := entered ++ ctx.scopes }

namespace Within

lemma refl (ctx : Context) : Within ctx 0 ctx := ⟨[], rfl, rfl⟩

lemma enter (ctx : Context) (scope : Scope) : Within ctx 1 (ctx.enter scope) := ⟨[scope], rfl, rfl⟩

lemma trans {depth more : Nat} {inner further : Context} (h : Within ctx depth inner)
    (h' : Within inner more further) : Within ctx (depth + more) further := by
  obtain ⟨entered, rfl, rfl⟩ := h
  obtain ⟨entered', rfl, rfl⟩ := h'
  refine ⟨entered' ++ entered, ?_, ?_⟩
  · rw [List.length_append, Nat.add_comm]
  · rw [List.append_assoc]

/-- Steps up lead out of the scopes inside. -/
lemma eval {depth : Nat} {inner : Context} (h : Within ctx depth inner) (steps : Nat)
    (segments : List String) :
    inner.eval (.path ⟨.scope (depth + steps), segments⟩) =
      ctx.eval (.path ⟨.scope steps, segments⟩) := by
  obtain ⟨entered, rfl, rfl⟩ := h
  have found : (entered ++ ctx.scopes)[entered.length + steps]? = ctx.scopes[steps]? := by
    rw [List.getElem?_append_right (Nat.le_add_right _ _), Nat.add_sub_cancel_left]
  rw [Context.eval, Context.eval, Context.scopeValue, Context.scopeValue, found]

end Within

lemma within_called (ctx : Context) (context : Option Expr) :
    Within ctx (ctx.opens context) (ctx.called context) := by
  rw [Context.opens, Context.called]
  cases context.map ctx.eval with
  | none => exact .refl ctx
  | some value =>
    cases value with
    | stored json => exact .enter ctx _
    | computed json => exact .refl ctx

/-- A round of a block lies as many scopes inside as it opens. -/
lemma within_round {kind : BlockKind} {param : Expr} {rounds : List Context} {round : Context}
    (hr : ctx.rounds? kind param = some rounds) (hi : round ∈ rounds) :
    Within ctx (ctx.opensIn param kind) round := by
  cases kind with
  | ifTruthy =>
    simp only [Context.rounds?] at hr
    split at hr
    · obtain rfl := Option.some.inj hr
      obtain rfl := List.mem_singleton.mp hi
      exact .refl _
    · cases hr
  | unlessTruthy =>
    simp only [Context.rounds?] at hr
    split at hr
    · cases hr
    · obtain rfl := Option.some.inj hr
      obtain rfl := List.mem_singleton.mp hi
      exact .refl _
  | inScope =>
    simp only [Context.rounds?] at hr
    split at hr
    · obtain rfl := Option.some.inj hr
      obtain rfl := List.mem_singleton.mp hi
      exact within_called ctx _
    · cases hr
  | forEach =>
    simp only [Context.rounds?] at hr
    split at hr
    · cases hr
    · obtain rfl := Option.some.inj hr
      obtain ⟨scope, _, rfl⟩ := List.mem_map.mp hi
      exact .enter ctx scope

/-- **The scopes around a place are those that were opened on the way to it**, on top of those where
the way began. -/
theorem Nested.within {templates : Table (List Node)} {nodes around : List Node} {depth : Nat}
    {inner : Context} (h : Nested templates ctx nodes depth inner around) :
    Within ctx depth inner := by
  induction h with
  | here => exact .refl ctx
  | body _ _ hr hi ih => exact ih.trans (within_round hr hi)
  | inverse _ _ _ ih => exact ih
  | call _ _ _ ih => exact ih.trans (within_called _ _)

/-! ## Paths that lead up -/

/-- A text with a step up before it. -/
def oneUp (raw : List Char) : List Char := '.' :: '.' :: '/' :: raw

/-- The path, seen from one scope further in. -/
def Path.raised : Path → Path
  | ⟨.scope depth, segments⟩ => ⟨.scope (depth + 1), segments⟩
  | path => path

/-- The segments of a path, from what stands behind its start. -/
def segmentsAfter (raw s : List Char) : Except Fault (List String) :=
  readSegments raw ((Text.leading? "./".toList s).getD s)

/-- They are read alike whatever stands before. -/
lemma segmentsAfter_of_ok {raw raw' s : List Char} {segments : List String}
    (h : segmentsAfter raw s = .ok segments) : segmentsAfter raw' s = .ok segments := by
  obtain ⟨faulty, found, eq⟩ : ∃ (faulty : Bool) (found : List String), ∀ raw,
      segmentsAfter raw s =
        if faulty = true then .error (.invalidPath (String.ofList raw)) else .ok found :=
    ⟨_, _, fun _ => rfl⟩
  rw [eq] at h ⊢
  cases faulty with
  | true => cases h
  | false => exact h

lemma readPath_scope {raw s : List Char} {steps : Nat} (hs : stepsUp raw = (steps, s))
    (plain : ∀ data, s ≠ '@' :: data) :
    readPath raw = (segmentsAfter raw s).map (Path.mk (.scope steps)) := by
  rw [readPath, hs]
  dsimp only
  split
  · rename_i data
    exact absurd rfl (plain data)
  · show (readSegments _ _ >>= _) = _
    rw [segmentsAfter]
    cases readSegments _ _ <;> rfl

lemma readPath_data {raw data name rest : List Char} {steps : Nat}
    (hs : stepsUp raw = (steps, '@' :: data))
    (hc : (Text.cutAt? isStep data).getD (data, []) = (name, rest)) :
    readPath raw = if name.isEmpty then .error (.invalidData (String.ofList raw))
      else (segmentsAfter raw rest).map (Path.mk (.data (String.ofList name))) := by
  rw [readPath, hs]
  simp only [hc]
  split
  · rfl
  · show (readSegments _ _ >>= _) = _
    rw [segmentsAfter]
    cases readSegments _ _ <;> rfl

/-- A step up before a path is one step more, and nothing to a path that begins at a data variable. -/
lemma readPath_oneUp {raw : List Char} {path : Path} (h : readPath (oneUp raw) = .ok path) :
    ∃ rest, readPath raw = .ok rest ∧ path = rest.raised := by
  rcases hs : stepsUp raw with ⟨steps, s⟩
  have up : stepsUp (oneUp raw) = (steps + 1, s) := by rw [oneUp, stepsUp, hs]
  by_cases data : ∃ data, s = '@' :: data
  · obtain ⟨data, rfl⟩ := data
    rcases hc : (Text.cutAt? isStep data).getD (data, []) with ⟨name, rest⟩
    rw [readPath_data up hc] at h
    rw [readPath_data hs hc]
    split at h
    · cases h
    · rename_i named
      rw [if_neg named]
      obtain ⟨segments, hr, rfl⟩ := exists_of_map_eq_ok h
      exact ⟨_, by rw [segmentsAfter_of_ok hr]; rfl, rfl⟩
  · rw [not_exists] at data
    rw [readPath_scope up data] at h
    rw [readPath_scope hs data]
    obtain ⟨segments, hr, rfl⟩ := exists_of_map_eq_ok h
    exact ⟨_, by rw [segmentsAfter_of_ok hr]; rfl, rfl⟩

/-- What begins with a step up is a path, and no literal. -/
lemma readExpr_oneUp (raw : List Char) : readExpr (oneUp raw) = (readPath (oneUp raw)).map .path := by
  have string : unquote? (oneUp raw) = none := rfl
  have constant : constant? (oneUp raw) = none := by
    simp [constant?, oneUp]
  have number : number? (oneUp raw) = none := rfl
  rw [readExpr, string, constant, number]

/-! ## Tags with a scope -/

/-- A scope without a round leaves the data variables as they are. -/
lemma dataValue_enter (ctx : Context) (json : Json) (name : String) :
    (ctx.enter ⟨json, none⟩).dataValue name = ctx.dataValue name := rfl

/-- One step up out of a scope without a round everything is as it was. -/
lemma eval_raised (ctx : Context) (json : Json) (path : Path) :
    (ctx.enter ⟨json, none⟩).eval (.path path.raised) = ctx.eval (.path path) := by
  obtain ⟨steps | name, segments⟩ := path
  · rw [Path.raised, Nat.add_comm]
    exact (Within.enter ctx _).eval steps segments
  · rw [Path.raised]
    · rw [Context.eval, Context.eval, dataValue_enter]
    · rintro depth segments' ⟨⟩

/-- What rendering sees from the scope that an expression opens in a context. -/
structure LooksFrom (templates : Table (List Node)) (ctx : Context) (e : Expr) (inner : Context) :
    Prop where
  /-- The scope is the value of the expression. -/
  this : ∀ this, readExpr "this".toList = .ok this →
    inner.eval this = .stored (ctx.eval e).json
  /-- A path one step up is the rest of the path outside. -/
  up : ∀ raw path, readExpr (oneUp raw) = .ok path →
    ∃ rest, readPath raw = .ok rest ∧ inner.eval path = ctx.eval (.path rest)
  /-- Further in, as many steps up as scopes were opened lead back to the scope, and one more leads
  out of it. -/
  deeper : ∀ nodes depth place around, Nested templates inner nodes depth place around →
    ∀ segments,
      place.eval (.path ⟨.scope depth, segments⟩) =
        .stored ((follow (ctx.eval e).json segments).getD .null) ∧
      ∀ steps, place.eval (.path ⟨.scope (depth + (steps + 1)), segments⟩) =
        ctx.eval (.path ⟨.scope steps, segments⟩)

lemma looksFrom_called (templates : Table (List Node)) (h : ¬ctx.LoopVariable e) :
    LooksFrom templates ctx e (ctx.called (some e)) := by
  rw [called_of_not_loopVariable h]
  refine ⟨fun this ht => ?_, fun raw path hp => ?_, fun nodes depth place around hn segments => ?_⟩
  · obtain rfl : .path ⟨.scope 0, []⟩ = this := Except.ok.inj ht
    rfl
  · rw [readExpr_oneUp] at hp
    obtain ⟨whole, hw, rfl⟩ := exists_of_map_eq_ok hp
    obtain ⟨rest, hr, rfl⟩ := readPath_oneUp hw
    exact ⟨rest, hr, eval_raised ctx _ rest⟩
  · refine ⟨hn.within.eval 0 segments, fun steps => ?_⟩
    rw [hn.within.eval, Nat.add_comm]
    exact (Within.enter ctx _).eval steps segments

/-- **An expression that opens a scope opens it for the nodes inside a tag, and for those alone.**
The body of a `with` on a truthy value and a template that is called are rendered in the same
context, and what comes after the tag is rendered in the one around it.  The scope is the value of
the expression, whatever it is; only a loop variable opens none. -/
theorem scope_of_expr (templates : Table (List Node)) (ctx : Context) (e : Expr) :
    (∀ call body inverse after, truthy (ctx.eval e).json = true →
      renderNodes call ctx (.block .inScope e body inverse :: after) = do
        let first ← renderNodes call (ctx.called (some e)) body
        return first ++ (← renderNodes call ctx after)) ∧
    (∀ left name nodes after, templates.get? name = some nodes →
      renderNodes (renderCall templates (left + 1)) ctx (.call name (some e) :: after) = do
        let first ← renderNodes (renderCall templates left) (ctx.called (some e)) nodes
        return first ++ (← renderNodes (renderCall templates (left + 1)) ctx after)) ∧
    (¬ctx.LoopVariable e → LooksFrom templates ctx e (ctx.called (some e))) ∧
    (ctx.LoopVariable e → ctx.called (some e) = ctx) := by
  refine ⟨fun call body inverse after ht => ?_, fun left name nodes after hn => ?_,
    looksFrom_called templates, called_of_loopVariable⟩
  · rw [renderNodes, renderNode_inScope ht]
  · rw [renderNodes, renderNode, renderCall_of_registered hn]

/-- A path that begins at a member of the scope. -/
def member (name : String) : Expr := .path ⟨.scope 0, [name]⟩

/-- A page that greets its user, and says of what site it is. -/
def welcome : Template where
  hash := ""
  nodes := [.block .inScope (member "user")
    [.expression (member "name"), .text "@", .expression (.path ⟨.scope 1, ["site"]⟩)] []]

def visitor : Context where
  root := .obj [("user", .obj [("name", .str "Ada")]), ("site", .str "S")]

theorem scope_of_expr_visitor :
    welcome.render [] visitor = .ok "Ada@S" ∧ ¬visitor.LoopVariable (member "user") ∧
      LooksFrom [] visitor (member "user") (visitor.called (some (member "user"))) := by
  have stored : ¬visitor.LoopVariable (member "user") := by
    rintro ⟨name, segments, loop, ⟨⟩, _⟩
  exact ⟨by decide, stored, (scope_of_expr [] visitor (member "user")).2.2.1 stored⟩

/-- The position of a round. -/
def position : Expr := .path ⟨.data "index", []⟩

/-- A list of the positions in `xs`, which is not what it writes. -/
def numbered : Template where
  hash := ""
  nodes := [.block .forEach (member "xs")
    [.block .inScope position [.expression (.path ⟨.scope 0, []⟩)] []] []]

/-- The second round of a loop over two letters. -/
def secondRound : Context where
  root := .obj [("xs", .arr [.str "a", .str "b"])]
  scopes := [⟨.str "b", some ⟨1, none, false, true⟩⟩]

/-- In a `with` on the position of a round the scope is not the position, but the item of the
round. -/
theorem position_opens_none :
    truthy (secondRound.eval position).json = true ∧
      (secondRound.eval position).json = Json.ofNat 1 ∧
      (secondRound.called (some position)).eval (.path ⟨.scope 0, []⟩) = .stored (.str "b") ∧
      numbered.render [] { root := secondRound.root } = .ok "b" := by
  decide

end Colloquy.Template
