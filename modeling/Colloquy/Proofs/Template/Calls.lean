import Colloquy.Template.Cache
import Mathlib.Data.List.Basic

/-!
# The calls that rendering executes

Rendering fails for one reason only, a call of another template that cannot be answered.  To say
which call that is, the calls are listed here without rendering anything: `visits` walks the
branches and rounds that a context selects and notes each call that it comes to, with the templates
that are being rendered around it.  A call that cannot be answered is noted and left out, so that
the walk goes on where rendering stops.

`error?_renderTree` compares the two: the error of rendering is that of the first call in the list
that has one.
-/

namespace Colloquy

namespace Template

/-! ## Parts in turn -/

namespace Rendered

variable {α : Type}

/-- What some parts write one after the other, up to the first that fails. -/
def inTurn (f : α → Rendered) : List α → Rendered
  | [] => .ok []
  | a :: as => do
    let first ← f a
    return first ++ (← inTurn f as)

/-- The error of a rendering that failed. -/
def error? : Rendered → Option TemplateError
  | .error e => some e
  | .ok _ => none

lemma mapM_eq_inTurn (f : α → Rendered) (as : List α) :
    (do let rounds ← as.mapM f; return rounds.flatten) = inTurn f as := by
  induction as with
  | nil => rfl
  | cons a as ih =>
    rw [List.mapM_cons, inTurn, ← ih]
    cases f a with
    | error e => rfl
    | ok first =>
      cases as.mapM f with
      | error e => rfl
      | ok rest => rfl

lemma inTurn_cons_eq_ok_iff {f : α → Rendered} {a : α} {as : List α} {pieces : List Piece} :
    inTurn f (a :: as) = .ok pieces ↔
      ∃ first others, f a = .ok first ∧ inTurn f as = .ok others ∧ pieces = first ++ others := by
  rw [inTurn]
  cases f a with
  | error e => simp [bind, Except.bind]
  | ok first =>
    cases inTurn f as with
    | error e => simp [bind, Except.bind]
    | ok others => simp [bind, Except.bind, pure, Except.pure, eq_comm]

@[simp] lemma inTurn_singleton (f : α → Rendered) (a : α) : inTurn f [a] = f a := by
  rw [inTurn, inTurn]
  cases f a with
  | error e => rfl
  | ok first => exact congrArg Except.ok (List.append_nil first)

lemma inTurn_append_eq_ok {f : α → Rendered} {as bs : List α} {first others : List Piece}
    (ha : inTurn f as = .ok first) (hb : inTurn f bs = .ok others) :
    inTurn f (as ++ bs) = .ok (first ++ others) := by
  induction as generalizing first with
  | nil =>
    obtain rfl := Except.ok.inj ha
    exact hb
  | cons a as ih =>
    obtain ⟨one, more, ho, hm, rfl⟩ := inTurn_cons_eq_ok_iff.mp ha
    rw [List.append_assoc]
    exact inTurn_cons_eq_ok_iff.mpr ⟨one, more ++ others, ho, ih hm, rfl⟩

/-- Parts that write what other parts write do so in turn as well. -/
lemma inTurn_mono {f g : α → Rendered} {as : List α} {pieces : List Piece}
    (h : ∀ a ∈ as, ∀ written, f a = .ok written → g a = .ok written)
    (hf : inTurn f as = .ok pieces) : inTurn g as = .ok pieces := by
  induction as generalizing pieces with
  | nil => exact hf
  | cons a as ih =>
    obtain ⟨own, others⟩ := List.forall_mem_cons.mp h
    obtain ⟨first, rest, ha, hr, rfl⟩ := inTurn_cons_eq_ok_iff.mp hf
    exact inTurn_cons_eq_ok_iff.mpr ⟨first, rest, own first ha, ih others hr, rfl⟩

end Rendered

open Rendered (inTurn)

/-! ## Blocks and calls -/

/-- The context in which a called template is rendered, and the body of a `with`. -/
def Context.called (ctx : Context) (context : Option Expr) : Context :=
  match context.map ctx.eval with
  | some (.stored json) => ctx.enter ⟨json, none⟩
  | _ => ctx

/-- The contexts in which the body of a block is rendered, round by round.  When there are none it
is the inverse that is rendered, in the context of the block. -/
def Context.rounds? (ctx : Context) (kind : BlockKind) (param : Expr) : Option (List Context) :=
  let value := ctx.eval param
  match kind with
  | .ifTruthy => if truthy value.json then some [ctx] else none
  | .unlessTruthy => if truthy value.json then none else some [ctx]
  | .inScope => if truthy value.json then some [ctx.called (some param)] else none
  | .forEach =>
    match loopScopes value with
    | [] => none
    | scopes => some (scopes.map ctx.enter)

variable {call : String → Option Expr → Context → Rendered} {templates : Table (List Node)}
  {ctx : Context} {name : String} {context : Option Expr} {nodes : List Node} {left : Nat}

lemma renderNodes_eq_inTurn (call : String → Option Expr → Context → Rendered) (ctx : Context)
    (nodes : List Node) : renderNodes call ctx nodes = inTurn (renderNode call ctx) nodes := by
  induction nodes with
  | nil => rw [renderNodes, inTurn]
  | cons node rest ih => rw [renderNodes, inTurn, ih]

/-- Rounds in the contexts of some scopes are rounds in the scopes. -/
lemma inTurn_map_enter (f : Context → Rendered) (scopes : List Scope) :
    inTurn f (scopes.map ctx.enter) = inTurn (fun scope => f (ctx.enter scope)) scopes := by
  induction scopes with
  | nil => rfl
  | cons scope scopes ih => rw [List.map_cons, inTurn, inTurn, ih]

/-- The four kinds of blocks differ in their rounds only. -/
lemma renderNode_block (call : String → Option Expr → Context → Rendered) (ctx : Context)
    (kind : BlockKind) (param : Expr) (body inverse : List Node) :
    renderNode call ctx (.block kind param body inverse) =
      match ctx.rounds? kind param with
      | none => renderNodes call ctx inverse
      | some rounds => inTurn (fun inner => renderNodes call inner body) rounds := by
  cases kind with
  | ifTruthy =>
    rw [renderNode]
    simp only [Context.rounds?]
    split <;> simp
  | unlessTruthy =>
    rw [renderNode]
    simp only [Context.rounds?]
    split <;> simp
  | inScope =>
    rw [renderNode]
    simp only [Context.rounds?, Context.called, Option.map_some]
    cases truthy (ctx.eval param).json with
    | false => rfl
    | true => cases ctx.eval param <;> simp
  | forEach =>
    rw [renderNode]
    simp only [Context.rounds?]
    cases loopScopes (ctx.eval param) with
    | nil => rfl
    | cons scope scopes =>
      dsimp only
      rw [inTurn_map_enter]
      exact Rendered.mapM_eq_inTurn _ _

lemma renderCall_of_missing (hn : templates.get? name = none) :
    renderCall templates left name context ctx = .error (.missingPartial name) := by
  cases left <;> rw [renderCall, hn]

lemma renderCall_of_nested (hn : templates.get? name = some nodes) :
    renderCall templates 0 name context ctx = .error (.partialDepth maxDepth) := by
  rw [renderCall, hn]

lemma renderCall_of_registered (hn : templates.get? name = some nodes) :
    renderCall templates (left + 1) name context ctx =
      renderNodes (renderCall templates left) (ctx.called context) nodes := by
  rw [renderCall, hn]
  rfl

/-- A call that is answered is one of a template that there is, with room for it. -/
lemma exists_of_renderCall_eq_ok {pieces : List Piece}
    (h : renderCall templates left name context ctx = .ok pieces) :
    ∃ nodes left', templates.get? name = some nodes ∧ left = left' + 1 ∧
      renderNodes (renderCall templates left') (ctx.called context) nodes = .ok pieces := by
  cases hn : templates.get? name with
  | none =>
    rw [renderCall_of_missing hn] at h
    cases h
  | some nodes =>
    cases left with
    | zero =>
      rw [renderCall_of_nested hn] at h
      cases h
    | succ left' =>
      rw [renderCall_of_registered hn] at h
      exact ⟨nodes, left', rfl, rfl, h⟩

/-! ## Visits -/

/-- A call that rendering comes to. -/
structure Visit where
  /-- The templates whose rendering is under way, by name and the innermost first. -/
  around : List String
  /-- The template that is called. -/
  name : String
  /-- The context in which it is rendered. -/
  inner : Context

mutual

/-- The calls that nodes make in a context.  `visit` gives those that come of one call. -/
def visitNodes (visit : String → Option Expr → Context → List Visit) (ctx : Context) :
    List Node → List Visit
  | [] => []
  | node :: rest => visitNode visit ctx node ++ visitNodes visit ctx rest

/-- The calls that a node makes. -/
def visitNode (visit : String → Option Expr → Context → List Visit) (ctx : Context) :
    Node → List Visit
  | .block kind param body inverse =>
    match ctx.rounds? kind param with
    | none => visitNodes visit ctx inverse
    | some rounds => rounds.flatMap fun inner => visitNodes visit inner body
  | .call name context => visit name context ctx
  | _ => []

end

/-- A call, and those made by the template that it calls when that many more may be nested. -/
def visitCall (templates : Table (List Node)) :
    Nat → List String → String → Option Expr → Context → List Visit
  | left, around, name, context, ctx =>
    ⟨around, name, ctx.called context⟩ ::
      match templates.get? name with
      | none => []
      | some nodes =>
        match left with
        | 0 => []
        | left + 1 =>
          visitNodes (visitCall templates left (name :: around)) (ctx.called context) nodes

/-- All calls that rendering comes to, in order, those behind a failure included. -/
def visits (templates : Table (List Node)) (ctx : Context) (nodes : List Node) : List Visit :=
  visitNodes (visitCall templates maxDepth []) ctx nodes

/-- What is wrong with a call: there is no template of the name, or there is one and as many as may
be nested are being rendered already. -/
def Visit.fault? (templates : Table (List Node)) (visit : Visit) : Option TemplateError :=
  if (templates.get? visit.name).isNone then some (.missingPartial visit.name)
  else if maxDepth ≤ visit.around.length then some (.partialDepth maxDepth)
  else none

lemma Visit.fault?_eq_none_iff {visit : Visit} :
    visit.fault? templates = none ↔
      (templates.get? visit.name).isSome = true ∧ visit.around.length < maxDepth := by
  rw [fault?]
  cases templates.get? visit.name with
  | none => simp
  | some nodes => simp

lemma Visit.fault?_eq_some_iff {visit : Visit} {e : TemplateError} :
    visit.fault? templates = some e ↔
      templates.get? visit.name = none ∧ e = .missingPartial visit.name ∨
      (templates.get? visit.name).isSome = true ∧ maxDepth ≤ visit.around.length ∧
        e = .partialDepth maxDepth := by
  rw [fault?]
  cases templates.get? visit.name with
  | none => simp [eq_comm]
  | some nodes => simp [eq_comm]

mutual

/-- The calls of nodes come of the calls among them and in the templates that they call. -/
theorem exists_of_mem_visitNodes {visit : String → Option Expr → Context → List Visit} {v : Visit} :
    (nodes : List Node) → (ctx : Context) → v ∈ visitNodes visit ctx nodes →
      ∃ name context inner, v ∈ visit name context inner
  | node :: rest, ctx, hv => by
    rw [visitNodes] at hv
    rcases List.mem_append.mp hv with hf | hr
    · exact exists_of_mem_visitNode node ctx hf
    · exact exists_of_mem_visitNodes rest ctx hr

theorem exists_of_mem_visitNode {visit : String → Option Expr → Context → List Visit} {v : Visit} :
    (node : Node) → (ctx : Context) → v ∈ visitNode visit ctx node →
      ∃ name context inner, v ∈ visit name context inner
  | .block kind param body inverse, ctx, hv => by
    rw [visitNode] at hv
    split at hv
    · exact exists_of_mem_visitNodes inverse ctx hv
    · obtain ⟨inner, _, hb⟩ := List.mem_flatMap.mp hv
      exact exists_of_mem_visitNodes body inner hb
  | .call name context, ctx, hv => ⟨name, context, ctx, hv⟩

end

/-- Calls are never nested deeper than they may be. -/
lemma length_around_le {around : List String} {visit : Visit}
    (room : around.length + left = maxDepth)
    (hv : visit ∈ visitCall templates left around name context ctx) :
    visit.around.length ≤ maxDepth := by
  induction left generalizing around name context ctx with
  | zero =>
    rw [visitCall] at hv
    split at hv <;> obtain rfl := List.mem_singleton.mp hv <;> exact Nat.le_of_eq room
  | succ left ih =>
    rw [visitCall] at hv
    rcases List.mem_cons.mp hv with rfl | inside
    · exact Nat.le.intro room
    · split at inside
      · cases inside
      · obtain ⟨name', context', inner, hm⟩ := exists_of_mem_visitNodes _ _ inside
        exact ih (by rw [List.length_cons]; omega) hm

lemma length_around_of_mem_visits {nodes : List Node} {visit : Visit}
    (hv : visit ∈ visits templates ctx nodes) : visit.around.length ≤ maxDepth := by
  obtain ⟨name, context, inner, hm⟩ := exists_of_mem_visitNodes nodes ctx hv
  exact length_around_le rfl hm

/-! ## The first fault -/

/-- The error of a rendering is the fault of the first of the calls that has one. -/
def FailsBy (templates : Table (List Node)) (r : Rendered) (visits : List Visit) : Prop :=
  r.error? = visits.findSome? (Visit.fault? templates)

namespace FailsBy

lemma ok (pieces : List Piece) : FailsBy templates (.ok pieces) [] := rfl

lemma append {x y : Rendered} {vs ws : List Visit} (hx : FailsBy templates x vs)
    (hy : FailsBy templates y ws) :
    FailsBy templates (do let first ← x; return first ++ (← y)) (vs ++ ws) := by
  rw [FailsBy, List.findSome?_append, ← hx, ← hy]
  cases x with
  | error e => rfl
  | ok first =>
    cases y with
    | error e => rfl
    | ok others => rfl

lemma inTurn {α : Type} {f : α → Rendered} {g : α → List Visit}
    (h : ∀ a, FailsBy templates (f a) (g a)) (as : List α) :
    FailsBy templates (Rendered.inTurn f as) (as.flatMap g) := by
  induction as with
  | nil => exact ok []
  | cons a as ih => exact (h a).append ih

end FailsBy

mutual

/-- Nodes fail by their calls if each call does. -/
theorem failsBy_renderNodes {visit : String → Option Expr → Context → List Visit}
    (h : ∀ name context ctx, FailsBy templates (call name context ctx) (visit name context ctx)) :
    (nodes : List Node) → (ctx : Context) →
      FailsBy templates (renderNodes call ctx nodes) (visitNodes visit ctx nodes)
  | [], _ => .ok []
  | node :: rest, ctx => (failsBy_renderNode h node ctx).append (failsBy_renderNodes h rest ctx)

theorem failsBy_renderNode {visit : String → Option Expr → Context → List Visit}
    (h : ∀ name context ctx, FailsBy templates (call name context ctx) (visit name context ctx)) :
    (node : Node) → (ctx : Context) →
      FailsBy templates (renderNode call ctx node) (visitNode visit ctx node)
  | .text s, _ => .ok _
  | .expression e, _ => .ok _
  | .directive d, _ => .ok _
  | .block kind param body inverse, ctx => by
    have hb := failsBy_renderNodes h body
    have hi := failsBy_renderNodes h inverse ctx
    rw [renderNode_block, visitNode]
    cases ctx.rounds? kind param with
    | none => exact hi
    | some rounds => exact .inTurn hb rounds
  | .call name context, ctx => h name context ctx

end

/-- So does a call.  The induction is on the calls that may still be nested, which together with
those around are as many as may be nested at all. -/
lemma failsBy_renderCall {around : List String} (room : around.length + left = maxDepth)
    (name : String) (context : Option Expr) (ctx : Context) :
    FailsBy templates (renderCall templates left name context ctx)
      (visitCall templates left around name context ctx) := by
  induction left generalizing around name context ctx with
  | zero =>
    have full : maxDepth ≤ around.length := Nat.le_of_eq room.symm
    rw [visitCall]
    cases hn : templates.get? name with
    | none =>
      rw [renderCall_of_missing hn]
      simp [FailsBy, Rendered.error?, Visit.fault?, hn]
    | some nodes =>
      rw [renderCall_of_nested hn]
      simp [FailsBy, Rendered.error?, Visit.fault?, hn, full]
  | succ left ih =>
    have free : ¬ maxDepth ≤ around.length := by omega
    rw [visitCall]
    cases hn : templates.get? name with
    | none =>
      rw [renderCall_of_missing hn]
      simp [FailsBy, Rendered.error?, Visit.fault?, hn]
    | some nodes =>
      have deeper : (name :: around).length + left = maxDepth := by
        rw [List.length_cons]
        omega
      have inside := failsBy_renderNodes (ih deeper) nodes (ctx.called context)
      have own : Visit.fault? templates ⟨around, name, ctx.called context⟩ = none := by
        simp [Visit.fault?, hn, free]
      rw [renderCall_of_registered hn, FailsBy, List.findSome?_cons, own]
      exact inside

/-- **Rendering fails by the first call that cannot be answered.** -/
theorem error?_renderTree (templates : Table (List Node)) (ctx : Context) (nodes : List Node) :
    (renderTree templates ctx nodes).error? =
      (visits templates ctx nodes).findSome? (Visit.fault? templates) :=
  failsBy_renderNodes (failsBy_renderCall rfl) nodes ctx

end Template

end Colloquy
