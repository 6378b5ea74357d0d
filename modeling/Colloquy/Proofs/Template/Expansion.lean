import Colloquy.Proofs.Table
import Colloquy.Proofs.Template.Calls

/-!
# Called templates are macros

A call writes what the nodes of the called template write in its place.  `Expands` relates a tree to
one in which calls were replaced: a call without a context by the nodes of its template, and one
whose context is truthy by a `with` around them, at any depth and also inside the nodes that were
put in.  Whether a context is truthy depends on where the call is rendered, so the relation follows
the contexts in which a list of nodes is rendered.

`Expands.renders` says that what a tree writes is also written by its expansion, with the called
templates expanded as well; an expansion nests fewer calls, so it has no failure of its own.
`render_calls` puts this together with the first fault of a rendering.
-/

namespace Colloquy

namespace Template

open Rendered (inTurn inTurn_cons_eq_ok_iff inTurn_append_eq_ok inTurn_mono inTurn_singleton)

/-! ## Expansion -/

/-- The contexts of the body of a block that is rendered in some contexts. -/
def Entered (kind : BlockKind) (param : Expr) (here : Context → Prop) (inner : Context) : Prop :=
  ∃ ctx, here ctx ∧ ∃ rounds, ctx.rounds? kind param = some rounds ∧ inner ∈ rounds

/-- The contexts of the inverse of a block that is rendered in some contexts. -/
def Skipped (kind : BlockKind) (param : Expr) (here : Context → Prop) (ctx : Context) : Prop :=
  here ctx ∧ ctx.rounds? kind param = none

/-- The contexts of a template that is called with an expression in some contexts. -/
def Called (e : Expr) (here : Context → Prop) (inner : Context) : Prop :=
  ∃ ctx, here ctx ∧ ctx.called (some e) = inner

/-- Nodes that are rendered in some contexts, and the same with calls replaced. -/
inductive Expands (templates : Table (List Node)) :
    (here : Context → Prop) → List Node → List Node → Prop
  | nil {here} : Expands templates here [] []
  | leaf {here rest rest'} (node : Node) (isLeaf : node.isLeaf = true)
      (h : Expands templates here rest rest') :
      Expands templates here (node :: rest) (node :: rest')
  | block {here kind param body body' inverse inverse' rest rest'}
      (hb : Expands templates (Entered kind param here) body body')
      (hi : Expands templates (Skipped kind param here) inverse inverse')
      (h : Expands templates here rest rest') :
      Expands templates here (.block kind param body inverse :: rest)
        (.block kind param body' inverse' :: rest')
  /-- The call of a template by the nodes of the template. -/
  | inPlace {here name nodes nodes' rest rest'} (hn : templates.get? name = some nodes)
      (hc : Expands templates here nodes nodes') (h : Expands templates here rest rest') :
      Expands templates here (.call name none :: rest) (nodes' ++ rest')
  /-- The call of a template with a truthy context by a `with` around the nodes. -/
  | inScope {here name e nodes nodes' rest rest'} (hn : templates.get? name = some nodes)
      (ht : ∀ ctx, here ctx → truthy (ctx.eval e).json = true)
      (hc : Expands templates (Called e here) nodes nodes')
      (h : Expands templates here rest rest') :
      Expands templates here (.call name (some e) :: rest)
        (.block .inScope e nodes' [] :: rest')

variable {templates templates' : Table (List Node)} {here : Context → Prop}

/-- Nothing has to be replaced. -/
theorem Expands.refl : (nodes : List Node) → (here : Context → Prop) →
    Expands templates here nodes nodes
  | [], _ => .nil
  | .text s :: rest, here => .leaf (.text s) rfl (refl rest here)
  | .expression e :: rest, here => .leaf (.expression e) rfl (refl rest here)
  | .directive d :: rest, here => .leaf (.directive d) rfl (refl rest here)
  | .call name context :: rest, here => .leaf (.call name context) rfl (refl rest here)
  | .block kind param body inverse :: rest, here =>
    .block (refl body (Entered kind param here)) (refl inverse (Skipped kind param here))
      (refl rest here)

mutual

/-- The nodes with each call of a template without a context replaced by the nodes of the template.
Calls inside those nodes stay. -/
def inlined (templates : Table (List Node)) : List Node → List Node
  | [] => []
  | node :: rest => node.inlined templates ++ inlined templates rest

def Node.inlined (templates : Table (List Node)) : Node → List Node
  | .block kind param body inverse =>
    [.block kind param (Template.inlined templates body) (Template.inlined templates inverse)]
  | .call name none => (templates.get? name).getD [.call name none]
  | node => [node]

end

/-- This is an expansion in all contexts. -/
theorem expands_inlined : (nodes : List Node) → (here : Context → Prop) →
    Expands templates here nodes (inlined templates nodes)
  | [], _ => .nil
  | .text s :: rest, here => .leaf (.text s) rfl (expands_inlined rest here)
  | .expression e :: rest, here => .leaf (.expression e) rfl (expands_inlined rest here)
  | .directive d :: rest, here => .leaf (.directive d) rfl (expands_inlined rest here)
  | .call name (some e) :: rest, here =>
    .leaf (.call name (some e)) rfl (expands_inlined rest here)
  | .call name none :: rest, here => by
    have others : Expands templates here rest (inlined templates rest) :=
      expands_inlined rest here
    rw [inlined, Node.inlined]
    cases hn : templates.get? name with
    | none => exact .leaf (.call name none) rfl others
    | some nodes => exact .inPlace hn (.refl nodes here) others
  | .block kind param body inverse :: rest, here =>
    .block (expands_inlined body (Entered kind param here))
      (expands_inlined inverse (Skipped kind param here)) (expands_inlined rest here)

/-! ## Expansions write the same -/

/-- The contexts in which a template is rendered, according to a list of calls. -/
def Met (visits : List Visit) (name : String) (inner : Context) : Prop :=
  ∃ visit ∈ visits, visit.name = name ∧ visit.inner = inner

/-- Every template has an expansion among others, in the contexts in which it is rendered. -/
def Expanded (templates templates' : Table (List Node)) (visits : List Visit) : Prop :=
  ∀ name nodes, templates.get? name = some nodes →
    ∃ nodes', templates'.get? name = some nodes' ∧ Expands templates (Met visits name) nodes nodes'

lemma renderNodes_cons_eq_ok_iff {call : String → Option Expr → Context → Rendered} {ctx : Context}
    {node : Node} {rest : List Node} {pieces : List Piece} :
    renderNodes call ctx (node :: rest) = .ok pieces ↔
      ∃ first others, renderNode call ctx node = .ok first ∧
        renderNodes call ctx rest = .ok others ∧ pieces = first ++ others := by
  rw [renderNodes_eq_inTurn, renderNodes_eq_inTurn]
  exact inTurn_cons_eq_ok_iff

lemma renderNodes_append_eq_ok {call : String → Option Expr → Context → Rendered} {ctx : Context}
    {nodes rest : List Node} {first others : List Piece}
    (hn : renderNodes call ctx nodes = .ok first) (hr : renderNodes call ctx rest = .ok others) :
    renderNodes call ctx (nodes ++ rest) = .ok (first ++ others) := by
  rw [renderNodes_eq_inTurn] at hn hr ⊢
  exact inTurn_append_eq_ok hn hr

lemma renderNodes_singleton (call : String → Option Expr → Context → Rendered) (ctx : Context)
    (node : Node) : renderNodes call ctx [node] = renderNode call ctx node := by
  rw [renderNodes_eq_inTurn]
  exact inTurn_singleton _ node

lemma renderNode_inScope {call : String → Option Expr → Context → Rendered} {ctx : Context}
    {e : Expr} (ht : truthy (ctx.eval e).json = true) (body inverse : List Node) :
    renderNode call ctx (.block .inScope e body inverse) =
      renderNodes call (ctx.called (some e)) body := by
  have rounds : ctx.rounds? .inScope e = some [ctx.called (some e)] := by
    rw [Context.rounds?, ht]
    rfl
  rw [renderNode_block, rounds]
  exact inTurn_singleton _ _

/-- What nodes write in some contexts is written by others as well, when at least as many calls may
be nested. -/
def Mimics (templates templates' : Table (List Node)) (visits : List Visit) (left : Nat)
    (here : Context → Prop) (nodes nodes' : List Node) : Prop :=
  ∀ around ctx pieces, here ctx →
    visitNodes (visitCall templates left around) ctx nodes ⊆ visits →
    renderNodes (renderCall templates left) ctx nodes = .ok pieces →
    ∀ left', left ≤ left' → renderNodes (renderCall templates' left') ctx nodes' = .ok pieces

/-- A call that is answered is met, and its template is rendered with room for one call less. -/
lemma exists_of_answered {visits : List Visit} {left : Nat} {around : List String} {name : String}
    {context : Option Expr} {ctx : Context} {pieces : List Piece}
    (hv : visitCall templates left around name context ctx ⊆ visits)
    (hr : renderCall templates left name context ctx = .ok pieces) :
    ∃ nodes fewer, templates.get? name = some nodes ∧ left = fewer + 1 ∧
      Met visits name (ctx.called context) ∧
      visitNodes (visitCall templates fewer (name :: around)) (ctx.called context) nodes ⊆ visits ∧
      renderNodes (renderCall templates fewer) (ctx.called context) nodes = .ok pieces := by
  obtain ⟨nodes, fewer, hn, rfl, hp⟩ := exists_of_renderCall_eq_ok hr
  rw [visitCall, hn] at hv
  obtain ⟨own, inside⟩ := List.cons_subset.mp hv
  exact ⟨nodes, fewer, hn, rfl, ⟨_, own, rfl, rfl⟩, inside, hp⟩

/-- The same for a single node. -/
def MimicsNode (templates templates' : Table (List Node)) (visits : List Visit) (left : Nat)
    (here : Context → Prop) (node : Node) (nodes' : List Node) : Prop :=
  ∀ around ctx pieces, here ctx →
    visitNode (visitCall templates left around) ctx node ⊆ visits →
    renderNode (renderCall templates left) ctx node = .ok pieces →
    ∀ left', left ≤ left' → renderNodes (renderCall templates' left') ctx nodes' = .ok pieces

section Mimics

variable {visits : List Visit} {left : Nat} {rest rest' nodes nodes' : List Node} {name : String}

lemma mimics_nil : Mimics templates templates' visits left here [] [] := by
  intro around ctx pieces _ _ hr left' _
  rw [renderNodes] at hr ⊢
  exact hr

lemma mimics_cons {node : Node} (hn : MimicsNode templates templates' visits left here node nodes')
    (hr : Mimics templates templates' visits left here rest rest') :
    Mimics templates templates' visits left here (node :: rest) (nodes' ++ rest') := by
  intro around ctx pieces hc hv hp left' hl
  obtain ⟨first, others, hf, ho, rfl⟩ := renderNodes_cons_eq_ok_iff.mp hp
  rw [visitNodes, List.append_subset] at hv
  exact renderNodes_append_eq_ok (hn around ctx first hc hv.1 hf left' hl)
    (hr around ctx others hc hv.2 ho left' hl)

lemma mimicsNode_block {kind : BlockKind} {param : Expr} {body body' inverse inverse' : List Node}
    (hb : Mimics templates templates' visits left (Entered kind param here) body body')
    (hi : Mimics templates templates' visits left (Skipped kind param here) inverse inverse') :
    MimicsNode templates templates' visits left here (.block kind param body inverse)
      [.block kind param body' inverse'] := by
  intro around ctx pieces hc hv hp left' hl
  rw [visitNode] at hv
  rw [renderNode_block] at hp
  rw [renderNodes_singleton, renderNode_block]
  cases hk : ctx.rounds? kind param with
  | none =>
    rw [hk] at hp hv
    exact hi around ctx pieces ⟨hc, hk⟩ hv hp left' hl
  | some rounds =>
    rw [hk] at hp hv
    refine inTurn_mono (fun inner hm written hw => ?_) hp
    have inside : visitNodes (visitCall templates left around) inner body ⊆ visits :=
      fun v hvm => hv (List.mem_flatMap.mpr ⟨inner, hm, hvm⟩)
    exact hb around inner written ⟨ctx, hc, rounds, hk, hm⟩ inside hw left' hl

/-- A call that stays writes the same when the template behind it does, among the others. -/
lemma mimicsNode_call {context : Option Expr}
    (hx : ∀ nodes, templates.get? name = some nodes → ∃ nodes',
      templates'.get? name = some nodes' ∧ ∀ fewer < left,
        Mimics templates templates' visits fewer (Met visits name) nodes nodes') :
    MimicsNode templates templates' visits left here (.call name context)
      [.call name context] := by
  intro around ctx pieces hc hv hp left' hl
  obtain ⟨nodes, fewer, hn, rfl, met, inside, hp⟩ := exists_of_answered hv hp
  obtain ⟨nodes', hn', mimics⟩ := hx nodes hn
  obtain ⟨more, rfl⟩ := Nat.exists_eq_add_of_lt hl
  rw [renderNodes_singleton, renderNode, renderCall_of_registered hn']
  exact mimics fewer (Nat.lt_succ_self fewer) _ _ pieces met inside hp _ (by omega)

lemma mimicsNode_inPlace (hn : templates.get? name = some nodes)
    (hx : ∀ fewer < left, Mimics templates templates' visits fewer here nodes nodes') :
    MimicsNode templates templates' visits left here (.call name none) nodes' := by
  intro around ctx pieces hc hv hp left' hl
  obtain ⟨_, fewer, hn', rfl, _, inside, hp⟩ := exists_of_answered hv hp
  obtain rfl := Option.some.inj (hn.symm.trans hn')
  exact hx fewer (Nat.lt_succ_self fewer) _ ctx pieces hc inside hp left' (by omega)

lemma mimicsNode_inScope {e : Expr} (hn : templates.get? name = some nodes)
    (ht : ∀ ctx, here ctx → truthy (ctx.eval e).json = true)
    (hx : ∀ fewer < left, Mimics templates templates' visits fewer (Called e here) nodes nodes') :
    MimicsNode templates templates' visits left here (.call name (some e))
      [.block .inScope e nodes' []] := by
  intro around ctx pieces hc hv hp left' hl
  obtain ⟨_, fewer, hn', rfl, _, inside, hp⟩ := exists_of_answered hv hp
  obtain rfl := Option.some.inj (hn.symm.trans hn')
  rw [renderNodes_singleton, renderNode_inScope (ht ctx hc)]
  exact hx fewer (Nat.lt_succ_self fewer) _ _ pieces ⟨ctx, hc, rfl⟩ inside hp left' (by omega)

end Mimics

/-- **An expansion writes what was written before.**  The induction is on the calls that may be
nested, for the templates behind a call, and for each number on the expansion. -/
theorem Expands.mimics {visits : List Visit} (he : Expanded templates templates' visits)
    (left : Nat) {nodes nodes' : List Node} (h : Expands templates here nodes nodes') :
    Mimics templates templates' visits left here nodes nodes' := by
  induction left using Nat.strongRecOn generalizing here nodes nodes' with
  | ind left ih =>
    induction h with
    | nil => exact mimics_nil
    | @leaf here rest rest' node isLeaf h rest_ih =>
      refine @mimics_cons _ _ here _ _ _ _ [node] node ?_ rest_ih
      cases node with
      | block => cases isLeaf
      | call name context =>
        refine mimicsNode_call fun nodes hn => ?_
        obtain ⟨nodes', hn', hx⟩ := he name nodes hn
        exact ⟨nodes', hn', fun fewer hl => ih fewer hl hx⟩
      | _ =>
        intro around ctx pieces _ _ hp left' _
        rw [renderNodes_singleton]
        exact hp
    | block hb hi h body_ih inverse_ih rest_ih =>
      exact mimics_cons (mimicsNode_block body_ih inverse_ih) rest_ih
    | inPlace hn hx h _ rest_ih =>
      exact mimics_cons (mimicsNode_inPlace hn fun fewer hl => ih fewer hl hx) rest_ih
    | inScope hn ht hx h _ rest_ih =>
      exact mimics_cons (mimicsNode_inScope hn ht fun fewer hl => ih fewer hl hx) rest_ih

end Template

/-! ## Templates -/

/-- The trees of the templates that may be called. -/
def Partials.trees (partials : Partials) : Table (List Template.Node) :=
  partials.map fun (name, called) => (name, called.nodes)

namespace Template

/-- All calls that rendering a template comes to, in order. -/
def calls (t : Template) (partials : Partials) (ctx : Context) : List Visit :=
  visits partials.trees ctx t.nodes

/-- The template with the nodes of others in place of the calls without a context. -/
def spelledOut (t : Template) (partials : Partials) : Template :=
  { t with nodes := inlined partials.trees t.nodes }

/-- A template and those that it may call, and what may stand for them in a context: there are
expansions in all places where calls are rendered. -/
structure ExpandsTo (t : Template) (partials : Partials) (ctx : Context) (t' : Template)
    (partials' : Partials) : Prop where
  nodes : Expands partials.trees (· = ctx) t.nodes t'.nodes
  called : Expanded partials.trees partials'.trees (t.calls partials ctx)

lemma get?_trees (partials : Partials) (name : String) :
    partials.trees.get? name = (partials.get? name).map nodes := Table.get?_map nodes partials name

lemma render_eq_error_iff {t : Template} {partials : Partials} {ctx : Context} {e : TemplateError} :
    t.render partials ctx = .error e ↔ (t.pieces partials ctx).error? = some e := by
  rw [render]
  cases t.pieces partials ctx with
  | error fault => simp [Rendered.error?, bind, Except.bind]
  | ok pieces => simp [Rendered.error?, bind, Except.bind, pure, Except.pure]

lemma render_eq_ok_iff {t : Template} {partials : Partials} {ctx : Context} {out : String} :
    t.render partials ctx = .ok out ↔
      ∃ pieces, t.pieces partials ctx = .ok pieces ∧
        String.ofList (pieces.flatMap Piece.encode) = out := by
  rw [render]
  cases t.pieces partials ctx with
  | error fault => simp [bind, Except.bind]
  | ok pieces => simp [bind, Except.bind, pure, Except.pure]

/-- An expansion renders to the same text. -/
lemma ExpandsTo.render {t t' : Template} {partials partials' : Partials} {ctx : Context}
    {out : String} (h : t.ExpandsTo partials ctx t' partials')
    (hr : t.render partials ctx = .ok out) : t'.render partials' ctx = .ok out := by
  obtain ⟨pieces, hp, rfl⟩ := render_eq_ok_iff.mp hr
  have same := h.nodes.mimics h.called maxDepth [] ctx pieces rfl (List.Subset.refl _) hp maxDepth
    (Nat.le_refl maxDepth)
  exact render_eq_ok_iff.mpr ⟨pieces, same, rfl⟩

lemma expandsTo_spelledOut (t : Template) (partials : Partials) (ctx : Context) :
    t.ExpandsTo partials ctx (t.spelledOut partials) partials where
  nodes := expands_inlined t.nodes (· = ctx)
  called := fun _ nodes hn => ⟨nodes, hn, .refl nodes _⟩

/-- **Called templates are macros with a guard on their depth.**  Rendering always ends.  It fails
with the fault of the first call that it comes to and cannot answer, because no template has the
name or because as many as sixteen are being rendered around the call, and by nothing else.  When it
does not fail, the text is also that of the template with the nodes of others in place of its calls,
and of every expansion of it and of those that it calls. -/
theorem render_calls (t : Template) (partials : Partials) (ctx : Context) :
    (∀ e, t.render partials ctx = .error e ↔
      ∃ before visit after, t.calls partials ctx = before ++ visit :: after ∧
        (∀ earlier ∈ before, (partials.get? earlier.name).isSome = true ∧
          earlier.around.length < 16) ∧
        (partials.get? visit.name = none ∧ e = .missingPartial visit.name ∨
          (partials.get? visit.name).isSome = true ∧ visit.around.length = 16 ∧
            e = .partialDepth 16)) ∧
    ∀ out, t.render partials ctx = .ok out →
      (t.spelledOut partials).render partials ctx = .ok out ∧
      ∀ t' partials', t.ExpandsTo partials ctx t' partials' →
        t'.render partials' ctx = .ok out := by
  have failure : (t.pieces partials ctx).error? =
      (t.calls partials ctx).findSome? (Visit.fault? partials.trees) :=
    error?_renderTree partials.trees ctx t.nodes
  have answered (visit : Visit) : visit.fault? partials.trees = none ↔
      (partials.get? visit.name).isSome = true ∧ visit.around.length < 16 := by
    rw [Visit.fault?_eq_none_iff, get?_trees, Option.isSome_map]
    exact Iff.rfl
  have faulty (visit : Visit) (e : TemplateError) (hv : visit ∈ t.calls partials ctx) :
      visit.fault? partials.trees = some e ↔
        (partials.get? visit.name = none ∧ e = .missingPartial visit.name ∨
          (partials.get? visit.name).isSome = true ∧ visit.around.length = 16 ∧
            e = .partialDepth 16) := by
    have bounded : visit.around.length ≤ 16 := length_around_of_mem_visits hv
    have deepest : maxDepth ≤ visit.around.length ↔ visit.around.length = 16 := by
      rw [maxDepth]
      omega
    rw [Visit.fault?_eq_some_iff, get?_trees, Option.isSome_map, Option.map_eq_none_iff, deepest,
      maxDepth]
  refine ⟨fun e => ?_, fun out hr => ⟨(expandsTo_spelledOut t partials ctx).render hr,
    fun t' partials' h => h.render hr⟩⟩
  rw [render_eq_error_iff, failure, List.findSome?_eq_some_iff]
  constructor
  · rintro ⟨before, visit, after, hc, hf, hb⟩
    refine ⟨before, visit, after, hc, fun earlier he => (answered earlier).mp (hb earlier he),
      (faulty visit e ?_).mp hf⟩
    simp [hc]
  · rintro ⟨before, visit, after, hc, hb, hf⟩
    refine ⟨before, visit, after, hc, (faulty visit e ?_).mpr hf,
      fun earlier he => (answered earlier).mpr (hb earlier he)⟩
    simp [hc]

/-- A template that writes a name in brackets. -/
def card : Template where
  hash := ""
  nodes := [.text "[", .expression (.path ⟨.scope 0, ["name"]⟩), .text "]"]

/-- A template that calls a card with a member of the scope. -/
def cover : Template where
  hash := ""
  nodes := [.call "card" (some (.path ⟨.scope 0, ["boss"]⟩))]

/-- The same with a `with` around the nodes of the card. -/
def coverInScope : Template where
  hash := ""
  nodes := [.block .inScope (.path ⟨.scope 0, ["boss"]⟩) card.nodes []]

def staff : Context where
  root := .obj [("boss", .obj [("name", .str "c")])]

theorem render_calls_card :
    cover.render [("card", card)] staff = .ok "[c]" ∧
      coverInScope.render [("card", card)] staff = .ok "[c]" := by
  have written : cover.render [("card", card)] staff = .ok "[c]" := by decide
  have expands : cover.ExpandsTo [("card", card)] staff coverInScope [("card", card)] := {
    nodes := .inScope rfl (fun ctx hc => by rw [hc]; decide) (.refl card.nodes _) .nil
    called := fun _ nodes hn => ⟨nodes, hn, .refl nodes _⟩ }
  exact ⟨written, ((render_calls _ _ _).2 _ written).2 _ _ expands⟩

end Template

end Colloquy
