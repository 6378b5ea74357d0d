import Colloquy.Proofs.Json.Text
import Colloquy.Proofs.Marker
import Colloquy.Proofs.Table
import Colloquy.Template.Cache

/-!
# Data cannot write markers

The markers of a rendered text are the directives that the template executed, and none comes from
the data.  There are three ways from data into the text, and each is closed in its own way: the text
of an expression is stripped of reserved characters, JSON escapes them, and the fields of a marker
are stripped when it is encoded.

What a template writes itself is only required not to start a marker.  `Plain` says so of the
literals of a tree, and the property is carried through blocks and called templates to the pieces.
-/

namespace Colloquy

namespace Template

/-! ## Plain pieces -/

/-- No marker starts in the piece unless it is one. -/
def Piece.Plain : Piece → Prop
  | text s => Marker.start ∉ s
  | marker _ => True

/-- Rendering failed or gave plain pieces. -/
def Rendered.Plain (r : Rendered) : Prop := ∀ pieces, r = .ok pieces → ∀ p ∈ pieces, p.Plain

namespace Rendered.Plain

lemma error (e : TemplateError) : Plain (.error e) := fun _ h => by cases h

lemma ok {pieces : List Piece} (h : ∀ p ∈ pieces, p.Plain) : Plain (.ok pieces) := by
  intro pieces' he
  obtain rfl := Except.ok.inj he
  exact h

lemma append {x y : Rendered} (hx : Plain x) (hy : Plain y) :
    Plain (do let first ← x; return first ++ (← y)) := by
  rcases x with e | first
  · exact error e
  · rcases y with e | rest
    · exact error e
    · refine ok fun p hp => ?_
      rcases List.mem_append.mp hp with hf | hr
      · exact hx first rfl p hf
      · exact hy rest rfl p hr

/-- Rounds of a loop are plain together when each is. -/
lemma flatten {α : Type} {f : α → Rendered} (h : ∀ a, Plain (f a)) (as : List α) :
    Plain (do let rounds ← as.mapM f; return rounds.flatten) := by
  induction as with
  | nil => exact ok fun p hp => absurd hp List.not_mem_nil
  | cons a as ih =>
    have both := (h a).append ih
    rw [List.mapM_cons]
    cases hf : f a with
    | error e => exact error e
    | ok first =>
      rw [hf] at both
      cases hr : as.mapM f with
      | error e => exact error e
      | ok rest =>
        rw [hr] at both
        exact both

end Rendered.Plain

/-! ## What is written -/

mutual

/-- The texts that a node writes as they stand in the source, those of its branches included. -/
def Node.literals : Node → List String
  | .text s => [s]
  | .block _ _ body inverse => literals body ++ literals inverse
  | _ => []

def literals : List Node → List String
  | [] => []
  | node :: rest => node.literals ++ literals rest

end

/-- No marker starts in the literals of the tree. -/
def Plain (nodes : List Node) : Prop := ∀ s ∈ literals nodes, Marker.start ∉ s.toList

lemma start_notMem_of_shown {s : List Char} (h : Text.Shown s) : Marker.start ∉ s :=
  fun hm => absurd (h _ hm) (by decide)

lemma shown_jsonText (indent : Option Nat) (v : Json) : Text.Shown (jsonText indent v) := by
  have compact := Json.shown_print Json.Style.shown_compact 0 v
  rcases indent with _ | _ | width
  · exact compact
  · exact compact
  · exact Json.shown_print (Json.Style.shown_indented _) 0 v

lemma Directive.plain_piece (ctx : Context) (d : Directive) : (d.piece ctx).Plain := by
  cases d with
  | json value indent => exact start_notMem_of_shown (shown_jsonText _ _)
  | _ => trivial

lemma Rendered.Plain.single {p : Piece} (h : p.Plain) : Rendered.Plain (.ok [p]) := by
  refine ok fun q hq => ?_
  rw [List.mem_singleton.mp hq]
  exact h

/-! ## Rendering -/

mutual

/-- What a plain tree writes is plain, whatever the data, if what it calls is. -/
theorem plain_renderNodes {call : String → Option Expr → Context → Rendered}
    (hc : ∀ name context ctx, Rendered.Plain (call name context ctx)) :
    (nodes : List Node) → Plain nodes → (ctx : Context) →
    Rendered.Plain (renderNodes call ctx nodes)
  | [], _, _ => .ok fun p hp => absurd hp List.not_mem_nil
  | node :: rest, h, ctx => by
    have first := plain_renderNode hc node (fun s hs => h s (List.mem_append_left _ hs)) ctx
    have others := plain_renderNodes hc rest (fun s hs => h s (List.mem_append_right _ hs)) ctx
    exact first.append others

theorem plain_renderNode {call : String → Option Expr → Context → Rendered}
    (hc : ∀ name context ctx, Rendered.Plain (call name context ctx)) :
    (node : Node) → (∀ s ∈ node.literals, Marker.start ∉ s.toList) → (ctx : Context) →
    Rendered.Plain (renderNode call ctx node)
  | .text s, h, _ => .single (h s List.mem_cons_self)
  | .expression e, _, ctx => .single (Marker.unreserved_stripChars _).start_notMem
  | .directive d, _, ctx => .single (d.plain_piece ctx)
  | .block kind param body inverse, h, ctx => by
    have hb := plain_renderNodes hc body fun s hs => h s (List.mem_append_left _ hs)
    have hi := plain_renderNodes hc inverse fun s hs => h s (List.mem_append_right _ hs)
    cases kind with
    | ifTruthy =>
      rw [renderNode]
      split
      · exact hb ctx
      · exact hi ctx
    | unlessTruthy =>
      rw [renderNode]
      split
      · exact hi ctx
      · exact hb ctx
    | inScope =>
      rw [renderNode]
      split
      · exact hi ctx
      · split
        · exact hb _
        · exact hb ctx
    | forEach =>
      rw [renderNode]
      split
      · exact hi ctx
      · exact .flatten (fun scope => hb (ctx.enter scope)) _
  | .call name context, _, ctx => hc name context ctx

end

/-- A called template is as plain as the templates that there are.  The induction is on the calls
that may still be nested. -/
lemma plain_renderCall {templates : Table (List Node)}
    (ht : ∀ name nodes, templates.get? name = some nodes → Plain nodes) (depth : Nat)
    (name : String) (context : Option Expr) (ctx : Context) :
    Rendered.Plain (renderCall templates depth name context ctx) := by
  induction depth generalizing name context ctx with
  | zero =>
    rw [renderCall]
    split <;> exact .error _
  | succ depth ih =>
    rw [renderCall]
    split
    · exact .error _
    · rename_i nodes hn
      exact plain_renderNodes ih nodes (ht name nodes hn) _

/-! ## Scanning -/

/-- The segments of some pieces that come after a text: a marker is one in its normal form, and the
texts between two markers are one together, unless they are empty. -/
def outline (before : List Char) : List Piece → List Segment
  | [] => Segment.ofText before
  | .text s :: rest => outline (before ++ s) rest
  | .marker m :: rest => Segment.ofText before ++ .marker m.normal :: outline [] rest

/-- The scan of plain pieces that are written one after the other finds them again. -/
lemma scan_pieces {pieces : List Piece} (h : ∀ p ∈ pieces, p.Plain) {before : List Char}
    (hb : Marker.start ∉ before) :
    Segment.scan (before ++ pieces.flatMap Piece.encode) = outline before pieces := by
  -- By induction on the pieces, with the text since the last marker in `before`: no marker starts in
  -- it, so the scan finds the next piece that is a marker and nothing earlier.
  induction pieces generalizing before with
  | nil =>
    rw [List.flatMap_nil, List.append_nil]
    exact Segment.scan_of_start_notMem hb
  | cons p pieces ih =>
    have rest : ∀ q ∈ pieces, q.Plain := fun q hq => h q (List.mem_cons_of_mem p hq)
    rw [List.flatMap_cons, ← List.append_assoc]
    cases p with
    | text s =>
      have hs : Marker.start ∉ s := h (.text s) List.mem_cons_self
      exact ih rest (List.not_mem_append hb hs)
    | marker m =>
      have others := ih rest List.not_mem_nil
      rw [List.nil_append] at others
      rw [Piece.encode, Segment.scan_append_encode hb, others, outline]

/-- A template that begins a message for a role and writes a variable twice, as it is and as
JSON. -/
def quoting : Template where
  hash := ""
  nodes := [.text "hi", .directive (.role (.literal (.str "user\u001e"))),
    .expression (.path ⟨.scope 0, ["x"]⟩),
    .directive (.json (.path ⟨.scope 0, ["x"]⟩) none)]

end Template

end Colloquy
