import Colloquy.Proofs.Template.Grammar

/-!
# The tree of a template is its derivation

What the grammar says of whole sources.  A source that can be cut into lexemes has a tree exactly if
each of its tags is well formed on its own and the tags together are derived by the grammar, and the
tree is the derived one.

Two readings of the tags that need no tree say what that means.  `placed` follows the tags with a
stack of the clauses that are open, as an editor that shows where the cursor is, and gives each leaf
with the branches that it stands in: these are the leaves of the tree.  `nested` writes each chained
clause as a block of its own inside the inverse of the clause before it: this is another way to
write the same tree.
-/

namespace Colloquy.Template

/-! ## Leaves and their places -/

/-- A branch of a clause: its body, or its inverse. -/
structure Branch where
  clause : Clause
  inverse : Bool
  deriving DecidableEq, Repr

mutual

/-- The leaves of a node with the branches around each, the innermost first. -/
def Node.leavesIn (around : List Branch) : Node → List (List Branch × Node)
  | .block kind param body inverse =>
    leavesIn (⟨⟨kind, param⟩, false⟩ :: around) body ++
      leavesIn (⟨⟨kind, param⟩, true⟩ :: around) inverse
  | node => [(around, node)]

def leavesIn (around : List Branch) : List Node → List (List Branch × Node)
  | [] => []
  | node :: rest => node.leavesIn around ++ leavesIn around rest

end

/-- A branch that is open, and whether its clause is chained to the one before. -/
structure Frame where
  branch : Branch
  chained : Bool

/-- The frames after a closing tag, which closes a clause with all that are chained to it. -/
def Frame.close : List Frame → List Frame
  | [] => []
  | frame :: frames => if frame.chained then close frames else frames

/-- The frames after an `else`, by which the innermost clause goes on to its inverse. -/
def Frame.turn : List Frame → List Frame
  | [] => []
  | frame :: frames => ⟨⟨frame.branch.clause, true⟩, frame.chained⟩ :: frames

/-- The leaves of a row of terminals, each with the branches that are open where it stands. -/
def placed (frames : List Frame) : List Terminal → List (List Branch × Node)
  | [] => []
  | .leaf node :: rest => (frames.map Frame.branch, node) :: placed frames rest
  | .opening clause :: rest => placed (⟨⟨clause, false⟩, false⟩ :: frames) rest
  | .closing _ :: rest => placed (Frame.close frames) rest
  | .otherwise :: rest => placed (Frame.turn frames) rest
  | .chained clause :: rest => placed (⟨⟨clause, false⟩, true⟩ :: Frame.turn frames) rest

/-- No leaf of the row is a block. -/
def Proper (ts : List Terminal) : Prop := ∀ node, Terminal.leaf node ∈ ts → node.isLeaf = true

@[simp] lemma proper_cons {t : Terminal} {ts : List Terminal} :
    Proper (t :: ts) ↔ (∀ node, t = .leaf node → node.isLeaf = true) ∧ Proper ts := by
  simp only [Proper, List.mem_cons, or_imp, forall_and, eq_comm]

@[simp] lemma proper_append {ts us : List Terminal} :
    Proper (ts ++ us) ↔ Proper ts ∧ Proper us := by
  simp [Proper, or_imp, forall_and]

lemma leavesIn_of_isLeaf {node : Node} (h : node.isLeaf = true) (around : List Branch) :
    node.leavesIn around = [(around, node)] := by
  cases node with
  | block => cases h
  | _ => rfl

mutual

/-- The leaves of a derived row stand in the tree where they stand in the row. -/
theorem Body.placed_eq {ts : List Terminal} {nodes : List Node} :
    Body ts nodes → Proper ts → ∀ (frames : List Frame) (rest : List Terminal),
      placed frames (ts ++ rest) = leavesIn (frames.map Frame.branch) nodes ++ placed frames rest
  | .nil, _, frames, rest => rfl
  | .leaf node h, hp, frames, rest => by
    obtain ⟨isLeaf, hr⟩ := proper_cons.mp hp
    have own := leavesIn_of_isLeaf (isLeaf node rfl) (frames.map Frame.branch)
    have others := h.placed_eq hr frames rest
    rw [List.cons_append, placed, others, leavesIn, own]
    rfl
  | @Body.block first second behind body inverse nodes clause hb ht h, hp, frames, rest => by
    obtain ⟨hf, hs, hr⟩ : Proper first ∧ Proper second ∧ Proper behind := by
      simpa [Clause.close, and_assoc] using hp
    have inBody := hb.placed_eq hf (⟨⟨clause, false⟩, false⟩ :: frames)
      (second ++ clause.close :: (behind ++ rest))
    have inInverse := ht.placed_eq hs ⟨⟨clause, false⟩, false⟩ frames clause.kind.keyword
      (behind ++ rest)
    have others := h.placed_eq hr frames rest
    calc
      placed frames (.opening clause :: (first ++ second ++ clause.close :: behind) ++ rest)
        = placed (⟨⟨clause, false⟩, false⟩ :: frames)
            (first ++ (second ++ clause.close :: (behind ++ rest))) := by simp [placed]
      _ = leavesIn (⟨clause, false⟩ :: frames.map Frame.branch) body ++
            (leavesIn (⟨clause, true⟩ :: frames.map Frame.branch) inverse ++
              placed frames (behind ++ rest)) := by
        rw [inBody, Clause.close, inInverse]
        rfl
      _ = leavesIn (frames.map Frame.branch) (clause.node body inverse :: nodes) ++
            placed frames rest := by
        rw [others, leavesIn, Clause.node, Node.leavesIn]
        simp only [List.append_assoc]

/-- The leaves of alternatives stand in the inverse of the clause that they follow. -/
theorem Tail.placed_eq {ts : List Terminal} {inverse : List Node} :
    Tail ts inverse → Proper ts →
      ∀ (frame : Frame) (frames : List Frame) (name : String) (rest : List Terminal),
        placed (frame :: frames) (ts ++ .closing name :: rest) =
          leavesIn (⟨frame.branch.clause, true⟩ :: frames.map Frame.branch) inverse ++
            placed (Frame.close (frame :: frames)) rest
  | .none, _, frame, frames, name, rest => rfl
  | .otherwise h, hp, frame, frames, name, rest => by
    have inside := h.placed_eq (proper_cons.mp hp).2 (Frame.turn (frame :: frames))
      (.closing name :: rest)
    rw [List.cons_append, placed, inside]
    rfl
  | @Tail.chained first second body inverse clause hb ht, hp, frame, frames, name, rest => by
    obtain ⟨hf, hs⟩ := proper_append.mp (proper_cons.mp hp).2
    have inBody := hb.placed_eq hf (⟨⟨clause, false⟩, true⟩ :: Frame.turn (frame :: frames))
      (second ++ .closing name :: rest)
    have inInverse := ht.placed_eq hs ⟨⟨clause, false⟩, true⟩ (Frame.turn (frame :: frames)) name
      rest
    rw [List.cons_append, placed, List.append_assoc, inBody, inInverse, leavesIn, leavesIn,
      Clause.node, Node.leavesIn]
    simp [Frame.turn, Frame.close]

end

/-! ## Chains as nested blocks -/

/-- A row of terminals in which each chained clause is written as a block of its own: it is opened
behind an `else` and closed before the tag that closes its chain.  For each open block, `chains` has
the clauses that were chained to it so far, the last one first. -/
def nested (chains : List (List Clause)) : List Terminal → List Terminal
  | [] => []
  | .leaf node :: rest => .leaf node :: nested chains rest
  | .opening clause :: rest => .opening clause :: nested ([] :: chains) rest
  | .otherwise :: rest => .otherwise :: nested chains rest
  | .chained clause :: rest =>
    match chains with
    | [] => .chained clause :: nested [] rest
    | chain :: chains => .otherwise :: .opening clause :: nested ((clause :: chain) :: chains) rest
  | .closing name :: rest =>
    match chains with
    | [] => .closing name :: nested [] rest
    | chain :: chains => chain.map Clause.close ++ .closing name :: nested chains rest

/-- No clause of the row is chained to another. -/
def Unchained (ts : List Terminal) : Prop := ∀ clause, Terminal.chained clause ∉ ts

lemma unchained_nil : Unchained [] := fun _ => List.not_mem_nil

@[simp] lemma unchained_cons {t : Terminal} {ts : List Terminal} :
    Unchained (t :: ts) ↔ (∀ clause, t ≠ .chained clause) ∧ Unchained ts := by
  simp only [Unchained, List.mem_cons, not_or, forall_and, ne_eq, eq_comm]

@[simp] lemma unchained_append {ts us : List Terminal} :
    Unchained (ts ++ us) ↔ Unchained ts ∧ Unchained us := by
  simp only [Unchained, List.mem_append, not_or, forall_and]

mutual

/-- A derived row is derived as well when its chains are written as nested blocks. -/
theorem Body.exists_nested {ts : List Terminal} {nodes : List Node} :
    Body ts nodes → ∀ (chains : List (List Clause)) (rest : List Terminal),
      ∃ us, Body us nodes ∧ Unchained us ∧ nested chains (ts ++ rest) = us ++ nested chains rest
  | .nil, chains, rest => ⟨[], .nil, unchained_nil, rfl⟩
  | .leaf node h, chains, rest => by
    obtain ⟨us, hu, hu', he⟩ := h.exists_nested chains rest
    refine ⟨.leaf node :: us, .leaf node hu, by simpa using hu', ?_⟩
    rw [List.cons_append, nested, he]
    rfl
  | @Body.block first second behind _ _ _ clause hb ht h, chains, rest => by
    obtain ⟨us, hu, hu', he⟩ := hb.exists_nested ([] :: chains)
      (second ++ clause.close :: (behind ++ rest))
    obtain ⟨vs, hv, hv', he'⟩ := ht.exists_nested [] chains clause.kind.keyword (behind ++ rest)
    obtain ⟨ws, hw, hw', he''⟩ := h.exists_nested chains rest
    refine ⟨_, .block clause hu hv hw, by simp [Clause.close, hu', hv', hw'], ?_⟩
    rw [List.cons_append, nested, List.append_assoc, List.append_assoc, List.cons_append, he,
      Clause.close, he', he'']
    simp

/-- So are the alternatives of a block, with the tags that close what was chained to it before. -/
theorem Tail.exists_nested {ts : List Terminal} {inverse : List Node} :
    Tail ts inverse → ∀ (chain : List Clause) (chains : List (List Clause)) (name : String)
      (rest : List Terminal),
      ∃ us, Tail us inverse ∧ Unchained us ∧
        nested (chain :: chains) (ts ++ .closing name :: rest) =
          us ++ (chain.map Clause.close ++ .closing name :: nested chains rest)
  | .none, chain, chains, name, rest => ⟨[], .none, unchained_nil, rfl⟩
  | .otherwise h, chain, chains, name, rest => by
    obtain ⟨us, hu, hu', he⟩ := h.exists_nested (chain :: chains) (.closing name :: rest)
    refine ⟨.otherwise :: us, .otherwise hu, by simpa using hu', ?_⟩
    rw [List.cons_append, nested, he]
    rfl
  | @Tail.chained first second _ _ clause hb ht, chain, chains, name, rest => by
    obtain ⟨us, hu, hu', he⟩ := hb.exists_nested ((clause :: chain) :: chains)
      (second ++ .closing name :: rest)
    obtain ⟨vs, hv, hv', he'⟩ := ht.exists_nested (clause :: chain) chains name rest
    -- The clause has a closing tag of its own now, as the only block of the inverse.
    refine ⟨_, .otherwise (.block clause hu hv .nil),
      by simp [Clause.close, hu', hv', unchained_nil], ?_⟩
    rw [List.cons_append, nested, List.append_assoc, he, he']
    simp

end

/-! ## Sources -/

/-- The terminal that a tag is, if it is well formed on its own: a clause behind an `else` is read
like any other. -/
def Tag.terminal? : Tag → Option Terminal
  | leaf node => some (.leaf node)
  | opening clause => some (.opening clause)
  | closing name => some (.closing name)
  | alternative none => some .otherwise
  | alternative (some (.ok clause)) => some (.chained clause)
  | alternative (some (.error _)) => none

/-- The terminal that the inside of a tag is read as. -/
def readTerminal? (body : List Char) : Option Terminal :=
  (Tag.read body).toOption.bind Tag.terminal?

/-- The token is a text or a tag that is well formed on its own. -/
def Token.WellFormed : Token → Prop
  | .text _ => True
  | .tag _ body => (readTerminal? body).isSome = true

/-- The lexeme is no tag or a tag that is well formed on its own. -/
def Lexeme.WellFormed (lexeme : Lexeme) : Prop :=
  match lexeme.content with
  | .tag body _ _ => (readTerminal? body).isSome = true
  | .text | .comment _ _ => True

/-- The terminals of some tokens; an empty text is none. -/
def terminals (tokens : List Token) : List Terminal :=
  tokens.flatMap fun
    | .text s => if s.isEmpty then [] else [.leaf (.text (String.ofList s))]
    | .tag _ body => (readTerminal? body).toList

instance : DecidablePred Lexeme.WellFormed
  | ⟨_, _, .tag body _ _⟩ => inferInstanceAs (Decidable ((readTerminal? body).isSome = true))
  | ⟨_, _, .text⟩ | ⟨_, _, .comment _ _⟩ => isTrue trivial

lemma terminal?_eq_some_iff {tag : Tag} {t : Terminal} : tag.terminal? = some t ↔ tag = t.tag := by
  constructor
  · intro h
    match tag with
    | .leaf _ | .opening _ | .closing _ | .alternative none | .alternative (some (.ok _)) =>
      rw [← Option.some.inj h]
      rfl
    | .alternative (some (.error _)) => cases h
  · rintro rfl
    cases t <;> rfl

lemma readTerminal?_eq_some_iff {body : List Char} {t : Terminal} :
    readTerminal? body = some t ↔ Tag.read body = .ok t.tag := by
  rw [readTerminal?]
  cases Tag.read body with
  | error fault => exact ⟨fun h => (by cases h), fun h => (by cases h)⟩
  | ok tag => exact terminal?_eq_some_iff.trans ⟨congrArg Except.ok, Except.ok.inj⟩

lemma readTerminal?_opening {inside : List Char} {clause : Clause}
    (h : readClause .blockWithoutName inside = .ok clause) :
    readTerminal? ('#' :: inside) = some (.opening clause) := by
  rw [readTerminal?_eq_some_iff, Tag.read, h]
  rfl

lemma terminals_text (s : List Char) (tokens : List Token) :
    terminals (.text s :: tokens) =
      (if s.isEmpty then [] else [.leaf (.text (String.ofList s))]) ++ terminals tokens :=
  List.flatMap_cons

lemma terminals_tag (position : Position) (body : List Char) (tokens : List Token) :
    terminals (.tag position body :: tokens) = (readTerminal? body).toList ++ terminals tokens :=
  List.flatMap_cons

lemma wellFormed_controlled_iff {trims : Bool} {lexemes : List Lexeme} :
    (∀ token ∈ controlled trims lexemes, token.WellFormed) ↔
      ∀ lexeme ∈ lexemes, lexeme.WellFormed := by
  induction lexemes generalizing trims with
  | nil => simp [controlled]
  | cons lexeme rest ih =>
    obtain ⟨position, span, content⟩ := lexeme
    rw [controlled.eq_def, List.forall_mem_cons]
    cases content with
    | text => exact List.forall_mem_cons.trans (and_congr Iff.rfl ih)
    | tag body before after => exact List.forall_mem_cons.trans (and_congr Iff.rfl ih)
    | comment before after => exact ih.trans (and_iff_right trivial).symm

lemma spells_terminals {tokens : List Token} (h : ∀ token ∈ tokens, token.WellFormed) :
    Spells (Item.ofTokens tokens) (terminals tokens) := by
  induction tokens with
  | nil => exact .nil
  | cons token tokens ih =>
    obtain ⟨own, others⟩ := List.forall_mem_cons.mp h
    have rest := ih others
    cases token with
    | text s =>
      rw [Item.ofTokens, terminals_text]
      split
      · exact rest
      · exact .cons (.leaf (.text (String.ofList s))) rest
    | tag position body =>
      obtain ⟨t, ht⟩ := Option.isSome_iff_exists.mp own
      rw [Item.ofTokens, terminals_tag, ht, readTerminal?_eq_some_iff.mp ht]
      exact .cons t rest

lemma wellFormed_of_spells {tokens : List Token} {ts : List Terminal}
    (h : Spells (Item.ofTokens tokens) ts) : ∀ token ∈ tokens, token.WellFormed := by
  induction tokens generalizing ts with
  | nil => exact fun token ht => absurd ht List.not_mem_nil
  | cons token tokens ih =>
    cases token with
    | text s =>
      rw [Item.ofTokens] at h
      split at h
      · exact List.forall_mem_cons.mpr ⟨trivial, ih h⟩
      · obtain ⟨t, ts, rfl, -, hr⟩ := List.map_eq_cons_iff.mp h.symm
        exact List.forall_mem_cons.mpr ⟨trivial, ih hr.symm⟩
    | tag position body =>
      obtain ⟨t, ts, rfl, ht, hr⟩ := List.map_eq_cons_iff.mp h.symm
      have own : readTerminal? body = some t := readTerminal?_eq_some_iff.mpr ht.symm
      exact List.forall_mem_cons.mpr ⟨Option.isSome_of_eq_some own, ih hr.symm⟩

/-- Tokens with a tree are well formed, and their terminals derive it. -/
lemma treeOfItems_ofTokens_iff {tokens : List Token} {nodes : List Node} :
    treeOfItems (Item.ofTokens tokens) = .ok nodes ↔
      (∀ token ∈ tokens, token.WellFormed) ∧ Body (terminals tokens) nodes := by
  rw [treeOfItems_eq_ok_iff]
  constructor
  · rintro ⟨ts, hs, hb⟩
    have wellFormed := wellFormed_of_spells hs
    obtain rfl := hs.unique (spells_terminals wellFormed)
    exact ⟨wellFormed, hb⟩
  · rintro ⟨wellFormed, hb⟩
    exact ⟨_, spells_terminals wellFormed, hb⟩

/-- The node is neither a text nor a block, so it may stand for a tag. -/
def Node.standsForTag : Node → Bool
  | .text _ | .block .. => false
  | _ => true

lemma standsForTag_of_readCall {body : List Char} {node : Node} (h : readCall body = .ok node) :
    node.standsForTag = true := by
  obtain ⟨args, _, h⟩ := exists_of_bind_eq_ok h
  cases args with
  | nil => cases h
  | cons name rest =>
    match rest with
    | [] =>
      obtain rfl := Except.ok.inj h
      rfl
    | [raw] =>
      obtain ⟨e, _, h⟩ := exists_of_bind_eq_ok h
      obtain rfl := Except.ok.inj h
      rfl
    | _ :: _ :: _ => cases h

lemma standsForTag_of_readPlain {body : List Char} {node : Node} (h : readPlain body = .ok node) :
    node.standsForTag = true := by
  obtain ⟨args, _, h⟩ := exists_of_bind_eq_ok h
  cases args with
  | nil => cases h
  | cons head rest =>
    dsimp only at h
    split at h
    · obtain ⟨arguments, _, h⟩ := exists_of_bind_eq_ok h
      obtain ⟨d, _, h⟩ := exists_of_bind_eq_ok h
      obtain rfl := Except.ok.inj h
      rfl
    · split at h
      · obtain ⟨e, _, h⟩ := exists_of_bind_eq_ok h
        obtain rfl := Except.ok.inj h
        rfl
      · cases h

/-- A tag is read as no text and no block. -/
lemma standsForTag_of_read {body : List Char} {node : Node}
    (h : Tag.read body = .ok (.leaf node)) : node.standsForTag = true := by
  have ofLeaf {x : Except Fault Node} (hx : x.map Tag.leaf = .ok (.leaf node)) : x = .ok node := by
    cases x with
    | error fault => cases hx
    | ok n => rw [Tag.leaf.inj (Except.ok.inj hx)]
  rw [Tag.read.eq_def] at h
  split at h
  · cases h
  · rename_i rest
    cases hc : readClause .blockWithoutName rest <;> rw [hc] at h <;> cases h
  · cases h
  · split at h
    · cases h
    · cases h
    · split at h
      · exact standsForTag_of_readCall (ofLeaf h)
      · exact standsForTag_of_readPlain (ofLeaf h)

lemma isLeaf_of_read {body : List Char} {node : Node} (h : Tag.read body = .ok (.leaf node)) :
    node.isLeaf = true := by
  have := standsForTag_of_read h
  cases node with
  | text | block => cases this
  | _ => rfl

lemma proper_terminals (tokens : List Token) : Proper (terminals tokens) := by
  intro node hn
  obtain ⟨token, _, ht⟩ := List.mem_flatMap.mp hn
  cases token with
  | text s =>
    dsimp only at ht
    split at ht
    · cases ht
    · obtain rfl := Terminal.leaf.inj (List.mem_singleton.mp ht)
      rfl
  | tag position body =>
    exact isLeaf_of_read (readTerminal?_eq_some_iff.mp (Option.mem_toList.mp ht))

/-- A source is read by the tree of the tokens of its lexemes. -/
lemma readTree_eq_ok_iff {source : List Char} {lexemes : List Lexeme} {nodes : List Node}
    (scanned : Lexeme.scan source = .ok lexemes) :
    readTree source = .ok nodes ↔ (∀ lexeme ∈ lexemes, lexeme.WellFormed) ∧
      Body (terminals (controlled false lexemes)) nodes := by
  rw [← wellFormed_controlled_iff, ← treeOfItems_ofTokens_iff, readTree, scanned]
  exact Iff.rfl

/-- **The tree of a template is its derivation.**  A source that is cut into lexemes has a tree
exactly if its tags are well formed, each on its own, and their row is derived by the grammar; and
the tree is the derived one.  Its leaves are those of the source, each once and in order, and they
stand in the branches in which they are written; and the row with each chained clause written as a
block of its own has the same tree in every source. -/
theorem readTree_derives {source : List Char} {lexemes : List Lexeme}
    (scanned : Lexeme.scan source = .ok lexemes) :
    (∀ nodes, readTree source = .ok nodes ↔ (∀ lexeme ∈ lexemes, lexeme.WellFormed) ∧
      Body (terminals (controlled false lexemes)) nodes) ∧
    ∀ nodes, readTree source = .ok nodes →
      leavesIn [] nodes = placed [] (terminals (controlled false lexemes)) ∧
      Unchained (nested [] (terminals (controlled false lexemes))) ∧
      ∀ source' lexemes', Lexeme.scan source' = .ok lexemes' →
        (∀ lexeme ∈ lexemes', lexeme.WellFormed) →
        terminals (controlled false lexemes') =
          nested [] (terminals (controlled false lexemes)) → readTree source' = .ok nodes := by
  refine ⟨fun nodes => readTree_eq_ok_iff scanned, fun nodes h => ?_⟩
  obtain ⟨_, derived⟩ := (readTree_eq_ok_iff scanned).mp h
  have leaves := derived.placed_eq (proper_terminals _) [] []
  obtain ⟨us, hu, unchained, he⟩ := derived.exists_nested [] []
  simp only [List.append_nil, List.map_nil, placed, nested] at leaves he
  refine ⟨leaves.symm, by rwa [he], fun source' lexemes' scanned' wellFormed same => ?_⟩
  refine (readTree_eq_ok_iff scanned').mpr ⟨wellFormed, ?_⟩
  rw [same, he]
  exact hu

/-- A template with a chain of two clauses and a last resort, and a comment. -/
def chain : List Char :=
  ("\x7b\x7b#if a\x7d\x7dx\x7b\x7belse each b\x7d\x7dy\x7b\x7b! note \x7d\x7d" ++
    "\x7b\x7belse\x7d\x7dz\x7b\x7b/if\x7d\x7d").toList

/-- The same with one block inside the other. -/
def blocks : List Char :=
  ("\x7b\x7b#if a\x7d\x7dx\x7b\x7belse\x7d\x7d\x7b\x7b#each b\x7d\x7dy" ++
    "\x7b\x7belse\x7d\x7dz\x7b\x7b/each\x7d\x7d\x7b\x7b/if\x7d\x7d").toList

/-- What stands between two braces in the first line, at a column. -/
def markupAt (column : Nat) (inside : String) (content : Content) : Lexeme :=
  ⟨⟨1, column⟩, ("\x7b\x7b" ++ inside ++ "\x7d\x7d").toList, content⟩

def tagAt (column : Nat) (body : String) : Lexeme :=
  markupAt column body (.tag body.toList false false)

def textAt (column : Nat) (text : String) : Lexeme := ⟨⟨1, column⟩, text.toList, .text⟩

def chainLexemes : List Lexeme :=
  [tagAt 1 "#if a", textAt 10 "x", tagAt 11 "else each b", textAt 26 "y",
    markupAt 27 "! note " (.comment false false), tagAt 38 "else", textAt 46 "z", tagAt 47 "/if"]

def blocksLexemes : List Lexeme :=
  [tagAt 1 "#if a", textAt 10 "x", tagAt 11 "else", tagAt 19 "#each b", textAt 30 "y",
    tagAt 31 "else", textAt 39 "z", tagAt 40 "/each", tagAt 49 "/if"]

def condition : Clause := ⟨.ifTruthy, .path ⟨.scope 0, ["a"]⟩⟩

def iteration : Clause := ⟨.forEach, .path ⟨.scope 0, ["b"]⟩⟩

def chainTerminals : List Terminal :=
  [.opening condition, .leaf (.text "x"), .chained iteration, .leaf (.text "y"), .otherwise,
    .leaf (.text "z"), condition.close]

def chainTree : List Node :=
  [condition.node [.text "x"] [iteration.node [.text "y"] [.text "z"]]]

lemma readTerminal?_condition : readTerminal? "#if a".toList = some (.opening condition) :=
  @readTerminal?_opening "if a".toList condition (by decide +kernel)

lemma readTerminal?_iteration : readTerminal? "else each b".toList = some (.chained iteration) := by
  have clause : elseClause? "else each b".toList = some "each b".toList := by decide +kernel
  have read : readClause .malformedElse "each b".toList = .ok iteration := by decide +kernel
  refine readTerminal?_eq_some_iff.mpr ?_
  rw [Tag.read.eq_def]
  simp only [clause]
  exact congrArg (fun next => Except.ok (Tag.alternative (some next))) read

lemma terminals_chain : terminals (controlled false chainLexemes) = chainTerminals := by
  have tokens : controlled false chainLexemes =
      [.tag ⟨1, 1⟩ "#if a".toList, .text ['x'], .tag ⟨1, 11⟩ "else each b".toList, .text ['y'],
        .tag ⟨1, 38⟩ "else".toList, .text ['z'], .tag ⟨1, 47⟩ "/if".toList] := by decide +kernel
  rw [tokens]
  simp only [terminals, List.flatMap_cons, readTerminal?_condition, readTerminal?_iteration]
  rfl

theorem readTree_derives_chain :
    readTree chain = .ok chainTree ∧ readTree blocks = .ok chainTree ∧
      leavesIn [] chainTree =
        [([⟨condition, false⟩], .text "x"), ([⟨iteration, false⟩, ⟨condition, true⟩], .text "y"),
          ([⟨iteration, true⟩, ⟨condition, true⟩], .text "z")] := by
  have scanned : Lexeme.scan chain = .ok chainLexemes := by decide +kernel
  obtain ⟨reads, derives⟩ := readTree_derives scanned
  have read : readTree chain = .ok chainTree := by
    refine (reads chainTree).mpr ⟨by decide +kernel, ?_⟩
    rw [terminals_chain]
    exact .block condition (.leaf (.text "x") .nil) (.chained iteration (.leaf (.text "y") .nil)
      (.otherwise (.leaf (.text "z") .nil))) .nil
  obtain ⟨leaves, -, same⟩ := derives chainTree read
  refine ⟨read, same blocks blocksLexemes (by decide +kernel) (by decide +kernel) ?_, ?_⟩
  · have opened : readTerminal? "#each b".toList = some (.opening iteration) :=
      @readTerminal?_opening "each b".toList iteration (by decide +kernel)
    have tokens : controlled false blocksLexemes =
        [.tag ⟨1, 1⟩ "#if a".toList, .text ['x'], .tag ⟨1, 11⟩ "else".toList,
          .tag ⟨1, 19⟩ "#each b".toList, .text ['y'], .tag ⟨1, 31⟩ "else".toList, .text ['z'],
          .tag ⟨1, 40⟩ "/each".toList, .tag ⟨1, 49⟩ "/if".toList] := by decide +kernel
    rw [tokens, terminals_chain]
    simp only [terminals, List.flatMap_cons, readTerminal?_condition, opened]
    rfl
  · rw [leaves, terminals_chain]
    rfl

end Colloquy.Template
