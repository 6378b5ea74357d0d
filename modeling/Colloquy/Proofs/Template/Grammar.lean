import Colloquy.Proofs.Failure
import Colloquy.Template.Tree
import Mathlib.Data.List.Basic

/-!
# The grammar of templates

A template is a row of texts and tags, and this is the grammar of the rows that fit together.  Its
terminals are what is left of a tag that was read without a fault; a body is any row of leaves and
blocks, and a block is an opening tag, a body, its alternatives and one closing tag, which bears the
name of the opening one however many clauses follow it.

`Body` and `Tail` derive such rows together with the nodes that they stand for.  The descent that
reads a template follows no grammar that is written down, so `treeOfItems_eq_ok_iff` compares the
two: some items are read as a tree exactly if their tags are terminals from which the tree is
derived.
-/

namespace Colloquy.Template

/-! ## Terminals and derivations -/

/-- A tag without a fault, or a text, which stands by itself like an expression. -/
inductive Terminal where
  | leaf (node : Node)
  | opening (clause : Clause)
  | closing (name : String)
  /-- An `else` alone. -/
  | otherwise
  /-- An `else` with a clause. -/
  | chained (clause : Clause)

/-- The tag that a terminal is. -/
def Terminal.tag : Terminal → Tag
  | leaf node => .leaf node
  | opening clause => .opening clause
  | closing name => .closing name
  | otherwise => .alternative none
  | chained clause => .alternative (some (.ok clause))

/-- The node of a block. -/
def Clause.node (clause : Clause) (body inverse : List Node) : Node :=
  .block clause.kind clause.param body inverse

/-- The tag that closes a block and the clauses chained to it. -/
def Clause.close (clause : Clause) : Terminal := .closing clause.kind.keyword

mutual

/-- A row of leaves and blocks, with its nodes. -/
inductive Body : List Terminal → List Node → Prop
  | nil : Body [] []
  | leaf {rest nodes} (node : Node) (h : Body rest nodes) :
      Body (.leaf node :: rest) (node :: nodes)
  | block {first second rest body inverse nodes} (clause : Clause) (hb : Body first body)
      (ht : Tail second inverse) (h : Body rest nodes) :
      Body (.opening clause :: (first ++ second ++ clause.close :: rest))
        (clause.node body inverse :: nodes)

/-- What may stand between the body of a clause and the closing tag, with the nodes of the
inverse.  A further clause is the only node there. -/
inductive Tail : List Terminal → List Node → Prop
  | none : Tail [] []
  | otherwise {rest inverse} (h : Body rest inverse) : Tail (.otherwise :: rest) inverse
  | chained {first second body inverse} (clause : Clause) (hb : Body first body)
      (ht : Tail second inverse) :
      Tail (.chained clause :: (first ++ second)) [clause.node body inverse]

end

/-! ## Items that spell terminals -/

/-- The items have the tags of the terminals, one by one and without a fault. -/
def Spells (items : List Item) (ts : List Terminal) : Prop :=
  items.map Item.tag = ts.map fun t => .ok t.tag

namespace Spells

variable {items others : List Item} {ts us : List Terminal}

lemma nil : Spells [] [] := rfl

lemma cons {position : Position} (t : Terminal) (h : Spells items ts) :
    Spells (⟨position, .ok t.tag⟩ :: items) (t :: ts) := by
  rw [Spells, List.map_cons, List.map_cons, h]

lemma append (h : Spells items ts) (ho : Spells others us) :
    Spells (items ++ others) (ts ++ us) := by
  rw [Spells, List.map_append, List.map_append, h, ho]

lemma exists_of_cons {t : Terminal} (h : Spells items (t :: ts)) :
    ∃ position rest, items = ⟨position, .ok t.tag⟩ :: rest ∧ Spells rest ts := by
  obtain ⟨⟨position, tag⟩, rest, rfl, ht, hr⟩ := List.map_eq_cons_iff.mp h
  obtain rfl : tag = .ok t.tag := ht
  exact ⟨position, rest, rfl, hr⟩

lemma exists_of_append (h : Spells items (ts ++ us)) :
    ∃ front back, items = front ++ back ∧ Spells front ts ∧ Spells back us := by
  rw [Spells, List.map_append] at h
  exact List.map_eq_append_iff.mp h

/-- Items spell at most one row of terminals. -/
lemma unique (h : Spells items ts) (h' : Spells items us) : ts = us := by
  have injective : Function.Injective fun t : Terminal => (Except.ok t.tag : Except Fault Tag) := by
    intro t u htu
    cases t <;> cases u <;> simp_all [Terminal.tag]
  exact injective.list_map (h.symm.trans h')

end Spells

/-! ## What the descent reads -/

/-- The items that are left when a body has stopped, with the tag that stopped it. -/
def Stop.remaining {n : Nat} : Stop n → List Item
  | finish => []
  | closing position name rest => ⟨position, .ok (.closing name)⟩ :: rest.val
  | alternative position clause rest => ⟨position, .ok (.alternative clause)⟩ :: rest.val

@[simp] lemma Stop.remaining_within {m n : Nat} (stop : Stop m) (h : m ≤ n) :
    (stop.within h).remaining = stop.remaining := by
  cases stop <;> rfl

variable {items more rest remaining : List Item} {node inner : Node}
  {nodes body inverse : List Node} {clause next : Clause} {head : Head} {position : Position}
  {name : String}

lemma Stop.eq_closing {n : Nat} {stop : Stop n}
    (h : stop.remaining = ⟨position, .ok (.closing name)⟩ :: rest) :
    ∃ hl, stop = .closing position name ⟨rest, hl⟩ := by
  cases stop with
  | finish => cases h
  | closing p n left =>
    obtain ⟨hi, rfl⟩ := List.cons.inj h
    obtain ⟨rfl, ht⟩ := Item.mk.inj hi
    obtain rfl := Tag.closing.inj (Except.ok.inj ht)
    exact ⟨left.property, rfl⟩
  | alternative p c left => cases (Item.mk.inj (List.cons.inj h).1).2

lemma Stop.eq_alternative {n : Nat} {stop : Stop n} {alternative : Option (Except Fault Clause)}
    (h : stop.remaining = ⟨position, .ok (.alternative alternative)⟩ :: rest) :
    ∃ hl, stop = .alternative position alternative ⟨rest, hl⟩ := by
  cases stop with
  | finish => cases h
  | closing p n left => cases (Item.mk.inj (List.cons.inj h).1).2
  | alternative p c left =>
    obtain ⟨hi, rfl⟩ := List.cons.inj h
    obtain ⟨rfl, ht⟩ := Item.mk.inj hi
    obtain rfl := Tag.alternative.inj (Except.ok.inj ht)
    exact ⟨left.property, rfl⟩

/-- The descent reads a body from the items and leaves some. -/
def Reads (items : List Item) (nodes : List Node) (remaining : List Item) : Prop :=
  ∃ stop, readBody items = .ok (nodes, stop) ∧ stop.remaining = remaining

/-- The descent reads a block from behind its head and leaves the items after its closing tag. -/
def ReadsBlock (head : Head) (clause : Clause) (items : List Item) (node : Node)
    (rest : List Item) : Prop :=
  ∃ h, readBlock head clause items = .ok (node, ⟨rest, h⟩)

lemma reads_nil : Reads [] [] [] := ⟨.finish, by rw [readBody], rfl⟩

lemma reads_closing (position : Position) (name : String) (rest : List Item) :
    Reads (⟨position, .ok (.closing name)⟩ :: rest) []
      (⟨position, .ok (.closing name)⟩ :: rest) :=
  ⟨.closing position name ⟨rest, by simp⟩, by rw [readBody], rfl⟩

lemma reads_alternative (position : Position) (alternative : Option (Except Fault Clause))
    (rest : List Item) :
    Reads (⟨position, .ok (.alternative alternative)⟩ :: rest) []
      (⟨position, .ok (.alternative alternative)⟩ :: rest) :=
  ⟨.alternative position alternative ⟨rest, by simp⟩, by rw [readBody], rfl⟩

lemma Reads.leaf (h : Reads items nodes remaining) :
    Reads (⟨position, .ok (.leaf node)⟩ :: items) (node :: nodes) remaining := by
  obtain ⟨stop, hr, rfl⟩ := h
  exact ⟨stop.within (by simp), by rw [readBody, hr]; rfl, stop.remaining_within _⟩

lemma ReadsBlock.before (hb : ReadsBlock ⟨position, clause.kind⟩ clause items node rest)
    (h : Reads rest nodes remaining) :
    Reads (⟨position, .ok (.opening clause)⟩ :: items) (node :: nodes) remaining := by
  obtain ⟨hl, hb⟩ := hb
  obtain ⟨stop, hr, rfl⟩ := h
  refine ⟨stop.within (by simp; omega), ?_, stop.remaining_within _⟩
  rw [readBody]
  simp only [hb, bind, Except.bind]
  rw [hr]
  rfl

lemma Head.close_eq_ok_iff : head.close position name = .ok () ↔ name = head.kind.keyword := by
  rw [close]
  split <;> simp_all

lemma ReadsBlock.closed
    (h : Reads items body (⟨position, .ok (.closing head.kind.keyword)⟩ :: rest)) :
    ReadsBlock head clause items (clause.node body []) rest := by
  obtain ⟨stop, hr, hs⟩ := h
  obtain ⟨hl, rfl⟩ := Stop.eq_closing hs
  refine ⟨hl, ?_⟩
  rw [readBlock, hr]
  simp only [bind, Except.bind, Head.close_eq_ok_iff.mpr rfl]
  rfl

lemma ReadsBlock.otherwise {second : Position}
    (h : Reads items body (⟨position, .ok (.alternative none)⟩ :: more))
    (hi : Reads more inverse (⟨second, .ok (.closing head.kind.keyword)⟩ :: rest)) :
    ReadsBlock head clause items (clause.node body inverse) rest := by
  obtain ⟨stop, hr, hs⟩ := h
  obtain ⟨hl, rfl⟩ := Stop.eq_alternative hs
  obtain ⟨stop, hr', hs'⟩ := hi
  obtain ⟨hl', rfl⟩ := Stop.eq_closing hs'
  refine ⟨by omega, ?_⟩
  rw [readBlock, hr]
  simp only [bind, Except.bind, hr', Head.close_eq_ok_iff.mpr rfl]
  rfl

lemma ReadsBlock.chained
    (h : Reads items body (⟨position, .ok (.alternative (some (.ok next)))⟩ :: more))
    (hb : ReadsBlock head next more inner rest) :
    ReadsBlock head clause items (clause.node body [inner]) rest := by
  obtain ⟨stop, hr, hs⟩ := h
  obtain ⟨hl, rfl⟩ := Stop.eq_alternative hs
  obtain ⟨hl', hb⟩ := hb
  refine ⟨by omega, ?_⟩
  rw [readBlock, hr]
  simp only [bind, Except.bind, hb]
  rfl

/-! ## Derived rows are read -/

mutual

/-- A derived row is read to its end, and what is behind it is read as if it stood alone. -/
theorem Body.reads {ts : List Terminal} {nodes others : List Node}
    {items more remaining : List Item} :
    Body ts nodes → Spells items ts → Reads more others remaining →
      Reads (items ++ more) (nodes ++ others) remaining
  | .nil, hs, hm => by
    obtain rfl := List.map_eq_nil_iff.mp hs
    exact hm
  | .leaf node h, hs, hm => by
    obtain ⟨position, items, rfl, rest⟩ := hs.exists_of_cons
    exact (h.reads rest hm).leaf
  | .block clause hb ht h, hs, hm => by
    obtain ⟨position, items, rfl, hs'⟩ := hs.exists_of_cons
    obtain ⟨inside, behind, rfl, hi, hc⟩ := hs'.exists_of_append
    obtain ⟨front, back, rfl, hf, hk⟩ := hi.exists_of_append
    obtain ⟨place, behind, rfl, rest⟩ := hc.exists_of_cons
    have block : ReadsBlock ⟨position, clause.kind⟩ clause
        (front ++ (back ++ ⟨place, .ok clause.close.tag⟩ :: (behind ++ more))) _
        (behind ++ more) :=
      ht.readsBlock (fun hm => hb.reads hf hm) hk
    rw [List.cons_append, List.append_assoc, List.append_assoc, List.cons_append]
    exact block.before (h.reads rest hm)

/-- Behind a body, the alternatives and the closing tag make up a block with it. -/
theorem Tail.readsBlock {ts : List Terminal} {inverse body : List Node} {head : Head}
    {clause : Clause} {front items behind : List Item} {place : Position} :
    Tail ts inverse →
      (∀ {more others remaining}, Reads more others remaining →
        Reads (front ++ more) (body ++ others) remaining) →
      Spells items ts →
      ReadsBlock head clause
        (front ++ (items ++ ⟨place, .ok (.closing head.kind.keyword)⟩ :: behind))
        (clause.node body inverse) behind
  | .none, hb, hs => by
    obtain rfl := List.map_eq_nil_iff.mp hs
    have closed := hb (reads_closing place head.kind.keyword behind)
    rw [List.append_nil] at closed
    exact ReadsBlock.closed closed
  | .otherwise h, hb, hs => by
    obtain ⟨position, items, rfl, rest⟩ := hs.exists_of_cons
    have stopped := hb (reads_alternative position none
      (items ++ ⟨place, .ok (.closing head.kind.keyword)⟩ :: behind))
    have inside := h.reads rest (reads_closing place head.kind.keyword behind)
    rw [List.append_nil] at stopped inside
    exact ReadsBlock.otherwise stopped inside
  | .chained next hf ht, hb, hs => by
    obtain ⟨position, items, rfl, hs'⟩ := hs.exists_of_cons
    obtain ⟨inner, items, rfl, hi, rest⟩ := hs'.exists_of_append
    have stopped := hb (reads_alternative position (some (.ok next))
      (inner ++ items ++ ⟨place, .ok (.closing head.kind.keyword)⟩ :: behind))
    have block : ReadsBlock head next
        (inner ++ (items ++ ⟨place, .ok (.closing head.kind.keyword)⟩ :: behind)) _ behind :=
      ht.readsBlock (fun hm => hf.reads hi hm) rest
    rw [List.append_nil] at stopped
    rw [← List.append_assoc] at block
    exact ReadsBlock.chained stopped block

end

/-! ## What is read is derived -/

mutual

/-- A body that is read is derived from the tags before those that are left. -/
theorem exists_body_of_readBody (items : List Item) {nodes : List Node} {stop : Stop items.length}
    (h : readBody items = .ok (nodes, stop)) :
    ∃ front ts, items = front ++ stop.remaining ∧ Spells front ts ∧ Body ts nodes := by
  match items, stop with
  | [], _ =>
    rw [readBody] at h
    obtain ⟨rfl, rfl⟩ := Prod.mk.inj (Except.ok.inj h)
    exact ⟨[], [], rfl, .nil, .nil⟩
  | ⟨position, .error fault⟩ :: rest, _ =>
    rw [readBody] at h
    cases h
  | ⟨position, .ok (.leaf node)⟩ :: rest, _ =>
    rw [readBody] at h
    obtain ⟨⟨nodes, stop⟩, hr, he⟩ := exists_of_bind_eq_ok h
    obtain ⟨rfl, rfl⟩ := Prod.mk.inj (Except.ok.inj he)
    obtain ⟨front, ts, hi, hs, hb⟩ := exists_body_of_readBody rest hr
    refine ⟨⟨position, .ok (.leaf node)⟩ :: front, .leaf node :: ts, ?_, .cons (.leaf node) hs,
      .leaf node hb⟩
    rw [Stop.remaining_within, List.cons_append, ← hi]
  | ⟨position, .ok (.opening clause)⟩ :: rest, _ =>
    rw [readBody] at h
    obtain ⟨⟨block, behind, hl⟩, hb, h'⟩ := exists_of_bind_eq_ok h
    obtain ⟨⟨nodes, stop⟩, hr, he⟩ := exists_of_bind_eq_ok h'
    obtain ⟨rfl, rfl⟩ := Prod.mk.inj (Except.ok.inj he)
    obtain ⟨inside, place, first, second, body, inverse, hi, hs, hf, ht, rfl⟩ :=
      exists_tail_of_readBlock _ clause rest hb
    obtain ⟨front, ts, hi', hs', hb'⟩ := exists_body_of_readBody behind hr
    refine ⟨⟨position, .ok (.opening clause)⟩ :: (inside ++ ⟨place, .ok clause.close.tag⟩ :: front),
      _, ?_, .cons (.opening clause) (hs.append (.cons clause.close hs')), .block clause hf ht hb'⟩
    rw [Stop.remaining_within, List.cons_append, List.append_assoc, List.cons_append, ← hi']
    exact congrArg _ hi
  | ⟨position, .ok (.closing name)⟩ :: rest, _ =>
    rw [readBody] at h
    obtain ⟨rfl, rfl⟩ := Prod.mk.inj (Except.ok.inj h)
    exact ⟨[], [], rfl, .nil, .nil⟩
  | ⟨position, .ok (.alternative clause)⟩ :: rest, _ =>
    rw [readBody] at h
    obtain ⟨rfl, rfl⟩ := Prod.mk.inj (Except.ok.inj h)
    exact ⟨[], [], rfl, .nil, .nil⟩
termination_by (items.length, 0)

/-- A block that is read is derived from a body, its alternatives and a closing tag with the name of
the head. -/
theorem exists_tail_of_readBlock (head : Head) (clause : Clause) (items : List Item) {node : Node}
    {rest : { l : List Item // l.length < items.length }}
    (h : readBlock head clause items = .ok (node, rest)) :
    ∃ front place first second body inverse,
      items = front ++ ⟨place, .ok (.closing head.kind.keyword)⟩ :: rest.val ∧
      Spells front (first ++ second) ∧ Body first body ∧ Tail second inverse ∧
      node = clause.node body inverse := by
  rw [readBlock] at h
  obtain ⟨⟨body, stop⟩, hr, h₁⟩ := exists_of_bind_eq_ok h
  obtain ⟨front, first, hi, hs, hb⟩ := exists_body_of_readBody items hr
  match stop with
  | .finish => cases h₁
  | .closing position name behind =>
    obtain ⟨_, hc, h₂⟩ := exists_of_bind_eq_ok h₁
    obtain rfl := Head.close_eq_ok_iff.mp hc
    obtain ⟨rfl, rfl⟩ := Prod.mk.inj (Except.ok.inj h₂)
    exact ⟨front, position, first, [], body, [], hi, by rwa [List.append_nil], hb, .none, rfl⟩
  | .alternative position none ⟨behind, hl⟩ =>
    obtain ⟨⟨inverse, stop⟩, hr', h₂⟩ := exists_of_bind_eq_ok h₁
    obtain ⟨back, second, hi', hs', hb'⟩ := exists_body_of_readBody behind hr'
    match stop with
    | .finish => cases h₂
    | .alternative _ _ _ => cases h₂
    | .closing place name left =>
      obtain ⟨_, hc, h₃⟩ := exists_of_bind_eq_ok h₂
      obtain rfl := Head.close_eq_ok_iff.mp hc
      obtain ⟨rfl, rfl⟩ := Prod.mk.inj (Except.ok.inj h₃)
      refine ⟨front ++ ⟨position, .ok (.alternative none)⟩ :: back, place, first,
        .otherwise :: second, body, inverse, ?_, hs.append (.cons .otherwise hs'), hb,
        .otherwise hb', rfl⟩
      rw [List.append_assoc, List.cons_append]
      exact hi.trans (congrArg (front ++ ⟨position, .ok (.alternative none)⟩ :: ·) hi')
  | .alternative _ (some (.error fault)) _ => cases h₁
  | .alternative position (some (.ok next)) ⟨behind, hl⟩ =>
    obtain ⟨⟨inner, left, hl'⟩, hr', h₂⟩ := exists_of_bind_eq_ok h₁
    obtain ⟨back, place, second, third, body', inverse, hi', hs', hf, ht, rfl⟩ :=
      exists_tail_of_readBlock head next behind hr'
    obtain ⟨rfl, rfl⟩ := Prod.mk.inj (Except.ok.inj h₂)
    refine ⟨front ++ ⟨position, .ok (.alternative (some (.ok next)))⟩ :: back, place, first,
      .chained next :: (second ++ third), body, [next.node body' inverse], ?_,
      hs.append (.cons (.chained next) hs'), hb, .chained next hf ht, rfl⟩
    rw [List.append_assoc, List.cons_append]
    exact hi.trans (congrArg (front ++ ⟨position, .ok (.alternative (some (.ok next)))⟩ :: ·) hi')
termination_by (items.length, 1)

end

/-- **Reading is deriving.**  Items have a tree exactly if they spell terminals from which it is
derived. -/
theorem treeOfItems_eq_ok_iff {items : List Item} {nodes : List Node} :
    treeOfItems items = .ok nodes ↔ ∃ ts, Spells items ts ∧ Body ts nodes := by
  constructor
  · intro h
    obtain ⟨⟨read, stop⟩, hr, h'⟩ := exists_of_bind_eq_ok h
    obtain ⟨front, ts, hi, hs, hb⟩ := exists_body_of_readBody items hr
    match stop with
    | .finish =>
      obtain rfl := Except.ok.inj h'
      rw [hi]
      exact ⟨ts, by rwa [Stop.remaining, List.append_nil], hb⟩
    | .closing _ _ _ => cases h'
    | .alternative _ _ _ => cases h'
  · rintro ⟨ts, hs, hb⟩
    have all := hb.reads hs reads_nil
    rw [List.append_nil, List.append_nil] at all
    obtain ⟨stop, hr, hn⟩ := all
    obtain rfl : stop = .finish := by
      cases stop with
      | finish => rfl
      | closing _ _ _ => cases hn
      | alternative _ _ _ => cases hn
    rw [treeOfItems, hr]
    rfl

end Colloquy.Template
