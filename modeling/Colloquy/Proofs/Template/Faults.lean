import Colloquy.Proofs.Template.Derivation
import Colloquy.Proofs.Template.Trimming

/-!
# Where a fault is

A template that cannot be read is refused with a place in its source.  The place is that of a tag or
comment, counted in lines and in bytes of the line, and the fault is one of that tag: of itself, of
the clause behind its `else`, or of the way it fits the tags around it.  A block that is not closed
is the innermost one that is open at the end.  A clause behind an `else` opens no block of its own
here, since it is closed with the block before it.

A fault may be found while the source is cut into lexemes, before there is a row of them.
`Begins` says where a tag or comment begins without such a row.
-/

namespace Colloquy.Template

/-! ## Where tags and comments begin -/

/-- A tag or comment begins in a source behind some of it: at the leftmost two opening braces, or
at the leftmost two behind a tag or comment that is complete. -/
inductive Begins : (source before : List Char) → Prop
  | first {text rest} (leftmost : Text.Lacks "\x7b\x7b".toList text) :
      Begins (text ++ "\x7b\x7b".toList ++ rest) text
  | next {text span content rest before} (leftmost : Text.Lacks "\x7b\x7b".toList text)
      (shape : Markup span content) (h : Begins rest before) :
      Begins (text ++ span ++ rest) (text ++ span ++ before)

lemma Begins.exists_rest {source before : List Char} (h : Begins source before) :
    ∃ rest, source = before ++ "\x7b\x7b".toList ++ rest := by
  induction h with
  | first leftmost => exact ⟨_, rfl⟩
  | next leftmost shape h ih =>
    obtain ⟨rest, rfl⟩ := ih
    exact ⟨rest, by simp only [List.append_assoc]⟩

/-- A lexeme that is no text begins where it stands. -/
lemma Tiles.begins {done s : List Char} {lexeme : Lexeme} {before after : List Lexeme}
    (h : Tiles done s (before ++ lexeme :: after)) (hl : lexeme.content ≠ .text) :
    Begins s (before.flatMap Lexeme.span) := by
  generalize hL : before ++ lexeme :: after = lexemes at h
  induction h generalizing before with
  | @text done s plain =>
    have mem : lexeme ∈ Lexeme.ofText (.after done) s := by
      rw [← hL]
      simp
    exact absurd (content_of_mem_ofText mem) hl
  | @markup done text span content rest lexemes leftmost shape h ih =>
    rcases cases_of_ofText_append hl hL.symm with ⟨rfl, rfl, rfl⟩ | ⟨more, rfl, rfl⟩
    · obtain ⟨inner, rfl⟩ := shape.exists_inner
      rw [flatMap_span_ofText, List.append_assoc, List.append_assoc, ← List.append_assoc text]
      exact .first leftmost
    · have whole := Begins.next leftmost shape (ih rfl)
      rwa [List.flatMap_append, List.flatMap_cons, flatMap_span_ofText, ← List.append_assoc]

/-- A source that cannot be cut into lexemes has two opening braces with which neither a tag nor a
comment begins, and that is where the fault is. -/
lemma exists_of_scanFrom_eq_error {p : Position} {done s : List Char} {e : TemplateError}
    (hp : p = .after done) (h : Lexeme.scanFrom p s = .error e) :
    ∃ before after fault, s = before ++ "\x7b\x7b".toList ++ after ∧ Begins s before ∧
      e = .parse (.after (done ++ before)) fault ∧ readMarkup after = .error fault := by
  fun_induction Lexeme.scanFrom p s generalizing done e with
  | case1 => cases h
  | case2 _ _ text inner hc _ fault =>
    rename_i hr
    subst hp
    obtain ⟨rfl, leftmost⟩ := (Text.cut?_eq_some_iff (by decide)).mp hc
    refine ⟨text, inner, fault, rfl, .first leftmost, ?_, hr⟩
    rw [← Position.advance_after]
    exact (Except.error.inj h).symm
  | case3 _ _ text inner hc _ content span rest hr _ =>
    rename_i ih
    subst hp
    obtain ⟨rfl, shape⟩ := readMarkup_eq_ok_iff.mp hr
    obtain ⟨rfl, leftmost⟩ := (Text.cut?_eq_some_iff (by decide)).mp hc
    obtain ⟨before, after, fault, rfl, begins, rfl, read⟩ :=
      ih (advance_twice done text ("\x7b\x7b".toList ++ span)) (eq_error_of_map_eq_error h)
    have whole := Begins.next leftmost shape begins
    refine ⟨text ++ ("\x7b\x7b".toList ++ span) ++ before, after, fault, ?_, ?_, ?_, read⟩
    · simp only [List.append_assoc]
    · simpa only [List.append_assoc] using whole
    · simp only [List.append_assoc]

/-! ## What a fault says of its tag -/

/-- The fault is one of the tag, by itself or by where it stands. -/
inductive Fault.Concerns : Fault → Except Fault Tag → Prop
  | own (fault : Fault) : Concerns fault (.error fault)
  | clause (fault : Fault) : Concerns fault (.ok (.alternative (some (.error fault))))
  | unclosed (clause : Clause) : Concerns (.unclosedBlock clause.kind) (.ok (.opening clause))
  | unexpected (name : String) : Concerns (.unexpectedClose name) (.ok (.closing name))
  | mismatched (name : String) (kind : BlockKind) :
      Concerns (.mismatchedClose name kind) (.ok (.closing name))
  | outside (clause : Option (Except Fault Clause)) :
      Concerns .elseOutside (.ok (.alternative clause))
  | duplicate (clause : Option (Except Fault Clause)) :
      Concerns .duplicateElse (.ok (.alternative clause))

/-- A tag that is read never has the fault of a block that is not closed. -/
def NoBlock {α : Type} (x : Except Fault α) : Prop := ∀ kind, x ≠ .error (.unclosedBlock kind)

namespace NoBlock

variable {α β : Type} {x : Except Fault α}

lemma ok (a : α) : NoBlock (.ok a : Except Fault α) := fun _ h => by cases h

lemma error {fault : Fault} (h : ∀ kind, fault ≠ .unclosedBlock kind) :
    NoBlock (.error fault : Except Fault α) :=
  fun kind he => h kind (Except.error.inj he)

lemma bind {f : α → Except Fault β} (h : NoBlock x) (hf : ∀ a, NoBlock (f a)) :
    NoBlock (x >>= f) := by
  intro kind he
  rcases cases_of_bind_eq_error he with he | ⟨a, -, he⟩
  · exact h kind he
  · exact hf a kind he

lemma map {f : α → β} (h : NoBlock x) : NoBlock (x.map f) :=
  fun kind he => h kind (eq_error_of_map_eq_error he)

lemma splitArgs (quote : Option Char) (current s : List Char) :
    NoBlock (Template.splitArgs quote current s) := by
  fun_induction Template.splitArgs quote current s with
  | case1 | case9 => exact error (by simp)
  | case2 => exact ok _
  | case8 =>
    rename_i ih
    exact ih.map
  | _ => assumption

lemma readSegments (raw s : List Char) : NoBlock (Template.readSegments raw s) := by
  rw [Template.readSegments]
  generalize (if s.isEmpty || s == ['.'] then _ else _) = pieces
  split
  · exact error (by simp)
  · exact ok _

lemma readPath (raw : List Char) : NoBlock (Template.readPath raw) := by
  have segments (root : PathRoot) (s : List Char) :
      NoBlock (do return (⟨root, ← Template.readSegments raw s⟩ : Path)) :=
    bind (readSegments raw s) fun _ => ok _
  unfold Template.readPath
  dsimp only
  split
  · split
    · exact error (by simp)
    · exact segments _ _
  · exact segments _ _

lemma readExpr (raw : List Char) : NoBlock (Template.readExpr raw) := by
  unfold Template.readExpr
  split
  · exact ok _
  · split
    · exact ok _
    · split
      · exact ok _
      · exact (readPath raw).map

lemma readClause (unnamed : Fault) (hu : ∀ kind, unnamed ≠ .unclosedBlock kind)
    (body : List Char) : NoBlock (Template.readClause unnamed body) := by
  refine bind (splitArgs _ _ _) fun args => ?_
  split
  · exact error hu
  · split
    · exact error (by simp)
    · refine bind ?_ fun _ => ok _
      unfold readParam
      split
      · exact readExpr _
      · exact error (by simp)

lemma readCall (body : List Char) : NoBlock (Template.readCall body) := by
  refine bind (splitArgs _ _ _) fun args => ?_
  split
  · exact error (by simp)
  · dsimp only
    split
    · exact ok _
    · exact bind (readExpr _) fun _ => ok _
    · exact error (by simp)

lemma readArguments (args : List (List Char)) : NoBlock (Template.readArguments args) := by
  induction args with
  | nil => exact ok _
  | cons raw rest ih =>
    rw [Template.readArguments]
    split
    · exact bind (readExpr _) fun _ => bind ih fun _ => ok _
    · exact bind (readExpr _) fun _ => bind ih fun _ => ok _

lemma directive {name : String} {read : Arguments → Except Fault Directive}
    (h : directives.lookup name = some read) (args : Arguments) : NoBlock (read args) := by
  have known : (name, read) ∈ directives := by
    obtain ⟨front, back, hd, -⟩ := List.lookup_eq_some_iff.mp h
    simp [hd]
  simp only [directives, List.mem_cons, Prod.mk.injEq, List.not_mem_nil, or_false] at known
  rcases known with ⟨-, rfl⟩ | ⟨-, rfl⟩ | ⟨-, rfl⟩ | ⟨-, rfl⟩
  · unfold roleDirective
    split
    · split
      · exact ok _
      · exact error (by simp)
    · exact ok _
    · exact error (by simp)
  · unfold mediaDirective
    split
    · exact ok _
    · exact ok _
    · exact error (by simp)
  · unfold jsonDirective
    split
    · exact ok _
    · exact error (by simp)
  · unfold historyDirective
    split
    · exact ok _
    · exact error (by simp)

lemma readPlain (body : List Char) : NoBlock (Template.readPlain body) := by
  refine bind (splitArgs _ _ _) fun args => ?_
  split
  · exact error (by simp)
  · split
    · rename_i hd
      exact bind (readArguments _) fun _ => bind (directive hd _) fun _ => ok _
    · split
      · exact bind (readExpr _) fun _ => ok _
      · exact error (by simp)

lemma read (body : List Char) : NoBlock (Tag.read body) := by
  unfold Tag.read
  split
  · exact error (by simp)
  · exact (readClause .blockWithoutName (by simp) _).map
  · exact ok _
  · split
    · exact ok _
    · exact ok _
    · split
      · exact (readCall _).map
      · exact (readPlain _).map

/-- Nor has the clause behind an `else`. -/
lemma clause_of_read {body : List Char} {clause : Except Fault Clause}
    (h : Tag.read body = .ok (.alternative (some clause))) : NoBlock clause := by
  have noTag {α : Type} {x : Except Fault α} {f : α → Tag}
      (hf : ∀ a, f a ≠ .alternative (some clause))
      (hx : x.map f = .ok (.alternative (some clause))) : False := by
    obtain ⟨a, -, ha⟩ := exists_of_map_eq_ok hx
    exact hf a ha
  rw [Tag.read.eq_def] at h
  split at h
  · cases h
  · exact (noTag (by simp) h).elim
  · cases h
  · split at h
    · cases h
    · obtain rfl := Option.some.inj (Tag.alternative.inj (Except.ok.inj h))
      exact readClause .malformedElse (by simp) _
    · split at h
      · exact (noTag (by simp) h).elim
      · exact (noTag (by simp) h).elim

end NoBlock

/-! ## Blocks that are open -/

/-- The heads of the blocks that are open after an item, the innermost first. -/
def Item.openHeads (heads : List Head) (item : Item) : List Head :=
  match item.tag with
  | .ok (.opening clause) => ⟨item.position, clause.kind⟩ :: heads
  | .ok (.closing _) => heads.tail
  | _ => heads

/-- The heads of the blocks that are open after some items. -/
def openHeads (heads : List Head) (items : List Item) : List Head :=
  items.foldl Item.openHeads heads

@[simp] lemma openHeads_cons (heads : List Head) (item : Item) (items : List Item) :
    openHeads heads (item :: items) = openHeads (item.openHeads heads) items := rfl

@[simp] lemma openHeads_append (heads : List Head) (items others : List Item) :
    openHeads heads (items ++ others) = openHeads (openHeads heads items) others :=
  List.foldl_append

mutual

/-- A derived row closes what it opens. -/
theorem Body.openHeads_eq {ts : List Terminal} {nodes : List Node} {items : List Item} :
    Body ts nodes → Spells items ts → ∀ heads, openHeads heads items = heads
  | .nil, hs, heads => by
    obtain rfl := List.map_eq_nil_iff.mp hs
    rfl
  | .leaf node h, hs, heads => by
    obtain ⟨position, items, rfl, rest⟩ := hs.exists_of_cons
    exact h.openHeads_eq rest heads
  | .block clause hb ht h, hs, heads => by
    obtain ⟨position, items, rfl, hs'⟩ := hs.exists_of_cons
    obtain ⟨inside, behind, rfl, hi, hc⟩ := hs'.exists_of_append
    obtain ⟨front, back, rfl, hf, hk⟩ := hi.exists_of_append
    obtain ⟨place, behind, rfl, rest⟩ := hc.exists_of_cons
    rw [openHeads_cons, openHeads_append, openHeads_append, hb.openHeads_eq hf,
      ht.openHeads_eq hk, openHeads_cons]
    exact h.openHeads_eq rest heads

/-- So do the alternatives of a block. -/
theorem Tail.openHeads_eq {ts : List Terminal} {inverse : List Node} {items : List Item} :
    Tail ts inverse → Spells items ts → ∀ heads, openHeads heads items = heads
  | .none, hs, heads => by
    obtain rfl := List.map_eq_nil_iff.mp hs
    rfl
  | .otherwise h, hs, heads => by
    obtain ⟨position, items, rfl, rest⟩ := hs.exists_of_cons
    exact h.openHeads_eq rest heads
  | .chained clause hb ht, hs, heads => by
    obtain ⟨position, items, rfl, hs'⟩ := hs.exists_of_cons
    obtain ⟨front, back, rfl, hf, hk⟩ := hs'.exists_of_append
    rw [openHeads_cons, openHeads_append, hb.openHeads_eq hf, ht.openHeads_eq hk]
    rfl

end

/-! ## What the descent finds -/

/-- The error is a fault of one of the items.  If it is one that opens a block, then its block is
the innermost that is open after them all. -/
def Blames (items : List Item) (e : TemplateError) : Prop :=
  ∃ item ∈ items, ∃ fault, e = .parse item.position fault ∧ fault.Concerns item.tag ∧
    ∀ clause, item.tag = .ok (.opening clause) →
      ∀ heads, (openHeads heads items).head? = some ⟨item.position, clause.kind⟩

namespace Blames

variable {items : List Item} {e : TemplateError}

lemma append (h : Blames items e) (front : List Item) : Blames (front ++ items) e := by
  obtain ⟨item, hm, fault, he, concerns, innermost⟩ := h
  refine ⟨item, List.mem_append_right _ hm, fault, he, concerns, fun clause hc heads => ?_⟩
  rw [openHeads_append]
  exact innermost clause hc _

lemma cons (h : Blames items e) (item : Item) : Blames (item :: items) e := h.append [item]

/-- A tag that opens no block may have a fault wherever it stands. -/
lemma of_concerns {position : Position} {tag : Except Fault Tag} {fault : Fault}
    (concerns : fault.Concerns tag) (hn : ∀ clause, tag ≠ .ok (.opening clause))
    (front back : List Item) : Blames (front ++ ⟨position, tag⟩ :: back) (.parse position fault) :=
  ⟨⟨position, tag⟩, by simp, fault, rfl, concerns, fun clause hc => absurd hc (hn clause)⟩

end Blames

lemma Head.eq_of_close_eq_error {head : Head} {position : Position} {name : String}
    {e : TemplateError} (h : head.close position name = .error e) :
    e = .parse position (.mismatchedClose name head.kind) := by
  rw [close] at h
  split at h
  · cases h
  · exact (Except.error.inj h).symm

mutual

/-- A body that is not read is so for a fault of one of its items. -/
theorem blames_of_readBody (items : List Item) {e : TemplateError} (h : readBody items = .error e) :
    Blames items e := by
  match items with
  | [] =>
    rw [readBody] at h
    cases h
  | ⟨position, .error fault⟩ :: rest =>
    rw [readBody] at h
    cases h
    exact .of_concerns (.own fault) (by simp) [] rest
  | ⟨position, .ok (.leaf node)⟩ :: rest =>
    rw [readBody] at h
    rcases cases_of_bind_eq_error h with hr | ⟨_, _, h'⟩
    · exact (blames_of_readBody rest hr).cons _
    · cases h'
  | ⟨position, .ok (.opening clause)⟩ :: rest =>
    rw [readBody] at h
    rcases cases_of_bind_eq_error h with hb | ⟨⟨block, behind, hl⟩, hb, h'⟩
    · rcases cases_of_readBlock_eq_error _ clause rest hb with ⟨rfl, same⟩ | inside
      · refine ⟨_, List.mem_cons_self, _, rfl, .unclosed clause, fun clause' hc heads => ?_⟩
        obtain rfl := Tag.opening.inj (Except.ok.inj hc)
        exact congrArg List.head? (same heads)
      · exact inside.cons _
    · obtain ⟨front, place, _, _, _, _, hi, -⟩ := exists_tail_of_readBlock _ clause rest hb
      rcases cases_of_bind_eq_error h' with hr | ⟨_, _, h''⟩
      · have later := (blames_of_readBody behind hr).cons ⟨place, .ok clause.close.tag⟩
        have all := (later.append front).cons ⟨position, .ok (.opening clause)⟩
        rwa [hi]
      · cases h''
  | ⟨position, .ok (.closing name)⟩ :: rest =>
    rw [readBody] at h
    cases h
  | ⟨position, .ok (.alternative clause)⟩ :: rest =>
    rw [readBody] at h
    cases h
termination_by (items.length, 0)

/-- A block that is not read either is not closed and then the innermost that is open, or it is not
read for a fault of one of its items. -/
theorem cases_of_readBlock_eq_error (head : Head) (clause : Clause) (items : List Item)
    {e : TemplateError} (h : readBlock head clause items = .error e) :
    (e = head.unclosed ∧ ∀ heads, openHeads (head :: heads) items = head :: heads) ∨
      Blames items e := by
  rw [readBlock] at h
  rcases cases_of_bind_eq_error h with hr | ⟨⟨body, stop⟩, hr, h₁⟩
  · exact .inr (blames_of_readBody items hr)
  obtain ⟨front, first, hi, hs, hb⟩ := exists_body_of_readBody items hr
  have same := hb.openHeads_eq hs
  match stop with
  | .finish =>
    refine .inl ⟨(Except.error.inj h₁).symm, fun heads => ?_⟩
    rw [hi, openHeads_append, same]
    rfl
  | .closing position name behind =>
    rcases cases_of_bind_eq_error h₁ with hc | ⟨_, _, h₂⟩
    · rw [hi, Head.eq_of_close_eq_error hc]
      exact .inr (.of_concerns (.mismatched name head.kind) (by simp) front _)
    · cases h₂
  | .alternative position none ⟨behind, hl⟩ =>
    rcases cases_of_bind_eq_error h₁ with hr' | ⟨⟨inverse, stop⟩, hr', h₂⟩
    · have later := (blames_of_readBody behind hr').cons ⟨position, .ok (.alternative none)⟩
      rw [hi]
      exact .inr (later.append front)
    obtain ⟨back, second, hi', hs', hb'⟩ := exists_body_of_readBody behind hr'
    have same' := hb'.openHeads_eq hs'
    have outer {e : TemplateError} (hb : Blames behind e) : Blames items e := by
      rw [hi]
      exact (hb.cons _).append front
    match stop with
    | .finish =>
      refine .inl ⟨(Except.error.inj h₂).symm, fun heads => ?_⟩
      rw [hi, openHeads_append, same]
      change openHeads (head :: heads) behind = _
      rw [hi', openHeads_append, same']
      rfl
    | .closing place name left =>
      rcases cases_of_bind_eq_error h₂ with hc | ⟨_, _, h₃⟩
      · rw [Head.eq_of_close_eq_error hc]
        refine .inr (outer ?_)
        rw [hi']
        exact .of_concerns (.mismatched name head.kind) (by simp) back _
      · cases h₃
    | .alternative place second left =>
      cases h₂
      refine .inr (outer ?_)
      rw [hi']
      exact .of_concerns (.duplicate second) (by simp) back _
  | .alternative position (some (.error fault)) _ =>
    cases h₁
    rw [hi]
    exact .inr (.of_concerns (.clause fault) (by simp) front _)
  | .alternative position (some (.ok next)) ⟨behind, hl⟩ =>
    rcases cases_of_bind_eq_error h₁ with hr' | ⟨_, _, h₂⟩
    · rcases cases_of_readBlock_eq_error head next behind hr' with ⟨rfl, same'⟩ | inside
      · refine .inl ⟨rfl, fun heads => ?_⟩
        rw [hi, openHeads_append, same]
        exact same' heads
      · rw [hi]
        exact .inr ((inside.cons _).append front)
    · cases h₂
termination_by (items.length, 1)

end

/-- Items that have no tree have none for a fault of one of them. -/
lemma blames_of_treeOfItems {items : List Item} {e : TemplateError}
    (h : treeOfItems items = .error e) : Blames items e := by
  rcases cases_of_bind_eq_error h with hr | ⟨⟨nodes, stop⟩, hr, h'⟩
  · exact blames_of_readBody items hr
  · obtain ⟨front, _, hi, -⟩ := exists_body_of_readBody items hr
    cases stop with
    | finish => cases h'
    | closing position name rest =>
      cases h'
      rw [hi]
      exact .of_concerns (.unexpected name) (by simp) front _
    | alternative position clause rest =>
      cases h'
      rw [hi]
      exact .of_concerns (.outside clause) (by simp) front _

/-! ## Sources -/

/-- A tag that is left of some lexemes is that of one of them. -/
lemma exists_of_mem_controlled {trims : Bool} {lexemes : List Lexeme} {position : Position}
    {body : List Char} (h : .tag position body ∈ controlled trims lexemes) :
    ∃ lexeme ∈ lexemes, lexeme.position = position ∧
      ∃ before after, lexeme.content = .tag body before after := by
  induction lexemes generalizing trims with
  | nil => cases h
  | cons lexeme rest ih =>
    rw [List.exists_mem_cons_iff]
    cases hc : lexeme.content with
    | text =>
      rw [controlled_text hc] at h
      rcases List.mem_cons.mp h with h | h
      · cases h
      · exact .inr (ih h)
    | tag inside before after =>
      rw [controlled.eq_def] at h
      simp only [hc] at h
      rcases List.mem_cons.mp h with h | h
      · obtain ⟨rfl, rfl⟩ := Token.tag.inj h
        exact .inl ⟨rfl, before, after, rfl⟩
      · exact .inr (ih h)
    | comment before after =>
      rw [controlled.eq_def] at h
      simp only [hc] at h
      exact .inr (ih h)

/-- An item that is no text is read from a tag. -/
lemma exists_of_mem_ofTokens {tokens : List Token} {item : Item} (h : item ∈ Item.ofTokens tokens)
    (hn : ∀ node, item.tag ≠ .ok (.leaf node)) :
    ∃ position body, .tag position body ∈ tokens ∧ item = ⟨position, Tag.read body⟩ := by
  induction tokens with
  | nil => cases h
  | cons token tokens ih =>
    have later (h : item ∈ Item.ofTokens tokens) : ∃ position body,
        .tag position body ∈ token :: tokens ∧ item = ⟨position, Tag.read body⟩ := by
      obtain ⟨position, body, hm, hi⟩ := ih h
      exact ⟨position, body, List.mem_cons_of_mem _ hm, hi⟩
    cases token with
    | text s =>
      rw [Item.ofTokens] at h
      split at h
      · exact later h
      · rcases List.mem_cons.mp h with rfl | h
        · exact absurd rfl (hn _)
        · exact later h
    | tag position body =>
      rcases List.mem_cons.mp h with rfl | h
      · exact ⟨position, body, List.mem_cons_self, rfl⟩
      · exact later h

lemma noBlock_readMarkup (s : List Char) : NoBlock (readMarkup s) := by
  unfold readMarkup
  dsimp only
  split
  · split
    · exact .error (by simp)
    · exact .ok _
  · split <;> split
    all_goals first | exact .error (by simp) | exact .ok _

/-- **A fault points at the tag that it is of.**  A template that is not read is refused with the
place of two opening braces with which a tag or comment begins: the line is one more than the line
breaks before them, and the column one more than the bytes before them in the line.  Either no tag
and no comment is complete there, or it is a tag that has the fault, by itself or by where it
stands; and if the fault is a block that is not closed, it is the innermost one that is open. -/
theorem compile_error {source : String} {e : TemplateError}
    (h : Template.compile source = .error e) :
    ∃ before after fault, source.toList = before ++ "\x7b\x7b".toList ++ after ∧
      Begins source.toList before ∧
      e = .parse ⟨before.count '\n' + 1, byteLength (lastLine before) + 1⟩ fault ∧
      (readMarkup after = .error fault ∨
        ∃ front lexeme back body trimsBefore trimsAfter,
          Lexeme.scan source.toList = .ok (front ++ lexeme :: back) ∧
          before = front.flatMap Lexeme.span ∧
          lexeme.content = .tag body trimsBefore trimsAfter ∧ fault.Concerns (Tag.read body)) ∧
      ∀ kind, fault = .unclosedBlock kind → ∃ lexemes, Lexeme.scan source.toList = .ok lexemes ∧
        (openHeads [] (Item.ofTokens (controlled false lexemes))).head? =
          some ⟨.after before, kind⟩ := by
  have read : readTree source.toList = .error e := by
    rcases cases_of_bind_eq_error h with h | ⟨_, _, h⟩
    · exact h
    · cases h
  rcases cases_of_bind_eq_error read with scanned | ⟨lexemes, scanned, treeless⟩
  · obtain ⟨before, after, fault, hs, begins, rfl, markup⟩ :=
      @exists_of_scanFrom_eq_error _ [] _ _ rfl scanned
    refine ⟨before, after, fault, hs, begins, rfl, .inl markup, fun kind hk => ?_⟩
    exact absurd (hk ▸ markup) (noBlock_readMarkup after kind)
  · have tiles : Tiles [] source.toList lexemes := scanFrom_eq_ok_iff.mp scanned
    obtain ⟨item, hm, fault, rfl, concerns, innermost⟩ := blames_of_treeOfItems treeless
    have noText (node : Node) : item.tag ≠ .ok (.leaf node) := by
      intro he
      rw [he] at concerns
      cases concerns
    obtain ⟨position, body, ht, rfl⟩ := exists_of_mem_ofTokens hm noText
    obtain ⟨lexeme, hl, rfl, trimsBefore, trimsAfter, hc⟩ := exists_of_mem_controlled ht
    obtain ⟨front, back, rfl⟩ := List.append_of_mem hl
    have begins := tiles.begins (by rw [hc]; exact Content.noConfusion)
    obtain ⟨after, hs⟩ := begins.exists_rest
    have place : lexeme.position = .after (front.flatMap Lexeme.span) :=
      (placed_append.mp tiles.placed).2.1
    refine ⟨_, after, fault, hs, begins, by rw [place]; rfl,
      .inr ⟨front, lexeme, back, body, trimsBefore, trimsAfter, scanned, rfl, hc, concerns⟩,
      fun kind hk => ⟨_, scanned, ?_⟩⟩
    rw [← place]
    generalize hr : Tag.read body = tag at concerns
    cases concerns with
    | own => exact absurd (hk ▸ hr) (NoBlock.read body kind)
    | clause => exact absurd (congrArg Except.error hk) (NoBlock.clause_of_read hr kind)
    | unclosed clause =>
      obtain rfl := Fault.unclosedBlock.inj hk
      exact innermost clause hr []
    | _ => cases hk

/-- A block behind a line with a letter of two bytes, with a chained clause and not closed. -/
def unclosed : String := "\u00e9\r\n\u00e9\x7b\x7b#if a\x7d\x7dx\x7b\x7b~else each b\x7d\x7dy"

def unclosedLexemes : List Lexeme :=
  [textAt 1 "\u00e9\r\n\u00e9",
    ⟨⟨2, 3⟩, "\x7b\x7b#if a\x7d\x7d".toList, .tag "#if a".toList false false⟩,
    ⟨⟨2, 12⟩, ['x'], .text⟩,
    ⟨⟨2, 13⟩, "\x7b\x7b~else each b\x7d\x7d".toList, .tag "else each b".toList true false⟩,
    ⟨⟨2, 29⟩, ['y'], .text⟩]

theorem compile_error_unclosed :
    Template.compile unclosed = .error (.parse ⟨2, 3⟩ (.unclosedBlock .ifTruthy)) ∧
      ∃ before, Begins unclosed.toList before ∧ Position.after before = ⟨2, 3⟩ ∧
        (openHeads [] (Item.ofTokens (controlled false unclosedLexemes))).head? =
          some ⟨⟨2, 3⟩, .ifTruthy⟩ := by
  have scanned : Lexeme.scan unclosed.toList = .ok unclosedLexemes := by decide +kernel
  have tokens : controlled false unclosedLexemes =
      [.text "\u00e9\r\n\u00e9".toList, .tag ⟨2, 3⟩ "#if a".toList, .text ['x'],
        .tag ⟨2, 13⟩ "else each b".toList, .text ['y']] := by decide +kernel
  have opened : Tag.read "#if a".toList = .ok (.opening condition) :=
    readTerminal?_eq_some_iff.mp readTerminal?_condition
  have chained : Tag.read "else each b".toList = .ok (.alternative (some (.ok iteration))) :=
    readTerminal?_eq_some_iff.mp readTerminal?_iteration
  have inner : readBlock ⟨⟨2, 3⟩, condition.kind⟩ iteration [⟨.origin, .ok (.leaf (.text "y"))⟩] =
      .error (.parse ⟨2, 3⟩ (.unclosedBlock .ifTruthy)) := by
    rw [readBlock, readBody, readBody]
    rfl
  have block : readBlock ⟨⟨2, 3⟩, condition.kind⟩ condition
      [⟨.origin, .ok (.leaf (.text "x"))⟩, ⟨⟨2, 13⟩, .ok (.alternative (some (.ok iteration)))⟩,
        ⟨.origin, .ok (.leaf (.text "y"))⟩] =
      .error (.parse ⟨2, 3⟩ (.unclosedBlock .ifTruthy)) := by
    rw [readBlock, readBody, readBody]
    simp only [bind, Except.bind, pure, Except.pure, Stop.within, inner]
  have items : Item.ofTokens (controlled false unclosedLexemes) =
      [⟨.origin, .ok (.leaf (.text "\u00e9\r\n\u00e9"))⟩, ⟨⟨2, 3⟩, .ok (.opening condition)⟩,
        ⟨.origin, .ok (.leaf (.text "x"))⟩, ⟨⟨2, 13⟩, .ok (.alternative (some (.ok iteration)))⟩,
        ⟨.origin, .ok (.leaf (.text "y"))⟩] := by
    rw [tokens]
    simp only [Item.ofTokens, opened, chained]
    rfl
  have treeless : treeOfItems (Item.ofTokens (controlled false unclosedLexemes)) =
      .error (.parse ⟨2, 3⟩ (.unclosedBlock .ifTruthy)) := by
    rw [items, treeOfItems, readBody, readBody]
    simp only [bind, Except.bind, block]
  have refused : Template.compile unclosed = .error (.parse ⟨2, 3⟩ (.unclosedBlock .ifTruthy)) := by
    rw [Template.compile, readTree, scanned]
    exact congrArg (Except.map (Template.mk (Digest.ofText unclosed))) treeless
  obtain ⟨before, after, fault, -, begins, he, -, innermost⟩ := compile_error refused
  obtain ⟨place, rfl⟩ := TemplateError.parse.inj he
  obtain ⟨lexemes, scanned', hi⟩ := innermost .ifTruthy rfl
  obtain rfl := Except.ok.inj (scanned.symm.trans scanned')
  exact ⟨refused, before, begins, place.symm, hi.trans (by rw [place]; rfl)⟩

end Colloquy.Template
