import Colloquy.Assembly
import Colloquy.Proofs.Marker
import Mathlib.Data.List.Forall2
import Mathlib.Data.List.Infix
import Mathlib.Data.List.SplitBy

/-!
# Where parts belong

What a rendered text says of its messages can be told without putting any together.  Its parts are
the texts between markers that are not blank, and its media.  Each part has the role that the last
role or history marker before it sets, and two parts belong together as long as no such marker
stands between them.  `Placed` is a part with all that stands before it, so that both can be read
off.

The messages of a text are its parts, cut where they do not belong together (`Conserves`).  The
proof goes through the segments with the parts of the message in progress.  Text and media go on
with that message, and a role or history marker ends it (`outlineFrom_cons_of_none`,
`outlineFrom_cons_of_some`).  The invariant is that no such marker stands between its parts and the
place reached (`Placed.Open`).
-/

namespace Colloquy

namespace Segment

/-- The role that is in force behind a segment, if it sets one.  Behind the conversation so far the
model speaks, and a name that is no role stands for the user. -/
def turn? : Segment → Option Role
  | marker (.role name) => some ((Role.ofName? name).getD .user)
  | marker .history => some .model
  | marker (.media _ _) => none
  | text _ => none

/-- The part that a segment gives, if any. -/
def content : Segment → List Part
  | text t => if Text.allBlank t.toList then [] else [.text t]
  | marker (.media url contentType) => [.media ⟨url, contentType⟩]
  | marker _ => []

/-- The segments with neighbouring texts as one. -/
def runs : List Segment → List Segment
  | [] => []
  | text t :: rest =>
    match runs rest with
    | text more :: behind => text (t ++ more) :: behind
    | behind => text t :: behind
  | marker m :: rest => marker m :: runs rest

/-- The role in force behind some segments; at first it is the user's. -/
def roleAfter (before : List Segment) : Role := (before.filterMap turn?).getLast?.getD .user

end Segment

/-- A part of a rendered text, with the segments before it. -/
structure Placed where
  before : List Segment
  part : Part

namespace Placed

/-- The role in force where the part stands. -/
def role (p : Placed) : Role := Segment.roleAfter p.before

/-- No role or history marker stands between a part and a later one. -/
def together (p q : Placed) : Bool :=
  (q.before.drop p.before.length).all fun s => s.turn?.isNone

end Placed

/-- The parts of some segments that stand behind others. -/
def placedFrom (before : List Segment) : List Segment → List Placed
  | [] => []
  | s :: rest => s.content.map (Placed.mk before) ++ placedFrom (before ++ [s]) rest

/-- The parts of a rendered text. -/
def placed (rendered : String) : List Placed :=
  placedFrom [] (Segment.runs (Segment.scan rendered.toList))

/-! ## Runs -/

namespace Segment

/-- One of two neighbours is a marker. -/
def Apart (s t : Segment) : Prop := Slot.isMarker s = true ∨ Slot.isMarker t = true

lemma isChain_runs (segments : List Segment) : (runs segments).IsChain Apart := by
  induction segments with
  | nil => exact .nil
  | cons s rest ih =>
    cases s with
    | marker m =>
      unfold runs
      rw [List.isChain_cons]
      exact ⟨fun _ _ => .inl rfl, ih⟩
    | text t =>
      unfold runs
      split
      · rename_i behind more h
        rw [h, List.isChain_cons] at ih
        rw [List.isChain_cons]
        exact ih
      · rename_i noText
        rw [List.isChain_cons]
        refine ⟨fun next hn => ?_, ih⟩
        cases next with
        | marker m => exact .inr rfl
        | text more =>
          obtain ⟨behind, hb⟩ := List.head?_eq_some_iff.mp hn
          exact absurd hb (noText more behind)

lemma count_runs (m : Marker) (segments : List Segment) :
    (runs segments).count (marker m) = segments.count (marker m) := by
  induction segments with
  | nil => rfl
  | cons s rest ih =>
    cases s with
    | text t =>
      have other : text t ≠ marker m := by simp
      rw [List.count_cons_of_ne other, ← ih, runs]
      split
      · rename_i h
        rw [h]
        simp
      · simp
    | marker m' => rw [runs, List.count_cons, List.count_cons, ih]

end Segment

namespace Slot

open Segment

/-! ## The outline of runs -/

/-- Whether neighbouring texts are one makes no difference to the outline. -/
lemma outlineFrom_runs (role : Role) (parts : List Part) (text : String)
    (segments : List Segment) :
    outlineFrom role parts text (runs segments) = outlineFrom role parts text segments := by
  induction segments generalizing role parts text with
  | nil => rfl
  | cons s rest ih =>
    cases s with
    | text t =>
      unfold runs
      split
      · rename_i more behind h
        rw [outlineFrom, outlineFrom, ← ih, h, outlineFrom, String.append_assoc]
      · rw [outlineFrom, outlineFrom, ih]
    | marker m =>
      unfold runs
      cases m with
      | media url contentType => rw [outlineFrom, outlineFrom, ih]
      | role name => rw [outlineFrom, outlineFrom, ih]
      | history => rw [outlineFrom, outlineFrom, ih]

lemma textPart_empty : textPart "" = [] := by decide +kernel

lemma close_textPart (role : Role) (parts : List Part) (text : String) :
    close role (parts ++ textPart text) "" = close role parts text := by
  unfold close
  rw [textPart_empty, List.append_nil]

/-- The text in progress is a part already if no text follows. -/
lemma outlineFrom_textPart (role : Role) (parts : List Part) (text : String)
    {segments : List Segment} (h : ∀ s ∈ segments.head?, isMarker s = true) :
    outlineFrom role (parts ++ textPart text) "" segments =
      outlineFrom role parts text segments := by
  cases segments with
  | nil => exact close_textPart role parts text
  | cons s rest =>
    cases s with
    | text t => cases h _ rfl
    | marker m =>
      cases m with
      | media url contentType =>
        rw [outlineFrom, outlineFrom, textPart_empty, List.append_nil]
      | role name => rw [outlineFrom, outlineFrom, close_textPart]
      | history => rw [outlineFrom, outlineFrom, close_textPart]

/-- The place for the conversation so far that a segment is. -/
def placeOf (s : Segment) : List Slot := if s = .marker .history then [history] else []

/-- **Text and media go on with the message in progress.** -/
lemma outlineFrom_cons_of_none (role : Role) (parts : List Part) {s : Segment}
    {rest : List Segment} (apart : (s :: rest).IsChain Apart) (hs : s.turn? = none) :
    outlineFrom role parts "" (s :: rest) = outlineFrom role (parts ++ s.content) "" rest := by
  cases s with
  | text t =>
    have next : ∀ s ∈ rest.head?, isMarker s = true := by
      intro s hs
      rcases (List.isChain_cons.mp apart).1 s hs with h | h
      · cases h
      · exact h
    rw [outlineFrom, String.empty_append]
    exact (outlineFrom_textPart role parts t next).symm
  | marker m =>
    cases m with
    | media url contentType =>
      rw [outlineFrom, textPart_empty, List.append_nil]
      rfl
    | role name => cases hs
    | history => cases hs

/-- **A role or history marker ends it**, and begins another one with its role. -/
lemma outlineFrom_cons_of_some (role : Role) (parts : List Part) {s : Segment} {next : Role}
    (rest : List Segment) (hs : s.turn? = some next) :
    s.content = [] ∧ outlineFrom role parts "" (s :: rest) =
      close role parts "" ++ (placeOf s ++ outlineFrom next [] "" rest) := by
  cases s with
  | text t => cases hs
  | marker m =>
    cases m with
    | media url contentType => cases hs
    | role name =>
      obtain rfl := Option.some.inj hs
      exact ⟨rfl, rfl⟩
    | history =>
      obtain rfl := Option.some.inj hs
      exact ⟨rfl, rfl⟩

end Slot

/-! ## Where parts stand -/

namespace Segment

lemma roleAfter_concat_of_none (before : List Segment) {s : Segment} (hs : s.turn? = none) :
    roleAfter (before ++ [s]) = roleAfter before := by
  simp [roleAfter, List.filterMap_append, hs]

lemma roleAfter_concat_of_some (before : List Segment) {s : Segment} {role : Role}
    (hs : s.turn? = some role) : roleAfter (before ++ [s]) = role := by
  simp [roleAfter, List.filterMap_append, hs]

end Segment

/-- What stands before some segments stands before all their parts. -/
lemma prefix_of_mem_placedFrom {before segments : List Segment} {p : Placed}
    (h : p ∈ placedFrom before segments) : before <+: p.before := by
  induction segments generalizing before with
  | nil => cases h
  | cons s rest ih =>
    rw [placedFrom, List.mem_append, List.mem_map] at h
    rcases h with ⟨part, _, rfl⟩ | h
    · exact List.prefix_rfl
    · exact (List.prefix_append before [s]).trans (ih h)

/-- What stands before a part stands before all later ones. -/
lemma pairwise_placedFrom (before segments : List Segment) :
    (placedFrom before segments).Pairwise fun p q => p.before <+: q.before := by
  induction segments generalizing before with
  | nil => exact .nil
  | cons s rest ih =>
    rw [placedFrom, List.pairwise_append]
    refine ⟨?_, ih (before ++ [s]), ?_⟩
    · rw [List.pairwise_map]
      exact List.pairwise_of_forall fun _ _ => List.prefix_rfl
    · intro p hp q hq
      obtain ⟨part, _, rfl⟩ := List.mem_map.mp hp
      exact (List.prefix_append before [s]).trans (prefix_of_mem_placedFrom hq)

namespace Placed

variable {p q : Placed} {before : List Segment}

/-- The part belongs to the message in progress: no role or history marker stands between it and the
place reached, which has some segments before it. -/
structure Open (before : List Segment) (p : Placed) : Prop where
  upTo : p.before <+: before
  stays : ∀ s ∈ before.drop p.before.length, s.turn? = none

lemma open_mk (before : List Segment) (part : Part) : Open before ⟨before, part⟩ :=
  ⟨List.prefix_rfl, by simp⟩

namespace Open

lemma role_eq (h : Open before p) : p.role = Segment.roleAfter before := by
  obtain ⟨between, rfl⟩ := h.upTo
  have none : between.filterMap Segment.turn? = [] := by
    rw [List.filterMap_eq_nil_iff]
    intro s hs
    exact h.stays s (by simpa using hs)
  rw [role, Segment.roleAfter, Segment.roleAfter, List.filterMap_append, none, List.append_nil]

lemma concat (h : Open before p) {s : Segment} (hs : s.turn? = none) : Open (before ++ [s]) p := by
  refine ⟨h.upTo.trans (List.prefix_append before [s]), fun t ht => ?_⟩
  rw [List.drop_append_of_le_length h.upTo.length_le, List.mem_append,
    List.mem_singleton] at ht
  rcases ht with ht | rfl
  · exact h.stays t ht
  · exact hs

lemma together (hp : Open before p) (hq : Open before q) : p.together q = true := by
  rw [Placed.together, List.all_eq_true]
  intro s hs
  have here : s ∈ before.drop p.before.length := (hq.upTo.drop _).subset hs
  rw [hp.stays s here]
  rfl

/-- It does not belong together with what stands behind another role or history marker. -/
lemma not_together (hp : Open before p) {s : Segment} {role : Role} (hs : s.turn? = some role)
    (hq : before ++ [s] <+: q.before) : p.together q = false := by
  rw [Placed.together, Bool.eq_false_iff, Ne, List.all_eq_true]
  intro all
  have inside : s ∈ q.before.drop p.before.length := by
    refine (hq.drop _).subset ?_
    rw [List.drop_append_of_le_length hp.upTo.length_le]
    simp
  have none := all s inside
  rw [hs] at none
  cases none

end Open

/-- The message has these parts, and its role is in force for all of them. -/
structure Holds (m : Message) (parts : List Placed) : Prop where
  content : m.content = parts.map Placed.part
  role : ∀ p ∈ parts, m.role = p.role
  plain : m.metadata = none

lemma exists_holds {messages : List Message} {groups : List (List Placed)}
    (h : List.Forall₂ Holds messages groups) : ∀ m ∈ messages, ∃ parts ∈ groups, Holds m parts := by
  induction h with
  | nil => simp
  | @cons m parts _ _ holds _ ih =>
    intro m' hm
    rcases List.mem_cons.mp hm with rfl | hm
    · exact ⟨parts, List.mem_cons_self, holds⟩
    · obtain ⟨parts', hp, holds'⟩ := ih m' hm
      exact ⟨parts', List.mem_cons_of_mem parts hp, holds'⟩

/-- The parts of the message in progress are one message, if there are any. -/
lemma holds_close {parts : List Placed} (open_ : ∀ p ∈ parts, Open before p) :
    List.Forall₂ Holds (Slot.fill [] (Slot.close (Segment.roleAfter before) (parts.map part) ""))
      (parts.splitBy together) := by
  unfold Slot.close
  rw [Slot.textPart_empty, List.append_nil]
  cases parts with
  | nil => exact .nil
  | cons p rest =>
    have chain : (p :: rest).IsChain fun p q => p.together q = true := by
      refine List.Pairwise.isChain (List.pairwise_of_forall_mem_list ?_)
      exact fun p hp q hq => (open_ p hp).together (open_ q hq)
    rw [List.splitBy_of_isChain (List.cons_ne_nil p rest) chain]
    refine .cons ⟨rfl, ?_, rfl⟩ .nil
    exact fun q hq => (open_ q hq).role_eq.symm

end Placed

namespace Slot

open Segment

lemma fill_append (conversation : List Message) (first second : List Slot) :
    fill conversation (first ++ second) = fill conversation first ++ fill conversation second := by
  induction first with
  | nil => rfl
  | cons slot rest ih =>
    cases slot with
    | message m => exact congrArg (m :: ·) ih
    | history => rw [List.cons_append, fill, fill, ih, List.append_assoc]

lemma fill_nil_placeOf (s : Segment) : fill [] (placeOf s) = [] := by
  unfold placeOf
  split
  · rfl
  · rfl

/-- **The messages of an outline are its parts, cut where they do not belong together.** -/
theorem outlineFrom_holds {segments : List Segment} (apart : segments.IsChain Apart)
    (before : List Segment) {parts : List Placed} (open_ : ∀ p ∈ parts, p.Open before) :
    List.Forall₂ Placed.Holds
      (fill [] (outlineFrom (roleAfter before) (parts.map Placed.part) "" segments))
      ((parts ++ placedFrom before segments).splitBy Placed.together) := by
  -- The parts of the message in progress change from segment to segment; that they are open at the
  -- place reached is what carries the induction.
  induction segments generalizing before parts with
  | nil =>
    rw [placedFrom, List.append_nil]
    exact Placed.holds_close open_
  | cons s rest ih =>
    have later := (List.isChain_cons.mp apart).2
    cases hs : s.turn? with
    | none =>
      have now : ∀ p ∈ parts ++ s.content.map (Placed.mk before), p.Open (before ++ [s]) := by
        intro p hp
        rcases List.mem_append.mp hp with hp | hp
        · exact (open_ p hp).concat hs
        · obtain ⟨part, _, rfl⟩ := List.mem_map.mp hp
          exact (Placed.open_mk before part).concat hs
      have step := ih later (before ++ [s]) now
      rw [roleAfter_concat_of_none before hs, List.map_append, List.map_map] at step
      rw [outlineFrom_cons_of_none _ _ apart hs, placedFrom, ← List.append_assoc]
      simpa [Function.comp_def] using step
    | some next =>
      obtain ⟨none, cut⟩ :=
        outlineFrom_cons_of_some (roleAfter before) (parts.map Placed.part) rest hs
      have fresh : ∀ p ∈ ([] : List Placed), p.Open (before ++ [s]) := by simp
      have step := ih later (before ++ [s]) fresh
      rw [roleAfter_concat_of_some before hs] at step
      have between : ∀ p ∈ parts.getLast?, ∀ q ∈ (placedFrom (before ++ [s]) rest).head?,
          p.together q = false := by
        intro p hp q hq
        exact (open_ p (List.mem_of_getLast? hp)).not_together hs
          (prefix_of_mem_placedFrom (List.mem_of_mem_head? hq))
      rw [cut, fill_append, fill_append, fill_nil_placeOf, placedFrom, none, List.map_nil,
        List.nil_append, List.nil_append, List.splitBy_append between]
      exact List.rel_append (Placed.holds_close open_) step

/-- **Where the conversation goes.**  An outline with a place stays as it is.  Without one, the
place is before the last message when that is the user's, and else at the end. -/
lemma withPlace_cases (slots : List Slot) :
    (history ∈ slots ∧ withPlace slots = slots) ∨
      (history ∉ slots ∧ ∃ others last, slots = others ++ [message last] ∧ last.role = .user ∧
        withPlace slots = others ++ [history, message last]) ∨
      (history ∉ slots ∧ (∀ last, slots.getLast? = some (message last) → last.role ≠ .user) ∧
        withPlace slots = slots ++ [history]) := by
  unfold withPlace
  by_cases h : history ∈ slots
  · rw [if_pos (List.contains_iff_mem.mpr h)]
    exact .inl ⟨h, rfl⟩
  · have none : ¬slots.contains history = true := by simpa using h
    rw [if_neg none]
    refine .inr ?_
    split
    · rename_i m last
      by_cases user : m.role = .user
      · have whole : slots = slots.dropLast ++ [message m] :=
          (List.dropLast_append_getLast? (message m) last).symm
        rw [if_pos user]
        exact .inl ⟨h, slots.dropLast, m, whole, user, rfl⟩
      · rw [if_neg user]
        refine .inr ⟨h, fun m' hm' => ?_, rfl⟩
        obtain rfl : m = m' := by simpa [last] using hm'
        exact user
    · rename_i other
      exact .inr ⟨h, fun m hm => absurd hm (other m), rfl⟩

/-- Without a conversation the place for it does not matter. -/
lemma fill_nil_withPlace (slots : List Slot) : fill [] (withPlace slots) = fill [] slots := by
  rcases withPlace_cases slots with ⟨_, same⟩ | ⟨_, others, last, rfl, _, before⟩ | ⟨_, _, behind⟩
  · rw [same]
  · rw [before, fill_append, fill_append]
    rfl
  · rw [behind, fill_append]
    exact List.append_nil _

end Slot

/-! ## Texts without markers -/

namespace Segment

/-- The text has a marker. -/
def HasMarker (rendered : String) : Prop := ∃ m, marker m ∈ scan rendered.toList

lemma any_isMarker_iff (rendered : String) :
    (scan rendered.toList).any Slot.isMarker = true ↔ HasMarker rendered := by
  rw [List.any_eq_true]
  constructor
  · rintro ⟨s, hs, hm⟩
    cases s with
    | text t => cases hm
    | marker m => exact ⟨m, hs⟩
  · rintro ⟨m, hm⟩
    exact ⟨marker m, hm, rfl⟩

lemma runs_text_cons_ofText (t : List Char) (s : List Char) {rest : List Segment}
    (h : runs rest = ofText s) :
    runs (text (String.ofList t) :: rest) = [text (String.ofList (t ++ s))] := by
  unfold runs
  rw [h, ofText]
  cases s with
  | nil => simp
  | cons c s => simp [String.ofList_append]

/-- **How a scan begins.**  No marker is in the text, or there is a first one, or a first stretch
that looks like one, and the scan goes on behind it. -/
lemma scan_cases (s : List Char) :
    scan s = ofText s ∨
      ∃ before body rest, s = before ++ Marker.start :: body ++ Marker.stop :: rest ∧
        ((∃ m, Marker.decode? body = some m ∧ scan s = ofText before ++ marker m :: scan rest) ∨
          Marker.decode? body = none ∧
            scan s = text (String.ofList (before ++ Marker.start :: body ++ [Marker.stop])) ::
              scan rest) := by
  rw [scan]
  split
  · exact .inl rfl
  · rename_i before tail first
    split
    · exact .inl rfl
    · rename_i body rest last
      refine .inr ⟨before, body, rest, ?_, ?_⟩
      · rw [(Text.cutAt?_eq_some_iff.mp first).1, (Text.cutAt?_eq_some_iff.mp last).1]
        simp
      · split
        · rename_i m known
          exact .inl ⟨m, known, rfl⟩
        · rename_i unknown
          exact .inr ⟨unknown, rfl⟩

/-- All of a text without markers is one run. -/
lemma runs_scan {s : List Char} (h : ∀ m, marker m ∉ scan s) : runs (scan s) = ofText s := by
  induction hn : s.length using Nat.strong_induction_on generalizing s with
  | _ n ih =>
    rcases scan_cases s with plain | ⟨before, body, rest, whole, ⟨m, _, found⟩ | ⟨_, found⟩⟩
    · rw [plain, ofText]
      split
      · rfl
      · rfl
    · rw [found] at h
      exact absurd (List.mem_append_right _ List.mem_cons_self) (h m)
    · rw [found] at h ⊢
      have shorter : rest.length < n := by
        rw [← hn, whole]
        simp
        omega
      have later : runs (scan rest) = ofText rest :=
        ih rest.length shorter (fun m hm => h m (List.mem_cons_of_mem _ hm)) rfl
      rw [runs_text_cons_ofText _ _ later, whole, ofText]
      simp

lemma placed_of_not_hasMarker {rendered : String} (h : ¬HasMarker rendered)
    (shown : Text.allBlank rendered.toList = false) :
    placed rendered = [⟨[], .text rendered⟩] := by
  have nonempty : rendered ≠ "" := by
    rintro rfl
    cases shown
  have one : runs (scan rendered.toList) = [.text rendered] := by
    rw [runs_scan fun m hm => h ⟨m, hm⟩]
    simp [ofText, nonempty]
  simp [placed, one, placedFrom, content, shown]

end Segment

namespace Slot

open Segment

lemma outline_of_hasMarker {rendered : String} (h : HasMarker rendered) :
    outline rendered = outlineFrom .user [] "" (runs (scan rendered.toList)) := by
  rw [outlineFrom_runs, outline, if_pos ((any_isMarker_iff rendered).mpr h)]

lemma outline_of_not_hasMarker {rendered : String} (h : ¬HasMarker rendered) :
    outline rendered = [message (.ofText .user rendered)] := by
  rw [outline, if_neg (by rwa [any_isMarker_iff])]

lemma outline_holds {rendered : String} (h : HasMarker rendered) :
    List.Forall₂ Placed.Holds (fill [] (outline rendered))
      ((placed rendered).splitBy Placed.together) := by
  have fresh : ∀ p ∈ ([] : List Placed), p.Open [] := by simp
  rw [outline_of_hasMarker h]
  exact outlineFrom_holds (isChain_runs (scan rendered.toList)) [] fresh

end Slot

namespace Message

open Segment

/-- What is true of the messages that some parts of a text become. -/
structure Conserves (parts : List Placed) (messages : List Message) : Prop where
  /-- What stands before a part stands before all later ones. -/
  ordered : parts.Pairwise fun p q => p.before <+: q.before
  /-- All parts are there, each once and in order. -/
  whole : messages.flatMap Message.content = parts.map Placed.part
  /-- Consecutive parts are in one message as long as no role or history marker stands between
  them, and each message has the role that is in force for its parts. -/
  groups : List.Forall₂ Placed.Holds messages (parts.splitBy Placed.together)
  nonempty : ∀ m ∈ messages, m.content ≠ []

lemma flatMap_content_of_holds {messages : List Message} {groups : List (List Placed)}
    (h : List.Forall₂ Placed.Holds messages groups) :
    messages.flatMap Message.content = groups.flatten.map Placed.part := by
  induction h with
  | nil => rfl
  | cons holds _ ih =>
    rw [List.flatMap_cons, List.flatten_cons, List.map_append, holds.content, ih]

lemma conserves_of_holds {rendered : String} {messages : List Message}
    (h : List.Forall₂ Placed.Holds messages ((placed rendered).splitBy Placed.together)) :
    Conserves (placed rendered) messages := by
  refine ⟨pairwise_placedFrom [] _, ?_, h, fun m hm => ?_⟩
  · rw [flatMap_content_of_holds h, List.flatten_splitBy]
  · obtain ⟨parts, hp, holds⟩ := Placed.exists_holds h m hm
    have some : parts ≠ [] := List.ne_nil_of_mem_splitBy hp
    rw [holds.content]
    simpa using some

lemma assemble_nil (rendered : String) :
    assemble rendered [] = Slot.fill [] (Slot.outline rendered) :=
  Slot.fill_nil_withPlace _

/-- **Assembling conserves content.**  The messages of a rendered text are its parts, cut at the
role and history markers.  Only a text without markers that is blank has no parts: whatever it
holds, a text without markers is one message of the user. -/
theorem assemble_conserves (rendered : String) :
    (HasMarker rendered ∨ Text.allBlank rendered.toList = false →
        Conserves (placed rendered) (assemble rendered [])) ∧
      (¬HasMarker rendered → assemble rendered [] = [ofText .user rendered]) := by
  rw [assemble_nil]
  by_cases marked : HasMarker rendered
  · have holds := Slot.outline_holds marked
    exact ⟨fun _ => conserves_of_holds holds, fun unmarked => absurd marked unmarked⟩
  · have one := Slot.outline_of_not_hasMarker marked
    rw [one]
    refine ⟨fun some => conserves_of_holds ?_, fun _ => rfl⟩
    rw [placed_of_not_hasMarker marked (some.resolve_left marked),
      List.splitBy_of_isChain (List.cons_ne_nil _ _) (.singleton _)]
    exact .cons ⟨rfl, by simp [ofText, Placed.role, roleAfter], rfl⟩ .nil

/-- A text that is blank is dropped between markers. -/
example :
    assemble (String.ofList (" ".toList ++ (Marker.role "model").encode ++ "Hi".toList)) [] =
      [.ofText .model "Hi"] := by
  cbv

end Message

end Colloquy
