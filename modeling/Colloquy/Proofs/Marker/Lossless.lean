import Colloquy.Proofs.Marker
import Mathlib.Data.List.Chain

/-!
# Scanning loses nothing

The segments of a scanned text tile it: a text segment covers itself, and a marker the characters
from its start to the first end behind it, which are decoded to it.  A start character that has no
end, or whose body is none of the known ones, begins no marker, so it is left in a text unless a
marker covers it that began before.  And of the starts in a text the first one is of this kind
(`Unread`), so no marker is overlooked in front of it.

In the other direction, markers and texts that are written one after the other are found again.
-/

namespace Colloquy.Segment

open Marker

/-- The segment is a text. -/
def isText : Segment → Bool
  | text _ => true
  | marker _ => false

/-! ## Tiles -/

/-- A text covers itself, and a marker its start, a body that is decoded to it, and the first end
behind that. -/
inductive Covers : Segment → List Char → Prop
  | text {t : String} (visible : t ≠ "") : Covers (.text t) t.toList
  | marker {m : Marker} {body : List Char} (first : stop ∉ body) (decoded : decode? body = some m) :
    Covers (.marker m) (start :: body ++ [stop])

/-- A segment with the stretch of text that it covers. -/
structure Tile where
  segment : Segment
  span : List Char
  covers : Covers segment span

namespace Tile

/-- The tile is a text. -/
def IsText (tile : Tile) : Prop := tile.segment.isText = true

/-- The text that some tiles make up. -/
def cover (tiles : List Tile) : List Char := tiles.flatMap span

@[simp] lemma cover_nil : cover [] = [] := rfl

@[simp] lemma cover_cons (tile : Tile) (tiles : List Tile) :
    cover (tile :: tiles) = tile.span ++ cover tiles := rfl

/-- The tile of a text. -/
def plain (s : List Char) (h : s ≠ []) : Tile :=
  ⟨.text (String.ofList s), s, by simpa using Covers.text (t := String.ofList s) (by simpa using h)⟩

/-- The tile of a marker with its body. -/
def marked {m : Marker} {body : List Char} (first : stop ∉ body) (decoded : decode? body = some m) :
    Tile :=
  ⟨.marker m, start :: body ++ [stop], .marker first decoded⟩

end Tile

/-- The start character between two parts of a tiled text lies in the tile, with `front` before it
there. -/
def LiesIn (tiles : List Tile) (before after : List Char) (tile : Tile) (front : List Char) : Prop :=
  ∃ earlier back later, tiles = earlier ++ tile :: later ∧ tile.span = front ++ start :: back ∧
    before = Tile.cover earlier ++ front ∧ after = back ++ Tile.cover later

/-- Every start character of a tiled text lies in a tile. -/
lemma exists_liesIn {tiles : List Tile} {before after : List Char}
    (h : Tile.cover tiles = before ++ start :: after) :
    ∃ tile front, LiesIn tiles before after tile front := by
  induction tiles generalizing before with
  | nil => simp at h
  | cons tile tiles ih =>
    rw [Tile.cover_cons] at h
    -- The character stands in the first tile or behind it.
    rcases List.append_eq_append_iff.mp h with ⟨more, hb, hr⟩ | ⟨more, hs, ha⟩
    · obtain ⟨tile', front, earlier, back, later, rfl, hs, rfl, rfl⟩ := ih hr
      exact ⟨tile', front, tile :: earlier, back, later, rfl, hs, by simp [hb], rfl⟩
    · cases more with
      | nil =>
        have next : Tile.cover tiles = [] ++ start :: after := ha.symm
        obtain ⟨tile', front, earlier, back, later, rfl, hs', hb, rfl⟩ := ih next
        refine ⟨tile', front, tile :: earlier, back, later, rfl, hs', ?_, rfl⟩
        rw [Tile.cover_cons, List.append_assoc, ← hb, hs]
        simp
      | cons c more =>
        obtain ⟨rfl, rfl⟩ := List.cons.inj ha
        exact ⟨tile, before, [], more, tiles, rfl, hs, rfl, rfl⟩

/-! ## Starts that begin no marker -/

/-- What follows a start character has no end, or is not decoded up to the first end. -/
def Unread (after : List Char) : Prop :=
  ∀ body rest, after = body ++ stop :: rest → stop ∉ body → decode? body = none

/-- A start character that lies in a marker begins it, and then its body is decoded, or has a start
before it; in both cases an end follows. -/
lemma LiesIn.of_not_isText {tiles : List Tile} {before after : List Char} {tile : Tile}
    {front : List Char} (h : LiesIn tiles before after tile front) (marker : ¬tile.IsText) :
    stop ∈ after ∧ (front = [] → ¬Unread after) := by
  obtain ⟨earlier, back, later, rfl, hs, rfl, rfl⟩ := h
  obtain ⟨segment, span, covers⟩ := tile
  cases covers with
  | text => exact absurd rfl marker
  | @marker m body first decoded =>
    dsimp only at hs
    constructor
    · -- The last character of the span is an end, and it is not the start that we look at.
      have last := congrArg List.getLast? hs
      simp only [List.getLast?_append, Option.some_or, List.getLast?_cons] at last
      cases back with
      | nil => exact absurd last (by decide)
      | cons c back =>
        refine List.mem_append_left _ (List.mem_of_getLast? ?_)
        simpa [List.getLast?_cons] using last.symm
    · rintro rfl unread
      obtain rfl : body ++ [stop] = back := (List.cons.inj hs).2
      have none := unread body (Tile.cover later) (by simp) first
      rw [none] at decoded
      cases decoded

/-! ## The tiles of a scan -/

/-- The first start in a text begins no marker. -/
def LeavesUnread (tiles : List Tile) : Prop :=
  ∀ before after tile front, LiesIn tiles before after tile front → tile.IsText → start ∉ front →
    Unread after

lemma leavesUnread_nil : LeavesUnread [] := by
  rintro before after tile front ⟨earlier, back, later, h, -⟩
  simp at h

lemma leavesUnread_cons {tile : Tile} {tiles : List Tile}
    (own : tile.IsText → ∀ front back, tile.span = front ++ start :: back → start ∉ front →
      Unread (back ++ Tile.cover tiles))
    (others : LeavesUnread tiles) : LeavesUnread (tile :: tiles) := by
  rintro before after tile' front ⟨earlier, back, later, h, hs, -, rfl⟩ isText first
  cases earlier with
  | nil =>
    obtain ⟨rfl, rfl⟩ := List.cons.inj h
    exact own isText front back hs first
  | cons tile'' earlier =>
    obtain ⟨-, rfl⟩ := List.cons.inj h
    exact others _ _ tile' front ⟨earlier, back, later, rfl, hs, rfl, rfl⟩ isText first

/-- The tiles are those of the segments of a text, and none of its markers is overlooked. -/
structure Tiles (s : List Char) (segments : List Segment) (tiles : List Tile) : Prop where
  segments_eq : tiles.map Tile.segment = segments
  cover_eq : Tile.cover tiles = s
  leavesUnread : LeavesUnread tiles

/-- A text is put in front of a tiling, if its first start begins no marker there. -/
lemma Tiles.text {s t : List Char} {segments : List Segment} {tiles : List Tile}
    (h : Tiles s segments tiles)
    (unread : ∀ front back, t = front ++ start :: back → start ∉ front → Unread (back ++ s)) :
    ∃ tiles, Tiles (t ++ s) (ofText t ++ segments) tiles := by
  by_cases ht : t = []
  · subst ht
    exact ⟨tiles, by simpa [ofText] using h⟩
  · refine ⟨.plain t ht :: tiles, ?_, ?_, ?_⟩
    · simp [h.segments_eq, ofText, ht, Tile.plain]
    · simp [h.cover_eq, Tile.plain]
    · refine leavesUnread_cons (fun _ front back hs first => ?_) h.leavesUnread
      rw [h.cover_eq]
      exact unread front back hs first

/-- A marker is put in front of a tiling. -/
lemma Tiles.marker {s body : List Char} {m : Marker} {segments : List Segment} {tiles : List Tile}
    (h : Tiles s segments tiles) (first : stop ∉ body) (decoded : decode? body = some m) :
    Tiles (start :: body ++ stop :: s) (.marker m :: segments) (.marked first decoded :: tiles) where
  segments_eq := by simp [h.segments_eq, Tile.marked]
  cover_eq := by simp [h.cover_eq, Tile.marked]
  leavesUnread := by
    refine leavesUnread_cons (fun isText => ?_) h.leavesUnread
    cases isText

lemma tiles_nil : Tiles [] [] [] := ⟨rfl, rfl, leavesUnread_nil⟩

/-- Behind the first start of a text stands what is found there. -/
lemma eq_of_first_start {before tail front back : List Char} (h : start ∉ before)
    (first : start ∉ front) (he : before ++ start :: tail = front ++ start :: back) :
    back = tail := by
  have cut := Text.cutAt?_append_cons h tail
  rw [he, Text.cutAt?_append_cons first] at cut
  exact (Prod.mk.inj (Option.some.inj cut)).2

/-- A body that is cut off at the first end is the only one to be decoded. -/
lemma unread_of_decode?_eq_none {body : List Char} (first : stop ∉ body)
    (h : decode? body = none) (rest : List Char) : Unread (body ++ stop :: rest) := by
  intro body' rest' he first'
  have cut := Text.cutAt?_append_cons first rest
  rw [he, Text.cutAt?_append_cons first'] at cut
  obtain ⟨rfl, -⟩ := Prod.mk.inj (Option.some.inj cut)
  exact h

/-- **The segments of a scan tile the text.** -/
lemma exists_tiles (s : List Char) : ∃ tiles, Tiles s (scan s) tiles := by
  fun_induction scan s with
  | case1 s hc =>
    have none : start ∉ s := Text.cutAt?_eq_none_iff.mp hc
    have := tiles_nil.text (t := s) fun front back hs _ => absurd hs (by rintro rfl; simp at none)
    simpa using this
  | case2 s before tail hc hn =>
    obtain ⟨rfl, first⟩ := Text.cutAt?_eq_some_iff.mp hc
    have endless : stop ∉ tail := Text.cutAt?_eq_none_iff.mp hn
    have := tiles_nil.text (t := before ++ start :: tail) fun front back hs first' => by
      obtain rfl := eq_of_first_start first first' hs
      rintro body rest he -
      simp only [List.append_nil] at he
      simp [he] at endless
    simpa using this
  | case3 s before tail hc body rest hc' _ m hd ih =>
    obtain ⟨rfl, first⟩ := Text.cutAt?_eq_some_iff.mp hc
    obtain ⟨rfl, last⟩ := Text.cutAt?_eq_some_iff.mp hc'
    obtain ⟨tiles, h⟩ := ih
    have := (h.marker last hd).text (t := before)
      fun front back hs _ => absurd hs (by rintro rfl; simp at first)
    simpa using this
  | case4 s before tail hc body rest hc' _ hd ih =>
    obtain ⟨rfl, first⟩ := Text.cutAt?_eq_some_iff.mp hc
    obtain ⟨rfl, last⟩ := Text.cutAt?_eq_some_iff.mp hc'
    obtain ⟨tiles, h⟩ := ih
    have := h.text (t := before ++ start :: body ++ [stop]) fun front back hs first' => by
      have same : before ++ start :: (body ++ [stop]) = front ++ start :: back := by simpa using hs
      obtain rfl := eq_of_first_start first first' same
      simpa using unread_of_decode?_eq_none last hd rest
    simpa [ofText] using this

/-! ## Writing segments -/

/-- A segment as it is written. -/
def write : Segment → List Char
  | text t => t.toList
  | marker m => m.encode

/-- A segment as it is read back. -/
def normal : Segment → Segment
  | text t => text t
  | marker m => marker m.normal

/-- The texts have no start character, none is empty, and a marker stands between any two. -/
structure Separate (segments : List Segment) : Prop where
  plain : ∀ t, text t ∈ segments → t ≠ "" ∧ start ∉ t.toList
  apart : segments.IsChain fun a b => a.isText = true → b.isText = false

lemma Separate.of_cons {segment : Segment} {segments : List Segment}
    (h : Separate (segment :: segments)) : Separate segments where
  plain t ht := h.plain t (List.mem_cons_of_mem _ ht)
  apart := (List.isChain_cons.mp h.apart).2

/-- What is written is found again behind a text, unless it begins with a text itself. -/
lemma scan_append_write {segments : List Segment} (h : Separate segments) (before : List Char)
    (hb : start ∉ before) (joint : before = [] ∨ ∀ a ∈ segments.head?, a.isText = false) :
    scan (before ++ segments.flatMap write) = ofText before ++ segments.map normal := by
  induction segments generalizing before with
  | nil => simpa using scan_of_start_notMem hb
  | cons segment segments ih =>
    rw [List.flatMap_cons, List.map_cons]
    cases segment with
    | text t =>
      obtain rfl : before = [] := joint.resolve_right fun hj => by simp [isText] at hj
      obtain ⟨visible, plain⟩ := h.plain t List.mem_cons_self
      have next : ∀ a ∈ segments.head?, a.isText = false := fun a ha =>
        (List.isChain_cons.mp h.apart).1 a ha rfl
      have rest := ih h.of_cons t.toList plain (.inr next)
      simpa [write, normal, ofText, visible] using rest
    | marker m =>
      have rest := ih h.of_cons [] List.not_mem_nil (.inl rfl)
      rw [write, ← List.append_assoc, scan_append_encode hb]
      simpa [normal, ofText] using rest

/-- **Scanning loses nothing, and decodes what was encoded.**  The segments of a scan tile the text,
and a start character stands in a text if it has no end, or if its body is not recognised and it is
not itself part of the body of a marker; the first start in a text is of this kind.  Markers and
texts that are written are found again, the markers in their normal form. -/
theorem scan_lossless :
    (∀ s, ∃ tiles : List Tile, tiles.map Tile.segment = scan s ∧ Tile.cover tiles = s ∧
      ∀ before after, s = before ++ start :: after →
        ∃ tile front, LiesIn tiles before after tile front ∧
          (stop ∉ after → tile.IsText) ∧ (Unread after → tile.IsText ∨ front ≠ []) ∧
          (tile.IsText → start ∉ front → Unread after)) ∧
    ∀ segments, Separate segments → scan (segments.flatMap write) = segments.map normal := by
  constructor
  · intro s
    obtain ⟨tiles, h⟩ := exists_tiles s
    refine ⟨tiles, h.segments_eq, h.cover_eq, fun before after hs => ?_⟩
    obtain ⟨tile, front, lies⟩ := exists_liesIn (h.cover_eq.trans hs)
    refine ⟨tile, front, lies, ?_, ?_, h.leavesUnread before after tile front lies⟩
    · intro endless
      by_contra marker
      exact endless (lies.of_not_isText marker).1
    · intro unread
      by_contra! begins
      exact (lies.of_not_isText begins.1).2 begins.2 unread
  · intro segments h
    simpa [ofText] using scan_append_write h [] List.not_mem_nil (.inl rfl)

/-- A greeting for a role whose name is spoilt, and a picture with an empty content type. -/
def greetingWithPicture : List Segment :=
  [.text "hi", .marker (.role "us\u001eer"), .marker (.media "pic.png" (some "\u001d")),
    .text "bye\u001d", .marker .history]

/-- The role is found without the start character in its name, and the picture without a content
type. -/
theorem scan_lossless_greeting :
    Separate greetingWithPicture ∧
      scan (greetingWithPicture.flatMap write) =
        [.text "hi", .marker (.role "user"), .marker (.media "pic.png" none), .text "bye\u001d",
          .marker .history] := by
  have separate : Separate greetingWithPicture := by
    refine ⟨fun t ht => ?_, by decide⟩
    simp only [greetingWithPicture, List.mem_cons, List.not_mem_nil, or_false, text.injEq,
      reduceCtorEq, false_or] at ht
    rcases ht with rfl | rfl
    all_goals decide
  refine ⟨separate, (scan_lossless.2 _ separate).trans ?_⟩
  decide

end Colloquy.Segment
