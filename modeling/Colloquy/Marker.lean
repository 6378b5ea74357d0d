import Colloquy.Text.Cut

/-!
# Markers

Directives of a template (a role, media, history) travel inside the rendered text as markers, which
are built from three reserved control characters: one starts a marker, one separates its fields and
one ends it.  `encode` writes a marker and `scan` finds the markers of a text again.

Fields never hold a reserved character, because `stripReserved` takes them out on the way in.  A
start without an end, and a marker that is none of the known ones, stay in the text as they are.
-/

namespace Colloquy

/-- A directive that travels inside a rendered text. -/
inductive Marker where
  /-- A new message begins, with the role of this name. -/
  | role (name : String)
  /-- Media stands here. -/
  | media (url : String) (contentType : Option String)
  /-- The conversation so far belongs here. -/
  | history
  deriving DecidableEq, Repr

/-- A piece of a rendered text. -/
inductive Segment where
  | text (text : String)
  | marker (marker : Marker)
  deriving DecidableEq, Repr

namespace Marker

/-- The character that starts a marker. -/
def start : Char := '\x1e'

/-- The character between the fields of a marker. -/
def separator : Char := '\x1f'

/-- The character that ends a marker. -/
def stop : Char := '\x1d'

/-- One of the three characters that markers are built from. -/
def isReserved (c : Char) : Bool := c == start || c == separator || c == stop

/-- A text without reserved characters. -/
def stripChars (s : List Char) : List Char := s.filter fun c => !isReserved c

/-- A text without reserved characters. -/
def stripReserved (s : String) : String := String.ofList (stripChars s.toList)

/-- The fields of a marker, the first of which tells its kind. -/
def fields : Marker → List (List Char)
  | role name => ["role".toList, stripChars name.toList]
  | media url none => ["media".toList, stripChars url.toList]
  | media url (some contentType) =>
    ["media".toList, stripChars url.toList, stripChars contentType.toList]
  | history => ["history".toList]

/-- The text of a marker between its start and its end. -/
def body (m : Marker) : List Char := [separator].intercalate m.fields

/-- A marker as it stands in a text. -/
def encode (m : Marker) : List Char := start :: m.body ++ [stop]

/-- The marker with these fields; fields beyond those that a kind has do not matter, and an empty
content type is none. -/
def ofFields? : List (List Char) → Option Marker
  | kind :: values =>
    if kind = "role".toList then
      match values with
      | name :: _ => some (role (String.ofList name))
      | [] => none
    else if kind = "media".toList then
      match values with
      | url :: contentType :: _ =>
        some (media (String.ofList url)
          (if contentType.isEmpty then none else some (String.ofList contentType)))
      | [url] => some (media (String.ofList url) none)
      | [] => none
    else if kind = "history".toList then some history
    else none
  | [] => none

/-- The marker whose text between start and end is given. -/
def decode? (body : List Char) : Option Marker := ofFields? (Text.pieces (· == separator) body)

end Marker

namespace Segment

/-- A text as a list of segments; an empty text is none. -/
def ofText (s : List Char) : List Segment := if s.isEmpty then [] else [text (String.ofList s)]

/-- Takes a text apart into plain text and markers. -/
def scan (s : List Char) : List Segment :=
  match h₁ : Text.cutAt? (· == Marker.start) s with
  | none => ofText s
  | some (before, tail) =>
    match h₂ : Text.cutAt? (· == Marker.stop) tail with
    | none => ofText s
    | some (body, rest) =>
      have : rest.length < s.length :=
        Nat.lt_trans (Text.length_of_cutAt? h₂) (Text.length_of_cutAt? h₁)
      match Marker.decode? body with
      | some m => ofText before ++ marker m :: scan rest
      | none =>
        text (String.ofList (before ++ Marker.start :: body ++ [Marker.stop])) :: scan rest
termination_by s.length

end Segment

end Colloquy
