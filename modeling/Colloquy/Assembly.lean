import Colloquy.Marker
import Colloquy.Message

/-!
# From rendered text to messages

A rendered text is taken apart at its markers and put together again as messages.  That happens in
two steps.  The outline of a text lists its messages and the places where the conversation so far
belongs; it does not depend on that conversation.  Filling the outline then puts the conversation
into these places.  A text without such a place gets one: before its last message when that is the
user's, and behind all its messages otherwise.

Text in front of the first role belongs to the user.  A text that is blank between two markers is
dropped, and any other is kept as it is.
-/

namespace Colloquy

namespace Message

/-- The metadata entry that tells what a message is there for. -/
def purposeKey : String := "purpose"

/-- The purpose of a message that was taken over from an earlier conversation. -/
def historyPurpose : String := "history"

/-- The message was taken over from an earlier conversation. -/
def isHistory (m : Message) : Bool := m.metadataValue? purposeKey == some (.str historyPurpose)

/-- The message as one that was taken over from an earlier conversation. -/
def asHistory (m : Message) : Message := m.withMetadata purposeKey (.str historyPurpose)

end Message

/-- An entry of an outline. -/
inductive Slot where
  | message (message : Message)
  /-- The conversation so far belongs here. -/
  | history
  deriving DecidableEq, Repr

namespace Slot

/-- A stretch of text as a part; a blank one is none. -/
def textPart (text : String) : List Part := if Text.allBlank text.toList then [] else [.text text]

/-- The message of a role with some parts and a stretch of text behind them; without content there
is none. -/
def close (role : Role) (parts : List Part) (text : String) : List Slot :=
  match parts ++ textPart text with
  | [] => []
  | content => [message ⟨role, content, none⟩]

/-- The outline of some segments behind the parts and the text of a message in progress. -/
def outlineFrom (role : Role) (parts : List Part) (text : String) : List Segment → List Slot
  | [] => close role parts text
  | .text t :: rest => outlineFrom role parts (text ++ t) rest
  | .marker (.media url contentType) :: rest =>
    outlineFrom role (parts ++ textPart text ++ [.media ⟨url, contentType⟩]) "" rest
  | .marker (.role name) :: rest =>
    close role parts text ++ outlineFrom ((Role.ofName? name).getD .user) [] "" rest
  | .marker .history :: rest =>
    close role parts text ++ history :: outlineFrom .model [] "" rest

/-- The segment is a marker. -/
def isMarker : Segment → Bool
  | .marker _ => true
  | .text _ => false

/-- The outline of a rendered text.  A text without markers is one message of the user, whatever it
holds. -/
def outline (rendered : String) : List Slot :=
  let segments := Segment.scan rendered.toList
  if segments.any isMarker then outlineFrom .user [] "" segments
  else [message (.ofText .user rendered)]

/-- The outline with a place for the conversation so far. -/
def withPlace (slots : List Slot) : List Slot :=
  if slots.contains history then slots
  else match slots.getLast? with
    | some (message m) =>
      if m.role = .user then slots.dropLast ++ [history, message m] else slots ++ [history]
    | _ => slots ++ [history]

/-- The messages of an outline with the conversation so far in its places. -/
def fill (conversation : List Message) : List Slot → List Message
  | [] => []
  | message m :: rest => m :: fill conversation rest
  | history :: rest => conversation.map Message.asHistory ++ fill conversation rest

end Slot

/-- The messages of a rendered text, with the conversation so far in its place. -/
def Message.assemble (rendered : String) (conversation : List Message) : List Message :=
  Slot.fill conversation (Slot.withPlace (Slot.outline rendered))

end Colloquy
