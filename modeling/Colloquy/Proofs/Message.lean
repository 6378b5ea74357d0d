import Colloquy.Message
import Colloquy.Proofs.Table

/-!
# Messages that are stored

Messages are written as JSON and read again, and here is the law of each encoder.  Records are read
member by member: a member that has to be there gives back what was written, and so does an optional
member whose values are never written as null, because null is read as no value.

There is one optional member that holds any JSON at all, the output that a call of a paused batch
keeps.  A null output is written as null and read as none.  So a message comes back as
`Message.restored`, and as itself exactly if no request of it keeps null (`Message.Lasting`).
-/

namespace Colloquy

/-! ## Requests among parts -/

lemma Part.toolRequest?_eq_none {part : Part} (h : ∀ r, part = .toolRequest r → False) :
    part.toolRequest? = none := by
  cases part with
  | toolRequest r => exact absurd rfl (h r)
  | _ => rfl

lemma Part.eq_of_toolRequest?_eq_some {part : Part} {r : ToolRequest}
    (h : part.toolRequest? = some r) : part = .toolRequest r := by
  cases part with
  | toolRequest q => rw [Option.some.inj h]
  | _ => cases h

/-- The requests of a message are those among its parts. -/
lemma Message.mem_toolRequests {m : Message} {r : ToolRequest} :
    r ∈ m.toolRequests ↔ Part.toolRequest r ∈ m.content := by
  rw [toolRequests, List.mem_filterMap]
  constructor
  · rintro ⟨part, hp, hr⟩
    rwa [← Part.eq_of_toolRequest?_eq_some hr]
  · intro h
    exact ⟨.toolRequest r, h, rfl⟩

/-! ## Members of a record -/

lemma Fields.get?_optional (key other : String) (v? : Option Json) :
    Table.get? (Fields.optional other v?) key = if key = other then v? else none := by
  cases v? with
  | none => simp [Fields.optional, Table.get?]
  | some v =>
    rw [Fields.optional, Table.get?_cons]
    rfl

namespace Decode

variable {α β : Type} {m : Members Json} {name : String}

/-- When no member is wrong, the record is settled as a whole. -/
lemma Members.settle_of_faultless {faults : List (String × Option DecodeError)}
    (h : ∀ f ∈ faults, f.2 = none) (whole : Decoded α) : m.settle faults whole = whole := by
  have none : (m.fields.findSome? fun member => (faults.lookup member.1).join) = none := by
    refine List.findSome?_eq_none_iff.mpr fun member _ => ?_
    cases hl : faults.lookup member.1 with
    | none => rfl
    | some fault => exact h (member.1, fault) (Table.mem_of_get? hl)
  rw [settle, none]

lemma Members.required_eq (v : Json) (h : m.fields.get? name = some v) (decode : Json → Decoded α) :
    m.required name decode = decode v := by
  rw [required, h]

lemma Members.withDefault_eq (v : Json) (h : m.fields.get? name = some v)
    (decode : Json → Decoded α) (default : α) : m.withDefault name decode default = decode v := by
  rw [withDefault, h]

lemma nullable_eq {v : Json} (h : v.isNull = false) (decode : Json → Decoded α) :
    nullable decode v = (decode v).map some := by
  cases v with
  | null => cases h
  | _ => rfl

/-- An optional member is read back as it was written, if no value of it is written as null. -/
lemma Members.optional_eq (encode : α → Json) {decode : Json → Decoded α} (a? : Option α)
    (h : m.fields.get? name = a?.map encode) (law : ∀ a, decode (encode a) = .ok a)
    (shows : ∀ a, (encode a).isNull = false) : m.optional name decode = .ok a? := by
  rw [optional, withDefault, h]
  cases a? with
  | none => rfl
  | some a =>
    rw [Option.map_some]
    dsimp only
    rw [nullable_eq (shows a), law]
    rfl

/-- An optional member that holds any JSON at all is read back unless it is null. -/
lemma Members.optional_json (v? : Option Json) (h : m.fields.get? name = v?) :
    m.optional name .ok = .ok (v?.filter fun v => !v.isNull) := by
  rw [optional, withDefault, h]
  cases v? with
  | none => rfl
  | some v => cases v <;> rfl

/-- A list is read back item by item. -/
lemma list_map {encode : α → Json} {decode : Json → Decoded β} {f : α → β}
    (law : ∀ a, decode (encode a) = .ok (f a)) (as : List α) :
    list decode (.arr (as.map encode)) = .ok (as.map f) := by
  show (as.map encode).mapM decode = .ok (as.map f)
  induction as with
  | nil => rfl
  | cons a as ih =>
    rw [List.map_cons, List.mapM_cons, law, ih]
    rfl

end Decode

/-! ## Parts -/

lemma Role.ofJson_toJson (r : Role) : Role.ofJson r.toJson = .ok r := by
  cases r <;> decide

/-- An optional text is read back as it was written. -/
lemma Decode.Members.optional_string {m : Decode.Members Json} {name : String}
    (text? : Option String) (h : m.fields.get? name = text?.map .str) :
    m.optional name Decode.string = .ok text? :=
  optional_eq .str text? h (fun _ => rfl) fun _ => rfl

lemma Media.ofJson_toJson (m : Media) : Media.ofJson m.toJson = .ok m := by
  obtain ⟨url, contentType⟩ := m
  rw [ofJson, toJson, Decode.record]
  dsimp only
  rw [Decode.Members.required_eq (.str url) (by simp [Table.get?_cons]),
    Decode.Members.optional_string contentType
      (by simp [Table.get?_cons, Fields.get?_optional]),
    Decode.Members.settle_of_faultless (by simp [Decode.fault, Decode.string])]
  rfl

namespace ToolRequest

/-- The request as it is read back: a null output is none. -/
def restored (r : ToolRequest) : ToolRequest :=
  { r with pendingOutput := r.pendingOutput.filter fun output => !output.isNull }

/-- The request keeps no null output. -/
def Lasting (r : ToolRequest) : Prop := r.pendingOutput ≠ some .null

instance (r : ToolRequest) : Decidable r.Lasting :=
  inferInstanceAs (Decidable (r.pendingOutput ≠ some .null))

lemma restored_eq_self_iff {r : ToolRequest} : r.restored = r ↔ r.Lasting := by
  obtain ⟨name, reference, input, interrupt, pendingOutput, resolvedInterrupt⟩ := r
  cases pendingOutput with
  | none => simp [restored, Lasting]
  | some output => cases output <;> simp [restored, Lasting, Json.isNull]

/-- An optional annotation is read back as it was written, whatever its metadata. -/
lemma optional_annotation {m : Decode.Members Json} {name : String} (metadata? : Option Json)
    (h : m.fields.get? name = metadata?.map annotation) :
    m.optional name annotationOfJson = .ok metadata? :=
  Decode.Members.optional_eq annotation metadata? h (fun _ => rfl) fun _ => rfl

/-- **A request is read back with all that it carries but a null output.** -/
theorem ofJson_toJson (r : ToolRequest) : ofJson r.toJson = .ok r.restored := by
  obtain ⟨name, reference, input, interrupt, pendingOutput, resolvedInterrupt⟩ := r
  rw [ofJson, toJson, Decode.record]
  dsimp only
  rw [Decode.Members.required_eq (.str name) (by simp [Table.get?_cons]),
    Decode.Members.optional_string reference
      (by simp [Table.get?_append, Table.get?_cons, Fields.get?_optional]),
    Decode.Members.withDefault_eq input
      (by simp [Table.get?_append, Table.get?_cons, Fields.get?_optional]),
    optional_annotation interrupt
      (by simp [Table.get?_append, Table.get?_cons, Fields.get?_optional]),
    Decode.Members.optional_json pendingOutput
      (by simp [Table.get?_append, Table.get?_cons, Fields.get?_optional]),
    optional_annotation resolvedInterrupt
      (by simp [Table.get?_append, Table.get?_cons, Fields.get?_optional]),
    Decode.Members.settle_of_faultless (by simp [Decode.fault, Decode.string])]
  rfl

end ToolRequest

lemma ToolResponse.ofJson_toJson (r : ToolResponse) : ofJson r.toJson = .ok r := by
  obtain ⟨name, reference, output⟩ := r
  rw [ofJson, toJson, Decode.record]
  dsimp only
  rw [Decode.Members.required_eq (.str name) (by simp [Table.get?_cons]),
    Decode.Members.optional_string reference
      (by simp [Table.get?_append, Table.get?_cons, Fields.get?_optional]),
    Decode.Members.withDefault_eq output
      (by simp [Table.get?_append, Table.get?_cons, Fields.get?_optional]),
    Decode.Members.settle_of_faultless (by simp [Decode.fault, Decode.string])]
  rfl

/-- The part as it is read back. -/
def Part.restored : Part → Part
  | toolRequest r => toolRequest r.restored
  | part => part

lemma Part.restored_eq_self_iff {part : Part} :
    part.restored = part ↔ ∀ r, part = .toolRequest r → r.Lasting := by
  cases part with
  | toolRequest r => simp [restored, ToolRequest.restored_eq_self_iff]
  | _ => simp [restored]

lemma Part.ofJson_toJson (part : Part) : ofJson part.toJson = .ok part.restored := by
  cases part with
  | text t => rfl
  | media m =>
    show (Media.ofJson m.toJson).map media = _
    rw [m.ofJson_toJson]
    rfl
  | toolRequest r =>
    show (ToolRequest.ofJson r.toJson).map toolRequest = _
    rw [r.ofJson_toJson]
    rfl
  | toolResponse r =>
    show (ToolResponse.ofJson r.toJson).map toolResponse = _
    rw [r.ofJson_toJson]
    rfl

/-! ## Messages -/

namespace Message

/-- The message as it is read back. -/
def restored (m : Message) : Message := { m with content := m.content.map Part.restored }

/-- No request of the message keeps a null output. -/
def Lasting (m : Message) : Prop := ∀ r ∈ m.toolRequests, r.Lasting

instance (m : Message) : Decidable m.Lasting :=
  inferInstanceAs (Decidable (∀ r ∈ m.toolRequests, r.Lasting))

lemma restored_eq_self_iff {m : Message} : m.restored = m ↔ m.Lasting := by
  obtain ⟨role, content, metadata⟩ := m
  have each : content.map Part.restored = content ↔ ∀ part ∈ content, part.restored = part := by
    nth_rewrite 2 [← List.map_id content]
    exact List.map_inj_left
  simp only [restored, mk.injEq, true_and, and_true]
  rw [each]
  constructor
  · intro h r hr
    exact Part.restored_eq_self_iff.mp (h _ (mem_toolRequests.mp hr)) r rfl
  · intro h part hp
    refine Part.restored_eq_self_iff.mpr ?_
    rintro r rfl
    exact h r (mem_toolRequests.mpr hp)

/-- **A message is read back with all that it holds but null outputs of its requests.** -/
theorem ofJson_toJson (m : Message) : ofJson m.toJson = .ok m.restored := by
  obtain ⟨role, content, metadata⟩ := m
  rw [ofJson, toJson, Decode.record]
  dsimp only
  rw [Decode.Members.required_eq role.toJson (by simp [Table.get?_cons]),
    Decode.Members.required_eq (.arr (content.map Part.toJson)) (by simp [Table.get?_cons]),
    role.ofJson_toJson, Decode.list_map Part.ofJson_toJson,
    Decode.Members.optional_eq .obj metadata
      (by simp [Table.get?_cons, Fields.get?_optional])
      (fun _ => rfl) (fun _ => rfl),
    Decode.Members.settle_of_faultless (by simp [Decode.fault])]
  rfl

/-- A message survives being stored exactly if no request of it keeps a null output. -/
theorem ofJson_toJson_eq_iff {m : Message} : ofJson m.toJson = .ok m ↔ m.Lasting := by
  rw [ofJson_toJson, Except.ok.injEq, restored_eq_self_iff]

end Message

end Colloquy
