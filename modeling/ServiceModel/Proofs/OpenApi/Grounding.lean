import ServiceModel.OpenApi.Ingestion
import ServiceModel.Proofs.Coherence
import ServiceModel.Proofs.OpenApi.Conversion

/-!
Grounded tables.  The conversion of a schema refers to messages that are not in the table yet: those of
components, which may come later, and those around the one it is filling.  These are owed.  In a grounded
table every reference leads to a message that is there or owed.  Each step of a conversion keeps a table
grounded, and a message that is put in is owed no more.
-/

namespace ServiceModel

/-! ### Grounded entities -/

/-- A type that documents can give a field: a scalar, or a message that is known. -/
def WireType.Grounded (known : String → Prop) (w : WireType) (typeId : String) : Prop :=
  w.isReference = true → w = .message ∧ known typeId

/-- A message all of whose references are known.  Documents have no enums and no groups. -/
structure Message.Grounded (known : String → Prop) (m : Message) : Prop where
  types : ∀ f ∈ m.fields, f.wireType.Grounded known f.typeId
  parent : ∀ p, m.parent = some p → known p
  messages : ∀ id ∈ m.messages, known id
  enums : m.enums = []
  oneOfs : m.oneOfs = []
  pagination : m.pagination = none

theorem WireType.Grounded.mono {known known' : String → Prop} {w : WireType} {typeId : String}
    (h : w.Grounded known typeId) (hk : known typeId → known' typeId) : w.Grounded known' typeId :=
  fun hw => ⟨(h hw).1, hk (h hw).2⟩

theorem Message.Grounded.mono {known known' : String → Prop} {m : Message} (h : m.Grounded known)
    (hk : ∀ id, known id → known' id) : m.Grounded known' where
  types := fun f hf => (h.types f hf).mono (hk _)
  parent := fun p hp => hk p (h.parent p hp)
  messages := fun id hid => hk id (h.messages id hid)
  enums := h.enums
  oneOfs := h.oneOfs
  pagination := h.pagination

/-- A message without fields is grounded if the one around it is known. -/
theorem Message.grounded_new {known : String → Prop} {name id package documentation : String}
    {parent : Option String} {deprecated : Bool} (h : ∀ p, parent = some p → known p) :
    Message.Grounded known { name, id, package, documentation, parent, deprecated } where
  types := fun f hf => by cases hf
  parent := h
  messages := fun n hn => by cases hn
  enums := rfl
  oneOfs := rfl
  pagination := rfl

/-! ### Grounded tables -/

namespace SymbolTable

/-- A message is known if it is there or owed. -/
def Knows (t : SymbolTable) (owed : String → Prop) (id : String) : Prop :=
  t.messages.contains id = true ∨ owed id

/-- Every reference of a message in the table leads to one that is there or owed. -/
def Grounded (owed : String → Prop) (t : SymbolTable) : Prop :=
  ∀ id m, t.message? id = some m → m.Grounded (t.Knows owed)

/-- `t'` is `t` with further messages, the one with an ID among them, and is grounded. -/
structure Delivers (owed : String → Prop) (id : String) (t t' : SymbolTable) : Prop where
  grows : t.Grows t'
  grounded : t'.Grounded owed
  delivered : t'.messages.contains id = true

variable {owed owed' : String → Prop} {t t' : SymbolTable}

theorem Grounded.mono (ht : t.Grounded owed) (h : ∀ id, owed id → owed' id) : t.Grounded owed' :=
  fun id m hm => (ht id m hm).mono fun id hid => hid.imp (fun h => h) (h id)

theorem Knows.mono {id : String} (h : t.Knows owed id) (ht : t.Grows t') : t'.Knows owed id :=
  h.imp (ht.messages id) fun h => h

/-- Putting in a message pays the debt of its ID: what was owed with it is owed without it. -/
theorem Knows.pay {m : Message} {id : String} (h : t.Knows owed' id)
    (hpay : owed' id → owed id ∨ id = m.id) : (t.putMessage m).Knows owed id := by
  rcases h with h | h
  · exact Or.inl (contains_putMessage.2 (Or.inr h))
  · rcases hpay h with h | h
    · exact Or.inr h
    · exact Or.inl (contains_putMessage.2 (Or.inl h))

/-- A grounded message keeps a table grounded, and pays the debt of its own ID. -/
theorem Grounded.putMessage {m : Message} (ht : t.Grounded owed') (hm : m.Grounded (t.Knows owed'))
    (hpay : ∀ id, owed' id → owed id ∨ id = m.id) : (t.putMessage m).Grounded owed := by
  intro id n hn
  rcases eq_or_message?_of_putMessage hn with rfl | hn
  · exact hm.mono fun id hid => hid.pay (hpay id)
  · exact (ht id n hn).mono fun id hid => hid.pay (hpay id)

theorem Delivers.putMessage {m : Message} (ht : t.Grounded owed') (hm : m.Grounded (t.Knows owed'))
    (hpay : ∀ id, owed' id → owed id ∨ id = m.id) : Delivers owed m.id t (t.putMessage m) :=
  ⟨.putMessage m t, ht.putMessage hm hpay, contains_putMessage.2 (Or.inl rfl)⟩

end SymbolTable

namespace OpenApi

/-! ### What is owed -/

/-- The messages that a conversion may refer to at any time: those of the components that are objects,
and the well-known ones. -/
inductive Setting.Owes (s : Setting) : String → Prop where
  | component {name schema} :
      (name, schema) ∈ s.schemas → schema.isMessage = true → Setting.Owes s (s.id name)
  | wellKnown {name} :
      name ∈ SymbolTable.wellKnownMessages → Setting.Owes s (SymbolTable.wellKnownId name)

theorem Setting.mem_of_component {s : Setting} {r target : String} {schema : Schema}
    (h : s.component r = .ok (target, schema)) : (target, schema) ∈ s.schemas := by
  unfold Setting.component at h
  split at h
  · cases h
  · split at h
    · cases h
    next hget =>
      cases h
      exact Keyed.mem_of_get? hget

/-! ### Types of fields -/

namespace FieldType

/-- A type of a field that is a scalar or a known message. -/
def Grounded (known : String → Prop) (type : FieldType) : Prop :=
  type.wireType.Grounded known type.typeId

variable {known : String → Prop}

theorem grounded_message {id : String} (h : known id) : (message id).Grounded known :=
  fun _ => ⟨rfl, h⟩

theorem grounded_of_scalar {type : FieldType} (h : type.wireType.isReference = false) :
    type.Grounded known := by
  intro hw
  rw [h] at hw
  cases hw

theorem grounded_ofString (format : Option String)
    (h : ∀ name ∈ SymbolTable.wellKnownMessages, known (SymbolTable.wellKnownId name)) :
    (ofString format).Grounded known := by
  unfold ofString
  split
  all_goals first
    | exact grounded_of_scalar rfl
    | exact grounded_message (h _ (by decide))

theorem grounded_ofInteger (format : Option String) : (ofInteger format).Grounded known := by
  unfold ofInteger
  split <;> exact grounded_of_scalar rfl

theorem grounded_ofNumber (format : Option String) : (ofNumber format).Grounded known := by
  unfold ofNumber
  split <;> exact grounded_of_scalar rfl

end FieldType

/-! ### Entries of maps -/

theorem grounded_entryMessage {known : String → Prop} {value : FieldType}
    (h : value.Grounded known) : (entryMessage value).Grounded known where
  types := by
    intro f hf
    simp only [entryMessage, List.mem_cons, List.not_mem_nil, or_false] at hf
    rcases hf with rfl | rfl
    · intro hw
      cases hw
    · exact h
  parent := fun p hp => by cases hp
  messages := fun id hid => by cases hid
  enums := rfl
  oneOfs := rfl
  pagination := rfl

/-- The entry of a map is there afterwards, whichever map it was made for. -/
theorem delivers_withEntry {owed : String → Prop} {value : FieldType} {t : SymbolTable}
    (ht : t.Grounded owed) (hvalue : value.Grounded (t.Knows owed)) :
    SymbolTable.Delivers owed (entryId value) t (withEntry value t) := by
  unfold withEntry
  split
  next hthere => exact ⟨.refl t, ht, hthere⟩
  next =>
    exact .putMessage (m := entryMessage value) ht (grounded_entryMessage hvalue)
      fun _ h => Or.inl h

/-! ### Conversion of schemas -/

/-- Objects written in place become messages of a grounded table, if the message around them is
owed. -/
def Nesting.Sound (owed : String → Prop) (nest : Nesting) : Prop :=
  ∀ name id parent schema t t', nest name id parent schema t = .ok t' → owed parent →
    t.Grounded owed → SymbolTable.Delivers owed id t t'

/-- What a schema has become, in a grounded table that has grown from `t`. -/
structure Typed.Sound (owed : String → Prop) (t : SymbolTable) (typed : Typed) : Prop where
  grows : t.Grows typed.table
  table : typed.table.Grounded owed
  type : typed.type.Grounded (typed.table.Knows owed)
  nested : ∀ id ∈ typed.nested, typed.table.messages.contains id = true

theorem Typed.Sound.unchanged {owed : String → Prop} {t : SymbolTable} {type : FieldType}
    (ht : t.Grounded owed) (h : type.Grounded (t.Knows owed)) : Typed.Sound owed t ⟨type, t, []⟩ :=
  ⟨.refl t, ht, h, fun _ h => by cases h⟩

section Conversion

variable {s : Setting} {owed : String → Prop} (hs : ∀ id, s.Owes id → owed id)

include hs

theorem knows_wellKnown (t : SymbolTable) :
    ∀ name ∈ SymbolTable.wellKnownMessages, t.Knows owed (SymbolTable.wellKnownId name) :=
  fun _ hname => Or.inr (hs _ (.wellKnown hname))

theorem grounded_any (t : SymbolTable) : FieldType.any.Grounded (t.Knows owed) :=
  FieldType.grounded_message (knows_wellKnown hs t "Any" (by decide))

/-- Each rule of conversion keeps the table grounded and gives a known type. -/
theorem Converted.sound {nest : Nesting} {ownerId name : String} {room : Nat} {schema : Schema}
    {t : SymbolTable} {typed : Typed} (h : Converted s nest ownerId name room schema t typed)
    (hnest : nest.Sound owed) (howner : owed ownerId) (ht : t.Grounded owed) :
    typed.Sound owed t := by
  induction h with
  | component _ hcomponent hmessage =>
      have hdue := hs _ (.component (Setting.mem_of_component hcomponent) hmessage)
      exact .unchanged ht (FieldType.grounded_message (Or.inr hdue))
  | reference _ _ _ _ ih => exact ih ht
  | sole _ _ _ _ ih => exact ih ht
  | list _ _ _ _ _ _ ih =>
      have hitem := ih ht
      exact ⟨hitem.grows, hitem.table, hitem.type, hitem.nested⟩
  | openMap =>
      have hentry := delivers_withEntry ht (grounded_any hs _)
      exact ⟨hentry.grows, hentry.grounded, FieldType.grounded_message (Or.inl hentry.delivered),
        fun _ h => by cases h⟩
  | map _ _ _ _ _ _ _ ih =>
      have hvalue := ih ht
      have hentry := delivers_withEntry hvalue.table hvalue.type
      exact ⟨hvalue.grows.trans hentry.grows, hentry.grounded,
        FieldType.grounded_message (Or.inl hentry.delivered),
        fun id hid => hentry.grows.messages id (hvalue.nested id hid)⟩
  | string => exact .unchanged ht (FieldType.grounded_ofString _ (knows_wellKnown hs _))
  | integer => exact .unchanged ht (FieldType.grounded_ofInteger _)
  | number => exact .unchanged ht (FieldType.grounded_ofNumber _)
  | boolean => exact .unchanged ht (FieldType.grounded_of_scalar rfl)
  | nested _ _ _ hobject =>
      have hinner := hnest _ _ _ _ _ _ hobject howner ht
      refine ⟨hinner.grows, hinner.grounded, FieldType.grounded_message (Or.inl hinner.delivered),
        fun id hid => ?_⟩
      rw [List.mem_singleton.1 hid]
      exact hinner.delivered
  | any => exact .unchanged ht (grounded_any hs _)

end Conversion

end OpenApi

end ServiceModel
