import ServiceModel.Proofs.Growth

/-!
Coherent tables.  Beside the IDs that the check at the end of a build looks at, entities name their
nested declarations, the members of their groups, the fields they are paged by and those that clients
fill in.  A table is coherent when all of these are there.  A table that is being assembled says nothing
yet of pages and filled-in fields.
-/

namespace ServiceModel

/-! ### Coherent entities -/

/-- The nested declarations of a message are in the table; the members of its groups and the fields it
is paged by are fields of its own. -/
structure Message.Coherent (t : SymbolTable) (m : Message) : Prop where
  nestedMessages : ∀ id ∈ m.messages, t.messages.contains id = true
  nestedEnums : ∀ id ∈ m.enums, t.enums.contains id = true
  members : ∀ o ∈ m.oneOfs, ∀ n ∈ o.fields, n ∈ m.fieldNames
  pagination : ∀ p, m.pagination = some p →
    p.nextPageToken ∈ m.fieldNames ∧ p.item ∈ m.fieldNames

/-- The request of a method is in the table and has a field with a name. -/
def Method.HasRequestField (t : SymbolTable) (m : Method) (name : String) : Prop :=
  ∃ request, t.message? m.inputTypeId = some request ∧ name ∈ request.fieldNames

/-- The service that a method was taken from is in the table; its page token and the fields that
clients fill in are fields of its request. -/
structure Method.Coherent (t : SymbolTable) (m : Method) : Prop where
  source : ∀ id, m.sourceServiceId = some id → t.services.contains id = true
  pagination : ∀ n, m.pagination = some n → m.HasRequestField t n
  autoPopulated : ∀ n ∈ m.autoPopulated, m.HasRequestField t n

/-- All entities of the table are coherent. -/
structure SymbolTable.Coherent (t : SymbolTable) : Prop where
  messages : ∀ id m, t.message? id = some m → m.Coherent t
  enumParents : ∀ id e, t.enum? id = some e →
    ∀ p, e.parent = some p → t.messages.contains p = true
  methods : ∀ id m, t.method? id = some m → m.Coherent t

/-! ### Entities that are being assembled -/

/-- A message whose nested declarations and group members are there, and that is not paged yet. -/
structure Message.Assembled (t : SymbolTable) (m : Message) : Prop where
  nestedMessages : ∀ id ∈ m.messages, t.messages.contains id = true
  nestedEnums : ∀ id ∈ m.enums, t.enums.contains id = true
  members : ∀ o ∈ m.oneOfs, ∀ n ∈ o.fields, n ∈ m.fieldNames
  pagination : m.pagination = none

/-- A method whose source is there, and of which nothing is known by convention yet. -/
structure Method.Assembled (t : SymbolTable) (m : Method) : Prop where
  source : ∀ id, m.sourceServiceId = some id → t.services.contains id = true
  pagination : m.pagination = none
  autoPopulated : m.autoPopulated = []

/-- All entities of the table are assembled. -/
structure SymbolTable.Assembled (t : SymbolTable) : Prop where
  messages : ∀ id m, t.message? id = some m → m.Assembled t
  enumParents : ∀ id e, t.enum? id = some e →
    ∀ p, e.parent = some p → t.messages.contains p = true
  methods : ∀ id m, t.method? id = some m → m.Assembled t

variable {t t' : SymbolTable}

theorem Message.Assembled.mono {m : Message} (h : m.Assembled t) (ht : t.Extends t') :
    m.Assembled t' where
  nestedMessages := fun id hid => ht.messages id (h.nestedMessages id hid)
  nestedEnums := fun id hid => ht.enums id (h.nestedEnums id hid)
  members := h.members
  pagination := h.pagination

theorem Method.Assembled.mono {m : Method} (h : m.Assembled t) (ht : t.Extends t') :
    m.Assembled t' where
  source := fun id hid => ht.services id (h.source id hid)
  pagination := h.pagination
  autoPopulated := h.autoPopulated

theorem Message.Assembled.coherent {m : Message} (h : m.Assembled t) : m.Coherent t where
  nestedMessages := h.nestedMessages
  nestedEnums := h.nestedEnums
  members := h.members
  pagination := fun p hp => by
    rw [h.pagination] at hp
    cases hp

theorem Method.Assembled.coherent {m : Method} (h : m.Assembled t) : m.Coherent t where
  source := h.source
  pagination := fun n hn => by
    rw [h.pagination] at hn
    cases hn
  autoPopulated := fun n hn => by
    rw [h.autoPopulated] at hn
    cases hn

namespace SymbolTable

/-- An assembled table is coherent: of pages and filled-in fields it says nothing. -/
theorem Assembled.coherent (h : t.Assembled) : t.Coherent where
  messages := fun id m hm => (h.messages id m hm).coherent
  enumParents := h.enumParents
  methods := fun id m hm => (h.methods id m hm).coherent

/-- A table stays assembled when it is extended by assembled entities. -/
theorem Assembled.extend (h : t.Assembled) (ht : t.Extends t')
    (hmessages : ∀ id m, t'.message? id = some m → m.Assembled t' ∨ t.message? id = some m)
    (henums : ∀ id e, t'.enum? id = some e →
      (∀ p, e.parent = some p → t'.messages.contains p = true) ∨ t.enum? id = some e)
    (hmethods : ∀ id m, t'.method? id = some m → m.Assembled t' ∨ t.method? id = some m) :
    t'.Assembled := by
  refine ⟨fun id m hm => ?_, fun id e he p hp => ?_, fun id m hm => ?_⟩
  · rcases hmessages id m hm with hm | hm
    · exact hm
    · exact (h.messages id m hm).mono ht
  · rcases henums id e he with hnew | he
    · exact hnew p hp
    · exact ht.messages p (h.enumParents id e he p hp)
  · rcases hmethods id m hm with hm | hm
    · exact hm
    · exact (h.methods id m hm).mono ht

/-! ### The well-known entities -/

theorem enumParents_wellKnown {id : String} {e : Enum} (h : wellKnown.enum? id = some e) :
    e.parent = none := by
  rw [enum?, wellKnown, Catalog.get?_insert] at h
  split at h
  · rw [← Option.some.inj h]
  · cases h

/-- The well-known entities mention nothing. -/
theorem assembled_wellKnown : wellKnown.Assembled := by
  refine ⟨fun id m hm => ?_, fun id e he p hp => ?_, fun id m hm => by cases hm⟩
  · obtain ⟨name, -, hname⟩ := List.mem_map.1 (Catalog.mem_of_get?_ofList hm)
    cases hname
    exact ⟨nofun, nofun, nofun, rfl⟩
  · rw [enumParents_wellKnown he] at hp
    cases hp

end SymbolTable

end ServiceModel
