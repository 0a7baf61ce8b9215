import ServiceModel.Proofs.OpenApi.Filling
import ServiceModel.Proofs.Resolution

/-!
The model of a document in the making.  Components come first; once all of them are there nothing is
owed any more, so the request and the response of every operation are messages of the table.  The
service is the last to come, and it owns all methods.
-/

namespace ServiceModel.OpenApi

/-! ### Drafts -/

/-- A method of the service with an ID whose types are there, and of which nothing else is known. -/
structure MethodDrafted (serviceId : String) (t : SymbolTable) (m : Method) : Prop where
  service : m.serviceId = serviceId
  input : t.messages.contains m.inputTypeId = true
  output : t.messages.contains m.outputTypeId = true
  operation : m.operation = none
  source : m.sourceServiceId = none
  pagination : m.pagination = none
  autoPopulated : m.autoPopulated = []

/-- A model whose messages are grounded, and whose methods are those of one service that is yet to
come. -/
structure Drafted (s : Setting) (serviceId : String) (a : Api) : Prop where
  table : a.table.Grounded s.Owes
  methods : ∀ id m, a.table.method? id = some m → MethodDrafted serviceId a.table m
  tableEnums : a.table.enums = SymbolTable.wellKnown.enums
  tableServices : a.table.services = .empty
  listedMessages : ∀ id ∈ a.messages, a.table.messages.contains id = true
  listedEnums : a.enums = []
  listedServices : a.services = []

/-- All that conversions may refer to at any time is there. -/
def Paid (s : Setting) (t : SymbolTable) : Prop :=
  ∀ id, s.Owes id → t.messages.contains id = true

/-- A draft that has grown from `a`, in which a message has an ID. -/
structure Draws (s : Setting) (serviceId id : String) (a a' : Api) : Prop where
  draft : Drafted s serviceId a'
  grows : a.table.Grows a'.table
  drawn : a'.table.messages.contains id = true

section Drafts

variable {s : Setting} {serviceId : String} {a : Api} {t t' : SymbolTable}

theorem MethodDrafted.mono {m : Method} (h : MethodDrafted serviceId t m)
    (ht : ∀ id, t.messages.contains id = true → t'.messages.contains id = true) :
    MethodDrafted serviceId t' m where
  service := h.service
  input := ht _ h.input
  output := ht _ h.output
  operation := h.operation
  source := h.source
  pagination := h.pagination
  autoPopulated := h.autoPopulated

theorem Paid.mono (h : Paid s t)
    (ht : ∀ id, t.messages.contains id = true → t'.messages.contains id = true) : Paid s t' :=
  fun id hid => ht id (h id hid)

/-- A draft may grow by grounded messages. -/
theorem Drafted.grow (ha : Drafted s serviceId a) (ht : a.table.Grows t)
    (hgrounded : t.Grounded s.Owes) : Drafted s serviceId { a with table := t } where
  table := hgrounded
  methods := fun id m hm => by
    have hbefore : a.table.method? id = some m := by
      rw [SymbolTable.method?, ← ht.methods]
      exact hm
    exact (ha.methods id m hbefore).mono ht.messages
  tableEnums := ht.enums.trans ha.tableEnums
  tableServices := ht.services.trans ha.tableServices
  listedMessages := fun id hid => ht.messages id (ha.listedMessages id hid)
  listedEnums := ha.listedEnums
  listedServices := ha.listedServices

/-- A draft with a message delivered to its table. -/
theorem Drafted.draw {id : String} (ha : Drafted s serviceId a)
    (ht : SymbolTable.Delivers s.Owes id a.table t) :
    Draws s serviceId id a { a with table := t } :=
  ⟨ha.grow ht.grows ht.grounded, ht.grows, ht.delivered⟩

/-- A draft that lists a message delivered to its table. -/
theorem Drafted.drawListed {id : String} (ha : Drafted s serviceId a)
    (ht : SymbolTable.Delivers s.Owes id a.table t) :
    Draws s serviceId id a { a with table := t, messages := a.messages ++ [id] } := by
  have hdrawn := ha.draw ht
  refine ⟨{ hdrawn.draft with listedMessages := fun n hn => ?_ }, ht.grows, ht.delivered⟩
  rcases List.mem_append.1 hn with hn | hn
  · exact hdrawn.draft.listedMessages n hn
  · rw [List.mem_singleton.1 hn]
    exact ht.delivered

end Drafts

/-! ### Components -/

theorem grounded_wellKnown (owed : String → Prop) : SymbolTable.wellKnown.Grounded owed := by
  intro id m hm
  obtain ⟨name, -, hname⟩ := List.mem_map.1 (Catalog.mem_of_get?_ofList hm)
  cases hname
  exact Message.grounded_new fun p hp => by cases hp

theorem contains_wellKnown {name : String} (h : name ∈ SymbolTable.wellKnownMessages) :
    SymbolTable.wellKnown.messages.contains (SymbolTable.wellKnownId name) = true :=
  Catalog.contains_ofList.2 ⟨_, List.mem_map.2 ⟨name, h, rfl⟩, rfl⟩

theorem drafted_new (s : Setting) (serviceId package : String) :
    Drafted s serviceId (Api.new package) where
  table := grounded_wellKnown _
  methods := fun id m hm => by cases hm
  tableEnums := rfl
  tableServices := rfl
  listedMessages := fun id hid => by cases hid
  listedEnums := rfl
  listedServices := rfl

/-- Every component that is an object has its message in the end. -/
theorem addComponents_drafted {s : Setting} {serviceId : String}
    {components : List (String × Schema)} {a a' : Api} (ha : Drafted s serviceId a)
    (h : addComponents s components a = .ok a') :
    Drafted s serviceId a' ∧ a.table.Grows a'.table ∧
      ∀ e ∈ components, e.2.isMessage = true → a'.table.messages.contains (s.id e.1) = true := by
  induction components generalizing a with
  | nil =>
      cases h
      exact ⟨ha, .refl _, fun e he => by cases he⟩
  | cons component rest ih =>
      obtain ⟨name, schema⟩ := component
      rw [addComponents] at h
      split at h
      next hmessage =>
        split at h
        · cases h
        next table htable =>
          rw [during_eq_ok_iff] at htable
          have hdrawn := ha.drawListed (Setting.addMessage_delivers (fun _ hid => hid) ha.table htable)
          obtain ⟨hdraft, hgrows, hrest⟩ := ih hdrawn.draft h
          refine ⟨hdraft, hdrawn.grows.trans hgrows, fun e he hobject => ?_⟩
          rcases List.mem_cons.1 he with rfl | he
          · exact hgrows.messages _ hdrawn.drawn
          · exact hrest e he hobject
      next hmessage =>
        obtain ⟨hdraft, hgrows, hrest⟩ := ih ha h
        refine ⟨hdraft, hgrows, fun e he hobject => ?_⟩
        rcases List.mem_cons.1 he with rfl | he
        · exact absurd hobject hmessage
        · exact hrest e he hobject

/-- Once all components are there, nothing is owed any more. -/
theorem addComponents_paid {s : Setting} {package : String} {a : Api} (serviceId : String)
    (h : addComponents s s.schemas (Api.new package) = .ok a) :
    Drafted s serviceId a ∧ Paid s a.table := by
  obtain ⟨hdraft, hgrows, hcomponents⟩ := addComponents_drafted (drafted_new s serviceId package) h
  refine ⟨hdraft, fun id hid => ?_⟩
  cases hid with
  | component hmem hmessage => exact hcomponents _ hmem hmessage
  | wellKnown hname => exact hgrows.messages _ (contains_wellKnown hname)

end ServiceModel.OpenApi
