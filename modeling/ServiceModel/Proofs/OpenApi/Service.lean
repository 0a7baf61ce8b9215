import ServiceModel.Proofs.OpenApi.Drafting

/-!
Operations become methods of a draft: each finds its request and its response in the table.  When the
service is put in at last, every mention of the model resolves.
-/

namespace ServiceModel.OpenApi

/-! ### Requests -/

theorem keepsType_parameter (p : Parameter) : KeepsType (addParameter.finish p) :=
  fun _ => ⟨rfl, rfl⟩

theorem keepsType_body (body : RequestBody) : KeepsType (addBody.finish body) :=
  fun _ => ⟨rfl, rfl⟩

section Requests

variable {s : Setting} {owed : String → Prop} {id : String} {t : SymbolTable} {f f' : Filling}
  (hs : ∀ id, s.Owes id → owed id) (howner : owed id)

include hs howner

theorem addParameter_sound {p : Parameter} (hf : f.Sound owed id t)
    (h : addParameter s p f = .ok f') : f'.Sound owed id t := by
  unfold addParameter at h
  rw [during_eq_ok_iff] at h
  exact Setting.addField_sound hs (keepsType_parameter p) howner hf h

theorem addParameters_sound {parameters : List Parameter} (hf : f.Sound owed id t)
    (h : addParameters s parameters f = .ok f') : f'.Sound owed id t := by
  induction parameters generalizing f with
  | nil =>
      cases h
      exact hf
  | cons p ps ih =>
      rw [addParameters] at h
      split at h
      · cases h
      next g hg => exact ih (addParameter_sound hs howner hf hg) h

theorem addMissing_sound {parameters : List Parameter} (hf : f.Sound owed id t)
    (h : addMissing s parameters f = .ok f') : f'.Sound owed id t := by
  induction parameters generalizing f with
  | nil =>
      cases h
      exact hf
  | cons p ps ih =>
      rw [addMissing] at h
      split at h
      · exact ih hf h
      · split at h
        · cases h
        next g hg => exact ih (addParameter_sound hs howner hf hg) h

theorem addBody_sound {name : String} {schema : Schema} {body : RequestBody}
    (hf : f.Sound owed id t) (h : addBody s name schema body f = .ok f') : f'.Sound owed id t :=
  Setting.addField_sound hs (keepsType_body body) howner hf h

end Requests

section Drafts

variable {s : Setting} {serviceId : String} {a a' : Api}

theorem describedRequest_draws {name : String} {parameters : List Parameter} {op : Operation}
    {request : Request} (ha : Drafted s serviceId a)
    (h : describedRequest s name parameters op a = .ok (request, a')) :
    Draws s serviceId request.typeId a a' := by
  obtain ⟨m, f, hm, hf, rfl, rfl⟩ := describedRequest_eq_ok h
  have hmore : ∀ x, s.Owes x → s.Owes x ∨ x = m.id := fun x hx => Or.inl hx
  have hstart : (⟨m, a.table⟩ : Filling).Sound (fun x => s.Owes x ∨ x = m.id) m.id a.table :=
    ⟨rfl, .refl _, ha.table.mono hmore,
      (ha.table _ m hm).mono fun x hx => hx.imp (fun h => h) (hmore x)⟩
  have hclosed : SymbolTable.Delivers s.Owes m.id a.table f.close :=
    (addMissing_sound hmore (Or.inr rfl) hstart hf).close fun x hx => hx
  exact ⟨ha.grow hclosed.grows hclosed.grounded, hclosed.grows,
    hclosed.grows.messages _ (Catalog.contains_of_get? hm)⟩

theorem composedRequest_draws {name method : String} {parameters : List Parameter}
    {op : Operation} {request : Request} (ha : Drafted s serviceId a)
    (h : composedRequest s name method parameters op a = .ok (request, a')) :
    Draws s serviceId request.typeId a a' := by
  have hmore : ∀ x, s.Owes x → s.Owes x ∨ x = s.id name := fun x hx => Or.inl hx
  have hlisted : ∀ f : Filling, f.Sound (fun x => s.Owes x ∨ x = s.id name) (s.id name) a.table →
      Draws s serviceId (s.id name) a (composedRequest.listed a f) := by
    intro f hf
    have hclosed : SymbolTable.Delivers s.Owes (s.id name) a.table f.close :=
      hf.close fun x hx => hx
    have hdrawn := ha.drawListed hclosed
    rw [← hf.id] at hdrawn ⊢
    exact hdrawn
  obtain ⟨f, g, hf, hg, rfl, rfl⟩ := composedRequest_eq_ok h
  have hsound := addParameters_sound hmore (Or.inr rfl)
    ⟨rfl, .refl _, ha.table.mono hmore, Message.grounded_new fun p hp => by cases hp⟩ hf
  rcases hg with ⟨body, schema, -, -, hg⟩ | ⟨-, rfl⟩
  · exact hlisted g (addBody_sound hmore (Or.inr rfl) hsound hg)
  · exact hlisted g hsound

/-- The request of a method is a message of the table. -/
theorem requestOf_draws {method : String} {parameters : List Parameter} {op : Operation}
    {request : Request} (ha : Drafted s serviceId a)
    (h : requestOf s method parameters op a = .ok (request, a')) :
    Draws s serviceId request.typeId a a' := by
  unfold requestOf at h
  dsimp only at h
  split at h
  · exact describedRequest_draws ha h
  · exact composedRequest_draws ha h

/-! ### Responses -/

/-- The response of a method is a message of the table: a component's or a well-known one, which are
all there, or one made for it. -/
theorem responseOf_draws {method id : String} {op : Operation} (ha : Drafted s serviceId a)
    (hpaid : Paid s a.table) (h : responseOf s method op a = .ok (id, a')) :
    Draws s serviceId id a a' := by
  rcases responseOf_eq_ok h with ⟨rfl, rfl⟩ | ⟨r, name, component, hcomponent, hmessage, rfl, rfl⟩ |
    ⟨schema, table, -, -, -, htable, -, rfl⟩
  · exact ⟨ha, .refl _, hpaid _ (.wellKnown (by decide))⟩
  · exact ⟨ha, .refl _, hpaid _ (.component (Setting.mem_of_component hcomponent) hmessage)⟩
  · exact ha.drawListed (Setting.addMessage_delivers (fun _ hx => hx) ha.table htable)

/-! ### Methods -/

theorem methodOf_drafted {operationId : String} {e : Endpoint} {m? : Option Method}
    (ha : Drafted s serviceId a) (hpaid : Paid s a.table)
    (h : methodOf s serviceId operationId e a = .ok (m?, a')) :
    Drafted s serviceId a' ∧ a.table.Grows a'.table ∧
      ∀ m, m? = some m → MethodDrafted serviceId a'.table m := by
  rcases methodOf_eq_ok h with ⟨rfl, rfl⟩ | ⟨_, request, b, m, -, hrequest, hresponse, rfl, -, -,
    hservice, hinput, hoperation, hsource, hpagination, hpopulated⟩
  · exact ⟨ha, .refl _, fun m hm => by cases hm⟩
  · have hrequested := requestOf_draws ha hrequest
    have hresponded :=
      responseOf_draws hrequested.draft (hpaid.mono hrequested.grows.messages) hresponse
    have hthere := hresponded.grows.messages _ hrequested.drawn
    refine ⟨hresponded.draft, hrequested.grows.trans hresponded.grows, fun n hn => ?_⟩
    cases hn
    exact ⟨hservice, hinput ▸ hthere, hresponded.drawn, hoperation, hsource, hpagination,
      hpopulated⟩

theorem drafted_insertMethod {m : Method} {t : SymbolTable} (ha : Drafted s serviceId a)
    (hm : MethodDrafted serviceId a.table m) (h : a.table.insertMethod m = .ok t) :
    Drafted s serviceId { a with table := t } := by
  obtain rfl := (SymbolTable.insertMethod_eq_ok h).2
  refine ⟨ha.table, fun id n hn => ?_, ha.tableEnums, ha.tableServices, ha.listedMessages,
    ha.listedEnums, ha.listedServices⟩
  rcases SymbolTable.eq_or_method?_of_insertMethod h hn with rfl | hn
  · exact hm.mono fun _ h => h
  · exact (ha.methods id n hn).mono fun _ h => h

end Drafts

/-! ### The service -/

/-- A draft with its service, all of whose methods are in the table. -/
structure Serving (s : Setting) (service : Service) (a : Api) : Prop where
  draft : Drafted s service.id a
  paid : Paid s a.table
  listed : ∀ id ∈ service.methods, a.table.methods.contains id = true

section Endpoints

variable {s : Setting} {service service' : Service} {a a' : Api}

theorem addEndpoint_serving {e : Endpoint} (ha : Serving s service a)
    (h : addEndpoint s e service a = .ok (service', a')) : Serving s service' a' := by
  obtain ⟨_, m?, b, -, hb, hlast⟩ := addEndpoint_eq_ok h
  obtain ⟨hdraft, hgrows, hmethod⟩ := methodOf_drafted ha.draft ha.paid hb
  rcases hlast with ⟨-, rfl, rfl⟩ | ⟨m, table, rfl, htable, rfl, rfl⟩
  · exact ⟨hdraft, ha.paid.mono hgrows.messages, fun id hid => by
      rw [hgrows.methods]
      exact ha.listed id hid⟩
  · refine ⟨drafted_insertMethod hdraft (hmethod m rfl) htable, ?_, fun id hid => ?_⟩
    · obtain rfl := (SymbolTable.insertMethod_eq_ok htable).2
      exact ha.paid.mono hgrows.messages
    · rw [(SymbolTable.insertMethod_eq_ok htable).2, Catalog.contains_insert]
      rcases List.mem_append.1 hid with hid | hid
      · rw [hgrows.methods]
        exact Or.inr (ha.listed id hid)
      · exact Or.inl (List.mem_singleton.1 hid)

theorem addEndpoints_serving {es : List Endpoint} (ha : Serving s service a)
    (h : addEndpoints s es service a = .ok (service', a')) : Serving s service' a' := by
  induction es generalizing service a with
  | nil =>
      cases h
      exact ha
  | cons e es ih =>
      rw [addEndpoints] at h
      split at h
      · cases h
      next service₁ b hb => exact ih (addEndpoint_serving ha hb) h

end Endpoints

/-! ### Whole models -/

/-- What a grounded message mentions is there, once nothing is owed. -/
theorem resolves_of_grounded {t : SymbolTable} {known : String → Prop} {m : Message}
    (hm : m.Grounded known) (hknown : ∀ id, known id → t.messages.contains id = true) :
    m.Resolves t where
  types := fun f hf => by
    refine ⟨fun hw => ?_, fun hw => ?_⟩
    · have hreference : f.wireType.isReference = true := by
        rcases hw with hw | hw <;> rw [hw] <;> rfl
      exact hknown _ (hm.types f hf hreference).2
    · have hmessage := (hm.types f hf (by rw [hw]; rfl)).1
      rw [hw] at hmessage
      cases hmessage
  parent := fun p hp => hknown p (hm.parent p hp)

theorem assembled_of_grounded {t : SymbolTable} {known : String → Prop} {m : Message}
    (hm : m.Grounded known) (hknown : ∀ id, known id → t.messages.contains id = true) :
    m.Assembled t where
  nestedMessages := fun id hid => hknown id (hm.messages id hid)
  nestedEnums := fun id hid => by
    rw [hm.enums] at hid
    cases hid
  members := fun o ho => by
    rw [hm.oneOfs] at ho
    cases ho
  pagination := hm.pagination

/-- The service pays the last debt of a model: every mention resolves. -/
theorem addService_complete {s : Setting} {d : Document} {config : Option ServiceConfig}
    {a a' : Api} (ha : ∀ serviceId, Drafted s serviceId a) (hpaid : Paid s a.table)
    (h : addService s d config a = .ok a') : a'.Closed ∧ a'.table.Assembled := by
  obtain ⟨service, b, hb, rfl⟩ := addService_eq_ok h
  obtain ⟨hdraft, hpaid', hlisted⟩ :=
    addEndpoints_serving ⟨ha _, hpaid, fun id hid => by cases hid⟩ hb
  have hknown : ∀ id, b.table.Knows s.Owes id → b.table.messages.contains id = true :=
    fun id hid => hid.elim (fun h => h) (hpaid' id)
  refine ⟨⟨fun id m hm => ?_, fun id m hm => ?_, fun id v hv => ?_, fun id hid => ?_, ?_, ?_⟩,
    ⟨fun id m hm => ?_, fun id e he p hp => ?_, fun id m hm => ?_⟩⟩
  · exact resolves_of_grounded (hdraft.table id m hm) hknown
  · have hmethod := hdraft.methods id m hm
    refine ⟨?_, hmethod.input, hmethod.output, fun o ho => ?_⟩
    · exact Catalog.contains_insert.2 (Or.inl hmethod.service)
    · rw [hmethod.operation] at ho
      cases ho
  · change Catalog.get? (b.table.services.insert service.id service) id = some v at hv
    rw [Catalog.get?_insert, hdraft.tableServices] at hv
    split at hv
    · rw [← Option.some.inj hv]
      exact hlisted
    · cases hv
  · rw [hdraft.listedServices] at hid
    exact Catalog.contains_insert.2 (Or.inl (List.mem_singleton.1 hid))
  · exact hdraft.listedMessages
  · intro id hid
    change id ∈ b.enums at hid
    rw [hdraft.listedEnums] at hid
    cases hid
  · exact assembled_of_grounded (hdraft.table id m hm) hknown
  · change Catalog.get? b.table.enums id = some e at he
    rw [hdraft.tableEnums] at he
    rw [SymbolTable.enumParents_wellKnown he] at hp
    cases hp
  · have hmethod := hdraft.methods id m hm
    refine ⟨fun n hn => ?_, hmethod.pagination, hmethod.autoPopulated⟩
    rw [hmethod.source] at hn
    cases hn

/-- A document that is ingested gives a closed model, whose table is assembled. -/
theorem ingest_complete {d : Document} {asked : Option String} {config : Option ServiceConfig}
    {a : Api} (h : d.ingest asked config = .ok a) : a.Closed ∧ a.table.Assembled := by
  obtain ⟨b, c, hb, hc, rfl⟩ := ingest_eq_ok h
  obtain ⟨hclosed, hassembled⟩ := addService_complete
    (fun serviceId => (addComponents_paid serviceId hb).1) (addComponents_paid "" hb).2 hc
  exact ⟨⟨hclosed.messages, hclosed.methods, hclosed.listedMethods, hclosed.listedServices,
    hclosed.listedMessages, hclosed.listedEnums⟩, hassembled⟩

end ServiceModel.OpenApi
