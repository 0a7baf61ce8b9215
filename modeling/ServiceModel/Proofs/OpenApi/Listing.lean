import ServiceModel.Proofs.Listing
import ServiceModel.Proofs.OpenApi.Service

/-!
The one service of an OpenAPI document lists every method that is made of an operation, each once.
-/

namespace ServiceModel.OpenApi

variable {s : Setting} {service service' : Service} {a a' : Api}

/-- A draft whose service lists all its methods. -/
structure Enlisted (service : Service) (t : SymbolTable) : Prop where
  distinct : service.methods.Nodup
  methods : ∀ id m, t.method? id = some m →
    m.id = id ∧ id = service.id ++ "." ++ m.name ∧ id ∈ service.methods

theorem methodOf_named {operationId : String} {e : Endpoint} {m : Method}
    (h : methodOf s service.id operationId e a = .ok (some m, a')) :
    m.id = service.id ++ "." ++ m.name := by
  rcases methodOf_eq_ok h with ⟨hnone, -⟩ | ⟨_, _, _, _, -, -, -, hm, -, hid, -⟩
  · cases hnone
  · cases hm
    exact hid

theorem addEndpoint_enlisted {e : Endpoint} (ha : Serving s service a)
    (hlisted : Enlisted service a.table) (h : addEndpoint s e service a = .ok (service', a')) :
    Enlisted service' a'.table := by
  obtain ⟨_, m?, b, -, hb, hlast⟩ := addEndpoint_eq_ok h
  obtain ⟨-, hgrows, -⟩ := methodOf_drafted ha.draft ha.paid hb
  rcases hlast with ⟨-, rfl, rfl⟩ | ⟨m, table, rfl, htable, rfl, rfl⟩
  · refine ⟨hlisted.distinct, fun id n hn => hlisted.methods id n ?_⟩
    rwa [SymbolTable.method?, hgrows.methods] at hn
  · have hnamed := methodOf_named hb
    obtain ⟨hfree, heq⟩ := SymbolTable.insertMethod_eq_ok htable
    have hnew : m.id ∉ service.methods := fun hmem => by
      rw [hgrows.methods, ha.listed _ hmem] at hfree
      cases hfree
    refine ⟨?_, fun id n hn => ?_⟩
    · exact List.nodup_append.2 ⟨hlisted.distinct, List.pairwise_singleton _ _, by
        intro x hx y hy
        cases List.mem_singleton.1 hy
        exact fun heq => hnew (heq ▸ hx)⟩
    · change table.method? id = some n at hn
      rw [heq, SymbolTable.method?, Catalog.get?_insert] at hn
      split at hn
      next hid =>
        cases hn
        exact ⟨hid.symm, hid.trans hnamed, List.mem_append_right _ (hid ▸ List.mem_cons_self)⟩
      next =>
        rw [hgrows.methods] at hn
        obtain ⟨hid, hname, hmem⟩ := hlisted.methods id n hn
        exact ⟨hid, hname, List.mem_append_left _ hmem⟩

theorem addEndpoints_enlisted {es : List Endpoint} (ha : Serving s service a)
    (hlisted : Enlisted service a.table) (h : addEndpoints s es service a = .ok (service', a')) :
    Enlisted service' a'.table := by
  induction es generalizing service a with
  | nil =>
      cases h
      exact hlisted
  | cons e es ih =>
      rw [addEndpoints] at h
      split at h
      · cases h
      next service₁ b hb =>
        exact ih (addEndpoint_serving ha hb) (addEndpoint_enlisted ha hlisted hb) h

/-- A draft for whatever service has no methods yet. -/
theorem method?_eq_none_of_drafted (ha : ∀ serviceId, Drafted s serviceId a) (id : String) :
    a.table.method? id = none := by
  cases hm : a.table.method? id with
  | none => rfl
  | some m =>
      have hservice := ((ha "").methods id m hm).service
      rw [((ha "other").methods id m hm).service] at hservice
      exact absurd hservice (by decide)

/-- Before the first operation any service is served that has no methods. -/
theorem serving_of_drafted (ha : ∀ serviceId, Drafted s serviceId a) (hpaid : Paid s a.table)
    (hservice : service.methods = []) : Serving s service a :=
  ⟨ha _, hpaid, fun id hid => by
    rw [hservice] at hid
    cases hid⟩

/-- The service of a draft is the only one once it is in the table. -/
theorem Drafted.get?_services (ha : Drafted s service.id a) {id : String} {v : Service} :
    (a.table.services.insert service.id service).get? id = some v ↔
      id = service.id ∧ v = service := by
  rw [Catalog.get?_insert, ha.tableServices]
  split
  next hid => simp [hid, eq_comm]
  next hid => simp [hid, Catalog.get?_empty]

theorem addService_listed {d : Document} {config : Option ServiceConfig}
    (ha : ∀ serviceId, Drafted s serviceId a) (hpaid : Paid s a.table)
    (h : addService s d config a = .ok a') :
    a'.table.Indexed ∧ ∀ id m, a'.table.method? id = some m → m.Kept a'.table := by
  obtain ⟨service, b, hb, rfl⟩ := addService_eq_ok h
  have hstart : Serving s (emptyService s d config) a := serving_of_drafted ha hpaid rfl
  have henlisted := addEndpoints_enlisted hstart
    ⟨List.nodup_nil, fun id m hm => by
      rw [method?_eq_none_of_drafted ha] at hm
      cases hm⟩ hb
  obtain ⟨hdraft, -, hthere⟩ := addEndpoints_serving hstart hb
  have hindexed : SymbolTable.Indexed
      { b.table with services := b.table.services.insert service.id service } := by
    refine ⟨fun id v hv => ?_, fun id m hm => ?_⟩
    · obtain ⟨rfl, rfl⟩ := hdraft.get?_services.1 hv
      refine ⟨rfl, henlisted.distinct, fun n hn => ?_⟩
      obtain ⟨m, hm⟩ := Catalog.contains_iff.1 (hthere n hn)
      exact ⟨m, hm, (hdraft.methods n m hm).service⟩
    · exact ⟨(henlisted.methods id m hm).1,
        Catalog.contains_insert.2 (Or.inl (hdraft.methods id m hm).service)⟩
  refine ⟨hindexed, fun id m hm => ?_⟩
  obtain ⟨-, hname, hmem⟩ := henlisted.methods id m hm
  have hown := (hdraft.methods id m hm).service
  refine hindexed.kept hm (Composition.lists_iff.2 ⟨service, ?_, hmem⟩) (hown.symm ▸ hname)
  exact (Catalog.get?_insert _ _ _ _).trans (if_pos hown)

/-- A document that is ingested gives a model whose service lists every method, each once. -/
theorem ingest_listed {d : Document} {asked : Option String} {config : Option ServiceConfig}
    (h : d.ingest asked config = .ok a) :
    a.table.Indexed ∧ ∀ id m, a.table.method? id = some m → m.Kept a.table := by
  obtain ⟨b, c, hb, hc, rfl⟩ := ingest_eq_ok h
  have hlisted := addService_listed (fun serviceId => (addComponents_paid serviceId hb).1)
    (addComponents_paid "" hb).2 hc
  exact hlisted

end ServiceModel.OpenApi
