import ServiceModel.Proofs.OpenApi.Origin
import ServiceModel.Proofs.OpenApi.Service

/-!
The model of a document is traced: every message in its table comes from a component, from an object
written in place, from an operation, or from a map.  Operations are followed as they are added, and each
keeps the table traced.
-/

namespace ServiceModel.OpenApi

/-! ### Parameters and bodies -/

theorem annotates_parameter (p : Parameter) : Annotates (addParameter.finish p) := fun _ => rfl

theorem annotates_body (body : RequestBody) : Annotates (addBody.finish body) := fun _ => rfl

section Requests

variable {s : Setting} {es : List Endpoint} {id : String} {parts all : List Part}
  {f f' : Filling} (horigin : Origin s es id all)

include horigin

theorem addParameter_traced {p : Parameter} (hp : p.part ∈ all) (hf : f.Traced s es id parts)
    (h : addParameter s p f = .ok f') : f'.Traced s es id (parts ++ [p.part]) := by
  unfold addParameter at h
  rw [during_eq_ok_iff] at h
  exact Setting.addField_traced (annotates_parameter p) horigin hp hf h

theorem addParameters_traced {parameters : List Parameter}
    (hall : ∀ p ∈ parameters, p.part ∈ all) (hf : f.Traced s es id parts)
    (h : addParameters s parameters f = .ok f') :
    f'.Traced s es id (parts ++ parameters.map (·.part)) := by
  induction parameters generalizing parts f with
  | nil =>
      cases h
      simpa using hf
  | cons p ps ih =>
      rw [addParameters] at h
      split at h
      · cases h
      next g hg =>
        have hg := addParameter_traced horigin (hall p List.mem_cons_self) hf hg
        simpa using ih (fun q hq => hall q (List.mem_cons_of_mem _ hq)) hg h

theorem addMissing_traced {parameters : List Parameter} (hf : f.Traced s es id parts)
    (hall : parts ++ Part.unseen (parts.map (·.name)) (parameters.map (·.part)) = all)
    (h : addMissing s parameters f = .ok f') : f'.Traced s es id all := by
  induction parameters generalizing parts f with
  | nil =>
      cases h
      rw [← hall]
      simpa [Part.unseen] using hf
  | cons p ps ih =>
      rw [addMissing, Message.field?, field?_isSome_of_describes hf.fields] at h
      rw [List.map_cons, Part.unseen] at hall
      split at h
      next hseen =>
        rw [if_pos (by exact hseen)] at hall
        exact ih hf hall h
      next hnew =>
        rw [if_neg (by exact hnew)] at hall
        split at h
        · cases h
        next g hg =>
          have hp : p.part ∈ all := by
            rw [← hall]
            simp
          refine ih (addParameter_traced horigin hp hf hg) ?_ h
          simpa [Parameter.part] using hall

theorem addBody_traced {name : String} {schema : Schema} {body : RequestBody}
    (hp : ⟨name, schema, body.required⟩ ∈ all) (hf : f.Traced s es id parts)
    (h : addBody s name schema body f = .ok f') :
    f'.Traced s es id (parts ++ [⟨name, schema, body.required⟩]) :=
  Setting.addField_traced (p := ⟨name, schema, body.required⟩) (annotates_body body) horigin hp hf h

end Requests

/-! ### Requests and responses -/

theorem suffix_request (s : Setting) (method : String) :
    "Request".toList <:+ (s.id (method ++ "Request")).toList := by
  refine ⟨(s.id method).toList, ?_⟩
  simp [Setting.id]

/-- An entry is no request. -/
theorem request_ne_entryId (s : Setting) (method : String) (value : FieldType) :
    s.id (method ++ "Request") ≠ entryId value := by
  intro h
  have hrequest := suffix_request s method
  have hentry : ">".toList <:+ (entryId value).toList := by
    refine ⟨("." ++ "$map<string, " ++ value.entryKey).toList, ?_⟩
    simp [entryId, entryName]
  rw [h] at hrequest
  exact (List.suffix_or_suffix_of_suffix hrequest hentry).elim (by decide) (by decide)

/-- A well-known message is no request. -/
theorem request_ne_wellKnownId (s : Setting) (method : String) {name : String}
    (hname : name ∈ SymbolTable.wellKnownMessages) :
    s.id (method ++ "Request") ≠ SymbolTable.wellKnownId name := by
  intro h
  have hrequest := suffix_request s method
  rw [h] at hrequest
  have hnone : ∀ name ∈ SymbolTable.wellKnownMessages,
      ¬ "Request".toList <:+ (SymbolTable.wellKnownId name).toList := by decide
  exact hnone name hname hrequest

section Operations

variable {s : Setting} {es : List Endpoint} {e : Endpoint} {method : String} {a a' : Api}

theorem describedRequest_traced {request : Request} (he : e ∈ es)
    (hmethod : e.method? = some method)
    (hcomponent : (Keyed.get? (method ++ "Request") s.schemas).isSome = true)
    (ha : Traced s es a.table)
    (h : describedRequest s (method ++ "Request") e.parameters e.operation a = .ok (request, a')) :
    Traced s es a'.table := by
  obtain ⟨m, f, hm, hf, -, rfl⟩ := describedRequest_eq_ok h
  -- whatever the document describes by the name of a request is made of parts
  obtain ⟨hid, hsource⟩ := ha _ m hm
  cases hsource with
  | wellKnown hname hwellKnown _ =>
      exact absurd (hid.symm.trans hwellKnown) (request_ne_wellKnownId s method hname)
  | entry _ => exact absurd hid.symm (request_ne_entryId s method _)
  | parts horigin hfields _ =>
      rw [hid] at horigin hfields
      have hdescribed := Origin.described he hmethod hcomponent horigin
      have hfilled := addMissing_traced hdescribed ⟨hid, ha, hfields⟩ rfl hf
      exact hfilled.close hdescribed (.top (.request he hmethod) hfilled.named)

theorem composedRequest_traced {request : Request} (he : e ∈ es)
    (hmethod : e.method? = some method)
    (hcomponent : Keyed.get? (method ++ "Request") s.schemas = none) (ha : Traced s es a.table)
    (h : composedRequest s (method ++ "Request") method e.parameters e.operation a =
      .ok (request, a')) : Traced s es a'.table := by
  have hcomposed : Origin s es (s.id (method ++ "Request")) e.requestParts :=
    .composed he hmethod hcomponent
  obtain ⟨f, g, hf, hg, -, rfl⟩ := composedRequest_eq_ok h
  have hfilled : f.Traced s es (s.id (method ++ "Request")) ([] ++ e.parameters.map (·.part)) :=
    addParameters_traced hcomposed
      (fun p hp => List.mem_append_left _ (List.mem_map_of_mem hp)) ⟨rfl, ha, .nil⟩ hf
  rcases hg with ⟨body, schema, hbody, hschema, hg⟩ | ⟨hnone, rfl⟩
  · have hparts : e.requestParts =
        e.parameters.map (·.part) ++ [⟨bodyFieldName e.parameters, schema, body.required⟩] := by
      simp [Endpoint.requestParts, Endpoint.bodyPart?, hbody, hschema]
    rw [hparts] at hcomposed
    have hwhole := addBody_traced hcomposed (by simp) hfilled hg
    exact hwhole.close hcomposed (.top (.request he hmethod) hwhole.named)
  · have hparts : e.requestParts = e.parameters.map (·.part) := by
      simp [Endpoint.requestParts, Endpoint.bodyPart?, hnone]
    rw [hparts] at hcomposed
    exact hfilled.close hcomposed (.top (.request he hmethod) hfilled.named)

theorem requestOf_traced {request : Request} (he : e ∈ es) (hmethod : e.method? = some method)
    (ha : Traced s es a.table)
    (h : requestOf s method e.parameters e.operation a = .ok (request, a')) :
    Traced s es a'.table := by
  unfold requestOf at h
  dsimp only at h
  split at h
  next hcomponent => exact describedRequest_traced he hmethod hcomponent ha h
  next hcomponent =>
    exact composedRequest_traced he hmethod (by simpa using hcomponent) ha h

theorem responseOf_traced {id : String} (he : e ∈ es) (hmethod : e.method? = some method)
    (ha : Traced s es a.table) (h : responseOf s method e.operation a = .ok (id, a')) :
    Traced s es a'.table := by
  rcases responseOf_eq_ok h with ⟨-, rfl⟩ | ⟨_, _, _, -, -, -, rfl⟩ |
    ⟨schema, table, hschema, href, hmessage, htable, rfl, rfl⟩
  · exact ha
  · exact ha
  · refine Setting.addMessage_traced (fun flat hflat => ⟨?_, fun m _ hid _ _ => ?_⟩) ha htable
    · exact .response he hmethod hschema href hmessage hflat
    · exact .top (.response he hmethod) hid

theorem methodOf_traced {serviceId operationId : String} {m? : Option Method} (he : e ∈ es)
    (hoperation : e.operation.id = some operationId) (ha : Traced s es a.table)
    (h : methodOf s serviceId operationId e a = .ok (m?, a')) : Traced s es a'.table := by
  rcases methodOf_eq_ok h with ⟨-, rfl⟩ | ⟨template, _, _, _, htemplate, hrequest, hresponse, -⟩
  · exact ha
  · have hmethod : e.method? = some (Text.upperFirst operationId) := by
      rw [Endpoint.method?, htemplate, hoperation]
      rfl
    exact responseOf_traced he hmethod (requestOf_traced he hmethod ha hrequest) hresponse

theorem addEndpoint_traced {service service' : Service} (he : e ∈ es) (ha : Traced s es a.table)
    (h : addEndpoint s e service a = .ok (service', a')) : Traced s es a'.table := by
  obtain ⟨_, m?, b, hoperation, hb, hlast⟩ := addEndpoint_eq_ok h
  have hmethod := methodOf_traced he hoperation ha hb
  rcases hlast with ⟨-, -, rfl⟩ | ⟨m, table, -, htable, -, rfl⟩
  · exact hmethod
  · obtain rfl := (SymbolTable.insertMethod_eq_ok htable).2
    exact hmethod

theorem addEndpoints_traced {es' : List Endpoint} {service service' : Service}
    (hes : ∀ e ∈ es', e ∈ es) (ha : Traced s es a.table)
    (h : addEndpoints s es' service a = .ok (service', a')) : Traced s es a'.table := by
  induction es' generalizing service a with
  | nil =>
      cases h
      exact ha
  | cons e es' ih =>
      rw [addEndpoints] at h
      split at h
      · cases h
      next service₁ b hb =>
        exact ih (fun e he => hes e (List.mem_cons_of_mem _ he))
          (addEndpoint_traced (hes e List.mem_cons_self) ha hb) h

end Operations

/-! ### Whole models -/

theorem traced_wellKnown (s : Setting) (es : List Endpoint) : Traced s es SymbolTable.wellKnown := by
  intro id m hm
  obtain ⟨name, hname, heq⟩ := List.mem_map.1 (Catalog.mem_of_get?_ofList hm)
  cases heq
  exact ⟨rfl, .wellKnown hname rfl rfl⟩

theorem addComponents_traced {s : Setting} {es : List Endpoint}
    {components : List (String × Schema)} {a a' : Api} (hs : ∀ c ∈ components, c ∈ s.schemas)
    (ha : Traced s es a.table) (h : addComponents s components a = .ok a') :
    Traced s es a'.table := by
  induction components generalizing a with
  | nil =>
      cases h
      exact ha
  | cons component rest ih =>
      obtain ⟨name, schema⟩ := component
      have hrest : ∀ c ∈ rest, c ∈ s.schemas := fun c hc => hs c (List.mem_cons_of_mem _ hc)
      rw [addComponents] at h
      split at h
      next hmessage =>
        split at h
        · cases h
        next table htable =>
          rw [during_eq_ok_iff] at htable
          have hhere : (name, schema) ∈ s.schemas := hs _ List.mem_cons_self
          refine ih hrest (Setting.addMessage_traced (fun flat hflat => ?_) ha htable) h
          exact ⟨.component hhere hmessage hflat, fun m _ hid _ _ =>
            .top (.component hhere hmessage) hid⟩
      next => exact ih hrest ha h

/-- Every message of the model of a document has come about as documents make them. -/
theorem ingest_traced {d : Document} {asked : Option String} {config : Option ServiceConfig}
    {a : Api} (h : d.ingest asked config = .ok a) :
    Traced (d.setting asked config) d.endpoints a.table := by
  obtain ⟨b, c, hb, hc, rfl⟩ := ingest_eq_ok h
  have hnew : Traced (d.setting asked config) d.endpoints
      (Api.new (packageName asked config)).table := traced_wellKnown _ _
  have hcomponents := addComponents_traced (fun _ hc => hc) hnew hb
  obtain ⟨service, b', hb', rfl⟩ := addService_eq_ok hc
  have hendpoints := addEndpoints_traced (fun _ he => he) hcomponents hb'
  exact hendpoints

end ServiceModel.OpenApi
