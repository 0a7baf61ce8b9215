import ServiceModel.Proofs.OpenApi.FieldNames
import ServiceModel.Proofs.OpenApi.Operations

/-!
What requests are made of.  A request that the document describes keeps its fields, and gains one for
each parameter whose name is not taken; one that it does not describe has a field for each parameter, and
one for the body.  Either way what an operation puts into the query is a field of its request.
-/

namespace ServiceModel.OpenApi

/-! ### Fields of parameters and bodies -/

/-- The field that a parameter becomes in the message with an ID. -/
def Carries (s : Setting) (ownerId : String) (p : Parameter) (field : Field) : Prop :=
  ∃ type, Denotes s ownerId p.name p.part.schema type ∧
    field = addParameter.finish p (fieldOf ownerId p.name p.part.schema p.required type)

/-- The field that the body of an operation becomes in the message with an ID, or no field if the body has
no schema.  It has another name where a parameter has the one that it would have. -/
def Endpoint.CarriesBody (s : Setting) (e : Endpoint) (ownerId : String) : Option Field → Prop
  | none => e.operation.body? = none
  | some field =>
      ∃ body schema name type, e.operation.requestBody = some body ∧
        e.operation.body? = some schema ∧
        name = (if "requestBody" ∈ e.parameters.map (·.name) then "openapiRequestBody"
          else "requestBody") ∧
        Denotes s ownerId name schema type ∧
        field = addBody.finish body (fieldOf ownerId name schema body.required type)

theorem Carries.name {s : Setting} {ownerId : String} {p : Parameter} {field : Field}
    (h : Carries s ownerId p field) : field.name = p.name := by
  obtain ⟨type, -, rfl⟩ := h
  rfl

theorem Carries.jsonName {s : Setting} {ownerId : String} {p : Parameter} {field : Field}
    (h : Carries s ownerId p field) : field.jsonName = p.name := by
  obtain ⟨type, -, rfl⟩ := h
  rfl

theorem names_of_carries {s : Setting} {ownerId : String} {ps : List Parameter}
    {fields : List Field} (h : List.Forall₂ (Carries s ownerId) ps fields) :
    fields.map (·.name) = ps.map (·.name) := by
  induction h with
  | nil => rfl
  | cons hfield _ ih => rw [List.map_cons, List.map_cons, hfield.name, ih]

/-- The parameters with names that are not taken, and of those with one name the first. -/
def untaken (names : List String) : List Parameter → List Parameter
  | [] => []
  | p :: ps =>
      if names.contains p.name then untaken names ps
      else p :: untaken (names ++ [p.name]) ps

/-- A name that was taken or that a parameter has is taken in the end. -/
theorem mem_append_untaken {names : List String} {ps : List Parameter} {name : String}
    (h : name ∈ names ∨ name ∈ ps.map (·.name)) :
    name ∈ names ++ (untaken names ps).map (·.name) := by
  induction ps generalizing names with
  | nil => simpa [untaken] using h
  | cons p ps ih =>
      rw [untaken]
      split
      next htaken =>
        refine ih (h.elim Or.inl fun h => ?_)
        rcases List.mem_cons.1 h with rfl | h
        · exact Or.inl (List.contains_iff_mem.1 htaken)
        · exact Or.inr h
      next =>
        rw [List.map_cons, List.append_cons]
        refine ih ?_
        simpa [or_assoc] using h

/-! ### Filling a request -/

/-- `f'` has the message of `f` with some more fields at its end, and with the messages inside it that
these need. -/
def Filling.Gains (f : Filling) (fields : List Field) (f' : Filling) : Prop :=
  ∃ nested, f'.message = { f.message with
    fields := f.message.fields ++ fields
    messages := f.message.messages ++ nested }

namespace Filling.Gains

variable {f g f' : Filling} {fields fields' : List Field}

theorem refl (f : Filling) : f.Gains [] f := ⟨[], by simp⟩

theorem trans (h : f.Gains fields g) (h' : g.Gains fields' f') :
    f.Gains (fields ++ fields') f' := by
  obtain ⟨nested, h⟩ := h
  obtain ⟨nested', h'⟩ := h'
  exact ⟨nested ++ nested', by rw [h', h]; simp⟩

theorem id (h : f.Gains fields f') : f'.message.id = f.message.id := by
  obtain ⟨nested, h⟩ := h
  rw [h]

theorem fields_eq (h : f.Gains fields f') : f'.message.fields = f.message.fields ++ fields := by
  obtain ⟨nested, h⟩ := h
  rw [h]

end Filling.Gains

section Filling

variable {s : Setting} {f f' : Filling}

theorem addParameter_gains {p : Parameter} (h : addParameter s p f = .ok f') :
    ∃ field, Carries s f.message.id p field ∧ f.Gains [field] f' := by
  unfold addParameter at h
  rw [during_eq_ok_iff] at h
  obtain ⟨typed, hconverted, rfl⟩ := addField_eq_ok h
  exact ⟨_, ⟨typed.type, hconverted.denotes, rfl⟩, typed.nested, rfl⟩

theorem addBody_gains {name : String} {schema : Schema} {body : RequestBody}
    (h : addBody s name schema body f = .ok f') :
    ∃ type, Denotes s f.message.id name schema type ∧
      f.Gains [addBody.finish body (fieldOf f.message.id name schema body.required type)] f' := by
  obtain ⟨typed, hconverted, rfl⟩ := addField_eq_ok h
  exact ⟨typed.type, hconverted.denotes, typed.nested, rfl⟩

theorem addParameters_gains {ps : List Parameter} (h : addParameters s ps f = .ok f') :
    ∃ fields, List.Forall₂ (Carries s f.message.id) ps fields ∧ f.Gains fields f' := by
  induction ps generalizing f with
  | nil =>
      cases h
      exact ⟨[], .nil, .refl _⟩
  | cons p ps ih =>
      rw [addParameters] at h
      split at h
      · cases h
      next g hg =>
        obtain ⟨field, hfield, hgains⟩ := addParameter_gains hg
        obtain ⟨fields, hfields, hrest⟩ := ih h
        rw [hgains.id] at hfields
        exact ⟨field :: fields, .cons hfield hfields, hgains.trans hrest⟩

/-- A message whose fields are called the same in both spellings. -/
def PlainlyNamed (m : Message) : Prop := ∀ f ∈ m.fields, f.jsonName = f.name

theorem PlainlyNamed.field?_isSome {m : Message} (h : PlainlyNamed m) (name : String) :
    (m.field? name).isSome = m.fieldNames.contains name := by
  rw [Bool.eq_iff_iff, Message.field?, List.find?_isSome, List.contains_iff_mem,
    Message.fieldNames, List.mem_map]
  refine exists_congr fun f => and_congr_right fun hf => ?_
  rw [h f hf, Bool.or_self, beq_iff_eq]

theorem addMissing_gains {ps : List Parameter} (hf : PlainlyNamed f.message)
    (h : addMissing s ps f = .ok f') :
    ∃ fields, List.Forall₂ (Carries s f.message.id) (untaken f.message.fieldNames ps) fields ∧
      f.Gains fields f' := by
  induction ps generalizing f with
  | nil =>
      cases h
      exact ⟨[], .nil, .refl _⟩
  | cons p ps ih =>
      rw [addMissing, hf.field?_isSome] at h
      rw [untaken]
      split at h
      next htaken =>
        rw [if_pos htaken]
        exact ih hf h
      next hfree =>
        rw [if_neg hfree]
        split at h
        · cases h
        next g hg =>
          obtain ⟨field, hfield, hgains⟩ := addParameter_gains hg
          have hnamed : PlainlyNamed g.message := by
            intro f' hf'
            rw [hgains.fields_eq] at hf'
            rcases List.mem_append.1 hf' with hf' | hf'
            · exact hf f' hf'
            · rw [List.mem_singleton.1 hf', hfield.jsonName, hfield.name]
          have hnames : g.message.fieldNames = f.message.fieldNames ++ [p.name] := by
            rw [Message.fieldNames, hgains.fields_eq, List.map_append, List.map_singleton, hfield.name]
            rfl
          obtain ⟨fields, hfields, hrest⟩ := ih hnamed h
          rw [hgains.id, hnames] at hfields
          exact ⟨field :: fields, .cons hfield hfields, hgains.trans hrest⟩

end Filling

/-! ### Requests -/

/-- The message of a request that is made for an operation: it has a field for each parameter, and at last
one for the body, which is the body of the method. -/
structure Endpoint.Fills (s : Setting) (e : Endpoint) (method : String) (r : Message)
    (bodyField : Option String) : Prop where
  message : ∃ fields body nested, r = { emptyRequest s (method ++ "Request") method with
      fields := fields ++ body.toList
      messages := nested } ∧
    List.Forall₂ (Carries s r.id) e.parameters fields ∧ e.CarriesBody s r.id body
  bodyField : bodyField = e.operation.body?.map fun _ =>
    if "requestBody" ∈ e.parameters.map (·.name) then "openapiRequestBody" else "requestBody"

/-- The message of a request that a document describes, `old`, with the parameters that it has no field
for.  All of it is the body of the method. -/
structure Endpoint.Completes (s : Setting) (e : Endpoint) (old r : Message)
    (bodyField : Option String) : Prop where
  message : ∃ added nested, r = { old with
      fields := old.fields ++ added
      messages := old.messages ++ nested } ∧
    List.Forall₂ (Carries s r.id) (untaken old.fieldNames e.parameters) added
  bodyField : bodyField = e.operation.body?.map fun _ => "*"

section Requests

variable {s : Setting} {e : Endpoint} {es : List Endpoint} {method : String} {r old : Message}
  {bodyField : Option String} {a b : Api} {request : Request}

theorem Endpoint.Fills.named (h : e.Fills s method r bodyField) {p : Parameter}
    (hp : p ∈ e.parameters) : ∃ f ∈ r.fields, f.name = p.name := by
  obtain ⟨fields, body, nested, hr, hfields, -⟩ := h.message
  have hname : p.name ∈ fields.map (·.name) :=
    names_of_carries hfields ▸ List.mem_map_of_mem hp
  obtain ⟨f, hf, hname⟩ := List.mem_map.1 hname
  refine ⟨f, ?_, hname⟩
  rw [hr]
  exact List.mem_append_left _ hf

theorem Endpoint.Completes.named (h : e.Completes s old r bodyField) {p : Parameter}
    (hp : p ∈ e.parameters) : ∃ f ∈ r.fields, f.name = p.name := by
  obtain ⟨added, nested, hr, hadded⟩ := h.message
  have hname : p.name ∈ old.fieldNames ++ (untaken old.fieldNames e.parameters).map (·.name) :=
    mem_append_untaken (Or.inr (List.mem_map_of_mem hp))
  rw [← names_of_carries hadded, Message.fieldNames, ← List.map_append] at hname
  obtain ⟨f, hf, hname⟩ := List.mem_map.1 hname
  refine ⟨f, ?_, hname⟩
  rw [hr]
  exact hf

/-- A message that is closed is found under its ID. -/
theorem Filling.message?_close (f : Filling) : f.close.message? f.message.id = some f.message :=
  Catalog.get?_insert_self _ _ _

theorem composedRequest_fills
    (h : composedRequest s (method ++ "Request") method e.parameters e.operation a =
      .ok (request, b)) :
    request.typeId = s.id (method ++ "Request") ∧ ∃ r, b.table.message? request.typeId = some r ∧
      e.Fills s method r request.bodyField := by
  obtain ⟨f, g, hf, hg, rfl, rfl⟩ := composedRequest_eq_ok h
  obtain ⟨fields, hfields, hgains⟩ := addParameters_gains hf
  obtain ⟨body, hbody, nested, hmessage⟩ : ∃ body,
      e.CarriesBody s (s.id (method ++ "Request")) body ∧
        Filling.Gains ⟨emptyRequest s (method ++ "Request") method, a.table⟩
          (fields ++ body.toList) g := by
    rcases hg with ⟨body, schema, hbody, hschema, hg⟩ | ⟨hnone, rfl⟩
    · obtain ⟨type, hdenotes, hlast⟩ := addBody_gains hg
      rw [hgains.id] at hdenotes hlast
      exact ⟨some _, ⟨body, schema, _, type, hbody, hschema, bodyFieldName_eq _, hdenotes, rfl⟩,
        hgains.trans hlast⟩
    · exact ⟨none, hnone, by simpa using hgains⟩
  have hid : g.message.id = s.id (method ++ "Request") := by
    rw [hmessage]
    rfl
  refine ⟨rfl, g.message, ?_, ⟨fields, body, nested, hmessage, ?_, ?_⟩, ?_⟩
  · exact hid ▸ g.message?_close
  · rw [hid]
    exact hfields
  · rw [hid]
    exact hbody
  · rw [bodyFieldName_eq]

theorem Source.plainlyNamed {m : Message} (h : Source s es m) : PlainlyNamed m := by
  intro f hf
  cases h with
  | wellKnown _ _ hempty =>
      rw [hempty] at hf
      cases hf
  | entry =>
      have hkey : lowerCamel "key" = "key" := by decide
      have hvalue : lowerCamel "value" = "value" := by decide
      simp only [entryMessage, List.mem_cons, List.not_mem_nil, or_false] at hf
      rcases hf with rfl | rfl
      · exact hkey
      · exact hvalue
  | parts _ hfields _ =>
      obtain ⟨part, -, hdescribes⟩ := exists_mem_left hfields hf
      rw [hdescribes.jsonName, hdescribes.name]

theorem describedRequest_completes (ha : Traced s es a.table)
    (h : describedRequest s (method ++ "Request") e.parameters e.operation a = .ok (request, b)) :
    request.typeId = s.id (method ++ "Request") ∧ ∃ old r,
      a.table.message? request.typeId = some old ∧ b.table.message? request.typeId = some r ∧
      e.Completes s old r request.bodyField := by
  obtain ⟨old, f, hold, hf, rfl, rfl⟩ := describedRequest_eq_ok h
  obtain ⟨hid, hsource⟩ := ha _ old hold
  obtain ⟨added, hadded, hgains⟩ := addMissing_gains hsource.plainlyNamed hf
  have hnamed : f.message.id = s.id (method ++ "Request") := hgains.id.trans hid
  obtain ⟨nested, hmessage⟩ := hgains
  refine ⟨rfl, old, f.message, hold, ?_, ⟨added, nested, hmessage, ?_⟩, rfl⟩
  · exact hnamed ▸ f.message?_close
  · rw [hnamed, ← hid]
    exact hadded

end Requests

/-! ### Reachable states -/

/-- The states of an ingestion: those with some of the components, and those with all of them and with some
of the operations as well, each in the order of the document. -/
def Document.Reaches (d : Document) (asked : Option String) (config : Option ServiceConfig)
    (service : Service) (a : Api) : Prop :=
  ∃ components es b, components <+: d.schemas ∧ es <+: d.endpoints ∧
    (es = [] ∨ components = d.schemas) ∧
    addComponents (d.setting asked config) components (Api.new (packageName asked config)) = .ok b ∧
    addEndpoints (d.setting asked config) es (emptyService (d.setting asked config) d config) b =
      .ok (service, a)

theorem Document.Reaches.traced {d : Document} {asked : Option String}
    {config : Option ServiceConfig} {service : Service} {a : Api}
    (h : d.Reaches asked config service a) :
    Traced (d.setting asked config) d.endpoints a.table := by
  obtain ⟨components, es, b, hcomponents, hes, -, hb, ha⟩ := h
  have hnew : Traced (d.setting asked config) d.endpoints
      (Api.new (packageName asked config)).table := traced_wellKnown _ _
  have hstart := addComponents_traced (fun _ hc => hcomponents.subset hc) hnew hb
  exact addEndpoints_traced (fun _ he => hes.subset he) hstart ha

/-- The request of a method that an operation becomes, in the state `b` that making it leaves: the message
that is made of the operation, or the one that the document describes with what it lacks.  It has a field for
whatever the method puts into the query. -/
structure Endpoint.Requests (s : Setting) (e : Endpoint) (method : String) (a b : Api) (m : Method)
    (r : Message) : Prop where
  made : requestOf s method e.parameters e.operation a =
    .ok (⟨m.inputTypeId, m.http.bodyFieldPath⟩, b)
  typeId : m.inputTypeId = s.id (method ++ "Request")
  filed : b.table.message? m.inputTypeId = some r
  composed : Keyed.get? (method ++ "Request") s.schemas = none →
    e.Fills s method r m.http.bodyFieldPath
  described : (Keyed.get? (method ++ "Request") s.schemas).isSome = true →
    ∃ old, a.table.message? m.inputTypeId = some old ∧ e.Completes s old r m.http.bodyFieldPath
  query : ∀ binding ∈ m.http.bindings, ∀ name ∈ binding.queryParameters,
    ∃ f ∈ r.fields, f.name = name

/-- In whatever state an operation becomes a method, its request has a field for each parameter and for the
body. -/
theorem methodOf_requests {d : Document} {asked : Option String} {config : Option ServiceConfig}
    {service : Service} {a a' : Api} {e : Endpoint} {operationId : String} {m : Method}
    (ha : d.Reaches asked config service a)
    (h : methodOf (d.setting asked config) service.id operationId e a = .ok (some m, a')) :
    ∃ b r, e.Requests (d.setting asked config) (Text.upperFirst operationId) a b m r := by
  obtain ⟨pathTemplate, ⟨typeId, bodyField⟩, b, -, hrequest, hinput, hhttp⟩ := http_of_methodOf h
  obtain rfl : m.http.bodyFieldPath = bodyField := congrArg HttpBindings.bodyFieldPath hhttp
  obtain rfl : m.inputTypeId = typeId := hinput
  have hquery : ∀ binding ∈ m.http.bindings, ∀ name ∈ binding.queryParameters,
      ∃ p ∈ e.parameters, p.name = name := by
    intro binding hbinding name hname
    rw [hhttp, List.mem_singleton] at hbinding
    rw [hbinding] at hname
    obtain ⟨p, hp, -, hname⟩ := mem_queryNames.1 hname
    exact ⟨p, hp, hname⟩
  have hmade := hrequest
  unfold requestOf at hmade
  dsimp only at hmade
  split at hmade
  next hthere =>
    obtain ⟨hid, old, r, hold, hr, hcompletes⟩ := describedRequest_completes ha.traced hmade
    refine ⟨b, r, hrequest, hid, hr, fun hnone => ?_, fun _ => ⟨old, hold, hcompletes⟩,
      fun binding hbinding name hname => ?_⟩
    · rw [hnone] at hthere
      cases hthere
    · obtain ⟨p, hp, rfl⟩ := hquery binding hbinding name hname
      exact hcompletes.named hp
  next hnone =>
    obtain ⟨hid, r, hr, hfills⟩ := composedRequest_fills hmade
    refine ⟨b, r, hrequest, hid, hr, fun _ => hfills, fun hthere => absurd hthere hnone,
      fun binding hbinding name hname => ?_⟩
    obtain ⟨p, hp, rfl⟩ := hquery binding hbinding name hname
    exact hfills.named hp

/-- The names of the fields of the request that an operation gets in a state. -/
def Endpoint.requestNames (s : Setting) (e : Endpoint) (method : String) (a : Api) :
    Option (List String) :=
  (requestOf s method e.parameters e.operation a).toOption.bind fun made =>
    (made.2.table.message? made.1.typeId).map (·.fieldNames)

theorem Endpoint.Requests.requestNames_eq {s : Setting} {e : Endpoint} {method : String}
    {a b : Api} {m : Method} {r : Message} (h : e.Requests s method a b m r) :
    e.requestNames s method a = some r.fieldNames := by
  rw [requestNames, toOption_eq_some_iff.2 h.made, Option.bind_some, h.filed, Option.map_some]

/-- An operation with a body, a parameter in the path and one in the query. -/
def addNote : Endpoint :=
  { path := "/v1/pets/{id}"
    verb := "POST"
    shared := [textParameter "id" "path"]
    operation := { operationOf "add" with
      parameters := [textParameter "note" "query"]
      requestBody := some ⟨true, "", [("application/json", ⟨some (objectOf [])⟩)]⟩ } }

/-- Another with a body, and with a parameter that has the name of bodies. -/
def editNote : Endpoint :=
  { addNote with
    verb := "PATCH"
    operation := { addNote.operation with
      id := some "edit"
      parameters := [textParameter "requestBody" "query"] } }

/-- A document with both operations.  It describes the request of the first, with one of its parameters, and
not that of the second. -/
def notes : Document :=
  { openapi := "3.0.0"
    info := ⟨"Notes", "", "1"⟩
    servers := []
    paths := [(addNote.path, {
      get := none, put := none, post := some addNote.operation, delete := none
      patch := some editNote.operation
      parameters := addNote.shared })]
    schemas := [("AddRequest", objectOf [("note", { types := some (.one "string") })])] }

/-- The described request is completed, and the body is all of it; the other is composed, and its body gets
the second name. -/
theorem methodOf_requests_notes :
    ∃ service a, notes.Reaches none none service a ∧
      (∃ m a', methodOf (notes.setting none none) service.id "add" addNote a = .ok (some m, a') ∧
        m.http.bodyFieldPath = some "*" ∧
        ∃ b r, addNote.Requests (notes.setting none none) (Text.upperFirst "add") a b m r ∧
          r.fieldNames = ["note", "id"]) ∧
      ∃ m a', methodOf (notes.setting none none) service.id "edit" editNote a = .ok (some m, a') ∧
        m.http.bodyFieldPath = some "openapiRequestBody" ∧
        ∃ b r, editNote.Requests (notes.setting none none) (Text.upperFirst "edit") a b m r ∧
          r.fieldNames = ["id", "requestBody", "openapiRequestBody"] := by
  have hseen : ∃ a ∈ (addComponents (notes.setting none none) notes.schemas
        (Api.new (packageName none none))).toOption,
      (∃ made ∈ (methodOf (notes.setting none none)
          (emptyService (notes.setting none none) notes none).id "add" addNote a).toOption,
        made.1.map (·.http.bodyFieldPath) = some (some "*")) ∧
      addNote.requestNames (notes.setting none none) (Text.upperFirst "add") a =
        some ["note", "id"] ∧
      (∃ made ∈ (methodOf (notes.setting none none)
          (emptyService (notes.setting none none) notes none).id "edit" editNote a).toOption,
        made.1.map (·.http.bodyFieldPath) = some (some "openapiRequestBody")) ∧
      editNote.requestNames (notes.setting none none) (Text.upperFirst "edit") a =
        some ["id", "requestBody", "openapiRequestBody"] := by
    decide +kernel
  obtain ⟨a, ha, hadd, haddNames, hedit, heditNames⟩ := exists_ok_of_toOption hseen
  have hreaches : notes.Reaches none none (emptyService (notes.setting none none) notes none) a :=
    ⟨notes.schemas, [], a, List.prefix_rfl, List.nil_prefix, Or.inl rfl, ha, rfl⟩
  obtain ⟨⟨m?, a₁⟩, hadded, hseen₁⟩ := exists_ok_of_toOption hadd
  obtain ⟨m₁, rfl, haddBody⟩ := Option.map_eq_some_iff.1 hseen₁
  obtain ⟨⟨m?, a₂⟩, hedited, hseen₂⟩ := exists_ok_of_toOption hedit
  obtain ⟨m₂, rfl, heditBody⟩ := Option.map_eq_some_iff.1 hseen₂
  obtain ⟨b₁, r₁, hrequests₁⟩ := methodOf_requests hreaches hadded
  obtain ⟨b₂, r₂, hrequests₂⟩ := methodOf_requests hreaches hedited
  refine ⟨_, a, hreaches, ⟨m₁, a₁, hadded, haddBody, b₁, r₁, hrequests₁, ?_⟩,
    m₂, a₂, hedited, heditBody, b₂, r₂, hrequests₂, ?_⟩
  · exact Option.some.inj (hrequests₁.requestNames_eq.symm.trans haddNames)
  · exact Option.some.inj (hrequests₂.requestNames_eq.symm.trans heditNames)

end ServiceModel.OpenApi
