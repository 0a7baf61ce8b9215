import ServiceModel.OpenApi.Ingestion
import ServiceModel.Proofs.Growth
import ServiceModel.Proofs.OpenApi.Conversion

/-!
What each step of an ingestion has done when it succeeds.  The invariants of ingestion are shown from
these, so none of them looks into a step again.
-/

namespace ServiceModel.OpenApi

/-! ### Fields and objects -/

variable {s : Setting}

/-- A field is added with the type and the messages that its schema has been converted to. -/
theorem addField_eq_ok {nest : Nesting} {name : String} {schema : Schema} {required : Bool}
    {finish : Field → Field} {f f' : Filling}
    (h : addField s nest name schema required finish f = .ok f') :
    ∃ typed, Converted s nest f.message.id name (deepest + 1) schema f.table typed ∧
      f' = f.push (finish (fieldOf f.message.id name schema required typed.type)) typed.nested
        typed.table := by
  unfold addField at h
  split at h
  · cases h
  next typed htyped =>
    cases h
    exact ⟨typed, .of_fieldType htyped, rfl⟩

/-- A message being filled says the same as before, its fields and the messages inside it apart. -/
def Filling.KeepsHead (f f' : Filling) : Prop :=
  f'.message = { f.message with fields := f'.message.fields, messages := f'.message.messages }

theorem Filling.KeepsHead.trans {f g f' : Filling} (hg : f.KeepsHead g) (hf' : g.KeepsHead f') :
    f.KeepsHead f' := by
  unfold KeepsHead at hg hf' ⊢
  rw [hf', hg]

theorem Filling.keepsHead_push (f : Filling) (field : Field) (nested : List String)
    (table : SymbolTable) : f.KeepsHead (f.push field nested table) :=
  rfl

/-- An object written in place at some level, where objects inside it are one level further down. -/
def nestAt (s : Setting) (levels : Nat) : Nesting := fun name id parent schema t =>
  objectMessage s levels name id (some parent) schema t

/-- An object is made of its properties, one field after the other. -/
theorem objectMessage_eq_ok {levels : Nat} {name id : String} {parent : Option String}
    {schema : Schema} {t t' : SymbolTable}
    (h : objectMessage s (levels + 1) name id parent schema t = .ok t') :
    ∃ flat f, flatten s (deepest + 1) schema = .ok flat ∧
      addProperties s (nestAt s levels) (.ofList flat.required) flat.properties
        ⟨emptyMessage s name id parent schema, t⟩ = .ok f ∧ t' = f.close := by
  rw [objectMessage] at h
  split at h
  · cases h
  next flat hflat =>
    dsimp only at h
    split at h
    · cases h
    next f hf =>
      cases h
      exact ⟨flat, f, hflat, hf, rfl⟩

/-! ### Requests and responses -/

section Operations

variable {a a' : Api} {op : Operation}

theorem describedRequest_eq_ok {name : String} {parameters : List Parameter} {request : Request}
    (h : describedRequest s name parameters op a = .ok (request, a')) :
    ∃ m f, a.table.message? (s.id name) = some m ∧
      addMissing s parameters ⟨m, a.table⟩ = .ok f ∧
        request = ⟨s.id name, op.body?.map fun _ => "*"⟩ ∧ a' = { a with table := f.close } := by
  unfold describedRequest at h
  split at h
  · cases h
  next m hm =>
    split at h
    · cases h
    next f hf =>
      cases h
      exact ⟨m, f, hm, hf, rfl, rfl⟩

/-- The message of a request before it has any fields. -/
def emptyRequest (s : Setting) (name method : String) : Message :=
  { name
    id := s.id name
    package := s.package
    documentation := "The request message for \x60" ++ method ++ "\x60." }

/-- A request is made of the parameters and, if it has a schema, of the body. -/
theorem composedRequest_eq_ok {name method : String} {parameters : List Parameter}
    {request : Request} (h : composedRequest s name method parameters op a = .ok (request, a')) :
    ∃ f g, addParameters s parameters ⟨emptyRequest s name method, a.table⟩ = .ok f ∧
      ((∃ body schema, op.requestBody = some body ∧ op.body? = some schema ∧
          addBody s (bodyFieldName parameters) schema body f = .ok g) ∨ op.body? = none ∧ g = f) ∧
      request = ⟨s.id name, op.body?.map fun _ => bodyFieldName parameters⟩ ∧
        a' = composedRequest.listed a g := by
  unfold composedRequest at h
  dsimp only at h
  split at h
  · cases h
  next f hf =>
    split at h
    next body schema hbody hschema =>
      split at h
      · cases h
      next g hg =>
        cases h
        refine ⟨f, g, hf, Or.inl ⟨body, schema, hbody, hschema, hg⟩, ?_, rfl⟩
        rw [hschema]
        rfl
    next hnone =>
      -- a body with a schema is a body
      have hbody : op.body? = none := by
        cases hbody : op.requestBody with
        | none => simp [Operation.body?, hbody]
        | some body =>
            refine Option.eq_none_iff_forall_ne_some.2 fun schema hschema => ?_
            exact hnone body schema hbody hschema
      cases h
      refine ⟨f, f, hf, Or.inr ⟨hbody, rfl⟩, ?_, rfl⟩
      rw [hbody]
      rfl

/-- A response is empty, the message of a component, or one that is made for the method. -/
theorem responseOf_eq_ok {method id : String} (h : responseOf s method op a = .ok (id, a')) :
    (id = SymbolTable.wellKnownId "Empty" ∧ a' = a) ∨
      (∃ r name component, s.component r = .ok (name, component) ∧ component.isMessage = true ∧
        id = s.id name ∧ a' = a) ∨
      ∃ schema table, op.success?.bind (·.content.schema?) = some schema ∧
        schema.reference = none ∧ schema.isMessage = true ∧
        s.addMessage (method ++ "Response") id schema a.table = .ok table ∧
          id = s.id (method ++ "Response") ∧
            a' = { a with table, messages := a.messages ++ [id] } := by
  unfold responseOf at h
  split at h
  · cases h
    exact Or.inl ⟨rfl, rfl⟩
  next schema hschema =>
    split at h
    next r href =>
      split at h
      · cases h
      next name component hcomponent =>
        split at h
        next hmessage =>
          cases h
          exact Or.inr (Or.inl ⟨r, name, component, hcomponent, hmessage, rfl, rfl⟩)
        · cases h
    next href =>
      dsimp only at h
      split at h
      · cases h
      next hmessage =>
        split at h
        · cases h
        · split at h
          · cases h
          next table htable =>
            cases h
            exact Or.inr (Or.inr ⟨schema, table, hschema, href, by simpa using hmessage, htable,
              rfl, rfl⟩)

/-! ### Methods -/

/-- An operation is left out if its path is no template; else it becomes a method with the request and the
response that are made for it. -/
theorem methodOf_eq_ok {serviceId operationId : String} {e : Endpoint} {m? : Option Method}
    (h : methodOf s serviceId operationId e a = .ok (m?, a')) :
    (m? = none ∧ a' = a) ∨
      ∃ pathTemplate request b m, PathTemplate.parse e.path = .ok pathTemplate ∧
        requestOf s (Text.upperFirst operationId) (mergeParameters e.shared e.operation.parameters)
          e.operation a = .ok (request, b) ∧
        responseOf s (Text.upperFirst operationId) e.operation b = .ok (m.outputTypeId, a') ∧
        m? = some m ∧ m.name = Text.upperFirst operationId ∧ m.id = serviceId ++ "." ++ m.name ∧
        m.serviceId = serviceId ∧ m.inputTypeId = request.typeId ∧ m.operation = none ∧
        m.sourceServiceId = none ∧ m.pagination = none ∧ m.autoPopulated = [] := by
  unfold methodOf at h
  split at h
  · cases h
    exact Or.inl ⟨rfl, rfl⟩
  next pathTemplate hpath =>
    dsimp only at h
    split at h
    · cases h
    next request b hrequest =>
      split at h
      · cases h
      next outputTypeId c hresponse =>
        cases h
        exact Or.inr ⟨pathTemplate, request, b, _, hpath, hrequest, hresponse, rfl, rfl, rfl, rfl,
          rfl, rfl, rfl, rfl, rfl⟩

/-- A method that is made is called by the verb of its operation, on the path of it and with the
parameters that are merged for it, and its body is that of its request. -/
theorem http_of_methodOf {serviceId operationId : String} {e : Endpoint} {m : Method}
    (h : methodOf s serviceId operationId e a = .ok (some m, a')) :
    ∃ pathTemplate request b, PathTemplate.parse e.path = .ok pathTemplate ∧
      requestOf s (Text.upperFirst operationId) (mergeParameters e.shared e.operation.parameters)
        e.operation a = .ok (request, b) ∧ m.inputTypeId = request.typeId ∧
      m.http = ⟨[⟨e.verb, pathTemplate, queryNames (mergeParameters e.shared e.operation.parameters)⟩],
        request.bodyField⟩ := by
  unfold methodOf at h
  split at h
  · cases h
  next pathTemplate hpath =>
    dsimp only at h
    split at h
    · cases h
    next request b hrequest =>
      split at h
      · cases h
      · cases h
        exact ⟨pathTemplate, request, b, hpath, hrequest, rfl, rfl⟩

/-- An operation with an ID becomes a method that its service lists at last, or is left out. -/
theorem addEndpoint_eq_ok {e : Endpoint} {service service' : Service}
    (h : addEndpoint s e service a = .ok (service', a')) :
    ∃ operationId m? b, e.operation.id = some operationId ∧
      methodOf s service.id operationId e a = .ok (m?, b) ∧
      ((m? = none ∧ service' = service ∧ a' = b) ∨
        ∃ m table, m? = some m ∧ b.table.insertMethod m = .ok table ∧
          service' = { service with methods := service.methods ++ [m.id] } ∧
            a' = { b with table }) := by
  unfold addEndpoint at h
  split at h
  · cases h
  next operationId hoperation =>
    split at h
    · cases h
    next b hb =>
      rw [during_eq_ok_iff] at hb
      cases h
      exact ⟨operationId, none, _, hoperation, hb, Or.inl ⟨rfl, rfl, rfl⟩⟩
    next m b hb =>
      rw [during_eq_ok_iff] at hb
      split at h
      · cases h
      next table htable =>
        cases h
        exact ⟨operationId, some m, b, hoperation, hb, Or.inr ⟨m, table, rfl, htable, rfl, rfl⟩⟩

end Operations

/-! ### Whole models -/

/-- The service of a document before it has any methods. -/
def emptyService (s : Setting) (d : Document) (config : Option ServiceConfig) : Service :=
  { name := serviceName d config
    id := s.id (serviceName d config)
    package := s.package
    documentation := d.info.description
    defaultHost := d.defaultHost }

theorem addService_eq_ok_iff {d : Document} {config : Option ServiceConfig} {a a' : Api} :
    addService s d config a = .ok a' ↔
      ∃ service b, addEndpoints s d.endpoints (emptyService s d config) a = .ok (service, b) ∧
        a' = { b with
          table := { b.table with services := b.table.services.insert service.id service }
          services := b.services ++ [service.id] } := by
  rw [addService, ← emptyService]
  cases addEndpoints s d.endpoints (emptyService s d config) a with
  | error e => simp
  | ok done =>
      obtain ⟨service, b⟩ := done
      constructor
      · intro h
        cases h
        exact ⟨service, b, rfl, rfl⟩
      · rintro ⟨_, _, h, rfl⟩
        cases h
        rfl

theorem addService_eq_ok {d : Document} {config : Option ServiceConfig} {a a' : Api}
    (h : addService s d config a = .ok a') :
    ∃ service b, addEndpoints s d.endpoints (emptyService s d config) a = .ok (service, b) ∧
      a' = { b with
        table := { b.table with services := b.table.services.insert service.id service }
        services := b.services ++ [service.id] } :=
  addService_eq_ok_iff.1 h

/-- The setting in which a document is ingested. -/
def Document.setting (d : Document) (asked : Option String) (config : Option ServiceConfig) :
    Setting :=
  ⟨d.schemas, packageName asked config⟩

/-- A document is ingested by its components first, and then its service. -/
theorem ingest_eq_ok_iff {d : Document} {asked : Option String} {config : Option ServiceConfig}
    {a : Api} :
    d.ingest asked config = .ok a ↔
      ∃ b c, addComponents (d.setting asked config) d.schemas (Api.new (packageName asked config)) =
          .ok b ∧ addService (d.setting asked config) d config b = .ok c ∧
            a = withNames d config c := by
  rw [Document.ingest, ← Document.setting]
  cases addComponents (d.setting asked config) d.schemas (Api.new (packageName asked config)) with
  | error e => simp
  | ok b =>
      cases h : addService (d.setting asked config) d config b with
      | error e => simp [h]
      | ok c => simp [h, eq_comm]

theorem ingest_eq_ok {d : Document} {asked : Option String} {config : Option ServiceConfig}
    {a : Api} (h : d.ingest asked config = .ok a) :
    ∃ b c, addComponents (d.setting asked config) d.schemas (Api.new (packageName asked config)) =
        .ok b ∧ addService (d.setting asked config) d config b = .ok c ∧ a = withNames d config c :=
  ingest_eq_ok_iff.1 h

end ServiceModel.OpenApi
