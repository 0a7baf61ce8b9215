import ServiceModel.OpenApi.Document
import ServiceModel.OpenApi.Message
import ServiceModel.PathTemplate.Parser

/-!
Operations as methods.  The parameters of an operation and its body make up a request message,
unless the document itself describes one by the name that it would have.
-/

namespace ServiceModel.OpenApi

/-! ### Parameters -/

/-- Whether a parameter is a field of the request: it has a name, and a place in the URL. -/
def Parameter.isField (p : Parameter) : Bool :=
  p.name != "" && (p.location == "path" || p.location == "query")

/-- Puts a parameter in the place of one with its name and location, or else at the end. -/
def placeParameter (p : Parameter) : List Parameter → List Parameter
  | [] => [p]
  | q :: qs =>
      if q.name = p.name && q.location = p.location then p :: qs else q :: placeParameter p qs

/-- The parameters of an operation that are fields of its request.  Those of the operation itself
take the place of those that its path shares. -/
def mergeParameters (shared own : List Parameter) : List Parameter :=
  ((shared ++ own).filter (·.isField)).foldl (fun done p => placeParameter p done) []

/-- The names of the parameters in the query. -/
def queryNames (parameters : List Parameter) : NameSet :=
  .ofList ((parameters.filter (·.location == "query")).map (·.name))

def addParameter (s : Setting) (p : Parameter) (f : Filling) : Except BuildError Filling :=
  during (.parameter p.name)
    (s.addField p.name (p.schema.getD {}) p.required finish f)
where
  /-- The field with what the parameter says besides its schema. -/
  finish (field : Field) : Field :=
    { field with
      documentation := if field.documentation = "" then p.description else field.documentation
      deprecated := field.deprecated || p.deprecated }

def addParameters (s : Setting) : List Parameter → Filling → Except BuildError Filling
  | [], f => .ok f
  | p :: ps, f =>
      match addParameter s p f with
      | .error e => .error e
      | .ok f => addParameters s ps f

/-- Adds the fields of those parameters that the message has no field for. -/
def addMissing (s : Setting) : List Parameter → Filling → Except BuildError Filling
  | [], f => .ok f
  | p :: ps, f =>
      if (f.message.field? p.name).isSome then addMissing s ps f
      else
        match addParameter s p f with
        | .error e => .error e
        | .ok f => addMissing s ps f

/-! ### Requests -/

/-- The type of the request of a method, and the field that is its body. -/
structure Request where
  typeId : String
  bodyField : Option String

def Operation.body? (op : Operation) : Option Schema := op.requestBody.bind (·.content.schema?)

/-- The name of the field for a body; it is not that of a parameter. -/
def bodyFieldName (parameters : List Parameter) : String :=
  if parameters.any (·.name == "requestBody") then "openapiRequestBody" else "requestBody"

/-- Adds the field of the body of an operation. -/
def addBody (s : Setting) (name : String) (schema : Schema) (body : RequestBody) (f : Filling) :
    Except BuildError Filling :=
  s.addField name schema body.required finish f
where
  /-- The field with what is said about the body besides its schema. -/
  finish (field : Field) : Field :=
    { field with
      documentation := if field.documentation = "" then body.description else field.documentation }

/-- The request that the document describes itself, with fields for all parameters.  The body is the
whole of it. -/
def describedRequest (s : Setting) (name : String) (parameters : List Parameter) (op : Operation)
    (a : Api) : Except BuildError (Request × Api) :=
  match a.table.message? (s.id name) with
  | none => .error (.of (.requestNotObject name))
  | some m =>
      match addMissing s parameters ⟨m, a.table⟩ with
      | .error e => .error e
      | .ok f => .ok (⟨s.id name, op.body?.map fun _ => "*"⟩, { a with table := f.close })

/-- The request that is made of the parameters and the body, which is one field of it. -/
def composedRequest (s : Setting) (name method : String) (parameters : List Parameter)
    (op : Operation) (a : Api) : Except BuildError (Request × Api) :=
  let start : Message :=
    { name
      id := s.id name
      package := s.package
      documentation := "The request message for \x60" ++ method ++ "\x60." }
  match addParameters s parameters ⟨start, a.table⟩ with
  | .error e => .error e
  | .ok f =>
      match op.requestBody, op.body? with
      | some body, some schema =>
          match addBody s (bodyFieldName parameters) schema body f with
          | .error e => .error e
          | .ok f => .ok (⟨s.id name, some (bodyFieldName parameters)⟩, listed f)
      | _, _ => .ok (⟨s.id name, none⟩, listed f)
where
  /-- The model with the message at its top level. -/
  listed (f : Filling) : Api :=
    { a with table := f.close, messages := a.messages ++ [f.message.id] }

/-- The request of a method, and the model with its message. -/
def requestOf (s : Setting) (method : String) (parameters : List Parameter) (op : Operation)
    (a : Api) : Except BuildError (Request × Api) :=
  let name := method ++ "Request"
  if (Keyed.get? name s.schemas).isSome then describedRequest s name parameters op a
  else composedRequest s name method parameters op a

/-! ### Responses -/

/-- The response of success: that with code 200, or else the first whose code begins with 2. -/
def Operation.success? (op : Operation) : Option Response :=
  (Keyed.get? "200" op.responses).or
    ((op.responses.find? fun r => r.1.toList.head? == some '2').map (·.2))

/-- The response type of a method, and the model with its message.  An object written in place is a
message of its own. -/
def responseOf (s : Setting) (method : String) (op : Operation) (a : Api) :
    Except BuildError (String × Api) :=
  match op.success?.bind (·.content.schema?) with
  | none => .ok (SymbolTable.wellKnownId "Empty", a)
  | some schema =>
      match schema.reference with
      | some r =>
          match s.component r with
          | .error e => .error e
          | .ok (name, component) =>
              if component.isMessage then .ok (s.id name, a)
              else .error (.of (.responseNotObject r))
      | none =>
          let name := method ++ "Response"
          if !schema.isMessage then .error (.of .inlineResponseNotObject)
          else if (Keyed.get? name s.schemas).isSome then .error (.of (.responseCollision name))
          else
            match s.addMessage name (s.id name) schema a.table with
            | .error e => .error e
            | .ok table => .ok (s.id name, { a with table, messages := a.messages ++ [s.id name] })

/-! ### Methods -/

/-- An operation with its place in the document. -/
structure Endpoint where
  path : String
  verb : String
  /-- The parameters that all operations of the path share. -/
  shared : List Parameter
  operation : Operation

/-- The endpoints of a document, in the order of its paths. -/
def Document.endpoints (d : Document) : List Endpoint :=
  d.paths.flatMap fun (path, item) =>
    item.operations.map fun (verb, operation) => ⟨path, verb, item.parameters, operation⟩

/-- The method of an endpoint, and the model with the messages that it needs; no method if the path
is not a template. -/
def methodOf (s : Setting) (serviceId operationId : String) (e : Endpoint) (a : Api) :
    Except BuildError (Option Method × Api) :=
  match PathTemplate.parse e.path with
  | .error _ => .ok (none, a)
  | .ok pathTemplate =>
      let name := Text.upperFirst operationId
      let parameters := mergeParameters e.shared e.operation.parameters
      match requestOf s name parameters e.operation a with
      | .error stop => .error stop
      | .ok (request, a) =>
          match responseOf s name e.operation a with
          | .error stop => .error stop
          | .ok (outputTypeId, a) =>
              .ok (some {
                name
                id := serviceId ++ "." ++ name
                serviceId
                documentation :=
                  if e.operation.description = "" then e.operation.summary
                  else e.operation.description
                inputTypeId := request.typeId
                outputTypeId
                http := {
                  bindings := [{
                    verb := e.verb
                    pathTemplate
                    queryParameters := queryNames parameters }]
                  bodyFieldPath := request.bodyField }
                deprecated := e.operation.deprecated }, a)

/-- Adds the method of an endpoint to a model and to its service, which is not yet part of it. -/
def addEndpoint (s : Setting) (e : Endpoint) (service : Service) (a : Api) :
    Except BuildError (Service × Api) :=
  match e.operation.id with
  | none => .error (.of (.missingOperationId e.verb e.path))
  | some operationId =>
      match during (.operation operationId) (methodOf s service.id operationId e a) with
      | .error stop => .error stop
      | .ok (none, a) => .ok (service, a)
      | .ok (some m, a) =>
          match a.table.insertMethod m with
          | .error stop => .error (.of (.model stop))
          | .ok table =>
              .ok ({ service with methods := service.methods ++ [m.id] }, { a with table })

def addEndpoints (s : Setting) :
    List Endpoint → Service → Api → Except BuildError (Service × Api)
  | [], service, a => .ok (service, a)
  | e :: es, service, a =>
      match addEndpoint s e service a with
      | .error stop => .error stop
      | .ok (service, a) => addEndpoints s es service a

end ServiceModel.OpenApi
