import ServiceModel.Descriptor.Resolution
import ServiceModel.Http.Binding
import ServiceModel.Routing.Parser

/-!
Services and methods of a descriptor set.  A method whose annotations cannot be used, or whose
request is not there, is left out; a method that is there already stops the run.
-/

namespace ServiceModel.Descriptor

/-! ### Methods -/

/-- The ID that a type of an operation stands for: a message of the package, or else a full
name. -/
def operationTypeId (t : SymbolTable) (package name : String) : String :=
  if Text.hasLead "." name then name
  else
    let own := memberId (packageScope package) name
    if t.messages.contains own then own else "." ++ name

/-- The HTTP bindings of a method; `none` if its rule cannot be used. -/
def methodBindings? (selector : String) (request : Message) (options : Options) :
    Option HttpBindings :=
  match httpRule options with
  | .ok none => some {}
  | .ok (some rule) => (rule.bindings selector request).toOption
  | .error _ => none

/-- The routing headers of a method; `none` if its rules cannot be used. -/
def methodRouting? (options : Options) : Option (List RoutingHeader) :=
  match routingRules options with
  | .ok none => some []
  | .ok (some rules) => (RoutingRule.parseAll rules).toOption
  | .error _ => none

/-- The types of a method's operation; `none` if its annotation cannot be used. -/
def methodOperation? (t : SymbolTable) (package : String) (options : Options) :
    Option (Option OperationTypes) :=
  match operation options with
  | .ok none => some none
  | .ok (some o) =>
      some (some ⟨operationTypeId t package o.responseType,
        operationTypeId t package o.metadataType⟩)
  | .error _ => none

/-- The method of a descriptor, without its comment; `none` if it has to be left out. -/
def method? (t : SymbolTable) (package serviceId : String) (d : MethodDescriptor) :
    Option Method := do
  let id := memberId serviceId d.name
  let request ← t.message? (typeIdOf d.inputType)
  let http ← methodBindings? (selectorOf id) request d.options
  let routing ← methodRouting? d.options
  let operation ← methodOperation? t package d.options
  some {
    name := d.name
    id
    serviceId
    inputTypeId := typeIdOf d.inputType
    outputTypeId := typeIdOf d.outputType
    clientStreaming := d.clientStreaming
    serverStreaming := d.serverStreaming
    http
    routing
    operation
    deprecated := isDeprecated d.options }

/-! ### Services -/

structure ServiceDraft where
  table : SymbolTable
  /-- The IDs of the methods so far. -/
  listed : List String
  dropped : Nat

/-- An error, and the table as far as it was filled. -/
structure Interrupted where
  error : ModelError
  table : SymbolTable

/-- Adds the methods of a service from a position on. -/
def addMethods (f : FileDescriptor) (serviceId : String) (place : Place) :
    Nat → List MethodDescriptor → ServiceDraft → Except Interrupted ServiceDraft
  | _, [], draft => .ok draft
  | i, d :: ds, draft =>
      match method? draft.table f.package serviceId d with
      | none => addMethods f serviceId place (i + 1) ds { draft with dropped := draft.dropped + 1 }
      | some m =>
          let m := { m with documentation := f.comment (place.child Place.serviceMethod i) }
          match draft.table.insertMethod m with
          | .error e => .error ⟨e, draft.table⟩
          | .ok table =>
              addMethods f serviceId place (i + 1) ds
                { draft with table, listed := draft.listed ++ [m.id] }

def FileDescriptor.serviceId (f : FileDescriptor) (d : ServiceDescriptor) : String :=
  memberId f.scope d.name

/-- The service of a descriptor with some methods. -/
def FileDescriptor.service (f : FileDescriptor) (place : Place) (d : ServiceDescriptor)
    (methods : List String) : Service :=
  { name := d.name
    id := f.serviceId d
    package := f.package
    documentation := f.comment place
    defaultHost := (defaultHost? d.options).getD ""
    methods
    deprecated := isDeprecated d.options }

/-- Adds a service with its methods: the table, and how many methods were built and left out. -/
def addService (f : FileDescriptor) (index : Nat) (d : ServiceDescriptor) (t : SymbolTable) :
    Except Interrupted (SymbolTable × Nat × Nat) :=
  let place := Place.child [] Place.fileService index
  match addMethods f (f.serviceId d) place 0 d.methods ⟨t, [], 0⟩ with
  | .error stop => .error stop
  | .ok draft =>
      match draft.table.insertService (f.service place d draft.listed) with
      | .error e => .error ⟨e, draft.table⟩
      | .ok table => .ok (table, draft.listed.length, draft.dropped)

end ServiceModel.Descriptor
