import ServiceModel.Descriptor.Ingestion
import ServiceModel.NameSet

/-!
Composition of mixins into the services of a model.  The methods to add are those that the
configuration has HTTP rules for, of mixins that it declares beside an API of its own, and the
method that polls an operation if some method starts one.
-/

namespace ServiceModel

open Descriptor (DescriptorSet FileDescriptor addService)

structure CompositionCounts where
  loadedFiles : Nat
  composedMethods : Nat
  skippedDuplicates : Nat
  deriving DecidableEq, Repr, Inhabited

namespace Composition

/-! ### What is enabled -/

/-- The method that polls an operation. -/
def pollingMethod : String := "GetOperation"

def needsOperations (a : Api) : Bool :=
  a.serviceList.any fun s => (a.methodList s).any Method.isLongRunning

/-- The mixins that a configuration declares beside an API of its own. -/
def declared (c : ServiceConfig) : List Mixin :=
  if c.primaryApi?.isSome then c.apiNames.filterMap Mixin.ofService? else []

/-- The methods of a mixin that a configuration has HTTP rules for. -/
def ruledMethods (c : ServiceConfig) (m : Mixin) : List String :=
  c.httpRules.filterMap fun r =>
    match Text.splitLast? '.' r.selector with
    | some (service, method) => if service = m.service then some method else none
    | none => none

/-- The methods of a mixin to add. -/
def enabledMethods (a : Api) (config : Option ServiceConfig) (m : Mixin) : NameSet :=
  let ruled :=
    match config with
    | some c => if (declared c).contains m then NameSet.ofList (ruledMethods c m) else .empty
    | none => .empty
  if m = .operations ∧ needsOperations a then ruled.insert pollingMethod else ruled

/-- The mixins with methods to add, in order. -/
def enabled (a : Api) (config : Option ServiceConfig) : List (Mixin × NameSet) :=
  (Mixin.all.map fun m => (m, enabledMethods a config m)).filter fun e => !e.2.names.isEmpty

/-! ### Steps -/

inductive Action where
  /-- Adds the service of a mixin to the table. -/
  | load (m : Mixin)
  /-- Adds a method of a mixin to a service. -/
  | add (m : Mixin) (serviceId name : String)
  deriving DecidableEq, Repr

/-- The services that methods are added to. -/
def targets (a : Api) : List String := a.services.filter (!isMixinApi ·)

/-- The steps of composition: each mixin is loaded, and then its methods go to each service. -/
def actions (a : Api) (config : Option ServiceConfig) : List Action :=
  (enabled a config).flatMap fun (m, names) =>
    .load m :: (targets a).flatMap fun id => names.names.map fun name => .add m id name

/-- An error, and the model as far as it was composed. -/
structure Interrupted where
  error : BuildError
  api : Api

/-- Adds the service of a mixin to the table, unless it is there; the result says whether it was
added. -/
def load (set : DescriptorSet) (m : Mixin) (a : Api) : Except Interrupted (Api × Bool) :=
  if a.table.services.contains m.id then .ok (a, false)
  else
    match set.file? m.file with
    | none => .error ⟨.of (.mixinFileMissing m.service m.file), a⟩
    | some f =>
        match f.services.zipIdx.find? fun (s, _) => f.package ++ "." ++ s.name == m.service with
        | none => .error ⟨.of (.mixinNotDeclared m.file m.service), a⟩
        | some (d, i) =>
            match addService f i d a.table with
            | .error stop =>
                let error := ⟨[.loadingMixin m.service], .model stop.error⟩
                .error ⟨error, { a with table := stop.table }⟩
            | .ok (table, _, _) => .ok ({ a with table }, true)

/-- The bindings of a method to add: those of the configuration's rule, or else its own; `none` if
the rule cannot be used. -/
def composedBindings? (config : Option ServiceConfig) (t : SymbolTable) (sourceId : String)
    (source : Method) : Option HttpBindings :=
  match config.bind (·.httpRule? sourceId) with
  | none => some source.http
  | some rule =>
      (t.message? source.inputTypeId).bind fun request =>
        (rule.bindings (selectorOf sourceId) request).toOption

/-- What is said about a method that the configuration says nothing about. -/
def usualDocumentation (m : Mixin) : String :=
  "Provides the [" ++ m.shortName ++ "][" ++ m.service ++
    "] service functionality in this service."

/-- The method to add to a service; `none` if there is none, or its rule cannot be used. -/
def composedMethod? (config : Option ServiceConfig) (t : SymbolTable) (m : Mixin)
    (serviceId name : String) : Option Method := do
  let sourceId := m.id ++ "." ++ name
  let source ← t.method? sourceId
  let http ← composedBindings? config t sourceId source
  some { source with
    id := serviceId ++ "." ++ name
    serviceId
    sourceServiceId := some m.id
    http
    documentation := (config.bind (·.description? sourceId)).getD (usualDocumentation m) }

def lists (t : SymbolTable) (serviceId methodId : String) : Bool :=
  (t.service? serviceId).any fun s => s.methods.contains methodId

/-- Adds a method at the end of a service's list. -/
def listMethod (serviceId methodId : String) (t : SymbolTable) : SymbolTable :=
  (t.editService? serviceId fun s => { s with methods := s.methods ++ [methodId] }).getD t

def step (set : DescriptorSet) (config : Option ServiceConfig) (action : Action) (a : Api)
    (counts : CompositionCounts) : Except Interrupted (Api × CompositionCounts) :=
  match action with
  | .load m =>
      match load set m a with
      | .error stop => .error stop
      | .ok (a, loaded) =>
          .ok (a, if loaded then { counts with loadedFiles := counts.loadedFiles + 1 } else counts)
  | .add m serviceId name =>
      if lists a.table serviceId (serviceId ++ "." ++ name) then
        .ok (a, { counts with skippedDuplicates := counts.skippedDuplicates + 1 })
      else
        match composedMethod? config a.table m serviceId name with
        | none => .ok (a, counts)
        | some method =>
            match a.table.insertMethod method with
            | .error e => .error ⟨.of (.model e), a⟩
            | .ok table =>
                .ok ({ a with table := listMethod serviceId method.id table },
                  { counts with composedMethods := counts.composedMethods + 1 })

def run (set : DescriptorSet) (config : Option ServiceConfig) :
    List Action → Api → CompositionCounts → Except Interrupted (Api × CompositionCounts)
  | [], a, counts => .ok (a, counts)
  | action :: actions, a, counts =>
      match step set config action a counts with
      | .error stop => .error stop
      | .ok (a, counts) => run set config actions a counts

end Composition

/-- Composes the enabled mixins into every service of a model. -/
def Api.composeMixins (set : DescriptorSet) (config : Option ServiceConfig) (a : Api) :
    Except Composition.Interrupted (Api × CompositionCounts) :=
  Composition.run set config (Composition.actions a config) a ⟨0, 0, 0⟩

end ServiceModel
