import ServiceModel.Descriptor.Service
import ServiceModel.ServiceConfig

/-!
Ingestion of a descriptor set: messages and enums of all files, and the services of those files
that are targets.
-/

namespace ServiceModel.Descriptor

/-- Which files give services and top-level declarations.  Without a list and a lead, all do. -/
structure Targets where
  files : List String
  /-- What the names of target files begin with. -/
  lead : Option String
  deriving DecidableEq, Repr, Inhabited

def Targets.includes (o : Targets) (name : String) : Bool :=
  (o.files.isEmpty && o.lead.isNone) || o.files.contains name ||
    o.lead.any fun lead => Text.hasLead lead name

structure IngestionCounts where
  files : Nat
  targetFiles : Nat
  messages : Nat
  enums : Nat
  services : Nat
  methods : Nat
  droppedMethods : Nat
  deriving DecidableEq, Repr, Inhabited

/-- A model under construction, and what was counted of its services. -/
structure Draft where
  api : Api
  services : Nat
  methods : Nat
  dropped : Nat

/-- Whether a file declares a service that is not a mixin. -/
def FileDescriptor.hasOwnService (f : FileDescriptor) : Bool :=
  f.services.any fun s => !isMixinApi (memberId f.package s.name)

def DescriptorSet.targets (s : DescriptorSet) (o : Targets) : List FileDescriptor :=
  s.files.filter fun f => o.includes f.name

/-- The package of a model: that of the first target with a service that is not a mixin, or else of
the first target. -/
def DescriptorSet.package (s : DescriptorSet) (o : Targets) : String :=
  let targets := s.targets o
  match (targets.find? FileDescriptor.hasOwnService).or targets.head? with
  | some f => f.package
  | none => ""

def DescriptorSet.register (s : DescriptorSet) (t : SymbolTable) : SymbolTable :=
  s.files.foldl (fun t f => f.register t) t

/-- Adds the services of a file from a position on.  Mixins are kept in the table but are no
services of the model. -/
def addServices (f : FileDescriptor) :
    Nat → List ServiceDescriptor → Draft → Except ModelError Draft
  | _, [], draft => .ok draft
  | i, d :: ds, draft =>
      match addService f i d draft.api.table with
      | .error stop => .error stop.error
      | .ok (table, built, dropped) =>
          let id := f.serviceId d
          let services :=
            if isMixinApi id then draft.api.services else draft.api.services ++ [id]
          addServices f (i + 1) ds
            { api := { draft.api with table, services }
              services := draft.services + 1
              methods := draft.methods + built
              dropped := draft.dropped + dropped }

/-- Resolves the messages of a file and, for a target, adds its declarations and services. -/
def resolveFile (target : Bool) (f : FileDescriptor) (draft : Draft) :
    Except BuildError Draft :=
  match resolveSites f f.messageSites draft.api.table with
  | .error e => .error e
  | .ok table =>
      let api := { draft.api with table }
      if target then
        let api := { api with
          messages := api.messages ++ f.messageIds
          enums := api.enums ++ f.enumIds }
        (addServices f 0 f.services { draft with api }).mapError fun e => .of (.model e)
      else .ok { draft with api }

def resolveFiles (o : Targets) : List FileDescriptor → Draft → Except BuildError Draft
  | [], draft => .ok draft
  | f :: fs, draft =>
      match during (.resolvingFile f.name) (resolveFile (o.includes f.name) f draft) with
      | .error e => .error e
      | .ok draft => resolveFiles o fs draft

/-- The model with its names taken from the configuration. -/
def withNames (config : Option ServiceConfig) (a : Api) : Api :=
  let a := { a with name := apiName (config.map (·.name)) a.packageName }
  match config with
  | some c => { a with title := c.title, description := c.documentation.summary }
  | none => a

/-- The model of a descriptor set, without mixins. -/
def DescriptorSet.ingest (s : DescriptorSet) (o : Targets) (config : Option ServiceConfig) :
    Except BuildError (Api × IngestionCounts) :=
  let start := Api.new (s.package o)
  let start := { start with table := s.register start.table }
  match resolveFiles o s.files ⟨start, 0, 0, 0⟩ with
  | .error e => .error e
  | .ok draft =>
      .ok (withNames config draft.api,
        { files := s.files.length
          targetFiles := (s.targets o).length
          messages := (s.files.flatMap FileDescriptor.messageSites).length
          enums := (s.files.flatMap FileDescriptor.enumSites).length
          services := draft.services
          methods := draft.methods
          droppedMethods := draft.dropped })

/-- The descriptor set of a text, or the error that says there is none. -/
def DescriptorSet.ofText (text : String) : Except BuildError DescriptorSet :=
  match DescriptorSet.parse? text with
  | some s => .ok s
  | none => .error ⟨[.parsingDescriptors], .json⟩

end ServiceModel.Descriptor
