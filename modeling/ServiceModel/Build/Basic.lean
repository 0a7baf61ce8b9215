import ServiceModel.Data.Node
import ServiceModel.Enrichment
import ServiceModel.Mixin.Composition
import ServiceModel.OpenApi.Ingestion
import ServiceModel.Resolution

/-!
Building a model from the text of a specification: ingestion, composition of mixins, enrichment, and
at last the check that every mention resolves, after which the model is frozen.
-/

namespace ServiceModel

/-! ### Formats -/

/-- The formats of specifications. -/
inductive SpecificationFormat where
  /-- A descriptor set in JSON. -/
  | protobuf
  /-- An OpenAPI document in JSON or YAML. -/
  | openApi
  deriving DecidableEq, Repr, Inhabited

namespace SpecificationFormat

def text : SpecificationFormat → String
  | .protobuf => "protobuf"
  | .openApi => "openapi"

def names : List (String × SpecificationFormat) :=
  [(text .protobuf, .protobuf), (text .openApi, .openApi)]

/-- The format with a name, in capitals or not. -/
def ofText (name : String) : Except BuildError SpecificationFormat :=
  match names.lookup (Text.asciiLower name) with
  | some f => .ok f
  | none => .error (.of (.unknownFormat (Text.asciiLower name)))

def toJson (f : SpecificationFormat) : Json := .string f.text

def ofNode? (n : Node) : Read SpecificationFormat := n.choice? names

end SpecificationFormat

/-! ### Building -/

/-- What a build may be told. -/
structure BuildOptions where
  /-- Which files of a descriptor set give services. -/
  targets : Descriptor.Targets
  /-- The package of an OpenAPI model. -/
  package : Option String
  config : Option ServiceConfig

instance : Inhabited BuildOptions := ⟨⟨⟨[], none⟩, none, none⟩⟩

/-- What the passes of a build have counted. -/
structure BuildReport where
  /-- Counted for descriptor sets only. -/
  ingestion : Option Descriptor.IngestionCounts
  /-- Counted for descriptor sets only. -/
  composition : Option CompositionCounts
  enrichment : EnrichmentCounts
  deriving DecidableEq, Repr, Inhabited

/-- What a specification gives before it is enriched. -/
structure Ingested where
  api : Api
  ingestion : Option Descriptor.IngestionCounts
  composition : Option CompositionCounts

namespace Ingested

/-- The model of a descriptor set, with its mixins. -/
def ofDescriptors (source : String) (o : BuildOptions) : Except BuildError Ingested :=
  match Descriptor.DescriptorSet.ofText source with
  | .error e => .error e
  | .ok set =>
      match set.ingest o.targets o.config with
      | .error e => .error e
      | .ok (api, ingestion) =>
          match api.composeMixins set o.config with
          | .error stop => .error (stop.error.during .composingMixins)
          | .ok (api, composition) => .ok ⟨api, some ingestion, some composition⟩

def ofDocument (source : String) (o : BuildOptions) : Except BuildError Ingested :=
  match OpenApi.Document.ofText source with
  | .error e => .error e
  | .ok d =>
      match d.ingest o.package o.config with
      | .error e => .error e
      | .ok api => .ok ⟨api, none, none⟩

def ofSource (format : SpecificationFormat) (source : String) (o : BuildOptions) :
    Except BuildError Ingested :=
  match format with
  | .protobuf => ofDescriptors source o
  | .openApi => ofDocument source o

end Ingested

/-- Builds the model of a specification. -/
def build (format : SpecificationFormat) (source : String) (o : BuildOptions) :
    Except BuildError (Api × BuildReport) :=
  match Ingested.ofSource format source o with
  | .error e => .error e
  | .ok ingested =>
      let (enrichment, api) := ingested.api.enrich o.config
      match api.finalize with
      | .error e => .error ⟨[.validating], .model e⟩
      | .ok api => .ok (api, ⟨ingested.ingestion, ingested.composition, enrichment⟩)

end ServiceModel
