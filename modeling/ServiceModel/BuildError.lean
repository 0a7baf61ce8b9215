import ServiceModel.Model.SymbolTable

/-!
Why a model cannot be built: a cause, and the steps that were under way when it was met, the
outermost first.
-/

namespace ServiceModel

/-- What went wrong. -/
inductive BuildCause where
  /-- A text is not the JSON that was expected. -/
  | json
  /-- A text is not the YAML that was expected. -/
  | yaml
  | inaccessible
  | model (error : ModelError)
  | unknownFormat (name : String)
  | unsupportedFieldType (name : String)
  | mixinFileMissing (service file : String)
  | mixinNotDeclared (file service : String)
  | unsupportedReference (reference : String)
  | unknownSchema (reference : String)
  | compositionTooDeep
  | schemaTooDeep
  /-- A schema is part of itself. -/
  | endlessSchema
  | arrayWithoutItems
  | nestedArray
  | mapOfCollections
  | unsupportedSchemaType (name : String)
  | missingOperationId (verb path : String)
  | requestNotObject (name : String)
  | responseNotObject (reference : String)
  | inlineResponseNotObject
  | responseCollision (name : String)
  deriving Repr, Inhabited

/-- What was under way. -/
inductive BuildStep where
  | parsingDescriptors
  | parsingOpenApiJson
  | parsingOpenApiYaml
  | resolvingFile (name : String)
  | field (id : String)
  | composingMixins
  | loadingMixin (service : String)
  | validating
  | schema (name : String)
  | operation (id : String)
  | property (name : String)
  | parameter (name : String)
  | reading (path : String)
  | writing (path : String)
  | building (path : String)
  | readingConfig (path : String)
  | parsingConfig (path : String)
  deriving DecidableEq, Repr, Inhabited

/-- A cause with the steps that were under way. -/
structure BuildError where
  steps : List BuildStep
  cause : BuildCause
  deriving Repr, Inhabited

namespace BuildCause

/-- What is said about the cause; nothing if it is only known by its kind. -/
def message? : BuildCause → Option String
  | .json => none
  | .yaml => none
  | .inaccessible => none
  | .model e => some e.message
  | .unknownFormat name =>
      some ("unknown specification format \x60" ++ name ++
        "\x60 (expected \x60protobuf\x60 or \x60openapi\x60)")
  | .unsupportedFieldType name => some ("unsupported field type \x60" ++ name ++ "\x60")
  | .mixinFileMissing service file =>
      some ("mixin \x60" ++ service ++ "\x60 requires \x60" ++ file ++
        "\x60, which is not in the descriptor set")
  | .mixinNotDeclared file service =>
      some ("\x60" ++ file ++ "\x60 does not declare \x60" ++ service ++ "\x60")
  | .unsupportedReference r => some ("unsupported reference \x60" ++ r ++ "\x60")
  | .unknownSchema r => some ("reference to unknown schema \x60" ++ r ++ "\x60")
  | .compositionTooDeep => some "allOf nesting is too deep"
  | .schemaTooDeep => some "schema nesting is too deep"
  | .endlessSchema => some "schema contains itself"
  | .arrayWithoutItems => some "array without \x60items\x60"
  | .nestedArray => some "nested arrays and arrays of maps are not supported"
  | .mapOfCollections => some "maps of arrays or maps are not supported"
  | .unsupportedSchemaType name => some ("unsupported schema type \x60" ++ name ++ "\x60")
  | .missingOperationId verb path => some (verb ++ " " ++ path ++ " has no operationId")
  | .requestNotObject name => some ("\x60" ++ name ++ "\x60 is not an object schema")
  | .responseNotObject r => some ("response schema \x60" ++ r ++ "\x60 is not an object")
  | .inlineResponseNotObject => some "inline response schemas must be objects"
  | .responseCollision name => some ("inline response collides with schema \x60" ++ name ++ "\x60")

end BuildCause

def BuildStep.message : BuildStep → String
  | .parsingDescriptors => "failed to parse descriptor set JSON"
  | .parsingOpenApiJson => "failed to parse OpenAPI JSON document"
  | .parsingOpenApiYaml => "failed to parse OpenAPI YAML document"
  | .resolvingFile name => "while resolving \x60" ++ name ++ "\x60"
  | .field id => "field \x60" ++ id ++ "\x60"
  | .composingMixins => "failed to compose mixins"
  | .loadingMixin service => "while loading mixin \x60" ++ service ++ "\x60"
  | .validating => "model failed cross-reference validation"
  | .schema name => "while converting schema \x60" ++ name ++ "\x60"
  | .operation id => "while converting operation \x60" ++ id ++ "\x60"
  | .property name => "property \x60" ++ name ++ "\x60"
  | .parameter name => "parameter \x60" ++ name ++ "\x60"
  | .reading path => "failed to read " ++ path
  | .writing path => "failed to write " ++ path
  | .building path => "failed to build a model from " ++ path
  | .readingConfig path => "failed to read service config " ++ path
  | .parsingConfig path => "invalid service config " ++ path

namespace BuildError

/-- An error met outside all steps. -/
def of (cause : BuildCause) : BuildError := ⟨[], cause⟩

/-- The error with one more step around it. -/
def during (step : BuildStep) (e : BuildError) : BuildError := ⟨step :: e.steps, e.cause⟩

/-- What is said about the error: its steps and its cause, as far as there are words for it. -/
def message (e : BuildError) : String :=
  Text.join ": " (e.steps.map BuildStep.message ++ e.cause.message?.toList)

end BuildError

/-- A result, whose error was met during a step. -/
def during {α : Type} (step : BuildStep) (r : Except BuildError α) : Except BuildError α :=
  r.mapError (·.during step)

@[simp] theorem mapError_eq_ok_iff {ε ε' α : Type} {f : ε → ε'} {r : Except ε α} {a : α} :
    r.mapError f = .ok a ↔ r = .ok a := by
  cases r with
  | error e => exact ⟨nofun, nofun⟩
  | ok b =>
      constructor
      · intro h
        cases h
        rfl
      · intro h
        cases h
        rfl

@[simp] theorem during_eq_ok_iff {α : Type} {step : BuildStep} {r : Except BuildError α} {a : α} :
    during step r = .ok a ↔ r = .ok a :=
  mapError_eq_ok_iff

end ServiceModel
