import ServiceModel.Descriptor.Annotation
import ServiceModel.Proofs.Data.Spelling
import ServiceModel.ServiceConfig

/-!
The spellings of members in descriptor sets, annotations and service configurations.  Every reader of
these documents knows each member that consists of several words in both of its spellings, so a record
is read as its respellings are, from the innermost kinds of records to whole documents.
-/

namespace ServiceModel

/-- The kinds of records with members that readers ask for. -/
inductive RecordKind where
  | descriptorSet
  | file
  | message
  | oneOf
  | field
  | enum
  | enumValue
  | service
  | method
  | source
  | location
  | httpRule
  | customPattern
  | routing
  | routingRule
  | operation
  | config
  | api
  | documentation
  | documentationRule
  | http
  | publishing
  | methodSettings
  deriving DecidableEq

namespace RecordKind

/-- The members of each kind of records.  Options and what a configuration says about authentication
and the backend are values of their own. -/
def members : RecordKind → List (String × Shape RecordKind)
  | .descriptorSet => [("file", .list .file)]
  | .file => [("name", .plain), ("package", .plain), ("message_type", .list .message),
      ("enum_type", .list .enum), ("service", .list .service), ("options", .plain),
      ("source_code_info", .record .source), ("syntax", .plain)]
  | .message => [("name", .plain), ("field", .list .field), ("nested_type", .list .message),
      ("enum_type", .list .enum), ("oneof_decl", .list .oneOf), ("options", .plain)]
  | .oneOf => [("name", .plain)]
  | .field => [("name", .plain), ("number", .plain), ("label", .plain), ("type", .plain),
      ("type_name", .plain), ("json_name", .plain), ("options", .plain), ("oneof_index", .plain),
      ("proto3_optional", .plain)]
  | .enum => [("name", .plain), ("value", .list .enumValue), ("options", .plain)]
  | .enumValue => [("name", .plain), ("number", .plain), ("options", .plain)]
  | .service => [("name", .plain), ("method", .list .method), ("options", .plain)]
  | .method => [("name", .plain), ("input_type", .plain), ("output_type", .plain),
      ("client_streaming", .plain), ("server_streaming", .plain), ("options", .plain)]
  | .source => [("location", .list .location)]
  | .location => [("path", .plain), ("leading_comments", .plain), ("trailing_comments", .plain)]
  | .httpRule => [("selector", .plain), ("get", .plain), ("put", .plain), ("post", .plain),
      ("delete", .plain), ("patch", .plain), ("custom", .record .customPattern), ("body", .plain),
      ("response_body", .plain), ("additional_bindings", .list .httpRule)]
  | .customPattern => [("kind", .plain), ("path", .plain)]
  | .routing => [("routing_parameters", .list .routingRule)]
  | .routingRule => [("field", .plain), ("path_template", .plain)]
  | .operation => [("response_type", .plain), ("metadata_type", .plain)]
  | .config => [("name", .plain), ("title", .plain), ("apis", .list .api),
      ("documentation", .record .documentation), ("http", .record .http),
      ("publishing", .record .publishing), ("authentication", .plain), ("backend", .plain)]
  | .api => [("name", .plain)]
  | .documentation => [("summary", .plain), ("overview", .plain),
      ("rules", .list .documentationRule)]
  | .documentationRule => [("selector", .plain), ("description", .plain)]
  | .http => [("rules", .list .httpRule)]
  | .publishing => [("method_settings", .list .methodSettings)]
  | .methodSettings => [("selector", .plain), ("auto_populated_fields", .plain)]

def schema : Schema RecordKind where
  members := members
  distinct := by
    intro k
    cases k <;> decide

end RecordKind

open Node RecordKind

/-! ### Descriptor sets -/

namespace Descriptor

section

variable {n n' : Node}

theorem Location.ofNode?_respells (h : Respells schema (.record .location) n n') :
    ofNode? n = ofNode? n' :=
  h.bind_fields?_of_plain (by decide) (by decide)

theorem readLocations?_respells (h : Respells schema (.record .source) n n') :
    readLocations? n = readLocations? n' :=
  h.bind_fields? (by decide) fun f f' hf =>
    hf.orElse (i := 0) rfl (fun h => h.list? Location.ofNode?_respells) []

theorem readOneOf?_respells (h : Respells schema (.record .oneOf) n n') :
    readOneOf? n = readOneOf? n' :=
  h.bind_fields?_of_plain (by decide) (by decide)

theorem FieldDescriptor.ofNode?_respells (h : Respells schema (.record .field) n n') :
    ofNode? n = ofNode? n' :=
  h.bind_fields?_of_plain (by decide) (by decide)

theorem EnumValueDescriptor.ofNode?_respells (h : Respells schema (.record .enumValue) n n') :
    ofNode? n = ofNode? n' :=
  h.bind_fields?_of_plain (by decide) (by decide)

theorem EnumDescriptor.ofNode?_respells (h : Respells schema (.record .enum) n n') :
    ofNode? n = ofNode? n' :=
  h.bind_fields? (by decide) fun f f' hf => by
    rw [hf.orElse_plain (i := 0) rfl,
      hf.orElse (i := 1) rfl fun h => h.list? EnumValueDescriptor.ofNode?_respells,
      hf.orElse_plain (i := 2) rfl]

theorem MethodDescriptor.ofNode?_respells (h : Respells schema (.record .method) n n') :
    ofNode? n = ofNode? n' :=
  h.bind_fields?_of_plain (by decide) (by decide)

theorem ServiceDescriptor.ofNode?_respells (h : Respells schema (.record .service) n n') :
    ofNode? n = ofNode? n' :=
  h.bind_fields? (by decide) fun f f' hf => by
    rw [hf.orElse_plain (i := 0) rfl,
      hf.orElse (i := 1) rfl fun h => h.list? MethodDescriptor.ofNode?_respells,
      hf.orElse_plain (i := 2) rfl]

/-- The messages inside a message are read with one level less. -/
theorem MessageDescriptor.readWithin?_respells {levels : Nat}
    (h : Respells schema (.record .message) n n') : readWithin? levels n = readWithin? levels n' := by
  induction levels generalizing n n' with
  | zero => rfl
  | succ levels ih =>
      refine h.bind_fields? (by decide) fun f f' hf => ?_
      rw [hf.orElse_plain (i := 0) rfl,
        hf.orElse (i := 1) rfl fun h => h.list? FieldDescriptor.ofNode?_respells,
        hf.orElse (i := 2) rfl fun h => h.list? ih,
        hf.orElse (i := 3) rfl fun h => h.list? EnumDescriptor.ofNode?_respells,
        hf.orElse (i := 4) rfl fun h => h.list? readOneOf?_respells,
        hf.orElse_plain (i := 5) rfl]

theorem MessageDescriptor.ofNode?_respells (h : Respells schema (.record .message) n n') :
    ofNode? n = ofNode? n' := by
  rw [ofNode?, ofNode?, h.height_eq, readWithin?_respells h]

theorem FileDescriptor.ofNode?_respells (h : Respells schema (.record .file) n n') :
    ofNode? n = ofNode? n' :=
  h.bind_fields? (by decide) fun f f' hf => by
    rw [hf.orElse_plain (i := 0) rfl, hf.orElse_plain (i := 1) rfl,
      hf.orElse (i := 2) rfl fun h => h.list? MessageDescriptor.ofNode?_respells,
      hf.orElse (i := 3) rfl fun h => h.list? EnumDescriptor.ofNode?_respells,
      hf.orElse (i := 4) rfl fun h => h.list? ServiceDescriptor.ofNode?_respells,
      hf.orElse_plain (i := 5) rfl,
      hf.maybe (i := 6) rfl fun h => h.optional? readLocations?_respells,
      hf.orElse_plain (i := 7) rfl]

theorem DescriptorSet.ofNode?_respells (h : Respells schema (.record .descriptorSet) n n') :
    ofNode? n = ofNode? n' :=
  h.bind_fields? (by decide) fun f f' hf => by
    rw [hf.orElse (i := 0) rfl fun h => h.list? FileDescriptor.ofNode?_respells]

end

end Descriptor

/-! ### HTTP rules -/

namespace HttpRule

variable {n n' : Node}

theorem readCustom?_respells (h : Respells schema (.record .customPattern) n n') :
    readCustom? n = readCustom? n' :=
  h.bind_fields?_of_plain (by decide) (by decide)

/-- Additional bindings are read with one level less. -/
theorem readWithin?_respells {levels : Nat} (h : Respells schema (.record .httpRule) n n') :
    readWithin? levels n = readWithin? levels n' := by
  induction levels generalizing n n' with
  | zero => rfl
  | succ levels ih =>
      refine h.bind_fields? (by decide) fun f f' hf => ?_
      rw [hf.orElse_plain (i := 0) rfl, hf.maybe_plain (i := 1) rfl, hf.maybe_plain (i := 2) rfl,
        hf.maybe_plain (i := 3) rfl, hf.maybe_plain (i := 4) rfl, hf.maybe_plain (i := 5) rfl,
        hf.maybe (i := 6) rfl fun h => h.optional? readCustom?_respells,
        hf.orElse_plain (i := 7) rfl, hf.orElse_plain (i := 8) rfl,
        hf.orElse (i := 9) rfl fun h => h.list? ih]

theorem ofNode?_respells (h : Respells schema (.record .httpRule) n n') :
    ofNode? n = ofNode? n' := by
  rw [ofNode?, ofNode?, h.height_eq, readWithin?_respells h]

end HttpRule

/-! ### Annotations -/

namespace Descriptor

variable {n n' : Node}

theorem readRoutingRule?_respells (h : Respells schema (.record .routingRule) n n') :
    readRoutingRule? n = readRoutingRule? n' :=
  h.bind_fields?_of_plain (by decide) (by decide)

theorem readRouting?_respells (h : Respells schema (.record .routing) n n') :
    readRouting? n = readRouting? n' :=
  h.bind_fields? (by decide) fun f f' hf =>
    hf.orElse (i := 0) rfl (fun h => h.list? readRoutingRule?_respells) []

theorem readOperation?_respells (h : Respells schema (.record .operation) n n') :
    readOperation? n = readOperation? n' :=
  h.bind_fields?_of_plain (by decide) (by decide)

/-- The annotation under a key of the second options is a respelling of that of the first, or neither
has one. -/
def RespellsUnder (key : String) (kind : RecordKind) (options options' : Options) : Prop :=
  Option.Rel (fun value value' => Respells schema (.record kind) (ofJson value) (ofJson value'))
    (options.get? key) (options'.get? key)

theorem annotation_respells {α : Type} {key : String} {kind : RecordKind} {read : Node → Read α}
    {options options' : Options} (h : RespellsUnder key kind options options')
    (hread : ∀ {n n'}, Respells schema (.record kind) n n' → read n = read n') :
    annotation key read options = annotation key read options' := by
  unfold RespellsUnder at h
  unfold annotation
  generalize options.get? key = value at h ⊢
  generalize options'.get? key = value' at h ⊢
  cases h with
  | none => rfl
  | some h => simp only [Node.read?, hread h]

theorem respellsUnder_insert {key : String} {kind : RecordKind} {value value' : Json}
    (options options' : Options) (h : Respells schema (.record kind) (ofJson value) (ofJson value')) :
    RespellsUnder key kind (options.insert key value) (options'.insert key value') := by
  rw [RespellsUnder, Catalog.get?_insert_self, Catalog.get?_insert_self]
  exact .some h

end Descriptor

/-! ### Service configurations -/

namespace ServiceConfig

variable {n n' : Node}

theorem readApi?_respells (h : Respells schema (.record .api) n n') : readApi? n = readApi? n' :=
  h.bind_fields?_of_plain (by decide) (by decide)

theorem readDocumentationRule?_respells (h : Respells schema (.record .documentationRule) n n') :
    readDocumentationRule? n = readDocumentationRule? n' :=
  h.bind_fields?_of_plain (by decide) (by decide)

theorem readDocumentation?_respells (h : Respells schema (.record .documentation) n n') :
    readDocumentation? n = readDocumentation? n' :=
  h.bind_fields? (by decide) fun f f' hf => by
    rw [hf.orElse_plain (i := 0) rfl, hf.orElse_plain (i := 1) rfl,
      hf.orElse (i := 2) rfl fun h => h.list? readDocumentationRule?_respells]

theorem readHttp?_respells (h : Respells schema (.record .http) n n') :
    readHttp? n = readHttp? n' :=
  h.bind_fields? (by decide) fun f f' hf =>
    hf.orElse (i := 0) rfl (fun h => h.list? HttpRule.ofNode?_respells) []

theorem readMethodSettings?_respells (h : Respells schema (.record .methodSettings) n n') :
    readMethodSettings? n = readMethodSettings? n' :=
  h.bind_fields?_of_plain (by decide) (by decide)

theorem readPublishing?_respells (h : Respells schema (.record .publishing) n n') :
    readPublishing? n = readPublishing? n' :=
  h.bind_fields? (by decide) fun f f' hf =>
    hf.orElse (i := 0) rfl (fun h => h.list? readMethodSettings?_respells) []

theorem ofNode?_respells (h : Respells schema (.record .config) n n') : ofNode? n = ofNode? n' :=
  h.bind_fields? (by decide) fun f f' hf => by
    rw [hf.orElse_plain (i := 0) rfl, hf.orElse_plain (i := 1) rfl,
      hf.orElse (i := 2) rfl fun h => h.list? readApi?_respells,
      hf.orElse (i := 3) rfl readDocumentation?_respells,
      hf.orElse (i := 4) rfl readHttp?_respells,
      hf.orElse (i := 5) rfl readPublishing?_respells,
      hf.maybe_plain (i := 6) rfl, hf.maybe_plain (i := 7) rfl]

end ServiceConfig

namespace Descriptor

/-- The spelling of members never matters: not in a descriptor set, not in an annotation, not in the
option that marks the entry of a map, and not in a service configuration. -/
theorem spelling_never_matters :
    (∀ text text', JsonText.Respells schema (.record .descriptorSet) text text' →
      DescriptorSet.parse? text = DescriptorSet.parse? text') ∧
    (∀ options options', RespellsUnder httpKey .httpRule options options' →
      httpRule options = httpRule options') ∧
    (∀ options options', RespellsUnder routingKey .routing options options' →
      routingRules options = routingRules options') ∧
    (∀ options options', RespellsUnder operationKey .operation options options' →
      operation options = operation options') ∧
    (∀ options options' : Options, options.get? "map_entry" = none →
      options'.get? "mapEntry" = none → options.get? "mapEntry" = options'.get? "map_entry" →
      isMapEntry options = isMapEntry options') ∧
    (∀ text text', JsonText.Respells schema (.record .config) text text' →
      ServiceConfig.ofJsonText text = ServiceConfig.ofJsonText text') := by
  refine ⟨fun _ _ h => ?_, fun _ _ h => ?_, fun _ _ h => ?_, fun _ _ h => ?_, ?_, fun _ _ h => ?_⟩
  · exact h.read?_eq DescriptorSet.ofNode?_respells
  · exact annotation_respells h HttpRule.ofNode?_respells
  · exact annotation_respells h readRouting?_respells
  · exact annotation_respells h readOperation?_respells
  · intro options options' hsnake hcamel hvalue
    rw [isMapEntry, isMapEntry, hsnake, hcamel, hvalue, Option.or_none, Option.none_or]
  · exact congrArg ServiceConfig.orError (h.read?_eq ServiceConfig.ofNode?_respells)

/-- A set with one message. -/
def secretSet (messageType oneOfs : String) : Json :=
  .object [("file", .array [.object [(messageType, .array [
    .object [(oneOfs, .array []), ("name", .string "Secret")]])]])]

def secretConfig (settings : String) : Json :=
  .object [("name", .string "secrets.googleapis.com"),
    ("publishing", .object [(settings, .array [])])]

/-- Options with one member each. -/
def optionsWith (key name : String) (value : Json) : Options :=
  Catalog.empty.insert key (.object [(name, value)])

theorem spelling_never_matters_secret :
    DescriptorSet.parse? (secretSet "messageType" "oneofDecl").compact =
      DescriptorSet.parse? (secretSet "message_type" "oneof_decl").compact ∧
    httpRule (optionsWith httpKey "responseBody" (.string "secret")) =
      httpRule (optionsWith httpKey "response_body" (.string "secret")) ∧
    routingRules (optionsWith routingKey "routingParameters" (.array [])) =
      routingRules (optionsWith routingKey "routing_parameters" (.array [])) ∧
    operation (optionsWith operationKey "responseType" (.string "Secret")) =
      operation (optionsWith operationKey "response_type" (.string "Secret")) ∧
    isMapEntry (Catalog.empty.insert "mapEntry" (.bool true)) =
      isMapEntry (Catalog.empty.insert "map_entry" (.bool true)) ∧
    ServiceConfig.ofJsonText (secretConfig "methodSettings").compact =
      ServiceConfig.ofJsonText (secretConfig "method_settings").compact := by
  obtain ⟨hset, hhttp, hrouting, hoperation, hentry, hconfig⟩ := spelling_never_matters
  refine ⟨hset _ _ ?_, hhttp _ _ ?_, hrouting _ _ ?_, hoperation _ _ ?_, hentry _ _ ?_ ?_ ?_,
    hconfig _ _ ?_⟩
  · refine JsonText.respells_compact (by simp [secretSet, JsonText.deepest])
      (by simp [secretSet, JsonText.deepest]) ?_
    refine .inside (m := ("file", .list .file)) (by decide) (by decide) (.item ?_ [] []) [] []
    refine .trans (.member (m := ("message_type", .list .message)) (by decide) (by decide)
      (show "message_type" ∈ spellingsOf "message_type" by decide) _ [] []) ?_
    refine .inside (m := ("message_type", .list .message)) (by decide) (by decide)
      (.item ?_ [] []) [] []
    exact .member (m := ("oneof_decl", .list .oneOf)) (by decide) (by decide) (by decide) _ [] _
  · exact respellsUnder_insert _ _ (.member (m := ("response_body", .plain)) (by decide) (by decide)
      (by decide) _ [] [])
  · exact respellsUnder_insert _ _ (.member (m := ("routing_parameters", .list .routingRule))
      (by decide) (by decide) (by decide) _ [] [])
  · exact respellsUnder_insert _ _ (.member (m := ("response_type", .plain)) (by decide) (by decide)
      (by decide) _ [] [])
  · decide
  · decide
  · rw [Catalog.get?_insert_self, Catalog.get?_insert_self]
  · refine JsonText.respells_compact (by simp [secretConfig, JsonText.deepest])
      (by simp [secretConfig, JsonText.deepest]) ?_
    refine .inside (m := ("publishing", .record .publishing)) (by decide) (by decide) ?_ [_] []
    exact .member (m := ("method_settings", .list .methodSettings)) (by decide) (by decide)
      (by decide) _ [] []

end Descriptor

end ServiceModel
