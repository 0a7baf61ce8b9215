import ServiceModel.Build.Basic
import ServiceModel.Proofs.Data.JsonText
import ServiceModel.Proofs.Enrichment
import ServiceModel.Proofs.Mixin.Composition
import ServiceModel.Proofs.OpenApi.Service

/-!
Builds.  What ingestion leaves is assembled, composition keeps it so, and enrichment makes it coherent;
the check at the end adds that the model is closed.  The check can only refuse descriptor sets: what is
ingested from an OpenAPI document is closed already.
-/

namespace ServiceModel

variable {format : SpecificationFormat} {source : String} {o : BuildOptions}

/-! ### Passes of a build -/

theorem build_eq_error_iff {e : BuildError} :
    build format source o = .error e ↔
      Ingested.ofSource format source o = .error e ∨
        ∃ i stop, Ingested.ofSource format source o = .ok i ∧
          (i.api.enrich o.config).2.finalize = .error stop ∧ e = ⟨[.validating], .model stop⟩ := by
  unfold build
  cases Ingested.ofSource format source o with
  | error e' => simp
  | ok i =>
      cases h : (i.api.enrich o.config).2.finalize with
      | error stop => simp [h, eq_comm]
      | ok api => simp [h]

theorem build_eq_ok_iff {api : Api} {report : BuildReport} :
    build format source o = .ok (api, report) ↔
      ∃ i, Ingested.ofSource format source o = .ok i ∧
        (i.api.enrich o.config).2.finalize = .ok api ∧
          report = ⟨i.ingestion, i.composition, (i.api.enrich o.config).1⟩ := by
  unfold build
  cases Ingested.ofSource format source o with
  | error e => simp
  | ok i =>
      cases h : (i.api.enrich o.config).2.finalize with
      | error stop => simp [h]
      | ok api => simp [h, eq_comm]

theorem ofDocument_eq_error_iff {e : BuildError} :
    Ingested.ofDocument source o = .error e ↔
      OpenApi.Document.ofText source = .error e ∨
        ∃ d, OpenApi.Document.ofText source = .ok d ∧
          d.ingest o.package o.config = .error e := by
  unfold Ingested.ofDocument
  cases OpenApi.Document.ofText source with
  | error e' => simp
  | ok d => cases h : d.ingest o.package o.config <;> simp [h]

theorem ofDocument_eq_ok {i : Ingested} (h : Ingested.ofDocument source o = .ok i) :
    ∃ d : OpenApi.Document, d.ingest o.package o.config = .ok i.api := by
  unfold Ingested.ofDocument at h
  split at h
  · cases h
  next d hd =>
    split at h
    · cases h
    next api hapi =>
      cases h
      exact ⟨d, hapi⟩

/-! ### OpenAPI documents -/

/-- Every model that is ingested from a document passes the check, before it is enriched and after,
so a build from a document fails only where its text cannot be read or the document be ingested. -/
theorem openApi_passes_check :
    (∀ (d : OpenApi.Document) (asked : Option String) (config other : Option ServiceConfig)
        (a : Api), d.ingest asked config = .ok a →
      (a.checkMentions = .ok () ∧ a.Closed) ∧
        (a.enrich other).2.checkMentions = .ok () ∧ (a.enrich other).2.Closed) ∧
      ∀ (source : String) (o : BuildOptions) (e : BuildError),
        build .openApi source o = .error e ↔
          OpenApi.Document.ofText source = .error e ∨
            ∃ d, OpenApi.Document.ofText source = .ok d ∧
              d.ingest o.package o.config = .error e := by
  constructor
  · intro d asked config other a h
    have hclosed := (OpenApi.ingest_complete h).1
    have henriched := hclosed.enrich other
    exact ⟨⟨Api.checkMentions_eq_ok_iff.2 hclosed, hclosed⟩,
      Api.checkMentions_eq_ok_iff.2 henriched, henriched⟩
  · intro source o e
    rw [build_eq_error_iff, Ingested.ofSource, ofDocument_eq_error_iff]
    refine or_iff_left ?_
    rintro ⟨i, stop, hi, hstop, -⟩
    obtain ⟨d, hd⟩ := ofDocument_eq_ok hi
    have henriched := (OpenApi.ingest_complete hd).1.enrich o.config
    rw [Api.finalize_eq_ok_iff.2 ⟨henriched, rfl⟩] at hstop
    cases hstop

namespace OpenApi

/-- A schema that refers to a component. -/
def referenceTo (name : String) : Schema := { reference := some (Setting.componentLead ++ name) }

/-- The schema of an object with some properties. -/
def objectOf (properties : List (String × Schema)) : Schema :=
  { types := some (.one "object"), properties }

/-- A document whose pets have a home written in place, labels in a map, and are listed in pages. -/
def pets : Document :=
  { openapi := "3.0.0"
    info := ⟨"Pets", "", "1"⟩
    servers := []
    paths := [("/v1/pets", {
      get := some {
        id := some "list"
        summary := ""
        description := ""
        parameters := [⟨"pageToken", "query", false, "", false, some { types := some (.one "string") }⟩]
        requestBody := none
        responses := [("200", ⟨"", [("application/json", ⟨some (referenceTo "Page")⟩)]⟩)]
        deprecated := false }
      put := none
      post := none
      delete := none
      patch := none
      parameters := [] })]
    schemas := [
      ("Page", objectOf [("pets", { types := some (.one "array"), items := some (referenceTo "Pet") })]),
      ("Pet", objectOf [
        ("home", objectOf [("street", { types := some (.one "string") })]),
        ("labels", {
          types := some (.one "object")
          additional := some (.values { types := some (.one "string") }) })])] }

/-- Pets are ingested with a map of labels, and with a request made to list them. -/
theorem ingest_pets :
    ∃ a pet labels request, pets.ingest (some "zoo") none = .ok a ∧
      a.table.message? ".zoo.Pet" = some pet ∧ pet.field? "labels" = some labels ∧
        labels.isMap = true ∧ a.table.message? ".zoo.ListRequest" = some request := by
  have hseen : ((pets.ingest (some "zoo") none).toOption.map fun a =>
      (((a.table.message? ".zoo.Pet").bind (·.field? "labels")).map (·.isMap),
        (a.table.message? ".zoo.ListRequest").isSome)) = some (some true, true) := by
    decide +kernel
  obtain ⟨a, ha, hseen⟩ := Option.map_eq_some_iff.1 hseen
  obtain ⟨hlabels, hrequest⟩ := Prod.mk.inj hseen
  obtain ⟨labels, hfound, hmap⟩ := Option.map_eq_some_iff.1 hlabels
  obtain ⟨pet, hpet, hfield⟩ := Option.bind_eq_some_iff.1 hfound
  obtain ⟨request, hrequest⟩ := Option.isSome_iff_exists.1 hrequest
  rw [toOption_eq_some_iff] at ha
  exact ⟨a, pet, labels, request, ha, hpet, hfield, hmap, hrequest⟩

end OpenApi

theorem openApi_passes_check_pets :
    ∃ a, OpenApi.pets.ingest (some "zoo") none = .ok a ∧
      (a.checkMentions = .ok () ∧ a.Closed) ∧
        (a.enrich none).2.checkMentions = .ok () ∧ (a.enrich none).2.Closed := by
  obtain ⟨a, -, -, -, ha, -⟩ := OpenApi.ingest_pets
  exact ⟨a, ha, openApi_passes_check.1 OpenApi.pets (some "zoo") none none a ha⟩

/-! ### All formats -/

/-- What a specification gives before it is enriched is assembled. -/
theorem ofSource_assembled {i : Ingested} (h : Ingested.ofSource format source o = .ok i) :
    i.api.table.Assembled := by
  cases format with
  | protobuf =>
      change Ingested.ofDescriptors source o = .ok i at h
      unfold Ingested.ofDescriptors at h
      split at h
      · cases h
      next set hset =>
        split at h
        · cases h
        next api counts hapi =>
          split at h
          · cases h
          next composed counts' hcomposed =>
            cases h
            exact Api.composeMixins_assembled hcomposed (Descriptor.DescriptorSet.ingest_assembled hapi)
  | openApi =>
      obtain ⟨d, hd⟩ := ofDocument_eq_ok h
      exact (OpenApi.ingest_complete hd).2

/-- A model that is built is frozen, and every name and ID in it resolves: those that the check looks
at, and those that follow from how the model was made. -/
theorem build_resolves {api : Api} {report : BuildReport}
    (h : build format source o = .ok (api, report)) :
    api.table.frozen = true ∧ api.Closed ∧ api.table.Coherent := by
  obtain ⟨i, hi, hfinal, -⟩ := build_eq_ok_iff.1 h
  obtain ⟨hclosed, rfl⟩ := Api.finalize_eq_ok_iff.1 hfinal
  have hcoherent := Api.enrich_coherent (ofSource_assembled hi).coherent o.config
  exact ⟨rfl, hclosed.of_alike (SymbolTable.alike_freeze _), hcoherent.freeze⟩

/-- A declaration in JSON: its name, and what else is said of it. -/
def declared (name : String) (more : List (String × Json)) : Json :=
  .object (("name", .string name) :: more)

/-- A set of two files.  The first has a service that lists books in pages, with a request that has a group and
an identifier for clients to fill in; the second has the service of a mixin. -/
def shelfSet : Json :=
  .object [("file", .array [
    declared "a.proto" [
      ("package", .string "p"),
      ("messageType", .array [
        declared "Book" [
          ("nestedType", .array [declared "Author" []]),
          ("enumType", .array [declared "Kind" []])],
        declared "ListRequest" [
          ("field", .array [
            declared "page_size" [("type", .string "TYPE_INT32")],
            declared "page_token" [("type", .string "TYPE_STRING")],
            declared "request_id" [
              ("type", .string "TYPE_STRING"),
              ("options", .object [
                (Descriptor.fieldInfoKey, .object [("format", .string "UUID4")])])],
            declared "author" [("type", .string "TYPE_STRING"), ("oneofIndex", .nat 0)],
            declared "kind" [
              ("type", .string "TYPE_ENUM"),
              ("typeName", .string ".p.Book.Kind"),
              ("oneofIndex", .nat 0)]]),
          ("oneofDecl", .array [declared "filter" []])],
        declared "ListResponse" [
          ("field", .array [
            declared "next_page_token" [("type", .string "TYPE_STRING")],
            declared "books" [
              ("label", .string "LABEL_REPEATED"),
              ("type", .string "TYPE_MESSAGE"),
              ("typeName", .string ".p.Book")]])]]),
      ("service", .array [
        declared "Shelf" [
          ("method", .array [
            declared "List" [
              ("inputType", .string ".p.ListRequest"),
              ("outputType", .string ".p.ListResponse")]])]])],
    declared Mixin.locations.file [
      ("package", .string "google.cloud.location"),
      ("service", .array [
        declared Mixin.locations.shortName [
          ("method", .array [
            declared "GetLocation" [
              ("inputType", .string ".p.Book"),
              ("outputType", .string ".p.Book")]])]])]])]

/-- Only the first file is built for, with the mixin, and clients may fill in the identifier. -/
def shelfOptions : BuildOptions where
  targets := Composition.ownTargets
  package := none
  config := some { Composition.locationsConfig with methodSettings := [⟨"p.Shelf.List", ["request_id"]⟩] }

/-- Of a legible value, the set that its text stands for is read off the value itself. -/
theorem Descriptor.DescriptorSet.parse?_compact {j : Json} (hj : j.Legible JsonText.deepest) :
    DescriptorSet.parse? j.compact = (Node.ofJson j).read? 0 DescriptorSet.ofNode? := by
  rw [DescriptorSet.parse?, JsonText.read?, (JsonText.parse?_written hj).1, Option.bind_some]

theorem shelfSet_legible : shelfSet.Legible JsonText.deepest := by
  have hzero : ∀ levels, Json.Legible levels (.nat 0) := fun _ => .int (by decide) (by decide)
  show shelfSet.Legible 127
  simp [shelfSet, declared, hzero]

theorem build_resolves_shelf :
    ∃ api report, build .protobuf shelfSet.compact shelfOptions = .ok (api, report) ∧
      (api.table.frozen = true ∧ api.Closed ∧ api.table.Coherent) ∧
      (api.table.message? ".p.Book").map (fun m => (m.messages, m.enums)) =
        some ([".p.Book.Author"], [".p.Book.Kind"]) ∧
      (api.table.enum? ".p.Book.Kind").map (·.parent) = some (some ".p.Book") ∧
      (api.table.message? ".p.ListRequest").map (fun m => m.oneOfs.map (·.fields)) =
        some [["author", "kind"]] ∧
      (api.table.message? ".p.ListResponse").map (·.pagination) =
        some (some ⟨"next_page_token", "books"⟩) ∧
      (api.table.method? ".p.Shelf.List").map (fun m => (m.pagination, m.autoPopulated)) =
        some (some "page_token", ["request_id"]) ∧
      (api.table.method? ".p.Shelf.GetLocation").map (·.sourceServiceId) =
        some (some Mixin.locations.id) := by
  -- for any text, since this one takes the kernel too long to parse
  have hseen : ∀ text, Descriptor.DescriptorSet.parse? text =
      (Node.ofJson shelfSet).read? 0 Descriptor.DescriptorSet.ofNode? →
      ∃ built ∈ (build .protobuf text shelfOptions).toOption,
        (built.1.table.message? ".p.Book").map (fun m => (m.messages, m.enums)) =
          some ([".p.Book.Author"], [".p.Book.Kind"]) ∧
        (built.1.table.enum? ".p.Book.Kind").map (·.parent) = some (some ".p.Book") ∧
        (built.1.table.message? ".p.ListRequest").map (fun m => m.oneOfs.map (·.fields)) =
          some [["author", "kind"]] ∧
        (built.1.table.message? ".p.ListResponse").map (·.pagination) =
          some (some ⟨"next_page_token", "books"⟩) ∧
        (built.1.table.method? ".p.Shelf.List").map (fun m => (m.pagination, m.autoPopulated)) =
          some (some "page_token", ["request_id"]) ∧
        (built.1.table.method? ".p.Shelf.GetLocation").map (·.sourceServiceId) =
          some (some Mixin.locations.id) := by
    intro text htext
    simp only [build, Ingested.ofSource, Ingested.ofDescriptors, Descriptor.DescriptorSet.ofText, htext]
    decide +kernel
  obtain ⟨⟨api, report⟩, hbuilt, hseen⟩ :=
    exists_ok_of_toOption (hseen _ (Descriptor.DescriptorSet.parse?_compact shelfSet_legible))
  exact ⟨api, report, hbuilt, build_resolves hbuilt, hseen⟩

end ServiceModel
