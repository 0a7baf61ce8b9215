import ServiceModel.Proofs.Build
import ServiceModel.Proofs.OpenApi.Provenance
import Mathlib.Data.List.Nodup

/-!
The names of fields.  The properties of an object are taken once each, and so are the parameters that a
described request lacks; so the names in a message are distinct.  A request that is made for an operation
takes its parameters by name and location, and looks for one clash with its body only: two parameters can
have the same name, and so can a parameter and the body.
-/

namespace ServiceModel.OpenApi

/-! ### Merged parameters -/

/-- No two parameters have both the same name and the same location. -/
def ApartInURL (ps : List Parameter) : Prop :=
  ps.Pairwise fun p q => ¬ (p.name = q.name ∧ p.location = q.location)

theorem mem_placeParameter {p q : Parameter} {ps : List Parameter}
    (h : q ∈ placeParameter p ps) : q = p ∨ q ∈ ps := by
  induction ps with
  | nil => exact Or.inl (List.mem_singleton.1 h)
  | cons r ps ih =>
      rw [placeParameter] at h
      split at h
      · exact (List.mem_cons.1 h).imp_right (List.mem_cons_of_mem _)
      · rcases List.mem_cons.1 h with rfl | h
        · exact Or.inr List.mem_cons_self
        · exact (ih h).imp_right (List.mem_cons_of_mem _)

theorem ApartInURL.place {ps : List Parameter} (h : ApartInURL ps) (p : Parameter) :
    ApartInURL (placeParameter p ps) := by
  induction ps with
  | nil => exact List.pairwise_singleton _ _
  | cons q ps ih =>
      obtain ⟨hq, hps⟩ := List.pairwise_cons.1 h
      rw [placeParameter]
      split
      next hsame =>
        simp only [Bool.and_eq_true, decide_eq_true_eq] at hsame
        refine List.pairwise_cons.2 ⟨fun r hr => ?_, hps⟩
        rw [← hsame.1, ← hsame.2]
        exact hq r hr
      next hdiffers =>
        simp only [Bool.and_eq_true, decide_eq_true_eq] at hdiffers
        refine List.pairwise_cons.2 ⟨fun r hr => ?_, ih hps⟩
        rcases mem_placeParameter hr with rfl | hr
        · exact hdiffers
        · exact hq r hr

theorem apartInURL_mergeParameters (shared own : List Parameter) :
    ApartInURL (mergeParameters shared own) := by
  unfold mergeParameters
  generalize (shared ++ own).filter (·.isField) = ps
  have hfold : ∀ done, ApartInURL done →
      ApartInURL (ps.foldl (fun done p => placeParameter p done) done) := by
    induction ps with
    | nil => exact fun _ h => h
    | cons p ps ih => exact fun done h => ih _ (h.place p)
  exact hfold [] .nil

theorem mem_foldl_placeParameter {ps done : List Parameter} {p : Parameter}
    (h : p ∈ ps.foldl (fun done p => placeParameter p done) done) : p ∈ ps ∨ p ∈ done := by
  induction ps generalizing done with
  | nil => exact Or.inr h
  | cons q ps ih =>
      rcases ih h with h | h
      · exact Or.inl (List.mem_cons_of_mem _ h)
      · rcases mem_placeParameter h with rfl | h
        · exact Or.inl List.mem_cons_self
        · exact Or.inr h

theorem location_of_mem_mergeParameters {shared own : List Parameter} {p : Parameter}
    (h : p ∈ mergeParameters shared own) : p.location = "path" ∨ p.location = "query" := by
  rcases mem_foldl_placeParameter h with h | h
  · have hfield := (List.mem_filter.1 h).2
    simp only [Parameter.isField, Bool.and_eq_true, Bool.or_eq_true, beq_iff_eq] at hfield
    exact hfield.2
  · cases h

/-- Merged parameters have distinct names unless one in the path and one in the query share theirs. -/
theorem nodup_names_mergeParameters (shared own : List Parameter) :
    ((mergeParameters shared own).map (·.name)).Nodup ↔
      ¬ ∃ p ∈ mergeParameters shared own, ∃ q ∈ mergeParameters shared own,
        p.location = "path" ∧ q.location = "query" ∧ p.name = q.name := by
  constructor
  · rintro hdistinct ⟨p, hp, q, hq, hpath, hquery, hname⟩
    cases List.inj_on_of_nodup_map hdistinct hp hq hname
    exact absurd (hpath.symm.trans hquery) (by decide)
  · intro hnone
    refine List.pairwise_map.2 ((apartInURL_mergeParameters shared own).imp_of_mem ?_)
    intro p q hp hq hapart hname
    refine hapart ⟨hname, ?_⟩
    rcases location_of_mem_mergeParameters hp with hpath | hquery
    · rcases location_of_mem_mergeParameters hq with hpath' | hquery'
      · exact hpath.trans hpath'.symm
      · exact absurd ⟨p, hp, q, hq, hpath, hquery', hname⟩ hnone
    · rcases location_of_mem_mergeParameters hq with hpath' | hquery'
      · exact absurd ⟨q, hq, p, hp, hpath', hquery, hname.symm⟩ hnone
      · exact hquery.trans hquery'.symm

/-! ### Requests that are made -/

namespace Endpoint

/-- The names that an operation gives the fields of its request clash: those of a parameter in the path
and one in the query, or those of its body and a parameter, where both names for a body are taken. -/
def Clashes (e : Endpoint) : Prop :=
  (∃ p ∈ e.parameters, ∃ q ∈ e.parameters,
      p.location = "path" ∧ q.location = "query" ∧ p.name = q.name) ∨
    e.bodyPart?.isSome = true ∧ (∃ p ∈ e.parameters, p.name = "requestBody") ∧
      ∃ p ∈ e.parameters, p.name = "openapiRequestBody"

/-- An operation has a request with an ID made for it. -/
def Composes (s : Setting) (e : Endpoint) (id : String) : Prop :=
  ∃ method, e.method? = some method ∧ Keyed.get? (method ++ "Request") s.schemas = none ∧
    id = s.id (method ++ "Request")

theorem name_bodyPart? {e : Endpoint} {part : Part} (h : e.bodyPart? = some part) :
    part.name = bodyFieldName e.parameters := by
  unfold bodyPart? at h
  split at h
  · cases h
    rfl
  · cases h

end Endpoint

theorem bodyFieldName_eq (ps : List Parameter) :
    bodyFieldName ps =
      if "requestBody" ∈ ps.map (·.name) then "openapiRequestBody" else "requestBody" := by
  have htaken : ps.any (·.name == "requestBody") = true ↔ "requestBody" ∈ ps.map (·.name) := by
    rw [List.any_eq_true, List.mem_map]
    simp only [beq_iff_eq]
  exact if_congr htaken rfl rfl

/-- The name for a body is that of a parameter only if both names for bodies are. -/
theorem bodyFieldName_mem_iff {ps : List Parameter} :
    bodyFieldName ps ∈ ps.map (·.name) ↔
      (∃ p ∈ ps, p.name = "requestBody") ∧ ∃ p ∈ ps, p.name = "openapiRequestBody" := by
  rw [bodyFieldName_eq, ← List.mem_map, ← List.mem_map]
  split
  next htaken => exact (and_iff_right htaken).symm
  next hfree => exact iff_of_false hfree fun h => hfree h.1

/-- The parts of a request have distinct names exactly if the operation has no clash. -/
theorem nodup_requestParts_iff (e : Endpoint) :
    (e.requestParts.map (·.name)).Nodup ↔ ¬ e.Clashes := by
  have hparameters : (e.parameters.map (·.name)).Nodup ↔ _ :=
    nodup_names_mergeParameters e.shared e.operation.parameters
  have hnames : (e.parameters.map (·.part)).map (·.name) = e.parameters.map (·.name) := by
    rw [List.map_map]
    rfl
  rw [Endpoint.requestParts, List.map_append, hnames, Endpoint.Clashes, not_or]
  cases hbody : e.bodyPart? with
  | none =>
      rw [Option.toList_none, List.map_nil, List.append_nil, hparameters]
      exact (and_iff_left (by simp)).symm
  | some part =>
      have hname := Endpoint.name_bodyPart? hbody
      rw [Option.toList_some, List.map_singleton, hname, List.nodup_append_comm,
        List.singleton_append, List.nodup_cons, hparameters, bodyFieldName_mem_iff, and_comm]
      exact and_congr_right fun _ => not_congr (and_iff_right rfl).symm

/-! ### Distinct names -/

theorem nodup_parts (flat : Flattened) : (flat.parts.map (·.name)).Nodup :=
  Part.nodup_names_unseen _ List.nodup_nil

theorem Setting.id_inj {s : Setting} {name name' : String} (h : s.id name = s.id name') :
    name = name' := by
  simpa [Setting.id] using h

/-- What a message is made of has distinct names, unless it is the request made for an operation whose
names clash. -/
theorem Origin.nodup_or_clashes {s : Setting} {es : List Endpoint} {id : String}
    {parts : List Part} (h : Origin s es id parts) :
    (parts.map (·.name)).Nodup ∨
      ∃ e ∈ es, e.Composes s id ∧ e.Clashes ∧ parts = e.requestParts := by
  induction h with
  | component | nested | response => exact Or.inl (nodup_parts _)
  | @composed e method he hmethod hfree =>
      rcases Classical.em e.Clashes with hclash | hclash
      · exact Or.inr ⟨e, he, ⟨method, hmethod, hfree, rfl⟩, hclash, rfl⟩
      · exact Or.inl ((nodup_requestParts_iff e).2 hclash)
  | described he hmethod hthere _ ih =>
      rcases ih with hdistinct | ⟨e, -, ⟨method', -, hfree, hid⟩, -⟩
      · rw [List.map_append]
        exact Or.inl (Part.nodup_names_unseen _ hdistinct)
      · rw [Setting.id_inj hid, hfree] at hthere
        cases hthere

/-! ### Messages of a model -/

section Messages

variable {s : Setting} {es : List Endpoint} {m : Message}

theorem entryNames (value : FieldType) :
    (entryMessage value).fieldNames = ["key", "value"] := rfl

theorem fieldIds_entryMessage (value : FieldType) :
    ∀ f ∈ (entryMessage value).fields, f.id = entryId value ++ "." ++ f.name := by
  have hkey : ".key" = "." ++ "key" := by decide
  have hvalue : ".value" = "." ++ "value" := by decide
  intro f hf
  simp only [entryMessage, List.mem_cons, List.not_mem_nil, or_false] at hf
  rcases hf with rfl | rfl
  · rw [String.append_assoc]
    exact congrArg (entryId value ++ ·) hkey
  · rw [String.append_assoc]
    exact congrArg (entryId value ++ ·) hvalue

/-- Every field has an ID made of that of its message and its own name. -/
theorem Source.fieldIds (h : Source s es m) : ∀ f ∈ m.fields, f.id = m.id ++ "." ++ f.name := by
  intro f hf
  cases h with
  | wellKnown _ _ hempty =>
      rw [hempty] at hf
      cases hf
  | entry => exact fieldIds_entryMessage _ f hf
  | parts _ hfields _ =>
      obtain ⟨part, -, hdescribes⟩ := exists_mem_left hfields hf
      rw [hdescribes.id, hdescribes.name]

theorem Source.nodup_or_clashes (h : Source s es m) :
    m.fieldNames.Nodup ∨ ∃ e ∈ es, e.Composes s m.id ∧ e.Clashes ∧
      m.fieldNames = e.requestParts.map (·.name) := by
  cases h with
  | wellKnown _ _ hempty =>
      rw [Message.fieldNames, hempty]
      exact Or.inl List.nodup_nil
  | entry =>
      rw [entryNames]
      exact Or.inl (by decide)
  | parts horigin hfields _ =>
      rw [Message.fieldNames, names_of_describes hfields]
      refine horigin.nodup_or_clashes.imp_right ?_
      rintro ⟨e, he, hcomposes, hclash, rfl⟩
      exact ⟨e, he, hcomposes, hclash, rfl⟩

end Messages

/-- Every field of a model has an ID made of that of its message and its own name.  These are distinct in
every message but the requests made for operations whose names clash, and there they are not. -/
theorem ingest_fieldNames {d : Document} {asked : Option String} {config : Option ServiceConfig}
    {a : Api} {id : String} {m : Message} (h : d.ingest asked config = .ok a)
    (hm : a.table.message? id = some m) :
    (∀ f ∈ m.fields, f.id = id ++ "." ++ f.name) ∧
      (m.fieldNames.Nodup ∧ (m.fields.map (·.id)).Nodup ∨
        ¬ m.fieldNames.Nodup ∧ ∃ e ∈ d.endpoints, e.Composes (d.setting asked config) id ∧
          e.Clashes ∧ m.fieldNames = e.requestParts.map (·.name)) := by
  obtain ⟨rfl, hsource⟩ := ingest_traced h id m hm
  refine ⟨hsource.fieldIds, ?_⟩
  rcases hsource.nodup_or_clashes with hdistinct | ⟨e, he, hcomposes, hclash, hnames⟩
  · refine Or.inl ⟨hdistinct, ?_⟩
    have hids : m.fields.map (·.id) = m.fieldNames.map fun name => m.id ++ "." ++ name := by
      rw [Message.fieldNames, List.map_map]
      exact List.map_congr_left hsource.fieldIds
    rw [hids]
    refine hdistinct.map fun name name' heq => ?_
    simpa using heq
  · refine Or.inr ⟨fun hdistinct => ?_, e, he, hcomposes, hclash, hnames⟩
    rw [hnames] at hdistinct
    exact (nodup_requestParts_iff e).1 hdistinct hclash

/-- The request made to list pets is one of those whose fields have distinct names. -/
theorem ingest_fieldNames_pets :
    ∃ a m, pets.ingest (some "zoo") none = .ok a ∧
      a.table.message? ".zoo.ListRequest" = some m ∧
      (∀ f ∈ m.fields, f.id = ".zoo.ListRequest" ++ "." ++ f.name) ∧
        (m.fieldNames.Nodup ∧ (m.fields.map (·.id)).Nodup ∨
          ¬ m.fieldNames.Nodup ∧ ∃ e ∈ pets.endpoints,
            e.Composes (pets.setting (some "zoo") none) ".zoo.ListRequest" ∧ e.Clashes ∧
              m.fieldNames = e.requestParts.map (·.name)) := by
  obtain ⟨a, -, -, m, ha, -, -, -, hm⟩ := ingest_pets
  exact ⟨a, m, ha, hm, ingest_fieldNames ha hm⟩

/-- A parameter that is a string. -/
def textParameter (name location : String) : Parameter :=
  ⟨name, location, location == "path", "", false, some { types := some (.one "string") }⟩

/-- A document of an operation whose path and query have a parameter of the same name. -/
def twoIds : Document :=
  { openapi := "3.0.0"
    info := ⟨"Things", "", "1"⟩
    servers := []
    paths := [("/v1/things/\x7bid\x7d", {
      get := some {
        id := some "get"
        summary := ""
        description := ""
        parameters := [textParameter "id" "path", textParameter "id" "query"]
        requestBody := none
        responses := []
        deprecated := false }
      put := none
      post := none
      delete := none
      patch := none
      parameters := [] })]
    schemas := [] }

/-- A request that is made of two parameters of one name has two fields of one name and one ID. -/
theorem ingest_twoIds :
    ∃ a m, twoIds.ingest none none = .ok a ∧ a.table.message? ".openapi.GetRequest" = some m ∧
      ¬ m.fieldNames.Nodup ∧ ¬ (m.fields.map (·.id)).Nodup := by
  have hseen : ((twoIds.ingest none none).toOption.bind fun a =>
      (a.table.message? ".openapi.GetRequest").map fun m =>
        (m.fieldNames, m.fields.map (·.id))) =
      some (["id", "id"], [".openapi.GetRequest.id", ".openapi.GetRequest.id"]) := by
    decide +kernel
  obtain ⟨a, ha, hseen⟩ := Option.bind_eq_some_iff.1 hseen
  obtain ⟨m, hm, hseen⟩ := Option.map_eq_some_iff.1 hseen
  obtain ⟨hnames, hids⟩ := Prod.mk.inj hseen
  rw [toOption_eq_some_iff] at ha
  refine ⟨a, m, ha, hm, ?_, ?_⟩
  · rw [hnames]
    decide
  · rw [hids]
    decide

end ServiceModel.OpenApi
