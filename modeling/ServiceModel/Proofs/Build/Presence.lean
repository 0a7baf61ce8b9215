import ServiceModel.Proofs.Build
import ServiceModel.Proofs.Descriptor.LastDeclaration
import ServiceModel.Proofs.OpenApi.Provenance
import ServiceModel.Proofs.Text.Split

/-!
What fields say about presence.  A field holds one value, a list, or a map, and only a single value can be
missing.  In descriptor sets it is the target of a field that makes a map of a list, and whether it does is
settled before any field is resolved; in documents it is the schema.
-/

namespace ServiceModel

open Descriptor (DescriptorSet Targets IngestionCounts)

/-! ### Descriptor sets -/

namespace Descriptor

variable {t t' : SymbolTable} {f : FileDescriptor}

/-- A field that says of lists, maps, presence and its target what its descriptor says, where `t` has the
message that it may refer to. -/
structure Flagged (t : SymbolTable) (f : FileDescriptor) (d : FieldDescriptor) (field : Field) :
    Prop where
  name : field.name = d.name
  wireType : WireType.ofDescriptor? d.typeName = some field.wireType
  isMap : field.isMap = true ↔ d.label = "LABEL_REPEATED" ∧ field.wireType = .message ∧
    ∃ m, t.message? field.typeId = some m ∧ m.isMap = true
  repeated : field.repeated = true ↔ d.label = "LABEL_REPEATED" ∧ field.isMap = false
  many : field.repeated = true ∨ field.isMap = true → field.optional = false
  message : field.repeated = false → field.isMap = false →
    field.wireType = .message ∨ field.wireType = .group → field.optional = true
  single : field.repeated = false → field.isMap = false →
    field.wireType ≠ .message → field.wireType ≠ .group →
      (field.optional = true ↔ d.proto3Optional = true ∨
        f.edition ≠ "proto3" ∧ (d.label = "LABEL_OPTIONAL" ∨ d.label = ""))
  scalar : field.typeId = "" ↔ field.wireType.isReference = false
  dotted : field.wireType.isReference = true → ∃ rest, field.typeId = "." ++ rest

theorem exists_typeIdOf (name : String) : ∃ rest, typeIdOf name = "." ++ rest := by
  unfold typeIdOf
  split
  next hlead => exact Text.hasLead_eq_true_iff.1 hlead
  next => exact ⟨name, rfl⟩

theorem resolveField_flagged {id : String} {d : FieldDescriptor} {field : Field}
    (h : resolveField t f id d = .ok field) : Flagged t f d field := by
  unfold resolveField at h
  split at h
  · cases h
  next w hw =>
    cases h
    have hlist : d.isRepeated = true ↔ d.label = "LABEL_REPEATED" := by
      simp [FieldDescriptor.isRepeated]
    -- a field that is neither a list nor a map has no repeated label
    have hsingle : ∀ isMap : Bool, (d.isRepeated && !isMap) = false → isMap = false →
        d.isRepeated = false := by
      rintro _ h rfl
      simpa using h
    obtain ⟨rest, hrest⟩ := exists_typeIdOf d.refersTo
    refine ⟨rfl, hw, ?_, ?_, ?_, fun hlist hmap hpresence => ?_, fun hlist hmap hm hg => ?_, ?_, ?_⟩
    · simp only [Bool.and_eq_true, beq_iff_eq, hlist, Option.any_eq_true]
      tauto
    · simp only [Bool.and_eq_true, hlist, Bool.not_eq_true']
    · intro hmany
      have hrepeated : d.isRepeated = true := by
        simp only [Bool.and_eq_true] at hmany
        exact hmany.elim (·.1) (·.1.2)
      simp [hrepeated]
    · have hown : hasOwnPresence w = true := by
        simpa [hasOwnPresence, Field.new] using hpresence
      simp [hsingle _ hlist hmap, hown]
    · have hown : hasOwnPresence w = false := by
        simpa [hasOwnPresence] using ⟨hm, hg⟩
      simp [hsingle _ hlist hmap, hown, FileDescriptor.hasExplicitPresence,
        FieldDescriptor.isLabelOptional]
    · cases hreference : w.isReference with
      | false => simp [Field.new, hreference]
      | true => simp [Field.new, hreference, hrest]
    · intro hreference
      exact ⟨rest, (if_pos hreference).trans hrest⟩

theorem Flagged.congr {d : FieldDescriptor} {field : Field} (h : Flagged t f d field)
    (ht : SameMaps t t') : Flagged t' f d field := by
  refine { h with isMap := h.isMap.trans ?_ }
  have hmap : ∀ m? : Option Message, (∃ m, m? = some m ∧ m.isMap = true) ↔
      m?.map (·.isMap) = some true := fun m? => by simp [Option.map_eq_some_iff]
  rw [hmap, hmap, ht]

theorem resolveFields_flagged {s : MessageSite} {i : Nat} {ds : List FieldDescriptor}
    {fields : List Field} (h : resolveFields t f s i ds = .ok fields) :
    List.Forall₂ (Flagged t f) ds fields := by
  have hfields := resolveFields_eq_ok h
  rw [← List.zipIdx_map_fst i ds, List.forall₂_map_left_iff]
  refine hfields.imp fun x field hfield => ?_
  obtain ⟨plain, hplain, rfl⟩ := hfield
  exact { resolveField_flagged hplain with }

/-- A message that a set declares has, in the model, one field for each that its last declaration has, and
each is flagged as it is declared. -/
theorem DescriptorSet.ingest_flagged {s : DescriptorSet} {o : Targets}
    {config : Option ServiceConfig} {a : Api} {counts : IngestionCounts} {site : MessageSite}
    (h : s.ingest o config = .ok (a, counts)) (hs : s.LastDeclares f site) :
    ∃ m, a.table.message? site.id = some m ∧
      List.Forall₂ (Flagged a.table f) site.descriptor.fields m.fields := by
  obtain ⟨u, hingests⟩ := ingest_ingests h
  obtain ⟨⟨fields, hfields⟩, hm⟩ := hs.message?_resolveMessages hingests.resolved
  refine ⟨site.finished (s.register .wellKnown) f, ?_, ?_⟩
  · rw [SymbolTable.message?, hingests.messages]
    exact hm
  · rw [MessageSite.finished, hfields]
    exact (resolveFields_flagged hfields).imp fun d field hfield =>
      hfield.congr hingests.sameHeads.sameMaps

end Descriptor

/-! ### Documents -/

namespace OpenApi

variable {s : Setting} {es : List Endpoint} {ownerId : String}

/-- A field holds one value, a list or a map, and only the first can be missing. -/
structure OneShape (f : Field) : Prop where
  exclusive : ¬ (f.repeated = true ∧ f.isMap = true)
  many : f.repeated = true ∨ f.isMap = true → f.optional = false

/-- Among the fields with one value, messages can be missing. -/
def OptionalMessage (f : Field) : Prop :=
  f.wireType = .message → f.repeated = false → f.isMap = false → f.optional = true

/-- No schema denotes both a list and a map. -/
theorem Denotes.exclusive {name : String} {schema : Schema} {type : FieldType}
    (h : Denotes s ownerId name schema type) (hmap : type.isMap = true) : type.repeated = false := by
  obtain ⟨value, -, rfl⟩ := h.mapOf hmap
  rfl

theorem Describes.oneShape {part : Part} {f : Field} (h : Describes s ownerId part f) :
    OneShape f ∧ OptionalMessage f := by
  obtain ⟨type, hdenotes, heq⟩ := h
  have hrepeated : f.repeated = type.repeated := by rw [heq]; rfl
  have hmap : f.isMap = type.isMap := by rw [heq]; rfl
  have hwire : f.wireType = type.wireType := by rw [heq]; rfl
  have hoptional : f.optional =
      (!type.repeated && !type.isMap && (!part.required || type.wireType == .message)) := by
    rw [heq]
    rfl
  refine ⟨⟨fun hboth => ?_, fun hmany => ?_⟩, fun hmessage hlist hflat => ?_⟩
  · rw [hrepeated, hmap] at hboth
    rw [hdenotes.exclusive hboth.2] at hboth
    cases hboth.1
  · rw [hrepeated, hmap] at hmany
    rw [hoptional]
    rcases hmany with hmany | hmany <;> simp [hmany]
  · rw [hwire] at hmessage
    rw [hrepeated] at hlist
    rw [hmap] at hflat
    rw [hoptional, hlist, hflat, hmessage]
    simp

theorem Source.oneShape {m : Message} (h : Source s es m) :
    (∀ f ∈ m.fields, OneShape f) ∧
      ((∃ value, m = entryMessage value) ∨ ∀ f ∈ m.fields, OptionalMessage f) := by
  cases h with
  | wellKnown _ _ hempty =>
      rw [hempty]
      exact ⟨fun f hf => absurd hf List.not_mem_nil, Or.inr fun f hf => absurd hf List.not_mem_nil⟩
  | @entry ownerId part value _ =>
      refine ⟨fun f hf => ?_, Or.inl ⟨value, rfl⟩⟩
      have hplain : f.repeated = false ∧ f.isMap = false := by
        simp only [entryMessage, List.mem_cons, List.not_mem_nil, or_false] at hf
        rcases hf with rfl | rfl <;> exact ⟨rfl, rfl⟩
      exact ⟨by simp [hplain], by simp [hplain]⟩
  | parts _ hfields _ =>
      have hshape : ∀ f ∈ m.fields, OneShape f ∧ OptionalMessage f := fun f hf =>
        (exists_mem_left hfields hf).elim fun part hpart => hpart.2.oneShape
      exact ⟨fun f hf => (hshape f hf).1, Or.inr fun f hf => (hshape f hf).2⟩

end OpenApi

/-! ### Both formats -/

/-- Lists, maps and presence agree in every model: with the declarations of a descriptor set, and among
themselves in the fields of a document.  There only the entries of maps have messages that cannot be
missing. -/
theorem ingest_presence :
    (∀ (s : DescriptorSet) (o : Targets) (config : Option ServiceConfig) (a : Api)
        (counts : IngestionCounts), s.ingest o config = .ok (a, counts) →
      ∀ f ∈ s.files, ∀ site ∈ f.messageSites, ∃ g last m, s.LastDeclares g last ∧
        last.id = site.id ∧ a.table.message? site.id = some m ∧
          List.Forall₂ (Descriptor.Flagged a.table g) last.descriptor.fields m.fields) ∧
    ∀ (d : OpenApi.Document) (asked : Option String) (config : Option ServiceConfig) (a : Api),
      d.ingest asked config = .ok a → ∀ id m, a.table.message? id = some m →
        (∀ f ∈ m.fields, OpenApi.OneShape f) ∧
          ((∃ value, m = OpenApi.entryMessage value) ∨
            ∀ f ∈ m.fields, OpenApi.OptionalMessage f) := by
  constructor
  · intro s o config a counts h f hf site hsite
    obtain ⟨g, last, hlast, hid⟩ := DescriptorSet.exists_lastDeclares hf hsite
    obtain ⟨m, hm, hfields⟩ := DescriptorSet.ingest_flagged h hlast
    exact ⟨g, last, m, hlast, hid, hid ▸ hm, hfields⟩
  · intro d asked config a h id m hm
    exact (OpenApi.ingest_traced h id m hm).2.oneShape

/-- The labels of a shelf are a map, which the file that declares their entries says; those of a pet are one
by their schema. -/
theorem ingest_presence_labels :
    (∃ a counts,
      (DescriptorSet.mk [Descriptor.labelledFile, Descriptor.labelFile]).ingest ⟨[], none⟩ none =
        .ok (a, counts) ∧
      ∀ f ∈ [Descriptor.labelledFile, Descriptor.labelFile], ∀ site ∈ f.messageSites,
        ∃ g last m,
          (DescriptorSet.mk [Descriptor.labelledFile, Descriptor.labelFile]).LastDeclares g last ∧
          last.id = site.id ∧ a.table.message? site.id = some m ∧
            List.Forall₂ (Descriptor.Flagged a.table g) last.descriptor.fields m.fields) ∧
    ∃ a, OpenApi.pets.ingest (some "zoo") none = .ok a ∧
      ∀ id m, a.table.message? id = some m →
        (∀ f ∈ m.fields, OpenApi.OneShape f) ∧
          ((∃ value, m = OpenApi.entryMessage value) ∨
            ∀ f ∈ m.fields, OpenApi.OptionalMessage f) := by
  constructor
  · have hok : ((DescriptorSet.mk [Descriptor.labelledFile, Descriptor.labelFile]).ingest
        ⟨[], none⟩ none).toOption.isSome = true := by decide +kernel
    obtain ⟨⟨a, counts⟩, h⟩ := Option.isSome_iff_exists.1 hok
    rw [toOption_eq_some_iff] at h
    exact ⟨a, counts, h, ingest_presence.1 _ _ _ _ _ h⟩
  · obtain ⟨a, _, _, _, ha, -⟩ := OpenApi.ingest_pets
    exact ⟨a, ha, ingest_presence.2 _ _ _ _ ha⟩

end ServiceModel
