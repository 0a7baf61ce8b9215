import ServiceModel.Proofs.Build
import ServiceModel.Proofs.OpenApi.Provenance

/-!
Maps and their entries.  Every map of a model refers to an entry that has a key and a value, and the value
has the type that the schema of the values denotes.  All maps whose values have one type share an entry,
though, whatever the format of the values, so the format is that of one of these maps.
-/

namespace ServiceModel

/-- The type of a field. -/
def Field.type (f : Field) : OpenApi.FieldType :=
  ⟨f.wireType, f.typeId, f.repeated, f.isMap, f.format⟩

/-- A message is the entry of maps with values of a type: its fields are `key`, a single string, and
`value`, of that type. -/
def Message.EntryOf (value : OpenApi.FieldType) (e : Message) : Prop :=
  e.isMap = true ∧
    e.fields.map (fun f => (f.name, f.type)) = [("key", { wireType := .string }), ("value", value)]

namespace OpenApi

/-! ### IDs -/

/-- Whatever comes from a document has an ID in its package. -/
theorem Origin.id_prefix {s : Setting} {es : List Endpoint} {id : String} {parts : List Part}
    (h : Origin s es id parts) : ("." ++ s.package ++ ".").toList <+: id.toList := by
  have htop : ∀ name, ("." ++ s.package ++ ".").toList <+: (s.id name).toList := by
    intro name
    rw [Setting.id, String.toList_append (s := "." ++ s.package ++ ".")]
    exact List.prefix_append _ _
  induction h with
  | component | composed | described | response => exact htop _
  | nested _ _ _ _ ih =>
      refine ih.trans ?_
      rw [String.toList_append, String.toList_append, List.append_assoc]
      exact List.prefix_append _ _

/-- What the names of entries begin with. -/
def entryLead : String := "$map<string, "

/-- Entries have IDs of their own, unless the package is named like one. -/
theorem ne_entryId_of_package {s : Setting} {id : String}
    (hid : ("." ++ s.package ++ ".").toList <+: id.toList)
    (hpackage : ¬ entryLead.toList <+: s.package.toList) (value : FieldType) : id ≠ entryId value := by
  rintro rfl
  have hprefix : s.package.toList ++ ['.'] <+: entryLead.toList ++ value.entryKey.toList ++ ['>'] := by
    simpa [entryId, entryName, entryLead] using hid
  rw [List.append_assoc] at hprefix
  have hdot : '.' ∉ entryLead.toList := by decide
  rcases List.prefix_or_prefix_of_prefix hprefix (List.prefix_append entryLead.toList _) with
    hshort | hlong
  · exact hdot (hshort.subset (by simp))
  · rcases List.prefix_concat_iff.1 hlong with heq | hlead
    · exact hdot (heq ▸ by simp)
    · exact hpackage hlead

theorem wellKnownId_ne_entryId (name : String) (value : FieldType) :
    SymbolTable.wellKnownId name ≠ entryId value := by
  intro h
  have hsecond := congrArg (fun id : String => id.toList[1]?) h
  simp [SymbolTable.wellKnownId, SymbolTable.wellKnownPackage, entryId, entryName] at hsecond

/-! ### Fields and entries -/

theorem entryOf_entryMessage {value : FieldType} (hsingle : value.repeated = false)
    (hflat : value.isMap = false) : (entryMessage value).EntryOf value := by
  cases value
  cases hsingle
  cases hflat
  exact ⟨rfl, rfl⟩

theorem isMap_eq_false_of_entryMessage {value : FieldType} {f : Field}
    (h : f ∈ (entryMessage value).fields) : f.isMap = false := by
  simp only [entryMessage, List.mem_cons, List.not_mem_nil, or_false] at h
  rcases h with rfl | rfl <;> rfl

section Maps

variable {s : Setting} {es : List Endpoint} {t : SymbolTable}

/-- A field that is a map is described by a part that is one. -/
theorem Traced.mapped {id : String} {m : Message} {f : Field} (ht : Traced s es t)
    (hm : t.message? id = some m) (hf : f ∈ m.fields) (hmap : f.isMap = true) :
    ∃ part value, Mapped s es m.id part value ∧ Describes s m.id part f ∧
      f.type = { FieldType.message (entryId value) with isMap := true } := by
  cases (ht id m hm).2 with
  | wellKnown _ _ hempty =>
      rw [hempty] at hf
      cases hf
  | entry => exact absurd (hmap.symm.trans (isMap_eq_false_of_entryMessage hf)) (by decide)
  | parts horigin hfields _ =>
      obtain ⟨part, hpart, hdescribes⟩ := exists_mem_left hfields hf
      obtain ⟨type, hdenotes, heq⟩ := hdescribes
      have htype : f.type = type := by
        rw [heq]
        rfl
      have hisMap : type.isMap = true := by
        rw [← htype]
        exact hmap
      obtain ⟨value, hvalue, rfl⟩ := hdenotes.mapOf hisMap
      exact ⟨part, value, ⟨_, horigin, hpart, hvalue⟩, ⟨_, hdenotes, heq⟩, htype⟩

/-- The message under the ID of an entry is the entry of a map whose values differ in nothing but their
format, and only if they are strings. -/
theorem Traced.entry {ownerId : String} {part : Part} {value : FieldType} {e : Message}
    (ht : Traced s es t) (hpackage : ¬ entryLead.toList <+: s.package.toList)
    (hmap : Mapped s es ownerId part value) (he : t.message? (entryId value) = some e) :
    e.EntryOf value ∨ value.wireType = .string ∧ ∃ ownerId' part' format,
      Mapped s es ownerId' part' { value with format } ∧ e.EntryOf { value with format } := by
  obtain ⟨hid, hsource⟩ := ht _ e he
  cases hsource with
  | wellKnown _ hwellKnown _ =>
      exact absurd (hwellKnown.symm.trans hid) (wellKnownId_ne_entryId _ _)
  | parts horigin _ _ => exact absurd hid (ne_entryId_of_package horigin.id_prefix hpackage _)
  | @entry ownerId' part' shown hother =>
      -- the entry was made for `shown`, and the ID says all of it but its format
      obtain ⟨_, hvalue⟩ := hmap.valueType
      obtain ⟨_, hshown⟩ := hother.valueType
      have hentry := entryOf_entryMessage hshown.single.1 hshown.single.2.1
      obtain ⟨hshape, hdiffers⟩ := hshown.eq_of_entryId hvalue hid
      rcases hdiffers with rfl | hstring
      · exact Or.inl hentry
      · refine Or.inr ⟨by rwa [hshape] at hstring, ownerId', part', shown.format, ?_, ?_⟩
        · rwa [← hshape]
        · rwa [← hshape]

end Maps

/-- Every map of the model of a document refers to an entry whose value has the type that the schema of
its values denotes; if that is a string, the format is that of the values of some map of strings. -/
theorem ingest_maps {d : Document} {asked : Option String} {config : Option ServiceConfig}
    {a : Api} {id : String} {m : Message} {f : Field} (h : d.ingest asked config = .ok a)
    (hpackage : ¬ entryLead.toList <+: (packageName asked config).toList)
    (hm : a.table.message? id = some m) (hf : f ∈ m.fields) (hmap : f.isMap = true) :
    ∃ part value, Mapped (d.setting asked config) d.endpoints m.id part value ∧
      Describes (d.setting asked config) m.id part f ∧
      f.type = { FieldType.message (entryId value) with isMap := true } ∧
      ∃ e, a.table.message? f.typeId = some e ∧
        (e.EntryOf value ∨ value.wireType = .string ∧ ∃ ownerId other format,
          Mapped (d.setting asked config) d.endpoints ownerId other { value with format } ∧
            e.EntryOf { value with format }) := by
  have htraced := ingest_traced h
  obtain ⟨part, value, hmapped, hdescribes, htype⟩ := htraced.mapped hm hf hmap
  have hmessage : f.wireType = .message := congrArg FieldType.wireType htype
  have hid : f.typeId = entryId value := congrArg FieldType.typeId htype
  have hthere : a.table.messages.contains f.typeId = true :=
    (((ingest_complete h).1.messages id m hm).types f hf).1 (Or.inl hmessage)
  obtain ⟨e, he⟩ := Catalog.contains_iff.1 hthere
  refine ⟨part, value, hmapped, hdescribes, htype, e, he, ?_⟩
  exact htraced.entry hpackage hmapped (hid ▸ he)

theorem ingest_maps_pets :
    ∃ a m f, pets.ingest (some "zoo") none = .ok a ∧ ¬ entryLead.toList <+: "zoo".toList ∧
      a.table.message? ".zoo.Pet" = some m ∧ m.field? "labels" = some f ∧ f.isMap = true ∧
      ∃ part value, Mapped (pets.setting (some "zoo") none) pets.endpoints m.id part value ∧
        Describes (pets.setting (some "zoo") none) m.id part f ∧
        f.type = { FieldType.message (entryId value) with isMap := true } ∧
        ∃ e, a.table.message? f.typeId = some e ∧
          (e.EntryOf value ∨ value.wireType = .string ∧ ∃ ownerId other format,
            Mapped (pets.setting (some "zoo") none) pets.endpoints ownerId other
              { value with format } ∧ e.EntryOf { value with format }) := by
  obtain ⟨a, m, f, -, ha, hm, hf, hmap, -⟩ := ingest_pets
  have hpackage : ¬ entryLead.toList <+: "zoo".toList := by decide
  exact ⟨a, m, f, ha, hpackage, hm, hf, hmap,
    ingest_maps ha hpackage hm (List.mem_of_find?_eq_some hf) hmap⟩

/-- A map of strings in a format. -/
def mapOfStrings (format : Option String) : Schema :=
  { types := some (.one "object")
    additional := some (.values { types := some (.one "string"), format }) }

/-- A document of an object with two maps of strings, of which the first takes UUIDs. -/
def twoMaps : Document :=
  { openapi := "3.0.0"
    info := ⟨"Maps", "", "1"⟩
    servers := []
    paths := []
    schemas := [("M", objectOf [("tokens", mapOfStrings (some "uuid")), ("labels", mapOfStrings none)])] }

/-- A map of plain strings shares the entry of a map of UUIDs that is converted before it, and its values
are UUIDs in the model. -/
theorem ingest_twoMaps :
    ∃ a m f e, twoMaps.ingest none none = .ok a ∧ a.table.message? ".openapi.M" = some m ∧
      m.field? "labels" = some f ∧ f.isMap = true ∧
      Mapped (twoMaps.setting none none) twoMaps.endpoints m.id ⟨"labels", mapOfStrings none, false⟩
        { wireType := .string } ∧
      a.table.message? f.typeId = some e ∧ ¬ e.EntryOf { wireType := .string } ∧
      e.EntryOf { wireType := .string, format := some .uuid4 } := by
  have hseen : ((twoMaps.ingest none none).toOption.bind fun a =>
      (a.table.message? ".openapi.M").bind fun m => (m.field? "labels").bind fun f =>
        (a.table.message? f.typeId).map fun e =>
          (f.isMap, e.isMap, e.fields.map fun g => (g.name, g.type))) =
      some (true, true, [("key", { wireType := .string }),
        ("value", { wireType := .string, format := some .uuid4 })]) := by decide +kernel
  obtain ⟨a, ha, hseen⟩ := Option.bind_eq_some_iff.1 hseen
  obtain ⟨m, hm, hseen⟩ := Option.bind_eq_some_iff.1 hseen
  obtain ⟨f, hf, hseen⟩ := Option.bind_eq_some_iff.1 hseen
  obtain ⟨e, he, hseen⟩ := Option.map_eq_some_iff.1 hseen
  simp only [Prod.mk.injEq] at hseen
  obtain ⟨hmap, hisMap, hfields⟩ := hseen
  rw [toOption_eq_some_iff] at ha
  have hvalues : ValueType (twoMaps.setting none none) m.id "labels"
      (.values { types := some (.one "string") }) { wireType := .string } :=
    .typed rfl (.string ⟨⟨rfl, by simp⟩, by decide, rfl⟩ rfl) rfl rfl
  have hmapOf : MapOf (twoMaps.setting none none) m.id "labels" (mapOfStrings none)
      { wireType := .string } :=
    ⟨_, _, .self, ⟨⟨rfl, by simp [mapOfStrings]⟩, by decide, rfl, rfl⟩, hvalues⟩
  have horigin : Origin (twoMaps.setting none none) twoMaps.endpoints ".openapi.M"
      (Flattened.own (objectOf [("tokens", mapOfStrings (some "uuid")),
        ("labels", mapOfStrings none)])).parts :=
    @Origin.component _ _ "M" _ _ List.mem_cons_self rfl rfl
  have hmapped : Mapped (twoMaps.setting none none) twoMaps.endpoints m.id
      ⟨"labels", mapOfStrings none, false⟩ { wireType := .string } :=
    ⟨_, (ingest_traced ha _ m hm).1 ▸ horigin, .tail _ (.head _), hmapOf⟩
  refine ⟨a, m, f, e, ha, hm, hf, hmap, hmapped, he, ?_, hisMap, hfields⟩
  rintro ⟨-, hplain⟩
  rw [hfields] at hplain
  exact absurd hplain (by decide)

end OpenApi

end ServiceModel
