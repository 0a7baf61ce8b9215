import ServiceModel.Proofs.OpenApi.Filling
import ServiceModel.Proofs.OpenApi.Meaning
import Mathlib.Data.List.Forall2

/-!
Where messages come from.  A message of a document is made of parts: the properties of an object, or the
parameters and the body of an operation.  Each part describes one field, in their order.  Only the entries
of maps are made of something else, which is the type of the values of some map that is a part.
-/

namespace ServiceModel.OpenApi

/-! ### Parts -/

/-- What a message has a field for. -/
structure Part where
  name : String
  schema : Schema
  required : Bool

namespace Part

/-- The parts whose names are none of those given, the first of each name. -/
def unseen (names : List String) : List Part → List Part
  | [] => []
  | p :: ps =>
      if names.contains p.name then unseen names ps else p :: unseen (names ++ [p.name]) ps

/-- What is added to names keeps them distinct. -/
theorem nodup_names_unseen {names : List String} (ps : List Part) (h : names.Nodup) :
    (names ++ (unseen names ps).map (·.name)).Nodup := by
  induction ps generalizing names with
  | nil => simpa [unseen] using h
  | cons p ps ih =>
      rw [unseen]
      split
      · exact ih h
      next hnew =>
        have hnames : (names ++ [p.name]).Nodup := by
          rw [List.nodup_append]
          refine ⟨h, List.pairwise_singleton _ _, fun x hx y hy heq => hnew ?_⟩
          rw [List.mem_singleton.1 hy] at heq
          exact List.contains_iff_mem.2 (heq ▸ hx)
        simpa using ih hnames

end Part

/-- The parts of an object: its properties, those of one name once. -/
def Flattened.parts (flat : Flattened) : List Part :=
  Part.unseen [] (flat.properties.map fun p =>
    ⟨p.1, p.2, (NameSet.ofList flat.required).contains p.1⟩)

/-- A parameter as a part of a request. -/
def Parameter.part (p : Parameter) : Part := ⟨p.name, p.schema.getD {}, p.required⟩

namespace Endpoint

/-- The parameters of an operation that are fields of its request. -/
def parameters (e : Endpoint) : List Parameter := mergeParameters e.shared e.operation.parameters

/-- The body as a part of a request, if there is one that has a schema. -/
def bodyPart? (e : Endpoint) : Option Part :=
  match e.operation.requestBody, e.operation.body? with
  | some body, some schema => some ⟨bodyFieldName e.parameters, schema, body.required⟩
  | _, _ => none

/-- The parts of a request that is made for an operation. -/
def requestParts (e : Endpoint) : List Part :=
  e.parameters.map (·.part) ++ e.bodyPart?.toList

/-- The name of the method that an operation becomes, if its path is a template. -/
def method? (e : Endpoint) : Option String :=
  match PathTemplate.parse e.path with
  | .error _ => none
  | .ok _ => e.operation.id.map Text.upperFirst

end Endpoint

/-! ### Origins -/

/-- The parts that the message with an ID is made of, in a document with components and endpoints. -/
inductive Origin (s : Setting) (es : List Endpoint) : String → List Part → Prop where
  /-- The message of a component. -/
  | component {name schema flat} :
      (name, schema) ∈ s.schemas → schema.isMessage = true →
      flatten s (deepest + 1) schema = .ok flat → Origin s es (s.id name) flat.parts
  /-- The message of an object written in place, inside that of the part that holds it. -/
  | nested {ownerId parts part object flat} :
      Origin s es ownerId parts → part ∈ parts → Inline s part.schema object →
      flatten s (deepest + 1) object = .ok flat →
      Origin s es (ownerId ++ "." ++ Text.upperFirst part.name) flat.parts
  /-- The request made for an operation that the document describes none for. -/
  | composed {e method} :
      e ∈ es → e.method? = some method → Keyed.get? (method ++ "Request") s.schemas = none →
      Origin s es (s.id (method ++ "Request")) e.requestParts
  /-- The request that the document describes, with the parameters it has no part for. -/
  | described {e method parts} :
      e ∈ es → e.method? = some method →
      (Keyed.get? (method ++ "Request") s.schemas).isSome = true →
      Origin s es (s.id (method ++ "Request")) parts →
      Origin s es (s.id (method ++ "Request"))
        (parts ++ Part.unseen (parts.map (·.name)) (e.parameters.map (·.part)))
  /-- The response of an operation, written in place. -/
  | response {e method schema flat} :
      e ∈ es → e.method? = some method →
      e.operation.success?.bind (·.content.schema?) = some schema → schema.reference = none →
      schema.isMessage = true → flatten s (deepest + 1) schema = .ok flat →
      Origin s es (s.id (method ++ "Response")) flat.parts

/-- A field of the message with an ID that a part describes.  What a parameter or a body says besides its
schema may have gone into the documentation and the deprecation. -/
def Describes (s : Setting) (ownerId : String) (part : Part) (f : Field) : Prop :=
  ∃ type, Denotes s ownerId part.name part.schema type ∧
    f = { fieldOf ownerId part.name part.schema part.required type with
      documentation := f.documentation
      deprecated := f.deprecated }

/-- A part of the message with an ID is a map whose values have a type. -/
def Mapped (s : Setting) (es : List Endpoint) (ownerId : String) (part : Part)
    (value : FieldType) : Prop :=
  ∃ parts, Origin s es ownerId parts ∧ part ∈ parts ∧
    MapOf s ownerId part.name part.schema value

/-- A part of the message with an ID holds an object written in place. -/
def Inlined (s : Setting) (es : List Endpoint) (ownerId : String) (part : Part) (object : Schema) :
    Prop :=
  ∃ parts, Origin s es ownerId parts ∧ part ∈ parts ∧ Inline s part.schema object

/-- The names of the messages that stand in no other. -/
inductive TopLevel (s : Setting) (es : List Endpoint) : String → Prop where
  | component {name schema} :
      (name, schema) ∈ s.schemas → schema.isMessage = true → TopLevel s es name
  | request {e method} : e ∈ es → e.method? = some method → TopLevel s es (method ++ "Request")
  | response {e method} : e ∈ es → e.method? = some method → TopLevel s es (method ++ "Response")

/-- A field that a property becomes: its type is that which the schema denotes. -/
def Becomes (s : Setting) (ownerId : String) (part : Part) (f : Field) : Prop :=
  ∃ type, Denotes s ownerId part.name part.schema type ∧
    f = fieldOf ownerId part.name part.schema part.required type

/-- Where a message of a document stands: at the top, or inside the message of which a part holds its
object. -/
inductive Seat (s : Setting) (es : List Endpoint) (m : Message) : Prop where
  | top {name} : TopLevel s es name → m.id = s.id name → Seat s es m
  | inside {ownerId part object flat} :
      Inlined s es ownerId part object → flatten s (deepest + 1) object = .ok flat →
      m.id = ownerId ++ "." ++ Text.upperFirst part.name → m.name = Text.upperFirst part.name →
      m.parent = some ownerId → List.Forall₂ (Becomes s m.id) flat.parts m.fields → Seat s es m

/-- How a message of the model has come about. -/
inductive Source (s : Setting) (es : List Endpoint) : Message → Prop where
  | wellKnown {m name} :
      name ∈ SymbolTable.wellKnownMessages → m.id = SymbolTable.wellKnownId name →
      m.fields = [] → Source s es m
  /-- The entry of a map that is a part of some message. -/
  | entry {ownerId part value} : Mapped s es ownerId part value → Source s es (entryMessage value)
  | parts {m parts} :
      Origin s es m.id parts → List.Forall₂ (Describes s m.id) parts m.fields → Seat s es m →
      Source s es m

/-- A table whose messages have come about as documents make them, each under its ID. -/
def Traced (s : Setting) (es : List Endpoint) (t : SymbolTable) : Prop :=
  ∀ id m, t.message? id = some m → m.id = id ∧ Source s es m

theorem Mapped.valueType {s : Setting} {es : List Endpoint} {ownerId : String} {part : Part}
    {value : FieldType} (h : Mapped s es ownerId part value) :
    ∃ values, ValueType s ownerId part.name values value := by
  obtain ⟨_, -, -, _, values, -, -, hvalue⟩ := h
  exact ⟨values, hvalue⟩

section Fields

variable {s : Setting} {ownerId : String} {part : Part} {f : Field}

theorem Becomes.describes (h : Becomes s ownerId part f) : Describes s ownerId part f := by
  obtain ⟨type, hdenotes, rfl⟩ := h
  exact ⟨type, hdenotes, rfl⟩

theorem Describes.name (h : Describes s ownerId part f) : f.name = part.name := by
  obtain ⟨type, -, heq⟩ := h
  rw [heq]
  rfl

theorem Describes.jsonName (h : Describes s ownerId part f) : f.jsonName = part.name := by
  obtain ⟨type, -, heq⟩ := h
  rw [heq]
  rfl

theorem Describes.id (h : Describes s ownerId part f) : f.id = ownerId ++ "." ++ part.name := by
  obtain ⟨type, -, heq⟩ := h
  rw [heq]
  rfl

theorem names_of_describes {parts : List Part} {fields : List Field}
    (h : List.Forall₂ (Describes s ownerId) parts fields) :
    fields.map (·.name) = parts.map (·.name) := by
  induction h with
  | nil => rfl
  | cons hfield _ ih => rw [List.map_cons, List.map_cons, hfield.name, ih]

theorem exists_mem_left {α β : Type} {R : α → β → Prop} {xs : List α} {ys : List β} {y : β}
    (h : List.Forall₂ R xs ys) (hy : y ∈ ys) : ∃ x ∈ xs, R x y := by
  induction h with
  | nil => cases hy
  | cons hhead _ ih =>
      rcases List.mem_cons.1 hy with rfl | hy
      · exact ⟨_, List.mem_cons_self, hhead⟩
      · obtain ⟨x, hx, hrel⟩ := ih hy
        exact ⟨x, List.mem_cons_of_mem _ hx, hrel⟩

/-- A message has a field with a name, in either spelling, if one of its parts has the name. -/
theorem field?_isSome_of_describes {parts : List Part} {fields : List Field}
    (h : List.Forall₂ (Describes s ownerId) parts fields) (name : String) :
    (fields.find? fun f => f.name == name || f.jsonName == name).isSome =
      (parts.map (·.name)).contains name := by
  rw [Bool.eq_iff_iff, List.find?_isSome, List.contains_iff_mem]
  induction h with
  | nil => simp
  | cons hfield _ ih =>
      simp only [List.mem_cons, exists_eq_or_imp, List.map_cons, hfield.name, hfield.jsonName,
        Bool.or_self, beq_iff_eq, ih]
      exact or_congr_left eq_comm

end Fields

/-! ### Tables -/

section Tables

variable {s : Setting} {es : List Endpoint} {t : SymbolTable}

theorem Traced.putMessage {m : Message} (ht : Traced s es t) (hm : Source s es m) :
    Traced s es (t.putMessage m) := by
  intro id n hn
  rw [SymbolTable.message?_putMessage] at hn
  split at hn
  next hid =>
    cases hn
    exact ⟨hid.symm, hm⟩
  next => exact ht id n hn

theorem Traced.withEntry {ownerId : String} {part : Part} {value : FieldType}
    (ht : Traced s es t) (hmap : Mapped s es ownerId part value) :
    Traced s es (withEntry value t) := by
  unfold OpenApi.withEntry
  split
  · exact ht
  · exact ht.putMessage (m := entryMessage value) (.entry hmap)

/-! ### Conversion of schemas -/

/-- The message of an object has an origin and a seat in the document. -/
def Placed (s : Setting) (es : List Endpoint) (name id : String) (parent : Option String)
    (schema : Schema) : Prop :=
  ∀ flat, flatten s (deepest + 1) schema = .ok flat → Origin s es id flat.parts ∧
    ∀ m : Message, m.name = name → m.id = id → m.parent = parent →
      List.Forall₂ (Becomes s id) flat.parts m.fields → Seat s es m

/-- An object written in place has its place inside the message whose part holds it. -/
theorem Inlined.placed {ownerId : String} {part : Part} {object : Schema}
    (h : Inlined s es ownerId part object) :
    Placed s es (Text.upperFirst part.name) (ownerId ++ "." ++ Text.upperFirst part.name)
      (some ownerId) object := by
  intro flat hflat
  obtain ⟨parts, horigin, hpart, hobject⟩ := h
  refine ⟨.nested horigin hpart hobject hflat, fun m hname hid hparent hfields => ?_⟩
  exact .inside ⟨parts, horigin, hpart, hobject⟩ hflat hid hname hparent (hid.symm ▸ hfields)

/-- Objects written in place keep a table traced, if their messages have a place. -/
def Nesting.Traces (nest : Nesting) (s : Setting) (es : List Endpoint) : Prop :=
  ∀ name id parent schema t t', nest name id parent schema t = .ok t' →
    Placed s es name id (some parent) schema → Traced s es t → Traced s es t'

/-- A conversion puts in what is inside the owner and, at the very last, the entry of a map. -/
theorem Converted.traced {nest : Nesting} {ownerId name : String} {room : Nat} {schema : Schema}
    {typed : Typed} (h : Converted s nest ownerId name room schema t typed)
    (hnest : ∀ object, Inline s schema object → ∀ t t',
      nest (Text.upperFirst name) (ownerId ++ "." ++ Text.upperFirst name) ownerId object t = .ok t' →
        Traced s es t → Traced s es t')
    (ht : Traced s es t) :
    Traced s es typed.table ∨ ∃ value t', MapOf s ownerId name schema value ∧
      typed.type.isMap = true ∧ Traced s es t' ∧ typed.table = withEntry value t' := by
  induction h with
  | component => exact Or.inl ht
  | reference href hcomponent hmessage _ ih =>
      refine (ih (fun object h => hnest object (.reference href hcomponent hmessage h)) ht).imp_right ?_
      rintro ⟨value, t', hmap, hrest⟩
      exact ⟨value, t', hmap.reference href hcomponent hmessage, hrest⟩
  | sole href hall hproperties _ ih =>
      refine (ih (fun object h => hnest object (.sole href hall hproperties h)) ht).imp_right ?_
      rintro ⟨value, t', hmap, hrest⟩
      exact ⟨value, t', hmap.sole href hall hproperties, hrest⟩
  | list hown harray hitems _ _ hflat ih =>
      refine Or.inl ((ih (fun object h => hnest object (.list hown harray hitems h)) ht).elim id ?_)
      rintro ⟨_, _, -, hmap, -⟩
      exact absurd (hflat.symm.trans hmap) (by decide)
  | openMap hown harray hmap hvalue =>
      exact Or.inr ⟨.any, _, .of_open hown harray hmap hvalue, rfl, ht, rfl⟩
  | map hown harray hmap hvalue hvalues hsingle hflat ih =>
      have htable := (ih (fun object h => hnest object (.map hown harray hmap hvalue h)) ht).elim id
        fun ⟨_, _, _, hmap, _⟩ => absurd (hflat.symm.trans hmap) (by decide)
      exact Or.inr ⟨_, _, .of_values hown harray hmap hvalue hvalues.denotes hsingle hflat, rfl,
        htable, rfl⟩
  | nested hplain htype hobject hinner =>
      exact Or.inl (hnest _ (.self hplain htype hobject) _ _ hinner ht)
  | string | integer | number | boolean | any => exact Or.inl ht

end Tables

/-! ### Filling a message -/

/-- A message with an ID has a field for each of some parts, and its table is traced. -/
structure Filling.Traced (s : Setting) (es : List Endpoint) (id : String) (parts : List Part)
    (f : Filling) : Prop where
  named : f.message.id = id
  table : OpenApi.Traced s es f.table
  fields : List.Forall₂ (Describes s id) parts f.message.fields

/-- A change to a field that concerns its documentation and its deprecation alone. -/
def Annotates (finish : Field → Field) : Prop :=
  ∀ f, finish f =
    { f with documentation := (finish f).documentation, deprecated := (finish f).deprecated }

section Filling

variable {s : Setting} {es : List Endpoint} {id : String} {parts all : List Part} {f f' : Filling}

theorem Filling.Traced.names (hf : f.Traced s es id parts) :
    f.message.fieldNames = parts.map (·.name) :=
  names_of_describes hf.fields

/-- A message that is closed is one that its parts make. -/
theorem Filling.Traced.close (hf : f.Traced s es id parts) (horigin : Origin s es id parts)
    (hseat : Seat s es f.message) : OpenApi.Traced s es f.close := by
  have hnamed : Origin s es f.message.id parts := hf.named.symm ▸ horigin
  refine hf.table.putMessage (.parts hnamed ?_ hseat)
  rw [hf.named]
  exact hf.fields

/-- A part of the message makes one more field. -/
theorem addField_traced {nest : Nesting} {p : Part} {finish : Field → Field}
    (hnest : nest.Traces s es) (hfinish : Annotates finish) (horigin : Origin s es id all)
    (hp : p ∈ all) (hf : f.Traced s es id parts)
    (h : addField s nest p.name p.schema p.required finish f = .ok f') :
    f'.Traced s es id (parts ++ [p]) := by
  obtain ⟨typed, hconverted, rfl⟩ := addField_eq_ok h
  rw [hf.named] at hconverted ⊢
  refine ⟨hf.named, ?_, List.rel_append hf.fields (.cons ?_ .nil)⟩
  -- objects in the schema are nested in this part, and an entry is that of this part
  · have hinner : ∀ object, Inline s p.schema object → ∀ t t',
        nest (Text.upperFirst p.name) (id ++ "." ++ Text.upperFirst p.name) id object t = .ok t' →
          OpenApi.Traced s es t → OpenApi.Traced s es t' :=
      fun object hobject t t' h => hnest _ _ _ _ _ _ h (Inlined.placed ⟨all, horigin, hp, hobject⟩)
    rcases hconverted.traced hinner hf.table with ht | ⟨value, t', hmap, -, ht, heq⟩
    · exact ht
    · change OpenApi.Traced s es typed.table
      rw [heq]
      exact ht.withEntry ⟨all, horigin, hp, hmap⟩
  · exact ⟨typed.type, hconverted.denotes, hfinish _⟩

theorem addProperties_traced {nest : Nesting} {required : NameSet}
    {properties : List (String × Schema)} (hnest : nest.Traces s es)
    (horigin : Origin s es id all) (hf : f.Traced s es id parts)
    (hall : parts ++ Part.unseen (parts.map (·.name))
      (properties.map fun p => ⟨p.1, p.2, required.contains p.1⟩) = all)
    (h : addProperties s nest required properties f = .ok f') : f'.Traced s es id all := by
  induction properties generalizing parts f with
  | nil =>
      cases h
      rw [← hall]
      simpa [Part.unseen] using hf
  | cons property rest ih =>
      obtain ⟨name, schema⟩ := property
      rw [addProperties, hf.names] at h
      rw [List.map_cons, Part.unseen] at hall
      split at h
      next hseen =>
        rw [if_pos hseen] at hall
        exact ih hf hall h
      next hnew =>
        rw [if_neg hnew] at hall
        split at h
        · cases h
        next g hg =>
          rw [during_eq_ok_iff] at hg
          have hp : (⟨name, schema, required.contains name⟩ : Part) ∈ all := by
            rw [← hall]
            simp
          refine ih (addField_traced hnest (fun _ => rfl) horigin hp hf hg) ?_ h
          simpa using hall

end Filling

/-! ### Objects -/

/-- Each property that there is no field for yet becomes one, behind the others and in their order. -/
theorem exists_fields_of_addProperties {s : Setting} {nest : Nesting} {required : NameSet}
    {properties : List (String × Schema)} {f f' : Filling}
    (h : addProperties s nest required properties f = .ok f') :
    f.KeepsHead f' ∧ ∃ fields, f'.message.fields = f.message.fields ++ fields ∧
      List.Forall₂ (Becomes s f.message.id)
        (Part.unseen f.message.fieldNames
          (properties.map fun p => ⟨p.1, p.2, required.contains p.1⟩)) fields := by
  induction properties generalizing f with
  | nil =>
      cases h
      exact ⟨rfl, [], by simp, .nil⟩
  | cons property rest ih =>
      obtain ⟨name, schema⟩ := property
      rw [addProperties] at h
      rw [List.map_cons, Part.unseen]
      split at h
      next hseen =>
        rw [if_pos hseen]
        exact ih h
      next hnew =>
        rw [if_neg hnew]
        split at h
        · cases h
        next g hg =>
          rw [during_eq_ok_iff] at hg
          obtain ⟨typed, hconverted, rfl⟩ := addField_eq_ok hg
          obtain ⟨hhead, fields, hfields, hrest⟩ := ih h
          refine ⟨(f.keepsHead_push _ _ _).trans hhead, _ :: fields, ?_,
            .cons ⟨typed.type, hconverted.denotes, rfl⟩ ?_⟩
          · rw [hfields]
            simp [Filling.push]
          · simpa [Filling.push, Message.fieldNames, fieldOf] using hrest

/-- The message of an object is made of its properties, as are all messages inside it. -/
theorem objectMessage_traced {s : Setting} {es : List Endpoint} {levels : Nat} {name id : String}
    {parent : Option String} {schema : Schema} {t t' : SymbolTable}
    (hplaced : Placed s es name id parent schema) (ht : Traced s es t)
    (h : objectMessage s levels name id parent schema t = .ok t') : Traced s es t' := by
  induction levels generalizing name id parent schema t t' with
  | zero => cases h
  | succ levels ih =>
      obtain ⟨flat, f, hflat, hf, rfl⟩ := objectMessage_eq_ok h
      obtain ⟨horigin, hseat⟩ := hplaced flat hflat
      have hnest : (nestAt s levels).Traces s es :=
        fun _ _ _ _ _ _ h hplaced ht => ih hplaced ht h
      have hstart : (⟨emptyMessage s name id parent schema, t⟩ : Filling).Traced s es id [] :=
        ⟨rfl, ht, .nil⟩
      have hfilled : f.Traced s es id flat.parts :=
        addProperties_traced hnest horigin hstart rfl hf
      obtain ⟨hhead, fields, hfields, hbecomes⟩ := exists_fields_of_addProperties hf
      refine hfilled.close horigin (hseat _ ?_ hfilled.named ?_ ?_)
      · rw [hhead]
        rfl
      · rw [hhead]
        rfl
      · rw [hfields]
        exact hbecomes

theorem nestAt_traces {s : Setting} {es : List Endpoint} (levels : Nat) :
    (nestAt s levels).Traces s es :=
  fun _ _ _ _ _ _ h hplaced ht => objectMessage_traced hplaced ht h

namespace Setting

variable {s : Setting} {es : List Endpoint} {id : String}

theorem addMessage_traced {name : String} {schema : Schema} {t t' : SymbolTable}
    (hplaced : Placed s es name id none schema) (ht : Traced s es t)
    (h : s.addMessage name id schema t = .ok t') : Traced s es t' :=
  objectMessage_traced hplaced ht h

theorem addField_traced {parts all : List Part} {p : Part} {finish : Field → Field}
    {f f' : Filling} (hfinish : Annotates finish) (horigin : Origin s es id all) (hp : p ∈ all)
    (hf : f.Traced s es id parts) (h : s.addField p.name p.schema p.required finish f = .ok f') :
    f'.Traced s es id (parts ++ [p]) :=
  OpenApi.addField_traced (nestAt_traces _) hfinish horigin hp hf h

end Setting

end ServiceModel.OpenApi
