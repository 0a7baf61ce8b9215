import ServiceModel.Proofs.OpenApi.Conversion

/-!
What a schema says of the type of a field, by the schema alone.  The rules of conversion also speak of a
table and of the room that is left; here they are left out, so the type of a field can be stated without
what was converted before it.
-/

namespace ServiceModel

/-! ### Keywords -/

theorem WireType.eq_of_keyword {v w : WireType} (h : v.keyword = w.keyword) : v = w := by
  cases v <;> cases w <;> first | rfl | exact absurd h (by decide)

/-- Keywords differ from IDs, which have dots. -/
theorem WireType.not_mem_keyword (w : WireType) : '.' ∉ w.keyword.toList := by
  cases w <;> decide

namespace OpenApi

/-! ### Types that schemas denote -/

/-- The type that a schema denotes, for a field with a name in the message with an ID. -/
inductive Denotes (s : Setting) (ownerId name : String) : Schema → FieldType → Prop where
  | component {schema r target component} :
      schema.reference = some r → s.component r = .ok (target, component) →
      component.isMessage = true → Denotes s ownerId name schema (.message (s.id target))
  | reference {schema r target component type} :
      schema.reference = some r → s.component r = .ok (target, component) →
      component.isMessage = false → Denotes s ownerId name component type →
      Denotes s ownerId name schema type
  | sole {schema only type} :
      schema.reference = none → schema.allOf = [only] → schema.properties = [] →
      Denotes s ownerId name only type → Denotes s ownerId name schema type
  | list {schema items item} :
      schema.IsOwn → schema.typeName? = some "array" → schema.items = some items →
      Denotes s ownerId name items item → item.repeated = false → item.isMap = false →
      Denotes s ownerId name schema { item with repeated := true }
  | openMap {schema} :
      schema.IsOwn → schema.typeName? ≠ some "array" → schema.isMap = true →
      fieldType.mapValue schema = none →
      Denotes s ownerId name schema { FieldType.message (entryId .any) with isMap := true }
  | map {schema values value} :
      schema.IsOwn → schema.typeName? ≠ some "array" → schema.isMap = true →
      fieldType.mapValue schema = some values → Denotes s ownerId name values value →
      value.repeated = false → value.isMap = false →
      Denotes s ownerId name schema { FieldType.message (entryId value) with isMap := true }
  | string {schema} :
      schema.IsPlain → schema.typeName? = some "string" →
      Denotes s ownerId name schema (.ofString schema.format)
  | integer {schema} :
      schema.IsPlain → schema.typeName? = some "integer" →
      Denotes s ownerId name schema (.ofInteger schema.format)
  | number {schema} :
      schema.IsPlain → schema.typeName? = some "number" →
      Denotes s ownerId name schema (.ofNumber schema.format)
  | boolean {schema} :
      schema.IsPlain → schema.typeName? = some "boolean" →
      Denotes s ownerId name schema { wireType := .bool }
  | nested {schema} :
      schema.IsPlain → schema.typeName? = some "object" ∨ schema.typeName? = none →
      schema.isObject = true →
      Denotes s ownerId name schema (.message (ownerId ++ "." ++ Text.upperFirst name))
  | any {schema} :
      schema.IsPlain → schema.typeName? = some "object" ∨ schema.typeName? = none →
      schema.isObject = false → Denotes s ownerId name schema .any

variable {s : Setting} {ownerId name : String}

/-- Every rule of conversion gives the type that the schema denotes. -/
theorem Converted.denotes {nest : Nesting} {room : Nat} {schema : Schema} {t : SymbolTable}
    {typed : Typed}
    (h : Converted s nest ownerId name room schema t typed) :
    Denotes s ownerId name schema typed.type := by
  induction h with
  | component href hcomponent hmessage => exact .component href hcomponent hmessage
  | reference href hcomponent hmessage _ ih => exact .reference href hcomponent hmessage ih
  | sole href hall hproperties _ ih => exact .sole href hall hproperties ih
  | list hown harray hitems _ hsingle hmap ih => exact .list hown harray hitems ih hsingle hmap
  | openMap hown harray hmap hvalue => exact .openMap hown harray hmap hvalue
  | map hown harray hmap hvalue _ hsingle hflat ih =>
      exact .map hown harray hmap hvalue ih hsingle hflat
  | string hplain htype => exact .string hplain htype
  | integer hplain htype => exact .integer hplain htype
  | number hplain htype => exact .number hplain htype
  | boolean hplain htype => exact .boolean hplain htype
  | nested hplain htype hobject _ => exact .nested hplain htype hobject
  | any hplain htype hobject => exact .any hplain htype hobject

/-! ### Maps -/

/-- A schema stands for another: references to what is no message, and schemas composed of one alone,
lead to it. -/
inductive Stands (s : Setting) : Schema → Schema → Prop where
  | self {schema} : Stands s schema schema
  | reference {schema r target component final} :
      schema.reference = some r → s.component r = .ok (target, component) →
      component.isMessage = false → Stands s component final → Stands s schema final
  | sole {schema only final} :
      schema.reference = none → schema.allOf = [only] → schema.properties = [] →
      Stands s only final → Stands s schema final

/-- The type of the values that a map describes or allows: that of their schema, if it says what they
are, and any otherwise. -/
inductive ValueType (s : Setting) (ownerId name : String) : Additional Schema → FieldType → Prop where
  | allowed : ValueType s ownerId name (.allowed true) .any
  | untyped {values} :
      values.hasType = false → ValueType s ownerId name (.values values) .any
  | typed {values value} :
      values.hasType = true → Denotes s ownerId name values value → value.repeated = false →
      value.isMap = false → ValueType s ownerId name (.values values) value

/-- A schema that is a map by itself, with what it says of its values. -/
structure Schema.Maps (schema : Schema) (values : Additional Schema) : Prop where
  own : schema.IsOwn
  single : schema.typeName? ≠ some "array"
  isMap : schema.isMap = true
  additional : schema.additional = some values

/-- A schema stands for a map whose values have a type. -/
def MapOf (s : Setting) (ownerId name : String) (schema : Schema) (value : FieldType) : Prop :=
  ∃ map values, Stands s schema map ∧ map.Maps values ∧ ValueType s ownerId name values value

theorem MapOf.reference {r target : String} {schema component : Schema} {value : FieldType}
    (href : schema.reference = some r) (hcomponent : s.component r = .ok (target, component))
    (hmessage : component.isMessage = false) (h : MapOf s ownerId name component value) :
    MapOf s ownerId name schema value := by
  obtain ⟨map, values, hstands, hmap⟩ := h
  exact ⟨map, values, .reference href hcomponent hmessage hstands, hmap⟩

theorem MapOf.sole {schema only : Schema} {value : FieldType} (href : schema.reference = none)
    (hall : schema.allOf = [only]) (hproperties : schema.properties = [])
    (h : MapOf s ownerId name only value) : MapOf s ownerId name schema value := by
  obtain ⟨map, values, hstands, hmap⟩ := h
  exact ⟨map, values, .sole href hall hproperties hstands, hmap⟩

/-- A map that does not say what its values are takes any. -/
theorem MapOf.of_open {schema : Schema} (hown : schema.IsOwn) (harray : schema.typeName? ≠ some "array")
    (hmap : schema.isMap = true) (hvalue : fieldType.mapValue schema = none) :
    MapOf s ownerId name schema .any := by
  have hadditional : schema.hasAdditional = true := by
    simp only [Schema.isMap, Bool.and_eq_true] at hmap
    exact hmap.2
  unfold Schema.hasAdditional at hadditional
  unfold fieldType.mapValue at hvalue
  split at hadditional
  next values hvalues =>
    rw [hvalues] at hvalue
    refine ⟨schema, _, .self, ⟨hown, harray, hmap, hvalues⟩, .untyped ?_⟩
    simpa using hvalue
  next hvalues =>
    rw [hadditional] at hvalues
    exact ⟨schema, _, .self, ⟨hown, harray, hmap, hvalues⟩, .allowed⟩
  next => cases hadditional

theorem MapOf.of_values {schema values : Schema} {value : FieldType} (hown : schema.IsOwn)
    (harray : schema.typeName? ≠ some "array") (hmap : schema.isMap = true)
    (hvalue : fieldType.mapValue schema = some values) (h : Denotes s ownerId name values value)
    (hsingle : value.repeated = false) (hflat : value.isMap = false) :
    MapOf s ownerId name schema value := by
  unfold fieldType.mapValue at hvalue
  split at hvalue
  next values' hvalues =>
    split at hvalue
    next htype =>
      cases hvalue
      exact ⟨schema, _, .self, ⟨hown, harray, hmap, hvalues⟩, .typed htype h hsingle hflat⟩
    next => cases hvalue
  next => cases hvalue

/-- Only maps denote map types, and each refers to the entry of its values. -/
theorem Denotes.mapOf {schema : Schema} {type : FieldType}
    (h : Denotes s ownerId name schema type) (hmap : type.isMap = true) :
    ∃ value, MapOf s ownerId name schema value ∧
      type = { FieldType.message (entryId value) with isMap := true } := by
  induction h with
  | reference href hcomponent hmessage _ ih =>
      obtain ⟨value, hvalue, htype⟩ := ih hmap
      exact ⟨value, hvalue.reference href hcomponent hmessage, htype⟩
  | sole href hall hproperties _ ih =>
      obtain ⟨value, hvalue, htype⟩ := ih hmap
      exact ⟨value, hvalue.sole href hall hproperties, htype⟩
  | openMap hown harray hisMap hvalue => exact ⟨.any, .of_open hown harray hisMap hvalue, rfl⟩
  | map hown harray hisMap hvalue hdenotes hsingle hflat _ =>
      exact ⟨_, .of_values hown harray hisMap hvalue hdenotes hsingle hflat, rfl⟩
  | list _ _ _ _ _ hflat _ => exact absurd (hflat.symm.trans hmap) (by decide)
  | string =>
      unfold FieldType.ofString at hmap
      split at hmap <;> cases hmap
  | integer =>
      unfold FieldType.ofInteger at hmap
      split at hmap <;> cases hmap
  | number =>
      unfold FieldType.ofNumber at hmap
      split at hmap <;> cases hmap
  | component | boolean | nested | any => cases hmap

/-! ### Entries -/

/-- A type as schemas denote them: messages, and only they, have an ID, and only strings have a
format. -/
structure FieldType.Settled (type : FieldType) : Prop where
  dotted : type.wireType = .message → '.' ∈ type.typeId.toList
  bare : type.wireType ≠ .message → type.typeId = ""
  formatless : type.wireType ≠ .string → type.format = none

namespace FieldType

theorem Settled.of_message {id : String} (h : '.' ∈ id.toList) : (message id).Settled :=
  ⟨fun _ => h, fun hw => absurd rfl hw, fun _ => rfl⟩

theorem settled_any : any.Settled := .of_message (by decide)

theorem settled_ofString (format : Option String) : (ofString format).Settled := by
  unfold ofString
  split
  all_goals first
    | exact .of_message (by decide)
    | exact ⟨nofun, fun _ => rfl, fun _ => rfl⟩
    | exact ⟨nofun, fun _ => rfl, fun hw => absurd rfl hw⟩

theorem settled_ofInteger (format : Option String) : (ofInteger format).Settled := by
  unfold ofInteger
  split <;> exact ⟨nofun, fun _ => rfl, fun _ => rfl⟩

theorem settled_ofNumber (format : Option String) : (ofNumber format).Settled := by
  unfold ofNumber
  split <;> exact ⟨nofun, fun _ => rfl, fun _ => rfl⟩

end FieldType

theorem mem_dot_id (s : Setting) (name : String) : '.' ∈ (s.id name).toList := by
  simp [Setting.id]

theorem mem_dot_entryId (value : FieldType) : '.' ∈ (entryId value).toList := by
  simp [entryId]

theorem Denotes.settled {schema : Schema} {type : FieldType}
    (h : Denotes s ownerId name schema type) : type.Settled := by
  induction h with
  | component => exact .of_message (mem_dot_id s _)
  | reference _ _ _ _ ih => exact ih
  | sole _ _ _ _ ih => exact ih
  | list _ _ _ _ _ _ ih => exact ⟨ih.dotted, ih.bare, ih.formatless⟩
  | openMap => exact ⟨fun _ => mem_dot_entryId _, fun hw => absurd rfl hw, fun _ => rfl⟩
  | map => exact ⟨fun _ => mem_dot_entryId _, fun hw => absurd rfl hw, fun _ => rfl⟩
  | string => exact FieldType.settled_ofString _
  | integer => exact FieldType.settled_ofInteger _
  | number => exact FieldType.settled_ofNumber _
  | boolean => exact ⟨nofun, fun _ => rfl, fun _ => rfl⟩
  | nested =>
      have hdot : '.' ∈ (ownerId ++ "." ++ Text.upperFirst name).toList := by simp
      exact .of_message hdot
  | any => exact FieldType.settled_any

/-- The type of the values of a map is that of single values. -/
theorem ValueType.single {values : Additional Schema} {value : FieldType}
    (h : ValueType s ownerId name values value) :
    value.repeated = false ∧ value.isMap = false ∧ value.Settled := by
  cases h with
  | allowed => exact ⟨rfl, rfl, FieldType.settled_any⟩
  | untyped => exact ⟨rfl, rfl, FieldType.settled_any⟩
  | typed _ hdenotes hsingle hflat => exact ⟨hsingle, hflat, hdenotes.settled⟩

theorem entryKey_eq {v w : FieldType} (hv : v.Settled) (hw : w.Settled)
    (h : v.entryKey = w.entryKey) : v.wireType = w.wireType ∧ v.typeId = w.typeId := by
  unfold FieldType.entryKey at h
  split at h
  next hmessage =>
    split at h
    next hmessage' => exact ⟨hmessage.trans hmessage'.symm, h⟩
    next =>
      have hdot := hv.dotted hmessage
      rw [h] at hdot
      exact absurd hdot (WireType.not_mem_keyword _)
  next hscalar =>
    split at h
    next hmessage =>
      have hdot := hw.dotted hmessage
      rw [← h] at hdot
      exact absurd hdot (WireType.not_mem_keyword _)
    next hscalar' =>
      exact ⟨WireType.eq_of_keyword h, (hv.bare hscalar).trans (hw.bare hscalar').symm⟩

/-- Maps share an entry only if their values have the same type. -/
theorem entryId_eq {v w : FieldType} (hv : v.Settled) (hw : w.Settled)
    (h : entryId v = entryId w) : v.wireType = w.wireType ∧ v.typeId = w.typeId := by
  refine entryKey_eq hv hw ?_
  simpa [entryId, entryName] using h

/-- Values that share an entry differ in nothing but their format, and only if they are strings. -/
theorem ValueType.eq_of_entryId {ownerId' name' : String} {values values' : Additional Schema}
    {v w : FieldType} (hv : ValueType s ownerId name values v)
    (hw : ValueType s ownerId' name' values' w) (h : entryId v = entryId w) :
    v = { w with format := v.format } ∧ (v = w ∨ v.wireType = .string) := by
  obtain ⟨hsingle, hflat, hsettled⟩ := hv.single
  obtain ⟨hsingle', hflat', hsettled'⟩ := hw.single
  obtain ⟨hwire, hid⟩ := entryId_eq hsettled hsettled' h
  have heq : v = { w with format := v.format } := by
    cases v
    cases w
    simp_all
  refine ⟨heq, (Decidable.em (v.wireType = .string)).symm.imp_left fun hscalar => ?_⟩
  have hformat : v.format = w.format :=
    (hsettled.formatless hscalar).trans (hsettled'.formatless (hwire ▸ hscalar)).symm
  rw [heq, hformat]

/-! ### Objects written in place -/

/-- A schema holds an object written in place, which is what it stands for or what it is a list or a
map of. -/
inductive Inline (s : Setting) : Schema → Schema → Prop where
  | self {object} :
      object.IsPlain → object.typeName? = some "object" ∨ object.typeName? = none →
      object.isObject = true → Inline s object object
  | reference {schema r target component object} :
      schema.reference = some r → s.component r = .ok (target, component) →
      component.isMessage = false → Inline s component object → Inline s schema object
  | sole {schema only object} :
      schema.reference = none → schema.allOf = [only] → schema.properties = [] →
      Inline s only object → Inline s schema object
  | list {schema items object} :
      schema.IsOwn → schema.typeName? = some "array" → schema.items = some items →
      Inline s items object → Inline s schema object
  | map {schema values object} :
      schema.IsOwn → schema.typeName? ≠ some "array" → schema.isMap = true →
      fieldType.mapValue schema = some values → Inline s values object → Inline s schema object

end OpenApi

end ServiceModel
