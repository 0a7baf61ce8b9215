import ServiceModel.OpenApi.Message

/-!
How a schema comes to the type of a field, as rules: one for each kind of schema.  Every successful
conversion follows them, so what holds of all conversions is shown rule by rule.
-/

namespace ServiceModel.OpenApi

/-- A schema that speaks for itself: no reference, and not one other schema in disguise. -/
def Schema.IsOwn (schema : Schema) : Prop :=
  schema.reference = none ∧ ¬ ∃ only, schema.allOf = [only] ∧ schema.properties = []

/-- A schema whose type alone says what it is: neither a list nor a map. -/
def Schema.IsPlain (schema : Schema) : Prop :=
  schema.IsOwn ∧ schema.typeName? ≠ some "array" ∧ schema.isMap = false

/-- The rules of conversion, for a field with a name in the message with an ID: with some room left, a
schema and a table become a type, a table and the messages inside the owner. -/
inductive Converted (s : Setting) (nest : Nesting) (ownerId name : String) :
    Nat → Schema → SymbolTable → Typed → Prop where
  /-- A reference to an object names the message of its component. -/
  | component {room schema t r target component} :
      schema.reference = some r → s.component r = .ok (target, component) →
      component.isMessage = true →
      Converted s nest ownerId name (room + 1) schema t ⟨.message (s.id target), t, []⟩
  /-- Any other reference stands for the schema it leads to. -/
  | reference {room schema t r target component typed} :
      schema.reference = some r → s.component r = .ok (target, component) →
      component.isMessage = false → Converted s nest ownerId name room component t typed →
      Converted s nest ownerId name (room + 1) schema t typed
  /-- What is composed of one schema alone stands for that schema. -/
  | sole {room schema t only typed} :
      schema.reference = none → schema.allOf = [only] → schema.properties = [] →
      Converted s nest ownerId name room only t typed →
      Converted s nest ownerId name (room + 1) schema t typed
  /-- A list has the type of its items, which are single values. -/
  | list {room schema t items item} :
      schema.IsOwn → schema.typeName? = some "array" → schema.items = some items →
      Converted s nest ownerId name room items t item →
      item.type.repeated = false → item.type.isMap = false →
      Converted s nest ownerId name (room + 1) schema t
        { item with type := { item.type with repeated := true } }
  /-- A map that says nothing of its values takes any. -/
  | openMap {room schema t} :
      schema.IsOwn → schema.typeName? ≠ some "array" → schema.isMap = true →
      fieldType.mapValue schema = none →
      Converted s nest ownerId name (room + 1) schema t
        ⟨{ FieldType.message (entryId .any) with isMap := true }, withEntry .any t, []⟩
  /-- A map refers to the entry message of its values, which are single values. -/
  | map {room schema t values value} :
      schema.IsOwn → schema.typeName? ≠ some "array" → schema.isMap = true →
      fieldType.mapValue schema = some values →
      Converted s nest ownerId name room values t value →
      value.type.repeated = false → value.type.isMap = false →
      Converted s nest ownerId name (room + 1) schema t
        ⟨{ FieldType.message (entryId value.type) with isMap := true },
          withEntry value.type value.table, value.nested⟩
  | string {room schema t} :
      schema.IsPlain → schema.typeName? = some "string" →
      Converted s nest ownerId name (room + 1) schema t ⟨.ofString schema.format, t, []⟩
  | integer {room schema t} :
      schema.IsPlain → schema.typeName? = some "integer" →
      Converted s nest ownerId name (room + 1) schema t ⟨.ofInteger schema.format, t, []⟩
  | number {room schema t} :
      schema.IsPlain → schema.typeName? = some "number" →
      Converted s nest ownerId name (room + 1) schema t ⟨.ofNumber schema.format, t, []⟩
  | boolean {room schema t} :
      schema.IsPlain → schema.typeName? = some "boolean" →
      Converted s nest ownerId name (room + 1) schema t ⟨{ wireType := .bool }, t, []⟩
  /-- An object written in place is a message inside the owner. -/
  | nested {room schema t t'} :
      schema.IsPlain → schema.typeName? = some "object" ∨ schema.typeName? = none →
      schema.isObject = true →
      nest (Text.upperFirst name) (ownerId ++ "." ++ Text.upperFirst name) ownerId schema t =
        .ok t' →
      Converted s nest ownerId name (room + 1) schema t
        ⟨.message (ownerId ++ "." ++ Text.upperFirst name), t',
          [ownerId ++ "." ++ Text.upperFirst name]⟩
  /-- A schema that says nothing allows any value. -/
  | any {room schema t} :
      schema.IsPlain → schema.typeName? = some "object" ∨ schema.typeName? = none →
      schema.isObject = false →
      Converted s nest ownerId name (room + 1) schema t ⟨.any, t, []⟩

variable {s : Setting} {nest : Nesting} {ownerId name : String}

theorem Converted.of_objectType {room : Nat} {schema : Schema} {t : SymbolTable} {typed : Typed}
    (hplain : schema.IsPlain)
    (htype : schema.typeName? = some "object" ∨ schema.typeName? = none)
    (h : fieldType.objectType nest ownerId name schema t = .ok typed) :
    Converted s nest ownerId name (room + 1) schema t typed := by
  unfold fieldType.objectType at h
  split at h
  next hobject =>
    simp only at h
    split at h
    · cases h
    next hnest =>
      cases h
      exact .nested hplain htype hobject hnest
  next hobject =>
    cases h
    exact .any hplain htype (by simpa using hobject)

/-- Every successful conversion follows the rules. -/
theorem Converted.of_fieldType {room : Nat} {schema : Schema} {t : SymbolTable} {typed : Typed}
    (h : fieldType s nest ownerId name room schema t = .ok typed) :
    Converted s nest ownerId name room schema t typed := by
  induction room generalizing schema t typed with
  | zero => cases h
  | succ room ih =>
      rw [fieldType] at h
      split at h
      next r href =>
        split at h
        · cases h
        next target component hcomponent =>
          split at h
          next hmessage =>
            cases h
            exact .component href hcomponent hmessage
          next hmessage =>
            exact .reference href hcomponent (by simpa using hmessage) (ih h)
      next href =>
        split at h
        next only hall hproperties => exact .sole href hall hproperties (ih h)
        next hnot =>
          have hown : schema.IsOwn := ⟨href, fun ⟨only, hall, hproperties⟩ =>
            hnot only hall hproperties⟩
          split at h
          next harray =>
            split at h
            · cases h
            next items hitems =>
              split at h
              · cases h
              next item hitem =>
                split at h
                · cases h
                next hsingle =>
                  cases h
                  simp only [Bool.or_eq_true, not_or, Bool.not_eq_true] at hsingle
                  exact .list hown harray hitems (ih hitem) hsingle.1 hsingle.2
          next harray =>
            split at h
            next hmap =>
              split at h
              next hvalue =>
                cases h
                exact .openMap hown harray hmap hvalue
              next values hvalue =>
                split at h
                · cases h
                next value hconverted =>
                  split at h
                  · cases h
                  next hsingle =>
                    cases h
                    simp only [Bool.or_eq_true, not_or, Bool.not_eq_true] at hsingle
                    exact .map hown harray hmap hvalue (ih hconverted) hsingle.1 hsingle.2
            next hmap =>
              have hplain : schema.IsPlain := ⟨hown, harray, by simpa using hmap⟩
              split at h
              next htype =>
                cases h
                exact .string hplain htype
              next htype =>
                cases h
                exact .integer hplain htype
              next htype =>
                cases h
                exact .number hplain htype
              next htype =>
                cases h
                exact .boolean hplain htype
              next htype => exact .of_objectType hplain (Or.inl htype) h
              next htype => exact .of_objectType hplain (Or.inr htype) h
              · cases h

end ServiceModel.OpenApi
