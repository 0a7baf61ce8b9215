import ServiceModel.Proofs.OpenApi.Origin
import ServiceModel.Proofs.Outcomes

/-!
Conversion one schema at a time.  A schema leaves its type to another one, which is not as deep, and makes
its own of that type; or it is an object written in place; or it has an answer that depends on nothing
around it.  What holds of all conversions, the failed ones too, is shown from these three.
-/

namespace ServiceModel.OpenApi

/-! ### Schemas that leave their type to others -/

/-- What a schema makes of the type that it leaves to another. -/
inductive Wrapping where
  | same
  | list
  | map
  deriving DecidableEq, Repr

/-- What becomes of a schema when that which it leaves its type to has become something: only single values
are put in lists and maps. -/
def Wrapping.finish : Wrapping → Typed → Except BuildError Typed
  | .same, typed => .ok typed
  | .list, item =>
      if item.type.repeated || item.type.isMap then .error (.of .nestedArray)
      else .ok { item with type := { item.type with repeated := true } }
  | .map, value =>
      if value.type.repeated || value.type.isMap then .error (.of .mapOfCollections)
      else
        .ok ⟨{ FieldType.message (entryId value.type) with isMap := true },
          withEntry value.type value.table, value.nested⟩

@[simp] theorem Wrapping.bind_finish_same (r : Except BuildError Typed) :
    r.bind Wrapping.same.finish = r := by
  cases r <;> rfl

/-- A schema leaves its type to another: a reference to what is no message to its component, what is
composed of one schema alone to that schema, a list to its items and a map to its values. -/
inductive Defers (s : Setting) (schema : Schema) : Wrapping → Schema → Prop where
  | reference {r target component} :
      schema.reference = some r → s.component r = .ok (target, component) →
      component.isMessage = false → Defers s schema .same component
  | sole {only} :
      schema.reference = none → schema.allOf = [only] → schema.properties = [] →
      Defers s schema .same only
  | list {items} :
      schema.IsOwn → schema.typeName? = some "array" → schema.items = some items →
      Defers s schema .list items
  | map {values} :
      schema.IsOwn → schema.typeName? ≠ some "array" → schema.isMap = true →
      fieldType.mapValue schema = some values → Defers s schema .map values

/-- A schema is an object written in place. -/
structure Schema.IsNested (schema : Schema) : Prop where
  plain : schema.IsPlain
  typeName : schema.typeName? = some "object" ∨ schema.typeName? = none
  object : schema.isObject = true

/-- The answer for a schema that needs no other and no room: an error, or a type with what it adds to the
table. -/
abbrev Answer := Except BuildError (FieldType × (SymbolTable → SymbolTable))

/-- What a schema with an answer becomes beside a table. -/
def Answer.typed (a : Answer) (t : SymbolTable) : Except BuildError Typed :=
  a.map fun (type, fill) => ⟨type, fill t, []⟩

/-- What an object written in place becomes: the message with an ID, which the table has. -/
def Typed.object (id : String) (t : SymbolTable) : Typed := ⟨.message id, t, [id]⟩

section FieldType

variable {s : Setting} {nest : Nesting} {ownerId name : String} {room : Nat} {schema next : Schema}
  {t : SymbolTable}

/-- A schema that speaks for itself is converted by its type. -/
theorem fieldType_own (hown : schema.IsOwn) :
    fieldType s nest ownerId name (room + 1) schema t =
      if schema.typeName? = some "array" then
        match schema.items with
        | none => .error (.of .arrayWithoutItems)
        | some items => (fieldType s nest ownerId name room items t).bind Wrapping.list.finish
      else if schema.isMap then
        match fieldType.mapValue schema with
        | none => .ok ⟨{ FieldType.message (entryId .any) with isMap := true }, withEntry .any t, []⟩
        | some values => (fieldType s nest ownerId name room values t).bind Wrapping.map.finish
      else
        match schema.typeName? with
        | some "string" => .ok ⟨.ofString schema.format, t, []⟩
        | some "integer" => .ok ⟨.ofInteger schema.format, t, []⟩
        | some "number" => .ok ⟨.ofNumber schema.format, t, []⟩
        | some "boolean" => .ok ⟨{ wireType := .bool }, t, []⟩
        | some "object" => fieldType.objectType nest ownerId name schema t
        | none => fieldType.objectType nest ownerId name schema t
        | some other => .error (.of (.unsupportedSchemaType other)) := by
  rw [fieldType]
  simp only [hown.1]
  split
  next only hall hproperties => exact absurd ⟨only, hall, hproperties⟩ hown.2
  next =>
    congr 1
    · cases schema.items with
      | none => rfl
      | some items =>
          dsimp only
          cases fieldType s nest ownerId name room items t <;> rfl
    · congr 1
      cases fieldType.mapValue schema with
      | none => rfl
      | some values =>
          dsimp only
          cases fieldType s nest ownerId name room values t <;> rfl

theorem fieldType_of_defers {wrapping : Wrapping} (h : Defers s schema wrapping next) :
    fieldType s nest ownerId name (room + 1) schema t =
      (fieldType s nest ownerId name room next t).bind wrapping.finish := by
  cases h with
  | reference href hcomponent hmessage =>
      rw [fieldType]
      simp only [href, hcomponent, hmessage]
      exact (Wrapping.bind_finish_same _).symm
  | sole href hall hproperties =>
      rw [fieldType]
      simp only [href, hall, hproperties]
      exact (Wrapping.bind_finish_same _).symm
  | list hown harray hitems => rw [fieldType_own hown, if_pos harray, hitems]
  | map hown harray hmap hvalue => rw [fieldType_own hown, if_neg harray, if_pos hmap, hvalue]

theorem objectType_of_isObject (hobject : schema.isObject = true) :
    fieldType.objectType nest ownerId name schema t =
      (nest (Text.upperFirst name) (ownerId ++ "." ++ Text.upperFirst name) ownerId schema t).map
        (.object (ownerId ++ "." ++ Text.upperFirst name)) := by
  unfold fieldType.objectType
  rw [if_pos hobject]
  dsimp only
  cases nest (Text.upperFirst name) (ownerId ++ "." ++ Text.upperFirst name) ownerId schema t <;> rfl

theorem fieldType_of_isNested (h : schema.IsNested) :
    fieldType s nest ownerId name (room + 1) schema t =
      (nest (Text.upperFirst name) (ownerId ++ "." ++ Text.upperFirst name) ownerId schema t).map
        (.object (ownerId ++ "." ++ Text.upperFirst name)) := by
  obtain ⟨⟨hown, harray, hmap⟩, htype, hobject⟩ := h
  rw [fieldType_own hown, if_neg harray, if_neg (by simp [hmap])]
  rcases htype with htype | htype <;> simp only [htype, objectType_of_isObject hobject]

end FieldType

/-- A schema is converted as an answer says, wherever it stands. -/
def AnsweredBy (s : Setting) (schema : Schema) (a : Answer) : Prop :=
  ∀ (nest : Nesting) (ownerId name : String) (room : Nat) (t : SymbolTable),
    fieldType s nest ownerId name (room + 1) schema t = a.typed t

/-- The three kinds of schemas. -/
inductive Kind (s : Setting) (schema : Schema) : Prop where
  | defers {wrapping next} : Defers s schema wrapping next → Kind s schema
  | nested : schema.IsNested → Kind s schema
  | answered {a : Answer} : AnsweredBy s schema a → ¬ Endless a → Kind s schema

theorem Setting.not_endless_component (s : Setting) (r : String) : ¬ Endless (s.component r) := by
  unfold Setting.component
  split
  · simp [BuildError.of]
  · split <;> simp [BuildError.of]

/-- The answer for a plain schema that is no object. -/
def Schema.plainAnswer (schema : Schema) : Answer :=
  match schema.typeName? with
  | some "string" => .ok (.ofString schema.format, id)
  | some "integer" => .ok (.ofInteger schema.format, id)
  | some "number" => .ok (.ofNumber schema.format, id)
  | some "boolean" => .ok ({ wireType := .bool }, id)
  | some "object" => .ok (.any, id)
  | none => .ok (.any, id)
  | some other => .error (.of (.unsupportedSchemaType other))

theorem Schema.IsPlain.answeredBy {s : Setting} {schema : Schema} (hplain : schema.IsPlain)
    (h : ¬ schema.IsNested) : AnsweredBy s schema schema.plainAnswer := by
  intro nest ownerId name room t
  obtain ⟨hown, harray, hmap⟩ := hplain
  have hobjectType (htype : schema.typeName? = some "object" ∨ schema.typeName? = none) :
      fieldType.objectType nest ownerId name schema t = .ok ⟨.any, t, []⟩ := by
    unfold fieldType.objectType
    exact if_neg fun hobject => h ⟨⟨hown, harray, hmap⟩, htype, hobject⟩
  rw [fieldType_own hown, if_neg harray, if_neg (by simp [hmap])]
  unfold Schema.plainAnswer
  split
  next => rfl
  next => rfl
  next => rfl
  next => rfl
  next htype => exact hobjectType (Or.inl htype)
  next htype => exact hobjectType (Or.inr htype)
  next => rfl

theorem Schema.not_endless_plainAnswer (schema : Schema) : ¬ Endless schema.plainAnswer := by
  unfold Schema.plainAnswer
  split <;> simp [BuildError.of]

/-- Every schema is of one of the kinds. -/
theorem Schema.kind (s : Setting) (schema : Schema) : Kind s schema := by
  cases href : schema.reference with
  | some r =>
      cases hcomponent : s.component r with
      | error e =>
          have hanswered : AnsweredBy s schema (.error e) := fun _ _ _ _ _ => by
            rw [fieldType]
            simp only [href, hcomponent]
            rfl
          have hends := s.not_endless_component r
          rw [hcomponent] at hends
          exact .answered hanswered hends
      | ok found =>
          obtain ⟨target, component⟩ := found
          cases hmessage : component.isMessage with
          | false => exact .defers (.reference href hcomponent hmessage)
          | true =>
              have hanswered : AnsweredBy s schema (.ok (.message (s.id target), id)) :=
                fun _ _ _ _ _ => by
                  rw [fieldType]
                  simp only [href, hcomponent, hmessage]
                  rfl
              exact .answered hanswered (not_endless_ok _)
  | none =>
      by_cases hsole : ∃ only, schema.allOf = [only] ∧ schema.properties = []
      · obtain ⟨only, hall, hproperties⟩ := hsole
        exact .defers (.sole href hall hproperties)
      have hown : schema.IsOwn := ⟨href, hsole⟩
      by_cases harray : schema.typeName? = some "array"
      · cases hitems : schema.items with
        | some items => exact .defers (.list hown harray hitems)
        | none =>
            have hanswered : AnsweredBy s schema (.error (.of .arrayWithoutItems)) :=
              fun _ _ _ _ _ => by
                rw [fieldType_own hown, if_pos harray, hitems]
                rfl
            exact .answered hanswered (by simp [BuildError.of])
      cases hmap : schema.isMap with
      | true =>
          cases hvalue : fieldType.mapValue schema with
          | some values => exact .defers (.map hown harray hmap hvalue)
          | none =>
              have hanswered : AnsweredBy s schema
                  (.ok ({ FieldType.message (entryId .any) with isMap := true }, withEntry .any)) :=
                fun _ _ _ _ _ => by
                  rw [fieldType_own hown, if_neg harray, if_pos hmap, hvalue]
                  rfl
              exact .answered hanswered (not_endless_ok _)
      | false =>
          have hplain : schema.IsPlain := ⟨hown, harray, hmap⟩
          by_cases hnested : schema.IsNested
          · exact .nested hnested
          · exact .answered (hplain.answeredBy hnested) schema.not_endless_plainAnswer

/-! ### Objects, part by part -/

section Objects

variable {s : Setting} {nest : Nesting}

theorem addField_eq (s : Setting) (nest : Nesting) (name : String) (schema : Schema) (required : Bool)
    (finish : Field → Field) (f : Filling) :
    addField s nest name schema required finish f =
      (fieldType s nest f.message.id name (deepest + 1) schema f.table).map fun typed =>
        f.push (finish (fieldOf f.message.id name schema required typed.type)) typed.nested
          typed.table := by
  unfold addField
  cases fieldType s nest f.message.id name (deepest + 1) schema f.table <;> rfl

/-- Adds the field that a part describes. -/
def addPart (s : Setting) (nest : Nesting) (f : Filling) (p : Part) : Except BuildError Filling :=
  during (.property p.name) (addField s nest p.name p.schema p.required id f)

theorem fieldNames_of_addPart {f f' : Filling} {p : Part} (h : addPart s nest f p = .ok f') :
    f'.message.fieldNames = f.message.fieldNames ++ [p.name] := by
  obtain ⟨typed, -, rfl⟩ := addField_eq_ok (during_eq_ok_iff.1 h)
  simp [Message.fieldNames, Filling.push, fieldOf]

/-- Of the properties, the parts that are not there yet are added one after the other. -/
theorem addProperties_eq (required : NameSet) (properties : List (String × Schema)) (f : Filling) :
    addProperties s nest required properties f =
      (Part.unseen f.message.fieldNames (properties.map fun p =>
        ⟨p.1, p.2, required.contains p.1⟩)).foldlM (addPart s nest) f := by
  induction properties generalizing f with
  | nil => rfl
  | cons p rest ih =>
      obtain ⟨name, schema⟩ := p
      rw [addProperties, List.map_cons, Part.unseen]
      split
      · exact ih f
      · rw [List.foldlM_cons]
        cases h : addPart s nest f ⟨name, schema, required.contains name⟩ with
        | error e =>
            rw [addPart] at h
            simp only [h]
            rfl
        | ok f' =>
            have hnames := fieldNames_of_addPart h
            rw [addPart] at h
            simp only [h, ih f', hnames]
            rfl

/-- An object becomes a message that its parts have been added to. -/
theorem objectMessage_succ (levels : Nat) (name id : String) (parent : Option String)
    (schema : Schema) (t : SymbolTable) :
    objectMessage s (levels + 1) name id parent schema t =
      (flatten s (deepest + 1) schema).bind fun flat =>
        (flat.parts.foldlM (addPart s (nestAt s levels)) ⟨emptyMessage s name id parent schema, t⟩).map
          Filling.close := by
  rw [objectMessage]
  cases flatten s (deepest + 1) schema with
  | error e => rfl
  | ok flat =>
      have hparts : addProperties s (nestAt s levels) (.ofList flat.required) flat.properties
          ⟨emptyMessage s name id parent schema, t⟩ =
            flat.parts.foldlM (addPart s (nestAt s levels)) ⟨emptyMessage s name id parent schema, t⟩ :=
        addProperties_eq _ _ _
      dsimp only [Except.bind]
      rw [← hparts]
      split
      next e he => exact (congrArg (Except.map Filling.close) he).symm
      next f hf => exact (congrArg (Except.map Filling.close) hf).symm

end Objects

end ServiceModel.OpenApi
