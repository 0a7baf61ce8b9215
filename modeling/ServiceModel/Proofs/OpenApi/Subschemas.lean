import ServiceModel.Proofs.OpenApi.Deferral
import ServiceModel.Proofs.OpenApi.Flattening

/-!
All schemas that a conversion can come to.  They are the parts of the schema that it begins with and of the
components, so there are no more of them than the sizes of these count.
-/

namespace ServiceModel.OpenApi

namespace Schema

/-! ### Schemas in schemas -/

/-- The schemas that stand directly in a schema. -/
def children (schema : Schema) : List Schema :=
  schema.properties.map (·.2) ++ schema.items.toList ++ schema.allOf ++
    match schema.additional with
    | some (.values values) => [values]
    | _ => []

mutual

/-- A schema and all schemas in it. -/
def subschemas : Schema → List Schema
  | schema@⟨_, _, properties, _, items, _, allOf, additional, _, _, _⟩ =>
      schema :: (subschemasNamed properties ++ subschemasOption items ++ subschemasList allOf ++
        subschemasAdditional additional)

def subschemasNamed : List (String × Schema) → List Schema
  | [] => []
  | (_, s) :: ss => subschemas s ++ subschemasNamed ss

def subschemasOption : Option Schema → List Schema
  | none => []
  | some s => subschemas s

def subschemasList : List Schema → List Schema
  | [] => []
  | s :: ss => subschemas s ++ subschemasList ss

def subschemasAdditional : Option (Additional Schema) → List Schema
  | some (.values s) => subschemas s
  | _ => []

end

mutual

/-- There are as many as the size of the schema says. -/
theorem length_subschemas : ∀ schema : Schema, schema.subschemas.length = schema.size
  | ⟨_, _, properties, _, items, _, allOf, additional, _, _, _⟩ => by
      simp only [subschemas, size, List.length_cons, List.length_append,
        length_subschemasNamed properties, length_subschemasOption items, length_subschemasList allOf,
        length_subschemasAdditional additional]
      omega

theorem length_subschemasNamed :
    ∀ schemas : List (String × Schema), (subschemasNamed schemas).length = sizeNamed schemas
  | [] => rfl
  | (_, s) :: ss => by
      rw [subschemasNamed, sizeNamed, List.length_append, length_subschemas s, length_subschemasNamed ss]

theorem length_subschemasOption :
    ∀ schema : Option Schema, (subschemasOption schema).length = sizeOption schema
  | none => rfl
  | some s => by rw [subschemasOption, sizeOption, length_subschemas s]

theorem length_subschemasList :
    ∀ schemas : List Schema, (subschemasList schemas).length = sizeList schemas
  | [] => rfl
  | s :: ss => by
      rw [subschemasList, sizeList, List.length_append, length_subschemas s, length_subschemasList ss]

theorem length_subschemasAdditional : ∀ additional : Option (Additional Schema),
    (subschemasAdditional additional).length = sizeAdditional additional
  | none => rfl
  | some (.allowed _) => rfl
  | some (.values s) => by rw [subschemasAdditional, sizeAdditional, length_subschemas s]

end

theorem subschemasNamed_eq (schemas : List (String × Schema)) :
    subschemasNamed schemas = schemas.flatMap (·.2.subschemas) := by
  induction schemas with
  | nil => rfl
  | cons p ps ih => rw [subschemasNamed, ih, List.flatMap_cons]

theorem subschemasList_eq (schemas : List Schema) :
    subschemasList schemas = schemas.flatMap subschemas := by
  induction schemas with
  | nil => rfl
  | cons s ss ih => rw [subschemasList, ih, List.flatMap_cons]

/-- A schema is followed by what is in its children. -/
theorem subschemas_eq (schema : Schema) :
    schema.subschemas = schema :: schema.children.flatMap subschemas := by
  obtain ⟨_, _, properties, _, items, _, allOf, additional, _, _, _⟩ := schema
  have hitems : subschemasOption items = items.toList.flatMap subschemas := by
    cases items <;> simp [subschemasOption]
  rw [subschemas, children, subschemasNamed_eq, subschemasList_eq, hitems]
  simp only [List.flatMap_append, List.flatMap_map]
  congr 2
  rcases additional with _ | ⟨_ | values⟩ <;> simp [subschemasAdditional]

theorem mem_subschemas_self (schema : Schema) : schema ∈ schema.subschemas := by
  rw [subschemas_eq]
  exact List.mem_cons_self

theorem size_lt_of_mem_children {schema child : Schema} (h : child ∈ schema.children) :
    child.size < schema.size := by
  have hsub : child.subschemas.Sublist (schema.children.flatMap subschemas) :=
    List.sublist_flatten_of_mem (List.mem_map_of_mem h)
  rw [← length_subschemas, ← length_subschemas schema, subschemas_eq schema, List.length_cons]
  exact Nat.lt_succ_of_le hsub.length_le

/-- What is in a schema that is in another is in the other. -/
theorem mem_subschemas_of_mem_children {schema other child : Schema} (h : schema ∈ other.subschemas)
    (hchild : child ∈ schema.children) : child ∈ other.subschemas := by
  rw [subschemas_eq] at h ⊢
  rcases List.mem_cons.1 h with rfl | h
  · exact List.mem_cons_of_mem _ (List.mem_flatMap.2 ⟨child, hchild, mem_subschemas_self child⟩)
  · obtain ⟨within, hwithin, h⟩ := List.mem_flatMap.1 h
    have hlt := size_lt_of_mem_children hwithin
    exact List.mem_cons_of_mem _
      (List.mem_flatMap.2 ⟨within, hwithin, mem_subschemas_of_mem_children h hchild⟩)
termination_by other.size

end Schema

/-! ### Schemas in the reach of others -/

/-- A schema and the components, with all that is in them. -/
def Setting.scope (s : Setting) (schema : Schema) : List Schema :=
  schema.subschemas ++ s.schemas.flatMap (·.2.subschemas)

section Scope

variable {s : Setting} {schema visited next : Schema}

/-- One level more than there are schemas is allowed for. -/
theorem Setting.length_scope (s : Setting) (schema : Schema) :
    (s.scope schema).length + 1 = s.levels schema := by
  rw [scope, levels, List.length_append, ← Schema.subschemasNamed_eq, Schema.length_subschemas,
    Schema.length_subschemasNamed]

theorem Setting.mem_scope_self (s : Setting) (schema : Schema) : schema ∈ s.scope schema :=
  List.mem_append_left _ schema.mem_subschemas_self

theorem Setting.mem_scope_of_mem_children (h : visited ∈ s.scope schema)
    (hnext : next ∈ visited.children) : next ∈ s.scope schema := by
  rcases List.mem_append.1 h with h | h
  · exact List.mem_append_left _ (Schema.mem_subschemas_of_mem_children h hnext)
  · obtain ⟨p, hp, h⟩ := List.mem_flatMap.1 h
    exact List.mem_append_right _
      (List.mem_flatMap.2 ⟨p, hp, Schema.mem_subschemas_of_mem_children h hnext⟩)

theorem Setting.mem_scope_of_component {r target : String}
    (h : s.component r = .ok (target, next)) : next ∈ s.scope schema :=
  List.mem_append_right _
    (List.mem_flatMap.2 ⟨_, Setting.mem_of_component h, next.mem_subschemas_self⟩)

/-- A schema leaves its type to a component that is no message, or to one of its children. -/
theorem Defers.reference_or_mem_children {wrapping : Wrapping}
    (h : Defers s visited wrapping next) :
    (∃ r target, s.component r = .ok (target, next) ∧ next.isMessage = false) ∨
      next ∈ visited.children := by
  cases h with
  | reference _ hcomponent hmessage => exact Or.inl ⟨_, _, hcomponent, hmessage⟩
  | sole _ hall _ => exact Or.inr (by simp [Schema.children, hall])
  | list _ _ hitems => exact Or.inr (by simp [Schema.children, hitems])
  | map _ _ _ hvalue =>
      unfold fieldType.mapValue at hvalue
      split at hvalue
      next values hvalues =>
        split at hvalue <;> cases hvalue
        exact Or.inr (by simp [Schema.children, hvalues])
      next => cases hvalue

theorem Defers.mem_scope {wrapping : Wrapping} (hdefers : Defers s visited wrapping next)
    (h : visited ∈ s.scope schema) : next ∈ s.scope schema := by
  rcases hdefers.reference_or_mem_children with ⟨r, target, hcomponent, -⟩ | hchild
  · exact Setting.mem_scope_of_component hcomponent
  · exact Setting.mem_scope_of_mem_children h hchild

theorem mem_scope_of_flatten {room : Nat} {flat : Flattened}
    (hflat : flatten s room visited = .ok flat) (h : visited ∈ s.scope schema) :
    ∀ p ∈ flat.properties, p.2 ∈ s.scope schema := by
  induction room generalizing visited flat with
  | zero => cases hflat
  | succ room ih =>
      intro p hp
      obtain ⟨_, _, _, -, hcomponent, hflat⟩ | ⟨parts, -, hparts, rfl⟩ := flatten_succ_eq_ok hflat
      · exact ih hflat (Setting.mem_scope_of_component hcomponent) p hp
      · rcases List.mem_append.1 hp with hp | hp
        · obtain ⟨part, hpart, hp⟩ := List.mem_flatMap.1 hp
          obtain ⟨member, hmember, hflat⟩ := exists_mem_left hparts hpart
          refine ih hflat (Setting.mem_scope_of_mem_children h ?_) p hp
          simp [Schema.children, hmember]
        · refine Setting.mem_scope_of_mem_children h ?_
          have hchild : p.2 ∈ visited.properties.map (·.2) := List.mem_map_of_mem hp
          simp [Schema.children, hchild]

/-- The parts of an object are in the reach of the object. -/
theorem mem_scope_of_mem_parts {room : Nat} {flat : Flattened} {part : Part}
    (hflat : flatten s room visited = .ok flat) (hpart : part ∈ flat.parts)
    (h : visited ∈ s.scope schema) : part.schema ∈ s.scope schema := by
  obtain ⟨p, hp, rfl⟩ := List.mem_map.1 (Part.get?_of_mem_unseen hpart).1
  exact mem_scope_of_flatten hflat h p hp

end Scope

end ServiceModel.OpenApi
