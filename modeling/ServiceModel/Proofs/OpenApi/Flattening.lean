import ServiceModel.Proofs.Build
import ServiceModel.Proofs.OpenApi.Origin
import ServiceModel.Proofs.Text.Split

/-!
Objects composed of others.  What an object has of properties is told by the schemas alone, without a depth
or a table: those of the component that it refers to, or those of the schemas it is composed of with its own
behind them.  Flattening gives just these, or an error where references and compositions do not come to an
end, lead too deep or lead nowhere; and an object has one field for each name among them.
-/

namespace ServiceModel

/-! ### Traversals -/

section Traversals

variable {α β ε : Type} {g : α → Except ε β} {xs : List α}

/-- A traversal that succeeds has a result for each member. -/
theorem forall₂_of_mapM_eq_ok {ys : List β} (h : xs.mapM g = .ok ys) :
    List.Forall₂ (fun x y => g x = .ok y) xs ys := by
  induction xs generalizing ys with
  | nil =>
      cases h
      exact .nil
  | cons x xs ih =>
      rw [List.mapM_cons] at h
      cases hx : g x with
      | error e =>
          rw [hx] at h
          cases h
      | ok y =>
          cases hxs : xs.mapM g with
          | error e =>
              rw [hx, hxs] at h
              cases h
          | ok rest =>
              rw [hx, hxs] at h
              cases h
              exact .cons hx (ih hxs)

/-- A traversal fails with the error of a member. -/
theorem exists_of_mapM_eq_error {e : ε} (h : xs.mapM g = .error e) : ∃ x ∈ xs, g x = .error e := by
  induction xs with
  | nil => cases h
  | cons x xs ih =>
      rw [List.mapM_cons] at h
      cases hx : g x with
      | error e' =>
          rw [hx] at h
          cases h
          exact ⟨x, List.mem_cons_self, hx⟩
      | ok y =>
          cases hxs : xs.mapM g with
          | error e' =>
              rw [hx, hxs] at h
              cases h
              obtain ⟨x', hmem, hx'⟩ := ih hxs
              exact ⟨x', List.mem_cons_of_mem _ hmem, hx'⟩
          | ok rest =>
              rw [hx, hxs] at h
              cases h

end Traversals

namespace OpenApi

/-! ### Components -/

/-- A reference leads to a component just if it names one. -/
theorem Setting.component_eq_ok_iff {s : Setting} {r name : String} {component : Schema} :
    s.component r = .ok (name, component) ↔
      r = componentLead ++ name ∧ Keyed.get? name s.schemas = some component := by
  unfold Setting.component
  split
  next hnone =>
    refine iff_of_false nofun fun h => ?_
    exact absurd (hnone.symm.trans (Text.dropLead?_eq_some_iff.2 h.1)) nofun
  next name' hname' =>
    have hr : r = componentLead ++ name ↔ name' = name := by
      rw [← Text.dropLead?_eq_some_iff, hname', Option.some_inj]
    rw [hr]
    split
    next hget =>
      refine iff_of_false nofun ?_
      rintro ⟨rfl, hget'⟩
      exact absurd (hget.symm.trans hget') nofun
    next schema hget =>
      constructor
      · intro h
        cases h
        exact ⟨rfl, hget⟩
      · rintro ⟨rfl, hget'⟩
        rw [hget, Option.some_inj] at hget'
        rw [hget']

/-! ### Where schemas lead -/

/-- One step of flattening: to the component that a schema refers to, or else to a schema that it is
composed of. -/
inductive Expands (s : Setting) : Schema → Schema → Prop where
  | reference {schema r name component} :
      schema.reference = some r → s.component r = .ok (name, component) →
      Expands s schema component
  | composed {schema member} :
      schema.reference = none → member ∈ schema.allOf → Expands s schema member

/-- A schema leads to another in a number of steps. -/
inductive LeadsTo (s : Setting) : Nat → Schema → Schema → Prop where
  | here {schema} : LeadsTo s 0 schema schema
  | further {depth schema next visited} :
      Expands s schema next → LeadsTo s depth next visited → LeadsTo s (depth + 1) schema visited

variable {s : Setting}

theorem LeadsTo.trans {m n : Nat} {a b c : Schema} (hab : LeadsTo s m a b) (hbc : LeadsTo s n b c) :
    LeadsTo s (m + n) a c := by
  induction hab with
  | here => simpa using hbc
  | further hstep _ ih =>
      rw [Nat.add_right_comm]
      exact .further hstep (ih hbc)

/-- What leads back to itself leads to itself in as many steps as one likes. -/
theorem LeadsTo.again {n : Nat} {visited : Schema} (h : LeadsTo s n visited visited) (k : Nat) :
    LeadsTo s (k * n) visited visited := by
  induction k with
  | zero => simpa using .here
  | succ k ih =>
      rw [Nat.succ_mul]
      exact ih.trans h

/-- A schema cannot be flattened: what it leads to leads back to itself, is too deep, or refers to no
component. -/
inductive Unfit (s : Setting) (schema : Schema) : Prop where
  | endless {depth n visited} :
      LeadsTo s depth schema visited → LeadsTo s (n + 1) visited visited → Unfit s schema
  | tooDeep {depth visited} : LeadsTo s depth schema visited → deepest < depth → Unfit s schema
  | dangling {depth visited r} :
      LeadsTo s depth schema visited → visited.reference = some r →
      (∀ name, r = Setting.componentLead ++ name → Keyed.get? name s.schemas = none) →
      Unfit s schema

/-- The error for a schema that cannot be flattened: it leads too deep, or to a reference that is that to
no component. -/
def Refused (s : Setting) (schema : Schema) (e : BuildError) : Prop :=
  e = .of .compositionTooDeep ∨
    ∃ depth visited r, LeadsTo s depth schema visited ∧ visited.reference = some r ∧
      s.component r = .error e

/-! ### What schemas have -/

/-- The properties of some schemas, one schema after the other: for a reference those of its component and
nothing beside it, else those of the schemas it is composed of and then its own. -/
inductive Flat (s : Setting) : List Schema → List (String × Schema) → Prop where
  | nil : Flat s [] []
  | reference {schema r name component rest inner outer} :
      schema.reference = some r → s.component r = .ok (name, component) →
      Flat s [component] inner → Flat s rest outer → Flat s (schema :: rest) (inner ++ outer)
  | composed {schema rest inner outer} :
      schema.reference = none → Flat s schema.allOf inner → Flat s rest outer →
      Flat s (schema :: rest) (inner ++ schema.properties ++ outer)

/-- A schema that another leads to lists a name among those it requires.  Beside a reference nothing is
listed. -/
def Requires (s : Setting) (schema : Schema) (name : String) : Prop :=
  ∃ depth visited, LeadsTo s depth schema visited ∧ visited.reference = none ∧
    name ∈ visited.required

theorem Flat.unique {schemas : List Schema} {ps ps' : List (String × Schema)}
    (h : Flat s schemas ps) (h' : Flat s schemas ps') : ps = ps' := by
  induction h generalizing ps' with
  | nil =>
      cases h'
      rfl
  | reference href hcomponent _ _ ihinner ihouter =>
      cases h' with
      | reference href' hcomponent' hinner houter =>
          cases href.symm.trans href'
          cases hcomponent.symm.trans hcomponent'
          rw [ihinner hinner, ihouter houter]
      | composed hnone => exact absurd (href.symm.trans hnone) nofun
  | composed hnone _ _ ihinner ihouter =>
      cases h' with
      | reference href => exact absurd (hnone.symm.trans href) nofun
      | composed _ hinner houter => rw [ihinner hinner, ihouter houter]

theorem Flat.cons {schema : Schema} {rest : List Schema} {ps qs : List (String × Schema)}
    (h : Flat s [schema] ps) (hrest : Flat s rest qs) : Flat s (schema :: rest) (ps ++ qs) := by
  cases h with
  | reference href hcomponent hinner hnil =>
      cases hnil
      simpa using hinner.reference href hcomponent hrest
  | composed hnone hinner hnil =>
      cases hnil
      simpa using hinner.composed hnone hrest

theorem Flat.flatMap {schemas : List Schema} {parts : List Flattened}
    (h : List.Forall₂ (fun member part => Flat s [member] part.properties) schemas parts) :
    Flat s schemas (parts.flatMap (·.properties)) := by
  induction h with
  | nil => exact .nil
  | cons hmember _ ih => exact hmember.cons ih

theorem requires_of_reference {schema component : Schema} {r target name : String}
    (href : schema.reference = some r) (hcomponent : s.component r = .ok (target, component)) :
    Requires s schema name ↔ Requires s component name := by
  constructor
  · rintro ⟨_, _, hleads, hown, hname⟩
    cases hleads with
    | here => exact absurd (hown.symm.trans href) nofun
    | further hstep hleads =>
        cases hstep with
        | reference href' hcomponent' =>
            cases href.symm.trans href'
            cases hcomponent.symm.trans hcomponent'
            exact ⟨_, _, hleads, hown, hname⟩
        | composed hnone => exact absurd (href.symm.trans hnone) nofun
  · rintro ⟨_, _, hleads, hown, hname⟩
    exact ⟨_, _, .further (.reference href hcomponent) hleads, hown, hname⟩

theorem requires_of_own {schema : Schema} {name : String} (hnone : schema.reference = none) :
    Requires s schema name ↔
      (∃ member ∈ schema.allOf, Requires s member name) ∨ name ∈ schema.required := by
  constructor
  · rintro ⟨_, _, hleads, hown, hname⟩
    cases hleads with
    | here => exact Or.inr hname
    | further hstep hleads =>
        cases hstep with
        | reference href => exact absurd (hnone.symm.trans href) nofun
        | composed _ hmember => exact Or.inl ⟨_, hmember, _, _, hleads, hown, hname⟩
  · rintro (⟨member, hmember, _, _, hleads, hown, hname⟩ | hname)
    · exact ⟨_, _, .further (.composed hnone hmember) hleads, hown, hname⟩
    · exact ⟨_, _, .here, hnone, hname⟩

theorem mem_flatMap_required {schemas : List Schema} {parts : List Flattened} {name : String}
    (h : List.Forall₂ (fun member part => name ∈ part.required ↔ Requires s member name) schemas
      parts) :
    name ∈ parts.flatMap (·.required) ↔ ∃ member ∈ schemas, Requires s member name := by
  induction h with
  | nil => simp
  | cons hmember _ ih => simp [ih, hmember]

/-! ### Flattening -/

/-- What has been flattened is a component, or the parts that a schema is composed of and its own. -/
theorem flatten_succ_eq_ok {room : Nat} {schema : Schema} {flat : Flattened}
    (h : flatten s (room + 1) schema = .ok flat) :
    (∃ r name component, schema.reference = some r ∧ s.component r = .ok (name, component) ∧
        flatten s room component = .ok flat) ∨
      ∃ parts, schema.reference = none ∧
        List.Forall₂ (fun member part => flatten s room member = .ok part) schema.allOf parts ∧
        flat = .append parts (.own schema) := by
  rw [flatten] at h
  split at h
  next r href =>
    split at h
    · cases h
    next name component hcomponent => exact Or.inl ⟨r, name, component, href, hcomponent, h⟩
  next hnone =>
    split at h
    · cases h
    next parts hparts =>
      cases h
      exact Or.inr ⟨parts, hnone, forall₂_of_mapM_eq_ok hparts, rfl⟩

theorem flat_of_flatten {room : Nat} {schema : Schema} {flat : Flattened}
    (h : flatten s room schema = .ok flat) : Flat s [schema] flat.properties := by
  induction room generalizing schema flat with
  | zero => cases h
  | succ room ih =>
      obtain ⟨r, name, component, href, hcomponent, h⟩ | ⟨parts, hnone, hparts, rfl⟩ :=
        flatten_succ_eq_ok h
      · simpa using (ih h).reference href hcomponent .nil
      · have hinner : Flat s schema.allOf (parts.flatMap (·.properties)) :=
          .flatMap (hparts.imp fun _ _ => ih)
        simpa [Flattened.append, Flattened.own] using hinner.composed hnone .nil

theorem mem_required_of_flatten {room : Nat} {schema : Schema} {flat : Flattened} {name : String}
    (h : flatten s room schema = .ok flat) : name ∈ flat.required ↔ Requires s schema name := by
  induction room generalizing schema flat with
  | zero => cases h
  | succ room ih =>
      obtain ⟨r, target, component, href, hcomponent, h⟩ | ⟨parts, hnone, hparts, rfl⟩ :=
        flatten_succ_eq_ok h
      · rw [requires_of_reference href hcomponent]
        exact ih h
      · rw [requires_of_own hnone, ← mem_flatMap_required (hparts.imp fun _ _ => ih)]
        exact List.mem_append

/-- Where flattening succeeds, no schema is deeper than there is room, and every reference is one to a
component. -/
theorem bounded_of_flatten {room depth : Nat} {schema visited : Schema} {flat : Flattened}
    (h : flatten s room schema = .ok flat) (hleads : LeadsTo s depth schema visited) :
    depth < room ∧
      ∀ r, visited.reference = some r → ∃ name component, s.component r = .ok (name, component) := by
  induction room generalizing depth schema flat with
  | zero => cases h
  | succ room ih =>
      obtain ⟨r, name, component, href, hcomponent, h⟩ | ⟨parts, hnone, hparts, -⟩ :=
        flatten_succ_eq_ok h
      · cases hleads with
        | here =>
            refine ⟨Nat.succ_pos _, fun r' href' => ?_⟩
            cases href.symm.trans href'
            exact ⟨name, component, hcomponent⟩
        | further hstep hleads =>
            cases hstep with
            | reference href' hcomponent' =>
                cases href.symm.trans href'
                cases hcomponent.symm.trans hcomponent'
                exact (ih h hleads).imp_left Nat.succ_lt_succ
            | composed hnone => exact absurd (href.symm.trans hnone) nofun
      · cases hleads with
        | here => exact ⟨Nat.succ_pos _, fun r href => absurd (hnone.symm.trans href) nofun⟩
        | further hstep hleads =>
            cases hstep with
            | reference href => exact absurd (hnone.symm.trans href) nofun
            | composed _ hmember =>
                obtain ⟨part, -, hpart⟩ := exists_mem_left hparts.flip hmember
                exact (ih hpart hleads).imp_left Nat.succ_lt_succ

/-- Where flattening with some room cannot go on: where a schema leads as deep as there is room, or at a
reference that is that to no component. -/
def Stuck (s : Setting) (room : Nat) (schema : Schema) (e : BuildError) : Prop :=
  (e = .of .compositionTooDeep ∧ ∃ visited, LeadsTo s room schema visited) ∨
    ∃ depth visited r, LeadsTo s depth schema visited ∧ visited.reference = some r ∧
      s.component r = .error e

theorem Stuck.further {room : Nat} {schema next : Schema} {e : BuildError}
    (h : Stuck s room next e) (hstep : Expands s schema next) : Stuck s (room + 1) schema e := by
  rcases h with ⟨he, visited, hleads⟩ | ⟨depth, visited, r, hleads, hrest⟩
  · exact Or.inl ⟨he, visited, .further hstep hleads⟩
  · exact Or.inr ⟨depth + 1, visited, r, .further hstep hleads, hrest⟩

/-- Flattening fails only where it cannot go on. -/
theorem stuck_of_flatten {room : Nat} {schema : Schema} {e : BuildError}
    (h : flatten s room schema = .error e) : Stuck s room schema e := by
  induction room generalizing schema with
  | zero =>
      cases h
      exact Or.inl ⟨rfl, schema, .here⟩
  | succ room ih =>
      rw [flatten] at h
      split at h
      next r href =>
        split at h
        next e' hcomponent =>
          cases h
          exact Or.inr ⟨0, schema, r, .here, href, hcomponent⟩
        next name component hcomponent => exact (ih h).further (.reference href hcomponent)
      next hnone =>
        split at h
        next e' hmembers =>
          cases h
          obtain ⟨member, hmember, herror⟩ := exists_of_mapM_eq_error hmembers
          exact (ih herror).further (.composed hnone hmember)
        · cases h

/-- A schema cannot be flattened just if flattening fails. -/
theorem unfit_iff {schema : Schema} :
    Unfit s schema ↔ ∃ e, flatten s (deepest + 1) schema = .error e ∧ Refused s schema e := by
  constructor
  · intro h
    cases hflat : flatten s (deepest + 1) schema with
    | error e => exact ⟨e, rfl, (stuck_of_flatten hflat).imp_left And.left⟩
    | ok flat =>
        exfalso
        cases h with
        | @endless depth n visited hleads hback =>
            -- round the loop often enough it is deeper than there is room
            have hdeep := (bounded_of_flatten hflat (hleads.trans (hback.again (deepest + 1)))).1
            have hlong : deepest + 1 ≤ (deepest + 1) * (n + 1) :=
              Nat.le_mul_of_pos_right _ (Nat.succ_pos n)
            omega
        | tooDeep hleads hdeep =>
            have hroom := (bounded_of_flatten hflat hleads).1
            omega
        | dangling hleads href hnone =>
            obtain ⟨name, component, hcomponent⟩ := (bounded_of_flatten hflat hleads).2 _ href
            obtain ⟨hr, hget⟩ := Setting.component_eq_ok_iff.1 hcomponent
            exact absurd ((hnone name hr).symm.trans hget) nofun
  · rintro ⟨e, hflat, -⟩
    rcases stuck_of_flatten hflat with ⟨-, visited, hleads⟩ | ⟨_, _, r, hleads, href, herror⟩
    · exact .tooDeep hleads (Nat.lt_succ_self _)
    · refine .dangling hleads href fun name hr => ?_
      cases hget : Keyed.get? name s.schemas with
      | none => rfl
      | some component =>
          have hcomponent := Setting.component_eq_ok_iff.2 ⟨hr, hget⟩
          exact absurd (herror.symm.trans hcomponent) nofun

/-! ### Fields -/

namespace Part

/-- The parts that remain have the names that were not given, each once, in the order of their first
mention. -/
theorem names_unseen (names : List String) (ps : List Part) :
    (unseen names ps).map (·.name) =
      ((ps.map (·.name)).filter fun name => !names.contains name).eraseDups := by
  induction ps generalizing names with
  | nil => rfl
  | cons p ps ih =>
      rw [unseen]
      split
      next hseen => rw [List.map_cons, List.filter_cons_of_neg (by simpa using hseen), ih]
      next hnew =>
        rw [List.map_cons, ih, List.map_cons, List.filter_cons_of_pos (by simpa using hnew),
          List.eraseDups_cons, List.filter_filter]
        congr 3
        funext name
        by_cases hname : name = p.name <;> simp [hname]

/-- A part that remains is the first of its name. -/
theorem get?_of_mem_unseen {names : List String} {ps : List Part} {p : Part}
    (h : p ∈ unseen names ps) :
    p ∈ ps ∧ p.name ∉ names ∧
      Keyed.get? p.name (ps.map fun q => (q.name, q.schema)) = some p.schema := by
  induction ps generalizing names with
  | nil => cases h
  | cons q ps ih =>
      rw [unseen] at h
      rw [List.map_cons, Keyed.get?]
      split at h
      next hseen =>
        obtain ⟨hmem, hnew, hget⟩ := ih h
        have hne : p.name ≠ q.name := fun heq => hnew (heq ▸ List.contains_iff_mem.1 hseen)
        rw [if_neg hne]
        exact ⟨List.mem_cons_of_mem _ hmem, hnew, hget⟩
      next hnew =>
        rcases List.mem_cons.1 h with rfl | h
        · rw [if_pos rfl]
          exact ⟨List.mem_cons_self, fun hmem => hnew (List.contains_iff_mem.2 hmem), rfl⟩
        · obtain ⟨hmem, hlater, hget⟩ := ih h
          rw [List.mem_append, List.mem_singleton, not_or] at hlater
          rw [if_neg hlater.2]
          exact ⟨List.mem_cons_of_mem _ hmem, hlater.1, hget⟩

end Part

/-! ### Objects -/

/-- What the message of an object has for some properties: one field for each name, in the order of their
first mention and as it is described there.  A field is required if any of the schemas says so. -/
structure MadeFrom (s : Setting) (schema : Schema) (properties : List (String × Schema))
    (m : Message) : Prop where
  names : m.fieldNames = (properties.map (·.1)).eraseDups
  fields : ∀ f ∈ m.fields, ∃ described required,
    Keyed.get? f.name properties = some described ∧
      (required = true ↔ Requires s schema f.name) ∧ Becomes s m.id ⟨f.name, described, required⟩ f
  required : ∀ f ∈ m.fields, .required ∈ f.behavior ↔ Requires s schema f.name

theorem required_mem_behavior_iff {ownerId name : String} {schema : Schema} {required : Bool}
    {type : FieldType} :
    .required ∈ (fieldOf ownerId name schema required type).behavior ↔ required = true := by
  cases required <;> simp [fieldOf]

theorem madeFrom_of_becomes {schema : Schema} {flat : Flattened} {m : Message}
    (hrequired : ∀ name, name ∈ flat.required ↔ Requires s schema name)
    (h : List.Forall₂ (Becomes s m.id) flat.parts m.fields) :
    MadeFrom s schema flat.properties m := by
  have hfields : ∀ f ∈ m.fields, ∃ described required,
      Keyed.get? f.name flat.properties = some described ∧
        (required = true ↔ Requires s schema f.name) ∧
          Becomes s m.id ⟨f.name, described, required⟩ f := by
    intro f hf
    obtain ⟨part, hpart, hbecomes⟩ := exists_mem_left h hf
    obtain ⟨hmem, -, hget⟩ := Part.get?_of_mem_unseen hpart
    have hname : f.name = part.name := hbecomes.describes.name
    obtain ⟨property, -, rfl⟩ := List.mem_map.1 hmem
    rw [hname]
    refine ⟨property.2, _, ?_, ?_, hbecomes⟩
    · simpa [Function.comp_def] using hget
    · rw [← hrequired, ← NameSet.mem_ofList]
      exact List.contains_iff_mem
  refine ⟨?_, hfields, fun f hf => ?_⟩
  · have hnames := names_of_describes (h.imp fun _ _ => Becomes.describes)
    rw [Message.fieldNames, hnames, Flattened.parts, Part.names_unseen]
    simp [Function.comp_def]
  · obtain ⟨described, required, -, hname, type, -, heq⟩ := hfields f hf
    rw [← hname, heq]
    exact required_mem_behavior_iff

/-- An object whose references and compositions lead back, too deep or nowhere is refused.  Of any other
the message, if it has one, has a field for each of the properties that the schemas say it has. -/
theorem objectMessage_flattens (s : Setting) (levels : Nat) (name id : String)
    (parent : Option String) (schema : Schema) (t : SymbolTable) :
    (Unfit s schema → ∃ e, objectMessage s levels name id parent schema t = .error e ∧
      (levels ≠ 0 → Refused s schema e)) ∧
    ∀ t', objectMessage s levels name id parent schema t = .ok t' →
      ∃ m properties, t'.message? id = some m ∧
        m = { emptyMessage s name id parent schema with fields := m.fields, messages := m.messages } ∧
        (∀ ps, Flat s [schema] ps ↔ ps = properties) ∧ MadeFrom s schema properties m := by
  constructor
  · intro hunfit
    obtain ⟨e, hflat, hrefused⟩ := unfit_iff.1 hunfit
    cases levels with
    | zero => exact ⟨_, rfl, fun hzero => absurd rfl hzero⟩
    | succ levels =>
        refine ⟨e, ?_, fun _ => hrefused⟩
        rw [objectMessage, hflat]
  · intro t' h
    cases levels with
    | zero => cases h
    | succ levels =>
        obtain ⟨flat, f, hflat, hf, rfl⟩ := objectMessage_eq_ok h
        obtain ⟨hhead, fields, hfields, hbecomes⟩ := exists_fields_of_addProperties hf
        have hflattened := flat_of_flatten hflat
        have hid : f.message.id = id := by
          rw [hhead]
          rfl
        refine ⟨f.message, flat.properties, ?_, hhead, fun ps => ⟨fun h => h.unique hflattened, ?_⟩,
          madeFrom_of_becomes (fun _ => mem_required_of_flatten hflat) ?_⟩
        · rw [← hid]
          exact Catalog.get?_insert_self _ _ _
        · rintro rfl
          exact hflattened
        · rw [hid, hfields]
          exact hbecomes

/-- Components of which one is a reference to itself. -/
def kennel : Setting where
  package := "kennel"
  schemas := [
    ("Loop", referenceTo "Loop"),
    ("Pet", {
      properties := [
        ("name", { types := some (.one "string") }), ("tag", { types := some (.one "string") })]
      required := ["name"] })]

/-- A dog is a pet with a chip.  It has a name again, of another type, and requires the tag. -/
def dog : Schema where
  allOf := [
    referenceTo "Pet",
    { properties := [("chip", { types := some (.one "string") })], required := ["tag"] }]
  properties := [("name", { types := some (.one "integer") }), ("age", { types := some (.one "integer") })]

/-- A dog has each name once, as a pet first has it, and what refers to itself is refused. -/
theorem objectMessage_dog :
    (∃ e, objectMessage kennel 1 "Loop" ".kennel.Loop" none (referenceTo "Loop") .empty = .error e) ∧
      ∃ t m properties, objectMessage kennel 1 "Dog" ".kennel.Dog" none dog .empty = .ok t ∧
        t.message? ".kennel.Dog" = some m ∧ MadeFrom kennel dog properties m ∧
        m.fields.map (fun f => (f.name, f.wireType, f.behavior)) =
          [("name", .string, [.required]), ("tag", .string, [.required]), ("chip", .string, []),
            ("age", .int32, [])] := by
  have hself : Expands kennel (referenceTo "Loop") (referenceTo "Loop") := .reference rfl rfl
  obtain ⟨e, hloop, -⟩ := (objectMessage_flattens kennel 1 "Loop" ".kennel.Loop" none
    (referenceTo "Loop") .empty).1 (.endless .here (.further hself .here))
  have hseen : ((objectMessage kennel 1 "Dog" ".kennel.Dog" none dog .empty).toOption.bind fun t =>
      (t.message? ".kennel.Dog").map fun m =>
        m.fields.map fun f => (f.name, f.wireType, f.behavior)) =
      some [("name", .string, [.required]), ("tag", .string, [.required]), ("chip", .string, []),
        ("age", .int32, [])] := by decide +kernel
  obtain ⟨t, ht, hseen⟩ := Option.bind_eq_some_iff.1 hseen
  obtain ⟨m, hm, hfields⟩ := Option.map_eq_some_iff.1 hseen
  rw [toOption_eq_some_iff] at ht
  obtain ⟨m', properties, hm', -, -, hmade⟩ :=
    (objectMessage_flattens kennel 1 "Dog" ".kennel.Dog" none dog .empty).2 t ht
  cases hm.symm.trans hm'
  exact ⟨⟨e, hloop⟩, t, m, properties, ht, hm, hmade, hfields⟩

end OpenApi

end ServiceModel
