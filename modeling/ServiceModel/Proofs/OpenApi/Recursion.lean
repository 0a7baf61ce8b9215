import ServiceModel.Proofs.OpenApi.Subschemas
import ServiceModel.Proofs.OpenApi.Verdicts
import Mathlib.Data.List.Chain
import Mathlib.Data.List.Perm.Subperm

/-!
When conversion comes to an end.  A conversion only goes on as long as objects stand inside each other, and
these are parts of the schema and of the components.  So it either ends with as many levels as there are such
schemas, or one object comes to itself, and then no number of levels is enough.
-/

namespace ServiceModel

/-! ### Cycles -/

section Cycles

open Relation

variable {α : Type} {R : α → α → Prop} {a : α}

/-- From `a` one comes to something that one comes back to. -/
def ReachesCycle (R : α → α → Prop) (a : α) : Prop :=
  ∃ b, ReflTransGen R a b ∧ TransGen R b b

theorem ReachesCycle.exists_step (h : ReachesCycle R a) : ∃ b, R a b ∧ ReachesCycle R b := by
  obtain ⟨c, hreach, hcycle⟩ := h
  rcases hreach.cases_head with rfl | ⟨b, hstep, hreach⟩
  · obtain ⟨b, hstep, hback⟩ := TransGen.head'_iff.1 hcycle
    exact ⟨b, hstep, a, hback, hcycle⟩
  · exact ⟨b, hstep, c, hreach, hcycle⟩

/-- A walk among fewer things than it visits comes to a cycle. -/
theorem reachesCycle_of_isChain {rest scope : List α} (hchain : (a :: rest).IsChain R)
    (hscope : ∀ b ∈ a :: rest, b ∈ scope) (hlong : scope.length < (a :: rest).length) :
    ReachesCycle R a := by
  have hwalk : (a :: rest).Pairwise (TransGen R) :=
    List.isChain_iff_pairwise.1 (hchain.imp fun _ _ => .single)
  by_contra hnone
  -- without a cycle nothing is visited twice, so all that is visited would fit in
  have hfrom : ∀ b ∈ a :: rest, ReflTransGen R a b := fun b hb => by
    rcases List.mem_cons.1 hb with rfl | hb
    · exact .refl
    · exact (List.rel_of_pairwise_cons hwalk hb).to_reflTransGen
  have hnodup : (a :: rest).Nodup :=
    hwalk.imp_of_mem fun {b c} hb _ hstep heq => hnone ⟨b, hfrom b hb, by rwa [← heq] at hstep⟩
  exact absurd (hnodup.subperm hscope).length_le (Nat.not_le.2 hlong)

end Cycles

namespace OpenApi

/-! ### Objects inside each other -/

/-- A schema comes to an object written in place, with some room for the schemas that lead to it. -/
inductive Holds (s : Setting) : Nat → Schema → Schema → Prop where
  | here {room object} : object.IsNested → Holds s (room + 1) object object
  | deeper {room schema wrapping next object} :
      Defers s schema wrapping next → Holds s room next object → Holds s (room + 1) schema object

/-- A schema that can be converted as the schema of a field, once there are levels enough. -/
def Convertible (s : Setting) (schema : Schema) : Prop :=
  ∃ levels ownerId name t typed,
    fieldType s (nestAt s levels) ownerId name (deepest + 1) schema t = .ok typed

/-- The conversion of an object comes to that of another: of a part of the first that holds the second,
where the parts before it can be converted. -/
inductive ComesTo (s : Setting) (outer inner : Schema) : Prop where
  | mk {flat : Flattened} {before after : List Part} {part : Part} :
      flatten s (deepest + 1) outer = .ok flat → flat.parts = before ++ part :: after →
      (∀ p ∈ before, Convertible s p.schema) → Holds s (deepest + 1) part.schema inner →
      ComesTo s outer inner

/-- An object does not come to an end within some levels. -/
def EndlessWithin (s : Setting) (levels : Nat) (object : Schema) : Prop :=
  ∀ name id parent t, Endless (objectMessage s levels name id parent object t)

section Objects

variable {s : Setting} {levels : Nat} {object : Schema}

theorem endlessWithin_iff (name id : String) (parent : Option String) (t : SymbolTable) :
    EndlessWithin s levels object ↔ Endless (objectMessage s levels name id parent object t) :=
  ⟨fun h => h name id parent t, fun h _ _ _ _ =>
    (objectMessage_alike _ _ _ _ _ _ _ _ _ _).endless_iff.1 h⟩

theorem endlessWithin_zero : EndlessWithin s 0 object := fun _ _ _ _ => rfl

/-- A conversion is endless only if it comes to an object that is. -/
theorem exists_holds_of_endless {nest : Nesting} {ownerId name : String} {room : Nat}
    {schema : Schema} {t : SymbolTable} (h : Endless (fieldType s nest ownerId name room schema t)) :
    ∃ object, Holds s room schema object ∧
      Endless (nest (Text.upperFirst name) (ownerId ++ "." ++ Text.upperFirst name) ownerId object t) := by
  induction room generalizing schema with
  | zero => exact absurd h (by simp [fieldType, BuildError.of])
  | succ room ih =>
      cases schema.kind s with
      | @defers wrapping next hdefers =>
          rw [fieldType_of_defers hdefers, endless_bind_iff] at h
          rcases h with h | ⟨typed, -, h⟩
          · obtain ⟨object, hholds, h⟩ := ih h
            exact ⟨object, .deeper hdefers hholds, h⟩
          · exact absurd h (wrapping.not_endless_finish typed)
      | nested hnested =>
          rw [fieldType_of_isNested hnested, endless_map_iff] at h
          exact ⟨schema, .here hnested, h⟩
      | answered hanswered hends =>
          rw [hanswered, Answer.typed, endless_map_iff] at h
          exact absurd h hends

theorem Holds.endless {nest : Nesting} {ownerId name : String} {room : Nat} {schema : Schema}
    {t : SymbolTable} (hholds : Holds s room schema object)
    (h : Endless
      (nest (Text.upperFirst name) (ownerId ++ "." ++ Text.upperFirst name) ownerId object t)) :
    Endless (fieldType s nest ownerId name room schema t) := by
  induction hholds with
  | here hnested =>
      rw [fieldType_of_isNested hnested, endless_map_iff]
      exact h
  | deeper hdefers _ ih =>
      rw [fieldType_of_defers hdefers, endless_bind_iff]
      exact Or.inl (ih h)

theorem endless_addPart_iff {nest : Nesting} {f : Filling} {p : Part} :
    Endless (addPart s nest f p) ↔
      Endless (fieldType s nest f.message.id p.name (deepest + 1) p.schema f.table) := by
  rw [addPart, endless_during_iff, addField_eq, endless_map_iff]

/-- What can be converted is converted whatever its field, or runs out of levels. -/
theorem Convertible.endless_or_ok {schema : Schema} (h : Convertible s schema) (levels : Nat)
    (ownerId name : String) (t : SymbolTable) :
    Endless (fieldType s (nestAt s levels) ownerId name (deepest + 1) schema t) ∨
      ∃ typed, fieldType s (nestAt s levels) ownerId name (deepest + 1) schema t = .ok typed := by
  obtain ⟨levels', ownerId', name', t', typed', h⟩ := h
  -- with the more of the levels it is converted, hence for any field, and fewer can only run out
  have hmax := (fieldType_endless_or_eq (Nat.le_max_right levels levels') ownerId' name'
    (deepest + 1) schema t').resolve_left (by rw [h]; exact not_endless_ok typed')
  obtain ⟨typed, htyped⟩ := (fieldType_alike (nestAt_alike _) _ ownerId' ownerId name' name schema t'
    t).exists_ok (hmax.symm.trans h)
  refine (fieldType_endless_or_eq (Nat.le_max_left levels levels') ownerId name (deepest + 1) schema
    t).imp_right fun heq => ⟨typed, heq.trans htyped⟩

theorem addPart_eq_ok {nest : Nesting} {f f' : Filling} {p : Part} (h : addPart s nest f p = .ok f') :
    ∃ typed, fieldType s nest f.message.id p.name (deepest + 1) p.schema f.table = .ok typed := by
  rw [addPart, during_eq_ok_iff, addField_eq] at h
  cases hfield : fieldType s nest f.message.id p.name (deepest + 1) p.schema f.table with
  | error e =>
      rw [hfield] at h
      cases h
  | ok typed => exact ⟨typed, rfl⟩

/-- Parts that have been added can be converted. -/
theorem convertible_of_foldlM {parts : List Part} {f f' : Filling}
    (h : parts.foldlM (addPart s (nestAt s levels)) f = .ok f') :
    ∀ p ∈ parts, Convertible s p.schema := by
  induction parts generalizing f with
  | nil => exact fun _ hp => absurd hp List.not_mem_nil
  | cons p parts ih =>
      obtain ⟨g, hpart, h⟩ := foldlM_cons_eq_ok_iff.1 h
      exact List.forall_mem_cons.2 ⟨⟨levels, _, _, _, addPart_eq_ok hpart⟩, ih h⟩

/-- Parts that can be converted are added, or run out of levels. -/
theorem endless_or_ok_of_convertible {parts : List Part}
    (h : ∀ p ∈ parts, Convertible s p.schema) (f : Filling) :
    Endless (parts.foldlM (addPart s (nestAt s levels)) f) ∨
      ∃ f', parts.foldlM (addPart s (nestAt s levels)) f = .ok f' := by
  induction parts generalizing f with
  | nil => exact Or.inr ⟨f, rfl⟩
  | cons p parts ih =>
      rw [List.forall_mem_cons] at h
      rw [List.foldlM_cons]
      show Endless ((addPart s (nestAt s levels) f p).bind _) ∨
        ∃ f', (addPart s (nestAt s levels) f p).bind _ = .ok f'
      rcases h.1.endless_or_ok levels f.message.id p.name f.table with hendless | ⟨typed, htyped⟩
      · exact Or.inl (endless_bind_iff.2 (Or.inl (endless_addPart_iff.2 hendless)))
      · rw [addPart, addField_eq, htyped]
        exact ih h.2 _

theorem not_endless_flatten (room : Nat) (schema : Schema) : ¬ Endless (flatten s room schema) := by
  cases hflat : flatten s room schema with
  | ok flat => exact not_endless_ok flat
  | error e =>
      rcases stuck_of_flatten hflat with ⟨rfl, -⟩ | ⟨_, _, r, -, -, hcomponent⟩
      · simp [BuildError.of]
      · have hends := s.not_endless_component r
        rw [hcomponent] at hends
        exact hends

/-- With one more level an object is endless just if it comes to one that is endless with the rest. -/
theorem endlessWithin_succ_iff {outer : Schema} :
    EndlessWithin s (levels + 1) outer ↔
      ∃ inner, ComesTo s outer inner ∧ EndlessWithin s levels inner := by
  constructor
  · intro h
    have h := h "" "" none .empty
    rw [objectMessage_succ, endless_bind_iff] at h
    obtain ⟨flat, hflat, h⟩ := h.resolve_left (not_endless_flatten _ _)
    rw [endless_map_iff, endless_foldlM_iff] at h
    obtain ⟨before, part, after, f, hparts, hbefore, h⟩ := h
    obtain ⟨inner, hholds, h⟩ := exists_holds_of_endless (endless_addPart_iff.1 h)
    exact ⟨inner, ⟨hflat, hparts, convertible_of_foldlM hbefore, hholds⟩,
      (endlessWithin_iff _ _ _ _).2 h⟩
  · rintro ⟨inner, ⟨hflat, hparts, hbefore, hholds⟩, hinner⟩ name id parent t
    rw [objectMessage_succ, endless_bind_iff]
    refine Or.inr ⟨_, hflat, ?_⟩
    rw [endless_map_iff, hparts, List.foldlM_append]
    refine endless_bind_iff.2 ((endless_or_ok_of_convertible hbefore _).imp_right ?_)
    rintro ⟨f, hf⟩
    refine ⟨f, hf, ?_⟩
    rw [List.foldlM_cons]
    exact endless_bind_iff.2 (Or.inl (endless_addPart_iff.2 (hholds.endless (hinner _ _ _ _))))

/-- An object that is endless within some levels comes to as many others, one inside the other. -/
theorem exists_chain_of_endlessWithin (h : EndlessWithin s levels object) :
    ∃ rest : List Schema, rest.length = levels ∧ (object :: rest).IsChain (ComesTo s) := by
  induction levels generalizing object with
  | zero => exact ⟨[], rfl, .singleton object⟩
  | succ levels ih =>
      obtain ⟨inner, hstep, h⟩ := endlessWithin_succ_iff.1 h
      obtain ⟨rest, hlength, hchain⟩ := ih h
      exact ⟨inner :: rest, congrArg (· + 1) hlength, hchain.cons_cons hstep⟩

end Objects

/-! ### Objects that come to themselves -/

/-- The conversion of an object comes to an object that comes to itself. -/
def Recurs (s : Setting) (object : Schema) : Prop := ReachesCycle (ComesTo s) object

section Recursion

variable {s : Setting} {levels : Nat} {schema object : Schema}

theorem Holds.mem_scope {room : Nat} {visited : Schema} (hholds : Holds s room visited object)
    (h : visited ∈ s.scope schema) : object ∈ s.scope schema := by
  induction hholds with
  | here => exact h
  | deeper hdefers _ ih => exact ih (hdefers.mem_scope h)

theorem ComesTo.mem_scope {inner : Schema} (hstep : ComesTo s object inner)
    (h : object ∈ s.scope schema) : inner ∈ s.scope schema := by
  obtain ⟨hflat, hparts, -, hholds⟩ := hstep
  exact hholds.mem_scope (mem_scope_of_mem_parts hflat (by simp [hparts]) h)

theorem mem_scope_of_isChain {rest : List Schema} (hchain : (object :: rest).IsChain (ComesTo s))
    (h : object ∈ s.scope schema) : ∀ visited ∈ object :: rest, visited ∈ s.scope schema := by
  induction rest generalizing object with
  | nil => simpa using h
  | cons inner rest ih =>
      obtain ⟨hstep, hchain⟩ := List.isChain_cons_cons.1 hchain
      exact List.forall_mem_cons.2 ⟨h, ih hchain (hstep.mem_scope h)⟩

/-- An object that comes to itself is endless within any number of levels. -/
theorem Recurs.endlessWithin (h : Recurs s object) (levels : Nat) : EndlessWithin s levels object := by
  induction levels generalizing object with
  | zero => exact endlessWithin_zero
  | succ levels ih =>
      obtain ⟨inner, hstep, h⟩ := ReachesCycle.exists_step h
      exact endlessWithin_succ_iff.2 ⟨inner, hstep, ih h⟩

/-- An object for which as many levels as there are schemas are not enough comes to itself. -/
theorem recurs_of_endlessWithin (hscope : object ∈ s.scope schema)
    (h : EndlessWithin s (s.levels schema) object) : Recurs s object := by
  obtain ⟨rest, hlength, hchain⟩ := exists_chain_of_endlessWithin h
  refine reachesCycle_of_isChain hchain (mem_scope_of_isChain hchain hscope) ?_
  have hlevels := s.length_scope schema
  rw [List.length_cons]
  omega

end Recursion

/-! ### Where nothing comes to itself -/

/-- No component that is a list, a map or a single value has an object written in place. -/
def Setting.Separate (s : Setting) : Prop :=
  ∀ r target component object, s.component r = .ok (target, component) →
    component.isMessage = false → ¬ Inline s component object

section Separate

variable {s : Setting} {schema object : Schema}

theorem Holds.isNested {room : Nat} {visited : Schema} (h : Holds s room visited object) :
    object.IsNested := by
  induction h with
  | here hnested => exact hnested
  | deeper _ _ ih => exact ih

theorem ComesTo.isNested {outer : Schema} (h : ComesTo s outer object) : object.IsNested := by
  obtain ⟨-, -, -, hholds⟩ := h
  exact hholds.isNested

theorem Holds.inline {room : Nat} {visited : Schema} (h : Holds s room visited object) :
    Inline s visited object := by
  induction h with
  | here hnested => exact .self hnested.plain hnested.typeName hnested.object
  | deeper hdefers _ ih =>
      cases hdefers with
      | reference href hcomponent hmessage => exact .reference href hcomponent hmessage ih
      | sole href hall hproperties => exact .sole href hall hproperties ih
      | list hown harray hitems => exact .list hown harray hitems ih
      | map hown harray hmap hvalue => exact .map hown harray hmap hvalue ih

variable (hseparate : s.Separate)

include hseparate

theorem Holds.size_le {room : Nat} {visited : Schema} (h : Holds s room visited object) :
    object.size ≤ visited.size := by
  induction h with
  | here => exact Nat.le_refl _
  | deeper hdefers hholds ih =>
      rcases hdefers.reference_or_mem_children with ⟨r, target, hcomponent, hmessage⟩ | hchild
      · exact absurd hholds.inline (hseparate r target _ _ hcomponent hmessage)
      · exact Nat.le_of_lt (Nat.lt_of_le_of_lt ih (Schema.size_lt_of_mem_children hchild))

/-- An object that is composed of no others only comes to smaller ones. -/
theorem ComesTo.size_lt {outer : Schema} (h : ComesTo s outer object) (hnone : outer.reference = none)
    (hall : outer.allOf = []) : object.size < outer.size := by
  obtain @⟨flat, before, after, part, hflat, hparts, -, hholds⟩ := h
  have hpart : part ∈ flat.parts := by simp [hparts]
  obtain ⟨p, hp, rfl⟩ := List.mem_map.1 (Part.get?_of_mem_unseen hpart).1
  have hchild : p.2 ∈ outer.children := by
    obtain ⟨_, _, _, href, -⟩ | ⟨parts, -, hmembers, rfl⟩ := flatten_succ_eq_ok hflat
    · exact absurd (hnone.symm.trans href) nofun
    · rw [hall, List.forall₂_nil_left_iff] at hmembers
      subst hmembers
      have hown : p.2 ∈ outer.properties.map (·.2) :=
        List.mem_map_of_mem (by simpa [Flattened.append, Flattened.own] using hp)
      simp [Schema.children, hown]
  exact Nat.lt_of_le_of_lt (hholds.size_le hseparate) (Schema.size_lt_of_mem_children hchild)

theorem size_lt_of_transGen {outer : Schema} (hall : ∀ visited ∈ s.scope schema, visited.allOf = [])
    (h : Relation.TransGen (ComesTo s) outer object) (hscope : outer ∈ s.scope schema)
    (hnested : outer.IsNested) :
    object ∈ s.scope schema ∧ object.IsNested ∧ object.size < outer.size := by
  induction h with
  | single hstep =>
      exact ⟨hstep.mem_scope hscope, hstep.isNested,
        hstep.size_lt hseparate hnested.plain.1.1 (hall _ hscope)⟩
  | tail _ hstep ih =>
      obtain ⟨hscope, hnested, hlt⟩ := ih
      exact ⟨hstep.mem_scope hscope, hstep.isNested,
        Nat.lt_trans (hstep.size_lt hseparate hnested.plain.1.1 (hall _ hscope)) hlt⟩

/-- Among schemas that are not composed nothing comes to itself. -/
theorem not_recurs_of_separate (hall : ∀ visited ∈ s.scope schema, visited.allOf = [])
    (hobject : object ∈ s.scope schema) : ¬ Recurs s object := by
  rintro ⟨visited, hreach, hcycle⟩
  have hscope : visited ∈ s.scope schema := by
    clear hcycle
    induction hreach with
    | refl => exact hobject
    | tail _ hstep ih => exact hstep.mem_scope ih
  obtain ⟨_, -, hstep⟩ := Relation.TransGen.tail'_iff.1 hcycle
  exact absurd (size_lt_of_transGen hseparate hall hcycle hscope hstep.isNested).2.2
    (Nat.lt_irrefl _)

end Separate

end OpenApi

end ServiceModel
