import ServiceModel.Proofs.Build
import ServiceModel.Proofs.OpenApi.Deferral

/-!
Depth does not change results.  How deep a schema stands, and how deep objects may stand inside each other,
only decides whether a conversion gives up; what it gives is the same at every depth.  A reference to what is
no message can therefore be replaced by the component that it leads to.
-/

namespace ServiceModel.OpenApi

/-! ### More room, and more levels -/

section Stays

variable {s : Setting} {lax : BuildCause → Prop}

/-- With more room a conversion gives up on nothing more. -/
theorem fieldType_stays {nest nest' : Nesting} {room room' : Nat} {ownerId name : String}
    (hnest : ∀ name id parent schema t,
      StaysUnless lax (nest name id parent schema t) (nest' name id parent schema t))
    (hroom : room ≤ room') (hlax : room < room' → lax .schemaTooDeep) (schema : Schema)
    (t : SymbolTable) :
    StaysUnless lax (fieldType s nest ownerId name room schema t)
      (fieldType s nest' ownerId name room' schema t) := by
  induction room generalizing room' schema t with
  | zero =>
      rcases Nat.eq_or_lt_of_le hroom with rfl | hlt
      · exact .refl _
      · exact Or.inl ⟨_, rfl, hlax hlt⟩
  | succ room ih =>
      obtain ⟨room', rfl⟩ := Nat.exists_eq_add_one_of_ne_zero (by omega : room' ≠ 0)
      cases schema.kind s with
      | @defers wrapping next hdefers =>
          rw [fieldType_of_defers hdefers, fieldType_of_defers hdefers]
          exact (ih (by omega) (fun hlt => hlax (by omega)) next t).bind fun _ => .refl _
      | nested hnested =>
          rw [fieldType_of_isNested hnested, fieldType_of_isNested hnested]
          exact (hnest _ _ _ _ _).map _
      | answered hanswered =>
          rw [hanswered, hanswered]
          exact .refl _

/-- With more levels an object gives up on nothing more. -/
theorem objectMessage_stays {levels levels' : Nat} (hlevels : levels ≤ levels')
    (hlax : levels < levels' → lax .endlessSchema) (name id : String) (parent : Option String)
    (schema : Schema) (t : SymbolTable) :
    StaysUnless lax (objectMessage s levels name id parent schema t)
      (objectMessage s levels' name id parent schema t) := by
  induction levels generalizing levels' name id parent schema t with
  | zero =>
      rcases Nat.eq_or_lt_of_le hlevels with rfl | hlt
      · exact .refl _
      · exact Or.inl ⟨_, rfl, hlax hlt⟩
  | succ levels ih =>
      obtain ⟨levels', rfl⟩ := Nat.exists_eq_add_one_of_ne_zero (by omega : levels' ≠ 0)
      have hnest (name id parent schema t) :
          StaysUnless lax (nestAt s levels name id parent schema t)
            (nestAt s levels' name id parent schema t) :=
        ih (by omega) (fun hlt => hlax (by omega)) name id (some parent) schema t
      rw [objectMessage_succ, objectMessage_succ]
      refine (StaysUnless.refl _).bind fun flat => StaysUnless.map _ (.foldlM (fun f p => ?_) _ _)
      rw [addPart, addPart, addField_eq, addField_eq]
      have hfield : StaysUnless lax
          (fieldType s (nestAt s levels) f.message.id p.name (deepest + 1) p.schema f.table)
          (fieldType s (nestAt s levels') f.message.id p.name (deepest + 1) p.schema f.table) :=
        fieldType_stays hnest (Nat.le_refl _) (fun hlt => absurd hlt (Nat.lt_irrefl _)) _ _
      exact (hfield.map _).during _

theorem nestAt_stays {levels levels' : Nat} (hlevels : levels ≤ levels')
    (hlax : levels < levels' → lax .endlessSchema) (name id parent : String) (schema : Schema)
    (t : SymbolTable) :
    StaysUnless lax (nestAt s levels name id parent schema t)
      (nestAt s levels' name id parent schema t) :=
  objectMessage_stays hlevels hlax name id (some parent) schema t

end Stays

/-! ### Depth -/

/-- The room that is left at a depth. -/
def roomAt (depth : Nat) : Nat := deepest + 1 - depth

/-- What a schema becomes at some depth it also becomes less deep, and where more levels of objects are
allowed: the same type, with the same table and the same messages inside the owner.  So what a reference to
no message becomes, its component becomes in its place. -/
theorem fieldType_depth_free (s : Setting) {levels levels' depth depth' : Nat}
    (hlevels : levels ≤ levels') (hdepth : depth ≤ depth') {ownerId name : String} {schema : Schema}
    {t : SymbolTable} {typed : Typed}
    (h : fieldType s (nestAt s levels) ownerId name (roomAt depth') schema t = .ok typed) :
    fieldType s (nestAt s levels') ownerId name (roomAt depth) schema t = .ok typed ∧
      ∀ r target component, schema.reference = some r → s.component r = .ok (target, component) →
        component.isMessage = false →
          fieldType s (nestAt s levels') ownerId name (roomAt depth) component t = .ok typed := by
  -- every error may turn into something else when there is more room
  have hstays {room room' : Nat} (hroom : room ≤ room') (schema : Schema) :
      StaysUnless (fun _ => True) (fieldType s (nestAt s levels) ownerId name room schema t)
        (fieldType s (nestAt s levels') ownerId name room' schema t) :=
    fieldType_stays (nestAt_stays hlevels fun _ => trivial) hroom (fun _ => trivial) schema t
  have hroom : roomAt depth' ≤ roomAt depth := Nat.sub_le_sub_left hdepth _
  refine ⟨(hstays hroom schema).ok h, fun r target component href hcomponent hmessage => ?_⟩
  cases hcase : roomAt depth' with
  | zero =>
      rw [hcase] at h
      cases h
  | succ room =>
      rw [hcase, fieldType_of_defers (.reference href hcomponent hmessage),
        Wrapping.bind_finish_same] at h
      exact (hstays (by omega) component).ok h

/-- Points written in place, in a list that a component describes. -/
def points : Schema where
  types := some (.one "array")
  items := some {
    types := some (.one "object")
    properties := [("x", { types := some (.one "number") })] }

def atlas : Setting where
  package := "atlas"
  schemas := [("Points", points)]

/-- A field of points is the same whether it refers to the component or says what that says. -/
theorem fieldType_depth_free_points : ∃ typed,
    fieldType atlas (nestAt atlas 1) ".atlas.Way" "points" (roomAt 14) (referenceTo "Points") .empty =
      .ok typed ∧
    fieldType atlas (nestAt atlas 2) ".atlas.Way" "points" (roomAt 0) points .empty = .ok typed ∧
    typed.type = { FieldType.message ".atlas.Way.Points" with repeated := true } ∧
    typed.nested = [".atlas.Way.Points"] := by
  have hseen : ((fieldType atlas (nestAt atlas 1) ".atlas.Way" "points" (roomAt 14)
      (referenceTo "Points") .empty).toOption.map fun typed => (typed.type, typed.nested)) =
        some ({ FieldType.message ".atlas.Way.Points" with repeated := true },
          [".atlas.Way.Points"]) := by decide +kernel
  obtain ⟨typed, htyped, hseen⟩ := Option.map_eq_some_iff.1 hseen
  rw [toOption_eq_some_iff] at htyped
  have hcomponent := (fieldType_depth_free atlas (by decide : 1 ≤ 2) (by decide : 0 ≤ 14) htyped).2
    _ "Points" points rfl rfl rfl
  exact ⟨typed, htyped, hcomponent, congrArg Prod.fst hseen, congrArg Prod.snd hseen⟩

end ServiceModel.OpenApi
