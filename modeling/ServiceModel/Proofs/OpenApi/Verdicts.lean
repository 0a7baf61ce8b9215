import ServiceModel.Proofs.OpenApi.Depth

/-!
What the end of a conversion depends on.  Whether a schema can be converted, why not, and whether its
conversion runs out of levels is decided by the schema and the levels: names, IDs and tables make no
difference.
-/

namespace ServiceModel.OpenApi

/-! ### What the end of a conversion depends on -/

section Verdicts

variable {s : Setting}

/-- Whether a type is that of a list or a map. -/
def Typed.collection (typed : Typed) : Bool × Bool := (typed.type.repeated, typed.type.isMap)

theorem Wrapping.finish_alike (wrapping : Wrapping) {v w : Typed} (h : v.collection = w.collection) :
    AlikeBy Typed.collection (wrapping.finish v) (wrapping.finish w) := by
  obtain ⟨hrepeated, hmap⟩ := Prod.mk.inj h
  cases wrapping with
  | same => exact .ok h
  | list =>
      rw [Wrapping.finish, Wrapping.finish, hrepeated, hmap]
      split
      · exact .error _
      · exact .ok (by simp [Typed.collection, hmap])
  | map =>
      rw [Wrapping.finish, Wrapping.finish, hrepeated, hmap]
      split
      · exact .error _
      · exact .ok rfl

theorem Wrapping.not_endless_finish (wrapping : Wrapping) (typed : Typed) :
    ¬ Endless (wrapping.finish typed) := by
  cases wrapping with
  | same => exact not_endless_ok _
  | list =>
      rw [Wrapping.finish]
      split
      · exact nofun
      · exact not_endless_ok _
  | map =>
      rw [Wrapping.finish]
      split
      · exact nofun
      · exact not_endless_ok _

/-- Whether a schema can be converted, and why not, depends on nothing but what becomes of the objects in
it. -/
theorem fieldType_alike {nest nest' : Nesting}
    (hnest : ∀ name name' id id' parent parent' schema t t',
      AlikeBy (fun _ => ()) (nest name id parent schema t) (nest' name' id' parent' schema t'))
    (room : Nat) (ownerId ownerId' name name' : String) (schema : Schema) (t t' : SymbolTable) :
    AlikeBy Typed.collection (fieldType s nest ownerId name room schema t)
      (fieldType s nest' ownerId' name' room schema t') := by
  induction room generalizing schema with
  | zero => exact .error _
  | succ room ih =>
      cases schema.kind s with
      | @defers wrapping next hdefers =>
          rw [fieldType_of_defers hdefers, fieldType_of_defers hdefers]
          exact (ih next).bind fun _ _ => wrapping.finish_alike
      | nested hnested =>
          rw [fieldType_of_isNested hnested, fieldType_of_isNested hnested]
          exact (hnest _ _ _ _ _ _ _ _ _).map fun _ _ _ => rfl
      | @answered a hanswered =>
          rw [hanswered, hanswered]
          cases a with
          | error e => exact .error e
          | ok answer => exact .ok rfl

/-- Whether an object can be converted, and why not, depends on the levels and the object alone. -/
theorem objectMessage_alike (levels : Nat) (name name' id id' : String)
    (parent parent' : Option String) (schema : Schema) (t t' : SymbolTable) :
    AlikeBy (fun _ => ()) (objectMessage s levels name id parent schema t)
      (objectMessage s levels name' id' parent' schema t') := by
  induction levels generalizing name name' id id' parent parent' schema t t' with
  | zero => exact .error _
  | succ levels ih =>
      have hpart (f f' : Filling) (p : Part) : AlikeBy (fun _ => ())
          (addPart s (nestAt s levels) f p) (addPart s (nestAt s levels) f' p) := by
        rw [addPart, addPart, addField_eq, addField_eq]
        refine .during _ (.map (fieldType_alike ?_ _ _ _ _ _ _ _ _) fun _ _ _ => rfl)
        exact fun name name' id id' parent parent' =>
          ih name name' id id' (some parent) (some parent')
      rw [objectMessage_succ, objectMessage_succ]
      cases flatten s (deepest + 1) schema with
      | error e => exact .error e
      | ok flat =>
          exact (AlikeBy.foldlM (fun f f' p _ => hpart f f' p) flat.parts rfl).map fun _ _ _ => rfl

theorem nestAt_alike (levels : Nat) (name name' id id' parent parent' : String) (schema : Schema)
    (t t' : SymbolTable) :
    AlikeBy (fun _ => ()) (nestAt s levels name id parent schema t)
      (nestAt s levels name' id' parent' schema t') :=
  objectMessage_alike levels name name' id id' (some parent) (some parent') schema t t'

/-! ### More levels -/

section Levels

variable {levels levels' : Nat} (hlevels : levels ≤ levels')

include hlevels

/-- With more levels the result for an object is the same, or the levels had run out. -/
theorem objectMessage_endless_or_eq (name id : String) (parent : Option String) (schema : Schema)
    (t : SymbolTable) :
    Endless (objectMessage s levels name id parent schema t) ∨
      objectMessage s levels name id parent schema t =
        objectMessage s levels' name id parent schema t :=
  StaysUnless.endless_or_eq (objectMessage_stays hlevels (fun _ => rfl) name id parent schema t)

theorem fieldType_endless_or_eq (ownerId name : String) (room : Nat) (schema : Schema)
    (t : SymbolTable) :
    Endless (fieldType s (nestAt s levels) ownerId name room schema t) ∨
      fieldType s (nestAt s levels) ownerId name room schema t =
        fieldType s (nestAt s levels') ownerId name room schema t :=
  StaysUnless.endless_or_eq (fieldType_stays (nestAt_stays hlevels fun _ => rfl) (Nat.le_refl _)
    (fun hlt => absurd hlt (Nat.lt_irrefl _)) schema t)

end Levels

end Verdicts

end ServiceModel.OpenApi
