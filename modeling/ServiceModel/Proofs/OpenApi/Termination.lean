import ServiceModel.Proofs.OpenApi.Recursion

/-!
Which conversions come to an end.  References to messages are not followed, and references, lists and maps
that lead back to each other are given up as too deep.  But the depth is counted anew for each object written
in place, so an object inside a list or a map of a component that it refers to never ends.
-/

namespace ServiceModel.OpenApi

/-- A conversion, by the levels that it is given: with any number of them it is endless if it never ends, and
else so many are enough that more of them make no difference. -/
def EndsUnless {α : Type} (never : Prop) (levels : Nat) (run : Nat → Except BuildError α) : Prop :=
  (never → ∀ n, Endless (run n)) ∧
    (¬ never → ¬ Endless (run levels) ∧ ∀ n, levels ≤ n → run n = run levels)

theorem EndsUnless.mk {α : Type} {never : Prop} {levels : Nat} {run : Nat → Except BuildError α}
    (hstays : ∀ m n, m ≤ n → Endless (run m) ∨ run m = run n)
    (hnever : never → ∀ n, Endless (run n)) (hlevels : Endless (run levels) → never) :
    EndsUnless never levels run := by
  refine ⟨hnever, fun hends => ⟨fun h => hends (hlevels h), fun n hn => ?_⟩⟩
  exact ((hstays levels n hn).resolve_left fun h => hends (hlevels h)).symm

section FieldType

variable {s : Setting} {schema : Schema}

theorem endless_fieldType_iff {levels room : Nat} {ownerId name : String} {t : SymbolTable} :
    Endless (fieldType s (nestAt s levels) ownerId name room schema t) ↔
      ∃ object, Holds s room schema object ∧ EndlessWithin s levels object := by
  constructor
  · intro h
    obtain ⟨object, hholds, h⟩ := exists_holds_of_endless h
    exact ⟨object, hholds, (endlessWithin_iff _ _ _ _).2 h⟩
  · rintro ⟨object, hholds, h⟩
    exact hholds.endless (h _ _ _ _)

/-- Where schemas leave their types to each other in a circle, there is never room enough. -/
theorem fieldType_of_reachesCycle {nest : Nesting} {ownerId name : String} {room : Nat}
    {t : SymbolTable}
    (h : ReachesCycle (fun schema next => ∃ wrapping, Defers s schema wrapping next) schema) :
    fieldType s nest ownerId name room schema t = .error (.of .schemaTooDeep) := by
  induction room generalizing schema with
  | zero => rfl
  | succ room ih =>
      obtain ⟨next, ⟨wrapping, hdefers⟩, hnext⟩ := h.exists_step
      rw [fieldType_of_defers hdefers, ih hnext]
      rfl

end FieldType

/-- An object is converted with as many levels as there are schemas, unless it comes to an object that comes
to itself; then it is endless.  The same holds of the schema of a field and the objects that it holds.
Circles without objects are given up as too deep.  Where no schema is composed of others, only a component
that is no message and has an object in it can make an object come to itself. -/
theorem conversion_ends (s : Setting) (schema : Schema) :
    (∀ name id parent t, EndsUnless (Recurs s schema) (s.levels schema) fun levels =>
      objectMessage s levels name id parent schema t) ∧
    (∀ ownerId name room t,
      EndsUnless (∃ object, Holds s room schema object ∧ Recurs s object) (s.levels schema)
        fun levels => fieldType s (nestAt s levels) ownerId name room schema t) ∧
    (ReachesCycle (fun schema next => ∃ wrapping, Defers s schema wrapping next) schema →
      ∀ nest ownerId name room t,
        fieldType s nest ownerId name room schema t = .error (.of .schemaTooDeep)) ∧
    ((∀ visited ∈ s.scope schema, visited.allOf = []) → s.Separate →
      ∀ object ∈ s.scope schema, ¬ Recurs s object) := by
  refine ⟨fun name id parent t => ?_, fun ownerId name room t => ?_, fun h _ _ _ _ _ =>
    fieldType_of_reachesCycle h, fun hall hseparate _ => not_recurs_of_separate hseparate hall⟩
  · refine .mk (fun m n hmn => objectMessage_endless_or_eq hmn name id parent schema t)
      (fun h n => h.endlessWithin n name id parent t) fun h => ?_
    exact recurs_of_endlessWithin (s.mem_scope_self schema) ((endlessWithin_iff _ _ _ _).2 h)
  · refine .mk (fun m n hmn => fieldType_endless_or_eq hmn ownerId name room schema t)
      (fun ⟨object, hholds, h⟩ n => endless_fieldType_iff.2 ⟨object, hholds, h.endlessWithin n⟩)
      fun h => ?_
    obtain ⟨object, hholds, h⟩ := endless_fieldType_iff.1 h
    exact ⟨object, hholds,
      recurs_of_endlessWithin (hholds.mem_scope (s.mem_scope_self schema)) h⟩

/-- A node refers to its parent and its children, and to its twin in an object written in place. -/
def node : Schema :=
  objectOf [("parent", referenceTo "Node"),
    ("children", { types := some (.one "array"), items := some (referenceTo "Node") }),
    ("twin", objectOf [("node", referenceTo "Node")])]

def grove : Setting where
  package := "grove"
  schemas := [("Node", node)]

/-- A list of itself. -/
def knot : Setting where
  package := "knot"
  schemas := [("Loop", { types := some (.one "array"), items := some (referenceTo "Loop") })]

/-- The conversion of nodes ends, though they refer to nodes, and that of a list of itself is given up. -/
theorem conversion_ends_node :
    (¬ Endless (objectMessage grove (grove.levels node) "Node" ".grove.Node" none node .empty) ∧
      ∀ n, grove.levels node ≤ n → objectMessage grove n "Node" ".grove.Node" none node .empty =
        objectMessage grove (grove.levels node) "Node" ".grove.Node" none node .empty) ∧
    fieldType knot (nestAt knot 1) ".knot.Rope" "loop" (deepest + 1) (referenceTo "Loop") .empty =
      .error (.of .schemaTooDeep) := by
  have hall : ∀ visited ∈ grove.scope node, visited.allOf = [] := by decide +kernel
  have hseparate : grove.Separate := by
    intro r target component object hcomponent hmessage
    cases List.mem_singleton.1 (Setting.mem_of_component hcomponent)
    exact absurd hmessage (by decide)
  have hloop : ReachesCycle (fun schema next => ∃ wrapping, Defers knot schema wrapping next)
      (referenceTo "Loop") := by
    refine ⟨referenceTo "Loop", .refl, .head ⟨_, .reference rfl rfl rfl⟩ ?_⟩
    exact .single ⟨_, .list ⟨rfl, fun ⟨_, hall, _⟩ => nomatch hall⟩ rfl rfl⟩
  have hnode := (conversion_ends grove node).2.2.2 hall hseparate node (grove.mem_scope_self node)
  exact ⟨((conversion_ends grove node).1 "Node" ".grove.Node" none .empty).2 hnode,
    (conversion_ends knot (referenceTo "Loop")).2.2.1 hloop _ _ _ _ _⟩

/-! ### Documents without an end -/

/-- Components are not converted to the end if the first that is a message comes to itself. -/
theorem endless_addComponents {s : Setting} {before after : List (String × Schema)} {name : String}
    {schema : Schema} {a : Api} (hbefore : ∀ p ∈ before, p.2.isMessage = false)
    (hmessage : schema.isMessage = true) (h : Recurs s schema) :
    Endless (addComponents s (before ++ (name, schema) :: after) a) := by
  induction before with
  | nil =>
      have hschema := h.endlessWithin (s.levels schema) name (s.id name) none a.table
      rw [List.nil_append, addComponents, if_pos hmessage, Setting.addMessage]
      cases hadded : objectMessage s (s.levels schema) name (s.id name) none schema a.table with
      | error e =>
          rw [hadded] at hschema
          exact hschema
      | ok table =>
          rw [hadded] at hschema
          exact absurd hschema (not_endless_ok table)
  | cons p before ih =>
      rw [List.forall_mem_cons] at hbefore
      rw [List.cons_append, addComponents, hbefore.1]
      exact ih hbefore.2

theorem endless_ingest {d : Document} {asked : Option String} {config : Option ServiceConfig}
    (h : Endless (addComponents (d.setting asked config) d.schemas (Api.new (packageName asked config)))) :
    Endless (d.ingest asked config) := by
  rw [Document.ingest, ← Document.setting]
  cases hadded : addComponents (d.setting asked config) d.schemas
      (Api.new (packageName asked config)) with
  | error e =>
      rw [hadded] at h
      exact h
  | ok a =>
      rw [hadded] at h
      exact absurd h (not_endless_ok a)

/-- A post, or a reply to one, has replies. -/
def post : Schema := objectOf [("replies", referenceTo "Replies")]

def replies : Schema := { types := some (.one "array"), items := some post }

/-- A document whose posts have replies, which are written in place in the list that they refer to. -/
def forum : Document :=
  { openapi := "3.0.0"
    info := ⟨"Forum", "", "1"⟩
    servers := []
    paths := []
    schemas := [("Replies", replies), ("Post", post)] }

/-- No schema of the document is composed of others, but no number of levels is enough for a post: its
replies are posts again, and for each of them the depth is counted anew. -/
theorem conversion_endless_post :
    (∀ p ∈ forum.schemas, ∀ schema ∈ p.2.subschemas, schema.allOf = []) ∧
      (∀ n name id parent t,
        Endless (objectMessage (forum.setting none none) n name id parent post t)) ∧
      Endless (forum.ingest none none) := by
  have hown : replies.IsOwn := ⟨rfl, fun ⟨_, hall, _⟩ => nomatch hall⟩
  have hnested : post.IsNested :=
    ⟨⟨⟨rfl, fun ⟨_, hall, _⟩ => nomatch hall⟩, by decide, rfl⟩, Or.inl rfl, rfl⟩
  have hholds : Holds (forum.setting none none) (deepest + 1) (referenceTo "Replies") post :=
    .deeper (.reference rfl rfl rfl) (.deeper (.list hown rfl rfl) (.here hnested))
  have hflat : flatten (forum.setting none none) (deepest + 1) post = .ok (.own post) := rfl
  have hparts : (Flattened.own post).parts =
      [] ++ [⟨"replies", referenceTo "Replies", false⟩] := rfl
  have hstep : ComesTo (forum.setting none none) post post :=
    .mk hflat hparts (fun _ hp => absurd hp List.not_mem_nil) hholds
  have hrecurs : Recurs (forum.setting none none) post := ⟨post, .refl, .single hstep⟩
  have hbefore : ∀ p ∈ [("Replies", replies)], p.2.isMessage = false := by decide
  have hschemas : forum.schemas = [("Replies", replies)] ++ [("Post", post)] := rfl
  refine ⟨by decide +kernel, fun n name id parent t => hrecurs.endlessWithin n name id parent t,
    endless_ingest ?_⟩
  rw [hschemas]
  exact endless_addComponents hbefore (by decide) hrecurs

end ServiceModel.OpenApi
