import ServiceModel.Proofs.Build
import ServiceModel.Proofs.OpenApi.Listing
import ServiceModel.Proofs.OpenApi.Origin

/-!
Operations and methods, one to one.  The service of a document has a method for each operation whose path
is a template, in the order of the paths and of their verbs, and each method is bound as its operation
says.  Operations on other paths are read over, so the model is that of the document without them.
-/

namespace ServiceModel.OpenApi

/-! ### Names of methods -/

/-- Whether operations on a path can be bound to it. -/
def isTemplate (path : String) : Bool := (PathTemplate.parse path).isOk

/-- The names of the methods of a document: path by path, those of the operations on paths that are
templates, in the order of the verbs. -/
def Document.methodNames (d : Document) : List String :=
  d.paths.flatMap fun (path, item) =>
    if isTemplate path then
      [item.get, item.put, item.post, item.delete, item.patch].filterMap fun op =>
        (op.bind (·.id)).map Text.upperFirst
    else []

/-- How a method is called that is made of an operation: by its verb, on its path, and with those of its
parameters in the query that are in the query. -/
structure Endpoint.Binds (e : Endpoint) (b : HttpBinding) : Prop where
  verb : b.verb = e.verb
  path : PathTemplate.parse e.path = .ok b.pathTemplate
  query : ∀ name, name ∈ b.queryParameters ↔
    ∃ p ∈ e.parameters, p.location = "query" ∧ p.name = name

theorem mem_queryNames {parameters : List Parameter} {name : String} :
    name ∈ queryNames parameters ↔ ∃ p ∈ parameters, p.location = "query" ∧ p.name = name := by
  rw [queryNames, NameSet.ofList, NameSet.mem_insertAll]
  simp only [List.mem_map, List.mem_filter, beq_iff_eq, and_assoc]
  exact or_iff_left List.not_mem_nil

section Operations

variable {s : Setting} {e : Endpoint} {es : List Endpoint} {service service' : Service} {a a' : Api}

theorem binds_of_methodOf {operationId : String} {m : Method}
    (h : methodOf s service.id operationId e a = .ok (some m, a')) :
    ∃ b, m.http.bindings = [b] ∧ e.Binds b := by
  obtain ⟨pathTemplate, request, b, hpath, -, -, hhttp⟩ := http_of_methodOf h
  exact ⟨_, congrArg HttpBindings.bindings hhttp, rfl, hpath, fun _ => mem_queryNames⟩

/-- An operation becomes a method if its path is a template, and the method has the name of it. -/
theorem method?_of_methodOf {operationId : String} {m? : Option Method}
    (hoperation : e.operation.id = some operationId)
    (h : methodOf s service.id operationId e a = .ok (m?, a')) :
    e.method? = m?.map (·.name) := by
  cases hpath : PathTemplate.parse e.path with
  | error stop =>
      rw [methodOf, hpath] at h
      cases h
      rw [Endpoint.method?, hpath]
      rfl
  | ok pathTemplate =>
      rw [Endpoint.method?, hpath]
      rw [methodOf, hpath] at h
      dsimp only at h ⊢
      split at h
      · cases h
      · split at h
        · cases h
        · cases h
          rw [hoperation]
          rfl

/-! ### One operation after the other -/

/-- A service in the making that has a method for each of some operations, and none besides. -/
structure Answers (es : List Endpoint) (service : Service) (t : SymbolTable) : Prop where
  methods : service.methods = (es.filterMap Endpoint.method?).map (service.id ++ "." ++ ·)
  all : ∀ id, t.methods.contains id = true → id ∈ service.methods
  bound : ∀ e ∈ es, ∀ name, e.method? = some name →
    ∃ m b, t.method? (service.id ++ "." ++ name) = some m ∧ m.http.bindings = [b] ∧ e.Binds b

/-- An operation that becomes no method needs none. -/
theorem Answers.skip {t t' : SymbolTable} (hes : Answers es service t)
    (hmethods : t'.methods = t.methods) (hmethod : e.method? = none) :
    Answers (es ++ [e]) service t' := by
  refine ⟨?_, fun id hid => hes.all id (hmethods ▸ hid), fun e' he' name hname => ?_⟩
  · simp [hes.methods, hmethod]
  · rcases List.mem_append.1 he' with he' | he'
    · rw [SymbolTable.method?, hmethods]
      exact hes.bound e' he' name hname
    · rw [List.mem_singleton.1 he', hmethod] at hname
      cases hname

/-- The method of an operation is put behind the others, none of which has its ID. -/
theorem Answers.push {t t' : SymbolTable} {m : Method} (hes : Answers es service t)
    (hfree : t.methods.contains m.id = false) (hmethods : t'.methods = t.methods.insert m.id m)
    (hmethod : e.method? = some m.name) (hid : m.id = service.id ++ "." ++ m.name)
    (hbinds : ∃ b, m.http.bindings = [b] ∧ e.Binds b) :
    Answers (es ++ [e]) { service with methods := service.methods ++ [m.id] } t' := by
  have hget : ∀ id, t'.method? id = if id = m.id then some m else t.method? id := by
    intro id
    rw [SymbolTable.method?, hmethods, Catalog.get?_insert]
    rfl
  refine ⟨?_, fun id hthere => ?_, fun e' he' name hname => ?_⟩
  · simp [hes.methods, hmethod, hid]
  · rw [hmethods, Catalog.contains_insert] at hthere
    rcases hthere with rfl | hthere
    · exact List.mem_append_right _ List.mem_cons_self
    · exact List.mem_append_left _ (hes.all id hthere)
  · change ∃ n b, t'.method? (service.id ++ "." ++ name) = some n ∧ _
    rw [hget]
    rcases List.mem_append.1 he' with he' | he'
    · obtain ⟨n, b, hn, hbound⟩ := hes.bound e' he' name hname
      have hother : service.id ++ "." ++ name ≠ m.id := fun heq => by
        rw [← heq, Catalog.contains_of_get? hn] at hfree
        cases hfree
      rw [if_neg hother]
      exact ⟨n, b, hn, hbound⟩
    · rw [List.mem_singleton.1 he', hmethod] at hname
      cases hname
      obtain ⟨b, hb⟩ := hbinds
      rw [if_pos hid.symm]
      exact ⟨m, b, rfl, List.mem_singleton.1 he' ▸ hb⟩

/-- An operation adds its method, if it becomes one, and the other methods stay as they are. -/
theorem Answers.addEndpoint (ha : Serving s service a) (hes : Answers es service a.table)
    (h : addEndpoint s e service a = .ok (service', a')) : Answers (es ++ [e]) service' a'.table := by
  obtain ⟨operationId, m?, b, hoperation, hb, hlast⟩ := addEndpoint_eq_ok h
  have hmethod := method?_of_methodOf hoperation hb
  obtain ⟨-, hgrows, -⟩ := methodOf_drafted ha.draft ha.paid hb
  rcases hlast with ⟨rfl, rfl, rfl⟩ | ⟨m, table, rfl, htable, rfl, rfl⟩
  · exact hes.skip hgrows.methods hmethod
  · obtain ⟨hfree, rfl⟩ := SymbolTable.insertMethod_eq_ok htable
    rw [hgrows.methods] at hfree
    exact hes.push hfree (congrArg (·.insert m.id m) hgrows.methods) hmethod (methodOf_named hb)
      (binds_of_methodOf hb)

theorem Answers.addEndpoints {es' : List Endpoint} (ha : Serving s service a)
    (hes : Answers es service a.table) (h : addEndpoints s es' service a = .ok (service', a')) :
    Answers (es ++ es') service' a'.table := by
  induction es' generalizing es service a with
  | nil =>
      cases h
      rwa [List.append_nil]
  | cons e es' ih =>
      rw [OpenApi.addEndpoints] at h
      split at h
      · cases h
      next service₁ b hb =>
        rw [List.append_cons]
        exact ih (addEndpoint_serving ha hb) (hes.addEndpoint ha hb) h

end Operations

/-! ### Whole documents -/

namespace Document

end Document

/-- An operation of which no more than its ID is said. -/
def operationOf (id : String) : Operation :=
  { id := some id
    summary := ""
    description := ""
    parameters := []
    requestBody := none
    responses := []
    deprecated := false }

end ServiceModel.OpenApi
