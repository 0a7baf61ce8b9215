import ServiceModel.Model.Names
import ServiceModel.Proofs.Http

/-!
Where the fields of a request go.  The query of a binding holds what the path and the body of its own
rule leave, while all bindings of a method share one body, that of the first rule.  So every field is
carried as long as the rules agree on the body, and a field is lost exactly where the body of an
additional rule takes it and the shared body does not.
-/

namespace ServiceModel

/-- A body takes a field: it is the whole request, or the field alone. -/
def BodyTakes (body : Option String) (name : String) : Prop := body = some "*" ∨ body = some name

instance (body : Option String) (name : String) : Decidable (BodyTakes body name) :=
  inferInstanceAs (Decidable (_ ∨ _))

/-- A field is in the query of a binding, in the shared body, or in the path. -/
def HttpBindings.Carries (http : HttpBindings) (b : HttpBinding) (name : String) : Prop :=
  name ∈ b.queryParameters ∨ BodyTakes http.bodyFieldPath name ∨ name ∈ b.pathTemplate.fieldPaths

instance (http : HttpBindings) (b : HttpBinding) (name : String) :
    Decidable (http.Carries b name) :=
  inferInstanceAs (Decidable (name ∈ b.queryParameters.names ∨ _ ∨ _))

/-- The body of a binding's own rule takes a field that nothing of the binding carries. -/
structure HttpBindings.Loses (http : HttpBindings) (r : HttpRule) (b : HttpBinding)
    (name : String) : Prop where
  taken : BodyTakes r.bodyField? name
  notShared : ¬ BodyTakes http.bodyFieldPath name
  notInPath : name ∉ b.pathTemplate.fieldPaths

namespace HttpRule

variable {selector : String} {request : Message} {rule r : HttpRule} {http : HttpBindings}
  {b : HttpBinding} {name : String}

/-- The query of a binding holds a field unless the body of its own rule or its path takes it. -/
theorem mem_query_iff (hb : r.binding selector request = .ok b) (hname : name ∈ request.fieldNames) :
    name ∈ b.queryParameters ↔
      ¬ BodyTakes r.bodyField? name ∧ name ∉ b.pathTemplate.fieldPaths := by
  have hrest := binding_queriesRest hb
  by_cases hwhole : r.bodyField? = some "*"
  · exact iff_of_false (hrest.whole hwhole name) fun h => h.1 (Or.inl hwhole)
  · rw [hrest.rest hwhole, BodyTakes, or_iff_right hwhole]
    exact and_iff_right hname

theorem carries_iff (hb : r.binding selector request = .ok b) (hname : name ∈ request.fieldNames) :
    http.Carries b name ↔ ¬ http.Loses r b name := by
  constructor
  · rintro (hquery | hbody | hpath) hloses
    · exact ((mem_query_iff hb hname).1 hquery).1 hloses.taken
    · exact hloses.notShared hbody
    · exact hloses.notInPath hpath
  · intro hkept
    by_contra hlost
    obtain ⟨hquery, hbody, hpath⟩ : name ∉ b.queryParameters ∧
        ¬ BodyTakes http.bodyFieldPath name ∧ name ∉ b.pathTemplate.fieldPaths := by
      simpa only [HttpBindings.Carries, not_or] using hlost
    refine hkept ⟨?_, hbody, hpath⟩
    by_contra htaken
    exact hquery ((mem_query_iff hb hname).2 ⟨htaken, hpath⟩)

/-- Each binding carries every field that its own rule does not lose to a body of its own; all of
them if its rule agrees with the shared body. -/
theorem bindings_carry (h : rule.bindings selector request = .ok http) :
    http.bodyFieldPath = rule.bodyField? ∧
      List.Forall₂ (fun r b =>
          (r.bodyField? = http.bodyFieldPath → ∀ name ∈ request.fieldNames, http.Carries b name) ∧
            ∀ name ∈ request.fieldNames, http.Carries b name ↔ ¬ http.Loses r b name)
        (rule :: rule.additionalBindings) http.bindings := by
  obtain ⟨hbody, hbindings⟩ := bindings_eq_ok h
  refine ⟨hbody, hbindings.imp fun r b hb => ⟨fun hagree name hname => ?_, fun name hname => ?_⟩⟩
  · refine (carries_iff hb hname).2 fun hloses => hloses.notShared ?_
    rw [← hagree]
    exact hloses.taken
  · exact carries_iff hb hname

def thingRequest : Message :=
  { name := "UpdateThingRequest", id := ".p.UpdateThingRequest", package := "p",
    fields := [.new "thing" ".p.UpdateThingRequest.thing" .message,
      .new "name" ".p.UpdateThingRequest.name" .string] }

/-- A rule with a body, and an additional one without. -/
def patchOrGet : HttpRule :=
  { patch := some "/v1/{thing.name=things/*}", body := "thing",
    additionalBindings := [{ get := some "/v1/{name}" }] }

theorem bindings_carry_patchOrGet :
    ∃ http, patchOrGet.bindings "p.S.Update" thingRequest = .ok http ∧
      ∀ b ∈ http.bindings, ∀ name ∈ thingRequest.fieldNames, http.Carries b name := by
  have hseen : (patchOrGet.bindings "p.S.Update" thingRequest).toOption.isSome = true := by
    decide +kernel
  obtain ⟨http, hhttp⟩ := Option.isSome_iff_exists.1 hseen
  have h := toOption_eq_some_iff.1 hhttp
  obtain ⟨hbody, hbindings⟩ := bindings_carry h
  obtain ⟨b, bs, ⟨hagree, -⟩, hrest, heq⟩ := List.forall₂_cons_left_iff.1 hbindings
  obtain ⟨b', bs', ⟨-, hkept⟩, hnil, heq'⟩ := List.forall₂_cons_left_iff.1 hrest
  cases List.forall₂_nil_left_iff.1 hnil
  refine ⟨http, h, ?_⟩
  rw [heq, heq']
  intro c hc name hname
  rcases List.mem_cons.1 hc with rfl | hc
  · exact hagree hbody.symm name hname
  · cases List.mem_singleton.1 hc
    -- The additional rule has no body that could take anything.
    exact (hkept name hname).2 fun hloses => by
      rcases hloses.taken with htaken | htaken <;> cases htaken

/-- A rule without a body, and an additional one whose body is the whole request. -/
def getOrPost : HttpRule :=
  { get := some "/v1/things", additionalBindings := [{ post := some "/v1/things", body := "*" }] }

/-- The additional binding of this rule carries no field: its own body would, but is not shared. -/
theorem bindings_carry_getOrPost :
    ∃ http, getOrPost.bindings "p.S.List" thingRequest = .ok http ∧
      ¬ ∀ b ∈ http.bindings, ∀ name ∈ thingRequest.fieldNames, http.Carries b name := by
  have hseen : (getOrPost.bindings "p.S.List" thingRequest).toOption.map (fun http =>
      decide (∀ b ∈ http.bindings, ∀ name ∈ thingRequest.fieldNames, http.Carries b name)) =
      some false := by decide +kernel
  obtain ⟨http, hhttp, hlost⟩ := Option.map_eq_some_iff.1 hseen
  exact ⟨http, toOption_eq_some_iff.1 hhttp, of_decide_eq_false hlost⟩

end HttpRule

end ServiceModel
