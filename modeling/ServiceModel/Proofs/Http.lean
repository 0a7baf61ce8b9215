import Mathlib.Data.List.Forall2
import ServiceModel.Http.Binding

/-!
Bindings of a rule.  A rule that can be bound gives one binding for itself and one for each additional
binding, in order, and the query of each holds the fields that its own path and body leave.
-/

namespace ServiceModel

/-! ### Results -/

theorem toOption_eq_some_iff {ε α : Type} {r : Except ε α} {a : α} :
    r.toOption = some a ↔ r = .ok a := by
  cases r <;> simp [Except.toOption]

theorem exists_ok_of_toOption {ε α : Type} {r : Except ε α} {p : α → Prop}
    (h : ∃ a ∈ r.toOption, p a) : ∃ a, r = .ok a ∧ p a := by
  obtain ⟨a, ha, hp⟩ := h
  exact ⟨a, toOption_eq_some_iff.1 ha, hp⟩

/-! ### Queries -/

theorem PathTemplate.mem_queryParameters {fields : List String} {t : PathTemplate}
    {body : Option String} {name : String} :
    name ∈ t.queryParameters fields body ↔
      body ≠ some "*" ∧ name ∈ fields ∧ body ≠ some name ∧ name ∉ t.fieldPaths := by
  unfold queryParameters
  split
  next hbody => exact ⟨fun h => absurd h List.not_mem_nil, fun h => absurd hbody h.1⟩
  next hbody =>
    rw [NameSet.mem_ofList, List.mem_filter]
    simp [hbody]

/-- The query of a binding holds exactly those of some fields that its path and a body leave: none if
the body is the whole request, else all but the body and what the path binds. -/
structure HttpBinding.QueriesRest (b : HttpBinding) (fields : List String) (body : Option String) :
    Prop where
  whole : body = some "*" → ∀ name, name ∉ b.queryParameters
  rest : body ≠ some "*" → ∀ name, name ∈ b.queryParameters ↔
    name ∈ fields ∧ body ≠ some name ∧ name ∉ b.pathTemplate.fieldPaths

/-- Two lists of fields that leave a binding the same query. -/
def HttpBinding.LeavesSame (b : HttpBinding) (body : Option String) (fields fields' : List String) :
    Prop :=
  body = some "*" ∨ ∀ name, body ≠ some name → name ∉ b.pathTemplate.fieldPaths →
    (name ∈ fields ↔ name ∈ fields')

/-- A query that fits some fields fits others exactly if those leave the same. -/
theorem HttpBinding.QueriesRest.iff_leavesSame {b : HttpBinding} {fields fields' : List String}
    {body : Option String} (h : b.QueriesRest fields body) :
    b.QueriesRest fields' body ↔ b.LeavesSame body fields fields' := by
  by_cases hbody : body = some "*"
  · exact ⟨fun _ => Or.inl hbody, fun _ => ⟨h.whole, fun hne => absurd hbody hne⟩⟩
  · constructor
    · intro h'
      refine Or.inr fun name hname hpath => ?_
      have hold := h.rest hbody name
      have hnew := h'.rest hbody name
      simp only [hname, hpath, ne_eq, not_false_eq_true, and_true] at hold hnew
      rw [← hold, ← hnew]
    · intro hsame
      refine ⟨fun heq => absurd heq hbody, fun _ name => ?_⟩
      rw [h.rest hbody]
      refine and_congr_left fun hname => ?_
      exact (hsame.resolve_left hbody) name hname.1 hname.2

namespace HttpRule

variable {selector : String} {request : Message} {rule : HttpRule}

theorem binding_queriesRest {b : HttpBinding} (h : rule.binding selector request = .ok b) :
    b.QueriesRest request.fieldNames rule.bodyField? := by
  unfold binding at h
  split at h
  · cases h
  · split at h
    · cases h
    · cases h
      refine ⟨fun hbody name hname => ?_, fun hbody name => ?_⟩
      · exact (PathTemplate.mem_queryParameters.1 hname).1 hbody
      · exact PathTemplate.mem_queryParameters.trans (and_iff_right hbody)

/-! ### Rules with additional bindings -/

theorem bindingList_eq_ok {rules : List HttpRule} {bindings : List HttpBinding}
    (h : bindingList selector request rules = .ok bindings) :
    List.Forall₂ (fun r b => r.binding selector request = .ok b) rules bindings := by
  induction rules generalizing bindings with
  | nil =>
      cases h
      exact .nil
  | cons r rs ih =>
      rw [bindingList] at h
      split at h
      · cases h
      next b hb =>
        split at h
        · cases h
        next bs hbs =>
          cases h
          exact .cons hb (ih hbs)

/-- A rule that can be bound: the rules behind its bindings, one for one. -/
theorem bindings_eq_ok {http : HttpBindings} (h : rule.bindings selector request = .ok http) :
    http.bodyFieldPath = rule.bodyField? ∧
      List.Forall₂ (fun r b => r.binding selector request = .ok b) (rule :: rule.additionalBindings)
        http.bindings := by
  unfold bindings at h
  split at h
  · cases h
  next bs hbs =>
    cases h
    exact ⟨rfl, bindingList_eq_ok hbs⟩

/-- The rule has a pattern, whose path can be read. -/
def Bindable (rule : HttpRule) : Prop :=
  ∃ verb path t, rule.pattern? = some (verb, path) ∧ PathTemplate.parse path = .ok t

theorem exists_binding_iff :
    (∃ b, rule.binding selector request = .ok b) ↔ rule.Bindable := by
  unfold binding Bindable
  cases rule.pattern? with
  | none => simp
  | some found =>
      obtain ⟨verb, path⟩ := found
      simp only [Option.some.injEq, Prod.mk.injEq, and_assoc, exists_and_left, exists_eq_left']
      cases PathTemplate.parse path with
      | error e => simp
      | ok t => simp

theorem exists_bindingList_iff {rules : List HttpRule} :
    (∃ bs, bindingList selector request rules = .ok bs) ↔ ∀ r ∈ rules, r.Bindable := by
  induction rules with
  | nil => exact iff_of_true ⟨[], rfl⟩ nofun
  | cons r rs ih =>
      have hhere : (∃ b, r.binding selector request = .ok b) ↔ r.Bindable := exists_binding_iff
      rw [List.forall_mem_cons, ← ih, ← hhere, bindingList]
      cases r.binding selector request with
      | error e => simp
      | ok b => cases bindingList selector request rs <;> simp

/-- Whether a rule can be bound depends on its paths alone, not on the request. -/
theorem exists_bindings_iff :
    (∃ http, rule.bindings selector request = .ok http) ↔
      ∀ r ∈ rule :: rule.additionalBindings, r.Bindable := by
  have hlist : (∃ bs, bindingList selector request (rule :: rule.additionalBindings) = .ok bs) ↔
      ∀ r ∈ rule :: rule.additionalBindings, r.Bindable := exists_bindingList_iff
  rw [← hlist, bindings]
  cases bindingList selector request (rule :: rule.additionalBindings) <;> simp

end HttpRule

end ServiceModel
