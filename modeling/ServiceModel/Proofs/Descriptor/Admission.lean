import ServiceModel.Proofs.Descriptor.Finished
import ServiceModel.Proofs.Descriptor.Service
import ServiceModel.Proofs.Http

/-!
Admission of methods.  Whether a method can be built depends on its annotations and on whether its
request is there, not on what the request holds.  So it is known before the messages are finished which
methods the services of a file bring, and the file fails only if one of them is there already.
-/

namespace ServiceModel

namespace Descriptor

variable {t₀ t t' u : SymbolTable} {f : FileDescriptor}

/-! ### Which methods are built -/

/-- A method that is not left out: its request is there, and its annotations can be used. -/
structure MethodDescriptor.Buildable (t : SymbolTable) (d : MethodDescriptor) : Prop where
  request : ∃ m, t.message? (typeIdOf d.inputType) = some m
  http : ∃ rule, httpRule d.options = .ok rule ∧
    ∀ r, rule = some r → ∀ r' ∈ r :: r.additionalBindings, r'.Bindable
  routing : ∃ headers, methodRouting? d.options = some headers
  operation : ∃ o, operation d.options = .ok o

theorem exists_methodBindings_iff {selector : String} {request : Message} {options : Options} :
    (∃ http, methodBindings? selector request options = some http) ↔
      ∃ rule, httpRule options = .ok rule ∧
        ∀ r, rule = some r → ∀ r' ∈ r :: r.additionalBindings, r'.Bindable := by
  unfold methodBindings?
  cases httpRule options with
  | error e => simp
  | ok rule =>
      cases rule with
      | none => simp
      | some r =>
          simp only [toOption_eq_some_iff, HttpRule.exists_bindings_iff]
          constructor
          · intro h
            refine ⟨some r, rfl, ?_⟩
            rintro _ ⟨⟩
            exact h
          · rintro ⟨_, hrule, h⟩
            cases hrule
            exact h r rfl

theorem exists_methodOperation_iff {package : String} {options : Options} :
    (∃ o, methodOperation? t package options = some o) ↔ ∃ o, operation options = .ok o := by
  unfold methodOperation?
  cases operation options with
  | error e => simp
  | ok o => cases o <;> simp

theorem exists_method_iff {package serviceId : String} {d : MethodDescriptor} :
    (∃ m, method? t package serviceId d = some m) ↔ d.Buildable t := by
  unfold method?
  simp only [Option.bind_eq_bind, Option.bind_eq_some_iff]
  constructor
  · rintro ⟨m, request, hrequest, http, hhttp, routing, hrouting, o, ho, -⟩
    exact ⟨⟨request, hrequest⟩, exists_methodBindings_iff.1 ⟨http, hhttp⟩, ⟨routing, hrouting⟩,
      exists_methodOperation_iff.1 ⟨o, ho⟩⟩
  · rintro ⟨⟨request, hrequest⟩, hhttp, ⟨routing, hrouting⟩, ho⟩
    obtain ⟨http, hhttp⟩ := exists_methodBindings_iff.2 hhttp
    obtain ⟨o, ho⟩ := exists_methodOperation_iff.2 ho
    exact ⟨_, request, hrequest, http, hhttp, routing, hrouting, o, ho, rfl⟩

/-- Tables with the same messages, whatever they hold, build the same methods. -/
theorem method?_isSome (h : SameMaps t₀ t) (package serviceId : String) (d : MethodDescriptor) :
    (method? t package serviceId d).isSome = (method? t₀ package serviceId d).isSome := by
  have hrequest : (∃ m, t.message? (typeIdOf d.inputType) = some m) ↔
      ∃ m, t₀.message? (typeIdOf d.inputType) = some m := by
    rw [← Option.isSome_iff_exists, ← Option.isSome_iff_exists, h.isSome_message?]
  rw [Bool.eq_iff_iff, Option.isSome_iff_exists, Option.isSome_iff_exists, exists_method_iff,
    exists_method_iff]
  exact ⟨fun ⟨h₁, h₂, h₃, h₄⟩ => ⟨hrequest.1 h₁, h₂, h₃, h₄⟩,
    fun ⟨h₁, h₂, h₃, h₄⟩ => ⟨hrequest.2 h₁, h₂, h₃, h₄⟩⟩

/-! ### Fresh methods -/

/-- Some IDs are different from each other and from those of all methods that are there. -/
def Fresh (ids : List String) (t : SymbolTable) : Prop :=
  ids.Nodup ∧ ∀ id ∈ ids, t.methods.contains id = false

theorem Fresh.left {ids ids' : List String} (h : Fresh (ids ++ ids') t) : Fresh ids t :=
  ⟨(List.nodup_append.1 h.1).1, (List.forall_mem_append.1 h.2).1⟩

/-- `t'` is `t` with methods under some IDs, apart from its services. -/
structure Admits (ids : List String) (t t' : SymbolTable) : Prop where
  messages : t'.messages = t.messages
  enums : t'.enums = t.enums
  frozen : t'.frozen = t.frozen
  methods : ∀ id, t'.methods.contains id = true ↔ id ∈ ids ∨ t.methods.contains id = true

theorem Admits.refl (t : SymbolTable) : Admits [] t t := ⟨rfl, rfl, rfl, by simp⟩

theorem Admits.trans {ids ids' : List String} (h : Admits ids t u) (h' : Admits ids' u t') :
    Admits (ids ++ ids') t t' where
  messages := h'.messages.trans h.messages
  enums := h'.enums.trans h.enums
  frozen := h'.frozen.trans h.frozen
  methods := by
    intro id
    rw [h'.methods, h.methods, List.mem_append, ← or_assoc, or_comm (a := id ∈ ids)]

/-- Behind fresh methods others are fresh if they are fresh together with them. -/
theorem Fresh.append_iff {ids ids' : List String} (hfresh : Fresh ids t)
    (h : ∀ id, u.methods.contains id = true ↔ id ∈ ids ∨ t.methods.contains id = true) :
    Fresh (ids ++ ids') t ↔ Fresh ids' u := by
  have hthere : ∀ id, u.methods.contains id = false ↔ id ∉ ids ∧ t.methods.contains id = false := by
    intro id
    rw [← Bool.not_eq_true, h, not_or, Bool.not_eq_true]
  unfold Fresh
  simp only [hthere, List.nodup_append, List.forall_mem_append]
  constructor
  · rintro ⟨⟨-, hids', hne⟩, -, hfree⟩
    exact ⟨hids', fun id hid => ⟨fun hold => hne id hold id hid rfl, hfree id hid⟩⟩
  · rintro ⟨hids', hfree⟩
    refine ⟨⟨hfresh.1, hids', ?_⟩, hfresh.2, fun id hid => (hfree id hid).2⟩
    rintro id hold _ hid rfl
    exact (hfree id hid).1 hold

theorem Admits.sameMaps {ids : List String} (h : Admits ids t u) (hmaps : SameMaps t₀ t) :
    SameMaps t₀ u := by
  intro id
  rw [SymbolTable.message?, h.messages]
  exact hmaps id

theorem insertMethod_settles (m : Method) (hopen : t.frozen = false) :
    Settles (Fresh [m.id] t) (Admits [m.id] t) (t.insertMethod m) := by
  have hfresh : Fresh [m.id] t ↔ t.methods.contains m.id = false := by simp [Fresh]
  rw [hfresh, SymbolTable.insertMethod, hopen, if_neg Bool.false_ne_true]
  split
  next hthere => exact fun hfree => by simp [hfree] at hthere
  next hfree => exact ⟨by simpa using hfree, rfl, rfl, hopen.symm, by simp⟩

theorem insertService_settles (s : Service) (hopen : t.frozen = false) :
    Settles True (Admits [] t) (t.insertService s) := by
  rw [SymbolTable.insertService, hopen, if_neg Bool.false_ne_true]
  exact ⟨trivial, rfl, rfl, hopen.symm, by simp⟩

def builtIds (t₀ : SymbolTable) (package serviceId : String) (ds : List MethodDescriptor) :
    List String :=
  (ds.filter fun d => (method? t₀ package serviceId d).isSome).map fun d =>
    memberId serviceId d.name

theorem addMethods_settles {serviceId : String} {place : Place} {i : Nat}
    {ds : List MethodDescriptor} {draft : ServiceDraft} (h : SameMaps t₀ draft.table)
    (hopen : draft.table.frozen = false) :
    Settles (Fresh (builtIds t₀ f.package serviceId ds) draft.table)
      (fun draft' => Admits (builtIds t₀ f.package serviceId ds) draft.table draft'.table)
      (addMethods f serviceId place i ds draft) := by
  induction ds generalizing i draft with
  | nil => exact ⟨⟨List.nodup_nil, nofun⟩, .refl _⟩
  | cons d ds ih =>
      -- What is built here is read off `t₀`, whatever the table holds by now.
      have hbuilt := method?_isSome h f.package serviceId d
      rw [addMethods]
      cases hm : method? draft.table f.package serviceId d with
      | none =>
          rw [hm] at hbuilt
          have hids : builtIds t₀ f.package serviceId (d :: ds) =
              builtIds t₀ f.package serviceId ds := by
            rw [builtIds, List.filter_cons_of_neg (by simp [← hbuilt])]
            rfl
          rw [hids]
          exact ih h hopen
      | some m =>
          rw [hm] at hbuilt
          have hids : builtIds t₀ f.package serviceId (d :: ds) =
              m.id :: builtIds t₀ f.package serviceId ds := by
            rw [builtIds, List.filter_cons_of_pos (by simp [← hbuilt]), List.map_cons,
              (method?_eq_some hm).2.1]
            rfl
          rw [hids]
          dsimp only
          have hhere := insertMethod_settles
            { m with documentation := f.comment (place.child Place.serviceMethod i) } hopen
          cases hu : draft.table.insertMethod
              { m with documentation := f.comment (place.child Place.serviceMethod i) } with
          | error e =>
              rw [hu] at hhere
              intro (hfresh : Fresh ([m.id] ++ builtIds t₀ f.package serviceId ds) draft.table)
              exact hhere hfresh.left
          | ok u =>
              rw [hu] at hhere
              obtain ⟨hfresh, hadmits⟩ := hhere
              refine (ih (hadmits.sameMaps h) (hadmits.frozen.trans hopen)).imp ?_ fun draft' hrest => ?_
              · exact (hfresh.append_iff hadmits.methods).symm
              · exact hadmits.trans hrest

theorem addService_settles {i : Nat} {d : ServiceDescriptor} (h : SameMaps t₀ t)
    (hopen : t.frozen = false) :
    Settles (Fresh (builtIds t₀ f.package (f.serviceId d) d.methods) t)
      (fun r => Admits (builtIds t₀ f.package (f.serviceId d) d.methods) t r.1)
      (addService f i d t) := by
  have hmethods : Settles (Fresh (builtIds t₀ f.package (f.serviceId d) d.methods) t)
      (fun draft => Admits (builtIds t₀ f.package (f.serviceId d) d.methods) t draft.table)
      (addMethods f (f.serviceId d) (Place.child [] Place.fileService i) 0 d.methods ⟨t, [], 0⟩) :=
    addMethods_settles h hopen
  unfold addService
  dsimp only
  cases hdraft : addMethods f (f.serviceId d) (Place.child [] Place.fileService i) 0 d.methods
      ⟨t, [], 0⟩ with
  | error stop =>
      rw [hdraft] at hmethods
      exact hmethods
  | ok draft =>
      rw [hdraft] at hmethods
      obtain ⟨hfresh, hadmits⟩ := hmethods
      have hservice := insertService_settles
        (f.service (Place.child [] Place.fileService i) d draft.listed)
        (hadmits.frozen.trans hopen)
      dsimp only
      cases hu : draft.table.insertService
          (f.service (Place.child [] Place.fileService i) d draft.listed) with
      | error e =>
          rw [hu] at hservice
          exact absurd trivial hservice
      | ok u =>
          rw [hu] at hservice
          have hall := hadmits.trans hservice.2
          rw [List.append_nil] at hall
          exact ⟨hfresh, hall⟩

def serviceMethodIds (t₀ : SymbolTable) (f : FileDescriptor) (ds : List ServiceDescriptor) :
    List String :=
  ds.flatMap fun d => builtIds t₀ f.package (f.serviceId d) d.methods

theorem addServices_settles {i : Nat} {ds : List ServiceDescriptor} {draft : Draft}
    (h : SameMaps t₀ draft.api.table) (hopen : draft.api.table.frozen = false) :
    Settles (Fresh (serviceMethodIds t₀ f ds) draft.api.table)
      (fun draft' => Admits (serviceMethodIds t₀ f ds) draft.api.table draft'.api.table)
      (addServices f i ds draft) := by
  induction ds generalizing i draft with
  | nil => exact ⟨⟨List.nodup_nil, nofun⟩, .refl _⟩
  | cons d ds ih =>
      have hhere := addService_settles (f := f) (i := i) (d := d) h hopen
      rw [addServices, serviceMethodIds, List.flatMap_cons]
      cases hr : addService f i d draft.api.table with
      | error stop =>
          rw [hr] at hhere
          exact fun hfresh => hhere hfresh.left
      | ok r =>
          rw [hr] at hhere
          obtain ⟨hfresh, hadmits⟩ := hhere
          refine (ih (hadmits.sameMaps h) (hadmits.frozen.trans hopen)).imp ?_ fun draft' hrest => ?_
          · exact (hfresh.append_iff hadmits.methods).symm
          · exact hadmits.trans hrest

end Descriptor

end ServiceModel
