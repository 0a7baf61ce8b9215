import ServiceModel.Proofs.Descriptor.Listing
import ServiceModel.Proofs.Http
import ServiceModel.Proofs.Mixin.Enabled

/-!
Steps of composition.  A step finds nothing to do, or it puts in the service of a mixin that was not
there, or it puts in one method and lists it.  No step changes what mixins that are loaded have to offer,
so a step that finds nothing to do will not find anything later either.
-/

namespace ServiceModel

def Mixin.methodId (m : Mixin) (name : String) : String := m.id ++ "." ++ name

namespace Composition

open Descriptor (DescriptorSet FileDescriptor ServiceDescriptor Declares)

variable {set : DescriptorSet} {config : Option ServiceConfig} {m : Mixin}
  {serviceId name : String} {t t' : SymbolTable}

/-! ### What mixins offer -/

/-- A mixin has a method, and the first rule that the configuration has for it, if any, can be bound to
its request. -/
def Offers (config : Option ServiceConfig) (t : SymbolTable) (m : Mixin) (name : String) : Prop :=
  ∃ source, t.method? (m.methodId name) = some source ∧
    ∀ rule, config.bind (·.httpRule? (m.methodId name)) = some rule →
      ∃ request http, t.message? source.inputTypeId = some request ∧
        rule.bindings (selectorOf (m.methodId name)) request = .ok http

/-- A method of a mixin as a service offers it: the same but for its ID and its service, the note of
where it was taken from, its documentation, and its bindings if the configuration has a rule for it. -/
def Copies (config : Option ServiceConfig) (t : SymbolTable) (m : Mixin) (serviceId name : String)
    (method : Method) : Prop :=
  ∃ source, t.method? (m.methodId name) = some source ∧
    method = { source with
      id := serviceId ++ "." ++ name
      serviceId
      sourceServiceId := some m.id
      http := method.http
      documentation :=
        (config.bind (·.description? (m.methodId name))).getD (usualDocumentation m) } ∧
    match config.bind (·.httpRule? (m.methodId name)) with
    | none => method.http = source.http
    | some rule => ∃ request, t.message? source.inputTypeId = some request ∧
        rule.bindings (selectorOf (m.methodId name)) request = .ok method.http

theorem composedBindings?_eq_some_iff {sourceId : String} {source : Method} {http : HttpBindings} :
    composedBindings? config t sourceId source = some http ↔
      match config.bind (·.httpRule? sourceId) with
      | none => http = source.http
      | some rule => ∃ request, t.message? source.inputTypeId = some request ∧
          rule.bindings (selectorOf sourceId) request = .ok http := by
  unfold composedBindings?
  cases config.bind (·.httpRule? sourceId) with
  | none => simp [eq_comm]
  | some rule => simp only [Option.bind_eq_some_iff, toOption_eq_some_iff]

theorem composedMethod?_eq_some_iff {method : Method} :
    composedMethod? config t m serviceId name = some method ↔
      Copies config t m serviceId name method := by
  simp only [composedMethod?, Option.bind_eq_bind, Option.bind_eq_some_iff, Copies,
    ← composedBindings?_eq_some_iff, Mixin.methodId]
  constructor
  · rintro ⟨source, hsource, http, hhttp, h⟩
    cases h
    exact ⟨source, hsource, rfl, hhttp⟩
  · rintro ⟨source, hsource, heq, hhttp⟩
    exact ⟨source, hsource, method.http, hhttp, congrArg some heq.symm⟩

theorem Copies.named {method : Method} (h : Copies config t m serviceId name method) :
    method.id = serviceId ++ "." ++ name ∧ method.serviceId = serviceId ∧
      method.sourceServiceId = some m.id := by
  obtain ⟨source, -, heq, -⟩ := h
  rw [heq]
  exact ⟨rfl, rfl, rfl⟩

/-- What a mixin offers can be copied into any service. -/
theorem offers_iff : Offers config t m name ↔ ∃ method, Copies config t m serviceId name method := by
  constructor
  · rintro ⟨source, hsource, hrule⟩
    have hbound : ∃ http, composedBindings? config t (m.methodId name) source = some http := by
      simp only [composedBindings?_eq_some_iff]
      cases hconfig : config.bind (·.httpRule? (m.methodId name)) with
      | none => exact ⟨source.http, rfl⟩
      | some rule =>
          obtain ⟨request, http, hrequest, hhttp⟩ := hrule rule hconfig
          exact ⟨http, request, hrequest, hhttp⟩
    obtain ⟨http, hhttp⟩ := hbound
    simp only [← composedMethod?_eq_some_iff, composedMethod?, Option.bind_eq_bind,
      Option.bind_eq_some_iff]
    exact ⟨_, source, hsource, http, hhttp, rfl⟩
  · rintro ⟨method, source, hsource, -, hhttp⟩
    refine ⟨source, hsource, fun rule hrule => ?_⟩
    rw [hrule] at hhttp
    obtain ⟨request, hrequest, hhttp⟩ := hhttp
    exact ⟨request, method.http, hrequest, hhttp⟩

/-! ### Steps with nothing to do -/

/-- A step that finds nothing to do: the mixin is there, or the service lists a method under the ID
already, or the mixin does not offer the method. -/
def Idle (config : Option ServiceConfig) (t : SymbolTable) : Action → Prop
  | .load m => t.services.contains m.id = true
  | .add m serviceId name =>
      lists t serviceId (serviceId ++ "." ++ name) = true ∨ ¬ Offers config t m name

/-- A step with nothing to do leaves the model and counts neither a file nor a method. -/
theorem step_of_idle {action : Action} {a : Api} (h : Idle config a.table action)
    (set : DescriptorSet) (counts : CompositionCounts) :
    ∃ skipped, step set config action a counts =
      .ok (a, { counts with skippedDuplicates := skipped }) := by
  cases action with
  | load m =>
      refine ⟨counts.skippedDuplicates, ?_⟩
      change a.table.services.contains m.id = true at h
      rw [step, load, if_pos h]
      rfl
  | add m serviceId name =>
      by_cases hlists : lists a.table serviceId (serviceId ++ "." ++ name) = true
      · exact ⟨counts.skippedDuplicates + 1, by rw [step, if_pos hlists]⟩
      · refine ⟨counts.skippedDuplicates, ?_⟩
        have hnone : composedMethod? config a.table m serviceId name = none := by
          refine Option.eq_none_iff_forall_ne_some.2 fun method hmethod => ?_
          exact (h.resolve_left hlists) (offers_iff.2 ⟨method, composedMethod?_eq_some_iff.1 hmethod⟩)
        rw [step, if_neg hlists, hnone]

/-! ### Steps that change the table -/

/-- `t'` is `t` with a method under an ID that was free, at the end of the list of a service. -/
structure GainsMethod (serviceId : String) (added : Method) (t t' : SymbolTable) : Prop where
  messages : t'.messages = t.messages
  enums : t'.enums = t.enums
  frozen : t'.frozen = t.frozen
  free : t.method? added.id = none
  method : ∀ id, t'.method? id = if id = added.id then some added else t.method? id
  service : ∀ id, t'.service? id =
    if id = serviceId then
      (t.service? id).map fun s => { s with methods := s.methods ++ [added.id] }
    else t.service? id

theorem GainsMethod.lists {added : Method} (h : GainsMethod serviceId added t t')
    (hthere : t.services.contains serviceId = true) :
    Composition.lists t' serviceId added.id = true := by
  obtain ⟨s, hs⟩ := Catalog.contains_iff.1 hthere
  have hservice := h.service serviceId
  rw [if_pos rfl, SymbolTable.service?, SymbolTable.service?, hs] at hservice
  exact lists_iff.2 ⟨_, hservice, List.mem_append_right _ List.mem_cons_self⟩

theorem service?_listMethod {methodId : String} (h : t.frozen = false) (id : String) :
    (listMethod serviceId methodId t).service? id =
      if id = serviceId then
        (t.service? id).map fun s => { s with methods := s.methods ++ [methodId] }
      else t.service? id := by
  unfold listMethod SymbolTable.editService?
  rw [h, Bool.not_false, Bool.true_and]
  split
  · exact Catalog.get?_modify _ _ _ _
  next hmissing =>
    rw [Option.getD_none]
    split
    next heq =>
      have hnone : t.service? serviceId = none :=
        Catalog.contains_eq_false_iff.1 (Bool.eq_false_iff.2 hmissing)
      rw [heq, hnone]
      rfl
    next => rfl

theorem insertMethod_gainsMethod {added : Method} (h : t.insertMethod added = .ok t') :
    GainsMethod serviceId added t (listMethod serviceId added.id t') := by
  have hfrozen : t.frozen = false := by
    unfold SymbolTable.insertMethod at h
    split at h
    · cases h
    next hfrozen => simpa using hfrozen
  obtain ⟨hfree, heq⟩ := SymbolTable.insertMethod_eq_ok h
  obtain ⟨services, -, hlist⟩ := listMethod_eq serviceId added.id t'
  refine ⟨?_, ?_, ?_, ?_, fun id => ?_, fun id => ?_⟩
  · rw [hlist, heq]
  · rw [hlist, heq]
  · rw [hlist, heq]
  · exact Catalog.contains_eq_false_iff.1 hfree
  · rw [hlist, heq]
    exact Catalog.get?_insert _ _ _ _
  · rw [service?_listMethod (by rw [heq]; exact hfrozen), heq]
    rfl

/-- What a step does that finds something to do. -/
inductive Moves (set : DescriptorSet) (config : Option ServiceConfig) (t : SymbolTable) :
    Action → SymbolTable → Prop
  /-- The service of a mixin was not there, and a file declares it. -/
  | load {m : Mixin} {t' : SymbolTable} {f : FileDescriptor} {d : ServiceDescriptor} {s : Service}
      (hmissing : t.services.contains m.id = false) (hfile : set.file? m.file = some f)
      (hs : s.id = m.id) (hgains : t.GainsService (Declares t f.package m.id d.methods) s t') :
      Moves set config t (.load m) t'
  /-- A mixin offers a method that the service does not list. -/
  | add {m : Mixin} {serviceId name : String} {t' : SymbolTable} {added : Method}
      (hlists : lists t serviceId (serviceId ++ "." ++ name) = false)
      (hcopies : Copies config t m serviceId name added)
      (hgains : GainsMethod serviceId added t t') : Moves set config t (.add m serviceId name) t'

theorem load_cases (config : Option ServiceConfig) {a a' : Api} {loaded : Bool}
    (h : load set m a = .ok (a', loaded)) :
    loaded = false ∧ a' = a ∧ a.table.services.contains m.id = true ∨
      loaded = true ∧ a' = { a with table := a'.table } ∧
        Moves set config a.table (.load m) a'.table := by
  unfold load at h
  split at h
  next hthere =>
    cases h
    exact Or.inl ⟨rfl, rfl, hthere⟩
  next hmissing =>
    split at h
    · cases h
    next f hf =>
      split at h
      · cases h
      next d i hfind =>
        split at h
        · cases h
        next table built dropped htable =>
          cases h
          have hname := List.find?_some hfind
          have hid := serviceId_eq_id (eq_of_beq hname)
          obtain ⟨place, listed, -, hgains⟩ := Descriptor.addService_gains htable
          rw [hid] at hgains
          exact Or.inr ⟨rfl, rfl, .load (by simpa using hmissing) hf hid hgains⟩

/-- A step finds nothing to do, or it changes the table and counts a file or a method. -/
theorem step_cases {action : Action} {a a' : Api} {counts counts' : CompositionCounts}
    (h : step set config action a counts = .ok (a', counts')) :
    (Idle config a.table action ∧ a' = a ∧ counts'.loadedFiles = counts.loadedFiles ∧
        counts'.composedMethods = counts.composedMethods) ∨
      Moves set config a.table action a'.table ∧ a' = { a with table := a'.table } ∧
        counts'.loadedFiles + counts'.composedMethods =
          counts.loadedFiles + counts.composedMethods + 1 := by
  cases action with
  | load m =>
      rw [step] at h
      split at h
      · cases h
      next b loaded hload =>
        cases h
        rcases load_cases config hload with ⟨rfl, rfl, hthere⟩ | ⟨rfl, heq, hmoves⟩
        · exact Or.inl ⟨hthere, rfl, rfl, rfl⟩
        · exact Or.inr ⟨hmoves, heq, Nat.add_right_comm _ _ _⟩
  | add m serviceId name =>
      rw [step] at h
      split at h
      next hlists =>
        cases h
        exact Or.inl ⟨Or.inl hlists, rfl, rfl, rfl⟩
      next hlists =>
        split at h
        next hnone =>
          cases h
          refine Or.inl ⟨Or.inr fun hoffers => ?_, rfl, rfl, rfl⟩
          obtain ⟨method, hmethod⟩ := offers_iff.1 hoffers
          rw [composedMethod?_eq_some_iff.2 hmethod] at hnone
          cases hnone
        next method hmethod =>
          split at h
          · cases h
          next table htable =>
            cases h
            refine Or.inr ⟨.add (by simpa using hlists) (composedMethod?_eq_some_iff.1 hmethod)
              (insertMethod_gainsMethod htable), rfl, rfl⟩

theorem Moves.not_idle {action : Action} (h : Moves set config t action t') :
    ¬ Idle config t action := by
  cases h with
  | load hmissing =>
      intro hidle
      change _ = true at hidle
      rw [hmissing] at hidle
      cases hidle
  | add hlists hcopies =>
      rintro (hlisted | hoffers)
      · rw [hlists] at hlisted
        cases hlisted
      · exact hoffers (offers_iff.2 ⟨_, hcopies⟩)

/-- After it moved there is nothing left to do, if the service is there. -/
theorem Moves.idle {action : Action} (h : Moves set config t action t')
    (hthere : ∀ m id name, action = .add m id name → t.services.contains id = true) :
    Idle config t' action := by
  cases h with
  | load hmissing hfile hs hgains => exact (hgains.contains _).2 (Or.inl hs.symm)
  | @add m serviceId name t' added hlists hcopies hgains =>
      exact Or.inl (hcopies.named.1 ▸ hgains.lists (hthere m serviceId name rfl))

/-! ### What steps keep -/

/-- `t'` has everything that is in `t`.  Its services may list more, and mixins that were loaded have the
same methods with plain names. -/
structure Evolves (t t' : SymbolTable) : Prop where
  messages : t'.messages = t.messages
  enums : t'.enums = t.enums
  frozen : t'.frozen = t.frozen
  methods : ∀ id m, t.method? id = some m → t'.method? id = some m
  services : ∀ id s, t.service? id = some s →
    ∃ more, t'.service? id = some { s with methods := s.methods ++ more }
  sources : ∀ (m : Mixin) (name : String), t.services.contains m.id = true → '.' ∉ name.toList →
    t'.method? (m.methodId name) = t.method? (m.methodId name)

namespace Evolves

variable {t'' : SymbolTable}

theorem refl (t : SymbolTable) : Evolves t t where
  messages := rfl
  enums := rfl
  frozen := rfl
  methods := fun _ _ hm => hm
  services := fun _ s hs => ⟨[], by rw [List.append_nil]; exact hs⟩
  sources := fun _ _ _ _ => rfl

theorem contains (h : Evolves t t') {id : String} (hid : t.services.contains id = true) :
    t'.services.contains id = true := by
  obtain ⟨s, hs⟩ := Catalog.contains_iff.1 hid
  obtain ⟨more, hmore⟩ := h.services id s hs
  exact Catalog.contains_of_get? hmore

theorem trans (h : Evolves t t') (h' : Evolves t' t'') : Evolves t t'' where
  messages := h'.messages.trans h.messages
  enums := h'.enums.trans h.enums
  frozen := h'.frozen.trans h.frozen
  methods := fun id m hm => h'.methods id m (h.methods id m hm)
  services := fun id s hs => by
    obtain ⟨more, hmore⟩ := h.services id s hs
    obtain ⟨more', hmore'⟩ := h'.services id _ hmore
    exact ⟨more ++ more', by rw [hmore', List.append_assoc]⟩
  sources := fun m name hm hname =>
    (h'.sources m name (h.contains hm) hname).trans (h.sources m name hm hname)

theorem lists (h : Evolves t t') {methodId : String}
    (hlists : Composition.lists t serviceId methodId = true) :
    Composition.lists t' serviceId methodId = true := by
  obtain ⟨s, hs, hmem⟩ := lists_iff.1 hlists
  obtain ⟨more, hmore⟩ := h.services serviceId s hs
  exact lists_iff.2 ⟨_, hmore, List.mem_append_left _ hmem⟩

theorem message? (h : Evolves t t') : t'.message? = t.message? := congrArg Catalog.get? h.messages

theorem offers (h : Evolves t t') (hm : t.services.contains m.id = true) (hname : '.' ∉ name.toList) :
    Offers config t' m name ↔ Offers config t m name := by
  rw [Offers, Offers, h.sources m name hm hname, h.message?]

theorem copies (h : Evolves t t') (hm : t.services.contains m.id = true) (hname : '.' ∉ name.toList)
    {method : Method} : Copies config t' m serviceId name method ↔
      Copies config t m serviceId name method := by
  rw [Copies, Copies, h.sources m name hm hname, h.message?]

end Evolves

/-- A step that adds a method with a plain name, of a mixin that is loaded, to a service that is no mixin
itself. -/
def Admissible (t : SymbolTable) : Action → Prop
  | .load _ => True
  | .add m serviceId name =>
      t.services.contains m.id = true ∧ isMixinApi serviceId = false ∧ '.' ∉ name.toList

theorem Idle.evolves {action : Action} (h : Idle config t action) (haction : Admissible t action)
    (ht : Evolves t t') : Idle config t' action := by
  cases action with
  | load m => exact ht.contains h
  | add m serviceId name =>
      exact h.imp ht.lists (mt (ht.offers haction.1 haction.2.2).1)

theorem isMixinApi_id (m : Mixin) : isMixinApi m.id = true := by
  cases m <;> decide

/-- No mixin has a method under an ID of another's. -/
theorem methodId_inj {m m' : Mixin} {name name' : String} (h : m.methodId name = m'.methodId name') :
    m = m' := by
  have hchar := congrArg (fun s => s.toList[8]?) h
  cases m <;> cases m' <;> first | rfl | simp [Mixin.methodId, Mixin.id, Mixin.service] at hchar

theorem evolves_gainsService {kind : Method → Prop} {s : Service}
    (hmissing : t.services.contains m.id = false) (hs : s.id = m.id)
    (hgains : t.GainsService kind s t') (hkind : ∀ n, kind n → n.id = m.methodId n.name) :
    Evolves t t' := by
  have hnone : t.service? m.id = none := Catalog.contains_eq_false_iff.1 hmissing
  refine ⟨hgains.messages, hgains.enums, hgains.frozen, hgains.kept, fun id u hu => ⟨[], ?_⟩,
    fun m' name hm' _ => ?_⟩
  · rw [hgains.service, hs, if_neg, hu, List.append_nil]
    rintro rfl
    rw [hnone] at hu
    cases hu
  · cases hnew : t'.method? (m'.methodId name) with
    | none =>
        cases hold : t.method? (m'.methodId name) with
        | none => rfl
        | some n =>
            rw [hgains.kept _ n hold] at hnew
            cases hnew
    | some n =>
        rcases hgains.gained _ n hnew with ⟨-, hold⟩ | ⟨-, -, hid, hn⟩
        · exact hold.symm
        · have hsame := methodId_inj ((hkind n hn).symm.trans hid)
          rw [← hsame, hmissing] at hm'
          cases hm'

theorem evolves_gainsMethod {added : Method} (hid : added.id = serviceId ++ "." ++ name)
    (hown : isMixinApi serviceId = false) (hplain : '.' ∉ name.toList)
    (hgains : GainsMethod serviceId added t t') : Evolves t t' := by
  refine ⟨hgains.messages, hgains.enums, hgains.frozen, fun id n hn => ?_, fun id s hs => ?_,
    fun m name' _ hname' => ?_⟩
  · rw [hgains.method, if_neg, hn]
    rintro rfl
    rw [hgains.free] at hn
    cases hn
  · rw [hgains.service, hs]
    split
    · exact ⟨_, rfl⟩
    · exact ⟨[], by rw [List.append_nil]⟩
  · rw [hgains.method, if_neg]
    intro heq
    obtain ⟨hservice, -⟩ := (Text.dotted_inj hname' hplain).1 (heq.trans hid)
    rw [← hservice, isMixinApi_id] at hown
    cases hown

/-- A step that is admissible takes nothing away. -/
theorem Moves.evolves {action : Action} (h : Moves set config t action t')
    (haction : Admissible t action) : Evolves t t' := by
  cases h with
  | load hmissing _ hs hgains =>
      exact evolves_gainsService hmissing hs hgains fun n hn => hn.named.2.1
  | add _ hcopies hgains =>
      exact evolves_gainsMethod hcopies.named.1 haction.2.1 haction.2.2 hgains

end Composition

end ServiceModel
