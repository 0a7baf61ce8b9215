import ServiceModel.Proofs.Descriptor.Contribution
import ServiceModel.Proofs.Routing.Merging

/-!
Accounts of an ingestion.  Messages and enums are counted at every depth of every file; top-level
declarations and services are those of the targets, in order.  Each method of a target is built or left
out, and nothing but its own declaration and its request decides which.
-/

namespace ServiceModel

namespace Descriptor

variable {t u : SymbolTable} {f : FileDescriptor} {fs : List FileDescriptor} {o : Targets}

/-! ### Usable methods -/

/-- A method whose annotations decode, whose templates parse and whose request is there. -/
structure MethodDescriptor.Usable (t : SymbolTable) (d : MethodDescriptor) : Prop where
  request : t.messages.contains (typeIdOf d.inputType) = true
  http : ∃ rule, httpRule d.options = .ok rule ∧ ∀ r, rule = some r →
    ∀ r' ∈ r :: r.additionalBindings, ∃ verb path template,
      r'.pattern? = some (verb, path) ∧ PathTemplate.parse path = .ok template
  routing : ∃ rules, routingRules d.options = .ok rules ∧ ∀ rs, rules = some rs →
    ∀ r ∈ rs, ∃ v, r.parse = .ok v
  operation : ∃ types, Descriptor.operation d.options = .ok types

theorem exists_methodRouting_iff {options : Options} :
    (∃ headers, methodRouting? options = some headers) ↔
      ∃ rules, routingRules options = .ok rules ∧ ∀ rs, rules = some rs →
        ∀ r ∈ rs, ∃ v, r.parse = .ok v := by
  unfold methodRouting?
  cases routingRules options with
  | error e => simp
  | ok rules =>
      cases rules with
      | none => simp
      | some rs =>
          have hparse := @RoutingRule.exists_parseAll_iff rs
          cases h : RoutingRule.parseAll rs with
          | error e => simp_all [Except.toOption]
          | ok headers => simp_all [Except.toOption]

/-- A method is built exactly if it is usable. -/
theorem MethodDescriptor.usable_iff_buildable {d : MethodDescriptor} :
    d.Usable t ↔ d.Buildable t := by
  have hrequest : t.messages.contains (typeIdOf d.inputType) = true ↔
      ∃ m, t.message? (typeIdOf d.inputType) = some m := Catalog.contains_iff
  constructor
  · intro h
    exact ⟨hrequest.1 h.request, h.http, exists_methodRouting_iff.2 h.routing, h.operation⟩
  · intro h
    exact ⟨hrequest.2 h.request, h.http, exists_methodRouting_iff.1 h.routing, h.operation⟩

instance (t : SymbolTable) (d : MethodDescriptor) : Decidable (d.Usable t) :=
  decidable_of_iff _ d.usable_iff_buildable.symm

/-! ### Declarations at every depth -/

mutual

/-- A weight summed over a message and all messages inside it. -/
def MessageDescriptor.total (weight : MessageDescriptor → Nat) : MessageDescriptor → Nat
  | ⟨name, fields, nested, enums, oneOfs, options⟩ =>
      nestedTotal weight nested + weight ⟨name, fields, nested, enums, oneOfs, options⟩

def nestedTotal (weight : MessageDescriptor → Nat) : List MessageDescriptor → Nat
  | [] => 0
  | d :: ds => d.total weight + nestedTotal weight ds

end

/-- How many messages a file declares at every depth. -/
def FileDescriptor.messageCount (f : FileDescriptor) : Nat := nestedTotal (fun _ => 1) f.messages

/-- How many enums a file declares, in messages and beside them. -/
def FileDescriptor.enumCount (f : FileDescriptor) : Nat :=
  nestedTotal (fun d => d.enums.length) f.messages + f.enums.length

mutual

theorem sum_messageSites (weight : MessageDescriptor → Nat) (scope : String)
    (parent : Option String) (place : Place) : ∀ d : MessageDescriptor,
      ((messageSites scope parent place d).map fun s => weight s.descriptor).sum = d.total weight
  | ⟨name, fields, nested, enums, oneOfs, options⟩ => by
      rw [messageSites, MessageDescriptor.total, List.map_append, List.sum_append,
        sum_nestedSites weight _ place 0 nested]
      simp

theorem sum_nestedSites (weight : MessageDescriptor → Nat) (id : String) (place : Place)
    (index : Nat) : ∀ ds : List MessageDescriptor,
      ((nestedSites id place index ds).map fun s => weight s.descriptor).sum = nestedTotal weight ds
  | [] => rfl
  | d :: ds => by
      rw [nestedSites, nestedTotal, List.map_append, List.sum_append,
        sum_messageSites weight id (some id) _ d, sum_nestedSites weight id place (index + 1) ds]

end

theorem FileDescriptor.sum_messageSites (f : FileDescriptor) (weight : MessageDescriptor → Nat) :
    (f.messageSites.map fun s => weight s.descriptor).sum = nestedTotal weight f.messages := by
  unfold messageSites
  generalize f.messages = ds
  generalize 0 = i
  induction ds generalizing i with
  | nil => rfl
  | cons d ds ih =>
      rw [List.zipIdx_cons, List.flatMap_cons, List.map_append, List.sum_append, ih,
        Descriptor.sum_messageSites weight, nestedTotal]

theorem FileDescriptor.length_messageSites (f : FileDescriptor) :
    f.messageSites.length = f.messageCount := by
  rw [messageCount, ← f.sum_messageSites]
  simp

theorem FileDescriptor.length_enumSites (f : FileDescriptor) :
    f.enumSites.length = f.enumCount := by
  have hsite : ∀ s : MessageSite, s.enumSites.length = s.descriptor.enums.length := by
    intro s
    simp [MessageSite.enumSites, enumSitesOf]
  rw [enumCount, ← f.sum_messageSites, enumSites, List.length_append, List.length_flatMap]
  simp [hsite, enumSitesOf]

/-! ### Declarations of targets -/

theorem mem_fileContributions_iff {k : Nat} {ds : List ServiceDescriptor} {c : Contribution} :
    c ∈ fileContributions t f k ds ↔
      ∃ j d, ds[j]? = some d ∧ c = contribution t f (k + j) d := by
  induction ds generalizing k with
  | nil => simp [fileContributions]
  | cons d ds ih =>
      rw [fileContributions, List.mem_cons, ih]
      constructor
      · rintro (rfl | ⟨j, e, he, rfl⟩)
        · exact ⟨0, d, rfl, rfl⟩
        · refine ⟨j + 1, e, he, ?_⟩
          rw [Nat.add_assoc, Nat.add_comm 1 j]
      · rintro ⟨j, e, he, rfl⟩
        cases j with
        | zero =>
            cases he
            exact Or.inl rfl
        | succ j =>
            refine Or.inr ⟨j, e, he, ?_⟩
            rw [Nat.add_assoc, Nat.add_comm 1 j]

/-- A target among some files declares a service, and `u` has the messages as the files up to that one
leave them. -/
def DeclaresAt (o : Targets) (fs : List FileDescriptor) (t u : SymbolTable) (f : FileDescriptor)
    (k : Nat) (d : ServiceDescriptor) : Prop :=
  ∃ before after, fs = before ++ f :: after ∧ o.includes f.name = true ∧
    resolveMessages (before ++ [f]) t = .ok u ∧ f.services[k]? = some d

theorem declaresAt_cons_iff {v w : SymbolTable} {g : FileDescriptor} {k : Nat}
    {d : ServiceDescriptor} (hv : resolveSites f f.messageSites t = .ok v) :
    DeclaresAt o (f :: fs) t w g k d ↔
      (g = f ∧ w = v ∧ o.includes f.name = true ∧ f.services[k]? = some d) ∨
        DeclaresAt o fs v w g k d := by
  have hresolve : ∀ before, resolveMessages (f :: before) t = resolveMessages before v := by
    intro before
    rw [resolveMessages, hv]
  constructor
  · rintro ⟨before, after, hfs, hg, hw, hd⟩
    cases before with
    | nil =>
        cases hfs
        rw [List.nil_append, hresolve] at hw
        cases hw
        exact Or.inl ⟨rfl, rfl, hg, hd⟩
    | cons e before =>
        cases hfs
        rw [List.cons_append, hresolve] at hw
        exact Or.inr ⟨before, after, rfl, hg, hw, hd⟩
  · rintro (⟨rfl, rfl, hg, hd⟩ | ⟨before, after, rfl, hg, hw, hd⟩)
    · refine ⟨[], fs, rfl, hg, ?_, hd⟩
      rw [List.nil_append, hresolve]
      rfl
    · refine ⟨f :: before, after, rfl, hg, ?_, hd⟩
      rwa [List.cons_append, hresolve]

theorem mem_contributions_iff {c : Contribution} (h : resolveMessages fs t = .ok u) :
    c ∈ contributions o fs t ↔
      ∃ v f k d, DeclaresAt o fs t v f k d ∧ c = contribution v f k d := by
  induction fs generalizing t with
  | nil => simp [contributions, DeclaresAt]
  | cons f fs ih =>
      rw [resolveMessages] at h
      rw [contributions]
      split at h
      · cases h
      next v hv =>
        rw [List.mem_append, ih h]
        constructor
        · rintro (hc | ⟨w, g, k, d, hdeclares, rfl⟩)
          · cases htarget : o.includes f.name with
            | false => simp [htarget] at hc
            | true =>
                rw [htarget, if_pos rfl, mem_fileContributions_iff] at hc
                obtain ⟨k, d, hd, rfl⟩ := hc
                refine ⟨v, f, k, d, (declaresAt_cons_iff hv).2 (Or.inl ⟨rfl, rfl, htarget, hd⟩), ?_⟩
                rw [Nat.zero_add]
          · exact ⟨w, g, k, d, (declaresAt_cons_iff hv).2 (Or.inr hdeclares), rfl⟩
        · rintro ⟨w, g, k, d, hdeclares, rfl⟩
          rcases (declaresAt_cons_iff hv).1 hdeclares with ⟨rfl, rfl, htarget, hd⟩ | hdeclares
          · rw [htarget, if_pos rfl, mem_fileContributions_iff]
            refine Or.inl ⟨k, d, hd, ?_⟩
            rw [Nat.zero_add]
          · exact Or.inr ⟨w, g, k, d, hdeclares, rfl⟩

theorem map_fileContributions {α : Type} {g : Contribution → α} {g' : Declaration → α} {k : Nat}
    {ds : List ServiceDescriptor}
    (hg : ∀ j d, ds[j]? = some d → g (contribution t f (k + j) d) = g' ⟨f, d⟩) :
    (fileContributions t f k ds).map g = (ds.map fun d => ⟨f, d⟩).map g' := by
  induction ds generalizing k with
  | nil => rfl
  | cons d ds ih =>
      rw [fileContributions, List.map_cons, List.map_cons, List.map_cons, ← hg 0 d rfl, ih]
      · rfl
      · intro j e he
        rw [← hg (j + 1) e he, Nat.add_assoc, Nat.add_comm 1 j]

/-- What targets contribute comes from their declarations, one by one. -/
theorem map_contributions {α : Type} {g : Contribution → α} {g' : Declaration → α}
    (hg : ∀ v f k d, DeclaresAt o fs t v f k d → g (contribution v f k d) = g' ⟨f, d⟩)
    (h : resolveMessages fs t = .ok u) :
    (contributions o fs t).map g =
      (declarationsOf (fs.filter fun f => o.includes f.name)).map g' := by
  induction fs generalizing t with
  | nil => rfl
  | cons f fs ih =>
      rw [resolveMessages] at h
      rw [contributions]
      split at h
      · cases h
      next v hv =>
        have hrest := ih
          (fun w e k d hd => hg w e k d ((declaresAt_cons_iff hv).2 (Or.inr hd))) h
        rw [List.map_append, hrest, List.filter_cons]
        cases htarget : o.includes f.name with
        | false => rfl
        | true =>
            have hhere : (fileContributions v f 0 f.services).map g =
                (f.services.map fun d => ⟨f, d⟩).map g' := by
              refine map_fileContributions fun j d hd => ?_
              exact hg v f _ d ((declaresAt_cons_iff hv).2
                (Or.inl ⟨rfl, rfl, htarget, by rwa [Nat.zero_add]⟩))
            rw [if_pos rfl, if_pos rfl, hhere, ← List.map_append]
            rfl

/-! ### Accounts -/

/-- A method that a target of a set declares, built from the messages as the files up to that target
leave them, with the comment at its own place. -/
def DescriptorSet.Gives (s : DescriptorSet) (o : Targets) (m : Method) : Prop :=
  ∃ u f k e i d built, DeclaresAt o s.files (s.register .wellKnown) u f k e ∧
    e.methods[i]? = some d ∧ method? u f.package (f.serviceId e) d = some built ∧
      m = { built with
        documentation :=
          f.comment ((Place.child [] Place.fileService k).child Place.serviceMethod i) }

/-- The methods that the targets of a set declare, in order. -/
def DescriptorSet.methods (s : DescriptorSet) (o : Targets) : List MethodDescriptor :=
  (s.declarations o).flatMap fun e => e.service.methods

/-- What a model and its counts say of a set. -/
structure Accounts (s : DescriptorSet) (o : Targets) (a : Api) (counts : IngestionCounts) :
    Prop where
  /-- Messages are counted at every depth of every file. -/
  messages : counts.messages = (s.files.map FileDescriptor.messageCount).sum
  /-- Enums are counted at every depth of every file. -/
  enums : counts.enums = (s.files.map FileDescriptor.enumCount).sum
  /-- The model lists the top-level messages of the targets, in order. -/
  topMessages : a.messages =
    (s.targets o).flatMap fun f => f.messages.map fun d => memberId f.scope d.name
  /-- The model lists the top-level enums of the targets, in order. -/
  topEnums : a.enums = (s.targets o).flatMap fun f => f.enums.map fun d => memberId f.scope d.name
  /-- The model lists the services of the targets that are no mixins, in order. -/
  services : a.services = ownServices (s.declarations o)
  /-- Every service of a target is counted, a mixin too. -/
  allServices : counts.services = (s.declarations o).length
  /-- Every method of a target is counted once. -/
  declared : counts.methods + counts.droppedMethods = (s.methods o).length
  /-- The methods that are not usable were dropped. -/
  dropped : counts.droppedMethods = (s.methods o).countP fun d => !d.Usable a.table
  /-- The methods of the table are as many as were built. -/
  there : counts.methods = a.table.methods.entries.length
  /-- The methods of the table are those that the targets give. -/
  given : ∀ id m, a.table.method? id = some m ↔ m.id = id ∧ s.Gives o m
  /-- The methods of the table are the usable ones. -/
  usable : ∀ id, a.table.methods.contains id = true ↔
    ∃ e ∈ s.declarations o, ∃ d ∈ e.service.methods, d.Usable a.table ∧ memberId e.id d.name = id
  /-- The messages and enums of the table are those of the files, resolved without any service. -/
  resolved : ∃ u, resolveMessages s.files (s.register .wellKnown) = .ok u ∧
    a.table.messages = u.messages ∧ a.table.enums = u.enums
  /-- The services of the table are those of the targets. -/
  contains : ∀ id, a.table.services.contains id = true ↔ ∃ e ∈ s.declarations o, e.id = id
  /-- Each service lists its usable methods in order, unless two services share a name. -/
  listed : ((s.declarations o).map Declaration.id).Nodup → ∀ e ∈ s.declarations o,
    ∃ k, e.file.services[k]? = some e.service ∧
      a.table.service? e.id = some (e.file.service (Place.child [] Place.fileService k) e.service
        ((e.service.methods.filter fun d => d.Usable a.table).map fun d => memberId e.id d.name))

theorem FileDescriptor.register_filed (f : FileDescriptor) (h : t.messages.Filed Message.id) :
    (f.register t).messages.Filed Message.id := by
  have houtlines : (f.messageSites.map fun s => (s.id, s.outline f)) =
      (f.messageSites.map fun s => s.outline f).map fun m => (m.id, m) := by
    rw [List.map_map]
    rfl
  rw [f.register_eq, houtlines]
  exact Catalog.filed_foldl_insert h

theorem DescriptorSet.register_filed (s : DescriptorSet) :
    (s.register .wellKnown).messages.Filed Message.id := by
  rw [register]
  generalize s.files = fs
  have hstart := SymbolTable.filed_wellKnown.messages
  generalize SymbolTable.wellKnown = t at hstart
  induction fs generalizing t with
  | nil => exact hstart
  | cons f fs ih => exact ih _ (f.register_filed hstart)

namespace Ingests

variable {s : DescriptorSet} {a : Api} {counts : IngestionCounts}

/-- But for fields and groups, the messages of the model are those that were registered. -/
theorem sameHeads (h : Ingests s o u a counts) : SameHeads (s.register .wellKnown) a.table :=
  (resolveMessages_sameHeads s.register_filed
    (s.register_assembled SymbolTable.assembled_wellKnown).2 h.resolved).trans
    (sameHeads_of_messages h.messages)

/-- The messages of which a method of a target is built are, as far as that matters, those of the
model. -/
theorem usable_iff (h : Ingests s o u a counts) {v : SymbolTable} {k : Nat} {e : ServiceDescriptor}
    (hv : DeclaresAt o s.files (s.register .wellKnown) v f k e) (d : MethodDescriptor) :
    d.Buildable v ↔ d.Usable a.table := by
  obtain ⟨before, after, hfs, -, hv, -⟩ := hv
  obtain ⟨-, hregistered⟩ := s.register_assembled SymbolTable.assembled_wellKnown
  have hmaps : SameMaps (s.register .wellKnown) v := by
    refine (resolveMessages_sameHeads s.register_filed (fun g hg => hregistered g ?_) hv).sameMaps
    rw [hfs]
    rcases List.mem_append.1 hg with hg | hg
    · exact List.mem_append_left _ hg
    · cases List.mem_singleton.1 hg
      exact List.mem_append_right _ List.mem_cons_self
  rw [d.usable_iff_buildable, MethodDescriptor.buildable_congr hmaps,
    MethodDescriptor.buildable_congr h.sameHeads.sameMaps]

theorem mem_methods_iff (h : Ingests s o u a counts) {m : Method} :
    m ∈ (s.contributions o).flatMap Contribution.methods ↔ s.Gives o m := by
  rw [List.mem_flatMap]
  constructor
  · rintro ⟨c, hc, hm⟩
    obtain ⟨v, f, k, e, hdeclares, rfl⟩ := (mem_contributions_iff h.resolved).1 hc
    obtain ⟨i, d, built, hd, hbuilt, rfl⟩ := mem_builtMethods_iff.1 hm
    refine ⟨v, f, k, e, i, d, built, hdeclares, hd, hbuilt, ?_⟩
    rw [Nat.zero_add]
  · rintro ⟨v, f, k, e, i, d, built, hdeclares, hd, hbuilt, rfl⟩
    refine ⟨_, (mem_contributions_iff h.resolved).2 ⟨v, f, k, e, hdeclares, rfl⟩,
      mem_builtMethods_iff.2 ⟨i, d, built, hd, hbuilt, ?_⟩⟩
    rw [Nat.zero_add]

/-- The methods of each contribution are the usable ones of its declaration. -/
theorem map_methodIds (h : Ingests s o u a counts) :
    ((s.contributions o).map fun c => c.methods.map Method.id) =
      (s.declarations o).map fun e =>
        (e.service.methods.filter fun d => d.Usable a.table).map fun d => memberId e.id d.name := by
  refine map_contributions (fun v f k d hdeclares => ?_) h.resolved
  rw [contribution, map_id_builtMethods]
  simp only [h.usable_iff hdeclares]
  rfl

theorem map_serviceIds (h : Ingests s o u a counts) :
    ((s.contributions o).map fun c => c.service.id) = (s.declarations o).map Declaration.id :=
  map_contributions (fun _ _ _ _ _ => rfl) h.resolved

theorem methodIds (h : Ingests s o u a counts) :
    ((s.contributions o).flatMap Contribution.methods).map Method.id =
      (s.declarations o).flatMap fun e =>
        (e.service.methods.filter fun d => d.Usable a.table).map fun d => memberId e.id d.name := by
  rw [List.map_flatMap, List.flatMap_def, List.flatMap_def, h.map_methodIds]

theorem method?_eq_some_iff (h : Ingests s o u a counts) {id : String} {m : Method} :
    a.table.method? id = some m ↔ m.id = id ∧ s.Gives o m := by
  have hdistinct : ((((s.contributions o).flatMap Contribution.methods).map fun m =>
      (m.id, m)).map Prod.fst).Nodup := by
    rw [List.map_map]
    exact h.distinct
  rw [SymbolTable.method?, h.methods, Catalog.get?_ofList_eq_some_iff hdistinct, ← h.mem_methods_iff,
    List.mem_map]
  constructor
  · rintro ⟨n, hn, heq⟩
    cases heq
    exact ⟨rfl, hn⟩
  · rintro ⟨rfl, hm⟩
    exact ⟨m, hm, rfl⟩

theorem contains_methods_iff (h : Ingests s o u a counts) {id : String} :
    a.table.methods.contains id = true ↔
      ∃ e ∈ s.declarations o, ∃ d ∈ e.service.methods,
        d.Usable a.table ∧ memberId e.id d.name = id := by
  have hids : a.table.methods.contains id = true ↔
      id ∈ ((s.contributions o).flatMap Contribution.methods).map Method.id := by
    rw [h.methods, Catalog.contains_ofList, List.mem_map]
    simp only [List.mem_map, exists_exists_and_eq_and]
  rw [hids, h.methodIds]
  simp only [List.mem_flatMap, List.mem_map, List.mem_filter, decide_eq_true_eq, and_assoc]

theorem length_methods (h : Ingests s o u a counts) :
    counts.methods = a.table.methods.entries.length := by
  have hdistinct : ((((s.contributions o).flatMap Contribution.methods).map fun m =>
      (m.id, m)).map Prod.fst).Nodup := by
    rw [List.map_map]
    exact h.distinct
  rw [h.methods, (Catalog.entries_ofList_perm hdistinct).length_eq, List.length_map, h.counted]

theorem declared (h : Ingests s o u a counts) :
    counts.methods + counts.droppedMethods = (s.methods o).length := by
  rw [h.allMethods, DescriptorSet.methods, List.length_flatMap]

/-- What is not built is dropped. -/
theorem dropped (h : Ingests s o u a counts) :
    counts.droppedMethods = (s.methods o).countP fun d => !d.Usable a.table := by
  have hbuilt : counts.methods = (s.methods o).countP fun d => d.Usable a.table := by
    rw [h.counted, ← List.length_map Method.id, h.methodIds, List.length_flatMap,
      DescriptorSet.methods, List.countP_flatMap]
    congr 1
    refine List.map_congr_left fun e _ => ?_
    rw [List.length_map, Function.comp_apply, List.countP_eq_length_filter]
  have hsplit := List.length_eq_countP_add_countP (l := s.methods o) fun d =>
    decide (d.Usable a.table)
  simp only [decide_eq_true_eq, decide_not] at hsplit
  have hdeclared := h.declared
  omega

theorem contains_services_iff (h : Ingests s o u a counts) {id : String} :
    a.table.services.contains id = true ↔ ∃ e ∈ s.declarations o, e.id = id := by
  have hids := h.map_serviceIds
  rw [h.services, Catalog.contains_ofList]
  constructor
  · rintro ⟨p, hp, rfl⟩
    obtain ⟨c, hc, rfl⟩ := List.mem_map.1 hp
    have hmem : c.service.id ∈ (s.contributions o).map fun c => c.service.id := List.mem_map_of_mem hc
    rw [hids] at hmem
    exact List.mem_map.1 hmem
  · rintro ⟨e, he, rfl⟩
    have hmem : e.id ∈ (s.declarations o).map Declaration.id := List.mem_map_of_mem he
    rw [← hids] at hmem
    obtain ⟨c, hc, hid⟩ := List.mem_map.1 hmem
    exact ⟨_, List.mem_map_of_mem hc, hid⟩

/-- A service whose name no other has lists its usable methods. -/
theorem service?_eq_some (h : Ingests s o u a counts)
    (hdistinct : ((s.declarations o).map Declaration.id).Nodup) {v : SymbolTable} {k : Nat}
    {e : ServiceDescriptor} (hv : DeclaresAt o s.files (s.register .wellKnown) v f k e) :
    a.table.service? (f.serviceId e) =
      some (f.service (Place.child [] Place.fileService k) e
        ((e.methods.filter fun d => d.Usable a.table).map fun d =>
          memberId (f.serviceId e) d.name)) := by
  have hids : (((s.contributions o).map fun c => (c.service.id, c.service)).map Prod.fst).Nodup := by
    rw [List.map_map]
    exact h.map_serviceIds ▸ hdistinct
  have hcontributed : contribution v f k e ∈ s.contributions o :=
    (mem_contributions_iff h.resolved).2 ⟨v, f, k, e, hv, rfl⟩
  have hservice : (contribution v f k e).service =
      f.service (Place.child [] Place.fileService k) e
        ((e.methods.filter fun d => d.Usable a.table).map fun d =>
          memberId (f.serviceId e) d.name) := by
    rw [contribution, map_id_builtMethods]
    simp only [h.usable_iff hv]
  rw [SymbolTable.service?, h.services, Catalog.get?_ofList_eq_some_iff hids, ← hservice]
  exact List.mem_map_of_mem (f := fun c : Contribution => (c.service.id, c.service)) hcontributed

/-- Every service of a target is declared there. -/
theorem declaresAt (h : Ingests s o u a counts) {k : Nat} {d : ServiceDescriptor}
    (hf : f ∈ s.targets o) (hd : f.services[k]? = some d) :
    ∃ v, DeclaresAt o s.files (s.register .wellKnown) v f k d := by
  obtain ⟨hf, htarget⟩ := List.mem_filter.1 hf
  obtain ⟨before, after, hfs⟩ := List.append_of_mem hf
  have hall := h.resolved
  rw [hfs, List.append_cons, resolveMessages_append] at hall
  cases hv : resolveMessages (before ++ [f]) (s.register .wellKnown) with
  | error e =>
      rw [hv] at hall
      cases hall
  | ok v => exact ⟨v, before, after, hfs, htarget, hv, hd⟩

theorem exists_declaresAt (h : Ingests s o u a counts) {e : Declaration}
    (he : e ∈ s.declarations o) :
    ∃ v k, DeclaresAt o s.files (s.register .wellKnown) v e.file k e.service := by
  obtain ⟨f, hf, hd⟩ := List.mem_flatMap.1 he
  obtain ⟨d, hmem, rfl⟩ := List.mem_map.1 hd
  obtain ⟨k, hk⟩ := List.mem_iff_getElem?.1 hmem
  obtain ⟨v, hv⟩ := h.declaresAt hf hk
  exact ⟨v, k, hv⟩

end Ingests

/-- Ingestion accounts for every declaration of a set. -/
theorem DescriptorSet.ingest_accounts {s : DescriptorSet} {config : Option ServiceConfig} {a : Api}
    {counts : IngestionCounts} (h : s.ingest o config = .ok (a, counts)) : Accounts s o a counts := by
  obtain ⟨u, hu⟩ := ingest_ingests h
  refine ⟨?_, ?_, hu.topMessages, hu.topEnums, (ingest_publishes h).services, hu.allServices,
    hu.declared, hu.dropped, hu.length_methods, fun id m => hu.method?_eq_some_iff,
    fun id => hu.contains_methods_iff, ⟨u, hu.resolved, hu.messages, hu.enums⟩,
    fun id => hu.contains_services_iff, fun hdistinct e he => ?_⟩
  · rw [hu.allMessages, List.length_flatMap]
    simp only [FileDescriptor.length_messageSites]
  · rw [hu.allEnums, List.length_flatMap]
    simp only [FileDescriptor.length_enumSites]
  · obtain ⟨v, k, hv⟩ := hu.exists_declaresAt he
    have hk : e.file.services[k]? = some e.service := by
      obtain ⟨-, -, -, -, -, hk⟩ := hv
      exact hk
    exact ⟨k, hk, hu.service?_eq_some hdistinct hv⟩

/-- A file with a message inside a message, and with a service of three methods, of which the second has
a request that is nowhere. -/
def shelfFile : FileDescriptor :=
  plainFile "shelf.proto" "shelf"
    [{ plainMessage "Shelf" [] with nested := [plainMessage "Book" []] }]
    [plainService "Library" [plainMethod "Add" ".shelf.Shelf" .empty,
      plainMethod "Lose" ".shelf.Lost" .empty, plainMethod "Find" ".shelf.Shelf.Book" .empty]]

theorem DescriptorSet.ingest_accounts_shelf :
    ∃ a counts, (DescriptorSet.mk [shelfFile]).ingest ⟨[], none⟩ none = .ok (a, counts) ∧
      (counts.messages, counts.methods, counts.droppedMethods) = (2, 2, 1) ∧
        (((DescriptorSet.mk [shelfFile]).declarations ⟨[], none⟩).map Declaration.id).Nodup ∧
          Accounts ⟨[shelfFile]⟩ ⟨[], none⟩ a counts := by
  have hcounts : ((DescriptorSet.mk [shelfFile]).ingest ⟨[], none⟩ none).toOption.map (fun r =>
      (r.2.messages, r.2.methods, r.2.droppedMethods)) = some (2, 2, 1) := by decide +kernel
  obtain ⟨⟨a, counts⟩, h, hcounts⟩ := Option.map_eq_some_iff.1 hcounts
  rw [toOption_eq_some_iff] at h
  exact ⟨a, counts, h, hcounts, by decide, ingest_accounts h⟩

end Descriptor

end ServiceModel
