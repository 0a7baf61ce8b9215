import Mathlib.Algebra.GroupWithZero.Nat
import ServiceModel.Proofs.Descriptor.Admission
import ServiceModel.Proofs.Descriptor.Listing
import ServiceModel.Proofs.SymbolTable.LifeCycle

/-!
What the targets of a set contribute.  Messages are resolved without a look at services, and a method is
built from the messages alone.  So the services and methods of a table can be read off the set: each
declared service contributes itself and those of its methods that can be built, from the messages as the
files up to its own leave them.
-/

namespace ServiceModel.Descriptor

variable {t t' u u' : SymbolTable} {f : FileDescriptor} {fs gs : List FileDescriptor} {o : Targets}

/-! ### Messages of files in a row -/

/-- Resolves the messages of some files, one file after the other. -/
def resolveMessages : List FileDescriptor → SymbolTable → Except BuildError SymbolTable
  | [], t => .ok t
  | f :: fs, t =>
      match resolveSites f f.messageSites t with
      | .error e => .error e
      | .ok t => resolveMessages fs t

theorem resolveMessages_append (fs gs : List FileDescriptor) (t : SymbolTable) :
    resolveMessages (fs ++ gs) t = (resolveMessages fs t).bind (resolveMessages gs) := by
  induction fs generalizing t with
  | nil => rfl
  | cons f fs ih =>
      rw [List.cons_append, resolveMessages, resolveMessages]
      cases resolveSites f f.messageSites t with
      | error e => rfl
      | ok u => exact ih u

theorem sameHeads_of_messages (h : u.messages = t.messages) : SameHeads t u := by
  intro id
  rw [SymbolTable.message?, SymbolTable.message?, h]

theorem resolve_of_messages {s : MessageSite} (h : u.messages = t.messages)
    (ht : s.resolve f t = .ok t') : ∃ u', s.resolve f u = .ok u' ∧ u'.messages = t'.messages := by
  unfold MessageSite.resolve SymbolTable.message? at ht ⊢
  rw [resolveFields_congr (sameHeads_of_messages h).sameMaps, h]
  split at ht
  · cases ht
  · cases ht
    refine ⟨_, rfl, ?_⟩
    rw [SymbolTable.putMessage, SymbolTable.putMessage, h]

/-- Resolution reads and writes messages alone. -/
theorem resolveSites_of_messages {ss : List MessageSite} (h : u.messages = t.messages)
    (ht : resolveSites f ss t = .ok t') :
    ∃ u', resolveSites f ss u = .ok u' ∧ u'.messages = t'.messages := by
  induction ss generalizing t u with
  | nil =>
      cases ht
      exact ⟨u, rfl, h⟩
  | cons s ss ih =>
      rw [resolveSites] at ht ⊢
      split at ht
      · cases ht
      next v hv =>
        obtain ⟨w, hw, hmessages⟩ := resolve_of_messages h hv
        rw [hw]
        exact ih hmessages ht

/-! ### One declaration after the other -/

/-- The messages that some files declare, at every depth and each with its file, in the order in which they
are registered and resolved. -/
def declaredMessages (fs : List FileDescriptor) : List (FileDescriptor × MessageSite) :=
  fs.flatMap fun f => f.messageSites.map fun s => (f, s)

theorem mem_declaredMessages {s : MessageSite} :
    (f, s) ∈ declaredMessages fs ↔ f ∈ fs ∧ s ∈ f.messageSites := by
  simp [declaredMessages]

/-- Resolves some messages, one after the other. -/
def resolveDeclared :
    List (FileDescriptor × MessageSite) → SymbolTable → Except BuildError SymbolTable
  | [], t => .ok t
  | (f, s) :: ds, t =>
      match s.resolve f t with
      | .error e => .error e
      | .ok t => resolveDeclared ds t

theorem resolveDeclared_append (ds ds' : List (FileDescriptor × MessageSite)) (t : SymbolTable) :
    resolveDeclared (ds ++ ds') t = (resolveDeclared ds t).bind (resolveDeclared ds') := by
  induction ds generalizing t with
  | nil => rfl
  | cons d ds ih =>
      rw [List.cons_append, resolveDeclared, resolveDeclared]
      cases d.2.resolve d.1 t with
      | error e => rfl
      | ok u => exact ih u

theorem resolveSites_eq (f : FileDescriptor) (ss : List MessageSite) (t : SymbolTable) :
    resolveSites f ss t = resolveDeclared (ss.map fun s => (f, s)) t := by
  induction ss generalizing t with
  | nil => rfl
  | cons s ss ih =>
      rw [resolveSites, List.map_cons, resolveDeclared]
      cases s.resolve f t with
      | error e => rfl
      | ok u => exact ih u

theorem resolveMessages_eq (fs : List FileDescriptor) (t : SymbolTable) :
    resolveMessages fs t = resolveDeclared (declaredMessages fs) t := by
  induction fs generalizing t with
  | nil => rfl
  | cons f fs ih =>
      rw [resolveMessages, declaredMessages, List.flatMap_cons, resolveDeclared_append,
        ← resolveSites_eq]
      cases resolveSites f f.messageSites t with
      | error e => rfl
      | ok u => exact ih u

/-! ### Heads stay the same -/

theorem filed_putMessage (h : t.messages.Filed Message.id) (m : Message) :
    (t.putMessage m).messages.Filed Message.id :=
  h.insert m

/-- A site that is registered may be declared again elsewhere: but for its fields and groups, its message is
still what it was registered to be. -/
theorem resolve_sameHeads {s : MessageSite} (hfiled : t.messages.Filed Message.id)
    (hs : t.messages.contains s.id = true) (h : s.resolve f t = .ok t') :
    SameHeads t t' ∧ t'.messages.Filed Message.id := by
  obtain ⟨m, hm⟩ := Catalog.contains_iff.1 hs
  have hid : m.id = s.id := hfiled _ m hm
  have hm : t.message? s.id = some m := hm
  unfold MessageSite.resolve at h
  rw [hm, Option.getD_some] at h
  split at h
  · cases h
  · cases h
    refine ⟨(SameHeads.refl t).putMessage (m := m) ?_ rfl, filed_putMessage hfiled _⟩
    rw [hid]
    exact hm

theorem resolveDeclared_sameHeads {ds : List (FileDescriptor × MessageSite)}
    (hfiled : t.messages.Filed Message.id)
    (hds : ∀ d ∈ ds, t.messages.contains d.2.id = true) (h : resolveDeclared ds t = .ok t') :
    SameHeads t t' ∧ t'.messages.Filed Message.id := by
  induction ds generalizing t with
  | nil =>
      cases h
      exact ⟨.refl _, hfiled⟩
  | cons d ds ih =>
      rw [resolveDeclared] at h
      split at h
      · cases h
      next u hu =>
        have hgrows := resolve_grows hu
        obtain ⟨hheads, hfiled⟩ := resolve_sameHeads hfiled (hds d List.mem_cons_self) hu
        obtain ⟨hheads', hfiled'⟩ := ih hfiled
          (fun d' hd' => hgrows.messages _ (hds d' (List.mem_cons_of_mem _ hd'))) h
        exact ⟨hheads.trans hheads', hfiled'⟩

theorem resolveMessages_sameHeads (hfiled : t.messages.Filed Message.id)
    (hfs : ∀ f ∈ fs, f.Registered t) (h : resolveMessages fs t = .ok t') : SameHeads t t' := by
  rw [resolveMessages_eq] at h
  refine (resolveDeclared_sameHeads hfiled (fun d hd => ?_) h).1
  obtain ⟨hf, hs⟩ := mem_declaredMessages.1 hd
  exact (hfs _ hf).messages _ hs

theorem resolveMessages_grows (h : resolveMessages fs t = .ok t') : t.Grows t' := by
  induction fs generalizing t with
  | nil =>
      cases h
      exact .refl _
  | cons f fs ih =>
      rw [resolveMessages] at h
      split at h
      · cases h
      next u hu => exact (resolveSites_grows hu).trans (ih h)

/-! ### Methods that can be built -/

theorem MethodDescriptor.buildable_iff_isSome {d : MethodDescriptor} (package serviceId : String) :
    d.Buildable t ↔ (method? t package serviceId d).isSome = true := by
  rw [Option.isSome_iff_exists, exists_method_iff]

instance (t : SymbolTable) (d : MethodDescriptor) : Decidable (d.Buildable t) :=
  decidable_of_iff _ (d.buildable_iff_isSome "" "").symm

/-- Whether a method can be built is settled once all messages are registered. -/
theorem MethodDescriptor.buildable_congr {d : MethodDescriptor} (h : SameMaps t u) :
    d.Buildable u ↔ d.Buildable t := by
  rw [d.buildable_iff_isSome "" "", d.buildable_iff_isSome "" "", method?_isSome h]

/-- The methods of some descriptors from a position on that can be built, each with its comment. -/
def builtMethods (t : SymbolTable) (f : FileDescriptor) (serviceId : String) (place : Place) :
    Nat → List MethodDescriptor → List Method
  | _, [] => []
  | i, d :: ds =>
      ((method? t f.package serviceId d).map fun m =>
          { m with documentation := f.comment (place.child Place.serviceMethod i) }).toList ++
        builtMethods t f serviceId place (i + 1) ds

theorem mem_builtMethods_iff {serviceId : String} {place : Place} {i : Nat}
    {ds : List MethodDescriptor} {m : Method} :
    m ∈ builtMethods t f serviceId place i ds ↔
      ∃ j d built, ds[j]? = some d ∧ method? t f.package serviceId d = some built ∧
        m = { built with
          documentation := f.comment (place.child Place.serviceMethod (i + j)) } := by
  induction ds generalizing i with
  | nil => simp [builtMethods]
  | cons d ds ih =>
      rw [builtMethods, List.mem_append, ih, Option.mem_toList, Option.map_eq_some_iff]
      constructor
      · rintro (⟨built, hbuilt, rfl⟩ | ⟨j, e, built, he, hbuilt, rfl⟩)
        · exact ⟨0, d, built, rfl, hbuilt, rfl⟩
        · refine ⟨j + 1, e, built, he, hbuilt, ?_⟩
          rw [Nat.add_assoc, Nat.add_comm 1 j]
      · rintro ⟨j, e, built, he, hbuilt, rfl⟩
        cases j with
        | zero =>
            cases he
            exact Or.inl ⟨built, hbuilt, rfl⟩
        | succ j =>
            refine Or.inr ⟨j, e, built, he, hbuilt, ?_⟩
            rw [Nat.add_assoc, Nat.add_comm 1 j]

theorem map_id_builtMethods (serviceId : String) (place : Place) (i : Nat)
    (ds : List MethodDescriptor) :
    (builtMethods t f serviceId place i ds).map Method.id =
      (ds.filter fun d => d.Buildable t).map fun d => memberId serviceId d.name := by
  induction ds generalizing i with
  | nil => rfl
  | cons d ds ih =>
      have hbuildable := d.buildable_iff_isSome (t := t) f.package serviceId
      rw [builtMethods, List.map_append, ih]
      cases hm : method? t f.package serviceId d with
      | none =>
          rw [hm] at hbuildable
          rw [List.filter_cons_of_neg (by simp [hbuildable])]
          rfl
      | some m =>
          rw [hm] at hbuildable
          rw [List.filter_cons_of_pos (by simp [hbuildable]), List.map_cons,
            ← (method?_eq_some hm).2.1]
          rfl

/-! ### Tables that take methods -/

/-- `t'` is `t` with some methods, under IDs of their own that were free, apart from its services. -/
structure Takes (ms : List Method) (t t' : SymbolTable) : Prop where
  messages : t'.messages = t.messages
  enums : t'.enums = t.enums
  methods : t'.methods = (ms.map fun m => (m.id, m)).foldl (fun c e => c.insert e.1 e.2) t.methods
  fresh : Fresh (ms.map Method.id) t

namespace Takes

variable {ms ms' : List Method}

theorem refl (t : SymbolTable) : Takes [] t t := ⟨rfl, rfl, rfl, List.nodup_nil, nofun⟩

theorem contains (h : Takes ms t u) (id : String) :
    u.methods.contains id = true ↔ id ∈ ms.map Method.id ∨ t.methods.contains id = true := by
  rw [h.methods, Catalog.contains_foldl_insert]
  simp

theorem trans (h : Takes ms t u) (h' : Takes ms' u t') : Takes (ms ++ ms') t t' where
  messages := h'.messages.trans h.messages
  enums := h'.enums.trans h.enums
  methods := by rw [h'.methods, h.methods, List.map_append, List.foldl_append]
  fresh := by
    rw [List.map_append]
    exact (h.fresh.append_iff h.contains).2 h'.fresh

theorem insertMethod {m : Method} (h : t.insertMethod m = .ok u) : Takes [m] t u := by
  obtain ⟨hfree, rfl⟩ := SymbolTable.insertMethod_eq_ok h
  refine ⟨rfl, rfl, rfl, List.pairwise_singleton _ _, ?_⟩
  simpa using hfree

theorem insertService {s : Service} (h : Takes ms t u) (hs : u.insertService s = .ok t') :
    Takes ms t t' := by
  have hinsert := SymbolTable.insertService_eq_ok hs
  refine ⟨?_, ?_, ?_, h.fresh⟩
  · rw [hinsert, ← h.messages]
  · rw [hinsert, ← h.enums]
  · rw [hinsert, ← h.methods]

end Takes

/-! ### Contributions -/

/-- A service as it is put into the table, and the methods that come with it. -/
structure Contribution where
  service : Service
  methods : List Method

/-- What the declaration of a service at a position of a file contributes. -/
def contribution (t : SymbolTable) (f : FileDescriptor) (k : Nat) (d : ServiceDescriptor) :
    Contribution :=
  let place := Place.child [] Place.fileService k
  let methods := builtMethods t f (f.serviceId d) place 0 d.methods
  ⟨f.service place d (methods.map Method.id), methods⟩

def fileContributions (t : SymbolTable) (f : FileDescriptor) :
    Nat → List ServiceDescriptor → List Contribution
  | _, [] => []
  | k, d :: ds => contribution t f k d :: fileContributions t f (k + 1) ds

/-- What the targets among some files contribute, each from the messages as the files up to it leave
them. -/
def contributions (o : Targets) : List FileDescriptor → SymbolTable → List Contribution
  | [], _ => []
  | f :: fs, t =>
      match resolveSites f f.messageSites t with
      | .error _ => []
      | .ok t =>
          (if o.includes f.name then fileContributions t f 0 f.services else []) ++
            contributions o fs t

/-- The table `t'` is `t` with what is contributed. -/
structure Receives (cs : List Contribution) (t t' : SymbolTable) : Prop where
  takes : Takes (cs.flatMap Contribution.methods) t t'
  services : t'.services =
    (cs.map fun c => (c.service.id, c.service)).foldl (fun c e => c.insert e.1 e.2) t.services

theorem Receives.refl (t : SymbolTable) : Receives [] t t := ⟨.refl t, rfl⟩

theorem Receives.trans {cs cs' : List Contribution} (h : Receives cs t u) (h' : Receives cs' u t') :
    Receives (cs ++ cs') t t' where
  takes := by
    rw [List.flatMap_append]
    exact h.takes.trans h'.takes
  services := by rw [h'.services, h.services, List.map_append, List.foldl_append]

/-! ### Services -/

/-- The methods that were built are listed, all others are counted. -/
theorem addMethods_takes {serviceId : String} {place : Place} {i : Nat}
    {ds : List MethodDescriptor} {draft draft' : ServiceDraft}
    (h : addMethods f serviceId place i ds draft = .ok draft')
    (ht : draft.table.messages = t.messages) :
    draft'.listed = draft.listed ++ (builtMethods t f serviceId place i ds).map Method.id ∧
      (builtMethods t f serviceId place i ds).length + draft'.dropped = ds.length + draft.dropped ∧
      Takes (builtMethods t f serviceId place i ds) draft.table draft'.table ∧
      draft'.table.services = draft.table.services := by
  induction ds generalizing i draft with
  | nil =>
      cases h
      exact ⟨(List.append_nil _).symm, rfl, .refl _, rfl⟩
  | cons d ds ih =>
      rw [addMethods, method?_congr ht] at h
      rw [builtMethods]
      split at h
      next hnone =>
        obtain ⟨hlisted, hdropped, htakes, hservices⟩ := ih h ht
        rw [hnone]
        refine ⟨hlisted, ?_, htakes, hservices⟩
        change (builtMethods t f serviceId place (i + 1) ds).length + _ = _
        rw [List.length_cons, hdropped]
        dsimp only
        omega
      next built hbuilt =>
        dsimp only at h
        split at h
        · cases h
        next table htable =>
          have hhere := Takes.insertMethod htable
          obtain ⟨hlisted, hdropped, htakes, hservices⟩ := ih h (hhere.messages.trans ht)
          rw [hbuilt]
          refine ⟨?_, ?_, hhere.trans htakes, ?_⟩
          · rw [hlisted, List.append_assoc]
            rfl
          · change ([_] ++ builtMethods t f serviceId place (i + 1) ds).length + _ = _
            rw [List.length_append, List.length_singleton, List.length_cons, Nat.add_assoc, hdropped]
            dsimp only
            omega
          · rw [hservices, (SymbolTable.insertMethod_eq_ok htable).2]

theorem addService_receives {k : Nat} {d : ServiceDescriptor} {built dropped : Nat}
    (h : addService f k d u = .ok (u', built, dropped)) (hu : u.messages = t.messages) :
    built = (contribution t f k d).methods.length ∧
      (contribution t f k d).methods.length + dropped = d.methods.length ∧
      Receives [contribution t f k d] u u' := by
  unfold addService at h
  dsimp only at h
  split at h
  · cases h
  next draft hdraft =>
    split at h
    · cases h
    next table htable =>
      cases h
      obtain ⟨hlisted, hdropped, htakes, hservices⟩ := addMethods_takes (t := t) hdraft hu
      rw [List.nil_append] at hlisted
      refine ⟨?_, hdropped, ?_, ?_⟩
      · rw [hlisted, List.length_map]
        rfl
      · rw [List.flatMap_singleton]
        exact htakes.insertService htable
      · rw [SymbolTable.insertService_eq_ok htable, hlisted]
        dsimp only
        rw [hservices]
        rfl

/-- What is counted of some services is what they contribute and what they do not. -/
theorem addServices_receives {k : Nat} {ds : List ServiceDescriptor} {draft draft' : Draft}
    (h : addServices f k ds draft = .ok draft') (ht : draft.api.table.messages = t.messages) :
    Receives (fileContributions t f k ds) draft.api.table draft'.api.table ∧
      draft'.methods =
        draft.methods + ((fileContributions t f k ds).flatMap Contribution.methods).length ∧
      draft'.methods + draft'.dropped =
        draft.methods + draft.dropped + (ds.map fun d => d.methods.length).sum ∧
      draft'.services = draft.services + ds.length := by
  induction ds generalizing k draft with
  | nil =>
      cases h
      exact ⟨.refl _, rfl, rfl, rfl⟩
  | cons d ds ih =>
      rw [addServices] at h
      split at h
      · cases h
      next table built dropped htable =>
        obtain ⟨hbuilt, hdropped, hreceives⟩ := addService_receives htable ht
        obtain ⟨hrest, hmethods, hall, hservices⟩ := ih h (hreceives.takes.messages.trans ht)
        dsimp only at hmethods hall hservices
        refine ⟨hreceives.trans hrest, ?_, ?_, ?_⟩
        · rw [hmethods, fileContributions, List.flatMap_cons, List.length_append, hbuilt]
          omega
        · rw [hall, List.map_cons, List.sum_cons]
          omega
        · rw [hservices, List.length_cons]
          omega

/-- Services are no declarations of messages and enums. -/
theorem addServices_topLevel {k : Nat} {ds : List ServiceDescriptor} {draft draft' : Draft}
    (h : addServices f k ds draft = .ok draft') :
    draft'.api.messages = draft.api.messages ∧ draft'.api.enums = draft.api.enums := by
  induction ds generalizing k draft with
  | nil =>
      cases h
      exact ⟨rfl, rfl⟩
  | cons d ds ih =>
      rw [addServices] at h
      split at h
      · cases h
      · have hrest := ih h
        exact hrest

/-! ### Files -/

/-- What is contributed does not depend on the messages that are there. -/
theorem Receives.withMessages {cs : List Contribution} (h : Receives cs t u)
    (messages : Catalog Message) : Receives cs { t with messages } { u with messages } :=
  ⟨⟨rfl, h.takes.enums, h.takes.methods, h.takes.fresh⟩, h.services⟩

/-- What some files leave in a draft: the messages of `u`, in which those of the files are resolved, what
the targets contribute, and the counts of both. -/
structure Leaves (o : Targets) (fs : List FileDescriptor) (t u : SymbolTable)
    (draft draft' : Draft) : Prop where
  resolved : resolveMessages fs t = .ok u
  receives : Receives (contributions o fs t) { draft.api.table with messages := u.messages }
    draft'.api.table
  topMessages : draft'.api.messages = draft.api.messages ++
    (fs.filter fun f => o.includes f.name).flatMap FileDescriptor.messageIds
  topEnums : draft'.api.enums = draft.api.enums ++
    (fs.filter fun f => o.includes f.name).flatMap FileDescriptor.enumIds
  methods : draft'.methods =
    draft.methods + ((contributions o fs t).flatMap Contribution.methods).length
  all : draft'.methods + draft'.dropped = draft.methods + draft.dropped +
    ((declarationsOf (fs.filter fun f => o.includes f.name)).map fun e =>
      e.service.methods.length).sum
  services : draft'.services =
    draft.services + (declarationsOf (fs.filter fun f => o.includes f.name)).length

theorem contributions_append (h : resolveMessages fs t = .ok u) (gs : List FileDescriptor) :
    contributions o (fs ++ gs) t = contributions o fs t ++ contributions o gs u := by
  induction fs generalizing t with
  | nil =>
      cases h
      rfl
  | cons f fs ih =>
      rw [resolveMessages] at h
      rw [List.cons_append, contributions, contributions]
      split at h
      · cases h
      next v hv => rw [ih h, List.append_assoc]

theorem Leaves.trans {draft middle draft' : Draft} (h : Leaves o fs t u draft middle)
    (h' : Leaves o gs u u' middle draft') : Leaves o (fs ++ gs) t u' draft draft' where
  resolved := by
    rw [resolveMessages_append, h.resolved]
    exact h'.resolved
  receives := by
    rw [contributions_append h.resolved]
    exact (h.receives.withMessages u'.messages).trans h'.receives
  topMessages := by
    rw [h'.topMessages, h.topMessages, List.filter_append, List.flatMap_append, List.append_assoc]
  topEnums := by
    rw [h'.topEnums, h.topEnums, List.filter_append, List.flatMap_append, List.append_assoc]
  methods := by
    rw [h'.methods, h.methods, contributions_append h.resolved, List.flatMap_append,
      List.length_append, Nat.add_assoc]
  all := by
    rw [h'.all, h.all, List.filter_append, declarationsOf, declarationsOf, declarationsOf,
      List.flatMap_append, List.map_append, List.sum_append, Nat.add_assoc]
  services := by
    rw [h'.services, h.services, List.filter_append, declarationsOf, declarationsOf, declarationsOf,
      List.flatMap_append, List.length_append, Nat.add_assoc]

theorem contributions_singleton (h : resolveSites f f.messageSites t = .ok u) :
    contributions o [f] t =
      if o.includes f.name then fileContributions u f 0 f.services else [] := by
  unfold contributions
  rw [h]
  exact List.append_nil _

/-- A file leaves what its services contribute if it is a target, and else its messages alone. -/
theorem resolveFile_leaves {draft draft' : Draft} (ht : draft.api.table.messages = t.messages)
    (h : resolveFile (o.includes f.name) f draft = .ok draft') :
    ∃ u, Leaves o [f] t u draft draft' := by
  unfold resolveFile at h
  split at h
  · cases h
  next table htable =>
    obtain ⟨u, hu, hmessages⟩ := resolveSites_of_messages ht.symm htable
    have hgrows := resolveSites_grows htable
    have hresolved : resolveMessages [f] t = .ok u := by
      unfold resolveMessages
      rw [hu]
      rfl
    have hfile : Receives [] { draft.api.table with messages := u.messages } table :=
      ⟨⟨hmessages.symm, hgrows.enums, hgrows.methods, List.nodup_nil, nofun⟩, hgrows.services⟩
    have hcontributions := contributions_singleton (o := o) hu
    refine ⟨u, ?_⟩
    cases htarget : o.includes f.name with
    | false =>
        rw [htarget] at h hcontributions
        cases h
        refine ⟨hresolved, ?_, ?_, ?_, ?_, ?_, ?_⟩ <;> simp [hcontributions, htarget, declarationsOf]
        exact hfile
    | true =>
        rw [htarget, if_pos rfl] at hcontributions
        rw [htarget, if_pos rfl] at h
        have hadd := mapError_eq_ok_iff.1 h
        obtain ⟨hreceives, hmethods, hall, hservices⟩ :=
          addServices_receives hadd hmessages.symm
        obtain ⟨htopMessages, htopEnums⟩ := addServices_topLevel hadd
        have htargets : ([f].filter fun f => o.includes f.name) = [f] := by simp [htarget]
        have hdeclarations : declarationsOf [f] = f.services.map fun d => ⟨f, d⟩ :=
          List.flatMap_singleton _ f
        refine ⟨hresolved, ?_, ?_, ?_, ?_, ?_, ?_⟩
        · rw [hcontributions]
          exact hfile.trans hreceives
        · rw [htargets, List.flatMap_singleton, htopMessages]
        · rw [htargets, List.flatMap_singleton, htopEnums]
        · rw [hcontributions, hmethods]
        · rw [htargets, hdeclarations, List.map_map]
          exact hall
        · rw [htargets, hdeclarations, List.length_map]
          exact hservices

theorem resolveFiles_leaves {draft draft' : Draft} (ht : draft.api.table.messages = t.messages)
    (h : resolveFiles o fs draft = .ok draft') : ∃ u, Leaves o fs t u draft draft' := by
  induction fs generalizing t draft with
  | nil =>
      cases h
      refine ⟨t, rfl, ?_, (List.append_nil _).symm, (List.append_nil _).symm, rfl, rfl, rfl⟩
      exact ⟨⟨ht, rfl, rfl, List.nodup_nil, nofun⟩, rfl⟩
  | cons f fs ih =>
      rw [resolveFiles] at h
      split at h
      · cases h
      next middle hmiddle =>
        obtain ⟨u, hhere⟩ := resolveFile_leaves ht (during_eq_ok_iff.1 hmiddle)
        have hmessages : middle.api.table.messages = u.messages := hhere.receives.takes.messages
        obtain ⟨u', hrest⟩ := ih hmessages h
        exact ⟨u', hhere.trans hrest⟩

/-! ### Sets -/

/-- What the targets of a set contribute. -/
def DescriptorSet.contributions (s : DescriptorSet) (o : Targets) : List Contribution :=
  Descriptor.contributions o s.files (s.register .wellKnown)

/-- What is known of a model that was ingested: its table holds the messages of `u`, in which those of
the set are resolved, and what the targets contribute, and nothing else. -/
structure Ingests (s : DescriptorSet) (o : Targets) (u : SymbolTable) (a : Api)
    (counts : IngestionCounts) : Prop where
  resolved : resolveMessages s.files (s.register .wellKnown) = .ok u
  messages : a.table.messages = u.messages
  enums : a.table.enums = u.enums
  methods : a.table.methods =
    Catalog.ofList (((s.contributions o).flatMap Contribution.methods).map fun m => (m.id, m))
  distinct : (((s.contributions o).flatMap Contribution.methods).map Method.id).Nodup
  services : a.table.services =
    Catalog.ofList ((s.contributions o).map fun c => (c.service.id, c.service))
  allMessages : counts.messages = (s.files.flatMap FileDescriptor.messageSites).length
  allEnums : counts.enums = (s.files.flatMap FileDescriptor.enumSites).length
  topMessages : a.messages = (s.targets o).flatMap FileDescriptor.messageIds
  topEnums : a.enums = (s.targets o).flatMap FileDescriptor.enumIds
  counted : counts.methods = ((s.contributions o).flatMap Contribution.methods).length
  allMethods : counts.methods + counts.droppedMethods =
    ((s.declarations o).map fun e => e.service.methods.length).sum
  allServices : counts.services = (s.declarations o).length

theorem DescriptorSet.ingest_ingests {s : DescriptorSet} {config : Option ServiceConfig} {a : Api}
    {counts : IngestionCounts} (h : s.ingest o config = .ok (a, counts)) :
    ∃ u, Ingests s o u a counts := by
  unfold ingest at h
  dsimp only at h
  split at h
  · cases h
  next draft hdraft =>
    cases h
    have hstart : (Api.new (s.package o)).table = .wellKnown := rfl
    rw [hstart] at hdraft
    obtain ⟨u, hleaves⟩ := resolveFiles_leaves (t := s.register .wellKnown) rfl hdraft
    obtain ⟨messages, enums, hregister⟩ := s.register_eq .wellKnown
    have hservices : (s.register .wellKnown).services = .empty := by rw [hregister]; rfl
    have hmethods : (s.register .wellKnown).methods = .empty := by rw [hregister]; rfl
    have hgrows := resolveMessages_grows hleaves.resolved
    have hnames : ∀ a : Api, (withNames config a).table = a.table ∧
        (withNames config a).messages = a.messages ∧ (withNames config a).enums = a.enums := by
      intro a
      cases config <;> exact ⟨rfl, rfl, rfl⟩
    obtain ⟨htable, htopMessages, htopEnums⟩ := hnames draft.api
    refine ⟨u, hleaves.resolved, ?_, ?_, ?_, hleaves.receives.takes.fresh.1, ?_, rfl, rfl, ?_, ?_, ?_,
      ?_, ?_⟩
    · rw [htable, hleaves.receives.takes.messages]
    · rw [htable, hleaves.receives.takes.enums, hgrows.enums]
    · rw [htable, hleaves.receives.takes.methods, Catalog.ofList, ← hmethods]
      rfl
    · rw [htable, hleaves.receives.services, Catalog.ofList, ← hservices]
      rfl
    · rw [htopMessages, hleaves.topMessages]
      exact List.nil_append _
    · rw [htopEnums, hleaves.topEnums]
      exact List.nil_append _
    · rw [hleaves.methods]
      exact Nat.zero_add _
    · rw [hleaves.all]
      exact Nat.zero_add _
    · rw [hleaves.services]
      exact Nat.zero_add _

end ServiceModel.Descriptor
