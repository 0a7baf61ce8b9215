import ServiceModel.Proofs.Descriptor.Ingestion

/-!
What a service brings into a table.  Its methods are put in under IDs that were free, each of them is
listed once, and nothing that was there before changes.  A method is built from the messages of the table
alone, so all methods of a service see the same messages.
-/

namespace ServiceModel

/-! ### Further methods -/

/-- `t'` is `t` with methods of a kind under IDs that were free, which are listed once each. -/
structure SymbolTable.Gains (kind : Method → Prop) (listed : List String) (t t' : SymbolTable) :
    Prop where
  messages : t'.messages = t.messages
  enums : t'.enums = t.enums
  services : t'.services = t.services
  frozen : t'.frozen = t.frozen
  kept : ∀ id m, t.method? id = some m → t'.method? id = some m
  gained : ∀ id m, t'.method? id = some m →
    t.method? id = some m ∨ id ∈ listed ∧ m.id = id ∧ kind m
  free : ∀ id ∈ listed, t.method? id = none
  there : ∀ id ∈ listed, ∃ m, t'.method? id = some m
  distinct : listed.Nodup

namespace SymbolTable.Gains

variable {kind : Method → Prop} {listed : List String} {t u t' : SymbolTable}

theorem refl (kind : Method → Prop) (t : SymbolTable) : t.Gains kind [] t where
  messages := rfl
  enums := rfl
  services := rfl
  frozen := rfl
  kept := fun _ _ hm => hm
  gained := fun _ _ hm => Or.inl hm
  free := nofun
  there := nofun
  distinct := List.nodup_nil

theorem cons {m : Method} (hm : kind m) (hu : t.insertMethod m = .ok u)
    (h : u.Gains kind listed t') : t.Gains kind (m.id :: listed) t' := by
  obtain ⟨hfree, hinsert⟩ := insertMethod_eq_ok hu
  have hfree : t.method? m.id = none := Catalog.contains_eq_false_iff.1 hfree
  have hthere : u.method? m.id = some m := by
    rw [hinsert, method?, Catalog.get?_insert_self]
  have hkept : ∀ id n, t.method? id = some n → u.method? id = some n := by
    intro id n hn
    rw [hinsert, method?, Catalog.get?_insert, if_neg]
    · exact hn
    · rintro rfl
      rw [hfree] at hn
      cases hn
  refine ⟨?_, ?_, ?_, ?_, fun id n hn => h.kept id n (hkept id n hn), fun id n hn => ?_,
    fun id hid => ?_, fun id hid => ?_, List.nodup_cons.2 ⟨fun hmem => ?_, h.distinct⟩⟩
  · rw [h.messages, hinsert]
  · rw [h.enums, hinsert]
  · rw [h.services, hinsert]
  · rw [h.frozen, hinsert]
  · rcases h.gained id n hn with hn | ⟨hid, hn⟩
    · by_cases heq : id = m.id
      · subst heq
        rw [hthere] at hn
        cases hn
        exact Or.inr ⟨List.mem_cons_self, rfl, hm⟩
      · rw [hinsert, method?, Catalog.get?_insert, if_neg heq] at hn
        exact Or.inl hn
    · exact Or.inr ⟨List.mem_cons_of_mem _ hid, hn⟩
  · rcases List.mem_cons.1 hid with rfl | hid
    · exact hfree
    · cases hn : t.method? id with
      | none => rfl
      | some n =>
          have hgone := h.free id hid
          rw [hkept id n hn] at hgone
          cases hgone
  · rcases List.mem_cons.1 hid with rfl | hid
    · exact ⟨m, h.kept _ m hthere⟩
    · exact h.there id hid
  · have hgone := h.free _ hmem
    rw [hthere] at hgone
    cases hgone

end SymbolTable.Gains

/-- `t'` is `t` with a service, in place of an earlier one with its ID, and with the methods that it
lists, which are of a kind. -/
structure SymbolTable.GainsService (kind : Method → Prop) (s : Service) (t t' : SymbolTable) :
    Prop where
  messages : t'.messages = t.messages
  enums : t'.enums = t.enums
  frozen : t'.frozen = t.frozen
  service : ∀ id, t'.service? id = if id = s.id then some s else t.service? id
  kept : ∀ id m, t.method? id = some m → t'.method? id = some m
  gained : ∀ id m, t'.method? id = some m →
    id ∉ s.methods ∧ t.method? id = some m ∨
      id ∈ s.methods ∧ t.method? id = none ∧ m.id = id ∧ kind m
  there : ∀ id ∈ s.methods, ∃ m, t'.method? id = some m ∧ m.id = id ∧ kind m
  distinct : s.methods.Nodup

/-- A service comes after its methods. -/
theorem SymbolTable.Gains.service {kind : Method → Prop} {s : Service} {t u t' : SymbolTable}
    (h : t.Gains kind s.methods u) (hs : u.insertService s = .ok t') : t.GainsService kind s t' := by
  have hinsert := insertService_eq_ok hs
  have hmethod : t'.method? = u.method? := by rw [hinsert]; rfl
  have hgained : ∀ id m, u.method? id = some m →
      id ∉ s.methods ∧ t.method? id = some m ∨
        id ∈ s.methods ∧ t.method? id = none ∧ m.id = id ∧ kind m := by
    intro id m hm
    by_cases hid : id ∈ s.methods
    · have hfree := h.free id hid
      rcases h.gained id m hm with hold | ⟨-, hm⟩
      · rw [hfree] at hold
        cases hold
      · exact Or.inr ⟨hid, hfree, hm⟩
    · exact Or.inl ⟨hid, (h.gained id m hm).resolve_right fun hm => hid hm.1⟩
  refine ⟨?_, ?_, ?_, fun id => ?_, ?_, ?_, fun id hid => ?_, h.distinct⟩
  · rw [hinsert, ← h.messages]
  · rw [hinsert, ← h.enums]
  · rw [hinsert, ← h.frozen]
  · rw [hinsert, service?, Catalog.get?_insert, h.services]
    rfl
  · rw [hmethod]
    exact h.kept
  · rw [hmethod]
    exact hgained
  · obtain ⟨m, hm⟩ := h.there id hid
    rw [hmethod]
    rcases hgained id m hm with ⟨hne, -⟩ | ⟨-, -, hnew⟩
    · exact absurd hid hne
    · exact ⟨m, hm, hnew⟩

theorem SymbolTable.GainsService.contains {kind : Method → Prop} {s : Service} {t t' : SymbolTable}
    (h : t.GainsService kind s t') (id : String) :
    t'.services.contains id = true ↔ id = s.id ∨ t.services.contains id = true := by
  change (t'.service? id).isSome = true ↔ id = s.id ∨ (t.service? id).isSome = true
  rw [h.service]
  by_cases hid : id = s.id <;> simp [hid]

namespace Descriptor

variable {t t' : SymbolTable} {f : FileDescriptor}

/-! ### Methods -/

theorem method?_eq_some {package serviceId : String} {d : MethodDescriptor} {m : Method}
    (h : method? t package serviceId d = some m) :
    m.name = d.name ∧ m.id = memberId serviceId d.name ∧ m.serviceId = serviceId ∧
      m.inputTypeId = typeIdOf d.inputType ∧ m.sourceServiceId = none ∧
        ∃ request, t.message? m.inputTypeId = some request ∧
          methodBindings? (selectorOf m.id) request d.options = some m.http := by
  unfold method? at h
  simp only [Option.bind_eq_bind, Option.bind_eq_some_iff] at h
  obtain ⟨request, hrequest, http, hhttp, routing, -, operation, -, h⟩ := h
  cases h
  exact ⟨rfl, rfl, rfl, rfl, rfl, request, hrequest, hhttp⟩

/-- A method is built from the messages of a table alone. -/
theorem method?_congr {u : SymbolTable} (h : u.messages = t.messages) : method? u = method? t := by
  funext package serviceId d
  unfold method? methodOperation? operationTypeId SymbolTable.message?
  rw [h]

/-- A method that one of some descriptors declares, as it is built from the messages of a table. -/
def Declares (t : SymbolTable) (package serviceId : String) (ds : List MethodDescriptor)
    (m : Method) : Prop :=
  ∃ d ∈ ds, ∃ built documentation,
    method? t package serviceId d = some built ∧ m = { built with documentation }

theorem Declares.mono {package serviceId : String} {ds ds' : List MethodDescriptor} {m : Method}
    (h : Declares t package serviceId ds m) (hds : ∀ d ∈ ds, d ∈ ds') :
    Declares t package serviceId ds' m := by
  obtain ⟨d, hd, hm⟩ := h
  exact ⟨d, hds d hd, hm⟩

/-- What a method takes from the descriptor that declares it. -/
theorem Declares.exists_descriptor {package serviceId : String} {ds : List MethodDescriptor}
    {m : Method} (h : Declares t package serviceId ds m) :
    ∃ d ∈ ds, m.name = d.name ∧ m.id = memberId serviceId d.name ∧ m.serviceId = serviceId ∧
      m.inputTypeId = typeIdOf d.inputType ∧ m.sourceServiceId = none ∧
        ∃ request, t.message? m.inputTypeId = some request ∧
          methodBindings? (selectorOf m.id) request d.options = some m.http := by
  obtain ⟨d, hd, built, documentation, hbuilt, rfl⟩ := h
  obtain ⟨hname, hid, hservice, hinput, hsource, hhttp⟩ := method?_eq_some hbuilt
  exact ⟨d, hd, hname, hid, hservice, hinput, hsource, hhttp⟩

/-! ### Services -/

/-- The methods of a service are listed behind those that were listed before. -/
theorem addMethods_gains {serviceId : String} {place : Place} {i : Nat}
    {ds : List MethodDescriptor} {draft draft' : ServiceDraft}
    (h : addMethods f serviceId place i ds draft = .ok draft')
    (ht : draft.table.messages = t.messages) :
    ∃ listed, draft'.listed = draft.listed ++ listed ∧
      draft.table.Gains (Declares t f.package serviceId ds) listed draft'.table := by
  induction ds generalizing i draft with
  | nil =>
      cases h
      exact ⟨[], (List.append_nil _).symm, .refl _ _⟩
  | cons d ds ih =>
      rw [addMethods] at h
      have hmore : ∀ m, Declares t f.package serviceId ds m →
          Declares t f.package serviceId (d :: ds) m :=
        fun m hm => hm.mono fun e he => List.mem_cons_of_mem _ he
      split at h
      · obtain ⟨listed, hlisted, hgains⟩ := ih h ht
        exact ⟨listed, hlisted, { hgains with
          gained := fun id m hm => (hgains.gained id m hm).imp_right fun hm =>
            ⟨hm.1, hm.2.1, hmore m hm.2.2⟩ }⟩
      next built hbuilt =>
        dsimp only at h
        split at h
        · cases h
        next table htable =>
          have hmessages : table.messages = t.messages := by
            rw [(SymbolTable.insertMethod_eq_ok htable).2, ht]
          obtain ⟨listed, hlisted, hgains⟩ := ih h hmessages
          rw [method?_congr ht] at hbuilt
          refine ⟨built.id :: listed, ?_, ?_⟩
          · rw [hlisted, List.append_assoc, List.singleton_append]
          · refine SymbolTable.Gains.cons
              (m := { built with documentation := f.comment (place.child Place.serviceMethod i) })
              ⟨d, List.mem_cons_self, built, _, hbuilt, rfl⟩ htable ?_
            exact { hgains with
              gained := fun id m hm => (hgains.gained id m hm).imp_right fun hm =>
                ⟨hm.1, hm.2.1, hmore m hm.2.2⟩ }

/-- A service that was added lists exactly the methods that came with it, which are counted. -/
theorem addService_gains {index : Nat} {d : ServiceDescriptor} {built dropped : Nat}
    (h : addService f index d t = .ok (t', built, dropped)) :
    ∃ place listed, built = listed.length ∧
      t.GainsService (Declares t f.package (f.serviceId d) d.methods) (f.service place d listed) t' := by
  unfold addService at h
  dsimp only at h
  split at h
  · cases h
  next draft hdraft =>
    split at h
    · cases h
    next table htable =>
      cases h
      obtain ⟨listed, hlisted, hgains⟩ := addMethods_gains (t := t) hdraft rfl
      rw [List.nil_append] at hlisted
      rw [hlisted] at htable
      exact ⟨Place.child [] Place.fileService index, listed, congrArg List.length hlisted,
        hgains.service htable⟩

/-! ### Plain declarations -/

/-- A method that takes and gives messages of one type, one at a time. -/
def plainMethod (name type : String) (options : Options) : MethodDescriptor where
  name := name
  inputType := type
  outputType := type
  clientStreaming := false
  serverStreaming := false
  options := options

def plainService (name : String) (methods : List MethodDescriptor) : ServiceDescriptor :=
  ⟨name, methods, .empty⟩

def plainMessage (name : String) (fields : List FieldDescriptor) : MessageDescriptor :=
  ⟨name, fields, [], [], [], .empty⟩

/-- A file without enums, options and comments. -/
def plainFile (name package : String) (messages : List MessageDescriptor)
    (services : List ServiceDescriptor) : FileDescriptor where
  name := name
  package := package
  messages := messages
  enums := []
  services := services
  options := .empty
  locations := none
  edition := ""

end Descriptor

end ServiceModel
