import ServiceModel.Proofs.Descriptor.Registration

/-!
Ingestion of a descriptor set keeps its table assembled.  Resolution replaces messages, but only their
fields and groups, and the members of a group are among the fields that it was made with.  Services
add methods of which nothing is known by convention yet.
-/

namespace ServiceModel

/-! ### Keeping tables assembled -/

namespace SymbolTable

variable {t t' : SymbolTable}

theorem Assembled.putMessage {m : Message} (h : t.Assembled) (hm : m.Assembled t) :
    (t.putMessage m).Assembled := by
  have hext := Extends.of_grows (Grows.putMessage m t)
  refine h.extend hext (fun id n hn => ?_) (fun _ _ he => Or.inr he) (fun _ _ hn => Or.inr hn)
  rcases eq_or_message?_of_putMessage hn with rfl | hn
  · exact Or.inl (hm.mono hext)
  · exact Or.inr hn

theorem insertMethod_extends {m : Method} (h : t.insertMethod m = .ok t') : t.Extends t' := by
  rw [(insertMethod_eq_ok h).2]
  exact ⟨fun _ hid => hid, fun _ hid => hid, fun _ hid => hid⟩

theorem Assembled.insertMethod {m : Method} (h : t.Assembled) (hm : m.Assembled t)
    (ht : t.insertMethod m = .ok t') : t'.Assembled := by
  have hext := insertMethod_extends ht
  refine h.extend hext (fun id n hn => ?_) (fun id e he => ?_) (fun id n hn => ?_)
  · rw [(insertMethod_eq_ok ht).2] at hn
    exact Or.inr hn
  · rw [(insertMethod_eq_ok ht).2] at he
    exact Or.inr he
  · rcases eq_or_method?_of_insertMethod ht hn with rfl | hn
    · exact Or.inl (hm.mono hext)
    · exact Or.inr hn

/-- A service is put in under its ID. -/
theorem insertService_eq_ok {s : Service} (h : t.insertService s = .ok t') :
    t' = { t with services := t.services.insert s.id s } := by
  unfold insertService at h
  split at h
  · cases h
  · cases h
    rfl

theorem insertService_extends {s : Service} (h : t.insertService s = .ok t') : t.Extends t' := by
  rw [insertService_eq_ok h]
  exact ⟨fun _ hid => hid, fun _ hid => hid, fun _ hid => Catalog.contains_insert.2 (Or.inr hid)⟩

theorem Assembled.insertService {s : Service} (h : t.Assembled) (ht : t.insertService s = .ok t') :
    t'.Assembled := by
  have hext := insertService_extends ht
  rw [insertService_eq_ok ht] at hext ⊢
  exact h.extend hext (fun _ _ hm => Or.inr hm) (fun _ _ he => Or.inr he) fun _ _ hm => Or.inr hm

end SymbolTable

namespace Descriptor

variable {t t' : SymbolTable} {f : FileDescriptor}

/-! ### Fields -/

theorem resolveField_name {id : String} {d : FieldDescriptor} {field : Field}
    (h : resolveField t f id d = .ok field) : field.name = d.name := by
  unfold resolveField at h
  split at h
  · cases h
  · cases h
    rfl

/-- A site gives one field for each of its descriptors, under the same name. -/
theorem resolveFields_names {s : MessageSite} {i : Nat} {ds : List FieldDescriptor}
    {fields : List Field} (h : resolveFields t f s i ds = .ok fields) :
    fields.map Field.name = ds.map (·.name) := by
  induction ds generalizing i fields with
  | nil =>
      cases h
      rfl
  | cons d ds ih =>
      rw [resolveFields] at h
      split at h
      · cases h
      next field hfield =>
        split at h
        · cases h
        next rest hrest =>
          cases h
          have hname := resolveField_name (during_eq_ok_iff.1 hfield)
          rw [List.map_cons, List.map_cons, ih hrest, ← hname]

theorem groups_members {s : MessageSite} {o : OneOf} (ho : o ∈ s.groups f) :
    ∀ n ∈ o.fields, n ∈ s.descriptor.fields.map (·.name) := by
  intro n hn
  obtain ⟨ho, -⟩ := List.mem_filter.1 ho
  obtain ⟨_, _, rfl⟩ := List.mem_map.1 ho
  obtain ⟨d, hd, rfl⟩ := List.mem_map.1 hn
  exact List.mem_map_of_mem (List.mem_filter.1 hd).1

/-! ### Sites -/

/-- Resolution puts one message in, and nothing else. -/
theorem resolve_grows {s : MessageSite} (h : s.resolve f t = .ok t') : t.Grows t' := by
  unfold MessageSite.resolve at h
  split at h
  · cases h
  · cases h
    exact .putMessage _ t

theorem resolveSites_grows {ss : List MessageSite} (h : resolveSites f ss t = .ok t') :
    t.Grows t' := by
  induction ss generalizing t with
  | nil =>
      cases h
      exact .refl _
  | cons s ss ih =>
      rw [resolveSites] at h
      split at h
      · cases h
      next u hu => exact (resolve_grows hu).trans (ih h)

/-- Resolution puts one message in, which keeps its nested declarations. -/
theorem resolve_assembled {s : MessageSite} (h : s.resolve f t = .ok t') (ht : t.Assembled)
    (hf : f.Registered t) (hs : s ∈ f.messageSites) : t'.Assembled ∧ t.Extends t' := by
  unfold MessageSite.resolve at h
  split at h
  · cases h
  next fields hfields =>
    cases h
    have hold : ((t.message? s.id).getD (s.outline f)).Assembled t := by
      cases hm : t.message? s.id with
      | none => exact hf.outline_assembled hs
      | some m => exact ht.messages s.id m hm
    refine ⟨ht.putMessage ⟨hold.nestedMessages, hold.nestedEnums, fun o ho n hn => ?_,
      hold.pagination⟩, .of_grows (.putMessage _ t)⟩
    rw [Message.fieldNames, resolveFields_names hfields]
    exact groups_members ho n hn

theorem resolveSites_assembled {ss : List MessageSite} (h : resolveSites f ss t = .ok t')
    (ht : t.Assembled) (hf : f.Registered t) (hss : ∀ s ∈ ss, s ∈ f.messageSites) :
    t'.Assembled ∧ t.Extends t' := by
  induction ss generalizing t with
  | nil =>
      cases h
      exact ⟨ht, SymbolTable.Extends.refl _⟩
  | cons s ss ih =>
      rw [resolveSites] at h
      split at h
      · cases h
      next u hu =>
        obtain ⟨hassembled, hext⟩ := resolve_assembled hu ht hf (hss s List.mem_cons_self)
        obtain ⟨hassembled', hext'⟩ :=
          ih h hassembled (hf.mono hext) fun v hv => hss v (List.mem_cons_of_mem _ hv)
        exact ⟨hassembled', hext.trans hext'⟩

/-! ### Services -/

/-- Of a method that was just built nothing is known by convention, and it was taken from nowhere. -/
theorem method?_assembled {package serviceId : String} {d : MethodDescriptor} {m : Method}
    (h : method? t package serviceId d = some m) (documentation : String) :
    ({ m with documentation } : Method).Assembled t := by
  unfold method? at h
  simp only [Option.bind_eq_bind, Option.bind_eq_some_iff] at h
  obtain ⟨request, -, http, -, routing, -, operation, -, h⟩ := h
  cases h
  refine ⟨fun id hid => ?_, rfl, rfl⟩
  cases hid

theorem addMethods_assembled {serviceId : String} {place : Place} {i : Nat}
    {ds : List MethodDescriptor} {draft draft' : ServiceDraft}
    (h : addMethods f serviceId place i ds draft = .ok draft') (ht : draft.table.Assembled) :
    draft'.table.Assembled ∧ draft.table.Extends draft'.table := by
  induction ds generalizing i draft with
  | nil =>
      cases h
      exact ⟨ht, SymbolTable.Extends.refl _⟩
  | cons d ds ih =>
      rw [addMethods] at h
      split at h
      · have hrest := ih h ht
        exact hrest
      next m hm =>
        dsimp only at h
        split at h
        · cases h
        next table htable =>
          have hext := SymbolTable.insertMethod_extends htable
          obtain ⟨hassembled, hext'⟩ := ih h (ht.insertMethod (method?_assembled hm _) htable)
          exact ⟨hassembled, hext.trans hext'⟩

/-- A service that was added is in the table, which stays assembled. -/
theorem addService_assembled {index : Nat} {d : ServiceDescriptor} {built dropped : Nat}
    (h : addService f index d t = .ok (t', built, dropped)) (ht : t.Assembled) :
    t'.Assembled ∧ t.Extends t' ∧ t'.services.contains (f.serviceId d) = true := by
  unfold addService at h
  dsimp only at h
  split at h
  · cases h
  next draft hdraft =>
    split at h
    · cases h
    next table htable =>
      cases h
      obtain ⟨hassembled, hext⟩ := addMethods_assembled hdraft ht
      refine ⟨hassembled.insertService htable,
        hext.trans (SymbolTable.insertService_extends htable), ?_⟩
      rw [SymbolTable.insertService_eq_ok htable]
      exact Catalog.contains_insert.2 (Or.inl rfl)

theorem addServices_assembled {i : Nat} {ds : List ServiceDescriptor} {draft draft' : Draft}
    (h : addServices f i ds draft = .ok draft') (ht : draft.api.table.Assembled) :
    draft'.api.table.Assembled ∧ draft.api.table.Extends draft'.api.table := by
  induction ds generalizing i draft with
  | nil =>
      cases h
      exact ⟨ht, SymbolTable.Extends.refl _⟩
  | cons d ds ih =>
      rw [addServices] at h
      split at h
      · cases h
      next table built dropped htable =>
        obtain ⟨hassembled, hext, -⟩ := addService_assembled htable ht
        obtain ⟨hassembled', hext'⟩ := ih h hassembled
        exact ⟨hassembled', hext.trans hext'⟩

/-! ### Files -/

theorem resolveFile_assembled {target : Bool} {draft draft' : Draft}
    (h : resolveFile target f draft = .ok draft') (ht : draft.api.table.Assembled)
    (hf : f.Registered draft.api.table) :
    draft'.api.table.Assembled ∧ draft.api.table.Extends draft'.api.table := by
  unfold resolveFile at h
  split at h
  · cases h
  next table htable =>
    obtain ⟨hassembled, hext⟩ := resolveSites_assembled htable ht hf fun _ hs => hs
    cases target with
    | false =>
        cases h
        exact ⟨hassembled, hext⟩
    | true =>
        obtain ⟨hassembled', hext'⟩ := addServices_assembled (mapError_eq_ok_iff.1 h) hassembled
        exact ⟨hassembled', hext.trans hext'⟩

theorem resolveFiles_assembled {o : Targets} {fs : List FileDescriptor} {draft draft' : Draft}
    (h : resolveFiles o fs draft = .ok draft') (ht : draft.api.table.Assembled)
    (hfs : ∀ f ∈ fs, f.Registered draft.api.table) : draft'.api.table.Assembled := by
  induction fs generalizing draft with
  | nil =>
      cases h
      exact ht
  | cons f fs ih =>
      rw [resolveFiles] at h
      split at h
      · cases h
      next middle hmiddle =>
        obtain ⟨hassembled, hext⟩ := resolveFile_assembled (during_eq_ok_iff.1 hmiddle) ht
          (hfs f List.mem_cons_self)
        exact ih h hassembled fun g hg => (hfs g (List.mem_cons_of_mem _ hg)).mono hext

/-- A descriptor set that is ingested leaves an assembled table. -/
theorem DescriptorSet.ingest_assembled {set : DescriptorSet} {o : Targets}
    {config : Option ServiceConfig} {a : Api} {counts : IngestionCounts}
    (h : set.ingest o config = .ok (a, counts)) : a.table.Assembled := by
  unfold ingest at h
  dsimp only at h
  split at h
  · cases h
  next draft hdraft =>
    cases h
    obtain ⟨hassembled, hregistered⟩ :=
      set.register_assembled (t := (Api.new (set.package o)).table) SymbolTable.assembled_wellKnown
    have hfiles := resolveFiles_assembled hdraft hassembled hregistered
    cases config with
    | none => exact hfiles
    | some c => exact hfiles

end Descriptor

end ServiceModel
