import ServiceModel.Descriptor.Ingestion
import ServiceModel.Proofs.Coherence

/-!
Registration of a descriptor set.  The sites of a file hold every declaration at every depth, so once
all sites are registered each message finds the messages and enums that are declared inside it.
-/

namespace ServiceModel.Descriptor

/-! ### Nested declarations -/

/-- What a site says, but for its place. -/
def MessageSite.entry (s : MessageSite) : String × Option String × MessageDescriptor :=
  (s.id, s.parent, s.descriptor)

/-- The last site of a declaration is that of the declaration itself. -/
theorem self_mem_messageSites (scope : String) (parent : Option String) (place : Place)
    (d : MessageDescriptor) :
    ⟨memberId scope d.name, parent, place, d⟩ ∈ messageSites scope parent place d := by
  obtain ⟨name, fields, nested, enums, oneOfs, options⟩ := d
  rw [messageSites]
  exact List.mem_append_right _ List.mem_cons_self

theorem mem_messageSites_self (scope : String) (parent : Option String) (place : Place)
    (d : MessageDescriptor) :
    (memberId scope d.name, parent, d) ∈
      (messageSites scope parent place d).map MessageSite.entry :=
  List.mem_map.2 ⟨_, self_mem_messageSites scope parent place d, rfl⟩

/-- Declarations have sites in their order. -/
theorem sublist_nestedSites (id : String) (place : Place) (index : Nat)
    (ds : List MessageDescriptor) :
    (ds.map fun d => (memberId id d.name, some id, d)).Sublist
      ((nestedSites id place index ds).map MessageSite.entry) := by
  induction ds generalizing index with
  | nil => exact List.nil_sublist _
  | cons d ds ih =>
      rw [nestedSites, List.map_append, List.map_cons, ← List.singleton_append]
      exact (List.singleton_sublist.2 (mem_messageSites_self id (some id) _ d)).append (ih _)

/-- Some sites hold, in the order of their declaration, those of all messages declared inside theirs. -/
def Deep (sites : List MessageSite) : Prop :=
  ∀ s ∈ sites, (s.descriptor.nested.map fun d => (memberId s.id d.name, some s.id, d)).Sublist
    (sites.map MessageSite.entry)

theorem Deep.append {ss ss' : List MessageSite} (h : Deep ss) (h' : Deep ss') :
    Deep (ss ++ ss') := by
  intro s hs
  rw [List.map_append]
  rcases List.mem_append.1 hs with hs | hs
  · exact (h s hs).trans (List.sublist_append_left _ _)
  · exact (h' s hs).trans (List.sublist_append_right _ _)

mutual

theorem deep_messageSites (scope : String) (parent : Option String) (place : Place) :
    ∀ d : MessageDescriptor, Deep (messageSites scope parent place d)
  | ⟨name, fields, nested, enums, oneOfs, options⟩ => by
      rw [messageSites]
      intro s hs
      rw [List.map_append]
      refine List.Sublist.trans ?_ (List.sublist_append_left _ _)
      rcases List.mem_append.1 hs with hs | hs
      · exact deep_nestedSites (memberId scope name) place 0 nested s hs
      · -- The declaration itself: what is declared inside it are the sites before.
        cases List.mem_singleton.1 hs
        exact sublist_nestedSites _ place 0 nested

theorem deep_nestedSites (id : String) (place : Place) (index : Nat) :
    ∀ ds : List MessageDescriptor, Deep (nestedSites id place index ds)
  | [] => by
      rw [nestedSites]
      intro s hs
      cases hs
  | d :: ds => by
      rw [nestedSites]
      exact (deep_messageSites id (some id) (place.child Place.messageNested index) d).append
        (deep_nestedSites id place (index + 1) ds)

end

/-- The sites of a file hold every message at every depth. -/
theorem FileDescriptor.deep_messageSites (f : FileDescriptor) : Deep f.messageSites := by
  unfold messageSites
  generalize f.messages.zipIdx = ds
  induction ds with
  | nil => exact fun s hs => absurd hs List.not_mem_nil
  | cons d ds ih =>
      rw [List.flatMap_cons]
      exact (Descriptor.deep_messageSites _ _ _ d.1).append ih

theorem FileDescriptor.exists_messageSite {f : FileDescriptor} {s : MessageSite}
    {d : MessageDescriptor} (hs : s ∈ f.messageSites) (hd : d ∈ s.descriptor.nested) :
    ∃ n ∈ f.messageSites, n.id = memberId s.id d.name ∧ n.parent = some s.id ∧
      n.descriptor = d := by
  obtain ⟨n, hn, hentry⟩ :=
    List.mem_map.1 ((f.deep_messageSites s hs).subset (List.mem_map_of_mem hd))
  simp only [MessageSite.entry, Prod.mk.injEq] at hentry
  exact ⟨n, hn, hentry⟩

theorem exists_enumSite (scope : String) (parent : Option String) (place : Place) (kind : Int32)
    {enums : List EnumDescriptor} {d : EnumDescriptor} (hd : d ∈ enums) :
    ∃ s ∈ enumSitesOf scope parent place kind enums,
      s.id = memberId scope d.name ∧ s.parent = parent ∧ s.descriptor = d := by
  obtain ⟨i, hi, rfl⟩ := List.mem_iff_getElem.1 hd
  refine ⟨_, List.mem_map.2 ⟨(enums[i], i), ?_, rfl⟩, rfl, rfl, rfl⟩
  exact List.mem_zipIdx_iff_getElem?.2 (List.getElem?_eq_getElem hi)

/-- The sites of a file hold every enum that is declared in a message. -/
theorem FileDescriptor.exists_enumSite {f : FileDescriptor} {s : MessageSite} {d : EnumDescriptor}
    (hs : s ∈ f.messageSites) (hd : d ∈ s.descriptor.enums) :
    ∃ e ∈ f.enumSites, e.id = memberId s.id d.name ∧ e.parent = some s.id ∧ e.descriptor = d := by
  obtain ⟨e, he, hsite⟩ := Descriptor.exists_enumSite s.id (some s.id) s.place Place.messageEnum hd
  exact ⟨e, List.mem_append_left _ (List.mem_flatMap.2 ⟨s, hs, he⟩), hsite⟩

/-- Around a nested enum stands one of the messages of its file. -/
theorem FileDescriptor.enumSite_parent {f : FileDescriptor} {e : EnumSite} (he : e ∈ f.enumSites)
    {parent : String} (hp : e.parent = some parent) : ∃ s ∈ f.messageSites, s.id = parent := by
  rcases List.mem_append.1 he with he | he
  · obtain ⟨s, hs, he⟩ := List.mem_flatMap.1 he
    obtain ⟨_, _, rfl⟩ := List.mem_map.1 he
    cases hp
    exact ⟨s, hs, rfl⟩
  · obtain ⟨_, _, rfl⟩ := List.mem_map.1 he
    cases hp

/-! ### Registering sites -/

variable {t : SymbolTable} {f : FileDescriptor}

theorem foldl_putMessage (f : FileDescriptor) (ss : List MessageSite) (t : SymbolTable) :
    ss.foldl (fun t s => t.putMessage (s.outline f)) t =
      { t with
        messages :=
          (ss.map fun s => (s.id, s.outline f)).foldl (fun c e => c.insert e.1 e.2) t.messages } := by
  induction ss generalizing t with
  | nil => rfl
  | cons s ss ih =>
      rw [List.foldl_cons, ih]
      rfl

theorem foldl_putEnum (f : FileDescriptor) (es : List EnumSite) (t : SymbolTable) :
    es.foldl (fun t e => t.putEnum (e.enum f)) t =
      { t with
        enums :=
          (es.map fun e => (e.id, e.enum f)).foldl (fun c e => c.insert e.1 e.2) t.enums } := by
  induction es generalizing t with
  | nil => rfl
  | cons e es ih =>
      rw [List.foldl_cons, ih]
      rfl

/-- Registration of a file puts in the messages and enums of its sites, and nothing else. -/
theorem FileDescriptor.register_eq (f : FileDescriptor) (t : SymbolTable) :
    f.register t =
      { t with
        messages :=
          (f.messageSites.map fun s => (s.id, s.outline f)).foldl (fun c e => c.insert e.1 e.2)
            t.messages
        enums :=
          (f.enumSites.map fun e => (e.id, e.enum f)).foldl (fun c e => c.insert e.1 e.2)
            t.enums } := by
  rw [register, foldl_putMessage, foldl_putEnum]

/-! ### Registering files -/

/-- All sites of a file are in the table. -/
structure FileDescriptor.Registered (f : FileDescriptor) (t : SymbolTable) : Prop where
  messages : ∀ s ∈ f.messageSites, t.messages.contains s.id = true
  enums : ∀ e ∈ f.enumSites, t.enums.contains e.id = true

theorem FileDescriptor.Registered.mono {t' : SymbolTable} (h : f.Registered t)
    (ht : t.Extends t') : f.Registered t' where
  messages := fun s hs => ht.messages s.id (h.messages s hs)
  enums := fun e he => ht.enums e.id (h.enums e he)

/-- The message of a registered site has its nested declarations, and nothing yet to look up in it. -/
theorem FileDescriptor.Registered.outline_assembled (h : f.Registered t) {s : MessageSite}
    (hs : s ∈ f.messageSites) : (s.outline f).Assembled t := by
  refine ⟨fun id hid => ?_, fun id hid => ?_, fun o ho => ?_, rfl⟩
  · obtain ⟨d, hd, rfl⟩ := List.mem_map.1 hid
    obtain ⟨n, hn, hid, -⟩ := FileDescriptor.exists_messageSite hs hd
    rw [← hid]
    exact h.messages n hn
  · obtain ⟨d, hd, rfl⟩ := List.mem_map.1 hid
    obtain ⟨e, he, hid, -⟩ := FileDescriptor.exists_enumSite hs hd
    rw [← hid]
    exact h.enums e he
  · cases ho

theorem FileDescriptor.register_extends (f : FileDescriptor) (t : SymbolTable) :
    t.Extends (f.register t) := by
  rw [register_eq]
  refine ⟨fun id hid => ?_, fun id hid => ?_, fun id hid => hid⟩
  · exact Catalog.contains_foldl_insert.2 (Or.inr hid)
  · exact Catalog.contains_foldl_insert.2 (Or.inr hid)

theorem FileDescriptor.register_registered (f : FileDescriptor) (t : SymbolTable) :
    f.Registered (f.register t) := by
  rw [register_eq]
  constructor
  · intro s hs
    exact Catalog.contains_foldl_insert.2 (Or.inl ⟨_, List.mem_map_of_mem hs, rfl⟩)
  · intro e he
    exact Catalog.contains_foldl_insert.2 (Or.inl ⟨_, List.mem_map_of_mem he, rfl⟩)

theorem FileDescriptor.register_assembled (f : FileDescriptor) (h : t.Assembled) :
    (f.register t).Assembled := by
  have hregistered := f.register_registered t
  refine h.extend (f.register_extends t) (fun id m hm => ?_) (fun id e he => ?_) (fun id m hm => ?_)
  · rw [register_eq] at hm
    rcases Catalog.get?_foldl_insert hm with hm | hm
    · obtain ⟨s, hs, heq⟩ := List.mem_map.1 hm
      cases heq
      exact Or.inl (hregistered.outline_assembled hs)
    · exact Or.inr hm
  · rw [register_eq] at he
    rcases Catalog.get?_foldl_insert he with he | he
    · obtain ⟨s, hs, heq⟩ := List.mem_map.1 he
      cases heq
      refine Or.inl fun p hp => ?_
      obtain ⟨n, hn, rfl⟩ := FileDescriptor.enumSite_parent hs hp
      exact hregistered.messages n hn
    · exact Or.inr he
  · rw [register_eq] at hm
    exact Or.inr hm

/-- Registration puts in messages and enums, and nothing else. -/
theorem DescriptorSet.register_eq (set : DescriptorSet) (t : SymbolTable) :
    ∃ messages enums, set.register t = { t with messages, enums } := by
  rw [register]
  generalize set.files = fs
  induction fs generalizing t with
  | nil => exact ⟨t.messages, t.enums, rfl⟩
  | cons f fs ih =>
      obtain ⟨messages, enums, heq⟩ := ih (f.register t)
      refine ⟨messages, enums, ?_⟩
      rw [List.foldl_cons, heq, f.register_eq t]

theorem foldl_register_extends (fs : List FileDescriptor) (t : SymbolTable) :
    t.Extends (fs.foldl (fun t f => f.register t) t) := by
  induction fs generalizing t with
  | nil => exact SymbolTable.Extends.refl t
  | cons f fs ih => exact (f.register_extends t).trans (ih _)

/-- Registration leaves an assembled table with the sites of all files. -/
theorem DescriptorSet.register_assembled (set : DescriptorSet) (h : t.Assembled) :
    (set.register t).Assembled ∧ ∀ f ∈ set.files, f.Registered (set.register t) := by
  rw [register]
  generalize set.files = fs
  induction fs generalizing t with
  | nil => exact ⟨h, fun f hf => absurd hf List.not_mem_nil⟩
  | cons f fs ih =>
      obtain ⟨hassembled, hregistered⟩ := ih (f.register_assembled h)
      refine ⟨hassembled, fun g hg => ?_⟩
      rcases List.mem_cons.1 hg with rfl | hg
      · exact (g.register_registered t).mono (foldl_register_extends fs _)
      · exact hregistered g hg

end ServiceModel.Descriptor
