import Mathlib.Data.List.Forall2
import ServiceModel.Proofs.Descriptor.Accounting
import ServiceModel.Proofs.Descriptor.FileOrder

/-!
The last declaration of a message.  A set may declare messages of one full name more than once, and then
the last of them counts, in registration as in resolution.  What is not resolved of it stays as it was
registered, so the message of a model can be read off its last declaration and the registered table.
-/

namespace ServiceModel.Descriptor

variable {t t' u : SymbolTable} {f : FileDescriptor} {fs : List FileDescriptor} {o : Targets}

/-! ### Last declarations -/

/-- A set declares a message, and none of the same name after it. -/
def DescriptorSet.LastDeclares (s : DescriptorSet) (f : FileDescriptor) (site : MessageSite) : Prop :=
  ∃ front back, declaredMessages s.files = front ++ (f, site) :: back ∧
    ∀ d ∈ back, d.2.id ≠ site.id

theorem exists_last {α : Type} {P : α → Prop} {xs : List α} (h : ∃ x ∈ xs, P x) :
    ∃ front x back, xs = front ++ x :: back ∧ P x ∧ ∀ y ∈ back, ¬ P y := by
  induction xs with
  | nil =>
      obtain ⟨x, hx, -⟩ := h
      cases hx
  | cons y ys ih =>
      by_cases hlater : ∃ x ∈ ys, P x
      · obtain ⟨front, x, back, rfl, hx, hback⟩ := ih hlater
        exact ⟨y :: front, x, back, rfl, hx, hback⟩
      · obtain ⟨x, hx, hholds⟩ := h
        rcases List.mem_cons.1 hx with rfl | hx
        · exact ⟨[], x, ys, rfl, hholds, fun y hy hother => hlater ⟨y, hy, hother⟩⟩
        · exact absurd ⟨x, hx, hholds⟩ hlater

namespace DescriptorSet

variable {s : DescriptorSet} {site : MessageSite}

theorem exists_lastDeclares (hf : f ∈ s.files) (hs : site ∈ f.messageSites) :
    ∃ g last, s.LastDeclares g last ∧ last.id = site.id := by
  obtain ⟨front, ⟨g, last⟩, back, heq, hid, hback⟩ :=
    exists_last (P := fun d : FileDescriptor × MessageSite => d.2.id = site.id)
      ⟨(f, site), mem_declaredMessages.2 ⟨hf, hs⟩, rfl⟩
  exact ⟨g, last, ⟨front, back, heq, fun d hd => hid ▸ hback d hd⟩, hid⟩

/-- If no two messages have the same name, each declaration is the last of its name. -/
theorem Distinct.lastDeclares (h : s.Distinct) (hf : f ∈ s.files) (hs : site ∈ f.messageSites) :
    s.LastDeclares f site := by
  obtain ⟨front, back, heq⟩ := List.append_of_mem (mem_declaredMessages.2 ⟨hf, hs⟩)
  refine ⟨front, back, heq, fun d hd hid => ?_⟩
  have hids : (declaredMessages s.files).map (·.2.id) =
      (s.files.flatMap FileDescriptor.messageSites).map (·.id) := by
    simp only [declaredMessages, List.map_flatMap, List.map_map]
    rfl
  have hdistinct := h.messages
  rw [← hids, heq, List.map_append, List.nodup_append] at hdistinct
  exact (List.nodup_cons.1 hdistinct.2.1).1 (List.mem_map.2 ⟨d, hd, hid⟩)

end DescriptorSet

/-! ### Registration -/

theorem outlines_eq (fs : List FileDescriptor) :
    outlines fs = (declaredMessages fs).map fun d => (d.2.id, d.2.outline d.1) := by
  simp only [outlines, declaredMessages, List.map_flatMap, List.map_map]
  rfl

theorem DescriptorSet.LastDeclares.message?_register {s : DescriptorSet} {site : MessageSite}
    (h : s.LastDeclares f site) (t : SymbolTable) :
    (s.register t).message? site.id = some (site.outline f) := by
  obtain ⟨front, back, heq, hback⟩ := h
  have hlater : site.id ∉
      (back.map fun d => (d.2.id, d.2.outline d.1)).map Prod.fst := by
    rw [List.map_map]
    exact fun hmem => (List.mem_map.1 hmem).elim fun d hd => hback d hd.1 hd.2
  rw [register, foldl_register_eq, SymbolTable.message?, outlines_eq, heq, List.map_append,
    List.map_cons, List.foldl_append, List.foldl_cons]
  exact (Catalog.get?_foldl_insert_of_not_mem hlater).trans (Catalog.get?_insert_self _ _ _)

/-! ### Resolution -/

/-- The fields of a site are those of its descriptors, in their order.  Of its position a field has only the
comment, and of the groups only whether it is in one. -/
theorem resolveFields_eq_ok {s : MessageSite} {i : Nat} {ds : List FieldDescriptor}
    {fields : List Field} (h : resolveFields t f s i ds = .ok fields) :
    List.Forall₂ (fun x field => ∃ plain, resolveField t f s.id x.1 = .ok plain ∧
      field = { plain with
        documentation := f.comment (s.place.child Place.messageField x.2)
        isOneOf := (groupOf s.descriptor.oneOfs.length x.1).isSome }) (ds.zipIdx i) fields := by
  induction ds generalizing i fields with
  | nil =>
      cases h
      exact .nil
  | cons d ds ih =>
      rw [resolveFields] at h
      split at h
      · cases h
      next field hfield =>
        split at h
        · cases h
        next rest hrest =>
          cases h
          exact .cons ⟨field, during_eq_ok_iff.1 hfield, rfl⟩ (ih hrest)

/-- Resolution puts in the message that it finds, with the fields and groups of the site. -/
theorem resolve_eq_ok {s : MessageSite} (h : s.resolve f t = .ok t') :
    ∃ fields, resolveFields t f s 0 s.descriptor.fields = .ok fields ∧
      t' = t.putMessage
        { (t.message? s.id).getD (s.outline f) with fields, oneOfs := s.groups f } := by
  unfold MessageSite.resolve at h
  split at h
  · cases h
  next fields hfields =>
    cases h
    exact ⟨fields, hfields, rfl⟩

/-- Other messages stay as they are. -/
theorem resolve_message?_of_ne {s : MessageSite} {id : String}
    (hfiled : t.messages.Filed Message.id) (hid : s.id ≠ id) (h : s.resolve f t = .ok t') :
    t'.message? id = t.message? id := by
  obtain ⟨fields, -, rfl⟩ := resolve_eq_ok h
  have hnamed : ((t.message? s.id).getD (s.outline f)).id = s.id := by
    cases hm : t.message? s.id with
    | none => rfl
    | some m => exact hfiled _ m hm
  rw [SymbolTable.message?_putMessage, if_neg]
  exact fun heq => hid (hnamed.symm.trans heq.symm)

/-- A message with the head of its outline is resolved as its outline is, whatever its fields. -/
theorem resolve_eq_finished {t₀ : SymbolTable} {s : MessageSite} {m : Message} (hmaps : SameMaps t₀ t)
    (hm : t.message? s.id = some m) (hhead : m.head = (s.outline f).head)
    (h : s.resolve f t = .ok t') :
    s.Resolves t₀ f ∧ t' = t.putMessage (s.finished t₀ f) := by
  obtain ⟨fields, hfields, rfl⟩ := resolve_eq_ok h
  rw [resolveFields_congr hmaps] at hfields
  have hfinished : { m.head with fields, oneOfs := s.groups f } = s.finished t₀ f := by
    rw [hhead, MessageSite.finished, hfields]
    rfl
  refine ⟨⟨fields, hfields⟩, ?_⟩
  rw [hm, ← hfinished]
  rfl

theorem resolveDeclared_eq_ok {s : MessageSite} {front back : List (FileDescriptor × MessageSite)}
    (h : resolveDeclared (front ++ (f, s) :: back) t = .ok t') :
    ∃ v w, resolveDeclared front t = .ok v ∧ s.resolve f v = .ok w ∧
      resolveDeclared back w = .ok t' := by
  rw [resolveDeclared_append] at h
  cases hv : resolveDeclared front t with
  | error e =>
      rw [hv] at h
      cases h
  | ok v =>
      rw [hv] at h
      change resolveDeclared ((f, s) :: back) v = .ok t' at h
      rw [resolveDeclared] at h
      split at h
      · cases h
      next w hw => exact ⟨v, w, rfl, hw, h⟩

theorem resolveDeclared_message?_of_ne {ds : List (FileDescriptor × MessageSite)} {id : String}
    (hfiled : t.messages.Filed Message.id)
    (hds : ∀ d ∈ ds, t.messages.contains d.2.id = true) (hid : ∀ d ∈ ds, d.2.id ≠ id)
    (h : resolveDeclared ds t = .ok t') : t'.message? id = t.message? id := by
  induction ds generalizing t with
  | nil =>
      cases h
      rfl
  | cons d ds ih =>
      rw [resolveDeclared] at h
      split at h
      · cases h
      next u hu =>
        obtain ⟨hhere, hds⟩ := List.forall_mem_cons.1 hds
        obtain ⟨hne, hid⟩ := List.forall_mem_cons.1 hid
        have hfiled' := (resolve_sameHeads hfiled hhere hu).2
        have hgrows := resolve_grows hu
        rw [ih hfiled' (fun d' hd' => hgrows.messages _ (hds d' hd')) hid h,
          resolve_message?_of_ne hfiled hne hu]

/-- Resolution makes of a message what its last declaration says, reading of the others only whether they
are registered as entries of maps. -/
theorem DescriptorSet.LastDeclares.message?_resolveMessages {s : DescriptorSet} {site : MessageSite}
    (h : s.LastDeclares f site) (hu : resolveMessages s.files (s.register .wellKnown) = .ok u) :
    site.Resolves (s.register .wellKnown) f ∧
      u.message? site.id = some (site.finished (s.register .wellKnown) f) := by
  have houtline := h.message?_register .wellKnown
  obtain ⟨front, back, heq, hback⟩ := h
  have hthere : ∀ d ∈ declaredMessages s.files,
      (s.register .wellKnown).messages.contains d.2.id = true := by
    intro d hd
    obtain ⟨hf, hs⟩ := mem_declaredMessages.1 hd
    exact ((s.register_assembled SymbolTable.assembled_wellKnown).2 _ hf).messages _ hs
  rw [heq] at hthere
  obtain ⟨hfront, hrest⟩ := List.forall_mem_append.1 hthere
  obtain ⟨hhere, hlater⟩ := List.forall_mem_cons.1 hrest
  obtain ⟨v, w, hv, hw, hu⟩ := resolveDeclared_eq_ok (heq ▸ resolveMessages_eq s.files _ ▸ hu)
  -- what is declared before leaves the head as it was registered
  obtain ⟨hheads, hfiled⟩ := resolveDeclared_sameHeads s.register_filed hfront hv
  obtain ⟨m, hm, hhead⟩ := hheads.exists_message houtline
  obtain ⟨hheads', hfiled'⟩ := resolve_sameHeads hfiled (hheads.contains hhere) hw
  obtain ⟨hresolves, rfl⟩ := resolve_eq_finished hheads.sameMaps hm hhead hw
  refine ⟨hresolves, ?_⟩
  -- and what is declared after it has other names
  rw [resolveDeclared_message?_of_ne hfiled'
    (fun d hd => hheads'.contains (hheads.contains (hlater d hd))) hback hu,
    SymbolTable.message?_putMessage]
  exact if_pos rfl

end ServiceModel.Descriptor
