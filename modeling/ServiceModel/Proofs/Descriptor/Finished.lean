import ServiceModel.Proofs.Descriptor.Ingestion

/-!
Finished messages.  Resolution reads of other messages only whether they are entries of maps, and this
it never changes.  So the message of each site is settled once all sites are registered, and so is
whether the site can be resolved at all.
-/

namespace ServiceModel

/-- The result is good exactly on a condition, and then it has a property. -/
def Settles {ε α : Type} (P : Prop) (Q : α → Prop) : Except ε α → Prop
  | .ok a => P ∧ Q a
  | .error _ => ¬ P

namespace Settles

variable {ε ε' α : Type} {P P' : Prop} {Q Q' : α → Prop} {r : Except ε α}

theorem exists_ok_iff (h : Settles P Q r) : (∃ a, r = .ok a) ↔ P := by
  cases r with
  | ok a => exact iff_of_true ⟨a, rfl⟩ h.1
  | error e => exact iff_of_false nofun h

theorem of_ok {a : α} (h : Settles P Q r) (hr : r = .ok a) : Q a := by
  rw [hr] at h
  exact h.2

theorem mapError {f : ε → ε'} (h : Settles P Q r) : Settles P Q (r.mapError f) := by
  cases r with
  | ok a => exact h
  | error e => exact h

theorem imp (h : Settles P Q r) (hP : P ↔ P') (hQ : ∀ a, Q a → Q' a) : Settles P' Q' r := by
  cases r with
  | ok a => exact ⟨hP.1 h.1, hQ a h.2⟩
  | error e => exact fun h' => h (hP.2 h')

end Settles

/-- A message without what its resolution fills in. -/
def Message.head (m : Message) : Message := { m with fields := [], oneOfs := [] }

namespace Descriptor

variable {t₀ t t' : SymbolTable} {f : FileDescriptor}

/-! ### Maps -/

/-- The same messages are there, and the same of them are entries of maps. -/
def SameMaps (t₀ t : SymbolTable) : Prop :=
  ∀ id, (t.message? id).map (·.isMap) = (t₀.message? id).map (·.isMap)

theorem SameMaps.refl (t : SymbolTable) : SameMaps t t := fun _ => rfl

theorem SameMaps.trans (h : SameMaps t₀ t) (h' : SameMaps t t') : SameMaps t₀ t' :=
  fun id => (h' id).trans (h id)

theorem SameMaps.isSome_message? (h : SameMaps t₀ t) (id : String) :
    (t.message? id).isSome = (t₀.message? id).isSome := by
  have hsome := congrArg Option.isSome (h id)
  rwa [Option.isSome_map, Option.isSome_map] at hsome

/-- A message may be replaced by one that is as much an entry of a map. -/
theorem SameMaps.putMessage {m n : Message} (h : SameMaps t₀ t) (hm : t.message? n.id = some m)
    (hn : n.isMap = m.isMap) : SameMaps t₀ (t.putMessage n) := by
  refine h.trans fun id => ?_
  rw [SymbolTable.message?_putMessage]
  split
  next heq => rw [heq, hm, Option.map_some, Option.map_some, hn]
  next => rfl

/-! ### Heads -/

/-- The same messages are there, and all that is not resolved is the same of them. -/
def SameHeads (t₀ t : SymbolTable) : Prop :=
  ∀ id, (t.message? id).map Message.head = (t₀.message? id).map Message.head

theorem SameHeads.refl (t : SymbolTable) : SameHeads t t := fun _ => rfl

theorem SameHeads.symm (h : SameHeads t₀ t) : SameHeads t t₀ := fun id => (h id).symm

theorem SameHeads.trans (h : SameHeads t₀ t) (h' : SameHeads t t') : SameHeads t₀ t' :=
  fun id => (h' id).trans (h id)

theorem SameHeads.putMessage {m n : Message} (h : SameHeads t₀ t) (hm : t.message? n.id = some m)
    (hn : n.head = m.head) : SameHeads t₀ (t.putMessage n) := by
  refine h.trans fun id => ?_
  rw [SymbolTable.message?_putMessage]
  split
  next heq => rw [heq, hm, Option.map_some, Option.map_some, hn]
  next => rfl

theorem SameHeads.exists_message {id : String} {m₀ : Message} (h : SameHeads t₀ t)
    (hm : t₀.message? id = some m₀) : ∃ m, t.message? id = some m ∧ m.head = m₀.head := by
  have hhead := h id
  rw [hm, Option.map_some] at hhead
  exact Option.map_eq_some_iff.1 hhead

theorem SameHeads.contains {id : String} (h : SameHeads t₀ t)
    (hid : t₀.messages.contains id = true) : t.messages.contains id = true := by
  obtain ⟨m₀, hm₀⟩ := Catalog.contains_iff.1 hid
  obtain ⟨m, hm, -⟩ := h.exists_message hm₀
  exact Catalog.contains_of_get? hm

/-- Whether a message is the entry of a map is nothing that is resolved. -/
theorem SameHeads.sameMaps (h : SameHeads t₀ t) : SameMaps t₀ t := by
  intro id
  have hmap : ∀ m? : Option Message, m?.map (·.isMap) = (m?.map Message.head).map (·.isMap) := by
    intro m?
    rw [Option.map_map]
    rfl
  rw [hmap (t.message? id), h id, ← hmap]

/-! ### Fields -/

theorem resolveField_congr (h : SameMaps t₀ t) : resolveField t = resolveField t₀ := by
  have hmap : ∀ m : Option Message, m.any (·.isMap) = (m.map (·.isMap)).any id := by
    intro m
    cases m <;> rfl
  have hany : ∀ id, (t.message? id).any (·.isMap) = (t₀.message? id).any (·.isMap) := by
    intro id
    rw [hmap, hmap, h]
  funext f id d
  unfold resolveField
  simp only [hany]

theorem resolveFields_congr (h : SameMaps t₀ t) (s : MessageSite) (i : Nat)
    (ds : List FieldDescriptor) : resolveFields t f s i ds = resolveFields t₀ f s i ds := by
  induction ds generalizing i with
  | nil => rfl
  | cons d ds ih => rw [resolveFields, resolveFields, resolveField_congr h, ih]

/-! ### Sites -/

/-- The fields of a site can be resolved once all sites are registered. -/
def MessageSite.Resolves (t₀ : SymbolTable) (f : FileDescriptor) (s : MessageSite) : Prop :=
  ∃ fields, resolveFields t₀ f s 0 s.descriptor.fields = .ok fields

def MessageSite.finished (t₀ : SymbolTable) (f : FileDescriptor) (s : MessageSite) : Message :=
  { s.outline f with
    fields := (resolveFields t₀ f s 0 s.descriptor.fields).toOption.getD []
    oneOfs := s.groups f }

theorem resolve_settles {s : MessageSite} (h : SameMaps t₀ t)
    (hs : t.message? s.id = some (s.outline f)) :
    Settles (s.Resolves t₀ f) (fun t' => t' = t.putMessage (s.finished t₀ f)) (s.resolve f t) := by
  unfold MessageSite.resolve MessageSite.Resolves MessageSite.finished
  rw [resolveFields_congr h, hs]
  cases resolveFields t₀ f s 0 s.descriptor.fields with
  | error e => exact nofun
  | ok fields => exact ⟨⟨fields, rfl⟩, rfl⟩

def finishedMessages (t₀ : SymbolTable) (f : FileDescriptor) (ss : List MessageSite) :
    List (String × Message) :=
  ss.map fun s => (s.id, s.finished t₀ f)

theorem resolveSites_settles {ss : List MessageSite} (h : SameMaps t₀ t)
    (hss : ∀ s ∈ ss, t.message? s.id = some (s.outline f)) (hdistinct : (ss.map (·.id)).Nodup) :
    Settles (∀ s ∈ ss, s.Resolves t₀ f)
      (fun t' => SameMaps t₀ t' ∧ t' = { t with
        messages := (finishedMessages t₀ f ss).foldl (fun c e => c.insert e.1 e.2) t.messages })
      (resolveSites f ss t) := by
  induction ss generalizing t with
  | nil => exact ⟨nofun, h, rfl⟩
  | cons s ss ih =>
      obtain ⟨hs, hss⟩ := List.forall_mem_cons.1 hss
      obtain ⟨hnew, hdistinct⟩ := List.nodup_cons.1 hdistinct
      have hhere := resolve_settles h hs
      rw [resolveSites]
      cases hu : s.resolve f t with
      | error e =>
          rw [hu] at hhere
          exact fun hall => hhere (hall s List.mem_cons_self)
      | ok u =>
          rw [hu] at hhere
          obtain ⟨hresolves, rfl⟩ := hhere
          have hmaps : SameMaps t₀ (t.putMessage (s.finished t₀ f)) := h.putMessage hs rfl
          -- The site just finished is none of the others, so their outlines are still there.
          refine (ih hmaps (fun s' hs' => ?_) hdistinct).imp ?_ fun t' ht' => ht'
          · rw [SymbolTable.message?_putMessage, if_neg, hss s' hs']
            intro heq
            have hmem : s'.id ∈ ss.map (·.id) := List.mem_map_of_mem hs'
            rw [heq] at hmem
            exact hnew hmem
          · rw [List.forall_mem_cons]
            exact (and_iff_right hresolves).symm

end Descriptor

end ServiceModel
