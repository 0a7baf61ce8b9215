import ServiceModel.Descriptor.Resolution
import ServiceModel.Proofs.Catalog

/-!
Tables that grow.  While a model is made no entity ever leaves its table, so an ID that resolves once
resolves from then on.  Most steps only put messages into the table; those leave everything else as it
is.
-/

namespace ServiceModel.SymbolTable

/-! ### Putting entities in -/

theorem message?_putMessage (m : Message) (t : SymbolTable) (id : String) :
    (t.putMessage m).message? id = if id = m.id then some m else t.message? id :=
  Catalog.get?_insert t.messages m.id id m

@[simp] theorem contains_putMessage {m : Message} {t : SymbolTable} {id : String} :
    (t.putMessage m).messages.contains id = true ↔ id = m.id ∨ t.messages.contains id = true :=
  Catalog.contains_insert

/-- A message that is found after putting one in is that one, or was there before. -/
theorem eq_or_message?_of_putMessage {t : SymbolTable} {m n : Message} {id : String}
    (h : (t.putMessage m).message? id = some n) : n = m ∨ t.message? id = some n := by
  rw [message?_putMessage] at h
  split at h
  · exact Or.inl (Option.some.inj h).symm
  · exact Or.inr h

/-- A method is put in under its ID, where none was before. -/
theorem insertMethod_eq_ok {m : Method} {t t' : SymbolTable} (h : t.insertMethod m = .ok t') :
    t.methods.contains m.id = false ∧ t' = { t with methods := t.methods.insert m.id m } := by
  unfold insertMethod at h
  split at h
  · cases h
  · split at h
    · cases h
    next hfree =>
      cases h
      exact ⟨by simpa using hfree, rfl⟩

/-- A method that is found after putting one in is that one, or was there before. -/
theorem eq_or_method?_of_insertMethod {m n : Method} {t t' : SymbolTable} {id : String}
    (h : t.insertMethod m = .ok t') (hn : t'.method? id = some n) :
    n = m ∨ t.method? id = some n := by
  rw [(insertMethod_eq_ok h).2, method?, Catalog.get?_insert] at hn
  split at hn
  · exact Or.inl (Option.some.inj hn).symm
  · exact Or.inr hn

/-! ### More messages -/

/-- `t'` has all messages of `t`, some of them perhaps replaced, and is `t` otherwise. -/
structure Grows (t t' : SymbolTable) : Prop where
  messages : ∀ id, t.messages.contains id = true → t'.messages.contains id = true
  enums : t'.enums = t.enums
  services : t'.services = t.services
  methods : t'.methods = t.methods

namespace Grows

variable {t t' t'' : SymbolTable}

theorem refl (t : SymbolTable) : t.Grows t := ⟨fun _ h => h, rfl, rfl, rfl⟩

theorem trans (h : t.Grows t') (h' : t'.Grows t'') : t.Grows t'' where
  messages := fun id hid => h'.messages id (h.messages id hid)
  enums := h'.enums.trans h.enums
  services := h'.services.trans h.services
  methods := h'.methods.trans h.methods

theorem putMessage (m : Message) (t : SymbolTable) : t.Grows (t.putMessage m) :=
  ⟨fun _ h => contains_putMessage.2 (Or.inr h), rfl, rfl, rfl⟩

end Grows

/-! ### More entities -/

/-- `t'` has the messages, enums and services of `t`, some of them perhaps replaced. -/
structure Extends (t t' : SymbolTable) : Prop where
  messages : ∀ id, t.messages.contains id = true → t'.messages.contains id = true
  enums : ∀ id, t.enums.contains id = true → t'.enums.contains id = true
  services : ∀ id, t.services.contains id = true → t'.services.contains id = true

namespace Extends

variable {t t' t'' : SymbolTable}

theorem refl (t : SymbolTable) : t.Extends t := ⟨fun _ h => h, fun _ h => h, fun _ h => h⟩

theorem trans (h : t.Extends t') (h' : t'.Extends t'') : t.Extends t'' where
  messages := fun id hid => h'.messages id (h.messages id hid)
  enums := fun id hid => h'.enums id (h.enums id hid)
  services := fun id hid => h'.services id (h.services id hid)

theorem of_grows (h : t.Grows t') : t.Extends t' := by
  refine ⟨h.messages, fun id hid => ?_, fun id hid => ?_⟩
  · rw [h.enums]
    exact hid
  · rw [h.services]
    exact hid

end Extends

end ServiceModel.SymbolTable
