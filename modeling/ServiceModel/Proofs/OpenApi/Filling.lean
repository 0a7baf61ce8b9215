import ServiceModel.Proofs.OpenApi.Grounding
import ServiceModel.Proofs.OpenApi.Steps

/-!
Messages under construction.  While a message is filled its own ID is owed, since the messages inside it
name it as the one around them.  Closing it pays that debt, so an object, with all that it needs, leaves
the table as well grounded as it was.
-/

namespace ServiceModel.OpenApi

/-! ### Filling a message -/

/-- A message with an ID is being filled in a grounded table that has grown from `t`. -/
structure Filling.Sound (owed : String → Prop) (id : String) (t : SymbolTable) (f : Filling) :
    Prop where
  id : f.message.id = id
  grows : t.Grows f.table
  table : f.table.Grounded owed
  message : f.message.Grounded (f.table.Knows owed)

/-- A change to a field that leaves its type alone. -/
def KeepsType (finish : Field → Field) : Prop :=
  ∀ f, (finish f).wireType = f.wireType ∧ (finish f).typeId = f.typeId

section Fields

variable {owed owed' : String → Prop} {id : String} {t : SymbolTable} {f f' : Filling}

theorem Filling.Sound.push {field : Field} {typed : Typed} (hf : f.Sound owed id t)
    (htyped : typed.Sound owed f.table)
    (hfield : field.wireType.Grounded (typed.table.Knows owed) field.typeId) :
    (f.push field typed.nested typed.table).Sound owed id t where
  id := hf.id
  grows := hf.grows.trans htyped.grows
  table := htyped.table
  message := by
    have hbefore := hf.message.mono fun _ h => h.mono htyped.grows
    refine ⟨fun g hg => ?_, hbefore.parent, fun n hn => ?_, hbefore.enums, hbefore.oneOfs,
      hbefore.pagination⟩
    · rcases List.mem_append.1 hg with hg | hg
      · exact hbefore.types g hg
      · rw [List.mem_singleton.1 hg]
        exact hfield
    · rcases List.mem_append.1 hn with hn | hn
      · exact hbefore.messages n hn
      · exact Or.inl (htyped.nested n hn)

/-- Closing a message pays the debt of its ID. -/
theorem Filling.Sound.close (hf : f.Sound owed' id t) (hpay : ∀ x, owed' x → owed x ∨ x = id) :
    SymbolTable.Delivers owed id t f.close := by
  have hdelivers : SymbolTable.Delivers owed f.message.id f.table f.close :=
    .putMessage hf.table hf.message fun x hx => by
      rw [hf.id]
      exact hpay x hx
  rw [hf.id] at hdelivers
  exact ⟨hf.grows.trans hdelivers.grows, hdelivers.grounded, hdelivers.delivered⟩

variable {s : Setting} (hs : ∀ id, s.Owes id → owed id)

include hs

theorem addField_sound {nest : Nesting} {name : String} {schema : Schema} {required : Bool}
    {finish : Field → Field} (hnest : nest.Sound owed) (hfinish : KeepsType finish)
    (howner : owed id) (hf : f.Sound owed id t)
    (h : addField s nest name schema required finish f = .ok f') : f'.Sound owed id t := by
  obtain ⟨typed, hconverted, rfl⟩ := addField_eq_ok h
  have hsound := hconverted.sound hs hnest (by rwa [hf.id]) hf.table
  refine hf.push hsound ?_
  rw [(hfinish _).1, (hfinish _).2]
  exact hsound.type

theorem addProperties_sound {nest : Nesting} {required : NameSet}
    {properties : List (String × Schema)} (hnest : nest.Sound owed) (howner : owed id)
    (hf : f.Sound owed id t) (h : addProperties s nest required properties f = .ok f') :
    f'.Sound owed id t := by
  induction properties generalizing f with
  | nil =>
      cases h
      exact hf
  | cons property rest ih =>
      obtain ⟨name, schema⟩ := property
      rw [addProperties] at h
      split at h
      · exact ih hf h
      · split at h
        · cases h
        next g hg =>
          rw [during_eq_ok_iff] at hg
          exact ih (addField_sound hs hnest (fun _ => ⟨rfl, rfl⟩) howner hf hg) h

end Fields

/-! ### Objects -/

theorem sound_emptyMessage {s : Setting} {owed : String → Prop} {parent : Option String}
    {t : SymbolTable} (name id : String) (schema : Schema) (ht : t.Grounded owed)
    (hparent : ∀ p, parent = some p → owed p) :
    (⟨emptyMessage s name id parent schema, t⟩ : Filling).Sound owed id t where
  id := rfl
  grows := .refl t
  table := ht
  message := Message.grounded_new fun p hp => Or.inr (hparent p hp)

/-- An object is delivered with all messages that it needs. -/
theorem objectMessage_delivers {s : Setting} {owed : String → Prop} {levels : Nat}
    {name id : String} {parent : Option String} {schema : Schema} {t t' : SymbolTable}
    (hs : ∀ id, s.Owes id → owed id) (hparent : ∀ p, parent = some p → owed p)
    (ht : t.Grounded owed) (h : objectMessage s levels name id parent schema t = .ok t') :
    SymbolTable.Delivers owed id t t' := by
  induction levels generalizing owed name id parent schema t t' with
  | zero => cases h
  | succ levels ih =>
      obtain ⟨flat, f, -, hf, rfl⟩ := objectMessage_eq_ok h
      -- inside the object its own ID is owed as well
      have hmore : ∀ x, owed x → owed x ∨ x = id := fun x hx => Or.inl hx
      have hs' : ∀ x, s.Owes x → owed x ∨ x = id := fun x hx => Or.inl (hs x hx)
      have hnest : (nestAt s levels).Sound fun x => owed x ∨ x = id := by
        intro name' id' parent' schema' t₁ t₂ h' hparent' ht₁
        exact ih hs' (fun p hp => by rwa [← Option.some.inj hp]) ht₁ h'
      have hstart := sound_emptyMessage (s := s) name id schema (ht.mono hmore)
        fun p hp => hmore p (hparent p hp)
      exact (addProperties_sound hs' hnest (Or.inr rfl) hstart hf).close fun x hx => hx

namespace Setting

variable {s : Setting} {owed : String → Prop} (hs : ∀ id, s.Owes id → owed id)

include hs

theorem addMessage_delivers {name id : String} {schema : Schema} {t t' : SymbolTable}
    (ht : t.Grounded owed) (h : s.addMessage name id schema t = .ok t') :
    SymbolTable.Delivers owed id t t' :=
  objectMessage_delivers hs (fun p hp => by cases hp) ht h

theorem addField_sound {name id : String} {schema : Schema} {required : Bool}
    {finish : Field → Field} {t : SymbolTable} {f f' : Filling} (hfinish : KeepsType finish)
    (howner : owed id) (hf : f.Sound owed id t)
    (h : s.addField name schema required finish f = .ok f') : f'.Sound owed id t := by
  refine OpenApi.addField_sound hs ?_ hfinish howner hf h
  intro name' id' parent' schema' t₁ t₂ h' hparent' ht₁
  exact objectMessage_delivers hs (fun p hp => by rwa [← Option.some.inj hp]) ht₁ h'

end Setting

end ServiceModel.OpenApi
