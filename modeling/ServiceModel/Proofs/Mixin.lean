import ServiceModel.Mixin.Composition
import ServiceModel.Proofs.Descriptor.Ingestion

/-!
Composition of mixins keeps a table assembled.  Every method that is added names the service it was
taken from, and that service was put into the table when its mixin was loaded.
-/

namespace ServiceModel

namespace Composition

/-! ### Loading before adding -/

/-- Steps that add methods only of mixins that are loaded, before or by a step in front. -/
def Primed (loaded : List Mixin) : List Action → Prop
  | [] => True
  | .load m :: actions => Primed (m :: loaded) actions
  | .add m _ _ :: actions => m ∈ loaded ∧ Primed loaded actions

theorem primed_additions {loaded : List Mixin} {m : Mixin} (hm : m ∈ loaded)
    {actions rest : List Action} (hadd : ∀ action ∈ actions, ∃ id name, action = .add m id name)
    (hrest : Primed loaded rest) : Primed loaded (actions ++ rest) := by
  induction actions with
  | nil => exact hrest
  | cons action actions ih =>
      obtain ⟨id, name, rfl⟩ := hadd action List.mem_cons_self
      exact ⟨hm, ih fun other hother => hadd other (List.mem_cons_of_mem _ hother)⟩

/-- Each mixin is loaded before its methods are added. -/
theorem primed_actions (a : Api) (config : Option ServiceConfig) : Primed [] (actions a config) := by
  rw [actions]
  generalize enabled a config = mixins
  generalize ([] : List Mixin) = loaded
  induction mixins generalizing loaded with
  | nil => trivial
  | cons e es ih =>
      refine primed_additions List.mem_cons_self (fun action haction => ?_) (ih _)
      obtain ⟨id, -, haction⟩ := List.mem_flatMap.1 haction
      obtain ⟨name, -, rfl⟩ := List.mem_map.1 haction
      exact ⟨id, name, rfl⟩

/-! ### Steps -/

open Descriptor (DescriptorSet FileDescriptor)

variable {set : DescriptorSet} {config : Option ServiceConfig} {a a' : Api}

/-- No mixin has a name that begins with a dot. -/
theorem head_service (m : Mixin) : m.service.toList.head? = some 'g' := by cases m <;> rfl

/-- A declaration with the full name of a mixin has the mixin's ID. -/
theorem serviceId_eq_id {f : FileDescriptor} {d : Descriptor.ServiceDescriptor} {m : Mixin}
    (h : f.package ++ "." ++ d.name = m.service) : f.serviceId d = m.id := by
  have hpackage : f.package ≠ "" := by
    intro hempty
    have hhead := head_service m
    rw [← h, hempty] at hhead
    simp at hhead
  rw [FileDescriptor.serviceId, FileDescriptor.scope, Descriptor.packageScope, if_neg hpackage,
    Descriptor.memberId, Mixin.id, ← h, String.append_assoc, String.append_assoc,
    String.append_assoc]

/-- A mixin that was loaded is in the table. -/
theorem load_assembled {m : Mixin} {loaded : Bool} (h : load set m a = .ok (a', loaded))
    (ha : a.table.Assembled) :
    a'.table.Assembled ∧ a.table.Extends a'.table ∧ a'.table.services.contains m.id = true := by
  unfold load at h
  split at h
  next hthere =>
    cases h
    exact ⟨ha, .refl _, hthere⟩
  next =>
    split at h
    · cases h
    next f hf =>
      split at h
      · cases h
      next d i hfind =>
        split at h
        · cases h
        next table built dropped htable =>
          cases h
          have hname := List.find?_some hfind
          rw [← serviceId_eq_id (eq_of_beq hname)]
          exact Descriptor.addService_assembled htable ha

/-- A method that is added was taken from the service of its mixin. -/
theorem composedMethod?_assembled {t : SymbolTable} {m : Mixin} {serviceId name : String}
    {method : Method} (h : composedMethod? config t m serviceId name = some method)
    (ht : t.Assembled) (hm : t.services.contains m.id = true) : method.Assembled t := by
  unfold composedMethod? at h
  simp only [Option.bind_eq_bind, Option.bind_eq_some_iff] at h
  obtain ⟨source, hsource, http, -, h⟩ := h
  cases h
  have hold := ht.methods _ source hsource
  refine ⟨fun id hid => ?_, hold.pagination, hold.autoPopulated⟩
  cases hid
  exact hm

theorem listMethod_eq (serviceId methodId : String) (t : SymbolTable) :
    ∃ services, (∀ id, services.contains id = t.services.contains id) ∧
      listMethod serviceId methodId t = { t with services } := by
  unfold listMethod SymbolTable.editService?
  split
  · exact ⟨_, fun id => Catalog.contains_modify, rfl⟩
  · exact ⟨t.services, fun id => rfl, rfl⟩

theorem listMethod_assembled {serviceId methodId : String} {t : SymbolTable} (ht : t.Assembled) :
    (listMethod serviceId methodId t).Assembled ∧
      t.Extends (listMethod serviceId methodId t) := by
  obtain ⟨services, hcontains, heq⟩ := listMethod_eq serviceId methodId t
  have hext : t.Extends (listMethod serviceId methodId t) := by
    rw [heq]
    refine ⟨fun _ hid => hid, fun _ hid => hid, fun id hid => ?_⟩
    change services.contains id = true
    rw [hcontains]
    exact hid
  refine ⟨?_, hext⟩
  rw [heq] at hext ⊢
  exact ht.extend hext (fun _ _ hm => Or.inr hm) (fun _ _ he => Or.inr he) fun _ _ hm => Or.inr hm

/-- One step from an assembled table leads to one, if it adds no method of a mixin that is missing. -/
theorem step_assembled {action : Action} {counts counts' : CompositionCounts}
    (h : step set config action a counts = .ok (a', counts')) (ha : a.table.Assembled)
    (haction : ∀ m id name, action = .add m id name → a.table.services.contains m.id = true) :
    a'.table.Assembled ∧ a.table.Extends a'.table ∧
      ∀ m, action = .load m → a'.table.services.contains m.id = true := by
  cases action with
  | load m =>
      rw [step] at h
      split at h
      · cases h
      next b loaded hload =>
        cases h
        obtain ⟨hassembled, hext, hthere⟩ := load_assembled hload ha
        refine ⟨hassembled, hext, fun n hn => ?_⟩
        cases hn
        exact hthere
  | add m serviceId name =>
      refine (and_assoc.1 ⟨?_, fun n hn => by cases hn⟩)
      rw [step] at h
      split at h
      · cases h
        exact ⟨ha, .refl _⟩
      · split at h
        · cases h
          exact ⟨ha, .refl _⟩
        next method hmethod =>
          split at h
          · cases h
          next table htable =>
            cases h
            have hnew := composedMethod?_assembled hmethod ha (haction m serviceId name rfl)
            obtain ⟨hassembled, hext⟩ := listMethod_assembled (ha.insertMethod hnew htable)
            exact ⟨hassembled, (SymbolTable.insertMethod_extends htable).trans hext⟩

theorem run_assembled {loaded : List Mixin} {actions : List Action}
    {counts counts' : CompositionCounts} (h : run set config actions a counts = .ok (a', counts'))
    (ha : a.table.Assembled) (hprimed : Primed loaded actions)
    (hloaded : ∀ m ∈ loaded, a.table.services.contains m.id = true) : a'.table.Assembled := by
  induction actions generalizing a counts loaded with
  | nil =>
      cases h
      exact ha
  | cons action actions ih =>
      rw [run] at h
      split at h
      · cases h
      next b counts₁ hstep =>
        cases action with
        | load m =>
            obtain ⟨hassembled, hext, hthere⟩ :=
              step_assembled hstep ha fun _ _ _ heq => by cases heq
            refine ih h hassembled hprimed fun n hn => ?_
            rcases List.mem_cons.1 hn with rfl | hn
            · exact hthere n rfl
            · exact hext.services _ (hloaded n hn)
        | add m serviceId name =>
            obtain ⟨hassembled, hext, -⟩ := step_assembled hstep ha fun n _ _ heq => by
              cases heq
              exact hloaded m hprimed.1
            exact ih h hassembled hprimed.2 fun n hn => hext.services _ (hloaded n hn)

end Composition

/-- Composition keeps a table assembled. -/
theorem Api.composeMixins_assembled {set : Descriptor.DescriptorSet}
    {config : Option ServiceConfig} {a a' : Api} {counts : CompositionCounts}
    (h : a.composeMixins set config = .ok (a', counts)) (ha : a.table.Assembled) :
    a'.table.Assembled :=
  Composition.run_assembled h ha (Composition.primed_actions a config)
    fun _ hm => absurd hm List.not_mem_nil

end ServiceModel
