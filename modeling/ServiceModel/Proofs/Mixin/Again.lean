import ServiceModel.Proofs.Mixin.Composition

/-!
Composing a second time.  Every step of the first run finds nothing to do any more.  The second run has
further steps only where a method that was copied starts an operation and none did before: then the
method that polls operations is enabled for the first time.
-/

namespace ServiceModel

namespace Composition

open Descriptor (DescriptorSet)

variable {set : DescriptorSet} {config : Option ServiceConfig} {a a' : Api} {xs : List Action}
  {counts counts' : CompositionCounts}

/-! ### Idle runs -/

/-- A run whose steps all find nothing to do. -/
theorem run_of_idle (h : ∀ x ∈ xs, Idle config a.table x) (counts : CompositionCounts) :
    ∃ skipped, run set config xs a counts = .ok (a, { counts with skippedDuplicates := skipped }) := by
  induction xs generalizing counts with
  | nil => exact ⟨counts.skippedDuplicates, rfl⟩
  | cons x xs ih =>
      obtain ⟨skipped, hstep⟩ := step_of_idle (h x List.mem_cons_self) set counts
      obtain ⟨skipped', hrun⟩ := ih (fun y hy => h y (List.mem_cons_of_mem _ hy))
        { counts with skippedDuplicates := skipped }
      exact ⟨skipped', by rw [run, hstep]; exact hrun⟩

theorem le_of_run (h : run set config xs a counts = .ok (a', counts')) :
    counts.loadedFiles + counts.composedMethods ≤
      counts'.loadedFiles + counts'.composedMethods := by
  induction xs generalizing a counts with
  | nil =>
      cases h
      exact Nat.le_refl _
  | cons x xs ih =>
      rw [run] at h
      split at h
      · cases h
      next b counts₁ hstep =>
        have hrest := ih h
        rcases step_cases hstep with ⟨-, -, hfiles, hmethods⟩ | ⟨-, -, hcount⟩
        · rwa [hfiles, hmethods] at hrest
        · omega

theorem idle_of_run (h : run set config xs a counts = .ok (a', counts'))
    (hcount : counts'.loadedFiles + counts'.composedMethods =
      counts.loadedFiles + counts.composedMethods) : ∀ x ∈ xs, Idle config a.table x := by
  induction xs generalizing a counts with
  | nil => exact nofun
  | cons x xs ih =>
      rw [run] at h
      split at h
      · cases h
      next b counts₁ hstep =>
        rcases step_cases hstep with ⟨hidle, rfl, hfiles, hmethods⟩ | ⟨-, -, hmoved⟩
        · rw [List.forall_mem_cons]
          exact ⟨hidle, ih h (by rw [hcount, hfiles, hmethods])⟩
        · have hle := le_of_run h
          omega

/-- A run from fresh counts leaves the model and counts nothing exactly if every step is idle. -/
theorem run_eq_self_iff : (∃ skipped, run set config xs a ⟨0, 0, 0⟩ = .ok (a, ⟨0, 0, skipped⟩)) ↔
    ∀ x ∈ xs, Idle config a.table x :=
  ⟨fun ⟨_, h⟩ => idle_of_run h rfl, fun h => run_of_idle h _⟩

/-! ### Further steps -/

/-- A step that was not planned before needs the method that polls operations. -/
theorem mem_actions_again {x : Action} (hservices : a'.services = a.services)
    (hx : x ∈ actions a' config) : x ∈ actions a config ∨
      StartsOperations a' ∧
        (x = .load .operations ∨ ∃ id ∈ a'.services, x = .add .operations id pollingMethod) := by
  have htargets : targets a' = targets a := by rw [targets, targets, hservices]
  cases x with
  | load m =>
      obtain ⟨name, hruled | ⟨rfl, rfl, hstarts⟩⟩ := load_mem_actions_iff.1 hx
      · exact Or.inl (load_mem_actions_iff.2 ⟨name, Or.inl hruled⟩)
      · exact Or.inr ⟨hstarts, Or.inl rfl⟩
  | add m id name =>
      obtain ⟨hid, hruled | ⟨rfl, rfl, hstarts⟩⟩ := add_mem_actions_iff.1 hx
      · exact Or.inl (add_mem_actions_iff.2 ⟨htargets ▸ hid, Or.inl hruled⟩)
      · exact Or.inr ⟨hstarts, Or.inr ⟨id, (List.mem_filter.1 hid).1, rfl⟩⟩

end Composition

open ServiceModel.Composition in
/-- A second composition changes and counts nothing exactly if, where operations are started by then,
their mixin is there and offers no service a polling method that it does not list.  So it is where that
method was enabled from the start, or no operation is started even with the methods that were added. -/
theorem Api.composeMixins_again {ingested set : Descriptor.DescriptorSet} {o : Descriptor.Targets}
    {other config : Option ServiceConfig} {a a' : Api} {counted : Descriptor.IngestionCounts}
    {counts : CompositionCounts} (hingest : ingested.ingest o other = .ok (a, counted))
    (h : a.composeMixins set config = .ok (a', counts)) :
    ((∃ skipped, a'.composeMixins set config = .ok (a', ⟨0, 0, skipped⟩)) ↔
      (StartsOperations a' → a'.table.services.contains Mixin.operations.id = true ∧
        ∀ id ∈ a'.services, lists a'.table id (id ++ "." ++ pollingMethod) = true ∨
          ¬ Offers config a'.table .operations pollingMethod)) ∧
      (Enables a config .operations pollingMethod ∨ ¬ StartsOperations a' →
        ∃ skipped, a'.composeMixins set config = .ok (a', ⟨0, 0, skipped⟩)) := by
  have hservices : ∀ id ∈ a.services, isMixinApi id = false ∧ a.table.services.contains id = true :=
    fun _ hid => (ingested.ingest_publishes hingest).mem_services hid
  obtain ⟨hprogress, -, heq⟩ := composeMixins_progress (fun id hid => (hservices id hid).2) h
  have hsame : a'.services = a.services := by rw [heq]
  have htarget : ∀ id ∈ a'.services, id ∈ targets a' := by
    intro id hid
    refine List.mem_filter.2 ⟨hid, ?_⟩
    simp [(hservices id (hsame ▸ hid)).1]
  have hagain : (∃ skipped, a'.composeMixins set config = .ok (a', ⟨0, 0, skipped⟩)) ↔
      ∀ x ∈ actions a' config, Idle config a'.table x := run_eq_self_iff
  have hpolled : (∀ x ∈ actions a' config, Idle config a'.table x) ↔
      (StartsOperations a' → Idle config a'.table (.load .operations) ∧
        ∀ id ∈ a'.services, Idle config a'.table (.add .operations id pollingMethod)) := by
    constructor
    · intro hidle hstarts
      have henables : Enables a' config .operations pollingMethod := Or.inr ⟨rfl, rfl, hstarts⟩
      exact ⟨hidle _ (load_mem_actions_iff.2 ⟨_, henables⟩), fun id hid =>
        hidle _ (add_mem_actions_iff.2 ⟨htarget id hid, henables⟩)⟩
    · intro hpolled x hx
      rcases mem_actions_again hsame hx with hold | ⟨hstarts, rfl | ⟨id, hid, rfl⟩⟩
      · exact hprogress.idle x hold
      · exact (hpolled hstarts).1
      · exact (hpolled hstarts).2 id hid
  refine ⟨hagain.trans hpolled, fun hknown => hagain.2 (hpolled.2 fun hstarts => ?_)⟩
  have henables := hknown.resolve_right (not_not_intro hstarts)
  refine ⟨hprogress.idle _ (load_mem_actions_iff.2 ⟨_, henables⟩), fun id hid => ?_⟩
  refine hprogress.idle _ (add_mem_actions_iff.2 ⟨?_, henables⟩)
  have htargets : targets a' = targets a := by rw [targets, targets, hsame]
  exact htargets ▸ htarget id hid

open ServiceModel.Composition in
theorem Api.composeMixins_again_locations :
    ∃ a a' counts, composeFiles [ownFile, locationsFile .empty] = some (a, a', counts) ∧
      ∃ skipped, a'.composeMixins ⟨[ownFile, locationsFile .empty]⟩ (some locationsConfig) =
        .ok (a', ⟨0, 0, skipped⟩) := by
  have hseen : (composeFiles [ownFile, locationsFile .empty]).map (fun r => needsOperations r.2.1) =
      some false := by decide +kernel
  obtain ⟨a, a', counts, h, hnone⟩ := exists_composeFiles hseen
  obtain ⟨⟨counted, hingest⟩, hcompose⟩ := composeFiles_eq_some h
  have hstarts : ¬ StartsOperations a' := fun hstarts => by
    rw [← needsOperations_iff, hnone] at hstarts
    cases hstarts
  exact ⟨a, a', counts, h, (Api.composeMixins_again hingest hcompose).2 (Or.inr hstarts)⟩

namespace Composition

open Descriptor

/-- The options of a method that starts operations. -/
def startingOptions : Options :=
  .ofList [(operationKey,
    .object [("responseType", .string ".p.M"), ("metadataType", .string ".p.M")])]

/-- Files in which the method of the locations starts operations, and the mixin that polls them. -/
def startingFiles : List FileDescriptor :=
  [ownFile, locationsFile startingOptions,
    mixinFile .operations "google.longrunning" "GetOperation" .empty]

end Composition

open ServiceModel.Composition in
/-- The first composition copies a method that starts operations, so the second loads their mixin. -/
theorem Api.composeMixins_again_loads :
    ∃ a counted a' counts a'' counts',
      (Descriptor.DescriptorSet.mk startingFiles).ingest ownTargets (some locationsConfig) =
          .ok (a, counted) ∧
        a.composeMixins ⟨startingFiles⟩ (some locationsConfig) = .ok (a', counts) ∧
          a'.composeMixins ⟨startingFiles⟩ (some locationsConfig) = .ok (a'', counts') ∧
            counts' = ⟨1, 1, 1⟩ ∧ a'' ≠ a' := by
  have hseen : (composeFiles startingFiles).map (fun r =>
      ((r.2.1.composeMixins ⟨startingFiles⟩ (some locationsConfig)).toOption).map fun r' =>
        (r'.2, r'.1.table.services.names == r.2.1.table.services.names)) =
      some (some (⟨1, 1, 1⟩, false)) := by decide +kernel
  obtain ⟨a, a', counts, h, hagain⟩ := exists_composeFiles hseen
  obtain ⟨⟨counted, hingest⟩, hcompose⟩ := composeFiles_eq_some h
  obtain ⟨⟨a'', counts'⟩, hsecond, hagain⟩ := Option.map_eq_some_iff.1 hagain
  obtain ⟨hcounts, hnames⟩ := Prod.mk.inj hagain
  refine ⟨a, counted, a', counts, a'', counts', hingest, hcompose,
    toOption_eq_some_iff.1 hsecond, hcounts, ?_⟩
  intro heq
  rw [heq] at hnames
  simp at hnames

end ServiceModel
