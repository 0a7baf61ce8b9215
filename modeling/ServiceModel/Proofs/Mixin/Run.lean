import ServiceModel.Proofs.Mixin.Steps

/-!
Runs of composition.  Steps come after those that they depend on, so what a step has done or found out
holds for the rest of the run: a service is offered the methods of the mixins in their order, and it takes
each that it does not list yet.
-/

namespace ServiceModel.Composition

open Descriptor (DescriptorSet)

variable {set : DescriptorSet} {config : Option ServiceConfig} {a : Api} {taken rest : List Action}
  {t t' : SymbolTable} {x y : Action}

/-! ### Steps in their order -/

/-- All that goes before a step that was taken was taken as well. -/
theorem taken_of_goesBefore (hall : actions a config = taken ++ rest) (hy : y ∈ taken)
    (hx : x ∈ actions a config) (hxy : GoesBefore x y) : x ∈ taken := by
  obtain ⟨before, after, rfl⟩ := List.append_of_mem hy
  rw [List.append_assoc] at hall
  exact List.mem_append_left _ (goesBefore_actions hall hx hxy)

/-- A step is admissible once all that goes before it was taken. -/
theorem admissible_of_taken (hidle : ∀ z ∈ taken, Idle config t z) (hy : y ∈ actions a config)
    (hbefore : ∀ x ∈ actions a config, GoesBefore x y → x ∈ taken) : Admissible t y := by
  cases y with
  | load m => trivial
  | add m serviceId name =>
      obtain ⟨htarget, henables⟩ := add_mem_actions_iff.1 hy
      have hload := load_mem_actions_iff.2 ⟨name, henables⟩
      exact ⟨hidle _ (hbefore _ hload rfl), by simpa using (List.mem_filter.1 htarget).2,
        henables.plain⟩

/-! ### What was done so far -/

/-- A method that was added to a service which it did not list before.  No mixin in front of its own
offers one of that name. -/
structure Added (config : Option ServiceConfig) (a : Api) (t : SymbolTable) (s : Service)
    (serviceId : String) (e : Mixin × String) : Prop where
  step : .add e.1 serviceId e.2 ∈ actions a config
  new : serviceId ++ "." ++ e.2 ∉ s.methods
  copy : ∃ method, t.method? (serviceId ++ "." ++ e.2) = some method ∧
    Copies config t e.1 serviceId e.2 method
  first : ∀ m', m'.service < e.1.service → Enables a config m' e.2 → ¬ Offers config t m' e.2

/-- What some steps have done to the table of a model. -/
structure Progress (config : Option ServiceConfig) (a : Api) (taken : List Action)
    (t : SymbolTable) : Prop where
  evolves : Evolves a.table t
  idle : ∀ x ∈ taken, Idle config t x
  services : ∀ id s, a.table.service? id = some s → ∃ added : List (Mixin × String),
    t.service? id = some { s with methods := s.methods ++ added.map fun e => id ++ "." ++ e.2 } ∧
      added.Pairwise Precedes ∧
        ∀ e ∈ added, .add e.1 id e.2 ∈ taken ∧ Added config a t s id e

namespace Progress

theorem admissible (h : Progress config a taken t) (hall : actions a config = taken ++ rest)
    (hy : y ∈ taken) : Admissible t y :=
  admissible_of_taken h.idle (hall ▸ List.mem_append_left _ hy) fun _ hx hxy =>
    taken_of_goesBefore hall hy hx hxy

theorem admissible_next (h : Progress config a taken t)
    (hall : actions a config = taken ++ x :: rest) : Admissible t x :=
  admissible_of_taken h.idle (hall ▸ List.mem_append_right _ List.mem_cons_self) fun _ hy hyx =>
    goesBefore_actions hall hy hyx

theorem added (h : Progress config a taken t) (hall : actions a config = taken ++ rest)
    (ht : Evolves t t') {s : Service} {id : String} {e : Mixin × String}
    (hstep : .add e.1 id e.2 ∈ taken) (he : Added config a t s id e) : Added config a t' s id e := by
  obtain ⟨hloaded, -, hplain⟩ := h.admissible hall hstep
  refine ⟨he.step, he.new, ?_, fun m' hlt henables => ?_⟩
  · obtain ⟨method, hmethod, hcopies⟩ := he.copy
    exact ⟨method, ht.methods _ _ hmethod, (ht.copies hloaded hplain).2 hcopies⟩
  · have htarget := (add_mem_actions_iff.1 he.step).1
    have hbefore := taken_of_goesBefore hall hstep (add_mem_actions_iff.2 ⟨htarget, henables⟩)
      ⟨rfl, Or.inl hlt⟩
    rw [ht.offers (h.admissible hall hbefore).1 hplain]
    exact he.first m' hlt henables

theorem idle_next (h : Progress config a taken t) (hx : Idle config t x) :
    ∀ y ∈ taken ++ [x], Idle config t y := by
  rw [List.forall_mem_append, List.forall_mem_singleton]
  exact ⟨h.idle, hx⟩

theorem skip (h : Progress config a taken t) (hx : Idle config t x) :
    Progress config a (taken ++ [x]) t := by
  refine ⟨h.evolves, h.idle_next hx, fun id s hs => ?_⟩
  obtain ⟨added, hmethods, hordered, hadded⟩ := h.services id s hs
  exact ⟨added, hmethods, hordered, fun e he =>
    ⟨List.mem_append_left _ (hadded e he).1, (hadded e he).2⟩⟩

/-- A service that was there lists what was added to it, in order; a step that moves adds at the end. -/
theorem moves_service (h : Progress config a taken t) (hall : actions a config = taken ++ x :: rest)
    (hmoves : Moves set config t x t') {id : String} {s : Service}
    (hs : a.table.service? id = some s) : ∃ added : List (Mixin × String),
      t'.service? id = some { s with methods := s.methods ++ added.map fun e => id ++ "." ++ e.2 } ∧
        added.Pairwise Precedes ∧
          ∀ e ∈ added, .add e.1 id e.2 ∈ taken ++ [x] ∧ Added config a t' s id e := by
  have hx : x ∈ actions a config := hall ▸ List.mem_append_right _ List.mem_cons_self
  have hevolves := hmoves.evolves (h.admissible_next hall)
  have hnot : x ∉ taken := fun hmem => hmoves.not_idle (h.idle x hmem)
  obtain ⟨added, hservice, hordered, hadded⟩ := h.services id s hs
  have hkept : ∀ e ∈ added, .add e.1 id e.2 ∈ taken ++ [x] ∧ Added config a t' s id e :=
    fun e he => ⟨List.mem_append_left _ (hadded e he).1,
      h.added hall hevolves (hadded e he).1 (hadded e he).2⟩
  cases hmoves with
  | load hmissing hfile hnamed hgains =>
      refine ⟨added, ?_, hordered, hkept⟩
      rw [hgains.service, if_neg, hservice]
      rintro rfl
      rw [← Bool.not_eq_true, hnamed.symm] at hmissing
      exact hmissing (Catalog.contains_of_get? hservice)
  | @add m serviceId name t' method hlists hcopies hgains =>
      by_cases hid : id = serviceId
      · subst hid
        refine ⟨added ++ [(m, name)], ?_, ?_, ?_⟩
        · rw [hgains.service, if_pos rfl, hservice, hcopies.named.1]
          simp
        · -- Had a method behind the new one been added before, the new one would have been, too.
          refine List.pairwise_append.2 ⟨hordered, List.pairwise_singleton _ _, fun e he e' he' => ?_⟩
          cases List.mem_singleton.1 he'
          rcases precedes_trichotomy e (m, name) with hlt | rfl | hlt
          · exact hlt
          · exact absurd (hadded _ he).1 hnot
          · exact absurd (taken_of_goesBefore hall (hadded e he).1 hx ⟨rfl, hlt⟩) hnot
        · rw [List.forall_mem_append, List.forall_mem_singleton]
          refine ⟨hkept, List.mem_append_right _ List.mem_cons_self, hx, ?_, ?_, ?_⟩
          · intro hmem
            rw [← Bool.not_eq_true] at hlists
            exact hlists (lists_iff.2 ⟨_, hservice, List.mem_append_left _ hmem⟩)
          · obtain ⟨hloaded, -, hplain⟩ := h.admissible_next hall
            refine ⟨method, ?_, (hevolves.copies hloaded hplain).2 hcopies⟩
            rw [hgains.method, if_pos hcopies.named.1.symm]
          · intro m' hlt henables
            have htarget := (add_mem_actions_iff.1 hx).1
            have hbefore : .add m' id name ∈ taken := goesBefore_actions hall
              (add_mem_actions_iff.2 ⟨htarget, henables⟩) ⟨rfl, Or.inl hlt⟩
            rw [hevolves.offers (h.admissible hall hbefore).1 henables.plain]
            exact (h.idle _ hbefore).resolve_left (Bool.eq_false_iff.1 hlists)
      · refine ⟨added, ?_, hordered, hkept⟩
        rw [hgains.service, if_neg hid, hservice]

theorem moves (h : Progress config a taken t) (hall : actions a config = taken ++ x :: rest)
    (hthere : ∀ id ∈ targets a, a.table.services.contains id = true)
    (hmoves : Moves set config t x t') : Progress config a (taken ++ [x]) t' := by
  have hx : x ∈ actions a config := hall ▸ List.mem_append_right _ List.mem_cons_self
  have hevolves := hmoves.evolves (h.admissible_next hall)
  refine ⟨h.evolves.trans hevolves, ?_, fun id s hs => h.moves_service hall hmoves hs⟩
  rw [List.forall_mem_append, List.forall_mem_singleton]
  refine ⟨fun y hy => (h.idle y hy).evolves (h.admissible hall hy) hevolves,
    hmoves.idle fun m id name heq => ?_⟩
  rw [heq] at hx
  exact h.evolves.contains (hthere id (add_mem_actions_iff.1 hx).1)

end Progress

/-! ### What was put in -/

/-- The service of a mixin that some step has loaded. -/
structure NewService (taken : List Action) (t : SymbolTable) (id : String) (s : Service) : Prop where
  loaded : ∃ m, .load m ∈ taken ∧ id = m.id
  lists : s.Lists t id

/-- A method that its service lists: a copy that some step has added, or a method of a mixin's own that
came with its service. -/
structure NewMethod (config : Option ServiceConfig) (a : Api) (taken : List Action)
    (t : SymbolTable) (id : String) (method : Method) : Prop where
  named : method.id = id
  listed : lists t method.serviceId id = true
  origin : (∃ m name, .add m method.serviceId name ∈ taken ∧
      Copies config t m method.serviceId name method) ∨
    ∃ m, .load m ∈ taken ∧ a.table.service? m.id = none ∧ method.serviceId = m.id ∧
      id = m.methodId method.name ∧ method.sourceServiceId = none

/-- What some steps have put into the table of a model. -/
structure Additions (config : Option ServiceConfig) (a : Api) (taken : List Action)
    (t : SymbolTable) : Prop where
  services : ∀ id s, t.service? id = some s → a.table.service? id = none → NewService taken t id s
  methods : ∀ id method, t.method? id = some method → a.table.method? id = none →
    NewMethod config a taken t id method

theorem NewService.evolves {id : String} {s : Service} (h : NewService taken t id s)
    (ht : Evolves t t') (x : Action) : NewService (taken ++ [x]) t' id s := by
  obtain ⟨⟨m, hload, hid⟩, hlists⟩ := h
  exact ⟨⟨m, List.mem_append_left _ hload, hid⟩, hlists.mono ht.methods⟩

theorem NewMethod.evolves {id : String} {method : Method} (h : NewMethod config a taken t id method)
    (ht : Evolves t t') (hadmissible : ∀ y ∈ taken, Admissible t y) (x : Action) :
    NewMethod config a (taken ++ [x]) t' id method := by
  obtain ⟨hnamed, hlists, horigin⟩ := h
  refine ⟨hnamed, ht.lists hlists, ?_⟩
  rcases horigin with ⟨m, name, hadd, hcopies⟩ | ⟨m, hload, hm⟩
  · obtain ⟨hloaded, -, hplain⟩ := hadmissible _ hadd
    exact Or.inl ⟨m, name, List.mem_append_left _ hadd, (ht.copies hloaded hplain).2 hcopies⟩
  · exact Or.inr ⟨m, List.mem_append_left _ hload, hm⟩

namespace Additions

theorem skip (h : Additions config a taken t) (hadmissible : ∀ y ∈ taken, Admissible t y)
    (x : Action) : Additions config a (taken ++ [x]) t where
  services := fun id s hs hnone => (h.services id s hs hnone).evolves (.refl t) x
  methods := fun id m hm hnone => (h.methods id m hm hnone).evolves (.refl t) hadmissible x

theorem moves (h : Additions config a taken t) (hprogress : Progress config a taken t)
    (hall : actions a config = taken ++ x :: rest)
    (hthere : ∀ id ∈ targets a, a.table.services.contains id = true)
    (hmoves : Moves set config t x t') : Additions config a (taken ++ [x]) t' := by
  have hx : x ∈ actions a config := hall ▸ List.mem_append_right _ List.mem_cons_self
  have hevolves := hmoves.evolves (hprogress.admissible_next hall)
  have hservices := fun id s hs hnone => (h.services id s hs hnone).evolves hevolves x
  have hmethods := fun id m hm hnone => (h.methods id m hm hnone).evolves hevolves
    (fun y hy => hprogress.admissible hall hy) x
  have hlast : x ∈ taken ++ [x] := List.mem_append_right _ List.mem_cons_self
  cases hmoves with
  | @load m t' f d u hmissing hfile hnamed hgains =>
      refine ⟨fun id s hs hnone => ?_, fun id method hm hnone => ?_⟩
      · rw [hgains.service] at hs
        split at hs
        next hid =>
          cases hs
          refine ⟨⟨m, hlast, hid.trans hnamed⟩, hid.symm, hgains.distinct, fun n hn => ?_⟩
          obtain ⟨method, hmethod, -, hdeclares⟩ := hgains.there n hn
          exact ⟨method, hmethod, hdeclares.named.1.trans (hnamed.symm.trans hid.symm)⟩
        next => exact hservices id s hs hnone
      · rcases hgains.gained id method hm with ⟨-, hold⟩ | ⟨hlisted, -, hid, hdeclares⟩
        · exact hmethods id method hold hnone
        · obtain ⟨hserviceId, hname, hsource, -⟩ := hdeclares.named
          have hservice := hgains.service method.serviceId
          rw [if_pos (hserviceId.trans hnamed.symm)] at hservice
          have hfree : a.table.service? m.id = none := by
            refine Catalog.contains_eq_false_iff.1 (Bool.eq_false_iff.2 fun hthere => ?_)
            rw [hprogress.evolves.contains hthere] at hmissing
            cases hmissing
          exact ⟨hid, (lists_of_service? hservice).2 hlisted,
            Or.inr ⟨m, hlast, hfree, hserviceId, hid.symm.trans hname, hsource⟩⟩
  | @add m serviceId name t' added hlists hcopies hgains =>
      have hservice := hthere serviceId (add_mem_actions_iff.1 hx).1
      refine ⟨fun id s hs hnone => ?_, fun id method hm hnone => ?_⟩
      · rw [hgains.service, if_neg] at hs
        · exact hservices id s hs hnone
        · rintro rfl
          rw [Catalog.contains_eq_false_iff.2 hnone] at hservice
          cases hservice
      · rw [hgains.method] at hm
        split at hm
        next hid =>
          cases hm
          obtain ⟨-, hserviceId, -⟩ := hcopies.named
          obtain ⟨hloaded, -, hplain⟩ := hprogress.admissible_next hall
          have hcopies' := (hevolves.copies hloaded hplain).2 hcopies
          refine ⟨hid.symm, ?_, Or.inl ⟨m, name, ?_, ?_⟩⟩
          · rw [hserviceId, hid]
            exact hgains.lists (hprogress.evolves.contains hservice)
          · rw [hserviceId]
            exact hlast
          · rw [hserviceId]
            exact hcopies'
        next => exact hmethods id method hm hnone

end Additions

/-- A run that takes the steps of a model to their end. -/
theorem run_progress {b b' : Api} {counts counts' : CompositionCounts}
    (h : run set config rest b counts = .ok (b', counts'))
    (hprogress : Progress config a taken b.table) (hadditions : Additions config a taken b.table)
    (hall : actions a config = taken ++ rest)
    (hthere : ∀ id ∈ targets a, a.table.services.contains id = true) :
    Progress config a (actions a config) b'.table ∧
      Additions config a (actions a config) b'.table ∧ b' = { b with table := b'.table } := by
  induction rest generalizing taken b counts with
  | nil =>
      cases h
      rw [List.append_nil] at hall
      rw [hall]
      exact ⟨hprogress, hadditions, rfl⟩
  | cons x rest ih =>
      rw [run] at h
      split at h
      · cases h
      next c counts₁ hstep =>
        have hall' : actions a config = (taken ++ [x]) ++ rest := by
          rw [hall, List.append_assoc, List.singleton_append]
        rcases step_cases hstep with ⟨hidle, rfl, -⟩ | ⟨hmoves, heq, -⟩
        · exact ih h (hprogress.skip hidle)
            (hadditions.skip (fun y hy => hprogress.admissible hall hy) x) hall'
        · obtain ⟨hprogress', hadditions', heq'⟩ := ih h (hprogress.moves hall hthere hmoves)
            (hadditions.moves hprogress hall hthere hmoves) hall'
          refine ⟨hprogress', hadditions', heq'.trans ?_⟩
          rw [heq]

theorem progress_nil (config : Option ServiceConfig) (a : Api) : Progress config a [] a.table where
  evolves := .refl _
  idle := nofun
  services := fun id s hs => ⟨[], by simpa using hs, .nil, nofun⟩

theorem additions_nil (config : Option ServiceConfig) (a : Api) : Additions config a [] a.table := by
  refine ⟨fun id s hs hnone => ?_, fun id method hm hnone => ?_⟩
  · rw [hs] at hnone
    cases hnone
  · rw [hm] at hnone
    cases hnone

end ServiceModel.Composition
