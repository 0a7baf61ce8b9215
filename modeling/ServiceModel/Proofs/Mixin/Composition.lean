import ServiceModel.Proofs.Mixin.Run

/-!
Composition as a whole.  Each service of a model gets the enabled methods that it does not list yet, in
the order of their mixins and names, and everything else that was there stays as it was.
-/

namespace ServiceModel

namespace Composition

open Descriptor (DescriptorSet)

variable {set : DescriptorSet} {config : Option ServiceConfig} {a a' : Api}
  {counts : CompositionCounts}

/-- What is added to a service that has some methods: those that are enabled and offered, which it does
not list and no mixin in front offers under the same name. -/
def Adds (config : Option ServiceConfig) (a : Api) (t : SymbolTable) (s : Service) (id : String)
    (m : Mixin) (name : String) : Prop :=
  id ∈ a.services ∧ Enables a config m name ∧ id ++ "." ++ name ∉ s.methods ∧
    Offers config t m name ∧
      ∀ m', m'.service < m.service → Enables a config m' name → ¬ Offers config t m' name

/-- A model in which the enabled mixins are composed. -/
structure Composed (config : Option ServiceConfig) (a a' : Api) : Prop where
  /-- Nothing changes but the table. -/
  rest : a' = { a with table := a'.table }
  messages : a'.table.messages = a.table.messages
  enums : a'.table.enums = a.table.enums
  frozen : a'.table.frozen = a.table.frozen
  methods : ∀ id m, a.table.method? id = some m → a'.table.method? id = some m
  /-- What is added to a service stands at the end of its list, in order and under names of its own. -/
  services : ∀ id s, a.table.service? id = some s → ∃ added : List (Mixin × String),
    a'.table.service? id =
        some { s with methods := s.methods ++ added.map fun e => id ++ "." ++ e.2 } ∧
      added.Pairwise Precedes ∧ (added.map Prod.snd).Nodup ∧
        (∀ m name, (m, name) ∈ added ↔ Adds config a a'.table s id m name) ∧
          ∀ e ∈ added, ∃ method, a'.table.method? (id ++ "." ++ e.2) = some method ∧
            Copies config a'.table e.1 id e.2 method
  loaded : ∀ m name, Enables a config m name → a'.table.services.contains m.id = true
  /-- Services that were not there are those of enabled mixins. -/
  newServices : ∀ id s, a'.table.service? id = some s → a.table.service? id = none →
    (∃ m name, Enables a config m name ∧ id = m.id) ∧ s.Lists a'.table id
  /-- Methods that were not there are copies, or came with the service of a mixin. -/
  newMethods : ∀ id method, a'.table.method? id = some method → a.table.method? id = none →
    method.id = id ∧ lists a'.table method.serviceId id = true ∧
      ((∃ m name, method.serviceId ∈ a.services ∧ Enables a config m name ∧
          Copies config a'.table m method.serviceId name method) ∨
        ∃ m name, Enables a config m name ∧ a.table.service? m.id = none ∧
          method.serviceId = m.id ∧ id = m.methodId method.name ∧ method.sourceServiceId = none)

/-- What is added to a service is exactly what a run adds. -/
theorem Progress.mem_added_iff {t : SymbolTable} {id : String} {s : Service}
    (h : Progress config a (actions a config) t) (hown : ∀ id ∈ a.services, isMixinApi id = false)
    {added : List (Mixin × String)}
    (hservice : t.service? id =
      some { s with methods := s.methods ++ added.map fun e => id ++ "." ++ e.2 })
    (hadded : ∀ e ∈ added, Added config a t s id e) (m : Mixin) (name : String) :
    (m, name) ∈ added ↔ Adds config a t s id m name := by
  have hadds : ∀ e ∈ added, Adds config a t s id e.1 e.2 := by
    intro e he
    obtain ⟨hstep, hnew, ⟨method, -, hcopies⟩, hfirst⟩ := hadded e he
    obtain ⟨htarget, henables⟩ := add_mem_actions_iff.1 hstep
    exact ⟨(List.mem_filter.1 htarget).1, henables, hnew, offers_iff.2 ⟨method, hcopies⟩, hfirst⟩
  refine ⟨hadds (m, name), fun ⟨hid, henables, hnew, hoffers, hfirst⟩ => ?_⟩
  -- In the end the step is idle, so the method is listed; it is one of those that were added.
  have htarget : id ∈ targets a := List.mem_filter.2 ⟨hid, by simp [hown id hid]⟩
  have hlisted := (h.idle _ (add_mem_actions_iff.2 ⟨htarget, henables⟩)).resolve_right
    (not_not_intro hoffers)
  rw [lists_of_service? hservice] at hlisted
  rcases List.mem_append.1 hlisted with hold | hmem
  · exact absurd hold hnew
  · obtain ⟨⟨m', name'⟩, he, heq⟩ := List.mem_map.1 hmem
    cases Text.dotted_right_inj.1 heq
    obtain ⟨-, henables', -, hoffers', hfirst'⟩ := hadds _ he
    rcases Std.lt_trichotomy m'.service m.service with hlt | heq | hlt
    · exact absurd hoffers' (hfirst m' hlt henables')
    · rwa [service_inj heq] at he
    · exact absurd hoffers (hfirst' m hlt henables)

theorem nodup_added {t : SymbolTable} {id : String} {s : Service} {added : List (Mixin × String)}
    (hordered : added.Pairwise Precedes) (hadds : ∀ m name, (m, name) ∈ added →
      Adds config a t s id m name) : (added.map Prod.snd).Nodup := by
  rw [List.Nodup, List.pairwise_map]
  refine hordered.imp_of_mem fun {e e'} he he' hlt heq => ?_
  obtain ⟨-, henables, -, hoffers, -⟩ := hadds e.1 e.2 he
  obtain ⟨-, -, -, -, hfirst⟩ := hadds e'.1 e'.2 he'
  rcases hlt with hlt | ⟨-, hlt⟩
  · exact hfirst e.1 hlt (heq ▸ henables) (heq ▸ hoffers)
  · rw [heq] at hlt
    exact Std.lt_irrefl hlt

theorem composeMixins_progress (hthere : ∀ id ∈ a.services, a.table.services.contains id = true)
    (h : a.composeMixins set config = .ok (a', counts)) :
    Progress config a (actions a config) a'.table ∧
      Additions config a (actions a config) a'.table ∧ a' = { a with table := a'.table } :=
  run_progress h (progress_nil config a) (additions_nil config a) rfl fun id hid =>
    hthere id (List.mem_filter.1 hid).1

/-- Composition of a model whose services are in its table, and none of them a mixin. -/
theorem composeMixins_composed
    (hservices : ∀ id ∈ a.services, isMixinApi id = false ∧ a.table.services.contains id = true)
    (h : a.composeMixins set config = .ok (a', counts)) : Composed config a a' := by
  obtain ⟨hprogress, hadditions, heq⟩ := composeMixins_progress (fun id hid => (hservices id hid).2) h
  have hevolves := hprogress.evolves
  refine ⟨heq, hevolves.messages, hevolves.enums, hevolves.frozen, hevolves.methods,
    fun id s hs => ?_, fun m name henables => ?_, fun id s hs hnone => ?_, fun id n hn hnone => ?_⟩
  · obtain ⟨added, hservice, hordered, hadded⟩ := hprogress.services id s hs
    have hmem := hprogress.mem_added_iff (fun id hid => (hservices id hid).1) hservice
      fun e he => (hadded e he).2
    exact ⟨added, hservice, hordered, nodup_added hordered fun m name => (hmem m name).1, hmem,
      fun e he => (hadded e he).2.copy⟩
  · exact hprogress.idle (.load m) (load_mem_actions_iff.2 ⟨name, henables⟩)
  · obtain ⟨⟨m, hload, hid⟩, hlists⟩ := hadditions.services id s hs hnone
    obtain ⟨name, henables⟩ := load_mem_actions_iff.1 hload
    exact ⟨⟨m, name, henables, hid⟩, hlists⟩
  · obtain ⟨hnamed, hlisted, horigin⟩ := hadditions.methods id n hn hnone
    refine ⟨hnamed, hlisted, ?_⟩
    rcases horigin with ⟨m, name, hadd, hcopies⟩ | ⟨m, hload, hmissing, hm⟩
    · obtain ⟨htarget, henables⟩ := add_mem_actions_iff.1 hadd
      exact Or.inl ⟨m, name, (List.mem_filter.1 htarget).1, henables, hcopies⟩
    · obtain ⟨name, henables⟩ := load_mem_actions_iff.1 hload
      exact Or.inr ⟨m, name, henables, hmissing, hm⟩

end Composition

namespace Composition

open Descriptor

/-- A file with a message, and a service without methods. -/
def ownFile : FileDescriptor :=
  plainFile "a.proto" "p" [plainMessage "M" []] [plainService "S" []]

/-- The file of a mixin, whose service has one method. -/
def mixinFile (m : Mixin) (package method : String) (options : Options) : FileDescriptor :=
  plainFile m.file package [] [plainService m.shortName [plainMethod method ".p.M" options]]

/-- The file of the locations, with a method that has some options. -/
def locationsFile (options : Options) : FileDescriptor :=
  mixinFile .locations "google.cloud.location" "GetLocation" options

/-- A configuration that declares the locations beside an API of its own, with a rule for their method. -/
def locationsConfig : ServiceConfig where
  name := ""
  title := ""
  apiNames := ["p.S", Mixin.locations.service]
  documentation := ⟨"", "", []⟩
  httpRules := [{
    selector := Mixin.locations.service ++ ".GetLocation"
    get := some "/v1/\x7bname=locations/*\x7d" }]
  methodSettings := []
  authentication := none
  backend := none

/-- The targets whose names begin with the name of the own file. -/
def ownTargets : Targets := ⟨[], some "a"⟩

/-- The models of some files before and after their mixins are composed. -/
def composeFiles (files : List FileDescriptor) : Option (Api × Api × CompositionCounts) := do
  let (a, _) ← ((DescriptorSet.mk files).ingest ownTargets (some locationsConfig)).toOption
  let (a', counts) ← (a.composeMixins ⟨files⟩ (some locationsConfig)).toOption
  some (a, a', counts)

theorem composeFiles_eq_some {files : List FileDescriptor} {a a' : Api} {counts : CompositionCounts}
    (h : composeFiles files = some (a, a', counts)) :
    (∃ counted, (DescriptorSet.mk files).ingest ownTargets (some locationsConfig) = .ok (a, counted)) ∧
      a.composeMixins ⟨files⟩ (some locationsConfig) = .ok (a', counts) := by
  unfold composeFiles at h
  simp only [Option.bind_eq_bind, Option.bind_eq_some_iff, toOption_eq_some_iff] at h
  obtain ⟨⟨b, counted⟩, hingest, ⟨b', counts'⟩, hcompose, heq⟩ := h
  cases heq
  exact ⟨⟨counted, hingest⟩, hcompose⟩

theorem exists_composeFiles {α : Type} {files : List FileDescriptor}
    {see : Api × Api × CompositionCounts → α} {seen : α}
    (h : (composeFiles files).map see = some seen) :
    ∃ a a' counts, composeFiles files = some (a, a', counts) ∧ see (a, a', counts) = seen := by
  obtain ⟨⟨a, a', counts⟩, hcompose, hsee⟩ := Option.map_eq_some_iff.1 h
  exact ⟨a, a', counts, hcompose, hsee⟩

end Composition

end ServiceModel
