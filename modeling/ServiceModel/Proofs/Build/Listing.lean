import ServiceModel.Proofs.Build
import ServiceModel.Proofs.Mixin.Listing
import ServiceModel.Proofs.OpenApi.Listing

/-!
Methods of models that are built.  Enrichment leaves the names of methods and the lists of services
alone, so what ingestion and composition leave is what a build returns.  There a method is missing in
the list of its service only if the service is declared again, and is named for it unless a mixin has
lent it under the ID of another service's method.
-/

namespace ServiceModel

open ServiceModel.Composition (Accounted lists)
open Descriptor (Declaration DescriptorSet GivenBy)

/-! ### Enriched tables -/

/-- Two methods that go by the same names. -/
structure Method.SameNames (m m' : Method) : Prop where
  name : m'.name = m.name
  id : m'.id = m.id
  service : m'.serviceId = m.serviceId
  source : m'.sourceServiceId = m.sourceServiceId

theorem Method.sameNames_of_skeleton {m m' : Method} (h : m.skeleton = m'.skeleton) :
    m.SameNames m' := by
  have hsource := (eq_of_skeleton h.symm).1
  simp only [skeleton, Method.mk.injEq] at h
  exact ⟨h.1.symm, h.2.1.symm, h.2.2.1.symm, hsource⟩

variable {t t' : SymbolTable} {es : List Declaration}

namespace SymbolTable.Alike

theorem service? (h : t.Alike t') : t'.service? = t.service? := congrArg Catalog.get? h.services

theorem lists (h : t.Alike t') (serviceId methodId : String) :
    lists t' serviceId methodId = lists t serviceId methodId :=
  Composition.lists_congr (congrFun h.service? serviceId)

theorem exists_sameNames (h : t.Alike t') {id : String} {m' : Method}
    (hm : t'.method? id = some m') : ∃ m, t.method? id = some m ∧ m.SameNames m' := by
  obtain ⟨m, hold, hskeleton⟩ := h.exists_method hm
  exact ⟨m, hold, Method.sameNames_of_skeleton hskeleton⟩

end SymbolTable.Alike

theorem SymbolTable.Indexed.of_alike (h : t.Indexed) (ht : t.Alike t') : t'.Indexed := by
  refine ⟨fun id s hs => ?_, fun id m' hm => ?_⟩
  · rw [ht.service?] at hs
    obtain ⟨hnamed, hdistinct, hown⟩ := h.services id s hs
    refine ⟨hnamed, hdistinct, fun n hn => ?_⟩
    obtain ⟨m, hm, hserviceId⟩ := hown n hn
    obtain ⟨m', hm', hnames⟩ := ht.symm.exists_sameNames hm
    exact ⟨m', hm', hnames.service.symm.trans hserviceId⟩
  · obtain ⟨m, hold, hnames⟩ := ht.exists_sameNames hm
    rw [hnames.id, hnames.service, ht.services]
    exact h.methods id m hold

theorem Method.Kept.of_alike {m m' : Method} (h : m.Kept t) (ht : t.Alike t')
    (hnames : m.SameNames m') : m'.Kept t' := by
  obtain ⟨hnamed, hlisted⟩ := h
  refine ⟨?_, ?_⟩
  · rwa [hnames.id, hnames.service, hnames.name]
  · rwa [hnames.id, hnames.service, ht.service?]

theorem Descriptor.GivenBy.of_alike {m m' : Method} (h : GivenBy es t m) (ht : t.Alike t')
    (hnames : m.SameNames m') : GivenBy es t' m' := by
  obtain ⟨hnamed, hsource, hdeclared⟩ := h
  refine ⟨?_, hnames.source.trans hsource, ?_⟩
  · rwa [hnames.id, hnames.service, hnames.name]
  · rwa [hnames.id, hnames.service, hnames.name, ht.lists]

theorem Composition.Accounted.of_alike (h : Accounted es t) (ht : t.Alike t') : Accounted es t' := by
  refine ⟨h.indexed.of_alike ht, fun id m' hm' hsource => ?_, fun id m' src hm' hsource => ?_⟩
  · obtain ⟨m, hm, hnames⟩ := ht.exists_sameNames hm'
    rw [hnames.source] at hsource
    obtain ⟨hnamed, horigin⟩ := h.own id m hm hsource
    rw [hnames.service, hnames.name, ht.lists]
    exact ⟨hnamed, horigin.imp_right fun hgiven => hgiven.of_alike ht hnames⟩
  · obtain ⟨m, hm, hnames⟩ := ht.exists_sameNames hm'
    rw [hnames.source] at hsource
    obtain ⟨hlisted, mixin, name, source, hsrc, hplain, hoffered, hnone, hiff⟩ :=
      h.copied id m src hm hsource
    obtain ⟨source', hoffered', hsame⟩ := ht.symm.exists_sameNames hoffered
    rw [hnames.service, hnames.name, ht.lists]
    rw [hsame.service] at hiff
    exact ⟨hlisted, mixin, name, source', hsrc, hplain, hoffered', hsame.source.symm.trans hnone, hiff⟩

/-! ### Unambiguous declarations -/

/-- Declarations of different services, whose methods have names without dots. -/
structure Descriptor.Unambiguous (es : List Declaration) : Prop where
  distinct : (es.map Declaration.id).Nodup
  plain : ∀ e ∈ es, ∀ d ∈ e.service.methods, '.' ∉ d.name.toList

instance (es : List Declaration) : Decidable (Descriptor.Unambiguous es) :=
  decidable_of_iff ((es.map Declaration.id).Nodup ∧
      ∀ e ∈ es, ∀ d ∈ e.service.methods, '.' ∉ d.name.toList)
    ⟨fun h => ⟨h.1, h.2⟩, fun h => ⟨h.distinct, h.plain⟩⟩

/-- A method that one of several different services gives is listed. -/
theorem Descriptor.GivenBy.lists {m : Method} (h : GivenBy es t m)
    (hdistinct : (es.map Declaration.id).Nodup) : lists t m.serviceId m.id = true := by
  obtain ⟨-, -, before, e, after, rfl, he, -, hlists⟩ := h
  refine hlists.2 fun e' he' heq => ?_
  rw [List.map_append, List.map_cons] at hdistinct
  refine (List.nodup_cons.1 (List.nodup_append.1 hdistinct).2.1).1 ?_
  exact List.mem_map.2 ⟨e', he', heq.trans he.symm⟩

/-- The method that a mixin lends under a plain name is its own. -/
theorem Composition.Accounted.offered (h : Accounted es t) (hes : Descriptor.Unambiguous es)
    {mixin : Mixin} {name : String} {source : Method} (hplain : '.' ∉ name.toList)
    (hm : t.method? (mixin.methodId name) = some source) (hnone : source.sourceServiceId = none) :
    source.serviceId = mixin.id := by
  obtain ⟨hnamed, ⟨⟨mixin', hmixin'⟩, -⟩ | ⟨-, -, before, e, after, rfl, -, ⟨d, hd, hname⟩, -⟩⟩ :=
    h.own _ source hm hnone
  · rw [hmixin'] at hnamed ⊢
    rw [methodId_inj hnamed]
  · have hsource : '.' ∉ source.name.toList :=
      hname ▸ hes.plain e (List.mem_append_right _ List.mem_cons_self) d hd
    exact ((Text.dotted_inj hplain hsource).1 hnamed).1.symm

/-- If the declarations are unambiguous, every method is listed once under its own name. -/
theorem Composition.Accounted.kept (h : Accounted es t) (hes : Descriptor.Unambiguous es)
    {id : String} {m : Method} (hm : t.method? id = some m) : m.Kept t := by
  have hid := (h.indexed.methods id m hm).1
  cases hsource : m.sourceServiceId with
  | none =>
      obtain ⟨hnamed, ⟨-, -, hlisted⟩ | hgiven⟩ := h.own id m hm hsource
      · exact h.indexed.kept hm hlisted hnamed
      · exact h.indexed.kept hm (hid ▸ hgiven.lists hes.distinct) hnamed
  | some src =>
      obtain ⟨hlisted, mixin, name, source, -, hplain, hoffered, hnone, hiff⟩ :=
        h.copied id m src hm hsource
      exact h.indexed.kept hm hlisted (hiff.2 (h.offered hes hplain hoffered hnone))

/-! ### Builds -/

variable {format : SpecificationFormat} {source : String} {o : BuildOptions}

theorem ofDescriptors_eq_ok {i : Ingested} (h : Ingested.ofDescriptors source o = .ok i) :
    ∃ set a counted counts, DescriptorSet.ofText source = .ok set ∧
      set.ingest o.targets o.config = .ok (a, counted) ∧ i.ingestion = some counted ∧
        a.composeMixins set o.config = .ok (i.api, counts) := by
  unfold Ingested.ofDescriptors at h
  split at h
  · cases h
  next set hset =>
    split at h
    · cases h
    next a counted hingest =>
      split at h
      · cases h
      next a' counts hcompose =>
        cases h
        exact ⟨set, a, counted, counts, hset, hingest, rfl, hcompose⟩

/-- The table of a model that is built differs from what the specification gives in the marks of
enrichment alone. -/
theorem alike_of_build {api : Api} {report : BuildReport}
    (h : build format source o = .ok (api, report)) :
    ∃ i, Ingested.ofSource format source o = .ok i ∧ report.ingestion = i.ingestion ∧
      i.api.table.Alike api.table := by
  obtain ⟨i, hi, hfinal, rfl⟩ := build_eq_ok_iff.1 h
  obtain ⟨-, rfl⟩ := Api.finalize_eq_ok_iff.1 hfinal
  exact ⟨i, hi, rfl, (Enrichment.run_alike _ _ _).trans (SymbolTable.alike_freeze _)⟩

/-- A model that is built lists methods of its own.  Those of an OpenAPI document are all listed, each
once.  Of a descriptor set, every method that was counted is in the model, and is listed unless its
service is declared again. -/
theorem build_lists {api : Api} {report : BuildReport}
    (h : build format source o = .ok (api, report)) :
    api.table.Indexed ∧
      (format = .openApi → ∀ id m, api.table.method? id = some m → m.Kept api.table) ∧
        (format = .protobuf → ∃ set counted, DescriptorSet.ofText source = .ok set ∧
          report.ingestion = some counted ∧ api.table.HasMethods counted.methods ∧
            Accounted (set.declarations o.targets) api.table ∧
              (Descriptor.Unambiguous (set.declarations o.targets) →
                ∀ id m, api.table.method? id = some m → m.Kept api.table)) := by
  obtain ⟨i, hi, hreport, halike⟩ := alike_of_build h
  cases format with
  | openApi =>
      obtain ⟨d, hd⟩ := ofDocument_eq_ok hi
      obtain ⟨hindexed, hkept⟩ := OpenApi.ingest_listed hd
      refine ⟨hindexed.of_alike halike, fun _ id m' hm' => ?_, nofun⟩
      obtain ⟨m, hm, hnames⟩ := halike.exists_sameNames hm'
      exact (hkept id m hm).of_alike halike hnames
  | protobuf =>
      obtain ⟨set, a, counted, counts, hset, hingest, hcounted, hcompose⟩ := ofDescriptors_eq_ok hi
      have hpublishes := set.ingest_publishes hingest
      have hcomposed := Composition.composeMixins_composed
        (fun _ hid => hpublishes.mem_services hid) hcompose
      have haccounted := (hcomposed.accounted hpublishes).of_alike halike
      refine ⟨haccounted.indexed, nofun, fun _ => ?_⟩
      refine ⟨set, counted, hset, hreport.trans hcounted, ?_, haccounted, fun hes id m hm => ?_⟩
      · refine hpublishes.methods.mono fun id hid => ?_
        obtain ⟨m, hm⟩ := Catalog.contains_iff.1 hid
        rw [halike.contains_method]
        exact Catalog.contains_of_get? (hcomposed.methods id m hm)
      · exact haccounted.kept hes hm

def serviceText (service method : String) : String :=
  "\"service\":[\x7b\"name\":\"" ++ service ++ "\",\"method\":[\x7b\"name\":\"" ++ method ++
    "\",\"inputType\":\".M\",\"outputType\":\".M\"\x7d]\x7d]"

/-- The text of a descriptor set of two files, each with a service that has a method of its own. -/
def servicesText (first second : String) : String :=
  "\x7b\"file\":[" ++
    "\x7b\"name\":\"a.proto\",\"messageType\":[\x7b\"name\":\"M\"\x7d]," ++ serviceText first "A" ++
      "\x7d,\x7b\"name\":\"b.proto\"," ++ serviceText second "B" ++ "\x7d]\x7d"

theorem exists_build {α : Type} {see : Api × BuildReport → α} {seen : α}
    (h : (build format source o).toOption.map see = some seen) :
    ∃ api report, build format source o = .ok (api, report) ∧ see (api, report) = seen := by
  obtain ⟨⟨api, report⟩, hbuild, hsee⟩ := Option.map_eq_some_iff.1 h
  exact ⟨api, report, toOption_eq_some_iff.1 hbuild, hsee⟩

theorem build_lists_apart :
    ∃ api report, build .protobuf (servicesText "S" "T") default = .ok (api, report) ∧
      report.ingestion.map (·.methods) = some 2 ∧ api.table.HasMethods 2 ∧
        ∀ id m, api.table.method? id = some m → m.Kept api.table := by
  have hseen : (build .protobuf (servicesText "S" "T") default).toOption.map
      (fun built => built.2.ingestion.map (·.methods)) = some (some 2) ∧
        (DescriptorSet.ofText (servicesText "S" "T")).toOption.all
          (fun set => Descriptor.Unambiguous (set.declarations ⟨[], none⟩)) = true := by
    decide +kernel
  obtain ⟨hbuild, hes⟩ := hseen
  obtain ⟨api, report, h, hmethods⟩ := exists_build hbuild
  obtain ⟨set, counted, hset, hcounted, hthere, -, hkept⟩ := (build_lists h).2.2 rfl
  rw [hset] at hes
  have htwo : counted.methods = 2 := by
    rw [hcounted] at hmethods
    exact Option.some.inj hmethods
  exact ⟨api, report, h, hmethods, htwo ▸ hthere, hkept (of_decide_eq_true hes)⟩

/-- A service that is declared again takes the place of the first, whose method is listed no more. -/
theorem build_lists_again :
    ∃ api report, build .protobuf (servicesText "S" "S") default = .ok (api, report) ∧
      report.ingestion.map (·.methods) = some 2 ∧
        ∃ m, api.table.method? ".S.A" = some m ∧ ¬ m.Kept api.table := by
  have hseen : (build .protobuf (servicesText "S" "S") default).toOption.map
      (fun built => (built.2.ingestion.map (·.methods),
        (built.1.table.method? ".S.A").map (fun m => (m.id, m.serviceId)),
          (built.1.table.service? ".S").map (·.methods))) =
      some (some 2, some (".S.A", ".S"), some [".S.B"]) := by decide +kernel
  obtain ⟨api, report, h, hsee⟩ := exists_build hseen
  simp only [Prod.mk.injEq] at hsee
  obtain ⟨hmethods, hmethod, hservice⟩ := hsee
  obtain ⟨m, hm, hnames⟩ := Option.map_eq_some_iff.1 hmethod
  obtain ⟨s, hs, hlisted⟩ := Option.map_eq_some_iff.1 hservice
  simp only [Prod.mk.injEq] at hnames
  obtain ⟨hid, hserviceId⟩ := hnames
  refine ⟨api, report, h, hmethods, m, hm, fun hkept => ?_⟩
  obtain ⟨s', hs', hcount⟩ := hkept.listed
  rw [hserviceId, hs] at hs'
  cases hs'
  rw [hid, hlisted] at hcount
  exact absurd hcount (by decide)

end ServiceModel
