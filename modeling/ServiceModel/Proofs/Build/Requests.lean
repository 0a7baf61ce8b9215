import ServiceModel.Proofs.Build.Listing
import ServiceModel.Proofs.Descriptor.Accounting
import ServiceModel.Proofs.Resolution.Report

/-!
Requests and responses of methods.  A method is built only if its request is there, and no later pass takes
a request away, so the check at the end never misses one.  Of its response nothing is asked before that
check: a method with a response that is nowhere is kept, and the whole model fails for it.
-/

namespace ServiceModel

open Descriptor (DescriptorSet Declaration Targets IngestionCounts memberId typeIdOf)

variable {t t' : SymbolTable}

/-- Every method of the table has its request there. -/
def SymbolTable.Requested (t : SymbolTable) : Prop :=
  ∀ id m, t.method? id = some m → t.messages.contains m.inputTypeId = true

/-! ### Composition -/

namespace Composition

variable {set : DescriptorSet} {config : Option ServiceConfig} {a a' : Api}

theorem Moves.requested {action : Action} (h : Moves set config t action t') (ht : t.Requested) :
    t'.Requested := by
  intro id m hm
  cases h with
  | load hmissing hfile hs hgains =>
      rw [hgains.messages]
      rcases hgains.gained id m hm with ⟨-, hold⟩ | ⟨-, -, -, hdeclares⟩
      · exact ht id m hold
      · obtain ⟨d, -, -, -, -, -, -, request, hrequest, -⟩ := hdeclares.exists_descriptor
        exact Catalog.contains_of_get? hrequest
  | add hlists hcopies hgains =>
      rw [hgains.messages]
      rw [hgains.method] at hm
      split at hm
      · -- A copy has the request of the mixin's method.
        cases hm
        obtain ⟨source, hsource, heq, -⟩ := hcopies
        rw [heq]
        exact ht _ source hsource
      · exact ht id m hm

theorem run_requested {actions : List Action} {counts counts' : CompositionCounts}
    (h : run set config actions a counts = .ok (a', counts')) (ha : a.table.Requested) :
    a'.table.Requested := by
  induction actions generalizing a counts with
  | nil =>
      cases h
      exact ha
  | cons action actions ih =>
      rw [run] at h
      split at h
      · cases h
      next b counts₁ hstep =>
        rcases step_cases hstep with ⟨-, rfl, -, -⟩ | ⟨hmoves, -, -⟩
        · exact ih h ha
        · exact ih h (hmoves.requested ha)

end Composition

/-! ### The check -/

theorem SymbolTable.Requested.of_alike (h : t.Requested) (ht : t.Alike t') : t'.Requested := by
  intro id m' hm'
  obtain ⟨m, hm, hskeleton⟩ := ht.exists_method hm'
  have hinput : m'.inputTypeId = m.inputTypeId := (Method.eq_of_skeleton hskeleton.symm).2
  rw [hinput, ht.contains_message]
  exact h id m hm

/-- Where every method has its request, none is reported to miss it. -/
theorem Api.not_danglesAt_input {a : Api} (h : a.table.Requested) (id : String) (n : Mention) :
    ¬ a.DanglesAt (.input id) n := by
  rintro ⟨hmentions, hmissing⟩
  cases hmentions with
  | message hm hn => cases hn
  | service he hn => cases hn
  | lists hlists => cases hlists
  | @method id' m _ _ hm hn =>
      cases hn
      exact hmissing (Catalog.contains_iff.1 (h _ m hm))

/-- A model in which something dangles is refused with a report. -/
theorem Api.reports_of_danglesAt {a : Api} {s : Spot} {n : Mention} (h : a.DanglesAt s n) :
    ∃ e, a.Reports e ∧ a.finalize = .error e := by
  rcases a.finalizing_settles with ⟨hclosed, -⟩ | ⟨-, e, hreports, -, hfinalize, -⟩
  · have hnone := checkMentions_eq_ok_iff.2 hclosed
    rw [checkMentions, ModelError.collect_eq_ok_iff, List.map_eq_nil_iff] at hnone
    obtain ⟨pairs, -, hmem, hpairs⟩ := a.enumerates_dangling
    rw [hnone, List.map_eq_nil_iff] at hpairs
    have hin := (hmem s n).2 h
    rw [hpairs] at hin
    cases hin
  · exact ⟨e, hreports, hfinalize⟩

/-! ### Descriptor sets -/

namespace Descriptor

variable {u : SymbolTable} {s : DescriptorSet} {o : Targets} {a : Api} {counts : IngestionCounts}

/-- The response of a method is taken as it is written, whether or not it is there. -/
theorem method?_outputTypeId {package serviceId : String} {d : MethodDescriptor} {m : Method}
    (h : method? t package serviceId d = some m) : m.outputTypeId = typeIdOf d.outputType := by
  unfold method? at h
  simp only [Option.bind_eq_bind, Option.bind_eq_some_iff] at h
  obtain ⟨request, -, http, -, routing, -, operation, -, h⟩ := h
  cases h
  rfl

/-- A usable method is in the table, with its response as it is written. -/
theorem Ingests.exists_method (h : Ingests s o u a counts) {e : Declaration}
    (he : e ∈ s.declarations o) {d : MethodDescriptor} (hd : d ∈ e.service.methods)
    (husable : d.Usable a.table) :
    ∃ m, a.table.method? (memberId e.id d.name) = some m ∧
      m.outputTypeId = typeIdOf d.outputType := by
  obtain ⟨v, k, hdeclares⟩ := h.exists_declaresAt he
  obtain ⟨i, hi⟩ := List.mem_iff_getElem?.1 hd
  have hbuildable := (h.usable_iff hdeclares d).2 husable
  obtain ⟨built, hbuilt⟩ := exists_method_iff.2 hbuildable
  have hgiven : s.Gives o _ :=
    ⟨v, e.file, k, e.service, i, d, built, hdeclares, hi, hbuilt, rfl⟩
  have hid : built.id = memberId e.id d.name := (method?_eq_some hbuilt).2.1
  have htype : built.outputTypeId = typeIdOf d.outputType := method?_outputTypeId hbuilt
  refine ⟨_, h.method?_eq_some_iff.2 ⟨?_, hgiven⟩, ?_⟩
  · exact hid
  · exact htype

theorem Ingests.requested (h : Ingests s o u a counts) : a.table.Requested := by
  intro id m hm
  obtain ⟨-, v, f, k, e, i, d, built, hdeclares, -, hbuilt, rfl⟩ := h.method?_eq_some_iff.1 hm
  have hbuildable : d.Buildable v := exists_method_iff.1 ⟨built, hbuilt⟩
  have hrequest := ((h.usable_iff hdeclares d).1 hbuildable).request
  rwa [← (method?_eq_some hbuilt).2.2.2.1] at hrequest

/-- What becomes of the requests and responses that the methods of a set mention. -/
structure Sorts (s : DescriptorSet) (o : Targets) (a : Api) (counts : IngestionCounts) : Prop where
  /-- Every method that is left has its request. -/
  requested : a.table.Requested
  /-- The methods that were dropped are counted. -/
  dropped : counts.droppedMethods = (s.methods o).countP fun d => !d.Usable a.table
  /-- A method without its request is dropped. -/
  missing : ∀ d : MethodDescriptor,
    a.table.messages.contains (typeIdOf d.inputType) = false → ¬ d.Usable a.table
  /-- No service lists a method that was dropped. -/
  listed : ∀ id service, a.table.service? id = some service → ∀ n ∈ service.methods,
    ∃ e ∈ s.declarations o, ∃ d ∈ e.service.methods, d.Usable a.table ∧ memberId e.id d.name = n
  /-- A method is kept whether or not its response is there. -/
  kept : ∀ e ∈ s.declarations o, ∀ d ∈ e.service.methods, d.Usable a.table →
    ∃ m, a.table.method? (memberId e.id d.name) = some m ∧ m.outputTypeId = typeIdOf d.outputType

theorem DescriptorSet.ingest_sorts {config : Option ServiceConfig}
    (h : s.ingest o config = .ok (a, counts)) : Sorts s o a counts := by
  obtain ⟨u, hu⟩ := ingest_ingests h
  refine ⟨hu.requested, hu.dropped, fun d hmissing husable => ?_, fun id service hservice n hn => ?_,
    fun e he d hd => hu.exists_method he hd⟩
  · rw [husable.request] at hmissing
    cases hmissing
  · obtain ⟨m, hm, -⟩ := ((ingest_publishes h).serves.indexed.services id service hservice).own n hn
    exact hu.contains_methods_iff.1 (Catalog.contains_of_get? hm)

end Descriptor

/-! ### Builds -/

/-- A method that stands in a table before enrichment mentions the same response behind it. -/
theorem Api.danglesAt_output {a : Api} {id typeId : String} {m : Method} (ht : t.Alike a.table)
    (hm : t.method? id = some m) (hid : m.id = id) (htype : m.outputTypeId = typeId)
    (hmissing : t.messages.contains typeId = false) :
    a.DanglesAt (.output id) ⟨id, .message, typeId⟩ := by
  obtain ⟨m', hm', hskeleton⟩ := ht.symm.exists_method hm
  simp only [Method.skeleton, Method.mk.injEq] at hskeleton
  have hid' : m'.id = id := hskeleton.2.1.trans hid
  have htype' : m'.outputTypeId = typeId := by
    rw [← htype]
    exact hskeleton.2.2.2.2.2.1
  constructor
  · have hmentions := @Method.MentionsAt.output id m'
    rw [hid', htype'] at hmentions
    exact .method hm' hmentions
  · rintro ⟨n, hn⟩
    have hthere := Catalog.contains_of_get? hn
    rw [ht.contains_message, hmissing] at hthere
    cases hthere

/-- Of the methods that a set declares, those without a request are dropped and never make a build fail.
Those without a response are kept, and every build that gets as far as the check fails for them. -/
theorem ingest_unanswered {set : DescriptorSet} {o : Targets} {config : Option ServiceConfig} {a : Api}
    {counts : IngestionCounts} (h : set.ingest o config = .ok (a, counts)) :
    Descriptor.Sorts set o a counts ∧
      ∀ source package i, DescriptorSet.ofText source = .ok set →
        Ingested.ofDescriptors source ⟨o, package, config⟩ = .ok i →
          (∀ id n, ¬ (i.api.enrich config).2.DanglesAt (.input id) n) ∧
          ∀ e ∈ set.declarations o, ∀ d ∈ e.service.methods, d.Usable a.table →
            a.table.messages.contains (typeIdOf d.outputType) = false →
              (i.api.enrich config).2.DanglesAt (.output (memberId e.id d.name))
                  ⟨memberId e.id d.name, .message, typeIdOf d.outputType⟩ ∧
                ∃ stop, (i.api.enrich config).2.Reports stop ∧
                  build .protobuf source ⟨o, package, config⟩ =
                    .error ⟨[.validating], .model stop⟩ := by
  have hsorts := DescriptorSet.ingest_sorts h
  refine ⟨hsorts, fun source package i hset hi => ?_⟩
  obtain ⟨set', a', counted, counts', hset', hingest, -, hcompose⟩ := ofDescriptors_eq_ok hi
  cases hset.symm.trans hset'
  cases h.symm.trans hingest
  have hpublishes := set.ingest_publishes h
  have hcomposed := Composition.composeMixins_composed
    (fun _ hid => hpublishes.mem_services hid) hcompose
  have halike : i.api.table.Alike (i.api.enrich config).2.table := Enrichment.run_alike _ _ _
  constructor
  · exact Api.not_danglesAt_input
      ((Composition.run_requested hcompose hsorts.requested).of_alike halike)
  · intro e he d hd husable hmissing
    obtain ⟨m, hm, htype⟩ := hsorts.kept e he d hd husable
    have hid : m.id = memberId e.id d.name := (hpublishes.serves.indexed.methods _ m hm).1
    have hdangles := Api.danglesAt_output halike (hcomposed.methods _ m hm) hid htype
      (by rw [hcomposed.messages]; exact hmissing)
    obtain ⟨stop, hreports, hstop⟩ := Api.reports_of_danglesAt hdangles
    exact ⟨hdangles, stop, hreports, build_eq_error_iff.2 (Or.inr ⟨i, stop, hi, hstop, rfl⟩)⟩

/-- The text of a set with a service of two methods: the first has no response, the second no request. -/
def askText : String :=
  "\x7b\"file\":[\x7b\"messageType\":[\x7b\"name\":\"M\"\x7d],\"service\":[\x7b\"name\":\"S\"," ++
    "\"method\":[\x7b\"name\":\"Ask\",\"inputType\":\".M\",\"outputType\":\".Missing\"\x7d," ++
      "\x7b\"name\":\"Lose\",\"inputType\":\".Missing\",\"outputType\":\".M\"\x7d]\x7d]\x7d]\x7d"

/-- Whether some target method of a set is usable but has no response in a model. -/
def unanswered (set : DescriptorSet) (o : Targets) (a : Api) : Bool :=
  (set.declarations o).any fun e => e.service.methods.any fun d =>
    d.Usable a.table && !a.table.messages.contains (typeIdOf d.outputType)

/-- What ingestion and a build make of the set. -/
theorem ask_seen :
    ((DescriptorSet.ofText askText).toOption.map fun set =>
      (set.ingest ⟨[], none⟩ none).toOption.map fun r =>
        (((set.methods ⟨[], none⟩).countP fun d =>
            !r.1.table.messages.contains (typeIdOf d.inputType) ||
              !r.1.table.messages.contains (typeIdOf d.outputType)),
          (r.2.droppedMethods, unanswered set ⟨[], none⟩ r.1),
          (r.1.table.method? ".S.Ask").map fun m => r.1.table.messages.contains m.outputTypeId,
          Composition.lists r.1.table ".S" ".S.Ask")) =
      some (some (2, (1, true), some false, true)) ∧
      (Ingested.ofDescriptors askText ⟨⟨[], none⟩, none, none⟩).toOption.isSome = true ∧
        (match build .protobuf askText default with
          | .ok _ => ""
          | .error e => e.message) = "model failed cross-reference validation: " ++
            "\x60.S.Ask\x60 references unknown message \x60.Missing\x60" := by
  decide +kernel

theorem ingest_unanswered_ask :
    ∃ set a counts, DescriptorSet.ofText askText = .ok set ∧
      set.ingest ⟨[], none⟩ none = .ok (a, counts) ∧ Descriptor.Sorts set ⟨[], none⟩ a counts ∧
        counts.droppedMethods = 1 ∧
          ∃ stop, build .protobuf askText ⟨⟨[], none⟩, none, none⟩ =
            .error ⟨[.validating], .model stop⟩ := by
  obtain ⟨hseen, hmixed, -⟩ := ask_seen
  obtain ⟨set, hset, hseen⟩ := Option.map_eq_some_iff.1 hseen
  obtain ⟨⟨a, counts⟩, hr, hseen⟩ := Option.map_eq_some_iff.1 hseen
  obtain ⟨i, hi⟩ := Option.isSome_iff_exists.1 hmixed
  rw [toOption_eq_some_iff] at hset hr hi
  simp only [Prod.mk.injEq] at hseen
  obtain ⟨-, ⟨hdropped, hunanswered⟩, -⟩ := hseen
  obtain ⟨e, he, hunanswered⟩ := List.any_eq_true.1 hunanswered
  obtain ⟨d, hd, hunanswered⟩ := List.any_eq_true.1 hunanswered
  simp only [Bool.and_eq_true, decide_eq_true_eq, Bool.not_eq_true'] at hunanswered
  obtain ⟨hsorts, hbuilds⟩ := ingest_unanswered hr
  obtain ⟨-, stop, -, hstop⟩ :=
    (hbuilds askText none i hset hi).2 e he d hd hunanswered.1 hunanswered.2
  exact ⟨set, a, counts, hset, hr, hsorts, hdropped, stop, hstop⟩

/-- Of two methods, one without a response and one without a request, only the latter is dropped.  The
other is listed, and the build fails for it. -/
theorem build_keeps_unanswered :
    (∃ set a counts, DescriptorSet.ofText askText = .ok set ∧
      set.ingest ⟨[], none⟩ none = .ok (a, counts) ∧
        ((set.methods ⟨[], none⟩).countP fun d =>
          !a.table.messages.contains (typeIdOf d.inputType) ||
            !a.table.messages.contains (typeIdOf d.outputType)) = 2 ∧
        counts.droppedMethods = 1 ∧
        (∃ m, a.table.method? ".S.Ask" = some m ∧
          a.table.messages.contains m.outputTypeId = false) ∧
            Composition.lists a.table ".S" ".S.Ask" = true) ∧
      ∃ e, build .protobuf askText default = .error e ∧
        e.message = "model failed cross-reference validation: " ++
          "\x60.S.Ask\x60 references unknown message \x60.Missing\x60" := by
  obtain ⟨hseen, -, hbuild⟩ := ask_seen
  constructor
  · obtain ⟨set, hset, hseen⟩ := Option.map_eq_some_iff.1 hseen
    obtain ⟨⟨a, counts⟩, hr, hseen⟩ := Option.map_eq_some_iff.1 hseen
    rw [toOption_eq_some_iff] at hset hr
    simp only [Prod.mk.injEq] at hseen
    obtain ⟨hdangling, ⟨hdropped, -⟩, hmethod, hlisted⟩ := hseen
    exact ⟨set, a, counts, hset, hr, hdangling, hdropped, Option.map_eq_some_iff.1 hmethod, hlisted⟩
  · cases h : build .protobuf askText default with
    | ok r =>
        rw [h] at hbuild
        change "" = _ at hbuild
        exact absurd hbuild (by decide)
    | error e =>
        rw [h] at hbuild
        exact ⟨e, rfl, hbuild⟩

end ServiceModel
