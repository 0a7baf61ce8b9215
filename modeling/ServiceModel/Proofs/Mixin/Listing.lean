import ServiceModel.Proofs.Mixin.Composition

/-!
Methods of a composed model and the lists of their services.  What was ingested is listed as it was
before, and what composition puts in is listed once.
-/

namespace ServiceModel.Composition

open Descriptor (Declaration GivenBy Publishes)

/-- A table in which every method is accounted for: it came with its service, or it is a copy. -/
structure Accounted (es : List Declaration) (t : SymbolTable) : Prop where
  indexed : t.Indexed
  /-- A method that is no copy came with the service of a mixin, which no declaration gives, or with
  one of the declarations.  In the latter case it is listed unless its service is declared again. -/
  own : ∀ id m, t.method? id = some m → m.sourceServiceId = none →
    id = m.serviceId ++ "." ++ m.name ∧
      ((∃ mixin : Mixin, m.serviceId = mixin.id) ∧ (∀ e ∈ es, e.id ≠ m.serviceId) ∧
          lists t m.serviceId id = true ∨
        GivenBy es t m)
  /-- A copy is listed under the name it was asked for.  That is its own name unless it was found in
  another service than that of the mixin. -/
  copied : ∀ id m src, t.method? id = some m → m.sourceServiceId = some src →
    lists t m.serviceId id = true ∧
      ∃ (mixin : Mixin) (name : String) (source : Method), src = mixin.id ∧
        '.' ∉ name.toList ∧ t.method? (mixin.methodId name) = some source ∧
          source.sourceServiceId = none ∧
            (id = m.serviceId ++ "." ++ m.name ↔ source.serviceId = mixin.id)

variable {config : Option ServiceConfig} {a a' : Api} {es : List Declaration} {n : Nat}

theorem Composed.indexed (h : Composed config a a') (ha : a.table.Indexed) : a'.table.Indexed := by
  refine ⟨fun id s' hs' => ?_, fun id m hm => ?_⟩
  · cases hs : a.table.service? id with
    | none => exact (h.newServices id s' hs' hs).2
    | some s =>
        obtain ⟨hnamed, hdistinct, hown⟩ := ha.services id s hs
        obtain ⟨added, hservice, -, hnames, hadds, hcopies⟩ := h.services id s hs
        rw [hservice] at hs'
        cases hs'
        refine ⟨hnamed, List.nodup_append.2 ⟨hdistinct, ?_, ?_⟩, ?_⟩
        · refine List.pairwise_map.2 ((List.pairwise_map.1 hnames).imp fun hne heq => ?_)
          exact hne (Text.dotted_right_inj.1 heq)
        · rintro x hx y hy rfl
          obtain ⟨e, he, rfl⟩ := List.mem_map.1 hy
          exact ((hadds e.1 e.2).1 he).2.2.1 hx
        · rw [List.forall_mem_append, List.forall_mem_map]
          refine ⟨fun n hn => ?_, fun e he => ?_⟩
          · obtain ⟨m, hm, hserviceId⟩ := hown n hn
            exact ⟨m, h.methods n m hm, hserviceId⟩
          · obtain ⟨m, hm, hcopy⟩ := hcopies e he
            exact ⟨m, hm, hcopy.named.2.1⟩
  · cases hold : a.table.method? id with
    | none =>
        obtain ⟨hnamed, hlisted, -⟩ := h.newMethods id m hm hold
        obtain ⟨s, hs, -⟩ := lists_iff.1 hlisted
        exact ⟨hnamed, Catalog.contains_of_get? hs⟩
    | some n =>
        rw [h.methods id n hold] at hm
        cases hm
        obtain ⟨hnamed, hthere⟩ := ha.methods id m hold
        obtain ⟨s, hs⟩ := Catalog.contains_iff.1 hthere
        obtain ⟨added, hservice, -⟩ := h.services _ s hs
        exact ⟨hnamed, Catalog.contains_of_get? hservice⟩

/-- A method that was there is listed exactly if it was listed before. -/
theorem Composed.lists_iff_of_old (h : Composed config a a') {id : String} {m : Method}
    (hm : a.table.method? id = some m) (hsource : m.sourceServiceId = none)
    (hthere : a.table.services.contains m.serviceId = true) :
    lists a'.table m.serviceId id = true ↔ lists a.table m.serviceId id = true := by
  obtain ⟨s, hs⟩ := Catalog.contains_iff.1 hthere
  obtain ⟨added, hservice, -, -, -, hcopies⟩ := h.services _ s hs
  rw [lists_of_service? hservice, lists_of_service? hs, List.mem_append]
  refine or_iff_left fun hmem => ?_
  obtain ⟨e, he, rfl⟩ := List.mem_map.1 hmem
  obtain ⟨n, hn, hcopy⟩ := hcopies e he
  rw [h.methods _ m hm] at hn
  cases hn
  rw [hcopy.named.2.2] at hsource
  cases hsource

/-- A method that a mixin offers is no copy, as copies stand under the IDs of other services. -/
theorem Composed.source_eq_none (h : Composed config a a') (ha : Publishes es a n) {mixin : Mixin}
    {name : String} {source : Method} (hplain : '.' ∉ name.toList)
    (hsource : a'.table.method? (mixin.methodId name) = some source) :
    source.sourceServiceId = none := by
  cases hold : a.table.method? (mixin.methodId name) with
  | some n =>
      rw [h.methods _ n hold] at hsource
      cases hsource
      exact (ha.serves.methods _ source hold).source
  | none =>
      obtain ⟨hnamed, -, ⟨m, name', hid, henables, hcopy⟩ | ⟨-, -, -, -, -, -, hnone⟩⟩ :=
        h.newMethods _ source hsource hold
      · have heq := hcopy.named.1.symm.trans hnamed
        obtain ⟨hservice, -⟩ := (Text.dotted_inj henables.plain hplain).1 heq
        have hown := (ha.mem_services hid).1
        rw [hservice, isMixinApi_id] at hown
        cases hown
      · exact hnone

/-- A method that is no copy is named for its service, and so is what it is accounted for by. -/
theorem Composed.own (h : Composed config a a') (ha : Publishes es a n) {id : String} {m : Method}
    (hm : a'.table.method? id = some m) (hsource : m.sourceServiceId = none) :
    id = m.serviceId ++ "." ++ m.name ∧
      ((∃ mixin : Mixin, m.serviceId = mixin.id) ∧ (∀ e ∈ es, e.id ≠ m.serviceId) ∧
          lists a'.table m.serviceId id = true ∨
        GivenBy es a'.table m) := by
  cases hold : a.table.method? id with
  | some n =>
      rw [h.methods id n hold] at hm
      cases hm
      obtain ⟨hid, hthere⟩ := ha.serves.indexed.methods id m hold
      obtain ⟨hnamed, -, before, e, after, hes, he, hd, hlists⟩ := ha.serves.methods id m hold
      refine ⟨hid.symm.trans hnamed, Or.inr ⟨hnamed, hsource, before, e, after, hes, he, hd, ?_⟩⟩
      rw [hid] at hlists ⊢
      exact (h.lists_iff_of_old hold hsource hthere).trans hlists
  | none =>
      obtain ⟨-, hlisted, ⟨mixin, name, -, -, hcopy⟩ | ⟨mixin, name, -, hfree, hserviceId, hid, -⟩⟩ :=
        h.newMethods id m hm hold
      · rw [hcopy.named.2.2] at hsource
        cases hsource
      · have hnamed : id = m.serviceId ++ "." ++ m.name := by rw [hid, hserviceId, Mixin.methodId]
        refine ⟨hnamed, Or.inl ⟨⟨mixin, hserviceId⟩, fun e he heq => ?_, hlisted⟩⟩
        obtain ⟨s, hs⟩ := Catalog.contains_iff.1 (ha.serves.services e he)
        rw [heq, hserviceId] at hs
        cases hfree.symm.trans hs

/-- A copy is listed under the name it was asked for, and was found under that name in a mixin. -/
theorem Composed.copied (h : Composed config a a') (ha : Publishes es a n) {id src : String}
    {m : Method} (hm : a'.table.method? id = some m) (hsource : m.sourceServiceId = some src) :
    lists a'.table m.serviceId id = true ∧
      ∃ (mixin : Mixin) (name : String) (source : Method), src = mixin.id ∧
        '.' ∉ name.toList ∧ a'.table.method? (mixin.methodId name) = some source ∧
          source.sourceServiceId = none ∧
            (id = m.serviceId ++ "." ++ m.name ↔ source.serviceId = mixin.id) := by
  cases hold : a.table.method? id with
  | some n =>
      rw [h.methods id n hold] at hm
      cases hm
      rw [(ha.serves.methods id m hold).source] at hsource
      cases hsource
  | none =>
      obtain ⟨hid, hlisted, ⟨mixin, name, -, henables, hcopy⟩ | ⟨-, -, -, -, -, -, hnone⟩⟩ :=
        h.newMethods id m hm hold
      · obtain ⟨hnamed, -, hsrc⟩ := hcopy.named
        obtain ⟨source, hoffered, hrecord, -⟩ := hcopy
        have hplain := h.source_eq_none ha henables.plain hoffered
        have hname : m.name = source.name := by rw [hrecord]
        refine ⟨hlisted, mixin, name, source, Option.some.inj (hsource.symm.trans hsrc),
          henables.plain, hoffered, hplain, ?_⟩
        rw [← hid, hnamed, Text.dotted_right_inj, hname]
        -- The source is named for its own service, so the two names agree if the services do.
        have hown : mixin.id ++ "." ++ name = source.serviceId ++ "." ++ source.name :=
          (h.own ha hoffered hplain).1
        constructor
        · intro heq
          rw [heq] at hown
          exact (Text.dotted_left_inj.1 hown).symm
        · intro heq
          rw [heq] at hown
          exact Text.dotted_right_inj.1 hown
      · rw [hnone] at hsource
        cases hsource

theorem Composed.accounted (h : Composed config a a') (ha : Publishes es a n) :
    Accounted es a'.table :=
  ⟨h.indexed ha.serves.indexed, fun _ _ hm => h.own ha hm, fun _ _ _ hm => h.copied ha hm⟩

end ServiceModel.Composition
