import Mathlib.Algebra.GroupWithZero.Nat
import Mathlib.Data.List.Forall2
import ServiceModel.Proofs.Enrichment.Conventions

/-!
What becomes of a table in enrichment, told for each of its entities.  It depends on the methods that
are visited as a set, and on the table at the start: no condition reads a mark, so what two lists of
methods do one after the other, the whole list does at once.
-/

namespace ServiceModel

variable {t t' t'' : SymbolTable} {config : Option ServiceConfig} {ids ids' : List String}
  {id : String}

/-! ### What is made of each entity -/

/-- The message is the response of one of the methods that list something. -/
def Message.Returned (t : SymbolTable) (ids : List String) (id : String) : Prop :=
  ∃ n ∈ ids, ∃ m token, t.method? n = some m ∧ m.outputTypeId = id ∧ m.Lists t token

/-- Clients fill in the field of the request for one of the methods. -/
def Field.FilledIn (t : SymbolTable) (config : Option ServiceConfig) (ids : List String)
    (id : String) (f : Field) : Prop :=
  ∃ n ∈ ids, ∃ m, t.method? n = some m ∧ m.inputTypeId = id ∧ f.FilledFor config n

/-- What becomes of a field of the message with an ID: only its mark changes. -/
structure Field.Enriched (t : SymbolTable) (config : Option ServiceConfig) (ids : List String)
    (id : String) (f f' : Field) : Prop where
  frame : f' = { f with autoPopulated := f'.autoPopulated }
  marked : f'.autoPopulated = true ↔ f.autoPopulated = true ∨ f.FilledIn t config ids id

structure Message.Enriched (t : SymbolTable) (config : Option ServiceConfig) (ids : List String)
    (id : String) (m m' : Message) : Prop where
  frame : m' = { m with fields := m'.fields, pagination := m'.pagination }
  paged : Returned t ids id → ∃ page, m.PagedBy page ∧ m'.pagination = some page
  unpaged : ¬ Returned t ids id → m'.pagination = m.pagination
  fields : List.Forall₂ (Field.Enriched t config ids id) m.fields m'.fields

inductive Method.Enriched (t : SymbolTable) (config : Option ServiceConfig) (ids : List String)
    (id : String) (m : Method) : Method → Prop
  | outside (hid : id ∉ ids) : Enriched t config ids id m m
  | listing {token : String} {names : List String} (hid : id ∈ ids) (hlists : m.Lists t token)
      (hfills : m.Fills t config id names) :
      Enriched t config ids id m { m with pagination := some token, autoPopulated := names }
  | other {names : List String} (hid : id ∈ ids) (hlists : ∀ token, ¬ m.Lists t token)
      (hfills : m.Fills t config id names) :
      Enriched t config ids id m { m with autoPopulated := names }

/-- What becomes of a table when some methods are visited. -/
structure SymbolTable.Enriched (t : SymbolTable) (config : Option ServiceConfig)
    (ids : List String) (t' : SymbolTable) : Prop where
  messages : ∀ id, Option.Rel (Message.Enriched t config ids id) (t.message? id) (t'.message? id)
  methods : ∀ id, Option.Rel (Method.Enriched t config ids id) (t.method? id) (t'.method? id)
  enums : t'.enums = t.enums
  services : t'.services = t.services
  frozen : t'.frozen = t.frozen

/-- What is counted for the method with an ID. -/
inductive EnrichmentCounts.Tells (t : SymbolTable) (config : Option ServiceConfig) (id : String) :
    EnrichmentCounts → Prop
  | absent (hm : t.method? id = none) : Tells t config id ⟨0, 0, 0⟩
  | present {m : Method} {pageable longRunning : Nat} {names : List String}
      (hm : t.method? id = some m)
      (hlists : pageable = 1 ∧ (∃ token, m.Lists t token) ∨
        pageable = 0 ∧ ∀ token, ¬ m.Lists t token)
      (hfills : m.Fills t config id names)
      (hruns : longRunning = 1 ∧ m.Runs t ∨ longRunning = 0 ∧ ¬ m.Runs t) :
      Tells t config id ⟨pageable, names.length, longRunning⟩

def EnrichmentCounts.Total (t : SymbolTable) (config : Option ServiceConfig) (ids : List String)
    (total : EnrichmentCounts) : Prop :=
  ∃ each, List.Forall₂ (Tells t config) ids each ∧
    total = ⟨(each.map pageable).sum, (each.map autoPopulated).sum, (each.map longRunning).sum⟩

/-! ### No condition reads a mark -/

namespace Enrichment

theorem pageFields?_skeleton (m : Message) : pageFields? m.skeleton = pageFields? m := by
  have hnext : m.skeleton.fields.find? isNextPageToken =
      (m.fields.find? isNextPageToken).map fun f => { f with autoPopulated := false } :=
    List.find?_map
  have hitem : m.skeleton.fields.find? isItemList =
      (m.fields.find? isItemList).map fun f => { f with autoPopulated := false } :=
    List.find?_map
  unfold pageFields?
  rw [hnext, hitem]
  cases m.fields.find? isNextPageToken <;> cases m.fields.find? isItemList <;> rfl

theorem requestToken?_skeleton (m : Message) : requestToken? m.skeleton = requestToken? m := by
  unfold requestToken? Message.skeleton
  rw [List.any_map, List.find?_map, Option.map_map]
  rfl

theorem lists_iff_map {m : Method} {token : String} :
    m.Lists t token ↔ (t.message? m.inputTypeId).map requestToken? = some (some token) ∧
      ∃ page, (t.message? m.outputTypeId).map pageFields? = some (some page) := by
  simp only [Option.map_eq_some_iff, requestToken?_eq_some_iff, pageFields?_eq_some_iff]
  constructor
  · rintro ⟨request, response, page, hrequest, hresponse, htoken, hpage⟩
    exact ⟨⟨request, hrequest, htoken⟩, page, response, hresponse, hpage⟩
  · rintro ⟨⟨request, hrequest, htoken⟩, page, response, hresponse, hpage⟩
    exact ⟨request, response, page, hrequest, hresponse, htoken, hpage⟩

theorem populatedFields_skeleton (allowed : List String) (m : Message) :
    populatedFields allowed m.skeleton = populatedFields allowed m := by
  unfold populatedFields Message.skeleton
  rw [List.filter_map, List.map_map]
  rfl

end Enrichment

/-- What a message is paged by is told by its skeleton. -/
theorem Message.pagedBy_congr {m m' : Message} (h : m'.skeleton = m.skeleton) {page : PageFields} :
    m'.PagedBy page ↔ m.PagedBy page := by
  rw [← Enrichment.pageFields?_eq_some_iff, ← Enrichment.pageFields?_skeleton, h,
    Enrichment.pageFields?_skeleton, Enrichment.pageFields?_eq_some_iff]

theorem Method.types_of_skeleton {m m' : Method} (h : m'.skeleton = m.skeleton) :
    m'.inputTypeId = m.inputTypeId ∧ m'.outputTypeId = m.outputTypeId ∧
      m'.operation = m.operation := by
  have hinput : m'.skeleton.inputTypeId = m.skeleton.inputTypeId := by rw [h]
  have houtput : m'.skeleton.outputTypeId = m.skeleton.outputTypeId := by rw [h]
  have hoperation : m'.skeleton.operation = m.skeleton.operation := by rw [h]
  exact ⟨hinput, houtput, hoperation⟩

namespace SymbolTable.Alike

theorem map_message? {β : Type} {g : Message → β} (hg : ∀ m, g m.skeleton = g m)
    (h : t.Alike t') (id : String) : (t'.message? id).map g = (t.message? id).map g := by
  have hskeleton := congrArg (Option.map g) (h.messages id)
  rw [Option.map_map, Option.map_map] at hskeleton
  have hcomp : g ∘ Message.skeleton = g := funext hg
  rwa [hcomp] at hskeleton

/-- What holds of a method and of every other one with its skeleton. -/
theorem exists_method_iff (h : t.Alike t') (id : String) {P P' : Method → Prop}
    (hP : ∀ m m', m'.skeleton = m.skeleton → (P' m' ↔ P m)) :
    (∃ m, t'.method? id = some m ∧ P' m) ↔ ∃ m, t.method? id = some m ∧ P m := by
  constructor
  · rintro ⟨m', hm', hP'⟩
    obtain ⟨m, hm, hskeleton⟩ := h.exists_method hm'
    exact ⟨m, hm, (hP m m' hskeleton.symm).1 hP'⟩
  · rintro ⟨m, hm, hPm⟩
    obtain ⟨m', hm', hskeleton⟩ := h.symm.exists_method hm
    exact ⟨m', hm', (hP m m' hskeleton).2 hPm⟩

theorem lists_iff (h : t.Alike t') {m m' : Method} (hm : m'.skeleton = m.skeleton)
    {token : String} : m'.Lists t' token ↔ m.Lists t token := by
  obtain ⟨hinput, houtput, -⟩ := Method.types_of_skeleton hm
  rw [Enrichment.lists_iff_map, Enrichment.lists_iff_map, hinput, houtput,
    h.map_message? Enrichment.requestToken?_skeleton,
    h.map_message? Enrichment.pageFields?_skeleton]

theorem fills_iff (h : t.Alike t') {m m' : Method} (hm : m'.skeleton = m.skeleton)
    {names : List String} : m'.Fills t' config id names ↔ m.Fills t config id names := by
  obtain ⟨hinput, -, -⟩ := Method.types_of_skeleton hm
  rw [Enrichment.fills_iff, Enrichment.fills_iff, hinput,
    h.map_message? (Enrichment.populatedFields_skeleton _)]

theorem returned_iff (h : t.Alike t') : Message.Returned t' ids id ↔ Message.Returned t ids id := by
  have hmethod : ∀ m m' : Method, m'.skeleton = m.skeleton →
      ((∃ token, m'.outputTypeId = id ∧ m'.Lists t' token) ↔
        ∃ token, m.outputTypeId = id ∧ m.Lists t token) := by
    intro m m' hskeleton
    simp only [(Method.types_of_skeleton hskeleton).2.1, h.lists_iff hskeleton]
  have hexists := fun n => h.exists_method_iff n hmethod
  simp only [Message.Returned, exists_and_left] at hexists ⊢
  simp only [hexists]

theorem filledIn_iff (h : t.Alike t') {f f' : Field}
    (hf : f' = { f with autoPopulated := f'.autoPopulated }) :
    f'.FilledIn t' config ids id ↔ f.FilledIn t config ids id := by
  have hfilled : ∀ n, f'.FilledFor config n ↔ f.FilledFor config n := by
    intro n
    rw [← Enrichment.filledFor_iff, ← Enrichment.filledFor_iff, hf]
    rfl
  have hmethod : ∀ n, ∀ m m' : Method, m'.skeleton = m.skeleton →
      (m'.inputTypeId = id ∧ f'.FilledFor config n ↔
        m.inputTypeId = id ∧ f.FilledFor config n) := by
    intro n m m' hskeleton
    rw [(Method.types_of_skeleton hskeleton).1, hfilled]
  have hexists := fun n => h.exists_method_iff n (hmethod n)
  simp only [Field.FilledIn, hexists]

end SymbolTable.Alike

/-! ### One list of methods after another -/

theorem Field.Enriched.trans {f f' f'' : Field} (halike : t.Alike t')
    (h : f.Enriched t config ids id f') (h' : f'.Enriched t' config ids' id f'') :
    f.Enriched t config (ids ++ ids') id f'' := by
  constructor
  · rw [h'.frame, h.frame]
  · have happend : f.FilledIn t config (ids ++ ids') id ↔
        f.FilledIn t config ids id ∨ f.FilledIn t config ids' id := by
      simp only [FilledIn, List.mem_append, or_and_right, exists_or]
    rw [h'.marked, h.marked, halike.filledIn_iff h.frame, happend, or_assoc]

theorem Field.map_unmarked_of_enriched {fs fs' : List Field}
    (h : List.Forall₂ (Field.Enriched t config ids id) fs fs') :
    fs'.map (fun f => { f with autoPopulated := false }) =
      fs.map fun f => { f with autoPopulated := false } := by
  induction h with
  | nil => rfl
  | cons hf _ ih => rw [List.map_cons, List.map_cons, ih, hf.frame]

theorem Field.enriched_trans {fs fs' fs'' : List Field} (halike : t.Alike t')
    (h : List.Forall₂ (Field.Enriched t config ids id) fs fs')
    (h' : List.Forall₂ (Field.Enriched t' config ids' id) fs' fs'') :
    List.Forall₂ (Field.Enriched t config (ids ++ ids') id) fs fs'' := by
  induction h generalizing fs'' with
  | nil =>
      cases h'
      exact .nil
  | cons hf _ ih =>
      obtain _ | ⟨hf', hfs'⟩ := h'
      exact .cons (hf.trans halike hf') (ih hfs')

theorem Message.Enriched.skeleton {m m' : Message} (h : m.Enriched t config ids id m') :
    m'.skeleton = m.skeleton := by
  rw [h.frame, Message.skeleton, Message.skeleton]
  exact congrArg (fun fs => { m with fields := fs, pagination := none })
    (Field.map_unmarked_of_enriched h.fields)

theorem Message.Enriched.trans {m m' m'' : Message} (halike : t.Alike t')
    (h : m.Enriched t config ids id m') (h' : m'.Enriched t' config ids' id m'') :
    m.Enriched t config (ids ++ ids') id m'' := by
  have happend : Returned t (ids ++ ids') id ↔ Returned t ids id ∨ Returned t' ids' id := by
    rw [halike.returned_iff]
    simp only [Returned, List.mem_append, or_and_right, exists_or]
  refine ⟨?_, fun hreturned => ?_, fun hreturned => ?_, ?_⟩
  · rw [h'.frame, h.frame]
  · by_cases hlast : Returned t' ids' id
    · obtain ⟨page, hpage, heq⟩ := h'.paged hlast
      exact ⟨page, (pagedBy_congr h.skeleton).1 hpage, heq⟩
    · rw [h'.unpaged hlast]
      exact h.paged ((happend.1 hreturned).resolve_right hlast)
  · rw [happend, not_or] at hreturned
    rw [h'.unpaged hreturned.2, h.unpaged hreturned.1]
  · exact Field.enriched_trans halike h.fields h'.fields

theorem Method.Enriched.skeleton {m m' : Method} (h : m.Enriched t config ids id m') :
    m'.skeleton = m.skeleton := by
  cases h <;> rfl

theorem Method.Enriched.trans {m m' m'' : Method} (halike : t.Alike t')
    (h : m.Enriched t config ids id m') (h' : m'.Enriched t' config ids' id m'') :
    m.Enriched t config (ids ++ ids') id m'' := by
  have hskeleton := h.skeleton
  cases h' with
  | outside hid' =>
      cases h with
      | outside hid => exact .outside (by simp [hid, hid'])
      | listing hid hlists hfills => exact .listing (List.mem_append_left _ hid) hlists hfills
      | other hid hlists hfills => exact .other (List.mem_append_left _ hid) hlists hfills
  | listing hid' hlists' hfills' =>
      rw [halike.lists_iff hskeleton] at hlists'
      rw [halike.fills_iff hskeleton] at hfills'
      -- The names are found anew and replace those of the first visit, which are the same.
      have hall := listing (List.mem_append_right ids hid') hlists' hfills'
      cases h <;> exact hall
  | other hid' hlists' hfills' =>
      simp only [halike.lists_iff hskeleton] at hlists'
      rw [halike.fills_iff hskeleton] at hfills'
      have hall := other (List.mem_append_right ids hid') hlists' hfills'
      cases h with
      | listing _ hlists _ => exact absurd hlists (hlists' _)
      | _ => exact hall

theorem map_eq_of_rel {α β : Type} {R : α → α → Prop} {g : α → β} {x y : Option α}
    (h : Option.Rel R x y) (hg : ∀ a b, R a b → g b = g a) : y.map g = x.map g := by
  cases h with
  | none => rfl
  | some hab => exact congrArg some (hg _ _ hab)

theorem rel_imp {α : Type} {R S : α → α → Prop} {x y : Option α} (h : Option.Rel R x y)
    (hS : ∀ a b, R a b → S a b) : Option.Rel S x y := by
  cases h with
  | none => exact .none
  | some hab => exact .some (hS _ _ hab)

theorem rel_trans {α : Type} {R S T : α → α → Prop} {x y z : Option α}
    (h : Option.Rel R x y) (h' : Option.Rel S y z) (hT : ∀ a b c, R a b → S b c → T a c) :
    Option.Rel T x z := by
  cases h with
  | none =>
      cases h'
      exact .none
  | some hab =>
      obtain ⟨hbc⟩ := h'
      exact .some (hT _ _ _ hab hbc)

namespace SymbolTable.Enriched

theorem alike (h : t.Enriched config ids t') : t.Alike t' where
  messages := fun id => map_eq_of_rel (h.messages id) fun _ _ hm => hm.skeleton
  methods := fun id => map_eq_of_rel (h.methods id) fun _ _ hm => hm.skeleton
  enums := h.enums
  services := h.services

theorem trans (h : t.Enriched config ids t') (h' : t'.Enriched config ids' t'') :
    t.Enriched config (ids ++ ids') t'' where
  messages := fun id =>
    rel_trans (h.messages id) (h'.messages id) fun _ _ _ hm hm' => hm.trans h.alike hm'
  methods := fun id =>
    rel_trans (h.methods id) (h'.methods id) fun _ _ _ hm hm' => hm.trans h.alike hm'
  enums := h'.enums.trans h.enums
  services := h'.services.trans h.services
  frozen := h'.frozen.trans h.frozen

end SymbolTable.Enriched

/-! ### One outcome for each set of methods -/

theorem Field.Enriched.congr {f f' : Field} (hids : ∀ n, n ∈ ids ↔ n ∈ ids')
    (h : f.Enriched t config ids id f') : f.Enriched t config ids' id f' := by
  refine ⟨h.frame, h.marked.trans ?_⟩
  simp only [FilledIn, hids]

theorem Message.Enriched.congr {m m' : Message} (hids : ∀ n, n ∈ ids ↔ n ∈ ids')
    (h : m.Enriched t config ids id m') : m.Enriched t config ids' id m' := by
  have hreturned : Returned t ids' id ↔ Returned t ids id := by simp only [Returned, hids]
  refine ⟨h.frame, fun hr => h.paged (hreturned.1 hr), fun hr => h.unpaged ?_, ?_⟩
  · rwa [hreturned] at hr
  · exact h.fields.imp fun _ _ hf => hf.congr hids

theorem Method.Enriched.congr {m m' : Method} (hids : ∀ n, n ∈ ids ↔ n ∈ ids')
    (h : m.Enriched t config ids id m') : m.Enriched t config ids' id m' := by
  cases h with
  | outside hid => exact .outside fun h => hid ((hids id).2 h)
  | listing hid hlists hfills => exact .listing ((hids id).1 hid) hlists hfills
  | other hid hlists hfills => exact .other ((hids id).1 hid) hlists hfills

theorem Field.Enriched.unique {f f₁ f₂ : Field} (h₁ : f.Enriched t config ids id f₁)
    (h₂ : f.Enriched t config ids id f₂) : f₁ = f₂ := by
  have hmarked : f₁.autoPopulated = f₂.autoPopulated :=
    Bool.eq_iff_iff.2 (h₁.marked.trans h₂.marked.symm)
  rw [h₁.frame, h₂.frame, hmarked]

theorem Message.Enriched.unique {m m₁ m₂ : Message} (h₁ : m.Enriched t config ids id m₁)
    (h₂ : m.Enriched t config ids id m₂) : m₁ = m₂ := by
  have hfields : m₁.fields = m₂.fields :=
    List.right_unique_forall₂' (fun _ _ _ hf hf' => hf.unique hf') h₁.fields h₂.fields
  have hpagination : m₁.pagination = m₂.pagination := by
    by_cases hr : Returned t ids id
    · obtain ⟨page₁, hpage₁, heq₁⟩ := h₁.paged hr
      obtain ⟨page₂, hpage₂, heq₂⟩ := h₂.paged hr
      rw [← Enrichment.pageFields?_eq_some_iff] at hpage₁ hpage₂
      rw [heq₁, heq₂, ← hpage₁, hpage₂]
    · rw [h₁.unpaged hr, h₂.unpaged hr]
  rw [h₁.frame, h₂.frame, hfields, hpagination]

theorem Method.Enriched.unique {m m₁ m₂ : Method} (h₁ : m.Enriched t config ids id m₁)
    (h₂ : m.Enriched t config ids id m₂) : m₁ = m₂ := by
  have hnames : ∀ {names names' : List String}, m.Fills t config id names →
      m.Fills t config id names' → names = names' := by
    intro names names' h h'
    exact (Enrichment.fills_iff.1 h).symm.trans (Enrichment.fills_iff.1 h')
  cases h₁ with
  | outside hid =>
      cases h₂ with
      | outside => rfl
      | listing hid' => exact absurd hid' hid
      | other hid' => exact absurd hid' hid
  | listing hid hlists hfills =>
      cases h₂ with
      | outside hid' => exact absurd hid hid'
      | listing _ hlists' hfills' =>
          obtain ⟨page, hpage⟩ := Enrichment.lists_iff.1 hlists
          obtain ⟨page', hpage'⟩ := Enrichment.lists_iff.1 hlists'
          cases hpage.symm.trans hpage'
          rw [hnames hfills hfills']
      | other _ hlists' => exact absurd hlists (hlists' _)
  | other hid hlists hfills =>
      cases h₂ with
      | outside hid' => exact absurd hid hid'
      | listing _ hlists' => exact absurd hlists' (hlists _)
      | other _ _ hfills' => rw [hnames hfills hfills']

theorem eq_of_rel {α : Type} {R : α → α → Prop} {x y z : Option α} (h : Option.Rel R x y)
    (h' : Option.Rel R x z) (hR : ∀ a b c, R a b → R a c → b = c) : y = z := by
  cases h with
  | none =>
      cases h'
      rfl
  | some hab =>
      obtain ⟨hac⟩ := h'
      rw [hR _ _ _ hab hac]

namespace SymbolTable.Enriched

theorem congr (hids : ∀ n, n ∈ ids ↔ n ∈ ids') (h : t.Enriched config ids t') :
    t.Enriched config ids' t' where
  messages := fun id => rel_imp (h.messages id) fun _ _ hm => hm.congr hids
  methods := fun id => rel_imp (h.methods id) fun _ _ hm => hm.congr hids
  enums := h.enums
  services := h.services
  frozen := h.frozen

/-- What becomes of a table is all there is to say about the result. -/
theorem unique {t₁ t₂ : SymbolTable} (h₁ : t.Enriched config ids t₁)
    (h₂ : t.Enriched config ids t₂) : t₁ = t₂ := by
  have hmessages : t₁.messages = t₂.messages := Catalog.ext_get? fun id =>
    eq_of_rel (h₁.messages id) (h₂.messages id) fun _ _ _ hm hm' => hm.unique hm'
  have hmethods : t₁.methods = t₂.methods := Catalog.ext_get? fun id =>
    eq_of_rel (h₁.methods id) (h₂.methods id) fun _ _ _ hm hm' => hm.unique hm'
  have henums := h₁.enums.trans h₂.enums.symm
  have hservices := h₁.services.trans h₂.services.symm
  have hfrozen := h₁.frozen.trans h₂.frozen.symm
  cases t₁
  cases t₂
  simp only [SymbolTable.mk.injEq]
  exact ⟨hmessages, henums, hservices, hmethods, hfrozen⟩

end SymbolTable.Enriched

theorem EnrichmentCounts.Tells.unique {c₁ c₂ : EnrichmentCounts} (h₁ : c₁.Tells t config id)
    (h₂ : c₂.Tells t config id) : c₁ = c₂ := by
  cases h₁ with
  | absent hm =>
      cases h₂ with
      | absent => rfl
      | present hm' => cases hm.symm.trans hm'
  | present hm hlists hfills hruns =>
      cases h₂ with
      | absent hm' => cases hm.symm.trans hm'
      | present hm' hlists' hfills' hruns' =>
          cases hm.symm.trans hm'
          congr 1
          · rcases hlists with ⟨rfl, token, hl⟩ | ⟨rfl, hl⟩
            · rcases hlists' with ⟨rfl, -⟩ | ⟨-, hl'⟩
              · rfl
              · exact absurd hl (hl' token)
            · rcases hlists' with ⟨-, token, hl'⟩ | ⟨rfl, -⟩
              · exact absurd hl' (hl token)
              · rfl
          · rw [← Enrichment.fills_iff.1 hfills, Enrichment.fills_iff.1 hfills']
          · rcases hruns with ⟨rfl, hr⟩ | ⟨rfl, hr⟩
            · exact (hruns'.resolve_right fun h => h.2 hr).1.symm
            · exact (hruns'.resolve_left fun h => hr h.2).1.symm

theorem EnrichmentCounts.Total.unique {c₁ c₂ : EnrichmentCounts} (h₁ : c₁.Total t config ids)
    (h₂ : c₂.Total t config ids) : c₁ = c₂ := by
  obtain ⟨each₁, heach₁, rfl⟩ := h₁
  obtain ⟨each₂, heach₂, rfl⟩ := h₂
  rw [List.right_unique_forall₂' (fun _ _ _ hc hc' => hc.unique hc') heach₁ heach₂]

end ServiceModel
