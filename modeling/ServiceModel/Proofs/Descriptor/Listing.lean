import ServiceModel.Proofs.Descriptor.Service
import ServiceModel.Proofs.Listing

/-!
Services of a descriptor set and their lists.  A service lists exactly the methods that came with it.
One that is declared again takes the place of the earlier one, whose methods stay in the table but are
no longer listed.
-/

namespace ServiceModel

/-- A table stays indexed when it gains a service with methods of its own. -/
theorem SymbolTable.Indexed.gainsService {kind : Method → Prop} {s : Service} {t t' : SymbolTable}
    (h : t.Indexed) (hgains : t.GainsService kind s t') (hkind : ∀ m, kind m → m.serviceId = s.id) :
    t'.Indexed := by
  refine ⟨fun id u hu => ?_, fun id m hm => ?_⟩
  · rw [hgains.service] at hu
    split at hu
    next heq =>
      cases hu
      refine ⟨heq.symm, hgains.distinct, fun n hn => ?_⟩
      obtain ⟨m, hm, -, hnew⟩ := hgains.there n hn
      exact ⟨m, hm, (hkind m hnew).trans heq.symm⟩
    next => exact (h.services id u hu).mono hgains.kept
  · rw [hgains.contains]
    rcases hgains.gained id m hm with ⟨-, hold⟩ | ⟨-, -, hnamed, hnew⟩
    · obtain ⟨hnamed, hthere⟩ := h.methods id m hold
      exact ⟨hnamed, Or.inr hthere⟩
    · exact ⟨hnamed, Or.inl (hkind m hnew)⟩

theorem SymbolTable.HasMethods.gainsService {kind : Method → Prop} {s : Service}
    {t t' : SymbolTable} {n : Nat} (h : t.HasMethods n) (hgains : t.GainsService kind s t') :
    t'.HasMethods (n + s.methods.length) := by
  obtain ⟨ids, hlength, hdistinct, hthere⟩ := h
  have hnew : ∀ id ∈ s.methods, t.method? id = none := by
    intro id hid
    obtain ⟨m, hm, -⟩ := hgains.there id hid
    rcases hgains.gained id m hm with ⟨hunlisted, -⟩ | ⟨-, hnone, -⟩
    · exact absurd hid hunlisted
    · exact hnone
  refine ⟨ids ++ s.methods, by rw [List.length_append, hlength], ?_, ?_⟩
  · refine List.nodup_append.2 ⟨hdistinct, hgains.distinct, ?_⟩
    rintro id hid _ hlisted rfl
    obtain ⟨m, hm⟩ := Catalog.contains_iff.1 (hthere id hid)
    exact absurd ((hnew id hlisted).symm.trans hm) nofun
  · rw [List.forall_mem_append]
    refine ⟨fun id hid => ?_, fun id hid => ?_⟩
    · obtain ⟨m, hm⟩ := Catalog.contains_iff.1 (hthere id hid)
      exact Catalog.contains_of_get? (hgains.kept id m hm)
    · obtain ⟨m, hm, -⟩ := hgains.there id hid
      exact Catalog.contains_of_get? hm

namespace Descriptor

/-! ### Declarations of services -/

/-- A service where it is declared. -/
structure Declaration where
  file : FileDescriptor
  service : ServiceDescriptor

def Declaration.id (e : Declaration) : String := e.file.serviceId e.service

/-- The services that some files declare, in order. -/
def declarationsOf (fs : List FileDescriptor) : List Declaration :=
  fs.flatMap fun f => f.services.map fun d => ⟨f, d⟩

/-- The services of a model that some declarations give: those that are no mixins. -/
def ownServices (es : List Declaration) : List String :=
  (es.map Declaration.id).filter (!isMixinApi ·)

/-! ### Tables that serve some declarations -/

/-- A method that one of some declarations gives.  Its service lists it unless the service is declared
again behind that one. -/
structure GivenBy (es : List Declaration) (t : SymbolTable) (m : Method) : Prop where
  named : m.id = memberId m.serviceId m.name
  source : m.sourceServiceId = none
  declared : ∃ before e after, es = before ++ e :: after ∧ e.id = m.serviceId ∧
    (∃ d ∈ e.service.methods, d.name = m.name) ∧
      (Composition.lists t m.serviceId m.id = true ↔ ∀ e' ∈ after, e'.id ≠ m.serviceId)

/-- A table with the services and methods that some declarations give. -/
structure Serves (es : List Declaration) (t : SymbolTable) : Prop where
  indexed : t.Indexed
  services : ∀ e ∈ es, t.services.contains e.id = true
  methods : ∀ id m, t.method? id = some m → GivenBy es t m

variable {t t' : SymbolTable} {f : FileDescriptor} {es : List Declaration}

theorem Serves.congr (h : Serves es t) (hservices : t'.services = t.services)
    (hmethods : t'.methods = t.methods) : Serves es t' := by
  have hservice : t'.service? = t.service? := congrArg Catalog.get? hservices
  have hmethod : t'.method? = t.method? := congrArg Catalog.get? hmethods
  refine ⟨⟨fun id s hs => ?_, fun id m hm => ?_⟩, fun e he => ?_, fun id m hm => ?_⟩
  · rw [hservice] at hs
    obtain ⟨hnamed, hdistinct, hown⟩ := h.indexed.services id s hs
    exact ⟨hnamed, hdistinct, by rwa [hmethod]⟩
  · rw [hmethod] at hm
    rw [hservices]
    exact h.indexed.methods id m hm
  · rw [hservices]
    exact h.services e he
  · rw [hmethod] at hm
    obtain ⟨hnamed, hsource, hdeclared⟩ := h.methods id m hm
    refine ⟨hnamed, hsource, ?_⟩
    rwa [Composition.lists_congr (congrFun hservice _)]

theorem Declares.named {package serviceId : String} {ds : List MethodDescriptor} {m : Method}
    (h : Declares t package serviceId ds m) :
    m.serviceId = serviceId ∧ m.id = memberId serviceId m.name ∧ m.sourceServiceId = none ∧
      ∃ d ∈ ds, d.name = m.name := by
  obtain ⟨d, hd, hname, hid, hserviceId, -, hsource, -⟩ := h.exists_descriptor
  exact ⟨hserviceId, by rw [hid, hname], hsource, d, hd, hname.symm⟩

/-- A method that was there stays listed unless the new service takes the place of its own. -/
theorem GivenBy.gainsService {kind : Method → Prop} {e : Declaration} {s : Service} {m : Method}
    (h : GivenBy es t m) (hgains : t.GainsService kind s t') (hs : s.id = e.id)
    (hnew : m.id ∉ s.methods) : GivenBy (es ++ [e]) t' m := by
  obtain ⟨hname, hsource, before, d, after, rfl, hd, hdeclared, hlists⟩ := h
  refine ⟨hname, hsource, before, d, after ++ [e], by simp, hd, hdeclared, ?_⟩
  have hservice := hgains.service m.serviceId
  by_cases hsame : m.serviceId = s.id
  · rw [if_pos hsame] at hservice
    rw [Composition.lists_of_service? hservice]
    refine iff_of_false hnew fun hall => ?_
    exact hall e (List.mem_append_right _ List.mem_cons_self) (hs.symm.trans hsame.symm)
  · rw [if_neg hsame] at hservice
    rw [Composition.lists_congr hservice, hlists, List.forall_mem_append, List.forall_mem_singleton]
    exact (and_iff_left (hs ▸ Ne.symm hsame)).symm

/-- One more declaration: its service stands under its ID with the methods that came with it, and what
an earlier one listed is listed no more. -/
theorem Serves.addService {i : Nat} {d : ServiceDescriptor} {built dropped : Nat}
    (h : Serves es t) (hadd : addService f i d t = .ok (t', built, dropped)) :
    Serves (es ++ [⟨f, d⟩]) t' := by
  obtain ⟨place, listed, -, hgains⟩ := addService_gains hadd
  refine ⟨h.indexed.gainsService hgains fun m hm => hm.named.1, fun e he => ?_, fun id m hm => ?_⟩
  · rw [hgains.contains]
    rcases List.mem_append.1 he with he | he
    · exact Or.inr (h.services e he)
    · cases List.mem_singleton.1 he
      exact Or.inl rfl
  · rcases hgains.gained id m hm with ⟨hunlisted, hold⟩ | ⟨hlisted, -, hnamed, hdeclares⟩
    · have hnamed := (h.indexed.methods id m hold).1
      exact (h.methods id m hold).gainsService hgains rfl (hnamed ▸ hunlisted)
    · obtain ⟨hserviceId, hname, hsource, hd⟩ := hdeclares.named
      refine ⟨hserviceId ▸ hname, hsource, es, ⟨f, d⟩, [], rfl, hserviceId.symm, hd, ?_⟩
      have hservice := (hgains.service m.serviceId).trans (if_pos hserviceId)
      rw [hnamed, Composition.lists_of_service? hservice]
      exact iff_of_true hlisted nofun

/-! ### Files -/

/-- A model whose table serves some declarations, with those services that are no mixins, and with as
many methods as were counted. -/
structure Publishes (es : List Declaration) (a : Api) (methods : Nat) : Prop where
  serves : Serves es a.table
  services : a.services = ownServices es
  methods : a.table.HasMethods methods

theorem Publishes.mem_services {a : Api} {methods : Nat} (h : Publishes es a methods) {id : String}
    (hid : id ∈ a.services) : isMixinApi id = false ∧ a.table.services.contains id = true := by
  rw [h.services, ownServices, List.mem_filter] at hid
  obtain ⟨e, he, rfl⟩ := List.mem_map.1 hid.1
  exact ⟨by simpa using hid.2, h.serves.services e he⟩

theorem Publishes.addServices {i : Nat} {ds : List ServiceDescriptor} {draft draft' : Draft}
    (h : Publishes es draft.api draft.methods) (hadd : addServices f i ds draft = .ok draft') :
    Publishes (es ++ ds.map fun d => ⟨f, d⟩) draft'.api draft'.methods := by
  induction ds generalizing i draft es with
  | nil =>
      cases hadd
      simpa using h
  | cons d ds ih =>
      rw [Descriptor.addServices] at hadd
      split at hadd
      · cases hadd
      next table built dropped htable =>
        obtain ⟨place, listed, hbuilt, hgains⟩ := addService_gains htable
        have hnext := ih
          ⟨h.serves.addService htable, ?_, hbuilt ▸ h.methods.gainsService hgains⟩ hadd
        · rwa [List.append_assoc, List.singleton_append] at hnext
        · by_cases hmixin : isMixinApi (f.serviceId d) = true <;>
            simp [ownServices, Declaration.id, hmixin, h.services]

theorem Publishes.resolveFile {target : Bool} {draft draft' : Draft}
    (h : Publishes es draft.api draft.methods) (hfile : resolveFile target f draft = .ok draft') :
    Publishes (es ++ if target then declarationsOf [f] else []) draft'.api draft'.methods := by
  unfold Descriptor.resolveFile at hfile
  split at hfile
  · cases hfile
  next table htable =>
    have hgrows := resolveSites_grows htable
    have hresolved := h.serves.congr hgrows.services hgrows.methods
    have hmethods : table.HasMethods draft.methods :=
      h.methods.mono fun id hid => by rwa [hgrows.methods]
    cases target with
    | false =>
        cases hfile
        simpa using ⟨hresolved, h.services, hmethods⟩
    | true =>
        rw [if_pos rfl] at hfile
        have hserves := fun hstart : Publishes es _ _ =>
          hstart.addServices (mapError_eq_ok_iff.1 hfile)
        simpa [declarationsOf] using hserves ⟨hresolved, h.services, hmethods⟩

theorem Publishes.resolveFiles {o : Targets} {fs : List FileDescriptor} {draft draft' : Draft}
    (h : Publishes es draft.api draft.methods) (hfiles : resolveFiles o fs draft = .ok draft') :
    Publishes (es ++ declarationsOf (fs.filter fun f => o.includes f.name)) draft'.api
      draft'.methods := by
  induction fs generalizing es draft with
  | nil =>
      cases hfiles
      simpa [declarationsOf] using h
  | cons f fs ih =>
      rw [Descriptor.resolveFiles] at hfiles
      split at hfiles
      · cases hfiles
      next middle hmiddle =>
        have hrest := ih (h.resolveFile (during_eq_ok_iff.1 hmiddle)) hfiles
        rw [List.append_assoc] at hrest
        cases htarget : o.includes f.name <;> simp_all [declarationsOf]

/-- The services that the targets of a set declare, in order. -/
def DescriptorSet.declarations (s : DescriptorSet) (o : Targets) : List Declaration :=
  declarationsOf (s.targets o)

/-- A model that was ingested has the services of all targets, and the methods that were counted. -/
theorem DescriptorSet.ingest_publishes {set : DescriptorSet} {o : Targets}
    {config : Option ServiceConfig} {a : Api} {counts : IngestionCounts}
    (h : set.ingest o config = .ok (a, counts)) :
    Publishes (set.declarations o) a counts.methods := by
  unfold ingest at h
  dsimp only at h
  split at h
  · cases h
  next draft hdraft =>
    cases h
    obtain ⟨messages, enums, heq⟩ := set.register_eq .wellKnown
    have hfiles : Publishes ([] ++ set.declarations o) draft.api draft.methods := by
      refine Publishes.resolveFiles ?_ hdraft
      change Publishes [] { Api.new (set.package o) with table := set.register .wellKnown } 0
      rw [heq]
      exact ⟨⟨⟨nofun, nofun⟩, nofun, nofun⟩, rfl, [], rfl, List.nodup_nil, nofun⟩
    cases config with
    | none => exact ⟨hfiles.serves, hfiles.services, hfiles.methods⟩
    | some c => exact ⟨hfiles.serves, hfiles.services, hfiles.methods⟩

end Descriptor

end ServiceModel
