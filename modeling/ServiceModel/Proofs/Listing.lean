import ServiceModel.Mixin.Composition
import ServiceModel.Proofs.Catalog

/-!
Methods and the lists of their services.  Methods and services stand in catalogs of their own, and a
service lists its methods by their IDs.  A table is indexed when the two agree from the side of the
services: each lists methods of its own, and none of them twice.
-/

namespace ServiceModel

/-- A service that stands under its ID and lists methods of its own, each once. -/
structure Service.Lists (t : SymbolTable) (id : String) (s : Service) : Prop where
  named : s.id = id
  distinct : s.methods.Nodup
  own : ∀ n ∈ s.methods, ∃ m, t.method? n = some m ∧ m.serviceId = id

theorem Service.Lists.mono {t t' : SymbolTable} {id : String} {s : Service} (h : s.Lists t id)
    (ht : ∀ n m, t.method? n = some m → t'.method? n = some m) : s.Lists t' id where
  named := h.named
  distinct := h.distinct
  own := fun n hn => by
    obtain ⟨m, hm, hserviceId⟩ := h.own n hn
    exact ⟨m, ht n m hm, hserviceId⟩

/-- Every service lists methods of its own, and every method stands under its ID and has a service. -/
structure SymbolTable.Indexed (t : SymbolTable) : Prop where
  services : ∀ id s, t.service? id = some s → s.Lists t id
  methods : ∀ id m, t.method? id = some m → m.id = id ∧ t.services.contains m.serviceId = true

/-- A method that is named for its service, which lists it exactly once. -/
structure Method.Kept (t : SymbolTable) (m : Method) : Prop where
  named : m.id = m.serviceId ++ "." ++ m.name
  listed : ∃ s, t.service? m.serviceId = some s ∧ s.methods.count m.id = 1

/-- So many methods are in a table, under IDs of their own. -/
def SymbolTable.HasMethods (t : SymbolTable) (n : Nat) : Prop :=
  ∃ ids : List String, ids.length = n ∧ ids.Nodup ∧ ∀ id ∈ ids, t.methods.contains id = true

theorem SymbolTable.HasMethods.mono {t t' : SymbolTable} {n : Nat} (h : t.HasMethods n)
    (ht : ∀ id, t.methods.contains id = true → t'.methods.contains id = true) : t'.HasMethods n := by
  obtain ⟨ids, hlength, hdistinct, hthere⟩ := h
  exact ⟨ids, hlength, hdistinct, fun id hid => ht id (hthere id hid)⟩

namespace Composition

variable {t t' : SymbolTable} {serviceId methodId : String}

theorem lists_iff : lists t serviceId methodId = true ↔
    ∃ s, t.service? serviceId = some s ∧ methodId ∈ s.methods := by
  rw [lists, Option.any_eq_true]
  simp only [List.contains_iff_mem]

theorem lists_of_service? {s : Service} (hs : t.service? serviceId = some s) :
    lists t serviceId methodId = true ↔ methodId ∈ s.methods := by
  rw [lists, hs, Option.any_some, List.contains_iff_mem]

theorem lists_congr (h : t'.service? serviceId = t.service? serviceId) :
    lists t' serviceId methodId = lists t serviceId methodId := by
  rw [lists, lists, h]

end Composition

/-- In an indexed table it is enough that a method is listed and named for its service. -/
theorem SymbolTable.Indexed.kept {t : SymbolTable} (h : t.Indexed) {id : String} {m : Method}
    (hm : t.method? id = some m) (hlisted : Composition.lists t m.serviceId id = true)
    (hnamed : id = m.serviceId ++ "." ++ m.name) : m.Kept t := by
  have hid := (h.methods id m hm).1
  obtain ⟨s, hs, hmem⟩ := Composition.lists_iff.1 hlisted
  refine ⟨hid.trans hnamed, s, hs, ?_⟩
  rw [hid, (h.services _ s hs).distinct.count, if_pos hmem]

end ServiceModel
