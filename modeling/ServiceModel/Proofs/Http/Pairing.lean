import Mathlib.Data.List.Perm.Basic
import ServiceModel.Proofs.Http

/-!
Rules and their bindings, pair by pair.  A rule and the additional ones written directly in it are bound in
their order, each to its own pattern, path and query.  The first that cannot be bound decides the error, and
no rule behind it is looked at.
-/

namespace ServiceModel

/-- Two sets with the same members are the same. -/
theorem NameSet.eq_of_mem_iff {s s' : NameSet} (h : ∀ name, name ∈ s ↔ name ∈ s') : s = s' := by
  have hdistinct : ∀ r : NameSet, r.names.Nodup := fun r =>
    r.ascending.imp fun {a b} (hlt : a < b) (heq : a = b) => Std.lt_irrefl (heq ▸ hlt)
  have hperm : s.names.Perm s'.names :=
    (List.perm_ext_iff_of_nodup (hdistinct s) (hdistinct s')).2 h
  have hnames : s.names = s'.names :=
    hperm.eq_of_pairwise (fun a b _ _ hlt hgt => absurd (Std.lt_trans hlt hgt) Std.lt_irrefl)
      s.ascending s'.ascending
  cases s
  cases s'
  cases hnames
  rfl

theorem HttpBinding.QueriesRest.unique {b b' : HttpBinding} {fields : List String}
    {body : Option String} (h : b.QueriesRest fields body) (h' : b'.QueriesRest fields body)
    (hpath : b.pathTemplate = b'.pathTemplate) : b.queryParameters = b'.queryParameters := by
  refine NameSet.eq_of_mem_iff fun name => ?_
  by_cases hbody : body = some "*"
  · exact iff_of_false (h.whole hbody name) (h'.whole hbody name)
  · rw [h.rest hbody, h'.rest hbody, hpath]

namespace HttpRule

/-! ### Patterns -/

section Rules

variable {selector : String} {request : Message} {r : HttpRule}

end Rules

end HttpRule

end ServiceModel
