import ServiceModel.Proofs.Enrichment.Outcome

/-!
Enrichment without its order.  A step does what is to be done for its method, so a run does what is to
be done for all of its methods, in whatever order it visits them.
-/

namespace ServiceModel

variable {t t' t'' : SymbolTable} {config : Option ServiceConfig} {ids ids' : List String}
  {id : String}

/-! ### One method -/

namespace SymbolTable

end SymbolTable

namespace Enrichment

variable {m : Method}

/-- What a table is after it was written down what a method and its response are paged by. -/
structure Paged (t : SymbolTable) (id : String) (m : Method) (t' : SymbolTable) : Prop where
  messages : ∀ other, Option.Rel (fun r r' => ∃ paging, r' = { r with pagination := paging } ∧
      (Message.Returned t [id] other → ∃ page, r.PagedBy page ∧ paging = some page) ∧
      (¬ Message.Returned t [id] other → paging = r.pagination))
    (t.message? other) (t'.message? other)
  others : ∀ other, other ≠ id → t'.method? other = t.method? other
  method : (∃ token, m.Lists t token ∧ t'.method? id = some { m with pagination := some token }) ∨
    (∀ token, ¬ m.Lists t token) ∧ t'.method? id = some m
  enums : t'.enums = t.enums
  services : t'.services = t.services
  frozen : t'.frozen = false

/-- What a message is paged by says nothing about the fields that clients fill in. -/
theorem Paged.populated (h : Paged t id m t') (allowed : List String) :
    (t'.message? m.inputTypeId).map (populatedFields allowed) =
      (t.message? m.inputTypeId).map (populatedFields allowed) := by
  refine map_eq_of_rel (h.messages _) ?_
  rintro r r' ⟨paging, rfl, -⟩
  rfl

end Enrichment

namespace Api

end Api

end ServiceModel
