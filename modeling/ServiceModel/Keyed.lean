/-!
Lists of named values in the order of first mention.  A name mentioned again keeps its place and
takes the new value.
-/

namespace ServiceModel.Keyed

variable {α β : Type}

/-- Puts `value` under `name`: in the place of the old value, or at the end. -/
def put (name : String) (value : α) : List (String × α) → List (String × α)
  | [] => [(name, value)]
  | e :: es => if name = e.1 then (name, value) :: es else e :: put name value es

def get? (name : String) : List (String × α) → Option α
  | [] => none
  | e :: es => if name = e.1 then some e.2 else get? name es

/-- Some pairs with each name kept once. -/
def ofPairs (es : List (String × α)) : List (String × α) :=
  es.foldl (fun done e => put e.1 e.2 done) []

theorem mem_of_get? {name : String} {value : α} {es : List (String × α)}
    (h : get? name es = some value) : (name, value) ∈ es := by
  induction es with
  | nil => cases h
  | cons e es ih =>
      rw [get?] at h
      split at h
      next heq =>
        cases h
        rw [heq]
        exact List.mem_cons_self
      next => exact List.mem_cons_of_mem _ (ih h)

end ServiceModel.Keyed
