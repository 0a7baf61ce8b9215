import ServiceModel.Text.Split

/-!
Reading the front of a text.  A reader takes characters from the front and gives what it read with
the text that is left, or nothing if the text does not start with what it reads.
-/

namespace ServiceModel.Text

variable {α : Type}

/-- A reader of the front of a text. -/
abbrev Reader (α : Type) := List Char → Option (α × List Char)

/-- As many characters satisfying `p` as there are; at least one. -/
def run (p : Char → Bool) : Reader (List Char) := fun cs =>
  match cs.takeWhile p with
  | [] => none
  | taken => some (taken, cs.dropWhile p)

/-- A character satisfying `first`, and as many satisfying `p` as there are. -/
def runAfter (first p : Char → Bool) : Reader (List Char)
  | [] => none
  | c :: cs => if first c then some (c :: cs.takeWhile p, cs.dropWhile p) else none

/-- Further items, each after a `sep`; a `sep` that no item follows is left alone.  The first
argument bounds the number of items. -/
def further (sep : Char) (item : Reader α) : Nat → List Char → List α × List Char
  | 0, cs => ([], cs)
  | _ + 1, [] => ([], [])
  | n + 1, c :: cs =>
      if c = sep then
        match item cs with
        | some (a, rest) => ((a :: (further sep item n rest).1), (further sep item n rest).2)
        | none => ([], c :: cs)
      else ([], c :: cs)

/-- Items with `sep` between them; at least one. -/
def separated (sep : Char) (item : Reader α) : Reader (List α) := fun cs =>
  match item cs with
  | some (a, rest) =>
      let (as, rest) := further sep item rest.length rest
      some (a :: as, rest)
  | none => none

/-- What a run reads satisfies `p`, and nothing is lost. -/
theorem run_eq_some {p : Char → Bool} {cs taken rest : List Char}
    (h : run p cs = some (taken, rest)) :
    cs = taken ++ rest ∧ taken ≠ [] ∧ (∀ c ∈ taken, p c = true) ∧ rest.head?.all (!p ·) = true := by
  unfold run at h
  split at h
  · cases h
  next hne =>
    simp only [Option.some.injEq, Prod.mk.injEq] at h
    obtain ⟨rfl, rfl⟩ := h
    refine ⟨(List.takeWhile_append_dropWhile).symm, hne, ?_, ?_⟩
    · intro c hc
      have := List.all_takeWhile (p := p) (l := cs)
      exact (List.all_eq_true.1 this) c hc
    · cases hd : cs.dropWhile p with
      | nil => rfl
      | cons d ds =>
          have := List.head_dropWhile_not p (l := cs) (by simp [hd])
          simpa [hd] using this

end ServiceModel.Text
