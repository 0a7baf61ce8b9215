import ServiceModel.BuildError

/-!
How results of building compare.  A result stays the same unless it is an error that does not count; it is
endless if the levels of objects did not suffice; and two results are alike if they are the same error, or
values that are the same in some respect.  Each is kept by what is done with results: binding, mapping, noting
a step, and doing one thing after the other.
-/

namespace ServiceModel

/-! ### Results that stay -/

section Stays

variable {α β : Type} {lax : BuildCause → Prop} {r r' : Except BuildError α}

/-- A result stays the same, unless it is an error with a cause that does not count. -/
def StaysUnless (lax : BuildCause → Prop) (r r' : Except BuildError α) : Prop :=
  (∃ e, r = .error e ∧ lax e.cause) ∨ r = r'

namespace StaysUnless

theorem refl (r : Except BuildError α) : StaysUnless lax r r := Or.inr rfl

theorem bind {f f' : α → Except BuildError β} (h : StaysUnless lax r r')
    (hf : ∀ a, StaysUnless lax (f a) (f' a)) : StaysUnless lax (r.bind f) (r'.bind f') := by
  rcases h with ⟨e, rfl, he⟩ | rfl
  · exact Or.inl ⟨e, rfl, he⟩
  · cases r with
    | error e => exact .refl _
    | ok a => exact hf a

theorem map (f : α → β) (h : StaysUnless lax r r') : StaysUnless lax (r.map f) (r'.map f) := by
  rcases h with ⟨e, rfl, he⟩ | rfl
  · exact Or.inl ⟨e, rfl, he⟩
  · exact .refl _

theorem during (step : BuildStep) (h : StaysUnless lax r r') :
    StaysUnless lax (during step r) (during step r') := by
  rcases h with ⟨e, rfl, he⟩ | rfl
  · exact Or.inl ⟨e.during step, rfl, he⟩
  · exact .refl _

theorem foldlM {f f' : β → α → Except BuildError β} (hf : ∀ b a, StaysUnless lax (f b a) (f' b a))
    (as : List α) (b : β) : StaysUnless lax (as.foldlM f b) (as.foldlM f' b) := by
  induction as generalizing b with
  | nil => exact .refl _
  | cons a as ih =>
      rw [List.foldlM_cons, List.foldlM_cons]
      exact (hf b a).bind ih

/-- A result that is no error stays. -/
theorem ok {a : α} (h : StaysUnless lax r r') (hr : r = .ok a) : r' = .ok a := by
  rcases h with ⟨e, he, -⟩ | rfl
  · exact absurd (hr.symm.trans he) nofun
  · exact hr

end StaysUnless

end Stays

/-! ### Results of conversions that did not come to an end -/

section Endless

variable {α β : Type} {r r' : Except BuildError α}

/-- A conversion has not come to an end within the levels that it was given. -/
def Endless : Except BuildError α → Prop
  | .error e => e.cause = .endlessSchema
  | .ok _ => False

@[simp] theorem endless_error_iff {e : BuildError} :
    Endless (.error e : Except BuildError α) ↔ e.cause = .endlessSchema :=
  Iff.rfl

@[simp] theorem not_endless_ok (a : α) : ¬ Endless (.ok a) := id

@[simp] theorem endless_bind_iff {f : α → Except BuildError β} :
    Endless (r.bind f) ↔ Endless r ∨ ∃ a, r = .ok a ∧ Endless (f a) := by
  cases r <;> simp [Except.bind]

@[simp] theorem endless_map_iff {f : α → β} : Endless (r.map f) ↔ Endless r := by
  cases r <;> exact Iff.rfl

@[simp] theorem endless_during_iff {step : BuildStep} : Endless (during step r) ↔ Endless r := by
  cases r <;> exact Iff.rfl

theorem foldlM_cons_eq_ok_iff {f : β → α → Except BuildError β} {a : α} {as : List α} {b b' : β} :
    (a :: as).foldlM f b = .ok b' ↔ ∃ c, f b a = .ok c ∧ as.foldlM f c = .ok b' := by
  rw [List.foldlM_cons]
  cases hstep : f b a with
  | error e =>
      constructor
      · rintro ⟨⟩
      · rintro ⟨_, ⟨⟩, _⟩
  | ok c =>
      refine ⟨fun h => ⟨c, rfl, h⟩, ?_⟩
      rintro ⟨_, ⟨⟩, h⟩
      exact h

/-- Steps one after the other are endless just if one of them is, and those before it succeed. -/
theorem endless_foldlM_iff {f : β → α → Except BuildError β} {as : List α} {b : β} :
    Endless (as.foldlM f b) ↔
      ∃ before a after b', as = before ++ a :: after ∧ before.foldlM f b = .ok b' ∧
        Endless (f b' a) := by
  induction as generalizing b with
  | nil =>
      refine iff_of_false (not_endless_ok b) ?_
      rintro ⟨before, a, after, _, has, -⟩
      exact absurd has (by simp)
  | cons a as ih =>
      rw [List.foldlM_cons]
      show Endless ((f b a).bind fun b' => as.foldlM f b') ↔ _
      rw [endless_bind_iff]
      constructor
      · rintro (h | ⟨c, hc, h⟩)
        · exact ⟨[], a, as, b, rfl, rfl, h⟩
        · obtain ⟨before, a', after, b', rfl, hbefore, h⟩ := ih.1 h
          exact ⟨a :: before, a', after, b', rfl, foldlM_cons_eq_ok_iff.2 ⟨c, hc, hbefore⟩, h⟩
      · rintro ⟨before, a', after, b', has, hbefore, h⟩
        cases before with
        | nil =>
            cases has
            cases hbefore
            exact Or.inl h
        | cons a before =>
            cases has
            obtain ⟨c, hc, hbefore⟩ := foldlM_cons_eq_ok_iff.1 hbefore
            exact Or.inr ⟨c, hc, ih.2 ⟨before, a', after, b', rfl, hbefore, h⟩⟩

/-- A result that stays with more levels is endless or the same. -/
theorem StaysUnless.endless_or_eq (h : StaysUnless (.endlessSchema = ·) r r') :
    Endless r ∨ r = r' := by
  rcases h with ⟨e, rfl, he⟩ | rfl
  · exact Or.inl he.symm
  · exact Or.inr rfl

end Endless

/-! ### Results that are alike -/

section AlikeBy

variable {α β γ δ : Type} {key : α → γ} {key' : β → δ} {r r' : Except BuildError α}

/-- Two results are the same error, or values that are the same in some respect. -/
inductive AlikeBy (key : α → γ) : Except BuildError α → Except BuildError α → Prop where
  | error (e : BuildError) : AlikeBy key (.error e) (.error e)
  | ok {a a'} : key a = key a' → AlikeBy key (.ok a) (.ok a')

namespace AlikeBy

theorem bind {f f' : α → Except BuildError β} (h : AlikeBy key r r')
    (hf : ∀ a a', key a = key a' → AlikeBy key' (f a) (f' a')) :
    AlikeBy key' (r.bind f) (r'.bind f') := by
  cases h with
  | error e => exact .error e
  | ok hkey => exact hf _ _ hkey

theorem map {f f' : α → β} (h : AlikeBy key r r')
    (hf : ∀ a a', key a = key a' → key' (f a) = key' (f' a')) :
    AlikeBy key' (r.map f) (r'.map f') := by
  cases h with
  | error e => exact .error e
  | ok hkey => exact .ok (hf _ _ hkey)

theorem during (step : BuildStep) (h : AlikeBy key r r') :
    AlikeBy key (during step r) (during step r') := by
  cases h with
  | error e => exact .error _
  | ok hkey => exact .ok hkey

theorem foldlM {f f' : β → α → Except BuildError β}
    (hf : ∀ b b' a, key' b = key' b' → AlikeBy key' (f b a) (f' b' a)) (as : List α) {b b' : β}
    (hb : key' b = key' b') : AlikeBy key' (as.foldlM f b) (as.foldlM f' b') := by
  induction as generalizing b b' with
  | nil => exact .ok hb
  | cons a as ih =>
      rw [List.foldlM_cons, List.foldlM_cons]
      exact (hf b b' a hb).bind fun _ _ => ih

theorem endless_iff (h : AlikeBy key r r') : Endless r ↔ Endless r' := by
  cases h with
  | error e => exact Iff.rfl
  | ok => exact iff_of_false (not_endless_ok _) (not_endless_ok _)

theorem exists_ok {a : α} (h : AlikeBy key r r') (hr : r = .ok a) : ∃ a', r' = .ok a' := by
  cases h with
  | error e => cases hr
  | @ok _ a' _ => exact ⟨a', rfl⟩

end AlikeBy

end AlikeBy

end ServiceModel
