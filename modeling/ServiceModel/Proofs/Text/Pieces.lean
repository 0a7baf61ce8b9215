import ServiceModel.Proofs.Text.Scan

/-!
Pieces of texts.  What is cut out of a sequence is a sequence again, but for a mark at either end, if what is
cut out of an item is an item again.  And where a text has a piece first does not change when the text goes
on.
-/

namespace ServiceModel.Text

/-! ### Pieces of sequences -/

section Pieces

variable {α : Type} {sep : Char} {language : List Char → α → Prop}

/-- A sequence, perhaps with a mark behind it. -/
def Trailing (sep : Char) (language : List Char → α → Prop) (cs : List Char) : Prop :=
  ∃ as, Sequence sep language cs as ∨
    ∃ front, cs = front ++ [sep] ∧ Sequence sep language front as

/-- Every piece of a text of the language belongs to it. -/
def ClosedUnderPieces (language : List Char → α → Prop) : Prop :=
  ∀ ⦃cs a⦄, language cs a → ∀ part, part <:+: cs → part ≠ [] → ∃ b, language part b

theorem Sequence.front (hlanguage : ClosedUnderPieces language) {cs front : List Char} {as : List α}
    (h : Sequence sep language cs as) (hfront : front <+: cs) (hne : front ≠ []) :
    Trailing sep language front := by
  induction h generalizing front with
  | one hitem =>
      obtain ⟨b, hb⟩ := hlanguage hitem front hfront.isInfix hne
      exact ⟨[b], Or.inl (.one hb)⟩
  | @more item rest a as hitem hrest ih =>
      obtain ⟨back, heq⟩ := hfront
      rcases List.append_eq_append_iff.1 heq with ⟨tail, hitemeq, -⟩ | ⟨tail, rfl, htail⟩
      · obtain ⟨b, hb⟩ := hlanguage hitem front ⟨[], tail, by rw [hitemeq, List.nil_append]⟩ hne
        exact ⟨[b], Or.inl (.one hb)⟩
      · cases tail with
        | nil => exact ⟨[a], Or.inl (by rw [List.append_nil]; exact .one hitem)⟩
        | cons c tail =>
            obtain ⟨rfl, rfl⟩ := List.cons.inj htail
            by_cases hnil : tail = []
            · rw [hnil]
              exact ⟨[a], Or.inr ⟨item, rfl, .one hitem⟩⟩
            · obtain ⟨bs, hbs | ⟨front, rfl, hbs⟩⟩ := ih (List.prefix_append _ _) hnil
              · exact ⟨a :: bs, Or.inl (.more hitem hbs)⟩
              · exact ⟨a :: bs, Or.inr ⟨_, by simp, .more hitem hbs⟩⟩

theorem Sequence.back (hlanguage : ClosedUnderPieces language) {cs back : List Char} {as : List α}
    (h : Sequence sep language cs as) (hback : back <:+ cs) (hne : back ≠ []) :
    back.head? = some sep ∨ ∃ bs, Sequence sep language back bs := by
  induction h generalizing back with
  | one hitem =>
      obtain ⟨b, hb⟩ := hlanguage hitem back hback.isInfix hne
      exact Or.inr ⟨[b], .one hb⟩
  | @more item rest a as hitem hrest ih =>
      obtain ⟨front, heq⟩ := hback
      rcases List.append_eq_append_iff.1 heq with ⟨tail, rfl, rfl⟩ | ⟨tail, rfl, htail⟩
      · cases tail with
        | nil => exact Or.inl rfl
        | cons c tail =>
            obtain ⟨b, hb⟩ := hlanguage hitem (c :: tail) (List.suffix_append _ _).isInfix (by simp)
            exact Or.inr ⟨b :: as, .more hb hrest⟩
      · cases tail with
        | nil =>
            rw [List.nil_append] at htail
            rw [← htail]
            exact Or.inl rfl
        | cons c tail =>
            obtain ⟨rfl, rfl⟩ := List.cons.inj htail
            exact ih (List.suffix_append _ _) hne

/-- A piece of a sequence that has a mark behind it begins with a mark, or is such a sequence, perhaps
without the mark. -/
theorem Sequence.piece (hlanguage : ClosedUnderPieces language) {cs part : List Char} {as : List α}
    (h : Sequence sep language cs as) (hpart : part <:+: cs ++ [sep]) (hne : part ≠ []) :
    part.head? = some sep ∨ Trailing sep language part := by
  have hstart : ∀ {ds : List Char}, ds ≠ [] → ∀ es, (ds ++ es).head? = ds.head? := by
    intro ds hds es
    obtain ⟨d, ds, rfl⟩ := List.exists_cons_of_ne_nil hds
    rfl
  obtain ⟨front, back, heq⟩ := hpart
  rcases List.eq_nil_or_concat back with rfl | ⟨back, c, rfl⟩
  · -- the piece ends with the mark
    obtain ⟨part, c, rfl⟩ := (List.eq_nil_or_concat part).resolve_left hne
    rw [List.append_nil, List.concat_eq_append, ← List.append_assoc] at heq
    obtain ⟨rfl, rfl⟩ := List.append_inj' heq rfl |>.imp_right List.singleton_inj.1
    by_cases hnil : part = []
    · rw [hnil]
      exact Or.inl rfl
    rcases h.back hlanguage (List.suffix_append front part) hnil with hhead | ⟨bs, hbs⟩
    · rw [List.concat_eq_append, hstart hnil]
      exact Or.inl hhead
    · exact Or.inr ⟨bs, Or.inr ⟨part, List.concat_eq_append, hbs⟩⟩
  · rw [List.concat_eq_append, ← List.append_assoc] at heq
    obtain ⟨rfl, -⟩ := List.append_inj' heq rfl
    have hsuffix : part ++ back <:+ front ++ part ++ back := by
      rw [List.append_assoc]
      exact List.suffix_append _ _
    rcases h.back hlanguage hsuffix (by simp [hne]) with hhead | ⟨bs, hbs⟩
    · rw [hstart hne] at hhead
      exact Or.inl hhead
    · exact Or.inr (hbs.front hlanguage (List.prefix_append _ _) hne)

end Pieces

/-! ### First occurrences -/

/-- A part of a text that stands there, and nowhere before. -/
structure FirstOccurrence (part cs early late : List Char) : Prop where
  text : cs = early ++ part ++ late
  first : ∀ early' late', cs = early' ++ part ++ late' → early <+: early'

theorem FirstOccurrence.unique {part cs early late early' late' : List Char}
    (h : FirstOccurrence part cs early late) (h' : FirstOccurrence part cs early' late') :
    early = early' :=
  (h.first early' late' h'.text).eq_of_length_le (h'.first early late h.text).length_le

/-- The first occurrence in the front of a text is the first of all. -/
theorem FirstOccurrence.append {part cs early late : List Char}
    (h : FirstOccurrence part cs early late) (back : List Char) :
    FirstOccurrence part (cs ++ back) early (late ++ back) := by
  have htext : cs ++ back = early ++ part ++ (late ++ back) := by
    rw [h.text, List.append_assoc]
  refine ⟨htext, fun early' late' heq => ?_⟩
  have hlead : early <+: cs ++ back := ⟨part ++ (late ++ back), by rw [htext, List.append_assoc]⟩
  have hlead' : early' <+: cs ++ back := ⟨part ++ late', by rw [heq, List.append_assoc]⟩
  rcases List.prefix_or_prefix_of_prefix hlead hlead' with hle | hle
  · exact hle
  · -- an earlier occurrence would lie in the front as well
    have hlength := congrArg List.length h.text
    simp only [List.length_append] at hlength
    have hwithin : early' ++ part <+: cs := by
      apply List.prefix_of_prefix_length_le ⟨late', heq.symm⟩ (List.prefix_append cs back)
      have := hle.length_le
      simp only [List.length_append]
      omega
    obtain ⟨late'', hlate''⟩ := hwithin
    exact h.first early' late'' hlate''.symm

/-- A part without a mark, which stands behind the first mark and not in front of it, is found there. -/
theorem firstOccurrence_behind {mark : Char} {part front : List Char} (hmark : mark ∉ part)
    (hfront : ¬part <:+: front) (back : List Char) :
    FirstOccurrence part (front ++ mark :: (part ++ back)) (front ++ [mark]) back := by
  refine ⟨by simp, fun early late heq => ?_⟩
  have hlead : front ++ [mark] <+: front ++ mark :: (part ++ back) := ⟨part ++ back, by simp⟩
  have hlead' : early <+: front ++ mark :: (part ++ back) := ⟨part ++ late, by rw [heq]; simp⟩
  rcases List.prefix_or_prefix_of_prefix hlead hlead' with hle | hle
  · exact hle
  · rcases List.prefix_concat_iff.1 hle with rfl | ⟨middle, rfl⟩
    · exact List.prefix_refl _
    · -- the part begins in front of the mark, and so it ends there or holds the mark
      rw [List.append_assoc, List.append_assoc, List.append_cancel_left_eq] at heq
      rcases List.append_eq_append_iff.1 heq with ⟨tail, rfl, htail⟩ | ⟨tail, rfl, -⟩
      · cases tail with
        | nil =>
            rw [List.append_nil] at hfront
            exact absurd (List.suffix_append early middle).isInfix hfront
        | cons d tail =>
            obtain ⟨rfl, -⟩ := List.cons.inj htail
            exact absurd (by simp) hmark
      · exact absurd ⟨early, tail, by simp⟩ hfront

end ServiceModel.Text
