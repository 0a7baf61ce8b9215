import ServiceModel.Proofs.PathTemplate.Parsing
import ServiceModel.Proofs.Text.Longest

/-!
Where malformed templates break.  Every reader of path templates reads as far as the grammar goes, since the
marks that end its part cannot stand inside it.  So a template breaks behind the longest of its fronts that
are templates themselves, and behind the first slash if none is.
-/

namespace ServiceModel.PathTemplate

open Text (ReadsLongest Sequence Stops stops_cons byteLength byteLength_toList byteLength_append_sub
  byteLength_le_of_prefix isValid_byteLength readsLongest_run readsLongest_separated)

/-! ### Readers of each part -/

theorem readsLongest_literal : ReadsLongest literal? DerivesLiteral := by
  have hrun := (readsLongest_run isLiteralChar).map String.ofList
  apply hrun.imp
  rintro cs l ⟨rfl, hne, hall⟩
  exact ⟨l, l.toList, ⟨rfl, hne, hall⟩, String.ofList_toList.symm⟩

/-- One `*` may be read as the first of two. -/
theorem readsLongest_patternSegment : ReadsLongest patternSegment? DerivesPatternSegment := by
  intro front s hfront rest
  cases hfront with
  | multi => exact ⟨.multi, rest, rfl, Nat.le_refl _⟩
  | single =>
      by_cases hstar : ∃ tail, rest = '*' :: tail
      · obtain ⟨tail, rfl⟩ := hstar
        exact ⟨.multi, tail, rfl, Nat.le_succ _⟩
      · refine ⟨.single, rest, ?_, Nat.le_refl _⟩
        rw [List.singleton_append, patternSegment?]
        exact fun tail htail => hstar ⟨tail, htail⟩
  | literal hliteral =>
      obtain ⟨l, rest', hread, hle⟩ := readsLongest_literal hliteral rest
      refine ⟨.literal l, rest', ?_, hle⟩
      rw [patternSegment?_of_literal hliteral, hread]
      rfl

/-- A variable ends with its brace, and a literal with the last character of the alphabet. -/
theorem readsLongest_segment : ReadsLongest segment? DerivesSegment := by
  intro front s hfront rest
  cases hfront with
  | @braced v hvariable =>
      refine ⟨.variable v, rest, ?_, Nat.le_refl _⟩
      simp only [segment?, reads_variable.complete hvariable fun _ _ => rfl]
  | literal hliteral =>
      obtain ⟨l, rest', hread, hle⟩ := readsLongest_literal hliteral rest
      have hnone : bracedVariable? (front ++ rest) = none := bracedVariable?_of_literal hliteral rest
      refine ⟨.literal l, rest', ?_, hle⟩
      simp only [segment?, hnone, hread, Option.map_some]

theorem readsLongest_segments : ReadsLongest segments? DerivesSegments := by
  have hsequence : ReadsLongest (Text.separated '/' segment?) (Sequence '/' DerivesSegment) :=
    readsLongest_separated readsLongest_segment reads_segment (by decide)
  have hending : ∀ cs, (ending cs).2.length ≤ cs.length := by
    intro cs
    rcases ending_cases cs with heq | ⟨vs, v, rest, rfl, -, heq⟩
    · simp only [heq, Nat.le_refl]
    · simp only [heq, List.length_cons, List.length_append]
      omega
  intro front segments hfront rest
  unfold segments?
  cases hfront with
  | plain hplain =>
      obtain ⟨read, rest', hread, hle⟩ := hsequence hplain rest
      rw [hread]
      exact ⟨_, _, rfl, Nat.le_trans (hending rest') hle⟩
  | @verb cs vs _ v hplain hverb =>
      -- the colon ends the segments, so only the verb can be read any further
      have hread : Text.separated '/' segment? (cs ++ ':' :: (vs ++ rest)) =
          some (_, ':' :: (vs ++ rest)) :=
        reads_segmentSequence.complete hplain (stops_cons.2 (by decide))
      obtain ⟨w, rest', hliteral, hle⟩ := readsLongest_literal hverb rest
      rw [List.append_assoc, List.cons_append, hread]
      simp only [ending, hliteral]
      exact ⟨_, _, rfl, hle⟩

/-! ### Offsets -/

/-- Reading stops behind some front of a text, and there the text is malformed. -/
theorem malformedAt_append {s : String} {front rest : List Char} (h : s.toList = front ++ rest) :
    malformedAt s rest = .malformed s (byteLength front) (failureReason rest) := by
  rw [malformedAt, h, byteLength_append_sub]

/-- A malformed template has a slash in front.  Behind it nothing can be read, or not all of the text. -/
theorem parse_eq_malformed {s template reason : String} {offset : Nat}
    (h : parse s = .error (.malformed template offset reason)) :
    ∃ cs, s.toList = '/' :: cs ∧
      ((segments? cs = none ∧ offset = byteLength ['/']) ∨
        ∃ segments front rest, segments? cs = some (segments, rest) ∧ cs = front ++ rest ∧
          offset = byteLength ('/' :: front)) := by
  unfold parse at h
  split at h
  next cs hs =>
    refine ⟨cs, hs, ?_⟩
    split at h
    next hnone =>
      rw [malformedAt_append (show s.toList = ['/'] ++ cs from hs)] at h
      cases h
      exact Or.inl ⟨hnone, rfl⟩
    next segments hread =>
      dsimp only at h
      split at h <;> cases h
    next segments rest hne hread =>
      obtain ⟨front, rfl, -⟩ := reads_segments.sound hread
      rw [malformedAt_append (show s.toList = ('/' :: front) ++ rest from hs)] at h
      cases h
      exact Or.inr ⟨segments, front, rest, hread, rfl, rfl⟩
  next => cases h

/-- A text begins with a template from the grammar. -/
def DerivesFront (s front : String) : Prop := (∃ rest, s = front ++ rest) ∧ ∃ t, Derives front t

theorem derivesFront_iff {s : String} {cs : List Char} (hs : s.toList = '/' :: cs) {front : String} :
    DerivesFront s front ↔
      ∃ ds, front.toList = '/' :: ds ∧ ds <+: cs ∧ ∃ segments, DerivesSegments ds segments := by
  constructor
  · rintro ⟨⟨rest, rfl⟩, t, ds, hds, hderives⟩
    refine ⟨ds, hds, ⟨rest.toList, ?_⟩, _, hderives⟩
    rw [String.toList_append, hds, List.cons_append] at hs
    exact (List.cons.inj hs).2
  · rintro ⟨ds, hds, ⟨rest, rfl⟩, segments, hderives⟩
    refine ⟨⟨String.ofList rest, ?_⟩, ⟨segments⟩, ds, hds, hderives⟩
    rw [← String.toList_inj, String.toList_append, String.toList_ofList, hds, hs, List.cons_append]

/-- The offset of a malformed template is a place between its characters: the end of the longest front
that the grammar derives, or the end of the slash if it derives none. -/
theorem parse_offset {s template reason : String} {offset : Nat}
    (h : parse s = .error (.malformed template offset reason)) :
    (⟨offset⟩ : String.Pos.Raw).IsValid s ∧ offset ≤ s.utf8ByteSize ∧
      ((∃ front, DerivesFront s front ∧ offset = front.utf8ByteSize ∧
          ∀ other, DerivesFront s other → other.utf8ByteSize ≤ front.utf8ByteSize) ∨
        (∀ front, ¬DerivesFront s front) ∧ offset = 1) := by
  have hplace : ∀ front rest : List Char, s.toList = front ++ rest →
      (⟨byteLength front⟩ : String.Pos.Raw).IsValid s ∧ byteLength front ≤ s.utf8ByteSize := by
    intro front rest heq
    refine ⟨isValid_byteLength heq, ?_⟩
    rw [← byteLength_toList, heq]
    exact byteLength_le_of_prefix (List.prefix_append _ _)
  obtain ⟨cs, hs, ⟨hnone, rfl⟩ | ⟨segments, front, rest, hread, heq, rfl⟩⟩ := parse_eq_malformed h
  · obtain ⟨hvalid, hle⟩ := hplace ['/'] cs hs
    refine ⟨hvalid, hle, Or.inr ⟨fun front hfront => ?_, rfl⟩⟩
    obtain ⟨ds, -, hlead, hderives⟩ := (derivesFront_iff hs).1 hfront
    exact readsLongest_segments.not_front hnone hlead hderives
  · obtain ⟨hvalid, hle⟩ := hplace ('/' :: front) rest (by rw [hs, heq, List.cons_append])
    obtain ⟨front', heq', hderives, hlongest⟩ :=
      readsLongest_segments.longestFront reads_segments hread
    obtain rfl : front = front' := List.append_cancel_right (heq.symm.trans heq')
    have hbytes : (String.ofList ('/' :: front)).utf8ByteSize = byteLength ('/' :: front) := by
      rw [← byteLength_toList, String.toList_ofList]
    refine ⟨hvalid, hle, Or.inl ⟨String.ofList ('/' :: front), ?_, hbytes.symm, ?_⟩⟩
    · rw [derivesFront_iff hs, String.toList_ofList]
      exact ⟨front, rfl, hlongest.here, segments, hderives⟩
    · intro other hother
      obtain ⟨ds, hds, hlead, hother⟩ := (derivesFront_iff hs).1 hother
      rw [hbytes, ← byteLength_toList, hds]
      apply byteLength_le_of_prefix
      exact (List.prefix_cons_inj _).2 (hlongest.longest ds hother hlead)

/-- A variable that is not closed breaks its template in front of it, whatever letters it holds. -/
theorem parse_offset_unclosed :
    parse "/v1/\x7bname=é" = .error (.malformed "/v1/\x7bname=é" 3 "unbalanced \x60\x7b\x60") ∧
      (⟨3⟩ : String.Pos.Raw).IsValid "/v1/\x7bname=é" ∧ 3 ≤ "/v1/\x7bname=é".utf8ByteSize ∧
        ((∃ front, DerivesFront "/v1/\x7bname=é" front ∧ 3 = front.utf8ByteSize ∧
            ∀ other, DerivesFront "/v1/\x7bname=é" other →
              other.utf8ByteSize ≤ front.utf8ByteSize) ∨
          (∀ front, ¬DerivesFront "/v1/\x7bname=é" front) ∧ 3 = 1) := by
  have hparse : parse "/v1/\x7bname=é" =
      .error (.malformed "/v1/\x7bname=é" 3 "unbalanced \x60\x7b\x60") := by rfl
  exact ⟨hparse, parse_offset hparse⟩

end ServiceModel.PathTemplate
