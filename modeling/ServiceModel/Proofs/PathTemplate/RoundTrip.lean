import ServiceModel.Proofs.PathTemplate.Writing

/-!
The round trip of path templates.  A well-formed template derives from the text that it is written as,
so it is read back from it; and what is read from any text is well formed.
-/

namespace ServiceModel.PathTemplate

open Text (Sequence sequence_join)

/-! ### From templates to texts -/

theorem DerivesPatternSegment.of_text {s : VariableSegment}
    (h : ∀ l, s = .literal l → IsLiteral l) : DerivesPatternSegment s.text.toList s := by
  cases s with
  | literal l => exact .literal ⟨rfl, h l rfl⟩
  | single => exact .single
  | multi => exact .multi

/-- A well-formed variable is derived by what it is written as. -/
theorem DerivesVariable.of_text {v : PathVariable} (h : v.WellFormed) :
    DerivesVariable v.text.toList v := by
  obtain ⟨path, pattern⟩ := v
  have hpath : Sequence '.' DerivesIdentifier (Text.join "." (path.map id)).toList path :=
    sequence_join rfl id h.path fun n hn => ⟨rfl, h.identifiers n hn⟩
  rw [List.map_id] at hpath
  have hpattern : Sequence '/' DerivesPatternSegment
      (Text.join "/" (pattern.map VariableSegment.text)).toList pattern :=
    sequence_join rfl _ h.pattern fun s hs => .of_text fun l hl => h.literals l (hl ▸ hs)
  rw [PathVariable.text]
  split
  next hsingle =>
    have hplain := DerivesVariable.plain hpath
    rw [← hsingle] at hplain
    simpa [PathVariable.dottedPath] using hplain
  next =>
    have hbound := DerivesVariable.bound hpath hpattern
    simpa [PathVariable.dottedPath, PathVariable.patternText] using hbound

theorem mem_pathVariables_iff {t : PathTemplate} {v : PathVariable} :
    v ∈ t.pathVariables ↔ .variable v ∈ t.segments := by
  rw [pathVariables, List.mem_filterMap]
  constructor
  · rintro ⟨x, hx, hbound⟩
    match x with
    | .literal l => cases hbound
    | .variable u =>
        cases hbound
        exact hx
    | .verb u => cases hbound
  · intro h
    exact ⟨.variable v, h, rfl⟩

/-- What is written after the slash of a segment derives the segment. -/
theorem exists_derivesSegment {t : PathTemplate} (h : t.WellFormed) {s : PathSegment}
    (hs : s ∈ t.segments) (hverb : s.verb? = none) :
    ∃ cs, s.text.toList = '/' :: cs ∧ DerivesSegment cs s := by
  match s with
  | .literal l =>
      refine ⟨l.toList, ?_, .literal ⟨rfl, h.literals l hs⟩⟩
      rw [PathSegment.text, String.toList_append]
      rfl
  | .variable v =>
      have hv := h.bound v (mem_pathVariables_iff.2 hs)
      refine ⟨v.text.toList, ?_, .braced (.of_text hv)⟩
      rw [PathSegment.text, String.toList_append]
      rfl
  | .verb v => cases hverb

/-- Segments that are written one after the other are a sequence after the first slash. -/
theorem exists_sequence {segments : List PathSegment} (hne : segments ≠ [])
    (h : ∀ s ∈ segments, ∃ cs, s.text.toList = '/' :: cs ∧ DerivesSegment cs s) :
    ∃ cs, segments.flatMap (·.text.toList) = '/' :: cs ∧ Sequence '/' DerivesSegment cs segments := by
  match segments with
  | [] => exact absurd rfl hne
  | [s] =>
      obtain ⟨cs, hcs, hs⟩ := h s List.mem_cons_self
      exact ⟨cs, by rw [List.flatMap_singleton, hcs], .one hs⟩
  | s :: u :: rest =>
      obtain ⟨cs, hcs, hs⟩ := h s List.mem_cons_self
      obtain ⟨cs', hcs', hrest⟩ := exists_sequence (List.cons_ne_nil u rest)
        fun x hx => h x (List.mem_cons_of_mem s hx)
      refine ⟨cs ++ '/' :: cs', ?_, .more hs hrest⟩
      rw [List.flatMap_cons, hcs', hcs, List.cons_append]

theorem eq_verb_of_verb? {s : PathSegment} {v : String} (h : s.verb? = some v) : s = .verb v := by
  match s with
  | .literal l => cases h
  | .variable u => cases h
  | .verb u =>
      cases h
      rfl

/-- A well-formed template has segments other than a verb, and then perhaps a verb. -/
theorem WellFormed.segments_eq {t : PathTemplate} (h : t.WellFormed) :
    ∃ (read : List PathSegment) (verb : Option String),
      t.segments = read ++ verb.toList.map .verb ∧ read ≠ [] ∧ ∀ s ∈ read, s.verb? = none := by
  obtain ⟨s, hs, hnonverb⟩ := h.nonverb
  -- a verb with anything behind it stands in the wrong place
  have hinner : ∀ {init last}, t.segments = init ++ [last] → ∀ x ∈ init, x.verb? = none := by
    intro init last heq x hx
    obtain ⟨before, after, hsplit⟩ := List.append_of_mem hx
    match x with
    | .literal l => rfl
    | .variable v => rfl
    | .verb v =>
        rw [hsplit, List.append_assoc] at heq
        exact absurd (h.verbLast before v (after ++ [last]) heq) (by simp)
  rcases List.eq_nil_or_concat t.segments with hnil | ⟨init, last, heq⟩
  · rw [hnil] at hs
    cases hs
  · rw [List.concat_eq_append] at heq
    cases hlast : last.verb? with
    | none =>
        refine ⟨init ++ [last], none, by simpa using heq, by simp, fun x hx => ?_⟩
        rcases List.mem_append.1 hx with hx | hx
        · exact hinner heq x hx
        · rw [List.mem_singleton.1 hx]
          exact hlast
    | some v =>
        rw [eq_verb_of_verb? hlast] at heq
        refine ⟨init, some v, heq, ?_, hinner heq⟩
        rintro rfl
        rw [heq, List.nil_append, List.mem_singleton] at hs
        rw [hs] at hnonverb
        cases hnonverb

/-- A well-formed template is derived by what it is written as. -/
theorem Derives.of_text {t : PathTemplate} (h : t.WellFormed) : Derives t.text t := by
  obtain ⟨read, verb, heq, hne, hnonverb⟩ := h.segments_eq
  obtain ⟨cs, hcs, hsequence⟩ := exists_sequence hne fun s hs =>
    exists_derivesSegment h (heq ▸ List.mem_append_left _ hs) (hnonverb s hs)
  rw [Derives, toList_text, heq, List.flatMap_append, hcs]
  cases verb with
  | none =>
      refine ⟨cs, List.append_nil _, ?_⟩
      rw [Option.toList_none, List.map_nil, List.append_nil]
      exact .plain hsequence
  | some v =>
      have hv : IsLiteral v := h.verbs v (heq ▸ List.mem_append_right _ List.mem_cons_self)
      refine ⟨cs ++ ':' :: v.toList, ?_, .verb hsequence ⟨rfl, hv⟩⟩
      rw [Option.toList_some, List.map_singleton, List.flatMap_singleton, PathSegment.text,
        String.toList_append]
      rfl

/-! ### From texts to templates -/

/-- The variables that are derived are well formed, but for the place of `**`. -/
theorem DerivesVariable.wellFormed {cs : List Char} {v : PathVariable} (h : DerivesVariable cs v)
    (hlast : MultiLast v.segments) : v.WellFormed := by
  cases h with
  | plain hpath =>
      refine ⟨hpath.ne_nil, hpath.forall_mem fun _ _ hn => hn.2, by simp, fun l hl => ?_, hlast⟩
      simp at hl
  | bound hpath hps =>
      refine ⟨hpath.ne_nil, hpath.forall_mem fun _ _ hn => hn.2, hps.ne_nil, ?_, hlast⟩
      have hliterals := hps.forall_mem (P := fun s => ∀ l, s = .literal l → IsLiteral l) ?_
      · exact fun l hl => hliterals _ hl l rfl
      · rintro cs s hs l rfl
        cases hs with
        | literal hl => exact hl.2

theorem DerivesSegment.verb?_eq_none {cs : List Char} {s : PathSegment}
    (h : DerivesSegment cs s) : s.verb? = none := by
  cases h <;> rfl

theorem DerivesSegment.isLiteral {cs : List Char} {l : String}
    (h : DerivesSegment cs (.literal l)) : IsLiteral l := by
  cases h with
  | literal hl => exact hl.2

/-- What is derived are segments other than a verb, and then perhaps a verb. -/
theorem DerivesSegments.segments_eq {cs : List Char} {segments : List PathSegment}
    (h : DerivesSegments cs segments) :
    ∃ (read : List PathSegment) (verb : Option String),
      segments = read ++ verb.toList.map .verb ∧ read ≠ [] ∧
        (∀ x ∈ read, ∃ cs, DerivesSegment cs x) ∧ ∀ v ∈ verb, IsLiteral v := by
  cases h with
  | plain h =>
      refine ⟨segments, none, ?_, h.ne_nil, h.forall_mem fun cs _ hx => ⟨cs, hx⟩, nofun⟩
      exact (List.append_nil segments).symm
  | @verb _ _ read v h hverb =>
      refine ⟨read, some v, rfl, h.ne_nil, h.forall_mem fun cs _ hx => ⟨cs, hx⟩, fun w hw => ?_⟩
      cases hw
      exact hverb.2

/-- A template that is derived is well formed if it follows the rule for `**`. -/
theorem Derives.wellFormed {s : String} {t : PathTemplate} (h : Derives s t)
    (hlast : ∀ v ∈ t.pathVariables, MultiLast v.segments) : t.WellFormed := by
  obtain ⟨cs, -, hsegments⟩ := h
  obtain ⟨read, verb, heq, hne, hread, hverb⟩ := hsegments.segments_eq
  have hnonverb : ∀ v, .verb v ∉ read := by
    intro v hv
    obtain ⟨cs, hcs⟩ := hread _ hv
    cases hcs
  have hmem : ∀ x ∈ t.segments, (∃ cs, DerivesSegment cs x) ∨ ∃ v, IsLiteral v ∧ x = .verb v := by
    intro x hx
    rw [heq] at hx
    rcases List.mem_append.1 hx with hx | hx
    · exact Or.inl (hread x hx)
    · obtain ⟨v, hv, rfl⟩ := List.mem_map.1 hx
      exact Or.inr ⟨v, hverb v (Option.mem_toList.1 hv), rfl⟩
  refine ⟨?_, fun before v after hsplit => ?_, fun l hl => ?_, fun v hv => ?_, fun v hv => ?_⟩
  · obtain ⟨x, hx⟩ := List.exists_mem_of_ne_nil read hne
    obtain ⟨cs, hcs⟩ := hread x hx
    exact ⟨x, heq ▸ List.mem_append_left _ hx, hcs.verb?_eq_none⟩
  · cases after with
    | nil => rfl
    | cons a rest =>
        exfalso
        -- without the last segment, the verb in front of it is still there
        have hv : PathSegment.verb v ∈ t.segments.dropLast := by
          rw [hsplit, List.dropLast_append_cons, List.dropLast_cons_cons]
          exact List.mem_append_right _ List.mem_cons_self
        rw [heq] at hv
        cases verb with
        | none =>
            rw [Option.toList_none, List.map_nil, List.append_nil] at hv
            exact hnonverb v (List.dropLast_subset _ hv)
        | some w =>
            rw [Option.toList_some, List.map_singleton, List.dropLast_concat] at hv
            exact hnonverb v hv
  · rcases hmem _ hl with ⟨cs, hcs⟩ | ⟨v, -, hl⟩
    · exact hcs.isLiteral
    · cases hl
  · rcases hmem _ hv with ⟨cs, hcs⟩ | ⟨w, hw, hv⟩
    · cases hcs
    · cases hv
      exact hw
  · rcases hmem _ (mem_pathVariables_iff.1 hv) with ⟨cs, hcs⟩ | ⟨w, -, hw⟩
    · cases hcs with
      | braced hvariable => exact hvariable.wellFormed (hlast v hv)
    · cases hw

/-! ### There and back -/

/-- Templates are read back from what they are written as. -/
theorem parse_text {t : PathTemplate} (h : t.WellFormed) : parse t.text = .ok t := by
  have hnone : t.pathVariables.find? (hasMisplacedMulti ·.segments) = none :=
    find?_misplaced_eq_none_iff.2 fun v hv => (h.bound v hv).multiLast
  rw [parse_of_derives (Derives.of_text h), hnone]

/-- A template that was read is written as the text it was read from, each `{path=*}` shortened to
`{path}`, and read back from it; and so is every well-formed template from what it is written as. -/
theorem text_roundTrip :
    (∀ s t, parse s = .ok t →
      t.text = String.ofList (shorten s.toList) ∧ parse t.text = .ok t) ∧
      ∀ t : PathTemplate, t.WellFormed → parse t.text = .ok t := by
  refine ⟨fun s t h => ?_, fun t h => parse_text h⟩
  cases verdict_of_parse h with
  | accepted hderives hlast =>
      refine ⟨?_, parse_text (hderives.wellFormed hlast)⟩
      rw [← toList_text_of_derives hderives, String.ofList_toList]

/-- A template with a pattern that goes without saying, one that does not, and a verb. -/
def mixed : PathTemplate :=
  ⟨[.literal "v1", .variable ⟨["name"], [.single]⟩,
    .variable ⟨["a", "b"], [.literal "x=y", .multi]⟩, .verb "get"]⟩

theorem text_roundTrip_mixed :
    parse "/v1/\x7bname=*\x7d/\x7ba.b=x=y/**\x7d:get" = .ok mixed ∧ mixed.WellFormed ∧
      mixed.text =
        String.ofList (shorten "/v1/\x7bname=*\x7d/\x7ba.b=x=y/**\x7d:get".toList) ∧
      parse mixed.text = .ok mixed := by
  have hparse : parse "/v1/\x7bname=*\x7d/\x7ba.b=x=y/**\x7d:get" = .ok mixed := by
    rfl
  have hwellFormed : mixed.WellFormed := by
    cases verdict_of_parse hparse with
    | accepted hderives hlast => exact hderives.wellFormed hlast
  exact ⟨hparse, hwellFormed, (text_roundTrip.1 _ _ hparse).1, text_roundTrip.2 _ hwellFormed⟩

example : mixed.text = "/v1/\x7bname\x7d/\x7ba.b=x=y/**\x7d:get" := by decide +kernel

end ServiceModel.PathTemplate
