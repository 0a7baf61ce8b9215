import ServiceModel.Proofs.PathTemplate.Grammar

/-!
Each reader of path templates reads its part of the grammar.  A text is taken apart at its marks, none
of which can stand in what comes before: so reading as much as possible never reads too much, and the
readers accept every text that the grammar derives.
-/

namespace ServiceModel.PathTemplate

open Text (Reads Sequence Stops stops_cons reads_run reads_runAfter reads_separated)

/-! ### Readers of each part -/

theorem reads_literal : Reads literal? DerivesLiteral isLiteralChar := by
  have hrun := (reads_run isLiteralChar).map String.ofList
  constructor
  · intro cs l rest hread
    obtain ⟨front, rfl, taken, ⟨rfl, hne, hall⟩, rfl⟩ := hrun.sound hread
    refine ⟨front, rfl, String.toList_ofList, ?_⟩
    rw [IsLiteral, String.toList_ofList]
    exact ⟨hne, hall⟩
  · rintro front l rest ⟨rfl, hne, hall⟩ hstop
    exact hrun.complete ⟨l.toList, ⟨rfl, hne, hall⟩, String.ofList_toList.symm⟩ hstop

theorem reads_identifier : Reads identifier? DerivesIdentifier isIdentifierChar := by
  have hrun := (reads_runAfter isIdentifierStart isIdentifierChar).map String.ofList
  constructor
  · intro cs n rest hread
    obtain ⟨front, rfl, taken, ⟨rfl, hfirst⟩, rfl⟩ := hrun.sound hread
    refine ⟨front, rfl, String.toList_ofList, ?_⟩
    rw [IsIdentifier, String.toList_ofList]
    exact hfirst
  · rintro front n rest ⟨rfl, hfirst⟩ hstop
    exact hrun.complete ⟨n.toList, ⟨rfl, hfirst⟩, String.ofList_toList.symm⟩ hstop

/-- A text that begins with a literal begins with no wildcard. -/
theorem patternSegment?_of_literal {cs : List Char} {l : String} (h : DerivesLiteral cs l)
    (rest : List Char) : patternSegment? (cs ++ rest) =
      (literal? (cs ++ rest)).map fun (l, rest) => (.literal l, rest) := by
  obtain ⟨c, tail, rfl, hc⟩ := h.exists_cons
  have hstar : c ≠ '*' := by
    rintro rfl
    exact absurd hc (by decide)
  rw [patternSegment?]
  · intro after heq
    exact hstar (List.cons.inj heq).1
  · intro after heq
    exact hstar (List.cons.inj heq).1

theorem reads_patternSegment :
    Reads patternSegment? DerivesPatternSegment (fun c => isLiteralChar c || c == '*') := by
  constructor
  · intro cs s rest hread
    unfold patternSegment? at hread
    split at hread
    · cases hread
      exact ⟨['*', '*'], rfl, .multi⟩
    · cases hread
      exact ⟨['*'], rfl, .single⟩
    · obtain ⟨⟨l, rest'⟩, hliteral, heq⟩ := Option.map_eq_some_iff.1 hread
      cases heq
      obtain ⟨front, hcs, hfront⟩ := reads_literal.sound hliteral
      exact ⟨front, hcs, .literal hfront⟩
  · intro front s rest hfront hstop
    cases hfront with
    | multi => rfl
    | single =>
        rw [List.singleton_append, patternSegment?]
        rintro tail rfl
        exact absurd (stops_cons.1 hstop) (by decide)
    | literal h =>
        have hmore : Stops isLiteralChar rest :=
          fun d hd => (Bool.or_eq_false_iff.1 (hstop d hd)).1
        rw [patternSegment?_of_literal h, reads_literal.complete h hmore]
        rfl

/-- A field path goes on with more identifiers or more characters of its last one. -/
theorem reads_fieldPath :
    Reads (Text.separated '.' identifier?) (Sequence '.' DerivesIdentifier)
      (fun c => isIdentifierChar c || c == '.') :=
  reads_separated reads_identifier (by decide)

/-- A pattern goes on with more segments or more characters of its last one. -/
theorem reads_pattern :
    Reads (Text.separated '/' patternSegment?) (Sequence '/' DerivesPatternSegment)
      (fun c => (isLiteralChar c || c == '*') || c == '/') :=
  reads_separated reads_patternSegment (by decide)

/-- A pattern before a closing brace is missing, or it is all there is in between. -/
theorem pattern_eq_iff {cs rest : List Char} {segments : List VariableSegment} :
    pattern cs = (segments, '\x7d' :: rest) ↔
      (cs = '\x7d' :: rest ∧ segments = [.single]) ∨
        ∃ ps, cs = '=' :: (ps ++ '\x7d' :: rest) ∧
          Sequence '/' DerivesPatternSegment ps segments := by
  constructor
  · intro h
    unfold pattern at h
    split at h
    · split at h
      next found hread =>
        cases h
        obtain ⟨ps, rfl, hps⟩ := reads_pattern.sound hread
        exact Or.inr ⟨ps, rfl, hps⟩
      next => cases h
    · cases h
      exact Or.inl ⟨rfl, rfl⟩
  · rintro (⟨rfl, rfl⟩ | ⟨ps, rfl, hps⟩)
    · rfl
    · rw [pattern, reads_pattern.complete hps (stops_cons.2 (by decide))]

/-- A variable ends with its closing brace, whatever follows. -/
theorem reads_variable : Reads bracedVariable? DerivesVariable (fun _ => false) := by
  constructor
  · intro cs v rest hread
    unfold bracedVariable? at hread
    split at hread
    · split at hread
      · cases hread
      next path rest₁ hpath =>
        split at hread
        next segments rest₂ hpattern =>
          cases hread
          obtain ⟨front, rfl, hfront⟩ := reads_fieldPath.sound hpath
          rcases pattern_eq_iff.1 hpattern with ⟨rfl, rfl⟩ | ⟨ps, rfl, hps⟩
          · refine ⟨_, ?_, .plain hfront⟩
            simp
          · refine ⟨_, ?_, .bound hfront hps⟩
            simp
        next => cases hread
    · cases hread
  · intro front v rest hfront _
    cases hfront with
    | @plain cs path hpath =>
        have hread : Text.separated '.' identifier? (cs ++ '\x7d' :: rest) =
            some (path, '\x7d' :: rest) :=
          reads_fieldPath.complete hpath (stops_cons.2 (by decide))
        rw [List.cons_append, List.append_assoc, List.singleton_append, bracedVariable?, hread]
        rfl
    | @bound cs ps path pattern hpath hps =>
        have hread : Text.separated '.' identifier? (cs ++ '=' :: (ps ++ '\x7d' :: rest)) =
            some (path, '=' :: (ps ++ '\x7d' :: rest)) :=
          reads_fieldPath.complete hpath (stops_cons.2 (by decide))
        rw [List.cons_append, List.append_assoc, List.cons_append, List.append_assoc,
          List.singleton_append, bracedVariable?, hread]
        simp only [pattern_eq_iff.2 (Or.inr ⟨ps, rfl, hps⟩)]

theorem bracedVariable?_of_literal {cs : List Char} {l : String} (h : DerivesLiteral cs l)
    (rest : List Char) : bracedVariable? (cs ++ rest) = none := by
  obtain ⟨c, tail, rfl, hc⟩ := h.exists_cons
  rw [bracedVariable?]
  intro after heq
  rw [(List.cons.inj heq).1] at hc
  exact absurd hc (by decide)

/-- Segments are told apart by their first character. -/
theorem reads_segment : Reads segment? DerivesSegment isLiteralChar := by
  constructor
  · intro cs s rest hread
    unfold segment? at hread
    split at hread
    next v rest₁ hvariable =>
      cases hread
      obtain ⟨front, hcs, hfront⟩ := reads_variable.sound hvariable
      exact ⟨front, hcs, .braced hfront⟩
    next =>
      obtain ⟨⟨l, rest'⟩, hliteral, heq⟩ := Option.map_eq_some_iff.1 hread
      cases heq
      obtain ⟨front, hcs, hfront⟩ := reads_literal.sound hliteral
      exact ⟨front, hcs, .literal hfront⟩
  · intro front s rest hfront hstop
    cases hfront with
    | literal h =>
        simp only [segment?, bracedVariable?_of_literal h rest, reads_literal.complete h hstop]
        rfl
    | braced h =>
        simp only [segment?, reads_variable.complete h fun _ _ => rfl]

theorem reads_segmentSequence :
    Reads (Text.separated '/' segment?) (Sequence '/' DerivesSegment)
      (fun c => isLiteralChar c || c == '/') :=
  reads_separated reads_segment (by decide)

/-- The verb at the end is missing, or it is all that is read after the colon. -/
theorem ending_cases (cs : List Char) :
    ending cs = ([], cs) ∨
      ∃ vs v rest, cs = ':' :: (vs ++ rest) ∧ DerivesLiteral vs v ∧
        ending cs = ([.verb v], rest) := by
  unfold ending
  split
  · split
    next v rest hliteral =>
      obtain ⟨vs, rfl, hvs⟩ := reads_literal.sound hliteral
      exact Or.inr ⟨vs, v, rest, rfl, hvs, rfl⟩
    next => exact Or.inl rfl
  · exact Or.inl rfl

theorem reads_segments :
    Reads segments? DerivesSegments (fun c => (isLiteralChar c || c == '/') || c == ':') := by
  constructor
  · intro cs segments rest hread
    unfold segments? at hread
    split at hread
    · cases hread
    next read rest₁ hsegments =>
      obtain ⟨front, rfl, hfront⟩ := reads_segmentSequence.sound hsegments
      rcases ending_cases rest₁ with hending | ⟨vs, v, rest₂, rfl, hvs, hending⟩
      · rw [hending] at hread
        cases hread
        rw [List.append_nil]
        exact ⟨front, rfl, .plain hfront⟩
      · rw [hending] at hread
        cases hread
        refine ⟨_, ?_, .verb hfront hvs⟩
        simp
  · intro front segments rest hfront hstop
    have hmore : Stops (fun c => isLiteralChar c || c == '/') rest :=
      fun c hc => (Bool.or_eq_false_iff.1 (hstop c hc)).1
    cases hfront with
    | plain h =>
        have hending : ending rest = ([], rest) := by
          rw [ending]
          rintro after rfl
          exact absurd (stops_cons.1 hstop) (by decide)
        simp only [segments?, reads_segmentSequence.complete h hmore, hending, List.append_nil]
    | @verb cs vs read v h hverb =>
        have hliteral : Stops isLiteralChar rest :=
          fun c hc => (Bool.or_eq_false_iff.1 (hmore c hc)).1
        have hread : Text.separated '/' segment? (cs ++ ':' :: (vs ++ rest)) =
            some (read, ':' :: (vs ++ rest)) :=
          reads_segmentSequence.complete h (stops_cons.2 (by decide))
        rw [List.append_assoc, List.cons_append]
        simp only [segments?, hread, ending, reads_literal.complete hverb hliteral]

/-! ### Parsing -/

/-- A text that begins with a slash is read to its end exactly if it derives what is read. -/
theorem segments?_eq_some_nil_iff {s : String} {cs : List Char} (hs : s.toList = '/' :: cs)
    {segments : List PathSegment} : segments? cs = some (segments, []) ↔ Derives s ⟨segments⟩ := by
  rw [reads_segments.whole_iff]
  constructor
  · intro h
    exact ⟨cs, hs, h⟩
  · rintro ⟨cs', hs', h⟩
    rw [hs] at hs'
    cases hs'
    exact h

theorem find?_misplaced_eq_none_iff {vs : List PathVariable} :
    vs.find? (hasMisplacedMulti ·.segments) = none ↔ ∀ v ∈ vs, MultiLast v.segments := by
  rw [List.find?_eq_none]
  simp only [Bool.not_eq_true, hasMisplacedMulti_eq_false_iff]

/-- The first variable that breaks the rule for `**`. -/
theorem find?_misplaced_eq_some_iff {vs : List PathVariable} {v : PathVariable} :
    vs.find? (hasMisplacedMulti ·.segments) = some v ↔
      ∃ before after, vs = before ++ v :: after ∧
        (∀ u ∈ before, MultiLast u.segments) ∧ ¬MultiLast v.segments := by
  rw [List.find?_eq_some_iff_append]
  simp only [Bool.not_eq_true', ← hasMisplacedMulti_eq_false_iff, Bool.not_eq_false]
  constructor
  · rintro ⟨hv, before, after, hvs, hbefore⟩
    exact ⟨before, after, hvs, hbefore, hv⟩
  · rintro ⟨before, after, hvs, hbefore, hv⟩
    exact ⟨hv, before, after, hvs, hbefore⟩

/-- The outcome of parsing a text that derives a template hangs on the rule for `**` alone. -/
theorem parse_of_derives {s : String} {t : PathTemplate} (h : Derives s t) :
    parse s =
      match t.pathVariables.find? (hasMisplacedMulti ·.segments) with
      | some v => .error (.misplacedMultiWildcard s v.dottedPath)
      | none => .ok t := by
  obtain ⟨cs, hs, -⟩ := id h
  obtain ⟨segments⟩ := t
  have hread := (segments?_eq_some_nil_iff hs).2 h
  rw [parse, hs]
  cases hfind : (⟨segments⟩ : PathTemplate).pathVariables.find? (hasMisplacedMulti ·.segments) with
  | none => simp only [hread, hfind]
  | some v => simp only [hread, hfind]

/-- A text that begins with a slash and derives no template is malformed. -/
theorem parse_of_not_derives {s : String} (hslash : s.toList.head? = some '/')
    (h : ¬∃ t, Derives s t) : ∃ offset reason, parse s = .error (.malformed s offset reason) := by
  obtain ⟨cs, hs⟩ := List.head?_eq_some_iff.1 hslash
  rw [parse, hs]
  cases hread : segments? cs with
  | none =>
      simp only [hread]
      exact ⟨_, _, rfl⟩
  | some found =>
      obtain ⟨segments, rest⟩ := found
      cases rest with
      | nil => exact absurd ⟨_, (segments?_eq_some_nil_iff hs).1 hread⟩ h
      | cons c cs =>
          simp only [hread]
          exact ⟨_, _, rfl⟩

theorem parse_of_no_slash {s : String} (h : s.toList.head? ≠ some '/') :
    parse s = .error (.missingLeadingSlash s) := by
  rw [parse]
  split
  next cs hs =>
    rw [hs] at h
    exact absurd rfl h
  next => rfl

/-- What becomes of a text. -/
inductive Verdict (s : String) : Except PathTemplateError PathTemplate → Prop where
  | accepted {t : PathTemplate} (h : Derives s t)
      (hlast : ∀ v ∈ t.pathVariables, MultiLast v.segments) : Verdict s (.ok t)
  | misplaced {t : PathTemplate} {v : PathVariable} (h : Derives s t)
      (hfirst : t.pathVariables.find? (hasMisplacedMulti ·.segments) = some v) :
      Verdict s (.error (.misplacedMultiWildcard s v.dottedPath))
  | missing (h : s.toList.head? ≠ some '/') : Verdict s (.error (.missingLeadingSlash s))
  | malformed (hslash : s.toList.head? = some '/') (h : ¬∃ t, Derives s t) (offset : Nat)
      (reason : String) : Verdict s (.error (.malformed s offset reason))

theorem verdict_parse (s : String) : Verdict s (parse s) := by
  by_cases hslash : s.toList.head? = some '/'
  · by_cases hderives : ∃ t, Derives s t
    · obtain ⟨t, ht⟩ := hderives
      rw [parse_of_derives ht]
      cases hfind : t.pathVariables.find? (hasMisplacedMulti ·.segments) with
      | none => exact .accepted ht (find?_misplaced_eq_none_iff.1 hfind)
      | some v => exact .misplaced ht hfind
    · obtain ⟨offset, reason, hparse⟩ := parse_of_not_derives hslash hderives
      rw [hparse]
      exact .malformed hslash hderives offset reason
  · rw [parse_of_no_slash hslash]
    exact .missing hslash

theorem verdict_of_parse {s : String} {r : Except PathTemplateError PathTemplate}
    (h : parse s = r) : Verdict s r := by
  rw [← h]
  exact verdict_parse s

/-- Parsing accepts exactly what the grammar derives and the rule for `**` allows.  All other texts
are refused for the reason that fits: a slash is missing in front, a variable breaks the rule, the
first of which is named, or the grammar derives nothing. -/
theorem parse_accepts_grammar (s : String) :
    (∀ t, parse s = .ok t ↔ Derives s t ∧ ∀ v ∈ t.pathVariables, MultiLast v.segments) ∧
      (parse s = .error (.missingLeadingSlash s) ↔ s.toList.head? ≠ some '/') ∧
      (∀ name, parse s = .error (.misplacedMultiWildcard s name) ↔
        ∃ t before v after, Derives s t ∧ t.pathVariables = before ++ v :: after ∧
          (∀ u ∈ before, MultiLast u.segments) ∧ ¬MultiLast v.segments ∧ name = v.dottedPath) ∧
      ((∃ offset reason, parse s = .error (.malformed s offset reason)) ↔
        s.toList.head? = some '/' ∧ ¬∃ t, Derives s t) ∧
      ∀ e, parse s = .error e →
        e = .missingLeadingSlash s ∨ (∃ name, e = .misplacedMultiWildcard s name) ∨
          ∃ offset reason, e = .malformed s offset reason := by
  refine ⟨fun t => ⟨fun h => ?_, ?_⟩, ⟨fun h => ?_, parse_of_no_slash⟩, fun name => ⟨fun h => ?_, ?_⟩,
    ⟨?_, fun ⟨hslash, h⟩ => parse_of_not_derives hslash h⟩, fun e h => ?_⟩
  · cases verdict_of_parse h with
    | accepted hderives hlast => exact ⟨hderives, hlast⟩
  · rintro ⟨hderives, hlast⟩
    rw [parse_of_derives hderives, find?_misplaced_eq_none_iff.2 hlast]
  · cases verdict_of_parse h with
    | missing hslash => exact hslash
  · cases verdict_of_parse h with
    | misplaced hderives hfirst =>
        obtain ⟨before, after, hvs, hbefore, hv⟩ := find?_misplaced_eq_some_iff.1 hfirst
        exact ⟨_, before, _, after, hderives, hvs, hbefore, hv, rfl⟩
  · rintro ⟨t, before, v, after, hderives, hvs, hbefore, hv, rfl⟩
    rw [parse_of_derives hderives,
      find?_misplaced_eq_some_iff.2 ⟨before, after, hvs, hbefore, hv⟩]
  · rintro ⟨offset, reason, h⟩
    cases verdict_of_parse h with
    | malformed hslash hderives => exact ⟨hslash, hderives⟩
  · cases verdict_of_parse h with
    | misplaced => exact Or.inr (Or.inl ⟨_, rfl⟩)
    | missing => exact Or.inl rfl
    | malformed _ _ offset reason => exact Or.inr (Or.inr ⟨offset, reason, rfl⟩)

end ServiceModel.PathTemplate
