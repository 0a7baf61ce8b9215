import ServiceModel.Proofs.PathTemplate.Offsets
import ServiceModel.Proofs.Routing.Parsing
import ServiceModel.Proofs.Text.Pieces
import ServiceModel.Proofs.Text.Split

/-!
Where patterns of routing templates break.  A pattern may be a path only up to some place, and the offset of
the error is counted from the first occurrence of its body in the template.  No body holds a brace, so that
is either the body itself or a piece of the path in front of it.  All pieces of a path are paths but for a
slash at either end, so the offset can only be wrong for a pattern that ends with a slash.
-/

namespace ServiceModel

namespace Routing

open Text (LongestFront ReadsLongest Sequence ClosedUnderPieces FirstOccurrence after?_append byteLength
  byteLength_append cutFirst cutFirst_append cutFirst_eq_none firstOccurrence_behind
  readsLongest_separated)
open PathTemplate (DerivesIdentifier failureReason readsLongest_patternSegment)

/-! ### Paths -/

theorem readsLongest_path : ReadsLongest path? DerivesPath := by
  have hsegment : ReadsLongest segment? DerivesSegment := by
    rw [funext segment?_eq]
    apply (readsLongest_patternSegment.map VariableSegment.text).imp
    intro cs s hs
    exact ⟨s, derivesSegment_iff.2 hs⟩
  have hsegments : ReadsLongest (Text.separated '/' segment?) (Sequence '/' DerivesSegment) :=
    readsLongest_separated hsegment reads_segment (by decide)
  apply (hsegments.map RoutingPath.mk).imp
  intro cs p hp
  exact ⟨p, p.segments, hp, rfl⟩

/-- What is read is the longest path at the start. -/
theorem longestFront_of_path? {path rest : List Char} {p : RoutingPath}
    (h : path? (path ++ rest) = some (p, rest)) :
    LongestFront (fun cs => ∃ p, DerivesPath cs p) (path ++ rest) path := by
  obtain ⟨front, heq, -, hfront⟩ := readsLongest_path.longestFront reads_path h
  rwa [← List.append_cancel_right heq] at hfront

theorem closedUnderPieces_segment : ClosedUnderPieces DerivesSegment := by
  have hstar : ∀ {part : List Char}, part <:+: ['*', '*'] → part ≠ [] → ∃ t, DerivesSegment part t := by
    intro part hpart hne
    have hlength := hpart.length_le
    match part with
    | [] => exact absurd rfl hne
    | [c] =>
        have hc := hpart.subset List.mem_cons_self
        simp only [List.mem_cons, List.not_mem_nil, or_false, or_self] at hc
        rw [hc]
        exact ⟨_, .single⟩
    | c :: d :: part =>
        rw [hpart.eq_of_length_le (by simp)]
        exact ⟨_, .multi⟩
  intro cs s hs part hpart hne
  cases hs with
  | single => exact hstar (hpart.trans ⟨[], ['*'], rfl⟩) hne
  | multi => exact hstar hpart hne
  | literal hliteral =>
      obtain ⟨rfl, -, hall⟩ := hliteral
      refine ⟨String.ofList part, .literal ⟨String.toList_ofList, ?_⟩⟩
      rw [PathTemplate.IsLiteral, String.toList_ofList]
      exact ⟨hne, fun c hc => hall c (hpart.subset hc)⟩

theorem DerivesSegment.exists_cons {cs : List Char} {s : String} (h : DerivesSegment cs s) :
    ∃ c tail, cs = c :: tail ∧ c ≠ '/' := by
  cases h with
  | single => exact ⟨'*', [], rfl, by decide⟩
  | multi => exact ⟨'*', ['*'], rfl, by decide⟩
  | literal hliteral =>
      obtain ⟨c, tail, rfl, hc⟩ := hliteral.exists_cons
      refine ⟨c, tail, rfl, ?_⟩
      rintro rfl
      exact absurd hc (by decide)

/-- A path does not begin with a slash. -/
theorem DerivesPath.exists_cons {cs : List Char} {p : RoutingPath} (h : DerivesPath cs p) :
    ∃ c tail, cs = c :: tail ∧ c ≠ '/' := by
  obtain ⟨segments⟩ := p
  cases h with
  | one hsegment => exact hsegment.exists_cons
  | more hsegment _ =>
      obtain ⟨c, tail, rfl, hc⟩ := hsegment.exists_cons
      exact ⟨c, _, rfl, hc⟩

/-- A piece of what stands in front of a variable, if it begins with a path, is a path as a whole or but
for its last slash. -/
theorem rest_of_piece {front path rest : List Char} {p : RoutingPath} (hfront : DerivesBefore front p)
    (hpiece : path ++ rest <:+: front)
    (hpath : LongestFront (fun cs => ∃ p, DerivesPath cs p) (path ++ rest) path) :
    rest = [] ∨ rest = ['/'] := by
  obtain ⟨q, hq⟩ := hpath.holds
  obtain ⟨c, tail, hcons, hc⟩ := hq.exists_cons
  have hne : path ++ rest ≠ [] := by simp [hcons]
  cases hfront with
  | none => exact absurd (List.infix_nil.1 hpiece) hne
  | @path cs _ hcs =>
      rcases hcs.piece closedUnderPieces_segment hpiece hne with hhead | ⟨as, has | ⟨front, heq, has⟩⟩
      · rw [hcons] at hhead
        exact absurd (Option.some.inj hhead) hc
      · -- the whole piece is a path, and it is the longest
        have hwhole := (hpath.longest _ ⟨⟨as⟩, has⟩ (List.prefix_refl _)).length_le
        rw [List.length_append] at hwhole
        exact Or.inl (List.length_eq_zero_iff.1 (by omega))
      · have hlong := hpath.longest front ⟨⟨as⟩, has⟩ (heq ▸ List.prefix_append _ _)
        rcases List.prefix_concat_iff.1 (heq ▸ List.prefix_append path rest) with hall | hshort
        · rw [← heq] at hall
          exact Or.inl (List.self_eq_append_right.1 hall)
        · rw [hshort.eq_of_length_le hlong.length_le] at heq
          exact Or.inr (List.append_cancel_left heq)

/-! ### Searches -/

/-- What is found is the first occurrence. -/
theorem exists_firstOccurrence {part cs : List Char} (h : part <:+: cs) :
    ∃ early late, FirstOccurrence part cs early late ∧ offsetOf part cs = byteLength early := by
  induction cs with
  | nil =>
      obtain rfl := List.infix_nil.1 h
      exact ⟨[], [], ⟨rfl, fun _ _ _ => List.nil_prefix⟩, rfl⟩
  | cons c cs ih =>
      rw [offsetOf]
      by_cases hhere : part <+: c :: cs
      · obtain ⟨late, hlate⟩ := hhere
        refine ⟨[], late, ⟨hlate.symm, fun _ _ _ => List.nil_prefix⟩, ?_⟩
        rw [← hlate, after?_append]
        rfl
      · have hnone : Text.after? part (c :: cs) = none := by
          rw [Option.eq_none_iff_forall_not_mem]
          exact fun rest hrest => hhere ⟨rest, (Text.after?_eq_some hrest).symm⟩
        obtain ⟨early, late, ⟨htext, hfirst⟩, hoffset⟩ :=
          ih ((List.infix_cons_iff.1 h).resolve_left hhere)
        refine ⟨c :: early, late, ⟨by rw [htext]; rfl, ?_⟩, ?_⟩
        · intro early' late' heq
          cases early' with
          | nil => exact absurd ⟨late', heq.symm⟩ hhere
          | cons d early' =>
              obtain ⟨rfl, htail⟩ := List.cons.inj heq
              exact (List.prefix_cons_inj _).2 (hfirst early' late' htail)
        · rw [hnone, hoffset]
          rfl

/-! ### Broken patterns -/

/-- A template whose outline is sound, and whose pattern is a path up to `rest` and no further.  In front of
the pattern stands a name with its equals sign, or nothing; and then the pattern has none. -/
structure BrokenPattern (s : String) (front named path rest back : List Char) : Prop where
  text : s.toList = front ++ '\x7b' :: (named ++ (path ++ rest) ++ '\x7d' :: back)
  before : ∃ p, DerivesBefore front p
  behind : ∃ p, DerivesBehind back p
  body : ∀ c ∈ named ++ (path ++ rest), isBodyChar c = true
  named : (named = [] ∧ '=' ∉ path ++ rest) ∨ ∃ cs name, DerivesIdentifier cs name ∧ named = cs ++ ['=']
  path : LongestFront (fun cs => ∃ p, DerivesPath cs p) (path ++ rest) path
  broken : rest ≠ []

namespace BrokenPattern

variable {s : String} {front named path rest back : List Char}

theorem body_ne_nil (h : BrokenPattern s front named path rest back) :
    named ++ (path ++ rest) ≠ [] := by
  simp [h.broken]

theorem exists_outline (h : BrokenPattern s front named path rest back) :
    ∃ before behind, outline s.toList = .ok ⟨before, named ++ (path ++ rest), behind⟩ := by
  obtain ⟨p, hp⟩ := h.before
  obtain ⟨q, hq⟩ := h.behind
  exact ⟨p, q, outline_eq_ok_iff.2 ⟨front, back, h.text, hp, ⟨h.body_ne_nil, h.body⟩, hq⟩⟩

/-- What is read of a broken pattern is the path it begins with. -/
theorem bodyPath_eq (h : BrokenPattern s front named path rest back) :
    bodyPath s (named ++ (path ++ rest)) (path ++ rest) =
      .error (.malformed s (offsetOf (named ++ (path ++ rest)) s.toList + byteLength (named ++ path))
        (failureReason rest)) := by
  obtain ⟨p, hread⟩ := readsLongest_path.read_longestFront reads_path h.path
  have hoffset : ∀ start, start + (byteLength (named ++ (path ++ rest)) - byteLength (path ++ rest)) +
      (byteLength (path ++ rest) - byteLength rest) = start + byteLength (named ++ path) := by
    intro start
    simp only [byteLength_append]
    omega
  unfold bodyPath
  split
  next q hwhole =>
    rw [hread] at hwhole
    cases hwhole
    exact absurd rfl h.broken
  next q rest' _ hpart =>
    rw [hread] at hpart
    cases hpart
    dsimp only
    rw [hoffset]
  next hnone =>
    rw [hread] at hnone
    cases hnone

theorem bodyParts_eq (h : BrokenPattern s front named path rest back) :
    bodyParts s (named ++ (path ++ rest)) =
      .error (.malformed s (offsetOf (named ++ (path ++ rest)) s.toList + byteLength (named ++ path))
        (failureReason rest)) := by
  have hpath := h.bodyPath_eq
  rcases h.named with ⟨rfl, hequals⟩ | ⟨cs, name, hname, rfl⟩
  · rw [List.nil_append] at hpath ⊢
    rw [bodyParts, cutFirst_eq_none hequals]
    show (bodyPath s (path ++ rest) (path ++ rest)).map _ = _
    rw [hpath]
    rfl
  · have hcut : cutFirst '=' (cs ++ ['='] ++ (path ++ rest)) = some (cs, path ++ rest) := by
      rw [List.append_assoc]
      exact cutFirst_append (not_mem_identifier hname) _
    simp only [bodyParts, hcut, name?_eq_some_iff.2 hname]
    rw [hpath]
    rfl

/-- The body is found in its braces, unless it is also found in front of them. -/
theorem offsetOf_body (h : BrokenPattern s front named path rest back)
    (hfront : ¬named ++ (path ++ rest) <:+: front) :
    offsetOf (named ++ (path ++ rest)) s.toList = byteLength (front ++ ['\x7b']) := by
  have hmark : '\x7b' ∉ named ++ (path ++ rest) :=
    fun hmem => absurd (h.body _ hmem) (by decide)
  have hfirst := firstOccurrence_behind hmark hfront ('\x7d' :: back)
  rw [← h.text] at hfirst
  obtain ⟨early, late, hfound, hoffset⟩ :=
    exists_firstOccurrence ⟨front ++ ['\x7b'], '\x7d' :: back, hfirst.text.symm⟩
  rw [hoffset, hfound.unique hfirst]

theorem offsetOf_front (h : BrokenPattern s front named path rest back) {early late : List Char}
    (hearly : FirstOccurrence (named ++ (path ++ rest)) front early late) :
    offsetOf (named ++ (path ++ rest)) s.toList = byteLength early := by
  have hfirst := hearly.append ('\x7b' :: (named ++ (path ++ rest) ++ '\x7d' :: back))
  rw [← h.text] at hfirst
  obtain ⟨early', late', hfound, hoffset⟩ :=
    exists_firstOccurrence ⟨early, _, hfirst.text.symm⟩
  rw [hoffset, hfound.unique hfirst]

/-- A body that also stands in front of its brace is a path but for a slash at its end. -/
theorem rest_eq (h : BrokenPattern s front named path rest back)
    (hfront : named ++ (path ++ rest) <:+: front) : rest = ['/'] := by
  obtain ⟨p, hp⟩ := h.before
  have hpiece : path ++ rest <:+: front := (List.suffix_append named _).isInfix.trans hfront
  exact (rest_of_piece hp hpiece h.path).resolve_left h.broken

end BrokenPattern

end Routing

/-! ### Rules -/

namespace RoutingRule

open Text (trim byteLength byteLength_append FirstOccurrence)
open Routing (BrokenPattern offsetOf)
open PathTemplate (failureReason)

variable {rule : RoutingRule} {front named path rest back : List Char}

theorem parse_of_brokenPattern (hfield : trim rule.field ≠ "")
    (h : BrokenPattern (trim rule.pathTemplate) front named path rest back) :
    rule.parse = .error (.malformed (trim rule.pathTemplate)
      (offsetOf (named ++ (path ++ rest)) (trim rule.pathTemplate).toList +
        byteLength (named ++ path)) (failureReason rest)) := by
  have htemplate : trim rule.pathTemplate ≠ "" := by
    intro hempty
    have htext := h.text
    rw [hempty] at htext
    simp at htext
  obtain ⟨before, behind, houtline⟩ := h.exists_outline
  rw [parse]
  simp only [if_neg hfield, if_neg htemplate, Routing.parseTemplate, houtline, h.bodyParts_eq]

/-- A rule with a broken pattern is malformed.  The offset is where the pattern breaks, unless the body of
the variable, all that is in its braces, also stands in the path in front of them.  Then the offset is
counted from there, so it lies in front of the variable; and this happens only to patterns that break at a
slash at their end. -/
theorem parse_broken (hfield : trim rule.field ≠ "")
    (h : BrokenPattern (trim rule.pathTemplate) front named path rest back) :
    ∃ offset start, rule.parse =
        .error (.malformed (trim rule.pathTemplate) offset (failureReason rest)) ∧
      (trim rule.pathTemplate).toList = start ++ (rest ++ '\x7d' :: back) ∧
      (¬named ++ (path ++ rest) <:+: front → offset = byteLength start) ∧
      (named ++ (path ++ rest) <:+: front → rest = ['/'] ∧ offset < byteLength front ∧
        ∃ early late, FirstOccurrence (named ++ (path ++ rest)) front early late ∧
          offset = byteLength (early ++ (named ++ path))) := by
  refine ⟨_, front ++ '\x7b' :: (named ++ path), parse_of_brokenPattern hfield h, ?_,
    fun hfront => ?_, fun hfront => ?_⟩
  · rw [h.text]
    simp
  · rw [h.offsetOf_body hfront]
    simp only [byteLength, byteLength_append]
    omega
  · obtain ⟨early, late, hearly, -⟩ := Routing.exists_firstOccurrence hfront
    have hrest := h.rest_eq hfront
    have hoffset := h.offsetOf_front hearly
    refine ⟨hrest, ?_, early, late, hearly, ?_⟩
    · rw [hoffset, hearly.text, hrest]
      simp only [byteLength, byteLength_append]
      have := Char.utf8Size_pos '/'
      omega
    · rw [hoffset, byteLength_append early]

/-- A rule with a blank in its pattern. -/
def blankRule : RoutingRule := ⟨"name", "a/\x7bid=b c\x7d/**"⟩

/-- A rule with a pattern that ends with a slash, and with the same characters in front of its variable. -/
def slashRule : RoutingRule := ⟨"name", "a/\x7ba/\x7d"⟩

theorem derivesPath_literal : Routing.DerivesPath ['a'] ⟨["a"]⟩ := Routing.reads_path.whole_iff.1 rfl

theorem broken_blankRule :
    BrokenPattern (trim blankRule.pathTemplate) ['a', '/'] ['i', 'd', '='] ['b'] [' ', 'c']
      ['/', '*', '*'] where
  text := by decide +kernel
  before := ⟨_, @Routing.DerivesBefore.path ['a'] _ derivesPath_literal⟩
  behind := ⟨_, .path (.one .multi)⟩
  body := List.all_eq_true.1 rfl
  named := Or.inr ⟨['i', 'd'], "id", Routing.name?_eq_some_iff.1 rfl, rfl⟩
  path := Routing.longestFront_of_path? (show _ = some (⟨["b"]⟩, _) from rfl)
  broken := by decide

theorem broken_slashRule :
    BrokenPattern (trim slashRule.pathTemplate) ['a', '/'] [] ['a'] ['/'] [] where
  text := by decide +kernel
  before := ⟨_, @Routing.DerivesBefore.path ['a'] _ derivesPath_literal⟩
  behind := ⟨.empty, .none⟩
  body := List.all_eq_true.1 rfl
  named := Or.inl ⟨rfl, by decide⟩
  path := Routing.longestFront_of_path? (show _ = some (⟨["a"]⟩, _) from rfl)
  broken := by decide

theorem parse_broken_blankRule :
    (trim blankRule.field ≠ "" ∧
      BrokenPattern (trim blankRule.pathTemplate) ['a', '/'] ['i', 'd', '='] ['b'] [' ', 'c']
        ['/', '*', '*'] ∧
      ¬['i', 'd', '='] ++ (['b'] ++ [' ', 'c']) <:+: ['a', '/'] ∧
      ∃ start, blankRule.parse = .error (.malformed (trim blankRule.pathTemplate) (byteLength start)
          (failureReason [' ', 'c'])) ∧
        (trim blankRule.pathTemplate).toList = start ++ ([' ', 'c'] ++ '\x7d' :: ['/', '*', '*'])) ∧
    trim slashRule.field ≠ "" ∧
      BrokenPattern (trim slashRule.pathTemplate) ['a', '/'] [] ['a'] ['/'] [] ∧
      [] ++ (['a'] ++ ['/']) <:+: ['a', '/'] ∧
      ∃ offset, slashRule.parse =
          .error (.malformed (trim slashRule.pathTemplate) offset (failureReason ['/'])) ∧
        offset < byteLength ['a', '/'] := by
  have hblank : trim blankRule.field ≠ "" := by decide +kernel
  have hslash : trim slashRule.field ≠ "" := by decide +kernel
  have hapart : ¬['i', 'd', '='] ++ (['b'] ++ [' ', 'c']) <:+: ['a', '/'] := by decide
  have htwice : [] ++ (['a'] ++ ['/']) <:+: ['a', '/'] := List.infix_refl _
  refine ⟨⟨hblank, broken_blankRule, hapart, ?_⟩, hslash, broken_slashRule, htwice, ?_⟩
  · obtain ⟨offset, start, hparse, htext, hoffset, -⟩ := parse_broken hblank broken_blankRule
    exact ⟨start, hoffset hapart ▸ hparse, htext⟩
  · obtain ⟨offset, start, hparse, -, -, hoffset⟩ := parse_broken hslash broken_slashRule
    exact ⟨offset, hparse, (hoffset htwice).2.1⟩

/-- The pattern breaks behind the fourth byte of the template, at a slash in front of a brace.  The offset is
that of another slash, with the variable behind it. -/
theorem parse_slashRule :
    trim slashRule.field ≠ "" ∧
      BrokenPattern (trim slashRule.pathTemplate) ['a', '/'] [] ['a'] ['/'] [] ∧
      slashRule.parse =
        .error (.malformed (trim slashRule.pathTemplate) 1 "trailing \x60/\x60") ∧
      ¬∃ start back, (trim slashRule.pathTemplate).toList = start ++ (['/'] ++ '\x7d' :: back) ∧
        byteLength start = 1 := by
  have hfield : trim slashRule.field ≠ "" := by decide +kernel
  have hoffset : offsetOf ([] ++ (['a'] ++ ['/'])) (trim slashRule.pathTemplate).toList = 0 := by
    rw [broken_slashRule.text]
    rfl
  refine ⟨hfield, broken_slashRule, ?_, ?_⟩
  · rw [parse_of_brokenPattern hfield broken_slashRule, hoffset]
    rfl
  · rintro ⟨start, back, htext, hbytes⟩
    rw [broken_slashRule.text] at htext
    match start with
    | [] => cases hbytes
    | [c] => simp at htext
    | c :: d :: start =>
        have := Char.utf8Size_pos c
        have := Char.utf8Size_pos d
        simp only [byteLength] at hbytes
        omega

end RoutingRule

end ServiceModel
