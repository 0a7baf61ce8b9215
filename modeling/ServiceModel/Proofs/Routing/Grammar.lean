import ServiceModel.Proofs.PathTemplate.Writing
import ServiceModel.Routing.Parser

/-!
The grammar of routing templates, as relations between texts and what they stand for.

    Template = [ Path "/" ] "{" Body "}" [ "/" Path ]
    Body     = Name [ "=" Path ]
    Path     = Segment { "/" Segment }
    Segment  = "*" | "**" | Literal

The segments are those of the patterns of path templates, and so are their readers.  What is new is a path
in front of a slash that no segment follows: the path is read and the slash is left to the template.
-/

namespace ServiceModel.Routing

open Text (Reads Sequence Stops stops_cons reads_separated run run_append run_eq_some
  separated_of_none)
open PathTemplate (DerivesIdentifier DerivesLiteral DerivesPatternSegment IsIdentifier IsLiteral
  isLiteralChar patternSegment? reads_identifier reads_patternSegment)

/-! ### Derivations -/

inductive DerivesSegment : List Char → String → Prop where
  | single : DerivesSegment ['*'] RoutingPath.single
  | multi : DerivesSegment ['*', '*'] RoutingPath.multi
  | literal {cs : List Char} {l : String} (h : DerivesLiteral cs l) : DerivesSegment cs l

def DerivesPath (cs : List Char) (p : RoutingPath) : Prop :=
  Sequence '/' DerivesSegment cs p.segments

/-- What stands in front of the variable. -/
inductive DerivesBefore : List Char → RoutingPath → Prop where
  | none : DerivesBefore [] .empty
  | path {cs : List Char} {p : RoutingPath} (h : DerivesPath cs p) : DerivesBefore (cs ++ ['/']) p

/-- What stands in the braces; a name alone matches one segment. -/
inductive DerivesBody : List Char → String → RoutingPath → Prop where
  | plain {cs : List Char} {name : String} (h : DerivesIdentifier cs name) :
      DerivesBody cs name ⟨[RoutingPath.single]⟩
  | bound {cs ps : List Char} {name : String} {p : RoutingPath} (h : DerivesIdentifier cs name)
      (hpath : DerivesPath ps p) : DerivesBody (cs ++ '=' :: ps) name p

/-- What stands behind the variable. -/
inductive DerivesBehind : List Char → RoutingPath → Prop where
  | none : DerivesBehind [] .empty
  | path {cs : List Char} {p : RoutingPath} (h : DerivesPath cs p) : DerivesBehind ('/' :: cs) p

/-- A text derives a template from the grammar. -/
def Derives (s : String) (t : Template) : Prop :=
  ∃ front body back, s.toList = front ++ '\x7b' :: (body ++ '\x7d' :: back) ∧
    DerivesBefore front t.before ∧ DerivesBody body t.name t.matching ∧ DerivesBehind back t.behind

/-! ### The rule for `**` -/

/-- Nothing follows `**` in a path. -/
def MultiLast (p : RoutingPath) : Prop :=
  ∀ front back, p.segments = front ++ RoutingPath.multi :: back → back = []

/-- There is no `**` in front of the variable and at most one from there on, and a `**` is the last of
its path. -/
structure WellPlaced (before matching behind : RoutingPath) : Prop where
  before : RoutingPath.multi ∉ before.segments
  once : (matching.segments ++ behind.segments).count RoutingPath.multi ≤ 1
  matching : MultiLast matching
  behind : MultiLast behind

theorem multiOnlyLast_iff {p : RoutingPath} : p.multiOnlyLast = true ↔ MultiLast p := by
  rw [RoutingPath.multiOnlyLast, List.all_eq_true]
  constructor
  · intro hall front back heq
    by_cases hback : back = []
    · exact hback
    · have hmem : RoutingPath.multi ∈ p.segments.dropLast := by
        rw [heq, List.dropLast_append_of_ne_nil (List.cons_ne_nil _ _),
          List.dropLast_cons_of_ne_nil hback]
        exact List.mem_append_right _ List.mem_cons_self
      have hmulti := hall _ hmem
      simp at hmulti
  · intro hlast s hs
    obtain ⟨front, back, heq⟩ := List.append_of_mem hs
    have hne : p.segments ≠ [] := by
      intro hnil
      rw [hnil] at hs
      cases hs
    rw [bne_iff_ne]
    rintro rfl
    have hback := hlast front (back ++ [p.segments.getLast hne]) (by
      rw [← List.cons_append, ← List.append_assoc, ← heq, List.dropLast_concat_getLast])
    simp at hback

/-! ### Readers of each part -/

theorem derivesSegment_iff {cs : List Char} {s : String} :
    (∃ v, DerivesPatternSegment cs v ∧ s = v.text) ↔ DerivesSegment cs s := by
  constructor
  · rintro ⟨v, hv, rfl⟩
    cases hv with
    | single => exact .single
    | multi => exact .multi
    | literal h => exact .literal h
  · intro h
    cases h with
    | single => exact ⟨.single, .single, rfl⟩
    | multi => exact ⟨.multi, .multi, rfl⟩
    | literal h => exact ⟨.literal s, .literal h, rfl⟩

theorem segment?_eq (cs : List Char) :
    segment? cs = (patternSegment? cs).map fun (v, rest) => (v.text, rest) := by
  fun_cases segment? cs with
  | case1 rest => rfl
  | case2 rest hmulti =>
      rw [patternSegment?]
      · rfl
      · exact hmulti
  | case3 cs hmulti hsingle =>
      rw [patternSegment?, Option.map_map]
      · exact Option.map_id'.symm
      · exact hmulti
      · exact hsingle

theorem reads_segment : Reads segment? DerivesSegment (fun c => isLiteralChar c || c == '*') := by
  have hreads := (reads_patternSegment.map VariableSegment.text).congr
    fun _ _ => derivesSegment_iff
  rwa [← funext segment?_eq] at hreads

theorem reads_path :
    Reads path? DerivesPath (fun c => (isLiteralChar c || c == '*') || c == '/') := by
  refine ((reads_separated reads_segment (by decide)).map RoutingPath.mk).congr fun cs p => ?_
  constructor
  · rintro ⟨segments, h, rfl⟩
    exact h
  · intro h
    exact ⟨p.segments, h, rfl⟩

/-- A path in front of a brace ends with a slash, or there is none. -/
theorem pathBefore_eq_iff {cs rest : List Char} {p : RoutingPath} :
    pathBefore cs = (p, '\x7b' :: rest) ↔
      ∃ front, cs = front ++ '\x7b' :: rest ∧ DerivesBefore front p := by
  constructor
  · intro h
    unfold pathBefore at h
    split at h
    next q rest' hpath =>
      cases h
      obtain ⟨front, rfl, hfront⟩ := reads_path.sound hpath
      exact ⟨front ++ ['/'], by simp, .path hfront⟩
    next =>
      cases h
      exact ⟨[], rfl, .none⟩
  · rintro ⟨front, rfl, hfront⟩
    cases hfront with
    | none => rfl
    | @path cs _ hpath =>
        have hnone : segment? ('\x7b' :: rest) = none := rfl
        have hread : path? (cs ++ '/' :: '\x7b' :: rest) = some (p, '/' :: '\x7b' :: rest) := by
          rw [path?, separated_of_none reads_segment (by decide) hpath hnone]
          rfl
        rw [pathBefore, List.append_assoc, List.singleton_append, hread]
        rfl

theorem pathBehind_eq_nil_iff {cs : List Char} {p : RoutingPath} :
    pathBehind cs = (p, []) ↔ DerivesBehind cs p := by
  constructor
  · intro h
    unfold pathBehind at h
    split at h
    · split at h
      next found hpath =>
        subst h
        exact .path (reads_path.whole_iff.1 hpath)
      next => cases h
    next =>
      cases h
      exact .none
  · intro h
    cases h with
    | none => rfl
    | path hpath => simp only [pathBehind, reads_path.whole_iff.2 hpath]

theorem body_eq_ok_iff {cs inner rest : List Char} :
    body cs = .ok (inner, rest) ↔
      cs = '\x7b' :: (inner ++ '\x7d' :: rest) ∧ inner ≠ [] ∧ ∀ c ∈ inner, isBodyChar c = true := by
  constructor
  · intro h
    unfold body at h
    split at h
    · split at h
      next => cases h
      next taken rest' hrun =>
        cases h
        obtain ⟨rfl, hne, hall, -⟩ := run_eq_some hrun
        exact ⟨rfl, hne, hall⟩
      next => cases h
    next => cases h
  · rintro ⟨rfl, hne, hall⟩
    have hrun : run isBodyChar (inner ++ '\x7d' :: rest) = some (inner, '\x7d' :: rest) :=
      run_append hne hall (stops_cons.2 (by decide))
    simp only [body, hrun]

theorem outline_eq_ok_iff {cs : List Char} {o : Outline} :
    outline cs = .ok o ↔
      ∃ front back, cs = front ++ '\x7b' :: (o.body ++ '\x7d' :: back) ∧
        DerivesBefore front o.before ∧ (o.body ≠ [] ∧ ∀ c ∈ o.body, isBodyChar c = true) ∧
          DerivesBehind back o.behind := by
  constructor
  · intro h
    unfold outline at h
    cases hbefore : pathBefore cs with
    | mk before rest =>
        simp only [hbefore] at h
        split at h
        · cases h
        next inner rest' hbody =>
          split at h
          next behind hbehind =>
            cases h
            obtain ⟨rfl, hinner⟩ := body_eq_ok_iff.1 hbody
            obtain ⟨front, rfl, hfront⟩ := pathBefore_eq_iff.1 hbefore
            exact ⟨front, rest', rfl, hfront, hinner, pathBehind_eq_nil_iff.1 hbehind⟩
          next => cases h
  · rintro ⟨front, back, rfl, hfront, ⟨hne, hall⟩, hback⟩
    have hbody : body ('\x7b' :: (o.body ++ '\x7d' :: back)) = .ok (o.body, back) :=
      body_eq_ok_iff.2 ⟨rfl, hne, hall⟩
    unfold outline
    simp only [pathBefore_eq_iff.2 ⟨front, rfl, hfront⟩, hbody, pathBehind_eq_nil_iff.2 hback]

/-! ### Bodies -/

theorem name?_eq_some_iff {cs : List Char} {name : String} :
    name? cs = some name ↔ DerivesIdentifier cs name := by
  rw [← reads_identifier.whole_iff]
  unfold name?
  split
  next n hread => simp [hread]
  next hread =>
    constructor
    · intro h
      cases h
    · intro h
      exact absurd h (hread name)

theorem bodyPath_eq_ok_iff {template : String} {inner pattern : List Char} {p : RoutingPath} :
    bodyPath template inner pattern = .ok p ↔ DerivesPath pattern p := by
  rw [← reads_path.whole_iff]
  unfold bodyPath
  split
  next q hread => simp [hread]
  next q rest hne hread =>
    rw [hread]
    constructor
    · intro h
      cases h
    · intro h
      cases h
      exact absurd rfl hne
  next hread => simp [hread]

theorem ne_wildcard_of_identifier {name w : String} (hname : IsIdentifier name)
    (hw : w = RoutingPath.single ∨ w = RoutingPath.multi) : name ≠ w := by
  rintro rfl
  obtain ⟨c, cs, hcs, hc, -⟩ := hname
  rcases hw with rfl | rfl
  · cases hcs
    exact absurd hc (by decide)
  · cases hcs
    exact absurd hc (by decide)

theorem shorthand?_eq_some_iff {p : RoutingPath} {name : String} :
    shorthand? p = some name ↔ p.segments = [name] ∧ IsIdentifier name := by
  unfold shorthand?
  split
  next s hs =>
    rw [hs]
    constructor
    · intro h
      split at h
      next =>
        obtain ⟨heq, hname⟩ := name?_eq_some_iff.1 h
        obtain rfl := String.toList_inj.1 heq
        exact ⟨rfl, hname⟩
      next => cases h
    · rintro ⟨heq, hname⟩
      cases heq
      have hsingle := ne_wildcard_of_identifier hname (.inl rfl)
      have hmulti := ne_wildcard_of_identifier hname (.inr rfl)
      rw [if_pos (by simp [hsingle, hmulti])]
      exact name?_eq_some_iff.2 ⟨rfl, hname⟩
  next hs =>
    constructor
    · intro h
      cases h
    · rintro ⟨heq, -⟩
      exact absurd heq (hs name)

/-- An identifier is a literal. -/
theorem derivesLiteral_of_identifier {cs : List Char} {name : String}
    (h : DerivesIdentifier cs name) : DerivesLiteral cs name := by
  have hchar := h.forall_char
  obtain ⟨rfl, c, tail, hcs, -⟩ := h
  refine ⟨rfl, by rw [hcs]; simp, fun d hd => ?_⟩
  have hd := hchar d hd
  simp only [PathTemplate.isIdentifierChar, isLiteralChar, Bool.or_eq_true, decide_eq_true_eq] at hd ⊢
  rcases hd with hd | rfl
  · exact Or.inl hd
  · exact Or.inr (by decide)

end ServiceModel.Routing
