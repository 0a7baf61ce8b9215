import ServiceModel.PathTemplate.Parser
import ServiceModel.Proofs.Text.Scan

/-!
The grammar of path templates, as relations between texts and what they stand for.

    Template  = "/" Segments [ ":" Literal ]
    Segments  = Segment { "/" Segment }
    Segment   = Literal | Variable
    Variable  = "{" FieldPath [ "=" Pattern ] "}"
    Pattern   = PatternSegment { "/" PatternSegment }
    PatternSegment = "*" | "**" | Literal
    FieldPath = Identifier { "." Identifier }

The rule that `**` only ends a pattern is not part of it.
-/

namespace ServiceModel

namespace PathTemplate

open Text (Sequence)

/-! ### Derivations -/

/-- A literal is made of characters of the alphabet, at least one. -/
def IsLiteral (l : String) : Prop := l.toList ≠ [] ∧ ∀ c ∈ l.toList, isLiteralChar c = true

/-- An identifier has a first character, which is no digit, and goes on with any. -/
def IsIdentifier (n : String) : Prop :=
  ∃ c cs, n.toList = c :: cs ∧ isIdentifierStart c = true ∧ ∀ d ∈ cs, isIdentifierChar d = true

/-- A text that is a literal stands for itself. -/
def DerivesLiteral (cs : List Char) (l : String) : Prop := l.toList = cs ∧ IsLiteral l

/-- A text that is an identifier stands for itself. -/
def DerivesIdentifier (cs : List Char) (n : String) : Prop := n.toList = cs ∧ IsIdentifier n

/-- The segments of patterns. -/
inductive DerivesPatternSegment : List Char → VariableSegment → Prop where
  | single : DerivesPatternSegment ['*'] .single
  | multi : DerivesPatternSegment ['*', '*'] .multi
  | literal {cs : List Char} {l : String} (h : DerivesLiteral cs l) :
      DerivesPatternSegment cs (.literal l)

/-- Variables; one without a pattern matches one segment. -/
inductive DerivesVariable : List Char → PathVariable → Prop where
  | plain {cs : List Char} {path : List String} (h : Sequence '.' DerivesIdentifier cs path) :
      DerivesVariable ('\x7b' :: (cs ++ ['\x7d'])) ⟨path, [.single]⟩
  | bound {cs ps : List Char} {path : List String} {pattern : List VariableSegment}
      (h : Sequence '.' DerivesIdentifier cs path)
      (hpattern : Sequence '/' DerivesPatternSegment ps pattern) :
      DerivesVariable ('\x7b' :: (cs ++ '=' :: (ps ++ ['\x7d']))) ⟨path, pattern⟩

/-- The segments of templates. -/
inductive DerivesSegment : List Char → PathSegment → Prop where
  | literal {cs : List Char} {l : String} (h : DerivesLiteral cs l) : DerivesSegment cs (.literal l)
  | braced {cs : List Char} {v : PathVariable} (h : DerivesVariable cs v) :
      DerivesSegment cs (.variable v)

/-- What stands after the first slash of a template: segments, and perhaps a verb. -/
inductive DerivesSegments : List Char → List PathSegment → Prop where
  | plain {cs : List Char} {segments : List PathSegment}
      (h : Sequence '/' DerivesSegment cs segments) : DerivesSegments cs segments
  | verb {cs vs : List Char} {segments : List PathSegment} {v : String}
      (h : Sequence '/' DerivesSegment cs segments) (hverb : DerivesLiteral vs v) :
      DerivesSegments (cs ++ ':' :: vs) (segments ++ [.verb v])

/-- A text derives a template from the grammar. -/
def Derives (s : String) (t : PathTemplate) : Prop :=
  ∃ cs, s.toList = '/' :: cs ∧ DerivesSegments cs t.segments

/-- A literal starts with a character of the alphabet. -/
theorem DerivesLiteral.exists_cons {cs : List Char} {l : String} (h : DerivesLiteral cs l) :
    ∃ c tail, cs = c :: tail ∧ isLiteralChar c = true := by
  obtain ⟨rfl, hne, hall⟩ := h
  obtain ⟨c, tail, hcs⟩ := List.exists_cons_of_ne_nil hne
  rw [hcs] at hall ⊢
  exact ⟨c, tail, rfl, hall c List.mem_cons_self⟩

/-! ### The rule for `**` -/

/-- Nothing follows `**` in a pattern. -/
def MultiLast (pattern : List VariableSegment) : Prop :=
  ∀ before after, pattern = before ++ .multi :: after → after = []

theorem multiLast_cons_cons {s t : VariableSegment} {rest : List VariableSegment} :
    MultiLast (s :: t :: rest) ↔ s ≠ .multi ∧ MultiLast (t :: rest) := by
  constructor
  · intro h
    refine ⟨?_, fun before after heq => h (s :: before) after (by rw [heq, List.cons_append])⟩
    rintro rfl
    exact absurd (h [] (t :: rest) rfl) (by simp)
  · rintro ⟨hs, h⟩ before after heq
    cases before with
    | nil => exact absurd (List.cons.inj heq).1 hs
    | cons b before => exact h before after (List.cons.inj heq).2

theorem hasMisplacedMulti_eq_false_iff {pattern : List VariableSegment} :
    hasMisplacedMulti pattern = false ↔ MultiLast pattern := by
  match pattern with
  | [] =>
      refine ⟨fun _ before after heq => ?_, fun _ => rfl⟩
      simp at heq
  | [s] =>
      refine ⟨fun _ before after heq => ?_, fun _ => rfl⟩
      have hlength := congrArg List.length heq
      simp only [List.length_append, List.length_cons, List.length_nil] at hlength
      exact List.length_eq_zero_iff.1 (by omega)
  | s :: t :: rest =>
      rw [hasMisplacedMulti, Bool.or_eq_false_iff, hasMisplacedMulti_eq_false_iff,
        multiLast_cons_cons, beq_eq_false_iff_ne]

end PathTemplate

/-! ### Well-formed templates -/

open PathTemplate (IsLiteral IsIdentifier MultiLast)

/-- A variable has a path of identifiers and a pattern of literals and wildcards, neither of them
empty, with `**` only at the end of the pattern. -/
structure PathVariable.WellFormed (v : PathVariable) : Prop where
  path : v.fieldPath ≠ []
  identifiers : ∀ n ∈ v.fieldPath, IsIdentifier n
  pattern : v.segments ≠ []
  literals : ∀ l, .literal l ∈ v.segments → IsLiteral l
  multiLast : MultiLast v.segments

/-- A template has segments other than a verb, which only stands at the end; its literals and its verb
are made of characters of the alphabet, and its variables are well formed. -/
structure PathTemplate.WellFormed (t : PathTemplate) : Prop where
  nonverb : ∃ s ∈ t.segments, s.verb? = none
  verbLast : ∀ before v after, t.segments = before ++ .verb v :: after → after = []
  literals : ∀ l, .literal l ∈ t.segments → IsLiteral l
  verbs : ∀ v, .verb v ∈ t.segments → IsLiteral v
  bound : ∀ v ∈ t.pathVariables, v.WellFormed

end ServiceModel
