import ServiceModel.Proofs.Routing.Grammar

/-!
Reading routing rules.  The parser takes a template apart in two stages, the outline first and then the
body at its first equals sign, and only then looks at the wildcards.  A name holds no equals sign, so the
first one ends it; and a name alone is also a path of one literal, which is why the wildcards of a body
without an equals sign can be looked at before it is known to be a name.  Hence a text is accepted exactly
if the grammar derives a template from it that follows the rule for `**`.
-/

namespace ServiceModel

namespace Routing

open Text (Sequence byteLength cutFirst cutFirst_append cutFirst_eq_none cutFirst_eq_some isBlank
  sequence_join)
open PathTemplate (DerivesIdentifier DerivesLiteral IsIdentifier IsLiteral isIdentifierChar
  isLiteralChar)

/-! ### Characters -/

/-- The characters of a path: those of literals, and the marks. -/
def isPathChar (c : Char) : Bool := (isLiteralChar c || c == '*') || c == '/'

theorem isPathChar_of_isLiteralChar {c : Char} (h : isLiteralChar c = true) :
    isPathChar c = true := by
  simp [isPathChar, h]

theorem isBodyChar_of_isPathChar {c : Char} (h : isPathChar c = true) : isBodyChar c = true := by
  have hopen : c ≠ '\x7b' := by
    rintro rfl
    exact absurd h (by decide)
  have hclose : c ≠ '\x7d' := by
    rintro rfl
    exact absurd h (by decide)
  simp [isBodyChar, hopen, hclose]

theorem toNat_of_isAlphanum {c : Char} (h : c.isAlphanum = true) : 32 < c.toNat ∧ c.toNat < 127 := by
  delta Char.isAlphanum Char.isAlpha Char.isUpper Char.isLower Char.isDigit at h
  simp only [Bool.or_eq_true, Bool.and_eq_true, decide_eq_true_eq, UInt32.le_iff_toNat_le,
    ge_iff_le] at h
  change ((65 ≤ c.toNat ∧ c.toNat ≤ 90) ∨ (97 ≤ c.toNat ∧ c.toNat ≤ 122)) ∨
    (48 ≤ c.toNat ∧ c.toNat ≤ 57) at h
  omega

theorem toNat_of_isPathChar {c : Char} (h : isPathChar c = true) : 32 < c.toNat ∧ c.toNat < 127 := by
  have hmarks : ("-._~%!$&'()+,;=@".toList.all fun d => 32 < d.toNat ∧ d.toNat < 127) = true := by decide
  rw [List.all_eq_true] at hmarks
  simp only [isPathChar, isLiteralChar, Bool.or_eq_true, beq_iff_eq, List.contains_iff_mem] at h
  rcases h with ((h | h) | rfl) | rfl
  · exact toNat_of_isAlphanum h
  · exact of_decide_eq_true (hmarks c h)
  · decide
  · decide

theorem isBlank_of_isPathChar {c : Char} (h : isPathChar c = true) : isBlank c = false := by
  have hbounds := toNat_of_isPathChar h
  simp only [isBlank, Bool.or_eq_false_iff, Bool.and_eq_false_iff, decide_eq_false_iff_not,
    beq_eq_false_iff_ne]
  omega

theorem DerivesSegment.toList {cs : List Char} {l : String} (h : DerivesSegment cs l) :
    l.toList = cs := by
  cases h with
  | single => rfl
  | multi => rfl
  | literal hl => exact hl.1

theorem DerivesLiteral.isPathChar {cs : List Char} {l : String} (h : DerivesLiteral cs l) :
    ∀ c ∈ cs, isPathChar c = true := by
  obtain ⟨rfl, -, hall⟩ := h
  intro c hc
  exact isPathChar_of_isLiteralChar (hall c hc)

theorem DerivesPath.isPathChar {cs : List Char} {p : RoutingPath} (h : DerivesPath cs p) :
    ∀ c ∈ cs, isPathChar c = true := by
  refine Sequence.forall_char h (fun cs l hl => ?_) (by decide)
  cases hl with
  | single => exact List.forall_mem_singleton.2 (by decide)
  | multi => exact List.forall_mem_cons.2 ⟨by decide, List.forall_mem_singleton.2 (by decide)⟩
  | literal hl => exact DerivesLiteral.isPathChar hl

theorem DerivesBefore.isPathChar {cs : List Char} {p : RoutingPath} (h : DerivesBefore cs p) :
    ∀ c ∈ cs, isPathChar c = true := by
  cases h with
  | none => simp
  | path hpath =>
      rw [List.forall_mem_append, List.forall_mem_singleton]
      exact ⟨hpath.isPathChar, by decide⟩

theorem DerivesBehind.isPathChar {cs : List Char} {p : RoutingPath} (h : DerivesBehind cs p) :
    ∀ c ∈ cs, isPathChar c = true := by
  cases h with
  | none => simp
  | path hpath =>
      rw [List.forall_mem_cons]
      exact ⟨by decide, hpath.isPathChar⟩

theorem DerivesBody.isPathChar {cs : List Char} {name : String} {p : RoutingPath}
    (h : DerivesBody cs name p) : ∀ c ∈ cs, isPathChar c = true := by
  cases h with
  | plain h => exact DerivesLiteral.isPathChar (derivesLiteral_of_identifier h)
  | bound h hpath =>
      rw [List.forall_mem_append, List.forall_mem_cons]
      exact ⟨DerivesLiteral.isPathChar (derivesLiteral_of_identifier h), by decide, hpath.isPathChar⟩

theorem DerivesBody.ne_nil {cs : List Char} {name : String} {p : RoutingPath}
    (h : DerivesBody cs name p) : cs ≠ [] := by
  cases h with
  | plain h =>
      obtain ⟨rfl, c, tail, hcs, -⟩ := h
      rw [hcs]
      exact List.cons_ne_nil c tail
  | bound h hpath => simp

/-- A template holds no blanks. -/
theorem Derives.not_blank {s : String} {t : Template} (h : Derives s t) :
    ∀ c ∈ s.toList, isBlank c = false := by
  obtain ⟨front, body, back, hs, hfront, hbody, hback⟩ := h
  rw [hs, List.forall_mem_append, List.forall_mem_cons, List.forall_mem_append, List.forall_mem_cons]
  refine ⟨fun c hc => ?_, by decide, fun c hc => ?_, by decide, fun c hc => ?_⟩
  · exact isBlank_of_isPathChar (hfront.isPathChar c hc)
  · exact isBlank_of_isPathChar (hbody.isPathChar c hc)
  · exact isBlank_of_isPathChar (hback.isPathChar c hc)

/-! ### Bodies -/

theorem not_mem_identifier {cs : List Char} {name : String} (h : DerivesIdentifier cs name) :
    '=' ∉ cs := by
  intro hmem
  exact absurd (h.forall_char '=' hmem) (by decide)

theorem map_eq_ok_iff {ε α β : Type} {f : α → β} {r : Except ε α} {b : β} :
    r.map f = .ok b ↔ ∃ a, r = .ok a ∧ f a = b := by
  cases r <;> simp [Except.map]

theorem bodyParts_eq_ok_some_iff {template name : String} {body : List Char} {p : RoutingPath} :
    bodyParts template body = .ok (some name, p) ↔
      ∃ cs ps, body = cs ++ '=' :: ps ∧ DerivesIdentifier cs name ∧ DerivesPath ps p := by
  constructor
  · intro h
    unfold bodyParts at h
    split at h
    next cs ps hcut =>
      split at h
      · cases h
      next found hname =>
        obtain ⟨q, hpath, hq⟩ := map_eq_ok_iff.1 h
        cases hq
        exact ⟨cs, ps, cutFirst_eq_some hcut, name?_eq_some_iff.1 hname,
          bodyPath_eq_ok_iff.1 hpath⟩
    next =>
      obtain ⟨q, -, hq⟩ := map_eq_ok_iff.1 h
      cases hq
  · rintro ⟨cs, ps, rfl, hname, hpath⟩
    have hcut : cutFirst '=' (cs ++ '=' :: ps) = some (cs, ps) :=
      cutFirst_append (not_mem_identifier hname) ps
    simp only [bodyParts, hcut, name?_eq_some_iff.2 hname]
    rw [bodyPath_eq_ok_iff.2 hpath]
    rfl

theorem bodyParts_eq_ok_none_iff {template : String} {body : List Char} {p : RoutingPath} :
    bodyParts template body = .ok (none, p) ↔ '=' ∉ body ∧ DerivesPath body p := by
  unfold bodyParts
  by_cases hmem : '=' ∈ body
  · obtain ⟨cs, ps, rfl, hcs⟩ := List.eq_append_cons_of_mem hmem
    simp only [cutFirst_append hcs, hmem, not_true_eq_false, false_and, iff_false]
    intro h
    split at h
    · cases h
    · obtain ⟨q, -, hq⟩ := map_eq_ok_iff.1 h
      cases hq
  · simp only [cutFirst_eq_none hmem, hmem, not_false_eq_true, true_and, map_eq_ok_iff,
      bodyPath_eq_ok_iff, Prod.mk.injEq, exists_eq_right]

/-- A name in the braces is read as a path of one literal. -/
theorem derivesPath_name_iff {cs : List Char} {p : RoutingPath} {name : String}
    (hp : p.segments = [name]) (hname : IsIdentifier name) :
    DerivesPath cs p ↔ DerivesIdentifier cs name := by
  rw [DerivesPath, hp]
  constructor
  · intro h
    cases h with
    | one hsegment => exact ⟨hsegment.toList, hname⟩
    | more _ hrest => exact absurd rfl hrest.ne_nil
  · intro h
    exact .one (.literal (derivesLiteral_of_identifier h))

/-! ### Templates -/

theorem wellPlaced_iff {before matching behind : RoutingPath} :
    WellPlaced before matching behind ↔
      before.multiCount = 0 ∧ matching.multiCount + behind.multiCount ≤ 1 ∧
        matching.multiOnlyLast = true ∧ behind.multiOnlyLast = true := by
  rw [multiOnlyLast_iff, multiOnlyLast_iff, RoutingPath.multiCount, RoutingPath.multiCount,
    RoutingPath.multiCount, ← List.count_append, List.count_eq_zero]
  constructor
  · intro h
    exact ⟨h.before, h.once, h.matching, h.behind⟩
  · rintro ⟨hbefore, honce, hmatching, hbehind⟩
    exact ⟨hbefore, honce, hmatching, hbehind⟩

/-- A name is no wildcard, so it may stand where one segment is matched. -/
theorem wellPlaced_name_iff {before p behind : RoutingPath} {name : String}
    (hp : p.segments = [name]) (hname : IsIdentifier name) :
    WellPlaced before p behind ↔ WellPlaced before ⟨[RoutingPath.single]⟩ behind := by
  have hne := ne_wildcard_of_identifier hname (.inr rfl)
  have hcount : p.multiCount = (⟨[RoutingPath.single]⟩ : RoutingPath).multiCount := by
    rw [RoutingPath.multiCount, hp, List.count_singleton, if_neg (by simpa using hne)]
    decide
  have hlast : p.multiOnlyLast = (⟨[RoutingPath.single]⟩ : RoutingPath).multiOnlyLast := by
    rw [RoutingPath.multiOnlyLast, hp]
    rfl
  rw [wellPlaced_iff, wellPlaced_iff, hcount, hlast]

/-- The outcome of the four checks, for a body with an equals sign and for one without. -/
theorem parseTemplate_of_outline {s : String} {o : Outline} {name? : Option String}
    {p : RoutingPath} (houtline : outline s.toList = .ok o)
    (hbody : bodyParts s o.body = .ok (name?, p)) {t : Template} :
    parseTemplate s = .ok t ↔
      WellPlaced o.before p o.behind ∧
        match name? with
        | some name => t = ⟨name, o.before, p, o.behind⟩
        | none => ∃ name, shorthand? p = some name ∧
            t = ⟨name, o.before, ⟨[RoutingPath.single]⟩, o.behind⟩ := by
  rw [wellPlaced_iff]
  unfold parseTemplate
  simp only [houtline, hbody]
  by_cases hbefore : 0 < o.before.multiCount
  · simp only [if_pos hbefore, reduceCtorEq, false_iff]
    omega
  by_cases honce : 1 < p.multiCount + o.behind.multiCount
  · simp only [if_neg hbefore, if_pos honce, reduceCtorEq, false_iff]
    omega
  cases hp : p.multiOnlyLast with
  | false => simp [if_neg hbefore, if_neg honce]
  | true =>
      cases hbehind : o.behind.multiOnlyLast with
      | false => simp [if_neg hbefore, if_neg honce]
      | true =>
          have hzero : o.before.multiCount = 0 := by omega
          have hone : p.multiCount + o.behind.multiCount ≤ 1 := by omega
          simp only [if_neg honce, hzero, hone, Bool.not_true, Bool.or_self,
            Bool.false_eq_true, if_false, and_self, true_and]
          cases name? with
          | some name => simp [eq_comm]
          | none =>
              cases shorthand? p with
              | none => simp
              | some name => simp [eq_comm]

theorem parseTemplate_eq_ok_iff {s : String} {t : Template} :
    parseTemplate s = .ok t ↔ Derives s t ∧ WellPlaced t.before t.matching t.behind := by
  constructor
  · intro h
    cases houtline : outline s.toList with
    | error rest =>
        simp only [parseTemplate, houtline, reduceCtorEq] at h
    | ok o =>
        cases hbody : bodyParts s o.body with
        | error e => simp only [parseTemplate, houtline, hbody, reduceCtorEq] at h
        | ok parts =>
            obtain ⟨name?, p⟩ := parts
            obtain ⟨hplaced, ht⟩ := (parseTemplate_of_outline houtline hbody).1 h
            obtain ⟨front, back, hs, hfront, -, hback⟩ := outline_eq_ok_iff.1 houtline
            cases name? with
            | some name =>
                subst ht
                obtain ⟨cs, ps, hcs, hname, hpath⟩ := bodyParts_eq_ok_some_iff.1 hbody
                rw [hcs] at hs
                exact ⟨⟨front, _, back, hs, hfront, .bound hname hpath, hback⟩, hplaced⟩
            | none =>
                obtain ⟨name, hshort, rfl⟩ := ht
                obtain ⟨hp, hname⟩ := shorthand?_eq_some_iff.1 hshort
                obtain ⟨-, hpath⟩ := bodyParts_eq_ok_none_iff.1 hbody
                have hcs := (derivesPath_name_iff hp hname).1 hpath
                exact ⟨⟨front, _, back, hs, hfront, .plain hcs, hback⟩,
                  (wellPlaced_name_iff hp hname).1 hplaced⟩
  · rintro ⟨⟨front, body, back, hs, hfront, hbody, hback⟩, hplaced⟩
    have houtline : outline s.toList = .ok ⟨t.before, body, t.behind⟩ := by
      refine outline_eq_ok_iff.2 ⟨front, back, hs, hfront, ⟨hbody.ne_nil, fun c hc => ?_⟩, hback⟩
      exact isBodyChar_of_isPathChar (hbody.isPathChar c hc)
    obtain ⟨name, before, matching, behind⟩ := t
    cases hbody with
    | bound hname hpath =>
        have hparts : bodyParts s _ = .ok (some name, matching) :=
          bodyParts_eq_ok_some_iff.2 ⟨_, _, rfl, hname, hpath⟩
        exact (parseTemplate_of_outline houtline hparts).2 ⟨hplaced, rfl⟩
    | plain hname =>
        -- The name alone is read as a path, and the shorthand turns it back into a name.
        have hp : (⟨[name]⟩ : RoutingPath).segments = [name] := rfl
        have hparts : bodyParts s body = .ok (none, ⟨[name]⟩) :=
          bodyParts_eq_ok_none_iff.2
            ⟨not_mem_identifier hname, (derivesPath_name_iff hp hname.2).2 hname⟩
        have hplaced := (wellPlaced_name_iff hp hname.2).2 hplaced
        exact (parseTemplate_of_outline houtline hparts).2
          ⟨hplaced, name, shorthand?_eq_some_iff.2 ⟨rfl, hname.2⟩, rfl⟩

/-! ### Templates as they are written -/

theorem DerivesPath.toList_text {cs : List Char} {p : RoutingPath} (h : DerivesPath cs p) :
    p.text.toList = cs := by
  have hmark : "/".toList = ['/'] := rfl
  have hjoin := Sequence.toList_join h hmark id fun _ _ hs => hs.toList
  rwa [List.map_id] at hjoin

theorem DerivesPath.isEmpty_eq_false {cs : List Char} {p : RoutingPath} (h : DerivesPath cs p) :
    p.isEmpty = false := by
  rw [RoutingPath.isEmpty, List.isEmpty_eq_false_iff]
  exact Text.Sequence.ne_nil h

theorem DerivesPath.of_text {cs : List Char} {p : RoutingPath} (h : DerivesPath cs p) :
    DerivesPath p.text.toList p := by
  rw [h.toList_text]
  exact h

end Routing

/-- The template of a variant, its pattern in full. -/
def RoutingVariant.templateText (name : String) (v : RoutingVariant) : String :=
  (if v.before.isEmpty then "" else v.before.text ++ "/") ++ "\x7b" ++ name ++ "=" ++
    v.matching.text ++ "\x7d" ++ if v.behind.isEmpty then "" else "/" ++ v.behind.text

namespace Routing

theorem DerivesBefore.of_text {cs : List Char} {p : RoutingPath} (h : DerivesBefore cs p) :
    DerivesBefore (if p.isEmpty then "" else p.text ++ "/").toList p := by
  cases h with
  | none => exact .none
  | path hpath =>
      rw [hpath.isEmpty_eq_false, if_neg (by decide), String.toList_append]
      exact .path hpath.of_text

theorem DerivesBehind.of_text {cs : List Char} {p : RoutingPath} (h : DerivesBehind cs p) :
    DerivesBehind (if p.isEmpty then "" else "/" ++ p.text).toList p := by
  cases h with
  | none => exact .none
  | path hpath =>
      rw [hpath.isEmpty_eq_false, if_neg (by decide), String.toList_append]
      exact .path hpath.of_text

theorem DerivesBody.of_text {cs : List Char} {name : String} {p : RoutingPath}
    (h : DerivesBody cs name p) : DerivesBody (name.toList ++ '=' :: p.text.toList) name p := by
  cases h with
  | plain hname => exact .bound ⟨rfl, hname.2⟩ (DerivesPath.of_text (.one .single))
  | bound hname hpath => exact .bound ⟨rfl, hname.2⟩ hpath.of_text

/-- A template is derived from what its variant is written as. -/
theorem Derives.of_text {s : String} {t : Template} (h : Derives s t) (fieldPath : List String) :
    Derives (RoutingVariant.templateText t.name ⟨fieldPath, t.before, t.matching, t.behind⟩) t := by
  obtain ⟨front, body, back, -, hfront, hbody, hback⟩ := h
  refine ⟨_, _, _, ?_, hfront.of_text, hbody.of_text, hback.of_text⟩
  simp [RoutingVariant.templateText]

end Routing

/-! ### Rules -/

namespace RoutingRule

open Text (trim split)
open Routing (Derives WellPlaced)

variable {rule : RoutingRule}

theorem parse_of_template {template name : String} {v : RoutingVariant} {field : String}
    (hfield : trim rule.field = field) (htemplate : trim rule.pathTemplate = template)
    (hne : field ≠ "") (hne' : template ≠ "") :
    rule.parse = .ok (some (name, v)) ↔
      ∃ t, (Derives template t ∧ WellPlaced t.before t.matching t.behind) ∧
        name = t.name ∧ v = ⟨split '.' field, t.before, t.matching, t.behind⟩ := by
  simp only [← Routing.parseTemplate_eq_ok_iff]
  unfold parse
  simp only [hfield, htemplate, if_neg hne, if_neg hne']
  cases Routing.parseTemplate template with
  | error e => simp
  | ok t =>
      constructor
      · intro h
        cases h
        exact ⟨t, rfl, rfl, rfl⟩
      · rintro ⟨t', ht, rfl, rfl⟩
        cases ht
        rfl

theorem templateText_ne_empty (name : String) (v : RoutingVariant) : v.templateText name ≠ "" := by
  intro h
  have hlist := congrArg String.toList h
  simp [RoutingVariant.templateText] at hlist

/-- What was read from a template is read again from the template that is written with it. -/
theorem parse_templateText {name : String} {v : RoutingVariant}
    (hne : trim rule.pathTemplate ≠ "") (h : rule.parse = .ok (some (name, v))) :
    parse ⟨rule.field, v.templateText name⟩ = .ok (some (name, v)) := by
  have hfield : trim rule.field ≠ "" := by
    intro hfield
    simp [parse, hfield, hne] at h
  obtain ⟨t, ⟨hderives, hplaced⟩, hname, hv⟩ := (parse_of_template rfl rfl hfield hne).1 h
  have hwritten : Derives (v.templateText name) t := by
    rw [hname, hv]
    exact hderives.of_text _
  have htrim := Text.trim_of_not_blank hwritten.not_blank
  have hagain := @parse_of_template ⟨rule.field, v.templateText name⟩ _ name v _ rfl htrim hfield
    (templateText_ne_empty name v)
  exact hagain.2 ⟨t, ⟨hwritten, hplaced⟩, hname, hv⟩

/-- Reading accepts exactly the rule without field and template, which has no header, those without a
template, which route the whole field, and those whose template derives from the grammar and follows the
rule for `**`.  What is read are the pieces of the derivation, and it is read again from the template that
is written with them. -/
theorem parse_accepts_language (rule : RoutingRule) :
    (rule.parse = .ok none ↔ trim rule.field = "" ∧ trim rule.pathTemplate = "") ∧
      (trim rule.field = "" → trim rule.pathTemplate ≠ "" →
        rule.parse = .error (.missingField (trim rule.pathTemplate))) ∧
      (∀ name v, rule.parse = .ok (some (name, v)) ↔
        trim rule.field ≠ "" ∧
          (trim rule.pathTemplate = "" ∧ name = trim rule.field ∧
            v = ⟨split '.' (trim rule.field), .empty, ⟨[RoutingPath.multi]⟩, .empty⟩ ∨
          ∃ t, (Derives (trim rule.pathTemplate) t ∧ WellPlaced t.before t.matching t.behind) ∧
            name = t.name ∧
              v = ⟨split '.' (trim rule.field), t.before, t.matching, t.behind⟩)) ∧
      (trim rule.pathTemplate ≠ "" → ∀ name v, rule.parse = .ok (some (name, v)) →
        parse ⟨rule.field, v.templateText name⟩ = .ok (some (name, v))) := by
  refine ⟨?_, fun hfield htemplate => ?_, fun name v => ?_,
    fun hne name v h => parse_templateText hne h⟩
  · by_cases hfield : trim rule.field = ""
    · by_cases htemplate : trim rule.pathTemplate = ""
      · simp [parse, hfield, htemplate]
      · simp [parse, hfield, htemplate]
    · by_cases htemplate : trim rule.pathTemplate = ""
      · simp [parse, hfield, htemplate]
      · simp only [parse, if_neg htemplate, hfield, false_and, iff_false]
        cases Routing.parseTemplate (trim rule.pathTemplate) with
        | error e => simp
        | ok t => simp
  · simp [parse, hfield, htemplate]
  · by_cases hfield : trim rule.field = ""
    · by_cases htemplate : trim rule.pathTemplate = ""
      · simp [parse, hfield, htemplate]
      · simp [parse, hfield, htemplate]
    · by_cases htemplate : trim rule.pathTemplate = ""
      · have hnone : ∀ t, ¬Derives "" t := by
          rintro t ⟨front, body, back, hs, -⟩
          simp at hs
        simp [parse, hfield, htemplate, hnone, eq_comm]
      · rw [parse_of_template rfl rfl hfield htemplate]
        simp only [ne_eq, hfield, htemplate, not_false_eq_true, true_and, false_and, false_or]

/-- A rule with a prefix, a pattern with a wildcard, a suffix, and blanks around it. -/
def mixedRule : RoutingRule := ⟨" name.id ", "projects/*/\x7brouting_id=a=b/*\x7d/** "⟩

/-- A rule without a field. -/
def fieldlessRule : RoutingRule := ⟨" ", "\x7bparent\x7d"⟩

theorem parse_accepts_language_mixedRule :
    (trim fieldlessRule.field = "" ∧ trim fieldlessRule.pathTemplate ≠ "" ∧
      fieldlessRule.parse = .error (.missingField (trim fieldlessRule.pathTemplate))) ∧
      trim mixedRule.pathTemplate ≠ "" ∧
        ∃ v, mixedRule.parse = .ok (some ("routing_id", v)) ∧
          v.templateText "routing_id" = "projects/*/\x7brouting_id=a=b/*\x7d/**" ∧
            parse ⟨mixedRule.field, v.templateText "routing_id"⟩ = .ok (some ("routing_id", v)) := by
  have hfield : trim fieldlessRule.field = "" := by decide +kernel
  have hne : trim fieldlessRule.pathTemplate ≠ "" := by decide +kernel
  have htemplate : trim mixedRule.pathTemplate ≠ "" := by decide +kernel
  have hparse : mixedRule.parse = .ok (some ("routing_id",
      ⟨["name", "id"], ⟨["projects", "*"]⟩, ⟨["a=b", "*"]⟩, ⟨["**"]⟩⟩)) := by rfl
  exact ⟨⟨hfield, hne, (parse_accepts_language fieldlessRule).2.1 hfield hne⟩, htemplate, _, hparse,
    by decide +kernel, (parse_accepts_language mixedRule).2.2.2 htemplate _ _ hparse⟩

end RoutingRule

end ServiceModel
