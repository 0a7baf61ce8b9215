import ServiceModel.Proofs.PathTemplate.Parsing

/-!
Path templates as they are written.  A template that was read is written as the text it was read from,
but for patterns that go without saying.
-/

namespace ServiceModel.PathTemplate

open Text (Sequence cutFirst cutFirst_append cutFirst_eq_none cutFirst_eq_some)

/-! ### Patterns that go without saying -/

/-- What stands in the braces of a variable, without a pattern of one `*`. -/
def shortenBody (body : List Char) : List Char :=
  match cutFirst '=' body with
  | some (path, ['*']) => path
  | _ => body

/-- A text, each variable of which is written without a pattern of one `*`. -/
def shorten : List Char → List Char
  | [] => []
  | c :: cs =>
      if c = '\x7b' then
        match _hcut : cutFirst '\x7d' cs with
        | some (body, rest) => '\x7b' :: (shortenBody body ++ '\x7d' :: shorten rest)
        | none => c :: cs
      else c :: shorten cs
termination_by cs => cs.length
decreasing_by
  · rw [cutFirst_eq_some _hcut]
    simp only [List.length_cons, List.length_append]
    omega
  · simp

theorem shorten_append {cs : List Char} (h : '\x7b' ∉ cs) (rest : List Char) :
    shorten (cs ++ rest) = cs ++ shorten rest := by
  induction cs with
  | nil => rfl
  | cons c cs ih =>
      rw [List.mem_cons, not_or] at h
      rw [List.cons_append, shorten, if_neg (Ne.symm h.1), ih h.2, List.cons_append]

theorem shorten_of_not_mem {cs : List Char} (h : '\x7b' ∉ cs) : shorten cs = cs := by
  have happend := shorten_append h []
  rw [List.append_nil, shorten, List.append_nil] at happend
  exact happend

theorem shorten_braces {body : List Char} (h : '\x7d' ∉ body) (rest : List Char) :
    shorten ('\x7b' :: (body ++ '\x7d' :: rest)) =
      '\x7b' :: (shortenBody body ++ '\x7d' :: shorten rest) := by
  rw [shorten, if_pos rfl]
  split
  next body' rest' heq =>
    rw [cutFirst_append h] at heq
    cases heq
    rfl
  next heq =>
    rw [cutFirst_append h] at heq
    cases heq

/-! ### Characters of each part -/

theorem DerivesLiteral.not_mem {cs : List Char} {l : String} (h : DerivesLiteral cs l) {c : Char}
    (hc : isLiteralChar c = false) : c ∉ cs := by
  obtain ⟨rfl, -, hall⟩ := h
  intro hmem
  rw [hall c hmem] at hc
  cases hc

theorem DerivesIdentifier.forall_char {cs : List Char} {n : String} (h : DerivesIdentifier cs n) :
    ∀ c ∈ cs, isIdentifierChar c = true := by
  obtain ⟨rfl, c, tail, hn, hfirst, htail⟩ := h
  intro d hd
  rw [hn] at hd
  rcases List.mem_cons.1 hd with rfl | hd
  · simp only [isIdentifierStart, isIdentifierChar, Char.isAlphanum, Bool.or_eq_true] at hfirst ⊢
    rcases hfirst with hfirst | hfirst
    · exact Or.inl (Or.inl hfirst)
    · exact Or.inr hfirst
  · exact htail d hd

/-- A field path holds no mark but dots. -/
theorem not_mem_fieldPath {cs : List Char} {path : List String}
    (h : Sequence '.' DerivesIdentifier cs path) {c : Char} (hc : isIdentifierChar c = false)
    (hdot : c ≠ '.') : c ∉ cs := by
  intro hmem
  have hchar : isIdentifierChar c = true ∨ c = '.' :=
    h.forall_char (P := fun c => isIdentifierChar c = true ∨ c = '.')
      (fun _ _ hn d hd => Or.inl (hn.forall_char d hd)) (Or.inr rfl) c hmem
  rcases hchar with hchar | hchar
  · rw [hc] at hchar
    cases hchar
  · exact hdot hchar

/-- A pattern holds no braces. -/
theorem not_mem_pattern {cs : List Char} {pattern : List VariableSegment}
    (h : Sequence '/' DerivesPatternSegment cs pattern) {c : Char} (hc : isLiteralChar c = false)
    (hstar : c ≠ '*') (hslash : c ≠ '/') : c ∉ cs := by
  refine fun hmem => h.forall_char (P := fun d => d ≠ c) (fun _ _ hs d hd => ?_) hslash.symm c hmem rfl
  rintro rfl
  cases hs with
  | single => exact hstar (List.mem_singleton.1 hd)
  | multi =>
      rcases List.mem_cons.1 hd with hd | hd
      · exact hstar hd
      · exact hstar (List.mem_singleton.1 hd)
  | literal hl => exact hl.not_mem hc hd

/-! ### Writing what was read -/

theorem DerivesPatternSegment.toList_text {cs : List Char} {s : VariableSegment}
    (h : DerivesPatternSegment cs s) : s.text.toList = cs := by
  cases h with
  | single => rfl
  | multi => rfl
  | literal hl => exact hl.1

theorem toList_dottedPath {cs : List Char} {v : PathVariable}
    (h : Sequence '.' DerivesIdentifier cs v.fieldPath) : v.dottedPath.toList = cs := by
  have hmark : ".".toList = ['.'] := rfl
  have hjoin := h.toList_join hmark id fun _ _ hn => hn.1
  rw [List.map_id] at hjoin
  exact hjoin

theorem toList_patternText {cs : List Char} {v : PathVariable}
    (h : Sequence '/' DerivesPatternSegment cs v.segments) : v.patternText.toList = cs :=
  h.toList_join rfl VariableSegment.text fun _ _ hs => hs.toList_text

/-- A pattern is one `*` exactly if it stands for any one segment. -/
theorem pattern_eq_star_iff {ps : List Char} {pattern : List VariableSegment}
    (h : Sequence '/' DerivesPatternSegment ps pattern) : ps = ['*'] ↔ pattern = [.single] := by
  rw [← reads_pattern.whole_iff] at h
  constructor
  · rintro rfl
    have hstar : Text.separated '/' patternSegment? ['*'] = some ([.single], []) := rfl
    rw [hstar] at h
    cases h
    rfl
  · rintro rfl
    cases reads_pattern.whole_iff.1 h with
    | one hs =>
        cases hs with
        | single => rfl
    | more hs hrest => exact absurd rfl hrest.ne_nil

theorem shortenBody_bound {cs ps : List Char} (h : '=' ∉ cs) :
    shortenBody (cs ++ '=' :: ps) = if ps = ['*'] then cs else cs ++ '=' :: ps := by
  rw [shortenBody, cutFirst_append h]
  split
  next path heq =>
    cases heq
    rfl
  next hne =>
    rw [if_neg]
    rintro rfl
    exact hne cs rfl

/-- A variable is written without a pattern that goes without saying. -/
theorem shorten_variable {cs : List Char} {v : PathVariable} (h : DerivesVariable cs v)
    (rest : List Char) : shorten (cs ++ rest) = v.text.toList ++ shorten rest := by
  cases h with
  | @plain cs path hpath =>
      have hequals : '=' ∉ cs := not_mem_fieldPath hpath (by decide) (by decide)
      have hbrace : '\x7d' ∉ cs := not_mem_fieldPath hpath (by decide) (by decide)
      have hbody : shortenBody cs = cs := by
        rw [shortenBody, cutFirst_eq_none hequals]
      have hdotted := toList_dottedPath (v := ⟨path, [.single]⟩) hpath
      rw [List.cons_append, List.append_assoc, List.singleton_append, shorten_braces hbrace, hbody,
        PathVariable.text, if_pos rfl, String.toList_append, String.toList_append, hdotted]
      simp
  | @bound cs ps path pattern hpath hps =>
      have hequals : '=' ∉ cs := not_mem_fieldPath hpath (by decide) (by decide)
      have hbrace : '\x7d' ∉ cs ++ '=' :: ps := by
        rw [List.mem_append, List.mem_cons]
        rintro (hmem | hmem | hmem)
        · exact not_mem_fieldPath hpath (by decide) (by decide) hmem
        · exact absurd hmem (by decide)
        · exact not_mem_pattern hps (by decide) (by decide) (by decide) hmem
      have hdotted := toList_dottedPath (v := ⟨path, pattern⟩) hpath
      have hpattern := toList_patternText (v := ⟨path, pattern⟩) hps
      have hcs : '\x7b' :: (cs ++ '=' :: (ps ++ ['\x7d'])) ++ rest =
          '\x7b' :: (cs ++ '=' :: ps ++ '\x7d' :: rest) := by
        simp
      rw [hcs, shorten_braces hbrace, shortenBody_bound hequals, PathVariable.text]
      by_cases hstar : ps = ['*']
      · rw [if_pos hstar, if_pos ((pattern_eq_star_iff hps).1 hstar), String.toList_append,
          String.toList_append, hdotted]
        simp
      · rw [if_neg hstar, if_neg (fun hsingle => hstar ((pattern_eq_star_iff hps).2 hsingle)),
          String.toList_append, String.toList_append, String.toList_append, String.toList_append,
          hdotted, hpattern]
        simp

theorem shorten_segment {cs : List Char} {s : PathSegment} (h : DerivesSegment cs s)
    (rest : List Char) : shorten ('/' :: (cs ++ rest)) = s.text.toList ++ shorten rest := by
  rw [shorten, if_neg (by decide)]
  cases h with
  | literal hl =>
      rw [shorten_append (hl.not_mem (by decide)), PathSegment.text, String.toList_append, hl.1]
      rfl
  | braced hv =>
      rw [shorten_variable hv, PathSegment.text, String.toList_append]
      rfl

theorem toList_join_empty (texts : List String) :
    (Text.join "" texts).toList = texts.flatMap String.toList := by
  match texts with
  | [] => rfl
  | [s] => simp [Text.join]
  | s :: u :: rest =>
      rw [Text.join, String.append_empty, String.toList_append, toList_join_empty (u :: rest)]
      rfl

theorem toList_text (t : PathTemplate) : t.text.toList = t.segments.flatMap (·.text.toList) := by
  rw [text, toList_join_empty, List.flatMap_map]

/-- Segments are written one after the other, each with its slash. -/
theorem shorten_sequence {cs : List Char} {segments : List PathSegment}
    (h : Sequence '/' DerivesSegment cs segments) (rest : List Char) :
    shorten ('/' :: (cs ++ rest)) = segments.flatMap (·.text.toList) ++ shorten rest := by
  induction h with
  | one hs =>
      rw [shorten_segment hs, List.flatMap_singleton]
  | more hs _ ih =>
      rw [List.append_assoc, List.cons_append, shorten_segment hs, ih, List.flatMap_cons,
        List.append_assoc]

/-- A text that derives a template is written as itself, but for patterns that go without saying. -/
theorem toList_text_of_derives {s : String} {t : PathTemplate} (h : Derives s t) :
    t.text.toList = shorten s.toList := by
  obtain ⟨cs, hs, h⟩ := h
  obtain ⟨segments⟩ := t
  rw [hs, toList_text]
  cases h with
  | plain hsegments =>
      have hshorten := shorten_sequence hsegments []
      rw [List.append_nil, shorten, List.append_nil] at hshorten
      exact hshorten.symm
  | @verb cs vs read v hsegments hverb =>
      have hbrace : '\x7b' ∉ ':' :: vs := by
        rw [List.mem_cons, not_or]
        exact ⟨by decide, hverb.not_mem (by decide)⟩
      change (read ++ [PathSegment.verb v]).flatMap (·.text.toList) = _
      rw [shorten_sequence hsegments, shorten_of_not_mem hbrace, List.flatMap_append,
        List.flatMap_singleton, PathSegment.text, String.toList_append, hverb.1]
      rfl

end ServiceModel.PathTemplate
