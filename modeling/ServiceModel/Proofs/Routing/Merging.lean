import Mathlib.Algebra.GroupWithZero.Nat
import Mathlib.Data.List.Basic
import ServiceModel.Routing.Parser

/-!
Routing rules together.  Rules that name one header are merged into it: headers stand in the order of
their first rules, and the variants of each in the order of its rules, none left out and none twice for one
rule.  One rule that fails is enough for all to fail, and every error is reported, in the order of the
rules.
-/

namespace ServiceModel.RoutingRule

open Text (trim)

/-! ### What rules give -/

/-- The header that a rule names, with its variant, if the rule can be read and names one. -/
def route? (rule : RoutingRule) : Option (String × RoutingVariant) :=
  match rule.parse with
  | .ok found => found
  | .error _ => none

/-- Why a rule cannot be read. -/
def error? (rule : RoutingRule) : Option RoutingError :=
  match rule.parse with
  | .ok _ => none
  | .error e => some e

/-- The headers and variants of some rules, in their order. -/
def routes (rules : List RoutingRule) : List (String × RoutingVariant) := rules.filterMap route?

/-- The errors of some rules, in their order. -/
def failures (rules : List RoutingRule) : List RoutingError := rules.filterMap error?

/-- The variants of the rules that name a header, in their order. -/
def variantsFor (name : String) (rules : List RoutingRule) : List RoutingVariant :=
  ((routes rules).filter (·.1 == name)).map (·.2)

/-- A rule that says there is no header: it has neither field nor template. -/
def IsBlank (rule : RoutingRule) : Prop := trim rule.field = "" ∧ trim rule.pathTemplate = ""

instance (rule : RoutingRule) : Decidable rule.IsBlank := inferInstanceAs (Decidable (_ ∧ _))

theorem parse_eq_none_iff {rule : RoutingRule} : rule.parse = .ok none ↔ rule.IsBlank := by
  unfold parse IsBlank
  by_cases hfield : trim rule.field = ""
  · by_cases htemplate : trim rule.pathTemplate = ""
    · simp [hfield, htemplate]
    · simp [hfield, htemplate]
  · by_cases htemplate : trim rule.pathTemplate = ""
    · simp [hfield, htemplate]
    · simp only [hfield, htemplate, false_and, iff_false, if_false]
      cases Routing.parseTemplate (trim rule.pathTemplate) with
      | error e => simp
      | ok t => simp

theorem failures_eq_nil_iff {rules : List RoutingRule} :
    failures rules = [] ↔ ∀ r ∈ rules, ∃ v, r.parse = .ok v := by
  rw [failures, List.filterMap_eq_nil_iff]
  refine forall₂_congr fun r _ => ?_
  unfold error?
  cases r.parse with
  | error e => simp
  | ok v => simp

/-- Rules of which none fails give a variant each, but for those that say there is no header. -/
theorem length_routes {rules : List RoutingRule} (h : ∀ r ∈ rules, ∃ v, r.parse = .ok v) :
    (routes rules).length = rules.countP fun r => !decide r.IsBlank := by
  induction rules with
  | nil => rfl
  | cons r rs ih =>
      obtain ⟨⟨v, hv⟩, hrs⟩ := List.forall_mem_cons.1 h
      have ih := ih hrs
      rw [List.countP_cons, ← ih]
      cases v with
      | none =>
          have hblank := parse_eq_none_iff.1 hv
          simp [routes, route?, hv, hblank]
      | some found =>
          have hblank : ¬ r.IsBlank := fun hblank => by
            rw [parse_eq_none_iff.2 hblank] at hv
            cases hv
          simp [routes, route?, hv, hblank]

/-! ### Headers of routes -/

/-- Headers hold some routes: each route is a variant of the header of its name, in the same order. -/
structure Holds (found : List (String × RoutingVariant)) (headers : List RoutingHeader) : Prop where
  names : headers.map (·.name) = (found.map (·.1)).eraseDups
  distinct : (headers.map (·.name)).Nodup
  variants : ∀ h ∈ headers, h.variants = (found.filter (·.1 == h.name)).map (·.2)
  total : (headers.map (·.variants.length)).sum = found.length

theorem holds_nil : Holds [] [] where
  names := rfl
  distinct := List.nodup_nil
  variants := nofun
  total := rfl

section Step

variable {name : String} {v : RoutingVariant} {headers : List RoutingHeader}

theorem addVariant_of_new (h : name ∉ headers.map (·.name)) :
    addVariant name v headers = headers ++ [⟨name, [v]⟩] := by
  induction headers with
  | nil => rfl
  | cons header rest ih =>
      obtain ⟨hne, hrest⟩ := not_or.1 (List.mem_cons.not.1 h)
      rw [addVariant, if_neg (Ne.symm hne), ih hrest, List.cons_append]

theorem addVariant_of_known (hdistinct : (headers.map (·.name)).Nodup)
    (h : name ∈ headers.map (·.name)) :
    addVariant name v headers = headers.map fun header =>
      if header.name = name then { header with variants := header.variants ++ [v] } else header := by
  induction headers with
  | nil => cases h
  | cons header rest ih =>
      obtain ⟨hfresh, hrest⟩ := List.nodup_cons.1 hdistinct
      rw [addVariant, List.map_cons]
      split
      next hname =>
        -- the name is that of the first header, so all others stay as they are
        have hkept : ∀ other ∈ rest, ¬ other.name = name := fun other hother heq =>
          hfresh (List.mem_map.2 ⟨other, hother, heq.trans hname.symm⟩)
        have hsame : (rest.map fun other => if other.name = name then
            { other with variants := other.variants ++ [v] } else other) = rest := by
          conv_rhs => rw [← List.map_id rest]
          exact List.map_congr_left fun other hother => if_neg (hkept other hother)
        rw [hsame]
      next hname =>
        rw [ih hrest ((List.mem_cons.1 h).resolve_left (Ne.symm hname))]

theorem sum_addVariant (name : String) (v : RoutingVariant) (headers : List RoutingHeader) :
    ((addVariant name v headers).map (·.variants.length)).sum =
      (headers.map (·.variants.length)).sum + 1 := by
  induction headers with
  | nil => rfl
  | cons header rest ih =>
      rw [addVariant]
      split
      · simp only [List.map_cons, List.sum_cons, List.length_append, List.length_singleton]
        omega
      · simp only [List.map_cons, List.sum_cons, ih]
        omega

/-- One more route is one more variant, at the end of its header. -/
theorem Holds.addVariant {found : List (String × RoutingVariant)} (h : Holds found headers)
    (name : String) (v : RoutingVariant) :
    Holds (found ++ [(name, v)]) (addVariant name v headers) := by
  have hmem : name ∈ headers.map (·.name) ↔ name ∈ found.map (·.1) := by
    rw [h.names, List.mem_eraseDups]
  have htotal : ((RoutingRule.addVariant name v headers).map (·.variants.length)).sum =
      (found ++ [(name, v)]).length := by
    rw [sum_addVariant, h.total, List.length_append, List.length_singleton]
  by_cases hknown : name ∈ headers.map (·.name)
  · have hnames : (RoutingRule.addVariant name v headers).map (·.name) = headers.map (·.name) := by
      rw [addVariant_of_known h.distinct hknown, List.map_map]
      refine List.map_congr_left fun header _ => ?_
      dsimp only [Function.comp]
      split <;> rfl
    refine ⟨?_, hnames ▸ h.distinct, fun header hheader => ?_, htotal⟩
    · rw [hnames, h.names, List.map_append, List.eraseDups_append]
      simp [List.removeAll, hmem.1 hknown]
    · rw [addVariant_of_known h.distinct hknown, List.mem_map] at hheader
      obtain ⟨before, hbefore, rfl⟩ := hheader
      rw [List.filter_append, List.map_append]
      split
      next hname => simp [h.variants before hbefore, hname]
      next hname => simp [h.variants before hbefore, Ne.symm hname]
  · have hnew : name ∉ found.map (·.1) := fun hfound => hknown (hmem.2 hfound)
    rw [addVariant_of_new hknown] at htotal ⊢
    refine ⟨?_, ?_, fun header hheader => ?_, htotal⟩
    · rw [List.map_append, List.map_append, h.names, List.eraseDups_append]
      simp [List.removeAll, hnew, List.eraseDups_cons]
    · rw [List.map_append]
      exact List.nodup_append.2 ⟨h.distinct, List.pairwise_singleton _ _, fun x hx y hy heq =>
        hknown (by simpa [heq, List.mem_singleton.1 hy] using hx)⟩
    · rw [List.filter_append, List.map_append]
      rcases List.mem_append.1 hheader with hheader | hheader
      · have hname : ¬ name = header.name := fun heq =>
          hknown (List.mem_map.2 ⟨header, hheader, heq.symm⟩)
        simp [h.variants header hheader, hname]
      · cases List.mem_singleton.1 hheader
        have hnone : found.filter (·.1 == name) = [] :=
          List.filter_eq_nil_iff.2 fun r hr heq =>
            hnew (List.mem_map.2 ⟨r, hr, beq_iff_eq.1 heq⟩)
        simp [hnone]

end Step

/-! ### All rules -/

theorem gather_snd (headers : List RoutingHeader) (errors : List RoutingError)
    (rules : List RoutingRule) : (gather headers errors rules).2 = errors ++ failures rules := by
  induction rules generalizing headers errors with
  | nil => simp [gather, failures]
  | cons r rs ih =>
      rw [gather]
      cases h : r.parse with
      | error e => simp [ih, failures, error?, h]
      | ok found =>
          cases found with
          | none => simp [ih, failures, error?, h]
          | some route => simp [ih, failures, error?, h]

/-- After each rule the headers hold the routes of the rules so far. -/
theorem Holds.gather {found : List (String × RoutingVariant)} {headers : List RoutingHeader}
    (h : Holds found headers) (errors : List RoutingError) (rules : List RoutingRule) :
    Holds (found ++ routes rules) (gather headers errors rules).1 := by
  induction rules generalizing found headers errors with
  | nil => simpa [RoutingRule.gather, routes] using h
  | cons r rs ih =>
      rw [RoutingRule.gather]
      cases hr : r.parse with
      | error e => simpa [routes, route?, hr] using ih h (errors ++ [e])
      | ok parsed =>
          cases parsed with
          | none => simpa [routes, route?, hr] using ih h errors
          | some route => simpa [routes, route?, hr] using ih (h.addVariant route.1 route.2) errors

theorem Holds.variants_ne_nil {found : List (String × RoutingVariant)}
    {headers : List RoutingHeader} (h : Holds found headers) :
    ∀ header ∈ headers, header.variants ≠ [] := by
  intro header hheader hnil
  have hname : header.name ∈ found.map (·.1) := by
    rw [← List.mem_eraseDups, ← h.names]
    exact List.mem_map_of_mem hheader
  obtain ⟨route, hroute, heq⟩ := List.mem_map.1 hname
  rw [h.variants header hheader, List.map_eq_nil_iff, List.filter_eq_nil_iff] at hnil
  exact hnil route hroute (beq_iff_eq.2 heq)

/-- Headers are what some rules are merged into. -/
structure Merges (rules : List RoutingRule) (headers : List RoutingHeader) : Prop where
  /-- The headers stand in the order of their first rules. -/
  names : headers.map (·.name) = ((routes rules).map (·.1)).eraseDups
  distinct : (headers.map (·.name)).Nodup
  /-- Each has the variants of the rules that name it, in their order, repeated ones too. -/
  variants : ∀ h ∈ headers, h.variants = variantsFor h.name rules
  filled : ∀ h ∈ headers, h.variants ≠ []
  total : (headers.map (·.variants.length)).sum = rules.countP fun r => !decide r.IsBlank

theorem Merges.unique {rules : List RoutingRule} {headers headers' : List RoutingHeader}
    (h : Merges rules headers) (h' : Merges rules headers') : headers = headers' := by
  have hvariants : ∀ {hs : List RoutingHeader}, Merges rules hs →
      hs = ((routes rules).map (·.1)).eraseDups.map fun name => ⟨name, variantsFor name rules⟩ := by
    intro hs hmerges
    rw [← hmerges.names, List.map_map]
    conv_lhs => rw [← List.map_id hs]
    refine List.map_congr_left fun header hheader => ?_
    dsimp only [Function.comp, id]
    rw [← hmerges.variants header hheader]
  rw [hvariants h, hvariants h']

theorem Holds.merges {rules : List RoutingRule} {headers : List RoutingHeader}
    (h : Holds (routes rules) headers) (hall : ∀ r ∈ rules, ∃ v, r.parse = .ok v) :
    Merges rules headers where
  names := h.names
  distinct := h.distinct
  variants := h.variants
  filled := h.variants_ne_nil
  total := h.total.trans (length_routes hall)

theorem parseAll_eq (rules : List RoutingRule) :
    parseAll rules =
      match failures rules with
      | [] => .ok (gather [] [] rules).1
      | [e] => .error e
      | errors => .error (.several errors) := by
  have herrors : (gather [] [] rules).2 = failures rules := by
    rw [gather_snd, List.nil_append]
  rw [parseAll, ← herrors]
  obtain ⟨headers, errors⟩ := gather [] [] rules
  cases errors with
  | nil => rfl
  | cons e errors => cases errors <;> rfl

/-- Rules can be used together exactly if each of them can be read. -/
theorem exists_parseAll_iff {rules : List RoutingRule} :
    (∃ headers, parseAll rules = .ok headers) ↔ ∀ r ∈ rules, ∃ v, r.parse = .ok v := by
  rw [← failures_eq_nil_iff, parseAll_eq]
  cases failures rules with
  | nil => simp
  | cons e errors => cases errors <;> simp

/-- Rules of which none fails are merged into headers; if some fail, their errors are reported in order,
one as it is and several together. -/
theorem parseAll_merges (rules : List RoutingRule) :
    ((∃ headers, parseAll rules = .ok headers) ↔ ∀ r ∈ rules, ∃ v, r.parse = .ok v) ∧
      (∀ headers, parseAll rules = .ok headers ↔
        (∀ r ∈ rules, ∃ v, r.parse = .ok v) ∧ Merges rules headers) ∧
      ∀ e, parseAll rules = .error e ↔
        failures rules = [e] ∨ 2 ≤ (failures rules).length ∧ e = .several (failures rules) := by
  refine ⟨exists_parseAll_iff, fun headers => ?_, fun e => ?_⟩
  · rw [parseAll_eq, ← failures_eq_nil_iff]
    cases hfailures : failures rules with
    | nil =>
        have hholds : Holds (routes rules) (gather [] [] rules).1 := by
          simpa using holds_nil.gather [] rules
        have hmerges := hholds.merges (failures_eq_nil_iff.1 hfailures)
        simp only [Except.ok.injEq, true_and]
        exact ⟨fun heq => heq ▸ hmerges, fun hmerges' => hmerges.unique hmerges'⟩
    | cons e errors => cases errors <;> simp
  · rw [parseAll_eq]
    cases failures rules with
    | nil => simp
    | cons e' errors =>
        cases errors with
        | nil => simp
        | cons e'' errors => simp [eq_comm]

end ServiceModel.RoutingRule
