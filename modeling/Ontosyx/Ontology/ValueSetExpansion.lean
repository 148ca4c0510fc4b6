import Ontosyx.Lib.Saturate
import Ontosyx.Ontology.Terminology

/-!
# The codes of a value set

The rules of a composition apply in order, so the last one that selects a code decides
whether the set holds it.  A code is its identifier: that is what duplicates and exclusions
go by.

A descendants rule selects the codes from which its root is reached by broader links.  The
links may be cyclic or lead nowhere; on a flat system, or below a root the system does not
have, the rule selects nothing and warns.

## Main results

* `mem_keepDescendants_iff` — the passes find the closure.
* `mem_applyIncludeRule_iff` — what one rule does.
* `expandCodes_lastRuleWins` — what all of them do.
-/

namespace Ontosyx.Ontology

open List Lib.Saturate

/-! ## Broader links -/

def Broader (codes : List CodedValue) (id parent : CodedValueId) : Prop :=
  ∃ cv ∈ codes, cv.id = id ∧ cv.broaderId = some parent

def Reaches (codes : List CodedValue) : CodedValueId → CodedValueId → Prop :=
  Relation.ReflTransGen (Broader codes)

/-- The body of the loop of `descendants_inclusive`. -/
def keepChild (keep : List CodedValueId) (cv : CodedValue) : List CodedValueId :=
  match cv.broaderId with
  | some parent => if parent ∈ keep ∧ cv.id ∉ keep then cv.id :: keep else keep
  | none => keep

theorem keepDescendants_eq (codes : List CodedValue) (guard : Nat) (keep : List CodedValueId) :
    keepDescendants codes guard keep = saturate (keepChildren codes) guard keep := by
  induction guard generalizing keep with
  | zero => rfl
  | succ guard ih =>
    unfold keepDescendants saturate
    dsimp only
    rw [ih]

/-- One code adds itself or nothing. -/
theorem keepChild_cases (keep : List CodedValueId) (cv : CodedValue) :
    keepChild keep cv = keep ∨ (keepChild keep cv = cv.id :: keep ∧ cv.id ∉ keep ∧
      ∃ parent ∈ keep, cv.broaderId = some parent) := by
  unfold keepChild
  cases hbroader : cv.broaderId with
  | none => exact .inl rfl
  | some parent =>
    dsimp only
    split
    · rename_i h
      exact .inr ⟨rfl, h.2, parent, h.1, rfl⟩
    · exact .inl rfl

theorem suffix_keepChildren (codes : List CodedValue) (keep : List CodedValueId) :
    keep <:+ keepChildren codes keep := by
  induction codes generalizing keep with
  | nil => exact suffix_refl keep
  | cons cv codes ih =>
    have hstep : keep <:+ keepChild keep cv := by
      apply (keepChild_cases keep cv).elim
      · intro h
        rw [h]
      · intro h
        rw [h.1]
        exact suffix_cons cv.id keep
    exact hstep.trans (ih (keepChild keep cv))

variable {keep : List CodedValueId} {codes : List CodedValue}

theorem keepChildren_induct {P : List CodedValueId → Prop}
    (hstep : ∀ keep, ∀ cv ∈ codes, P keep → P (keepChild keep cv)) (h : P keep) : P
    (keepChildren codes keep) := by
  induction codes generalizing keep with
  | nil => exact h
  | cons cv codes ih =>
    apply ih
    · intro keep cv' hcv'
      exact hstep keep cv' (mem_cons_of_mem cv hcv')
    · exact hstep keep cv mem_cons_self h

theorem nodup_keepChildren (h : keep.Nodup) : (keepChildren codes keep).Nodup := by
  apply keepChildren_induct _ h
  intro keep cv _ hkeep
  apply (keepChild_cases keep cv).elim
  · intro h
    rwa [h]
  · intro h
    rw [h.1]
    exact nodup_cons.2 ⟨h.2.1, hkeep⟩

theorem keepChildren_subset {bound : List CodedValueId} (hcodes : codes.map (·.id) ⊆ bound)
    (h : keep ⊆ bound) : keepChildren codes keep ⊆ bound := by
  have hall : ∀ x ∈ keepChildren codes keep, x ∈ bound := by
    apply keepChildren_induct (P := fun keep => ∀ x ∈ keep, x ∈ bound) _ h
    intro keep cv hcv hkeep
    apply (keepChild_cases keep cv).elim
    · intro h
      rwa [h]
    · intro h
      rw [h.1]
      exact forall_mem_cons.2 ⟨hcodes (mem_map_of_mem hcv), hkeep⟩
  exact hall

/-- A pass keeps the children of what was kept before it. -/
theorem mem_keepChildren_of_broader {cv : CodedValue} (hcv : cv ∈ codes) {parent : CodedValueId}
    (hbroader : cv.broaderId = some parent) (hparent : parent ∈ keep) :
    cv.id ∈ keepChildren codes keep := by
  induction codes generalizing keep with
  | nil => cases hcv
  | cons cv' codes ih =>
    show cv.id ∈ keepChildren codes (keepChild keep cv')
    cases hcv with
    | head =>
      apply (suffix_keepChildren codes (keepChild keep cv)).subset
      unfold keepChild
      rw [hbroader]
      dsimp only
      split
      · exact mem_cons_self
      · rename_i h
        exact not_not.1 fun hnot => h ⟨hparent, hnot⟩
    | tail _ hcv =>
      apply ih hcv
      apply (keepChild_cases keep cv').elim
      · intro h
        rwa [h]
      · intro h
        rw [h.1]
        exact mem_cons_of_mem _ hparent

/-- The passes find the closure: they stop when a pass adds nothing, and they do not run out
before, since every other pass keeps one more of the codes. -/
theorem mem_keepDescendants_iff (codes : List CodedValue) (root id : CodedValueId) :
    id ∈ keepDescendants codes (codes.length + 1) [root] ↔ Reaches codes id root := by
  rw [keepDescendants_eq]
  constructor
  · have hsound : ∀ x ∈ saturate (keepChildren codes) (codes.length + 1) [root],
        Reaches codes x root := by
      apply saturate_induct (P := fun keep => ∀ x ∈ keep, Reaches codes x root)
      · intro keep hkeep
        apply keepChildren_induct (P := fun keep => ∀ x ∈ keep, Reaches codes x root) _ hkeep
        intro keep cv hcv hkeep
        apply (keepChild_cases keep cv).elim
        · intro h
          rwa [h]
        · intro ⟨h, _, parent, hparent, hbroader⟩
          rw [h]
          exact forall_mem_cons.2
            ⟨.head ⟨cv, hcv, rfl, hbroader⟩ (hkeep parent hparent), hkeep⟩
      · simp only [mem_singleton, forall_eq]
        exact .refl
    exact hsound id
  · have hclosed : keepChildren codes (saturate (keepChildren codes) (codes.length + 1) [root]) =
        saturate (keepChildren codes) (codes.length + 1) [root] := by
      have hbound (keep : List CodedValueId) :
          keep ⊆ root :: codes.map (·.id) → keepChildren codes keep ⊆ root :: codes.map (·.id) :=
        keepChildren_subset (subset_cons_self ..)
      apply pass_saturate (suffix_keepChildren codes) (fun _ => nodup_keepChildren) hbound
      · exact nodup_singleton root
      · simp
      · rw [length_cons, length_map, length_singleton]
        omega
    have hroot : root ∈ saturate (keepChildren codes) (codes.length + 1) [root] := by
      apply saturate_induct (P := fun keep => root ∈ keep)
      · exact fun keep h => (suffix_keepChildren codes keep).subset h
      · exact mem_singleton_self root
    intro h
    induction h using Relation.ReflTransGen.head_induction_on with
    | refl => exact hroot
    | head hstep _ ih =>
      obtain ⟨cv, hcv, hid, hbroader⟩ := hstep
      rw [← hclosed, ← hid]
      exact mem_keepChildren_of_broader hcv hbroader ih

/-! ## Rules -/

/-- The codes a selector picks from a system; `descends` says when a code is picked by a
descendants rule. -/
def Picks (descends : CodeSystemDef → CodedValueId → CodedValueId → Prop) (regex : Regex)
    (system : CodeSystemDef) (selector : ValueSetSelector) (cv : CodedValue) : Prop :=
  match selector with
  | .all => True
  | .explicit codes => cv.code ∈ codes
  | .descendantsOf root => descends system cv.id root
  | .codePattern pattern => ∃ isMatch, regex pattern = some isMatch ∧ isMatch cv.code = true

/-- A rule selects a code from the system it names; of two systems with one identifier the map
keeps the last. -/
def Selects (descends : CodeSystemDef → CodedValueId → CodedValueId → Prop) (regex : Regex)
    (systems : List CodeSystemDef) (rule : ValueSetIncludeRule) (id : CodedValueId) : Prop :=
  ∃ system, systems.reverse.find? (·.id = rule.systemId) = some system ∧
    ∃ cv ∈ system.codes, cv.id = id ∧ Picks descends regex system rule.selector cv

/-- The root is reached by broader links. -/
def Below (system : CodeSystemDef) (id root : CodedValueId) : Prop :=
  Reaches system.codes id root

/-- The same, in a hierarchical system that has the root. -/
def BelowOwnRoot (system : CodeSystemDef) (id root : CodedValueId) : Prop :=
  system.hierarchical = true ∧ (∃ cv ∈ system.codes, cv.id = root) ∧ Below system id root

/-- Some rule selects the code, and the last that does includes it. -/
def IncludedLast (selects : ValueSetIncludeRule → CodedValueId → Prop)
    (rules : List ValueSetIncludeRule) (id : CodedValueId) : Prop :=
  ∃ before rule after, rules = before ++ rule :: after ∧ selects rule id ∧
    rule.mode = .include ∧ ∀ later ∈ after, ¬selects later id

/-- No code is listed twice, and the last rule that selects a code decides about it. -/
structure LastRuleWins (selects : ValueSetIncludeRule → CodedValueId → Prop)
    (rules : List ValueSetIncludeRule) (codes : List CodedValue) : Prop where
  nodup : (codes.map (·.id)).Nodup
  mem_iff : ∀ id, (∃ cv ∈ codes, cv.id = id) ↔ IncludedLast selects rules id

/-- The entries of `expand_value_set`. -/
def expandCodes (regex : Regex) (valueSet : ValueSetDef) (systems : List CodeSystemDef) :
    List CodedValue :=
  valueSet.composition.foldl (applyIncludeRule regex systems) []

section

variable {regex : Regex} {systems : List CodeSystemDef}

/-- `select_from_system` picks what the selector says. -/
theorem mem_selectFromSystem_iff {system : CodeSystemDef} {selector : ValueSetSelector}
    {cv : CodedValue} : cv ∈ selectFromSystem regex system selector ↔
      cv ∈ system.codes ∧ Picks BelowOwnRoot regex system selector cv := by
  cases selector with
  | all => simp [selectFromSystem, Picks]
  | explicit codes => simp [selectFromSystem, Picks]
  | descendantsOf root =>
    unfold selectFromSystem Picks BelowOwnRoot
    dsimp only
    split
    · rename_i h
      rw [Bool.and_eq_true, any_eq_true] at h
      simp only [decide_eq_true_eq] at h
      rw [descendantsInclusive, mem_filter, decide_eq_true_eq, mem_keepDescendants_iff,
        and_iff_right h.1, and_iff_right h.2]
      rfl
    · rename_i h
      rw [Bool.and_eq_true, any_eq_true] at h
      simp only [decide_eq_true_eq] at h
      constructor
      · intro hmem
        cases hmem
      · rintro ⟨_, hhier, hroot, _⟩
        exact absurd ⟨hhier, hroot⟩ h
  | codePattern pattern =>
    unfold selectFromSystem Picks
    cases hpattern : regex pattern with
    | none => simp [hpattern]
    | some isMatch => simp [hpattern]

variable {selected : List CodedValue}

/-- The codes that are in the set after including some. -/
theorem mem_foldl_include_iff {byRule : List CodedValue} {id : CodedValueId} :
    (∃ cv ∈ byRule.foldl (fun selected cv =>
      if selected.any (·.id = cv.id) then selected else selected ++ [cv]) selected, cv.id = id) ↔
        (∃ cv ∈ selected, cv.id = id) ∨ ∃ cv ∈ byRule, cv.id = id := by
  induction byRule generalizing selected with
  | nil => simp
  | cons cv byRule ih =>
    rw [foldl_cons, ih]
    by_cases hmem : selected.any (·.id = cv.id) = true
    · rw [if_pos hmem]
      rw [any_eq_true] at hmem
      obtain ⟨old, hold, hid⟩ := hmem
      rw [decide_eq_true_eq] at hid
      constructor
      · intro h
        exact h.imp_right fun ⟨x, hx, hxid⟩ => ⟨x, mem_cons_of_mem cv hx, hxid⟩
      · intro h
        apply h.elim .inl
        intro ⟨x, hx, hxid⟩
        cases hx with
        | head => exact .inl ⟨old, hold, hid.trans hxid⟩
        | tail _ hx => exact .inr ⟨x, hx, hxid⟩
    · rw [if_neg hmem]
      simp only [mem_append, mem_cons, or_and_right, exists_or, exists_eq_left,
        not_mem_nil, or_false, or_assoc]

theorem nodup_foldl_include {byRule : List CodedValue} (h : (selected.map (·.id)).Nodup) :
    ((byRule.foldl (fun selected cv =>
      if selected.any (·.id = cv.id) then selected else selected ++ [cv]) selected).map
        (·.id)).Nodup := by
  induction byRule generalizing selected with
  | nil => exact h
  | cons cv byRule ih =>
    rw [foldl_cons]
    apply ih
    split
    · exact h
    · rename_i hnew
      rw [map_append, map_singleton, nodup_append]
      refine ⟨h, nodup_singleton _, ?_⟩
      intro id hid id' hid' heq
      rw [mem_singleton] at hid'
      rw [mem_map] at hid
      obtain ⟨old, hold, hidold⟩ := hid
      apply hnew
      rw [any_eq_true]
      exact ⟨old, hold, decide_eq_true (hidold.trans (heq.trans hid'))⟩

theorem nodup_applyIncludeRule (rule : ValueSetIncludeRule) (h : (selected.map (·.id)).Nodup) :
    ((applyIncludeRule regex systems selected rule).map (·.id)).Nodup := by
  unfold applyIncludeRule
  cases systems.reverse.find? (·.id = rule.systemId) with
  | none => exact h
  | some system =>
    cases rule.mode with
    | «include» => exact nodup_foldl_include h
    | exclude => exact h.sublist (filter_sublist.map _)

/-- A rule decides about the codes it selects and leaves the others alone. -/
theorem mem_applyIncludeRule_iff {rule : ValueSetIncludeRule} {id : CodedValueId} :
    (∃ cv ∈ applyIncludeRule regex systems selected rule, cv.id = id) ↔
      (Selects BelowOwnRoot regex systems rule id ∧ rule.mode = .include) ∨
        (¬Selects BelowOwnRoot regex systems rule id ∧ ∃ cv ∈ selected, cv.id = id) := by
  unfold applyIncludeRule Selects
  cases systems.reverse.find? (·.id = rule.systemId) with
  | none => simp
  | some system =>
    have hselects : (∃ s, some system = some s ∧ ∃ cv ∈ s.codes, cv.id = id ∧
        Picks BelowOwnRoot regex s rule.selector cv) ↔
          ∃ cv ∈ selectFromSystem regex system rule.selector, cv.id = id := by
      simp only [Option.some.injEq, exists_eq_left', mem_selectFromSystem_iff]
      exact exists_congr fun cv => by tauto
    rw [hselects]
    cases rule.mode with
    | «include» =>
      rw [mem_foldl_include_iff]
      by_cases hby : ∃ cv ∈ selectFromSystem regex system rule.selector, cv.id = id
      · exact iff_of_true (.inr hby) (.inl ⟨hby, rfl⟩)
      · rw [or_iff_left hby]
        exact ⟨fun h => .inr ⟨hby, h⟩, fun h => (h.resolve_left fun h => hby h.1).2⟩
    | exclude =>
      simp only [reduceCtorEq, and_false, false_or, mem_filter, Bool.not_eq_true',
        any_eq_false, decide_eq_true_eq]
      constructor
      · rintro ⟨cv, ⟨hcv, hnot⟩, hid⟩
        refine ⟨?_, cv, hcv, hid⟩
        rintro ⟨x, hx, hxid⟩
        exact hnot x hx (hxid.trans hid.symm)
      · rintro ⟨hnot, cv, hcv, hid⟩
        exact ⟨cv, ⟨hcv, fun x hx hxid => hnot ⟨x, hx, hxid.trans hid⟩⟩, hid⟩

/-- After one more rule: what it selects goes by its mode, the rest as before. -/
theorem includedLast_concat_iff {selects : ValueSetIncludeRule → CodedValueId → Prop}
    {rules : List ValueSetIncludeRule} {rule : ValueSetIncludeRule} {id : CodedValueId} :
    IncludedLast selects (rules ++ [rule]) id ↔ (selects rule id ∧ rule.mode = .include) ∨
        (¬selects rule id ∧ IncludedLast selects rules id) := by
  constructor
  · intro ⟨before, r, after, heq, hsel, hmode, hafter⟩
    rcases eq_nil_or_concat after with rfl | ⟨init, last, rfl⟩
    · have hparts := append_inj' heq rfl
      cases hparts.2
      exact .inl ⟨hsel, hmode⟩
    · rw [concat_eq_append] at heq hafter
      rw [← cons_append, ← append_assoc] at heq
      have hparts := append_inj' heq rfl
      cases hparts.2
      rw [forall_mem_append] at hafter
      exact .inr ⟨hafter.2 rule (mem_singleton_self rule), before, r, init, hparts.1, hsel,
        hmode, hafter.1⟩
  · intro h
    cases h with
    | inl h => exact ⟨rules, rule, [], rfl, h.1, h.2, by simp⟩
    | inr h =>
      obtain ⟨hnot, before, r, after, heq, hsel, hmode, hafter⟩ := h
      refine ⟨before, r, after ++ [rule], by rw [heq, append_assoc]; rfl, hsel, hmode, ?_⟩
      rw [forall_mem_append]
      exact ⟨hafter, by simpa using hnot⟩

theorem lastRuleWins_foldl (rules : List ValueSetIncludeRule) :
    LastRuleWins (Selects BelowOwnRoot regex systems) rules
      (rules.foldl (applyIncludeRule regex systems) []) := by
  induction rules using reverseRecOn with
  | nil =>
    constructor
    · exact nodup_nil
    · intro id
      constructor
      · intro ⟨cv, hcv, _⟩
        cases hcv
      · intro ⟨before, rule, after, heq, _⟩
        cases before <;> cases heq
  | append_singleton rules rule ih =>
    rw [foldl_append, foldl_cons, foldl_nil]
    constructor
    · exact nodup_applyIncludeRule rule ih.nodup
    · intro id
      rw [mem_applyIncludeRule_iff, includedLast_concat_iff, ih.mem_iff]

end

theorem expandCodes_lastRuleWins (regex : Regex) (valueSet : ValueSetDef)
    (systems : List CodeSystemDef) :
    LastRuleWins (Selects BelowOwnRoot regex systems) valueSet.composition
      (expandCodes regex valueSet systems) :=
  lastRuleWins_foldl valueSet.composition

/-- A flat system with one code, and the set of what is below it. -/
def flatSystem : CodeSystemDef where
  id := ⟨"cs-states"⟩
  codes := [{ id := ⟨"open"⟩, code := "OPEN" }]

def openStates : ValueSetDef where
  id := ⟨"vs-open"⟩
  name := "OpenStates"
  composition := [{ systemId := ⟨"cs-states"⟩, selector := .descendantsOf ⟨"open"⟩ }]

theorem flatSystem_selects_nothing : ¬ ∀ (regex : Regex) (valueSet : ValueSetDef)
    (systems : List CodeSystemDef), LastRuleWins (Selects Below regex systems)
      valueSet.composition (expandCodes regex valueSet systems) := by
  intro h
  have hopen := (h (fun _ => none) openStates [flatSystem]).mem_iff ⟨"open"⟩
  have hempty : expandCodes (fun _ => none) openStates [flatSystem] = [] := by
    decide +kernel
  rw [hempty] at hopen
  have hincluded : IncludedLast (Selects Below (fun _ => none) [flatSystem])
      openStates.composition ⟨"open"⟩ :=
    ⟨[], _, [], rfl, ⟨flatSystem, rfl, _, mem_singleton_self _, rfl, .refl⟩, rfl, by simp⟩
  obtain ⟨cv, hcv, _⟩ := hopen.2 hincluded
  cases hcv

end Ontosyx.Ontology
