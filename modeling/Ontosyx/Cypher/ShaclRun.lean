import Ontosyx.Cypher.Shacl

/-!
# Runs of the SHACL validator

What the issues of a check consist of.  Each constraint without branches has codes of
its own (`leafOutcome_within`); a conjunction reports what its members report; an issue
of a statement comes from one rule at one written pattern or assignment.

## Main results

* `mem_check` — an issue of a tree is one of its conjuncts.
* `leaf_of_mem` — an issue with the code of a leaf comes from that leaf.
* `exists_validate` — on values that can be sliced, the validator returns.
-/

namespace Ontosyx.Cypher

open List Ontosyx.Core Option Ontology

/-! ## Outcomes -/

/-- The codes a constraint without branches reports its violation with. -/
def ownCodes : ShaclConstraint → List String
  | .minCount .. => ["runtime.cypher.shacl.min_count_missing"]
  | .inValueSet .. => ["runtime.cypher.shacl.value_not_in_set"]
  | .matchesPattern .. => ["runtime.cypher.shacl.notation_pattern_mismatch"]
  | .lessThan .. => ["runtime.cypher.shacl.less_than_violation"]
  | .equals .. => ["runtime.cypher.shacl.equals_violation"]
  | .datatype .. =>
    ["runtime.cypher.shacl.list_element_datatype_mismatch",
      "runtime.cypher.shacl.datatype_mismatch"]
  | .minInclusive .. => ["runtime.cypher.shacl.min_inclusive_violation"]
  | .maxInclusive .. => ["runtime.cypher.shacl.max_inclusive_violation"]
  | .minLength .. => ["runtime.cypher.shacl.min_length_violation"]
  | .maxLength .. => ["runtime.cypher.shacl.max_length_violation"]
  | .hasValue .. => ["runtime.cypher.shacl.has_value_violation"]
  | .maxCount .. => ["runtime.cypher.shacl.max_count_violation"]
  | .closed .. | .disjoint .. | .uniqueKey .. | .uniqueLang .. | .qualifiedValueShape ..
  | .or _ | .and _ | .not _ | .xone _ => []

variable {nodeType : NodeTypeDef} {c : ShaclConstraint} {target : ConstraintTarget} {code : String}
  {prop : PropertyDef} {raw : Text}

theorem not_mem_noteCodes_of_ownCodes (h : code ∈ ownCodes c) : code ∉ noteCodes := by
  unfold ownCodes at h
  split at h
  all_goals first
    | rw [mem_singleton.1 h]
      decide
    | rcases mem_pair.1 h with rfl | rfl
      · decide
      · decide
    | cases h

/-- A violation has codes, all among the given ones; what is skipped has that of a
note. -/
def Outcome.Within (own : List String) : Outcome → Prop
  | .holds | .undecided => True
  | .violated codes => codes ≠ [] ∧ ∀ code ∈ codes, code ∈ own
  | .skipped code => code ∈ noteCodes

theorem Outcome.within_test {own : List String} {ok : Bool} (h : code ∈ own) :
    (Outcome.test ok code).Within own := by
  cases ok with
  | true => trivial
  | false =>
    refine ⟨cons_ne_nil _ _, ?_⟩
    intro code' hcode
    rwa [mem_singleton.1 hcode]

def PropertyPairOp.constraint (other : PropertyId) : PropertyPairOp → ShaclConstraint
  | .lessThan => .lessThan .inherit other
  | .equals => .equals .inherit other

theorem checkPair_within {o : OntologyIR} {node : NodePattern}
    {other : PropertyId} {op : PropertyPairOp} {out : Outcome}
    (h : checkPropertyPairPredicate o prop node other op = some out) :
    out.Within (ownCodes (op.constraint other)) := by
  unfold checkPropertyPairPredicate at h
  split at h
  · cases h
    trivial
  · split at h
    · cases h
      show _ ∈ noteCodes
      decide
    · split at h
      · split at h
        · cases h
        · cases h
          trivial
        · cases h
          cases op with
          | lessThan | equals => exact Outcome.within_test (mem_singleton_self _)
      · cases h
        trivial

theorem checkDatatype_within (expected : PropertyType) (raw : Text) :
    (checkDatatype expected raw).Within ["runtime.cypher.shacl.list_element_datatype_mismatch",
      "runtime.cypher.shacl.datatype_mismatch"] := by
  unfold checkDatatype
  split
  · split
    · trivial
    · dsimp only
      split
      · next hwrong =>
          refine ⟨?_, ?_⟩
          · simpa using hwrong
          · intro code hcode
            rcases mem_map.1 hcode with ⟨t, -, rfl⟩
            decide
      · split <;> trivial
  · split
    · trivial
    · exact Outcome.within_test (by decide)

theorem checkLength_within {ok : Nat → Bool} {out : Outcome}
    (h : checkLength ok code raw = some out) : out.Within [code] := by
  unfold checkLength at h
  split at h
  · cases h
  · cases h
    trivial
  · cases h
    exact Outcome.within_test (mem_singleton_self _)

theorem checkBound_within (ok : Ordering → Bool) (bound : F64) (code : String) (raw : Text) :
    (checkBound ok bound code raw).Within [code] := by
  unfold checkBound
  split
  · trivial
  · exact Outcome.within_test (mem_singleton_self _)

namespace ShaclValidator

section

variable {regex : Regex} {v : ShaclValidator}

variable {out : Outcome}

theorem checkInValueSet_within {id : ValueSetId} (h : v.checkInValueSet id raw = some out) :
    out.Within ["runtime.cypher.shacl.value_not_in_set"] := by
  unfold checkInValueSet at h
  cases hlit : observedLiteral trimChars raw with
  | none =>
    rw [hlit] at h
    cases h
  | some literal =>
    rw [hlit] at h
    cases literal with
    | none =>
      cases h
      trivial
    | some literal =>
      cases hcodes : v.valueSetCodes id with
      | none =>
        simp only [bind_eq_bind, bind_some, hcodes] at h
        cases h
        show _ ∈ noteCodes
        decide
      | some allowed =>
        simp only [bind_eq_bind, bind_some, hcodes] at h
        cases h
        exact Outcome.within_test (by decide)

theorem checkHasValue_within {expected : String} (h : checkHasValue expected raw = some out) :
    out.Within ["runtime.cypher.shacl.has_value_violation"] := by
  unfold checkHasValue at h
  cases hlit : observedLiteral id raw with
  | none =>
    rw [hlit] at h
    cases h
  | some literal =>
    rw [hlit] at h
    cases literal with
    | none =>
      cases h
      trivial
    | some literal =>
      cases h
      exact Outcome.within_test (by decide)

theorem checkMatchesPattern_within {id : NotationPatternId}
    (h : v.checkMatchesPattern regex id raw = some out) :
    out.Within ["runtime.cypher.shacl.notation_pattern_mismatch"] := by
  unfold checkMatchesPattern at h
  split at h
  · cases h
  · cases h
    trivial
  · split at h
    · cases h
      show _ ∈ noteCodes
      decide
    · next s _ _ np _ =>
        cases hvalid : np.validate (v.codeResolver regex) s with
        | none =>
          rw [hvalid] at h
          cases h
        | some ok =>
          rw [hvalid] at h
          cases h
          exact Outcome.within_test (by decide)

theorem onValue_within {value : Option Text} {check : Text → Option Outcome} {own : List String}
    (hcheck : ∀ raw out, check raw = some out → out.Within own)
    (h : onValue target prop value check = some out) : out.Within own := by
  unfold onValue at h
  split at h
  · cases h
    trivial
  · split at h
    · cases h
      trivial
    · exact hcheck _ _ h

/-- A constraint reports a violation under its own codes. -/
theorem leafOutcome_within {node : NodePattern} (h : v.leafOutcome regex prop node c = some out) :
    out.Within (ownCodes c) := by
  unfold leafOutcome at h
  split at h
  · split at h
    · cases h
      trivial
    · split at h
      · cases h
        trivial
      · cases h
        exact Outcome.within_test (mem_singleton_self _)
  · exact onValue_within (fun _ _ => checkInValueSet_within) h
  · exact onValue_within (fun _ _ => checkMatchesPattern_within) h
  · split at h
    · cases h
      trivial
    · exact checkPair_within h
  · split at h
    · cases h
      trivial
    · exact checkPair_within h
  · refine onValue_within ?_ h
    intro raw out hraw
    cases hraw
    exact checkDatatype_within _ raw
  · refine onValue_within ?_ h
    intro raw out hraw
    cases hraw
    exact checkBound_within _ _ _ raw
  · refine onValue_within ?_ h
    intro raw out hraw
    cases hraw
    exact checkBound_within _ _ _ raw
  · exact onValue_within (fun _ _ => checkLength_within) h
  · exact onValue_within (fun _ _ => checkLength_within) h
  · exact onValue_within (fun _ _ => checkHasValue_within) h
  · refine onValue_within ?_ h
    intro raw out hraw
    cases hraw
    split
    · trivial
    · exact Outcome.within_test (mem_singleton_self _)
  · cases h
    trivial
  · cases h
    trivial
  · cases h
    trivial
  · cases h
    trivial
  · cases h
    trivial
  · cases h
    trivial
  · cases h
    trivial
  · cases h
    trivial
  · cases h
    trivial

end

theorem exists_collect {α : Type} {check : α → Option (List ValidationIssue)} {as : List α}
    (h : ∀ a ∈ as, ∃ issues, check a = some issues) : ∃ issues, collect check as = some issues := by
  induction as with
  | nil => exact ⟨[], rfl⟩
  | cons a as ih =>
    rcases h a mem_cons_self with ⟨issues, hissues⟩
    rcases ih (fun b hb => h b (mem_cons_of_mem a hb)) with ⟨rest, hrest⟩
    refine ⟨issues ++ rest, ?_⟩
    unfold collect
    rw [hissues, hrest]
    rfl

theorem mem_collect {α : Type} {check : α → Option (List ValidationIssue)} {as : List α}
    {issues : List ValidationIssue} (h : collect check as = some issues) {i : ValidationIssue} :
    i ∈ issues ↔ ∃ a ∈ as, ∃ own, check a = some own ∧ i ∈ own := by
  induction as generalizing issues with
  | nil =>
    cases h
    simp
  | cons a as ih =>
    rcases bind_eq_some_iff.1 h with ⟨own, hown, h⟩
    rcases bind_eq_some_iff.1 h with ⟨rest, hrest, h⟩
    cases h
    rw [mem_append, ih hrest]
    constructor
    · intro hi
      rcases hi with hi | ⟨b, hb, hi⟩
      · exact ⟨a, mem_cons_self, own, hown, hi⟩
      · exact ⟨b, mem_cons_of_mem a hb, hi⟩
    · intro hi
      rcases hi with ⟨b, hb, own', hown', hi⟩
      rcases mem_cons.1 hb with rfl | hb
      · rw [hown] at hown'
        cases hown'
        exact Or.inl hi
      · exact Or.inr ⟨b, hb, own', hown', hi⟩

theorem collect_mem {α : Type} {check : α → Option (List ValidationIssue)} {as : List α}
    {issues : List ValidationIssue} (h : collect check as = some issues) {a : α} (ha : a ∈ as) :
    ∃ own, check a = some own ∧ ∀ i ∈ own, i ∈ issues := by
  have hsome : ∃ own, check a = some own := by
    induction as generalizing issues with
    | nil => cases ha
    | cons b as ih =>
      rcases bind_eq_some_iff.1 h with ⟨own, hown, h⟩
      rcases bind_eq_some_iff.1 h with ⟨rest, hrest, -⟩
      rcases mem_cons.1 ha with rfl | ha
      · exact ⟨own, hown⟩
      · exact ih hrest ha
  rcases hsome with ⟨own, hown⟩
  refine ⟨own, hown, ?_⟩
  intro i hi
  exact (mem_collect h).2 ⟨a, ha, own, hown, hi⟩

/-! ## Conjunctions -/

mutual
/-- The members of a conjunction, those of its own conjunctions included. -/
def conjuncts : ShaclConstraint → List ShaclConstraint
  | .and branches => conjunctsAll branches
  | c => [c]

def conjunctsAll : List ShaclConstraint → List ShaclConstraint
  | [] => []
  | c :: cs => conjuncts c ++ conjunctsAll cs
end

section

variable {regex : Regex} {v : ShaclValidator} {rule : RuleDef} {prop : PropertyDef}
  {node : NodePattern}

mutual
theorem mem_check {issues : List ValidationIssue} {i : ValidationIssue} :
    (c : ShaclConstraint) → v.checkPropertyConstraint regex rule prop node c = some issues →
    (i ∈ issues ↔ ∃ c' ∈ conjuncts c, ∃ own,
      v.checkPropertyConstraint regex rule prop node c' = some own ∧ i ∈ own)
  | .and branches, h => by
    simp only [checkPropertyConstraint] at h
    simp only [conjuncts]
    exact mem_checkBranches branches h
  | .or branches, h | .not inner, h
  | .xone branches, h => by simp only [conjuncts, mem_singleton, exists_eq_left, h,
      some_inj, exists_eq_left']
  | .minCount .., h | .maxCount .., h | .datatype .., h | .matchesPattern .., h
  | .inValueSet .., h | .hasValue .., h | .minInclusive .., h | .maxInclusive .., h
  | .minLength .., h | .maxLength .., h | .uniqueLang .., h | .closed .., h
  | .disjoint .., h | .uniqueKey .., h | .lessThan .., h | .equals .., h
  | .qualifiedValueShape .., h => by
    simp only [conjuncts, mem_singleton, exists_eq_left, h, some_inj, exists_eq_left']

theorem mem_checkBranches {issues : List ValidationIssue} {i : ValidationIssue} :
    (cs : List ShaclConstraint) → v.checkBranches regex rule prop node cs = some issues →
    (i ∈ issues ↔ ∃ c' ∈ conjunctsAll cs, ∃ own,
      v.checkPropertyConstraint regex rule prop node c' = some own ∧ i ∈ own)
  | [], h => by
    simp only [checkBranches] at h
    cases h
    simp only [conjunctsAll]
    simp
  | c :: cs, h => by
    simp only [checkBranches] at h
    rcases bind_eq_some_iff.1 h with ⟨own, hown, h⟩
    rcases bind_eq_some_iff.1 h with ⟨rest, hrest, h⟩
    cases h
    simp only [conjunctsAll, mem_append, or_and_right, exists_or]
    rw [mem_check c hown, mem_checkBranches cs hrest]
end

mutual
theorem ne_and_of_mem_conjuncts {c' : ShaclConstraint} {branches : List ShaclConstraint} :
    (c : ShaclConstraint) → c' ∈ conjuncts c → c' ≠ .and branches
  | .and cs, h => by
    simp only [conjuncts] at h
    exact ne_and_of_mem_conjunctsAll cs h
  | .or _, h | .not _, h | .xone _, h
  | .minCount .., h | .maxCount .., h | .datatype .., h | .matchesPattern .., h
  | .inValueSet .., h | .hasValue .., h | .minInclusive .., h | .maxInclusive .., h
  | .minLength .., h | .maxLength .., h | .uniqueLang .., h | .closed .., h
  | .disjoint .., h | .uniqueKey .., h | .lessThan .., h | .equals .., h
  | .qualifiedValueShape .., h => by
    simp only [conjuncts, mem_singleton] at h
    rw [h]
    exact ShaclConstraint.noConfusion

theorem ne_and_of_mem_conjunctsAll {c' : ShaclConstraint} {branches : List ShaclConstraint} :
    (cs : List ShaclConstraint) → c' ∈ conjunctsAll cs → c' ≠ .and branches
  | [], h => by
    simp only [conjunctsAll] at h
    cases h
  | c :: cs, h => by
    simp only [conjunctsAll, mem_append] at h
    rcases h with h | h
    · exact ne_and_of_mem_conjuncts c h
    · exact ne_and_of_mem_conjunctsAll cs h
end

def connectiveCodes : List String :=
  ["runtime.cypher.shacl.or_empty_branches", "runtime.cypher.shacl.or_no_branch_satisfied",
    "runtime.cypher.shacl.not_violation", "runtime.cypher.shacl.xone_empty_branches",
    "runtime.cypher.shacl.xone_violation"]

variable {i : ValidationIssue}

theorem code_of_mem_build {property : String} {codes : List String} (hcode : code ∈ codes)
    (hi : i ∈ [buildIssue rule code property]) : i.code ∈ codes := by
  rw [mem_singleton.1 hi]
  exact hcode

variable {issues : List ValidationIssue}

theorem code_or {branches : List ShaclConstraint}
    (h : v.checkPropertyConstraint regex rule prop node (.or branches) = some issues)
    (hi : i ∈ issues) : i.code ∈ connectiveCodes := by
  simp only [checkPropertyConstraint] at h
  split at h
  · cases h
    exact code_of_mem_build (by decide) hi
  · rcases bind_eq_some_iff.1 h with ⟨b, -, h⟩
    cases b with
    | true =>
      cases h
      cases hi
    | false =>
      cases h
      exact code_of_mem_build (by decide) hi

theorem code_not {inner : ShaclConstraint}
    (h : v.checkPropertyConstraint regex rule prop node (.not inner) = some issues)
    (hi : i ∈ issues) : i.code ∈ connectiveCodes := by
  simp only [checkPropertyConstraint] at h
  rcases bind_eq_some_iff.1 h with ⟨own, -, h⟩
  cases own with
  | nil =>
    cases h
    exact code_of_mem_build (by decide) hi
  | cons issue own =>
    cases h
    cases hi

theorem code_xone {branches : List ShaclConstraint}
    (h : v.checkPropertyConstraint regex rule prop node (.xone branches) = some issues)
    (hi : i ∈ issues) : i.code ∈ connectiveCodes := by
  simp only [checkPropertyConstraint] at h
  split at h
  · cases h
    exact code_of_mem_build (by decide) hi
  · rcases bind_eq_some_iff.1 h with ⟨accepted, -, h⟩
    by_cases hone : accepted = 1
    · rw [if_pos hone] at h
      cases h
      cases hi
    · rw [if_neg hone] at h
      cases h
      exact code_of_mem_build (by decide) hi

/-- An issue that no connective reports comes from a leaf among the conjuncts. -/
theorem leaf_of_mem (h : v.checkPropertyConstraint regex rule prop node c = some issues)
    (hi : i ∈ issues) (hcode : i.code ∉ connectiveCodes) :
    ∃ c' ∈ conjuncts c, ∃ out, v.leafOutcome regex prop node c' = some out ∧
      i ∈ report rule prop out := by
  rcases (mem_check c h).1 hi with ⟨c', hc', own, hown, hi⟩
  have hleaf : v.checkLeaf regex rule prop node c' = some own → ∃ out,
      v.leafOutcome regex prop node c' = some out ∧ i ∈ report rule prop out := by
    intro hleaf
    rcases map_eq_some_iff.1 hleaf with ⟨out, hout, rfl⟩
    exact ⟨out, hout, hi⟩
  refine ⟨c', hc', ?_⟩
  cases c' with
  | or branches => exact absurd (code_or hown hi) hcode
  | not inner => exact absurd (code_not hown hi) hcode
  | xone branches => exact absurd (code_xone hown hi) hcode
  | and branches => exact absurd rfl (ne_and_of_mem_conjuncts c hc')
  | _ =>
    simp only [checkPropertyConstraint] at hown
    exact hleaf hown

/-- The codes of the constraints on a whole node. -/
def nodeCodes : List String :=
  ["runtime.cypher.shacl.closed_shape_extra_property", "runtime.cypher.shacl.disjoint_pair_present",
    "runtime.cypher.shacl.unique_key_unknown_property",
    "runtime.cypher.shacl.unique_lang_on_non_localized"]

theorem code_nodeLevel (h : checkNodeLevelConstraint rule nodeType node c = some issues)
    (hi : i ∈ issues) : i.code ∈ nodeCodes := by
  unfold checkNodeLevelConstraint at h
  split at h
  · cases h
    rcases mem_map.1 hi with ⟨p, -, rfl⟩
    exact mem_cons_self
  · split at h
    · cases h
      cases hi
    · split at h
      · cases h
      · cases h
      · next aProp _ _ _ s t _ _ =>
          by_cases hst : s = t
          · rw [if_pos hst] at h
            cases h
            exact code_of_mem_build (by decide) hi
          · rw [if_neg hst] at h
            cases h
            cases hi
      · cases h
        cases hi
  · split at h
    · cases h
      cases hi
    · cases h
      rcases mem_map.1 hi with ⟨key, -, rfl⟩
      exact mem_cons_of_mem _ (mem_cons_of_mem _ mem_cons_self)
  · split at h
    · cases h
      cases hi
    · split at h
      · cases h
        cases hi
      · next prop _ =>
          by_cases hlocalized : prop.isLocalized = true
          · rw [if_pos hlocalized] at h
            cases h
            cases hi
          · rw [if_neg hlocalized] at h
            cases h
            rw [mem_singleton.1 hi]
            exact mem_cons_of_mem _ (mem_cons_of_mem _ (mem_cons_of_mem _ mem_cons_self))
  · cases h
    cases hi

/-- The leaf of a rule that a property of the node type violates. -/
structure LeafOf (regex : Regex) (v : ShaclValidator) (node : NodePattern) (i : ValidationIssue)
    (nodeType : NodeTypeDef) (rule : RuleDef) (prop : PropertyDef) (c : ShaclConstraint) :
    Prop where
  kind : ∃ id, rule.kind = .propertyShape nodeType.id id ∧ propertyById nodeType id = some prop
  conjunct : ∃ c' ∈ rule.constraints, c ∈ conjuncts c'
  reported : ∃ out, v.leafOutcome regex prop node c = some out ∧ i ∈ report rule prop out

/-- An issue of a rule that is neither about a connective nor about the whole node comes
from a leaf of the rule. -/
theorem leaf_of_validateRule (h : v.validateRule regex node nodeType rule = some issues)
    (hi : i ∈ issues) (hconnective : i.code ∉ connectiveCodes) (hnodes : i.code ∉ nodeCodes) :
    ∃ prop c, LeafOf regex v node i nodeType rule prop c := by
  unfold validateRule at h
  split at h
  · split at h
    · rcases (mem_collect h).1 hi with ⟨c, -, own, hown, hi⟩
      exact absurd (code_nodeLevel hown hi) hnodes
    · cases h
      cases hi
  · next nodeTypeId id hkind =>
      split at h
      · cases h
        cases hi
      · next hid =>
          split at h
          · cases h
            cases hi
          · next prop hprop =>
              rcases (mem_collect h).1 hi with ⟨c, hc, own, hown, hi⟩
              rcases bind_eq_some_iff.1 hown with ⟨first, hfirst, hown⟩
              rcases bind_eq_some_iff.1 hown with ⟨rest, hrest, hown⟩
              cases hown
              rcases mem_append.1 hi with hi | hi
              · rcases leaf_of_mem hfirst hi hconnective with ⟨c', hc', hreported⟩
                rw [not_not.1 hid] at hkind
                exact ⟨prop, c', ⟨id, hkind, hprop⟩, ⟨c, hc, hc'⟩, hreported⟩
              · exact absurd (code_nodeLevel hrest hi) hnodes
  all_goals
    cases h
    cases hi

/-- A leaf reports in every pattern of its node type. -/
theorem mem_validateRule_of_leaf (h : v.validateRule regex node nodeType rule = some issues)
    (hleaf : LeafOf regex v node i nodeType rule prop c) (htarget : c.target = some target) :
    i ∈ issues := by
  rcases hleaf with ⟨⟨id, hkind, hprop⟩, ⟨c', hc', hc⟩, out, hout, hi⟩
  have hcheck : v.checkPropertyConstraint regex rule prop node c =
      some (report rule prop out) := by
    have hleaf : v.checkLeaf regex rule prop node c = some (report rule prop out) :=
      map_eq_some_iff.2 ⟨out, hout, rfl⟩
    cases c with
    | or branches | and branches | not inner | xone branches => cases htarget
    | _ =>
      simp only [checkPropertyConstraint]
      exact hleaf
  unfold validateRule at h
  rw [hkind] at h
  dsimp only at h
  rw [if_neg (not_not.2 rfl), hprop] at h
  rcases collect_mem h hc' with ⟨own, hown, hsub⟩
  rcases bind_eq_some_iff.1 hown with ⟨first, hfirst, hown⟩
  rcases bind_eq_some_iff.1 hown with ⟨rest, -, hown⟩
  cases hown
  refine hsub i (mem_append_left _ ?_)
  exact (mem_check c' hfirst).2 ⟨c, hc, _, hcheck, hi⟩

/-! ## Values that can be sliced -/

end

/-- No check slices the value outside of its characters: it is not a lone quote, and
the notation patterns of the ontology split it between characters. -/
def Sliceable (regex : Regex) (v : ShaclValidator) (raw : Text) : Prop :=
  parseStringLiteral raw ≠ .panics ∧
    ∀ s, parseStringLiteral raw = .literal s → ∀ np ∈ v.ontology.notationPatterns,
      np.validate (v.codeResolver regex) s ≠ none

def SliceableNode (regex : Regex) (v : ShaclValidator) (node : NodePattern) : Prop :=
  ∀ p ∈ node.properties, v.Sliceable regex p.2

section

variable {regex : Regex} {v : ShaclValidator} {rule : RuleDef} {prop : PropertyDef}
  {node : NodePattern}

variable {raw : Text}

theorem sliceable_lookup (hnode : v.SliceableNode regex node) {key : PropertyKey}
    (h : lookupPropertyValue node key = some raw) : v.Sliceable regex raw := by
  rcases map_eq_some_iff.1 h with ⟨p, hp, rfl⟩
  exact hnode p (mem_of_find?_eq_some hp)

theorem exists_observedLiteral (asWritten : Text → Text) (hraw : v.Sliceable regex raw) :
    ∃ literal, observedLiteral asWritten raw = some literal := by
  unfold observedLiteral
  split
  · next hpanics => exact absurd hpanics hraw.1
  · exact ⟨_, rfl⟩
  · split <;> exact ⟨_, rfl⟩

theorem exists_onValue {check : Text → Option Outcome} (hnode : v.SliceableNode regex node)
    (h : ∀ raw, v.Sliceable regex raw → ∃ out, check raw = some out) :
    ∃ out, onValue target prop (lookupPropertyValue node prop.name) check = some out := by
  unfold onValue
  split
  · exact ⟨_, rfl⟩
  · cases hvalue : lookupPropertyValue node prop.name with
    | none => exact ⟨_, rfl⟩
    | some raw => exact h raw (sliceable_lookup hnode hvalue)

theorem exists_checkLength (ok : Nat → Bool) (code : String) (hraw : v.Sliceable regex raw) :
    ∃ out, checkLength ok code raw = some out := by
  unfold checkLength
  split
  · next hpanics => exact absurd hpanics hraw.1
  · exact ⟨_, rfl⟩
  · exact ⟨_, rfl⟩

theorem exists_checkMatchesPattern (id : NotationPatternId) (hraw : v.Sliceable regex raw) :
    ∃ out, v.checkMatchesPattern regex id raw = some out := by
  unfold checkMatchesPattern
  split
  · next hpanics => exact absurd hpanics hraw.1
  · exact ⟨_, rfl⟩
  · next s hs =>
      split
      · exact ⟨_, rfl⟩
      · next np hnp =>
          cases hvalid : np.validate (v.codeResolver regex) s with
          | none => exact absurd hvalid (hraw.2 s hs np (mem_of_find?_eq_some hnp))
          | some ok => exact ⟨_, rfl⟩

theorem exists_checkInValueSet (id : ValueSetId) (hraw : v.Sliceable regex raw) :
    ∃ out, v.checkInValueSet id raw = some out := by
  rcases exists_observedLiteral trimChars hraw with ⟨literal, hliteral⟩
  unfold checkInValueSet
  rw [hliteral]
  cases literal with
  | none => exact ⟨_, rfl⟩
  | some literal =>
    cases hcodes : v.valueSetCodes id with
    | none | some allowed =>
      simp only [bind_eq_bind, bind_some]
      exact ⟨_, rfl⟩

theorem exists_checkHasValue (expected : String) (hraw : v.Sliceable regex raw) :
    ∃ out, checkHasValue expected raw = some out := by
  rcases exists_observedLiteral id hraw with ⟨literal, hliteral⟩
  unfold checkHasValue
  rw [hliteral]
  cases literal with
  | none => exact ⟨_, rfl⟩
  | some literal => exact ⟨_, rfl⟩

theorem compareLiterals_ne_panics {a b : Text} (ha : v.Sliceable regex a)
    (hb : v.Sliceable regex b) (op : PropertyPairOp) : compareLiterals a b op ≠ .panics := by
  unfold compareLiterals
  split
  · split <;> exact PairRead.noConfusion
  · split
    · next hpanics => exact absurd hpanics ha.1
    · next hpanics _ => exact absurd hpanics hb.1
    · exact PairRead.noConfusion
    · exact PairRead.noConfusion
    · exact PairRead.noConfusion

theorem exists_checkPair (other : PropertyId) (op : PropertyPairOp)
    (hnode : v.SliceableNode regex node) :
    ∃ out, checkPropertyPairPredicate v.ontology prop node other op = some out := by
  unfold checkPropertyPairPredicate
  split
  · exact ⟨_, rfl⟩
  · split
    · exact ⟨_, rfl⟩
    · split
      · next a b ha hb =>
          split
          · next hpanics =>
              exact absurd hpanics
                (compareLiterals_ne_panics (sliceable_lookup hnode ha)
                  (sliceable_lookup hnode hb) op)
          · exact ⟨_, rfl⟩
          · exact ⟨_, rfl⟩
      · exact ⟨_, rfl⟩

theorem exists_leafOutcome (hnode : v.SliceableNode regex node) (c : ShaclConstraint) :
    ∃ out, v.leafOutcome regex prop node c = some out := by
  unfold leafOutcome
  split
  · split
    · exact ⟨_, rfl⟩
    · split <;> exact ⟨_, rfl⟩
  · exact exists_onValue hnode fun _ => exists_checkInValueSet _
  · exact exists_onValue hnode fun _ => exists_checkMatchesPattern _
  · split
    · exact ⟨_, rfl⟩
    · exact exists_checkPair _ _ hnode
  · split
    · exact ⟨_, rfl⟩
    · exact exists_checkPair _ _ hnode
  · exact exists_onValue hnode fun _ _ => ⟨_, rfl⟩
  · exact exists_onValue hnode fun _ _ => ⟨_, rfl⟩
  · exact exists_onValue hnode fun _ _ => ⟨_, rfl⟩
  · exact exists_onValue hnode fun _ => exists_checkLength _ _
  · exact exists_onValue hnode fun _ => exists_checkLength _ _
  · exact exists_onValue hnode fun _ => exists_checkHasValue _
  · exact exists_onValue hnode fun _ _ => ⟨_, rfl⟩
  all_goals exact ⟨_, rfl⟩

theorem exists_checkLeaf (hnode : v.SliceableNode regex node) (c : ShaclConstraint) :
    ∃ issues, v.checkLeaf regex rule prop node c = some issues := by
  have hleaf : ∃ out, v.leafOutcome regex prop node c = some out := exists_leafOutcome hnode c
  rcases hleaf with ⟨out, hout⟩
  exact ⟨report rule prop out, map_eq_some_iff.2 ⟨out, hout, rfl⟩⟩

mutual
theorem exists_check (hnode : v.SliceableNode regex node) :
    (c : ShaclConstraint) → ∃ issues, v.checkPropertyConstraint regex rule prop node c = some issues
  | .or branches => by
    simp only [checkPropertyConstraint]
    split
    · exact ⟨_, rfl⟩
    · rcases exists_anyAccepts hnode branches with ⟨b, hb⟩
      rw [hb]
      cases b with
      | true => exact ⟨_, rfl⟩
      | false => exact ⟨_, rfl⟩
  | .and branches => by
    simp only [checkPropertyConstraint]
    exact exists_checkBranches hnode branches
  | .not inner => by
    simp only [checkPropertyConstraint]
    rcases exists_check hnode inner with ⟨issues, hissues⟩
    rw [hissues]
    cases issues with
    | nil => exact ⟨_, rfl⟩
    | cons issue issues => exact ⟨_, rfl⟩
  | .xone branches => by
    simp only [checkPropertyConstraint]
    split
    · exact ⟨_, rfl⟩
    · rcases exists_countAccepted hnode branches with ⟨accepted, haccepted⟩
      rw [haccepted]
      by_cases hone : accepted = 1
      · exact ⟨_, by rw [bind_eq_bind, bind_some, if_pos hone]; rfl⟩
      · exact ⟨_, by rw [bind_eq_bind, bind_some, if_neg hone]; rfl⟩
  | .minCount .. | .maxCount .. | .datatype .. | .matchesPattern ..
  | .inValueSet .. | .hasValue .. | .minInclusive .. | .maxInclusive ..
  | .minLength .. | .maxLength .. | .uniqueLang .. | .closed ..
  | .disjoint .. | .uniqueKey .. | .lessThan .. | .equals ..
  | .qualifiedValueShape .. => by
    simp only [checkPropertyConstraint]
    exact exists_checkLeaf hnode _

theorem exists_anyAccepts (hnode : v.SliceableNode regex node) :
    (cs : List ShaclConstraint) → ∃ b, v.anyAccepts regex rule prop node cs = some b
  | [] => ⟨false, by simp only [anyAccepts]⟩
  | c :: cs => by
    simp only [anyAccepts]
    rcases exists_check hnode c with ⟨issues, hissues⟩
    rw [hissues]
    cases issues with
    | nil => exact ⟨true, rfl⟩
    | cons issue issues => exact exists_anyAccepts hnode cs

theorem exists_checkBranches (hnode : v.SliceableNode regex node) :
    (cs : List ShaclConstraint) → ∃ issues, v.checkBranches regex rule prop node cs = some issues
  | [] => ⟨[], by simp only [checkBranches]⟩
  | c :: cs => by
    simp only [checkBranches]
    rcases exists_check hnode c with ⟨issues, hissues⟩
    rcases exists_checkBranches hnode cs with ⟨rest, hrest⟩
    rw [hissues, hrest]
    exact ⟨_, rfl⟩

theorem exists_countAccepted (hnode : v.SliceableNode regex node) :
    (cs : List ShaclConstraint) → ∃ n, v.countAccepted regex rule prop node cs = some n
  | [] => ⟨0, by simp only [countAccepted]⟩
  | c :: cs => by
    simp only [countAccepted]
    rcases exists_check hnode c with ⟨issues, hissues⟩
    rcases exists_countAccepted hnode cs with ⟨accepted, haccepted⟩
    rw [hissues, haccepted]
    exact ⟨_, rfl⟩
end

variable (hnode : v.SliceableNode regex node)
include hnode

theorem exists_checkNodeLevel (c : ShaclConstraint) :
    ∃ issues, checkNodeLevelConstraint rule nodeType node c = some issues := by
  unfold checkNodeLevelConstraint
  split
  · exact ⟨_, rfl⟩
  · next a b =>
      split
      · exact ⟨_, rfl⟩
      · next prop x y hvalues =>
          have hslices : v.Sliceable regex x ∧ v.Sliceable regex y := by
            rcases bind_eq_some_iff.1 hvalues with ⟨_, _, hvalues⟩
            rcases bind_eq_some_iff.1 hvalues with ⟨_, _, hvalues⟩
            rcases bind_eq_some_iff.1 hvalues with ⟨_, _, hvalues⟩
            rcases bind_eq_some_iff.1 hvalues with ⟨_, _, hvalues⟩
            rcases bind_eq_some_iff.1 hvalues with ⟨x', hx, hvalues⟩
            rcases bind_eq_some_iff.1 hvalues with ⟨y', hy, hvalues⟩
            cases hvalues
            exact ⟨sliceable_lookup hnode hx, sliceable_lookup hnode hy⟩
          split
          · next hpanics => exact absurd hpanics hslices.1.1
          · next hpanics _ => exact absurd hpanics hslices.2.1
          · exact ⟨_, rfl⟩
          · exact ⟨_, rfl⟩
  · split <;> exact ⟨_, rfl⟩
  · split
    · exact ⟨_, rfl⟩
    · split <;> exact ⟨_, rfl⟩
  · exact ⟨_, rfl⟩

theorem exists_checkShape (c : ShaclConstraint) :
    ∃ issues, (do
      let issues ← v.checkPropertyConstraint regex rule prop node c
      let rest ← checkNodeLevelConstraint rule nodeType node c
      return issues ++ rest) = some issues := by
  have hproperty : ∃ issues, v.checkPropertyConstraint regex rule prop node c = some issues :=
    exists_check hnode c
  have hlevel : ∃ rest, checkNodeLevelConstraint rule nodeType node c = some rest :=
    exists_checkNodeLevel hnode c
  rcases hproperty with ⟨issues, hissues⟩
  rcases hlevel with ⟨rest, hrest⟩
  rw [hissues, hrest]
  exact ⟨_, rfl⟩

theorem exists_validateRule :
    ∃ issues, v.validateRule regex node nodeType rule = some issues := by
  unfold validateRule
  split
  · split
    · exact exists_collect fun c _ => exists_checkNodeLevel hnode c
    · exact ⟨_, rfl⟩
  · split
    · exact ⟨_, rfl⟩
    · split
      · exact ⟨_, rfl⟩
      · exact exists_collect fun c _ => exists_checkShape hnode c
  all_goals exact ⟨_, rfl⟩

theorem exists_validateNode {rules : List RuleDef} :
    ∃ issues, v.validateNode regex rules node = some issues := by
  refine exists_collect fun label _ => ?_
  split
  · exact ⟨_, rfl⟩
  · exact exists_collect fun rule _ => exists_validateRule hnode

omit hnode in
theorem exists_validateSetItem {rules : List RuleDef} {labels : List Text} {item : SetItem}
    (hitem : v.Sliceable regex item.valueText) :
    ∃ issues, v.validateSetItem regex rules labels item = some issues := by
  refine exists_collect fun label _ => ?_
  split
  · exact ⟨_, rfl⟩
  · refine exists_collect fun rc _ => exists_check ?_ rc.2
    intro p hp
    rw [mem_singleton.1 hp]
    exact hitem

end

/-- Every value that a statement writes can be sliced. -/
def SliceableClause (regex : Regex) (v : ShaclValidator) (clause : CypherClause) : Prop :=
  (∀ node ∈ clause.nodes, v.SliceableNode regex node) ∧
    ∀ item ∈ clause.setItems, v.Sliceable regex item.valueText

/-- On values that can be sliced, the validator returns. -/
theorem exists_validate {regex : Regex} {v : ShaclValidator} {ast : CypherAst}
    (h : ∀ statement ∈ ast.statements, ∀ clause ∈ statement.clauses,
      v.SliceableClause regex clause) : ∃ issues, v.validate regex ast = some issues := by
  refine exists_collect fun statement hstatement => ?_
  refine exists_collect fun clause hclause => ?_
  rcases h statement hstatement clause hclause with ⟨hnodes, hitems⟩
  have hwritten : ∃ issues, collect (v.validateNode regex v.activeRules) clause.nodes =
      some issues := exists_collect fun node hnode => exists_validateNode (hnodes node hnode)
  unfold validateClause
  split
  · exact hwritten
  · exact hwritten
  · refine exists_collect fun item hitem => ?_
    split
    · exact ⟨_, rfl⟩
    · exact exists_validateSetItem (hitems item hitem)
  · exact ⟨_, rfl⟩
  · exact ⟨_, rfl⟩

end ShaclValidator

end Ontosyx.Cypher
