import Ontosyx.Cypher.ShaclRun
import Ontosyx.Lib.Kleene

/-!
# Composite constraints and three-valued truth

`And`, `Or`, `Not` and `Xone` combine constraints of which some may not be decidable
from the text of a value.  `truth` is what a constraint tree says about a written value
with Kleene's connectives.  The validator has two values only: a branch accepts when its
check reports nothing, so an undecided branch accepts, and a note rejects it.  `presumed`
is the tree under that reading.

## Main results

* `resolves_presumed` — the validator's reading stands whenever the tree is decided.
* `followsTruth_iff` — the check agrees with the truth of the tree exactly if the
  reading of the undecided constraints does no harm.
-/

namespace Ontosyx.Cypher

open List Ontosyx.Core Ontology
open Lib.Kleene (Resolves)

/-- A literal: a string, a number, a truth value or a list. -/
def isLiteral (raw : Text) : Bool :=
  match parseStringLiteral raw with
  | .literal _ => true
  | .panics => false
  | .notLiteral =>
    classifyLiteralType raw = some .int || classifyLiteralType raw = some .float ||
      classifyLiteralType raw = some .bool || (parseListLiteral raw).isSome

/-- A value that only running the query decides: neither a literal nor `null`. -/
def isOpaque (raw : Text) : Bool :=
  parseStringLiteral raw = .notLiteral && !isLiteral raw && upper (trimChars raw) ≠ "NULL".toList

def NodePattern.writing (node : NodePattern) (key : PropertyKey) (raw : Text) : NodePattern :=
  { node with
    properties := node.properties.map fun p => if p.1 = key.val.toList then (p.1, raw) else p }

namespace ShaclValidator

variable (regex : Regex) (v : ShaclValidator) (rule : RuleDef) (prop : PropertyDef)
  (node : NodePattern)

/-- What a constraint without branches says about the written value. -/
def leafTruth (c : ShaclConstraint) : Option Bool :=
  match v.leafOutcome regex prop node c with
  | some .holds => some true
  | some (.violated _) => some false
  | some .undecided | some (.skipped _) | none => none

mutual
/-- What a constraint says about the written value, under the truth tables of its
documentation. -/
def truth : ShaclConstraint → Option Bool
  | .or branches => Lib.Kleene.any (truths branches)
  | .and branches => Lib.Kleene.all (truths branches)
  | .not inner => Lib.Kleene.neg (truth inner)
  | .xone branches => Lib.Kleene.one (truths branches)
  | c => v.leafTruth regex prop node c

def truths : List ShaclConstraint → List (Option Bool)
  | [] => []
  | c :: cs => truth c :: truths cs
end

/-- The value decides the tree: some literals satisfy it and some do not. -/
def DependsOnValue (c : ShaclConstraint) : Prop :=
  ∃ x y, isLiteral x = true ∧ isLiteral y = true ∧
    v.truth regex prop (node.writing prop.name x) c = some true ∧
    v.truth regex prop (node.writing prop.name y) c = some false

/-- Some issue says more than that a constraint was skipped. -/
def Reports (issues : List ValidationIssue) : Prop := ∃ i ∈ issues, i.isNote = false

/-- The check follows three-valued logic: on a literal it reports exactly a false tree,
on an opaque value that decides the tree it reports nothing. -/
def FollowsTruth (c : ShaclConstraint) : Prop :=
  ∀ raw, lookupPropertyValue node prop.name = some raw →
    (isLiteral raw = true →
      ∃ issues, v.checkPropertyConstraint regex rule prop node c = some issues ∧
        (Reports issues ↔ v.truth regex prop node c = some false)) ∧
    (isOpaque raw = true → v.DependsOnValue regex prop node c →
      ∃ issues, v.checkPropertyConstraint regex rule prop node c = some issues ∧
        ¬ Reports issues)

/-- An outcome when a constraint that is not decided is taken to hold.  One that is
skipped holds as well, except within a connective that looks for issues. -/
def presumedOutcome (within : Bool) : Outcome → Bool
  | .holds | .undecided => true
  | .violated _ => false
  | .skipped _ => !within

/-- A constraint without branches when one that is not decided is taken to hold. -/
def presumedLeaf (within : Bool) (c : ShaclConstraint) : Option Bool :=
  (v.leafOutcome regex prop node c).map (presumedOutcome within)

mutual
/-- The tree when every constraint that is not decided is taken to hold. -/
def presumed (within : Bool) : ShaclConstraint → Option Bool
  | .or branches => presumedAny branches
  | .and branches => (presumedAll within branches).map (·.all id)
  | .not inner => (presumed true inner).map (!·)
  | .xone branches => (presumedAll true branches).map (·.count true == 1)
  | c => v.presumedLeaf regex prop node within c

def presumedAny : List ShaclConstraint → Option Bool
  | [] => some false
  | c :: cs => do
    if ← presumed true c then return true
    presumedAny cs

def presumedAll (within : Bool) : List ShaclConstraint → Option (List Bool)
  | [] => some []
  | c :: cs => do
    let b ← presumed within c
    let bs ← presumedAll within cs
    return b :: bs
end

/-- On a literal the check ends, and a tree that is not decided is presumed true; on an
opaque value that decides the tree, the tree is presumed true. -/
def PresumesWell (c : ShaclConstraint) : Prop :=
  ∀ raw, lookupPropertyValue node prop.name = some raw →
    (isLiteral raw = true → ∃ b, v.presumed regex prop node false c = some b ∧
        (v.truth regex prop node c = none → b = true)) ∧
    (isOpaque raw = true → v.DependsOnValue regex prop node c →
      v.presumed regex prop node false c = some true)

/-! ## Issues and notes -/

/-- Nothing to see in the issues: within a connective any issue counts, at the top notes
do not. -/
def quiet (within : Bool) (issues : List ValidationIssue) : Bool :=
  if within then issues.isEmpty else issues.all (·.isNote)

theorem quiet_append (within : Bool) (xs ys : List ValidationIssue) :
    quiet within (xs ++ ys) = (quiet within xs && quiet within ys) := by
  cases within with
  | true => cases xs <;> rfl
  | false => exact all_append

theorem quiet_nil (within : Bool) : quiet within [] = true := by
  cases within <;> rfl

theorem quiet_build {within : Bool} {code property : String} (h : code ∉ noteCodes) :
    quiet within [buildIssue rule code property] = false := by
  cases within with
  | true => rfl
  | false =>
    show (decide (code ∈ noteCodes) && true) = false
    rw [decide_eq_false h, Bool.false_and]

theorem reports_iff {issues : List ValidationIssue} :
    Reports issues ↔ quiet false issues = false := by
  show _ ↔ issues.all (·.isNote) = false
  rw [all_eq_false]
  simp only [Reports, Bool.not_eq_true]

variable {c : ShaclConstraint}

theorem quiet_report {out : Outcome} (h : out.Within (ownCodes c)) (within : Bool) :
    quiet within (report rule prop out) = presumedOutcome within out := by
  cases out with
  | holds => exact quiet_nil within
  | undecided => exact quiet_nil within
  | violated codes =>
    rcases h with ⟨hne, hcodes⟩
    cases codes with
    | nil => exact absurd rfl hne
    | cons code codes =>
      show quiet within ([buildIssue rule code prop.name.val] ++ report rule prop
        (.violated codes)) = false
      have hcode := not_mem_noteCodes_of_ownCodes (hcodes code mem_cons_self)
      rw [quiet_append, quiet_build rule hcode, Bool.false_and]
  | skipped code =>
    cases within with
    | true => rfl
    | false =>
      have hcode : code ∈ noteCodes := h
      show (decide (code ∈ noteCodes) && true) = true
      rw [decide_eq_true hcode, Bool.true_and]

/-- The check of a constraint without branches is quiet exactly if it is presumed. -/
theorem map_quiet_checkLeaf (within : Bool) (c : ShaclConstraint) :
    (v.checkLeaf regex rule prop node c).map (quiet within) =
      v.presumedLeaf regex prop node within c := by
  unfold checkLeaf presumedLeaf
  cases h : v.leafOutcome regex prop node c with
  | none => rfl
  | some out =>
    rw [Option.map_some, Option.map_some, Option.map_some,
      quiet_report rule prop (leafOutcome_within h)]

mutual
/-- The check of a tree is quiet exactly if the tree is presumed. -/
theorem map_quiet_check (within : Bool) : (c : ShaclConstraint) →
    (v.checkPropertyConstraint regex rule prop node c).map (quiet within) =
      v.presumed regex prop node within c
  | .or branches => by
    simp only [checkPropertyConstraint, presumed, ← anyAccepts_eq branches]
    cases branches with
    | nil => exact congrArg some (quiet_build rule (by decide))
    | cons branch branches =>
      cases h : v.anyAccepts regex rule prop node (branch :: branches) with
      | none => rfl
      | some b =>
        cases b with
        | true => exact congrArg some (quiet_nil within)
        | false => exact congrArg some (quiet_build rule (by decide))
  | .and branches => by
    simp only [checkPropertyConstraint, presumed, ← map_quiet_checkBranches within branches]
  | .not inner => by
    simp only [checkPropertyConstraint, presumed, ← map_quiet_check true inner]
    cases h : v.checkPropertyConstraint regex rule prop node inner with
    | none => rfl
    | some issues =>
      cases issues with
      | nil => exact congrArg some (quiet_build rule (by decide))
      | cons issue issues => exact congrArg some (quiet_nil within)
  | .xone branches => by
    have hpresumed : (v.presumedAll regex prop node true branches).map (·.count true == 1) =
        (v.countAccepted regex rule prop node branches).map (· == 1) := by
      rw [countAccepted_eq branches, Option.map_map]
      rfl
    simp only [checkPropertyConstraint, presumed, hpresumed]
    cases branches with
    | nil => exact congrArg some (quiet_build rule (by decide))
    | cons branch branches =>
      cases v.countAccepted regex rule prop node (branch :: branches) with
      | none => rfl
      | some accepted =>
        by_cases hone : accepted = 1
        · subst hone
          exact congrArg some (quiet_nil within)
        · show Option.map (quiet within) (if accepted = 1 then some []
              else some [buildIssue rule _ _]) = some (accepted == 1)
          rw [if_neg hone, Option.map_some, quiet_build rule (by decide),
            beq_false_of_ne hone]
  | .minCount .. | .maxCount .. | .datatype .. | .matchesPattern .. | .inValueSet ..
  | .hasValue .. | .minInclusive .. | .maxInclusive .. | .minLength .. | .maxLength ..
  | .uniqueLang .. | .closed .. | .disjoint .. | .uniqueKey .. | .lessThan .. | .equals ..
  | .qualifiedValueShape .. => by
    simp only [checkPropertyConstraint, presumed]
    exact map_quiet_checkLeaf regex v rule prop node within _

theorem anyAccepts_eq : (cs : List ShaclConstraint) →
    v.anyAccepts regex rule prop node cs = v.presumedAny regex prop node cs
  | [] => rfl
  | c :: cs => by
    simp only [anyAccepts, presumedAny, ← anyAccepts_eq cs,
      ← map_quiet_check true c]
    cases v.checkPropertyConstraint regex rule prop node c with
    | none => rfl
    | some issues => rfl

theorem map_quiet_checkBranches (within : Bool) : (cs : List ShaclConstraint) →
    (v.checkBranches regex rule prop node cs).map (quiet within) =
      (v.presumedAll regex prop node within cs).map (·.all id)
  | [] => congrArg some (quiet_nil within)
  | c :: cs => by
    have hrest := map_quiet_checkBranches within cs
    simp only [checkBranches, presumedAll, ← map_quiet_check within c]
    cases v.checkPropertyConstraint regex rule prop node c with
    | none => rfl
    | some issues =>
      cases hcs : v.checkBranches regex rule prop node cs with
      | none =>
        rw [hcs] at hrest
        cases hbs : v.presumedAll regex prop node within cs with
        | none => rfl
        | some bs =>
          rw [hbs] at hrest
          cases hrest
      | some rest =>
        rw [hcs] at hrest
        cases hbs : v.presumedAll regex prop node within cs with
        | none =>
          rw [hbs] at hrest
          cases hrest
        | some bs =>
          rw [hbs] at hrest
          have hquiet : quiet within rest = bs.all id := Option.some.inj hrest
          show some (quiet within (issues ++ rest)) =
            some (quiet within issues && bs.all id)
          rw [quiet_append, hquiet]

theorem countAccepted_eq : (cs : List ShaclConstraint) →
    v.countAccepted regex rule prop node cs =
      (v.presumedAll regex prop node true cs).map (·.count true)
  | [] => rfl
  | c :: cs => by
    simp only [countAccepted, presumedAll, countAccepted_eq cs,
      ← map_quiet_check true c]
    cases v.checkPropertyConstraint regex rule prop node c with
    | none => rfl
    | some issues =>
      cases v.presumedAll regex prop node true cs with
      | none => rfl
      | some bs =>
        cases issues with
        | nil =>
          show some (bs.count true + 1) = some ((true :: bs).count true)
          rw [count_cons_self]
        | cons issue issues =>
          show some (bs.count true) = some ((false :: bs).count true)
          rw [count_cons_of_ne Bool.false_ne_true]
end

/-- The check of a tree at the top reports no violation exactly if the tree is presumed. -/
theorem checkProperty_spec {b : Bool} (h : v.presumed regex prop node false c = some b) :
    ∃ issues, v.checkPropertyConstraint regex rule prop node c = some issues ∧
      (Reports issues ↔ b = false) := by
  rw [← map_quiet_check regex v rule] at h
  rcases Option.map_eq_some_iff.1 h with ⟨issues, hissues, hquiet⟩
  refine ⟨issues, hissues, ?_⟩
  rw [reports_iff, hquiet]

theorem presumed_of_check {issues : List ValidationIssue}
    (h : v.checkPropertyConstraint regex rule prop node c = some issues) :
    v.presumed regex prop node false c = some (quiet false issues) := by
  rw [← map_quiet_check regex v rule, h]
  rfl

theorem resolves_presumedLeaf {within : Bool} {b : Bool}
    (h : v.presumedLeaf regex prop node within c = some b) :
    Resolves (v.leafTruth regex prop node c) b := by
  rcases Option.map_eq_some_iff.1 h with ⟨out, hout, hb⟩
  unfold leafTruth
  rw [hout]
  subst hb
  cases out with
  | holds => exact Lib.Kleene.resolves_some _
  | undecided => exact Lib.Kleene.resolves_none _
  | violated codes => exact Lib.Kleene.resolves_some _
  | skipped code => exact Lib.Kleene.resolves_none _

mutual
/-- The validator's reading stands whenever the tree is decided. -/
theorem resolves_presumed {within : Bool} {b : Bool} : (c : ShaclConstraint) →
    v.presumed regex prop node within c = some b → Resolves (v.truth regex prop node c) b
  | .or branches, h => by
    simp only [presumed] at h
    simp only [truth]
    cases b with
    | true =>
      rcases resolves_presumedAny_true branches h with ⟨t, ht, htrue⟩
      exact Resolves.any_of_mem ht htrue
    | false => exact Resolves.any_of_forall (resolves_presumedAny_false branches h)
  | .and branches, h => by
    simp only [presumed] at h
    rcases Option.map_eq_some_iff.1 h with ⟨bs, hbs, rfl⟩
    simp only [truth]
    exact Resolves.all (resolves_presumedAll branches hbs)
  | .not inner, h => by
    simp only [presumed] at h
    rcases Option.map_eq_some_iff.1 h with ⟨a, ha, rfl⟩
    simp only [truth]
    exact (resolves_presumed inner ha).neg
  | .xone branches, h => by
    simp only [presumed] at h
    rcases Option.map_eq_some_iff.1 h with ⟨bs, hbs, rfl⟩
    simp only [truth]
    exact Resolves.one (resolves_presumedAll branches hbs)
  | .minCount .., h | .maxCount .., h | .datatype .., h | .matchesPattern .., h
  | .inValueSet .., h | .hasValue .., h | .minInclusive .., h | .maxInclusive .., h
  | .minLength .., h | .maxLength .., h | .uniqueLang .., h | .closed .., h
  | .disjoint .., h | .uniqueKey .., h | .lessThan .., h | .equals .., h
  | .qualifiedValueShape .., h => by
    simp only [presumed] at h
    simp only [truth]
    exact resolves_presumedLeaf regex v prop node h

theorem resolves_presumedAny_true : (cs : List ShaclConstraint) →
    v.presumedAny regex prop node cs = some true →
    ∃ t ∈ v.truths regex prop node cs, Resolves t true
  | [], h => by cases h
  | c :: cs, h => by
    simp only [presumedAny] at h
    simp only [truths]
    cases hc : v.presumed regex prop node true c with
    | none =>
      rw [hc] at h
      cases h
    | some a =>
      cases a with
      | true => exact ⟨_, mem_cons_self, resolves_presumed c hc⟩
      | false =>
        rw [hc] at h
        rcases resolves_presumedAny_true cs h with ⟨t, ht, htrue⟩
        exact ⟨t, mem_cons_of_mem _ ht, htrue⟩

theorem resolves_presumedAny_false : (cs : List ShaclConstraint) →
    v.presumedAny regex prop node cs = some false →
    ∀ t ∈ v.truths regex prop node cs, Resolves t false
  | [], _ => by
    intro t ht
    simp only [truths] at ht
    cases ht
  | c :: cs, h => by
    simp only [presumedAny] at h
    simp only [truths]
    cases hc : v.presumed regex prop node true c with
    | none =>
      rw [hc] at h
      cases h
    | some a =>
      cases a with
      | true =>
        rw [hc] at h
        cases h
      | false =>
        rw [hc] at h
        intro t ht
        rcases mem_cons.1 ht with rfl | ht
        · exact resolves_presumed c hc
        · exact resolves_presumedAny_false cs h t ht

theorem resolves_presumedAll {within : Bool} {bs : List Bool} : (cs : List ShaclConstraint) →
    v.presumedAll regex prop node within cs = some bs →
    List.Forall₂ Resolves (v.truths regex prop node cs) bs
  | [], h => by
    simp only [presumedAll] at h
    cases h
    simp only [truths]
    exact Forall₂.nil
  | c :: cs, h => by
    simp only [presumedAll] at h
    rcases Option.bind_eq_some_iff.1 h with ⟨b, hb, h⟩
    rcases Option.bind_eq_some_iff.1 h with ⟨bs, hbs, h⟩
    cases h
    simp only [truths]
    exact Forall₂.cons (resolves_presumed c hb) (resolves_presumedAll cs hbs)
end

/-- The check follows three-valued logic exactly if it presumes well. -/
theorem followsTruth_iff (c : ShaclConstraint) :
    v.FollowsTruth regex rule prop node c ↔ v.PresumesWell regex prop node c := by
  constructor
  · intro h raw hraw
    rcases h raw hraw with ⟨hliteral, hunread⟩
    constructor
    · intro hlit
      rcases hliteral hlit with ⟨issues, hissues, hreports⟩
      refine ⟨_, presumed_of_check regex v rule prop node hissues, ?_⟩
      intro hnone
      rw [hnone, reports_iff] at hreports
      exact Bool.of_not_eq_false fun hfalse => nomatch hreports.1 hfalse
    · intro hop hdepends
      rcases hunread hop hdepends with ⟨issues, hissues, hreports⟩
      rw [reports_iff] at hreports
      rw [presumed_of_check regex v rule prop node hissues, Bool.of_not_eq_false hreports]
  · intro h raw hraw
    rcases h raw hraw with ⟨hliteral, hunread⟩
    constructor
    · intro hlit
      rcases hliteral hlit with ⟨b, hb, hnone⟩
      rcases checkProperty_spec regex v rule prop node hb with
        ⟨issues, hissues, hreports⟩
      refine ⟨issues, hissues, ?_⟩
      rw [hreports]
      have hresolves := resolves_presumed regex v prop node c hb
      cases htruth : v.truth regex prop node c with
      | none =>
        rw [hnone htruth]
        constructor
        · intro hfalse
          cases hfalse
        · intro hfalse
          cases hfalse
      | some t => rw [hresolves t htruth, Option.some_inj]
    · intro hop hdepends
      rcases checkProperty_spec regex v rule prop node (hunread hop hdepends) with
        ⟨issues, hissues, hreports⟩
      refine ⟨issues, hissues, ?_⟩
      rw [hreports]
      exact Bool.noConfusion

def nameProperty : PropertyDef where
  id := ⟨"p"⟩
  name := ⟨"name", .refl true⟩
  propertyType := .string

/-- `(n:Customer \x7bname: $name\x7d)`. -/
def namedByParameter : NodePattern where
  variableName := some "n".toList
  labels := ["Customer".toList]
  properties := [("name".toList, "$name".toList)]
  span := ⟨0, 0⟩

/-- A rule that names shorter than three characters only are allowed. -/
def shortNames : RuleDef where
  id := ⟨"short"⟩
  name := .new "short"
  kind := .propertyShape ⟨"customer"⟩ ⟨"p"⟩
  constraints := [.not (.minLength .inherit 3)]

/-- The validator of an ontology without rules. -/
def bareValidator : ShaclValidator where
  ontology := { id := "shop", name := "shop", nodeTypes := [] }
  derivedRules := []
  valueSetCodes _ := none

/-- Under a negation a parameter is reported. -/
theorem negated_parameter_reported :
    ¬ FollowsTruth (fun _ => none) bareValidator shortNames nameProperty namedByParameter
      (.not (.minLength .inherit 3)) := by
  intro h
  rcases h "$name".toList (by decide) with ⟨-, hunread⟩
  rcases hunread (by decide) ⟨"'ab'".toList, "'abc'".toList, by decide, by decide, by decide,
    by decide⟩ with ⟨issues, hissues, hreports⟩
  have hcheck : checkPropertyConstraint (fun _ => none) bareValidator shortNames nameProperty
      namedByParameter (.not (.minLength .inherit 3)) =
        some [buildIssue shortNames "runtime.cypher.shacl.not_violation" "name"] := by
    rfl
  rw [hcheck] at hissues
  cases hissues
  exact hreports ⟨_, mem_singleton_self _, by decide⟩

end ShaclValidator

end Ontosyx.Cypher
