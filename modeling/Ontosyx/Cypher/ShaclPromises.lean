import Ontosyx.Cypher.ShaclRun

/-!
# The promises of the schema on writes

A property that is not nullable, and a `Required` binding to a value set or a notation
pattern, promise something about every node that is written.  `derive_implicit_rules`
keeps a promise with a rule of its own unless an authored constraint has the same
signature at the property, and `ShaclValidator` decides on other grounds which authored
constraints it enforces.

## Main results

* `covered_of_not_suppressed` — a promise whose rule is derived is kept.
* `promisesKept_iff` — every broken promise is reported exactly if each promise is
  derived or made again by constraints that are enforced.
-/

namespace Ontosyx.Cypher

open List Ontosyx.Core Ontology Or

/-! ## Promises -/

/-- What the schema promises about the values of a property. -/
inductive Promise where
  | present
  | valueSet (id : ValueSetId)
  | notationPattern (id : NotationPatternId)
deriving DecidableEq

/-- The promise of a binding: only a `Required` one makes it. -/
def bindingPromise : PropertyBinding → Option Promise
  | .valueSet id .required _ _ _ => some (.valueSet id)
  | .notationPattern id .required _ _ => some (.notationPattern id)
  | _ => none

def propertyPromises (prop : PropertyDef) : List Promise :=
  (if prop.nullable then [] else [.present]) ++ prop.bindings.filterMap bindingPromise

namespace Promise

def signature : Promise → ConstraintSignature
  | .present => .minCount
  | .valueSet id => .inValueSet id
  | .notationPattern id => .matchesPattern id

/-- The code under which a broken promise is reported. -/
def code : Promise → String
  | .present => "runtime.cypher.shacl.min_count_missing"
  | .valueSet _ => "runtime.cypher.shacl.value_not_in_set"
  | .notationPattern _ => "runtime.cypher.shacl.notation_pattern_mismatch"

/-- The written value, if any, breaks the promise: it is missing, or a string literal
outside of the domain. -/
def BrokenBy (regex : Regex) (o : OntologyIR) : Promise → Option Text → Prop
  | .present, value => value = none
  | .valueSet id, value => ∃ raw s vs, value = some raw ∧ parseStringLiteral raw = .literal s ∧
      vs ∈ o.valueSets ∧ vs.id = id ∧ String.ofList s ∉ expandValueSet regex vs o.codeSystems
  | .notationPattern id, value => ∃ raw s np, value = some raw ∧
      parseStringLiteral raw = .literal s ∧ np ∈ o.notationPatterns ∧ np.id = id ∧
      np.validate ((ShaclValidator.new regex o).codeResolver regex) s = some false

end Promise

/-- The promise a constraint makes; a minimum of nothing makes none. -/
def constraintPromise : ShaclConstraint → Option Promise
  | .minCount _ min => if min = 0 then none else some .present
  | .inValueSet _ id => some (.valueSet id)
  | .matchesPattern _ id => some (.notationPattern id)
  | _ => none

variable {issues : List ValidationIssue} {v : ShaclValidator} {codes : List String}

namespace ShaclValidator

/-- The constraint is enforced on writes of a property of the node type: it stands in an
active property shape of the type, alone or in a conjunction, and its target matches. -/
def Enforces (v : ShaclValidator) (nodeType : NodeTypeDef) (prop : PropertyDef)
    (c : ShaclConstraint) : Prop :=
  ∃ rule ∈ v.activeRules, ∃ id, rule.kind = .propertyShape nodeType.id id ∧
    propertyById nodeType id = some prop ∧ (∃ c' ∈ rule.constraints, c ∈ conjuncts c') ∧
    ∃ target, c.target = some target ∧ targetMatchesProperty target prop = true

/-- An authored constraint has the signature of the promise at the property, so that no
rule is derived for it. -/
def Suppressed (o : OntologyIR) (nodeType : NodeTypeDef) (prop : PropertyDef)
    (promise : Promise) : Prop :=
  (nodeType.id, prop.id, promise.signature) ∈ o.authoredConstraintSignatures

/-- Whatever breaks the promise breaks one of the same kind that an enforced constraint
makes on the property. -/
def Covered (regex : Regex) (o : OntologyIR) (nodeType : NodeTypeDef) (prop : PropertyDef)
    (promise : Promise) : Prop :=
  ∀ value : Option Text, (∀ raw, value = some raw → (new regex o).Sliceable regex raw) →
    promise.BrokenBy regex o value →
    ∃ prop' c promise', (new regex o).Enforces nodeType prop' c ∧ prop'.name = prop.name ∧
      constraintPromise c = some promise' ∧ promise'.code = promise.code ∧
      promise'.BrokenBy regex o value

/-- The patterns that a query creates or merges. -/
def writtenNodes (ast : CypherAst) : List NodePattern :=
  ast.statements.flatMap fun statement =>
    (statement.clauses.filter (·.isCreate)).flatMap (·.nodes)

/-- On every query whose values can be sliced the validator returns, and it reports each
promise that a written node breaks, under the code of the promise and the name of the
property. -/
def PromisesKept (regex : Regex) (o : OntologyIR) : Prop :=
  ∀ ast : CypherAst,
    (∀ statement ∈ ast.statements, ∀ clause ∈ statement.clauses,
      (new regex o).SliceableClause regex clause) →
    ∃ issues, (new regex o).validate regex ast = some issues ∧
      ∀ node ∈ writtenNodes ast, ∀ nodeType ∈ o.nodeTypes,
        nodeType.label.val.toList ∈ node.labels → ∀ prop ∈ nodeType.properties,
        ∀ promise ∈ propertyPromises prop,
          promise.BrokenBy regex o (lookupPropertyValue node prop.name) →
          ∃ i ∈ issues, i.code = promise.code ∧ i.property = prop.name.val

section

variable {regex : Regex} {o : OntologyIR} {nodeType : NodeTypeDef} {prop : PropertyDef}

/-! ## Derived rules -/

/-- The constraint that a derived rule keeps a promise with. -/
def keeper : Promise → ShaclConstraint
  | .present => .minCount .inherit 1
  | .valueSet id => .inValueSet .inherit id
  | .notationPattern id => .matchesPattern .inherit id

theorem target_keeper (promise : Promise) : (keeper promise).target = some .inherit := by
  cases promise <;> rfl

theorem constraintPromise_keeper (promise : Promise) :
    constraintPromise (keeper promise) = some promise := by
  cases promise <;> rfl

theorem conjuncts_keeper (promise : Promise) : conjuncts (keeper promise) = [keeper promise] := by
  cases promise <;> simp only [keeper, conjuncts]

theorem redundant_derivedRule (promise : Promise) (suffix : String)
    (validFrom validTo : Option DateTime) : o.ruleRedundantWithAuthored
        (derivedRule nodeType prop suffix (keeper promise) validFrom validTo) = true ↔
      Suppressed o nodeType prop promise := by
  have hsignature : signatureAt
      (derivedRule nodeType prop suffix (keeper promise) validFrom validTo) (keeper promise) =
        some (nodeType.id, prop.id, promise.signature) := by
    cases promise <;> rfl
  unfold OntologyIR.ruleRedundantWithAuthored Suppressed
  show ([keeper promise].any _) = true ↔ _
  rw [any_cons, any_nil, Bool.or_false, hsignature, Option.any_some, decide_eq_true_iff]

variable {promise : Promise}

theorem deriveBindingRule_of_promise {binding : PropertyBinding}
    (h : bindingPromise binding = some promise) :
    ∃ suffix validFrom validTo, deriveBindingRule nodeType prop binding =
      some (derivedRule nodeType prop suffix (keeper promise) validFrom validTo) := by
  unfold bindingPromise at h
  split at h
  · cases h
    exact ⟨_, _, _, rfl⟩
  · cases h
    exact ⟨_, _, _, rfl⟩
  · cases h

theorem exists_derivedRule (hnode : nodeType ∈ o.nodeTypes) (hprop : prop ∈ nodeType.properties)
    (hpromise : promise ∈ propertyPromises prop) (h : ¬ Suppressed o nodeType prop promise) :
    ∃ suffix validFrom validTo,
      derivedRule nodeType prop suffix (keeper promise) validFrom validTo ∈
        o.deriveImplicitRules := by
  have hkept : ∀ suffix validFrom validTo, (!o.ruleRedundantWithAuthored
      (derivedRule nodeType prop suffix (keeper promise) validFrom validTo)) = true := by
    intro suffix validFrom validTo
    rw [Bool.not_eq_true', ← Bool.not_eq_true, redundant_derivedRule]
    exact h
  rcases mem_append.1 hpromise with hpresent | hbinding
  · by_cases hnullable : prop.nullable = true
    · rw [if_pos hnullable] at hpresent
      cases hpresent
    · rw [if_neg hnullable, mem_singleton] at hpresent
      subst hpresent
      refine ⟨"nullable", none, none, mem_append_right _ ?_⟩
      refine mem_flatMap.2 ⟨nodeType, hnode, mem_filter.2 ⟨?_, hkept _ _ _⟩⟩
      refine mem_filterMap.2 ⟨prop, hprop, ?_⟩
      exact if_neg hnullable
  · rcases mem_filterMap.1 hbinding with ⟨binding, hmem, hmakes⟩
    have hderived : ∃ suffix validFrom validTo, deriveBindingRule nodeType prop binding =
        some (derivedRule nodeType prop suffix (keeper promise) validFrom validTo) :=
      deriveBindingRule_of_promise hmakes
    rcases hderived with
      ⟨suffix, validFrom, validTo, hrule⟩
    refine ⟨suffix, validFrom, validTo, mem_append_left _ ?_⟩
    refine mem_flatMap.2 ⟨nodeType, hnode, mem_flatMap.2 ⟨prop, hprop, ?_⟩⟩
    exact mem_filter.2 ⟨mem_filterMap.2 ⟨binding, hmem, hrule⟩, hkept _ _ _⟩

theorem propertyById_eq_some (ho : o.Indexed) (hnode : nodeType ∈ o.nodeTypes)
    (hprop : prop ∈ nodeType.properties) : propertyById nodeType prop.id = some prop :=
  (Lib.Keyed.first_some_iff PropertyDef.id (ho.nodup_propertyIds hnode)).2 ⟨hprop, rfl⟩

/-- A promise whose rule is derived is kept. -/
theorem covered_of_not_suppressed (ho : o.Indexed) (hnode : nodeType ∈ o.nodeTypes)
    (hprop : prop ∈ nodeType.properties) (hpromise : promise ∈ propertyPromises prop)
    (h : ¬ Suppressed o nodeType prop promise) : Covered regex o nodeType prop promise := by
  rcases exists_derivedRule hnode hprop hpromise h with ⟨suffix, validFrom, validTo, hrule⟩
  intro value _ hbroken
  refine ⟨prop, keeper promise, promise, ?_, rfl, constraintPromise_keeper promise, rfl, hbroken⟩
  refine ⟨_, mem_filter.2 ⟨mem_append_right _ hrule, rfl⟩, prop.id, rfl,
    propertyById_eq_some ho hnode hprop, ⟨keeper promise, mem_singleton_self _, ?_⟩,
    .inherit, target_keeper promise, rfl⟩
  rw [conjuncts_keeper]
  exact mem_singleton_self _

/-! ## Leaves and promises -/

theorem valueSetCodes_some_iff (ho : o.Indexed) {id : ValueSetId} {allowed : List String} :
    (new regex o).valueSetCodes id = some allowed ↔
      ∃ vs ∈ o.valueSets, vs.id = id ∧ expandValueSet regex vs o.codeSystems = allowed := by
  have hnodup : (o.valueSets.map (·.id)).Nodup := by
    have hvals : ((o.valueSets.map (·.id)).map (·.val)).Nodup := by
      rw [map_map]
      exact ho.registries.valueSets
    exact hvals.of_map _
  show (Lib.Keyed.last ValueSetDef.id id o.valueSets).map _ = _ ↔ _
  rw [Option.map_eq_some_iff]
  constructor
  · intro h
    rcases h with ⟨vs, hvs, hallowed⟩
    rcases (Lib.Keyed.last_some_iff ValueSetDef.id hnodup).1 hvs with ⟨hmem, hid⟩
    exact ⟨vs, hmem, hid, hallowed⟩
  · intro h
    rcases h with ⟨vs, hmem, hid, hallowed⟩
    exact ⟨vs, (Lib.Keyed.last_some_iff ValueSetDef.id hnodup).2 ⟨hmem, hid⟩, hallowed⟩

theorem patternById_some_iff (ho : o.Indexed) {id : NotationPatternId}
    {np : NotationPatternDef} :
    o.notationPatternById id = some np ↔ np ∈ o.notationPatterns ∧ np.id = id := by
  have hnodup : (o.notationPatterns.map (·.id)).Nodup := by
    have hvals : ((o.notationPatterns.map (·.id)).map (·.val)).Nodup := by
      rw [map_map]
      exact ho.registries.notationPatterns
    exact hvals.of_map _
  exact Lib.Keyed.first_some_iff NotationPatternDef.id hnodup

theorem checkInValueSet_literal {id : ValueSetId} {raw s : Text}
    (hs : parseStringLiteral raw = .literal s) :
    v.checkInValueSet id raw = some (match v.valueSetCodes id with
      | none => .skipped "runtime.cypher.shacl.unknown_value_set_skipped"
      | some allowed => .test (String.ofList s ∈ allowed)
          "runtime.cypher.shacl.value_not_in_set") := by
  have hobserved : observedLiteral trimChars raw = some (some (String.ofList s)) := by
    unfold observedLiteral
    rw [hs]
  unfold checkInValueSet
  rw [hobserved]
  show (match v.valueSetCodes id with
    | none => _
    | some allowed => _) = _
  cases v.valueSetCodes id with
  | none => rfl
  | some allowed => rfl

variable {node : NodePattern} {c : ShaclConstraint}

/-- An enforced constraint reports what breaks its promise. -/
theorem leafOutcome_of_broken (ho : o.Indexed) {target : ConstraintTarget}
    (hc : constraintPromise c = some promise) (htarget : c.target = some target)
    (hmatches : targetMatchesProperty target prop = true)
    (hbroken : promise.BrokenBy regex o (lookupPropertyValue node prop.name)) :
    (new regex o).leafOutcome regex prop node c = some (.violated [promise.code]) := by
  have hnot : ¬ ((!targetMatchesProperty target prop) = true) := by
    rw [hmatches]
    exact Bool.false_ne_true
  cases c with
  | minCount t min =>
    by_cases hmin : min = 0
    · rw [constraintPromise, if_pos hmin] at hc
      cases hc
    · rw [constraintPromise, if_neg hmin] at hc
      cases hc
      cases htarget
      have hvalue : lookupPropertyValue node prop.name = none := hbroken
      simp only [leafOutcome, if_neg hmin, if_neg hnot, hvalue]
      rfl
  | inValueSet t id =>
    cases hc
    cases htarget
    rcases hbroken with ⟨raw, s, vs, hvalue, hs, hmem, hid, hout⟩
    have hcodes : (new regex o).valueSetCodes id =
        some (expandValueSet regex vs o.codeSystems) :=
      (valueSetCodes_some_iff ho).2 ⟨vs, hmem, hid, rfl⟩
    simp only [leafOutcome, onValue, if_neg hnot, hvalue, checkInValueSet_literal hs, hcodes,
      decide_eq_false hout]
    rfl
  | matchesPattern t id =>
    cases hc
    cases htarget
    rcases hbroken with ⟨raw, s, np, hvalue, hs, hmem, hid, hout⟩
    have hnp : (new regex o).ontology.notationPatternById id = some np :=
      (patternById_some_iff ho).2 ⟨hmem, hid⟩
    simp only [leafOutcome, onValue, if_neg hnot, hvalue, checkMatchesPattern, hs, hnp, hout]
    rfl
  | _ => cases hc

/-- The kinds of constraints that report under the code of a promise. -/
theorem kind_of_code (h : promise.code ∈ ownCodes c) :
    (∃ t min, c = .minCount t min ∧ promise = .present) ∨
      (∃ t id id', c = .inValueSet t id ∧ promise = .valueSet id') ∨
        ∃ t id id', c = .matchesPattern t id ∧ promise = .notationPattern id' := by
  cases c with
  | minCount t min =>
    cases promise with
    | present => exact inl ⟨t, min, rfl, rfl⟩
    | valueSet id | notationPattern id => simp [ownCodes, Promise.code] at h
  | inValueSet t id =>
    cases promise with
    | present | notationPattern id' => simp [ownCodes, Promise.code] at h
    | valueSet id' => exact inr (inl ⟨t, id, id', rfl, rfl⟩)
  | matchesPattern t id =>
    cases promise with
    | present | valueSet id' => simp [ownCodes, Promise.code] at h
    | notationPattern id' => exact inr (inr ⟨t, id, id', rfl, rfl⟩)
  | _ => cases promise <;> simp [ownCodes, Promise.code] at h

/-- What `onValue` violates is a written value of a matching target. -/
theorem of_onValue_violated {target : ConstraintTarget} {value : Option Text}
    {check : Text → Option Outcome} (h : onValue target prop value check = some (.violated codes)) :
    targetMatchesProperty target prop = true ∧
      ∃ raw, value = some raw ∧ check raw = some (.violated codes) := by
  unfold onValue at h
  cases hmatches : targetMatchesProperty target prop with
  | false =>
    rw [hmatches] at h
    cases h
  | true =>
    rw [hmatches] at h
    cases value with
    | none => cases h
    | some raw => exact ⟨rfl, raw, rfl, h⟩

theorem test_eq_violated {ok : Bool} {code : String} (h : Outcome.test ok code = .violated codes) :
    ok = false := by
  cases ok with
  | true => cases h
  | false => rfl

/-- A constraint that reports a violation under the code of a promise makes a promise of
the kind, and a value that is missing or a string literal breaks it. -/
theorem broken_of_leafOutcome (ho : o.Indexed)
    (hout : (new regex o).leafOutcome regex prop node c = some (.violated codes))
    (hcode : promise.code ∈ codes) (hvalue : ∀ raw, lookupPropertyValue node prop.name = some raw →
      ∃ s, parseStringLiteral raw = .literal s) :
    ∃ promise' target, constraintPromise c = some promise' ∧ promise'.code = promise.code ∧
      c.target = some target ∧ targetMatchesProperty target prop = true ∧
      promise'.BrokenBy regex o (lookupPropertyValue node prop.name) := by
  rcases kind_of_code ((leafOutcome_within hout).2 _ hcode) with
    ⟨t, min, rfl, rfl⟩ | ⟨t, id, id', rfl, rfl⟩ | ⟨t, id, id', rfl, rfl⟩
  · simp only [leafOutcome] at hout
    by_cases hmin : min = 0
    · rw [if_pos hmin] at hout
      cases hout
    · rw [if_neg hmin] at hout
      cases hmatches : targetMatchesProperty t prop with
      | false =>
        rw [hmatches] at hout
        cases hout
      | true =>
        rw [hmatches] at hout
        have hnone := test_eq_violated (Option.some.inj hout)
        refine ⟨.present, t, if_neg hmin, rfl, rfl, hmatches, ?_⟩
        exact Option.isSome_eq_false_iff.1 hnone |> Option.isNone_iff_eq_none.1
  · unfold leafOutcome at hout
    rcases of_onValue_violated hout with ⟨hmatches, raw, hraw, hcheck⟩
    rcases hvalue raw hraw with ⟨s, hs⟩
    rw [checkInValueSet_literal hs] at hcheck
    cases hcodes : (new regex o).valueSetCodes id with
    | none =>
      rw [hcodes] at hcheck
      cases hcheck
    | some allowed =>
      rw [hcodes] at hcheck
      have hnot := test_eq_violated (Option.some.inj hcheck)
      rcases (valueSetCodes_some_iff ho).1 hcodes with ⟨vs, hmem, hid, rfl⟩
      exact ⟨.valueSet id, t, rfl, rfl, rfl, hmatches, raw, s, vs, hraw, hs, hmem, hid,
        of_decide_eq_false hnot⟩
  · unfold leafOutcome at hout
    rcases of_onValue_violated hout with ⟨hmatches, raw, hraw, hcheck⟩
    rcases hvalue raw hraw with ⟨s, hs⟩
    simp only [checkMatchesPattern, hs] at hcheck
    cases hnp : (new regex o).ontology.notationPatternById id with
    | none =>
      rw [hnp] at hcheck
      cases hcheck
    | some np =>
      rw [hnp] at hcheck
      rcases Option.bind_eq_some_iff.1 hcheck with ⟨ok, hok, hcheck⟩
      have hfalse := test_eq_violated (Option.some.inj hcheck)
      subst hfalse
      rcases (patternById_some_iff ho).1 hnp with ⟨hmem, hid⟩
      exact ⟨.notationPattern id, t, rfl, rfl, rfl, hmatches, raw, s, np, hraw, hs, hmem, hid,
        hok⟩

/-! ## Writes -/

theorem nodeTypeOf_label (ho : o.Indexed) (hnode : nodeType ∈ o.nodeTypes) :
    (new regex o).nodeTypeOf nodeType.label.val.toList = some nodeType := by
  unfold nodeTypeOf
  rw [String.ofList_toList, GraphLabel.new_val]
  exact (OntologyIR.nodeByLabel_some_iff ho).2 ⟨hnode, rfl⟩

/-- The check of a written pattern is part of the run. -/
theorem mem_validate_of_node {ast : CypherAst} (h : v.validate regex ast = some issues)
    (hnode : node ∈ writtenNodes ast) :
    ∃ own, v.validateNode regex v.activeRules node = some own ∧ ∀ i ∈ own, i ∈ issues := by
  rcases mem_flatMap.1 hnode with ⟨statement, hstatement, hnode⟩
  rcases mem_flatMap.1 hnode with ⟨clause, hclause, hnode⟩
  rcases mem_filter.1 hclause with ⟨hclause, hcreate⟩
  rcases collect_mem h hstatement with ⟨ofStatement, hofStatement, hsub⟩
  rcases collect_mem hofStatement hclause with ⟨ofClause, hofClause, hsub'⟩
  have hcollect : collect (v.validateNode regex v.activeRules) clause.nodes = some ofClause := by
    unfold CypherClause.isCreate at hcreate
    rw [Bool.or_eq_true, beq_iff_eq, beq_iff_eq] at hcreate
    unfold validateClause at hofClause
    rcases hcreate with hkind | hkind
    · rw [hkind] at hofClause
      exact hofClause
    · rw [hkind] at hofClause
      exact hofClause
  rcases collect_mem hcollect hnode with ⟨own, hown, hsub''⟩
  refine ⟨own, hown, ?_⟩
  intro i hi
  exact hsub i (hsub' i (hsub'' i hi))

theorem reported_of_enforces (ho : o.Indexed) {ast : CypherAst}
    (h : (new regex o).validate regex ast = some issues) (hmem : node ∈ writtenNodes ast)
    (hnode : nodeType ∈ o.nodeTypes) (hlabel : nodeType.label.val.toList ∈ node.labels)
    (henforces : (new regex o).Enforces nodeType prop c) (hc : constraintPromise c = some promise)
    (hbroken : promise.BrokenBy regex o (lookupPropertyValue node prop.name)) :
    ∃ i ∈ issues, i.code = promise.code ∧ i.property = prop.name.val := by
  rcases henforces with ⟨rule, hrule, id, hkind, hprop, hconjunct, target, htarget, hmatches⟩
  have hout := leafOutcome_of_broken ho hc htarget hmatches hbroken
  rcases mem_validate_of_node h hmem with ⟨ofNode, hofNode, hsub⟩
  rcases collect_mem hofNode hlabel with ⟨ofLabel, hofLabel, hsub'⟩
  rw [nodeTypeOf_label ho hnode] at hofLabel
  rcases collect_mem hofLabel hrule with ⟨ofRule, hofRule, hsub''⟩
  refine ⟨buildIssue rule promise.code prop.name.val, hsub _ (hsub' _ (hsub'' _ ?_)), rfl, rfl⟩
  exact mem_validateRule_of_leaf hofRule
    ⟨⟨id, hkind, hprop⟩, hconjunct, _, hout, mem_singleton_self _⟩ htarget

def nodeOf (nodeType : NodeTypeDef) (prop : PropertyDef) (value : Option Text) : NodePattern where
  labels := [nodeType.label.val.toList]
  properties := value.toList.map fun raw => (prop.name.val.toList, raw)

def createOne (node : NodePattern) : CypherAst :=
  let clause : CypherClause :=
    { kind := .create, text := [], patterns := [{ elements := [.node node] }] }
  { statements := [{ clauses := [clause] }] }

theorem sliceable_createOne (h : v.SliceableNode regex node) :
    ∀ statement ∈ (createOne node).statements, ∀ clause ∈ statement.clauses,
      v.SliceableClause regex clause := by
  intro statement hstatement clause hclause
  rw [mem_singleton.1 hstatement] at hclause
  rw [mem_singleton.1 hclause]
  constructor
  · intro node' hmem
    rw [mem_singleton.1 hmem]
    exact h
  · intro item hitem
    cases hitem

theorem lookup_nodeOf (value : Option Text) :
    lookupPropertyValue (nodeOf nodeType prop value) prop.name = value := by
  cases value with
  | none => rfl
  | some raw => simp [lookupPropertyValue, nodeOf]

theorem validateNode_of_mem_createOne {i : ValidationIssue}
    (h : v.validate regex (createOne node) = some issues) (hi : i ∈ issues) :
    ∃ own, v.validateNode regex v.activeRules node = some own ∧ i ∈ own := by
  rcases (mem_collect h).1 hi with ⟨statement, hstatement, ofStatement, hofStatement, hi⟩
  rw [mem_singleton.1 hstatement] at hofStatement
  rcases (mem_collect hofStatement).1 hi with ⟨clause, hclause, ofClause, hofClause, hi⟩
  rw [mem_singleton.1 hclause] at hofClause
  rcases (mem_collect hofClause).1 hi with ⟨node', hnode', own, hown, hi⟩
  rw [mem_singleton.1 hnode'] at hown
  exact ⟨own, hown, hi⟩

theorem code_not_mem (promise : Promise) : promise.code ∉ connectiveCodes ∧
    promise.code ∉ nodeCodes ∧ promise.code ∉ noteCodes := by
  cases promise <;> exact ⟨by simp [Promise.code, connectiveCodes],
    by simp [Promise.code, nodeCodes], by simp [Promise.code, noteCodes]⟩

/-- An issue under the code of a promise stands for a violation with the code. -/
theorem violated_of_mem_report {rule : RuleDef} {out : Outcome} {i : ValidationIssue}
    (hout : (new regex o).leafOutcome regex prop node c = some out)
    (hi : i ∈ report rule prop out) (hcode : i.code = promise.code) :
    i.property = prop.name.val ∧ ∃ codes, out = .violated codes ∧ promise.code ∈ codes := by
  cases out with
  | holds => cases hi
  | undecided => cases hi
  | violated codes =>
    rcases mem_map.1 hi with ⟨code, hmem, rfl⟩
    have hcode : code = promise.code := hcode
    exact ⟨rfl, codes, rfl, hcode ▸ hmem⟩
  | skipped code =>
    have hnote : code ∈ noteCodes := leafOutcome_within hout
    rw [mem_singleton.1 hi] at hcode
    have hcode : code = promise.code := hcode
    exact absurd (hcode ▸ hnote) (code_not_mem promise).2.2

theorem broken_cases {value : Option Text} (h : promise.BrokenBy regex o value) {raw : Text}
    (hraw : value = some raw) : ∃ s, parseStringLiteral raw = .literal s := by
  subst hraw
  cases promise with
  | present => cases h
  | valueSet id | notationPattern id =>
    rcases h with ⟨_, s, _, hvalue, hs, _⟩
    cases hvalue
    exact ⟨s, hs⟩

theorem covered_of_promisesKept (ho : o.Indexed) (h : PromisesKept regex o)
    (hnode : nodeType ∈ o.nodeTypes) (hprop : prop ∈ nodeType.properties)
    (hpromise : promise ∈ propertyPromises prop) : Covered regex o nodeType prop promise := by
  intro value hslices hbroken
  have hsliceable : (new regex o).SliceableNode regex (nodeOf nodeType prop value) := by
    intro p hp
    rcases mem_map.1 hp with ⟨raw, hraw, rfl⟩
    exact hslices raw (Option.mem_toList.1 hraw)
  rcases h _ (sliceable_createOne hsliceable) with ⟨issues, hissues, hreports⟩
  rcases hreports (nodeOf nodeType prop value) (mem_singleton_self _) nodeType hnode
    (mem_singleton_self _) prop hprop promise hpromise
    (by rw [lookup_nodeOf]; exact hbroken) with ⟨i, hi, hcode, hproperty⟩
  rcases validateNode_of_mem_createOne hissues hi with ⟨ofNode, hofNode, hi⟩
  rcases (mem_collect hofNode).1 hi with ⟨label, hlabel, ofLabel, hofLabel, hi⟩
  rw [mem_singleton.1 hlabel, nodeTypeOf_label ho hnode] at hofLabel
  rcases (mem_collect hofLabel).1 hi with ⟨rule, hrule, ofRule, hofRule, hi⟩
  have hcodes := code_not_mem promise
  rw [← hcode] at hcodes
  rcases leaf_of_validateRule hofRule hi hcodes.1 hcodes.2.1 with
    ⟨prop', c, ⟨id, hkind, hprop'⟩, hconjunct, out, hout, hi⟩
  rcases violated_of_mem_report hout hi hcode with ⟨hproperty', codes, rfl, hmem⟩
  have hname : prop'.name = prop.name := PropertyKey.ext (hproperty'.symm.trans hproperty)
  have hlookup : lookupPropertyValue (nodeOf nodeType prop value) prop'.name = value := by
    rw [hname, lookup_nodeOf]
  rcases broken_of_leafOutcome ho hout hmem (by
    intro raw hraw
    rw [hlookup] at hraw
    exact broken_cases hbroken hraw) with
    ⟨promise', target, hc, hcode', htarget, hmatches, hbroken'⟩
  rw [hlookup] at hbroken'
  exact ⟨prop', c, promise', ⟨rule, hrule, id, hkind, hprop', hconjunct, target, htarget,
    hmatches⟩, hname, hc, hcode', hbroken'⟩

/-- Every broken promise is reported exactly if each promise has its derived rule or is
covered by constraints that are enforced. -/
theorem promisesKept_iff (ho : o.Indexed) : PromisesKept regex o ↔
      ∀ nodeType ∈ o.nodeTypes, ∀ prop ∈ nodeType.properties, ∀ promise ∈ propertyPromises prop,
        ¬ Suppressed o nodeType prop promise ∨ Covered regex o nodeType prop promise := by
  constructor
  · intro hkept nodeType hnode prop hprop promise hpromise
    exact inr (covered_of_promisesKept ho hkept hnode hprop hpromise)
  · intro hcovered ast hslices
    rcases exists_validate hslices with ⟨issues, hissues⟩
    refine ⟨issues, hissues, ?_⟩
    intro node hmem nodeType hnode hlabel prop hprop promise hpromise hbroken
    have hcovers : Covered regex o nodeType prop promise := by
      rcases hcovered nodeType hnode prop hprop promise hpromise with hderived | hcovers
      · exact covered_of_not_suppressed ho hnode hprop hpromise hderived
      · exact hcovers
    have hvalue : ∀ raw, lookupPropertyValue node prop.name = some raw →
        (new regex o).Sliceable regex raw := by
      intro raw hraw
      rcases mem_flatMap.1 hmem with ⟨statement, hstatement, hmem⟩
      rcases mem_flatMap.1 hmem with ⟨clause, hclause, hmem⟩
      exact sliceable_lookup ((hslices statement hstatement clause
        (mem_filter.1 hclause).1).1 node hmem) hraw
    rcases hcovers _ hvalue hbroken with
      ⟨prop', c, promise', henforces, hname, hc, hcode, hbroken'⟩
    rw [← hname] at hbroken'
    rcases reported_of_enforces ho hissues hmem hnode hlabel henforces hc hbroken' with
      ⟨i, hi, hicode, hiproperty⟩
    exact ⟨i, hi, hicode.trans hcode, by rw [hiproperty, hname]⟩

end

/-- Customers with a required name, and some authored rules. -/
def requiredName (rules : List RuleDef) : OntologyIR where
  id := "shop"
  name := "shop"
  rules := rules
  nodeTypes :=
    [{ id := ⟨"customer"⟩
       label := ⟨"Customer", .refl true⟩
       properties := [{ id := ⟨"p"⟩, name := ⟨"name", .refl true⟩, propertyType := .string }] }]

/-- Without authored rules the promise is kept. -/
theorem promisesKept_requiredName : PromisesKept (fun _ => none) (requiredName []) := by
  refine (promisesKept_iff ((OntologyIR.rebuild_ok_iff _).1 rfl)).2 ?_
  intro nodeType _ prop _ promise _
  exact inl not_mem_nil

/-- A node shape with a minimum count of the name. -/
def nameOfNode : RuleDef where
  id := ⟨"required-name"⟩
  name := .new "required name"
  kind := .nodeShape ⟨"customer"⟩
  constraints := [.minCount (.property ⟨"customer"⟩ ⟨"p"⟩) 1]

/-- The node shape suppresses the derived rule, and nothing enforces its minimum. -/
theorem nodeShape_not_kept : ¬ PromisesKept (fun _ => none) (requiredName [nameOfNode]) := by
  intro h
  let node : NodePattern := { labels := ["Customer".toList] }
  rcases h (createOne node) (sliceable_createOne (forall_mem_nil _)) with
    ⟨issues, hissues, hreports⟩
  have hnone : (new (fun _ => none) (requiredName [nameOfNode])).validate (fun _ => none)
      (createOne node) = some [] := rfl
  rw [hnone] at hissues
  cases hissues
  rcases hreports node (mem_singleton_self _) _ mem_cons_self (by decide) _
    mem_cons_self .present mem_cons_self rfl with ⟨i, hi, -⟩
  cases hi

end ShaclValidator

end Ontosyx.Cypher
