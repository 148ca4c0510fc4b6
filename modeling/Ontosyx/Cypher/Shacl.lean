import Ontosyx.Cypher.Ast
import Ontosyx.Cypher.Literal
import Ontosyx.Ontology.DerivedRules

/-!
# The SHACL validator

`ShaclValidator` checks the writes of a query against the rules of the ontology and
the rules derived from its bindings (`shacl_validator.rs`).  A property constraint is
checked on the value a pattern or an assignment writes for the property; a value that
cannot be decided from its text passes.

An issue keeps its severity, its code, the rule and the property it names.  A check
that panics (slicing a lone quote, or inside a character) is `none`.
-/

namespace Ontosyx.Cypher

open Ontosyx.Core Ontology String

inductive IssueSeverity where
  | error
  | warning
  | info
deriving DecidableEq

structure ValidationIssue where
  severity : IssueSeverity
  code : String
  rule : RuleId
  property : String
deriving DecidableEq

def buildIssue (rule : RuleDef) (code property : String) : ValidationIssue where
  severity := match rule.severity with
    | .violation => .error
    | .warning => .warning
    | .info => .info
  code := code
  rule := rule.id
  property := property

/-- `ValidationIssue::info`: a note that something was skipped. -/
def noteIssue (rule : RuleDef) (code property : String) : ValidationIssue :=
  ⟨.info, code, rule.id, property⟩

/-- The codes of the notes that a constraint was skipped. -/
def noteCodes : List String :=
  ["runtime.cypher.shacl.unknown_value_set_skipped",
    "runtime.cypher.shacl.unknown_notation_pattern_skipped",
    "runtime.cypher.shacl.property_pair_unknown_sibling"]

/-- The issue says that a constraint was skipped. -/
def ValidationIssue.isNote (issue : ValidationIssue) : Bool := issue.code ∈ noteCodes

/-! ## Property constraints -/

def lookupPropertyValue (node : NodePattern) (key : PropertyKey) : Option Text :=
  (node.properties.find? fun p => p.1 = key.val.toList).map (·.2)

def targetMatchesProperty (target : ConstraintTarget) (prop : PropertyDef) : Bool :=
  match target with
  | .inherit => true
  | .property _ propertyId => propertyId = prop.id
  | .nodeType _ | .edgeLabel _ => false

def propertyById (nodeType : NodeTypeDef) (id : PropertyId) : Option PropertyDef :=
  nodeType.properties.find? (·.id = id)

structure ShaclValidator where
  ontology : OntologyIR
  derivedRules : List RuleDef
  valueSetCodes : ValueSetId → Option (List String)

/-- How the check of one constraint ends.  The source returns without an issue both
where the constraint holds and where it cannot tell. -/
inductive Outcome where
  | holds
  | undecided
  | violated (codes : List String)
  | skipped (code : String)
deriving DecidableEq

/-- Violated with one issue, unless the test succeeds. -/
def Outcome.test (ok : Bool) (code : String) : Outcome := if ok then .holds else .violated [code]

def checkPropertyPairPredicate (o : OntologyIR) (targetProp : PropertyDef) (node : NodePattern)
    (otherProperty : PropertyId) (op : PropertyPairOp) : Option Outcome :=
  match o.nodeTypes.find? fun nt => nt.properties.any (·.id = targetProp.id) with
  | none => some .undecided
  | some nodeType =>
    match propertyById nodeType otherProperty with
    | none => some (.skipped "runtime.cypher.shacl.property_pair_unknown_sibling")
    | some otherProp =>
      match lookupPropertyValue node targetProp.name,
        lookupPropertyValue node otherProp.name with
      | some a, some b =>
        match compareLiterals a b op with
        | .panics => none
        | .undecided => some .undecided
        | .compared violated =>
          some (.test (!violated) (match op with
            | .lessThan => "runtime.cypher.shacl.less_than_violation"
            | .equals => "runtime.cypher.shacl.equals_violation"))
      | _, _ => some .undecided

/-- The literal that a value set or a wanted value is compared with: a string without
its quotes, a number or a truth value as it is written. -/
def observedLiteral (asWritten : Text → Text) (raw : Text) : Option (Option String) :=
  match parseStringLiteral raw with
  | .panics => none
  | .literal s => some (some (ofList s))
  | .notLiteral =>
    match classifyLiteralType raw with
    | some .int | some .float | some .bool => some (some (ofList (asWritten raw)))
    | _ => some none

/-- The arm `Datatype`: the elements of a list one by one. -/
def checkDatatype (expected : PropertyType) (raw : Text) : Outcome :=
  match expected with
  | .list element =>
    match parseListLiteral raw with
    | none => .undecided
    | some items =>
      let types := items.map classifyLiteralType
      let wrong := types.filter fun t => t.any fun t => !typeAssignable t element
      if !wrong.isEmpty then
        .violated (wrong.map fun _ => "runtime.cypher.shacl.list_element_datatype_mismatch")
      else if none ∈ types then .undecided else .holds
  | expected =>
    match classifyLiteralType raw with
    | none => .undecided
    | some t => .test (typeAssignable t expected) "runtime.cypher.shacl.datatype_mismatch"

/-- The length of a string literal, for `MinLength` and `MaxLength`. -/
def checkLength (ok : Nat → Bool) (code : String) (raw : Text) : Option Outcome :=
  match parseStringLiteral raw with
  | .panics => none
  | .notLiteral => some .undecided
  | .literal s => some (.test (ok s.length) code)

/-- A bound on a number, for `MinInclusive` and `MaxInclusive`; nothing is within a
bound from NaN. -/
def checkBound (ok : Ordering → Bool) (bound : F64) (code : String) (raw : Text) : Outcome :=
  match parseNumericLiteral raw with
  | none => .undecided
  | some n => .test ((n.compare (.finite bound.value)).any ok) code

namespace ShaclValidator

variable (regex : Regex) (v : ShaclValidator)

/-- The arm `InValueSet`. -/
def checkInValueSet (valueSetId : ValueSetId) (raw : Text) : Option Outcome := do
  match ← observedLiteral trimChars raw with
  | none => return .undecided
  | some literal =>
    match v.valueSetCodes valueSetId with
    | none => return .skipped "runtime.cypher.shacl.unknown_value_set_skipped"
    | some allowed => return .test (literal ∈ allowed) "runtime.cypher.shacl.value_not_in_set"

/-- The arm `HasValue`. -/
def checkHasValue (expected : String) (raw : Text) : Option Outcome := do
  match ← observedLiteral id raw with
  | none => return .undecided
  | some observed =>
    return .test (observed = expected) "runtime.cypher.shacl.has_value_violation"

/-- The `code_resolver` of a notation pattern. -/
def codeResolver (id : ValueSetId) (code : String) : Bool :=
  match v.ontology.valueSetById id with
  | none => false
  | some vs => code ∈ expandValueSet regex vs v.ontology.codeSystems

/-- The arm `MatchesPattern`. -/
def checkMatchesPattern (notationPatternId : NotationPatternId) (raw : Text) : Option Outcome :=
  match parseStringLiteral raw with
  | .panics => none
  | .notLiteral => some .undecided
  | .literal s =>
    match v.ontology.notationPatternById notationPatternId with
    | none => some (.skipped "runtime.cypher.shacl.unknown_notation_pattern_skipped")
    | some np => do
      let ok ← np.validate (v.codeResolver regex) s
      return .test ok "runtime.cypher.shacl.notation_pattern_mismatch"

/-- A constraint on a value, when it applies to the property and the property is
written. -/
def onValue (target : ConstraintTarget) (prop : PropertyDef) (value : Option Text)
    (check : Text → Option Outcome) : Option Outcome :=
  if !targetMatchesProperty target prop then some .undecided
  else match value with
    | none => some .undecided
    | some raw => check raw

/-- How `check_property_constraint` ends on a constraint without branches. -/
def leafOutcome (prop : PropertyDef) (node : NodePattern) : ShaclConstraint → Option Outcome
  | .minCount target min =>
    if min = 0 then some .holds
    else if !targetMatchesProperty target prop then some .undecided
    else some (.test (lookupPropertyValue node prop.name).isSome
      "runtime.cypher.shacl.min_count_missing")
  | .inValueSet target valueSetId =>
    onValue target prop (lookupPropertyValue node prop.name) (v.checkInValueSet valueSetId)
  | .matchesPattern target notationPatternId =>
    onValue target prop (lookupPropertyValue node prop.name)
      (v.checkMatchesPattern regex notationPatternId)
  | .lessThan target otherProperty =>
    if !targetMatchesProperty target prop then some .undecided
    else checkPropertyPairPredicate v.ontology prop node otherProperty .lessThan
  | .equals target otherProperty =>
    if !targetMatchesProperty target prop then some .undecided
    else checkPropertyPairPredicate v.ontology prop node otherProperty .equals
  | .datatype target expected =>
    onValue target prop (lookupPropertyValue node prop.name) fun raw =>
      some (checkDatatype expected raw)
  | .minInclusive target min =>
    onValue target prop (lookupPropertyValue node prop.name) fun raw =>
      some (checkBound (· ≠ .lt) min "runtime.cypher.shacl.min_inclusive_violation" raw)
  | .maxInclusive target max =>
    onValue target prop (lookupPropertyValue node prop.name) fun raw =>
      some (checkBound (· ≠ .gt) max "runtime.cypher.shacl.max_inclusive_violation" raw)
  | .minLength target min =>
    onValue target prop (lookupPropertyValue node prop.name)
      (checkLength (min ≤ ·) "runtime.cypher.shacl.min_length_violation")
  | .maxLength target max =>
    onValue target prop (lookupPropertyValue node prop.name)
      (checkLength (· ≤ max) "runtime.cypher.shacl.max_length_violation")
  | .hasValue target expected =>
    onValue target prop (lookupPropertyValue node prop.name) (checkHasValue expected)
  | .maxCount target max =>
    onValue target prop (lookupPropertyValue node prop.name) fun raw =>
      some (match parseListLiteral raw with
        | none => .undecided
        | some items =>
          .test (items.length ≤ max) "runtime.cypher.shacl.max_count_violation")
  | .closed .. | .disjoint .. | .uniqueKey .. | .uniqueLang .. | .qualifiedValueShape .. =>
    some .undecided
  | .or _ | .and _ | .not _ | .xone _ => some .undecided

def report (rule : RuleDef) (prop : PropertyDef) : Outcome → List ValidationIssue
  | .holds | .undecided => []
  | .violated codes => codes.map fun code => buildIssue rule code prop.name.val
  | .skipped code => [noteIssue rule code prop.name.val]

def checkLeaf (rule : RuleDef) (prop : PropertyDef) (node : NodePattern) (c : ShaclConstraint) :
    Option (List ValidationIssue) :=
  (v.leafOutcome regex prop node c).map (report rule prop)

mutual
def checkPropertyConstraint (rule : RuleDef) (prop : PropertyDef) (node : NodePattern) :
    ShaclConstraint → Option (List ValidationIssue)
  | .or branches =>
    if branches.isEmpty then
      some [buildIssue rule "runtime.cypher.shacl.or_empty_branches" prop.name.val]
    else do
      if ← anyAccepts rule prop node branches then return []
      return [buildIssue rule "runtime.cypher.shacl.or_no_branch_satisfied" prop.name.val]
  | .and branches => checkBranches rule prop node branches
  | .not inner => do
    let innerIssues ← checkPropertyConstraint rule prop node inner
    if innerIssues.isEmpty then
      return [buildIssue rule "runtime.cypher.shacl.not_violation" prop.name.val]
    return []
  | .xone branches =>
    if branches.isEmpty then
      some [buildIssue rule "runtime.cypher.shacl.xone_empty_branches" prop.name.val]
    else do
      let accepted ← countAccepted rule prop node branches
      if accepted = 1 then return []
      return [buildIssue rule "runtime.cypher.shacl.xone_violation" prop.name.val]
  | c => v.checkLeaf regex rule prop node c

/-- The loop of `Or`: it stops at the first branch without issues. -/
def anyAccepts (rule : RuleDef) (prop : PropertyDef) (node : NodePattern) :
    List ShaclConstraint → Option Bool
  | [] => some false
  | branch :: branches => do
    let issues ← checkPropertyConstraint rule prop node branch
    if issues.isEmpty then return true
    anyAccepts rule prop node branches

/-- The loop of `And`. -/
def checkBranches (rule : RuleDef) (prop : PropertyDef) (node : NodePattern) :
    List ShaclConstraint → Option (List ValidationIssue)
  | [] => some []
  | branch :: branches => do
    let issues ← checkPropertyConstraint rule prop node branch
    let rest ← checkBranches rule prop node branches
    return issues ++ rest

/-- The loop of `Xone`. -/
def countAccepted (rule : RuleDef) (prop : PropertyDef) (node : NodePattern) :
    List ShaclConstraint → Option Nat
  | [] => some 0
  | branch :: branches => do
    let issues ← checkPropertyConstraint rule prop node branch
    let accepted ← countAccepted rule prop node branches
    return if issues.isEmpty then accepted + 1 else accepted
end

def disjointTargetProperty : ConstraintTarget → Option PropertyId
  | .property _ propertyId => some propertyId
  | .inherit | .nodeType _ | .edgeLabel _ => none

/-- The pair of written values of `Disjoint`. -/
def disjointValues (nodeType : NodeTypeDef) (node : NodePattern) (a b : ConstraintTarget) :
    Option (PropertyDef × Text × Text) := do
  let aProp ← propertyById nodeType (← disjointTargetProperty a)
  let bProp ← propertyById nodeType (← disjointTargetProperty b)
  return (aProp, ← lookupPropertyValue node aProp.name, ← lookupPropertyValue node bProp.name)

local instance lawfulKeys : LawfulBEq Text := inferInstance

def checkNodeLevelConstraint (rule : RuleDef) (nodeType : NodeTypeDef) (node : NodePattern) :
    ShaclConstraint → Option (List ValidationIssue)
  | .closed _ allowedProperties =>
    let allowed := allowedProperties.map (·.val.toList) ++
      nodeType.properties.map (·.name.val.toList)
    some ((node.properties.filter fun p => p.1 ∉ allowed).map fun p =>
      buildIssue rule "runtime.cypher.shacl.closed_shape_extra_property" (ofList p.1))
  | .disjoint a b =>
    match disjointValues nodeType node a b with
    | none => some []
    | some (aProp, x, y) =>
      match parseStringLiteral x, parseStringLiteral y with
      | .panics, _ | _, .panics => none
      | .literal s, .literal t =>
        some (if s = t then
          [buildIssue rule "runtime.cypher.shacl.disjoint_pair_present" aProp.name.val]
        else [])
      | _, _ => some []
  | .uniqueKey targetNodeTypeId propertyKeys =>
    if targetNodeTypeId ≠ nodeType.id then some []
    else some ((propertyKeys.filter fun key =>
      !nodeType.properties.any (·.name = key)).map fun key =>
        buildIssue rule "runtime.cypher.shacl.unique_key_unknown_property" key.val)
  | .uniqueLang target =>
    match disjointTargetProperty target with
    | none => some []
    | some propId =>
      match propertyById nodeType propId with
      | none => some []
      | some prop =>
        some (if prop.isLocalized then []
        else [noteIssue rule "runtime.cypher.shacl.unique_lang_on_non_localized"
          prop.name.val])
  | _ => some []

def collect {α : Type} (check : α → Option (List ValidationIssue)) :
    List α → Option (List ValidationIssue)
  | [] => some []
  | a :: as => do
    let issues ← check a
    let rest ← collect check as
    return issues ++ rest

/-! ## Clauses -/

/-- One rule on a pattern of a node type, as `validate_node` has it. -/
def validateRule (node : NodePattern) (nodeType : NodeTypeDef) (rule : RuleDef) :
    Option (List ValidationIssue) :=
  match rule.kind with
  | .nodeShape targetNodeTypeId =>
    if targetNodeTypeId = nodeType.id then
      collect (checkNodeLevelConstraint rule nodeType node) rule.constraints
    else some []
  | .propertyShape targetNodeTypeId targetPropertyId =>
    if targetNodeTypeId ≠ nodeType.id then some []
    else match propertyById nodeType targetPropertyId with
      | none => some []
      | some prop =>
        collect (fun c => do
          let issues ← v.checkPropertyConstraint regex rule prop node c
          let rest ← checkNodeLevelConstraint rule nodeType node c
          return issues ++ rest) rule.constraints
  | .edgeShape _ | .crossEntityShape _ | .stateMachine _ _ _ => some []

def nodeTypeOf (label : Text) : Option NodeTypeDef :=
  (GraphLabel.new (ofList label)).bind v.ontology.nodeByLabel

def validateNode (rules : List RuleDef) (node : NodePattern) : Option (List ValidationIssue) :=
  collect (fun label =>
    match v.nodeTypeOf label with
    | none => some []
    | some nodeType => collect (v.validateRule regex node nodeType) rules) node.labels

/-- The property a clause names by its key, on one of the types of its variable. -/
def propertyOf (label property : Text) : Option (NodeTypeDef × PropertyDef) := do
  let nodeType ← v.nodeTypeOf label
  let prop ← nodeType.properties.find? fun p => p.name.val.toList = property
  return (nodeType, prop)

def shapeConstraints (rules : List RuleDef) (nodeType : NodeTypeDef) (prop : PropertyDef) :
    List (RuleDef × ShaclConstraint) :=
  rules.flatMap fun rule =>
    match rule.kind with
    | .propertyShape targetNodeTypeId targetPropertyId =>
      if targetNodeTypeId = nodeType.id ∧ targetPropertyId = prop.id then
        rule.constraints.map fun c => (rule, c)
      else []
    | _ => []

/-- `validate_set_item`; `labels` are those of its variable. -/
def validateSetItem (rules : List RuleDef) (labels : List Text) (item : SetItem) :
    Option (List ValidationIssue) :=
  let synth : NodePattern :=
    ⟨some item.variableName, labels, [(item.property, item.valueText)], item.span⟩
  collect (fun label =>
    match v.propertyOf label item.property with
    | none => some []
    | some (nodeType, prop) =>
      collect (fun rc => v.checkPropertyConstraint regex rc.1 prop synth rc.2)
        (shapeConstraints rules nodeType prop)) labels

/-- The check of `validate_remove_item` on one constraint. -/
def checkRemoved (prop : PropertyDef) (rule : RuleDef) : ShaclConstraint → List ValidationIssue
  | .minCount target min =>
    if min = 0 ∨ !targetMatchesProperty target prop then []
    else [buildIssue rule "runtime.cypher.shacl.min_count_removed" prop.name.val]
  | _ => []

/-- `validate_remove_item`; `labels` are those of its variable. -/
def validateRemoveItem (rules : List RuleDef) (labels : List Text) (item : RemoveItem) :
    List ValidationIssue :=
  labels.flatMap fun label =>
    match v.propertyOf label item.property with
    | none => []
    | some (nodeType, prop) =>
      (shapeConstraints rules nodeType prop).flatMap fun rc => checkRemoved prop rc.1 rc.2

end ShaclValidator

def CypherClause.nodes (c : CypherClause) : List NodePattern :=
  (c.patterns.flatMap (·.elements)).filterMap fun
    | .node n => some n
    | .relationship _ => none

/-- `variable_labels`: the labels of a variable, each at its first occurrence; `none`
for a variable that no pattern binds. -/
def CypherStatement.variableLabels (s : CypherStatement) (name : Text) : Option (List Text) :=
  let nodes := ((s.clauses.filter fun c => c.isMatch || c.isCreate).flatMap (·.nodes)).filter
    (·.variableName = some name)
  if nodes.isEmpty then none else some (nodes.flatMap (·.labels)).eraseDups

namespace ShaclValidator

variable (regex : Regex) (v : ShaclValidator)

def activeRules : List RuleDef :=
  (v.ontology.rules ++ v.derivedRules).filter fun r =>
    r.enforcement = .write && r.activation = .always

def validateClause (statement : CypherStatement) (clause : CypherClause) :
    Option (List ValidationIssue) :=
  match clause.kind with
  | .create | .merge => collect (v.validateNode regex v.activeRules) clause.nodes
  | .set =>
    collect (fun item =>
      match statement.variableLabels item.variableName with
      | none => some []
      | some labels => v.validateSetItem regex v.activeRules labels item) clause.setItems
  | .remove =>
    some (clause.removeItems.flatMap fun item =>
      match statement.variableLabels item.variableName with
      | none => []
      | some labels => v.validateRemoveItem v.activeRules labels item)
  | _ => some []

def validate (ast : CypherAst) : Option (List ValidationIssue) :=
  collect (fun statement => collect (v.validateClause regex statement) statement.clauses)
    ast.statements

/-- `ShaclValidator::new`. -/
def new (ontology : OntologyIR) : ShaclValidator where
  ontology := ontology
  derivedRules := ontology.deriveImplicitRules
  valueSetCodes id :=
    (ontology.valueSets.reverse.find? (·.id = id)).map fun vs =>
      expandValueSet regex vs ontology.codeSystems

end ShaclValidator

end Ontosyx.Cypher
