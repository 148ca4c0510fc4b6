import Ontosyx.Ontology.IR

/-!
# Diagnostics and dangling references

`DiagnosticMessage` keeps the stable code and the parameters of a diagnostic;
the English rendering is a function of the two and is left out.
`dangling_references` walks the optional id pointers of properties, rules,
value sets and concept maps, and reports every pointer whose target is missing
from its registry.
-/

namespace Ontosyx.Ontology

open Ontosyx.Core Lib.Keyed

/-- A structured diagnostic: a stable code and its parameters. -/
structure DiagnosticMessage where
  code : String
  params : List (String × String) := []
deriving DecidableEq

/-- `diag(code).with(…)`, pushed when the condition holds. -/
def reportIf (p : Prop) [Decidable p] (code : String) (params : List (String × String)) :
    List DiagnosticMessage :=
  if p then [⟨code, params⟩] else []

@[simp] theorem reportIf_nil_iff {p : Prop} [Decidable p] {code : String}
    {params : List (String × String)} : reportIf p code params = [] ↔ ¬p := by
  by_cases hp : p <;> simp [reportIf, hp]

/-! ## Dangling references -/

/-- Where a dangling pointer lives. -/
inductive RegistrySite where
  | property (ownerLabel propertyName field : String)
  | rule (ruleName constraintKind : String)
  | valueSet (valueSetName : String) (ruleIndex : Nat)
  | conceptMap (conceptMapName field : String)
  | conceptMapMapping (conceptMapName : String) (mappingIndex : Nat) (field : String)
deriving DecidableEq

/-- The kind of collection a pointer should have landed in. -/
inductive DanglingKind where
  | concept
  | valueSet
  | notationPattern
  | valueRangeSet
  | codeSystem
  | codedValue
  | code
  | conceptMap
deriving DecidableEq

structure DanglingReference where
  source : RegistrySite
  kind : DanglingKind
  missingId : String
deriving DecidableEq

/-- A pointer that is pushed when its target is missing. -/
def danglingIf (p : Prop) [Decidable p] (source : RegistrySite) (kind : DanglingKind)
    (missingId : String) : List DanglingReference :=
  if p then [⟨source, kind, missingId⟩] else []

namespace OntologyIR

def checkBindingConceptMap (o : OntologyIR) (site : String → RegistrySite)
    (conceptMapId : Option ConceptMapId) : List DanglingReference :=
  match conceptMapId with
  | some id =>
    danglingIf (id ∉ o.conceptMaps.map (·.id)) (site "bindings.concept_map_id") .conceptMap
      id.val
  | none => []

def codedValueExists (o : OntologyIR) (id : CodedValueId) : Bool :=
  o.codeSystems.any fun cs => cs.codes.any fun cv => cv.id = id

/-- One binding in `property_pointer_walk`. -/
def bindingPointers (o : OntologyIR) (site : String → RegistrySite) :
    PropertyBinding → List DanglingReference
  | .concept id _ _ =>
    danglingIf (id ∉ o.concepts.map (·.id)) (site "bindings.concept") .concept id.val
  | .valueSet id _ conceptMapId _ _ =>
    danglingIf (id ∉ o.valueSets.map (·.id)) (site "bindings.value_set") .valueSet id.val ++
      o.checkBindingConceptMap site conceptMapId
  | .notationPattern id _ _ _ =>
    danglingIf (id ∉ o.notationPatterns.map (·.id)) (site "bindings.notation_pattern")
      .notationPattern id.val
  | .valueRange id _ _ =>
    danglingIf (id ∉ o.valueRangeSets.map (·.id)) (site "bindings.value_range")
      .valueRangeSet id.val
  | .codeSystem id _ conceptMapId _ _ =>
    danglingIf (id ∉ o.codeSystems.map (·.id)) (site "bindings.code_system") .codeSystem
      id.val ++
      o.checkBindingConceptMap site conceptMapId

def propertyPointerWalk (o : OntologyIR) (ownerLabel : String) (p : PropertyDef) :
    List DanglingReference :=
  let site (field : String) : RegistrySite := .property ownerLabel p.name.val field
  p.bindings.flatMap (o.bindingPointers site) ++
    match p.unitId with
    | some uid => danglingIf (!o.codedValueExists uid) (site "unit_id") .codedValue uid.val
    | none => []

def constraintKindStatic : ShaclConstraint → String
  | .inValueSet .. => "InValueSet"
  | .matchesPattern .. => "MatchesPattern"
  | .lessThan .. => "LessThan"
  | .equals .. => "Equals"
  | _ => "Other"

def rulePointerWalk (o : OntologyIR) (rule : RuleDef) : List DanglingReference :=
  rule.constraints.flatMap fun constraint =>
    let site : RegistrySite := .rule rule.name.default (constraintKindStatic constraint)
    constraint.referencedIds.flatMap fun
      | .valueSet id => danglingIf (id ∉ o.valueSets.map (·.id)) site .valueSet id.val
      | .notationPattern id =>
        danglingIf (id ∉ o.notationPatterns.map (·.id)) site .notationPattern id.val
      | .propertyId _ => []

def valueSetCompositionWalk (o : OntologyIR) (vs : ValueSetDef) : List DanglingReference :=
  vs.composition.zipIdx.flatMap fun (rule, idx) =>
    let site : RegistrySite := .valueSet vs.name idx
    match last (·.id) rule.systemId o.codeSystems with
    | none => [⟨site, .codeSystem, rule.systemId.val⟩]
    | some system =>
      match rule.selector with
      | .explicit codes =>
        codes.flatMap fun code => danglingIf (code ∉ system.codes.map (·.code)) site .code code
      | .descendantsOf rootId =>
        danglingIf (rootId ∉ system.codes.map (·.id)) site .codedValue rootId.val
      | .all | .codePattern _ => []

/-- The codes of one end of a concept map, checked for one mapping. -/
def mappingCode (cm : ConceptMapDef) (idx : Nat) (field code : String) :
    Option CodeSystemDef → List DanglingReference
  | some system =>
    danglingIf (code ∉ system.codes.map (·.code)) (.conceptMapMapping cm.name idx field) .code
      code
  | none => []

def conceptMapWalk (o : OntologyIR) (cm : ConceptMapDef) : List DanglingReference :=
  let sourceSystem := last (·.id) cm.sourceSystemId o.codeSystems
  let targetSystem := last (·.id) cm.targetSystemId o.codeSystems
  danglingIf sourceSystem.isNone (.conceptMap cm.name "source_system_id") .codeSystem
    cm.sourceSystemId.val ++
  danglingIf targetSystem.isNone (.conceptMap cm.name "target_system_id") .codeSystem
    cm.targetSystemId.val ++
  cm.mappings.zipIdx.flatMap fun (mapping, idx) =>
    mappingCode cm idx "source_code" mapping.sourceCode sourceSystem ++
    mappingCode cm idx "target_code" mapping.targetCode targetSystem

def registryPointers (o : OntologyIR) : List DanglingReference :=
  o.rules.flatMap o.rulePointerWalk ++
  o.valueSets.flatMap o.valueSetCompositionWalk ++
  o.conceptMaps.flatMap o.conceptMapWalk

def danglingReferences (o : OntologyIR) : List DanglingReference :=
  (o.nodeTypes.flatMap fun n => n.properties.flatMap (o.propertyPointerWalk n.label.val)) ++
  (o.edgeTypes.flatMap fun e => e.properties.flatMap (o.propertyPointerWalk e.label.val)) ++
  o.registryPointers

end OntologyIR

namespace DanglingReference

/-- The `kind` parameter. -/
def kindText (r : DanglingReference) : String :=
  match r.kind with
  | .concept => "concept"
  | .valueSet => "value_set"
  | .notationPattern => "notation_pattern"
  | .valueRangeSet => "value_range_set"
  | .codeSystem => "code_system"
  | .codedValue => "coded_value"
  | .code => "code"
  | .conceptMap => "concept_map"

def siteParams (r : DanglingReference) : List (String × String) :=
  match r.source with
  | .property ownerLabel propertyName field =>
    [("site_kind", "property"), ("owner_label", ownerLabel), ("property_name", propertyName),
     ("field", field)]
  | .rule ruleName constraintKind =>
    [("site_kind", "rule"), ("rule_name", ruleName), ("constraint_kind", constraintKind)]
  | .valueSet valueSetName ruleIndex =>
    [("site_kind", "value_set"), ("value_set_name", valueSetName),
     ("rule_index", toString ruleIndex)]
  | .conceptMap conceptMapName field =>
    [("site_kind", "concept_map"), ("concept_map_name", conceptMapName), ("field", field)]
  | .conceptMapMapping conceptMapName mappingIndex field =>
    [("site_kind", "concept_map_mapping"), ("concept_map_name", conceptMapName),
     ("mapping_index", toString mappingIndex), ("field", field)]

/-- One diagnostic of `render_dangling_references`. -/
def render (r : DanglingReference) : DiagnosticMessage :=
  ⟨"ontology.validate.integrity.dangling_" ++ r.kindText,
   r.siteParams ++ [("kind", r.kindText), ("missing_id", r.missingId)]⟩

end DanglingReference

def renderDanglingReferences (refs : List DanglingReference) : List DiagnosticMessage :=
  refs.map DanglingReference.render

@[simp] theorem renderDangling_nil_iff {refs : List DanglingReference} :
    renderDanglingReferences refs = [] ↔ refs = [] := List.map_eq_nil_iff

end Ontosyx.Ontology
