import Ontosyx.Ontology.Terminology

/-!
# Derived rules

`derive_implicit_rules` turns the promises of the schema into rules: a property that
is not nullable needs a value, and a `Required` binding to a value set or a notation
pattern restricts the values (`derived_rules.rs`).  A promise that an authored rule
covers already is not derived again; what covers it is decided by the signature of
the rule's constraints on the property they target.
-/

namespace Ontosyx.Ontology

open Ontosyx.Core

/-- What a constraint is compared by, for the kinds that can be derived. -/
inductive ConstraintSignature where
  | inValueSet (id : ValueSetId)
  | matchesPattern (id : NotationPatternId)
  | minCount
deriving DecidableEq

def ShaclConstraint.target : ShaclConstraint → Option ConstraintTarget
  | .minCount t _ | .maxCount t _ | .datatype t _ | .matchesPattern t _ | .inValueSet t _
  | .hasValue t _ | .minInclusive t _ | .maxInclusive t _ | .minLength t _ | .maxLength t _
  | .uniqueLang t | .closed t _ | .lessThan t _ | .equals t _ => some t
  | .disjoint .. | .uniqueKey .. | .or _ | .and _ | .not _ | .xone _
  | .qualifiedValueShape .. => none

def ShaclConstraint.signature : ShaclConstraint → Option ConstraintSignature
  | .inValueSet _ id => some (.inValueSet id)
  | .matchesPattern _ id => some (.matchesPattern id)
  | .minCount _ _ => some .minCount
  | _ => none

/-- `effective_property_target`: the property a constraint of a rule is meant for. -/
def effectivePropertyTarget (rule : RuleDef) (c : ShaclConstraint) :
    Option (NodeTypeId × PropertyId) :=
  match c.target with
  | some .inherit =>
    match rule.kind with
    | .propertyShape nodeTypeId propertyId => some (nodeTypeId, propertyId)
    | _ => none
  | some (.property nodeTypeId propertyId) => some (nodeTypeId, propertyId)
  | some (.nodeType _) | some (.edgeLabel _) | none => none

/-- The signature of a constraint, at the property it is meant for. -/
def signatureAt (rule : RuleDef) (c : ShaclConstraint) :
    Option (NodeTypeId × PropertyId × ConstraintSignature) := do
  let (nodeTypeId, propertyId) ← effectivePropertyTarget rule c
  return (nodeTypeId, propertyId, ← c.signature)

namespace OntologyIR

def authoredConstraintSignatures (o : OntologyIR) :
    List (NodeTypeId × PropertyId × ConstraintSignature) :=
  (o.rules.filter (·.origin = .authored)).flatMap fun rule =>
    rule.constraints.filterMap (signatureAt rule)

def ruleRedundantWithAuthored (o : OntologyIR) (rule : RuleDef) : Bool :=
  rule.constraints.any fun c => (signatureAt rule c).any (· ∈ o.authoredConstraintSignatures)

end OntologyIR

/-! ## Derivation -/

/-- `LocalizedText::bilingual`. -/
def bilingual (ko en : String) : LocalizedText :=
  ((LocalizedText.new ko).withTranslation ⟨"ko"⟩ ko).withTranslation ⟨"en"⟩ en

def derivedRuleName (node : NodeTypeDef) (prop : PropertyDef) : LocalizedText :=
  bilingual (node.label.val ++ "." ++ prop.name.val ++ " — 필수 바인딩 자동 적용")
    (node.label.val ++ "." ++ prop.name.val ++ " required-binding enforcement")

def derivedRule (node : NodeTypeDef) (prop : PropertyDef) (suffix : String)
    (c : ShaclConstraint) (validFrom validTo : Option DateTime) : RuleDef where
  id := ⟨"derived:binding:" ++ node.id.val ++ ":" ++ prop.id.val ++ ":" ++ suffix⟩
  name := derivedRuleName node prop
  kind := .propertyShape node.id prop.id
  severity := .violation
  enforcement := .write
  activation := .always
  origin := .derivedFromBinding node.id prop.id
  constraints := [c]
  validFrom := validFrom
  validTo := validTo

def deriveNullableRule (node : NodeTypeDef) (prop : PropertyDef) : Option RuleDef :=
  if prop.nullable then none
  else some (derivedRule node prop "nullable" (.minCount .inherit 1) none none)

def deriveBindingRule (node : NodeTypeDef) (prop : PropertyDef) : PropertyBinding → Option RuleDef
  | .valueSet id .required _ validFrom validTo =>
    some (derivedRule node prop ("value_set:" ++ id.val) (.inValueSet .inherit id) validFrom
      validTo)
  | .notationPattern id .required validFrom validTo =>
    some (derivedRule node prop ("notation_pattern:" ++ id.val) (.matchesPattern .inherit id)
      validFrom validTo)
  | _ => none

namespace OntologyIR

def deriveBindingRules (o : OntologyIR) : List RuleDef :=
  o.nodeTypes.flatMap fun node => node.properties.flatMap fun prop =>
    (prop.bindings.filterMap (deriveBindingRule node prop)).filter
      (!o.ruleRedundantWithAuthored ·)

def deriveNullableRules (o : OntologyIR) : List RuleDef :=
  o.nodeTypes.flatMap fun node =>
    (node.properties.filterMap (deriveNullableRule node)).filter (!o.ruleRedundantWithAuthored ·)

def deriveImplicitRules (o : OntologyIR) : List RuleDef :=
  o.deriveBindingRules ++ o.deriveNullableRules

end OntologyIR

end Ontosyx.Ontology
