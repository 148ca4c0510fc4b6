import Ontosyx.Core.Types
import Ontosyx.Ontology.Ids

/-!
# Node types, edge types and their properties

The structural half of an ontology (`ir/types.rs`): property definitions,
storage-engine constraints, node and edge types, and indexes.  Entities carry
stable ids and refer to each other by id, so a rename never breaks a
reference.
-/

namespace Ontosyx.Ontology

open Ontosyx.Core

abbrev DateTime := Int

/-- How strictly a binding's target governs the values of a property. -/
inductive BindingStrength where
  | required
  | preferred
  | extensible
  | example_
deriving DecidableEq

/-- A binding of a property to a registry entry, with its temporal window. -/
inductive PropertyBinding where
  | valueSet (id : ValueSetId) (strength : BindingStrength) (conceptMapId : Option ConceptMapId)
      (validFrom validTo : Option DateTime)
  | codeSystem (id : CodeSystemId) (strength : BindingStrength)
      (conceptMapId : Option ConceptMapId) (validFrom validTo : Option DateTime)
  | notationPattern (id : NotationPatternId) (strength : BindingStrength)
      (validFrom validTo : Option DateTime)
  | valueRange (id : ValueRangeSetId) (validFrom validTo : Option DateTime)
  | concept (id : ConceptId) (validFrom validTo : Option DateTime)
deriving DecidableEq

namespace PropertyBinding

def strength : PropertyBinding → BindingStrength
  | valueSet _ strength _ _ _ | codeSystem _ strength _ _ _
  | notationPattern _ strength _ _ => strength
  | valueRange .. | concept .. => .preferred

def conceptMapId : PropertyBinding → Option ConceptMapId
  | valueSet _ _ conceptMapId _ _ | codeSystem _ _ conceptMapId _ _ => conceptMapId
  | notationPattern .. | valueRange .. | concept .. => none

end PropertyBinding

/-! ## Properties -/

/-- Sensitivity level of a property. -/
inductive DataClassification where
  | «public»
  | internal
  | confidential
  | restricted
deriving DecidableEq

/-- Higher-level meaning of a property's values. -/
inductive SemanticType where
  | email
  | phone
  | url
  | address
  | coordinate
  | currency
  | percentage
  | iso8601
  | localizedText
  | other (name : String)
deriving DecidableEq

/-- Classification of personally identifiable information. -/
inductive PiiKind where
  | name
  | dateOfBirth
  | nationalId (country : String)
  | passport
  | driversLicense
  | email
  | phone
  | address
  | ipAddress
  | paymentCardNumber
  | bankAccountNumber
  | iban
  | creditCard
  | ssn
  | medicalRecordNumber
  | insuranceId
  | biometric
  | geoLocation
  | password
  | token
  | custom (scheme : String)
deriving DecidableEq

inductive AggregationRole where
  | measure
  | dimension
  | «attribute»
  | identifier
deriving DecidableEq

/-- Why a mapped property may do without a semantic binding. -/
inductive BindingExemptReason where
  | primaryKey
  | auditTimestamp
  | opaqueIdentifier
  | custom (reason : String)
deriving DecidableEq

/-- A property of a node or edge type. -/
structure PropertyDef where
  id : PropertyId
  name : PropertyKey
  displayName : LocalizedText := .empty
  propertyType : PropertyType
  nullable : Bool := false
  defaultValue : Option PropertyValue := none
  description : LocalizedText := .empty
  minCount : Option Nat := none
  maxCount : Option Nat := none
  isLocalized : Bool := false
  classification : Option DataClassification := none
  semanticType : Option SemanticType := none
  unitId : Option CodedValueId := none
  piiKind : Option PiiKind := none
  sourceColumn : Option String := none
  transform : Option String := none
  deprecatedAt : Option DateTime := none
  replacedById : Option PropertyId := none
  aliases : List LocalizedText := []
  businessContext : LocalizedText := .empty
  derivedFrom : Option FunctionId := none
  bindings : List PropertyBinding := []
  aggregationRole : Option AggregationRole := none
  bindingExempt : Option BindingExemptReason := none

/-- A storage-engine constraint on the properties of a node type. -/
inductive NodeConstraint where
  | unique (propertyIds : List PropertyId)
  | exists_ (propertyId : PropertyId)
  | nodeKey (propertyIds : List PropertyId)
deriving DecidableEq

structure ConstraintDef where
  id : ConstraintId
  constraint : NodeConstraint
deriving DecidableEq

structure SourceLineage where
  sourceId : Option String
  table : String
  primaryKey : List String
deriving DecidableEq

/-- Governance metadata of a node type. -/
structure Governance where
  ownerPrincipal : Option String
  steward : Option String
  tags : List String
  retentionDays : Option Nat
deriving DecidableEq

/-- The part an additional concept plays for a type. -/
inductive ConceptRealizationRole where
  | secondary
  | classification
  | interface
  | analytical
deriving DecidableEq

/-- An additional concept that a type realises. -/
structure ConceptRealization where
  conceptId : ConceptId
  role : ConceptRealizationRole
deriving DecidableEq

structure NodeTypeDef where
  id : NodeTypeId
  label : GraphLabel
  displayName : LocalizedText := .empty
  description : LocalizedText := .empty
  properties : List PropertyDef := []
  constraints : List ConstraintDef := []
  governance : Option Governance := none
  sourceLineage : Option SourceLineage := none
  deprecatedAt : Option DateTime := none
  replacedById : Option NodeTypeId := none
  implements : List InterfaceId := []
  actions : List ActionId := []
  metrics : List MetricId := []
  rules : List RuleId := []
  conceptId : Option ConceptId := none
  conceptRealizations : List ConceptRealization := []

/-! ## Edge types -/

inductive Cardinality where
  | oneToOne
  | oneToMany
  | manyToOne
  | manyToMany
deriving DecidableEq

namespace Cardinality

/-- The derived `Debug` text. -/
def debug : Cardinality → String
  | oneToOne => "OneToOne"
  | oneToMany => "OneToMany"
  | manyToOne => "ManyToOne"
  | manyToMany => "ManyToMany"

theorem debug_injective : Function.Injective debug := by
  intro a b
  cases a <;> cases b <;> decide

/-- `source_is_singular`: at most one source node for each relation instance. -/
def sourceIsSingular : Cardinality → Bool
  | oneToOne | oneToMany => true
  | manyToOne | manyToMany => false

end Cardinality

/-- Part-whole classification of an edge. -/
inductive EdgeKind where
  | association
  | composition
  | aggregation
deriving DecidableEq

structure EdgeTypeDef where
  id : EdgeTypeId
  label : GraphLabel
  displayName : LocalizedText := .empty
  description : LocalizedText := .empty
  sourceNodeId : NodeTypeId
  targetNodeId : NodeTypeId
  sourceRole : Option String := none
  targetRole : Option String := none
  properties : List PropertyDef := []
  cardinality : Cardinality := .manyToMany
  inverseOf : Option EdgeTypeId := none
  tags : List String := []
  deprecatedAt : Option DateTime := none
  replacedById : Option EdgeTypeId := none
  kind : EdgeKind := .association
  conceptId : Option ConceptId := none
  conceptRealizations : List ConceptRealization := []

inductive PropertyOwner where
  | node (typeId : NodeTypeId)
  | edge (typeId : EdgeTypeId)
deriving DecidableEq

inductive VectorSimilarity where
  | cosine
  | euclidean
deriving DecidableEq

/-- An index over properties of one node type. -/
inductive IndexDef where
  | single (id : String) (nodeId : NodeTypeId) (propertyId : PropertyId)
  | composite (id : String) (nodeId : NodeTypeId) (propertyIds : List PropertyId)
  | fullText (id : String) (name : GraphLabel) (nodeId : NodeTypeId)
      (propertyIds : List PropertyId)
  | vector (id : String) (nodeId : NodeTypeId) (propertyId : PropertyId) (dimensions : Nat)
      (similarity : VectorSimilarity)
deriving DecidableEq

end Ontosyx.Ontology
