import Ontosyx.Ontology.Mapping

/-!
# Registries around the schema

The collections an ontology carries beside its node and edge types: rules and
actions, the concept layer with its glossary, and the terminology registries
(code systems, value sets, notation patterns, concept maps).  A definition
keeps the fields that validation, referential integrity and the lookup indices
read.
-/

namespace Ontosyx.Ontology

open Ontosyx.Core

/-! ## Collections that point at types -/

/-- An edge type an implementer must connect through, with its optional pin. -/
structure InterfaceEdge where
  label : GraphLabel
  asSource : Bool := false
  expectedEdgeTypeId : Option EdgeTypeId := none

/-- An interface a node type can implement. -/
structure InterfaceDef where
  id : InterfaceId
  requiredEdges : List InterfaceEdge := []

structure PropertyDependency where
  nodeTypeId : NodeTypeId
  propertyId : PropertyId

/-- A function a property can be derived from. -/
structure FunctionDef where
  id : FunctionId
  propertyDependencies : List PropertyDependency := []
  edgeDependencies : List EdgeTypeId := []

inductive MetricScope where
  | nodeType (nodeTypeId : NodeTypeId)
  | edgeType (edgeTypeId : EdgeTypeId)
  | global

structure MetricDef where
  id : MetricId
  targetScope : MetricScope

structure EnrichmentDef where
  id : EnrichmentId
  name : String
  targetNodeTypeId : NodeTypeId
  joinKeyPropertyId : PropertyId
  targetPropertyId : PropertyId

inductive DataQualityTarget where
  | nodeType (nodeTypeId : NodeTypeId)
  | property (nodeTypeId : NodeTypeId) (propertyId : PropertyId)

structure DataQualityDef where
  id : DataQualityId
  target : DataQualityTarget

structure ProvenanceDef where
  id : ProvenanceId

/-! ## Value ranges and column profiles -/

/-- One interval of a value range set; a missing bound is unbounded. -/
structure ValueBand where
  min : Option F64 := none
  max : Option F64 := none
  inclusiveMin : Bool := false
  inclusiveMax : Bool := false

/-- A set of numeric interpretive bands. -/
structure ValueRangeSetDef where
  id : ValueRangeSetId
  bands : List ValueBand := []

/-- Kind of sensitive data a redacted column is suspected to hold. -/
inductive PiiSuspectKind where
  | email
  | phone
  | name
  | address
  | nationalId
  | paymentCard
  | password
  | token
  | other (name : String)
deriving DecidableEq

structure ColumnStats where
  columnName : String
  nullCount : Nat
  distinctCount : Nat
  sampleValues : List String := []
  minValue : Option String := none
  maxValue : Option String := none
  piiRedacted : Option PiiSuspectKind := none
deriving DecidableEq

structure TableProfile where
  tableName : String
  rowCount : Nat := 0
  columnStats : List ColumnStats
deriving DecidableEq

structure SourceProfile where
  tableProfiles : List TableProfile
deriving DecidableEq

/-- A distribution snapshot of one source column. -/
structure ColumnProfileDef where
  id : ColumnProfileId
  sourceId : SourceId
  relation : String
  column : String
  stats : ColumnStats
  sampledAt : DateTime
deriving DecidableEq

def ColumnProfileDef.makeId (sourceId : SourceId) (relation column : String) : ColumnProfileId :=
  ⟨"cp:" ++ sourceId.val ++ ":" ++ relation ++ ":" ++ column⟩

def profileToColumnDefs (sourceId : SourceId) (profile : SourceProfile) (sampledAt : DateTime) :
    List ColumnProfileDef :=
  profile.tableProfiles.flatMap fun table =>
    table.columnStats.map fun stats =>
      { id := ColumnProfileDef.makeId sourceId table.tableName stats.columnName
        sourceId := sourceId
        relation := table.tableName
        column := stats.columnName
        stats := stats
        sampledAt := sampledAt }

/-! ## Rules and actions -/

inductive ConstraintTarget where
  | inherit
  | property (nodeTypeId : NodeTypeId) (propertyId : PropertyId)
  | nodeType (nodeTypeId : NodeTypeId)
  | edgeLabel (label : GraphLabel)
deriving DecidableEq

inductive ShaclConstraint where
  | minCount (target : ConstraintTarget) (min : Nat)
  | maxCount (target : ConstraintTarget) (max : Nat)
  | datatype (target : ConstraintTarget) (expected : PropertyType)
  | matchesPattern (target : ConstraintTarget) (notationPatternId : NotationPatternId)
  | inValueSet (target : ConstraintTarget) (valueSetId : ValueSetId)
  | hasValue (target : ConstraintTarget) (value : String)
  | minInclusive (target : ConstraintTarget) (min : F64)
  | maxInclusive (target : ConstraintTarget) (max : F64)
  | minLength (target : ConstraintTarget) (min : Nat)
  | maxLength (target : ConstraintTarget) (max : Nat)
  | uniqueLang (target : ConstraintTarget)
  | closed (target : ConstraintTarget) (allowedProperties : List PropertyKey)
  | disjoint (a b : ConstraintTarget)
  | uniqueKey (targetNodeTypeId : NodeTypeId) (propertyKeys : List PropertyKey)
  | lessThan (target : ConstraintTarget) (otherProperty : PropertyId)
  | equals (target : ConstraintTarget) (otherProperty : PropertyId)
  | or (branches : List ShaclConstraint)
  | and (branches : List ShaclConstraint)
  | not (inner : ShaclConstraint)
  | xone (branches : List ShaclConstraint)
  | qualifiedValueShape (shape : ShaclConstraint)
      (qualifiedMinCount qualifiedMaxCount : Option Nat)

/-- One id reference owned by a constraint. -/
inductive ConstraintRef where
  | valueSet (id : ValueSetId)
  | notationPattern (id : NotationPatternId)
  | propertyId (id : PropertyId)
deriving DecidableEq

mutual
/-- `referenced_ids`: every id a constraint refers to, its branches included. -/
def ShaclConstraint.referencedIds : ShaclConstraint → List ConstraintRef
  | .inValueSet _ id => [.valueSet id]
  | .matchesPattern _ id => [.notationPattern id]
  | .lessThan _ other | .equals _ other => [.propertyId other]
  | .or branches | .and branches | .xone branches => referencedIdsAll branches
  | .not inner => inner.referencedIds
  | .qualifiedValueShape shape _ _ => shape.referencedIds
  | .minCount .. | .maxCount .. | .datatype .. | .hasValue .. | .minInclusive ..
  | .maxInclusive .. | .minLength .. | .maxLength .. | .uniqueLang .. | .closed ..
  | .disjoint .. | .uniqueKey .. => []

/-- `referencedIds` of the branches of a combinator, in order. -/
def ShaclConstraint.referencedIdsAll : List ShaclConstraint → List ConstraintRef
  | [] => []
  | c :: cs => c.referencedIds ++ referencedIdsAll cs
end

/-- A step of a state machine rule. -/
structure StateTransition where
  «from» : Option String
  «to» : String
deriving DecidableEq

inductive RuleKind where
  | nodeShape (targetNodeTypeId : NodeTypeId)
  | propertyShape (targetNodeTypeId : NodeTypeId) (targetPropertyId : PropertyId)
  | edgeShape (targetEdgeTypeId : EdgeTypeId)
  | crossEntityShape (predicate : String)
  | stateMachine (targetNodeTypeId : NodeTypeId) (statePropertyId : PropertyId)
      (transitions : List StateTransition)
deriving DecidableEq

inductive RuleActivationKind where
  | always
  | onAction (actionId : ActionId)
  | onSchedule (cronExpression : String)
deriving DecidableEq

inductive RuleOrigin where
  | authored
  | derivedFromBinding (nodeTypeId : NodeTypeId) (propertyId : PropertyId)
  | importedFrom (catalog : String) (externalId : Option String)
  | llmProposed (promptId modelId : String) (acceptedAt : DateTime) (acceptedBy : String)
  | regulatory (jurisdiction : String) (citationUrl : Option String)
  | businessPolicy (policyId owner : String)
  | observedInvariant (confidenceBps sampleSize : Nat) (detectedAt : DateTime)
  | migratedFrom (previousId : RuleId) (migrationNote : String)
deriving DecidableEq

/-- How a failed rule is treated. -/
inductive Severity where
  | violation
  | warning
  | info
deriving DecidableEq

/-- When a rule runs. -/
inductive EnforcementKind where
  | write
  | read
  | batch
deriving DecidableEq

structure RuleDef where
  id : RuleId
  name : LocalizedText
  kind : RuleKind
  severity : Severity := .violation
  enforcement : EnforcementKind := .write
  activation : RuleActivationKind := .always
  origin : RuleOrigin := .authored
  constraints : List ShaclConstraint := []
  validFrom : Option DateTime := none
  validTo : Option DateTime := none

inductive ActionTarget where
  | nodeType (nodeTypeId : NodeTypeId)
  | edgeType (edgeTypeId : EdgeTypeId)

structure ActionDef where
  id : ActionId
  name : String
  target : ActionTarget
  preconditions : List RuleId := []
  postconditions : List RuleId := []

/-- How a concept is realised in the ontology. -/
inductive TermRealisation where
  | segment (segmentId : SegmentId)
  | function (functionId : FunctionId)
  | crossEntity (predicate : String)
deriving DecidableEq

inductive TermRelationKind where
  | broader
  | narrower
  | related
  | seeAlso
  | exactMatch
  | closeMatch
deriving DecidableEq

structure TermRelation where
  kind : TermRelationKind
  target : GlossaryTermId
deriving DecidableEq

inductive TermLifecycle where
  | active
  | deprecated (replacedBy : Option GlossaryTermId) (deprecatedAt : DateTime)
  | retired (retiredAt : DateTime)
deriving DecidableEq

structure GlossaryTermDef where
  id : GlossaryTermId
  term : LocalizedText := .empty
  displayName : LocalizedText := .empty
  aliases : List LocalizedText := []
  relatedTerms : List TermRelation := []
  lifecycle : TermLifecycle := .active
  conceptId : Option ConceptId := none

/-- A workspace-canonical business concept. -/
structure ConceptDef where
  id : ConceptId
  canonicalTermId : GlossaryTermId
  aliasTermIds : List GlossaryTermId := []
  broader : Option ConceptId := none
  realisation : Option TermRealisation := none
  replacedBy : Option ConceptId := none
  validFrom : Option DateTime := none
  validTo : Option DateTime := none

/-! ## Terminology -/

structure CodedValue where
  id : CodedValueId
  code : String
  display : LocalizedText := .empty
  definition : LocalizedText := .empty
  aliases : List String := []
  broaderId : Option CodedValueId := none
  examples : List LocalizedText := []
  scopeNote : LocalizedText := .empty
  validFrom : Option DateTime := none
  validTo : Option DateTime := none
  deprecatedAt : Option DateTime := none
  replacedById : Option CodedValueId := none
deriving DecidableEq

inductive CodeSystemKind where
  | internal
  | external (sourceRef : String)
deriving DecidableEq

structure CodeSystemDef where
  id : CodeSystemId
  kind : CodeSystemKind := .internal
  hierarchical : Bool := false
  codes : List CodedValue := []
  replacedById : Option CodeSystemId := none

/-- Which codes of a system an include rule selects. -/
inductive ValueSetSelector where
  | all
  | explicit (codes : List String)
  | descendantsOf (rootId : CodedValueId)
  | codePattern (pattern : String)
deriving DecidableEq

/-- Whether a rule adds codes or takes them away. -/
inductive IncludeMode where
  | include
  | exclude
deriving DecidableEq

structure ValueSetIncludeRule where
  systemId : CodeSystemId
  selector : ValueSetSelector
  mode : IncludeMode := .include
deriving DecidableEq

/-- A bounded subset of code systems. -/
structure ValueSetDef where
  id : ValueSetId
  name : String
  composition : List ValueSetIncludeRule := []

inductive NotationComponentKind where
  | codeFromSet (valueSetId : ValueSetId)
  | integerRange (min max : Int64) (width : Nat)
  | alphanumeric (width : Nat) (uppercase : Bool)
  | freeText (maxLen : Option Nat)
deriving DecidableEq

structure NotationComponent where
  name : String
  kind : NotationComponentKind

structure NotationPatternDef where
  id : NotationPatternId
  separator : String := ""
  components : List NotationComponent := []

/-- How a source code relates to a target code. -/
inductive Equivalence where
  | equivalent
  | narrowerThanTarget
  | broaderThanTarget
  | related
  | disjoint
deriving DecidableEq

structure ConceptMapping where
  sourceCode : String
  targetCode : String
  equivalence : Equivalence

/-- A translation between two code systems. -/
structure ConceptMapDef where
  id : ConceptMapId
  name : String
  sourceSystemId : CodeSystemId
  targetSystemId : CodeSystemId
  mappings : List ConceptMapping := []

inductive SegmentLiteral where
  | int (value : Int64)
  | float (value : F64)
  | string (value : String)
  | bool (value : Bool)
deriving DecidableEq

/-- A membership predicate over one node type. -/
inductive SegmentFilter where
  | and (children : List SegmentFilter)
  | or (children : List SegmentFilter)
  | not (inner : SegmentFilter)
  | equals (property : PropertyKey) (value : SegmentLiteral)
  | notEquals (property : PropertyKey) (value : SegmentLiteral)
  | greaterThan (property : PropertyKey) (value : SegmentLiteral)
  | greaterOrEqual (property : PropertyKey) (value : SegmentLiteral)
  | lessThan (property : PropertyKey) (value : SegmentLiteral)
  | lessOrEqual (property : PropertyKey) (value : SegmentLiteral)
  | in_ (property : PropertyKey) (values : List SegmentLiteral)
  | isNull (property : PropertyKey)

mutual
/-- `walk_properties`: the property names a filter mentions, in order. -/
def SegmentFilter.walkProperties : SegmentFilter → List PropertyKey
  | .and children | .or children => walkPropertiesAll children
  | .not inner => inner.walkProperties
  | .equals property _ | .notEquals property _ | .greaterThan property _
  | .greaterOrEqual property _ | .lessThan property _ | .lessOrEqual property _
  | .in_ property _ | .isNull property => [property]

/-- `walkProperties` along the children of a combinator. -/
def SegmentFilter.walkPropertiesAll : List SegmentFilter → List PropertyKey
  | [] => []
  | f :: fs => f.walkProperties ++ walkPropertiesAll fs
end

/-- A named membership predicate. -/
structure SegmentDef where
  id : SegmentId
  targetNodeTypeId : NodeTypeId
  filter : SegmentFilter

def SegmentDef.referencedProperties (s : SegmentDef) : List PropertyKey :=
  s.filter.walkProperties

/-- One table of a source, with the types it contributed. -/
structure TableInventoryEntry where
  sourceId : SourceId
  tableName : String
  contributedNodeIds : List NodeTypeId := []
  contributedEdgeIds : List EdgeTypeId := []

end Ontosyx.Ontology
