import Ontosyx.Ontology.Schema

/-!
# Source mappings

How node and edge types are read from physical sources (`mapping/`): an object
mapping binds a node type to a relation of a source, a link mapping binds an
edge type to the relation that supplies its edges.
-/

namespace Ontosyx.Ontology

open Ontosyx.Core

structure ColumnRef where
  relation : String
  column : String
deriving DecidableEq

inductive SourceRelationKind where
  | table
  | view
  | collection
  | file
deriving DecidableEq

structure SourceRelationRef where
  sourceId : SourceId
  relation : String
  kind : SourceRelationKind := .table
deriving DecidableEq

/-- How a mapping's rows may be cached. -/
inductive CacheHintKind where
  | none
  | graphCache (ttlSeconds : Nat) (schedule : Option String)
deriving DecidableEq

/-- Where a property's value sits in a row. -/
inductive PropertyLocation where
  | column (ref : ColumnRef)
  | jsonPath (rootColumn path : String)
deriving DecidableEq

/-- What is done to the value on the way in. -/
inductive PropertyTransform where
  | identity
  | sqlExpr (expression : String)
  | derived (functionId : String)
  | concat (parts : List ColumnRef) (separator : String) (skipWhenNull : Bool)
deriving DecidableEq

structure PropertyMappingDef where
  propertyId : PropertyId
  propertyKey : PropertyKey
  location : PropertyLocation
  transform : PropertyTransform := .identity
  conceptMapId : Option ConceptMapId := none
deriving DecidableEq

/-- Binding of a node type to a relation of a source. -/
structure ObjectMappingDef where
  id : ObjectMappingId
  nodeTypeId : NodeTypeId
  sourceId : SourceId
  relation : String
  relationKind : SourceRelationKind := .table
  primaryKeyColumns : List ColumnRef := []
  rowFilter : Option String := none
  propertyMappings : List PropertyMappingDef := []
  partitionColumns : List ColumnRef := []
  workspaceScope : Option ColumnRef := none
  precedence : Nat := 0
  validFrom : Option DateTime := none
  validTo : Option DateTime := none
  cacheHint : CacheHintKind := .none
deriving DecidableEq

/-- One end of a link mapping. -/
structure EndpointRef where
  sourceId : SourceId
  relation : String
  keyColumns : List String := []
deriving DecidableEq

/-- Planner hint for a link's join. -/
inductive JoinCostHint where
  | unknown
  | indexed
  | scan
  | cartesian
deriving DecidableEq

/-- Multiplicity of the physical relationship. -/
inductive LinkCardinality where
  | oneToOne
  | oneToMany
  | manyToOne
  | manyToMany
deriving DecidableEq

inductive LinkMappingKind where
  | foreignKey (sourceColumn targetColumn : ColumnRef)
  | bridge (bridgeRelation : SourceRelationRef) (sourceJoin targetJoin : List ColumnRef)
      (bridgeWorkspaceScope : Option ColumnRef)
  | computed (predicate : String)
  | federated (sourceMatchColumn targetMatchColumn : ColumnRef)
deriving DecidableEq

/-- Binding of an edge type to the relations that supply its edges. -/
structure LinkMappingDef where
  id : LinkMappingId
  edgeTypeId : EdgeTypeId
  kind : LinkMappingKind
  sourceEndpoint : EndpointRef
  targetEndpoint : EndpointRef
  joinCostHint : JoinCostHint := .unknown
  precedence : Nat := 0
  cardinality : LinkCardinality := .manyToMany
deriving DecidableEq

end Ontosyx.Ontology
