import Ontosyx.Ontology.References

/-!
# The exchange format

`InputOntologyDef`, the form in which an ontology is exported, uploaded and
drafted, and `to_exchange_format`, which writes an ontology in it.  Nodes are
referred to by label and properties by name; of the object mappings a document
keeps one table for each node and one column for each property.

A map that the source fills in a loop is the list of its insertions, read with
`last`.
-/

namespace Ontosyx.Ontology

open Ontosyx.Core Lib.Keyed Prod

structure InputPropertyDef where
  id : Option String
  name : String
  propertyType : PropertyType
  nullable : Bool
  defaultValue : Option PropertyValue
  description : LocalizedText
  sourceColumn : Option String

/-- A constraint, which holds property names. -/
inductive InputNodeConstraint where
  | unique (id : Option String) (properties : List String)
  | exists_ (id : Option String) (property : String)
  | nodeKey (id : Option String) (properties : List String)
deriving DecidableEq

structure InputNodeTypeDef where
  id : Option String
  label : String
  description : LocalizedText
  sourceTable : Option String
  properties : List InputPropertyDef
  constraints : List InputNodeConstraint

/-- An edge type, whose ends are node labels (or ids). -/
structure InputEdgeTypeDef where
  id : Option String
  label : String
  description : LocalizedText
  sourceType : String
  targetType : String
  properties : List InputPropertyDef
  cardinality : Cardinality
  kind : EdgeKind

/-- An index, which holds a node label and property names. -/
inductive InputIndexDef where
  | single (id : Option String) (label property : String)
  | composite (id : Option String) (label : String) (properties : List String)
  | fullText (id : Option String) (name label : String) (properties : List String)
  | vector (id : Option String) (label property : String) (dimensions : Nat)
      (similarity : VectorSimilarity)
deriving DecidableEq

structure InputOntologyDef where
  formatVersion : Nat
  id : Option String
  name : String
  description : LocalizedText
  version : Nat
  nodeTypes : List InputNodeTypeDef
  edgeTypes : List InputEdgeTypeDef
  indexes : List InputIndexDef

/-! ## Lookup maps of the export -/

/-- The column of a property mapping; a JSON path has none. -/
def PropertyLocation.columnName : PropertyLocation → Option String
  | .column ref => some ref.column
  | .jsonPath _ _ => none

def ObjectMappingDef.columns (om : ObjectMappingDef) : List (PropertyId × String) :=
  om.propertyMappings.filterMap fun pm => pm.location.columnName.map fun c => (pm.propertyId, c)

namespace OntologyIR

/-- The first mapping of the node and the relation of a mapping. -/
def firstOfRelation (o : OntologyIR) (om : ObjectMappingDef) : Option ObjectMappingDef :=
  o.objectMappings.find? fun x => x.nodeTypeId = om.nodeTypeId ∧ x.relation = om.relation

/-- `prior_precedence`, with the insertions into `node_to_relation` so far. -/
def priorPrecedence (o : OntologyIR) (nodeToRelation : List (NodeTypeId × String))
    (om : ObjectMappingDef) : Option Nat :=
  (last fst om.nodeTypeId nodeToRelation).bind fun _ =>
    (o.firstOfRelation om).map (·.precedence)

/-- One turn of the mapping loop, as far as `node_to_relation` is concerned. -/
def recordRelation (o : OntologyIR) (nodeToRelation : List (NodeTypeId × String))
    (om : ObjectMappingDef) : List (NodeTypeId × String) :=
  if (o.priorPrecedence nodeToRelation om).all (· ≤ om.precedence) then
    nodeToRelation ++ [(om.nodeTypeId, om.relation)]
  else nodeToRelation

def nodeToRelation (o : OntologyIR) : List (NodeTypeId × String) :=
  o.objectMappings.foldl o.recordRelation []

def propToColumn (o : OntologyIR) : List ((NodeTypeId × PropertyId) × String) :=
  o.objectMappings.flatMap fun om => om.columns.map fun c => ((om.nodeTypeId, c.1), c.2)

/-- `prop_id_to_name`: one map for the properties of all nodes and edges. -/
def propIdToName (o : OntologyIR) : List (PropertyId × PropertyKey) :=
  (o.nodeTypes.flatMap fun n => n.properties.map fun p => (p.id, p.name)) ++
    o.edgeTypes.flatMap fun e => e.properties.map fun p => (p.id, p.name)

def resolvePropName (o : OntologyIR) (pid : PropertyId) : String :=
  ((last fst pid o.propIdToName).map (·.2.val)).getD pid.val

def resolveNodeLabel (o : OntologyIR) (nid : NodeTypeId) : String :=
  ((last (·.id) nid o.nodeTypes).map (·.label.val)).getD nid.val

/-! ## The export -/

def exportConstraint (o : OntologyIR) (cd : ConstraintDef) : InputNodeConstraint :=
  match cd.constraint with
  | .unique propertyIds => .unique (some cd.id.val) (propertyIds.map o.resolvePropName)
  | .exists_ propertyId => .exists_ (some cd.id.val) (o.resolvePropName propertyId)
  | .nodeKey propertyIds => .nodeKey (some cd.id.val) (propertyIds.map o.resolvePropName)

def exportProperty (sourceColumn : Option String) (p : PropertyDef) : InputPropertyDef where
  id := some p.id.val
  name := p.name.val
  propertyType := p.propertyType
  nullable := p.nullable
  defaultValue := p.defaultValue
  description := p.description
  sourceColumn := sourceColumn

def sourceColumnOf (o : OntologyIR) (nid : NodeTypeId) (pid : PropertyId) : Option String :=
  (last fst (nid, pid) o.propToColumn).map (·.2)

def sourceTableOf (o : OntologyIR) (nid : NodeTypeId) : Option String :=
  (last fst nid o.nodeToRelation).map (·.2)

def exportNode (o : OntologyIR) (n : NodeTypeDef) : InputNodeTypeDef where
  id := some n.id.val
  label := n.label.val
  description := n.description
  sourceTable := o.sourceTableOf n.id
  properties := n.properties.map fun p => exportProperty (o.sourceColumnOf n.id p.id) p
  constraints := n.constraints.map o.exportConstraint

def exportEdge (o : OntologyIR) (e : EdgeTypeDef) : InputEdgeTypeDef where
  id := some e.id.val
  label := e.label.val
  description := e.description
  sourceType := o.resolveNodeLabel e.sourceNodeId
  targetType := o.resolveNodeLabel e.targetNodeId
  properties := e.properties.map (exportProperty none)
  cardinality := e.cardinality
  kind := e.kind

def exportIndex (o : OntologyIR) : IndexDef → InputIndexDef
  | .single id nodeId propertyId =>
    .single (some id) (o.resolveNodeLabel nodeId) (o.resolvePropName propertyId)
  | .composite id nodeId propertyIds =>
    .composite (some id) (o.resolveNodeLabel nodeId) (propertyIds.map o.resolvePropName)
  | .fullText id name nodeId propertyIds =>
    .fullText (some id) name.val (o.resolveNodeLabel nodeId)
      (propertyIds.map o.resolvePropName)
  | .vector id nodeId propertyId dimensions similarity =>
    .vector (some id) (o.resolveNodeLabel nodeId) (o.resolvePropName propertyId) dimensions
      similarity

def toExchangeFormat (o : OntologyIR) : InputOntologyDef where
  formatVersion := 1
  id := some o.id
  name := o.name
  description := o.description
  version := o.version.number
  nodeTypes := o.nodeTypes.map o.exportNode
  edgeTypes := o.edgeTypes.map o.exportEdge
  indexes := o.indexes.map o.exportIndex

end OntologyIR

end Ontosyx.Ontology
