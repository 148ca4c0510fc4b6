import Ontosyx.Ontology.IR

/-!
# Ontology commands

`OntologyCommand`, the atomic operations on nodes, edges, properties,
constraints, indexes and source mappings, with `Batch` for sequences of them.
-/

namespace Ontosyx.Command

open Ontosyx.Core Ontology

/-- A partial update of a property.  `defaultValue := some none` clears the
default. -/
structure PropertyPatch where
  name : Option String := none
  propertyType : Option PropertyType := none
  nullable : Option Bool := none
  defaultValue : Option (Option PropertyValue) := none
  description : Option LocalizedText := none

inductive OntologyCommand where
  | addNode (id : NodeTypeId) (label : GraphLabel) (description : LocalizedText)
  | createNodeType (node : NodeTypeDef)
  | deleteNode (nodeId : NodeTypeId)
  | renameNode (nodeId : NodeTypeId) (newLabel : GraphLabel)
  | updateNodeDescription (nodeId : NodeTypeId) (description : LocalizedText)
  | addEdge (id : EdgeTypeId) (label : GraphLabel) (sourceNodeId targetNodeId : NodeTypeId)
      (cardinality : Cardinality)
  | createEdgeType (edge : EdgeTypeDef)
  | deleteEdge (edgeId : EdgeTypeId)
  | renameEdge (edgeId : EdgeTypeId) (newLabel : GraphLabel)
  | updateEdgeCardinality (edgeId : EdgeTypeId) (cardinality : Cardinality)
  | updateEdgeDescription (edgeId : EdgeTypeId) (description : LocalizedText)
  | addProperty (owner : PropertyOwner) (property : PropertyDef)
  | deleteProperty (owner : PropertyOwner) (propertyId : PropertyId)
  | updateProperty (owner : PropertyOwner) (propertyId : PropertyId) (patch : PropertyPatch)
  | addConstraint (nodeId : NodeTypeId) (constraint : ConstraintDef)
  | removeConstraint (nodeId : NodeTypeId) (constraintId : ConstraintId)
  | addIndex (index : IndexDef)
  | removeIndex (indexId : String)
  | createObjectMapping (mapping : ObjectMappingDef)
  | updateObjectMapping (id : ObjectMappingId) (mapping : ObjectMappingDef)
  | deleteObjectMapping (id : ObjectMappingId)
  | createLinkMapping (mapping : LinkMappingDef)
  | updateLinkMapping (id : LinkMappingId) (mapping : LinkMappingDef)
  | deleteLinkMapping (id : LinkMappingId)
  | batch (description : String) (commands : List OntologyCommand)

end Ontosyx.Command

namespace Ontosyx.Ontology

/-- `PropertyOwner::as_str`. -/
def PropertyOwner.asStr : PropertyOwner → String
  | node id => id.val
  | edge id => id.val

namespace IndexDef

def indexId : IndexDef → String
  | single id _ _ | composite id _ _ | fullText id _ _ _ | vector id _ _ _ _ => id

def indexNodeId : IndexDef → NodeTypeId
  | single _ n _ | composite _ n _ | fullText _ _ n _ | vector _ n _ _ _ => n

def indexPropertyIds : IndexDef → List PropertyId
  | single _ _ p | vector _ _ p _ _ => [p]
  | composite _ _ ps | fullText _ _ _ ps => ps

def withNodeId (id : NodeTypeId) : IndexDef → IndexDef
  | single i _ p => single i id p
  | composite i _ ps => composite i id ps
  | fullText i name _ ps => fullText i name id ps
  | vector i _ p dims sim => vector i id p dims sim

end IndexDef

def ConstraintDef.constraintPropertyIds (c : ConstraintDef) : List PropertyId :=
  match c.constraint with
  | .unique ids | .nodeKey ids => ids
  | .exists_ id => [id]

def ConstraintDef.mapPropertyIds (f : PropertyId → PropertyId) (c : ConstraintDef) :
    ConstraintDef :=
  match c.constraint with
  | .unique ids => { c with constraint := .unique (ids.map f) }
  | .nodeKey ids => { c with constraint := .nodeKey (ids.map f) }
  | .exists_ id => { c with constraint := .exists_ (f id) }

end Ontosyx.Ontology
