import Ontosyx.Command.Reconcile
import Ontosyx.Ontology.References

/-!
# Executing a command

`execute_inner` applies a command and gives the command that takes it back; a batch applies
its commands one after the other, and its inverse has theirs in reverse.  Nothing is checked
between the commands of a batch but what each of them checks for itself.  `execute` rebuilds
the index of the result and validates it.
-/

namespace Ontosyx.Command

open Ontosyx.Core Ontology Lib.Keyed

structure CommandResult where
  newOntology : OntologyIR
  inverse : OntologyCommand

/-! ## Entries by id -/

section

variable {α κ : Type} [DecidableEq κ]

/-- `remove(position(…))`: the first entry of an id, and the others. -/
def takeFirst (key : α → κ) (k : κ) (xs : List α) : Option (α × List α) :=
  (first key k xs).map fun x => (x, xs.eraseP fun x => key x = k)

/-- `xs[position(…)] = f(…)`. -/
def updateEntry (key : α → κ) (k : κ) (f : α → α) (xs : List α) : List α :=
  updateFirst (fun x => key x = k) f xs

end

/-- `ok_or_else`. -/
def found {α : Type} (entry : Option α) (message : String) : Except String α :=
  match entry with
  | some a => .ok a
  | none => .error message

def refuseIf (p : Prop) [Decidable p] (message : String) : Except String Unit :=
  if p then .error message else .ok ()

/-- `node_index`, with the node. -/
def nodeIndex (ont : OntologyIR) (nodeId : NodeTypeId) : Except String NodeTypeDef :=
  found (first (·.id) nodeId ont.nodeTypes) ("node '" ++ nodeId.val ++ "' not found")

/-- `edge_index`, with the edge. -/
def edgeIndex (ont : OntologyIR) (edgeId : EdgeTypeId) : Except String EdgeTypeDef :=
  found (first (·.id) edgeId ont.edgeTypes) ("edge '" ++ edgeId.val ++ "' not found")

/-- `ont.node_types[idx]`, changed. -/
def setNode (ont : OntologyIR) (nodeId : NodeTypeId) (f : NodeTypeDef → NodeTypeDef) : OntologyIR :=
  { ont with nodeTypes := updateEntry (·.id) nodeId f ont.nodeTypes }

/-- `ont.edge_types[idx]`, changed. -/
def setEdge (ont : OntologyIR) (edgeId : EdgeTypeId) (f : EdgeTypeDef → EdgeTypeDef) : OntologyIR :=
  { ont with edgeTypes := updateEntry (·.id) edgeId f ont.edgeTypes }

/-- `CreateNodeType`, and `AddNode` of a node that has nothing else. -/
def createNodeType (node : NodeTypeDef) (ont : OntologyIR) : Except String CommandResult := do
  refuseIf (node.id ∈ ont.nodeTypes.map (·.id))
    ("node with id '" ++ node.id.val ++ "' already exists")
  refuseIf (node.label ∈ ont.nodeTypes.map (·.label))
    ("node with label '" ++ node.label.val ++ "' already exists")
  return { newOntology := { ont with nodeTypes := ont.nodeTypes ++ [node] }
           inverse := .deleteNode node.id }

def EndsAt (nodeId : NodeTypeId) (e : EdgeTypeDef) : Prop :=
  e.sourceNodeId = nodeId ∨ e.targetNodeId = nodeId

instance (nodeId : NodeTypeId) (e : EdgeTypeDef) : Decidable (EndsAt nodeId e) :=
  inferInstanceAs (Decidable (_ ∨ _))

def deleteNode (nodeId : NodeTypeId) (ont : OntologyIR) : Except String CommandResult := do
  let (node, nodeTypes) ← found (takeFirst (·.id) nodeId ont.nodeTypes)
    ("node '" ++ nodeId.val ++ "' not found")
  let removedEdges := ont.edgeTypes.filter fun e => EndsAt nodeId e
  let ofRemovedEdge (mapping : LinkMappingDef) : Bool :=
    mapping.edgeTypeId ∈ removedEdges.map (·.id)
  let removedLinkMappings := ont.linkMappings.filter ofRemovedEdge
  let removedIndexes := ont.indexes.filter fun idx => idx.indexNodeId = nodeId
  let removedObjectMappings := ont.objectMappings.filter fun m => m.nodeTypeId = nodeId
  return {
    newOntology := { ont with
      nodeTypes := nodeTypes
      edgeTypes := ont.edgeTypes.filter fun e => ¬ EndsAt nodeId e
      linkMappings := ont.linkMappings.filter fun m => !ofRemovedEdge m
      indexes := ont.indexes.filter fun idx => idx.indexNodeId ≠ nodeId
      objectMappings := ont.objectMappings.filter fun m => m.nodeTypeId ≠ nodeId }
    inverse := .batch ("restore deleted node '" ++ node.label.val ++ "'")
      (.createNodeType node :: (removedEdges.map .createEdgeType ++
        removedIndexes.map .addIndex ++ removedObjectMappings.map .createObjectMapping ++
        removedLinkMappings.map .createLinkMapping)) }

def renameNode (nodeId : NodeTypeId) (newLabel : GraphLabel) (ont : OntologyIR) :
    Except String CommandResult := do
  let node ← nodeIndex ont nodeId
  refuseIf (∃ n ∈ ont.nodeTypes, n.label = newLabel ∧ n.id ≠ nodeId)
    ("Cannot rename node '" ++ nodeId.val ++ "': label '" ++ newLabel.val ++ "' is already in use")
  return { newOntology := setNode ont nodeId fun n => { n with label := newLabel }
           inverse := .renameNode nodeId node.label }

def updateNodeDescription (nodeId : NodeTypeId) (description : LocalizedText)
    (ont : OntologyIR) : Except String CommandResult := do
  let node ← nodeIndex ont nodeId
  return { newOntology := setNode ont nodeId fun n => { n with description := description }
           inverse := .updateNodeDescription nodeId node.description }

local instance lawfulSignatures : LawfulBEq (GraphLabel × NodeTypeId × NodeTypeId) := inferInstance

/-- `CreateEdgeType`, and `AddEdge` of an edge that has nothing else. -/
def createEdgeType (edge : EdgeTypeDef) (ont : OntologyIR) : Except String CommandResult := do
  refuseIf (edge.sourceNodeId ∉ ont.nodeTypes.map (·.id))
    ("source node '" ++ edge.sourceNodeId.val ++ "' not found for edge")
  refuseIf (edge.targetNodeId ∉ ont.nodeTypes.map (·.id))
    ("target node '" ++ edge.targetNodeId.val ++ "' not found for edge")
  refuseIf (edge.id ∈ ont.edgeTypes.map (·.id))
    ("edge with id '" ++ edge.id.val ++ "' already exists")
  refuseIf (edge.signature ∈ ont.edgeTypes.map (·.signature))
    ("edge '" ++ edge.label.val ++ "' between '" ++ edge.sourceNodeId.val ++ "' and '" ++
      edge.targetNodeId.val ++ "' already exists")
  return { newOntology := { ont with edgeTypes := ont.edgeTypes ++ [edge] }
           inverse := .deleteEdge edge.id }

def deleteEdge (edgeId : EdgeTypeId) (ont : OntologyIR) : Except String CommandResult := do
  let (edge, edgeTypes) ← found (takeFirst (·.id) edgeId ont.edgeTypes)
    ("edge '" ++ edgeId.val ++ "' not found")
  let removedLinkMappings := ont.linkMappings.filter fun m => m.edgeTypeId = edgeId
  return {
    newOntology := { ont with
      edgeTypes := edgeTypes
      linkMappings := ont.linkMappings.filter fun m => m.edgeTypeId ≠ edgeId }
    inverse :=
      if removedLinkMappings = [] then .createEdgeType edge
      else .batch ("Restore deleted edge '" ++ edge.id.val ++ "'")
        (.createEdgeType edge :: removedLinkMappings.map .createLinkMapping) }

def renameEdge (edgeId : EdgeTypeId) (newLabel : GraphLabel) (ont : OntologyIR) :
    Except String CommandResult := do
  let edge ← edgeIndex ont edgeId
  refuseIf (∃ e ∈ ont.edgeTypes, e.id ≠ edgeId ∧ e.label = newLabel ∧
      e.sourceNodeId = edge.sourceNodeId ∧ e.targetNodeId = edge.targetNodeId)
    ("Cannot rename edge '" ++ edgeId.val ++ "': label '" ++ newLabel.val ++
      "' with same endpoints already exists")
  return { newOntology := setEdge ont edgeId fun e => { e with label := newLabel }
           inverse := .renameEdge edgeId edge.label }

def updateEdgeCardinality (edgeId : EdgeTypeId) (cardinality : Cardinality) (ont : OntologyIR) :
    Except String CommandResult := do
  let edge ← edgeIndex ont edgeId
  return { newOntology := setEdge ont edgeId fun e => { e with cardinality := cardinality }
           inverse := .updateEdgeCardinality edgeId edge.cardinality }

def updateEdgeDescription (edgeId : EdgeTypeId) (description : LocalizedText)
    (ont : OntologyIR) : Except String CommandResult := do
  let edge ← edgeIndex ont edgeId
  return { newOntology := setEdge ont edgeId fun e => { e with description := description }
           inverse := .updateEdgeDescription edgeId edge.description }

/-! ## Properties -/

/-- `Display` of an owner. -/
def ownerText : PropertyOwner → String
  | .node typeId => "node:" ++ typeId.val
  | .edge typeId => "edge:" ++ typeId.val

/-- `find_owner_location`, with the properties of the owner. -/
def findOwnerLocation (ont : OntologyIR) : PropertyOwner → Except String (List PropertyDef)
  | .node typeId => (nodeIndex ont typeId).map (·.properties)
  | .edge typeId => (edgeIndex ont typeId).map (·.properties)

/-- `owner_properties_mut`. -/
def setProperties (ont : OntologyIR) (owner : PropertyOwner)
    (f : List PropertyDef → List PropertyDef) : OntologyIR :=
  match owner with
  | .node typeId => setNode ont typeId fun n => { n with properties := f n.properties }
  | .edge typeId => setEdge ont typeId fun e => { e with properties := f e.properties }

def addProperty (owner : PropertyOwner) (property : PropertyDef) (ont : OntologyIR) :
    Except String CommandResult := do
  let props ← findOwnerLocation ont owner
  refuseIf (property.id ∈ props.map (·.id))
    ("property '" ++ property.id.val ++ "' already exists on owner '" ++ ownerText owner ++ "'")
  return { newOntology := setProperties ont owner (· ++ [property])
           inverse := .deleteProperty owner property.id }

/-- The constraints of the owner on the property, where it is a node. -/
def constraintsOn (ont : OntologyIR) (owner : PropertyOwner) (propertyId : PropertyId) :
    List ConstraintDef :=
  match owner with
  | .node typeId => ((first (·.id) typeId ont.nodeTypes).map fun n =>
    n.constraints.filter fun c => propertyId ∈ c.constraintPropertyIds).getD []
  | .edge _ => []

/-- The object mappings of the owner without the property, where it is a node, and commands
for the ones that had it. -/
def unmapProperty (owner : PropertyOwner) (propertyId : PropertyId)
    (mappings : List ObjectMappingDef) : List ObjectMappingDef × List OntologyCommand :=
  match owner with
  | .node typeId =>
    let without (m : ObjectMappingDef) : ObjectMappingDef :=
      if m.nodeTypeId = typeId then
        { m with propertyMappings := m.propertyMappings.filter (·.propertyId ≠ propertyId) }
      else m
    (mappings.map without,
      (mappings.filter fun m => (without m).propertyMappings ≠ m.propertyMappings).map fun m =>
        .updateObjectMapping m.id m)
  | .edge _ => (mappings, [])

def deleteProperty (owner : PropertyOwner) (propertyId : PropertyId) (ont : OntologyIR) :
    Except String CommandResult := do
  let props ← findOwnerLocation ont owner
  let (removedProp, _) ← found (takeFirst (·.id) propertyId props)
    ("property '" ++ propertyId.val ++ "' not found on owner '" ++ ownerText owner ++ "'")
  let removedConstraints := constraintsOn ont owner propertyId
  let onProperty (idx : IndexDef) : Bool :=
    idx.indexNodeId.val = owner.asStr ∧ propertyId ∈ idx.indexPropertyIds
  let removedIndexes := ont.indexes.filter onProperty
  let (objectMappings, restoreMappings) := unmapProperty owner propertyId ont.objectMappings
  let withoutProperty := setProperties ont owner fun ps => ps.eraseP fun p => p.id = propertyId
  let withoutConstraints := match owner with
    | .node typeId => setNode withoutProperty typeId fun n => { n with
        constraints := n.constraints.filter fun c => propertyId ∉ c.constraintPropertyIds }
    | .edge _ => withoutProperty
  let restoreConstraints := match owner with
    | .node typeId => removedConstraints.map (.addConstraint typeId)
    | .edge _ => []
  let commands := restoreConstraints ++ removedIndexes.map .addIndex ++ restoreMappings
  return {
    newOntology := { withoutConstraints with
      indexes := ont.indexes.filter fun idx => !onProperty idx
      objectMappings := objectMappings }
    inverse :=
      if commands = [] then .addProperty owner removedProp
      else .batch ("restore deleted property '" ++ propertyId.val ++ "' on '" ++
        ownerText owner ++ "'") (.addProperty owner removedProp :: commands) }

def PropertyPatch.reverse (patch : PropertyPatch) (prop : PropertyDef) : PropertyPatch where
  name := patch.name.map fun _ => prop.name.val
  propertyType := patch.propertyType.map fun _ => prop.propertyType
  nullable := patch.nullable.map fun _ => prop.nullable
  defaultValue := patch.defaultValue.map fun _ => prop.defaultValue
  description := patch.description.map fun _ => prop.description

/-- What a patch does to the fields, with its name read. -/
def PropertyPatch.apply (patch : PropertyPatch) (name : Option PropertyKey) (prop : PropertyDef) :
    PropertyDef :=
  { prop with
    name := name.getD prop.name
    propertyType := patch.propertyType.getD prop.propertyType
    nullable := patch.nullable.getD prop.nullable
    defaultValue := patch.defaultValue.getD prop.defaultValue
    description := patch.description.getD prop.description }

/-- The error of `PropertyKey::new`. -/
def invalidPropertyKey (s : String) : String :=
  "Validation error: property_key — invalid property key `" ++ s ++
    "` — must be non-empty and composed of alphanumeric
    (including Unicode letters/digits), `_`, " ++
    "or space characters"

/-- The name of a patch, read by `PropertyKey::new`. -/
def PropertyPatch.readName (patch : PropertyPatch) (propertyId : PropertyId) :
    Except String (Option PropertyKey) :=
  match patch.name with
  | none => .ok none
  | some name => (found (PropertyKey.new name) ("property '" ++ propertyId.val ++
      "': invalid name: " ++ invalidPropertyKey name)).map some

def updateProperty (owner : PropertyOwner) (propertyId : PropertyId) (patch : PropertyPatch)
    (ont : OntologyIR) : Except String CommandResult := do
  let props ← findOwnerLocation ont owner
  let prop ← found (first (·.id) propertyId props)
    ("property '" ++ propertyId.val ++ "' not found on owner '" ++ ownerText owner ++ "'")
  let name ← patch.readName propertyId
  return { newOntology := setProperties ont owner (updateEntry (·.id) propertyId (patch.apply name))
           inverse := .updateProperty owner propertyId (patch.reverse prop) }

def addConstraint (nodeId : NodeTypeId) (constraint : ConstraintDef) (ont : OntologyIR) :
    Except String CommandResult := do
  let node ← nodeIndex ont nodeId
  refuseIf (constraint.id ∈ node.constraints.map (·.id))
    ("constraint '" ++ constraint.id.val ++ "' already exists on node '" ++ nodeId.val ++ "'")
  return { newOntology := setNode ont nodeId fun n =>
             { n with constraints := n.constraints ++ [constraint] }
           inverse := .removeConstraint nodeId constraint.id }

def removeConstraint (nodeId : NodeTypeId) (constraintId : ConstraintId) (ont : OntologyIR) :
    Except String CommandResult := do
  let node ← nodeIndex ont nodeId
  let (removed, constraints) ← found (takeFirst (·.id) constraintId node.constraints)
    ("constraint '" ++ constraintId.val ++ "' not found on node '" ++ nodeId.val ++ "'")
  return { newOntology := setNode ont nodeId fun n => { n with constraints := constraints }
           inverse := .addConstraint nodeId removed }

def addIndex (index : IndexDef) (ont : OntologyIR) : Except String CommandResult := do
  refuseIf (index.indexId ∈ ont.indexes.map (·.indexId))
    ("index '" ++ index.indexId ++ "' already exists")
  return { newOntology := { ont with indexes := ont.indexes ++ [index] }
           inverse := .removeIndex index.indexId }

def removeIndex (indexId : String) (ont : OntologyIR) : Except String CommandResult := do
  let (removed, indexes) ← found (takeFirst (·.indexId) indexId ont.indexes)
    ("index '" ++ indexId ++ "' not found")
  return { newOntology := { ont with indexes := indexes }, inverse := .addIndex removed }

/-! ## Mappings -/

def createObjectMapping (mapping : ObjectMappingDef) (ont : OntologyIR) :
    Except String CommandResult := do
  refuseIf (mapping.id ∈ ont.objectMappings.map (·.id))
    ("object mapping '" ++ mapping.id.val ++ "' already exists")
  return { newOntology := { ont with objectMappings := ont.objectMappings ++ [mapping] }
           inverse := .deleteObjectMapping mapping.id }

def updateObjectMapping (id : ObjectMappingId) (mapping : ObjectMappingDef) (ont : OntologyIR) :
    Except String CommandResult := do
  refuseIf (mapping.id ≠ id)
    ("update object mapping id mismatch: payload '" ++ mapping.id.val ++
      "' does not match path '" ++ id.val ++ "'")
  let old ← found (first (·.id) id ont.objectMappings)
    ("object mapping '" ++ id.val ++ "' not found")
  return { newOntology := { ont with
             objectMappings := updateEntry (·.id) id (fun _ => mapping) ont.objectMappings }
           inverse := .updateObjectMapping id old }

def deleteObjectMapping (id : ObjectMappingId) (ont : OntologyIR) :
    Except String CommandResult := do
  let (removed, objectMappings) ← found (takeFirst (·.id) id ont.objectMappings)
    ("object mapping '" ++ id.val ++ "' not found")
  return { newOntology := { ont with objectMappings := objectMappings }
           inverse := .createObjectMapping removed }

def createLinkMapping (mapping : LinkMappingDef) (ont : OntologyIR) :
    Except String CommandResult := do
  refuseIf (mapping.id ∈ ont.linkMappings.map (·.id))
    ("link mapping '" ++ mapping.id.val ++ "' already exists")
  return { newOntology := { ont with linkMappings := ont.linkMappings ++ [mapping] }
           inverse := .deleteLinkMapping mapping.id }

def updateLinkMapping (id : LinkMappingId) (mapping : LinkMappingDef) (ont : OntologyIR) :
    Except String CommandResult := do
  refuseIf (mapping.id ≠ id)
    ("update link mapping id mismatch: payload '" ++ mapping.id.val ++
      "' does not match path '" ++ id.val ++ "'")
  let old ← found (first (·.id) id ont.linkMappings)
    ("link mapping '" ++ id.val ++ "' not found")
  return { newOntology := { ont with
             linkMappings := updateEntry (·.id) id (fun _ => mapping) ont.linkMappings }
           inverse := .updateLinkMapping id old }

def deleteLinkMapping (id : LinkMappingId) (ont : OntologyIR) : Except String CommandResult := do
  let (removed, linkMappings) ← found (takeFirst (·.id) id ont.linkMappings)
    ("link mapping '" ++ id.val ++ "' not found")
  return { newOntology := { ont with linkMappings := linkMappings }
           inverse := .createLinkMapping removed }

namespace OntologyCommand

mutual

def executeInner : OntologyCommand → OntologyIR → Except String CommandResult
  | addNode id label description =>
    Command.createNodeType { id := id, label := label, description := description }
  | createNodeType node => Command.createNodeType node
  | deleteNode nodeId => Command.deleteNode nodeId
  | renameNode nodeId newLabel => Command.renameNode nodeId newLabel
  | updateNodeDescription nodeId description => Command.updateNodeDescription nodeId description
  | addEdge id label sourceNodeId targetNodeId cardinality =>
    Command.createEdgeType
      { id := id, label := label, sourceNodeId := sourceNodeId, targetNodeId := targetNodeId,
        cardinality := cardinality }
  | createEdgeType edge => Command.createEdgeType edge
  | deleteEdge edgeId => Command.deleteEdge edgeId
  | renameEdge edgeId newLabel => Command.renameEdge edgeId newLabel
  | updateEdgeCardinality edgeId cardinality => Command.updateEdgeCardinality edgeId cardinality
  | updateEdgeDescription edgeId description => Command.updateEdgeDescription edgeId description
  | addProperty owner property => Command.addProperty owner property
  | deleteProperty owner propertyId => Command.deleteProperty owner propertyId
  | updateProperty owner propertyId patch => Command.updateProperty owner propertyId patch
  | addConstraint nodeId constraint => Command.addConstraint nodeId constraint
  | removeConstraint nodeId constraintId => Command.removeConstraint nodeId constraintId
  | addIndex index => Command.addIndex index
  | removeIndex indexId => Command.removeIndex indexId
  | createObjectMapping mapping => Command.createObjectMapping mapping
  | updateObjectMapping id mapping => Command.updateObjectMapping id mapping
  | deleteObjectMapping id => Command.deleteObjectMapping id
  | createLinkMapping mapping => Command.createLinkMapping mapping
  | updateLinkMapping id mapping => Command.updateLinkMapping id mapping
  | deleteLinkMapping id => Command.deleteLinkMapping id
  | batch description commands => fun ont => do
    let (current, inverses) ← executeAll 0 commands ont
    return { newOntology := current, inverse := .batch ("undo: " ++ description) inverses }

/-- The loop of `Batch`, with the inverses in reverse. -/
def executeAll (i : ℕ) : List OntologyCommand → OntologyIR →
    Except String (OntologyIR × List OntologyCommand)
  | [] => fun ont => .ok (ont, [])
  | command :: commands => fun ont =>
    match executeInner command ont with
    | .error e => .error ("batch command #" ++ toString i ++ " failed: " ++ e)
    | .ok result => do
      let (current, inverses) ← executeAll (i + 1) commands result.newOntology
      return (current, inverses ++ [result.inverse])

end

end OntologyCommand

/-- Why a command is refused: the first two kinds of error are rendered behind "command produced
invalid ontology". -/
inductive CommandError where
  | invariant (e : OntologyInvariantError)
  | invalid (errors : List DiagnosticMessage)
  | failed (message : String)
deriving DecidableEq

def OntologyCommand.execute (command : OntologyCommand) (ontology : OntologyIR) :
    Except CommandError CommandResult :=
  match command.executeInner ontology with
  | .error e => .error (.failed e)
  | .ok result =>
    match result.newOntology.rebuildIndices with
    | .error e => .error (.invariant e)
    | .ok () =>
      let errors := result.newOntology.validate
      if errors = [] then .ok result else .error (.invalid errors)

end Ontosyx.Command
