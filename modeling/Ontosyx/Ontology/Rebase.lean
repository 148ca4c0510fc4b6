import Ontosyx.Ontology.Diff

/-!
# Conflict-aware rebase analysis

`analyze_rebase` takes the diffs of head and draft against their common base
and lists the entities both sides changed in overlapping ways.  Activity on
properties is collected by property name: the map keeps, for each name, the
last change of the report that carries it.
-/

namespace Ontosyx.Ontology

open Ontosyx.Core Lib.Keyed

inductive ConflictEntityKind where
  | node
  | edge
deriving DecidableEq

inductive ConflictSide where
  | draft
  | head
deriving DecidableEq

/-- One overlapping field of a property that both sides modified. -/
inductive PropertyConflictAxis where
  | type (head draft : String)
  | nullability (head draft : Bool)
  | description (head draft : String)
  | defaultValue (head draft : Option DebugText)

/-- One overlapping field of an entity that both sides modified. -/
inductive ConflictAxis where
  | label (head draft : String)
  | description (head draft : String)
  | source (head draft : String)
  | target (head draft : String)
  | cardinality (head draft : String)
  | propertyOverlap (propertyName : String) (atoms : List PropertyConflictAxis)
  | propertyModifyRemove (propertyName : String) (modifier : ConflictSide)
  | propertyAddAdd (propertyName : String)

inductive RebaseConflict where
  | addAdd (entityKind : ConflictEntityKind) (entityId label : String)
  | modifyRemove (entityKind : ConflictEntityKind) (entityId label : String)
      (modifier : ConflictSide)
  | modifyModify (entityKind : ConflictEntityKind) (entityId label : String)
      (axes : List ConflictAxis)

/-- The analysis: both diffs, and the conflicts between them. -/
structure RebaseAnalysis where
  baseToHead : OntologyDiff
  baseToDraft : OntologyDiff
  conflicts : List RebaseConflict

def RebaseAnalysis.isClean (a : RebaseAnalysis) : Bool := a.conflicts.isEmpty

/-! ## Change selectors -/

def nodeLabelChanged : NodeChange → Option String
  | .labelChanged _ new => some new.val
  | _ => none

def nodeDescriptionChanged : NodeChange → Option String
  | .descriptionChanged _ new => some new.default
  | _ => none

def edgeLabelChanged : EdgeChange → Option String
  | .labelChanged _ new => some new.val
  | _ => none

def edgeDescriptionChanged : EdgeChange → Option String
  | .descriptionChanged _ new => some new.default
  | _ => none

def edgeSourceChanged : EdgeChange → Option String
  | .sourceChanged _ new => some new.val
  | _ => none

def edgeTargetChanged : EdgeChange → Option String
  | .targetChanged _ new => some new.val
  | _ => none

def edgeCardinalityChanged : EdgeChange → Option String
  | .cardinalityChanged _ new => some new.debug
  | _ => none

def propertyTypeChanged : PropertyChange → Option (String × String)
  | .typeChanged old new => some (old, new)
  | _ => none

def propertyNullabilityChanged : PropertyChange → Option (Bool × Bool)
  | .nullabilityChanged old new => some (old, new)
  | _ => none

def propertyDescriptionChanged : PropertyChange → Option String
  | .descriptionChanged _ new => some new.default
  | _ => none

def propertyDefaultChanged : PropertyChange → Option (Option DebugText)
  | .defaultValueChanged _ new => some new
  | _ => none

/-- The axis for one field: both sides changed it, and `differ` tells the two
new values apart. -/
def axisWhen {α β : Type} (differ : α → α → Bool) (axis : α → α → β) :
    Option α → Option α → List β
  | some h, some d => if differ h d then [axis h d] else []
  | _, _ => []

/-- What one side did to the property it knows under some name. -/
inductive PropertyActivity where
  | added
  | removed
  | modified (changes : List PropertyChange)

/-- `collect_node_property_activity`: the insertions into the map, in order. -/
def collectNodePropertyActivity (changes : List NodeChange) : List (String × PropertyActivity) :=
  changes.filterMap fun
    | .propertyAdded p => some (p.name.val, .added)
    | .propertyRemoved p => some (p.name.val, .removed)
    | .propertyModified name cs => some (name.val, .modified cs)
    | _ => none

/-- `collect_edge_property_activity`: the insertions into the map, in order. -/
def collectEdgePropertyActivity (changes : List EdgeChange) : List (String × PropertyActivity) :=
  changes.filterMap fun
    | .propertyAdded p => some (p.name.val, .added)
    | .propertyRemoved p => some (p.name.val, .removed)
    | .propertyModified name cs => some (name.val, .modified cs)
    | _ => none

def propertyModifyAtoms (head draft : List PropertyChange) : List PropertyConflictAxis :=
  axisWhen (fun h d => h.2 != d.2)
    (fun h d => .type (h.1 ++ " → " ++ h.2) (d.1 ++ " → " ++ d.2))
    (head.findSome? propertyTypeChanged) (draft.findSome? propertyTypeChanged) ++
  axisWhen (fun h d => h.2 != d.2) (fun h d => .nullability h.2 d.2)
    (head.findSome? propertyNullabilityChanged) (draft.findSome? propertyNullabilityChanged) ++
  axisWhen (fun h d => h != d) .description
    (head.findSome? propertyDescriptionChanged) (draft.findSome? propertyDescriptionChanged) ++
  axisWhen (fun h d => !DebugText.same h d) .defaultValue
    (head.findSome? propertyDefaultChanged) (draft.findSome? propertyDefaultChanged)

def propertyConflictAxis (name : String) : PropertyActivity → PropertyActivity → Option ConflictAxis
  | .added, .added => some (.propertyAddAdd name)
  | .modified _, .removed => some (.propertyModifyRemove name .head)
  | .removed, .modified _ => some (.propertyModifyRemove name .draft)
  | .modified h, .modified d =>
    let atoms := propertyModifyAtoms h d
    if atoms.isEmpty then none else some (.propertyOverlap name atoms)
  | _, _ => none

/-- The loop over the draft's map: one axis at most for each name that both
maps hold. -/
def propertyAxes (head draft : List (String × PropertyActivity)) : List ConflictAxis :=
  (draft.map (·.1)).dedup.filterMap fun name =>
    match last (·.1) name head, last (·.1) name draft with
    | some h, some d => propertyConflictAxis name h.2 d.2
    | _, _ => none

def nodeConflictAxes (head draft : List NodeChange) : List ConflictAxis :=
  axisWhen (fun h d => h != d) .label
    (head.findSome? nodeLabelChanged) (draft.findSome? nodeLabelChanged) ++
  axisWhen (fun h d => h != d) .description
    (head.findSome? nodeDescriptionChanged) (draft.findSome? nodeDescriptionChanged) ++
  propertyAxes (collectNodePropertyActivity head) (collectNodePropertyActivity draft)

def edgeConflictAxes (head draft : List EdgeChange) : List ConflictAxis :=
  axisWhen (fun h d => h != d) .label
    (head.findSome? edgeLabelChanged) (draft.findSome? edgeLabelChanged) ++
  axisWhen (fun h d => h != d) .description
    (head.findSome? edgeDescriptionChanged) (draft.findSome? edgeDescriptionChanged) ++
  axisWhen (fun h d => h != d) .source
    (head.findSome? edgeSourceChanged) (draft.findSome? edgeSourceChanged) ++
  axisWhen (fun h d => h != d) .target
    (head.findSome? edgeTargetChanged) (draft.findSome? edgeTargetChanged) ++
  axisWhen (fun h d => h != d) .cardinality
    (head.findSome? edgeCardinalityChanged) (draft.findSome? edgeCardinalityChanged) ++
  propertyAxes (collectEdgePropertyActivity head) (collectEdgePropertyActivity draft)

def modifyModifyUnlessEmpty (kind : ConflictEntityKind) (id label : String)
    (axes : List ConflictAxis) : Option RebaseConflict :=
  if axes.isEmpty then none else some (.modifyModify kind id label axes)

def detectConflicts (head draft : OntologyDiff) : List RebaseConflict :=
  ((draft.addedNodes.filter fun n => n.id ∈ head.addedNodes.map (·.id)).map fun n =>
    .addAdd .node n.id.val n.label.val) ++
  ((draft.addedEdges.filter fun e => e.id ∈ head.addedEdges.map (·.id)).map fun e =>
    .addAdd .edge e.id.val e.label.val) ++
  ((draft.modifiedNodes.filter fun n => n.nodeId ∈ head.removedNodes.map (·.id)).map fun n =>
    .modifyRemove .node n.nodeId.val n.label.val .draft) ++
  ((head.modifiedNodes.filter fun n => n.nodeId ∈ draft.removedNodes.map (·.id)).map fun n =>
    .modifyRemove .node n.nodeId.val n.label.val .head) ++
  ((draft.modifiedEdges.filter fun e => e.edgeId ∈ head.removedEdges.map (·.id)).map fun e =>
    .modifyRemove .edge e.edgeId.val e.label.val .draft) ++
  ((head.modifiedEdges.filter fun e => e.edgeId ∈ draft.removedEdges.map (·.id)).map fun e =>
    .modifyRemove .edge e.edgeId.val e.label.val .head) ++
  (draft.modifiedNodes.filterMap fun draftNode =>
    (last (·.nodeId) draftNode.nodeId head.modifiedNodes).bind fun headNode =>
      modifyModifyUnlessEmpty .node draftNode.nodeId.val draftNode.label.val
        (nodeConflictAxes headNode.changes draftNode.changes)) ++
  (draft.modifiedEdges.filterMap fun draftEdge =>
    (last (·.edgeId) draftEdge.edgeId head.modifiedEdges).bind fun headEdge =>
      modifyModifyUnlessEmpty .edge draftEdge.edgeId.val draftEdge.label.val
        (edgeConflictAxes headEdge.changes draftEdge.changes))

def analyzeRebase (base head draft : OntologyIR) : RebaseAnalysis :=
  let baseToHead := computeDiff base head
  let baseToDraft := computeDiff base draft
  { baseToHead, baseToDraft, conflicts := detectConflicts baseToHead baseToDraft }

end Ontosyx.Ontology
