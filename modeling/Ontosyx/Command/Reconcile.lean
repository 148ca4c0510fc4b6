import Ontosyx.Command.Syntax
import Ontosyx.Ontology.Diff

/-!
# Reconciling a refined ontology

`reconcile_refined` gives the entities of a refined ontology back the ids they
have in the original: an entity whose id the original knows keeps it, any other
is looked up by label (nodes), by label and endpoints (edges) or by name
(properties of a matched owner) and takes the id found.  It then writes the
commands that should lead from the original to the refined ontology, and
reports how each entity was matched.

`apply_match_decisions` replays a user's verdicts on the uncertain matches.
Fresh identifiers come from a supply `uuid`, read at increasing positions.
-/

namespace Ontosyx.Command

open Ontology Lib.Keyed

inductive ReconcileEntityKind where
  | node
  | edge
  | property
deriving DecidableEq

inductive ReconcileConfidence where
  | high
  | medium
  | low
deriving DecidableEq

/-- An entity named in the report: kept, generated or deleted. -/
structure ReportedEntity where
  id : String
  label : String
  entityKind : ReconcileEntityKind
deriving DecidableEq

/-- An entity that took an original id by label or name. -/
structure UncertainMatch where
  originalId : String
  originalLabel : String
  matchedLabel : String
  matchReason : String
  entityKind : ReconcileEntityKind
deriving DecidableEq

structure ReconcileReport where
  preservedIds : List ReportedEntity
  generatedIds : List ReportedEntity
  uncertainMatches : List UncertainMatch
  deletedEntities : List ReportedEntity
  confidence : ReconcileConfidence

structure ReconcileResult where
  ontology : OntologyIR
  batch : OntologyCommand
  report : ReconcileReport

/-- A user's verdict on an uncertain match. -/
structure MatchDecision where
  originalId : String
  accept : Bool

/-! ## Matching -/

inductive Match (α : Type) where
  | preserved
  | fallback (original : α)
  | generated

/-- The three arms of every matching loop: the id is known, the fallback finds
an original, or the entity is new. -/
def matchBy {α : Type} (known : Bool) (found : Option α) : Match α :=
  if known then .preserved else
    match found with
    | some a => .fallback a
    | none => .generated

/-- Phase 1, one node: by id, then by label. -/
def matchNode (original : OntologyIR) (n : NodeTypeDef) : Match NodeTypeDef :=
  matchBy (n.id ∈ original.nodeTypes.map (·.id)) (last (·.label) n.label original.nodeTypes)

/-- Phase 1: the node under the id it is matched to. -/
def reidentifyNode (original : OntologyIR) (n : NodeTypeDef) : NodeTypeDef :=
  match matchNode original n with
  | .fallback o => { n with id := o.id }
  | _ => n

/-- `node_id_remap`: from the refined id of a node to its original id. -/
def nodeIdRemap (original refined : OntologyIR) : List (NodeTypeId × NodeTypeId) :=
  refined.nodeTypes.filterMap fun n =>
    match matchNode original n with
    | .fallback o => some (n.id, o.id)
    | _ => none

/-- A lookup in `node_id_remap`. -/
def remapNodeId (remap : List (NodeTypeId × NodeTypeId)) (id : NodeTypeId) : NodeTypeId :=
  ((last (·.1) id remap).map (·.2)).getD id

def remapEndpoints (remap : List (NodeTypeId × NodeTypeId)) (e : EdgeTypeDef) : EdgeTypeDef :=
  { e with
    sourceNodeId := remapNodeId remap e.sourceNodeId
    targetNodeId := remapNodeId remap e.targetNodeId }

/-- Phase 3, one edge: by id, then by label and endpoints. -/
def matchEdge (original : OntologyIR) (e : EdgeTypeDef) : Match EdgeTypeDef :=
  matchBy (e.id ∈ original.edgeTypes.map (·.id))
    (last (fun e => (e.label, e.sourceNodeId, e.targetNodeId))
      (e.label, e.sourceNodeId, e.targetNodeId) original.edgeTypes)

/-- Phase 3: the edge under the id it is matched to. -/
def reidentifyEdge (original : OntologyIR) (e : EdgeTypeDef) : EdgeTypeDef :=
  match matchEdge original e with
  | .fallback o => { e with id := o.id }
  | _ => e

/-- Phase 4, one property: by id, then by name. -/
def matchProperty (originals : List PropertyDef) (p : PropertyDef) : Match PropertyDef :=
  matchBy (p.id ∈ originals.map (·.id)) (last (·.name) p.name originals)

/-- Phase 4: the property under the id it is matched to. -/
def reidentifyProperty (originals : List PropertyDef) (p : PropertyDef) : PropertyDef :=
  match matchProperty originals p with
  | .fallback o => { p with id := o.id }
  | _ => p

/-- `reconcile_properties_for_owners`, one owner: the properties under the ids
they are matched to, or as they are when the original has no such owner. -/
def reidentifyProperties (originals : Option (List PropertyDef)) (ps : List PropertyDef) :
    List PropertyDef :=
  match originals with
  | some os => ps.map (reidentifyProperty os)
  | none => ps

def reconcileNode (original : OntologyIR) (n : NodeTypeDef) : NodeTypeDef :=
  let n := reidentifyNode original n
  let originals := (last (·.id) n.id original.nodeTypes).map (·.properties)
  { n with properties := reidentifyProperties originals n.properties }

def reconcileEdge (original refined : OntologyIR) (e : EdgeTypeDef) : EdgeTypeDef :=
  let e := reidentifyEdge original (remapEndpoints (nodeIdRemap original refined) e)
  let originals := (last (·.id) e.id original.edgeTypes).map (·.properties)
  { e with properties := reidentifyProperties originals e.properties }

def reidentify (original refined : OntologyIR) : OntologyIR :=
  { refined with
    nodeTypes := refined.nodeTypes.map (reconcileNode original)
    edgeTypes := refined.edgeTypes.map (reconcileEdge original refined) }

/-! ## Differences as commands -/

/-- The `UpdateProperty` patch of `diff_properties`, if anything changed.  The
patch starts out with an empty description. -/
def propertyPatch (orig ref : PropertyDef) : Option PropertyPatch :=
  let patch : PropertyPatch :=
    { name := if orig.name ≠ ref.name then some ref.name.val else none
      propertyType := if orig.propertyType ≠ ref.propertyType then some ref.propertyType else none
      nullable := if orig.nullable ≠ ref.nullable then some ref.nullable else none
      defaultValue :=
        if !sameDefault orig.defaultValue ref.defaultValue then some ref.defaultValue else none
      description :=
        if orig.description ≠ ref.description then some ref.description else some .empty }
  let hasChanges := orig.name ≠ ref.name ∨ orig.propertyType ≠ ref.propertyType ∨
    orig.nullable ≠ ref.nullable ∨ sameDefault orig.defaultValue ref.defaultValue = false ∨
    orig.description ≠ ref.description
  if hasChanges then some patch else none

/-- `diff_properties`.  The owner is written as a node whatever its kind. -/
def diffProperties (origProps refProps : List PropertyDef) (ownerId : String) :
    List OntologyCommand :=
  let owner : PropertyOwner := .node ⟨ownerId⟩
  ((origProps.filter fun p => p.id ∉ refProps.map (·.id)).map fun p =>
    .deleteProperty owner p.id) ++
  refProps.filterMap fun p =>
    match first (·.id) p.id origProps with
    | some orig => (propertyPatch orig p).map fun patch => .updateProperty owner p.id patch
    | none => some (.addProperty owner p)

def diffConstraints (origs refs : List ConstraintDef) (nodeId : NodeTypeId) :
    List OntologyCommand :=
  ((origs.filter fun c => c.id ∉ refs.map (·.id)).map fun c => .removeConstraint nodeId c.id) ++
  refs.flatMap fun c =>
    match last (·.id) c.id origs with
    | none => [.addConstraint nodeId c]
    | some orig =>
      if orig.constraint ≠ c.constraint then
        [.removeConstraint nodeId orig.id, .addConstraint nodeId c]
      else []

def diffIndexes (origs refs : List IndexDef) : List OntologyCommand :=
  ((origs.filter fun i => i.indexId ∉ refs.map (·.indexId)).map fun i => .removeIndex i.indexId) ++
  (refs.filter fun i => i.indexId ∉ origs.map (·.indexId)).map fun i => .addIndex i

def nodeCommands (original : OntologyIR) (n : NodeTypeDef) : List OntologyCommand :=
  match original.nodeById n.id with
  | some orig =>
    (if orig.label ≠ n.label then [.renameNode n.id n.label] else []) ++
    (if orig.description ≠ n.description then
      [.updateNodeDescription n.id n.description]
     else []) ++
    diffProperties orig.properties n.properties n.id.val ++
    diffConstraints orig.constraints n.constraints n.id
  | none =>
    [.addNode n.id n.label n.description] ++
    n.properties.map (.addProperty (.node n.id)) ++
    n.constraints.map (.addConstraint n.id)

def edgeCommands (original : OntologyIR) (e : EdgeTypeDef) : List OntologyCommand :=
  match original.edgeById e.id with
  | some orig =>
    (if orig.label ≠ e.label then [.renameEdge e.id e.label] else []) ++
    (if orig.cardinality ≠ e.cardinality then
      [.updateEdgeCardinality e.id e.cardinality]
     else []) ++
    (if orig.description ≠ e.description then
      [.updateEdgeDescription e.id e.description]
     else []) ++
    diffProperties orig.properties e.properties e.id.val
  | none =>
    .addEdge e.id e.label e.sourceNodeId e.targetNodeId e.cardinality ::
      e.properties.map (.addProperty (.edge e.id))

def reportMatches {α : Type} (kind : ReconcileEntityKind) (reason : String) (id label : α → String)
    (matches_ : List (α × Match α)) :
    List ReportedEntity × List ReportedEntity × List UncertainMatch :=
  (matches_.filterMap fun
      | (a, .preserved) => some ⟨id a, label a, kind⟩
      | _ => none,
   matches_.filterMap fun
      | (a, .generated) => some ⟨id a, label a, kind⟩
      | _ => none,
   matches_.filterMap fun
      | (a, .fallback o) => some ⟨id o, label o, label a, reason, kind⟩
      | _ => none)

def matchProperties (originals : Option (List PropertyDef)) (ps : List PropertyDef) :
    List (PropertyDef × Match PropertyDef) :=
  match originals with
  | some os => ps.map fun p => (p, matchProperty os p)
  | none => []

/-- Originals whose id no refined entity took. -/
def deletedOriginals {α κ : Type} [DecidableEq κ] (id : α → κ) (originals : List α)
    (matches_ : List (α × Match α)) : List α :=
  let matched := matches_.filterMap fun
    | (a, .preserved) => some (id a)
    | (_, .fallback o) => some (id o)
    | (_, .generated) => none
  originals.filter fun o => id o ∉ matched

def reconcileRefined (original refined : OntologyIR) :
    Except OntologyInvariantError ReconcileResult :=
  let nodeMatches := refined.nodeTypes.map fun n => (n, matchNode original n)
  let remapped := refined.edgeTypes.map (remapEndpoints (nodeIdRemap original refined))
  let edgeMatches := remapped.map fun e => (e, matchEdge original e)
  let nodePropertyMatches := refined.nodeTypes.flatMap fun n =>
    let id := (reidentifyNode original n).id
    matchProperties ((last (·.id) id original.nodeTypes).map (·.properties)) n.properties
  let edgePropertyMatches := remapped.flatMap fun e =>
    let id := (reidentifyEdge original e).id
    matchProperties ((last (·.id) id original.edgeTypes).map (·.properties)) e.properties
  let (np, ng, nu) := reportMatches .node "matched by label"
    (·.id.val) (·.label.val) nodeMatches
  let (ep, eg, eu) := reportMatches .edge "matched by label+source+target"
    (·.id.val) (·.label.val) edgeMatches
  let (pp, pg, pu) := reportMatches .property "matched by property name"
    (·.id.val) (·.name.val) (nodePropertyMatches ++ edgePropertyMatches)
  let deletedNodes := deletedOriginals (·.id) original.nodeTypes nodeMatches
  let deletedEdges := deletedOriginals (·.id) original.edgeTypes edgeMatches
  let uncertain := nu ++ eu ++ pu
  let deleted : List ReportedEntity :=
    deletedNodes.map (fun n => ⟨n.id.val, n.label.val, .node⟩) ++
    deletedEdges.map (fun e => ⟨e.id.val, e.label.val, .edge⟩)
  let reconciled := reidentify original refined
  let commands :=
    deletedNodes.map (.deleteNode ·.id) ++ deletedEdges.map (.deleteEdge ·.id) ++
    reconciled.nodeTypes.flatMap (nodeCommands original) ++
    reconciled.edgeTypes.flatMap (edgeCommands original) ++
    diffIndexes original.indexes reconciled.indexes
  let confidence : ReconcileConfidence :=
    if uncertain.length = 0 ∧ deleted.length = 0 then .high
    else if uncertain.length ≤ 3 ∧ deleted.length ≤ 3 then .medium
    else .low
  do
    reconciled.rebuildIndices
    return {
      ontology := reconciled
      batch := .batch "LLM refine reconciliation" commands
      report :=
        { preservedIds := np ++ ep ++ pp
          generatedIds := ng ++ eg ++ pg
          uncertainMatches := uncertain
          deletedEntities := deleted
          confidence } }

/-- Replace the first entry that satisfies `p`. -/
def updateFirst {α : Type} (p : α → Bool) (f : α → α) : List α → List α
  | [] => []
  | a :: as => if p a then f a :: as else a :: updateFirst p f as

/-- A rejected node match: the first node under the original id gets a new id,
and edges and indexes follow. -/
def rejectNode (o : OntologyIR) (originalId newId : NodeTypeId) : OntologyIR :=
  let fix (id : NodeTypeId) := if id = originalId then newId else id
  if originalId ∈ o.nodeTypes.map (·.id) then
    { o with
      nodeTypes := updateFirst (·.id = originalId) ({ · with id := newId }) o.nodeTypes
      edgeTypes := o.edgeTypes.map fun e =>
        { e with sourceNodeId := fix e.sourceNodeId, targetNodeId := fix e.targetNodeId }
      indexes := o.indexes.map fun i => i.withNodeId (fix i.indexNodeId) }
  else o

/-- A rejected edge match: the first edge under the original id gets a new id. -/
def rejectEdge (o : OntologyIR) (originalId newId : EdgeTypeId) : OntologyIR :=
  { o with edgeTypes := updateFirst (·.id = originalId) ({ · with id := newId }) o.edgeTypes }

/-- A rejected property match: the first owner of the id, nodes before edges,
gets the new id in its first such property, and a node's constraints follow. -/
def rejectProperty (o : OntologyIR) (originalId newId : PropertyId) : OntologyIR :=
  let hasProperty (ps : List PropertyDef) := decide (originalId ∈ ps.map (·.id))
  let renew := updateFirst (·.id = originalId) fun p : PropertyDef => { p with id := newId }
  if o.nodeTypes.any fun n => hasProperty n.properties then
    { o with
      nodeTypes := updateFirst (fun n => hasProperty n.properties)
        (fun n => { n with
          properties := renew n.properties
          constraints := n.constraints.map
            (·.mapPropertyIds fun id => if id = originalId then newId else id) })
        o.nodeTypes }
  else
    { o with
      edgeTypes := updateFirst (fun e => hasProperty e.properties)
        (fun e => { e with properties := renew e.properties }) o.edgeTypes }

/-- One decision.  Accepted matches and decisions on unknown ids change nothing
and draw no identifier. -/
def applyMatchDecision (uuid : Nat → String) (uncertain : List UncertainMatch)
    (state : OntologyIR × Nat) (decision : MatchDecision) : OntologyIR × Nat :=
  if decision.accept then state else
    match uncertain.find? (·.originalId == decision.originalId) with
    | none => state
    | some um =>
      let (o, next) := state
      let fresh := uuid next
      (match um.entityKind with
        | .node => rejectNode o ⟨um.originalId⟩ ⟨fresh⟩
        | .edge => rejectEdge o ⟨um.originalId⟩ ⟨fresh⟩
        | .property => rejectProperty o ⟨um.originalId⟩ ⟨fresh⟩,
       next + 1)

def applyMatchDecisions (uuid : Nat → String) (o : OntologyIR) (decisions : List MatchDecision)
    (uncertain : List UncertainMatch) : Except OntologyInvariantError OntologyIR := do
  let result := (decisions.foldl (applyMatchDecision uuid uncertain) (o, 0)).1
  result.rebuildIndices
  return result

end Ontosyx.Command
