import Ontosyx.Ontology.IR

/-!
# The structural diff of two ontologies

`compute_diff` with its report types.  Nodes, edges and properties are matched
by their stable ids; each matched pair is compared field by field.

`Agrees` states when two ontologies agree on what the diff compares.  It is
parametric in the comparison of two matched properties: `PropertyAgrees` with
the property's name, `AgreesButName` without it.  The report turns out to be
empty exactly when the ontologies agree in the second sense, so a property that
keeps its id and changes only its name is invisible to the diff.

## Main results

* `computeDiff_isEmpty_iff` — the report is empty iff the ontologies agree up
  to property names.
* `computeDiff_complete_iff` — the exact condition under which an empty report
  means full agreement.
-/

namespace Ontosyx.Ontology

open List Ontosyx.Core Lib.Keyed

/-! ## Report types -/

/-- The `Debug` text of a default value, kept as the value it renders. -/
structure DebugText where
  value : PropertyValue

/-- Whether two rendered defaults are the same text. -/
def DebugText.same : Option DebugText → Option DebugText → Bool
  | none, none => true
  | some a, some b => a.value.sameRendering b.value
  | _, _ => false

inductive PropertyChange where
  | typeChanged (old new : String)
  | nullabilityChanged (old new : Bool)
  | descriptionChanged (old new : LocalizedText)
  | defaultValueChanged (old new : Option DebugText)

inductive NodeChange where
  | labelChanged (old new : GraphLabel)
  | descriptionChanged (old new : LocalizedText)
  | propertyAdded (property : PropertyDef)
  | propertyRemoved (property : PropertyDef)
  | propertyModified (propertyName : PropertyKey) (changes : List PropertyChange)
  | constraintAdded (constraint : String)
  | constraintRemoved (constraint : String)

inductive EdgeChange where
  | labelChanged (old new : GraphLabel)
  | descriptionChanged (old new : LocalizedText)
  | sourceChanged (old new : GraphLabel)
  | targetChanged (old new : GraphLabel)
  | cardinalityChanged (old new : Cardinality)
  | propertyAdded (property : PropertyDef)
  | propertyRemoved (property : PropertyDef)
  | propertyModified (propertyName : PropertyKey) (changes : List PropertyChange)

/-- The changes of one node type present on both sides. -/
structure NodeDiff where
  nodeId : NodeTypeId
  label : GraphLabel
  changes : List NodeChange

/-- The changes of one edge type present on both sides. -/
structure EdgeDiff where
  edgeId : EdgeTypeId
  label : GraphLabel
  changes : List EdgeChange

structure DiffSummary where
  totalChanges : Nat
  nodesAdded : Nat
  nodesRemoved : Nat
  nodesModified : Nat
  edgesAdded : Nat
  edgesRemoved : Nat
  edgesModified : Nat
  propertiesAdded : Nat
  propertiesRemoved : Nat

/-- The structural diff between two versions. -/
structure OntologyDiff where
  addedNodes : List NodeTypeDef
  removedNodes : List NodeTypeDef
  modifiedNodes : List NodeDiff
  addedEdges : List EdgeTypeDef
  removedEdges : List EdgeTypeDef
  modifiedEdges : List EdgeDiff
  summary : DiffSummary

/-- `is_empty`: the report contains no changes. -/
def OntologyDiff.isEmpty (d : OntologyDiff) : Bool := d.summary.totalChanges == 0

def sameDefault : Option PropertyValue → Option PropertyValue → Bool
  | none, none => true
  | some a, some b => a.eqv b
  | _, _ => false

def diffSingleProperty (old new : PropertyDef) : List PropertyChange :=
  (if old.propertyType ≠ new.propertyType then
    [.typeChanged (formatPropertyType old.propertyType) (formatPropertyType new.propertyType)]
   else []) ++
  (if old.nullable ≠ new.nullable then [.nullabilityChanged old.nullable new.nullable] else []) ++
  (if old.description ≠ new.description then
    [.descriptionChanged old.description new.description]
   else []) ++
  (if !sameDefault old.defaultValue new.defaultValue then
    [.defaultValueChanged (old.defaultValue.map DebugText.mk) (new.defaultValue.map DebugText.mk)]
   else [])

inductive PropDiffResult where
  | added (property : PropertyDef)
  | removed (property : PropertyDef)
  | modified (name : PropertyKey) (changes : List PropertyChange)

/-- `diff_properties`: the changes, and how many properties came and went. -/
def diffProperties (oldProps newProps : List PropertyDef) : List PropDiffResult × Nat × Nat :=
  let added := unmatched (·.id) newProps (oldProps.map (·.id))
  let removed := unmatched (·.id) oldProps (newProps.map (·.id))
  let modified := (matchedPairs (·.id) oldProps newProps).filterMap fun (oldProp, newProp) =>
    let changes := diffSingleProperty oldProp newProp
    if changes.isEmpty then none else some (.modified newProp.name changes)
  (added.map .added ++ removed.map .removed ++ modified, added.length, removed.length)

def formatConstraint (c : ConstraintDef) : String :=
  match c.constraint with
  | .unique ids => "UNIQUE(" ++ ", ".intercalate (ids.map (·.val)) ++ ")"
  | .exists_ id => "EXISTS(" ++ id.val ++ ")"
  | .nodeKey ids => "NODE_KEY(" ++ ", ".intercalate (ids.map (·.val)) ++ ")"

/-- The constraint part of `diff_node`.  The source compares the JSON of two
constraints, which is equal exactly when the constraints are. -/
def diffConstraints (old new : List ConstraintDef) : List NodeChange :=
  (unmatched (·.id) new (old.map (·.id))).map (fun c => .constraintAdded (formatConstraint c)) ++
  (unmatched (·.id) old (new.map (·.id))).map (fun c => .constraintRemoved (formatConstraint c)) ++
  new.flatMap fun newC =>
    match first (·.id) newC.id old with
    | none => []
    | some oldC =>
      if oldC.constraint ≠ newC.constraint then
        [.constraintRemoved (formatConstraint oldC), .constraintAdded (formatConstraint newC)]
      else []

def PropDiffResult.toNodeChange : PropDiffResult → NodeChange
  | .added p => .propertyAdded p
  | .removed p => .propertyRemoved p
  | .modified name changes => .propertyModified name changes

def diffNode (old new : NodeTypeDef) : List NodeChange × Nat × Nat :=
  let (propChanges, propsAdded, propsRemoved) := diffProperties old.properties new.properties
  ((if old.label ≠ new.label then [.labelChanged old.label new.label] else []) ++
   (if old.description ≠ new.description then
     [.descriptionChanged old.description new.description]
    else []) ++
   propChanges.map PropDiffResult.toNodeChange ++
   diffConstraints old.constraints new.constraints,
   propsAdded, propsRemoved)

def fallbackLabel : GraphLabel := ⟨"unknown", by decide⟩

/-- `resolve_node_label`: the node's label, else its id read as a label. -/
def resolveNodeLabel (o : OntologyIR) (id : NodeTypeId) : GraphLabel :=
  match o.nodeLabel id with
  | some label => label
  | none => (GraphLabel.new id.val).getD fallbackLabel

def PropDiffResult.toEdgeChange : PropDiffResult → EdgeChange
  | .added p => .propertyAdded p
  | .removed p => .propertyRemoved p
  | .modified name changes => .propertyModified name changes

def diffEdge (old new : EdgeTypeDef) (oldOnt newOnt : OntologyIR) : List EdgeChange × Nat × Nat :=
  let (propChanges, propsAdded, propsRemoved) := diffProperties old.properties new.properties
  ((if old.label ≠ new.label then [.labelChanged old.label new.label] else []) ++
   (if old.description ≠ new.description then
     [.descriptionChanged old.description new.description]
    else []) ++
   (if old.sourceNodeId ≠ new.sourceNodeId then
     [.sourceChanged (resolveNodeLabel oldOnt old.sourceNodeId)
       (resolveNodeLabel newOnt new.sourceNodeId)]
    else []) ++
   (if old.targetNodeId ≠ new.targetNodeId then
     [.targetChanged (resolveNodeLabel oldOnt old.targetNodeId)
       (resolveNodeLabel newOnt new.targetNodeId)]
    else []) ++
   (if old.cardinality ≠ new.cardinality then
     [.cardinalityChanged old.cardinality new.cardinality]
    else []) ++
   propChanges.map PropDiffResult.toEdgeChange,
   propsAdded, propsRemoved)

def computeDiff (old new : OntologyIR) : OntologyDiff :=
  let addedNodes := unmatched (·.id) new.nodeTypes (old.nodeTypes.map (·.id))
  let removedNodes := unmatched (·.id) old.nodeTypes (new.nodeTypes.map (·.id))
  let nodePairs := (matchedPairs (·.id) old.nodeTypes new.nodeTypes).map fun p =>
    (p.2, diffNode p.1 p.2)
  let modifiedNodes := nodePairs.filterMap fun (n, changes, _) =>
    if changes.isEmpty then none else some ⟨n.id, n.label, changes⟩
  let addedEdges := unmatched (·.id) new.edgeTypes (old.edgeTypes.map (·.id))
  let removedEdges := unmatched (·.id) old.edgeTypes (new.edgeTypes.map (·.id))
  let edgePairs := (matchedPairs (·.id) old.edgeTypes new.edgeTypes).map fun p =>
    (p.2, diffEdge p.1 p.2 old new)
  let modifiedEdges := edgePairs.filterMap fun (e, changes, _) =>
    if changes.isEmpty then none else some ⟨e.id, e.label, changes⟩
  { addedNodes, removedNodes, modifiedNodes, addedEdges, removedEdges, modifiedEdges
    summary :=
      { nodesAdded := addedNodes.length
        nodesRemoved := removedNodes.length
        nodesModified := modifiedNodes.length
        edgesAdded := addedEdges.length
        edgesRemoved := removedEdges.length
        edgesModified := modifiedEdges.length
        propertiesAdded :=
          (addedNodes.map (·.properties.length)).sum + (nodePairs.map (·.2.2.1)).sum +
            (addedEdges.map (·.properties.length)).sum + (edgePairs.map (·.2.2.1)).sum
        propertiesRemoved :=
          (removedNodes.map (·.properties.length)).sum + (nodePairs.map (·.2.2.2)).sum +
            (removedEdges.map (·.properties.length)).sum + (edgePairs.map (·.2.2.2)).sum
        totalChanges :=
          addedNodes.length + removedNodes.length + modifiedNodes.length +
            addedEdges.length + removedEdges.length + modifiedEdges.length } }

/-- Two properties agree on every field the diff compares, their names aside. -/
structure AgreesButName (p q : PropertyDef) : Prop where
  propertyType : p.propertyType = q.propertyType
  nullable : p.nullable = q.nullable
  description : p.description = q.description
  defaultValue : sameDefault p.defaultValue q.defaultValue = true

/-- Two properties agree on their name and on every field the diff compares. -/
structure PropertyAgrees (p q : PropertyDef) : Prop extends AgreesButName p q where
  name : p.name = q.name

/-- Property lists agree: the same ids, and matched properties related by `R`. -/
abbrev PropertiesAgree (R : PropertyDef → PropertyDef → Prop) :
    List PropertyDef → List PropertyDef → Prop := Agree (·.id) (last (·.id)) R

/-- Constraint lists agree: the same ids with the same content. -/
abbrev ConstraintsAgree : List ConstraintDef → List ConstraintDef → Prop :=
  Agree (·.id) (first (·.id)) fun c d => c.constraint = d.constraint

/-- Two node types agree, their properties compared by `R`. -/
structure NodeAgrees (R : PropertyDef → PropertyDef → Prop) (n m : NodeTypeDef) : Prop where
  label : n.label = m.label
  description : n.description = m.description
  properties : PropertiesAgree R n.properties m.properties
  constraints : ConstraintsAgree n.constraints m.constraints

/-- Two edge types agree, their properties compared by `R`. -/
structure EdgeAgrees (R : PropertyDef → PropertyDef → Prop) (e f : EdgeTypeDef) : Prop where
  label : e.label = f.label
  description : e.description = f.description
  sourceNodeId : e.sourceNodeId = f.sourceNodeId
  targetNodeId : e.targetNodeId = f.targetNodeId
  cardinality : e.cardinality = f.cardinality
  properties : PropertiesAgree R e.properties f.properties

/-- Two ontologies have the same nodes and edges by id, and these agree. -/
structure Agrees (R : PropertyDef → PropertyDef → Prop) (a b : OntologyIR) : Prop where
  nodes : Agree (·.id) (last (·.id)) (NodeAgrees R) a.nodeTypes b.nodeTypes
  edges : Agree (·.id) (last (·.id)) (EdgeAgrees R) a.edgeTypes b.edgeTypes

theorem diffSingle_nil_iff {p q : PropertyDef} :
    diffSingleProperty p q = [] ↔ AgreesButName p q := by
  simp only [diffSingleProperty, append_eq_nil_iff, ite_eq_right_iff, reduceCtorEq, imp_false,
    not_not, Bool.not_eq_true', Bool.not_eq_false]
  constructor
  · rintro ⟨⟨⟨ht, hn⟩, hd⟩, hv⟩
    exact ⟨ht, hn, hd, hv⟩
  · rintro ⟨ht, hn, hd, hv⟩
    exact ⟨⟨⟨ht, hn⟩, hd⟩, hv⟩

/-- The matched pairs that report something are none iff no pair differs. -/
private theorem filterMap_isEmpty_nil_iff {α β γ : Type} {l : List α} {f : α → List β}
    {g : α → γ} :
    (l.filterMap fun x => if (f x).isEmpty then none else some (g x)) = [] ↔
      ∀ x ∈ l, f x = [] := by
  simp only [filterMap_eq_nil_iff, ite_eq_left_iff, reduceCtorEq, imp_false, not_not,
    List.isEmpty_iff]

theorem diffProperties_nil_iff {ps qs : List PropertyDef} :
    (diffProperties ps qs).1 = [] ↔ PropertiesAgree AgreesButName ps qs := by
  rw [PropertiesAgree, agree_iff_unmatched]
  simp only [diffProperties, append_eq_nil_iff, map_eq_nil_iff,
    filterMap_isEmpty_nil_iff, diffSingle_nil_iff, and_assoc]

theorem diffConstraints_nil_iff {cs ds : List ConstraintDef} :
    diffConstraints cs ds = [] ↔ ConstraintsAgree cs ds := by
  simp only [diffConstraints, append_eq_nil_iff, map_eq_nil_iff, unmatched_nil_iff,
    flatMap_eq_nil_iff]
  constructor
  · rintro ⟨⟨hnew, hold⟩, hsame⟩
    refine ⟨fun k => ⟨hold k, hnew k⟩, fun d hd c hc => ?_⟩
    have h := hsame d hd
    simp only [hc, ite_eq_right_iff, reduceCtorEq, imp_false, not_not] at h
    exact h
  · rintro ⟨hk, he⟩
    refine ⟨⟨fun k => (hk k).2, fun k => (hk k).1⟩, fun d hd => ?_⟩
    cases hc : first (·.id) d.id cs with
    | none => rfl
    | some c => simp [he d hd c hc]

theorem diffNode_nil_iff {n m : NodeTypeDef} :
    (diffNode n m).1 = [] ↔ NodeAgrees AgreesButName n m := by
  simp only [diffNode, append_eq_nil_iff, map_eq_nil_iff, diffProperties_nil_iff,
    diffConstraints_nil_iff, ite_eq_right_iff, reduceCtorEq, imp_false, not_not]
  constructor
  · rintro ⟨⟨⟨hl, hd⟩, hp⟩, hc⟩
    exact ⟨hl, hd, hp, hc⟩
  · rintro ⟨hl, hd, hp, hc⟩
    exact ⟨⟨⟨hl, hd⟩, hp⟩, hc⟩

theorem diffEdge_nil_iff {e f : EdgeTypeDef} {a b : OntologyIR} :
    (diffEdge e f a b).1 = [] ↔ EdgeAgrees AgreesButName e f := by
  simp only [diffEdge, append_eq_nil_iff, map_eq_nil_iff, diffProperties_nil_iff,
    ite_eq_right_iff, reduceCtorEq, imp_false, not_not]
  constructor
  · rintro ⟨⟨⟨⟨⟨hl, hd⟩, hs⟩, ht⟩, hc⟩, hp⟩
    exact ⟨hl, hd, hs, ht, hc, hp⟩
  · rintro ⟨hl, hd, hs, ht, hc, hp⟩
    exact ⟨⟨⟨⟨⟨hl, hd⟩, hs⟩, ht⟩, hc⟩, hp⟩

/-- The report is empty exactly when the ontologies agree up to the names of
properties. -/
theorem computeDiff_isEmpty_iff {a b : OntologyIR} :
    (computeDiff a b).isEmpty = true ↔ Agrees AgreesButName a b := by
  have hsum : (computeDiff a b).isEmpty = true ↔
      ((computeDiff a b).addedNodes = [] ∧ (computeDiff a b).removedNodes = [] ∧
        (computeDiff a b).modifiedNodes = []) ∧
      (computeDiff a b).addedEdges = [] ∧ (computeDiff a b).removedEdges = [] ∧
        (computeDiff a b).modifiedEdges = [] := by
    simp only [OntologyDiff.isEmpty, computeDiff, beq_iff_eq, Nat.add_eq_zero_iff,
      length_eq_zero_iff, and_assoc]
  rw [hsum]
  simp only [computeDiff, filterMap_map, Function.comp_def, filterMap_isEmpty_nil_iff,
    diffNode_nil_iff, diffEdge_nil_iff, ← agree_iff_unmatched]
  exact ⟨fun h => ⟨h.1, h.2⟩, fun h => ⟨h.nodes, h.edges⟩⟩

/-! ## Renamed properties -/

/-- Some property keeps its id and changes its name. -/
def PropertiesRenamed (ps qs : List PropertyDef) : Prop :=
  ∃ q ∈ qs, ∃ p, last (·.id) q.id ps = some p ∧ p.name ≠ q.name

/-- Some matched node or edge type has a renamed property. -/
def Renames (a b : OntologyIR) : Prop :=
  (∃ m ∈ b.nodeTypes, ∃ n, last (·.id) m.id a.nodeTypes = some n ∧
    PropertiesRenamed n.properties m.properties) ∨
  ∃ f ∈ b.edgeTypes, ∃ e, last (·.id) f.id a.edgeTypes = some e ∧
    PropertiesRenamed e.properties f.properties

theorem propertiesAgree_iff {ps qs : List PropertyDef} : PropertiesAgree PropertyAgrees ps qs ↔
      PropertiesAgree AgreesButName ps qs ∧ ¬ PropertiesRenamed ps qs := by
  have hsplit : ∀ p q, PropertyAgrees p q ↔ AgreesButName p q ∧ p.name = q.name :=
    fun p q => ⟨fun h => ⟨h.toAgreesButName, h.name⟩, fun h => ⟨h.1, h.2⟩⟩
  rw [PropertiesAgree, agree_iff_of_and _ _ hsplit]
  refine and_congr_right fun _ => ?_
  simp only [PropertiesRenamed, not_exists, not_and, not_not]

theorem nodeAgrees_iff {n m : NodeTypeDef} : NodeAgrees PropertyAgrees n m ↔
      NodeAgrees AgreesButName n m ∧ ¬ PropertiesRenamed n.properties m.properties := by
  constructor
  · rintro ⟨hl, hd, hp, hc⟩
    obtain ⟨hp, hr⟩ := propertiesAgree_iff.1 hp
    exact ⟨⟨hl, hd, hp, hc⟩, hr⟩
  · rintro ⟨⟨hl, hd, hp, hc⟩, hr⟩
    exact ⟨hl, hd, propertiesAgree_iff.2 ⟨hp, hr⟩, hc⟩

theorem edgeAgrees_iff {e f : EdgeTypeDef} : EdgeAgrees PropertyAgrees e f ↔
      EdgeAgrees AgreesButName e f ∧ ¬ PropertiesRenamed e.properties f.properties := by
  constructor
  · rintro ⟨hl, hd, hs, ht, hc, hp⟩
    obtain ⟨hp, hr⟩ := propertiesAgree_iff.1 hp
    exact ⟨⟨hl, hd, hs, ht, hc, hp⟩, hr⟩
  · rintro ⟨⟨hl, hd, hs, ht, hc, hp⟩, hr⟩
    exact ⟨hl, hd, hs, ht, hc, propertiesAgree_iff.2 ⟨hp, hr⟩⟩

/-- Full agreement is agreement up to names without a renamed property. -/
theorem agrees_iff {a b : OntologyIR} :
    Agrees PropertyAgrees a b ↔ Agrees AgreesButName a b ∧ ¬ Renames a b := by
  have hnodes := agree_iff_of_and (·.id) (last (·.id))
    (fun n m => nodeAgrees_iff (n := n) (m := m)) a.nodeTypes b.nodeTypes
  have hedges := agree_iff_of_and (·.id) (last (·.id))
    (fun e f => edgeAgrees_iff (e := e) (f := f)) a.edgeTypes b.edgeTypes
  constructor
  · rintro ⟨hn, he⟩
    obtain ⟨hn, hnr⟩ := hnodes.1 hn
    obtain ⟨he, her⟩ := hedges.1 he
    refine ⟨⟨hn, he⟩, ?_⟩
    rintro (⟨m, hm, n, hnm, hr⟩ | ⟨f, hf, e, hef, hr⟩)
    · exact hnr m hm n hnm hr
    · exact her f hf e hef hr
  · rintro ⟨⟨hn, he⟩, hr⟩
    refine ⟨hnodes.2 ⟨hn, fun m hm n hnm h => ?_⟩, hedges.2 ⟨he, fun f hf e hef h => ?_⟩⟩
    · exact hr (Or.inl ⟨m, hm, n, hnm, h⟩)
    · exact hr (Or.inr ⟨f, hf, e, hef, h⟩)

/-- An empty report means full agreement, and conversely, unless the two
ontologies agree on everything but the name of some property. -/
theorem computeDiff_complete_iff (a b : OntologyIR) :
    ((computeDiff a b).isEmpty = true ↔ Agrees PropertyAgrees a b) ↔
      ¬ (Agrees AgreesButName a b ∧ Renames a b) := by
  rw [computeDiff_isEmpty_iff, agrees_iff]
  tauto

/-- One `Customer` node type with one string property. -/
def customer (property : PropertyKey) : OntologyIR where
  id := "o"
  name := "shop"
  nodeTypes :=
    [{ id := ⟨"customer"⟩
       label := ⟨"Customer", by decide⟩
       properties := [{ id := ⟨"p"⟩, name := property, propertyType := .string }] }]

/-- Renaming the property from `name` to `full_name` under its id leaves the
report empty, though the two ontologies do not agree. -/
theorem computeDiff_misses_rename :
    ¬ ((computeDiff (customer ⟨"name", by decide⟩) (customer ⟨"full_name", by decide⟩)).isEmpty
        = true ↔ Agrees PropertyAgrees (customer ⟨"name", by decide⟩)
        (customer ⟨"full_name", by decide⟩)) := by
  intro h
  have hnode := (h.1 (by decide)).nodes.entries _ (mem_singleton_self _) _ rfl
  have hproperty := hnode.properties.entries _ (mem_singleton_self _) _ rfl
  exact absurd hproperty.name (by decide)

end Ontosyx.Ontology
