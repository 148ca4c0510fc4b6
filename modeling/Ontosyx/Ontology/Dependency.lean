import Ontosyx.Lib.Grouped
import Ontosyx.Ontology.IR

/-!
# The schema dependency graph

`SchemaDependencyGraph::build`: the references of an ontology, in the order in
which the source adds them (`walk`), filed under their target and under their
owner.  A bucket list is sorted by entity and the edges of a bucket among
themselves; `lookup` searches the sorted list.

## Main results

* `dependentsOf_perm`, `referencesOf_perm` — what the two indices hold about an
  entity.
-/

namespace Ontosyx.Ontology

open Ontosyx.Core Lib.Keyed Lib.Grouped

/-- `SchemaEntityRef`, in the order of its variants. -/
inductive SchemaEntityRef where
  | nodeType (id : String)
  | edgeType (id : String)
  | property (owner id : String)
  | interface (id : String)
  | concept (id : String)
  | glossaryTerm (id : String)
  | valueSet (id : String)
  | codeSystem (id : String)
  | notationPattern (id : String)
  | valueRangeSet (id : String)
  | rule (id : String)
  | function (id : String)
  | metric (id : String)
  | action (id : String)
  | enrichment (id : String)
  | objectMapping (id : String)
  | linkMapping (id : String)
  | conceptMap (id : String)
  | dataQuality (id : String)
  | codedValue (codeSystem id : String)
deriving DecidableEq, Ord

inductive DependencyKind where
  | propertyOf
  | edgeSource
  | edgeTarget
  | interfaceImplementation
  | propertyBindingRef
  | functionDerivation
  | unitReference
  | ruleConstraint
  | ruleActivation
  | ruleVocabulary
  | metricScope
  | actionTarget
  | actionRule
  | enrichmentTarget
  | objectMappingTarget
  | linkMappingTarget
  | propertyMappingTarget
  | valueSetComposition
  | conceptMapEndpoint
  | dataQualityTarget
deriving DecidableEq, Ord

structure DependencyEdge where
  endpoint : SchemaEntityRef
  kind : DependencyKind
  label : String
deriving DecidableEq, Ord

structure DependencyBucket where
  target : SchemaEntityRef
  edges : List DependencyEdge

structure SchemaDependencyGraph where
  inbound : List DependencyBucket
  outbound : List DependencyBucket

/-- The arguments of one call of `add_edge`. -/
structure AddedEdge where
  target : SchemaEntityRef
  dependent : SchemaEntityRef
  kind : DependencyKind
  label : String
deriving DecidableEq

/-! ## The walk -/

def quoted (name : String) : String := "`" ++ name ++ "`"

/-- The binding arm of `walk_property`. -/
def walkBinding (prop : SchemaEntityRef) (name : String) : PropertyBinding → AddedEdge
  | .valueSet id .. =>
    ⟨.valueSet id.val, prop, .propertyBindingRef,
      "property " ++ quoted name ++ " value-set binding"⟩
  | .codeSystem id .. =>
    ⟨.codeSystem id.val, prop, .propertyBindingRef,
      "property " ++ quoted name ++ " code-system binding"⟩
  | .notationPattern id .. =>
    ⟨.notationPattern id.val, prop, .propertyBindingRef,
      "property " ++ quoted name ++ " notation-pattern binding"⟩
  | .valueRange id .. =>
    ⟨.valueRangeSet id.val, prop, .propertyBindingRef,
      "property " ++ quoted name ++ " value-range binding"⟩
  | .concept id .. =>
    ⟨.concept id.val, prop, .propertyBindingRef, "property " ++ quoted name ++ " concept binding"⟩

/-- `walk_property`; the code system of a unit is left open. -/
def walkProperty (owner : String) (p : PropertyDef) : List AddedEdge :=
  let prop := SchemaEntityRef.property owner p.id.val
  p.bindings.map (walkBinding prop p.name.val) ++
  p.derivedFrom.toList.map (fun id =>
    ⟨.function id.val, prop, .functionDerivation,
      "property " ++ quoted p.name.val ++ " derived_from"⟩) ++
  p.unitId.toList.map fun id =>
    ⟨.codedValue "" id.val, prop, .unitReference, "property " ++ quoted p.name.val ++ " unit"⟩

/-- The properties of a type, each of which depends on it. -/
def walkProperties (owner : SchemaEntityRef) (ownerId : String) (properties : List PropertyDef) :
    List AddedEdge :=
  properties.flatMap fun p =>
    ⟨owner, .property ownerId p.id.val, .propertyOf, "property " ++ quoted p.name.val⟩ ::
      walkProperty ownerId p

def walkNode (n : NodeTypeDef) : List AddedEdge :=
  let node := SchemaEntityRef.nodeType n.id.val
  walkProperties node n.id.val n.properties ++
  n.implements.map (fun id =>
    ⟨.interface id.val, node, .interfaceImplementation, "implemented by " ++ quoted n.label.val⟩) ++
  n.rules.map (fun id =>
    ⟨.rule id.val, node, .ruleConstraint, "attached to " ++ quoted n.label.val⟩) ++
  n.actions.map (fun id =>
    ⟨.action id.val, node, .actionTarget, "attached to " ++ quoted n.label.val⟩) ++
  n.metrics.map fun id =>
    ⟨.metric id.val, node, .metricScope, "scoped to " ++ quoted n.label.val⟩

def walkEdge (e : EdgeTypeDef) : List AddedEdge :=
  let edge := SchemaEntityRef.edgeType e.id.val
  [⟨.nodeType e.sourceNodeId.val, edge, .edgeSource, "source of " ++ quoted e.label.val⟩,
    ⟨.nodeType e.targetNodeId.val, edge, .edgeTarget, "target of " ++ quoted e.label.val⟩] ++
  walkProperties edge e.id.val e.properties

def ShaclConstraint.labelKind : ShaclConstraint → String
  | .minCount .. => "min_count"
  | .maxCount .. => "max_count"
  | .datatype .. => "datatype"
  | .matchesPattern .. => "matches_pattern"
  | .inValueSet .. => "in_value_set"
  | .hasValue .. => "has_value"
  | .minInclusive .. => "min_inclusive"
  | .maxInclusive .. => "max_inclusive"
  | .minLength .. => "min_length"
  | .maxLength .. => "max_length"
  | .uniqueLang .. => "unique_lang"
  | .closed .. => "closed"
  | .disjoint .. => "disjoint"
  | .uniqueKey .. => "unique_key"
  | .lessThan .. => "less_than"
  | .equals .. => "equals"
  | .or .. => "or"
  | .and .. => "and"
  | .not .. => "not"
  | .xone .. => "xone"
  | .qualifiedValueShape .. => "qualified_value_shape"

def ShaclConstraint.constraintTarget : ShaclConstraint → Option ConstraintTarget
  | .minCount t _ | .maxCount t _ | .datatype t _ | .matchesPattern t _ | .inValueSet t _
  | .hasValue t _ | .minInclusive t _ | .maxInclusive t _ | .minLength t _ | .maxLength t _
  | .uniqueLang t | .lessThan t _ | .equals t _ => some t
  | .closed .. | .disjoint .. | .uniqueKey .. | .or .. | .and .. | .not .. | .xone ..
  | .qualifiedValueShape .. => none

def ShaclConstraint.pinnedProperty (c : ShaclConstraint) : Option SchemaEntityRef :=
  match c.constraintTarget with
  | some (.property nodeTypeId propertyId) => some (.property nodeTypeId.val propertyId.val)
  | _ => none

/-- The registry entry of a vocabulary reference. -/
def ConstraintRef.entity : ConstraintRef → Option SchemaEntityRef
  | .valueSet id => some (.valueSet id.val)
  | .notationPattern id => some (.notationPattern id.val)
  | .propertyId _ => none

def walkConstraint (ruleId : String) (c : ShaclConstraint) : List AddedEdge :=
  c.pinnedProperty.toList.map (fun target =>
    ⟨target, .rule ruleId, .ruleConstraint, "rule " ++ quoted ruleId ++ " constraint"⟩) ++
  (c.referencedIds.filterMap ConstraintRef.entity).map fun target =>
    ⟨target, .rule ruleId, .ruleVocabulary, "rule " ++ quoted ruleId ++ " " ++ c.labelKind⟩

def walkRuleKind (ruleId : String) : RuleKind → List AddedEdge
  | .nodeShape id =>
    [⟨.nodeType id.val, .rule ruleId, .ruleConstraint,
      "rule " ++ quoted ruleId ++ " (NodeShape)"⟩]
  | .propertyShape nodeId id =>
    [⟨.property nodeId.val id.val, .rule ruleId, .ruleConstraint,
      "rule " ++ quoted ruleId ++ " (PropertyShape)"⟩]
  | .edgeShape id =>
    [⟨.edgeType id.val, .rule ruleId, .ruleConstraint,
      "rule " ++ quoted ruleId ++ " (EdgeShape)"⟩]
  | .crossEntityShape _ | .stateMachine .. => []

def walkRule (r : RuleDef) : List AddedEdge :=
  walkRuleKind r.id.val r.kind ++ r.constraints.flatMap (walkConstraint r.id.val) ++
  match r.activation with
  | .onAction actionId =>
    [⟨.action actionId.val, .rule r.id.val, .ruleActivation,
      "rule " ++ quoted r.id.val ++ " activates on action"⟩]
  | _ => []

def walkObjectMapping (om : ObjectMappingDef) : List AddedEdge :=
  ⟨.nodeType om.nodeTypeId.val, .objectMapping om.id.val, .objectMappingTarget,
    "mapped to relation " ++ quoted om.relation⟩ ::
  om.propertyMappings.map fun pm =>
    ⟨.property om.nodeTypeId.val pm.propertyId.val, .objectMapping om.id.val,
      .propertyMappingTarget, "object-mapping property binding"⟩

def linkMappingLabel : LinkMappingKind → String
  | .foreignKey .. => "foreign-key link"
  | .bridge .. => "bridge-relation link"
  | .computed .. => "computed link"
  | .federated .. => "federated link"

def walkLinkMapping (lm : LinkMappingDef) : AddedEdge :=
  ⟨.edgeType lm.edgeTypeId.val, .linkMapping lm.id.val, .linkMappingTarget,
    linkMappingLabel lm.kind⟩

def walkValueSet (vs : ValueSetDef) : List AddedEdge :=
  vs.composition.zipIdx.map fun rule =>
    ⟨.codeSystem rule.1.systemId.val, .valueSet vs.id.val, .valueSetComposition,
      "value set " ++ quoted vs.name ++ " composition rule " ++ toString rule.2⟩

def walkConceptMap (cm : ConceptMapDef) : List AddedEdge :=
  [⟨.codeSystem cm.sourceSystemId.val, .conceptMap cm.id.val, .conceptMapEndpoint,
      "concept map " ++ quoted cm.name ++ " source"⟩,
    ⟨.codeSystem cm.targetSystemId.val, .conceptMap cm.id.val, .conceptMapEndpoint,
      "concept map " ++ quoted cm.name ++ " target"⟩]

def walkEnrichment (enr : EnrichmentDef) : AddedEdge :=
  ⟨.nodeType enr.targetNodeTypeId.val, .enrichment enr.id.val, .enrichmentTarget,
    "enrichment " ++ quoted enr.name⟩

def walkAction (a : ActionDef) : List AddedEdge :=
  (a.preconditions ++ a.postconditions).map fun id =>
    ⟨.rule id.val, .action a.id.val, .actionRule, "action " ++ quoted a.name ++ " references rule"⟩

/-- One data-quality definition, with `data_quality_targets`. -/
def walkDataQuality (dq : DataQualityDef) : AddedEdge :=
  ⟨match dq.target with
    | .nodeType id => .nodeType id.val
    | .property nodeId id => .property nodeId.val id.val,
    .dataQuality dq.id.val, .dataQualityTarget, "data quality " ++ quoted dq.id.val⟩

/-- Every call of `add_edge` that `build` makes. -/
def OntologyIR.walk (o : OntologyIR) : List AddedEdge :=
  o.nodeTypes.flatMap walkNode ++ o.edgeTypes.flatMap walkEdge ++ o.rules.flatMap walkRule ++
  o.objectMappings.flatMap walkObjectMapping ++ o.linkMappings.map walkLinkMapping ++
  o.valueSets.flatMap walkValueSet ++ o.conceptMaps.flatMap walkConceptMap ++
  o.enrichments.map walkEnrichment ++ o.actions.flatMap walkAction ++
  o.dataQuality.map walkDataQuality

/-! ## The graph -/

/-- The half of a reference that is filed under its target. -/
def AddedEdge.inboundEdge (r : AddedEdge) : DependencyEdge := ⟨r.dependent, r.kind, r.label⟩

/-- The half of a reference that is filed under its owner. -/
def AddedEdge.outboundEdge (r : AddedEdge) : DependencyEdge := ⟨r.target, r.kind, r.label⟩

/-- `finalize_index`, which takes the keys in their order. -/
def finalizeIndex (map : List (SchemaEntityRef × List DependencyEdge)) : List DependencyBucket :=
  (map.mergeSort fun a b => (compare a.1 b.1).isLE).map fun entry =>
    ⟨entry.1, entry.2.mergeSort fun a b => (compare a b).isLE⟩

/-- `lookup`: the edges of the bucket under the key. -/
def lookup (index : List DependencyBucket) (key : SchemaEntityRef) : List DependencyEdge :=
  match index.find? fun b => b.target = key with
  | some bucket => bucket.edges
  | none => []

namespace SchemaDependencyGraph

def build (o : OntologyIR) : SchemaDependencyGraph where
  inbound := finalizeIndex (gather AddedEdge.target AddedEdge.inboundEdge o.walk)
  outbound := finalizeIndex (gather AddedEdge.dependent AddedEdge.outboundEdge o.walk)

def dependentsOf (g : SchemaDependencyGraph) (target : SchemaEntityRef) : List DependencyEdge :=
  lookup g.inbound target

def referencesOf (g : SchemaDependencyGraph) (source : SchemaEntityRef) : List DependencyEdge :=
  lookup g.outbound source

end SchemaDependencyGraph

/-- The edges found under a key are those of its group, in another order. -/
theorem lookup_finalizeIndex_perm {map : List (SchemaEntityRef × List DependencyEdge)}
    (hnd : (map.map Prod.fst).Nodup) (key : SchemaEntityRef) :
    (lookup (finalizeIndex map) key).Perm (groupAt key map) := by
  have hsort := List.mergeSort_perm map fun a b => (compare a.1 b.1).isLE
  rw [groupAt_perm hsort.symm hnd key]
  generalize hsorted : map.mergeSort (fun a b => (compare a.1 b.1).isLE) = sorted
  rw [lookup, finalizeIndex, hsorted, List.find?_map, groupAt, first]
  -- the search of the buckets is the search of the sorted map
  have hfind : (sorted.find? ((fun b : DependencyBucket => decide (b.target = key)) ∘ fun entry =>
      ⟨entry.1, entry.2.mergeSort fun a b => (compare a b).isLE⟩)) =
      sorted.find? fun entry => decide (entry.1 = key) := rfl
  rw [hfind]
  cases sorted.find? fun entry => decide (entry.1 = key) with
  | none => exact .refl _
  | some entry => exact List.mergeSort_perm _ _

namespace SchemaDependencyGraph

/-- The dependents of an entity are the owners of the references that target it. -/
theorem dependentsOf_perm (o : OntologyIR) (target : SchemaEntityRef) :
    ((build o).dependentsOf target).Perm
      ((o.walk.filter fun r => r.target = target).map AddedEdge.inboundEdge) := by
  rw [← groupAt_gather]
  exact lookup_finalizeIndex_perm (nodup_keys_gather _ _ _) target

/-- The references of an entity are the targets of the references it owns. -/
theorem referencesOf_perm (o : OntologyIR) (source : SchemaEntityRef) :
    ((build o).referencesOf source).Perm
      ((o.walk.filter fun r => r.dependent = source).map AddedEdge.outboundEdge) := by
  rw [← groupAt_gather]
  exact lookup_finalizeIndex_perm (nodup_keys_gather _ _ _) source

end SchemaDependencyGraph

end Ontosyx.Ontology
