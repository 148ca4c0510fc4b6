import Ontosyx.Ontology.Dependency
import Ontosyx.Ontology.Validity

/-!
# What the dependency graph covers

The pointers of an ontology that validation resolves, each as its two ends.
Those of `walkedPointers` have an arm in `build`; those of `unwalkedPointers`
have none, or lead to an entity under another name than the one `build` files
them under.

## Main results

* `dependencyComplete_iff` — the graph answers for every pointer exactly when
  the ontology holds no unwalked one.
-/

namespace Ontosyx.Ontology

open List Ontosyx.Core Lib.Keyed Lib.Grouped

/-- The two ends of an id pointer; an end that `SchemaEntityRef` has no variant for is `none`. -/
structure SchemaPointer where
  owner : Option SchemaEntityRef
  target : Option SchemaEntityRef
deriving DecidableEq

def SchemaPointer.between (owner target : SchemaEntityRef) : SchemaPointer :=
  ⟨some owner, some target⟩

/-- The pointer a reference of the walk stands for. -/
def AddedEdge.pointer (r : AddedEdge) : SchemaPointer := .between r.dependent r.target

/-- The registry entry that a binding names. -/
def PropertyBinding.entity : PropertyBinding → SchemaEntityRef
  | .valueSet id .. => .valueSet id.val
  | .codeSystem id .. => .codeSystem id.val
  | .notationPattern id .. => .notationPattern id.val
  | .valueRange id .. => .valueRangeSet id.val
  | .concept id .. => .concept id.val

namespace OntologyIR

variable (o : OntologyIR)

def codedValueHost (id : CodedValueId) : String :=
  match o.codeSystems.find? fun s => s.codes.any fun c => c.id = id with
  | some system => system.id.val
  | none => ""

/-- The coded value that carries a code of a system. -/
def codeEntity (systemId : CodeSystemId) (code : String) : Option SchemaEntityRef :=
  (first (·.id) systemId o.codeSystems).bind fun system =>
    (system.codes.find? fun c => c.code = code).map fun c => .codedValue systemId.val c.id.val

/-! ## Pointers with an arm -/

def walkedOfProperty (owner : String) (p : PropertyDef) : List SchemaPointer :=
  let held := SchemaPointer.between (.property owner p.id.val)
  p.bindings.map (fun b => held b.entity) ++
  p.derivedFrom.toList.map (fun id => held (.function id.val)) ++
  (p.unitId.toList.filter fun id => o.codedValueHost id = "").map fun id =>
    held (.codedValue "" id.val)

def walkedOfNode (n : NodeTypeDef) : List SchemaPointer :=
  let held := SchemaPointer.between (.nodeType n.id.val)
  n.properties.flatMap (o.walkedOfProperty n.id.val) ++
  n.implements.map (fun id => held (.interface id.val)) ++
  n.rules.map (fun id => held (.rule id.val)) ++
  n.actions.map (fun id => held (.action id.val)) ++
  n.metrics.map fun id => held (.metric id.val)

def walkedOfEdge (e : EdgeTypeDef) : List SchemaPointer :=
  let held := SchemaPointer.between (.edgeType e.id.val)
  [held (.nodeType e.sourceNodeId.val), held (.nodeType e.targetNodeId.val)] ++
  e.properties.flatMap (o.walkedOfProperty e.id.val)

end OntologyIR

def RuleKind.walkedTargets : RuleKind → List SchemaEntityRef
  | .nodeShape id => [.nodeType id.val]
  | .propertyShape nodeId id => [.property nodeId.val id.val]
  | .edgeShape id => [.edgeType id.val]
  | .crossEntityShape _ | .stateMachine .. => []

def ShaclConstraint.walkedTargets (c : ShaclConstraint) : List SchemaEntityRef :=
  c.pinnedProperty.toList ++ c.referencedIds.filterMap ConstraintRef.entity

def RuleActivationKind.actions : RuleActivationKind → List SchemaEntityRef
  | .onAction id => [.action id.val]
  | .always | .onSchedule _ => []

def RuleDef.walkedPointers (r : RuleDef) : List SchemaPointer :=
  (r.kind.walkedTargets ++ r.constraints.flatMap ShaclConstraint.walkedTargets ++
    r.activation.actions).map (.between (.rule r.id.val))

def ObjectMappingDef.walkedPointers (om : ObjectMappingDef) : List SchemaPointer :=
  (.nodeType om.nodeTypeId.val ::
    om.propertyMappings.map fun pm => .property om.nodeTypeId.val pm.propertyId.val).map
      (.between (.objectMapping om.id.val))

def LinkMappingDef.walkedPointer (lm : LinkMappingDef) : SchemaPointer :=
  .between (.linkMapping lm.id.val) (.edgeType lm.edgeTypeId.val)

def ValueSetDef.walkedPointers (vs : ValueSetDef) : List SchemaPointer :=
  vs.composition.map fun rule => .between (.valueSet vs.id.val) (.codeSystem rule.systemId.val)

def ConceptMapDef.walkedPointers (cm : ConceptMapDef) : List SchemaPointer :=
  [cm.sourceSystemId, cm.targetSystemId].map fun id =>
    .between (.conceptMap cm.id.val) (.codeSystem id.val)

def ActionDef.walkedPointers (a : ActionDef) : List SchemaPointer :=
  (a.preconditions ++ a.postconditions).map fun id => .between (.action a.id.val) (.rule id.val)

/-- Every pointer with an arm in `build`. -/
def OntologyIR.walkedPointers (o : OntologyIR) : List SchemaPointer :=
  o.nodeTypes.flatMap o.walkedOfNode ++ o.edgeTypes.flatMap o.walkedOfEdge ++
  o.rules.flatMap RuleDef.walkedPointers ++
  o.objectMappings.flatMap ObjectMappingDef.walkedPointers ++
  o.linkMappings.map LinkMappingDef.walkedPointer ++
  o.valueSets.flatMap ValueSetDef.walkedPointers ++
  o.conceptMaps.flatMap ConceptMapDef.walkedPointers ++
  o.actions.flatMap ActionDef.walkedPointers

/-! ## Pointers without an arm -/

def typeConcepts (owner : SchemaEntityRef) (conceptId : Option ConceptId)
    (realizations : List ConceptRealization) : List SchemaPointer :=
  (conceptId.toList ++ realizations.map (·.conceptId)).map fun id =>
    .between owner (.concept id.val)

/-- The unwalked pointers of a property: the concept maps of its bindings, and a unit that a code
system holds. -/
def OntologyIR.unwalkedOfProperty (o : OntologyIR) (owner : String) (p : PropertyDef) :
    List SchemaPointer :=
  let held := SchemaPointer.between (.property owner p.id.val)
  (p.bindings.filterMap PropertyBinding.conceptMapId).map (fun id => held (.conceptMap id.val)) ++
  (p.unitId.toList.filter fun id => o.codedValueHost id ≠ "").map fun id =>
    held (.codedValue (o.codedValueHost id) id.val)

def OntologyIR.unwalkedOfNode (o : OntologyIR) (n : NodeTypeDef) : List SchemaPointer :=
  n.properties.flatMap (o.unwalkedOfProperty n.id.val) ++
  (n.constraints.flatMap (·.constraint.properties)).map (fun id =>
    .between (.nodeType n.id.val) (.property n.id.val id.val)) ++
  typeConcepts (.nodeType n.id.val) n.conceptId n.conceptRealizations

def OntologyIR.unwalkedOfEdge (o : OntologyIR) (e : EdgeTypeDef) : List SchemaPointer :=
  e.properties.flatMap (o.unwalkedOfProperty e.id.val) ++
  typeConcepts (.edgeType e.id.val) e.conceptId e.conceptRealizations

/-- The type and the property of a state machine. -/
def RuleKind.unwalkedTargets : RuleKind → List SchemaEntityRef
  | .stateMachine nodeId id _ => [.nodeType nodeId.val, .property nodeId.val id.val]
  | .nodeShape _ | .propertyShape .. | .edgeShape _ | .crossEntityShape _ => []

def ShaclConstraint.siblings (nodeId : NodeTypeId) : ShaclConstraint → List SchemaEntityRef
  | .lessThan _ other | .equals _ other => [.property nodeId.val other.val]
  | _ => []

/-- The siblings that the property-pair constraints of a property shape name. -/
def RuleDef.siblings (r : RuleDef) : List SchemaEntityRef :=
  match r.kind with
  | .propertyShape nodeId _ => r.constraints.flatMap (ShaclConstraint.siblings nodeId)
  | _ => []

def RuleOrigin.properties : RuleOrigin → List SchemaEntityRef
  | .derivedFromBinding nodeId id => [.property nodeId.val id.val]
  | _ => []

def RuleDef.unwalkedPointers (r : RuleDef) : List SchemaPointer :=
  (r.kind.unwalkedTargets ++ r.siblings ++ r.origin.properties).map (.between (.rule r.id.val))

def ObjectMappingDef.unwalkedPointers (om : ObjectMappingDef) : List SchemaPointer :=
  (om.propertyMappings.filterMap (·.conceptMapId)).map fun id =>
    .between (.objectMapping om.id.val) (.conceptMap id.val)

/-- The coded values that a value-set rule picks out. -/
def OntologyIR.selected (o : OntologyIR) (rule : ValueSetIncludeRule) :
    List (Option SchemaEntityRef) :=
  match rule.selector with
  | .explicit codes => codes.map (o.codeEntity rule.systemId)
  | .descendantsOf rootId => [some (.codedValue rule.systemId.val rootId.val)]
  | .all | .codePattern _ => []

def OntologyIR.unwalkedOfValueSet (o : OntologyIR) (vs : ValueSetDef) : List SchemaPointer :=
  (vs.composition.flatMap o.selected).map fun target => ⟨some (.valueSet vs.id.val), target⟩

def OntologyIR.unwalkedOfConceptMap (o : OntologyIR) (cm : ConceptMapDef) : List SchemaPointer :=
  cm.mappings.flatMap fun m =>
    [⟨some (.conceptMap cm.id.val), o.codeEntity cm.sourceSystemId m.sourceCode⟩,
      ⟨some (.conceptMap cm.id.val), o.codeEntity cm.targetSystemId m.targetCode⟩]

def TermRealisation.targets : TermRealisation → List (Option SchemaEntityRef)
  | .segment _ => [none]
  | .function id => [some (.function id.val)]
  | .crossEntity _ => []

def ConceptDef.unwalkedPointers (c : ConceptDef) : List SchemaPointer :=
  let terms := (c.canonicalTermId :: c.aliasTermIds).map fun id =>
    SchemaEntityRef.glossaryTerm id.val
  let concepts := (c.broader.toList ++ c.replacedBy.toList).map fun id =>
    SchemaEntityRef.concept id.val
  ((terms ++ concepts).map some ++ c.realisation.toList.flatMap TermRealisation.targets).map
    fun target => ⟨some (.concept c.id.val), target⟩

def TermLifecycle.replacements : TermLifecycle → List GlossaryTermId
  | .deprecated replacedBy _ => replacedBy.toList
  | .active | .retired _ => []

def GlossaryTermDef.unwalkedPointers (t : GlossaryTermDef) : List SchemaPointer :=
  let held := SchemaPointer.between (.glossaryTerm t.id.val)
  t.conceptId.toList.map (fun id => held (.concept id.val)) ++
  (t.relatedTerms.map (·.target) ++ t.lifecycle.replacements).map fun id =>
    held (.glossaryTerm id.val)

/-- The properties of the target node that a segment names. -/
def OntologyIR.segmentProperties (o : OntologyIR) (s : SegmentDef) : List SchemaEntityRef :=
  (o.nodeTypes.filter fun n => n.id = s.targetNodeTypeId).flatMap fun n =>
    (n.properties.filter fun p => p.name ∈ s.referencedProperties).map fun p =>
      .property n.id.val p.id.val

def OntologyIR.unwalkedOfSegment (o : OntologyIR) (s : SegmentDef) : List SchemaPointer :=
  (.nodeType s.targetNodeTypeId.val :: o.segmentProperties s).map fun target => ⟨none, some target⟩

def IndexDef.unwalkedPointers (i : IndexDef) : List SchemaPointer :=
  (.nodeType i.nodeId.val :: i.properties.map fun id => .property i.nodeId.val id.val).map
    fun target => ⟨none, some target⟩

def TableInventoryEntry.unwalkedPointers (t : TableInventoryEntry) : List SchemaPointer :=
  t.contributedNodeIds.map (fun id => ⟨none, some (.nodeType id.val)⟩) ++
  t.contributedEdgeIds.map fun id => ⟨none, some (.edgeType id.val)⟩

/-- Every pointer without an arm in `build`. -/
def OntologyIR.unwalkedPointers (o : OntologyIR) : List SchemaPointer :=
  o.nodeTypes.flatMap o.unwalkedOfNode ++ o.edgeTypes.flatMap o.unwalkedOfEdge ++
  o.rules.flatMap RuleDef.unwalkedPointers ++
  o.objectMappings.flatMap ObjectMappingDef.unwalkedPointers ++
  o.valueSets.flatMap o.unwalkedOfValueSet ++ o.conceptMaps.flatMap o.unwalkedOfConceptMap ++
  o.concepts.flatMap ConceptDef.unwalkedPointers ++
  o.glossary.flatMap GlossaryTermDef.unwalkedPointers ++
  o.segments.flatMap o.unwalkedOfSegment ++ o.indexes.flatMap IndexDef.unwalkedPointers ++
  o.tableInventory.flatMap TableInventoryEntry.unwalkedPointers

def OntologyIR.schemaPointers (o : OntologyIR) : List SchemaPointer :=
  o.walkedPointers ++ o.unwalkedPointers

/-- The graph answers for every pointer: it is one edge of each index, the two edges agree, and
what has no dependents is not pointed at. -/
structure DependencyComplete (o : OntologyIR) (g : SchemaDependencyGraph) : Prop where
  edgeOnce : ∀ p ∈ o.schemaPointers, ∃ owner target, p = .between owner target ∧
    (g.dependentsOf target).countP (·.endpoint = owner) = o.schemaPointers.count p ∧
    (((g.dependentsOf target).filter fun e => e.endpoint = owner).map fun e =>
      (e.kind, e.label)).Perm
      (((g.referencesOf owner).filter fun e => e.endpoint = target).map fun e =>
        (e.kind, e.label))
  removable : ∀ target, g.dependentsOf target = [] →
    ∀ p ∈ o.schemaPointers, p.target ≠ some target

/-! ## The walk and the pointers -/

namespace OntologyIR

variable (o : OntologyIR)

/-- The pairs that `build` adds beside the pointers: the type of a property, the types of
enrichments and data-quality definitions, and a unit under no code system. -/
def isExtra (p : SchemaPointer) : Bool :=
  match p.owner, p.target with
  | some (.property ..), some (.nodeType _) | some (.property ..), some (.edgeType _)
  | some (.enrichment _), _ | some (.dataQuality _), _ => true
  | some (.property ..), some (.codedValue system id) =>
    system = "" ∧ o.codedValueHost ⟨id⟩ ≠ ""
  | _, _ => false

def plain (rs : List AddedEdge) : List SchemaPointer :=
  (rs.map AddedEdge.pointer).filter fun p => !o.isExtra p

variable {o}

theorem plain_append (rs rs' : List AddedEdge) :
    o.plain (rs ++ rs') = o.plain rs ++ o.plain rs' := by
  rw [plain, map_append, filter_append]
  rfl

variable {α : Type}

theorem plain_flatMap (f : α → List AddedEdge) (xs : List α) :
    o.plain (xs.flatMap f) = xs.flatMap fun x => o.plain (f x) := by
  rw [plain, map_flatMap, filter_flatMap]
  rfl

theorem plain_map (f : α → AddedEdge) (xs : List α)
    (h : ∀ x ∈ xs, o.isExtra (f x).pointer = false) :
    o.plain (xs.map f) = xs.map fun x => (f x).pointer := by
  rw [plain, map_map]
  refine filter_eq_self.2 fun p hp => ?_
  obtain ⟨x, hx, rfl⟩ := mem_map.1 hp
  rw [Bool.not_eq_true']
  exact h x hx

theorem plain_map_nil (f : α → AddedEdge) (xs : List α)
    (h : ∀ x ∈ xs, o.isExtra (f x).pointer = true) : o.plain (xs.map f) = [] := by
  rw [plain, map_map]
  refine filter_eq_nil_iff.2 fun p hp => ?_
  obtain ⟨x, hx, rfl⟩ := mem_map.1 hp
  rw [Function.comp_apply, h x hx]
  decide

theorem plain_walkProperty (owner : String) (p : PropertyDef) :
    o.plain (walkProperty owner p) = o.walkedOfProperty owner p := by
  have hbindings : o.plain (p.bindings.map (walkBinding (.property owner p.id.val) p.name.val)) =
      p.bindings.map fun b => .between (.property owner p.id.val) b.entity := by
    rw [plain_map]
    · refine map_congr_left fun b _ => ?_
      cases b <;> rfl
    · intro b _
      cases b <;> rfl
  have hderived : o.plain (p.derivedFrom.toList.map fun id =>
      ⟨.function id.val, .property owner p.id.val, .functionDerivation,
        "property " ++ quoted p.name.val ++ " derived_from"⟩) =
      p.derivedFrom.toList.map fun id =>
        .between (.property owner p.id.val) (.function id.val) :=
    plain_map _ _ fun _ _ => rfl
  -- a unit is filed under no code system, a pointer only where there is none
  have hunit : o.plain (p.unitId.toList.map fun id =>
      ⟨.codedValue "" id.val, .property owner p.id.val, .unitReference,
        "property " ++ quoted p.name.val ++ " unit"⟩) =
      (p.unitId.toList.filter fun id => o.codedValueHost id = "").map fun id =>
        .between (.property owner p.id.val) (.codedValue "" id.val) := by
    cases p.unitId with
    | none => rfl
    | some id =>
      by_cases hhost : o.codedValueHost id = ""
      · simp [plain, AddedEdge.pointer, SchemaPointer.between, isExtra, hhost]
      · simp [plain, AddedEdge.pointer, SchemaPointer.between, isExtra, hhost]
  rw [walkProperty, plain_append, plain_append, hbindings, hderived, hunit]
  rfl

theorem plain_walkProperties {owner : SchemaEntityRef}
    (howner : ∀ id pid, o.isExtra (.between (.property id pid) owner) = true) (ownerId : String)
    (properties : List PropertyDef) : o.plain (walkProperties owner ownerId properties) =
      properties.flatMap (o.walkedOfProperty ownerId) := by
  rw [walkProperties, plain_flatMap]
  refine flatMap_congr fun p _ => ?_
  rw [← plain_walkProperty, plain, map_cons, filter_cons, AddedEdge.pointer, howner]
  rfl

theorem plain_walkNode (n : NodeTypeDef) : o.plain (walkNode n) = o.walkedOfNode n := by
  rw [walkNode, plain_append, plain_append, plain_append, plain_append,
    plain_walkProperties fun _ _ => rfl, plain_map _ _ fun _ _ => rfl,
    plain_map _ _ fun _ _ => rfl, plain_map _ _ fun _ _ => rfl, plain_map _ _ fun _ _ => rfl]
  rfl

theorem plain_walkEdge (e : EdgeTypeDef) : o.plain (walkEdge e) = o.walkedOfEdge e := by
  rw [walkEdge, plain_append, plain_walkProperties fun _ _ => rfl]
  rfl

theorem plain_walkConstraint (ruleId : String) (c : ShaclConstraint) :
    o.plain (walkConstraint ruleId c) = c.walkedTargets.map (.between (.rule ruleId)) := by
  rw [walkConstraint, plain_append, plain_map _ _ fun _ _ => rfl, plain_map _ _ fun _ _ => rfl,
    ShaclConstraint.walkedTargets, map_append]
  rfl

theorem plain_walkRule (r : RuleDef) : o.plain (walkRule r) = r.walkedPointers := by
  have hkind : o.plain (walkRuleKind r.id.val r.kind) =
      r.kind.walkedTargets.map (.between (.rule r.id.val)) := by
    cases r.kind <;> rfl
  have hconstraints : o.plain (r.constraints.flatMap (walkConstraint r.id.val)) =
      (r.constraints.flatMap ShaclConstraint.walkedTargets).map (.between (.rule r.id.val)) := by
    rw [plain_flatMap, map_flatMap]
    exact flatMap_congr fun c _ => plain_walkConstraint _ c
  rw [walkRule, plain_append, plain_append, hkind, hconstraints, RuleDef.walkedPointers,
    map_append, map_append]
  cases r.activation <;> rfl

theorem plain_walkObjectMapping (om : ObjectMappingDef) :
    o.plain (walkObjectMapping om) = om.walkedPointers := by
  rw [ObjectMappingDef.walkedPointers, map_cons, map_map]
  have hproperties := plain_map (o := o) (fun pm : PropertyMappingDef =>
    ⟨.property om.nodeTypeId.val pm.propertyId.val, .objectMapping om.id.val,
      .propertyMappingTarget, "object-mapping property binding"⟩) om.propertyMappings
    fun _ _ => rfl
  rw [walkObjectMapping, ← singleton_append, plain_append, hproperties]
  rfl

theorem plain_walkDataQuality (ds : List DataQualityDef) : o.plain (ds.map walkDataQuality) = [] :=
  plain_map_nil _ _ fun d _ => by cases h : d.target <;> simp [walkDataQuality, h,
    AddedEdge.pointer, SchemaPointer.between, isExtra]

/-- The references of the walk that are pointers are the walked ones, in their order. -/
theorem plain_walk (o : OntologyIR) : o.plain o.walk = o.walkedPointers := by
  have hnodes := flatMap_congr (l := o.nodeTypes) fun n _ => plain_walkNode (o := o) n
  have hedges := flatMap_congr (l := o.edgeTypes) fun e _ => plain_walkEdge (o := o) e
  have hrules := flatMap_congr (l := o.rules) fun r _ => plain_walkRule (o := o) r
  have hobjects := flatMap_congr (l := o.objectMappings) fun om _ =>
    plain_walkObjectMapping (o := o) om
  have hlinks : o.plain (o.linkMappings.map walkLinkMapping) =
      o.linkMappings.map LinkMappingDef.walkedPointer := plain_map _ _ fun _ _ => rfl
  have hsets : (o.valueSets.flatMap fun vs => o.plain (walkValueSet vs)) =
      o.valueSets.flatMap ValueSetDef.walkedPointers := by
    refine flatMap_congr fun vs _ => ?_
    rw [walkValueSet, plain_map _ _ fun _ _ => rfl, ValueSetDef.walkedPointers]
    nth_rewrite 2 [← zipIdx_map_fst 0 vs.composition]
    rw [map_map]
    rfl
  have hactions : (o.actions.flatMap fun a => o.plain (walkAction a)) =
      o.actions.flatMap ActionDef.walkedPointers :=
    flatMap_congr fun a _ => plain_map _ _ fun _ _ => rfl
  have henrichments : o.plain (o.enrichments.map walkEnrichment) = [] :=
    plain_map_nil _ _ fun _ _ => rfl
  rw [walk]
  simp only [plain_append, plain_flatMap]
  rw [hnodes, hedges, hrules, hobjects, hlinks, hsets, hactions, henrichments,
    plain_walkDataQuality, append_nil, append_nil]
  rfl

/-! ## Pointers are no pairs of the walk's own -/

/-- An owner that `build` adds no pair of its own for. -/
def plainOwner : Option SchemaEntityRef → Bool
  | some (.property ..) | some (.enrichment _) | some (.dataQuality _) => false
  | _ => true

theorem isExtra_of_plainOwner {p : SchemaPointer} (h : plainOwner p.owner = true) :
    o.isExtra p = false := by
  obtain ⟨owner, target⟩ := p
  rw [isExtra]
  split
  all_goals simp_all [plainOwner]

variable {q : SchemaPointer}

theorem isExtra_unwalkedOfProperty {owner : String} {p : PropertyDef}
    (hq : q ∈ o.unwalkedOfProperty owner p) : o.isExtra q = false := by
  rcases mem_append.1 hq with hmap | hunit
  · obtain ⟨id, -, rfl⟩ := mem_map.1 hmap
    rfl
  · obtain ⟨id, hid, rfl⟩ := mem_map.1 hunit
    have hhost : o.codedValueHost id ≠ "" := of_decide_eq_true (mem_filter.1 hid).2
    simp [isExtra, SchemaPointer.between, hhost]

theorem isExtra_typeConcepts {owner : SchemaEntityRef} (howner : plainOwner (some owner) = true)
    {conceptId : Option ConceptId} {realizations : List ConceptRealization}
    (hq : q ∈ typeConcepts owner conceptId realizations) : o.isExtra q = false := by
  obtain ⟨id, -, rfl⟩ := mem_map.1 hq
  exact isExtra_of_plainOwner howner

theorem isExtra_unwalkedOfNode {n : NodeTypeDef} (hq : q ∈ o.unwalkedOfNode n) :
    o.isExtra q = false := by
  simp only [unwalkedOfNode, mem_append, mem_flatMap] at hq
  obtain (⟨p, -, hprop⟩ | hconstraint) | hconcept := hq
  · exact isExtra_unwalkedOfProperty hprop
  · obtain ⟨id, -, rfl⟩ := mem_map.1 hconstraint
    rfl
  · exact isExtra_typeConcepts rfl hconcept

theorem isExtra_unwalkedOfEdge {e : EdgeTypeDef} (hq : q ∈ o.unwalkedOfEdge e) :
    o.isExtra q = false := by
  simp only [unwalkedOfEdge, mem_append, mem_flatMap] at hq
  obtain ⟨p, -, hprop⟩ | hconcept := hq
  · exact isExtra_unwalkedOfProperty hprop
  · exact isExtra_typeConcepts rfl hconcept

/-- The pointers of a collection whose entries own no pair of the walk's own. -/
theorem isExtra_flatMap {f : α → List SchemaPointer} (owner : α → Option SchemaEntityRef)
    (howner : ∀ x, plainOwner (owner x) = true) (hf : ∀ x, ∀ q ∈ f x, q.owner = owner x)
    {xs : List α} (hq : q ∈ xs.flatMap f) : o.isExtra q = false := by
  obtain ⟨x, -, hx⟩ := mem_flatMap.1 hq
  refine isExtra_of_plainOwner ?_
  rw [hf x q hx]
  exact howner x

theorem isExtra_unwalkedPointers (hq : q ∈ o.unwalkedPointers) : o.isExtra q = false := by
  simp only [unwalkedPointers, mem_append] at hq
  obtain (((((((((hnode | hedge) | hrule) | hobject) | hset) | hmap) | hconcept) | hterm) |
    hsegment) | hindex) | htable := hq
  · obtain ⟨n, -, hn⟩ := mem_flatMap.1 hnode
    exact isExtra_unwalkedOfNode hn
  · obtain ⟨e, -, he⟩ := mem_flatMap.1 hedge
    exact isExtra_unwalkedOfEdge he
  · refine isExtra_flatMap (fun r => some (.rule r.id.val)) (fun _ => rfl) ?_ hrule
    intro r q hq
    obtain ⟨_, -, rfl⟩ := mem_map.1 hq
    rfl
  · refine isExtra_flatMap (fun om => some (.objectMapping om.id.val)) (fun _ => rfl) ?_
      hobject
    intro om q hq
    obtain ⟨_, -, rfl⟩ := mem_map.1 hq
    rfl
  · refine isExtra_flatMap (fun vs => some (.valueSet vs.id.val)) (fun _ => rfl) ?_ hset
    intro vs q hq
    obtain ⟨_, -, rfl⟩ := mem_map.1 hq
    rfl
  · refine isExtra_flatMap (fun cm => some (.conceptMap cm.id.val)) (fun _ => rfl) ?_ hmap
    intro cm q hq
    obtain ⟨m, -, hm⟩ := mem_flatMap.1 hq
    rcases mem_cons.1 hm with rfl | htarget
    · rfl
    · rw [mem_singleton.1 htarget]
  · refine isExtra_flatMap (fun c => some (.concept c.id.val)) (fun _ => rfl) ?_ hconcept
    intro c q hq
    obtain ⟨_, -, rfl⟩ := mem_map.1 hq
    rfl
  · refine isExtra_flatMap (fun t => some (.glossaryTerm t.id.val)) (fun _ => rfl) ?_ hterm
    intro t q hq
    rcases mem_append.1 hq with hc | hr
    · obtain ⟨_, -, rfl⟩ := mem_map.1 hc
      rfl
    · obtain ⟨_, -, rfl⟩ := mem_map.1 hr
      rfl
  · refine isExtra_flatMap (fun _ => none) (fun _ => rfl) ?_ hsegment
    intro s q hq
    obtain ⟨_, -, rfl⟩ := mem_map.1 hq
    rfl
  · refine isExtra_flatMap (fun _ => none) (fun _ => rfl) ?_ hindex
    intro i q hq
    obtain ⟨_, -, rfl⟩ := mem_map.1 hq
    rfl
  · refine isExtra_flatMap (fun _ => none) (fun _ => rfl) ?_ htable
    intro t q hq
    rcases mem_append.1 hq with hn | he
    · obtain ⟨_, -, rfl⟩ := mem_map.1 hn
      rfl
    · obtain ⟨_, -, rfl⟩ := mem_map.1 he
      rfl

/-- The walk holds a pointer as often as it stands among the walked ones. -/
theorem count_walk (hq : o.isExtra q = false) :
    (o.walk.map AddedEdge.pointer).count q = o.walkedPointers.count q := by
  rw [← plain_walk, plain, count_filter]
  rw [hq]
  rfl

end OntologyIR

/-! ## The two indices -/

section

variable (o : OntologyIR)

def joining (owner target : SchemaEntityRef) : List AddedEdge :=
  o.walk.filter fun r => r.dependent = owner ∧ r.target = target

/-- The edges that join two entities in the inbound index. -/
theorem inbound_perm (owner target : SchemaEntityRef) :
    (((SchemaDependencyGraph.build o).dependentsOf target).filter fun e =>
      e.endpoint = owner).Perm ((joining o owner target).map AddedEdge.inboundEdge) := by
  refine ((SchemaDependencyGraph.dependentsOf_perm o target).filter _).trans (.of_eq ?_)
  rw [filter_map, filter_filter, joining]
  refine congrArg (List.map _) (filter_congr fun r _ => ?_)
  exact (Bool.decide_and _ _).symm

/-- The edges that join two entities in the outbound index. -/
theorem outbound_perm (owner target : SchemaEntityRef) :
    (((SchemaDependencyGraph.build o).referencesOf owner).filter fun e =>
      e.endpoint = target).Perm ((joining o owner target).map AddedEdge.outboundEdge) := by
  refine ((SchemaDependencyGraph.referencesOf_perm o owner).filter _).trans (.of_eq ?_)
  rw [filter_map, filter_filter, joining]
  refine congrArg (List.map _) (filter_congr fun r _ => ?_)
  exact (Bool.and_comm _ _).trans (Bool.decide_and _ _).symm

/-- The two indices agree on the edges between two entities. -/
theorem mirror_perm (owner target : SchemaEntityRef) :
    ((((SchemaDependencyGraph.build o).dependentsOf target).filter fun e =>
      e.endpoint = owner).map fun e => (e.kind, e.label)).Perm
    ((((SchemaDependencyGraph.build o).referencesOf owner).filter fun e =>
      e.endpoint = target).map fun e => (e.kind, e.label)) := by
  have hinbound := (inbound_perm o owner target).map fun e => (e.kind, e.label)
  have houtbound := (outbound_perm o owner target).map fun e => (e.kind, e.label)
  rw [map_map] at hinbound houtbound
  exact hinbound.trans houtbound.symm

theorem countP_dependentsOf (owner target : SchemaEntityRef) :
    ((SchemaDependencyGraph.build o).dependentsOf target).countP (fun e => e.endpoint = owner) =
      (o.walk.map AddedEdge.pointer).count (.between owner target) := by
  rw [countP_eq_length_filter, (inbound_perm o owner target).length_eq, length_map,
    joining, List.count, countP_map, countP_eq_length_filter]
  refine congrArg List.length (filter_congr fun r _ => ?_)
  rw [Bool.eq_iff_iff]
  simp [AddedEdge.pointer, SchemaPointer.between]

end

/-- The graph answers for every pointer exactly when the ontology holds no unwalked one. -/
theorem dependencyComplete_iff (o : OntologyIR) :
    DependencyComplete o (.build o) ↔ o.unwalkedPointers = [] := by
  constructor
  · intro h
    refine eq_nil_iff_forall_not_mem.2 fun q hq => ?_
    have hpointer : q ∈ o.schemaPointers := mem_append_right _ hq
    obtain ⟨owner, target, rfl, hcount, -⟩ := h.edgeOnce q hpointer
    -- the walk holds the pointer as often as the walked ones do, once too little
    rw [countP_dependentsOf, OntologyIR.count_walk (OntologyIR.isExtra_unwalkedPointers hq),
      OntologyIR.schemaPointers, count_append] at hcount
    have hpos := count_pos_iff.2 hq
    omega
  · intro hnone
    have hall : o.schemaPointers = o.walkedPointers := by
      rw [OntologyIR.schemaPointers, hnone, append_nil]
    have hwalked : ∀ p ∈ o.schemaPointers, ∃ owner target, p = .between owner target ∧
        ((SchemaDependencyGraph.build o).dependentsOf target).countP
          (fun e => e.endpoint = owner) = o.schemaPointers.count p := by
      intro p hp
      rw [hall, ← OntologyIR.plain_walk] at hp
      obtain ⟨hmem, hplain⟩ := mem_filter.1 hp
      obtain ⟨r, -, rfl⟩ := mem_map.1 hmem
      refine ⟨r.dependent, r.target, rfl, ?_⟩
      rw [countP_dependentsOf, hall]
      exact OntologyIR.count_walk (by rwa [Bool.not_eq_true'] at hplain)
    refine ⟨fun p hp => ?_, fun target hnil p hp htarget => ?_⟩
    · obtain ⟨owner, target, heq, hcount⟩ := hwalked p hp
      exact ⟨owner, target, heq, hcount, mirror_perm o owner target⟩
    · obtain ⟨owner, t, rfl, hcount⟩ := hwalked p hp
      obtain rfl := Option.some.inj htarget
      rw [hnil, countP_nil] at hcount
      have hpos := count_pos_iff.2 hp
      omega

def revenueOntology : OntologyIR where
  id := "o"
  name := "Revenue"
  nodeTypes := []
  concepts := [{ id := ⟨"c"⟩, canonicalTermId := ⟨"t"⟩ }]
  glossary := [{ id := ⟨"t"⟩ }]

/-- The term of the concept has no dependents. -/
theorem canonicalTerm_unseen : ¬DependencyComplete revenueOntology (.build revenueOntology) := by
  intro h
  have hpointer : SchemaPointer.between (.concept "c") (.glossaryTerm "t") ∈
      revenueOntology.schemaPointers := by decide
  have hnone : (SchemaDependencyGraph.build revenueOntology).dependentsOf (.glossaryTerm "t") =
      [] := Perm.eq_nil (SchemaDependencyGraph.dependentsOf_perm revenueOntology _)
  exact h.removable _ hnone _ hpointer rfl

end Ontosyx.Ontology
