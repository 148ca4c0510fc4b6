import Ontosyx.Ontology.Validation

/-!
# References between the schema and the registries

The second half of `validate`: ids that nodes, properties, rules, actions,
concepts, segments and the table inventory hold must resolve, and the concept
and glossary hierarchies must have no cycle.  `validate_internal` joins all
checks in the order of the source.
-/

namespace Ontosyx.Ontology

open Ontosyx.Core Lib.Keyed

/-! ## Cycles (`ir/cycles.rs`) -/

/-- DFS colour of a visited node. -/
inductive Color where
  | gray
  | black
deriving DecidableEq

/-- `dfs`, with the colours found so far (latest first) and the current path.
The path grows with every call and holds each node once, so fuel beyond the
number of nodes is never used up. -/
def dfs {N : Type} [DecidableEq N] (edges : N → List N) :
    Nat → N → List (N × Color) → List N → Option (List N) × List (N × Color)
  | 0, _, color, _ => (none, color)
  | fuel + 1, node, color, path =>
    match first (·.1) node color with
    | some (_, .black) => (none, color)
    | some (_, .gray) =>
      (if node ∈ path then some (path.drop (path.idxOf node)) else none, color)
    | none =>
      let visit := (edges node).foldl
        (fun found next =>
          match found.1 with
          | some _ => found
          | none => dfs edges fuel next found.2 (path ++ [node]))
        (none, (node, .gray) :: color)
      match visit.1 with
      | some cycle => (some cycle, visit.2)
      | none => (none, (node, .black) :: visit.2)

/-- `find_cycle`, with at most `depth` calls of `dfs` within one another. -/
def findCycleWithin {N : Type} [DecidableEq N] (depth : Nat) (roots : List N)
    (edges : N → List N) : Option (List N) :=
  (roots.foldl (fun found root =>
      match found.1 with
      | some _ => found
      | none => dfs edges depth root found.2 [])
    (none, [])).1

/-- `find_cycle` over edges that leave the roots only for nodes without edges. -/
def findCycle {N : Type} [DecidableEq N] (roots : List N) (edges : N → List N) : Option (List N) :=
  findCycleWithin (roots.length + 2) roots edges

/-- The diagnostic of a cycle, its path joined with arrows. -/
def reportCycle {N : Type} (code : String) (render : N → String) (cycle : Option (List N)) :
    List DiagnosticMessage :=
  match cycle with
  | some path => [⟨code, [("cycle", " → ".intercalate (path.map render))]⟩]
  | none => []

namespace OntologyIR

def checkBindingTargetExists (o : OntologyIR) (nodeLabel propertyName : String) :
    PropertyBinding → List DiagnosticMessage
  | .valueSet id _ _ _ _ => missing (id ∉ o.valueSets.map (·.id)) "value set" id.val
  | .codeSystem id _ _ _ _ => missing (id ∉ o.codeSystems.map (·.id)) "code system" id.val
  | .notationPattern id _ _ _ =>
    missing (id ∉ o.notationPatterns.map (·.id)) "notation pattern" id.val
  | .valueRange id _ _ =>
    missing (id ∉ o.valueRangeSets.map (·.id)) "value range set" id.val
  | .concept id _ _ => missing (id ∉ o.concepts.map (·.id)) "concept" id.val
where
  missing (p : Prop) [Decidable p] (registry missingId : String) : List DiagnosticMessage :=
    reportIf p "ontology.validate.binding.unknown_target_id"
      [("node_label", nodeLabel), ("property", propertyName), ("registry", registry),
       ("missing_id", missingId)]

def checkBindingConceptMapCompatibility (o : OntologyIR) (nodeLabel propertyName : String)
    (binding : PropertyBinding) : List DiagnosticMessage :=
  match binding.conceptMapId.bind fun id => first (·.id) id o.conceptMaps with
  | none => []
  | some conceptMap =>
    let site (kind idKey id : String) := [("node_label", nodeLabel), ("property", propertyName),
      ("binding_kind", kind), (idKey, id), ("concept_map_id", conceptMap.id.val),
      ("source_system_id", conceptMap.sourceSystemId.val),
      ("target_system_id", conceptMap.targetSystemId.val)]
    let covers (id : CodeSystemId) : Bool :=
      id = conceptMap.sourceSystemId || id = conceptMap.targetSystemId
    let code := "ontology.validate.binding.concept_map_system_mismatch"
    match binding with
    | .codeSystem id _ _ _ _ =>
      reportIf (covers id = false) code (site "code_system" "binding_system_id" id.val)
    | .valueSet id _ _ _ _ =>
      match first (·.id) id o.valueSets with
      | none => []
      | some valueSet =>
        let uncovered := valueSet.composition.filter fun rule =>
          rule.systemId ∈ o.codeSystems.map (·.id) && !covers rule.systemId
        reportIf (uncovered ≠ []) code (site "value_set" "binding_value_set_id" id.val ++
          [("uncovered_system_ids", ",".intercalate (uncovered.map (·.systemId.val)))])
    | .notationPattern .. | .valueRange .. | .concept .. => []

def checkRequiredBindingDomain (o : OntologyIR) (nodeLabel propertyName : String) :
    PropertyBinding → List DiagnosticMessage
  | .valueSet id _ _ _ _ =>
    (first (·.id) id o.valueSets).toList.flatMap fun vs =>
      reportIf (vs.composition = []) "ontology.validate.binding.required_value_set_empty"
        [("node_label", nodeLabel), ("property", propertyName), ("value_set_id", id.val)]
  | .codeSystem id _ _ _ _ =>
    (first (·.id) id o.codeSystems).toList.flatMap fun cs =>
      reportIf (cs.codes.isEmpty) "ontology.validate.binding.required_code_system_empty"
        [("node_label", nodeLabel), ("property", propertyName), ("code_system_id", id.val)]
  | .notationPattern id _ _ _ =>
    (first (·.id) id o.notationPatterns).toList.flatMap fun np =>
      reportIf (np.components.isEmpty)
        "ontology.validate.binding.required_notation_pattern_empty"
        [("node_label", nodeLabel), ("property", propertyName), ("notation_pattern_id", id.val)]
  | .valueRange .. | .concept .. => []

def validatePropertyReferences (o : OntologyIR) (nodeLabel : String) (p : PropertyDef) :
    List DiagnosticMessage :=
  let site := [("node_label", nodeLabel), ("property", p.name.val)]
  p.derivedFrom.toList.flatMap (fun fnId =>
    reportIf (fnId ∉ o.functions.map (·.id)) "ontology.validate.property.unknown_function_id"
      (site ++ [("function_id", fnId.val)]) ++
    reportIf (p.sourceColumn.isSome) "ontology.validate.property.derived_and_source_conflict"
      site) ++
  p.unitId.toList.flatMap (fun unitId =>
    reportIf (o.codedValueExists unitId = false) "ontology.validate.property.unknown_unit_id"
      (site ++ [("unit_id", unitId.val)])) ++
  p.bindings.flatMap fun binding =>
    o.checkBindingTargetExists nodeLabel p.name.val binding ++
    o.checkBindingConceptMapCompatibility nodeLabel p.name.val binding ++
    if binding.strength = .required then
      o.checkRequiredBindingDomain nodeLabel p.name.val binding
    else []

def validateNodeReferences (o : OntologyIR) (n : NodeTypeDef) : List DiagnosticMessage :=
  let site := [("node_label", n.label.val)]
  n.implements.flatMap (fun id =>
    reportIf (id ∉ o.interfaces.map (·.id)) "ontology.validate.node.unknown_interface_id"
      (site ++ [("interface_id", id.val)])) ++
  n.actions.flatMap (fun id =>
    reportIf (id ∉ o.actions.map (·.id)) "ontology.validate.node.unknown_action_id"
      (site ++ [("action_id", id.val)])) ++
  n.metrics.flatMap (fun id =>
    reportIf (id ∉ o.metrics.map (·.id)) "ontology.validate.node.unknown_metric_id"
      (site ++ [("metric_id", id.val)])) ++
  n.rules.flatMap (fun id =>
    reportIf (id ∉ o.rules.map (·.id)) "ontology.validate.node.unknown_rule_id"
      (site ++ [("rule_id", id.val)])) ++
  n.properties.flatMap (o.validatePropertyReferences n.label.val)

/-- At most one binding of each exclusive kind on a property. -/
def validateBindingKinds (nodeLabel : String) (p : PropertyDef) : List DiagnosticMessage :=
  let report (kind : String) (ofKind : PropertyBinding → Bool) :=
    let count := p.bindings.countP ofKind
    reportIf (1 < count) "ontology.validate.property.duplicate_binding_kind"
      [("node_label", nodeLabel), ("property_name", p.name.val), ("kind", kind),
       ("count", toString count)]
  report "concept" (fun | .concept .. => true | _ => false) ++
  report "notation_pattern" (fun | .notationPattern .. => true | _ => false) ++
  report "value_range" (fun | .valueRange .. => true | _ => false)

/-- The additional-concept loop, with the concepts seen so far. -/
def validateConceptRealizations (o : OntologyIR) (kind idKey id : String)
    (seen : List ConceptId) : List ConceptRealization → List DiagnosticMessage
  | [] => []
  | r :: rs =>
    let site := [(idKey, id), ("concept_id", r.conceptId.val)]
    reportIf (r.conceptId ∉ o.concepts.map (·.id))
      ("ontology.validate." ++ kind ++ ".unknown_concept_realization") site ++
    reportIf (r.conceptId ∈ seen)
      ("ontology.validate." ++ kind ++ ".duplicate_concept_realization") site ++
    validateConceptRealizations o kind idKey id (r.conceptId :: seen) rs

def validateTypeConcepts (o : OntologyIR) (kind idKey id : String)
    (conceptId : Option ConceptId) (realizations : List ConceptRealization) :
    List DiagnosticMessage :=
  conceptId.toList.flatMap (fun c =>
    reportIf (c ∉ o.concepts.map (·.id)) ("ontology.validate." ++ kind ++ ".unknown_concept")
      [(idKey, id), ("concept_id", c.val)]) ++
  o.validateConceptRealizations kind idKey id conceptId.toList realizations

def validateNodeConcepts (o : OntologyIR) (n : NodeTypeDef) : List DiagnosticMessage :=
  o.validateTypeConcepts "node" "node_id" n.id.val n.conceptId n.conceptRealizations

def validateEdgeConcepts (o : OntologyIR) (e : EdgeTypeDef) : List DiagnosticMessage :=
  o.validateTypeConcepts "edge" "edge_id" e.id.val e.conceptId e.conceptRealizations

/-- Whether the binding a derived rule comes from is still there. -/
def derivedBindingExists (o : OntologyIR) (nodeTypeId : NodeTypeId) (propertyId : PropertyId) :
    Bool :=
  (((o.nodeById nodeTypeId).bind fun n => first (·.id) propertyId n.properties).map fun p =>
    !p.bindings.isEmpty).getD false

/-- The sibling a property-pair constraint names. -/
def ShaclConstraint.otherProperty : ShaclConstraint → Option PropertyId
  | .lessThan _ other | .equals _ other => some other
  | _ => none

def validatePropertyPairs (o : OntologyIR) (rule : RuleDef) : List DiagnosticMessage :=
  match rule.kind with
  | .propertyShape targetNodeTypeId _ =>
    (o.nodeById targetNodeTypeId).toList.flatMap fun node =>
      (rule.constraints.filterMap ShaclConstraint.otherProperty).flatMap fun other =>
        reportIf (other ∉ node.properties.map (·.id))
          "ontology.validate.rule.property_pair_unknown_sibling"
          [("rule_id", rule.id.val), ("node_label", node.label.val),
           ("other_property_id", other.val)]
  | _ => []

def validateRule (o : OntologyIR) (rule : RuleDef) : List DiagnosticMessage :=
  (match rule.activation with
    | .onAction actionId =>
      reportIf (actionId ∉ o.actions.map (·.id)) "ontology.validate.rule.unknown_action_id"
        [("rule_id", rule.id.val), ("action_id", actionId.val)]
    | _ => []) ++
  (match rule.origin with
    | .derivedFromBinding nodeTypeId propertyId =>
      reportIf (o.derivedBindingExists nodeTypeId propertyId = false)
        "ontology.validate.rule.derived_origin_missing_binding"
        [("rule_id", rule.id.val), ("node_type_id", nodeTypeId.val),
         ("property_id", propertyId.val)]
    | _ => []) ++
  o.validatePropertyPairs rule

def validateAction (o : OntologyIR) (action : ActionDef) : List DiagnosticMessage :=
  (action.preconditions ++ action.postconditions).flatMap fun ruleId =>
    reportIf (ruleId ∉ o.rules.map (·.id)) "ontology.validate.action.unknown_rule_id"
      [("action_id", action.id.val), ("rule_id", ruleId.val)]

def validateInventoryEntry (o : OntologyIR) (entry : TableInventoryEntry) :
    List DiagnosticMessage :=
  let site := [("source_id", entry.sourceId.val), ("table_name", entry.tableName)]
  entry.contributedNodeIds.flatMap (fun nid =>
    reportIf (nid ∉ o.nodeTypes.map (·.id)) "ontology.validate.table_inventory.unknown_node_type"
      (site ++ [("node_type_id", nid.val)])) ++
  entry.contributedEdgeIds.flatMap (fun eid =>
    reportIf (eid ∉ o.edgeTypes.map (·.id)) "ontology.validate.table_inventory.unknown_edge_type"
      (site ++ [("edge_type_id", eid.val)]))

/-- The target and the filter properties of one segment. -/
def validateSegment (o : OntologyIR) (seg : SegmentDef) : List DiagnosticMessage :=
  match first (·.id) seg.targetNodeTypeId o.nodeTypes with
  | none =>
    reportIf True "ontology.validate.segment.unknown_target_node_type"
      [("segment_id", seg.id.val), ("target_node_type_id", seg.targetNodeTypeId.val)]
  | some target =>
    seg.referencedProperties.flatMap fun prop =>
      reportIf (prop ∉ target.properties.map (·.name))
        "ontology.validate.segment.unknown_property"
        [("segment_id", seg.id.val), ("target_node_label", target.label.val),
         ("property", prop.val)]

/-! ## Concepts and glossary -/

/-- One lexical term of a concept: it must exist, point back to the concept and
be claimed by no other; the claims so far, latest first, are passed on. -/
def claimTerm (o : OntologyIR) (concept : ConceptDef) (mismatch unknown : String)
    (claimed : List (GlossaryTermId × ConceptId)) (termId : GlossaryTermId) :
    List DiagnosticMessage × List (GlossaryTermId × ConceptId) :=
  let site := [("concept_id", concept.id.val), ("term_id", termId.val)]
  match last (·.id) termId o.glossary with
  | some term =>
    (reportIf (term.conceptId ≠ some concept.id) mismatch
      (site ++ [("term_concept_id", (term.conceptId.map (·.val)).getD "")]) ++
     (first (·.1) termId claimed).toList.flatMap (fun previous =>
      reportIf (previous.2 ≠ concept.id) "ontology.validate.concept.term_reused"
        [("concept_id", concept.id.val), ("previous_concept_id", previous.2.val),
         ("term_id", termId.val)]),
     (termId, concept.id) :: claimed)
  | none => (reportIf True unknown site, claimed)

/-- The alias loop of one concept, with the terms it has declared so far. -/
def validateAliases (o : OntologyIR) (concept : ConceptDef) (terms : List GlossaryTermId)
    (claimed : List (GlossaryTermId × ConceptId)) :
    List GlossaryTermId → List DiagnosticMessage × List (GlossaryTermId × ConceptId)
  | [] => ([], claimed)
  | aliasId :: aliases =>
    let claim := o.claimTerm concept "ontology.validate.concept.alias_term_concept_mismatch"
      "ontology.validate.concept.unknown_alias_term" claimed aliasId
    let rest := validateAliases o concept (aliasId :: terms) claim.2 aliases
    (reportIf (aliasId ∈ terms) "ontology.validate.concept.duplicate_lexical_term"
      [("concept_id", concept.id.val), ("term_id", aliasId.val)] ++ claim.1 ++ rest.1, rest.2)

/-- Both ends of a validity window are given and the first is not earlier. -/
def invalidWindow (validFrom validTo : Option DateTime) : Bool :=
  match validFrom, validTo with
  | some «from», some «to» => «to» ≤ «from»
  | _, _ => false

/-- The sibling references and the window of one concept. -/
def validateConceptPointers (o : OntologyIR) (concept : ConceptDef) : List DiagnosticMessage :=
  let site := [("concept_id", concept.id.val)]
  concept.broader.toList.flatMap (fun parent =>
    reportIf (parent ∉ o.concepts.map (·.id)) "ontology.validate.concept.unknown_broader"
      (site ++ [("broader_id", parent.val)])) ++
  concept.replacedBy.toList.flatMap (fun target =>
    reportIf (target ∉ o.concepts.map (·.id)) "ontology.validate.concept.unknown_replaced_by"
      (site ++ [("replaced_by_id", target.val)])) ++
  reportIf (invalidWindow concept.validFrom concept.validTo)
    "ontology.validate.concept.invalid_validity_window" site

/-- The concept loop, with the terms claimed so far. -/
def validateConcepts (o : OntologyIR) (claimed : List (GlossaryTermId × ConceptId)) :
    List ConceptDef → List DiagnosticMessage
  | [] => []
  | concept :: concepts =>
    let canonical := o.claimTerm concept
      "ontology.validate.concept.canonical_term_concept_mismatch"
      "ontology.validate.concept.unknown_canonical_term" claimed concept.canonicalTermId
    let aliases := o.validateAliases concept [concept.canonicalTermId] canonical.2
      concept.aliasTermIds
    canonical.1 ++ aliases.1 ++ o.validateConceptPointers concept ++
      validateConcepts o aliases.2 concepts

def validateRealisation (o : OntologyIR) (concept : ConceptDef) : List DiagnosticMessage :=
  let site := [("concept_id", concept.id.val)]
  match concept.realisation with
  | some (.segment segmentId) =>
    reportIf (segmentId ∉ o.segments.map (·.id))
      "ontology.validate.concept.unknown_realisation_segment"
      (site ++ [("segment_id", segmentId.val)])
  | some (.function functionId) =>
    reportIf (functionId ∉ o.functions.map (·.id))
      "ontology.validate.concept.unknown_realisation_function"
      (site ++ [("function_id", functionId.val)])
  | some (.crossEntity predicate) =>
    reportIf (isBlank predicate) "ontology.validate.concept.empty_cross_entity_predicate" site
  | none => []

/-- The four hierarchies that must have no cycle. -/
def validateCycles (o : OntologyIR) : List DiagnosticMessage :=
  let concept (id : ConceptId) := last (·.id) id o.concepts
  let term (id : GlossaryTermId) := last (·.id) id o.glossary
  reportCycle "ontology.validate.concept.broader_cycle" (·.val)
    (findCycle (o.concepts.map (·.id)) fun id => ((concept id).bind (·.broader)).toList) ++
  reportCycle "ontology.validate.concept.replaced_by_cycle" (·.val)
    (findCycle (o.concepts.map (·.id)) fun id => ((concept id).bind (·.replacedBy)).toList) ++
  reportCycle "ontology.validate.glossary.broader_cycle" (·.val)
    (findCycle (o.glossary.map (·.id)) fun id =>
      (term id).toList.flatMap fun t =>
        (t.relatedTerms.filter fun r => r.kind = .broader).map (·.target)) ++
  reportCycle "ontology.validate.glossary.replaced_by_cycle" (·.val)
    (findCycle (o.glossary.map (·.id)) fun id =>
      ((term id).bind fun t =>
        match t.lifecycle with
        | .deprecated replacedBy _ => replacedBy
        | _ => none).toList)

/-- The checks that look at the registries alone and stand together in the
source. -/
def validateGlossary (o : OntologyIR) : List DiagnosticMessage :=
  o.validateConcepts [] o.concepts ++
  o.glossary.flatMap (fun term =>
    term.conceptId.toList.flatMap fun conceptId =>
      reportIf (conceptId ∉ o.concepts.map (·.id)) "ontology.validate.glossary_term.unknown_concept"
        [("term_id", term.id.val), ("concept_id", conceptId.val)]) ++
  o.concepts.flatMap o.validateRealisation ++
  o.validateCycles ++
  o.rules.flatMap fun rule =>
    reportIf (invalidWindow rule.validFrom rule.validTo)
      "ontology.validate.rule.invalid_validity_window" [("rule_id", rule.id.val)]

def validateKnownSources (o : OntologyIR) (known : List SourceId) : List DiagnosticMessage :=
  o.objectMappings.flatMap (fun m =>
    reportIf (m.sourceId ∉ known) "ontology.validate.object_mapping.unknown_source"
      [("mapping_id", m.id.val), ("source_id", m.sourceId.val), ("relation", m.relation)]) ++
  o.linkMappings.flatMap fun m =>
    [m.sourceEndpoint, m.targetEndpoint].flatMap fun endpoint =>
      reportIf (endpoint.sourceId ∉ known) "ontology.validate.link_mapping.unknown_source"
        [("mapping_id", m.id.val), ("source_id", endpoint.sourceId.val)]

/-- `has_content`: some collection is populated. -/
def hasContent (o : OntologyIR) : Bool :=
  !o.nodeTypes.isEmpty || !o.edgeTypes.isEmpty || !o.glossary.isEmpty || !o.rules.isEmpty ||
    !o.codeSystems.isEmpty || !o.objectMappings.isEmpty || !o.linkMappings.isEmpty

/-- `seen_node_ids` after the node loop. -/
def seenNodeIds (o : OntologyIR) : List NodeTypeId :=
  (o.nodeTypes.map (·.id)).filter fun id => !isBlank id.val

def validateInternal (o : OntologyIR) (knownSources : Option (List SourceId)) :
    List DiagnosticMessage :=
  knownSources.toList.flatMap o.validateKnownSources ++
  reportIf (isBlank o.id) "ontology.validate.id.empty" [] ++
  reportIf (isBlank o.name) "ontology.validate.name.empty" [] ++
  reportIf (o.hasContent = false) "ontology.validate.no_content" [] ++
  validateNodes [] [] o.nodeTypes ++
  validateEdges o.seenNodeIds [] o.edgeTypes ++
  o.nodeTypes.flatMap o.validateNodeReferences ++
  o.rules.flatMap o.validateRule ++
  o.actions.flatMap o.validateAction ++
  o.objectMappings.flatMap (validateObjectMapping (o.conceptMaps.map (·.id)) o.nodeTypes) ++
  o.linkMappings.flatMap (validateLinkMapping (o.edgeTypes.map (·.id))) ++
  o.indexes.flatMap (validateIndex o.nodeTypes) ++
  renderDanglingReferences o.danglingReferences ++
  o.tableInventory.flatMap o.validateInventoryEntry ++
  o.validateGlossary ++
  o.nodeTypes.flatMap (fun n => n.properties.flatMap (validateBindingKinds n.label.val)) ++
  o.nodeTypes.flatMap o.validateNodeConcepts ++
  o.edgeTypes.flatMap o.validateEdgeConcepts ++
  o.segments.flatMap o.validateSegment

def validate (o : OntologyIR) : List DiagnosticMessage := o.validateInternal none

def validateWithSources (o : OntologyIR) (knownSources : List SourceId) : List DiagnosticMessage :=
  o.validateInternal (some knownSources)

end OntologyIR

end Ontosyx.Ontology
