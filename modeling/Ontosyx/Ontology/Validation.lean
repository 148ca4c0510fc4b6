import Ontosyx.Ontology.Integrity

/-!
# Validation

`validate`, the gate every ontology passes before it is saved and every command
result passes before it is returned.  The checks run in the order of the
source, each pushing its diagnostics; an ontology is valid when none is pushed.
The `valid_from` and `valid_to` parameters of the two validity-window
diagnostics, timestamps rendered as text, are left out.
-/

namespace Ontosyx.Ontology

open Ontosyx.Core Lib.Keyed

/-- `LABEL_PLACEHOLDER`, the label and name of `Default::default()`. -/
def labelPlaceholder : String := "__default_placeholder__"

/-- `trim().is_empty()`. -/
def isBlank (s : String) : Bool := (trimChars s.toList).isEmpty

/-- The derived `Debug` text of a property type. -/
def propertyTypeDebug : PropertyType → String
  | .bool => "Bool"
  | .int => "Int"
  | .float => "Float"
  | .string => "String"
  | .date => "Date"
  | .dateTime => "DateTime"
  | .duration => "Duration"
  | .bytes => "Bytes"
  | .list element => "List \x7b element: " ++ propertyTypeDebug element ++ " \x7d"
  | .map => "Map"

/-- The derived `Debug` text. -/
def LinkCardinality.debug : LinkCardinality → String
  | .oneToOne => "OneToOne"
  | .oneToMany => "OneToMany"
  | .manyToOne => "ManyToOne"
  | .manyToMany => "ManyToMany"

/-- The checks of one property that look at no other property. -/
def validatePropertyDef (ownerKind ownerLabel : String) (p : PropertyDef) :
    List DiagnosticMessage :=
  let owner := [("owner_kind", ownerKind), ("owner_label", ownerLabel), ("name", p.name.val)]
  reportIf (p.aggregationRole = some .measure ∧ p.propertyType ≠ .int ∧ p.propertyType ≠ .float)
    "ontology.validate.property.measure_non_numeric"
    (owner ++ [("property_type", propertyTypeDebug p.propertyType)]) ++
  reportIf (p.sourceColumn.isSome ∧ p.bindings = [] ∧ p.bindingExempt = none ∧
      p.aggregationRole ≠ some .identifier)
    "ontology.validate.property.mapping_without_binding" owner

/-- `validate_property_defs`, with the ids and names seen so far. -/
def validatePropertyDefs (ownerKind ownerLabel : String) (seenIds : List PropertyId)
    (seenNames : List PropertyKey) : List PropertyDef → List DiagnosticMessage
  | [] => []
  | p :: ps =>
    let owner := [("owner_kind", ownerKind), ("owner_label", ownerLabel)]
    let blank := isBlank p.id.val
    let ids := if blank then seenIds else p.id :: seenIds
    reportIf blank "ontology.validate.property.empty_id" owner ++
    reportIf (blank = false ∧ p.id ∈ seenIds) "ontology.validate.property.duplicate_id"
      (owner ++ [("id", p.id.val)]) ++
    if p.name.val = labelPlaceholder then
      reportIf True "ontology.validate.property.placeholder_name" owner ++
      validatePropertyDefs ownerKind ownerLabel ids seenNames ps
    else
      reportIf (p.name ∈ seenNames) "ontology.validate.property.duplicate_name"
        (owner ++ [("name", p.name.val)]) ++
      validatePropertyDef ownerKind ownerLabel p ++
      validatePropertyDefs ownerKind ownerLabel ids (p.name :: seenNames) ps

def propertyDefById (properties : List PropertyDef) (id : String) : Option PropertyDef :=
  properties.find? fun p => p.id.val = id

/-! ## Constraints and indexes -/

/-- The loop of `validate_constraint_fields`, with the trimmed ids seen so
far. -/
def validateConstraintIds (node : NodeTypeDef) (constraintName : String)
    (requireNonNullable : Bool) (seen : List String) : List PropertyId → List DiagnosticMessage
  | [] => []
  | propId :: ids =>
    let site := [("node_label", node.label.val), ("constraint", constraintName)]
    let id := trim propId.val
    if isBlank propId.val then
      reportIf True "ontology.validate.constraint.empty_property_id" site ++
      validateConstraintIds node constraintName requireNonNullable seen ids
    else
      reportIf (id ∈ seen) "ontology.validate.constraint.duplicate_property_id"
        (site ++ [("property_id", id)]) ++
      (match propertyDefById node.properties id with
        | some d =>
          reportIf (requireNonNullable && d.nullable)
            "ontology.validate.constraint.requires_non_nullable"
            (site ++ [("property", d.name.val)])
        | none =>
          reportIf True "ontology.validate.constraint.unknown_property_id"
            (site ++ [("property_id", id)])) ++
      validateConstraintIds node constraintName requireNonNullable (id :: seen) ids

def validateConstraintFields (node : NodeTypeDef) (propertyIds : List PropertyId)
    (constraintName : String) (requireNonNullable : Bool) : List DiagnosticMessage :=
  if propertyIds = [] then
    reportIf True "ontology.validate.constraint.empty_property_list"
      [("node_label", node.label.val), ("constraint", constraintName)]
  else validateConstraintIds node constraintName requireNonNullable [] propertyIds

def validateConstraint (node : NodeTypeDef) (c : ConstraintDef) : List DiagnosticMessage :=
  reportIf (isBlank c.id.val) "ontology.validate.constraint.empty_id"
    [("node_label", node.label.val)] ++
  match c.constraint with
  | .unique propertyIds => validateConstraintFields node propertyIds "unique" false
  | .nodeKey propertyIds => validateConstraintFields node propertyIds "node_key" true
  | .exists_ propertyId => validateConstraintFields node [propertyId] "exists" true

/-- The loop of `validate_index_target`, with the trimmed ids seen so far. -/
def validateIndexIds (node : NodeTypeDef) (indexName : String) (seen : List String) :
    List PropertyId → List DiagnosticMessage
  | [] => []
  | propId :: ids =>
    let site := [("index", indexName), ("node_label", node.label.val)]
    let id := trim propId.val
    if isBlank propId.val then
      reportIf True "ontology.validate.index.empty_property_id" site ++
      validateIndexIds node indexName seen ids
    else
      reportIf (id ∈ seen) "ontology.validate.index.duplicate_property_id"
        (site ++ [("property_id", id)]) ++
      reportIf ((propertyDefById node.properties id).isNone)
        "ontology.validate.index.unknown_property_id" (site ++ [("property_id", id)]) ++
      validateIndexIds node indexName (id :: seen) ids

def validateIndexTarget (nodeTypes : List NodeTypeDef) (nodeId : NodeTypeId)
    (propertyIds : List PropertyId) (indexName : String) : List DiagnosticMessage :=
  match first (·.id) nodeId nodeTypes with
  | none =>
    reportIf True "ontology.validate.index.unknown_node_id"
      [("index", indexName), ("node_id", nodeId.val)]
  | some node =>
    if propertyIds = [] then
      reportIf True "ontology.validate.index.empty_property_list"
        [("index", indexName), ("node_label", node.label.val)]
    else validateIndexIds node indexName [] propertyIds

def validateIndex (nodeTypes : List NodeTypeDef) : IndexDef → List DiagnosticMessage
  | .single _ nodeId propertyId => validateIndexTarget nodeTypes nodeId [propertyId] "single"
  | .composite _ nodeId propertyIds =>
    validateIndexTarget nodeTypes nodeId propertyIds "composite"
  | .fullText _ name nodeId propertyIds =>
    validateIndexTarget nodeTypes nodeId propertyIds name.val
  | .vector _ nodeId propertyId dimensions _ =>
    reportIf (dimensions = 0) "ontology.validate.index.vector_zero_dimensions"
      [("node_id", nodeId.val), ("property_id", propertyId.val)] ++
    validateIndexTarget nodeTypes nodeId [propertyId] "vector"

/-- The node loop, with the ids and labels seen so far. -/
def validateNodes (seenIds : List NodeTypeId) (seenLabels : List GraphLabel) :
    List NodeTypeDef → List DiagnosticMessage
  | [] => []
  | n :: ns =>
    let blank := isBlank n.id.val
    let ids := if blank then seenIds else n.id :: seenIds
    reportIf blank "ontology.validate.node.empty_id" [] ++
    reportIf (blank = false ∧ n.id ∈ seenIds) "ontology.validate.node.duplicate_id"
      [("id", n.id.val)] ++
    if n.label.val = labelPlaceholder then
      reportIf True "ontology.validate.node.placeholder_label" [("id", n.id.val)] ++
      validateNodes ids seenLabels ns
    else
      reportIf (n.label ∈ seenLabels) "ontology.validate.node.duplicate_label"
        [("label", n.label.val)] ++
      validatePropertyDefs "Node" n.label.val [] [] n.properties ++
      n.constraints.flatMap (validateConstraint n) ++
      validateNodes ids (n.label :: seenLabels) ns

/-- What the edge loop keeps of an edge it has seen. -/
def EdgeTypeDef.signature (e : EdgeTypeDef) : GraphLabel × NodeTypeId × NodeTypeId :=
  (e.label, e.sourceNodeId, e.targetNodeId)

/-- The checks of one edge after its signature. -/
def validateEdge (seenNodeIds : List NodeTypeId) (e : EdgeTypeDef) : List DiagnosticMessage :=
  validatePropertyDefs "Edge" e.label.val [] [] e.properties ++
  reportIf (e.kind = .composition ∧ e.cardinality.sourceIsSingular = false)
    "ontology.validate.edge.composition_requires_singular_source"
    [("label", e.label.val), ("cardinality", e.cardinality.debug)] ++
  reportIf (e.sourceNodeId ∉ seenNodeIds) "ontology.validate.edge.unknown_source_node_id"
    [("label", e.label.val), ("source_node_id", e.sourceNodeId.val)] ++
  reportIf (e.targetNodeId ∉ seenNodeIds) "ontology.validate.edge.unknown_target_node_id"
    [("label", e.label.val), ("target_node_id", e.targetNodeId.val)]

/-- The edge loop, with the signatures seen so far. -/
def validateEdges (seenNodeIds : List NodeTypeId)
    (seenSignatures : List (GraphLabel × NodeTypeId × NodeTypeId)) :
    List EdgeTypeDef → List DiagnosticMessage
  | [] => []
  | e :: es =>
    reportIf (isBlank e.id.val) "ontology.validate.edge.empty_id" [] ++
    if e.label.val = labelPlaceholder then
      reportIf True "ontology.validate.edge.placeholder_label" [("id", e.id.val)] ++
      validateEdges seenNodeIds seenSignatures es
    else
      reportIf (isBlank e.sourceNodeId.val ∨ isBlank e.targetNodeId.val)
        "ontology.validate.edge.missing_endpoint" [("label", e.label.val)] ++
      reportIf (e.signature ∈ seenSignatures) "ontology.validate.edge.duplicate_signature"
        [("label", e.label.val), ("source_node_id", e.sourceNodeId.val),
         ("target_node_id", e.targetNodeId.val)] ++
      validateEdge seenNodeIds e ++
      validateEdges seenNodeIds (e.signature :: seenSignatures) es

/-! ## Link mappings -/

def validateColumnRef (code linkMappingId field : String) (column : ColumnRef) :
    List DiagnosticMessage :=
  reportIf (isBlank column.relation ∨ isBlank column.column) code
    [("link_mapping_id", linkMappingId), ("field", field), ("relation", column.relation),
     ("column", column.column)]

/-- The key-column loop of `validate_endpoint_ref`. -/
def validateKeyColumns (site : List (String × String)) (seen : List String) :
    List String → List DiagnosticMessage
  | [] => []
  | column :: columns =>
    if isBlank column then
      reportIf True "ontology.validate.link_mapping.empty_endpoint_key_column" site ++
      validateKeyColumns site seen columns
    else
      reportIf (column ∈ seen) "ontology.validate.link_mapping.duplicate_endpoint_key_column"
        (site ++ [("key_column", column)]) ++
      validateKeyColumns site (column :: seen) columns

def validateEndpointRef (linkMappingId role : String) (endpoint : EndpointRef) :
    List DiagnosticMessage :=
  let site := [("link_mapping_id", linkMappingId), ("endpoint", role)]
  reportIf (isBlank endpoint.sourceId.val)
    "ontology.validate.link_mapping.empty_endpoint_source_id" site ++
  reportIf (isBlank endpoint.relation) "ontology.validate.link_mapping.empty_endpoint_relation"
    site ++
  if endpoint.keyColumns = [] then
    reportIf True "ontology.validate.link_mapping.empty_endpoint_key" site
  else validateKeyColumns site [] endpoint.keyColumns

/-- The checks of what supplies the edges of a link mapping. -/
def validateLinkKind (lm : LinkMappingDef) : List DiagnosticMessage :=
  match lm.kind with
  | .foreignKey sourceColumn targetColumn =>
    let code := "ontology.validate.link_mapping.invalid_foreign_key_column"
    validateColumnRef code lm.id.val "source_column" sourceColumn ++
    validateColumnRef code lm.id.val "target_column" targetColumn
  | .bridge bridgeRelation sourceJoin targetJoin bridgeWorkspaceScope =>
    let code := "ontology.validate.link_mapping.invalid_bridge_join_column"
    reportIf (isBlank bridgeRelation.sourceId.val ∨ isBlank bridgeRelation.relation)
      "ontology.validate.link_mapping.invalid_bridge_relation"
      [("link_mapping_id", lm.id.val), ("source_id", bridgeRelation.sourceId.val),
       ("relation", bridgeRelation.relation)] ++
    reportIf (sourceJoin.length ≠ lm.sourceEndpoint.keyColumns.length)
      "ontology.validate.link_mapping.source_bridge_join_arity_mismatch"
      [("link_mapping_id", lm.id.val), ("join_columns", toString sourceJoin.length),
       ("endpoint_key_columns", toString lm.sourceEndpoint.keyColumns.length)] ++
    reportIf (targetJoin.length ≠ lm.targetEndpoint.keyColumns.length)
      "ontology.validate.link_mapping.target_bridge_join_arity_mismatch"
      [("link_mapping_id", lm.id.val), ("join_columns", toString targetJoin.length),
       ("endpoint_key_columns", toString lm.targetEndpoint.keyColumns.length)] ++
    sourceJoin.flatMap (validateColumnRef code lm.id.val "source_join") ++
    targetJoin.flatMap (validateColumnRef code lm.id.val "target_join") ++
    bridgeWorkspaceScope.toList.flatMap (validateColumnRef
      "ontology.validate.link_mapping.invalid_bridge_workspace_scope" lm.id.val
      "bridge_workspace_scope")
  | .computed predicate =>
    reportIf (isBlank predicate) "ontology.validate.link_mapping.empty_computed_predicate"
      [("link_mapping_id", lm.id.val)]
  | .federated sourceMatchColumn targetMatchColumn =>
    let code := "ontology.validate.link_mapping.invalid_federated_match_column"
    validateColumnRef code lm.id.val "source_match_column" sourceMatchColumn ++
    validateColumnRef code lm.id.val "target_match_column" targetMatchColumn

def LinkMappingKind.isBridge : LinkMappingKind → Bool
  | .bridge .. => true
  | _ => false

def validateLinkMapping (edgeIds : List EdgeTypeId) (lm : LinkMappingDef) :
    List DiagnosticMessage :=
  validateEndpointRef lm.id.val "source" lm.sourceEndpoint ++
  validateEndpointRef lm.id.val "target" lm.targetEndpoint ++
  reportIf (lm.edgeTypeId ∉ edgeIds) "ontology.validate.link_mapping.unknown_edge_type_id"
    [("link_mapping_id", lm.id.val), ("edge_type_id", lm.edgeTypeId.val)] ++
  validateLinkKind lm ++
  reportIf (lm.kind.isBridge ∧ lm.cardinality ≠ .manyToMany)
    "ontology.validate.link_mapping.bridge_cardinality_mismatch"
    [("link_mapping_id", lm.id.val), ("cardinality", lm.cardinality.debug)]

/-- The property-mapping loop, with the property ids mapped so far. -/
def validatePropertyMappings (conceptMapIds : List ConceptMapId) (node : NodeTypeDef)
    (om : ObjectMappingDef) (mapped : List PropertyId) :
    List PropertyMappingDef → List DiagnosticMessage
  | [] => []
  | pm :: pms =>
    let site := [("object_mapping_id", om.id.val), ("node_type_id", om.nodeTypeId.val),
      ("property_id", pm.propertyId.val)]
    reportIf (pm.propertyId ∈ mapped)
      "ontology.validate.object_mapping.duplicate_property_mapping" site ++
    reportIf (pm.propertyId ∉ node.properties.map (·.id))
      "ontology.validate.object_mapping.unknown_property_id" site ++
    pm.conceptMapId.toList.flatMap (fun conceptMapId =>
      reportIf (conceptMapId ∉ conceptMapIds)
        "ontology.validate.object_mapping.unknown_concept_map_id"
        (site ++ [("concept_map_id", conceptMapId.val)])) ++
    validatePropertyMappings conceptMapIds node om (pm.propertyId :: mapped) pms

def validateObjectMapping (conceptMapIds : List ConceptMapId) (nodeTypes : List NodeTypeDef)
    (om : ObjectMappingDef) : List DiagnosticMessage :=
  match first (·.id) om.nodeTypeId nodeTypes with
  | none =>
    reportIf True "ontology.validate.object_mapping.unknown_node_type_id"
      [("object_mapping_id", om.id.val), ("node_type_id", om.nodeTypeId.val)]
  | some node => validatePropertyMappings conceptMapIds node om [] om.propertyMappings

end Ontosyx.Ontology
