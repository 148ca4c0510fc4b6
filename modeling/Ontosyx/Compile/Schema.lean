import Ontosyx.Compile.Ddl

/-!
# Compiling a schema

`compile_schema` with the constraints of a node type, the explicit indexes and
the capped automatic ones (`schema.rs`).  What each part declares is computed as
a list of objects, from which its statements are written.
-/

namespace Ontosyx.Compile

open List Ontosyx.Core Lib.Keyed Ontology

structure AutoIndexConfig where
  maxIndices : Nat
  highPriorityNames : List String

/-- What the compilation of schemas reads besides an ontology. -/
structure SchemaSettings where
  autoIndex : AutoIndexConfig
  toLowercase : String → String

/-- `property_name_index`. -/
def propertyName (node : NodeTypeDef) (id : PropertyId) : Option PropertyKey :=
  (last (·.id) id node.properties).map (·.name)

def constraintObjects (d : CypherDialect) (node : NodeTypeDef) :
    NodeConstraint → List SchemaObject
  | .unique propertyIds =>
    let names := propertyIds.filterMap (propertyName node)
    match d with
    | .neo4j => if names = [] then [] else [.unique node.label names]
    | .memgraph => names.map fun name => .unique node.label [name]
  | .exists_ propertyId =>
    match first (·.id) propertyId node.properties with
    | none => []
    | some p => [.notNull node.label p.name]
  | .nodeKey propertyIds =>
    match d with
    | .neo4j => [.nodeKey node.label (propertyIds.filterMap (propertyName node))]
    | .memgraph => []

def nodeObjects (d : CypherDialect) (node : NodeTypeDef) : List SchemaObject :=
  node.constraints.flatMap fun c => constraintObjects d node c.constraint

def compileNodeConstraints (node : NodeTypeDef) (d : CypherDialect) : List String :=
  (nodeObjects d node).filterMap (createText d)

/-! ## Indexes -/

def unknownLabel : GraphLabel := ⟨"UNKNOWN", by decide⟩

def unknownProperty : PropertyKey := ⟨"UNKNOWN", by decide⟩

def indexLabel (o : OntologyIR) (nodeId : NodeTypeId) : GraphLabel :=
  (o.nodeLabel nodeId).getD unknownLabel

def indexProperty (o : OntologyIR) (nodeId : NodeTypeId) (propertyId : PropertyId) : PropertyKey :=
  (((o.nodeById nodeId).bind fun n => first (·.id) propertyId n.properties).map (·.name)).getD
    unknownProperty

def indexProperties (o : OntologyIR) (nodeId : NodeTypeId) (propertyIds : List PropertyId) :
    List PropertyKey :=
  propertyIds.map fun id =>
    ((o.nodeById nodeId).bind fun n => propertyName n id).getD unknownProperty

def indexObject (o : OntologyIR) (d : CypherDialect) : IndexDef → Option SchemaObject
  | .single _ nodeId propertyId =>
    some (.range (indexLabel o nodeId) [indexProperty o nodeId propertyId])
  | .composite _ nodeId propertyIds =>
    match indexProperties o nodeId propertyIds with
    | [] => none
    | name :: names =>
      match d with
      | .neo4j => some (.range (indexLabel o nodeId) (name :: names))
      | .memgraph => some (.range (indexLabel o nodeId) [name])
  | .fullText _ name nodeId propertyIds =>
    match d with
    | .memgraph => none
    | .neo4j =>
      some (.fullText name (indexLabel o nodeId) (indexProperties o nodeId propertyIds))
  | .vector _ nodeId propertyId dimensions similarity =>
    match d with
    | .memgraph => none
    | .neo4j =>
      some (.vector (indexLabel o nodeId) (indexProperty o nodeId propertyId) dimensions
        similarity)

def compileIndex (o : OntologyIR) (index : IndexDef) (d : CypherDialect) : Option String :=
  (indexObject o d index).bind (createText d)

def constraintCoversProp (c : NodeConstraint) (properties : List PropertyDef)
    (name : PropertyKey) : Bool :=
  let matches_ (id : PropertyId) : Bool := properties.any fun p => p.id = id && p.name = name
  match c with
  | .unique propertyIds | .nodeKey propertyIds => propertyIds.any matches_
  | .exists_ propertyId => matches_ propertyId

def autoIndexPriority (settings : SchemaSettings) (p : PropertyDef) : Nat :=
  if settings.autoIndex.highPriorityNames.any (· == settings.toLowercase p.name.val) then 0
  else
    match p.propertyType with
    | .string | .int => 1
    | _ => 2

/-- The candidates of `compile_auto_indices_with`, each with its priority. -/
def autoIndexCandidates (settings : SchemaSettings) (o : OntologyIR) : List (SchemaObject × Nat) :=
  o.nodeTypes.flatMap fun node =>
    (node.properties.filter fun p => !p.nullable &&
      !node.constraints.any fun c => constraintCoversProp c.constraint node.properties p.name).map
        fun p => (.range node.label [p.name], autoIndexPriority settings p)

/-- What `compile_auto_indices_with` keeps of them. -/
def autoIndexObjects (settings : SchemaSettings) (o : OntologyIR) : List SchemaObject :=
  (((autoIndexCandidates settings o).mergeSort fun a b => a.2 ≤ b.2).take
    settings.autoIndex.maxIndices).map (·.1)

def compileAutoIndices (settings : SchemaSettings) (o : OntologyIR) (d : CypherDialect) :
    List String :=
  (autoIndexObjects settings o).filterMap (createText d)

/-! ## The schema -/

def compileSchema (settings : SchemaSettings) (o : OntologyIR) (d : CypherDialect) : List String :=
  (o.nodeTypes.flatMap fun node => compileNodeConstraints node d) ++
    o.indexes.filterMap (fun index => compileIndex o index d) ++
    compileAutoIndices settings o d

/-- The constraints and indexes an ontology declares. -/
def schemaObjects (settings : SchemaSettings) (o : OntologyIR) (d : CypherDialect) :
    List SchemaObject :=
  o.nodeTypes.flatMap (nodeObjects d) ++ o.indexes.filterMap (indexObject o d) ++
    autoIndexObjects settings o

theorem compileSchema_eq (settings : SchemaSettings) (o : OntologyIR) (d : CypherDialect) :
    compileSchema settings o d = (schemaObjects settings o d).filterMap (createText d) := by
  rw [compileSchema, schemaObjects, filterMap_append, filterMap_append,
    filterMap_flatMap, filterMap_filterMap]
  rfl

theorem createText_rangeText (d : CypherDialect) (label : GraphLabel) (p : PropertyKey) :
    (createText d (.range label [p])).isSome := by
  cases d <;> rfl

variable {x : SchemaObject}

/-- The dialect has a statement for what a constraint declares. -/
theorem isSome_text_of_mem {d : CypherDialect} {node : NodeTypeDef}
    {c : NodeConstraint} (hx : x ∈ constraintObjects d node c) : (createText d x).isSome := by
  cases d with
  | neo4j => rfl
  | memgraph =>
    cases c with
    | unique propertyIds =>
      obtain ⟨name, _, rfl⟩ := mem_map.1 hx
      rfl
    | exists_ propertyId =>
      rw [constraintObjects] at hx
      split at hx
      · cases hx
      · rw [mem_singleton.1 hx]
        rfl
    | nodeKey propertyIds => cases hx

theorem isSome_text_of_indexObject {o : OntologyIR} {d : CypherDialect} {index : IndexDef}
    (hx : indexObject o d index = some x) : (createText d x).isSome := by
  cases d with
  | neo4j => rfl
  | memgraph =>
    cases index with
    | single id nodeId propertyId =>
      cases hx
      rfl
    | composite id nodeId propertyIds =>
      simp only [indexObject] at hx
      split at hx <;> cases hx
      rfl
    | fullText id name nodeId propertyIds => cases hx
    | vector id nodeId propertyId dimensions similarity => cases hx

theorem exists_of_mem_autoIndexObjects {settings : SchemaSettings} {o : OntologyIR}
    (hx : x ∈ autoIndexObjects settings o) : ∃ label p, x = .range label [p] := by
  obtain ⟨c, hc, rfl⟩ := mem_map.1 hx
  have hcandidate := mem_mergeSort.1 (mem_of_mem_take hc)
  obtain ⟨node, _, hnode⟩ := mem_flatMap.1 hcandidate
  obtain ⟨p, _, rfl⟩ := mem_map.1 hnode
  exact ⟨_, _, rfl⟩

/-- The dialect has a statement for everything an ontology declares. -/
theorem isSome_text_of_mem_objects {settings : SchemaSettings} {o : OntologyIR}
    {d : CypherDialect} (hx : x ∈ schemaObjects settings o d) : (createText d x).isSome := by
  rw [schemaObjects, mem_append, mem_append] at hx
  rcases hx with (hx | hx) | hx
  · obtain ⟨node, _, hnode⟩ := mem_flatMap.1 hx
    obtain ⟨c, _, hc⟩ := mem_flatMap.1 hnode
    exact isSome_text_of_mem hc
  · obtain ⟨index, _, hindex⟩ := mem_filterMap.1 hx
    exact isSome_text_of_indexObject hindex
  · obtain ⟨label, p, rfl⟩ := exists_of_mem_autoIndexObjects hx
    exact createText_rangeText d label p

end Ontosyx.Compile
