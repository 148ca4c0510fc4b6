import Ontosyx.Ontology.Mutators

/-!
# Stored entities

A version of an ontology is stored entity by entity (`storage.rs`, `ontology_version.rs`,
`ontology_materialize.rs`).  `extract_entities` lists the header and the entries of the
collections; each is written under the hash of its content, and the version points at it by
kind and logical id.  `assemble_ir` sorts the rows that come back by kind and adds the entries
one after the other, through the mutators that check them.

How content is written as JSON and hashed is a parameter, `Wire`.
-/

namespace Ontosyx.Store

open Ontosyx.Core Ontology Lib.Keyed OntologyState List

/-! ## Kinds -/

inductive EntityKind where
  | ontologyHeader
  | nodeType
  | edgeType
  | indexDef
  | interface
  | property
  | objectMapping
  | linkMapping
  | propertyMapping
  | rule
  | dataQuality
  | action
  | provenance
  | function
  | metric
  | enrichment
  | concept
  | glossaryTerm
  | taxonomy
  | codeSystem
  | codedValue
  | valueSet
  | notationPattern
  | conceptMap
  | valueRangeSet
  | columnProfile
  | segment
  | tableInventory
deriving DecidableEq

namespace EntityKind

def asStr : EntityKind → String
  | ontologyHeader => "ontology_header"
  | nodeType => "node_type"
  | edgeType => "edge_type"
  | indexDef => "index_def"
  | interface => "interface"
  | property => "property"
  | objectMapping => "object_mapping"
  | linkMapping => "link_mapping"
  | propertyMapping => "property_mapping"
  | rule => "rule"
  | dataQuality => "data_quality"
  | action => "action"
  | provenance => "provenance"
  | function => "function"
  | metric => "metric"
  | enrichment => "enrichment"
  | concept => "concept"
  | glossaryTerm => "glossary_term"
  | taxonomy => "taxonomy"
  | codeSystem => "code_system"
  | codedValue => "coded_value"
  | valueSet => "value_set"
  | notationPattern => "notation_pattern"
  | conceptMap => "concept_map"
  | valueRangeSet => "value_range_set"
  | columnProfile => "column_profile"
  | segment => "segment"
  | tableInventory => "table_inventory"

def parse : String → Option EntityKind
  | "ontology_header" => some ontologyHeader
  | "node_type" => some nodeType
  | "edge_type" => some edgeType
  | "index_def" => some indexDef
  | "interface" => some interface
  | "property" => some property
  | "object_mapping" => some objectMapping
  | "link_mapping" => some linkMapping
  | "property_mapping" => some propertyMapping
  | "rule" => some rule
  | "data_quality" => some dataQuality
  | "action" => some action
  | "provenance" => some provenance
  | "function" => some function
  | "metric" => some metric
  | "enrichment" => some enrichment
  | "concept" => some concept
  | "glossary_term" => some glossaryTerm
  | "taxonomy" => some taxonomy
  | "code_system" => some codeSystem
  | "coded_value" => some codedValue
  | "value_set" => some valueSet
  | "notation_pattern" => some notationPattern
  | "concept_map" => some conceptMap
  | "value_range_set" => some valueRangeSet
  | "column_profile" => some columnProfile
  | "segment" => some segment
  | "table_inventory" => some tableInventory
  | _ => none

theorem parse_asStr (kind : EntityKind) : parse kind.asStr = some kind := by
  cases kind <;> rfl

end EntityKind

/-- The fields of the ontology that are in none of its collections. -/
structure Header where
  id : String
  name : String
  displayName : LocalizedText
  description : LocalizedText
  version : OntologyVersion
deriving DecidableEq

namespace EntityKind

/-- What an entity of the kind holds.  Properties, coded values, property mappings and
taxonomies are no entities of their own. -/
@[reducible] def Payload : EntityKind → Type
  | ontologyHeader => Header
  | nodeType => NodeTypeDef
  | edgeType => EdgeTypeDef
  | indexDef => IndexDef
  | interface => InterfaceDef
  | objectMapping => ObjectMappingDef
  | linkMapping => LinkMappingDef
  | rule => RuleDef
  | dataQuality => DataQualityDef
  | action => ActionDef
  | provenance => ProvenanceDef
  | function => FunctionDef
  | metric => MetricDef
  | enrichment => EnrichmentDef
  | concept => ConceptDef
  | glossaryTerm => GlossaryTermDef
  | codeSystem => CodeSystemDef
  | valueSet => ValueSetDef
  | notationPattern => NotationPatternDef
  | conceptMap => ConceptMapDef
  | valueRangeSet => ValueRangeSetDef
  | columnProfile => ColumnProfileDef
  | segment => SegmentDef
  | tableInventory => TableInventoryEntry
  | property | codedValue | propertyMapping | taxonomy => Empty

def logicalId : (kind : EntityKind) → kind.Payload → String
  | ontologyHeader, h => h.id
  | nodeType, d => d.id.val
  | edgeType, d => d.id.val
  | indexDef, d => indexIdOf d
  | interface, d => d.id.val
  | objectMapping, d => d.id.val
  | linkMapping, d => d.id.val
  | rule, d => d.id.val
  | dataQuality, d => d.id.val
  | action, d => d.id.val
  | provenance, d => d.id.val
  | function, d => d.id.val
  | metric, d => d.id.val
  | enrichment, d => d.id.val
  | concept, d => d.id.val
  | glossaryTerm, d => d.id.val
  | codeSystem, d => d.id.val
  | valueSet, d => d.id.val
  | notationPattern, d => d.id.val
  | conceptMap, d => d.id.val
  | valueRangeSet, d => d.id.val
  | columnProfile, d => d.id.val
  | segment, d => d.id.val
  | tableInventory, d => d.sourceId.val ++ ":" ++ d.tableName

def collection : (kind : EntityKind) → OntologyIR → List kind.Payload
  | ontologyHeader, o =>
    [{ id := o.id, name := o.name, displayName := o.displayName
       description := o.description, version := o.version }]
  | nodeType, o => o.nodeTypes
  | edgeType, o => o.edgeTypes
  | indexDef, o => o.indexes
  | interface, o => o.interfaces
  | objectMapping, o => o.objectMappings
  | linkMapping, o => o.linkMappings
  | rule, o => o.rules
  | dataQuality, o => o.dataQuality
  | action, o => o.actions
  | provenance, o => o.provenance
  | function, o => o.functions
  | metric, o => o.metrics
  | enrichment, o => o.enrichments
  | concept, o => o.concepts
  | glossaryTerm, o => o.glossary
  | codeSystem, o => o.codeSystems
  | valueSet, o => o.valueSets
  | notationPattern, o => o.notationPatterns
  | conceptMap, o => o.conceptMaps
  | valueRangeSet, o => o.valueRangeSets
  | columnProfile, o => o.columnProfiles
  | segment, o => o.segments
  | tableInventory, o => o.tableInventory
  | property, _ | codedValue, _ | propertyMapping, _ | taxonomy, _ => []

end EntityKind

structure StoredEntity where
  kind : EntityKind
  payload : kind.Payload

def StoredEntity.logicalId (e : StoredEntity) : String := e.kind.logicalId e.payload

def extractCollection (ir : OntologyIR) (kind : EntityKind) : List StoredEntity :=
  (kind.collection ir).map (StoredEntity.mk kind)

/-- `extract_entities`: the header, then the collections in turn. -/
def extractEntities (ir : OntologyIR) : List StoredEntity :=
  [.ontologyHeader, .nodeType, .edgeType, .indexDef, .interface, .objectMapping, .linkMapping,
    .rule, .dataQuality, .action, .provenance, .function, .metric, .enrichment, .concept,
    .glossaryTerm, .codeSystem, .valueSet, .notationPattern, .conceptMap, .valueRangeSet,
    .columnProfile, .segment, .tableInventory].flatMap (extractCollection ir)

/-- The same ontology but for the order of its collections. -/
def SameUpToOrder (o o' : OntologyIR) : Prop :=
  ∀ kind : EntityKind, (kind.collection o).Perm (kind.collection o')

/-! ## Writing a version -/

/-- How entities are written as JSON and hashed.  Reading may lose part of an entity, but not
its id; the hash tells contents apart. -/
structure Wire (Json Hash : Type) where
  encode : StoredEntity → Json
  decode : (kind : EntityKind) → Json → Option kind.Payload
  hash : Json → Hash
  logicalId_decode : ∀ (e : StoredEntity) (d : e.kind.Payload), decode e.kind (encode e) = some d →
    e.kind.logicalId d = e.logicalId
  hash_injective : Function.Injective hash

/-- A row of `ontology_version_entities`. -/
structure EntityPointer (Hash : Type) where
  entityKind : String
  entityLogicalId : String
  entityHash : Hash

/-- `OntologyEntityJoinRow`, of which the hash is not read again. -/
structure OntologyEntityJoinRow (Json : Type) where
  entityKind : String
  entityLogicalId : String
  content : Json

section

variable {Json Hash : Type} [DecidableEq Hash] (wire : Wire Json Hash)

/-- `ontology_entity_versions`: contents, each under its own hash. -/
structure Contents where
  rows : List (Hash × Json)
  hash_eq : ∀ r ∈ rows, wire.hash r.2 = r.1
  distinct : (rows.map (·.1)).Nodup

variable {wire}

/-- `INSERT … ON CONFLICT (entity_hash) DO NOTHING`. -/
def Contents.insert (contents : Contents wire) (content : Json) : Contents wire :=
  if h : wire.hash content ∈ contents.rows.map (·.1) then contents else
    { rows := contents.rows ++ [(wire.hash content, content)]
      hash_eq := by
        intro r hr
        rcases mem_append.1 hr with hr | hr
        · exact contents.hash_eq r hr
        · rw [mem_singleton.1 hr]
      distinct := by
        rw [map_append, nodup_append_comm, map_singleton, singleton_append,
          nodup_cons]
        exact ⟨h, contents.distinct⟩ }

variable (wire)

def StoredEntity.pointer (e : StoredEntity) : EntityPointer Hash where
  entityKind := e.kind.asStr
  entityLogicalId := e.logicalId
  entityHash := wire.hash (wire.encode e)

/-- `commit_version`: the pointers of the version and the contents with its own.  A repeated
kind and logical id violates the primary key of the pointers. -/
def commitVersion (contents : Contents wire) (ir : OntologyIR) :
    Option (List (EntityPointer Hash) × Contents wire) :=
  let entities := extractEntities ir
  if (entities.map fun e => (e.kind, e.logicalId)).Nodup then
    some (entities.map (StoredEntity.pointer wire),
      (entities.map wire.encode).foldl Contents.insert contents)
  else none

/-- `JOIN ontology_entity_versions ev ON ev.entity_hash = vs.entity_hash`. -/
def joinRows (pointers : List (EntityPointer Hash)) (contents : Contents wire) :
    List (OntologyEntityJoinRow Json) :=
  pointers.flatMap fun p =>
    (contents.rows.filter fun r => r.1 = p.entityHash).map fun r =>
      { entityKind := p.entityKind, entityLogicalId := p.entityLogicalId, content := r.2 }

end

/-! ## Reading a version -/

inductive AssembleError where
  | unknownKind (kind : String)
  | malformed (kind : EntityKind)
  | nestedOnly (kind : EntityKind)
  | missingHeader
  | rejected (step : String) (e : OntologyInvariantError)
deriving DecidableEq

section

variable {Json Hash : Type} (wire : Wire Json Hash)

/-- `from_value` of a content, for the vector of the kind. -/
def readContent (kind : EntityKind) (content : Json) : Except AssembleError (List StoredEntity) :=
  match wire.decode kind content with
  | some d => .ok [⟨kind, d⟩]
  | none => .error (.malformed kind)

/-- One row of the loop: the header is read later, and a property mapping or a taxonomy has no
vector. -/
def readRow (row : OntologyEntityJoinRow Json) : Except AssembleError (List StoredEntity) :=
  match EntityKind.parse row.entityKind with
  | none => .error (.unknownKind row.entityKind)
  | some .ontologyHeader | some .propertyMapping | some .taxonomy => .ok []
  | some .property => .error (.nestedOnly .property)
  | some .codedValue => .error (.nestedOnly .codedValue)
  | some kind => readContent wire kind row.content

def StoredEntity.ofKind (kind : EntityKind) (e : StoredEntity) : Option kind.Payload :=
  if h : e.kind = kind then some (h ▸ e.payload) else none

def vector (entities : List StoredEntity) (kind : EntityKind) : List kind.Payload :=
  entities.filterMap (StoredEntity.ofKind kind)

def tryNew (id name : String) (description : LocalizedText) (version : OntologyVersion)
    (nodeTypes : List NodeTypeDef) (edgeTypes : List EdgeTypeDef) (indexes : List IndexDef) :
    Except OntologyInvariantError OntologyState :=
  let ont := ofIR
    { id := id, name := name, description := description, version := version
      nodeTypes := nodeTypes, edgeTypes := edgeTypes, indexes := indexes }
  ont.rebuild.1.map fun _ => ont.rebuild.2

/-- `for … { ir.add_…(…).map_err(…)?; }`. -/
def addAll {α : Type} (step : String) (add : α → OntologyState → Outcome Unit) (ds : List α)
    (ir : OntologyState) : Except AssembleError OntologyState :=
  ds.foldlM (fun ir d => (add d ir).1.mapError (.rejected step) >>= fun _ => .ok (add d ir).2) ir

/-- `for … { ir.add_provenance(…); }` and its like. -/
def addEach {α : Type} (add : α → OntologyState → OntologyState) (ds : List α)
    (ir : OntologyState) : OntologyState := ds.foldl (fun ir d => add d ir) ir

def readHeader (rows : List (OntologyEntityJoinRow Json)) : Except AssembleError Header :=
  match (rows.filter fun row => row.entityKind = EntityKind.ontologyHeader.asStr).getLast? with
  | none => .error .missingHeader
  | some row =>
    match wire.decode .ontologyHeader row.content with
    | some h => .ok h
    | none => .error (.malformed .ontologyHeader)

/-- The ontology that is built from the header and the vectors. -/
def hydrate (h : Header) (entities : List StoredEntity) :
    Except AssembleError OntologyState := do
  let ir ← (tryNew h.id h.name h.description h.version (vector entities .nodeType)
    (vector entities .edgeType) (vector entities .indexDef)).mapError (.rejected "try_new")
  let ir := ir.withIR { ir.ir with displayName := h.displayName }
  let ir ← addAll "add_interface" addInterface (vector entities .interface) ir
  let ir ← addAll "add_object_mapping" addObjectMapping
    (vector entities .objectMapping) ir
  let ir ← addAll "add_link_mapping" addLinkMapping (vector entities .linkMapping) ir
  let ir ← addAll "add_rule" addRule (vector entities .rule) ir
  let ir ← addAll "add_data_quality" addDataQuality (vector entities .dataQuality) ir
  let ir ← addAll "add_action" addAction (vector entities .action) ir
  let ir := addEach (fun d ir => (addProvenance d ir).2)
    (vector entities .provenance) ir
  let ir ← addAll "add_function" addFunction (vector entities .function) ir
  let ir ← addAll "add_metric" addMetric (vector entities .metric) ir
  let ir ← addAll "add_enrichment" addEnrichment (vector entities .enrichment) ir
  let ir ← addAll "add_glossary_term" addGlossaryTerm
    (vector entities .glossaryTerm) ir
  let ir ← addAll "add_concept" addConcept (vector entities .concept) ir
  let ir ← addAll "add_code_system" addCodeSystem (vector entities .codeSystem) ir
  let ir ← addAll "add_value_set" addValueSet (vector entities .valueSet) ir
  let ir ← addAll "add_notation_pattern" addNotationPattern
    (vector entities .notationPattern) ir
  let ir ← addAll "add_concept_map" addConceptMap (vector entities .conceptMap) ir
  let ir ← addAll "add_value_range_set" addValueRangeSet
    (vector entities .valueRangeSet) ir
  let ir := addEach addColumnProfile (vector entities .columnProfile) ir
  let ir ← addAll "add_segment" addSegment (vector entities .segment) ir
  addAll "upsert_table_inventory_entry" upsertTableInventoryEntry
    (vector entities .tableInventory) ir

def assembleIr (rows : List (OntologyEntityJoinRow Json)) : Except AssembleError OntologyIR := do
  let entities ← rows.mapM (readRow wire)
  let h ← readHeader wire rows
  let ir ← hydrate h entities.flatten
  pure ir.ir

end

end Ontosyx.Store
