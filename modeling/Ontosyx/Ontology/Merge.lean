import Ontosyx.Ontology.Mutators

/-!
# Incremental extension

`OntologyIR::extend`: merge one ontology into another.  An item whose id is new
is added, one that is there with the same content is skipped, and one that is
there with other content is recorded as a conflict and dropped.  Column profiles
are upserted.  Items are compared by their serialised form, which stands for the
whole definition; the comparisons are parameters here (`DefsMatch`), since a
definition of the model keeps the fields that other functions read.
-/

namespace Ontosyx.Ontology

open Ontosyx.Core Lib.Keyed OntologyState

/-- One id and collection name of the report. -/
structure MergedItem where
  kind : String
  id : String
deriving DecidableEq

/-- A rejected item with the reason. -/
structure MergeConflict where
  kind : String
  id : String
  reason : String
deriving DecidableEq

structure MergeReport where
  added : List MergedItem := []
  skipped : List MergedItem := []
  conflicts : List MergeConflict := []
deriving DecidableEq

namespace MergeReport

/-- `report.added.push`. -/
def pushAdded (r : MergeReport) (item : MergedItem) : MergeReport :=
  { r with added := r.added ++ [item] }

/-- `report.skipped.push`. -/
def pushSkipped (r : MergeReport) (item : MergedItem) : MergeReport :=
  { r with skipped := r.skipped ++ [item] }

/-- `report.conflicts.push`; there is one reason. -/
def pushConflict (r : MergeReport) (item : MergedItem) : MergeReport :=
  { r with
    conflicts := r.conflicts ++ [⟨item.kind, item.id, "content differs from existing entry"⟩] }

end MergeReport

/-- A merge step: from the report and the ontology so far to the report, or the
error of an `add_*` call, and the ontology it leaves behind. -/
abbrev MergeStep : Type :=
  MergeReport → OntologyState → Except OntologyInvariantError MergeReport × OntologyState

/-- A collection as its merge loop sees it. -/
structure MergeTarget (α κ : Type) where
  kind : String
  items : OntologyIR → List α
  key : α → κ
  text : α → String
  add : α → OntologyState → Outcome Unit

def MergeTarget.entry {α κ : Type} (T : MergeTarget α κ) (x : α) : MergedItem :=
  ⟨T.kind, T.text x⟩

/-- The loop of a `merge_*` helper. -/
def MergeTarget.merge {α κ : Type} [DecidableEq κ] (T : MergeTarget α κ) (same : α → α → Bool) :
    List α → MergeStep
  | [], report, s => (.ok report, s)
  | item :: rest, report, s =>
    match first T.key (T.key item) (T.items s.ir) with
    | some existing =>
      if same existing item then T.merge same rest (report.pushSkipped (T.entry item)) s
      else T.merge same rest (report.pushConflict (T.entry item)) s
    | none =>
      match T.add item s with
      | (.error e, s') => (.error e, s')
      | (.ok (), s') => T.merge same rest (report.pushAdded (T.entry item)) s'

/-- Steps one after the other, up to the first error. -/
def runMerges : List MergeStep → MergeStep
  | [], report, s => (.ok report, s)
  | step :: rest, report, s =>
    match step report s with
    | (.error e, s') => (.error e, s')
    | (.ok report', s') => runMerges rest report' s'

/-- `defs_match` at each type of definition, and the JSON text of an index. -/
structure DefsMatch where
  nodeType : NodeTypeDef → NodeTypeDef → Bool
  edgeType : EdgeTypeDef → EdgeTypeDef → Bool
  objectMapping : ObjectMappingDef → ObjectMappingDef → Bool
  linkMapping : LinkMappingDef → LinkMappingDef → Bool
  interface : InterfaceDef → InterfaceDef → Bool
  glossaryTerm : GlossaryTermDef → GlossaryTermDef → Bool
  codeSystem : CodeSystemDef → CodeSystemDef → Bool
  valueSet : ValueSetDef → ValueSetDef → Bool
  conceptMap : ConceptMapDef → ConceptMapDef → Bool
  notationPattern : NotationPatternDef → NotationPatternDef → Bool
  valueRangeSet : ValueRangeSetDef → ValueRangeSetDef → Bool
  rule : RuleDef → RuleDef → Bool
  action : ActionDef → ActionDef → Bool
  function : FunctionDef → FunctionDef → Bool
  metric : MetricDef → MetricDef → Bool
  enrichment : EnrichmentDef → EnrichmentDef → Bool
  dataQuality : DataQualityDef → DataQualityDef → Bool
  indexText : IndexDef → String

/-! ## The collections -/

/-- `node_types`. -/
def nodeTypeTarget : MergeTarget NodeTypeDef NodeTypeId :=
  ⟨"node_type", (·.nodeTypes), (·.id), (·.id.val), addNodeType⟩

/-- `edge_types`. -/
def edgeTypeTarget : MergeTarget EdgeTypeDef EdgeTypeId :=
  ⟨"edge_type", (·.edgeTypes), (·.id), (·.id.val), addEdgeType⟩

/-- `object_mappings`. -/
def objectMappingTarget : MergeTarget ObjectMappingDef ObjectMappingId :=
  ⟨"object_mapping", (·.objectMappings), (·.id), (·.id.val), addObjectMapping⟩

/-- `link_mappings`. -/
def linkMappingTarget : MergeTarget LinkMappingDef LinkMappingId :=
  ⟨"link_mapping", (·.linkMappings), (·.id), (·.id.val), addLinkMapping⟩

/-- `interfaces`. -/
def interfaceTarget : MergeTarget InterfaceDef InterfaceId :=
  ⟨"interface", (·.interfaces), (·.id), (·.id.val), addInterface⟩

/-- `glossary`. -/
def glossaryTermTarget : MergeTarget GlossaryTermDef GlossaryTermId :=
  ⟨"glossary_term", (·.glossary), (·.id), (·.id.val), addGlossaryTerm⟩

/-- `code_systems`. -/
def codeSystemTarget : MergeTarget CodeSystemDef CodeSystemId :=
  ⟨"code_system", (·.codeSystems), (·.id), (·.id.val), addCodeSystem⟩

/-- `value_sets`. -/
def valueSetTarget : MergeTarget ValueSetDef ValueSetId :=
  ⟨"value_set", (·.valueSets), (·.id), (·.id.val), addValueSet⟩

/-- `concept_maps`. -/
def conceptMapTarget : MergeTarget ConceptMapDef ConceptMapId :=
  ⟨"concept_map", (·.conceptMaps), (·.id), (·.id.val), addConceptMap⟩

/-- `notation_patterns`. -/
def notationPatternTarget : MergeTarget NotationPatternDef NotationPatternId :=
  ⟨"notation_pattern", (·.notationPatterns), (·.id), (·.id.val), addNotationPattern⟩

/-- `value_range_sets`. -/
def valueRangeSetTarget : MergeTarget ValueRangeSetDef ValueRangeSetId :=
  ⟨"value_range_set", (·.valueRangeSets), (·.id), (·.id.val), addValueRangeSet⟩

/-- `rules`. -/
def ruleTarget : MergeTarget RuleDef RuleId :=
  ⟨"rule", (·.rules), (·.id), (·.id.val), addRule⟩

/-- `actions`. -/
def actionTarget : MergeTarget ActionDef ActionId :=
  ⟨"action", (·.actions), (·.id), (·.id.val), addAction⟩

/-- `functions`. -/
def functionTarget : MergeTarget FunctionDef FunctionId :=
  ⟨"function", (·.functions), (·.id), (·.id.val), addFunction⟩

/-- `metrics`. -/
def metricTarget : MergeTarget MetricDef MetricId :=
  ⟨"metric", (·.metrics), (·.id), (·.id.val), addMetric⟩

/-- `enrichments`. -/
def enrichmentTarget : MergeTarget EnrichmentDef EnrichmentId :=
  ⟨"enrichment", (·.enrichments), (·.id), (·.id.val), addEnrichment⟩

/-- `data_quality`. -/
def dataQualityTarget : MergeTarget DataQualityDef DataQualityId :=
  ⟨"data_quality", (·.dataQuality), (·.id), (·.id.val), addDataQuality⟩

/-- `indexes`: an index is its own identity, because equal JSON values are equal
indexes. -/
def indexTarget (m : DefsMatch) : MergeTarget IndexDef IndexDef :=
  ⟨"index", (·.indexes), id, m.indexText, addIndex⟩

/-! ## The helpers -/

def mergeNodeTypes (m : DefsMatch) : List NodeTypeDef → MergeStep :=
  nodeTypeTarget.merge m.nodeType

def mergeEdgeTypes (m : DefsMatch) : List EdgeTypeDef → MergeStep :=
  edgeTypeTarget.merge m.edgeType

def mergeObjectMappings (m : DefsMatch) : List ObjectMappingDef → MergeStep :=
  objectMappingTarget.merge m.objectMapping

def mergeLinkMappings (m : DefsMatch) : List LinkMappingDef → MergeStep :=
  linkMappingTarget.merge m.linkMapping

def mergeInterfaces (m : DefsMatch) : List InterfaceDef → MergeStep :=
  interfaceTarget.merge m.interface

def mergeGlossaryTerms (m : DefsMatch) : List GlossaryTermDef → MergeStep :=
  glossaryTermTarget.merge m.glossaryTerm

def mergeCodeSystems (m : DefsMatch) : List CodeSystemDef → MergeStep :=
  codeSystemTarget.merge m.codeSystem

def mergeValueSets (m : DefsMatch) : List ValueSetDef → MergeStep :=
  valueSetTarget.merge m.valueSet

def mergeConceptMaps (m : DefsMatch) : List ConceptMapDef → MergeStep :=
  conceptMapTarget.merge m.conceptMap

def mergeNotationPatterns (m : DefsMatch) : List NotationPatternDef → MergeStep :=
  notationPatternTarget.merge m.notationPattern

def mergeValueRangeSets (m : DefsMatch) : List ValueRangeSetDef → MergeStep :=
  valueRangeSetTarget.merge m.valueRangeSet

def mergeRules (m : DefsMatch) : List RuleDef → MergeStep :=
  ruleTarget.merge m.rule

def mergeActions (m : DefsMatch) : List ActionDef → MergeStep :=
  actionTarget.merge m.action

def mergeFunctions (m : DefsMatch) : List FunctionDef → MergeStep :=
  functionTarget.merge m.function

def mergeMetrics (m : DefsMatch) : List MetricDef → MergeStep :=
  metricTarget.merge m.metric

def mergeEnrichments (m : DefsMatch) : List EnrichmentDef → MergeStep :=
  enrichmentTarget.merge m.enrichment

def mergeDataQualities (m : DefsMatch) : List DataQualityDef → MergeStep :=
  dataQualityTarget.merge m.dataQuality

/-- `merge_indexes`: what is found is equal, so it is always skipped. -/
def mergeIndexes (m : DefsMatch) : List IndexDef → MergeStep :=
  (indexTarget m).merge fun _ _ => true

/-- `merge_column_profiles`: upserts, and cannot fail. -/
def mergeColumnProfiles : List ColumnProfileDef → MergeReport → OntologyState →
    MergeReport × OntologyState
  | [], report, s => (report, s)
  | item :: rest, report, s =>
    let entry : MergedItem := ⟨"column_profile", item.id.val⟩
    let existing := first (·.id) item.id s.ir.columnProfiles
    let report' := if existing = some item then report.pushSkipped entry
      else report.pushAdded entry
    mergeColumnProfiles rest report' (addColumnProfile item s)

def OntologyState.extend (m : DefsMatch) (other : OntologyIR) (base : OntologyState) :
    Except OntologyInvariantError MergeReport × OntologyState :=
  runMerges
    [mergeNodeTypes m other.nodeTypes, mergeEdgeTypes m other.edgeTypes,
     mergeIndexes m other.indexes,
     mergeObjectMappings m other.objectMappings,
     mergeLinkMappings m other.linkMappings,
     mergeInterfaces m other.interfaces,
     mergeGlossaryTerms m other.glossary,
     mergeCodeSystems m other.codeSystems,
     mergeValueSets m other.valueSets,
     mergeConceptMaps m other.conceptMaps,
     mergeNotationPatterns m other.notationPatterns,
     mergeValueRangeSets m other.valueRangeSets,
     mergeRules m other.rules,
     mergeActions m other.actions,
     mergeFunctions m other.functions,
     mergeMetrics m other.metrics,
     mergeEnrichments m other.enrichments,
     mergeDataQualities m other.dataQuality,
     fun report s =>
       let (report', s') := mergeColumnProfiles other.columnProfiles report s
       (.ok report', s')]
    {} base

end Ontosyx.Ontology
