import Ontosyx.Lib.Positions
import Ontosyx.Ontology.IR

/-!
# Lookup maps

`OntologyIndices`, the maps an ontology keeps beside its vectors, and the state
that mutators change: the vectors together with the maps of the last successful
`rebuild_indices`.  A `HashMap` from ids to positions is a partial function.

The maps agree with the vectors (`Agrees`) when each sends every id to the
position of the element that carries it and holds no other entry.

## Main results

* `agrees_iff` — the maps agree exactly when the vectors are `Indexed` and the
  maps are the ones the pass builds from them.
* `rebuild_of_indexed`, `rebuild_of_not_indexed` — what the pass does to a state.
-/

namespace Ontosyx.Ontology

open Ontosyx.Core Lib.Positions Function

structure OntologyIndices where
  nodeIdIdx : NodeTypeId → Option Nat
  nodeLabelIdx : GraphLabel → Option Nat
  edgeIdIdx : EdgeTypeId → Option Nat
  propIdLoc : PropertyId → Option (Nat × Nat)
  interfaceIdIdx : InterfaceId → Option Nat
  ruleIdIdx : RuleId → Option Nat
  actionIdIdx : ActionId → Option Nat
  functionIdIdx : FunctionId → Option Nat
  metricIdIdx : MetricId → Option Nat
  enrichmentIdIdx : EnrichmentId → Option Nat
  glossaryTermIdIdx : GlossaryTermId → Option Nat
  dataQualityIdIdx : DataQualityId → Option Nat
  objectMappingIdIdx : ObjectMappingId → Option Nat
  linkMappingIdIdx : LinkMappingId → Option Nat
  conceptIdIdx : ConceptId → Option Nat
  codeSystemIdIdx : CodeSystemId → Option Nat
  codedValueLoc : CodedValueId → Option (Nat × Nat)
  valueSetIdIdx : ValueSetId → Option Nat
  notationPatternIdIdx : NotationPatternId → Option Nat
  conceptMapIdIdx : ConceptMapId → Option Nat
  valueRangeSetIdIdx : ValueRangeSetId → Option Nat
  columnProfileIdIdx : ColumnProfileId → Option Nat
  segmentIdIdx : SegmentId → Option Nat
  tableInventoryIdx : SourceId × String → Option Nat
  conceptRealisedByNodeTypes : ConceptId → List Nat
  conceptRealisedByEdgeTypes : ConceptId → List Nat

/-- The concepts a node type realises, the primary one first. -/
def NodeTypeDef.realisedConcepts (n : NodeTypeDef) : List ConceptId :=
  n.conceptId.toList ++ n.conceptRealizations.map (·.conceptId)

/-- The concepts an edge type realises, the primary one first. -/
def EdgeTypeDef.realisedConcepts (e : EdgeTypeDef) : List ConceptId :=
  e.conceptId.toList ++ e.conceptRealizations.map (·.conceptId)

def TableInventoryEntry.key (e : TableInventoryEntry) : SourceId × String :=
  (e.sourceId, e.tableName)

/-- The reverse concept index: the position of a type once for each time it
names the concept. -/
def realisedBy {α : Type} (concepts : α → List ConceptId) (xs : List α) (c : ConceptId) :
    List Nat :=
  xs.zipIdx.flatMap fun p => ((concepts p.1).filter fun d => d = c).map fun _ => p.2

namespace OntologyIR

/-- The maps a successful `rebuild_indices` builds. -/
def indices (o : OntologyIR) : OntologyIndices where
  nodeIdIdx := position (·.id) o.nodeTypes
  nodeLabelIdx := position (·.label) o.nodeTypes
  edgeIdIdx := position (·.id) o.edgeTypes
  propIdLoc := location (fun n => n.properties.map (·.id)) o.nodeTypes
  interfaceIdIdx := position (·.id) o.interfaces
  ruleIdIdx := position (·.id) o.rules
  actionIdIdx := position (·.id) o.actions
  functionIdIdx := position (·.id) o.functions
  metricIdIdx := position (·.id) o.metrics
  enrichmentIdIdx := position (·.id) o.enrichments
  glossaryTermIdIdx := position (·.id) o.glossary
  dataQualityIdIdx := position (·.id) o.dataQuality
  objectMappingIdIdx := position (·.id) o.objectMappings
  linkMappingIdIdx := position (·.id) o.linkMappings
  conceptIdIdx := position (·.id) o.concepts
  codeSystemIdIdx := position (·.id) o.codeSystems
  codedValueLoc := location (fun s => s.codes.map (·.id)) o.codeSystems
  valueSetIdIdx := position (·.id) o.valueSets
  notationPatternIdIdx := position (·.id) o.notationPatterns
  conceptMapIdIdx := position (·.id) o.conceptMaps
  valueRangeSetIdIdx := position (·.id) o.valueRangeSets
  columnProfileIdIdx := position (·.id) o.columnProfiles
  segmentIdIdx := position (·.id) o.segments
  tableInventoryIdx := position TableInventoryEntry.key o.tableInventory
  conceptRealisedByNodeTypes := realisedBy NodeTypeDef.realisedConcepts o.nodeTypes
  conceptRealisedByEdgeTypes := realisedBy EdgeTypeDef.realisedConcepts o.edgeTypes

/-- Every lookup map sends each id to the position of the element with that id
and contains no other entry. -/
structure Agrees (o : OntologyIR) (l : OntologyIndices) : Prop where
  nodeIdIdx : IsPositionMap (·.id) o.nodeTypes l.nodeIdIdx
  nodeLabelIdx : IsPositionMap (·.label) o.nodeTypes l.nodeLabelIdx
  edgeIdIdx : IsPositionMap (·.id) o.edgeTypes l.edgeIdIdx
  propIdLoc : IsLocationMap (fun n => n.properties.map (·.id)) o.nodeTypes l.propIdLoc
  interfaceIdIdx : IsPositionMap (·.id) o.interfaces l.interfaceIdIdx
  ruleIdIdx : IsPositionMap (·.id) o.rules l.ruleIdIdx
  actionIdIdx : IsPositionMap (·.id) o.actions l.actionIdIdx
  functionIdIdx : IsPositionMap (·.id) o.functions l.functionIdIdx
  metricIdIdx : IsPositionMap (·.id) o.metrics l.metricIdIdx
  enrichmentIdIdx : IsPositionMap (·.id) o.enrichments l.enrichmentIdIdx
  glossaryTermIdIdx : IsPositionMap (·.id) o.glossary l.glossaryTermIdIdx
  dataQualityIdIdx : IsPositionMap (·.id) o.dataQuality l.dataQualityIdIdx
  objectMappingIdIdx : IsPositionMap (·.id) o.objectMappings l.objectMappingIdIdx
  linkMappingIdIdx : IsPositionMap (·.id) o.linkMappings l.linkMappingIdIdx
  conceptIdIdx : IsPositionMap (·.id) o.concepts l.conceptIdIdx
  codeSystemIdIdx : IsPositionMap (·.id) o.codeSystems l.codeSystemIdIdx
  codedValueLoc : IsLocationMap (fun s => s.codes.map (·.id)) o.codeSystems l.codedValueLoc
  valueSetIdIdx : IsPositionMap (·.id) o.valueSets l.valueSetIdIdx
  notationPatternIdIdx : IsPositionMap (·.id) o.notationPatterns l.notationPatternIdIdx
  conceptMapIdIdx : IsPositionMap (·.id) o.conceptMaps l.conceptMapIdIdx
  valueRangeSetIdIdx : IsPositionMap (·.id) o.valueRangeSets l.valueRangeSetIdIdx
  columnProfileIdIdx : IsPositionMap (·.id) o.columnProfiles l.columnProfileIdIdx
  segmentIdIdx : IsPositionMap (·.id) o.segments l.segmentIdIdx
  tableInventoryIdx : IsPositionMap TableInventoryEntry.key o.tableInventory l.tableInventoryIdx
  conceptRealisedByNodeTypes :
    l.conceptRealisedByNodeTypes = realisedBy NodeTypeDef.realisedConcepts o.nodeTypes
  conceptRealisedByEdgeTypes :
    l.conceptRealisedByEdgeTypes = realisedBy EdgeTypeDef.realisedConcepts o.edgeTypes

/-- Distinct ids have distinct texts. -/
theorem nodup_map_val {α ι : Type} {id : α → ι} (val : ι → String)
    (hval : Injective val) {xs : List α} :
    (xs.map fun x => val (id x)).Nodup ↔ (xs.map id).Nodup := by
  have h : (fun x => val (id x)) = val ∘ id := rfl
  rw [h, ← List.map_map, List.nodup_map_iff hval]

/-- The registries' part of `Indexed`, with ids in place of their texts. -/
theorem registriesIndexed_iff (o : OntologyIR) : o.RegistriesIndexed ↔
      (o.interfaces.map (·.id)).Nodup ∧ (o.rules.map (·.id)).Nodup ∧
      (o.actions.map (·.id)).Nodup ∧ (o.functions.map (·.id)).Nodup ∧
      (o.metrics.map (·.id)).Nodup ∧ (o.enrichments.map (·.id)).Nodup ∧
      (o.glossary.map (·.id)).Nodup ∧ (o.dataQuality.map (·.id)).Nodup ∧
      (o.concepts.map (·.id)).Nodup ∧ (o.codeSystems.map (·.id)).Nodup ∧
      (o.codeSystems.flatMap fun s => s.codes.map (·.id)).Nodup ∧
      (o.valueSets.map (·.id)).Nodup ∧ (o.notationPatterns.map (·.id)).Nodup ∧
      (o.conceptMaps.map (·.id)).Nodup ∧ (o.valueRangeSets.map (·.id)).Nodup ∧
      (o.columnProfiles.map (·.id)).Nodup ∧ (o.segments.map (·.id)).Nodup ∧
      (o.tableInventory.map TableInventoryEntry.key).Nodup := by
  have hi : Injective InterfaceId.val := by rintro ⟨a⟩ ⟨b⟩ rfl; rfl
  have hr : Injective RuleId.val := by rintro ⟨a⟩ ⟨b⟩ rfl; rfl
  have ha : Injective ActionId.val := by rintro ⟨a⟩ ⟨b⟩ rfl; rfl
  have hf : Injective FunctionId.val := by rintro ⟨a⟩ ⟨b⟩ rfl; rfl
  have hm : Injective MetricId.val := by rintro ⟨a⟩ ⟨b⟩ rfl; rfl
  have hen : Injective EnrichmentId.val := by rintro ⟨a⟩ ⟨b⟩ rfl; rfl
  have hg : Injective GlossaryTermId.val := by rintro ⟨a⟩ ⟨b⟩ rfl; rfl
  have hdq : Injective DataQualityId.val := by rintro ⟨a⟩ ⟨b⟩ rfl; rfl
  have hc : Injective ConceptId.val := by rintro ⟨a⟩ ⟨b⟩ rfl; rfl
  have hvs : Injective ValueSetId.val := by rintro ⟨a⟩ ⟨b⟩ rfl; rfl
  have hnp : Injective NotationPatternId.val := by rintro ⟨a⟩ ⟨b⟩ rfl; rfl
  have hcm : Injective ConceptMapId.val := by rintro ⟨a⟩ ⟨b⟩ rfl; rfl
  have hvr : Injective ValueRangeSetId.val := by rintro ⟨a⟩ ⟨b⟩ rfl; rfl
  have hcp : Injective ColumnProfileId.val := by rintro ⟨a⟩ ⟨b⟩ rfl; rfl
  have hs : Injective SegmentId.val := by rintro ⟨a⟩ ⟨b⟩ rfl; rfl
  constructor
  · intro h
    exact ⟨(nodup_map_val _ hi).1 h.interfaces, (nodup_map_val _ hr).1 h.rules,
      (nodup_map_val _ ha).1 h.actions, (nodup_map_val _ hf).1 h.functions,
      (nodup_map_val _ hm).1 h.metrics, (nodup_map_val _ hen).1 h.enrichments,
      (nodup_map_val _ hg).1 h.glossary, (nodup_map_val _ hdq).1 h.dataQuality,
      (nodup_map_val _ hc).1 h.concepts, h.codeSystems, h.codedValues,
      (nodup_map_val _ hvs).1 h.valueSets, (nodup_map_val _ hnp).1 h.notationPatterns,
      (nodup_map_val _ hcm).1 h.conceptMaps, (nodup_map_val _ hvr).1 h.valueRangeSets,
      (nodup_map_val _ hcp).1 h.columnProfiles, (nodup_map_val _ hs).1 h.segments,
      h.tableInventory⟩
  · intro h
    obtain ⟨h1, h2, h3, h4, h5, h6, h7, h8, h9, h10, h11, h12, h13, h14, h15, h16, h17, h18⟩ := h
    exact ⟨(nodup_map_val _ hi).2 h1, (nodup_map_val _ hr).2 h2, (nodup_map_val _ ha).2 h3,
      (nodup_map_val _ hf).2 h4, (nodup_map_val _ hm).2 h5, (nodup_map_val _ hen).2 h6,
      (nodup_map_val _ hg).2 h7, (nodup_map_val _ hdq).2 h8, (nodup_map_val _ hc).2 h9, h10, h11,
      (nodup_map_val _ hvs).2 h12, (nodup_map_val _ hnp).2 h13, (nodup_map_val _ hcm).2 h14,
      (nodup_map_val _ hvr).2 h15, (nodup_map_val _ hcp).2 h16, (nodup_map_val _ hs).2 h17, h18⟩

theorem nodup_objectIds_iff {xs : List ObjectMappingDef} :
    (xs.map (·.id.val)).Nodup ↔ (xs.map (·.id)).Nodup :=
  nodup_map_val ObjectMappingId.val (by rintro ⟨a⟩ ⟨b⟩ rfl; rfl)

theorem nodup_linkIds_iff {xs : List LinkMappingDef} :
    (xs.map (·.id.val)).Nodup ↔ (xs.map (·.id)).Nodup :=
  nodup_map_val LinkMappingId.val (by rintro ⟨a⟩ ⟨b⟩ rfl; rfl)

/-- The maps agree exactly when no two entries share a key and the maps are the
ones the pass builds. -/
theorem agrees_iff {o : OntologyIR} {l : OntologyIndices} :
    o.Agrees l ↔ o.Indexed ∧ l = o.indices := by
  constructor
  · intro h
    refine ⟨⟨h.nodeIdIdx.nodup, h.nodeLabelIdx.nodup, h.propIdLoc.nodup, h.edgeIdIdx.nodup,
      nodup_objectIds_iff.2 h.objectMappingIdIdx.nodup,
      nodup_linkIds_iff.2 h.linkMappingIdIdx.nodup, ?_⟩, ?_⟩
    · rw [registriesIndexed_iff]
      exact ⟨h.interfaceIdIdx.nodup, h.ruleIdIdx.nodup, h.actionIdIdx.nodup,
        h.functionIdIdx.nodup, h.metricIdIdx.nodup, h.enrichmentIdIdx.nodup,
        h.glossaryTermIdIdx.nodup, h.dataQualityIdIdx.nodup, h.conceptIdIdx.nodup,
        h.codeSystemIdIdx.nodup, h.codedValueLoc.nodup, h.valueSetIdIdx.nodup,
        h.notationPatternIdIdx.nodup, h.conceptMapIdIdx.nodup, h.valueRangeSetIdIdx.nodup,
        h.columnProfileIdIdx.nodup, h.segmentIdIdx.nodup, h.tableInventoryIdx.nodup⟩
    · cases l
      simp only [indices, OntologyIndices.mk.injEq]
      exact ⟨h.nodeIdIdx.eq_position, h.nodeLabelIdx.eq_position, h.edgeIdIdx.eq_position,
        (isLocationMap_iff.1 h.propIdLoc).2, h.interfaceIdIdx.eq_position,
        h.ruleIdIdx.eq_position, h.actionIdIdx.eq_position, h.functionIdIdx.eq_position,
        h.metricIdIdx.eq_position, h.enrichmentIdIdx.eq_position,
        h.glossaryTermIdIdx.eq_position, h.dataQualityIdIdx.eq_position,
        h.objectMappingIdIdx.eq_position, h.linkMappingIdIdx.eq_position,
        h.conceptIdIdx.eq_position, h.codeSystemIdIdx.eq_position,
        (isLocationMap_iff.1 h.codedValueLoc).2, h.valueSetIdIdx.eq_position,
        h.notationPatternIdIdx.eq_position, h.conceptMapIdIdx.eq_position,
        h.valueRangeSetIdIdx.eq_position, h.columnProfileIdIdx.eq_position,
        h.segmentIdIdx.eq_position, h.tableInventoryIdx.eq_position,
        h.conceptRealisedByNodeTypes, h.conceptRealisedByEdgeTypes⟩
  · intro h
    obtain ⟨ho, rfl⟩ := h
    obtain ⟨h1, h2, h3, h4, h5, h6, h7, h8, h9, h10, h11, h12, h13, h14, h15, h16, h17, h18⟩ :=
      (registriesIndexed_iff o).1 ho.registries
    exact {
      nodeIdIdx := position_isMap ho.nodeIds
      nodeLabelIdx := position_isMap ho.nodeLabels
      edgeIdIdx := position_isMap ho.edgeIds
      propIdLoc := isLocationMap_location ho.propertyIds
      interfaceIdIdx := position_isMap h1
      ruleIdIdx := position_isMap h2
      actionIdIdx := position_isMap h3
      functionIdIdx := position_isMap h4
      metricIdIdx := position_isMap h5
      enrichmentIdIdx := position_isMap h6
      glossaryTermIdIdx := position_isMap h7
      dataQualityIdIdx := position_isMap h8
      objectMappingIdIdx := position_isMap
        (nodup_objectIds_iff.1 ho.objectMappingIds)
      linkMappingIdIdx := position_isMap (nodup_linkIds_iff.1 ho.linkMappingIds)
      conceptIdIdx := position_isMap h9
      codeSystemIdIdx := position_isMap h10
      codedValueLoc := isLocationMap_location h11
      valueSetIdIdx := position_isMap h12
      notationPatternIdIdx := position_isMap h13
      conceptMapIdIdx := position_isMap h14
      valueRangeSetIdIdx := position_isMap h15
      columnProfileIdIdx := position_isMap h16
      segmentIdIdx := position_isMap h17
      tableInventoryIdx := position_isMap h18
      conceptRealisedByNodeTypes := rfl
      conceptRealisedByEdgeTypes := rfl }

theorem Indexed.agrees {o : OntologyIR} (ho : o.Indexed) : o.Agrees o.indices :=
  agrees_iff.2 ⟨ho, rfl⟩

end OntologyIR

/-! ## The state mutators change -/

/-- The vectors of an ontology with the lookup maps it keeps beside them. -/
structure OntologyState where
  ir : OntologyIR
  lookup : OntologyIndices

/-- What a mutator returns, and the state it leaves behind. -/
abbrev Outcome (α : Type) : Type := Except OntologyInvariantError α × OntologyState

namespace OntologyState

/-- The lookup maps agree with the vectors. -/
def Agrees (s : OntologyState) : Prop := s.ir.Agrees s.lookup

/-- The state of freshly indexed vectors. -/
def ofIR (o : OntologyIR) : OntologyState := ⟨o, o.indices⟩

/-- `rebuild_indices`: the new maps are assigned when the pass has gone through;
a duplicate returns before, and leaves the old maps beside the vectors. -/
def rebuild (s : OntologyState) : Outcome Unit :=
  match s.ir.rebuildIndices with
  | .ok () => (.ok (), { s with lookup := s.ir.indices })
  | .error e => (.error e, s)

theorem agrees_iff_eq_ofIR {s : OntologyState} : s.Agrees ↔ s.ir.Indexed ∧ s = ofIR s.ir := by
  cases s with
  | mk o l =>
    rw [Agrees, OntologyIR.agrees_iff]
    simp only [ofIR, OntologyState.mk.injEq, true_and]

theorem agrees_ofIR {o : OntologyIR} : (ofIR o).Agrees ↔ o.Indexed := by
  rw [agrees_iff_eq_ofIR]
  exact and_iff_left rfl

theorem rebuild_of_indexed {s : OntologyState} (h : s.ir.Indexed) :
    s.rebuild = (.ok (), ofIR s.ir) := by
  rw [rebuild, s.ir.rebuild_ok_iff.2 h]
  rfl

theorem rebuild_of_not_indexed {s : OntologyState} (h : ¬s.ir.Indexed) :
    ∃ e, s.rebuild = (.error e, s) := by
  rw [rebuild]
  cases hr : s.ir.rebuildIndices with
  | ok u => exact absurd (s.ir.rebuild_ok_iff.1 hr) h
  | error e => exact ⟨e, rfl⟩

end OntologyState

end Ontosyx.Ontology
