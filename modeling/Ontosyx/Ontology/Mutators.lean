import Ontosyx.Ontology.Guards

/-!
# Mutators

The structural mutation API of `OntologyIR`.  A mutator checks its argument,
changes one vector and ends with `rebuild_indices`.  When the pass finds a
duplicate the error is returned with the changed vectors and the old maps left
in place; only `replace_code_system` works on a clone.

The collections with an id map behave alike, so `Slot` packs what their
mutators differ in, together with the facts about it that the proofs use.
-/

namespace Ontosyx.Ontology

open Ontosyx.Core Lib.Keyed Lib.Positions

/-! ## Node types, edge types and indexes -/

namespace OntologyState

/-- The vectors replaced, the maps kept. -/
def withIR (s : OntologyState) (o : OntologyIR) : OntologyState := { s with ir := o }

def addNodeType (node : NodeTypeDef) (s : OntologyState) : Outcome Unit :=
  if (s.lookup.nodeIdIdx node.id).isSome then (.error (.duplicateNodeTypeId node.id), s)
  else if (s.lookup.nodeLabelIdx node.label).isSome then
    (.error (.duplicateNodeTypeLabel node.label), s)
  else (s.withIR { s.ir with nodeTypes := s.ir.nodeTypes ++ [node] }).rebuild

def removeNodeType (id : NodeTypeId) (s : OntologyState) : Outcome Unit :=
  match s.lookup.nodeIdIdx id with
  | none => (.error (.nodeTypeNotFound id), s)
  | some idx => (s.withIR { s.ir with nodeTypes := s.ir.nodeTypes.eraseIdx idx }).rebuild

def updateNodeType (id : NodeTypeId) (f : NodeTypeDef → NodeTypeDef) (s : OntologyState) :
    Outcome Unit :=
  match s.lookup.nodeIdIdx id with
  | none => (.error (.nodeTypeNotFound id), s)
  | some idx => (s.withIR { s.ir with nodeTypes := s.ir.nodeTypes.modify idx f }).rebuild

def addEdgeType (edge : EdgeTypeDef) (s : OntologyState) : Outcome Unit :=
  if (s.lookup.edgeIdIdx edge.id).isSome then (.error (.duplicateEdgeTypeId edge.id), s)
  else (s.withIR { s.ir with edgeTypes := s.ir.edgeTypes ++ [edge] }).rebuild

def removeEdgeType (id : EdgeTypeId) (s : OntologyState) : Outcome Unit :=
  match s.lookup.edgeIdIdx id with
  | none => (.error (.edgeTypeNotFound id), s)
  | some idx => (s.withIR { s.ir with edgeTypes := s.ir.edgeTypes.eraseIdx idx }).rebuild

def updateEdgeType (id : EdgeTypeId) (f : EdgeTypeDef → EdgeTypeDef) (s : OntologyState) :
    Outcome Unit :=
  match s.lookup.edgeIdIdx id with
  | none => (.error (.edgeTypeNotFound id), s)
  | some idx => (s.withIR { s.ir with edgeTypes := s.ir.edgeTypes.modify idx f }).rebuild

def addIndex (index : IndexDef) (s : OntologyState) : Outcome Unit :=
  (s.withIR { s.ir with indexes := s.ir.indexes ++ [index] }).rebuild

/-- The id of an index, as `remove_index` reads it. -/
def indexIdOf : IndexDef → String
  | .single id _ _ | .composite id _ _ | .fullText id _ _ _ | .vector id _ _ _ _ => id

def removeIndex (id : String) (s : OntologyState) : Outcome Unit :=
  match s.ir.indexes.findIdx? fun i => indexIdOf i = id with
  | none => (.error (.indexNotFound id), s)
  | some pos => (s.withIR { s.ir with indexes := s.ir.indexes.eraseIdx pos }).rebuild

/-- What the closure of `with_batch` is handed: node types, edge types and
indexes. -/
abbrev BatchVectors : Type := List NodeTypeDef × List EdgeTypeDef × List IndexDef

def putBatch (o : OntologyIR) (v : BatchVectors) : OntologyIR :=
  { o with nodeTypes := v.1, edgeTypes := v.2.1, indexes := v.2.2 }

def withBatch (f : BatchVectors → BatchVectors) (s : OntologyState) : Outcome Unit :=
  (s.withIR (putBatch s.ir (f (s.ir.nodeTypes, s.ir.edgeTypes, s.ir.indexes)))).rebuild

end OntologyState

/-! ## Collections with an id map -/

/-- A collection of the ontology with its id map.  `sound` is what the index
pass asks of the collection beyond distinct ids. -/
structure Slot (α κ : Type) [DecidableEq κ] where
  kind : String
  items : OntologyIR → List α
  put : OntologyIR → List α → OntologyIR
  key : α → κ
  text : κ → String
  idx : OntologyIndices → κ → Option Nat
  sound : List α → Prop := fun _ => True
  items_put : ∀ o xs, items (put o xs) = xs := by intros; rfl
  put_items : ∀ o, put o (items o) = o := by intros; rfl
  idx_indices : ∀ o, idx o.indices = position key (items o) := by intros; rfl
  nodup_of_indexed : ∀ o, o.Indexed → ((items o).map key).Nodup
  sound_of_indexed : ∀ o, o.Indexed → sound (items o) := by intros; trivial
  sound_of_sublist : ∀ xs ys, xs.Sublist ys → sound ys → sound xs := by intros; trivial
  indexed_put : ∀ o xs, o.Indexed → (xs.map key).Nodup → sound xs → (put o xs).Indexed

namespace Slot

variable {α κ : Type} [DecidableEq κ] (S : Slot α κ)

/-- The `add_*` of the collection, behind the check of the entry. -/
def add (check : OntologyState → α → Except OntologyInvariantError Unit) (d : α)
    (s : OntologyState) : Outcome Unit :=
  if (S.idx s.lookup (S.key d)).isSome then
    (.error (.duplicateCollectionId S.kind (S.text (S.key d))), s)
  else
    match check s d with
    | .error e => (.error e, s)
    | .ok () => (s.withIR (S.put s.ir (S.items s.ir ++ [d]))).rebuild

/-- The `replace_*` of the collection, behind the check of the entry. -/
def replace (check : OntologyState → α → Except OntologyInvariantError Unit) (id : κ) (d : α)
    (s : OntologyState) : Outcome Unit :=
  if S.key d ≠ id then
    (.error (.invalidReference (S.kind ++ ".id") (S.text id) (S.text (S.key d))), s)
  else
    match S.idx s.lookup id with
    | none => (.error (.collectionEntryNotFound S.kind (S.text id)), s)
    | some idx =>
      match check s d with
      | .error e => (.error e, s)
      | .ok () => (s.withIR (S.put s.ir ((S.items s.ir).set idx d))).rebuild

/-- The `remove_*` of the collection, behind the check that nothing refers to
the entry. -/
def remove (ensure : OntologyState → κ → Except OntologyInvariantError Unit) (id : κ)
    (s : OntologyState) : Outcome Unit :=
  match ensure s id with
  | .error e => (.error e, s)
  | .ok () =>
    let kept := (S.items s.ir).filter fun x => S.key x ≠ id
    let s' := s.withIR (S.put s.ir kept)
    if kept.length = (S.items s.ir).length then
      (.error (.collectionEntryNotFound S.kind (S.text id)), s')
    else s'.rebuild

/-- Insert the entry, or put it in the place of the one with its key. -/
def upsert (d : α) (s : OntologyState) : OntologyState :=
  match S.idx s.lookup (S.key d) with
  | some idx => s.withIR (S.put s.ir ((S.items s.ir).set idx d))
  | none => s.withIR (S.put s.ir (S.items s.ir ++ [d]))

end Slot

/-- `interfaces`. -/
def interfaceSlot : Slot InterfaceDef InterfaceId where
  kind := "interface"
  items := (·.interfaces)
  put o xs := { o with interfaces := xs }
  key := (·.id)
  text := (·.val)
  idx := (·.interfaceIdIdx)
  nodup_of_indexed _ ho := ho.agrees.interfaceIdIdx.nodup
  indexed_put _ _ ho h _ := { ho with
    registries := { ho.registries with
      interfaces := (OntologyIR.nodup_map_val InterfaceId.val (by rintro ⟨a⟩ ⟨b⟩ rfl; rfl)).2 h } }

/-- `rules`. -/
def ruleSlot : Slot RuleDef RuleId where
  kind := "rule"
  items := (·.rules)
  put o xs := { o with rules := xs }
  key := (·.id)
  text := (·.val)
  idx := (·.ruleIdIdx)
  nodup_of_indexed _ ho := ho.agrees.ruleIdIdx.nodup
  indexed_put _ _ ho h _ := { ho with
    registries := { ho.registries with
      rules := (OntologyIR.nodup_map_val RuleId.val (by rintro ⟨a⟩ ⟨b⟩ rfl; rfl)).2 h } }

/-- `actions`. -/
def actionSlot : Slot ActionDef ActionId where
  kind := "action"
  items := (·.actions)
  put o xs := { o with actions := xs }
  key := (·.id)
  text := (·.val)
  idx := (·.actionIdIdx)
  nodup_of_indexed _ ho := ho.agrees.actionIdIdx.nodup
  indexed_put _ _ ho h _ := { ho with
    registries := { ho.registries with
      actions := (OntologyIR.nodup_map_val ActionId.val (by rintro ⟨a⟩ ⟨b⟩ rfl; rfl)).2 h } }

/-- `functions`. -/
def functionSlot : Slot FunctionDef FunctionId where
  kind := "function"
  items := (·.functions)
  put o xs := { o with functions := xs }
  key := (·.id)
  text := (·.val)
  idx := (·.functionIdIdx)
  nodup_of_indexed _ ho := ho.agrees.functionIdIdx.nodup
  indexed_put _ _ ho h _ := { ho with
    registries := { ho.registries with
      functions := (OntologyIR.nodup_map_val FunctionId.val (by rintro ⟨a⟩ ⟨b⟩ rfl; rfl)).2 h } }

/-- `metrics`. -/
def metricSlot : Slot MetricDef MetricId where
  kind := "metric"
  items := (·.metrics)
  put o xs := { o with metrics := xs }
  key := (·.id)
  text := (·.val)
  idx := (·.metricIdIdx)
  nodup_of_indexed _ ho := ho.agrees.metricIdIdx.nodup
  indexed_put _ _ ho h _ := { ho with
    registries := { ho.registries with
      metrics := (OntologyIR.nodup_map_val MetricId.val (by rintro ⟨a⟩ ⟨b⟩ rfl; rfl)).2 h } }

/-- `enrichments`. -/
def enrichmentSlot : Slot EnrichmentDef EnrichmentId where
  kind := "enrichment"
  items := (·.enrichments)
  put o xs := { o with enrichments := xs }
  key := (·.id)
  text := (·.val)
  idx := (·.enrichmentIdIdx)
  nodup_of_indexed _ ho := ho.agrees.enrichmentIdIdx.nodup
  indexed_put _ _ ho h _ := { ho with
    registries := { ho.registries with
      enrichments :=
        (OntologyIR.nodup_map_val EnrichmentId.val (by rintro ⟨a⟩ ⟨b⟩ rfl; rfl)).2 h } }

/-- `glossary`. -/
def glossaryTermSlot : Slot GlossaryTermDef GlossaryTermId where
  kind := "glossary_term"
  items := (·.glossary)
  put o xs := { o with glossary := xs }
  key := (·.id)
  text := (·.val)
  idx := (·.glossaryTermIdIdx)
  nodup_of_indexed _ ho := ho.agrees.glossaryTermIdIdx.nodup
  indexed_put _ _ ho h _ := { ho with
    registries := { ho.registries with
      glossary := (OntologyIR.nodup_map_val GlossaryTermId.val (by rintro ⟨a⟩ ⟨b⟩ rfl; rfl)).2 h } }

/-- `data_quality`. -/
def dataQualitySlot : Slot DataQualityDef DataQualityId where
  kind := "data_quality"
  items := (·.dataQuality)
  put o xs := { o with dataQuality := xs }
  key := (·.id)
  text := (·.val)
  idx := (·.dataQualityIdIdx)
  nodup_of_indexed _ ho := ho.agrees.dataQualityIdIdx.nodup
  indexed_put _ _ ho h _ := { ho with
    registries := { ho.registries with
      dataQuality :=
        (OntologyIR.nodup_map_val DataQualityId.val (by rintro ⟨a⟩ ⟨b⟩ rfl; rfl)).2 h } }

/-- `concepts`. -/
def conceptSlot : Slot ConceptDef ConceptId where
  kind := "concept"
  items := (·.concepts)
  put o xs := { o with concepts := xs }
  key := (·.id)
  text := (·.val)
  idx := (·.conceptIdIdx)
  nodup_of_indexed _ ho := ho.agrees.conceptIdIdx.nodup
  indexed_put _ _ ho h _ := { ho with
    registries := { ho.registries with
      concepts := (OntologyIR.nodup_map_val ConceptId.val (by rintro ⟨a⟩ ⟨b⟩ rfl; rfl)).2 h } }

/-- `value_sets`. -/
def valueSetSlot : Slot ValueSetDef ValueSetId where
  kind := "value_set"
  items := (·.valueSets)
  put o xs := { o with valueSets := xs }
  key := (·.id)
  text := (·.val)
  idx := (·.valueSetIdIdx)
  nodup_of_indexed _ ho := ho.agrees.valueSetIdIdx.nodup
  indexed_put _ _ ho h _ := { ho with
    registries := { ho.registries with
      valueSets := (OntologyIR.nodup_map_val ValueSetId.val (by rintro ⟨a⟩ ⟨b⟩ rfl; rfl)).2 h } }

/-- `notation_patterns`. -/
def notationPatternSlot : Slot NotationPatternDef NotationPatternId where
  kind := "notation_pattern"
  items := (·.notationPatterns)
  put o xs := { o with notationPatterns := xs }
  key := (·.id)
  text := (·.val)
  idx := (·.notationPatternIdIdx)
  nodup_of_indexed _ ho := ho.agrees.notationPatternIdIdx.nodup
  indexed_put _ _ ho h _ := { ho with
    registries := { ho.registries with
      notationPatterns :=
        (OntologyIR.nodup_map_val NotationPatternId.val (by rintro ⟨a⟩ ⟨b⟩ rfl; rfl)).2 h } }

/-- `concept_maps`. -/
def conceptMapSlot : Slot ConceptMapDef ConceptMapId where
  kind := "concept_map"
  items := (·.conceptMaps)
  put o xs := { o with conceptMaps := xs }
  key := (·.id)
  text := (·.val)
  idx := (·.conceptMapIdIdx)
  nodup_of_indexed _ ho := ho.agrees.conceptMapIdIdx.nodup
  indexed_put _ _ ho h _ := { ho with
    registries := { ho.registries with
      conceptMaps :=
        (OntologyIR.nodup_map_val ConceptMapId.val (by rintro ⟨a⟩ ⟨b⟩ rfl; rfl)).2 h } }

/-- `value_range_sets`. -/
def valueRangeSetSlot : Slot ValueRangeSetDef ValueRangeSetId where
  kind := "value_range_set"
  items := (·.valueRangeSets)
  put o xs := { o with valueRangeSets := xs }
  key := (·.id)
  text := (·.val)
  idx := (·.valueRangeSetIdIdx)
  nodup_of_indexed _ ho := ho.agrees.valueRangeSetIdIdx.nodup
  indexed_put _ _ ho h _ := { ho with
    registries := { ho.registries with
      valueRangeSets :=
        (OntologyIR.nodup_map_val ValueRangeSetId.val (by rintro ⟨a⟩ ⟨b⟩ rfl; rfl)).2 h } }

/-- `column_profiles`. -/
def columnProfileSlot : Slot ColumnProfileDef ColumnProfileId where
  kind := "column_profile"
  items := (·.columnProfiles)
  put o xs := { o with columnProfiles := xs }
  key := (·.id)
  text := (·.val)
  idx := (·.columnProfileIdIdx)
  nodup_of_indexed _ ho := ho.agrees.columnProfileIdIdx.nodup
  indexed_put _ _ ho h _ := { ho with
    registries := { ho.registries with
      columnProfiles :=
        (OntologyIR.nodup_map_val ColumnProfileId.val (by rintro ⟨a⟩ ⟨b⟩ rfl; rfl)).2 h } }

/-- `segments`. -/
def segmentSlot : Slot SegmentDef SegmentId where
  kind := "segment"
  items := (·.segments)
  put o xs := { o with segments := xs }
  key := (·.id)
  text := (·.val)
  idx := (·.segmentIdIdx)
  nodup_of_indexed _ ho := ho.agrees.segmentIdIdx.nodup
  indexed_put _ _ ho h _ := { ho with
    registries := { ho.registries with
      segments := (OntologyIR.nodup_map_val SegmentId.val (by rintro ⟨a⟩ ⟨b⟩ rfl; rfl)).2 h } }

/-- `object_mappings`. -/
def objectMappingSlot : Slot ObjectMappingDef ObjectMappingId where
  kind := "object_mapping"
  items := (·.objectMappings)
  put o xs := { o with objectMappings := xs }
  key := (·.id)
  text := (·.val)
  idx := (·.objectMappingIdIdx)
  nodup_of_indexed _ ho := ho.agrees.objectMappingIdIdx.nodup
  indexed_put _ _ ho h _ := { ho with
    objectMappingIds := OntologyIR.nodup_objectIds_iff.2 h
    registries := { ho.registries with } }

/-- `link_mappings`. -/
def linkMappingSlot : Slot LinkMappingDef LinkMappingId where
  kind := "link_mapping"
  items := (·.linkMappings)
  put o xs := { o with linkMappings := xs }
  key := (·.id)
  text := (·.val)
  idx := (·.linkMappingIdIdx)
  nodup_of_indexed _ ho := ho.agrees.linkMappingIdIdx.nodup
  indexed_put _ _ ho h _ := { ho with
    linkMappingIds := OntologyIR.nodup_linkIds_iff.2 h
    registries := { ho.registries with } }

/-- `code_systems`: coded values have distinct ids across all systems. -/
def codeSystemSlot : Slot CodeSystemDef CodeSystemId where
  kind := "code_system"
  items := (·.codeSystems)
  put o xs := { o with codeSystems := xs }
  key := (·.id)
  text := (·.val)
  idx := (·.codeSystemIdIdx)
  sound xs := (xs.flatMap fun s => s.codes.map (·.id)).Nodup
  nodup_of_indexed _ ho := ho.registries.codeSystems
  sound_of_indexed _ ho := ho.registries.codedValues
  sound_of_sublist _ _ h hy := hy.sublist (h.flatMap fun s => s.codes.map (·.id))
  indexed_put _ _ ho h hs := { ho with
    registries := { ho.registries with codeSystems := h, codedValues := hs } }

/-- `table_inventory`, under its natural key. -/
def tableInventorySlot : Slot TableInventoryEntry (SourceId × String) where
  kind := "table_inventory"
  items := (·.tableInventory)
  put o xs := { o with tableInventory := xs }
  key := TableInventoryEntry.key
  text k := k.1.val ++ "/" ++ k.2
  idx := (·.tableInventoryIdx)
  nodup_of_indexed _ ho := ho.registries.tableInventory
  indexed_put _ _ ho h _ := { ho with registries := { ho.registries with tableInventory := h } }

/-! ## The mutators of the collections -/

namespace OntologyState

def unchecked {α : Type} (_ : OntologyState) (_ : α) : Except OntologyInvariantError Unit :=
  .ok ()

def addInterface : InterfaceDef → OntologyState → Outcome Unit := interfaceSlot.add unchecked

def addRule : RuleDef → OntologyState → Outcome Unit := ruleSlot.add unchecked

def replaceRule : RuleId → RuleDef → OntologyState → Outcome Unit := ruleSlot.replace unchecked

def removeRule : RuleId → OntologyState → Outcome Unit := ruleSlot.remove unchecked

def addAction : ActionDef → OntologyState → Outcome Unit := actionSlot.add unchecked

def addFunction : FunctionDef → OntologyState → Outcome Unit := functionSlot.add unchecked

def addMetric : MetricDef → OntologyState → Outcome Unit := metricSlot.add unchecked

def addEnrichment : EnrichmentDef → OntologyState → Outcome Unit := enrichmentSlot.add unchecked

def addConcept : ConceptDef → OntologyState → Outcome Unit :=
  conceptSlot.add validateConceptReferences

def replaceConcept : ConceptId → ConceptDef → OntologyState → Outcome Unit :=
  conceptSlot.replace validateConceptReferences

def removeConcept : ConceptId → OntologyState → Outcome Unit :=
  conceptSlot.remove ensureConceptNotReferenced

def addGlossaryTerm : GlossaryTermDef → OntologyState → Outcome Unit :=
  glossaryTermSlot.add validateGlossaryTermReferences

/-- `replace_glossary_term`: the concepts are asked after the references. -/
def replaceGlossaryTerm (id : GlossaryTermId) : GlossaryTermDef → OntologyState → Outcome Unit :=
  glossaryTermSlot.replace
    (fun s d => do
      s.validateGlossaryTermReferences d
      s.validateTermConcepts id d)
    id

def removeGlossaryTerm : GlossaryTermId → OntologyState → Outcome Unit :=
  glossaryTermSlot.remove ensureGlossaryTermNotReferenced

def addDataQuality : DataQualityDef → OntologyState → Outcome Unit := dataQualitySlot.add unchecked

/-- `add_provenance`: append only, and not indexed. -/
def addProvenance (d : ProvenanceDef) (s : OntologyState) : Outcome Unit :=
  (.ok (), s.withIR { s.ir with provenance := s.ir.provenance ++ [d] })

def addSegment : SegmentDef → OntologyState → Outcome Unit := segmentSlot.add unchecked

def upsertTableInventoryEntry (entry : TableInventoryEntry) (s : OntologyState) : Outcome Unit :=
  (tableInventorySlot.upsert entry s).rebuild

def addObjectMapping : ObjectMappingDef → OntologyState → Outcome Unit :=
  objectMappingSlot.add unchecked

def replaceObjectMapping : ObjectMappingId → ObjectMappingDef → OntologyState → Outcome Unit :=
  objectMappingSlot.replace unchecked

def removeObjectMapping : ObjectMappingId → OntologyState → Outcome Unit :=
  objectMappingSlot.remove unchecked

def addLinkMapping : LinkMappingDef → OntologyState → Outcome Unit := linkMappingSlot.add unchecked

def replaceLinkMapping : LinkMappingId → LinkMappingDef → OntologyState → Outcome Unit :=
  linkMappingSlot.replace unchecked

def removeLinkMapping : LinkMappingId → OntologyState → Outcome Unit :=
  linkMappingSlot.remove unchecked

/-- `add_column_profile`: an error of the pass is logged and dropped. -/
def addColumnProfile (d : ColumnProfileDef) (s : OntologyState) : OntologyState :=
  (columnProfileSlot.upsert d s).rebuild.2

/-- `ingest_source_profile`: the number of entries, and the state. -/
def ingestSourceProfile (sourceId : SourceId) (profile : SourceProfile) (sampledAt : DateTime)
    (s : OntologyState) : Outcome Nat :=
  let entries := profileToColumnDefs sourceId profile sampledAt
  (.ok entries.length, entries.foldl (fun s d => addColumnProfile d s) s)

def addValueRangeSet : ValueRangeSetDef → OntologyState → Outcome Unit :=
  valueRangeSetSlot.add fun _ => validateValueRangeSet

def replaceValueRangeSet : ValueRangeSetId → ValueRangeSetDef → OntologyState → Outcome Unit :=
  valueRangeSetSlot.replace fun _ => validateValueRangeSet

def removeValueRangeSet : ValueRangeSetId → OntologyState → Outcome Unit :=
  valueRangeSetSlot.remove ensureValueRangeSetNotReferenced

def addConceptMap : ConceptMapDef → OntologyState → Outcome Unit :=
  conceptMapSlot.add validateConceptMapReferences

def replaceConceptMap : ConceptMapId → ConceptMapDef → OntologyState → Outcome Unit :=
  conceptMapSlot.replace validateConceptMapReferences

def removeConceptMap : ConceptMapId → OntologyState → Outcome Unit :=
  conceptMapSlot.remove ensureConceptMapNotReferenced

def addNotationPattern : NotationPatternDef → OntologyState → Outcome Unit :=
  notationPatternSlot.add validateNotationPatternReferences

def replaceNotationPattern :
    NotationPatternId → NotationPatternDef → OntologyState → Outcome Unit :=
  notationPatternSlot.replace validateNotationPatternReferences

def removeNotationPattern : NotationPatternId → OntologyState → Outcome Unit :=
  notationPatternSlot.remove ensureNotationPatternNotReferenced

def addValueSet : ValueSetDef → OntologyState → Outcome Unit :=
  valueSetSlot.add validateValueSetReferences

def replaceValueSet : ValueSetId → ValueSetDef → OntologyState → Outcome Unit :=
  valueSetSlot.replace validateValueSetReferences

def removeValueSet : ValueSetId → OntologyState → Outcome Unit :=
  valueSetSlot.remove ensureValueSetNotReferenced

def addCodeSystem : CodeSystemDef → OntologyState → Outcome Unit :=
  codeSystemSlot.add validateCodeSystemReferences

def removeCodeSystem : CodeSystemId → OntologyState → Outcome Unit :=
  codeSystemSlot.remove ensureCodeSystemNotReferenced

/-- The value sets and concept maps that name a system, checked against the
clone. -/
def revalidateDependents (next : OntologyState) (id : CodeSystemId) :
    Except OntologyInvariantError Unit := do
  next.ir.valueSets.forM fun valueSet =>
    if valueSet.composition.any fun rule => rule.systemId = id then
      next.validateValueSetReferences valueSet
    else .ok ()
  next.ir.conceptMaps.forM fun conceptMap =>
    if conceptMap.sourceSystemId = id ∨ conceptMap.targetSystemId = id then
      next.validateConceptMapReferences conceptMap
    else .ok ()

/-- `replace_code_system`: everything happens on a clone, which is assigned at
the very end. -/
def replaceCodeSystem (id : CodeSystemId) (d : CodeSystemDef) (s : OntologyState) : Outcome Unit :=
  if d.id ≠ id then (.error (.invalidReference "code_system.id" id.val d.id.val), s)
  else
    match s.lookup.codeSystemIdIdx id with
    | none => (.error (.collectionEntryNotFound "code_system" id.val), s)
    | some idx =>
      match s.validateCodeSystemReferences d with
      | .error e => (.error e, s)
      | .ok () =>
        let clone := s.withIR { s.ir with codeSystems := s.ir.codeSystems.set idx d }
        match clone.rebuild with
        | (.error e, _) => (.error e, s)
        | (.ok (), next) =>
          match next.revalidateDependents id with
          | .error e => (.error e, s)
          | .ok () => (.ok (), next)

end OntologyState

end Ontosyx.Ontology
