import Ontosyx.Lib.Keyed
import Ontosyx.Ontology.Registry

/-!
# The ontology and its lookup indices

`OntologyIR` with every collection validation reads, and `rebuild_indices`,
the pass that populates the lookup maps and refuses an ontology in which two
entries of a collection share a key.  Every constructor and every mutation of
the source ends with that pass, so an ontology that reaches a caller satisfies
`Indexed`, and a lookup by id finds the one entry that carries the id.

## Main results

* `rebuild_ok_iff` — the pass succeeds exactly on `Indexed`
  ontologies.
-/

namespace Ontosyx.Ontology

open List Ontosyx.Core Lib.Keyed

structure OntologyVersion where
  number : Nat := 1
  validFrom : Option DateTime := none
  validTo : Option DateTime := none
  committedBy : Option String := none
  commitMessage : Option String := none
deriving DecidableEq

/-- The database-agnostic definition of an ontology. -/
structure OntologyIR where
  id : String
  name : String
  displayName : LocalizedText := .empty
  description : LocalizedText := .empty
  version : OntologyVersion := {}
  nodeTypes : List NodeTypeDef
  edgeTypes : List EdgeTypeDef := []
  indexes : List IndexDef := []
  interfaces : List InterfaceDef := []
  rules : List RuleDef := []
  actions : List ActionDef := []
  functions : List FunctionDef := []
  metrics : List MetricDef := []
  enrichments : List EnrichmentDef := []
  concepts : List ConceptDef := []
  glossary : List GlossaryTermDef := []
  dataQuality : List DataQualityDef := []
  provenance : List ProvenanceDef := []
  objectMappings : List ObjectMappingDef := []
  linkMappings : List LinkMappingDef := []
  codeSystems : List CodeSystemDef := []
  valueSets : List ValueSetDef := []
  notationPatterns : List NotationPatternDef := []
  conceptMaps : List ConceptMapDef := []
  valueRangeSets : List ValueRangeSetDef := []
  columnProfiles : List ColumnProfileDef := []
  segments : List SegmentDef := []
  tableInventory : List TableInventoryEntry := []

/-- Invariant violations that `rebuild_indices` and the mutators report. -/
inductive OntologyInvariantError where
  | duplicateNodeTypeId (id : NodeTypeId)
  | duplicateNodeTypeLabel (label : GraphLabel)
  | duplicateEdgeTypeId (id : EdgeTypeId)
  | duplicatePropertyId (id : PropertyId)
  | nodeTypeNotFound (id : NodeTypeId)
  | edgeTypeNotFound (id : EdgeTypeId)
  | indexNotFound (id : String)
  | duplicateCollectionId (kind id : String)
  | collectionEntryNotFound (kind id : String)
  | invalidReference (kind id target : String)
deriving DecidableEq

namespace OntologyIR

/-! ## The index pass -/

/-- Insert the keys of a collection one after the other into a map that holds
`seen`, and fail on the first key that is already there. -/
def insertKeys {κ ε : Type} [DecidableEq κ] (err : κ → ε) :
    List κ → List κ → Except ε (List κ)
  | seen, [] => .ok seen
  | seen, k :: ks => if k ∈ seen then .error (err k) else insertKeys err (k :: seen) ks

/-- The node pass: ids, labels, and property ids across all nodes. -/
def indexNodes (ids : List NodeTypeId) (labels : List GraphLabel) (props : List PropertyId) :
    List NodeTypeDef → Except OntologyInvariantError Unit
  | [] => .ok ()
  | n :: ns =>
    if n.id ∈ ids then .error (.duplicateNodeTypeId n.id)
    else if n.label ∈ labels then .error (.duplicateNodeTypeLabel n.label)
    else do
      let props ← insertKeys .duplicatePropertyId props (n.properties.map (·.id))
      indexNodes (n.id :: ids) (n.label :: labels) props ns

/-- The `index_collection!` block: one id map for one collection. -/
def indexCollection (kind : String) (ids : List String) : Except OntologyInvariantError Unit :=
  (insertKeys (.duplicateCollectionId kind) [] ids).map fun _ => ()

/-- The code-system pass: system ids, and coded-value ids across all systems. -/
def indexCodeSystems (ids : List CodeSystemId) (codes : List CodedValueId) :
    List CodeSystemDef → Except OntologyInvariantError Unit
  | [] => .ok ()
  | s :: ss =>
    if s.id ∈ ids then .error (.duplicateCollectionId "code_system" s.id.val)
    else do
      let codes ← insertKeys (fun c => .duplicateCollectionId "coded_value" c.val) codes
        (s.codes.map (·.id))
      indexCodeSystems (s.id :: ids) codes ss

/-- `rebuild_indices`.  The lookup maps themselves are not kept: each lookup is
a search for the one entry with the key. -/
def rebuildIndices (o : OntologyIR) : Except OntologyInvariantError Unit := do
  indexNodes [] [] [] o.nodeTypes
  let _ ← insertKeys .duplicateEdgeTypeId [] (o.edgeTypes.map (·.id))
  indexCollection "interface" (o.interfaces.map (·.id.val))
  indexCollection "rule" (o.rules.map (·.id.val))
  indexCollection "action" (o.actions.map (·.id.val))
  indexCollection "function" (o.functions.map (·.id.val))
  indexCollection "metric" (o.metrics.map (·.id.val))
  indexCollection "enrichment" (o.enrichments.map (·.id.val))
  indexCollection "glossary_term" (o.glossary.map (·.id.val))
  indexCollection "data_quality" (o.dataQuality.map (·.id.val))
  indexCollection "object_mapping" (o.objectMappings.map (·.id.val))
  indexCollection "link_mapping" (o.linkMappings.map (·.id.val))
  indexCollection "concept" (o.concepts.map (·.id.val))
  indexCodeSystems [] [] o.codeSystems
  indexCollection "value_set" (o.valueSets.map (·.id.val))
  indexCollection "notation_pattern" (o.notationPatterns.map (·.id.val))
  indexCollection "concept_map" (o.conceptMaps.map (·.id.val))
  indexCollection "value_range_set" (o.valueRangeSets.map (·.id.val))
  indexCollection "column_profile" (o.columnProfiles.map (·.id.val))
  indexCollection "segment" (o.segments.map (·.id.val))
  let _ ← insertKeys (fun k : SourceId × String =>
      .duplicateCollectionId "table_inventory" (k.1.val ++ "/" ++ k.2)) []
    (o.tableInventory.map fun e => (e.sourceId, e.tableName))
  pure ()

/-- The registries no command touches have unique ids. -/
structure RegistriesIndexed (o : OntologyIR) : Prop where
  interfaces : (o.interfaces.map (·.id.val)).Nodup
  rules : (o.rules.map (·.id.val)).Nodup
  actions : (o.actions.map (·.id.val)).Nodup
  functions : (o.functions.map (·.id.val)).Nodup
  metrics : (o.metrics.map (·.id.val)).Nodup
  enrichments : (o.enrichments.map (·.id.val)).Nodup
  glossary : (o.glossary.map (·.id.val)).Nodup
  dataQuality : (o.dataQuality.map (·.id.val)).Nodup
  concepts : (o.concepts.map (·.id.val)).Nodup
  codeSystems : (o.codeSystems.map (·.id)).Nodup
  codedValues : (o.codeSystems.flatMap fun s => s.codes.map (·.id)).Nodup
  valueSets : (o.valueSets.map (·.id.val)).Nodup
  notationPatterns : (o.notationPatterns.map (·.id.val)).Nodup
  conceptMaps : (o.conceptMaps.map (·.id.val)).Nodup
  valueRangeSets : (o.valueRangeSets.map (·.id.val)).Nodup
  columnProfiles : (o.columnProfiles.map (·.id.val)).Nodup
  segments : (o.segments.map (·.id.val)).Nodup
  tableInventory : (o.tableInventory.map fun e => (e.sourceId, e.tableName)).Nodup

/-- The invariant of the lookup maps: no two entries of a collection share a
key. -/
structure Indexed (o : OntologyIR) : Prop where
  nodeIds : (o.nodeTypes.map (·.id)).Nodup
  nodeLabels : (o.nodeTypes.map (·.label)).Nodup
  propertyIds : (o.nodeTypes.flatMap fun n => n.properties.map (·.id)).Nodup
  edgeIds : (o.edgeTypes.map (·.id)).Nodup
  objectMappingIds : (o.objectMappings.map (·.id.val)).Nodup
  linkMappingIds : (o.linkMappings.map (·.id.val)).Nodup
  registries : o.RegistriesIndexed

variable {κ ε : Type}

/-- Inserting succeeds when the keys are new and pairwise distinct. -/
theorem insertKeys_isOk_iff [DecidableEq κ] (err : κ → ε) (seen ks : List κ) :
    (∃ out, insertKeys err seen ks = .ok out) ↔ ks.Nodup ∧ ∀ k ∈ ks, k ∉ seen := by
  induction ks generalizing seen with
  | nil => simp [insertKeys]
  | cons k ks ih =>
    by_cases hk : k ∈ seen
    · simp [insertKeys, hk]
    · simp only [insertKeys, if_neg hk, ih, nodup_cons, mem_cons, not_or]
      constructor
      · rintro ⟨hnd, hks⟩
        refine ⟨⟨fun hmem => (hks k hmem).1 rfl, hnd⟩, ?_⟩
        rintro x (rfl | hx)
        · exact hk
        · exact (hks x hx).2
      · rintro ⟨⟨hnew, hnd⟩, hks⟩
        refine ⟨hnd, fun x hx => ⟨?_, hks x (Or.inr hx)⟩⟩
        rintro rfl
        exact hnew hx

/-- A successful insertion holds the old keys and the new ones. -/
theorem mem_insertKeys [DecidableEq κ] {err : κ → ε} {seen ks out : List κ}
    (h : insertKeys err seen ks = .ok out) (k : κ) : k ∈ out ↔ k ∈ seen ∨ k ∈ ks := by
  induction ks generalizing seen with
  | nil =>
    simp only [insertKeys, Except.ok.injEq] at h
    simp [h]
  | cons j ks ih =>
    by_cases hj : j ∈ seen
    · simp [insertKeys, hj] at h
    · simp only [insertKeys, hj, if_false] at h
      rw [ih h, mem_cons, mem_cons]
      tauto

variable {α : Type}

private theorem bind_isOk_iff {β : Type} (x : Except ε α) (f : α → Except ε β) :
    (∃ b, x >>= f = .ok b) ↔ ∃ a, x = .ok a ∧ ∃ b, f a = .ok b := by
  cases x with
  | error e => simp [bind, Except.bind]
  | ok a => simp [bind, Except.bind]

/-- A key is absent after an insertion when it was before and is not inserted. -/
private theorem forall_not_mem_insertKeys [DecidableEq κ] {err : κ → ε} {seen ks out : List κ}
    (h : insertKeys err seen ks = .ok out) (ls : List κ) :
    (∀ l ∈ ls, l ∉ out) ↔ (∀ l ∈ ls, l ∉ seen) ∧ ∀ k ∈ ks, ∀ l ∈ ls, k ≠ l := by
  simp only [mem_insertKeys h, not_or]
  constructor
  · intro hout
    refine ⟨fun l hl => (hout l hl).1, ?_⟩
    rintro k hk l hl rfl
    exact (hout k hl).2 hk
  · rintro ⟨hseen, hks⟩ l hl
    exact ⟨hseen l hl, fun hk => hks l hk l hl rfl⟩

/-- Membership in the freshness clauses of the node and code-system passes. -/
private theorem cons_fresh_iff (f : α → κ) (seen : List κ) (a : α) (as : List α) :
    ((((a :: as).map f).Nodup ∧ ∀ x ∈ a :: as, f x ∉ seen) ↔
      f a ∉ seen ∧ (as.map f).Nodup ∧ ∀ x ∈ as, f x ∉ f a :: seen) := by
  simp only [map_cons, nodup_cons, mem_map, not_exists, not_and, mem_cons, forall_eq_or_imp, not_or]
  constructor
  · rintro ⟨⟨hne, hnd⟩, ha, has⟩
    exact ⟨ha, hnd, fun x hx => ⟨hne x hx, has x hx⟩⟩
  · rintro ⟨ha, hnd, has⟩
    exact ⟨⟨fun x hx => (has x hx).1, hnd⟩, ha, fun x hx => (has x hx).2⟩

/-- The nested-key part of the node and code-system passes. -/
private theorem flatMap_fresh_iff [DecidableEq κ] (f : α → List κ) (err : κ → ε) (seen : List κ)
    (a : α) (as : List α) : (((a :: as).flatMap f).Nodup ∧ ∀ k ∈ (a :: as).flatMap f, k ∉ seen) ↔
      ∃ out, insertKeys err seen (f a) = .ok out ∧
        (as.flatMap f).Nodup ∧ ∀ k ∈ as.flatMap f, k ∉ out := by
  rw [flatMap_cons, nodup_append]
  constructor
  · rintro ⟨⟨hfa, has, hdisj⟩, hseen⟩
    obtain ⟨out, hout⟩ := (insertKeys_isOk_iff err seen (f a)).2
      ⟨hfa, fun k hk => hseen k (mem_append_left _ hk)⟩
    refine ⟨out, hout, has, (forall_not_mem_insertKeys hout _).2 ⟨?_, hdisj⟩⟩
    exact fun k hk => hseen k (mem_append_right _ hk)
  · rintro ⟨out, hout, has, hfresh⟩
    obtain ⟨hfa, hseen⟩ := (insertKeys_isOk_iff err seen (f a)).1 ⟨out, hout⟩
    obtain ⟨hseen', hdisj⟩ := (forall_not_mem_insertKeys hout _).1 hfresh
    refine ⟨⟨hfa, has, hdisj⟩, fun k hk => ?_⟩
    rcases mem_append.1 hk with hk | hk
    · exact hseen k hk
    · exact hseen' k hk

theorem indexNodes_isOk_iff (ids : List NodeTypeId) (labels : List GraphLabel)
    (props : List PropertyId) (ns : List NodeTypeDef) :
    (∃ u, indexNodes ids labels props ns = .ok u) ↔ ((ns.map (·.id)).Nodup ∧ ∀ n ∈ ns, n.id ∉ ids) ∧
      ((ns.map (·.label)).Nodup ∧ ∀ n ∈ ns, n.label ∉ labels) ∧
      (ns.flatMap fun n => n.properties.map (·.id)).Nodup ∧
        ∀ p ∈ ns.flatMap fun n => n.properties.map (·.id), p ∉ props := by
  induction ns generalizing ids labels props with
  | nil => simp [indexNodes]
  | cons n ns ih =>
    rw [cons_fresh_iff, cons_fresh_iff,
      flatMap_fresh_iff _ OntologyInvariantError.duplicatePropertyId]
    by_cases hid : n.id ∈ ids
    · simp [indexNodes, hid]
    by_cases hlabel : n.label ∈ labels
    · simp [indexNodes, hid, hlabel]
    simp only [indexNodes, if_neg hid, if_neg hlabel, bind_isOk_iff, ih]
    simp only [hid, hlabel, not_false_iff, true_and]
    constructor
    · rintro ⟨out, hout, hids, hlabels, hprops⟩
      exact ⟨hids, hlabels, out, hout, hprops⟩
    · rintro ⟨hids, hlabels, out, hout, hprops⟩
      exact ⟨out, hout, hids, hlabels, hprops⟩

theorem indexCodeSystems_isOk_iff (ids : List CodeSystemId) (codes : List CodedValueId)
    (ss : List CodeSystemDef) : (∃ u, indexCodeSystems ids codes ss = .ok u) ↔
      ((ss.map (·.id)).Nodup ∧ ∀ s ∈ ss, s.id ∉ ids) ∧
      (ss.flatMap fun s => s.codes.map (·.id)).Nodup ∧
        ∀ c ∈ ss.flatMap fun s => s.codes.map (·.id), c ∉ codes := by
  induction ss generalizing ids codes with
  | nil => simp [indexCodeSystems]
  | cons s ss ih =>
    rw [cons_fresh_iff, flatMap_fresh_iff _
      (fun c : CodedValueId => OntologyInvariantError.duplicateCollectionId "coded_value" c.val)]
    by_cases hid : s.id ∈ ids
    · simp [indexCodeSystems, hid]
    simp only [indexCodeSystems, if_neg hid, bind_isOk_iff, ih]
    simp only [hid, not_false_iff, true_and]
    constructor
    · rintro ⟨out, hout, hids, hcodes⟩
      exact ⟨hids, out, hout, hcodes⟩
    · rintro ⟨hids, out, hout, hcodes⟩
      exact ⟨out, hout, hids, hcodes⟩

theorem indexCollection_isOk_iff (kind : String) (ids : List String) :
    (∃ u, indexCollection kind ids = .ok u) ↔ ids.Nodup := by
  have h := insertKeys_isOk_iff (OntologyInvariantError.duplicateCollectionId kind) [] ids
  simp only [not_mem_nil, not_false_iff, implies_true, and_true] at h
  rw [← h, indexCollection]
  cases insertKeys (OntologyInvariantError.duplicateCollectionId kind) [] ids with
  | error e => simp [Except.map]
  | ok out => simp [Except.map]

private theorem insertKeys_nil_isOk_iff [DecidableEq κ] (err : κ → ε) (ks : List κ) :
    (∃ out, insertKeys err [] ks = .ok out) ↔ ks.Nodup := by
  simp [insertKeys_isOk_iff]

/-- `bind_isOk_iff` for a pass whose result is not used. -/
private theorem seq_isOk_iff {β : Type} (x : Except ε α) (y : Except ε β) :
    (∃ b, (x >>= fun _ => y) = .ok b) ↔ (∃ a, x = .ok a) ∧ ∃ b, y = .ok b := by
  rw [bind_isOk_iff]
  exact exists_and_right

/-- The index pass succeeds exactly when no two entries share a key. -/
theorem rebuild_ok_iff (o : OntologyIR) : o.rebuildIndices = .ok () ↔ o.Indexed := by
  have hunit : o.rebuildIndices = .ok () ↔ ∃ u, o.rebuildIndices = .ok u :=
    ⟨fun h => ⟨(), h⟩, fun ⟨_, h⟩ => h⟩
  rw [hunit, rebuildIndices]
  simp only [seq_isOk_iff, indexNodes_isOk_iff, indexCodeSystems_isOk_iff, indexCollection_isOk_iff,
    insertKeys_nil_isOk_iff, not_mem_nil, not_false_iff, implies_true, and_true]
  constructor
  · rintro ⟨⟨hn, hl, hp⟩, he, hi, hr, ha, hf, hm, hen, hg, hdq, hom, hlm, hc, ⟨hcs, hcv⟩, hvs,
      hnp, hcm, hvr, hcp, hs, hti, -⟩
    exact ⟨hn, hl, hp, he, hom, hlm,
      ⟨hi, hr, ha, hf, hm, hen, hg, hdq, hc, hcs, hcv, hvs, hnp, hcm, hvr, hcp, hs, hti⟩⟩
  · rintro ⟨hn, hl, hp, he, hom, hlm,
      ⟨hi, hr, ha, hf, hm, hen, hg, hdq, hc, hcs, hcv, hvs, hnp, hcm, hvr, hcp, hs, hti⟩⟩
    exact ⟨⟨hn, hl, hp⟩, he, hi, hr, ha, hf, hm, hen, hg, hdq, hom, hlm, hc, ⟨hcs, hcv⟩, hvs,
      hnp, hcm, hvr, hcp, hs, hti, (), rfl⟩

def nodeById (o : OntologyIR) (id : NodeTypeId) : Option NodeTypeDef :=
  first (·.id) id o.nodeTypes

def edgeById (o : OntologyIR) (id : EdgeTypeId) : Option EdgeTypeDef :=
  first (·.id) id o.edgeTypes

def nodeByLabel (o : OntologyIR) (label : GraphLabel) : Option NodeTypeDef :=
  first (·.label) label o.nodeTypes

def nodeLabel (o : OntologyIR) (id : NodeTypeId) : Option GraphLabel :=
  (o.nodeById id).map (·.label)

end OntologyIR

/-- An ontology together with the invariant of its lookup maps.  `try_new`,
`Deserialize` and every mutation end with `rebuild_indices`, so these are the
values callers hold. -/
structure IndexedOntology where
  ir : OntologyIR
  indexed : ir.Indexed

/-- `with_indices`: run the index pass and hand out the ontology. -/
def OntologyIR.withIndices (o : OntologyIR) : Except OntologyInvariantError IndexedOntology :=
  match h : o.rebuildIndices with
  | .ok () => .ok ⟨o, o.rebuild_ok_iff.1 h⟩
  | .error e => .error e

namespace OntologyIR

theorem nodeByLabel_some_iff {o : OntologyIR} (ho : o.Indexed) {l : GraphLabel}
    {n : NodeTypeDef} : o.nodeByLabel l = some n ↔ n ∈ o.nodeTypes ∧ n.label = l :=
  first_some_iff NodeTypeDef.label ho.nodeLabels

theorem Indexed.nodup_propertyIds {o : OntologyIR} (ho : o.Indexed) {n : NodeTypeDef}
    (hn : n ∈ o.nodeTypes) : (n.properties.map (·.id)).Nodup :=
  (nodup_flatMap.1 ho.propertyIds).1 n hn

end OntologyIR

end Ontosyx.Ontology
