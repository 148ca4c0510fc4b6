import Ontosyx.Ontology.Mutators

/-!
# Atomicity of the mutators

A mutator is lawful at a state when an error leaves the state exactly as it was
and the lookup maps agree with the vectors afterwards in all cases.  A call that
is rejected before the change is lawful; a call that gets as far as
`rebuild_indices` is lawful exactly when the changed vectors are indexed,
because the pass that finds a duplicate leaves the change in place.

## Main results

* `lawful_rebuild_iff` — a change followed by the index pass.
* `MutatorCall.lawful_run_iff` — which calls are lawful.
-/

namespace Ontosyx.Ontology

open List Ontosyx.Core Lib.Checked Lib.Keyed Lib.Positions

/-- An error leaves vectors and maps exactly as they were, and afterwards the
maps agree with the vectors in all cases. -/
structure Lawful {α : Type} (s : OntologyState) (r : Outcome α) : Prop where
  unchanged : ∀ e, r.1 = .error e → r.2 = s
  agrees : r.2.Agrees

namespace OntologyState

variable {s : OntologyState}

theorem lawful_rejected {α : Type} (hs : s.Agrees) (e : OntologyInvariantError) :
    Lawful s ((.error e, s) : Outcome α) := ⟨fun _ _ => rfl, hs⟩

/-- A call that cannot fail. -/
theorem lawful_ok {α : Type} {a : α} {t : OntologyState} (ht : t.Agrees) :
    Lawful s ((.ok a, t) : Outcome α) := ⟨fun e he => absurd he (by simp), ht⟩

/-- A change followed by the index pass is lawful exactly when the changed
vectors are indexed. -/
theorem lawful_rebuild_iff (hs : s.Agrees) (o : OntologyIR) :
    Lawful s (s.withIR o).rebuild ↔ o.Indexed := by
  constructor
  · intro h
    by_contra ho
    obtain ⟨e, he⟩ := rebuild_of_not_indexed (show ¬(s.withIR o).ir.Indexed from ho)
    have hsame : s.withIR o = s := by
      have := h.unchanged e (by rw [he])
      rwa [he] at this
    have hir : o = s.ir := congrArg OntologyState.ir hsame
    exact ho (hir ▸ (agrees_iff_eq_ofIR.1 hs).1)
  · intro ho
    rw [rebuild_of_indexed (show (s.withIR o).ir.Indexed from ho)]
    exact lawful_ok (agrees_ofIR.2 ho)

theorem Agrees.indexed (hs : s.Agrees) : s.ir.Indexed := (agrees_iff_eq_ofIR.1 hs).1

theorem Agrees.lookup_eq (hs : s.Agrees) : s.lookup = s.ir.indices :=
  (OntologyIR.agrees_iff.1 hs).2

end OntologyState

open OntologyState

namespace Slot

variable {α κ : Type} [DecidableEq κ] (S : Slot α κ) {s : OntologyState}

theorem idx_of_agrees (hs : s.Agrees) : S.idx s.lookup = position S.key (S.items s.ir) := by
  rw [hs.lookup_eq, S.idx_indices]

/-- Vectors with a new content of the slot are indexed when the content has
distinct keys and is sound. -/
theorem indexed_put_iff (hs : s.Agrees) {xs : List α} (hxs : (xs.map S.key).Nodup) :
    (S.put s.ir xs).Indexed ↔ S.sound xs := by
  constructor
  · intro h
    have := S.sound_of_indexed _ h
    rwa [S.items_put] at this
  · intro h
    exact S.indexed_put _ _ hs.indexed hxs h

/-- Adding is lawful unless the entry passes its check, is new, and makes the
collection unsound. -/
theorem lawful_add_iff (hs : s.Agrees)
    (check : OntologyState → α → Except OntologyInvariantError Unit) (d : α) :
    Lawful s (S.add check d s) ↔ (S.key d ∉ (S.items s.ir).map S.key → check s d = .ok () →
        S.sound (S.items s.ir ++ [d])) := by
  unfold Slot.add
  rw [S.idx_of_agrees hs]
  by_cases hmem : S.key d ∈ (S.items s.ir).map S.key
  · rw [if_pos (position_isSome_iff.2 hmem)]
    exact iff_of_true (lawful_rejected hs _) fun h => absurd hmem h
  rw [if_neg (fun h => hmem (position_isSome_iff.1 h))]
  cases hcheck : check s d with
  | error e => exact iff_of_true (lawful_rejected hs _) fun _ h => by cases h
  | ok u =>
    have hnd : ((S.items s.ir ++ [d]).map S.key).Nodup := by
      rw [map_append, nodup_append_comm, map_singleton, singleton_append, nodup_cons]
      exact ⟨hmem, S.nodup_of_indexed _ hs.indexed⟩
    simp only [lawful_rebuild_iff hs, S.indexed_put_iff hs hnd]
    exact ⟨fun h _ _ => h, fun h => h hmem trivial⟩

/-- The entry at the position of its own key is replaced: the keys stay. -/
theorem map_key_set {idx : Nat} {d : α} {xs : List α} (h : position S.key xs (S.key d) = some idx) :
    (xs.set idx d).map S.key = xs.map S.key := by
  obtain ⟨x, hx, hkey⟩ := getElem?_of_position h
  rw [List.map_set]
  refine List.ext_getElem? fun i => ?_
  rw [List.getElem?_set]
  by_cases hi : idx = i
  · subst hi
    have hlt : idx < xs.length := (List.getElem?_eq_some_iff.1 hx).1
    rw [if_pos rfl, List.length_map, if_pos hlt, List.getElem?_map, hx, Option.map_some, hkey]
  · rw [if_neg hi]

/-- Replacing is lawful when the collection stays sound. -/
theorem lawful_replace (hs : s.Agrees)
    (check : OntologyState → α → Except OntologyInvariantError Unit) (id : κ) (d : α)
    (hsound : ∀ idx, S.sound ((S.items s.ir).set idx d)) : Lawful s (S.replace check id d s) := by
  unfold Slot.replace
  by_cases hid : S.key d = id
  · rw [if_neg (not_not_intro hid), S.idx_of_agrees hs]
    cases hidx : position S.key (S.items s.ir) id with
    | none => exact lawful_rejected hs _
    | some idx =>
      cases check s d with
      | error e => exact lawful_rejected hs _
      | ok u =>
        have hnd : (((S.items s.ir).set idx d).map S.key).Nodup := by
          rw [S.map_key_set (hid ▸ hidx)]
          exact S.nodup_of_indexed _ hs.indexed
        exact (lawful_rebuild_iff hs _).2 ((S.indexed_put_iff hs hnd).2 (hsound idx))
  · rw [if_pos hid]
    exact lawful_rejected hs _

theorem lawful_remove (hs : s.Agrees)
    (ensure : OntologyState → κ → Except OntologyInvariantError Unit) (id : κ) :
    Lawful s (S.remove ensure id s) := by
  unfold Slot.remove
  cases ensure s id with
  | error e => exact lawful_rejected hs _
  | ok u =>
    by_cases hlen : ((S.items s.ir).filter fun x => S.key x ≠ id).length =
        (S.items s.ir).length
    · have hkept : ((S.items s.ir).filter fun x => S.key x ≠ id) = S.items s.ir :=
        filter_sublist.eq_of_length hlen
      have hsame : s.withIR (S.put s.ir ((S.items s.ir).filter fun x => S.key x ≠ id)) = s := by
        rw [hkept, S.put_items]
        rfl
      simp only [hsame, if_pos hlen]
      exact lawful_rejected hs _
    · simp only [if_neg hlen]
      have hsub : ((S.items s.ir).filter fun x => S.key x ≠ id).Sublist (S.items s.ir) :=
        filter_sublist
      refine (lawful_rebuild_iff hs _).2 (S.indexed_put _ _ hs.indexed ?_ ?_)
      · exact (S.nodup_of_indexed _ hs.indexed).sublist (hsub.map _)
      · exact S.sound_of_sublist _ _ hsub (S.sound_of_indexed _ hs.indexed)

/-- An upsert keeps the keys distinct. -/
theorem indexed_upsert (hs : s.Agrees) (d : α) (hsound : ∀ xs, S.sound xs) :
    (S.upsert d s).ir.Indexed := by
  have ho := hs.indexed
  unfold Slot.upsert
  rw [S.idx_of_agrees hs]
  cases hidx : position S.key (S.items s.ir) (S.key d) with
  | some idx =>
    refine S.indexed_put _ _ ho ?_ (hsound _)
    rw [S.map_key_set hidx]
    exact S.nodup_of_indexed _ ho
  | none =>
    refine S.indexed_put _ _ ho ?_ (hsound _)
    have hmem : S.key d ∉ (S.items s.ir).map S.key := by
      rw [← position_isSome_iff, hidx]
      simp
    rw [map_append, nodup_append_comm, map_singleton, singleton_append, nodup_cons]
    exact ⟨hmem, S.nodup_of_indexed _ ho⟩

end Slot

/-! ## Node and edge types -/

/-- What the index pass asks of the node types. -/
def DistinctNodes (ns : List NodeTypeDef) : Prop :=
  (ns.map (·.id)).Nodup ∧ (ns.map (·.label)).Nodup ∧
    (ns.flatMap fun n => n.properties.map (·.id)).Nodup

variable {o : OntologyIR}

/-- Indexed vectors stay so with new node types, edge types and indexes when
these are distinct. -/
theorem indexed_putBatch_iff (ho : o.Indexed) (v : BatchVectors) :
    (putBatch o v).Indexed ↔ DistinctNodes v.1 ∧ (v.2.1.map (·.id)).Nodup := by
  constructor
  · intro h
    exact ⟨⟨h.nodeIds, h.nodeLabels, h.propertyIds⟩, h.edgeIds⟩
  · intro h
    exact ⟨h.1.1, h.1.2.1, h.1.2.2, h.2, ho.objectMappingIds, ho.linkMappingIds,
      { ho.registries with }⟩

theorem indexed_nodeTypes_iff (ho : o.Indexed) (ns : List NodeTypeDef) :
    ({ o with nodeTypes := ns } : OntologyIR).Indexed ↔ DistinctNodes ns :=
  (indexed_putBatch_iff ho (ns, o.edgeTypes, o.indexes)).trans (and_iff_left ho.edgeIds)

theorem distinctNodes_of_indexed (ho : o.Indexed) : DistinctNodes o.nodeTypes :=
  ⟨ho.nodeIds, ho.nodeLabels, ho.propertyIds⟩

theorem indexed_edgeTypes_iff (ho : o.Indexed) (es : List EdgeTypeDef) :
    ({ o with edgeTypes := es } : OntologyIR).Indexed ↔ (es.map (·.id)).Nodup :=
  (indexed_putBatch_iff ho (o.nodeTypes, es, o.indexes)).trans
    (and_iff_right (distinctNodes_of_indexed ho))

theorem indexed_indexes (ho : o.Indexed) (is : List IndexDef) :
    ({ o with indexes := is } : OntologyIR).Indexed :=
  (indexed_putBatch_iff ho (o.nodeTypes, o.edgeTypes, is)).2
    ⟨distinctNodes_of_indexed ho, ho.edgeIds⟩

theorem DistinctNodes.sublist {ns ms : List NodeTypeDef} (h : DistinctNodes ms)
    (hsub : ns.Sublist ms) : DistinctNodes ns :=
  ⟨h.1.sublist (hsub.map _), h.2.1.sublist (hsub.map _),
    h.2.2.sublist (hsub.flatMap fun n => n.properties.map (·.id))⟩

/-- The property ids of a node are distinct and no other node has one of them. -/
def FreshProperties (ns : List NodeTypeDef) (node : NodeTypeDef) : Prop :=
  (node.properties.map (·.id)).Nodup ∧
    ∀ n ∈ ns, ∀ p ∈ node.properties, p.id ∉ n.properties.map (·.id)

/-- Appending a node under a new id and label keeps the node types distinct
exactly when its property ids are new. -/
theorem distinctNodes_append_iff {ns : List NodeTypeDef} (h : DistinctNodes ns)
    {node : NodeTypeDef} (hid : node.id ∉ ns.map (·.id)) (hlabel : node.label ∉ ns.map (·.label)) :
    DistinctNodes (ns ++ [node]) ↔ FreshProperties ns node := by
  have hids : ((ns ++ [node]).map (·.id)).Nodup := by
    rw [map_append, nodup_append_comm, map_singleton, singleton_append, nodup_cons]
    exact ⟨hid, h.1⟩
  have hlabels : ((ns ++ [node]).map (·.label)).Nodup := by
    rw [map_append, nodup_append_comm, map_singleton, singleton_append, nodup_cons]
    exact ⟨hlabel, h.2.1⟩
  unfold DistinctNodes FreshProperties
  rw [flatMap_append, flatMap_singleton, nodup_append]
  constructor
  · intro hnew
    refine ⟨hnew.2.2.2.1, fun n hn p hp hmem => ?_⟩
    exact hnew.2.2.2.2 _ (mem_flatMap.2 ⟨n, hn, hmem⟩) _ (mem_map_of_mem hp) rfl
  · intro hfresh
    refine ⟨hids, hlabels, h.2.2, hfresh.1, ?_⟩
    intro a ha b hb hab
    obtain ⟨n, hn, hna⟩ := mem_flatMap.1 ha
    obtain ⟨p, hp, rfl⟩ := mem_map.1 hb
    exact hfresh.2 n hn p hp (hab ▸ hna)

inductive MutatorCall where
  | addNodeType (node : NodeTypeDef)
  | removeNodeType (id : NodeTypeId)
  | updateNodeType (id : NodeTypeId) (f : NodeTypeDef → NodeTypeDef)
  | addEdgeType (edge : EdgeTypeDef)
  | removeEdgeType (id : EdgeTypeId)
  | updateEdgeType (id : EdgeTypeId) (f : EdgeTypeDef → EdgeTypeDef)
  | addIndex (index : IndexDef)
  | removeIndex (id : String)
  | withBatch (f : BatchVectors → BatchVectors)
  | addInterface (d : InterfaceDef)
  | addRule (d : RuleDef)
  | replaceRule (id : RuleId) (d : RuleDef)
  | removeRule (id : RuleId)
  | addAction (d : ActionDef)
  | addFunction (d : FunctionDef)
  | addMetric (d : MetricDef)
  | addEnrichment (d : EnrichmentDef)
  | addConcept (d : ConceptDef)
  | replaceConcept (id : ConceptId) (d : ConceptDef)
  | removeConcept (id : ConceptId)
  | addGlossaryTerm (d : GlossaryTermDef)
  | replaceGlossaryTerm (id : GlossaryTermId) (d : GlossaryTermDef)
  | removeGlossaryTerm (id : GlossaryTermId)
  | addDataQuality (d : DataQualityDef)
  | addProvenance (d : ProvenanceDef)
  | addSegment (d : SegmentDef)
  | upsertTableInventoryEntry (entry : TableInventoryEntry)
  | addObjectMapping (d : ObjectMappingDef)
  | replaceObjectMapping (id : ObjectMappingId) (d : ObjectMappingDef)
  | removeObjectMapping (id : ObjectMappingId)
  | addLinkMapping (d : LinkMappingDef)
  | replaceLinkMapping (id : LinkMappingId) (d : LinkMappingDef)
  | removeLinkMapping (id : LinkMappingId)
  | addColumnProfile (d : ColumnProfileDef)
  | ingestSourceProfile (sourceId : SourceId) (profile : SourceProfile) (sampledAt : DateTime)
  | addValueRangeSet (d : ValueRangeSetDef)
  | replaceValueRangeSet (id : ValueRangeSetId) (d : ValueRangeSetDef)
  | removeValueRangeSet (id : ValueRangeSetId)
  | addConceptMap (d : ConceptMapDef)
  | replaceConceptMap (id : ConceptMapId) (d : ConceptMapDef)
  | removeConceptMap (id : ConceptMapId)
  | addNotationPattern (d : NotationPatternDef)
  | replaceNotationPattern (id : NotationPatternId) (d : NotationPatternDef)
  | removeNotationPattern (id : NotationPatternId)
  | addValueSet (d : ValueSetDef)
  | replaceValueSet (id : ValueSetId) (d : ValueSetDef)
  | removeValueSet (id : ValueSetId)
  | addCodeSystem (d : CodeSystemDef)
  | replaceCodeSystem (id : CodeSystemId) (d : CodeSystemDef)
  | removeCodeSystem (id : CodeSystemId)

namespace MutatorCall

def run : MutatorCall → OntologyState → Outcome Unit
  | addNodeType node => OntologyState.addNodeType node
  | removeNodeType id => OntologyState.removeNodeType id
  | updateNodeType id f => OntologyState.updateNodeType id f
  | addEdgeType edge => OntologyState.addEdgeType edge
  | removeEdgeType id => OntologyState.removeEdgeType id
  | updateEdgeType id f => OntologyState.updateEdgeType id f
  | addIndex index => OntologyState.addIndex index
  | removeIndex id => OntologyState.removeIndex id
  | withBatch f => OntologyState.withBatch f
  | addInterface d => OntologyState.addInterface d
  | addRule d => OntologyState.addRule d
  | replaceRule id d => OntologyState.replaceRule id d
  | removeRule id => OntologyState.removeRule id
  | addAction d => OntologyState.addAction d
  | addFunction d => OntologyState.addFunction d
  | addMetric d => OntologyState.addMetric d
  | addEnrichment d => OntologyState.addEnrichment d
  | addConcept d => OntologyState.addConcept d
  | replaceConcept id d => OntologyState.replaceConcept id d
  | removeConcept id => OntologyState.removeConcept id
  | addGlossaryTerm d => OntologyState.addGlossaryTerm d
  | replaceGlossaryTerm id d => OntologyState.replaceGlossaryTerm id d
  | removeGlossaryTerm id => OntologyState.removeGlossaryTerm id
  | addDataQuality d => OntologyState.addDataQuality d
  | addProvenance d => OntologyState.addProvenance d
  | addSegment d => OntologyState.addSegment d
  | upsertTableInventoryEntry entry => OntologyState.upsertTableInventoryEntry entry
  | addObjectMapping d => OntologyState.addObjectMapping d
  | replaceObjectMapping id d => OntologyState.replaceObjectMapping id d
  | removeObjectMapping id => OntologyState.removeObjectMapping id
  | addLinkMapping d => OntologyState.addLinkMapping d
  | replaceLinkMapping id d => OntologyState.replaceLinkMapping id d
  | removeLinkMapping id => OntologyState.removeLinkMapping id
  | addColumnProfile d => fun s => (.ok (), OntologyState.addColumnProfile d s)
  | ingestSourceProfile sourceId profile sampledAt => fun s =>
    (.ok (), (OntologyState.ingestSourceProfile sourceId profile sampledAt s).2)
  | addValueRangeSet d => OntologyState.addValueRangeSet d
  | replaceValueRangeSet id d => OntologyState.replaceValueRangeSet id d
  | removeValueRangeSet id => OntologyState.removeValueRangeSet id
  | addConceptMap d => OntologyState.addConceptMap d
  | replaceConceptMap id d => OntologyState.replaceConceptMap id d
  | removeConceptMap id => OntologyState.removeConceptMap id
  | addNotationPattern d => OntologyState.addNotationPattern d
  | replaceNotationPattern id d => OntologyState.replaceNotationPattern id d
  | removeNotationPattern id => OntologyState.removeNotationPattern id
  | addValueSet d => OntologyState.addValueSet d
  | replaceValueSet id d => OntologyState.replaceValueSet id d
  | removeValueSet id => OntologyState.removeValueSet id
  | addCodeSystem d => OntologyState.addCodeSystem d
  | replaceCodeSystem id d => OntologyState.replaceCodeSystem id d
  | removeCodeSystem id => OntologyState.removeCodeSystem id

/-- The call passes every check before the change, and the change makes two
entries share a key: only these five mutators can do that. -/
def CollidesAfterChange (s : OntologyState) : MutatorCall → Prop
  | addNodeType node =>
    node.id ∉ s.ir.nodeTypes.map (·.id) ∧ node.label ∉ s.ir.nodeTypes.map (·.label) ∧
      ¬FreshProperties s.ir.nodeTypes node
  | updateNodeType id f =>
    ∃ idx, s.lookup.nodeIdIdx id = some idx ∧ ¬DistinctNodes (s.ir.nodeTypes.modify idx f)
  | updateEdgeType id f =>
    ∃ idx, s.lookup.edgeIdIdx id = some idx ∧
      ¬((s.ir.edgeTypes.modify idx f).map (·.id)).Nodup
  | withBatch f =>
    let v := f (s.ir.nodeTypes, s.ir.edgeTypes, s.ir.indexes)
    ¬(DistinctNodes v.1 ∧ (v.2.1.map (·.id)).Nodup)
  | addCodeSystem d =>
    d.id ∉ s.ir.codeSystems.map (·.id) ∧ s.validateCodeSystemReferences d = .ok () ∧
      ∃ system ∈ s.ir.codeSystems, ∃ cv ∈ d.codes, cv.id ∈ system.codes.map (·.id)
  | _ => False

end MutatorCall

namespace OntologyState

variable {s : OntologyState} (hs : s.Agrees)
include hs

/-! ## One lemma for each mutator with a body of its own -/

theorem lawful_addNodeType_iff (node : NodeTypeDef) :
    Lawful s (addNodeType node s) ↔
      ¬(node.id ∉ s.ir.nodeTypes.map (·.id) ∧ node.label ∉ s.ir.nodeTypes.map (·.label) ∧
        ¬FreshProperties s.ir.nodeTypes node) := by
  have ho := hs.indexed
  have hidx : (s.lookup.nodeIdIdx node.id).isSome = true ↔ node.id ∈ s.ir.nodeTypes.map (·.id) := by
    rw [hs.lookup_eq]
    exact position_isSome_iff
  have hlidx : (s.lookup.nodeLabelIdx node.label).isSome = true ↔
      node.label ∈ s.ir.nodeTypes.map (·.label) := by
    rw [hs.lookup_eq]
    exact position_isSome_iff
  unfold addNodeType
  by_cases hid : node.id ∈ s.ir.nodeTypes.map (·.id)
  · rw [if_pos (hidx.2 hid)]
    exact iff_of_true (lawful_rejected hs _) fun h => h.1 hid
  rw [if_neg (fun h => hid (hidx.1 h))]
  by_cases hlabel : node.label ∈ s.ir.nodeTypes.map (·.label)
  · rw [if_pos (hlidx.2 hlabel)]
    exact iff_of_true (lawful_rejected hs _) fun h => h.2.1 hlabel
  rw [if_neg (fun h => hlabel (hlidx.1 h)), lawful_rebuild_iff hs,
    indexed_nodeTypes_iff ho, distinctNodes_append_iff (distinctNodes_of_indexed ho) hid hlabel]
  tauto

theorem lawful_removeNodeType (id : NodeTypeId) :
    Lawful s (removeNodeType id s) := by
  unfold removeNodeType
  have ho := hs.indexed
  cases s.lookup.nodeIdIdx id with
  | none => exact lawful_rejected hs _
  | some idx =>
    exact (lawful_rebuild_iff hs _).2 ((indexed_nodeTypes_iff ho _).2
      ((distinctNodes_of_indexed ho).sublist (eraseIdx_sublist _ _)))

theorem lawful_updateNodeType_iff (id : NodeTypeId)
    (f : NodeTypeDef → NodeTypeDef) : Lawful s (updateNodeType id f s) ↔
      ¬∃ idx, s.lookup.nodeIdIdx id = some idx ∧ ¬DistinctNodes (s.ir.nodeTypes.modify idx f) := by
  unfold updateNodeType
  cases hidx : s.lookup.nodeIdIdx id with
  | none => exact iff_of_true (lawful_rejected hs _) (by simp)
  | some idx =>
    rw [lawful_rebuild_iff hs, indexed_nodeTypes_iff hs.indexed]
    simp

theorem lawful_addEdgeType (edge : EdgeTypeDef) :
    Lawful s (addEdgeType edge s) := by
  have ho := hs.indexed
  have hidx : (s.lookup.edgeIdIdx edge.id).isSome = true ↔ edge.id ∈ s.ir.edgeTypes.map (·.id) := by
    rw [hs.lookup_eq]
    exact position_isSome_iff
  unfold addEdgeType
  by_cases hid : edge.id ∈ s.ir.edgeTypes.map (·.id)
  · rw [if_pos (hidx.2 hid)]
    exact lawful_rejected hs _
  · rw [if_neg (fun h => hid (hidx.1 h)), lawful_rebuild_iff hs,
      indexed_edgeTypes_iff ho, map_append, nodup_append_comm, map_singleton,
      singleton_append, nodup_cons]
    exact ⟨hid, ho.edgeIds⟩

theorem lawful_removeEdgeType (id : EdgeTypeId) :
    Lawful s (removeEdgeType id s) := by
  have ho := hs.indexed
  unfold removeEdgeType
  cases s.lookup.edgeIdIdx id with
  | none => exact lawful_rejected hs _
  | some idx =>
    exact (lawful_rebuild_iff hs _).2 ((indexed_edgeTypes_iff ho _).2
      (ho.edgeIds.sublist ((eraseIdx_sublist _ _).map _)))

theorem lawful_updateEdgeType_iff (id : EdgeTypeId)
    (f : EdgeTypeDef → EdgeTypeDef) : Lawful s (updateEdgeType id f s) ↔
      ¬∃ idx, s.lookup.edgeIdIdx id = some idx ∧
        ¬((s.ir.edgeTypes.modify idx f).map (·.id)).Nodup := by
  unfold updateEdgeType
  cases hidx : s.lookup.edgeIdIdx id with
  | none => exact iff_of_true (lawful_rejected hs _) (by simp)
  | some idx =>
    rw [lawful_rebuild_iff hs, indexed_edgeTypes_iff hs.indexed]
    simp

theorem lawful_withBatch_iff (f : BatchVectors → BatchVectors) :
    Lawful s (withBatch f s) ↔
      ¬¬(DistinctNodes (f (s.ir.nodeTypes, s.ir.edgeTypes, s.ir.indexes)).1 ∧
        ((f (s.ir.nodeTypes, s.ir.edgeTypes, s.ir.indexes)).2.1.map (·.id)).Nodup) := by
  unfold withBatch
  rw [lawful_rebuild_iff hs, indexed_putBatch_iff hs.indexed, not_not]

theorem lawful_addIndex (index : IndexDef) : Lawful s (addIndex index s) :=
  (lawful_rebuild_iff hs _).2 (indexed_indexes hs.indexed _)

theorem lawful_removeIndex (id : String) : Lawful s (removeIndex id s) := by
  unfold removeIndex
  cases s.ir.indexes.findIdx? fun i => indexIdOf i = id with
  | none => exact lawful_rejected hs _
  | some pos => exact (lawful_rebuild_iff hs _).2 (indexed_indexes hs.indexed _)

theorem agrees_addProfile (d : ColumnProfileDef) :
    (addColumnProfile d s).Agrees := by
  have hput := columnProfileSlot.indexed_upsert hs d fun _ => trivial
  unfold addColumnProfile
  rw [rebuild_of_indexed hput]
  exact agrees_ofIR.2 hput

theorem agrees_ingestSourceProfile (sourceId : SourceId)
    (profile : SourceProfile) (sampledAt : DateTime) :
    (ingestSourceProfile sourceId profile sampledAt s).2.Agrees := by
  unfold ingestSourceProfile
  generalize profileToColumnDefs sourceId profile sampledAt = entries
  induction entries generalizing s with
  | nil => exact hs
  | cons d ds ih => exact ih (agrees_addProfile hs d)

theorem lawful_upsertInventory (entry : TableInventoryEntry) :
    Lawful s (upsertTableInventoryEntry entry s) := by
  have hput := tableInventorySlot.indexed_upsert hs entry fun _ => trivial
  unfold upsertTableInventoryEntry
  rw [rebuild_of_indexed hput]
  exact lawful_ok (agrees_ofIR.2 hput)

theorem lawful_addProvenance (d : ProvenanceDef) :
    Lawful s (addProvenance d s) := by
  refine ⟨fun e he => absurd he (by simp [addProvenance]), ?_⟩
  have ho := hs.indexed
  have hlookup := hs.lookup_eq
  rw [Agrees, OntologyIR.agrees_iff]
  exact ⟨{ ho with registries := { ho.registries with } }, hlookup⟩

theorem lawful_replaceGlossaryTerm (id : GlossaryTermId) (d : GlossaryTermDef) :
    Lawful s (replaceGlossaryTerm id d s) := by
  exact glossaryTermSlot.lawful_replace hs _ id d fun _ => trivial

omit hs in
/-- The codes of a system that passes its check have distinct ids. -/
theorem nodup_of_validateCodes {seenCodes : List String} {seenIds : List CodedValueId}
    {cvs : List CodedValue} (h : validateCodes seenCodes seenIds cvs = .ok ()) :
    (cvs.map (·.id)).Nodup ∧ ∀ cv ∈ cvs, cv.id ∉ seenIds := by
  induction cvs generalizing seenCodes seenIds with
  | nil => simp
  | cons cv cvs ih =>
    unfold validateCodes at h
    by_cases hblank : isBlank cv.code = true
    · simp [rejectIf, hblank, bind, Except.bind] at h
    by_cases hcode : cv.code ∈ seenCodes
    · simp [rejectIf, hblank, hcode, bind, Except.bind] at h
    by_cases hid : cv.id ∈ seenIds
    · simp [rejectIf, hblank, hcode, hid, bind, Except.bind] at h
    simp only [rejectIf, hblank, hcode, hid, bind, Except.bind, if_false] at h
    obtain ⟨hnd, hnew⟩ := ih h
    constructor
    · rw [map_cons, nodup_cons]
      refine ⟨fun hmem => ?_, hnd⟩
      obtain ⟨cv', hcv', heq⟩ := mem_map.1 hmem
      exact hnew cv' hcv' (heq ▸ mem_cons_self)
    · intro cv' hcv'
      rcases mem_cons.1 hcv' with rfl | hcv'
      · exact hid
      · exact fun hmem => hnew cv' hcv' (mem_cons_of_mem _ hmem)

omit hs in
/-- A system that passes its check has distinct coded values. -/
theorem nodup_of_references {d : CodeSystemDef}
    (h : s.validateCodeSystemReferences d = .ok ()) : (d.codes.map (·.id)).Nodup := by
  have hcodes : validateCodes [] [] d.codes = .ok () := by
    unfold validateCodeSystemReferences at h
    cases hkind : d.kind with
    | internal =>
      simp only [hkind, seq_eq_ok_iff] at h
      exact h.2.1
    | external sourceRef =>
      simp only [hkind, seq_eq_ok_iff] at h
      exact h.2.2.1
  exact (nodup_of_validateCodes hcodes).1

/-- Adding a system is lawful unless one of its coded values carries an id that
a coded value of another system has. -/
theorem lawful_addSystem_iff (d : CodeSystemDef) :
    Lawful s (addCodeSystem d s) ↔
      ¬(d.id ∉ s.ir.codeSystems.map (·.id) ∧ s.validateCodeSystemReferences d = .ok () ∧
        ∃ system ∈ s.ir.codeSystems, ∃ cv ∈ d.codes, cv.id ∈ system.codes.map (·.id)) := by
  have hold : (s.ir.codeSystems.flatMap fun s => s.codes.map (·.id)).Nodup :=
    codeSystemSlot.sound_of_indexed _ hs.indexed
  have hadd := codeSystemSlot.lawful_add_iff hs validateCodeSystemReferences d
  unfold addCodeSystem
  rw [hadd]
  constructor
  · intro h hbad
    obtain ⟨hid, hcheck, system, hsystem, cv, hcv, hmem⟩ := hbad
    have hsound : ((s.ir.codeSystems ++ [d]).flatMap fun s => s.codes.map (·.id)).Nodup :=
      h hid hcheck
    rw [flatMap_append, flatMap_singleton, nodup_append] at hsound
    exact hsound.2.2 _ (mem_flatMap.2 ⟨system, hsystem, hmem⟩) _ (mem_map_of_mem hcv) rfl
  · intro h hid hcheck
    show ((s.ir.codeSystems ++ [d]).flatMap fun s => s.codes.map (·.id)).Nodup
    rw [flatMap_append, flatMap_singleton, nodup_append]
    refine ⟨hold, nodup_of_references hcheck, ?_⟩
    intro a ha b hb hab
    obtain ⟨system, hsystem, hmem⟩ := mem_flatMap.1 ha
    obtain ⟨cv, hcv, rfl⟩ := mem_map.1 hb
    exact h ⟨hid, hcheck, system, hsystem, cv, hcv, hab ▸ hmem⟩

/-- Replacing a system works on a clone, so an error leaves the state alone. -/
theorem lawful_replaceSystem (id : CodeSystemId) (d : CodeSystemDef) :
    Lawful s (replaceCodeSystem id d s) := by
  unfold replaceCodeSystem
  by_cases hid : d.id = id
  · rw [if_neg (not_not_intro hid)]
    cases s.lookup.codeSystemIdIdx id with
    | none => exact lawful_rejected hs _
    | some idx =>
      cases s.validateCodeSystemReferences d with
      | error e => exact lawful_rejected hs _
      | ok u =>
        by_cases hnext : OntologyIR.Indexed
            { s.ir with codeSystems := s.ir.codeSystems.set idx d }
        · have hclone :
              (s.withIR { s.ir with codeSystems := s.ir.codeSystems.set idx d }).rebuild
              = (.ok (), ofIR { s.ir with codeSystems := s.ir.codeSystems.set idx d }) :=
            rebuild_of_indexed hnext
          simp only [hclone]
          cases (ofIR
            { s.ir with codeSystems := s.ir.codeSystems.set idx d }).revalidateDependents
              id with
          | error e => exact lawful_rejected hs _
          | ok u => exact lawful_ok (agrees_ofIR.2 hnext)
        · obtain ⟨e, he⟩ := rebuild_of_not_indexed
            (show ¬(s.withIR { s.ir with codeSystems := s.ir.codeSystems.set idx d }).ir.Indexed
              from hnext)
          simp only [he]
          exact lawful_rejected hs _
  · rw [if_pos hid]
    exact lawful_rejected hs _

omit hs in
/-- The unchecked mutators of a collection whose ids are all the index pass asks
about. -/
theorem lawful_add {α κ : Type} [DecidableEq κ] (S : Slot α κ) (hs : s.Agrees)
    (check : OntologyState → α → Except OntologyInvariantError Unit) (d : α)
    (hsound : ∀ xs, S.sound xs) : Lawful s (S.add check d s) :=
  (S.lawful_add_iff hs check d).2 fun _ _ => hsound _

end OntologyState

namespace MutatorCall

/-- On a state whose lookup maps agree with its vectors, a call is lawful
exactly when its change makes no two entries share a key. -/
theorem lawful_run_iff {s : OntologyState} (hs : s.Agrees) (c : MutatorCall) :
    Lawful s (c.run s) ↔ ¬CollidesAfterChange s c := by
  have never {p : Prop} (h : p) : p ↔ ¬False := iff_of_true h not_false
  cases c with
  | addNodeType node => exact lawful_addNodeType_iff hs node
  | removeNodeType id => exact never (lawful_removeNodeType hs id)
  | updateNodeType id f => exact lawful_updateNodeType_iff hs id f
  | addEdgeType edge => exact never (lawful_addEdgeType hs edge)
  | removeEdgeType id => exact never (lawful_removeEdgeType hs id)
  | updateEdgeType id f => exact lawful_updateEdgeType_iff hs id f
  | addIndex index => exact never (lawful_addIndex hs index)
  | removeIndex id => exact never (lawful_removeIndex hs id)
  | withBatch f => exact lawful_withBatch_iff hs f
  | addInterface d => exact never (lawful_add interfaceSlot hs unchecked d fun _ => trivial)
  | addRule d => exact never (lawful_add ruleSlot hs unchecked d fun _ => trivial)
  | replaceRule id d => exact never (ruleSlot.lawful_replace hs unchecked id d fun _ => trivial)
  | removeRule id => exact never (ruleSlot.lawful_remove hs unchecked id)
  | addAction d => exact never (lawful_add actionSlot hs unchecked d fun _ => trivial)
  | addFunction d => exact never (lawful_add functionSlot hs unchecked d fun _ => trivial)
  | addMetric d => exact never (lawful_add metricSlot hs unchecked d fun _ => trivial)
  | addEnrichment d => exact never (lawful_add enrichmentSlot hs unchecked d fun _ => trivial)
  | addConcept d => exact never (lawful_add conceptSlot hs _ d fun _ => trivial)
  | replaceConcept id d => exact never (conceptSlot.lawful_replace hs _ id d fun _ => trivial)
  | removeConcept id => exact never (conceptSlot.lawful_remove hs _ id)
  | addGlossaryTerm d => exact never (lawful_add glossaryTermSlot hs _ d fun _ => trivial)
  | replaceGlossaryTerm id d => exact never (lawful_replaceGlossaryTerm hs id d)
  | removeGlossaryTerm id => exact never (glossaryTermSlot.lawful_remove hs _ id)
  | addDataQuality d => exact never (lawful_add dataQualitySlot hs unchecked d fun _ => trivial)
  | addProvenance d => exact never (lawful_addProvenance hs d)
  | addSegment d => exact never (lawful_add segmentSlot hs unchecked d fun _ => trivial)
  | upsertTableInventoryEntry entry => exact never (lawful_upsertInventory hs entry)
  | addObjectMapping d => exact never (lawful_add objectMappingSlot hs unchecked d fun _ => trivial)
  | replaceObjectMapping id d =>
    exact never (objectMappingSlot.lawful_replace hs unchecked id d fun _ => trivial)
  | removeObjectMapping id => exact never (objectMappingSlot.lawful_remove hs unchecked id)
  | addLinkMapping d => exact never (lawful_add linkMappingSlot hs unchecked d fun _ => trivial)
  | replaceLinkMapping id d =>
    exact never (linkMappingSlot.lawful_replace hs unchecked id d fun _ => trivial)
  | removeLinkMapping id => exact never (linkMappingSlot.lawful_remove hs unchecked id)
  | addColumnProfile d => exact never (lawful_ok (agrees_addProfile hs d))
  | ingestSourceProfile sourceId profile sampledAt =>
    exact never (lawful_ok (agrees_ingestSourceProfile hs sourceId profile sampledAt))
  | addValueRangeSet d =>
    exact never
      (lawful_add valueRangeSetSlot hs (fun _ => validateValueRangeSet) d fun _ => trivial)
  | replaceValueRangeSet id d =>
    exact never
      (valueRangeSetSlot.lawful_replace hs (fun _ => validateValueRangeSet) id d fun _ => trivial)
  | removeValueRangeSet id => exact never (valueRangeSetSlot.lawful_remove hs _ id)
  | addConceptMap d => exact never (lawful_add conceptMapSlot hs _ d fun _ => trivial)
  | replaceConceptMap id d => exact never (conceptMapSlot.lawful_replace hs _ id d fun _ => trivial)
  | removeConceptMap id => exact never (conceptMapSlot.lawful_remove hs _ id)
  | addNotationPattern d => exact never (lawful_add notationPatternSlot hs _ d fun _ => trivial)
  | replaceNotationPattern id d =>
    exact never (notationPatternSlot.lawful_replace hs _ id d fun _ => trivial)
  | removeNotationPattern id => exact never (notationPatternSlot.lawful_remove hs _ id)
  | addValueSet d => exact never (lawful_add valueSetSlot hs _ d fun _ => trivial)
  | replaceValueSet id d => exact never (valueSetSlot.lawful_replace hs _ id d fun _ => trivial)
  | removeValueSet id => exact never (valueSetSlot.lawful_remove hs _ id)
  | addCodeSystem d => exact lawful_addSystem_iff hs d
  | replaceCodeSystem id d => exact never (lawful_replaceSystem hs id d)
  | removeCodeSystem id => exact never (codeSystemSlot.lawful_remove hs _ id)

def oneProperty (id : String) (label : GraphLabel) (property : String) : NodeTypeDef where
  id := ⟨id⟩
  label := label
  properties := [{ id := ⟨property⟩, name := ⟨"name", .refl true⟩, propertyType := .string }]

/-- The indexed ontology whose only node type is `Customer`. -/
def customerState : OntologyState :=
  ofIR {
    id := "onto", name := "Shop"
    nodeTypes := [oneProperty "customer" ⟨"Customer", .refl true⟩ "p"] }

theorem customerState_agrees : customerState.Agrees :=
  agrees_ofIR.2 ((OntologyIR.rebuild_ok_iff _).1 rfl)

/-- A node type under a new id and label with a property id of its own. -/
theorem lawful_run_addOrder : Lawful customerState
      ((addNodeType (oneProperty "order" ⟨"Order", by decide⟩ "q")).run customerState) := by
  refine (lawful_run_iff customerState_agrees _).2 ?_
  intro h
  refine h.2.2 ⟨by decide, ?_⟩
  decide

/-- The node type brings the property id of the one that is there: the call
fails, and the node type stays behind. -/
theorem addNodeType_not_atomic : customerState.Agrees ∧ ¬Lawful customerState
        ((addNodeType (oneProperty "order" ⟨"Order", by decide⟩ "p")).run customerState) := by
  refine ⟨customerState_agrees, fun h => ?_⟩
  have hlen := congrArg (fun t => t.ir.nodeTypes.length)
    (h.unchanged (.duplicatePropertyId ⟨"p"⟩) rfl)
  exact absurd hlen (by decide)

end MutatorCall

end Ontosyx.Ontology
