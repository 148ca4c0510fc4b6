import Ontosyx.Command.Deletion
import Ontosyx.Ontology.Lookup
import Ontosyx.Ontology.Part
import Mathlib.Data.Finset.Sort
import Mathlib.Data.String.Basic

/-!
# Retracting tables of a source

`build_retract_source_batch` deletes the source mappings that read from retracted tables, then
the node types and the edge types left with no mapping.  Deleting a node takes its edges along,
so an edge type that is also deleted by itself is no longer there.

## Main results

* `runAll_retract_iff` — when the commands go through, and what they lead to.
* `retracts_iff` — exactly when the retraction is executed and leaves the rest alone.
-/

namespace Ontosyx.Ontology

/-- A relation read by a mapping is a retracted table. -/
def Touches (sourceId : SourceId) (dropTables : Finset String)
    (relations : List (SourceId × String)) : Prop :=
  ∃ r ∈ relations, r.1 = sourceId ∧ r.2 ∈ dropTables

instance (sourceId : SourceId) (dropTables : Finset String)
    (relations : List (SourceId × String)) : Decidable (Touches sourceId dropTables relations) :=
  inferInstanceAs (Decidable (∃ _ ∈ _, _))

def ObjectMappingDef.relations (m : ObjectMappingDef) : List (SourceId × String) :=
  [(m.sourceId, m.relation)]

def LinkMappingDef.endRelations (m : LinkMappingDef) : List (SourceId × String) :=
  [(m.sourceEndpoint.sourceId, m.sourceEndpoint.relation),
   (m.targetEndpoint.sourceId, m.targetEndpoint.relation)]

/-- The relations of a link mapping, with that of its bridge. -/
def LinkMappingDef.relations (m : LinkMappingDef) : List (SourceId × String) :=
  m.endRelations ++
    match m.kind with
    | .bridge bridgeRelation _ _ _ => [(bridgeRelation.sourceId, bridgeRelation.relation)]
    | _ => []

end Ontosyx.Ontology

namespace Ontosyx.Command

open Ontology

/-! ## The batch -/

def endpointTouchesDrop (sourceId : SourceId) (dropTables : Finset String)
    (endpointSource : SourceId) (endpointRelation : String) : Bool :=
  endpointSource = sourceId ∧ endpointRelation ∈ dropTables

/-- `touches_drop`, over both ends of a link mapping. -/
def touchesDrop (sourceId : SourceId) (dropTables : Finset String) (link : LinkMappingDef) : Bool :=
  endpointTouchesDrop sourceId dropTables link.sourceEndpoint.sourceId
      link.sourceEndpoint.relation ||
    endpointTouchesDrop sourceId dropTables link.targetEndpoint.sourceId
      link.targetEndpoint.relation

section

variable (ontology : OntologyIR) (sourceId : SourceId) (dropTables : Finset String)

/-- The object mappings deleted in the first pass. -/
def droppedObjectMappings : List ObjectMappingDef :=
  ontology.objectMappings.filter fun m => m.sourceId = sourceId ∧ m.relation ∈ dropTables

/-- The link mappings deleted in the second pass. -/
def droppedLinkMappings : List LinkMappingDef :=
  ontology.linkMappings.filter (touchesDrop sourceId dropTables)

/-- The nodes deleted in the third pass: affected, and not still bound. -/
def unboundNodes : List NodeTypeDef :=
  let dropped := droppedObjectMappings ontology sourceId dropTables
  ontology.nodeTypes.filter fun node =>
    node.id ∈ dropped.map (·.nodeTypeId) ∧
      ¬ ontology.objectMappings.any fun m => m.nodeTypeId = node.id ∧ m.id ∉ dropped.map (·.id)

/-- The edges deleted in the fourth pass: affected, and not still bound. -/
def unboundEdges : List EdgeTypeDef :=
  let dropped := droppedLinkMappings ontology sourceId dropTables
  ontology.edgeTypes.filter fun edge =>
    edge.id ∈ dropped.map (·.edgeTypeId) ∧
      ¬ ontology.linkMappings.any fun link => link.edgeTypeId = edge.id ∧
        link.id ∉ dropped.map (·.id) ∧ ¬ touchesDrop sourceId dropTables link

def retractCommands : List OntologyCommand :=
  (droppedObjectMappings ontology sourceId dropTables).map (.deleteObjectMapping ·.id) ++
  (droppedLinkMappings ontology sourceId dropTables).map (.deleteLinkMapping ·.id) ++
  (unboundNodes ontology sourceId dropTables).map (.deleteNode ·.id) ++
  (unboundEdges ontology sourceId dropTables).map (.deleteEdge ·.id)

def buildRetractSourceBatch : OntologyCommand :=
  .batch ("Retract source '" ++ sourceId.val ++ "' tables: " ++
      ", ".intercalate (dropTables.sort (· ≤ ·)))
    (retractCommands ontology sourceId dropTables)

end

/-! ## What is asked of a retraction -/

section

variable (o : OntologyIR) (sourceId : SourceId) (dropTables : Finset String)

/-- Node types left with no mapping: they had some, and each read from a retracted table. -/
def NodeUnbound (id : NodeTypeId) : Prop :=
  (∃ m ∈ o.objectMappings, m.nodeTypeId = id) ∧
    ∀ m ∈ o.objectMappings, m.nodeTypeId = id → Touches sourceId dropTables m.relations

/-- Edge types left with no mapping: they had some, and each ended at a retracted table. -/
def EdgeUnbound (id : EdgeTypeId) : Prop :=
  (∃ m ∈ o.linkMappings, m.edgeTypeId = id) ∧
    ∀ m ∈ o.linkMappings, m.edgeTypeId = id → Touches sourceId dropTables m.endRelations

/-- An edge with an end at a node type left with no mapping. -/
def EndUnbound (e : EdgeTypeDef) : Prop :=
  NodeUnbound o sourceId dropTables e.sourceNodeId ∨
    NodeUnbound o sourceId dropTables e.targetNodeId

/-- The node has a surviving mapping, or never was mapped to the source. -/
def NodeStays (n : NodeTypeDef) : Prop :=
  (∃ m ∈ o.objectMappings, m.nodeTypeId = n.id ∧ ¬ Touches sourceId dropTables m.relations) ∨
    ∀ m ∈ o.objectMappings, m.nodeTypeId = n.id → ∀ r ∈ m.relations, r.1 ≠ sourceId

/-- The edge has a surviving mapping, or never was mapped to the source. -/
def EdgeStays (e : EdgeTypeDef) : Prop :=
  (∃ m ∈ o.linkMappings, m.edgeTypeId = e.id ∧ ¬ Touches sourceId dropTables m.relations) ∨
    ∀ m ∈ o.linkMappings, m.edgeTypeId = e.id → ∀ r ∈ m.relations, r.1 ≠ sourceId

/-- An exact retraction: the mappings of the retracted tables are gone, what has others stays
as it was, and no edge refers to a removed node. -/
structure Retracted (o' : OntologyIR) : Prop where
  objectMappings : ∀ m ∈ o'.objectMappings, ¬ Touches sourceId dropTables m.relations
  linkMappings : ∀ m ∈ o'.linkMappings, ¬ Touches sourceId dropTables m.relations
  nodes : ∀ n ∈ o.nodeTypes, NodeStays o sourceId dropTables n → n ∈ o'.nodeTypes
  edges : ∀ e ∈ o.edgeTypes, EdgeStays o sourceId dropTables e → e ∈ o'.edgeTypes
  ends : ∀ e ∈ o'.edgeTypes,
    e.sourceNodeId ∈ o'.nodeTypes.map (·.id) ∧ e.targetNodeId ∈ o'.nodeTypes.map (·.id)

/-- The ontology names what is left with no mapping in no other place. -/
structure Retractable : Prop where
  /-- Edges with an end there go with the node only. -/
  edges : ∀ e ∈ o.edgeTypes, EndUnbound o sourceId dropTables e →
    ¬ EdgeUnbound o sourceId dropTables e.id ∧ ¬ EdgeStays o sourceId dropTables e
  /-- A bridge is retracted with an end, or with a node of its edge. -/
  bridges : ∀ m ∈ o.linkMappings, Touches sourceId dropTables m.relations →
    Touches sourceId dropTables m.endRelations ∨
      ∃ e ∈ o.edgeTypes, e.id = m.edgeTypeId ∧ EndUnbound o sourceId dropTables e
  content : (∃ n ∈ o.nodeTypes, ¬ NodeUnbound o sourceId dropTables n.id) ∨ o.glossary ≠ [] ∨
    o.rules ≠ [] ∨ o.codeSystems ≠ []
  rules : ∀ r ∈ o.rules, ∀ nodeTypeId propertyId,
    r.origin = .derivedFromBinding nodeTypeId propertyId →
      ¬ NodeUnbound o sourceId dropTables nodeTypeId
  contributedNodes : ∀ entry ∈ o.tableInventory, ∀ id ∈ entry.contributedNodeIds,
    ¬ NodeUnbound o sourceId dropTables id
  contributedEdges : ∀ entry ∈ o.tableInventory, ∀ id ∈ entry.contributedEdgeIds,
    ¬ EdgeUnbound o sourceId dropTables id ∧
      ∀ e ∈ o.edgeTypes, e.id = id → ¬ EndUnbound o sourceId dropTables e
  segments : ∀ s ∈ o.segments, ¬ NodeUnbound o sourceId dropTables s.targetNodeTypeId

instance (id : NodeTypeId) : Decidable (NodeUnbound o sourceId dropTables id) :=
  inferInstanceAs (Decidable (_ ∧ _))

instance (id : EdgeTypeId) : Decidable (EdgeUnbound o sourceId dropTables id) :=
  inferInstanceAs (Decidable (_ ∧ _))

instance (e : EdgeTypeDef) : Decidable (EndUnbound o sourceId dropTables e) :=
  inferInstanceAs (Decidable (_ ∨ _))

instance (e : EdgeTypeDef) : Decidable (EdgeStays o sourceId dropTables e) :=
  inferInstanceAs (Decidable (_ ∨ _))

end

/-! ## What is dropped -/

variable {e : EdgeTypeDef} {m : ObjectMappingDef} {n : NodeTypeDef} {id : EdgeTypeId}

section

variable {o : OntologyIR} {sourceId : SourceId} {dropTables : Finset String}

theorem touchesDrop_iff {link : LinkMappingDef} : touchesDrop sourceId dropTables link = true ↔
      Touches sourceId dropTables link.endRelations := by
  simp [touchesDrop, endpointTouchesDrop, Touches, LinkMappingDef.endRelations]

theorem mem_droppedObjects : m ∈ droppedObjectMappings o sourceId dropTables ↔
      m ∈ o.objectMappings ∧ Touches sourceId dropTables m.relations := by
  simp [droppedObjectMappings, Touches, ObjectMappingDef.relations]

theorem mem_droppedLinks {m : LinkMappingDef} :
    m ∈ droppedLinkMappings o sourceId dropTables ↔
      m ∈ o.linkMappings ∧ Touches sourceId dropTables m.endRelations := by
  rw [droppedLinkMappings, List.mem_filter, touchesDrop_iff]

section

variable (ho : o.Indexed)
include ho

/-- With distinct ids, a mapping is dropped when its id is. -/
theorem id_mem_droppedObjects (hm : m ∈ o.objectMappings) :
    m.id ∈ (droppedObjectMappings o sourceId dropTables).map (·.id) ↔
      Touches sourceId dropTables m.relations := by
  constructor
  · intro hid
    obtain ⟨m', hm', hid'⟩ := List.mem_map.1 hid
    rw [mem_droppedObjects] at hm'
    have hnd := OntologyIR.nodup_objectIds_iff.1 ho.objectMappingIds
    exact List.inj_on_of_nodup_map hnd hm'.1 hm hid' ▸ hm'.2
  · intro htouches
    exact List.mem_map_of_mem (mem_droppedObjects.2 ⟨hm, htouches⟩)

theorem id_mem_droppedLinks {m : LinkMappingDef} (hm : m ∈ o.linkMappings) :
    m.id ∈ (droppedLinkMappings o sourceId dropTables).map (·.id) ↔
      Touches sourceId dropTables m.endRelations := by
  constructor
  · intro hid
    obtain ⟨m', hm', hid'⟩ := List.mem_map.1 hid
    rw [mem_droppedLinks] at hm'
    have hnd := OntologyIR.nodup_linkIds_iff.1 ho.linkMappingIds
    exact List.inj_on_of_nodup_map hnd hm'.1 hm hid' ▸ hm'.2
  · intro htouches
    exact List.mem_map_of_mem (mem_droppedLinks.2 ⟨hm, htouches⟩)

theorem mem_unboundNodes : n ∈ unboundNodes o sourceId dropTables ↔
      n ∈ o.nodeTypes ∧ NodeUnbound o sourceId dropTables n.id := by
  unfold unboundNodes NodeUnbound
  simp only [List.mem_filter, decide_eq_true_eq, List.any_eq_true, not_exists, not_and, not_not]
  refine and_congr_right fun _ => ?_
  constructor
  · intro ⟨hdropped, hall⟩
    obtain ⟨m, hm, hid⟩ := List.mem_map.1 hdropped
    refine ⟨⟨m, (mem_droppedObjects.1 hm).1, hid⟩, fun m' hm' hid' => ?_⟩
    exact (id_mem_droppedObjects ho hm').1 (hall m' hm' hid')
  · intro ⟨⟨m, hm, hid⟩, hall⟩
    refine ⟨hid ▸ List.mem_map_of_mem (mem_droppedObjects.2 ⟨hm, hall m hm hid⟩), ?_⟩
    exact fun m' hm' hid' => (id_mem_droppedObjects ho hm').2 (hall m' hm' hid')

theorem mem_unboundEdges : e ∈ unboundEdges o sourceId dropTables ↔
      e ∈ o.edgeTypes ∧ EdgeUnbound o sourceId dropTables e.id := by
  unfold unboundEdges EdgeUnbound
  simp only [List.mem_filter, decide_eq_true_eq, List.any_eq_true, not_exists, not_and, not_not,
    touchesDrop_iff]
  refine and_congr_right fun _ => ?_
  constructor
  · intro ⟨hdropped, hall⟩
    obtain ⟨m, hm, hid⟩ := List.mem_map.1 hdropped
    refine ⟨⟨m, (mem_droppedLinks.1 hm).1, hid⟩, fun m' hm' hid' => ?_⟩
    by_contra htouches
    exact htouches (hall m' hm' hid' ((id_mem_droppedLinks ho hm').not.2 htouches))
  · intro ⟨⟨m, hm, hid⟩, hall⟩
    refine ⟨hid ▸ List.mem_map_of_mem (mem_droppedLinks.2 ⟨hm, hall m hm hid⟩), ?_⟩
    exact fun m' hm' hid' _ => hall m' hm' hid'

/-- The ids of the deleted nodes are those left with no mapping. -/
theorem mem_unboundNodes_ids (hclosed : IsClosed o) {id : NodeTypeId} :
    id ∈ (unboundNodes o sourceId dropTables).map (·.id) ↔
      NodeUnbound o sourceId dropTables id := by
  simp only [List.mem_map, mem_unboundNodes ho]
  constructor
  · rintro ⟨n, ⟨-, hunbound⟩, rfl⟩
    exact hunbound
  · intro hunbound
    obtain ⟨m, hm, rfl⟩ := hunbound.1
    obtain ⟨n, hn, hid⟩ := List.mem_map.1 (hclosed.objectMappings m hm)
    exact ⟨n, ⟨hn, hid.symm ▸ hunbound⟩, hid⟩

theorem mem_unboundEdges_ids (hclosed : IsClosed o) :
    id ∈ (unboundEdges o sourceId dropTables).map (·.id) ↔
      EdgeUnbound o sourceId dropTables id := by
  simp only [List.mem_map, mem_unboundEdges ho]
  constructor
  · rintro ⟨e, ⟨-, hunbound⟩, rfl⟩
    exact hunbound
  · intro hunbound
    obtain ⟨m, hm, rfl⟩ := hunbound.1
    obtain ⟨e, he, hid⟩ := List.mem_map.1 (hclosed.linkMappings m hm)
    exact ⟨e, ⟨he, hid.symm ▸ hunbound⟩, hid⟩

theorem endsIn_unboundNodes (hclosed : IsClosed o) :
    EndsIn ((unboundNodes o sourceId dropTables).map (·.id)) e ↔
      EndUnbound o sourceId dropTables e := by
  rw [EndsIn, EndUnbound, mem_unboundNodes_ids ho hclosed, mem_unboundNodes_ids ho hclosed]

end

end

/-- A node that stays is not left with no mapping. -/
theorem NodeStays.not_nodeUnbound {o : OntologyIR} {sourceId : SourceId}
    {dropTables : Finset String} (h : NodeStays o sourceId dropTables n) :
    ¬ NodeUnbound o sourceId dropTables n.id := by
  intro ⟨⟨m, hm, hid⟩, hall⟩
  obtain ⟨m', hm', hid', hsurvives⟩ | hnever := h
  · exact hsurvives (hall m' hm' hid')
  · obtain ⟨r, hr, hsource, -⟩ := hall m hm hid
    exact hnever m hm hid r hr hsource

/-- An edge that stays is not left with no mapping. -/
theorem EdgeStays.not_edgeUnbound {o : OntologyIR} {sourceId : SourceId}
    {dropTables : Finset String} (h : EdgeStays o sourceId dropTables e) :
    ¬ EdgeUnbound o sourceId dropTables e.id := by
  intro ⟨⟨m, hm, hid⟩, hall⟩
  obtain ⟨m', hm', hid', hsurvives⟩ | hnever := h
  · obtain ⟨r, hr, hsource, htable⟩ := hall m' hm' hid'
    exact hsurvives ⟨r, List.mem_append_left _ hr, hsource, htable⟩
  · obtain ⟨r, hr, hsource, -⟩ := hall m hm hid
    exact hnever m hm hid r (List.mem_append_left _ hr) hsource

theorem runAll_deleteEdges_eq_none {o : OntologyIR} {ids : List EdgeTypeId}
    (hnd : (o.edgeTypes.map (·.id)).Nodup) (hid : id ∈ ids)
    (habsent : id ∉ o.edgeTypes.map (·.id)) : runAll (ids.map .deleteEdge) o = none := by
  induction ids generalizing o with
  | nil => cases hid
  | cons k ks ih =>
    rw [List.map_cons, runAll_cons]
    by_cases hk : k ∈ o.edgeTypes.map (·.id)
    · rw [deletes_edges.step o k ⟨hnd, hk⟩, Option.bind_some]
      have hsub : (withoutEdges o [k]).edgeTypes.Sublist o.edgeTypes := List.filter_sublist
      refine ih (hnd.sublist (hsub.map _)) ?_ fun hmem => habsent ((hsub.map _).subset hmem)
      exact (List.mem_cons.1 hid).resolve_left fun heq => habsent (heq ▸ hk)
    · rw [OntologyCommand.executeInner, deleteEdge, takeFirst_none_iff.2 hk]
      rfl

section

variable (o : OntologyIR) (sourceId : SourceId) (dropTables : Finset String)

/-- What the first three passes leave. -/
def afterNodes : OntologyIR :=
  withoutNodes
    (withoutLinkMappings
      (withoutObjectMappings o ((droppedObjectMappings o sourceId dropTables).map (·.id)))
      ((droppedLinkMappings o sourceId dropTables).map (·.id)))
    ((unboundNodes o sourceId dropTables).map (·.id))

/-- What the four passes leave. -/
def afterRetract : OntologyIR :=
  withoutEdges (afterNodes o sourceId dropTables)
    ((unboundEdges o sourceId dropTables).map (·.id))

variable {o sourceId dropTables}

theorem runAll_retractCommands (ho : o.Indexed) : runAll (retractCommands o sourceId dropTables) o =
      runAll (((unboundEdges o sourceId dropTables).map (·.id)).map .deleteEdge)
        (afterNodes o sourceId dropTables) := by
  have hobjects := OntologyIR.nodup_objectIds_iff.1 ho.objectMappingIds
  have hlinks := OntologyIR.nodup_linkIds_iff.1 ho.linkMappingIds
  have hobject : ((droppedObjectMappings o sourceId dropTables).map (·.id)).Sublist
      (o.objectMappings.map (·.id)) := List.filter_sublist.map _
  have hlink : ((droppedLinkMappings o sourceId dropTables).map (·.id)).Sublist
      (o.linkMappings.map (·.id)) := List.filter_sublist.map _
  have hnode : ((unboundNodes o sourceId dropTables).map (·.id)).Sublist
      (o.nodeTypes.map (·.id)) := List.filter_sublist.map _
  have hmap {α β : Type} (command : β → OntologyCommand) (id : α → β) (xs : List α) :
      xs.map (fun x => command (id x)) = (xs.map id).map command := by
    rw [List.map_map]
    rfl
  rw [retractCommands, afterNodes, hmap .deleteObjectMapping, hmap .deleteLinkMapping,
    hmap .deleteNode, hmap .deleteEdge, runAll_append, runAll_append, runAll_append]
  rw [deletes_objectMappings.runAll (hobject.nodup hobjects)
    fun k hk => ⟨hobjects, hobject.subset hk⟩, Option.bind_some]
  rw [deletes_linkMappings.runAll (o := withoutObjectMappings o _) (hlink.nodup hlinks)
    fun k hk => ⟨hlinks, hlink.subset hk⟩, Option.bind_some]
  rw [deletes_nodes.runAll (o := withoutLinkMappings (withoutObjectMappings o _) _)
    (hnode.nodup ho.nodeIds) fun k hk => ⟨ho.nodeIds, hnode.subset hk⟩, Option.bind_some]

variable (ho : o.Indexed) (hclosed : IsClosed o)
include ho hclosed

theorem mem_afterNodes_edgeTypes :
    e ∈ (afterNodes o sourceId dropTables).edgeTypes ↔
      e ∈ o.edgeTypes ∧ ¬ EndUnbound o sourceId dropTables e := by
  rw [← endsIn_unboundNodes ho hclosed]
  exact List.mem_filter.trans (and_congr_right fun _ => decide_eq_true_iff)

/-- The commands go through when no edge that is to be deleted went with a node. -/
theorem runAll_retract_iff {o' : OntologyIR} :
    runAll (retractCommands o sourceId dropTables) o = some o' ↔
      (∀ e ∈ o.edgeTypes, EndUnbound o sourceId dropTables e →
        ¬ EdgeUnbound o sourceId dropTables e.id) ∧ afterRetract o sourceId dropTables = o' := by
  have hsub : (afterNodes o sourceId dropTables).edgeTypes.Sublist o.edgeTypes :=
    List.filter_sublist
  have hnd : ((afterNodes o sourceId dropTables).edgeTypes.map (·.id)).Nodup :=
    ho.edgeIds.sublist (hsub.map _)
  have hedge : ((unboundEdges o sourceId dropTables).map (·.id)).Sublist
      (o.edgeTypes.map (·.id)) := List.filter_sublist.map _
  rw [runAll_retractCommands ho]
  by_cases hgoes : ∀ e ∈ o.edgeTypes, EndUnbound o sourceId dropTables e →
      ¬ EdgeUnbound o sourceId dropTables e.id
  · rw [and_iff_right hgoes, deletes_edges.runAll (hedge.nodup ho.edgeIds), Option.some_inj]
    · rfl
    · intro id hid
      obtain ⟨e, he, rfl⟩ := List.mem_map.1 hid
      rw [mem_unboundEdges ho] at he
      exact ⟨hnd, List.mem_map_of_mem ((mem_afterNodes_edgeTypes ho hclosed).2
        ⟨he.1, fun hend => hgoes e he.1 hend he.2⟩)⟩
  · rw [iff_false_right fun h => hgoes h.1]
    push Not at hgoes
    obtain ⟨e, he, hend, hunbound⟩ := hgoes
    have habsent : e.id ∉ (afterNodes o sourceId dropTables).edgeTypes.map (·.id) := by
      intro hmem
      obtain ⟨e', he', hid⟩ := List.mem_map.1 hmem
      rw [mem_afterNodes_edgeTypes ho hclosed] at he'
      exact he'.2 (List.inj_on_of_nodup_map ho.edgeIds he'.1 he hid ▸ hend)
    rw [runAll_deleteEdges_eq_none hnd ((mem_unboundEdges_ids ho hclosed).2 hunbound) habsent]
    exact nofun

/-! ## What is left -/

theorem mem_after_nodeTypes :
    n ∈ (afterRetract o sourceId dropTables).nodeTypes ↔
      n ∈ o.nodeTypes ∧ ¬ NodeUnbound o sourceId dropTables n.id := by
  rw [← mem_unboundNodes_ids ho hclosed]
  exact List.mem_filter.trans (and_congr_right fun _ => decide_eq_true_iff)

theorem mem_after_edgeTypes :
    e ∈ (afterRetract o sourceId dropTables).edgeTypes ↔
      e ∈ o.edgeTypes ∧ ¬ EndUnbound o sourceId dropTables e ∧
        ¬ EdgeUnbound o sourceId dropTables e.id := by
  rw [← mem_unboundEdges_ids ho hclosed, ← and_assoc, ← mem_afterNodes_edgeTypes ho hclosed]
  exact List.mem_filter.trans (and_congr_right fun _ => decide_eq_true_iff)

theorem mem_after_indexes {idx : IndexDef} :
    idx ∈ (afterRetract o sourceId dropTables).indexes ↔
      idx ∈ o.indexes ∧ ¬ NodeUnbound o sourceId dropTables idx.indexNodeId := by
  rw [← mem_unboundNodes_ids ho hclosed]
  exact List.mem_filter.trans (and_congr_right fun _ => decide_eq_true_iff)

theorem mem_after_objectMappings :
    m ∈ (afterRetract o sourceId dropTables).objectMappings ↔
      m ∈ o.objectMappings ∧ ¬ Touches sourceId dropTables m.relations ∧
        ¬ NodeUnbound o sourceId dropTables m.nodeTypeId := by
  rw [← mem_unboundNodes_ids ho hclosed]
  refine List.mem_filter.trans ?_
  rw [decide_eq_true_iff, ← and_assoc]
  refine and_congr_left fun _ => List.mem_filter.trans (and_congr_right fun hm => ?_)
  rw [decide_eq_true_iff, id_mem_droppedObjects ho hm]

theorem mem_after_linkMappings {m : LinkMappingDef} :
    m ∈ (afterRetract o sourceId dropTables).linkMappings ↔
      m ∈ o.linkMappings ∧ ¬ Touches sourceId dropTables m.endRelations ∧
        (∀ e ∈ o.edgeTypes, e.id = m.edgeTypeId → ¬ EndUnbound o sourceId dropTables e) ∧
        ¬ EdgeUnbound o sourceId dropTables m.edgeTypeId := by
  have hends : m.edgeTypeId ∉ (o.edgeTypes.filter
        fun e => EndsIn ((unboundNodes o sourceId dropTables).map (·.id)) e).map (·.id) ↔
      ∀ e ∈ o.edgeTypes, e.id = m.edgeTypeId → ¬ EndUnbound o sourceId dropTables e := by
    simp only [List.mem_map, List.mem_filter, decide_eq_true_eq, endsIn_unboundNodes ho hclosed,
      not_exists, not_and]
    exact forall_congr' fun e => ⟨fun h he hid hend => h ⟨he, hend⟩ hid,
      fun h hend hid => h hend.1 hid hend.2⟩
  rw [← mem_unboundEdges_ids ho hclosed, ← hends, ← and_assoc, ← and_assoc]
  refine List.mem_filter.trans ?_
  rw [decide_eq_true_iff]
  refine and_congr_left fun _ => List.mem_filter.trans ?_
  rw [decide_eq_true_iff]
  refine and_congr_left fun _ => List.mem_filter.trans (and_congr_right fun hm => ?_)
  rw [decide_eq_true_iff, id_mem_droppedLinks ho hm]

theorem mem_after_nodeIds {id : NodeTypeId} :
    id ∈ (afterRetract o sourceId dropTables).nodeTypes.map (·.id) ↔
      id ∈ o.nodeTypes.map (·.id) ∧ ¬ NodeUnbound o sourceId dropTables id := by
  simp only [List.mem_map, mem_after_nodeTypes ho hclosed]
  constructor
  · rintro ⟨n, ⟨hn, hbound⟩, rfl⟩
    exact ⟨⟨n, hn, rfl⟩, hbound⟩
  · rintro ⟨⟨n, hn, rfl⟩, hbound⟩
    exact ⟨n, ⟨hn, hbound⟩, rfl⟩

theorem mem_after_edgeIds :
    id ∈ (afterRetract o sourceId dropTables).edgeTypes.map (·.id) ↔
      id ∈ o.edgeTypes.map (·.id) ∧ ¬ EdgeUnbound o sourceId dropTables id ∧
        ∀ e ∈ o.edgeTypes, e.id = id → ¬ EndUnbound o sourceId dropTables e := by
  simp only [List.mem_map, mem_after_edgeTypes ho hclosed]
  constructor
  · rintro ⟨e, ⟨he, hends, hbound⟩, rfl⟩
    refine ⟨⟨e, he, rfl⟩, hbound, fun e' he' hid => ?_⟩
    exact List.inj_on_of_nodup_map ho.edgeIds he' he hid ▸ hends
  · rintro ⟨⟨e, he, rfl⟩, hbound, hends⟩
    exact ⟨e, ⟨he, hends e he rfl, hbound⟩, rfl⟩

theorem isClosed_after :
    IsClosed (afterRetract o sourceId dropTables) where
  ends e he := by
    rw [mem_after_edgeTypes ho hclosed] at he
    rw [mem_after_nodeIds ho hclosed, mem_after_nodeIds ho hclosed]
    obtain ⟨hsource, htarget⟩ := hclosed.ends e he.1
    exact ⟨⟨hsource, fun h => he.2.1 (.inl h)⟩, ⟨htarget, fun h => he.2.1 (.inr h)⟩⟩
  indexes idx hidx := by
    rw [mem_after_indexes ho hclosed] at hidx
    have hnode : idx.indexNodeId = idx.nodeId := by cases idx <;> rfl
    rw [mem_after_nodeIds ho hclosed, ← hnode]
    exact ⟨hnode ▸ hclosed.indexes idx hidx.1, hidx.2⟩
  objectMappings m hm := by
    rw [mem_after_objectMappings ho hclosed] at hm
    rw [mem_after_nodeIds ho hclosed]
    exact ⟨hclosed.objectMappings m hm.1, hm.2.2⟩
  linkMappings m hm := by
    rw [mem_after_linkMappings ho hclosed] at hm
    rw [mem_after_edgeIds ho hclosed]
    exact ⟨hclosed.linkMappings m hm.1, hm.2.2.2, hm.2.2.1⟩

/-- What is left has content when a node type stays or a registry that counts is not empty. -/
theorem hasContent_after :
    (afterRetract o sourceId dropTables).hasContent = true ↔
      (∃ n ∈ o.nodeTypes, ¬ NodeUnbound o sourceId dropTables n.id) ∨ o.glossary ≠ [] ∨
        o.rules ≠ [] ∨ o.codeSystems ≠ [] := by
  have hleft : IsClosed (afterRetract o sourceId dropTables) := isClosed_after ho hclosed
  have hnodes : (afterRetract o sourceId dropTables).nodeTypes ≠ [] ↔
      ∃ n ∈ o.nodeTypes, ¬ NodeUnbound o sourceId dropTables n.id := by
    simp only [ne_eq, List.eq_nil_iff_forall_not_mem, mem_after_nodeTypes ho hclosed,
      not_forall, not_not]
  rw [← hnodes, hleft.hasContent_iff]
  rfl

omit ho hclosed in
theorem isPart_after : IsPart o (afterRetract o sourceId dropTables) where
  rest := rfl
  nodeTypes := List.filter_sublist
  edgeTypes := List.filter_sublist.trans List.filter_sublist
  indexes := List.filter_sublist
  objectMappings := List.filter_sublist.trans List.filter_sublist
  linkMappings := List.filter_sublist.trans (List.filter_sublist.trans List.filter_sublist)

end

/-- A retraction is executed and exact exactly when what it leaves with no mapping is named in no
other place. -/
theorem retracts_iff {o : OntologyIR} (ho : o.Indexed) (hv : o.Clean) (sourceId : SourceId)
    (dropTables : Finset String) :
    (∃ result, (buildRetractSourceBatch o sourceId dropTables).execute o = .ok result ∧
        Retracted o sourceId dropTables result.newOntology) ↔
      Retractable o sourceId dropTables := by
  have hclosed := hv.isClosed
  have hothers := hv.othersResolve ho
  constructor
  · intro ⟨result, hresult, hretracted⟩
    obtain ⟨hrun, -, hclean⟩ := execute_batch_iff.1 ⟨result, hresult, rfl⟩
    obtain ⟨hgoes, hafter⟩ := (runAll_retract_iff ho hclosed).1 hrun
    rw [← hafter] at hretracted hclean
    obtain ⟨hcontent, hresolve⟩ := (isPart_after.clean_iff ho hv
      (isClosed_after ho hclosed)).1 hclean
    exact
      { edges := by
          intro e he hend
          refine ⟨hgoes e he hend, fun hstays => ?_⟩
          exact ((mem_after_edgeTypes ho hclosed).1 (hretracted.edges e he hstays)).2.1 hend
        bridges := by
          intro m hm htouches
          by_contra hneither
          push Not at hneither
          refine hretracted.linkMappings m ((mem_after_linkMappings ho hclosed).2
            ⟨hm, hneither.1, hneither.2, fun hunbound => ?_⟩) htouches
          exact hneither.1 (hunbound.2 m hm rfl)
        content := (hasContent_after ho hclosed).1 hcontent
        rules := fun r hr nodeTypeId propertyId horigin =>
          ((mem_after_nodeIds ho hclosed).1
            (hresolve.rules r hr nodeTypeId propertyId horigin)).2
        contributedNodes := fun entry hentry id hid =>
          ((mem_after_nodeIds ho hclosed).1 (hresolve.contributedNodes entry hentry hid)).2
        contributedEdges := fun entry hentry id hid =>
          ((mem_after_edgeIds ho hclosed).1 (hresolve.contributedEdges entry hentry hid)).2
        segments := fun s hs =>
          ((mem_after_nodeIds ho hclosed).1 (hresolve.segments s hs)).2 }
  · intro h
    have hrun := (runAll_retract_iff ho hclosed).2
      ⟨fun e he hend => (h.edges e he hend).1, rfl⟩
    have hresolve : OthersResolve (afterRetract o sourceId dropTables) :=
      { rules := fun r hr nodeTypeId propertyId horigin =>
          (mem_after_nodeIds ho hclosed).2
            ⟨hothers.rules r hr nodeTypeId propertyId horigin,
              h.rules r hr nodeTypeId propertyId horigin⟩
        contributedNodes := fun entry hentry id hid =>
          (mem_after_nodeIds ho hclosed).2
            ⟨hothers.contributedNodes entry hentry hid, h.contributedNodes entry hentry id hid⟩
        contributedEdges := fun entry hentry id hid =>
          (mem_after_edgeIds ho hclosed).2
            ⟨hothers.contributedEdges entry hentry hid, h.contributedEdges entry hentry id hid⟩
        segments := fun s hs =>
          (mem_after_nodeIds ho hclosed).2 ⟨hothers.segments s hs, h.segments s hs⟩ }
    obtain ⟨result, hresult, hafter⟩ := execute_batch_iff.2 ⟨hrun,
      isPart_after.indexed ho, (isPart_after.clean_iff ho hv
        (isClosed_after ho hclosed)).2
          ⟨(hasContent_after ho hclosed).2 h.content, hresolve⟩⟩
    refine ⟨result, hresult, ?_⟩
    rw [hafter]
    exact
      { objectMappings := fun m hm => ((mem_after_objectMappings ho hclosed).1 hm).2.1
        linkMappings := by
          intro m hm htouches
          rw [mem_after_linkMappings ho hclosed] at hm
          obtain hends | ⟨e, he, hid, hend⟩ := h.bridges m hm.1 htouches
          · exact hm.2.1 hends
          · exact hm.2.2.1 e he hid hend
        nodes := fun n hn hstays => (mem_after_nodeTypes ho hclosed).2
          ⟨hn, hstays.not_nodeUnbound⟩
        edges := fun e he hstays => (mem_after_edgeTypes ho hclosed).2
          ⟨he, fun hend => (h.edges e he hend).2 hstays, hstays.not_edgeUnbound⟩
        ends := (isClosed_after ho hclosed).ends }

/-- Users and their orders, with the relations that users are read from. -/
def shop (userMappings : List ObjectMappingDef) : OntologyIR where
  id := "shop"
  name := "Shop"
  nodeTypes := [{ id := ⟨"user"⟩, label := ⟨"User", by decide⟩ },
    { id := ⟨"order"⟩, label := ⟨"Order", by decide⟩ }]
  edgeTypes := [{ id := ⟨"placed"⟩, label := ⟨"PLACED", by decide⟩, sourceNodeId := ⟨"user"⟩
                  targetNodeId := ⟨"order"⟩ }]
  objectMappings := { id := ⟨"orders"⟩, nodeTypeId := ⟨"order"⟩, sourceId := ⟨"crm"⟩
                      relation := "orders" } :: userMappings
  linkMappings := [{ id := ⟨"placed"⟩, edgeTypeId := ⟨"placed"⟩
                     kind := .foreignKey ⟨"orders", "user_id"⟩ ⟨"users", "id"⟩
                     sourceEndpoint := ⟨⟨"crm"⟩, "users", ["id"]⟩
                     targetEndpoint := ⟨⟨"crm"⟩, "orders", ["id"]⟩ }]

def usersMapping (source : String) : ObjectMappingDef where
  id := ⟨source⟩
  nodeTypeId := ⟨"user"⟩
  sourceId := ⟨source⟩
  relation := "users"

/-- Users that are read from another source too stay, and their orders without them. -/
theorem retracts_shop :
    ∃ result, (buildRetractSourceBatch (shop [usersMapping "crm", usersMapping "erp"]) ⟨"crm"⟩
        {"users"}).execute (shop [usersMapping "crm", usersMapping "erp"]) = .ok result ∧
      Retracted (shop [usersMapping "crm", usersMapping "erp"]) ⟨"crm"⟩ {"users"}
        result.newOntology :=
  (retracts_iff ((OntologyIR.rebuild_ok_iff _).1 rfl)
    ((OntologyIR.validate_nil_iff _).1 (by decide)) _ _).2
    { edges := by decide
      bridges := by decide
      content := .inl (by decide)
      rules := fun _ hr => absurd hr List.not_mem_nil
      contributedNodes := by decide
      contributedEdges := by decide
      segments := by decide }

/-- Without another source the batch is refused: the edge went with its users, and is deleted
again. -/
theorem retract_users_refused :
    (shop [usersMapping "crm"]).Indexed ∧ (shop [usersMapping "crm"]).Clean ∧
      ∀ result, (buildRetractSourceBatch (shop [usersMapping "crm"]) ⟨"crm"⟩
        {"users"}).execute (shop [usersMapping "crm"]) ≠ .ok result := by
  have ho : (shop [usersMapping "crm"]).Indexed := (OntologyIR.rebuild_ok_iff _).1 rfl
  have hv : (shop [usersMapping "crm"]).Clean :=
    (OntologyIR.validate_nil_iff _).1 (by decide)
  refine ⟨ho, hv, fun result hresult => ?_⟩
  have hrun := (execute_batch_iff.1 ⟨result, hresult, rfl⟩).1
  have hgoes := ((runAll_retract_iff ho hv.isClosed).1 hrun).1
  exact hgoes _ (List.mem_singleton_self _) (by decide) (by decide)

end Ontosyx.Command
