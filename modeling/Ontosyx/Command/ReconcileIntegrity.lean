import Ontosyx.Command.Reconcile
import Ontosyx.Lib.Rekey

/-!
# Referential integrity of re-identification

Reconciliation rewrites the ids of nodes, edges and properties, and of all the
places that refer to them it follows only the endpoints of edges.  Constraints,
indexes and source mappings keep naming the old ids, so they dangle exactly
when an entity they name trades its id in.

`KeepsReferencedIds` says, of the two inputs, that no such entity does: a node
trades its id when the original does not know it and has a node with its label,
an edge when the original has an edge with its label between the counterparts of
its endpoints, a property when the counterpart of its owner has a property with
its name.
-/

namespace Ontosyx.Command

open List Ontology Lib.Keyed Lib.Rekey NodeTypeDef

def HasNodeWith (o : OntologyIR) (id : NodeTypeId) (properties : List PropertyId) : Prop :=
  ∃ n ∈ o.nodeTypes, n.id = id ∧ ∀ p ∈ properties, p ∈ n.properties.map (·.id)

/-- Every constraint, index, edge endpoint and source mapping refers to nodes,
edges and properties that exist. -/
structure ReferencesResolve (o : OntologyIR) : Prop where
  constraints : ∀ n ∈ o.nodeTypes, ∀ c ∈ n.constraints, ∀ p ∈ c.constraintPropertyIds,
    p ∈ n.properties.map (·.id)
  indexes : ∀ i ∈ o.indexes, HasNodeWith o i.indexNodeId i.indexPropertyIds
  endpoints : ∀ e ∈ o.edgeTypes, e.sourceNodeId ∈ o.nodeTypes.map (·.id) ∧
    e.targetNodeId ∈ o.nodeTypes.map (·.id)
  objectMappings : ∀ m ∈ o.objectMappings,
    HasNodeWith o m.nodeTypeId (m.propertyMappings.map (·.propertyId))
  linkMappings : ∀ m ∈ o.linkMappings, m.edgeTypeId ∈ o.edgeTypes.map (·.id)

/-- The original has no node with the id of `n`, but one with its label. -/
def NodeTradesId (original : OntologyIR) (n : NodeTypeDef) : Prop :=
  n.id ∉ original.nodeTypes.map (·.id) ∧ ∃ o ∈ original.nodeTypes, o.label = n.label

/-- The original node `o` is the one `n` is matched to. -/
def NodeBecomes (original : OntologyIR) (n o : NodeTypeDef) : Prop :=
  o ∈ original.nodeTypes ∧
    (o.id = n.id ∨ n.id ∉ original.nodeTypes.map (·.id) ∧ o.label = n.label)

/-- The counterpart owner has no property with the id of `p`, but one with its
name. -/
def PropertyTradesId (originals : List PropertyDef) (p : PropertyDef) : Prop :=
  p.id ∉ originals.map (·.id) ∧ ∃ q ∈ originals, q.name = p.name

/-- The refined node id `x` stands for the original node id `y`. -/
def EndpointBecomes (original refined : OntologyIR) (x y : NodeTypeId) : Prop :=
  ∃ n ∈ refined.nodeTypes, n.id = x ∧ ∃ o, NodeBecomes original n o ∧ o.id = y

/-- The original has no edge with the id of `e`, but one with its label between
the counterparts of its endpoints. -/
def EdgeTradesId (original refined : OntologyIR) (e : EdgeTypeDef) : Prop :=
  e.id ∉ original.edgeTypes.map (·.id) ∧
    ∃ o ∈ original.edgeTypes, o.label = e.label ∧
      EndpointBecomes original refined e.sourceNodeId o.sourceNodeId ∧
      EndpointBecomes original refined e.targetNodeId o.targetNodeId

/-- Among the properties of `n`, those with one of the ids keep it. -/
def KeepsProperties (original : OntologyIR) (n : NodeTypeDef) (ids : List PropertyId) : Prop :=
  ∀ p ∈ n.properties, p.id ∈ ids →
    ∀ o, NodeBecomes original n o → ¬ PropertyTradesId o.properties p

/-- No node, edge or property that a constraint, an index or a source mapping
refers to trades its id in. -/
structure KeepsReferencedIds (original refined : OntologyIR) : Prop where
  constraints : ∀ n ∈ refined.nodeTypes, ∀ c ∈ n.constraints,
    KeepsProperties original n c.constraintPropertyIds
  indexes : ∀ n ∈ refined.nodeTypes, ∀ i ∈ refined.indexes, i.indexNodeId = n.id →
    ¬ NodeTradesId original n ∧ KeepsProperties original n i.indexPropertyIds
  objectMappings : ∀ n ∈ refined.nodeTypes, ∀ m ∈ refined.objectMappings, m.nodeTypeId = n.id →
    ¬ NodeTradesId original n ∧
      KeepsProperties original n (m.propertyMappings.map (·.propertyId))
  linkMappings : ∀ e ∈ refined.edgeTypes, ∀ m ∈ refined.linkMappings, m.edgeTypeId = e.id →
    ¬ EdgeTradesId original refined e

/-! ## The matching loops as rekeying -/

def nodeAlt (original : OntologyIR) (n : NodeTypeDef) : Option NodeTypeId :=
  (last (·.label) n.label original.nodeTypes).map (·.id)

def propertyAlt (originals : List PropertyDef) (p : PropertyDef) : Option PropertyId :=
  (last (·.name) p.name originals).map (·.id)

/-- The fallback id of an edge whose endpoints are remapped. -/
def edgeAlt (original : OntologyIR) (e : EdgeTypeDef) : Option EdgeTypeId :=
  (last (fun e => (e.label, e.sourceNodeId, e.targetNodeId))
    (e.label, e.sourceNodeId, e.targetNodeId) original.edgeTypes).map (·.id)

theorem reidentifyNode_id (original : OntologyIR) (n : NodeTypeDef) :
    (reidentifyNode original n).id =
      rekey NodeTypeDef.id (original.nodeTypes.map (·.id)) (nodeAlt original) n := by
  unfold reidentifyNode matchNode matchBy rekey nodeAlt
  by_cases hk : n.id ∈ original.nodeTypes.map (·.id)
  · simp only [hk, decide_true, if_true]
  · simp only [hk, decide_false, if_false, Bool.false_eq_true]
    cases last (·.label) n.label original.nodeTypes <;> rfl

theorem reidentifyProperty_id (originals : List PropertyDef) (p : PropertyDef) :
    (reidentifyProperty originals p).id =
      rekey PropertyDef.id (originals.map (·.id)) (propertyAlt originals) p := by
  unfold reidentifyProperty matchProperty matchBy rekey propertyAlt
  by_cases hk : p.id ∈ originals.map (·.id)
  · simp only [hk, decide_true, if_true]
  · simp only [hk, decide_false, if_false, Bool.false_eq_true]
    cases last (·.name) p.name originals <;> rfl

theorem reidentifyEdge_id (original : OntologyIR) (e : EdgeTypeDef) :
    (reidentifyEdge original e).id =
      rekey EdgeTypeDef.id (original.edgeTypes.map (·.id)) (edgeAlt original) e := by
  unfold reidentifyEdge matchEdge matchBy rekey edgeAlt
  by_cases hk : e.id ∈ original.edgeTypes.map (·.id)
  · simp only [hk, decide_true, if_true]
  · simp only [hk, decide_false, if_false, Bool.false_eq_true]
    cases last (fun e : EdgeTypeDef => (e.label, e.sourceNodeId, e.targetNodeId))
      (e.label, e.sourceNodeId, e.targetNodeId) original.edgeTypes <;> rfl

/-- A fallback id is the id of an original. -/
private theorem mem_map_of_alt {α β κ : Type} [DecidableEq β] {f : α → β} {key : α → κ} {b : β}
    {xs : List α} {k : κ} (h : (last f b xs).map key = some k) : k ∈ xs.map key := by
  obtain ⟨x, hx, rfl⟩ := Option.map_eq_some_iff.1 h
  exact mem_map_of_mem (mem_of_last f hx)

/-- A fallback exists exactly when an original carries what is looked up. -/
private theorem exists_alt_iff {α β κ : Type} [DecidableEq β] {f : α → β} {key : α → κ} {b : β}
    {xs : List α} : (∃ k, (last f b xs).map key = some k) ↔ ∃ x ∈ xs, f x = b := by
  rw [← mem_map, ← last_isSome_iff f]
  constructor
  · rintro ⟨k, hk⟩
    obtain ⟨x, hx, -⟩ := Option.map_eq_some_iff.1 hk
    exact ⟨x, hx⟩
  · rintro ⟨x, hx⟩
    exact ⟨key x, by rw [hx]; rfl⟩

theorem nodeTradesId_iff (original : OntologyIR) (n : NodeTypeDef) : NodeTradesId original n ↔
      Trades NodeTypeDef.id (original.nodeTypes.map (·.id)) (nodeAlt original) n :=
  and_congr_right fun _ => exists_alt_iff.symm

theorem propertyTradesId_iff (originals : List PropertyDef) (p : PropertyDef) :
    PropertyTradesId originals p ↔
      Trades PropertyDef.id (originals.map (·.id)) (propertyAlt originals) p :=
  and_congr_right fun _ => exists_alt_iff.symm

/-! ## Counterparts -/

theorem reidentifyNode_properties (original : OntologyIR) (n : NodeTypeDef) :
    (reidentifyNode original n).properties = n.properties := by
  unfold reidentifyNode
  split <;> rfl

section

variable {original refined : OntologyIR} (ho : original.Indexed)

include ho

/-- The original found under a node's new id is the one the node is matched to. -/
theorem last_reidentifyNode_iff {n o : NodeTypeDef} :
    last (·.id) (reidentifyNode original n).id original.nodeTypes = some o ↔
      NodeBecomes original n o := by
  rw [last_some_iff NodeTypeDef.id ho.nodeIds, reidentifyNode_id]
  refine and_congr_right fun hmem => ?_
  by_cases hk : n.id ∈ original.nodeTypes.map (·.id)
  · rw [rekey, if_pos hk]
    simp only [hk, not_true_eq_false, false_and, or_false]
  · rw [rekey, if_neg hk]
    have hne : o.id ≠ n.id := fun h => hk (h ▸ mem_map_of_mem hmem)
    simp only [hk, not_false_iff, true_and, hne, false_or]
    cases halt : last (·.label) n.label original.nodeTypes with
    | none =>
      have hlabel : o.label ≠ n.label := by
        intro h
        exact (last_none_iff label).1 halt (h ▸ mem_map_of_mem hmem)
      simp only [nodeAlt, halt, Option.map_none, Option.getD_none, hne, hlabel]
    | some m =>
      obtain ⟨hm, hlabel⟩ := (last_some_iff label ho.nodeLabels).1 halt
      simp only [nodeAlt, halt, Option.map_some, Option.getD_some]
      constructor
      · intro h
        rw [eq_of_key_eq NodeTypeDef.id ho.nodeIds hmem hm h, hlabel]
      · intro h
        rw [eq_of_key_eq NodeTypeDef.label ho.nodeLabels hmem hm (h.trans hlabel.symm)]

/-- The properties of a reconciled node whose id survives: those whose
counterpart owner does not make them trade it in. -/
theorem mem_reconcileNode_properties_iff {n : NodeTypeDef} (hnd : (n.properties.map (·.id)).Nodup)
    {p : PropertyDef} (hp : p ∈ n.properties) :
    p.id ∈ (reconcileNode original n).properties.map (·.id) ↔
      ∀ o, NodeBecomes original n o → ¬ PropertyTradesId o.properties p := by
  simp only [← last_reidentifyNode_iff ho]
  cases hown : last (·.id) (reidentifyNode original n).id original.nodeTypes with
  | none =>
    simp only [reconcileNode, hown, Option.map_none, reidentifyProperties]
    rw [reidentifyNode_properties]
    simp only [mem_map_of_mem hp, reduceCtorEq, false_implies, implies_true]
  | some o =>
    have hps : (reconcileNode original n).properties =
        n.properties.map (reidentifyProperty o.properties) := by
      simp only [reconcileNode, hown, Option.map_some, reidentifyProperties,
        reidentifyNode_properties]
    have hids : (reconcileNode original n).properties.map (·.id) =
        n.properties.map (rekey PropertyDef.id (o.properties.map (·.id))
          (propertyAlt o.properties)) := by
      rw [hps, map_map]
      exact map_congr_left fun q _ => reidentifyProperty_id o.properties q
    have halt : ∀ q k, propertyAlt o.properties q = some k → k ∈ o.properties.map (·.id) :=
      fun q k h => mem_map_of_alt h
    rw [hids, mem_map_rekey_iff halt hnd hp, ← propertyTradesId_iff]
    simp only [Option.some.injEq, forall_eq']

end

theorem reconcileNode_id (original : OntologyIR) (n : NodeTypeDef) :
    (reconcileNode original n).id = (reidentifyNode original n).id := rfl

theorem reconcileNode_constraints (original : OntologyIR) (n : NodeTypeDef) :
    (reconcileNode original n).constraints = n.constraints := by
  unfold reconcileNode reidentifyNode
  split <;> rfl

theorem reidentify_nodeIds (original refined : OntologyIR) :
    (reidentify original refined).nodeTypes.map (·.id) = refined.nodeTypes.map
        (rekey NodeTypeDef.id (original.nodeTypes.map (·.id)) (nodeAlt original)) := by
  rw [reidentify, map_map]
  exact map_congr_left fun n _ => reidentifyNode_id original n

variable {original refined : OntologyIR}

/-- The remap table holds the new id of every node that trades its id in, and
only those. -/
theorem remapNodeId_eq (hr : refined.Indexed) {n : NodeTypeDef} (hn : n ∈ refined.nodeTypes) :
    remapNodeId (nodeIdRemap original refined) n.id = (reidentifyNode original n).id := by
  have hentry : ∀ x, x ∈ nodeIdRemap original refined → x.1 = n.id →
      ∃ o, matchNode original n = .fallback o ∧ x = (n.id, o.id) := by
    intro x hx hid
    obtain ⟨m, hm, hmx⟩ := mem_filterMap.1 hx
    split at hmx
    · rename_i o ho
      obtain rfl := Option.some.inj hmx
      have hmn : m = n := eq_of_key_eq NodeTypeDef.id hr.nodeIds hm hn hid
      subst hmn
      exact ⟨o, ho, rfl⟩
    · cases hmx
  unfold remapNodeId
  cases hlast : last (·.1) n.id (nodeIdRemap original refined) with
  | some x =>
    obtain ⟨o, ho, rfl⟩ := hentry x (mem_of_last Prod.fst hlast)
      (key_of_last Prod.fst hlast)
    simp only [reidentifyNode, ho, Option.map_some, Option.getD_some]
  | none =>
    have hnone : ∀ o, matchNode original n ≠ .fallback o := by
      intro o ho
      have hmem : (n.id, o.id) ∈ nodeIdRemap original refined :=
        mem_filterMap.2 ⟨n, hn, by rw [ho]⟩
      exact (last_none_iff Prod.fst).1 hlast (mem_map_of_mem hmem)
    unfold reidentifyNode
    split
    · rename_i o ho
      exact absurd ho (hnone o)
    · rfl

/-- A remapped endpoint is an original's id exactly when the refined endpoint
stands for it. -/
theorem remapNodeId_eq_iff (ho : original.Indexed) (hr : refined.Indexed) {x y : NodeTypeId}
    (hx : x ∈ refined.nodeTypes.map (·.id)) (hy : y ∈ original.nodeTypes.map (·.id)) :
    remapNodeId (nodeIdRemap original refined) x = y ↔ EndpointBecomes original refined x y := by
  obtain ⟨n, hn, rfl⟩ := mem_map.1 hx
  obtain ⟨o, hmem, rfl⟩ := mem_map.1 hy
  rw [remapNodeId_eq hr hn]
  constructor
  · intro h
    have hlast : last (·.id) (reidentifyNode original n).id original.nodeTypes = some o :=
      (last_some_iff NodeTypeDef.id ho.nodeIds).2 ⟨hmem, h.symm⟩
    exact ⟨n, hn, rfl, o, (last_reidentifyNode_iff ho).1 hlast, rfl⟩
  · rintro ⟨m, hm, hid, o', hbec, hid'⟩
    have hmn : m = n := eq_of_key_eq NodeTypeDef.id hr.nodeIds hm hn hid
    subst hmn
    have hlast := (last_reidentifyNode_iff ho).2 hbec
    rw [← key_of_last NodeTypeDef.id hlast, hid']

/-! ## What still resolves -/

section

variable {original refined : OntologyIR} (ho : original.Indexed) (hr : refined.Indexed)

include ho hr

/-- The named properties of a node are all there after reconciliation exactly
when none of them trades its id in. -/
theorem keepsProperties_iff {n : NodeTypeDef} (hn : n ∈ refined.nodeTypes)
    {ids : List PropertyId} (hids : ∀ p ∈ ids, p ∈ n.properties.map (·.id)) :
    (∀ p ∈ ids, p ∈ (reconcileNode original n).properties.map (·.id)) ↔
      KeepsProperties original n ids := by
  have hnd := hr.nodup_propertyIds hn
  constructor
  · intro h p hp hmem
    exact (mem_reconcileNode_properties_iff ho hnd hp).1 (h p.id hmem)
  · intro h x hx
    obtain ⟨p, hp, rfl⟩ := mem_map.1 (hids x hx)
    exact (mem_reconcileNode_properties_iff ho hnd hp).2 (h p hp hx)

/-- A reference to a node and its properties survives exactly when none of them
trades its id in. -/
theorem hasNodeWith_iff
    (hnd : ((reidentify original refined).nodeTypes.map (·.id)).Nodup) {n : NodeTypeDef}
    (hn : n ∈ refined.nodeTypes) {ids : List PropertyId}
    (hids : ∀ p ∈ ids, p ∈ n.properties.map (·.id)) :
    HasNodeWith (reidentify original refined) n.id ids ↔
      ¬ NodeTradesId original n ∧ KeepsProperties original n ids := by
  have halt : ∀ m k, nodeAlt original m = some k → k ∈ original.nodeTypes.map (·.id) :=
    fun m k h => mem_map_of_alt h
  rw [nodeTradesId_iff, ← keepsProperties_iff ho hr hn hids]
  rw [reidentify_nodeIds] at hnd
  constructor
  · rintro ⟨m', hm', hid, hps⟩
    obtain ⟨m, hm, rfl⟩ := mem_map.1 hm'
    rw [reconcileNode_id, reidentifyNode_id] at hid
    have hkeep : ¬ Trades NodeTypeDef.id (original.nodeTypes.map (·.id)) (nodeAlt original) n := by
      rw [← mem_map_rekey_iff halt hr.nodeIds hn]
      exact mem_map.2 ⟨m, hm, hid⟩
    have hmn : m = n := eq_of_rekey_eq_key hnd hn hm hkeep hid
    subst hmn
    exact ⟨hkeep, hps⟩
  · rintro ⟨hkeep, hps⟩
    refine ⟨reconcileNode original n, mem_map_of_mem hn, ?_, hps⟩
    rw [reconcileNode_id, reidentifyNode_id, rekey_eq_key _ _ _ hkeep]

end

/-- The new id of a node is the id of a reconciled node. -/
theorem remapNodeId_mem (hr : refined.Indexed) {x : NodeTypeId}
    (hx : x ∈ refined.nodeTypes.map (·.id)) : remapNodeId (nodeIdRemap original refined) x ∈
      (reidentify original refined).nodeTypes.map (·.id) := by
  obtain ⟨n, hn, rfl⟩ := mem_map.1 hx
  rw [remapNodeId_eq hr hn, ← reconcileNode_id, reidentify, map_map]
  exact mem_map.2 ⟨n, hn, rfl⟩

theorem reconcileEdge_endpoints (original refined : OntologyIR) (e : EdgeTypeDef) :
    (reconcileEdge original refined e).sourceNodeId =
        remapNodeId (nodeIdRemap original refined) e.sourceNodeId ∧
      (reconcileEdge original refined e).targetNodeId =
        remapNodeId (nodeIdRemap original refined) e.targetNodeId := by
  unfold reconcileEdge reidentifyEdge
  split <;> exact ⟨rfl, rfl⟩

/-- The fallback id of a refined edge, its endpoints remapped first. -/
def remappedEdgeAlt (original refined : OntologyIR) (e : EdgeTypeDef) : Option EdgeTypeId :=
  edgeAlt original (remapEndpoints (nodeIdRemap original refined) e)

theorem reidentify_edgeIds (original refined : OntologyIR) :
    (reidentify original refined).edgeTypes.map (·.id) =
      refined.edgeTypes.map (rekey EdgeTypeDef.id (original.edgeTypes.map (·.id))
        (remappedEdgeAlt original refined)) := by
  rw [reidentify, map_map]
  exact map_congr_left fun e _ => reidentifyEdge_id original _

theorem edgeTradesId_iff (ho : original.Indexed) (hr : refined.Indexed)
    (hores : ReferencesResolve original) (hrres : ReferencesResolve refined) {e : EdgeTypeDef}
    (he : e ∈ refined.edgeTypes) : EdgeTradesId original refined e ↔
      Trades EdgeTypeDef.id (original.edgeTypes.map (·.id)) (remappedEdgeAlt original refined)
        e := by
  refine and_congr_right fun _ => ?_
  unfold remappedEdgeAlt edgeAlt
  rw [exists_alt_iff]
  refine exists_congr fun o => and_congr_right fun hmem => ?_
  rw [← remapNodeId_eq_iff ho hr (hrres.endpoints e he).1 (hores.endpoints o hmem).1,
    ← remapNodeId_eq_iff ho hr (hrres.endpoints e he).2 (hores.endpoints o hmem).2]
  simp only [remapEndpoints, Prod.mk.injEq]
  exact and_congr_right fun _ => and_congr eq_comm eq_comm

/-- The reconciled ontology has no dangling reference iff no referenced entity
trades its id in. -/
theorem reidentify_resolves_iff (ho : original.Indexed) (hr : refined.Indexed)
    (hores : ReferencesResolve original) (hrres : ReferencesResolve refined)
    (hnd : (reidentify original refined).Indexed) :
    ReferencesResolve (reidentify original refined) ↔ KeepsReferencedIds original refined := by
  have halt : ∀ e k, remappedEdgeAlt original refined e = some k →
      k ∈ original.edgeTypes.map (·.id) := fun e k h => mem_map_of_alt h
  constructor
  · intro h
    refine ⟨?_, ?_, ?_, ?_⟩
    · intro n hn c hc
      rw [← keepsProperties_iff ho hr hn (hrres.constraints n hn c hc)]
      refine h.constraints _ (mem_map_of_mem hn) c ?_
      rw [reconcileNode_constraints]
      exact hc
    · intro n hn i hi hid
      obtain ⟨m, hm, hmid, hps⟩ := hrres.indexes i hi
      obtain rfl : m = n := eq_of_key_eq NodeTypeDef.id hr.nodeIds hm hn (hmid.trans hid)
      rw [← hasNodeWith_iff ho hr hnd.nodeIds hm hps, hmid]
      exact h.indexes i hi
    · intro n hn m hm hid
      obtain ⟨n', hn', hnid, hps⟩ := hrres.objectMappings m hm
      obtain rfl : n' = n := eq_of_key_eq NodeTypeDef.id hr.nodeIds hn' hn (hnid.trans hid)
      rw [← hasNodeWith_iff ho hr hnd.nodeIds hn' hps, hnid]
      exact h.objectMappings m hm
    · intro e he m hm hid
      rw [edgeTradesId_iff ho hr hores hrres he, ← mem_map_rekey_iff halt hr.edgeIds he,
        ← reidentify_edgeIds, ← hid]
      exact h.linkMappings m hm
  · intro h
    refine ⟨?_, ?_, ?_, ?_, ?_⟩
    · intro n' hn' c hc
      obtain ⟨n, hn, rfl⟩ := mem_map.1 hn'
      rw [reconcileNode_constraints] at hc
      rw [keepsProperties_iff ho hr hn (hrres.constraints n hn c hc)]
      exact h.constraints n hn c hc
    · intro i hi
      obtain ⟨n, hn, hid, hps⟩ := hrres.indexes i hi
      rw [← hid, hasNodeWith_iff ho hr hnd.nodeIds hn hps]
      exact h.indexes n hn i hi hid.symm
    · intro e' he'
      obtain ⟨e, he, rfl⟩ := mem_map.1 he'
      rw [(reconcileEdge_endpoints original refined e).1,
        (reconcileEdge_endpoints original refined e).2]
      exact ⟨remapNodeId_mem hr (hrres.endpoints e he).1,
        remapNodeId_mem hr (hrres.endpoints e he).2⟩
    · intro m hm
      obtain ⟨n, hn, hid, hps⟩ := hrres.objectMappings m hm
      rw [← hid, hasNodeWith_iff ho hr hnd.nodeIds hn hps]
      exact h.objectMappings n hn m hm hid.symm
    · intro m hm
      obtain ⟨e, he, hid⟩ := mem_map.1 (hrres.linkMappings m hm)
      rw [← hid, reidentify_edgeIds, mem_map_rekey_iff halt hr.edgeIds he,
        ← edgeTradesId_iff ho hr hores hrres he]
      exact h.linkMappings e he m hm hid.symm

/-! ## Reconciliation and match decisions -/

/-- What reconciliation returns: the re-identified ontology, with distinct
ids. -/
theorem reconcileRefined_ontology {r : ReconcileResult}
    (h : reconcileRefined original refined = .ok r) :
    r.ontology = reidentify original refined ∧ (reidentify original refined).Indexed := by
  unfold reconcileRefined at h
  cases hix : (reidentify original refined).rebuildIndices with
  | error e =>
    simp only [hix] at h
    cases h
  | ok u =>
    simp only [hix] at h
    cases h
    exact ⟨rfl, (OntologyIR.rebuild_ok_iff _).1 hix⟩

theorem foldl_applyMatchDecision_accepted (uuid : Nat → String) (uncertain : List UncertainMatch)
    {decisions : List MatchDecision} (hacc : ∀ d ∈ decisions, d.accept = true)
    (state : OntologyIR × Nat) :
    decisions.foldl (applyMatchDecision uuid uncertain) state = state := by
  induction decisions with
  | nil => rfl
  | cons d ds ih =>
    have hd : applyMatchDecision uuid uncertain state d = state := by
      unfold applyMatchDecision
      rw [if_pos (hacc d mem_cons_self)]
    rw [foldl_cons, hd]
    exact ih fun d' hd' => hacc d' (mem_cons_of_mem _ hd')

theorem applyMatchDecisions_accepted {uuid : Nat → String} {uncertain : List UncertainMatch}
    {decisions : List MatchDecision} (hacc : ∀ d ∈ decisions, d.accept = true)
    {o o' : OntologyIR} (h : applyMatchDecisions uuid o decisions uncertain = .ok o') : o' = o := by
  unfold applyMatchDecisions at h
  rw [foldl_applyMatchDecision_accepted uuid uncertain hacc] at h
  cases hix : o.rebuildIndices with
  | error e =>
    simp only [hix] at h
    cases h
  | ok u =>
    simp only [hix] at h
    cases h
    rfl

/-- The result of a reconciliation has no dangling reference, neither as
returned nor after any accepted match decisions. -/
def ResultResolves (r : ReconcileResult) : Prop :=
  ReferencesResolve r.ontology ∧
    ∀ uuid decisions o, (∀ d ∈ decisions, d.accept = true) →
      applyMatchDecisions uuid r.ontology decisions r.report.uncertainMatches = .ok o →
      ReferencesResolve o

/-- Re-identification preserves referential integrity exactly when no node, edge
or property that is referred to trades its id in. -/
theorem reconcileRefined_resolves_iff (original refined : IndexedOntology)
    (hores : ReferencesResolve original.ir) (hrres : ReferencesResolve refined.ir)
    {r : ReconcileResult} (h : reconcileRefined original.ir refined.ir = .ok r) :
    ResultResolves r ↔ KeepsReferencedIds original.ir refined.ir := by
  obtain ⟨hont, hnd⟩ := reconcileRefined_ontology h
  rw [← reidentify_resolves_iff original.indexed refined.indexed hores hrres hnd, ← hont]
  constructor
  · exact fun hres => hres.1
  · intro hres
    refine ⟨hres, fun uuid decisions o hacc ho => ?_⟩
    rw [applyMatchDecisions_accepted hacc ho]
    exact hres

/-- A `Customer` node type under the given id, with an index on its one
property. -/
def indexedNode (id : String) : IndexedOntology where
  ir :=
    { id := "o"
      name := "shop"
      nodeTypes :=
        [{ id := ⟨id⟩
           label := ⟨"Customer", .refl true⟩
           properties := [{ id := ⟨"p"⟩, name := ⟨"name", by decide⟩, propertyType := .string }] }]
      indexes := [.single "i" ⟨id⟩ ⟨"p"⟩] }
  indexed := (OntologyIR.rebuild_ok_iff _).1 rfl

theorem indexedNode_resolves (id : String) : ReferencesResolve (indexedNode id).ir := by
  refine ⟨?_, ?_, ?_, ?_, ?_⟩
  · intro n hn c hc
    obtain rfl := mem_singleton.1 hn
    cases hc
  · intro i hi
    obtain rfl := mem_singleton.1 hi
    exact ⟨_, mem_singleton_self _, rfl, fun p hp => hp⟩
  · intro e he
    cases he
  · intro m hm
    cases hm
  · intro m hm
    cases hm

/-- Reconciling an ontology with itself keeps its references. -/
theorem reconcileRefined_resolves_self :
    ∃ r, reconcileRefined (indexedNode "customer").ir (indexedNode "customer").ir = .ok r ∧
      (ResultResolves r ↔
        KeepsReferencedIds (indexedNode "customer").ir (indexedNode "customer").ir) :=
  ⟨_, rfl, reconcileRefined_resolves_iff (indexedNode "customer") (indexedNode "customer")
    (indexedNode_resolves "customer") (indexedNode_resolves "customer") rfl⟩

/-- The refined node lost its id and is matched by label: the index keeps the
id that the refined ontology had given it, and no node has it any more. -/
theorem reconcileRefined_leaves_index_dangling :
    ReferencesResolve (indexedNode "customer").ir ∧ ReferencesResolve (indexedNode "n1").ir ∧
      ∃ r, reconcileRefined (indexedNode "customer").ir (indexedNode "n1").ir = .ok r ∧
        ¬ ResultResolves r := by
  refine ⟨indexedNode_resolves _, indexedNode_resolves _, _, rfl, ?_⟩
  rintro ⟨hres, -⟩
  obtain ⟨n, hn, hid, -⟩ := hres.indexes (.single "i" ⟨"n1"⟩ ⟨"p"⟩) (mem_singleton_self _)
  obtain rfl := mem_singleton.1 hn
  exact absurd hid (by decide)

end Ontosyx.Command
