import Ontosyx.Command.ReconcileIntegrity
import Ontosyx.Ontology.Validation

/-!
# Extending a draft

`extend_ontology_draft` from the design of the new source on: the design is
reconciled with the existing ontology and the result is stored.  The reconciler
takes its second argument for the whole of a refined ontology, so an entity that
the design does not repeat is gone.
-/

namespace Ontosyx.Command

open List Ontosyx.Core Ontology Lib.Keyed Lib.Rekey Or

/-- `extend_ontology_draft`, from the new design to the stored ontology. -/
def extendOntologyDraft (existing new : OntologyIR) : Except OntologyInvariantError OntologyIR :=
  (reconcileRefined existing new).map (·.ontology)

/-! ## What an extension keeps -/

/-- Every entry of a collection other than the types is there unchanged. -/
structure CollectionsKept (o o' : OntologyIR) : Prop where
  indexes : o.indexes ⊆ o'.indexes
  interfaces : o.interfaces ⊆ o'.interfaces
  rules : o.rules ⊆ o'.rules
  actions : o.actions ⊆ o'.actions
  functions : o.functions ⊆ o'.functions
  metrics : o.metrics ⊆ o'.metrics
  enrichments : o.enrichments ⊆ o'.enrichments
  concepts : o.concepts ⊆ o'.concepts
  glossary : o.glossary ⊆ o'.glossary
  dataQuality : o.dataQuality ⊆ o'.dataQuality
  provenance : o.provenance ⊆ o'.provenance
  objectMappings : o.objectMappings ⊆ o'.objectMappings
  linkMappings : o.linkMappings ⊆ o'.linkMappings
  codeSystems : o.codeSystems ⊆ o'.codeSystems
  valueSets : o.valueSets ⊆ o'.valueSets
  notationPatterns : o.notationPatterns ⊆ o'.notationPatterns
  conceptMaps : o.conceptMaps ⊆ o'.conceptMaps
  valueRangeSets : o.valueRangeSets ⊆ o'.valueRangeSets
  columnProfiles : o.columnProfiles ⊆ o'.columnProfiles
  segments : o.segments ⊆ o'.segments
  tableInventory : o.tableInventory ⊆ o'.tableInventory

/-- Two properties that differ in the id at most. -/
def SameProperty (p q : PropertyDef) : Prop := { q with id := p.id } = p

/-- A node of the design is there as itself or under the id of the node it was matched to. -/
def NodePresent (existing : OntologyIR) (m r : NodeTypeDef) : Prop :=
  { r with id := m.id, properties := m.properties } = m ∧
    Forall₂ SameProperty m.properties r.properties ∧
    (r.id = m.id ∨ ∃ o, NodeBecomes existing m o ∧ r.id = o.id)

/-- The node id of the design that is kept or given up for that of the matched node. -/
def StandsFor (existing new : OntologyIR) (x y : NodeTypeId) : Prop :=
  EndpointBecomes existing new x y ∨
    x = y ∧ ∀ m ∈ new.nodeTypes, m.id = x → ¬NodeTradesId existing m

/-- An edge of the design is there as itself or under the id of the edge it was matched to,
between the nodes that its ends stand for. -/
def EdgePresent (existing new : OntologyIR) (m r : EdgeTypeDef) : Prop :=
  { r with
      id := m.id
      sourceNodeId := m.sourceNodeId
      targetNodeId := m.targetNodeId
      properties := m.properties } = m ∧
    StandsFor existing new m.sourceNodeId r.sourceNodeId ∧
    StandsFor existing new m.targetNodeId r.targetNodeId ∧
    Forall₂ SameProperty m.properties r.properties ∧
    (r.id = m.id ∨ ∃ o ∈ existing.edgeTypes, o.signature = r.signature ∧ r.id = o.id)

/-- The merged ontology keeps the existing one and holds the new design. -/
structure Extends (existing new merged : OntologyIR) : Prop where
  nodes : existing.nodeTypes ⊆ merged.nodeTypes
  edges : existing.edgeTypes ⊆ merged.edgeTypes
  collections : CollectionsKept existing merged
  newNodes : ∀ m ∈ new.nodeTypes, ∃ r ∈ merged.nodeTypes, NodePresent existing m r
  newEdges : ∀ m ∈ new.edgeTypes, ∃ r ∈ merged.edgeTypes, EdgePresent existing new m r
  newCollections : CollectionsKept new merged

/-- A property of the design that repeats one of an existing owner: under its id, or under an
unknown id and with a name that leads to the id. -/
def RepeatsProperty (originals : List PropertyDef) (p q : PropertyDef) : Prop :=
  SameProperty p q ∧
    (q.id = p.id ∨
      q.id ∉ originals.map (·.id) ∧ (last (·.name) q.name originals).map (·.id) = some p.id)

def RepeatsNode (existing : OntologyIR) (n m : NodeTypeDef) : Prop :=
  { m with id := n.id, properties := n.properties } = n ∧ NodeBecomes existing m n ∧
    Forall₂ (RepeatsProperty n.properties) n.properties m.properties

/-- An edge of the design that repeats an existing one: under its id, or under an unknown id
with its label and between the nodes that its ends stand for. -/
def RepeatsEdge (existing new : OntologyIR) (e f : EdgeTypeDef) : Prop :=
  { f with
      id := e.id
      sourceNodeId := e.sourceNodeId
      targetNodeId := e.targetNodeId
      properties := e.properties } = e ∧
    StandsFor existing new f.sourceNodeId e.sourceNodeId ∧
    StandsFor existing new f.targetNodeId e.targetNodeId ∧
    (f.id = e.id ∨ f.id ∉ existing.edgeTypes.map (·.id) ∧
      (last EdgeTypeDef.signature e.signature existing.edgeTypes).map (·.id) = some e.id) ∧
    Forall₂ (RepeatsProperty e.properties) e.properties f.properties

structure DesignRepeats (existing new : OntologyIR) : Prop where
  nodes : ∀ n ∈ existing.nodeTypes, ∃ m ∈ new.nodeTypes, RepeatsNode existing n m
  edges : ∀ e ∈ existing.edgeTypes, ∃ f ∈ new.edgeTypes, RepeatsEdge existing new e f
  collections : CollectionsKept existing new

/-! ## Properties -/

theorem reidentifyProperty_eq (originals : List PropertyDef) (q : PropertyDef) :
    reidentifyProperty originals q = { q with id := (reidentifyProperty originals q).id } := by
  unfold reidentifyProperty
  split <;> rfl

theorem sameProperty_reidentify (originals : List PropertyDef) (q : PropertyDef) :
    SameProperty q (reidentifyProperty originals q) := by
  rw [SameProperty, reidentifyProperty_eq]

/-- The design's property turns into the existing one exactly when it repeats it. -/
theorem reidentifyProperty_eq_iff {originals : List PropertyDef} {p : PropertyDef}
    (hp : p ∈ originals) (q : PropertyDef) :
    reidentifyProperty originals q = p ↔ RepeatsProperty originals p q := by
  have hid : (reidentifyProperty originals q).id = p.id ↔ q.id = p.id ∨
      q.id ∉ originals.map (·.id) ∧ (last (·.name) q.name originals).map (·.id) = some p.id := by
    rw [reidentifyProperty_id]
    exact rekey_eq_iff (mem_map_of_mem hp)
  rw [RepeatsProperty, ← hid]
  constructor
  · intro h
    refine ⟨?_, by rw [h]⟩
    rw [SameProperty]
    nth_rewrite 2 [← h]
    rw [reidentifyProperty_eq, h]
  · rintro ⟨hsame, hid⟩
    rw [reidentifyProperty_eq, hid]
    exact hsame

theorem map_reidentify_iff {originals ps : List PropertyDef} (hps : ps ⊆ originals)
    (qs : List PropertyDef) : qs.map (reidentifyProperty originals) = ps ↔
      Forall₂ (RepeatsProperty originals) ps qs := by
  induction ps generalizing qs with
  | nil => simp
  | cons p ps ih =>
    obtain ⟨hp, hps⟩ := cons_subset.1 hps
    cases qs with
    | nil => simp
    | cons q qs =>
      rw [map_cons, cons.injEq, forall₂_cons, reidentifyProperty_eq_iff hp, ih hps]

/-- Re-identified properties differ from the design's in their ids at most. -/
theorem forall₂_reidentifyProperties (originals : Option (List PropertyDef))
    (qs : List PropertyDef) : Forall₂ SameProperty qs (reidentifyProperties originals qs) := by
  cases originals with
  | none => exact forall₂_same.2 fun _ _ => rfl
  | some os =>
    refine forall₂_map_right_iff.2 (forall₂_same.2 fun q _ => ?_)
    exact sameProperty_reidentify os q

theorem reconcileNode_eq (existing : OntologyIR) (m : NodeTypeDef) :
    reconcileNode existing m =
      { m with
        id := (reidentifyNode existing m).id
        properties := reidentifyProperties
          ((last (·.id) (reidentifyNode existing m).id existing.nodeTypes).map (·.properties))
          m.properties } := by
  unfold reconcileNode reidentifyNode
  split <;> rfl

variable {existing : OntologyIR}

/-- The design's node turns into the existing one exactly when it repeats it. -/
theorem reconcileNode_eq_iff (ho : existing.Indexed) {n : NodeTypeDef}
    (hn : n ∈ existing.nodeTypes) (m : NodeTypeDef) :
    reconcileNode existing m = n ↔ RepeatsNode existing n m := by
  have hlast := last_reidentifyNode_iff ho (n := m) (o := n)
  constructor
  · intro h
    have hid : (reidentifyNode existing m).id = n.id := by
      rw [← reconcileNode_id, h]
    have hown : last (·.id) (reidentifyNode existing m).id existing.nodeTypes = some n :=
      (last_some_iff NodeTypeDef.id ho.nodeIds).2 ⟨hn, hid.symm⟩
    have hproperties : m.properties.map (reidentifyProperty n.properties) = n.properties := by
      have hps := congrArg NodeTypeDef.properties h
      rw [reconcileNode_eq, hown] at hps
      exact hps
    rw [reconcileNode_eq, hown, hid, Option.map_some, reidentifyProperties, hproperties] at h
    exact ⟨h, hlast.1 hown, (map_reidentify_iff (Subset.refl _) _).1 hproperties⟩
  · rintro ⟨hsame, hbecomes, hproperties⟩
    have hown := hlast.2 hbecomes
    have hid : n.id = (reidentifyNode existing m).id := key_of_last NodeTypeDef.id hown
    rw [reconcileNode_eq, hown, Option.map_some, reidentifyProperties,
      (map_reidentify_iff (Subset.refl _) _).2 hproperties, ← hid]
    exact hsame

/-- A node of the design takes the id of the node it was matched to, or keeps its own. -/
theorem reidentifyNode_id_cases (ho : existing.Indexed) (m : NodeTypeDef) :
    (∃ o, NodeBecomes existing m o ∧ (reidentifyNode existing m).id = o.id) ∨
      ¬NodeTradesId existing m ∧ (reidentifyNode existing m).id = m.id := by
  cases hown : last (·.id) (reidentifyNode existing m).id existing.nodeTypes with
  | some o =>
    exact inl ⟨o, (last_reidentifyNode_iff ho).1 hown,
      (key_of_last NodeTypeDef.id hown).symm⟩
  | none =>
    -- an id that no existing node has is not one that was given
    have hkeep : ¬NodeTradesId existing m := by
      intro htrades
      rw [nodeTradesId_iff] at htrades
      have hmem := rekey_mem_known NodeTypeDef.id _ (nodeAlt existing)
        (fun x k h => by
          obtain ⟨o, ho, rfl⟩ := Option.map_eq_some_iff.1 h
          exact mem_map_of_mem (mem_of_last _ ho)) htrades
      rw [← reidentifyNode_id] at hmem
      exact (last_none_iff NodeTypeDef.id).1 hown hmem
    refine inr ⟨hkeep, ?_⟩
    rw [nodeTradesId_iff] at hkeep
    rw [reidentifyNode_id, rekey_eq_key _ _ _ hkeep]

/-- A node of the design is there after reconciliation. -/
theorem nodePresent_reconcileNode (ho : existing.Indexed) (m : NodeTypeDef) : NodePresent existing m
    (reconcileNode existing m) := by
  refine ⟨by rw [reconcileNode_eq], ?_, ?_⟩
  · rw [reconcileNode_eq]
    exact forall₂_reidentifyProperties _ _
  · rw [reconcileNode_id]
    rcases reidentifyNode_id_cases ho m with hmatched | ⟨-, hown⟩
    · exact inr hmatched
    · exact inl hown

/-! ## Edges -/

variable {new : OntologyIR}

/-- The remapped end of an edge is the node id that the end stands for. -/
theorem remapNodeId_eq_iff_standsFor (ho : existing.Indexed) (hn : new.Indexed) (x y : NodeTypeId) :
    remapNodeId (nodeIdRemap existing new) x = y ↔ StandsFor existing new x y := by
  by_cases hx : x ∈ new.nodeTypes.map (·.id)
  · obtain ⟨m, hm, rfl⟩ := mem_map.1 hx
    have honly : ∀ m' ∈ new.nodeTypes, m'.id = m.id → m' = m := fun m' hm' hid =>
      eq_of_key_eq NodeTypeDef.id hn.nodeIds hm' hm hid
    rw [remapNodeId_eq hn hm]
    constructor
    · rintro rfl
      rcases reidentifyNode_id_cases ho m with ⟨o, hbecomes, hid⟩ | ⟨hkeep, hid⟩
      · exact inl ⟨m, hm, rfl, o, hbecomes, hid.symm⟩
      · exact inr ⟨hid.symm, fun m' hm' heq => honly m' hm' heq ▸ hkeep⟩
    · rintro (⟨m', hm', heq, o, hbecomes, rfl⟩ | ⟨rfl, hkeep⟩)
      · obtain rfl := honly m' hm' heq
        exact (key_of_last NodeTypeDef.id ((last_reidentifyNode_iff ho).2 hbecomes)).symm
      · have hown := hkeep m hm rfl
        rw [nodeTradesId_iff] at hown
        rw [reidentifyNode_id, rekey_eq_key _ _ _ hown]
  · have hself : remapNodeId (nodeIdRemap existing new) x = x := by
      have hnone : x ∉ (nodeIdRemap existing new).map Prod.fst := by
        intro hmem
        obtain ⟨entry, hentry, rfl⟩ := mem_map.1 hmem
        obtain ⟨m, hm, hentry⟩ := mem_filterMap.1 hentry
        split at hentry
        · obtain rfl := Option.some.inj hentry
          exact hx (mem_map_of_mem hm)
        · cases hentry
      rw [remapNodeId, (last_none_iff Prod.fst).2 hnone]
      rfl
    rw [hself]
    constructor
    · rintro rfl
      exact inr ⟨rfl, fun m hm heq => absurd (heq ▸ mem_map_of_mem hm) hx⟩
    · rintro (⟨m, hm, rfl, -⟩ | ⟨rfl, -⟩)
      · exact absurd (mem_map_of_mem hm) hx
      · rfl

theorem reconcileEdge_eq (existing new : OntologyIR) (f : EdgeTypeDef) :
    reconcileEdge existing new f =
      { f with
        id := (reidentifyEdge existing (remapEndpoints (nodeIdRemap existing new) f)).id
        sourceNodeId := remapNodeId (nodeIdRemap existing new) f.sourceNodeId
        targetNodeId := remapNodeId (nodeIdRemap existing new) f.targetNodeId
        properties := reidentifyProperties
          ((last (·.id) (reidentifyEdge existing (remapEndpoints (nodeIdRemap existing new) f)).id
            existing.edgeTypes).map (·.properties)) f.properties } := by
  unfold reconcileEdge reidentifyEdge
  split <;> rfl

/-- The design's edge turns into the existing one exactly when it repeats it. -/
theorem reconcileEdge_eq_iff (ho : existing.Indexed) (hn : new.Indexed) {e : EdgeTypeDef}
    (he : e ∈ existing.edgeTypes) (f : EdgeTypeDef) :
    reconcileEdge existing new f = e ↔ RepeatsEdge existing new e f := by
  have hlast : last (·.id) e.id existing.edgeTypes = some e :=
    (last_some_iff EdgeTypeDef.id ho.edgeIds).2 ⟨he, rfl⟩
  have hids (g : EdgeTypeDef) (hsig : g.signature = e.signature) :
      (reidentifyEdge existing g).id = e.id ↔ g.id = e.id ∨ g.id ∉ existing.edgeTypes.map (·.id) ∧
        (last EdgeTypeDef.signature e.signature existing.edgeTypes).map (·.id) = some e.id := by
    rw [reidentifyEdge_id, ← hsig]
    exact rekey_eq_iff (mem_map_of_mem he)
  constructor
  · intro h
    have hsource : remapNodeId (nodeIdRemap existing new) f.sourceNodeId = e.sourceNodeId := by
      rw [← (reconcileEdge_endpoints existing new f).1, h]
    have htarget : remapNodeId (nodeIdRemap existing new) f.targetNodeId = e.targetNodeId := by
      rw [← (reconcileEdge_endpoints existing new f).2, h]
    rw [reconcileEdge_eq, hsource, htarget] at h
    have hid : (reidentifyEdge existing (remapEndpoints (nodeIdRemap existing new) f)).id = e.id :=
      (congrArg EdgeTypeDef.id h :)
    have hlabel : f.label = e.label := (congrArg EdgeTypeDef.label h :)
    have hproperties : f.properties.map (reidentifyProperty e.properties) = e.properties := by
      have hps := congrArg EdgeTypeDef.properties h
      rw [hid, hlast] at hps
      exact hps
    rw [hid, hlast, Option.map_some, reidentifyProperties, hproperties] at h
    refine ⟨h, (remapNodeId_eq_iff_standsFor ho hn _ _).1 hsource,
      (remapNodeId_eq_iff_standsFor ho hn _ _).1 htarget, ?_,
      (map_reidentify_iff (Subset.refl _) _).1 hproperties⟩
    refine (hids (remapEndpoints (nodeIdRemap existing new) f) ?_).1 hid
    rw [EdgeTypeDef.signature, EdgeTypeDef.signature, remapEndpoints, hsource, htarget, hlabel]
  · rintro ⟨hsame, hsource, htarget, hid, hproperties⟩
    rw [← remapNodeId_eq_iff_standsFor ho hn] at hsource htarget
    have hlabel : f.label = e.label := (congrArg EdgeTypeDef.label hsame :)
    have hsig : (remapEndpoints (nodeIdRemap existing new) f).signature = e.signature := by
      rw [EdgeTypeDef.signature, EdgeTypeDef.signature, remapEndpoints, hsource, htarget, hlabel]
    have hown := (hids _ hsig).2 hid
    rw [reconcileEdge_eq, hsource, htarget, hown, hlast, Option.map_some, reidentifyProperties,
      (map_reidentify_iff (Subset.refl _) _).2 hproperties]
    exact hsame

/-- An edge takes the id of the edge with its signature, or keeps its own. -/
theorem reidentifyEdge_id_cases (existing : OntologyIR) (g : EdgeTypeDef) :
    (reidentifyEdge existing g).id = g.id ∨ ∃ o ∈ existing.edgeTypes, o.signature = g.signature ∧
        (reidentifyEdge existing g).id = o.id := by
  rw [reidentifyEdge_id, rekey]
  split
  · exact inl rfl
  · rw [edgeAlt]
    cases hfound : last (fun e : EdgeTypeDef => (e.label, e.sourceNodeId, e.targetNodeId))
        (g.label, g.sourceNodeId, g.targetNodeId) existing.edgeTypes with
    | none => exact inl rfl
    | some o =>
      exact inr ⟨o, mem_of_last _ hfound, key_of_last _ hfound, rfl⟩

/-- An edge of the design is there after reconciliation. -/
theorem edgePresent_reconcileEdge (ho : existing.Indexed) (hn : new.Indexed) (m : EdgeTypeDef) :
    EdgePresent existing new m (reconcileEdge existing new m) := by
  refine ⟨by rw [reconcileEdge_eq], ?_, ?_, ?_, ?_⟩
  · rw [← remapNodeId_eq_iff_standsFor ho hn, (reconcileEdge_endpoints existing new m).1]
  · rw [← remapNodeId_eq_iff_standsFor ho hn, (reconcileEdge_endpoints existing new m).2]
  · rw [reconcileEdge_eq]
    exact forall₂_reidentifyProperties _ _
  · rcases reidentifyEdge_id_cases existing (remapEndpoints (nodeIdRemap existing new) m) with
      hown | ⟨o, ho, hsig, hid⟩
    · exact inl (by rw [reconcileEdge_eq, hown]; rfl)
    · refine inr ⟨o, ho, ?_, by rw [reconcileEdge_eq, hid]⟩
      rw [hsig, reconcileEdge_eq]
      rfl

theorem extendOntologyDraft_eq {merged : OntologyIR}
    (h : extendOntologyDraft existing new = .ok merged) : merged = reidentify existing new := by
  rw [extendOntologyDraft] at h
  cases hr : reconcileRefined existing new with
  | error err =>
    rw [hr] at h
    cases h
  | ok r =>
    rw [hr] at h
    obtain rfl := Except.ok.inj h
    exact (reconcileRefined_ontology hr).1

/-- Re-identification leaves the other collections of the design alone. -/
theorem collectionsKept_iff (o existing new : OntologyIR) :
    CollectionsKept o (reidentify existing new) ↔ CollectionsKept o new :=
  ⟨fun ⟨h₁, h₂, h₃, h₄, h₅, h₆, h₇, h₈, h₉, h₁₀, h₁₁, h₁₂, h₁₃, h₁₄, h₁₅, h₁₆, h₁₇, h₁₈, h₁₉,
      h₂₀, h₂₁⟩ =>
    ⟨h₁, h₂, h₃, h₄, h₅, h₆, h₇, h₈, h₉, h₁₀, h₁₁, h₁₂, h₁₃, h₁₄, h₁₅, h₁₆, h₁₇, h₁₈, h₁₉, h₂₀,
      h₂₁⟩,
   fun ⟨h₁, h₂, h₃, h₄, h₅, h₆, h₇, h₈, h₉, h₁₀, h₁₁, h₁₂, h₁₃, h₁₄, h₁₅, h₁₆, h₁₇, h₁₈, h₁₉,
      h₂₀, h₂₁⟩ =>
    ⟨h₁, h₂, h₃, h₄, h₅, h₆, h₇, h₈, h₉, h₁₀, h₁₁, h₁₂, h₁₃, h₁₄, h₁₅, h₁₆, h₁₇, h₁₈, h₁₉, h₂₀,
      h₂₁⟩⟩

theorem collectionsKept_refl (o : OntologyIR) : CollectionsKept o o := by
  constructor <;> exact Subset.refl _

/-- The stored ontology keeps the existing one exactly when the design repeats it. -/
theorem extends_iff (existing new : IndexedOntology) {merged : OntologyIR}
    (h : extendOntologyDraft existing.ir new.ir = .ok merged) :
    Extends existing.ir new.ir merged ↔ DesignRepeats existing.ir new.ir := by
  obtain rfl := extendOntologyDraft_eq h
  constructor
  · intro hext
    refine ⟨fun n hn => ?_, fun e he => ?_,
      (collectionsKept_iff _ _ _).1 hext.collections⟩
    · obtain ⟨m, hm, heq⟩ := mem_map.1 (hext.nodes hn)
      exact ⟨m, hm, (reconcileNode_eq_iff existing.indexed hn m).1 heq⟩
    · obtain ⟨f, hf, heq⟩ := mem_map.1 (hext.edges he)
      exact ⟨f, hf, (reconcileEdge_eq_iff existing.indexed new.indexed he f).1 heq⟩
  · intro hrep
    refine
      { nodes := fun n hn => ?_
        edges := fun e he => ?_
        collections := (collectionsKept_iff _ _ _).2 hrep.collections
        newNodes := fun m hm => ?_
        newEdges := fun m hm => ?_
        newCollections := (collectionsKept_iff _ _ _).2 (collectionsKept_refl _) }
    · obtain ⟨m, hm, hrepeats⟩ := hrep.nodes n hn
      exact mem_map.2 ⟨m, hm, (reconcileNode_eq_iff existing.indexed hn m).2 hrepeats⟩
    · obtain ⟨f, hf, hrepeats⟩ := hrep.edges e he
      exact mem_map.2
        ⟨f, hf, (reconcileEdge_eq_iff existing.indexed new.indexed he f).2 hrepeats⟩
    · exact ⟨_, mem_map_of_mem hm, nodePresent_reconcileNode existing.indexed m⟩
    · exact ⟨_, mem_map_of_mem hm, edgePresent_reconcileEdge existing.indexed new.indexed m⟩

def oneNode (id : String) (label : GraphLabel) : IndexedOntology where
  ir := { id := "o", name := "shop", nodeTypes := [{ id := ⟨id⟩, label := label }] }
  indexed := (OntologyIR.rebuild_ok_iff _).1 (by rfl)

/-- A design that repeats the only node is stored with it. -/
theorem extends_repeated : ∃ merged,
    extendOntologyDraft (oneNode "customer" ⟨"Customer", by decide⟩).ir
      (oneNode "n1" ⟨"Customer", by decide⟩).ir = .ok merged ∧
    (Extends (oneNode "customer" ⟨"Customer", by decide⟩).ir
        (oneNode "n1" ⟨"Customer", by decide⟩).ir merged ↔
      DesignRepeats (oneNode "customer" ⟨"Customer", by decide⟩).ir
        (oneNode "n1" ⟨"Customer", by decide⟩).ir) :=
  ⟨_, rfl, extends_iff (oneNode "customer" ⟨"Customer", by decide⟩)
    (oneNode "n1" ⟨"Customer", by decide⟩) rfl⟩

/-- A design for orders, asked not to repeat the customers, is stored without them. -/
theorem customer_lost : ∃ merged,
    extendOntologyDraft (oneNode "customer" ⟨"Customer", by decide⟩).ir
      (oneNode "order" ⟨"Order", by decide⟩).ir = .ok merged ∧
    ¬Extends (oneNode "customer" ⟨"Customer", by decide⟩).ir
      (oneNode "order" ⟨"Order", by decide⟩).ir merged := by
  refine ⟨_, rfl, fun h => ?_⟩
  have hmem := mem_map_of_mem (f := fun n => n.id.val) (h.nodes (.head _))
  revert hmem
  decide

end Ontosyx.Command
