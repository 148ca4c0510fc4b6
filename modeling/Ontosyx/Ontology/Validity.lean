import Ontosyx.Ontology.References

/-!
# What validation guarantees

The diagnostics of `validate` taken apart: an ontology passes when each of its
checks passes (`Clean`), and a list that passes the loop over it has distinct
names, resolved ends and non-empty references.

## Main results

* `validate_nil_iff` — `validate` reports nothing exactly on clean
  ontologies.
-/

namespace Ontosyx.Ontology

open List Ontosyx.Core Lib.Keyed

namespace OntologyIR

/-- Every check of `validate` passes. -/
structure Clean (o : OntologyIR) : Prop where
  id : isBlank o.id = false
  name : isBlank o.name = false
  content : o.hasContent = true
  nodes : validateNodes [] [] o.nodeTypes = []
  edges : validateEdges o.seenNodeIds [] o.edgeTypes = []
  nodeReferences : ∀ n ∈ o.nodeTypes, o.validateNodeReferences n = []
  rules : ∀ r ∈ o.rules, o.validateRule r = []
  actions : ∀ a ∈ o.actions, o.validateAction a = []
  objectMappings : ∀ om ∈ o.objectMappings,
    validateObjectMapping (o.conceptMaps.map (·.id)) o.nodeTypes om = []
  linkMappings : ∀ lm ∈ o.linkMappings, validateLinkMapping (o.edgeTypes.map (·.id)) lm = []
  indexes : ∀ idx ∈ o.indexes, validateIndex o.nodeTypes idx = []
  dangling : o.danglingReferences = []
  inventory : ∀ e ∈ o.tableInventory, o.validateInventoryEntry e = []
  glossary : o.validateGlossary = []
  bindingKinds : ∀ n ∈ o.nodeTypes, ∀ p ∈ n.properties, validateBindingKinds n.label.val p = []
  nodeConcepts : ∀ n ∈ o.nodeTypes, o.validateNodeConcepts n = []
  edgeConcepts : ∀ e ∈ o.edgeTypes, o.validateEdgeConcepts e = []
  segments : ∀ seg ∈ o.segments, o.validateSegment seg = []

/-- `validate` reports nothing exactly on clean ontologies. -/
theorem validate_nil_iff (o : OntologyIR) : o.validate = [] ↔ o.Clean := by
  unfold validate validateInternal
  simp only [Option.toList_none, flatMap_nil, nil_append, append_eq_nil_iff, reportIf_nil_iff,
    flatMap_eq_nil_iff, renderDangling_nil_iff, Bool.not_eq_true, Bool.not_eq_false]
  constructor
  · intro h
    obtain ⟨⟨⟨⟨⟨⟨⟨⟨⟨⟨⟨⟨⟨⟨⟨⟨⟨hid, hname⟩, hcontent⟩, hnodes⟩, hedges⟩, hrefs⟩, hrules⟩, hactions⟩,
      hom⟩, hlm⟩, hidx⟩, hdangling⟩, hinv⟩, hglossary⟩, hkinds⟩, hnc⟩, hec⟩, hseg⟩ := h
    exact ⟨hid, hname, hcontent, hnodes, hedges, hrefs, hrules, hactions, hom, hlm, hidx,
      hdangling, hinv, hglossary, hkinds, hnc, hec, hseg⟩
  · intro h
    exact ⟨⟨⟨⟨⟨⟨⟨⟨⟨⟨⟨⟨⟨⟨⟨⟨⟨h.id, h.name⟩, h.content⟩, h.nodes⟩, h.edges⟩, h.nodeReferences⟩,
      h.rules⟩, h.actions⟩, h.objectMappings⟩, h.linkMappings⟩, h.indexes⟩, h.dangling⟩,
      h.inventory⟩, h.glossary⟩, h.bindingKinds⟩, h.nodeConcepts⟩, h.edgeConcepts⟩, h.segments⟩

end OntologyIR

/-- A list of properties that passes validation has distinct names. -/
theorem nodup_of_validatePropertyDefs {kind label : String} (ps : List PropertyDef) :
    ∀ {ids : List PropertyId} {names : List PropertyKey},
      validatePropertyDefs kind label ids names ps = [] →
        (ps.map (·.name)).Nodup ∧ ∀ p ∈ ps, p.name ∉ names := by
  induction ps with
  | nil => exact fun _ => ⟨nodup_nil, fun _ hp => absurd hp not_mem_nil⟩
  | cons p ps ih =>
    intro ids names h
    unfold validatePropertyDefs at h
    simp only [append_eq_nil_iff] at h
    by_cases hplace : p.name.val = labelPlaceholder
    · rw [if_pos hplace] at h
      simp at h
    · rw [if_neg hplace] at h
      simp only [append_eq_nil_iff, reportIf_nil_iff] at h
      obtain ⟨-, ⟨hname, -⟩, hrest⟩ := h
      obtain ⟨hnd, hfresh⟩ := ih hrest
      constructor
      · refine nodup_cons.2 ⟨?_, hnd⟩
        intro hmem
        obtain ⟨q, hq, hqp⟩ := mem_map.1 hmem
        exact hfresh q hq (hqp ▸ mem_cons_self ..)
      · exact forall_mem_cons.2 ⟨hname, fun q hq hmem =>
          hfresh q hq (mem_cons_of_mem _ hmem)⟩

/-- The node loop checks the properties and the constraints of each node. -/
theorem validate_of_validateNodes (ts : List NodeTypeDef) :
    ∀ {ids : List NodeTypeId} {labels : List GraphLabel}, validateNodes ids labels ts = [] →
      ∀ t ∈ ts, validatePropertyDefs "Node" t.label.val [] [] t.properties = [] ∧
        ∀ c ∈ t.constraints, validateConstraint t c = [] := by
  induction ts with
  | nil => exact fun _ _ ht => absurd ht not_mem_nil
  | cons t ts ih =>
    intro ids labels h
    unfold validateNodes at h
    simp only [append_eq_nil_iff] at h
    by_cases hplace : t.label.val = labelPlaceholder
    · rw [if_pos hplace] at h
      simp at h
    · rw [if_neg hplace] at h
      simp only [append_eq_nil_iff, flatMap_eq_nil_iff] at h
      obtain ⟨-, ⟨⟨-, hprops⟩, hconstraints⟩, hrest⟩ := h
      exact forall_mem_cons.2 ⟨⟨hprops, hconstraints⟩, ih hrest⟩

def NodeConstraint.properties : NodeConstraint → List PropertyId
  | .unique propertyIds | .nodeKey propertyIds => propertyIds
  | .exists_ propertyId => [propertyId]

/-- A constraint that passes its check holds a property. -/
theorem properties_ne_nil_of_validateConstraint {n : NodeTypeDef} {c : ConstraintDef}
    (h : validateConstraint n c = []) : c.constraint.properties ≠ [] := by
  have hfields (ids : List PropertyId) (name : String) (required : Bool)
      (hids : validateConstraintFields n ids name required = []) : ids ≠ [] := by
    intro hnil
    rw [hnil, validateConstraintFields, if_pos rfl] at hids
    simp at hids
  unfold validateConstraint at h
  cases hc : c.constraint with
  | unique ids | nodeKey ids =>
    rw [hc] at h
    exact hfields ids _ _ (append_eq_nil_iff.1 h).2
  | exists_ id => simp [NodeConstraint.properties]

/-- The edge loop checks that both ends of an edge are nodes. -/
theorem ends_of_validateEdges {nodeIds : List NodeTypeId} (es : List EdgeTypeDef) :
    ∀ {seen : List (GraphLabel × NodeTypeId × NodeTypeId)}, validateEdges nodeIds seen es = [] →
      ∀ e ∈ es, e.sourceNodeId ∈ nodeIds ∧ e.targetNodeId ∈ nodeIds := by
  induction es with
  | nil => exact fun _ _ he => absurd he not_mem_nil
  | cons e es ih =>
    intro seen h
    unfold validateEdges at h
    simp only [append_eq_nil_iff] at h
    by_cases hplace : e.label.val = labelPlaceholder
    · rw [if_pos hplace] at h
      simp at h
    · rw [if_neg hplace] at h
      simp only [validateEdge, append_eq_nil_iff, reportIf_nil_iff, not_not] at h
      obtain ⟨-, ⟨-, ⟨-, hsource⟩, htarget⟩, hrest⟩ := h
      exact forall_mem_cons.2 ⟨⟨hsource, htarget⟩, ih hrest⟩

theorem OntologyIR.Clean.ends_mem {o : OntologyIR} (h : o.Clean) {e : EdgeTypeDef}
    (he : e ∈ o.edgeTypes) :
    e.sourceNodeId ∈ o.nodeTypes.map (·.id) ∧ e.targetNodeId ∈ o.nodeTypes.map (·.id) := by
  obtain ⟨hsource, htarget⟩ := ends_of_validateEdges _ h.edges e he
  exact ⟨mem_of_mem_filter hsource, mem_of_mem_filter htarget⟩

def IndexDef.nodeId : IndexDef → NodeTypeId
  | .single _ nodeId _ | .composite _ nodeId _ | .fullText _ _ nodeId _
  | .vector _ nodeId _ _ _ => nodeId

def IndexDef.properties : IndexDef → List PropertyId
  | .single _ _ propertyId | .vector _ _ propertyId _ _ => [propertyId]
  | .composite _ _ propertyIds | .fullText _ _ _ propertyIds => propertyIds

/-- An index that passes its check is on a node and holds a property. -/
theorem target_of_validateIndex {ns : List NodeTypeDef} {idx : IndexDef}
    (h : validateIndex ns idx = []) : idx.nodeId ∈ ns.map (·.id) ∧ idx.properties ≠ [] := by
  have htarget (nodeId : NodeTypeId) (ids : List PropertyId) (name : String)
      (hids : validateIndexTarget ns nodeId ids name = []) :
      nodeId ∈ ns.map (·.id) ∧ ids ≠ [] := by
    unfold validateIndexTarget at hids
    cases hfirst : first (·.id) nodeId ns with
    | none =>
      rw [hfirst] at hids
      simp at hids
    | some n =>
      rw [hfirst] at hids
      constructor
      · by_contra hmem
        rw [(first_none_iff _).2 hmem] at hfirst
        cases hfirst
      · intro hnil
        rw [hnil] at hids
        simp at hids
  cases idx with
  | single id nodeId propertyId | composite id nodeId propertyIds
  | fullText id name nodeId propertyIds => exact htarget _ _ _ h
  | vector id nodeId propertyId dimensions similarity =>
    exact htarget _ _ _ (append_eq_nil_iff.1 h).2

end Ontosyx.Ontology
