import Ontosyx.Ontology.Normalize
import Ontosyx.Ontology.Validity

/-!
# What an exchange document carries

`OntologyIR.carried` keeps of an ontology what an exchange document holds of its
nodes, edges, constraints and indexes, and resets the rest.  The carried part of
a valid ontology that has a node is valid, with any sound object mappings put
beside it.

## Main results

* `clean_carried` — the carried part of a valid ontology is valid.
* `attachMappings_of_indexed` — mappings with new ids attach.
-/

namespace Ontosyx.Ontology

open List Ontosyx.Core OntologyState OntologyIR Lib.Keyed Lib.Positions

/-! ## The carried part -/

/-- The fields of a property that a document holds. -/
def PropertyDef.carried (p : PropertyDef) : PropertyDef where
  id := p.id
  name := p.name
  propertyType := p.propertyType
  nullable := p.nullable
  defaultValue := p.defaultValue
  description := p.description

/-- The fields of a node type that a document holds. -/
def NodeTypeDef.carried (n : NodeTypeDef) : NodeTypeDef where
  id := n.id
  label := n.label
  description := n.description
  properties := n.properties.map PropertyDef.carried
  constraints := n.constraints

/-- The fields of an edge type that a document holds. -/
def EdgeTypeDef.carried (e : EdgeTypeDef) : EdgeTypeDef where
  id := e.id
  label := e.label
  description := e.description
  sourceNodeId := e.sourceNodeId
  targetNodeId := e.targetNodeId
  properties := e.properties.map PropertyDef.carried
  cardinality := e.cardinality
  kind := e.kind

/-- The ids, nodes, edges, constraints and indexes of an ontology, with the
fields that a document holds. -/
def OntologyIR.carried (o : OntologyIR) : OntologyIR where
  id := o.id
  name := o.name
  description := o.description
  version := { number := o.version.number }
  nodeTypes := o.nodeTypes.map NodeTypeDef.carried
  edgeTypes := o.edgeTypes.map EdgeTypeDef.carried
  indexes := o.indexes

variable (n : NodeTypeDef) (p : PropertyDef)

@[simp] theorem PropertyDef.carried_id : p.carried.id = p.id := rfl

@[simp] theorem PropertyDef.carried_name : p.carried.name = p.name := rfl

@[simp] theorem PropertyDef.carried_carried : p.carried.carried = p.carried := rfl

@[simp] theorem NodeTypeDef.carried_id : n.carried.id = n.id := rfl

@[simp] theorem NodeTypeDef.carried_label : n.carried.label = n.label := rfl

@[simp] theorem NodeTypeDef.carried_carried : n.carried.carried = n.carried := by
  simp [NodeTypeDef.carried]

@[simp] theorem EdgeTypeDef.carried_carried (e : EdgeTypeDef) : e.carried.carried = e.carried := by
  simp [EdgeTypeDef.carried]

theorem NodeTypeDef.carried_propertyIds :
    n.carried.properties.map (·.id) = n.properties.map (·.id) := by
  simp [NodeTypeDef.carried, Function.comp_def]

@[simp] theorem OntologyIR.carried_carried (o : OntologyIR) : o.carried.carried = o.carried := by
  simp [carried]

/-! ## Validity of the carried part -/

theorem propertyDefById_carried (ps : List PropertyDef) (id : String) :
    propertyDefById (ps.map PropertyDef.carried) id =
      (propertyDefById ps id).map PropertyDef.carried := by
  unfold propertyDefById
  rw [find?_map]
  rfl

theorem validateConstraintIds_carried (name : String) (required : Bool) (ids : List PropertyId) :
    ∀ seen : List String, validateConstraintIds n.carried name required seen ids =
        validateConstraintIds n name required seen ids := by
  induction ids with
  | nil => exact fun _ => rfl
  | cons id ids ih =>
    intro seen
    unfold validateConstraintIds
    dsimp only
    rw [show n.carried.properties = n.properties.map PropertyDef.carried from rfl,
      propertyDefById_carried, ih, ih]
    cases propertyDefById n.properties (trim id.val) with
    | none => rfl
    | some p => rfl

theorem validateConstraint_carried (c : ConstraintDef) :
    validateConstraint n.carried c = validateConstraint n c := by
  unfold validateConstraint validateConstraintFields
  cases c.constraint <;> simp only [validateConstraintIds_carried] <;> rfl

theorem validatePropertyDefs_carried {kind label : String} (ps : List PropertyDef) :
    ∀ {ids : List PropertyId} {names : List PropertyKey},
      validatePropertyDefs kind label ids names ps = [] →
        validatePropertyDefs kind label ids names (ps.map PropertyDef.carried) = [] := by
  induction ps with
  | nil => exact fun h => h
  | cons p ps ih =>
    intro ids names h
    unfold validatePropertyDefs at h
    simp only [append_eq_nil_iff] at h
    simp only [map_cons, validatePropertyDefs, append_eq_nil_iff]
    by_cases hplace : p.name.val = labelPlaceholder
    · rw [if_pos hplace] at h
      simp at h
    · rw [if_neg hplace] at h
      rw [if_neg (show ¬p.carried.name.val = labelPlaceholder from hplace)]
      simp only [append_eq_nil_iff] at h ⊢
      obtain ⟨hids, ⟨hname, -⟩, hrest⟩ := h
      refine ⟨hids, ⟨hname, ?_⟩, ih hrest⟩
      simp [validatePropertyDef, PropertyDef.carried]

theorem validateNodes_carried (ns : List NodeTypeDef) :
    ∀ {ids : List NodeTypeId} {labels : List GraphLabel}, validateNodes ids labels ns = [] →
      validateNodes ids labels (ns.map NodeTypeDef.carried) = [] := by
  induction ns with
  | nil => exact fun h => h
  | cons n ns ih =>
    intro ids labels h
    unfold validateNodes at h
    simp only [append_eq_nil_iff] at h
    simp only [map_cons, validateNodes, append_eq_nil_iff]
    by_cases hplace : n.label.val = labelPlaceholder
    · rw [if_pos hplace] at h
      simp at h
    · rw [if_neg hplace] at h
      rw [if_neg (show ¬n.carried.label.val = labelPlaceholder from hplace)]
      simp only [append_eq_nil_iff, flatMap_eq_nil_iff] at h ⊢
      obtain ⟨hids, ⟨⟨hlabel, hprops⟩, hconstraints⟩, hrest⟩ := h
      refine ⟨hids, ⟨⟨hlabel, validatePropertyDefs_carried _ hprops⟩, ?_⟩, ih hrest⟩
      intro c hc
      rw [validateConstraint_carried]
      exact hconstraints c hc

theorem validateEdges_carried {nodeIds : List NodeTypeId} (es : List EdgeTypeDef) :
    ∀ {seen : List (GraphLabel × NodeTypeId × NodeTypeId)}, validateEdges nodeIds seen es = [] →
      validateEdges nodeIds seen (es.map EdgeTypeDef.carried) = [] := by
  induction es with
  | nil => exact fun h => h
  | cons e es ih =>
    intro seen h
    unfold validateEdges at h
    simp only [append_eq_nil_iff] at h
    simp only [map_cons, validateEdges, append_eq_nil_iff]
    by_cases hplace : e.label.val = labelPlaceholder
    · rw [if_pos hplace] at h
      simp at h
    · rw [if_neg hplace] at h
      rw [if_neg (show ¬e.carried.label.val = labelPlaceholder from hplace)]
      simp only [validateEdge, append_eq_nil_iff] at h ⊢
      obtain ⟨hid, ⟨hends, ⟨⟨hprops, hkind⟩, hsource⟩, htarget⟩, hrest⟩ := h
      exact ⟨hid, ⟨hends, ⟨⟨validatePropertyDefs_carried _ hprops, hkind⟩, hsource⟩, htarget⟩,
        ih hrest⟩

theorem validateIndexIds_carried (name : String) (ids : List PropertyId) : ∀ seen : List String,
      validateIndexIds n.carried name seen ids = validateIndexIds n name seen ids := by
  induction ids with
  | nil => exact fun _ => rfl
  | cons id ids ih =>
    intro seen
    unfold validateIndexIds
    dsimp only
    rw [show n.carried.properties = n.properties.map PropertyDef.carried from rfl,
      propertyDefById_carried, ih, ih, Option.isNone_map]
    rfl

theorem first_carried (nodeId : NodeTypeId) (ns : List NodeTypeDef) :
    first (·.id) nodeId (ns.map NodeTypeDef.carried) =
      (first (·.id) nodeId ns).map NodeTypeDef.carried := by
  unfold first
  rw [find?_map]
  rfl

theorem validateIndex_carried (ns : List NodeTypeDef) (idx : IndexDef) :
    validateIndex (ns.map NodeTypeDef.carried) idx = validateIndex ns idx := by
  have htarget (nodeId : NodeTypeId) (ids : List PropertyId) (name : String) :
      validateIndexTarget (ns.map NodeTypeDef.carried) nodeId ids name =
        validateIndexTarget ns nodeId ids name := by
    unfold validateIndexTarget
    rw [first_carried]
    cases first (·.id) nodeId ns with
    | none => rfl
    | some n => simp only [Option.map_some, validateIndexIds_carried, NodeTypeDef.carried_label]
  cases idx <;> simp only [validateIndex, htarget]

/-- The carried part of a valid ontology is valid, when it has a node. -/
theorem clean_carried {o : OntologyIR} (h : o.Clean) (hne : o.nodeTypes ≠ [])
    {oms : List ObjectMappingDef}
    (homs : ∀ om ∈ oms, validateObjectMapping [] (o.nodeTypes.map NodeTypeDef.carried) om = []) :
    OntologyIR.Clean { o.carried with objectMappings := oms } where
  id := h.id
  name := h.name
  content := by
    simp [hasContent, carried, hne]
  nodes := validateNodes_carried _ h.nodes
  edges := by
    have hseen : seenNodeIds { o.carried with objectMappings := oms } =
        o.seenNodeIds := by
      simp [seenNodeIds, carried, Function.comp_def]
    rw [hseen]
    exact validateEdges_carried _ h.edges
  nodeReferences := by
    intro n hn
    obtain ⟨m, -, rfl⟩ := mem_map.1 hn
    simp [validateNodeReferences, validatePropertyReferences,
      NodeTypeDef.carried, PropertyDef.carried]
  rules := fun r hr => absurd hr not_mem_nil
  actions := fun a ha => absurd ha not_mem_nil
  objectMappings := homs
  linkMappings := fun lm hlm => absurd hlm not_mem_nil
  indexes := by
    intro idx hidx
    show validateIndex (o.nodeTypes.map NodeTypeDef.carried) idx = []
    rw [validateIndex_carried]
    exact h.indexes idx hidx
  dangling := by
    simp [danglingReferences, registryPointers, carried, propertyPointerWalk, NodeTypeDef.carried,
      EdgeTypeDef.carried, PropertyDef.carried]
  inventory := fun e he => absurd he not_mem_nil
  glossary := rfl
  bindingKinds := by
    intro n hn p hp
    obtain ⟨m, -, rfl⟩ := mem_map.1 hn
    obtain ⟨q, -, rfl⟩ := mem_map.1 hp
    simp [validateBindingKinds, PropertyDef.carried]
  nodeConcepts := by
    intro n hn
    obtain ⟨m, -, rfl⟩ := mem_map.1 hn
    rfl
  edgeConcepts := by
    intro e he
    obtain ⟨f, -, rfl⟩ := mem_map.1 he
    rfl
  segments := fun seg hseg => absurd hseg not_mem_nil

theorem indexed_carried {o : OntologyIR} (h : o.Indexed) {oms : List ObjectMappingDef}
    (homs : (oms.map (·.id)).Nodup) :
    OntologyIR.Indexed { o.carried with objectMappings := oms } where
  nodeIds := by
    simpa [carried, Function.comp_def] using h.nodeIds
  nodeLabels := by
    simpa [carried, Function.comp_def] using h.nodeLabels
  propertyIds := by
    simpa [carried, flatMap_map, NodeTypeDef.carried_propertyIds]
      using h.propertyIds
  edgeIds := by
    simpa [carried, Function.comp_def, EdgeTypeDef.carried] using h.edgeIds
  objectMappingIds := nodup_objectIds_iff.2 homs
  linkMappingIds := nodup_nil
  registries := by constructor <;> exact nodup_nil

theorem ir_of_attachMappings (oms : List ObjectMappingDef) :
    ∀ {s s' : OntologyState}, attachMappings oms s = .ok s' →
      s'.ir = { s.ir with objectMappings := s.ir.objectMappings ++ oms } := by
  induction oms with
  | nil =>
    intro s s' h
    rw [attachMappings, Except.ok.injEq] at h
    rw [← h, append_nil]
  | cons om oms ih =>
    intro s s' h
    rw [attachMappings] at h
    cases hadd : addObjectMapping om s with
    | mk r t =>
      rw [hadd] at h
      cases r with
      | error e => cases h
      | ok u =>
        have ht : t.ir = { s.ir with objectMappings := s.ir.objectMappings ++ [om] } := by
          unfold addObjectMapping Slot.add at hadd
          split at hadd
          · cases hadd
          · simp only [unchecked, rebuild] at hadd
            split at hadd
            · cases hadd
              rfl
            · cases hadd
        rw [ih h, ht]
        simp

theorem attachMappings_of_indexed (oms : List ObjectMappingDef) :
    ∀ {o : OntologyIR},
      OntologyIR.Indexed { o with objectMappings := o.objectMappings ++ oms } →
      attachMappings oms (.ofIR o) =
        .ok (.ofIR { o with objectMappings := o.objectMappings ++ oms }) := by
  induction oms with
  | nil =>
    intro o _
    rw [attachMappings, append_nil]
  | cons om oms ih =>
    intro o h
    have hids := nodup_objectIds_iff.1 h.objectMappingIds
    rw [show o.objectMappings ++ om :: oms =
      (o.objectMappings ++ [om]) ++ oms by simp] at hids h ⊢
    have hnext : Indexed { o with objectMappings := o.objectMappings ++ [om] } :=
      objectMappingSlot.indexed_put
        { o with objectMappings := o.objectMappings ++ [om] ++ oms } _ h
        ((nodup_append.1 (map_append ▸ hids)).1)
        trivial
    have hnew : om.id ∉ o.objectMappings.map (·.id) := by
      intro hmem
      have hpair := nodup_objectIds_iff.1 hnext.objectMappingIds
      rw [map_append, nodup_append] at hpair
      exact hpair.2.2 _ hmem _ (mem_singleton_self _) rfl
    have hadd : addObjectMapping om (.ofIR o) =
        (.ok (), .ofIR { o with objectMappings := o.objectMappings ++ [om] }) := by
      unfold addObjectMapping Slot.add
      have hfree : ¬(objectMappingSlot.idx (ofIR o).lookup
          (objectMappingSlot.key om)).isSome = true := by
        rw [show (ofIR o).lookup = o.indices from rfl,
          objectMappingSlot.idx_indices, position_isSome_iff]
        exact hnew
      rw [if_neg hfree]
      exact rebuild_of_indexed hnext
    rw [attachMappings, hadd]
    exact ih h

end Ontosyx.Ontology
