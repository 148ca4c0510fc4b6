import Ontosyx.Ontology.Validity

/-!
# Parts of a valid ontology

A part of an ontology keeps some of its types, indexes and source mappings and all of the
rest.  Where what it keeps refers to what it keeps, a part of a valid ontology is valid
when the other collections do not refer to what is gone.
-/

namespace Ontosyx.Ontology

open List Ontosyx.Core OntologyIR Lib.Keyed

theorem validateNodes_sublist {ns ms : List NodeTypeDef} (hsub : ms.Sublist ns) :
    ∀ {ids ids' : List NodeTypeId} {labels labels' : List GraphLabel}, ids' ⊆ ids →
      labels' ⊆ labels → validateNodes ids labels ns = [] → validateNodes ids' labels' ms = [] := by
  induction hsub with
  | slnil => exact fun _ _ _ => rfl
  | @cons ms ns n _ ih =>
    intro ids ids' labels labels' hids hlabels h
    unfold validateNodes at h
    simp only [append_eq_nil_iff] at h
    by_cases hplace : n.label.val = labelPlaceholder
    · rw [if_pos hplace] at h
      simp at h
    · rw [if_neg hplace] at h
      simp only [append_eq_nil_iff] at h
      refine ih ?_ (subset_cons_of_subset _ hlabels) h.2.2
      split
      · exact hids
      · exact subset_cons_of_subset _ hids
  | @cons_cons ms ns n _ ih =>
    intro ids ids' labels labels' hids hlabels h
    unfold validateNodes at h ⊢
    simp only [append_eq_nil_iff] at h ⊢
    by_cases hplace : n.label.val = labelPlaceholder
    · rw [if_pos hplace] at h
      simp at h
    · rw [if_neg hplace] at h ⊢
      simp only [append_eq_nil_iff, reportIf_nil_iff, not_and] at h ⊢
      obtain ⟨⟨hblank, hid⟩, ⟨⟨hlabel, hprops⟩, hconstraints⟩, hrest⟩ := h
      refine ⟨⟨hblank, fun hb hmem => hid hb (hids hmem)⟩,
        ⟨⟨fun hmem => hlabel (hlabels hmem), hprops⟩, hconstraints⟩, ih ?_ ?_ hrest⟩
      · split
        · exact hids
        · exact cons_subset_cons _ hids
      · exact cons_subset_cons _ hlabels

theorem validateEdges_sublist {es fs : List EdgeTypeDef} (hsub : fs.Sublist es)
    {ids ids' : List NodeTypeId} (hends : ∀ e ∈ fs, e.sourceNodeId ∈ ids' ∧ e.targetNodeId ∈ ids') :
    ∀ {seen seen' : List (GraphLabel × NodeTypeId × NodeTypeId)}, seen' ⊆ seen →
      validateEdges ids seen es = [] → validateEdges ids' seen' fs = [] := by
  induction hsub with
  | slnil => exact fun _ _ => rfl
  | @cons fs es e _ ih =>
    intro seen seen' hseen h
    unfold validateEdges at h
    simp only [append_eq_nil_iff] at h
    by_cases hplace : e.label.val = labelPlaceholder
    · rw [if_pos hplace] at h
      simp at h
    · rw [if_neg hplace] at h
      simp only [append_eq_nil_iff] at h
      exact ih hends (subset_cons_of_subset _ hseen) h.2.2
  | @cons_cons fs es e _ ih =>
    intro seen seen' hseen h
    rw [forall_mem_cons] at hends
    unfold validateEdges at h ⊢
    simp only [append_eq_nil_iff] at h ⊢
    by_cases hplace : e.label.val = labelPlaceholder
    · rw [if_pos hplace] at h
      simp at h
    · rw [if_neg hplace] at h ⊢
      simp only [validateEdge, append_eq_nil_iff, reportIf_nil_iff, not_not] at h ⊢
      obtain ⟨hid, ⟨⟨hends', hsignature⟩, ⟨⟨hprops, hkind⟩, -⟩, -⟩, hrest⟩ := h
      exact ⟨hid, ⟨⟨hends', fun hmem => hsignature (hseen hmem)⟩,
        ⟨⟨hprops, hkind⟩, hends.1.1⟩, hends.1.2⟩,
        ih hends.2 (cons_subset_cons _ hseen) hrest⟩

section

variable {o o' : OntologyIR} (hconcepts : o'.concepts = o.concepts)
  (hglossary : o'.glossary = o.glossary)

include hglossary in
theorem claimTerm_congr : o'.claimTerm = o.claimTerm := by
  funext concept mismatch unknown claimed termId
  unfold claimTerm
  rw [hglossary]

include hglossary in
theorem validateAliases_congr (concept : ConceptDef) (terms : List GlossaryTermId)
    (claimed : List (GlossaryTermId × ConceptId)) (aliases : List GlossaryTermId) :
    o'.validateAliases concept terms claimed aliases =
      o.validateAliases concept terms claimed aliases := by
  induction aliases generalizing terms claimed with
  | nil => rfl
  | cons aliasId aliases ih =>
    unfold validateAliases
    rw [claimTerm_congr hglossary]
    simp only [ih]

include hconcepts hglossary in
theorem validateConcepts_congr (claimed : List (GlossaryTermId × ConceptId))
    (concepts : List ConceptDef) :
    o'.validateConcepts claimed concepts = o.validateConcepts claimed concepts := by
  induction concepts generalizing claimed with
  | nil => rfl
  | cons concept concepts ih =>
    unfold validateConcepts validateConceptPointers
    rw [claimTerm_congr hglossary, hconcepts]
    simp only [validateAliases_congr hglossary, ih]

include hconcepts in
theorem validateConceptRealizations_congr (kind idKey id : String) (seen : List ConceptId)
    (realizations : List ConceptRealization) :
    o'.validateConceptRealizations kind idKey id seen realizations =
      o.validateConceptRealizations kind idKey id seen realizations := by
  induction realizations generalizing seen with
  | nil => rfl
  | cons r rs ih =>
    unfold validateConceptRealizations
    rw [hconcepts]
    simp only [ih]

include hconcepts in
theorem validateTypeConcepts_congr : o'.validateTypeConcepts = o.validateTypeConcepts := by
  funext kind idKey id conceptId realizations
  unfold validateTypeConcepts
  rw [hconcepts, validateConceptRealizations_congr hconcepts]

end

/-! ## Parts -/

/-- Some of the types, indexes and source mappings, and all of the rest. -/
structure IsPart (o part : OntologyIR) : Prop where
  rest : part = { o with
    nodeTypes := part.nodeTypes
    edgeTypes := part.edgeTypes
    indexes := part.indexes
    objectMappings := part.objectMappings
    linkMappings := part.linkMappings }
  nodeTypes : part.nodeTypes.Sublist o.nodeTypes
  edgeTypes : part.edgeTypes.Sublist o.edgeTypes
  indexes : part.indexes.Sublist o.indexes
  objectMappings : part.objectMappings.Sublist o.objectMappings
  linkMappings : part.linkMappings.Sublist o.linkMappings

structure IsClosed (o : OntologyIR) : Prop where
  ends : ∀ e ∈ o.edgeTypes,
    e.sourceNodeId ∈ o.nodeTypes.map (·.id) ∧ e.targetNodeId ∈ o.nodeTypes.map (·.id)
  indexes : ∀ idx ∈ o.indexes, idx.nodeId ∈ o.nodeTypes.map (·.id)
  objectMappings : ∀ m ∈ o.objectMappings, m.nodeTypeId ∈ o.nodeTypes.map (·.id)
  linkMappings : ∀ m ∈ o.linkMappings, m.edgeTypeId ∈ o.edgeTypes.map (·.id)

/-- The other collections refer to what is kept. -/
structure OthersResolve (o : OntologyIR) : Prop where
  rules : ∀ r ∈ o.rules, ∀ nodeTypeId propertyId,
    r.origin = .derivedFromBinding nodeTypeId propertyId → nodeTypeId ∈ o.nodeTypes.map (·.id)
  contributedNodes : ∀ e ∈ o.tableInventory, e.contributedNodeIds ⊆ o.nodeTypes.map (·.id)
  contributedEdges : ∀ e ∈ o.tableInventory, e.contributedEdgeIds ⊆ o.edgeTypes.map (·.id)
  segments : ∀ s ∈ o.segments, s.targetNodeTypeId ∈ o.nodeTypes.map (·.id)

/-- Of the types and the source mappings, the nodes alone decide whether there is content. -/
theorem IsClosed.hasContent_iff {o : OntologyIR} (h : IsClosed o) : o.hasContent = true ↔
      o.nodeTypes ≠ [] ∨ o.glossary ≠ [] ∨ o.rules ≠ [] ∨ o.codeSystems ≠ [] := by
  have hedges : o.edgeTypes ≠ [] → o.nodeTypes ≠ [] := by
    intro hne hnil
    obtain ⟨e, he⟩ := exists_mem_of_ne_nil _ hne
    simpa [hnil] using (h.ends e he).1
  have hobjects : o.objectMappings ≠ [] → o.nodeTypes ≠ [] := by
    intro hne hnil
    obtain ⟨m, hm⟩ := exists_mem_of_ne_nil _ hne
    simpa [hnil] using h.objectMappings m hm
  have hlinks : o.linkMappings ≠ [] → o.edgeTypes ≠ [] := by
    intro hne hnil
    obtain ⟨m, hm⟩ := exists_mem_of_ne_nil _ hne
    simpa [hnil] using h.linkMappings m hm
  simp only [hasContent, Bool.or_eq_true, Bool.not_eq_true', isEmpty_eq_false_iff]
  tauto

/-- What a valid ontology has refers to what it has. -/
theorem OntologyIR.Clean.isClosed {o : OntologyIR} (h : o.Clean) : IsClosed o where
  ends _ he := h.ends_mem he
  indexes idx hidx := (target_of_validateIndex (h.indexes idx hidx)).1
  objectMappings m hm := by
    have hmapping := h.objectMappings m hm
    unfold validateObjectMapping at hmapping
    by_contra hmem
    rw [(first_none_iff _).2 hmem] at hmapping
    simp at hmapping
  linkMappings m hm := by
    have hmapping := h.linkMappings m hm
    simp only [validateLinkMapping, append_eq_nil_iff, reportIf_nil_iff, not_not]
      at hmapping
    exact hmapping.1.1.2

theorem first_sublist {α κ : Type} [DecidableEq κ] {key : α → κ} {xs ys : List α}
    (hnd : (xs.map key).Nodup) (hsub : ys.Sublist xs) {k : κ} (hk : k ∈ ys.map key) :
    first key k ys = first key k xs := by
  obtain ⟨y, hy, rfl⟩ := mem_map.1 hk
  rw [(first_some_iff key hnd).2 ⟨hsub.subset hy, rfl⟩,
    (first_some_iff key (hnd.sublist (hsub.map key))).2 ⟨hy, rfl⟩]

theorem IsPart.refl (o : OntologyIR) : IsPart o o :=
  ⟨rfl, .refl _, .refl _, .refl _, .refl _, .refl _⟩

namespace IsPart

variable {o part : OntologyIR} (h : IsPart o part)

include h

theorem indexed (ho : o.Indexed) : part.Indexed := by
  have hregistries : part.RegistriesIndexed := by
    rw [h.rest]
    exact { ho.registries with }
  exact
    { nodeIds := ho.nodeIds.sublist (h.nodeTypes.map _)
      nodeLabels := ho.nodeLabels.sublist (h.nodeTypes.map _)
      propertyIds := ho.propertyIds.sublist (h.nodeTypes.flatMap _)
      edgeIds := ho.edgeIds.sublist (h.edgeTypes.map _)
      objectMappingIds := ho.objectMappingIds.sublist (h.objectMappings.map _)
      linkMappingIds := ho.linkMappingIds.sublist (h.linkMappings.map _)
      registries := hregistries }

theorem nodeById_eq (ho : o.Indexed) {id : NodeTypeId} (hid : id ∈ part.nodeTypes.map (·.id)) :
    part.nodeById id = o.nodeById id := first_sublist ho.nodeIds h.nodeTypes hid

/-- A rule of the whole passes in a part that has the node of the binding it comes from. -/
theorem validateRule_nil_iff (ho : o.Indexed) {r : RuleDef} (hr : o.validateRule r = []) :
    part.validateRule r = [] ↔ ∀ nodeTypeId propertyId,
      r.origin = .derivedFromBinding nodeTypeId propertyId →
        nodeTypeId ∈ part.nodeTypes.map (·.id) := by
  have hactions : part.actions = o.actions := by rw [h.rest]
  have hpairs : o.validatePropertyPairs r = [] → part.validatePropertyPairs r = [] := by
    unfold validatePropertyPairs
    cases r.kind with
    | propertyShape targetNodeTypeId _ =>
      intro hpairs
      dsimp only at hpairs ⊢
      by_cases hmem : targetNodeTypeId ∈ part.nodeTypes.map (·.id)
      · rw [h.nodeById_eq ho hmem]
        exact hpairs
      · rw [nodeById, (first_none_iff _).2 hmem]
        rfl
    | _ => exact id
  unfold validateRule at hr ⊢
  rw [append_eq_nil_iff, append_eq_nil_iff] at hr
  obtain ⟨⟨hactivation, horigin⟩, hpairs'⟩ := hr
  rw [append_eq_nil_iff, append_eq_nil_iff, hactions, and_iff_right hactivation,
    and_iff_left (hpairs hpairs')]
  cases hkind : r.origin with
  | derivedFromBinding nodeTypeId propertyId =>
    rw [hkind] at horigin
    simp only [reportIf_nil_iff, Bool.not_eq_false] at horigin ⊢
    constructor
    · rintro hexists _ _ ⟨⟩
      by_contra hmem
      rw [derivedBindingExists, nodeById, (first_none_iff _).2 hmem]
        at hexists
      cases hexists
    · intro hmem
      rw [derivedBindingExists, h.nodeById_eq ho (hmem _ _ rfl)]
      exact horigin
  | _ => simp

theorem validateObjectMapping_eq (ho : o.Indexed) {m : ObjectMappingDef}
    (hm : m.nodeTypeId ∈ part.nodeTypes.map (·.id)) (conceptMapIds : List ConceptMapId) :
    validateObjectMapping conceptMapIds part.nodeTypes m =
      validateObjectMapping conceptMapIds o.nodeTypes m := by
  rw [validateObjectMapping, validateObjectMapping, first_sublist ho.nodeIds h.nodeTypes hm]

theorem validateIndex_eq (ho : o.Indexed) {idx : IndexDef}
    (hidx : idx.nodeId ∈ part.nodeTypes.map (·.id)) :
    validateIndex part.nodeTypes idx = validateIndex o.nodeTypes idx := by
  have htarget (propertyIds : List PropertyId) (name : String) :
      validateIndexTarget part.nodeTypes idx.nodeId propertyIds name =
        validateIndexTarget o.nodeTypes idx.nodeId propertyIds name := by
    rw [validateIndexTarget, validateIndexTarget, first_sublist ho.nodeIds h.nodeTypes hidx]
  cases idx with
  | single id nodeId propertyId | composite id nodeId propertyIds
  | fullText id name nodeId propertyIds => exact htarget _ _
  | vector id nodeId propertyId dimensions similarity =>
    exact congrArg (reportIf _ _ _ ++ ·) (htarget _ _)

theorem validateSegment_nil_iff (ho : o.Indexed) {s : SegmentDef}
    (hs : o.validateSegment s = []) :
    part.validateSegment s = [] ↔ s.targetNodeTypeId ∈ part.nodeTypes.map (·.id) := by
  unfold validateSegment at hs ⊢
  constructor
  · intro hpart
    by_contra hmem
    rw [(first_none_iff _).2 hmem] at hpart
    simp at hpart
  · intro hmem
    rw [first_sublist ho.nodeIds h.nodeTypes hmem]
    exact hs

end IsPart

/-- What else a valid ontology has refers to its types. -/
theorem OntologyIR.Clean.othersResolve {o : OntologyIR} (h : o.Clean) (ho : o.Indexed) :
    OthersResolve o where
  rules r hr := ((IsPart.refl o).validateRule_nil_iff ho (h.rules r hr)).1 (h.rules r hr)
  contributedNodes entry hentry id hid := by
    have hreport := h.inventory entry hentry
    simp only [validateInventoryEntry, append_eq_nil_iff,
      flatMap_eq_nil_iff, reportIf_nil_iff, not_not] at hreport
    exact hreport.1 id hid
  contributedEdges entry hentry id hid := by
    have hreport := h.inventory entry hentry
    simp only [validateInventoryEntry, append_eq_nil_iff,
      flatMap_eq_nil_iff, reportIf_nil_iff, not_not] at hreport
    exact hreport.2 id hid
  segments s hs := ((IsPart.refl o).validateSegment_nil_iff ho (h.segments s hs)).1
    (h.segments s hs)

namespace IsPart

variable {o part : OntologyIR} (h : IsPart o part)

include h

theorem clean_iff (ho : o.Indexed) (hv : o.Clean) (hclosed : IsClosed part) :
    part.Clean ↔ part.hasContent = true ∧ OthersResolve part := by
  have hrules : part.rules = o.rules := by rw [h.rest]
  have hinventory : part.tableInventory = o.tableInventory := by rw [h.rest]
  have hsegments : part.segments = o.segments := by rw [h.rest]
  have hconcepts : part.concepts = o.concepts := by rw [h.rest]
  have hterms : part.glossary = o.glossary := by rw [h.rest]
  constructor
  · intro hpart
    exact ⟨hpart.content, hpart.othersResolve (h.indexed ho)⟩
  · intro ⟨hcontent, hothers⟩
    have hends : ∀ e ∈ part.edgeTypes,
        e.sourceNodeId ∈ part.seenNodeIds ∧ e.targetNodeId ∈ part.seenNodeIds := by
      intro e he
      obtain ⟨hsource, htarget⟩ := ends_of_validateEdges _ hv.edges e (h.edgeTypes.subset he)
      exact ⟨mem_filter.2 ⟨(hclosed.ends e he).1, (mem_filter.1 hsource).2⟩,
        mem_filter.2 ⟨(hclosed.ends e he).2, (mem_filter.1 htarget).2⟩⟩
    exact
      { id := by rw [h.rest]; exact hv.id
        name := by rw [h.rest]; exact hv.name
        content := hcontent
        nodes := validateNodes_sublist h.nodeTypes (Subset.refl _) (Subset.refl _)
          hv.nodes
        edges := validateEdges_sublist h.edgeTypes hends (Subset.refl _) hv.edges
        nodeReferences := by
          intro n hn
          rw [h.rest]
          exact hv.nodeReferences n (h.nodeTypes.subset hn)
        rules := fun r hr => (h.validateRule_nil_iff ho (hv.rules r (hrules ▸ hr))).2
          (hothers.rules r hr)
        actions := by
          rw [h.rest]
          exact hv.actions
        objectMappings := by
          intro m hm
          rw [h.validateObjectMapping_eq ho (hclosed.objectMappings m hm), h.rest]
          exact hv.objectMappings m (h.objectMappings.subset hm)
        linkMappings := by
          intro m hm
          have hwhole := hv.linkMappings m (h.linkMappings.subset hm)
          simp only [validateLinkMapping, append_eq_nil_iff, reportIf_nil_iff,
            not_not] at hwhole ⊢
          exact ⟨⟨⟨⟨hwhole.1.1.1.1, hwhole.1.1.1.2⟩, hclosed.linkMappings m hm⟩, hwhole.1.2⟩,
            hwhole.2⟩
        indexes := by
          intro idx hidx
          rw [h.validateIndex_eq ho (hclosed.indexes idx hidx)]
          exact hv.indexes idx (h.indexes.subset hidx)
        dangling := by
          have hwhole := hv.dangling
          unfold danglingReferences at hwhole ⊢
          simp only [append_eq_nil_iff, flatMap_eq_nil_iff] at hwhole ⊢
          obtain ⟨⟨hnodes, hedges⟩, hregistries⟩ := hwhole
          have hwalk : part.propertyPointerWalk = o.propertyPointerWalk := by
            rw [h.rest]
            rfl
          have hpointers : part.registryPointers = o.registryPointers := by
            rw [h.rest]
            rfl
          rw [hwalk, hpointers]
          exact ⟨⟨fun n hn => hnodes n (h.nodeTypes.subset hn),
            fun e he => hedges e (h.edgeTypes.subset he)⟩, hregistries⟩
        inventory := by
          intro e he
          simp only [validateInventoryEntry, append_eq_nil_iff,
            flatMap_eq_nil_iff, reportIf_nil_iff, not_not]
          exact ⟨fun id hid => hothers.contributedNodes e he hid,
            fun id hid => hothers.contributedEdges e he hid⟩
        glossary := by
          have hglossary : part.validateGlossary = o.validateGlossary := by
            unfold validateGlossary
            rw [validateConcepts_congr hconcepts hterms, h.rest]
            rfl
          exact hglossary.trans hv.glossary
        bindingKinds := fun n hn => hv.bindingKinds n (h.nodeTypes.subset hn)
        nodeConcepts := by
          intro n hn
          rw [validateNodeConcepts, validateTypeConcepts_congr hconcepts]
          exact hv.nodeConcepts n (h.nodeTypes.subset hn)
        edgeConcepts := by
          intro e he
          rw [validateEdgeConcepts, validateTypeConcepts_congr hconcepts]
          exact hv.edgeConcepts e (h.edgeTypes.subset he)
        segments := fun s hs => (h.validateSegment_nil_iff ho
          (hv.segments s (hsegments ▸ hs))).2 (hothers.segments s hs) }

end IsPart

end Ontosyx.Ontology
