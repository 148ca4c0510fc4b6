import Ontosyx.Store.Rows

/-!
# The round trip of a version

The rows of a version, in any order, give the ontology back that was written exactly when each
entity reads back as it was written and the mutators admit the entries in the order of the rows.

## Main results

* `assembleIr_ok_iff` — when entities that read back are assembled.
* `readBack_iff` — when the ontology is read back.
-/

namespace Ontosyx.Store

open List Ontosyx.Core Ontology Lib.Checked Lib.Keyed Lib.Positions StoredEntity

section

variable {o o' : OntologyIR}

/-- The index pass does not look at the order. -/
theorem SameUpToOrder.indexed (h : SameUpToOrder o o') (ho' : o'.Indexed) : o.Indexed where
  nodeIds := ((h .nodeType).map _).nodup_iff.2 ho'.nodeIds
  nodeLabels := ((h .nodeType).map _).nodup_iff.2 ho'.nodeLabels
  propertyIds := ((h .nodeType).flatMap_right _).nodup_iff.2 ho'.propertyIds
  edgeIds := ((h .edgeType).map _).nodup_iff.2 ho'.edgeIds
  objectMappingIds := ((h .objectMapping).map _).nodup_iff.2 ho'.objectMappingIds
  linkMappingIds := ((h .linkMapping).map _).nodup_iff.2 ho'.linkMappingIds
  registries :=
    { interfaces := ((h .interface).map _).nodup_iff.2 ho'.registries.interfaces
      rules := ((h .rule).map _).nodup_iff.2 ho'.registries.rules
      actions := ((h .action).map _).nodup_iff.2 ho'.registries.actions
      functions := ((h .function).map _).nodup_iff.2 ho'.registries.functions
      metrics := ((h .metric).map _).nodup_iff.2 ho'.registries.metrics
      enrichments := ((h .enrichment).map _).nodup_iff.2 ho'.registries.enrichments
      glossary := ((h .glossaryTerm).map _).nodup_iff.2 ho'.registries.glossary
      dataQuality := ((h .dataQuality).map _).nodup_iff.2 ho'.registries.dataQuality
      concepts := ((h .concept).map _).nodup_iff.2 ho'.registries.concepts
      codeSystems := ((h .codeSystem).map _).nodup_iff.2 ho'.registries.codeSystems
      codedValues := ((h .codeSystem).flatMap_right _).nodup_iff.2 ho'.registries.codedValues
      valueSets := ((h .valueSet).map _).nodup_iff.2 ho'.registries.valueSets
      notationPatterns := ((h .notationPattern).map _).nodup_iff.2 ho'.registries.notationPatterns
      conceptMaps := ((h .conceptMap).map _).nodup_iff.2 ho'.registries.conceptMaps
      valueRangeSets := ((h .valueRangeSet).map _).nodup_iff.2 ho'.registries.valueRangeSets
      columnProfiles := ((h .columnProfile).map _).nodup_iff.2 ho'.registries.columnProfiles
      segments := ((h .segment).map _).nodup_iff.2 ho'.registries.segments
      tableInventory := ((h .tableInventory).map _).nodup_iff.2 ho'.registries.tableInventory }

theorem SameUpToOrder.has (h : SameUpToOrder o o') {ptr : Pointer} (hptr : o'.Has ptr) :
    o.Has ptr := by
  have hsystem {P : CodeSystemDef → Prop} : (∃ d ∈ o'.codeSystems, P d) →
      ∃ d ∈ o.codeSystems, P d := fun ⟨d, hd, hP⟩ => ⟨d, (h .codeSystem).mem_iff.2 hd, hP⟩
  cases ptr with
  | nodeType => exact ((h .nodeType).map _).mem_iff.2 hptr
  | edgeType => exact ((h .edgeType).map _).mem_iff.2 hptr
  | rule => exact ((h .rule).map _).mem_iff.2 hptr
  | concept => exact ((h .concept).map _).mem_iff.2 hptr
  | glossaryTerm => exact ((h .glossaryTerm).map _).mem_iff.2 hptr
  | valueRangeSet => exact ((h .valueRangeSet).map _).mem_iff.2 hptr
  | conceptMap => exact ((h .conceptMap).map _).mem_iff.2 hptr
  | notationPattern => exact ((h .notationPattern).map _).mem_iff.2 hptr
  | valueSet => exact ((h .valueSet).map _).mem_iff.2 hptr
  | codeSystem => exact ((h .codeSystem).map _).mem_iff.2 hptr
  | codedValue | code | descendantsRoot => exact hsystem hptr

end

variable {claimed : List (GlossaryTermId × ConceptId)} {kind : EntityKind}

section

variable {o : OntologyIR}

theorem term_of_claimTerm {concept : ConceptDef} {mismatch unknown : String}
    {termId : GlossaryTermId} (h : (o.claimTerm concept mismatch unknown claimed termId).1 = []) :
    ∃ term ∈ o.glossary, term.id = termId ∧ term.conceptId = some concept.id := by
  unfold OntologyIR.claimTerm at h
  cases hterm : last (·.id) termId o.glossary with
  | none =>
    rw [hterm] at h
    cases h
  | some term =>
    rw [hterm] at h
    rw [append_eq_nil_iff, reportIf_nil_iff, ne_eq, not_not] at h
    exact ⟨term, mem_of_last _ hterm, key_of_last _ hterm, h.1⟩

theorem terms_of_validateAliases {concept : ConceptDef} {terms : List GlossaryTermId}
    {aliases : List GlossaryTermId} (h : (o.validateAliases concept terms claimed aliases).1 = []) :
    ∀ termId ∈ aliases, ∃ term ∈ o.glossary, term.id = termId ∧
      term.conceptId = some concept.id := by
  induction aliases generalizing terms claimed with
  | nil => nofun
  | cons aliasId aliases ih =>
    unfold OntologyIR.validateAliases at h
    rw [append_eq_nil_iff, append_eq_nil_iff] at h
    rw [forall_mem_cons]
    exact ⟨term_of_claimTerm h.1.2, ih h.2⟩

theorem terms_of_validateConcepts {concepts : List ConceptDef}
    (h : o.validateConcepts claimed concepts = []) :
    ∀ c ∈ concepts, ∀ termId ∈ c.canonicalTermId :: c.aliasTermIds,
      ∃ term ∈ o.glossary, term.id = termId ∧ term.conceptId = some c.id := by
  induction concepts generalizing claimed with
  | nil => nofun
  | cons c concepts ih =>
    unfold OntologyIR.validateConcepts at h
    simp only [append_eq_nil_iff] at h
    rw [forall_mem_cons, forall_mem_cons]
    exact ⟨⟨term_of_claimTerm h.1.1.1, terms_of_validateAliases h.1.1.2⟩, ih h.2⟩

/-- The concepts of a valid ontology have their terms, in whatever order the terms are. -/
theorem hasTerms_of_clean (hv : o.Clean) {glossary : List GlossaryTermDef}
    (hnd : (glossary.map (·.id)).Nodup) (hperm : glossary.Perm o.glossary) :
    ∀ c ∈ o.concepts, HasTerms glossary c := by
  have hglossary := hv.glossary
  unfold OntologyIR.validateGlossary at hglossary
  simp only [append_eq_nil_iff] at hglossary
  intro c hc termId htermId
  obtain ⟨term, hterm, hid, hconcept⟩ :=
    terms_of_validateConcepts hglossary.1.1.1.1 c hc termId htermId
  exact ⟨term, (first_some_iff _ hnd).2 ⟨hperm.mem_iff.2 hterm, hid⟩, hconcept⟩

theorem has_of_clean (ho : o.Indexed) (hv : o.Clean) :
    (∀ d ∈ o.valueSets, ∀ ptr ∈ d.pointers, o.Has ptr) ∧
      ∀ d ∈ o.conceptMaps, ∀ ptr ∈ d.pointers, o.Has ptr := by
  have hhas := (OntologyIR.dangling_nil_iff ho.registries.codeSystems).1 hv.dangling
  simp only [OntologyIR.trackedPointers, forall_mem_append, forall_mem_flatMap] at hhas
  exact ⟨hhas.1.2, hhas.2⟩

end

/-! ## Assembling -/

section

variable {Json Hash : Type} {wire : Wire Json Hash} {o o' : OntologyIR} {es : List StoredEntity}

theorem vector_perm (hes : es.Perm (extractEntities o)) (kind : EntityKind) :
    (vector es kind).Perm (kind.collection o) := by
  rw [← vector_extractEntities o kind]
  exact hes.filterMap _

theorem collection_assembled (h : Header) (es : List StoredEntity)
    (hkind : kind ≠ .ontologyHeader) : kind.collection (assembled h es) = vector es kind := by
  have hempty {ds : List Empty} : [] = ds :=
    (eq_nil_iff_forall_not_mem.2 fun d _ => d.elim).symm
  cases kind <;> first | rfl | exact absurd rfl hkind | exact hempty

theorem assembled_sameUpToOrder (hes : es.Perm (extractEntities o)) :
    SameUpToOrder (assembled (headerOf o) es) o := by
  intro kind
  by_cases hkind : kind = .ontologyHeader
  · subst hkind
    exact List.Perm.refl _
  · rw [collection_assembled _ es hkind]
    exact vector_perm hes kind

/-- Entities that are written are admitted by the mutators exactly in some orders. -/
theorem hydrate_written (ho : o.Indexed) (hv : o.Clean) (hes : es.Perm (extractEntities o)) :
    Loads (Admitted (assembled (headerOf o) es)) (hydrate (headerOf o) es)
      (assembled (headerOf o) es) := by
  have hsame := assembled_sameUpToOrder hes
  have hindexed := hsame.indexed ho
  have hnames := (OntologyIR.registriesIndexed_iff _).1 hindexed.registries
  obtain ⟨hsets, hmaps⟩ := has_of_clean ho hv
  refine hydrate_loads hindexed ?_ ?_ ?_
  · intro c hc
    exact hasTerms_of_clean hv hnames.2.2.2.2.2.2.1 (vector_perm hes .glossaryTerm) c
      ((vector_perm hes .concept).mem_iff.1 hc)
  · exact fun d hd ptr hptr =>
      hsame.has (hsets d ((vector_perm hes .valueSet).mem_iff.1 hd) ptr hptr)
  · exact fun d hd ptr hptr =>
      hsame.has (hmaps d ((vector_perm hes .conceptMap).mem_iff.1 hd) ptr hptr)

theorem vector_of_readsBack {ls : List (List StoredEntity)} (hback : ∀ e ∈ es, ReadsBack wire e)
    (h : (es.map (row wire)).mapM (readRow wire) = .ok ls)
    (hkind : kind ≠ .ontologyHeader) : vector ls.flatten kind = vector es kind := by
  have hread := forall₂_vector h hkind
  have hdecode : ∀ d ∈ vector es kind, wire.decode kind (wire.encode ⟨kind, d⟩) = some d :=
    fun d hd => hback ⟨kind, d⟩ (mem_vector.1 hd)
  generalize vector es kind = ds at hread hdecode
  generalize vector ls.flatten kind = ds' at hread
  induction hread with
  | nil => rfl
  | @cons d d' ds ds' hd _ ih =>
    rw [forall_mem_cons] at hdecode
    rw [ih hdecode.2, Option.some.inj (hd.symm.trans hdecode.1)]

theorem header_mem (hes : es.Perm (extractEntities o)) :
    (⟨.ontologyHeader, headerOf o⟩ : StoredEntity) ∈ es := by
  rw [← mem_vector, (vector_perm hes .ontologyHeader).mem_iff]
  exact mem_singleton_self _

/-- Entities that read back are assembled exactly when the mutators admit them. -/
theorem assembleIr_ok_iff (ho : o.Indexed) (hv : o.Clean) (hes : es.Perm (extractEntities o))
    (hback : ∀ e ∈ es, ReadsBack wire e) :
    assembleIr wire (es.map (row wire)) = .ok o' ↔
      Admitted (assembled (headerOf o) es) ∧ o' = assembled (headerOf o) es := by
  obtain ⟨ls, hls⟩ := mapM_readRow_of_readsBack hback
  have hheader : wire.decode .ontologyHeader (wire.encode ⟨.ontologyHeader, headerOf o⟩) =
      some (headerOf o) := hback _ (header_mem hes)
  have hhydrate : hydrate (headerOf o) ls.flatten = hydrate (headerOf o) es :=
    (hydrate_congr fun kind hkind => vector_of_readsBack hback hls hkind).1
  have hrun : assembleIr wire (es.map (row wire)) =
      (hydrate (headerOf o) es >>= fun ir => .ok ir.ir) := by
    unfold assembleIr
    rw [hls, readHeader_rows hes, hheader]
    exact congrArg (· >>= fun ir => .ok ir.ir) hhydrate
  rw [hrun, bind_eq_ok_iff]
  constructor
  · intro ⟨t, ht, ho'⟩
    obtain ⟨hadmitted, rfl⟩ := (hydrate_written ho hv hes t).1 ht
    exact ⟨hadmitted, (Except.ok.inj ho').symm⟩
  · intro ⟨hadmitted, ho'⟩
    exact ⟨_, (hydrate_written ho hv hes _).2 ⟨hadmitted, rfl⟩, congrArg Except.ok ho'.symm⟩

/-- What is read has the ids that were written. -/
theorem logicalId_vector {ls : List (List StoredEntity)}
    (h : (es.map (row wire)).mapM (readRow wire) = .ok ls)
    (hkind : kind ≠ .ontologyHeader) :
    (vector ls.flatten kind).map kind.logicalId = (vector es kind).map kind.logicalId := by
  have hread := forall₂_vector h hkind
  generalize vector es kind = ds at hread ⊢
  generalize vector ls.flatten kind = ds' at hread ⊢
  induction hread with
  | nil => rfl
  | @cons d d' ds ds' hd _ ih =>
    rw [map_cons, map_cons, ih]
    exact congrArg (· :: _) (wire.logicalId_decode ⟨kind, d⟩ d' hd)

/-- The ids of a kind are distinct when the keys of the entities are. -/
theorem nodup_logicalId (hes : es.Perm (extractEntities o))
    (hkeys : ((extractEntities o).map fun e => (e.kind, e.logicalId)).Nodup) (kind : EntityKind) :
    ((vector es kind).map kind.logicalId).Nodup := by
  have hnd := ((hes.map fun e => (e.kind, e.logicalId)).nodup_iff.2 hkeys).sublist
    ((filter_sublist (p := fun e => e.kind = kind)).map _)
  rw [filter_kind, map_map] at hnd
  refine Nodup.of_map (fun id => (kind, id)) ?_
  rwa [map_map]

/-- An ontology that is assembled to itself, but for the order, has entities that read back. -/
theorem readsBack_of_assembleIr (hes : es.Perm (extractEntities o))
    (hkeys : ((extractEntities o).map fun e => (e.kind, e.logicalId)).Nodup)
    (h : assembleIr wire (es.map (row wire)) = .ok o') (hsame : SameUpToOrder o' o) :
    ∀ e ∈ es, ReadsBack wire e := by
  obtain ⟨ls, hls, h⟩ := bind_eq_ok_iff.1 h
  obtain ⟨header, hheader, h⟩ := bind_eq_ok_iff.1 h
  obtain ⟨t, ht, h⟩ := bind_eq_ok_iff.1 h
  have hids (kind : EntityKind) (hkind : kind ≠ .ontologyHeader) :
      ((vector ls.flatten kind).map kind.logicalId).Nodup := by
    rw [logicalId_vector hls hkind]
    exact nodup_logicalId hes hkeys kind
  have hprofiles : ((vector ls.flatten .columnProfile).map (·.id)).Nodup := by
    refine Nodup.of_map ColumnProfileId.val ?_
    rw [map_map]
    exact hids .columnProfile nofun
  have hinventory : ((vector ls.flatten .tableInventory).map TableInventoryEntry.key).Nodup := by
    refine Nodup.of_map (fun k => k.1.val ++ ":" ++ k.2) ?_
    rw [map_map]
    exact hids .tableInventory nofun
  obtain ⟨rfl, -⟩ := hydrate_yields hprofiles hinventory t ht
  obtain rfl : assembled header ls.flatten = o' := Except.ok.inj h
  intro ⟨kind, d⟩ he
  by_cases hkind : kind = .ontologyHeader
  · subst hkind
    have hd : d ∈ [headerOf o] := (vector_perm hes .ontologyHeader).mem_iff.1 (mem_vector.2 he)
    obtain rfl : d = headerOf o := mem_singleton.1 hd
    obtain rfl : header = headerOf o :=
      (List.cons.inj (perm_singleton.1 (hsame .ontologyHeader))).1
    rw [readHeader_rows hes] at hheader
    unfold ReadsBack
    cases hdecode : wire.decode .ontologyHeader (wire.encode ⟨.ontologyHeader, headerOf o⟩) with
    | none =>
      rw [hdecode] at hheader
      cases hheader
    | some header =>
      rw [hdecode] at hheader
      exact congrArg some (Except.ok.inj hheader)
  · have hd : d ∈ vector es kind := mem_vector.2 he
    obtain ⟨d', hd', hdecode⟩ := exists_of_mem_left (forall₂_vector hls hkind) hd
    have hperm := hsame kind
    rw [collection_assembled _ _ hkind] at hperm
    have hd'es : d' ∈ vector es kind :=
      (vector_perm hes kind).mem_iff.2 (hperm.mem_iff.1 hd')
    obtain rfl : d' = d := inj_on_of_nodup_map (nodup_logicalId hes hkeys kind) hd'es hd
      (wire.logicalId_decode ⟨kind, d⟩ d' hdecode)
    exact hdecode

end

/-! ## Reading the ontology back -/

section

variable {Json Hash : Type} {wire : Wire Json Hash} {o : OntologyIR} {es : List StoredEntity}

/-- The ids of a kind in the order of their rows. -/
def arrivals (rows : List (OntologyEntityJoinRow Json)) (kind : EntityKind) : List String :=
  (rows.filter fun row => row.entityKind = kind.asStr).map (·.entityLogicalId)

/-- When the rows give the ontology back: every entity reads back, the terms, concepts and code
systems arrive after those they refer to, and the entries pass the checks of the mutators that
`validate` does not make. -/
structure Hydratable (wire : Wire Json Hash) (o : OntologyIR)
    (rows : List (OntologyEntityJoinRow Json)) : Prop where
  contents : ∀ e ∈ extractEntities o, ReadsBack wire e
  terms : ∀ d ∈ o.glossary, ∀ k ∈ termReferences d,
    Precedes (arrivals rows .glossaryTerm) k.val d.id.val
  concepts : ∀ d ∈ o.concepts, ∀ k ∈ conceptReferences d,
    Precedes (arrivals rows .concept) k.val d.id.val
  systems : ∀ d ∈ o.codeSystems, ∀ k ∈ d.replacedById.toList,
    Precedes (arrivals rows .codeSystem) k.val d.id.val
  codes : ∀ d ∈ o.codeSystems, CodesPass d
  patterns : ∀ d ∈ o.notationPatterns, HasValueSets (o.valueSets.map (·.id)) d
  bands : ∀ d ∈ o.valueRangeSets, OntologyState.validateValueRangeSet d = .ok ()

theorem arrivals_rows (wire : Wire Json Hash) (es : List StoredEntity) (kind : EntityKind) :
    arrivals (es.map (row wire)) kind = (vector es kind).map kind.logicalId := by
  unfold arrivals
  rw [filter_rows, map_map]
  rfl

/-- An order on ids is one on their texts. -/
theorem precedes_map_iff {α β : Type} {f : α → β} (hf : Function.Injective f) {ids : List α}
    {a b : α} : Precedes (ids.map f) (f a) (f b) ↔ Precedes ids a b := by
  constructor
  · intro ⟨pre, post, hids, ha⟩
    obtain ⟨pre, rest, rfl, rfl, hrest⟩ := map_eq_append_iff.1 hids
    obtain ⟨b', post, rfl, hb, rfl⟩ := map_eq_cons_iff.1 hrest
    exact ⟨pre, post, by rw [hf hb], (mem_map_of_injective hf).1 ha⟩
  · intro ⟨pre, post, hids, ha⟩
    exact ⟨pre.map f, post.map f, by rw [hids, map_append, map_cons],
      mem_map_of_mem ha⟩

/-- Entries come in turn when their rows arrive after those they refer to. -/
theorem inTurn_iff_arrivals {α κ : Type} {key : α → κ} {val : κ → String}
    (hval : Function.Injective val) {refs : α → List κ} {xs ys : List α}
    (hnd : (ys.map key).Nodup) (hperm : xs.Perm ys) :
    InTurn (fun pre d => ∀ k ∈ refs d, k ∈ pre.map key) xs ↔
      ∀ d ∈ ys, ∀ k ∈ refs d, Precedes (xs.map fun d => val (key d)) (val k) (val (key d)) := by
  rw [inTurn_iff_precedes ((hperm.map key).nodup_iff.2 hnd)]
  have hids : xs.map (fun d => val (key d)) = (xs.map key).map val := by rw [map_map]; rfl
  simp only [hids, precedes_map_iff hval, hperm.mem_iff]

/-- The mutators admit the entities when their rows arrive in turn. -/
theorem hydratable_iff (ho : o.Indexed) (hes : es.Perm (extractEntities o)) :
    Hydratable wire o (es.map (row wire)) ↔
      (∀ e ∈ es, ReadsBack wire e) ∧ Admitted (assembled (headerOf o) es) := by
  have hnames := (OntologyIR.registriesIndexed_iff _).1 ho.registries
  have htermId : Function.Injective GlossaryTermId.val := by rintro ⟨a⟩ ⟨b⟩ rfl; rfl
  have hconceptId : Function.Injective ConceptId.val := by rintro ⟨a⟩ ⟨b⟩ rfl; rfl
  have hsystemId : Function.Injective CodeSystemId.val := by rintro ⟨a⟩ ⟨b⟩ rfl; rfl
  have hterms : InTurn (fun pre d => ∀ k ∈ termReferences d, k ∈ pre.map (·.id))
      (vector es .glossaryTerm) ↔ _ :=
    inTurn_iff_arrivals htermId hnames.2.2.2.2.2.2.1 (vector_perm hes .glossaryTerm)
  have hconcepts : InTurn (fun pre d => ∀ k ∈ conceptReferences d, k ∈ pre.map (·.id))
      (vector es .concept) ↔ _ :=
    inTurn_iff_arrivals hconceptId hnames.2.2.2.2.2.2.2.2.1 (vector_perm hes .concept)
  have hsystems : InTurn (fun pre d => ∀ k ∈ d.replacedById.toList, k ∈ pre.map (·.id))
      (vector es .codeSystem) ↔ _ :=
    inTurn_iff_arrivals hsystemId hnames.2.2.2.2.2.2.2.2.2.1 (vector_perm hes .codeSystem)
  have hcodes : (∀ d ∈ vector es .codeSystem, CodesPass d) ↔ ∀ d ∈ o.codeSystems, CodesPass d :=
    forall_congr' fun d => imp_congr_left (vector_perm hes .codeSystem).mem_iff
  have hpatterns : (∀ d ∈ vector es .notationPattern,
        HasValueSets ((vector es .valueSet).map (·.id)) d) ↔
      ∀ d ∈ o.notationPatterns, HasValueSets (o.valueSets.map (·.id)) d := by
    unfold HasValueSets
    simp only [((vector_perm hes .valueSet).map _).mem_iff,
      (vector_perm hes .notationPattern).mem_iff]
    rfl
  have hbands : (∀ d ∈ vector es .valueRangeSet, OntologyState.validateValueRangeSet d = .ok ()) ↔
      ∀ d ∈ o.valueRangeSets, OntologyState.validateValueRangeSet d = .ok () :=
    forall_congr' fun d => imp_congr_left (vector_perm hes .valueRangeSet).mem_iff
  have harrivals (kind : EntityKind) := arrivals_rows wire es kind
  constructor
  · intro h
    refine ⟨fun e he => h.contents e (hes.mem_iff.1 he), hterms.2 ?_, hconcepts.2 ?_,
      hcodes.2 h.codes, hsystems.2 ?_, hpatterns.2 h.patterns, hbands.2 h.bands⟩
    · have hin := h.terms
      rwa [harrivals] at hin
    · have hin := h.concepts
      rwa [harrivals] at hin
    · have hin := h.systems
      rwa [harrivals] at hin
  · intro ⟨hback, h⟩
    refine ⟨fun e he => hback e (hes.mem_iff.2 he), ?_, ?_, ?_, hcodes.1 h.codes,
      hpatterns.1 h.patterns, hbands.1 h.bands⟩
    · rw [harrivals]
      exact hterms.1 h.terms
    · rw [harrivals]
      exact hconcepts.1 h.concepts
    · rw [harrivals]
      exact hsystems.1 h.systems

variable [DecidableEq Hash] {contents contents' : Contents wire}
  {pointers : List (EntityPointer Hash)} {rows : List (OntologyEntityJoinRow Json)}

/-- The rows of a version in some order are those of its entities in some order. -/
theorem exists_entities (hcommit : commitVersion wire contents o = some (pointers, contents'))
    (hrows : rows.Perm (joinRows wire pointers contents')) : ∃ es : List StoredEntity,
      es.Perm (extractEntities o) ∧ rows = es.map (StoredEntity.row wire) := by
  rw [(joinRows_commit hcommit).2] at hrows
  have hsame : Forall₂ (fun row e => row = StoredEntity.row wire e)
      ((extractEntities o).map (StoredEntity.row wire)) (extractEntities o) := by
    rw [forall₂_map_left_iff, forall₂_same]
    exact fun _ _ => rfl
  obtain ⟨es, hrows, hes⟩ := perm_comp_forall₂ hrows hsame
  refine ⟨es, hes, ?_⟩
  rw [← forall₂_eq_eq_eq, forall₂_map_right_iff]
  exact hrows

/-- A committed ontology that validates is read back from its rows, but for the order of its
collections, exactly when they are hydratable. -/
theorem readBack_iff (ho : o.Indexed) (hv : o.validate = [])
    (hcommit : commitVersion wire contents o = some (pointers, contents'))
    (hrows : rows.Perm (joinRows wire pointers contents')) :
    (∃ o', assembleIr wire rows = .ok o' ∧ SameUpToOrder o' o) ↔ Hydratable wire o rows := by
  have hclean := (OntologyIR.validate_nil_iff o).1 hv
  obtain ⟨es, hes, rfl⟩ := exists_entities hcommit hrows
  rw [hydratable_iff ho hes]
  constructor
  · intro ⟨o', hrun, hsame⟩
    have hback := readsBack_of_assembleIr hes (joinRows_commit hcommit).1 hrun hsame
    exact ⟨hback, ((assembleIr_ok_iff ho hclean hes hback).1 hrun).1⟩
  · intro ⟨hback, hadmitted⟩
    exact ⟨_, (assembleIr_ok_iff ho hclean hes hback).2 ⟨hadmitted, rfl⟩,
      assembled_sameUpToOrder hes⟩

end

/-! ## A narrower concept whose row comes first -/

section

/-- Fruit, and apples below it. -/
def orchard : OntologyIR where
  id := "o"
  name := "Orchard"
  nodeTypes := []
  glossary :=
    [{ id := ⟨"fruit"⟩, conceptId := some ⟨"fruit"⟩ },
      { id := ⟨"apple"⟩, conceptId := some ⟨"apple"⟩ }]
  concepts :=
    [{ id := ⟨"fruit"⟩, canonicalTermId := ⟨"fruit"⟩ },
      { id := ⟨"apple"⟩, canonicalTermId := ⟨"apple"⟩, broader := some ⟨"fruit"⟩ }]

/-- The fields of a header, a term and a concept that the orchard uses. -/
def writeFields (e : StoredEntity) : List (Option String) :=
  match e with
  | ⟨.ontologyHeader, h⟩ => [some h.id, some h.name]
  | ⟨.glossaryTerm, d⟩ => [some d.id.val, d.conceptId.map (·.val)]
  | ⟨.concept, d⟩ => [some d.id.val, some d.canonicalTermId.val, d.broader.map (·.val)]
  | _ => []

def readFields (kind : EntityKind) (fields : List (Option String)) : Option kind.Payload :=
  match kind, fields with
  | .ontologyHeader, [some id, some name] =>
    some { id := id, name := name, displayName := .empty, description := .empty, version := {} }
  | .glossaryTerm, [some id, conceptId] =>
    some { id := ⟨id⟩, conceptId := conceptId.map ConceptId.mk }
  | .concept, [some id, some termId, broader] =>
    some { id := ⟨id⟩, canonicalTermId := ⟨termId⟩, broader := broader.map ConceptId.mk }
  | _, _ => none

/-- Entities as lists of texts, each its own hash. -/
def fieldWire : Wire (List (Option String)) (List (Option String)) where
  encode := writeFields
  decode := readFields
  hash := id
  logicalId_decode := by
    intro ⟨kind, d⟩ d' h
    cases kind <;> first | cases h; rfl | cases h
  hash_injective := Function.injective_id

def emptyStore : Contents fieldWire := ⟨[], nofun, List.nodup_nil⟩

theorem commit_orchard :
    ∃ committed, commitVersion fieldWire emptyStore orchard = some committed := by
  unfold commitVersion
  exact ⟨_, if_pos (by decide)⟩

/-- The rows in the order of the extraction give the orchard back. -/
theorem readBack_orchard :
    ∃ o', assembleIr fieldWire ((extractEntities orchard).map (row fieldWire)) =
      .ok o' ∧ SameUpToOrder o' orchard := by
  obtain ⟨⟨pointers, contents⟩, hcommit⟩ := commit_orchard
  refine (readBack_iff ((OntologyIR.rebuild_ok_iff _).1 rfl) (by decide) hcommit
    (Perm.of_eq (joinRows_commit hcommit).2.symm)).2 ?_
  refine { contents := ?_, terms := ?_, concepts := ?_, systems := nofun, codes := nofun
           patterns := nofun, bands := nofun }
  · intro ⟨kind, d⟩ he
    have hd : d ∈ kind.collection orchard := by
      rw [← vector_extractEntities]
      exact mem_vector.2 he
    cases kind with
    | ontologyHeader =>
      obtain rfl := mem_singleton.1 hd
      rfl
    | glossaryTerm | concept => rcases mem_pair.1 hd with rfl | rfl <;> rfl
    | _ => cases hd
  · intro d hd k hk
    rcases mem_pair.1 hd with rfl | rfl <;> cases hk
  · rw [arrivals_rows, vector_extractEntities]
    intro d hd k hk
    rcases mem_pair.1 hd with rfl | rfl
    · cases hk
    · obtain rfl := mem_singleton.1 hk
      exact ⟨["fruit"], [], rfl, mem_singleton_self _⟩

/-- Apples before fruit are refused. -/
theorem orchard_refused : orchard.validate = [] ∧
      ∃ committed rows, commitVersion fieldWire emptyStore orchard = some committed ∧
        rows.Perm (joinRows fieldWire committed.1 committed.2) ∧
        assembleIr fieldWire rows = .error (.rejected "add_concept"
          (.invalidReference "concept.broader" "apple" "fruit")) := by
  obtain ⟨committed, hcommit⟩ := commit_orchard
  refine ⟨by decide, committed,
    ((extractEntities orchard).map (row fieldWire)).reverse, hcommit, ?_, ?_⟩
  · rw [(joinRows_commit hcommit).2]
    exact reverse_perm _
  · rfl

end

end Ontosyx.Store
