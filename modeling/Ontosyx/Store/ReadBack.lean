import Ontosyx.Ontology.Pointers
import Ontosyx.Ontology.Validity
import Ontosyx.Store.Hydration

/-!
# Hydration

The header and the vectors go into an empty ontology one after the other.  They go in when the
terms, concepts and code systems each follow those they refer to and the registries pass the
checks that validation does not make.

## Main results

* `hydrate_loads` — when the entities go in, and what they come to.
* `hydrate_yields` — what has gone in is there.
-/

namespace Ontosyx.Store

open List Ontosyx.Core Ontology Lib.Checked Lib.Keyed Lib.Positions OntologyState

variable {next : OntologyState → Except AssembleError OntologyState} {o' : OntologyIR}

section

variable {o : OntologyIR}

theorem systemById_some_iff (hnd : (o.codeSystems.map (·.id)).Nodup) {id : CodeSystemId}
    {d : CodeSystemDef} :
    (ofIR o).codeSystemById id = some d ↔ d ∈ o.codeSystems ∧ d.id = id := by
  refine ⟨mem_of_systemById, fun ⟨hd, hid⟩ => ?_⟩
  have hsome : ((ofIR o).codeSystemById id).isNone ≠ true := by
    rw [ne_eq, systemById_isNone_iff, not_not]
    exact mem_map.2 ⟨d, hd, hid⟩
  cases hfound : (ofIR o).codeSystemById id with
  | none => exact absurd (by rw [hfound]; rfl) hsome
  | some d' =>
    obtain ⟨hd', hid'⟩ := mem_of_systemById hfound
    rw [eq_of_key_eq _ hnd hd' hd (hid'.trans hid.symm)]

section

variable (hnd : (o'.codeSystems.map (·.id)).Nodup) (hsystems : o.codeSystems ⊆ o'.codeSystems)
include hnd hsystems

/-- A system that is pointed at is found, with its code. -/
theorem exists_systemById {id : CodeSystemId} (h : o.Has (.codeSystem id)) :
    ∃ system, (ofIR o').codeSystemById id = some system ∧
      (∀ code, o.Has (.code id code) → code ∈ system.codes.map (·.code)) ∧
      ∀ rootId, o.Has (.descendantsRoot id rootId) → rootId ∈ system.codes.map (·.id) := by
  obtain ⟨system, hmem, hid⟩ := mem_map.1 h
  have hsame : ∀ d ∈ o.codeSystems, d.id = id → d = system := fun d hd hdid =>
    eq_of_key_eq _ hnd (hsystems hd) (hsystems hmem) (hdid.trans hid.symm)
  refine ⟨system, (systemById_some_iff hnd).2 ⟨hsystems hmem, hid⟩, ?_, ?_⟩
  · intro code ⟨d, hd, hdid, hcode⟩
    exact hsame d hd hdid ▸ hcode
  · intro rootId ⟨d, hd, hdid, hroot⟩
    exact hsame d hd hdid ▸ hroot

/-- A value set goes in beside the code systems it points at. -/
theorem validateValueSet_of_has {d : ValueSetDef} (h : ∀ ptr ∈ d.pointers, o.Has ptr) :
    (ofIR o').validateValueSetReferences d = .ok () := by
  refine forM_eq_ok_iff.2 fun r hr => ?_
  have hrule : ∀ ptr ∈ r.pointers, o.Has ptr :=
    fun ptr hptr => h ptr (mem_flatMap.2 ⟨r, hr, hptr⟩)
  obtain ⟨system, hsystem, hcodes, hroots⟩ :=
    exists_systemById hnd hsystems (hrule _ mem_cons_self)
  unfold validateIncludeRule
  unfold ValueSetIncludeRule.pointers at hrule
  rw [hsystem]
  cases hsel : r.selector with
  | explicit codes =>
    rw [hsel] at hrule
    simp only [forM_eq_ok_iff, rejectIf_ok_iff, not_not]
    exact fun code hcode => hcodes code
      (hrule _ (mem_cons_of_mem _ (mem_map_of_mem hcode)))
  | descendantsOf rootId =>
    rw [hsel] at hrule
    exact rejectIf_ok_iff.2
      (not_not.2 (hroots rootId (hrule _ (mem_cons_of_mem _ (mem_singleton_self _)))))
  | all => rfl
  | codePattern pattern => rfl

/-- A concept map goes in beside the code systems it points at. -/
theorem validateConceptMap_of_has {d : ConceptMapDef} (h : ∀ ptr ∈ d.pointers, o.Has ptr) :
    (ofIR o').validateConceptMapReferences d = .ok () := by
  have hpointers : ∀ m ∈ d.mappings, o.Has (.code d.sourceSystemId m.sourceCode) ∧
      o.Has (.code d.targetSystemId m.targetCode) := by
    intro m hm
    constructor <;>
    · apply h
      simp only [ConceptMapDef.pointers, mem_cons, mem_flatMap]
      exact .inr (.inr ⟨m, hm, by simp⟩)
  obtain ⟨source, hsource, hsourceCodes, -⟩ :=
    exists_systemById hnd hsystems (h _ mem_cons_self)
  obtain ⟨target, htarget, htargetCodes, -⟩ :=
    exists_systemById hnd hsystems (h _ (mem_cons_of_mem _ mem_cons_self))
  unfold validateConceptMapReferences
  rw [hsource, htarget]
  simp only [forM_eq_ok_iff, seq_eq_ok_iff, rejectIf_ok_iff, not_not]
  exact fun m hm => ⟨hsourceCodes _ (hpointers m hm).1, htargetCodes _ (hpointers m hm).2⟩

end

/-- The value sets a pattern takes codes from are there. -/
def HasValueSets (valueSetIds : List ValueSetId) (d : NotationPatternDef) : Prop :=
  ∀ c ∈ d.components, ∀ id, c.kind = .codeFromSet id → id ∈ valueSetIds

theorem validatePattern_iff {d : NotationPatternDef} :
    (ofIR o).validateNotationPatternReferences d = .ok () ↔
      HasValueSets (o.valueSets.map (·.id)) d := by
  have hidx (id : ValueSetId) :
      ((ofIR o).lookup.valueSetIdIdx id).isNone = true ↔
        id ∉ o.valueSets.map (·.id) := by
    rw [← position_isSome_iff, ← Option.not_isSome, Bool.not_eq_true', Bool.not_eq_true]
    rfl
  unfold validateNotationPatternReferences
  rw [forM_eq_ok_iff]
  refine forall₂_congr fun c _ => ?_
  cases c.kind with
  | codeFromSet id =>
    simp only [hidx]
    by_cases hmem : id ∈ o.valueSets.map (·.id)
    · rw [if_neg (not_not.2 hmem)]
      exact iff_of_true rfl (by rintro _ ⟨⟩; exact hmem)
    · rw [if_pos hmem]
      exact iff_of_false nofun fun h => hmem (h id rfl)
  | _ => exact iff_of_true rfl nofun

theorem patterns_in_turn_iff {ds : List NotationPatternDef} :
    InTurn (fun pre d => (ofIR
        { o with notationPatterns := pre }).validateNotationPatternReferences d = .ok ()) ds ↔
      ∀ d ∈ ds, HasValueSets (o.valueSets.map (·.id)) d := by
  rw [← inTurn_const_iff]
  exact inTurn_congr fun _ _ => validatePattern_iff

end

/-! ## Loading -/

/-- A computation goes through under a condition, and comes to freshly indexed vectors. -/
def Loads (P : Prop) (run : Except AssembleError OntologyState) (o : OntologyIR) : Prop :=
  ∀ t, run = .ok t ↔ P ∧ t = ofIR o

variable {o : OntologyIR} {run : Except AssembleError OntologyState}

theorem Loads.bind {P Q : Prop} (h : Loads P run o)
    (hnext : Loads Q (next (ofIR o)) o') : Loads (P ∧ Q) (run >>= next) o' := by
  intro t
  rw [bind_eq_ok_iff]
  constructor
  · intro ⟨s, hs, ht⟩
    obtain ⟨hP, rfl⟩ := (h s).1 hs
    obtain ⟨hQ, rfl⟩ := (hnext t).1 ht
    exact ⟨⟨hP, hQ⟩, rfl⟩
  · intro ⟨⟨hP, hQ⟩, ht⟩
    exact ⟨_, (h _).2 ⟨hP, rfl⟩, (hnext t).2 ⟨hQ, ht⟩⟩

/-- A computation that goes through in any case. -/
theorem Loads.after {Q : Prop} (h : run = .ok (ofIR o))
    (hnext : Loads Q (next (ofIR o)) o') : Loads Q (run >>= next) o' := by
  rw [h]
  exact hnext

theorem Loads.done (h : run = .ok (ofIR o)) : Loads True run o := by
  intro t
  rw [h, Except.ok.injEq, true_and, eq_comm]

theorem Loads.congr {P Q : Prop} (h : Loads P run o) (hPQ : P ↔ Q) : Loads Q run o := by
  intro t
  rw [← hPQ]
  exact h t

def assembled (h : Header) (entities : List StoredEntity) : OntologyIR where
  id := h.id
  name := h.name
  displayName := h.displayName
  description := h.description
  version := h.version
  nodeTypes := vector entities .nodeType
  edgeTypes := vector entities .edgeType
  indexes := vector entities .indexDef
  interfaces := vector entities .interface
  rules := vector entities .rule
  actions := vector entities .action
  functions := vector entities .function
  metrics := vector entities .metric
  enrichments := vector entities .enrichment
  concepts := vector entities .concept
  glossary := vector entities .glossaryTerm
  dataQuality := vector entities .dataQuality
  provenance := vector entities .provenance
  objectMappings := vector entities .objectMapping
  linkMappings := vector entities .linkMapping
  codeSystems := vector entities .codeSystem
  valueSets := vector entities .valueSet
  notationPatterns := vector entities .notationPattern
  conceptMaps := vector entities .conceptMap
  valueRangeSets := vector entities .valueRangeSet
  columnProfiles := vector entities .columnProfile
  segments := vector entities .segment
  tableInventory := vector entities .tableInventory

/-- A collection in indexed vectors is that of indexed vectors. -/
theorem indexed_put_items {α κ : Type} [DecidableEq κ] (S : Slot α κ) (ho : o.Indexed)
    (ho' : o'.Indexed) : (S.put o (S.items o')).Indexed :=
  S.indexed_put o _ ho (S.nodup_of_indexed o' ho') (S.sound_of_indexed o' ho')

theorem loads_add {α κ : Type} [DecidableEq κ] {step : String} (S : Slot α κ)
    {check : OntologyState → α → Except OntologyInvariantError Unit}
    (hput : ∀ o xs ys, S.put (S.put o xs) ys = S.put o ys) {ds : List α}
    (hempty : S.items o = []) (h : (S.put o ds).Indexed) :
    Loads (InTurn (fun pre d => check (ofIR (S.put o pre)) d = .ok ()) ds)
      (addAll step (S.add check) ds (ofIR o)) (S.put o ds) :=
  fun _ => addAll_add_iff S hput hempty h

/-- What the mutators ask of the vectors in their order. -/
structure Admitted (o : OntologyIR) : Prop where
  terms : InTurn (fun pre d => ∀ k ∈ termReferences d, k ∈ pre.map (·.id)) o.glossary
  concepts : InTurn (fun pre d => ∀ k ∈ conceptReferences d, k ∈ pre.map (·.id)) o.concepts
  codes : ∀ d ∈ o.codeSystems, CodesPass d
  systems : InTurn (fun pre d => ∀ k ∈ d.replacedById.toList, k ∈ pre.map (·.id)) o.codeSystems
  patterns : ∀ d ∈ o.notationPatterns, HasValueSets (o.valueSets.map (·.id)) d
  bands : ∀ d ∈ o.valueRangeSets, validateValueRangeSet d = .ok ()

section

variable {h : Header} {entities : List StoredEntity}

/-- What `try_new` is given: no display name. -/
def unnamed (h : Header) (entities : List StoredEntity) : OntologyIR where
  id := h.id
  name := h.name
  description := h.description
  version := h.version
  nodeTypes := vector entities .nodeType
  edgeTypes := vector entities .edgeType
  indexes := vector entities .indexDef

def topology (h : Header) (entities : List StoredEntity) : OntologyIR :=
  { unnamed h entities with displayName := h.displayName }

theorem indexed_topology (hall : (assembled h entities).Indexed) :
    (topology h entities).Indexed where
  nodeIds := hall.nodeIds
  nodeLabels := hall.nodeLabels
  propertyIds := hall.propertyIds
  edgeIds := hall.edgeIds
  objectMappingIds := nodup_nil
  linkMappingIds := nodup_nil
  registries := by constructor <;> exact nodup_nil

variable {o : OntologyIR}

theorem addEach_provenance {ds : List ProvenanceDef} :
    addEach (fun d ir => (addProvenance d ir).2) ds (ofIR o) =
      ofIR { o with provenance := o.provenance ++ ds } := by
  induction ds generalizing o with
  | nil => rw [append_nil]; rfl
  | cons d ds ih =>
    rw [append_cons]
    exact ih

/-- The index pass does not look at the provenance. -/
theorem indexed_withProvenance (ho : o.Indexed) (ds : List ProvenanceDef) :
    OntologyIR.Indexed { o with provenance := ds } :=
  { ho with registries := { ho.registries with } }

theorem tryNew_eq :
    tryNew h.id h.name h.description h.version (vector entities .nodeType)
        (vector entities .edgeType) (vector entities .indexDef) =
      (ofIR (unnamed h entities)).rebuild.1.map
        fun _ => (ofIR (unnamed h entities)).rebuild.2 := rfl

theorem tryNew_unnamed (hindexed : (topology h entities).Indexed) :
    tryNew h.id h.name h.description h.version (vector entities .nodeType)
        (vector entities .edgeType) (vector entities .indexDef) =
      .ok (ofIR (unnamed h entities)) := by
  have hplain : (unnamed h entities).Indexed :=
    { hindexed with registries := { hindexed.registries with } }
  rw [tryNew_eq, rebuild_of_indexed hplain]
  rfl

/-- The entities go in exactly when the mutators admit the vectors in their order. -/
theorem hydrate_loads (hall : (assembled h entities).Indexed)
    (hterms : ∀ c ∈ vector entities .concept, HasTerms (vector entities .glossaryTerm) c)
    (hsets : ∀ d ∈ vector entities .valueSet, ∀ ptr ∈ d.pointers, (assembled h entities).Has ptr)
    (hmaps : ∀ d ∈ vector entities .conceptMap, ∀ ptr ∈ d.pointers,
      (assembled h entities).Has ptr) :
    Loads (Admitted (assembled h entities)) (hydrate h entities) (assembled h entities) := by
  have h1 := indexed_topology hall
  have h2 : (interfaceSlot.put (topology h entities) (vector entities .interface)).Indexed :=
    indexed_put_items interfaceSlot h1 hall
  have h3 : (objectMappingSlot.put _ (vector entities .objectMapping)).Indexed :=
    indexed_put_items objectMappingSlot h2 hall
  have h4 : (linkMappingSlot.put _ (vector entities .linkMapping)).Indexed :=
    indexed_put_items linkMappingSlot h3 hall
  have h5 : (ruleSlot.put _ (vector entities .rule)).Indexed :=
    indexed_put_items ruleSlot h4 hall
  have h6 : (dataQualitySlot.put _ (vector entities .dataQuality)).Indexed :=
    indexed_put_items dataQualitySlot h5 hall
  have h7 : (actionSlot.put _ (vector entities .action)).Indexed :=
    indexed_put_items actionSlot h6 hall
  have h8 := indexed_withProvenance h7 (vector entities .provenance)
  have h9 : (functionSlot.put _ (vector entities .function)).Indexed :=
    indexed_put_items functionSlot h8 hall
  have h10 : (metricSlot.put _ (vector entities .metric)).Indexed :=
    indexed_put_items metricSlot h9 hall
  have h11 : (enrichmentSlot.put _ (vector entities .enrichment)).Indexed :=
    indexed_put_items enrichmentSlot h10 hall
  have h12 : (glossaryTermSlot.put _ (vector entities .glossaryTerm)).Indexed :=
    indexed_put_items glossaryTermSlot h11 hall
  have h13 : (conceptSlot.put _ (vector entities .concept)).Indexed :=
    indexed_put_items conceptSlot h12 hall
  have h14 : (codeSystemSlot.put _ (vector entities .codeSystem)).Indexed :=
    indexed_put_items codeSystemSlot h13 hall
  have h15 : (valueSetSlot.put _ (vector entities .valueSet)).Indexed :=
    indexed_put_items valueSetSlot h14 hall
  have h16 : (notationPatternSlot.put _ (vector entities .notationPattern)).Indexed :=
    indexed_put_items notationPatternSlot h15 hall
  have h17 : (conceptMapSlot.put _ (vector entities .conceptMap)).Indexed :=
    indexed_put_items conceptMapSlot h16 hall
  have h18 : (valueRangeSetSlot.put _ (vector entities .valueRangeSet)).Indexed :=
    indexed_put_items valueRangeSetSlot h17 hall
  have h19 : (columnProfileSlot.put _ (vector entities .columnProfile)).Indexed :=
    indexed_put_items columnProfileSlot h18 hall
  have h20 : (segmentSlot.put _ (vector entities .segment)).Indexed :=
    indexed_put_items segmentSlot h19 hall
  have h21 : (tableInventorySlot.put _ (vector entities .tableInventory)).Indexed :=
    indexed_put_items tableInventorySlot h20 hall
  have hnames := (OntologyIR.registriesIndexed_iff _).1 hall.registries
  have hload : Loads
      (InTurn (fun pre d => ∀ k ∈ termReferences d, k ∈ pre.map (·.id))
          (vector entities .glossaryTerm) ∧
        InTurn (fun pre d => ∀ k ∈ conceptReferences d, k ∈ pre.map (·.id))
          (vector entities .concept) ∧
        ((∀ d ∈ vector entities .codeSystem, CodesPass d) ∧
          InTurn (fun pre d => ∀ k ∈ d.replacedById.toList, k ∈ pre.map (·.id))
            (vector entities .codeSystem)) ∧
        (∀ d ∈ vector entities .notationPattern,
          HasValueSets ((vector entities .valueSet).map (·.id)) d) ∧
        (∀ d ∈ vector entities .valueRangeSet,
          validateValueRangeSet d = .ok ()) ∧ True)
      (hydrate h entities) (assembled h entities) := by
    unfold hydrate
    rw [tryNew_unnamed h1]
    refine .after rfl ?_
    refine .after (addAll_unchecked interfaceSlot (fun _ _ _ => rfl) rfl h2) ?_
    refine .after (addAll_unchecked objectMappingSlot (fun _ _ _ => rfl) rfl h3) ?_
    refine .after (addAll_unchecked linkMappingSlot (fun _ _ _ => rfl) rfl h4) ?_
    refine .after (addAll_unchecked ruleSlot (fun _ _ _ => rfl) rfl h5) ?_
    refine .after (addAll_unchecked dataQualitySlot (fun _ _ _ => rfl) rfl h6) ?_
    refine .after (addAll_unchecked actionSlot (fun _ _ _ => rfl) rfl h7) ?_
    rw [addEach_provenance]
    refine .after (addAll_unchecked functionSlot (fun _ _ _ => rfl) rfl h9) ?_
    refine .after (addAll_unchecked metricSlot (fun _ _ _ => rfl) rfl h10) ?_
    refine .after (addAll_unchecked enrichmentSlot (fun _ _ _ => rfl) rfl h11) ?_
    refine .bind ((loads_add glossaryTermSlot (fun _ _ _ => rfl) rfl h12).congr
      (terms_in_turn_iff hnames.2.2.2.2.2.2.1)) ?_
    refine .bind ((loads_add conceptSlot (fun _ _ _ => rfl) rfl h13).congr
      (concepts_in_turn_iff hnames.2.2.2.2.2.2.2.2.1 hterms)) ?_
    refine .bind ((loads_add codeSystemSlot (fun _ _ _ => rfl) rfl h14).congr
      (systems_in_turn_iff hnames.2.2.2.2.2.2.2.2.2.1)) ?_
    have hsystems := hnames.2.2.2.2.2.2.2.2.2.1
    refine .after ((addAll_add_iff valueSetSlot (fun _ _ _ => rfl) rfl h15).2 ⟨?_, rfl⟩) ?_
    · exact inTurn_of_forall fun pre d hd =>
        validateValueSet_of_has hsystems (Subset.refl _) (hsets d hd)
    refine .bind ((loads_add notationPatternSlot (fun _ _ _ => rfl) rfl h16).congr
      patterns_in_turn_iff) ?_
    refine .after ((addAll_add_iff conceptMapSlot (fun _ _ _ => rfl) rfl h17).2 ⟨?_, rfl⟩) ?_
    · exact inTurn_of_forall fun pre d hd =>
        validateConceptMap_of_has hsystems (Subset.refl _) (hmaps d hd)
    refine .bind ((loads_add valueRangeSetSlot (fun _ _ _ => rfl) rfl h18).congr
      inTurn_const_iff) ?_
    have hprofiles := addEach_upsert columnProfileSlot (fun _ _ _ => rfl) rfl h19
    rw [show addEach addColumnProfile _ _ = _ from hprofiles]
    refine .after (addAll_unchecked segmentSlot (fun _ _ _ => rfl) rfl h20) ?_
    exact .done (addAll_upsert tableInventorySlot (fun _ _ _ => rfl) _ rfl h21)
  refine hload.congr ⟨fun ⟨hA, hB, hC, hD, hE, _⟩ => ⟨hA, hB, hC.1, hC.2, hD, hE⟩,
    fun hadmitted => ?_⟩
  exact ⟨hadmitted.terms, hadmitted.concepts, ⟨hadmitted.codes, hadmitted.systems⟩,
    hadmitted.patterns, hadmitted.bands, trivial⟩

/-- What goes through comes to indexed vectors. -/
def Yields (run : Except AssembleError OntologyState) (o : OntologyIR) : Prop :=
  ∀ t, run = .ok t → t = ofIR o ∧ o.Indexed

theorem Yields.bind {run : Except AssembleError OntologyState} (h : Yields run o)
    (hnext : o.Indexed → Yields (next (ofIR o)) o') : Yields (run >>= next) o' := by
  intro t ht
  obtain ⟨s, hs, ht⟩ := bind_eq_ok_iff.1 ht
  obtain ⟨rfl, ho⟩ := h s hs
  exact hnext ho t ht

theorem yields_add {α κ : Type} [DecidableEq κ] {step : String} (S : Slot α κ)
    {check : OntologyState → α → Except OntologyInvariantError Unit}
    (hput : ∀ o xs ys, S.put (S.put o xs) ys = S.put o ys) {ds : List α}
    (hempty : S.items o = []) (ho : o.Indexed) :
    Yields (addAll step (S.add check) ds (ofIR o)) (S.put o ds) :=
  fun _ => ofIR_of_addAll_add S hput hempty ho

theorem tryNew_yields :
    Yields ((tryNew h.id h.name h.description h.version (vector entities .nodeType)
        (vector entities .edgeType) (vector entities .indexDef)).mapError (.rejected "try_new"))
      (unnamed h entities) := by
  intro t ht
  rw [tryNew_eq] at ht
  cases hres : (ofIR (unnamed h entities)).rebuild.1 with
  | error e =>
    rw [hres] at ht
    cases ht
  | ok u =>
    obtain ⟨heq, hindexed⟩ := ofIR_of_rebuild hres
    rw [hres] at ht
    exact ⟨(Except.ok.inj ht).symm.trans heq, hindexed⟩

/-- A version that is assembled has the header and the vectors. -/
theorem hydrate_yields (hprofiles : ((vector entities .columnProfile).map (·.id)).Nodup)
    (hinventory : ((vector entities .tableInventory).map TableInventoryEntry.key).Nodup) :
    Yields (hydrate h entities) (assembled h entities) := by
  refine tryNew_yields.bind fun h0 => ?_
  have h1 : (topology h entities).Indexed := { h0 with registries := { h0.registries with } }
  refine (yields_add interfaceSlot (fun _ _ _ => rfl) rfl h1).bind fun h2 => ?_
  refine (yields_add objectMappingSlot (fun _ _ _ => rfl) rfl h2).bind fun h3 => ?_
  refine (yields_add linkMappingSlot (fun _ _ _ => rfl) rfl h3).bind fun h4 => ?_
  refine (yields_add ruleSlot (fun _ _ _ => rfl) rfl h4).bind fun h5 => ?_
  refine (yields_add dataQualitySlot (fun _ _ _ => rfl) rfl h5).bind fun h6 => ?_
  refine (yields_add actionSlot (fun _ _ _ => rfl) rfl h6).bind fun h7 => ?_
  rw [addEach_provenance]
  have h8 := indexed_withProvenance h7 (vector entities .provenance)
  refine (yields_add functionSlot (fun _ _ _ => rfl) rfl h8).bind fun h9 => ?_
  refine (yields_add metricSlot (fun _ _ _ => rfl) rfl h9).bind fun h10 => ?_
  refine (yields_add enrichmentSlot (fun _ _ _ => rfl) rfl h10).bind fun h11 => ?_
  refine (yields_add glossaryTermSlot (fun _ _ _ => rfl) rfl h11).bind fun h12 => ?_
  refine (yields_add conceptSlot (fun _ _ _ => rfl) rfl h12).bind fun h13 => ?_
  refine (yields_add codeSystemSlot (fun _ _ _ => rfl) rfl h13).bind fun h14 => ?_
  refine (yields_add valueSetSlot (fun _ _ _ => rfl) rfl h14).bind fun h15 => ?_
  refine (yields_add notationPatternSlot (fun _ _ _ => rfl) rfl h15).bind fun h16 => ?_
  refine (yields_add conceptMapSlot (fun _ _ _ => rfl) rfl h16).bind fun h17 => ?_
  refine (yields_add valueRangeSetSlot (fun _ _ _ => rfl) rfl h17).bind fun h18 => ?_
  have h19 := columnProfileSlot.indexed_put _ (vector entities .columnProfile) h18 hprofiles trivial
  rw [show addEach addColumnProfile _ _ = _ from
    addEach_upsert columnProfileSlot (fun _ _ _ => rfl) rfl h19]
  refine (yields_add segmentSlot (fun _ _ _ => rfl) rfl h19).bind fun h20 => ?_
  exact fun t => ofIR_of_addAll_upsert tableInventorySlot (fun _ _ _ => rfl) rfl h20 hinventory

end

end Ontosyx.Store
