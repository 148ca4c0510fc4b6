import Ontosyx.Ontology.Atomicity
import Ontosyx.Ontology.Pointers

/-!
# Removal and dangling references

A removal is sound when nothing dangles afterwards and every pointer that is
left and had its target still has it.  The guards of the removals list their
referrers by hand, and the list has gaps: edge properties are asked about by
`remove_concept` alone, no guard knows the units of properties or the property
mappings, and types and rules go without any guard.

## Main results

* `sound_iff_not_mem` — removing one entry is sound exactly when
  nothing that is left points at it.
* `RemovalCall.sound_run_iff` — which calls that go through are sound.
-/

namespace Ontosyx.Ontology

open List Ontosyx.Core OntologyState Lib.Checked Lib.Keyed Lib.Positions OntologyState

/-- Nothing dangles in the result, and every pointer in it that had its target
before still has it. -/
structure RemovalSound (o o' : OntologyIR) : Prop where
  dangling : o'.danglingReferences = []
  kept : ∀ ptr ∈ o'.pointers, o.Has ptr → o'.Has ptr

variable {o' : OntologyIR} {ptr : Pointer} {o : OntologyIR} {ps : List PropertyDef}

/-- A change that adds no tracked owner is sound when it keeps the targets. -/
theorem removalSound_of_kept (ho : o.Indexed) (ho' : o'.Indexed)
    (hclean : o.danglingReferences = [])
    (htracked : ∀ ptr ∈ o'.trackedPointers, ptr ∈ o.trackedPointers)
    (hkept : ∀ ptr ∈ o'.pointers, o.Has ptr → o'.Has ptr) : RemovalSound o o' := by
  refine ⟨?_, hkept⟩
  rw [OntologyIR.dangling_nil_iff ho'.registries.codeSystems]
  intro ptr hptr
  have hhas : o.Has ptr :=
    (OntologyIR.dangling_nil_iff ho.registries.codeSystems).1 hclean ptr
      (htracked ptr hptr)
  exact hkept ptr (OntologyIR.mem_pointers_of_mem_tracked hptr) hhas

/-- Removing one entry is sound exactly when nothing that is left points at
it. -/
theorem sound_iff_not_mem (ho : o.Indexed) (ho' : o'.Indexed)
    (hclean : o.danglingReferences = [])
    (htracked : ∀ ptr ∈ o'.trackedPointers, ptr ∈ o.trackedPointers) (target : Pointer)
    (htarget : o.Has target) (hhas : ∀ ptr, o'.Has ptr ↔ o.Has ptr ∧ ptr ≠ target) :
    RemovalSound o o' ↔ target ∉ o'.pointers := by
  constructor
  · intro h hmem
    exact ((hhas target).1 (h.kept target hmem htarget)).2 rfl
  · intro h
    refine removalSound_of_kept ho ho' hclean htracked fun ptr hptr hptrHas => ?_
    exact (hhas ptr).2 ⟨hptrHas, fun heq => h (heq ▸ hptr)⟩

/-- The tracked owners of an ontology with fewer entries. -/
theorem tracked_subset (hn : o'.nodeTypes ⊆ o.nodeTypes) (he : o'.edgeTypes ⊆ o.edgeTypes)
    (hr : o'.rules ⊆ o.rules) (hv : o'.valueSets ⊆ o.valueSets)
    (hc : o'.conceptMaps ⊆ o.conceptMaps) :
    ∀ ptr ∈ o'.trackedPointers, ptr ∈ o.trackedPointers := by
  intro ptr h
  simp only [OntologyIR.trackedPointers, OntologyIR.nodePropertyPointers,
    OntologyIR.edgePropertyPointers, mem_append, mem_flatMap] at h ⊢
  rcases h with (((⟨n, hmem, h⟩ | ⟨e, hmem, h⟩) | ⟨r, hmem, h⟩) | ⟨v, hmem, h⟩) | ⟨c, hmem, h⟩
  · exact .inl (.inl (.inl (.inl ⟨n, hn hmem, h⟩)))
  · exact .inl (.inl (.inl (.inr ⟨e, he hmem, h⟩)))
  · exact .inl (.inl (.inr ⟨r, hr hmem, h⟩))
  · exact .inl (.inr ⟨v, hv hmem, h⟩)
  · exact .inr ⟨c, hc hmem, h⟩

/-- The keys that are left without the entries under one of them. -/
theorem mem_map_ne_iff {α κ : Type} {key : α → κ} {xs ys : List α} {k k' : κ}
    (h : ∀ x, x ∈ ys ↔ x ∈ xs ∧ key x ≠ k) : k' ∈ ys.map key ↔ k' ∈ xs.map key ∧ k' ≠ k := by
  constructor
  · intro hmem
    obtain ⟨x, hx, rfl⟩ := mem_map.1 hmem
    exact ⟨mem_map_of_mem ((h x).1 hx).1, ((h x).1 hx).2⟩
  · intro hmem
    obtain ⟨x, hx, rfl⟩ := mem_map.1 hmem.1
    exact mem_map_of_mem ((h x).2 ⟨hx, hmem.2⟩)

theorem mem_filter_ne_iff {α κ : Type} [DecidableEq κ] {key : α → κ} {xs : List α} {k : κ}
    (x : α) : x ∈ (xs.filter fun x => key x ≠ k) ↔ x ∈ xs ∧ key x ≠ k := by
  rw [mem_filter, decide_eq_true_iff]

/-! ## What the guards ask -/

namespace OntologyState

variable {s : OntologyState} {ptr : Pointer}

/-- A binding guard that covers a pointer keeps it out of the properties it has
asked. -/
theorem not_mem_property_pointers {refers : PropertyBinding → Bool}
    (h : ∀ p ∈ ps, p.bindings.any refers = false) (hunit : ∀ uid, ptr ≠ .codedValue uid)
    (hrefers : ∀ b : PropertyBinding, ptr ∈ b.pointers → refers b = true) :
    ptr ∉ ps.flatMap PropertyDef.pointers := by
  intro hmem
  obtain ⟨p, hp, hmem⟩ := mem_flatMap.1 hmem
  rcases mem_append.1 hmem with hb | hu
  · obtain ⟨b, hb, hmem⟩ := mem_flatMap.1 hb
    exact any_eq_false.1 (h p hp) b hb (hrefers b hmem)
  · obtain ⟨uid, -, heq⟩ := mem_toList_map.1 hu
    exact hunit uid heq

theorem not_mem_pointers {refers : PropertyBinding → Bool} {kind id : String}
    (h : s.ensureNodeBindings refers kind id = .ok ()) (hunit : ∀ uid, ptr ≠ .codedValue uid)
    (hrefers : ∀ b : PropertyBinding, ptr ∈ b.pointers → refers b = true) :
    ptr ∉ s.ir.nodePropertyPointers := by
  intro hmem
  obtain ⟨n, hn, hmem⟩ := mem_flatMap.1 hmem
  exact not_mem_property_pointers (ensureNodeBindings_ok_iff.1 h n hn) hunit hrefers hmem

/-- A rule guard that covers a pointer keeps it out of the constraints. -/
theorem not_mem_constraint {refers : ConstraintRef → Bool} {kind id : String}
    (h : s.ensureRuleReferences refers kind id = .ok ())
    (hrefers : ∀ ref : ConstraintRef, ptr ∈ ref.pointers → refers ref = true) :
    ptr ∉ s.ir.rules.flatMap RuleDef.constraintPointers := by
  intro hmem
  obtain ⟨r, hr, hmem⟩ := mem_flatMap.1 hmem
  obtain ⟨c, hc, hmem⟩ := mem_flatMap.1 hmem
  obtain ⟨ref, href, hmem⟩ := mem_flatMap.1 hmem
  have hnone := ensureRuleReferences_ok_iff.1 h r hr c hc
  exact any_eq_false.1 hnone ref href (hrefers ref hmem)

end OntologyState

namespace PropertyBinding

theorem bindsValueSet_of_mem {id : ValueSetId} (b : PropertyBinding)
    (h : .valueSet id ∈ b.pointers) : b.bindsValueSet id = true := by
  cases b <;> simp_all [pointers, bindsValueSet]

theorem bindsCodeSystem_of_mem {id : CodeSystemId} (b : PropertyBinding)
    (h : .codeSystem id ∈ b.pointers) : b.bindsCodeSystem id = true := by
  cases b <;> simp_all [pointers, bindsCodeSystem]

theorem bindsPattern_of_mem {id : NotationPatternId} (b : PropertyBinding)
    (h : .notationPattern id ∈ b.pointers) : b.bindsNotationPattern id = true := by
  cases b <;> simp_all [pointers, bindsNotationPattern]

theorem bindsValueRange_of_mem {id : ValueRangeSetId} (b : PropertyBinding)
    (h : .valueRangeSet id ∈ b.pointers) : b.bindsValueRange id = true := by
  cases b <;> simp_all [pointers, bindsValueRange]

theorem bindsConcept_of_mem {id : ConceptId} (b : PropertyBinding)
    (h : .concept id ∈ b.pointers) : b.bindsConcept id = true := by
  cases b <;> simp_all [pointers, bindsConcept]

theorem bindsConceptMap_of_mem {id : ConceptMapId} (b : PropertyBinding)
    (h : .conceptMap id ∈ b.pointers) : b.bindsConceptMap id = true := by
  cases b <;> simp_all [pointers, bindsConceptMap, conceptMapId]

end PropertyBinding

/-- A call of a removal, or of the replacement of a code system. -/
inductive RemovalCall where
  | nodeType (id : NodeTypeId)
  | edgeType (id : EdgeTypeId)
  | index (id : String)
  | rule (id : RuleId)
  | concept (id : ConceptId)
  | glossaryTerm (id : GlossaryTermId)
  | objectMapping (id : ObjectMappingId)
  | linkMapping (id : LinkMappingId)
  | valueRangeSet (id : ValueRangeSetId)
  | conceptMap (id : ConceptMapId)
  | notationPattern (id : NotationPatternId)
  | valueSet (id : ValueSetId)
  | codeSystem (id : CodeSystemId)
  | replaceCodeSystem (id : CodeSystemId) (d : CodeSystemDef)

namespace RemovalCall

def run : RemovalCall → OntologyState → Outcome Unit
  | nodeType id => removeNodeType id
  | edgeType id => removeEdgeType id
  | index id => removeIndex id
  | rule id => removeRule id
  | concept id => removeConcept id
  | glossaryTerm id => removeGlossaryTerm id
  | objectMapping id => removeObjectMapping id
  | linkMapping id => removeLinkMapping id
  | valueRangeSet id => removeValueRangeSet id
  | conceptMap id => removeConceptMap id
  | notationPattern id => OntologyState.removeNotationPattern id
  | valueSet id => OntologyState.removeValueSet id
  | codeSystem id => OntologyState.removeCodeSystem id
  | replaceCodeSystem id d => OntologyState.replaceCodeSystem id d

/-- A coded value used as a unit, or by a code of another system. -/
def UsedOutside (o : OntologyIR) (systemId : CodeSystemId) (id : CodedValueId) : Prop :=
  .codedValue id ∈ o.nodePropertyPointers ∨ .codedValue id ∈ o.edgePropertyPointers ∨
    ∃ d ∈ o.codeSystems, d.id ≠ systemId ∧ .codedValue id ∈ d.pointers

/-- A reference to what the call takes away, from an owner that no guard of the
call asks. -/
def UnguardedReference (o : OntologyIR) : RemovalCall → Prop
  | nodeType id => .nodeType id ∈ o.pointers
  | edgeType id => .edgeType id ∈ o.pointers
  | rule id => .rule id ∈ o.actions.flatMap ActionDef.pointers
  | index _ | concept _ | glossaryTerm _ | objectMapping _ | linkMapping _ => False
  | valueRangeSet id => .valueRangeSet id ∈ o.edgePropertyPointers
  | conceptMap id => .conceptMap id ∈ o.edgePropertyPointers ∨ .conceptMap id ∈ o.mappingPointers
  | notationPattern id => .notationPattern id ∈ o.edgePropertyPointers
  | valueSet id => .valueSet id ∈ o.edgePropertyPointers
  | codeSystem id =>
    .codeSystem id ∈ o.edgePropertyPointers ∨
    (∃ d ∈ o.codeSystems, d.id ≠ id ∧ .codeSystem id ∈ d.pointers) ∨
    ∃ d ∈ o.codeSystems, d.id = id ∧ ∃ cv ∈ d.codes, UsedOutside o id cv.id
  | replaceCodeSystem id d =>
    ∃ old ∈ o.codeSystems, old.id = id ∧
      ∃ cv ∈ old.codes, cv.id ∉ d.codes.map (·.id) ∧ UsedOutside o id cv.id

end RemovalCall

/-! ## Entries of a collection -/

namespace Slot

variable {α κ : Type} [DecidableEq κ] (S : Slot α κ) {s : OntologyState}

/-- The vectors without the entries under a key. -/
def without (o : OntologyIR) (id : κ) : OntologyIR :=
  S.put o ((S.items o).filter fun x => S.key x ≠ id)

theorem indexed_without (hs : s.Agrees) (id : κ) : (S.without s.ir id).Indexed := by
  have ho := hs.indexed
  have hsub : ((S.items s.ir).filter fun x => S.key x ≠ id).Sublist (S.items s.ir) :=
    filter_sublist
  refine S.indexed_put _ _ ho ((S.nodup_of_indexed _ ho).sublist (hsub.map _)) ?_
  exact S.sound_of_sublist _ _ hsub (S.sound_of_indexed _ ho)

/-- What a removal that goes through has checked and done. -/
theorem remove_of_ok (hs : s.Agrees)
    {ensure : OntologyState → κ → Except OntologyInvariantError Unit} {id : κ}
    (hok : (S.remove ensure id s).1 = .ok ()) :
    ensure s id = .ok () ∧ id ∈ (S.items s.ir).map S.key ∧
      (S.remove ensure id s).2.ir = S.without s.ir id := by
  unfold Slot.remove at hok ⊢
  cases hens : ensure s id with
  | error e => simp [hens] at hok
  | ok u =>
    by_cases hlen : ((S.items s.ir).filter fun x => S.key x ≠ id).length =
        (S.items s.ir).length
    · simp only [hens, if_pos hlen, reduceCtorEq] at hok
    · have hmem : id ∈ (S.items s.ir).map S.key := by
        by_contra hnot
        have hall : (S.items s.ir).filter (fun x => S.key x ≠ id) = S.items s.ir := by
          rw [filter_eq_self]
          intro x hx
          simpa using fun hk => hnot (mem_map.2 ⟨x, hx, hk⟩)
        exact hlen (by rw [hall])
      refine ⟨rfl, hmem, ?_⟩
      simp only [if_neg hlen]
      have hind : (s.withIR (S.without s.ir id)).ir.Indexed := S.indexed_without hs id
      exact congrArg (fun r => r.2.ir) (rebuild_of_indexed hind)

/-- Pointers find the entries by their keys, and nothing else changes with the entries. -/
structure Pointed (point : κ → Pointer) : Prop where
  injective : Function.Injective point := by
    intro _ _ h
    cases h
    rfl
  has : ∀ o xs id, (S.put o xs).Has (point id) ↔ id ∈ xs.map S.key := by
    intros
    rfl
  other : ∀ o xs ptr, (∀ id, ptr ≠ point id) → ((S.put o xs).Has ptr ↔ o.Has ptr) := by
    intro _ _ ptr h
    cases ptr <;> first | rfl | exact absurd rfl (h _)
  tracked : ∀ o xs, xs ⊆ S.items o →
      ∀ ptr ∈ (S.put o xs).trackedPointers, ptr ∈ o.trackedPointers := by
    intro _ _ _ _ h
    exact h

variable {S} {point : κ → Pointer}

theorem Pointed.has_iff (hp : S.Pointed point) (o : OntologyIR) (id : κ) :
    o.Has (point id) ↔ id ∈ (S.items o).map S.key := by
  rw [← hp.has, S.put_items]

theorem Pointed.has_without_iff (hp : S.Pointed point) (o : OntologyIR) (id : κ) (ptr : Pointer) :
    (S.without o id).Has ptr ↔ o.Has ptr ∧ ptr ≠ point id := by
  by_cases hptr : ∃ id', ptr = point id'
  · obtain ⟨id', rfl⟩ := hptr
    rw [without, hp.has, hp.has_iff, hp.injective.ne_iff]
    exact mem_map_ne_iff mem_filter_ne_iff
  · rw [without, hp.other o _ ptr (not_exists.1 hptr)]
    exact (and_iff_left fun h => hptr ⟨id, h⟩).symm

end Slot

theorem pointed : valueSetSlot.Pointed .valueSet ∧ valueRangeSetSlot.Pointed .valueRangeSet ∧
    notationPatternSlot.Pointed .notationPattern ∧ conceptMapSlot.Pointed .conceptMap ∧
    ruleSlot.Pointed .rule ∧ conceptSlot.Pointed .concept ∧
    glossaryTermSlot.Pointed .glossaryTerm := by
  refine ⟨{ tracked := fun _ _ h => ?_ }, {}, {}, { tracked := fun _ _ h => ?_ },
    { tracked := fun _ _ h => ?_ }, {}, {}⟩
  · exact tracked_subset (fun _ h => h) (fun _ h => h) (fun _ h => h) h fun _ h => h
  · exact tracked_subset (fun _ h => h) (fun _ h => h) (fun _ h => h) (fun _ h => h) h
  · exact tracked_subset (fun _ h => h) (fun _ h => h) h (fun _ h => h) fun _ h => h

namespace OntologyState

variable {s : OntologyState}

section

variable (hs : s.Agrees) (hclean : s.ir.danglingReferences = [])
include hs hclean

/-- A removal that goes through is sound when nothing that is left points at the entry. -/
theorem sound_remove_iff {α κ : Type} [DecidableEq κ] {S : Slot α κ} {point : κ → Pointer}
    (hp : S.Pointed point) {ensure : OntologyState → κ → Except OntologyInvariantError Unit}
    {id : κ} (hok : (S.remove ensure id s).1 = .ok ()) :
    RemovalSound s.ir (S.remove ensure id s).2.ir ↔ point id ∉ (S.without s.ir id).pointers := by
  obtain ⟨-, hmem, hir⟩ := S.remove_of_ok hs hok
  rw [hir]
  exact sound_iff_not_mem hs.indexed (S.indexed_without hs id) hclean
    (hp.tracked _ _ fun _ h => mem_of_mem_filter h) (point id) ((hp.has_iff _ _).2 hmem)
    (hp.has_without_iff s.ir id)

theorem sound_removeValueSet_iff {id : ValueSetId} (hok : (removeValueSet id s).1 = .ok ()) :
    RemovalSound s.ir (removeValueSet id s).2.ir ↔ .valueSet id ∉ s.ir.edgePropertyPointers := by
  have hguard := (valueSetSlot.remove_of_ok hs hok).1
  unfold ensureValueSetNotReferenced at hguard
  rw [seq_eq_ok_iff, seq_eq_ok_iff] at hguard
  obtain ⟨hnodes, hpatterns, hrules⟩ := hguard
  have hnodes : .valueSet id ∉ s.ir.nodePropertyPointers :=
    not_mem_pointers hnodes (by simp) PropertyBinding.bindsValueSet_of_mem
  have hrules : .valueSet id ∉ s.ir.rules.flatMap RuleDef.constraintPointers := by
    refine not_mem_constraint hrules fun ref href => ?_
    cases ref <;> simp [ConstraintRef.pointers] at href
    simp [href]
  have hpatterns : .valueSet id ∉ s.ir.notationPatterns.flatMap NotationPatternDef.pointers := by
    intro hmem
    obtain ⟨d, hd, hmem⟩ := mem_flatMap.1 hmem
    obtain ⟨c, hc, hmem⟩ := mem_flatMap.1 hmem
    have hnone := rejectIf_ok_iff.1 (forM_eq_ok_iff.1 hpatterns d hd)
    refine hnone (any_eq_true.2 ⟨c, hc, ?_⟩)
    cases hk : c.kind <;> simp [hk] at hmem
    simp [codesFromSet, hk, hmem]
  unfold removeValueSet
  rw [sound_remove_iff hs hclean pointed.1 hok]
  refine not_congr ⟨fun h => ?_, fun h => ?_⟩
  · rcases OntologyIR.owner_of_pointer h with h | h | h | h
    · exact absurd h hnodes
    · exact h
    · exact absurd h hrules
    · exact absurd h hpatterns
  · exact OntologyIR.mem_pointers_of_edge h

theorem sound_removeValueRangeSet_iff {id : ValueRangeSetId}
    (hok : (removeValueRangeSet id s).1 = .ok ()) :
    RemovalSound s.ir (removeValueRangeSet id s).2.ir ↔
      .valueRangeSet id ∉ s.ir.edgePropertyPointers := by
  have hguard := (valueRangeSetSlot.remove_of_ok hs hok).1
  have hnodes : .valueRangeSet id ∉ s.ir.nodePropertyPointers :=
    not_mem_pointers hguard (by simp) PropertyBinding.bindsValueRange_of_mem
  have hrules : .valueRangeSet id ∉ s.ir.rules.flatMap RuleDef.constraintPointers := by
    intro hmem
    obtain ⟨r, -, hmem⟩ := mem_flatMap.1 hmem
    obtain ⟨c, -, hmem⟩ := mem_flatMap.1 hmem
    obtain ⟨ref, -, hmem⟩ := mem_flatMap.1 hmem
    cases ref <;> simp [ConstraintRef.pointers] at hmem
  unfold removeValueRangeSet
  rw [sound_remove_iff hs hclean pointed.2.1 hok]
  refine not_congr ⟨fun h => ?_, fun h => OntologyIR.mem_pointers_of_edge h⟩
  rcases OntologyIR.owner_of_pointer h with h | h | h
  · exact absurd h hnodes
  · exact h
  · exact absurd h hrules

theorem sound_removePattern_iff {id : NotationPatternId}
    (hok : (removeNotationPattern id s).1 = .ok ()) :
    RemovalSound s.ir (removeNotationPattern id s).2.ir ↔
      .notationPattern id ∉ s.ir.edgePropertyPointers := by
  have hguard := (notationPatternSlot.remove_of_ok hs hok).1
  unfold ensureNotationPatternNotReferenced at hguard
  rw [seq_eq_ok_iff] at hguard
  obtain ⟨hnodes, hrules⟩ := hguard
  have hnodes : .notationPattern id ∉ s.ir.nodePropertyPointers :=
    not_mem_pointers hnodes (by simp) PropertyBinding.bindsPattern_of_mem
  have hrules : .notationPattern id ∉ s.ir.rules.flatMap RuleDef.constraintPointers := by
    refine not_mem_constraint hrules fun ref href => ?_
    cases ref <;> simp_all [ConstraintRef.pointers]
  unfold removeNotationPattern
  rw [sound_remove_iff hs hclean pointed.2.2.1 hok]
  refine not_congr ⟨fun h => ?_, fun h => OntologyIR.mem_pointers_of_edge h⟩
  rcases OntologyIR.owner_of_pointer h with h | h | h
  · exact absurd h hnodes
  · exact h
  · exact absurd h hrules

/-- Property mappings name concept maps as bindings do. -/
theorem sound_removeConceptMap_iff {id : ConceptMapId} (hok : (removeConceptMap id s).1 = .ok ()) :
    RemovalSound s.ir (removeConceptMap id s).2.ir ↔
      ¬(.conceptMap id ∈ s.ir.edgePropertyPointers ∨ .conceptMap id ∈ s.ir.mappingPointers) := by
  have hguard := (conceptMapSlot.remove_of_ok hs hok).1
  have hnodes : .conceptMap id ∉ s.ir.nodePropertyPointers :=
    not_mem_pointers hguard (by simp) PropertyBinding.bindsConceptMap_of_mem
  unfold removeConceptMap
  rw [sound_remove_iff hs hclean pointed.2.2.2.1 hok]
  refine not_congr ⟨fun h => ?_, fun h => ?_⟩
  · rcases OntologyIR.owner_of_pointer h with h | h | h
    · exact absurd h hnodes
    · exact .inl h
    · exact .inr h
  · rcases h with h | h
    · exact OntologyIR.mem_pointers_of_edge h
    · exact OntologyIR.mem_pointers_of_mapping h

/-- Of the listed owners only actions name rules. -/
theorem sound_removeRule_iff {id : RuleId} (hok : (removeRule id s).1 = .ok ()) :
    RemovalSound s.ir (removeRule id s).2.ir ↔
      .rule id ∉ s.ir.actions.flatMap ActionDef.pointers := by
  unfold removeRule
  rw [sound_remove_iff hs hclean pointed.2.2.2.2.1 hok]
  refine not_congr ⟨OntologyIR.owner_of_pointer, fun h => ?_⟩
  have h : .rule id ∈ (ruleSlot.without s.ir id).actions.flatMap ActionDef.pointers := h
  simp [OntologyIR.pointers, h]

omit hs hclean in
theorem bindings_of_ensureTypeConcept {id : ConceptId} {kind typeId : String}
    {concepts : List ConceptId} (h : ensureTypeConcept id kind typeId concepts ps = .ok ()) :
    ∀ p ∈ ps, p.bindings.any (PropertyBinding.bindsConcept id) = false := by
  unfold ensureTypeConcept at h
  rw [seq_eq_ok_iff, forM_eq_ok_iff] at h
  intro p hp
  simpa using rejectIf_ok_iff.1 (h.2 p hp)

/-- The guard of concepts asks every owner. -/
theorem sound_removeConcept {id : ConceptId} (hok : (removeConcept id s).1 = .ok ()) :
    RemovalSound s.ir (removeConcept id s).2.ir := by
  have hguard := (conceptSlot.remove_of_ok hs hok).1
  unfold ensureConceptNotReferenced at hguard
  simp only [seq_eq_ok_iff, forM_eq_ok_iff, rejectIf_ok_iff] at hguard
  obtain ⟨hterms, hconcepts, hnodes, hedges⟩ := hguard
  unfold removeConcept
  rw [sound_remove_iff hs hclean pointed.2.2.2.2.2.1 hok]
  intro h
  rcases OntologyIR.owner_of_pointer h with h | h | h | h
  · obtain ⟨n, hn, h⟩ := mem_flatMap.1 h
    exact not_mem_property_pointers (bindings_of_ensureTypeConcept (hnodes n hn)) (by simp)
      PropertyBinding.bindsConcept_of_mem h
  · obtain ⟨e, he, h⟩ := mem_flatMap.1 h
    exact not_mem_property_pointers (bindings_of_ensureTypeConcept (hedges e he)) (by simp)
      PropertyBinding.bindsConcept_of_mem h
  · obtain ⟨c, hc, h⟩ := mem_flatMap.1 h
    have hc : c ∈ s.ir.concepts ∧ c.id ≠ id :=
      (mem_filter_ne_iff c).1 hc
    have hother := hconcepts c hc.1
    simp [ConceptDef.pointers] at h
    rcases h with h | h
    · exact hother.1 ⟨hc.2, h⟩
    · exact hother.2 ⟨hc.2, h⟩
  · obtain ⟨t, ht, h⟩ := mem_flatMap.1 h
    refine hterms t ht ?_
    simp only [GlossaryTermDef.pointers, mem_append, mem_toList_map] at h
    rcases h with (h | h) | ⟨c, hc, heq⟩
    · simp at h
    · unfold TermLifecycle.pointers at h
      split at h <;> simp at h
    · rw [hc, Pointer.concept.inj heq]

/-- The guard of glossary terms asks every owner. -/
theorem sound_removeGlossaryTerm {id : GlossaryTermId}
    (hok : (removeGlossaryTerm id s).1 = .ok ()) :
    RemovalSound s.ir (removeGlossaryTerm id s).2.ir := by
  have hguard := (glossaryTermSlot.remove_of_ok hs hok).1
  unfold ensureGlossaryTermNotReferenced at hguard
  simp only [seq_eq_ok_iff, forM_eq_ok_iff, rejectIf_ok_iff] at hguard
  obtain ⟨hconcepts, hterms⟩ := hguard
  unfold removeGlossaryTerm
  rw [sound_remove_iff hs hclean pointed.2.2.2.2.2.2 hok]
  intro h
  rcases OntologyIR.owner_of_pointer h with h | h
  · obtain ⟨c, hc, h⟩ := mem_flatMap.1 h
    have hother := hconcepts c hc
    simp [ConceptDef.pointers] at h
    rcases h with h | h
    · exact hother.1 h.symm
    · exact hother.2 h
  · obtain ⟨t, ht, h⟩ := mem_flatMap.1 h
    have ht : t ∈ s.ir.glossary ∧ t.id ≠ id :=
      (mem_filter_ne_iff t).1 ht
    have hother := hterms t ht.1
    simp only [GlossaryTermDef.pointers, mem_append, mem_toList_map] at h
    rcases h with (h | h) | ⟨c, -, heq⟩
    · refine hother.1 ⟨ht.2, ?_⟩
      obtain ⟨r, hr, heq⟩ := mem_map.1 h
      exact mem_map.2 ⟨r, hr, Pointer.glossaryTerm.inj heq⟩
    · refine hother.2 ⟨ht.2, ?_⟩
      unfold TermLifecycle.pointers at h
      split at h
      · rename_i id' at' hlife
        rw [replacement, hlife, Pointer.glossaryTerm.inj (mem_singleton.1 h)]
      · cases h
    · cases heq

/-! ## Entries without a guard -/

/-- Dropping entries that nothing tracked points at, and that own nothing but
pointers out of the schema. -/
theorem sound_of_same_targets (ho' : o'.Indexed)
    (htracked : ∀ ptr ∈ o'.trackedPointers, ptr ∈ s.ir.trackedPointers)
    (hhas : ∀ ptr, s.ir.Has ptr → o'.Has ptr) : RemovalSound s.ir o' :=
  removalSound_of_kept hs.indexed ho' hclean htracked fun ptr _ h => hhas ptr h

theorem sound_removeObjectMapping {id : ObjectMappingId}
    (hok : (removeObjectMapping id s).1 = .ok ()) :
    RemovalSound s.ir (removeObjectMapping id s).2.ir := by
  obtain ⟨-, -, hir⟩ := objectMappingSlot.remove_of_ok hs hok
  unfold removeObjectMapping
  rw [hir]
  refine sound_of_same_targets hs hclean (objectMappingSlot.indexed_without hs id)
    (fun ptr h => h) fun ptr h => ?_
  cases ptr <;> exact h

theorem sound_removeLinkMapping {id : LinkMappingId} (hok : (removeLinkMapping id s).1 = .ok ()) :
    RemovalSound s.ir (removeLinkMapping id s).2.ir := by
  obtain ⟨-, -, hir⟩ := linkMappingSlot.remove_of_ok hs hok
  unfold removeLinkMapping
  rw [hir]
  refine sound_of_same_targets hs hclean (linkMappingSlot.indexed_without hs id)
    (fun ptr h => h) fun ptr h => ?_
  cases ptr <;> exact h

theorem sound_removeIndex {id : String} (hok : (removeIndex id s).1 = .ok ()) :
    RemovalSound s.ir (removeIndex id s).2.ir := by
  unfold removeIndex at hok ⊢
  cases hpos : s.ir.indexes.findIdx? fun i => indexIdOf i = id with
  | none => simp [hpos] at hok
  | some pos =>
    have hind := indexed_indexes hs.indexed (s.ir.indexes.eraseIdx pos)
    have hir : (s.withIR { s.ir with indexes := s.ir.indexes.eraseIdx pos }).rebuild.2.ir =
        { s.ir with indexes := s.ir.indexes.eraseIdx pos } := by
      rw [rebuild_of_indexed hind]
      rfl
    simp only [hir]
    refine sound_of_same_targets hs hclean hind (fun ptr h => h) fun ptr h => ?_
    cases ptr <;> exact h

omit hs hclean in
theorem not_mem_properties_of_type (hptr : ptr.kind = .type) :
    ptr ∉ ps.flatMap PropertyDef.pointers := by
  intro hmem
  obtain ⟨p, -, hmem⟩ := mem_flatMap.1 hmem
  have hkind := p.kind_of_pointer hmem
  simp [hptr] at hkind

omit hs hclean in
/-- Pointers at types do not come from the schema itself. -/
theorem mem_pointers_type_congr (hptr : ptr.kind = .type)
    (h : o' = { o with nodeTypes := o'.nodeTypes, edgeTypes := o'.edgeTypes }) :
    ptr ∈ o'.pointers ↔ ptr ∈ o.pointers := by
  have hn (o : OntologyIR) : ptr ∉ o.nodePropertyPointers := by
    intro hmem
    obtain ⟨n, -, hmem⟩ := mem_flatMap.1 hmem
    exact not_mem_properties_of_type hptr hmem
  have he (o : OntologyIR) : ptr ∉ o.edgePropertyPointers := by
    intro hmem
    obtain ⟨e, -, hmem⟩ := mem_flatMap.1 hmem
    exact not_mem_properties_of_type hptr hmem
  simp only [OntologyIR.pointers, mem_append, hn, he, false_or]
  rw [h]
  exact Iff.rfl

theorem sound_removeNodeType_iff {id : NodeTypeId} (hok : (removeNodeType id s).1 = .ok ()) :
    RemovalSound s.ir (removeNodeType id s).2.ir ↔ .nodeType id ∉ s.ir.pointers := by
  have ho := hs.indexed
  unfold removeNodeType at hok ⊢
  cases hidx : s.lookup.nodeIdIdx id with
  | none => simp [hidx] at hok
  | some idx =>
    have hpos : position (·.id) s.ir.nodeTypes id = some idx := by
      rw [hs.lookup_eq] at hidx
      exact hidx
    have hmem (n : NodeTypeDef) : n ∈ s.ir.nodeTypes.eraseIdx idx ↔
        n ∈ s.ir.nodeTypes ∧ n.id ≠ id := mem_eraseIdx_of_position ho.nodeIds hpos
    have hind : OntologyIR.Indexed
        { s.ir with nodeTypes := s.ir.nodeTypes.eraseIdx idx } :=
      (indexed_nodeTypes_iff ho _).2
        ((distinctNodes_of_indexed ho).sublist (eraseIdx_sublist _ _))
    have hir : (s.withIR { s.ir with nodeTypes := s.ir.nodeTypes.eraseIdx idx }).rebuild.2.ir =
        { s.ir with nodeTypes := s.ir.nodeTypes.eraseIdx idx } := by
      rw [rebuild_of_indexed hind]
      rfl
    simp only [hir]
    rw [sound_iff_not_mem ho hind hclean _ (.nodeType id),
      mem_pointers_type_congr rfl rfl]
    · exact position_isSome_iff.1 (by rw [hpos]; rfl)
    · intro ptr
      cases ptr with
      | nodeType id' =>
        exact (mem_map_ne_iff hmem).trans
          (and_congr_right fun _ => not_congr ⟨congrArg _, Pointer.nodeType.inj⟩)
      | _ => exact (and_iff_left (by simp)).symm
    · exact tracked_subset (fun n h => ((hmem n).1 h).1) (fun _ h => h) (fun _ h => h)
        (fun _ h => h) (fun _ h => h)

theorem sound_removeEdgeType_iff {id : EdgeTypeId} (hok : (removeEdgeType id s).1 = .ok ()) :
    RemovalSound s.ir (removeEdgeType id s).2.ir ↔ .edgeType id ∉ s.ir.pointers := by
  have ho := hs.indexed
  unfold removeEdgeType at hok ⊢
  cases hidx : s.lookup.edgeIdIdx id with
  | none => simp [hidx] at hok
  | some idx =>
    have hpos : position (·.id) s.ir.edgeTypes id = some idx := by
      rw [hs.lookup_eq] at hidx
      exact hidx
    have hmem (e : EdgeTypeDef) : e ∈ s.ir.edgeTypes.eraseIdx idx ↔
        e ∈ s.ir.edgeTypes ∧ e.id ≠ id := mem_eraseIdx_of_position ho.edgeIds hpos
    have hind : OntologyIR.Indexed
        { s.ir with edgeTypes := s.ir.edgeTypes.eraseIdx idx } :=
      (indexed_edgeTypes_iff ho _).2 (ho.edgeIds.sublist ((eraseIdx_sublist _ _).map _))
    have hir : (s.withIR { s.ir with edgeTypes := s.ir.edgeTypes.eraseIdx idx }).rebuild.2.ir =
        { s.ir with edgeTypes := s.ir.edgeTypes.eraseIdx idx } := by
      rw [rebuild_of_indexed hind]
      rfl
    simp only [hir]
    rw [sound_iff_not_mem ho hind hclean _ (.edgeType id),
      mem_pointers_type_congr rfl rfl]
    · exact position_isSome_iff.1 (by rw [hpos]; rfl)
    · intro ptr
      cases ptr with
      | edgeType id' =>
        exact (mem_map_ne_iff hmem).trans
          (and_congr_right fun _ => not_congr ⟨congrArg _, Pointer.edgeType.inj⟩)
      | _ => exact (and_iff_left (by simp)).symm
    · exact tracked_subset (fun _ h => h) (fun e h => ((hmem e).1 h).1) (fun _ h => h)
        (fun _ h => h) (fun _ h => h)

end

end OntologyState

/-! ## Code systems -/

def Pointer.systemId? : Pointer → Option CodeSystemId
  | .codeSystem id | .code id _ | .descendantsRoot id _ => some id
  | _ => none

/-- A pointer of a value set is about the system of one of its rules. -/
theorem ValueSetDef.exists_rule_of_mem {d : ValueSetDef} (h : ptr ∈ d.pointers) :
    ∃ r ∈ d.composition, ptr.systemId? = some r.systemId := by
  obtain ⟨r, hr, h⟩ := mem_flatMap.1 h
  refine ⟨r, hr, ?_⟩
  rcases mem_cons.1 h with rfl | h
  · rfl
  · cases hs : r.selector with
    | explicit codes =>
      rw [hs] at h
      obtain ⟨code, -, rfl⟩ := mem_map.1 h
      rfl
    | descendantsOf rootId =>
      rw [hs] at h
      obtain rfl := mem_singleton.1 h
      rfl
    | all => simp [hs] at h
    | codePattern pattern => simp [hs] at h

theorem ConceptMapDef.systemId_of_mem {d : ConceptMapDef} (h : ptr ∈ d.pointers) :
    ptr.systemId? = some d.sourceSystemId ∨ ptr.systemId? = some d.targetSystemId := by
  simp only [ConceptMapDef.pointers, mem_cons, mem_flatMap, not_mem_nil, or_false] at h
  rcases h with rfl | rfl | ⟨m, -, rfl | rfl⟩
  · exact .inl rfl
  · exact .inr rfl
  · exact .inl rfl
  · exact .inr rfl

namespace OntologyState

variable {s : OntologyState}

variable {d : CodeSystemDef} {id : CodeSystemId}

theorem mem_of_codeSystemById (hs : s.Agrees) (h : s.codeSystemById id = some d) :
    d ∈ s.ir.codeSystems ∧ d.id = id := by
  unfold codeSystemById at h
  rw [hs.lookup_eq] at h
  exact mem_of_position_bind h

/-- A value set that passes its check has all its targets. -/
theorem has_of_validateValueSet (hs : s.Agrees) {d : ValueSetDef}
    (h : s.validateValueSetReferences d = .ok ()) : ∀ ptr ∈ d.pointers, s.ir.Has ptr := by
  intro ptr hptr
  obtain ⟨r, hr, hptr⟩ := mem_flatMap.1 hptr
  have hrule := forM_eq_ok_iff.1 h r hr
  unfold validateIncludeRule at hrule
  cases hsys : s.codeSystemById r.systemId with
  | none => simp [hsys] at hrule
  | some system =>
    obtain ⟨hmem, hid⟩ := mem_of_codeSystemById hs hsys
    rcases mem_cons.1 hptr with rfl | hptr
    · exact mem_map.2 ⟨system, hmem, hid⟩
    · simp only [hsys] at hrule
      cases hsel : r.selector with
      | explicit codes =>
        simp only [hsel, forM_eq_ok_iff, rejectIf_ok_iff, not_not] at hrule hptr
        obtain ⟨code, hcode, rfl⟩ := mem_map.1 hptr
        exact ⟨system, hmem, hid, hrule code hcode⟩
      | descendantsOf rootId =>
        simp only [hsel, rejectIf_ok_iff, not_not] at hrule hptr
        obtain rfl := mem_singleton.1 hptr
        exact ⟨system, hmem, hid, hrule⟩
      | all => simp [hsel] at hptr
      | codePattern pattern => simp [hsel] at hptr

/-- A concept map that passes its check has all its targets. -/
theorem has_of_validateConceptMap (hs : s.Agrees) {d : ConceptMapDef}
    (h : s.validateConceptMapReferences d = .ok ()) : ∀ ptr ∈ d.pointers, s.ir.Has ptr := by
  intro ptr hptr
  unfold validateConceptMapReferences at h
  cases hsource : s.codeSystemById d.sourceSystemId with
  | none => simp [hsource] at h
  | some source =>
    cases htarget : s.codeSystemById d.targetSystemId with
    | none => simp [hsource, htarget] at h
    | some target =>
      simp only [hsource, htarget, forM_eq_ok_iff, seq_eq_ok_iff, rejectIf_ok_iff,
        not_not] at h
      obtain ⟨hsmem, hsid⟩ := mem_of_codeSystemById hs hsource
      obtain ⟨htmem, htid⟩ := mem_of_codeSystemById hs htarget
      simp only [ConceptMapDef.pointers, mem_cons, mem_flatMap, not_mem_nil, or_false] at hptr
      rcases hptr with rfl | rfl | ⟨m, hm, rfl | rfl⟩
      · exact mem_map.2 ⟨source, hsmem, hsid⟩
      · exact mem_map.2 ⟨target, htmem, htid⟩
      · exact ⟨source, hsmem, hsid, (h m hm).1⟩
      · exact ⟨target, htmem, htid, (h m hm).2⟩

/-- What the guard of code systems keeps away from a system. -/
theorem systemId_ne_of_guard (h : s.ensureCodeSystemNotReferenced id = .ok ())
    (hptr : ptr ∈ s.ir.valueSets.flatMap ValueSetDef.pointers ∨
      ptr ∈ s.ir.conceptMaps.flatMap ConceptMapDef.pointers) : ptr.systemId? ≠ some id := by
  unfold ensureCodeSystemNotReferenced at h
  simp only [seq_eq_ok_iff, forM_eq_ok_iff, rejectIf_ok_iff] at h
  obtain ⟨-, hsets, hmaps⟩ := h
  intro heq
  rcases hptr with hptr | hptr
  · obtain ⟨d, hd, hptr⟩ := mem_flatMap.1 hptr
    obtain ⟨r, hr, hsys⟩ := d.exists_rule_of_mem hptr
    have hid : r.systemId = id := Option.some.inj (hsys.symm.trans heq)
    exact hsets d hd (any_eq_true.2 ⟨r, hr, by simpa using hid⟩)
  · obtain ⟨d, hd, hptr⟩ := mem_flatMap.1 hptr
    rcases d.systemId_of_mem hptr with hsys | hsys
    · exact hmaps d hd (.inl (Option.some.inj (hsys.symm.trans heq)))
    · exact hmaps d hd (.inr (Option.some.inj (hsys.symm.trans heq)))

/-- A coded value that was in the systems and is used outside its own one is
still pointed at when that one is changed. -/
theorem mem_pointers_of_usedOutside {systemId : CodeSystemId} {id : CodedValueId}
    (h : RemovalCall.UsedOutside o systemId id) (hn : o'.nodeTypes = o.nodeTypes)
    (he : o'.edgeTypes = o.edgeTypes)
    (hleft : ∀ d ∈ o.codeSystems, d.id ≠ systemId → d ∈ o'.codeSystems) :
    .codedValue id ∈ o'.pointers := by
  rcases h with h | h | ⟨d, hd, hne, h⟩
  · refine OntologyIR.mem_pointers_of_node ?_
    unfold OntologyIR.nodePropertyPointers
    rw [hn]
    exact h
  · refine OntologyIR.mem_pointers_of_edge ?_
    unfold OntologyIR.edgePropertyPointers
    rw [he]
    exact h
  · exact OntologyIR.mem_pointers_of_codeSystem (mem_flatMap.2 ⟨d, hleft d hd hne, h⟩)

/-- Removing a system is sound unless an edge property binds it, another system
is replaced by it, or one of its coded values is used outside. -/
theorem sound_removeSystem_iff (hs : s.Agrees) (hclean : s.ir.danglingReferences = [])
    (hok : (removeCodeSystem id s).1 = .ok ()) : RemovalSound s.ir (removeCodeSystem id s).2.ir ↔
      ¬RemovalCall.UnguardedReference s.ir (.codeSystem id) := by
  obtain ⟨hguard, hmem, hir⟩ := codeSystemSlot.remove_of_ok hs hok
  have ho := hs.indexed
  have hleft (d : CodeSystemDef) : d ∈ (codeSystemSlot.without s.ir id).codeSystems ↔
      d ∈ s.ir.codeSystems ∧ d.id ≠ id := mem_filter_ne_iff d
  unfold removeCodeSystem
  rw [hir]
  constructor
  · intro h hbad
    have hgone : .codeSystem id ∉ (codeSystemSlot.without s.ir id).pointers := by
      intro hptr
      have hhas : id ∈ (codeSystemSlot.without s.ir id).codeSystems.map (·.id) :=
        h.kept _ hptr hmem
      exact ((mem_map_ne_iff hleft).1 hhas).2 rfl
    rcases hbad with hedge | ⟨d, hd, hne, hptr⟩ | ⟨d, hd, hid, cv, hcv, hused⟩
    · exact hgone (OntologyIR.mem_pointers_of_edge hedge)
    · exact hgone (OntologyIR.mem_pointers_of_codeSystem
        (mem_flatMap.2 ⟨d, (hleft d).2 ⟨hd, hne⟩, hptr⟩))
    · have hptr : .codedValue cv.id ∈ (codeSystemSlot.without s.ir id).pointers :=
        mem_pointers_of_usedOutside hused rfl rfl fun d hd hne => (hleft d).2 ⟨hd, hne⟩
      obtain ⟨d', hd', hcv'⟩ := h.kept _ hptr ⟨d, hd, mem_map_of_mem hcv⟩
      have hd' := (hleft d').1 hd'
      have heq : d = d' := eq_of_mem_nested ho.registries.codedValues hd hd'.1
        (mem_map_of_mem hcv) hcv'
      exact hd'.2 (heq ▸ hid)
  · intro h
    refine removalSound_of_kept ho (codeSystemSlot.indexed_without hs id) hclean
      (tracked_subset (fun _ h => h) (fun _ h => h) (fun _ h => h) (fun _ h => h)
        (fun _ h => h)) fun ptr hptr hhas => ?_
    have howner := OntologyIR.owner_of_pointer hptr
    cases ptr with
    | codeSystem i =>
      refine (mem_map_ne_iff hleft).2 ⟨hhas, ?_⟩
      rintro rfl
      rcases howner with hn | he | hother | hsets | hmaps
      · have hnodes := hguard
        unfold ensureCodeSystemNotReferenced at hnodes
        rw [seq_eq_ok_iff] at hnodes
        exact not_mem_pointers hnodes.1 (by simp)
          PropertyBinding.bindsCodeSystem_of_mem hn
      · exact h (.inl he)
      · obtain ⟨d, hd, hptr⟩ := mem_flatMap.1 hother
        exact h (.inr (.inl ⟨d, ((hleft d).1 hd).1, ((hleft d).1 hd).2, hptr⟩))
      · exact systemId_ne_of_guard hguard (.inl hsets) rfl
      · exact systemId_ne_of_guard hguard (.inr hmaps) rfl
    | codedValue c =>
      obtain ⟨d, hd, hc⟩ := hhas
      by_cases hid : d.id = id
      · obtain ⟨cv, hcv, rfl⟩ := mem_map.1 hc
        refine absurd (.inr (.inr ⟨d, hd, hid, cv, hcv, ?_⟩)) h
        rcases howner with hn | he | hother
        · exact .inl hn
        · exact .inr (.inl he)
        · obtain ⟨d', hd', hptr⟩ := mem_flatMap.1 hother
          exact .inr (.inr ⟨d', ((hleft d').1 hd').1, ((hleft d').1 hd').2, hptr⟩)
      · exact ⟨d, (hleft d).2 ⟨hd, hid⟩, hc⟩
    | code i code | descendantsRoot i root =>
      obtain ⟨d, hd, hdi, hc⟩ := hhas
      have hne := systemId_ne_of_guard hguard howner
      exact ⟨d, (hleft d).2 ⟨hd, fun hid => hne (congrArg some (hdi.symm.trans hid))⟩, hdi, hc⟩
    | _ => exact hhas

/-- The vectors with a system put in place of the one at a position. -/
def withCodeSystem (o : OntologyIR) (idx : Nat) (d : CodeSystemDef) : OntologyIR :=
  { o with codeSystems := o.codeSystems.set idx d }

/-- What a replacement that goes through has checked and done. -/
theorem replaceSystem_of_ok (hs : s.Agrees) (hok : (replaceCodeSystem id d s).1 = .ok ()) :
    ∃ idx, d.id = id ∧ position (·.id) s.ir.codeSystems id = some idx ∧
      s.validateCodeSystemReferences d = .ok () ∧ (withCodeSystem s.ir idx d).Indexed ∧
      (ofIR (withCodeSystem s.ir idx d)).revalidateDependents id = .ok () ∧
      (replaceCodeSystem id d s).2.ir = withCodeSystem s.ir idx d := by
  unfold replaceCodeSystem at hok ⊢
  by_cases hid : d.id = id
  · rw [if_neg (not_not_intro hid)] at hok ⊢
    cases hidx : s.lookup.codeSystemIdIdx id with
    | none => simp [hidx] at hok
    | some idx =>
      cases hcheck : s.validateCodeSystemReferences d with
      | error e => simp [hidx, hcheck] at hok
      | ok u =>
        by_cases hnext : (withCodeSystem s.ir idx d).Indexed
        · have hclone :
              (s.withIR { s.ir with codeSystems := s.ir.codeSystems.set idx d }).rebuild
              = (.ok (), ofIR (withCodeSystem s.ir idx d)) := rebuild_of_indexed hnext
          simp only [hidx, hcheck, hclone] at hok ⊢
          cases hdep : (ofIR (withCodeSystem s.ir idx d)).revalidateDependents id with
          | error e => simp [hdep] at hok
          | ok u =>
            refine ⟨idx, hid, ?_, trivial, hnext, hdep, rfl⟩
            rw [hs.lookup_eq] at hidx
            exact hidx
        · obtain ⟨e, he⟩ := rebuild_of_not_indexed
            (show ¬(s.withIR { s.ir with codeSystems := s.ir.codeSystems.set idx d }).ir.Indexed
              from hnext)
          simp only [hidx, hcheck, he] at hok
          exact absurd hok (by simp)
  · rw [if_pos hid] at hok
    exact absurd hok (by simp)

/-- The value sets and concept maps that name a replaced system keep their
targets. -/
theorem has_of_revalidateDependents (hs : s.Agrees) (h : s.revalidateDependents id = .ok ())
    (hsys : ptr.systemId? = some id) (hptr : ptr ∈ s.ir.valueSets.flatMap ValueSetDef.pointers ∨
      ptr ∈ s.ir.conceptMaps.flatMap ConceptMapDef.pointers) : s.ir.Has ptr := by
  unfold revalidateDependents at h
  rw [seq_eq_ok_iff, forM_eq_ok_iff, forM_eq_ok_iff] at h
  rcases hptr with hptr | hptr
  · obtain ⟨d, hd, hptr⟩ := mem_flatMap.1 hptr
    obtain ⟨r, hr, hrule⟩ := d.exists_rule_of_mem hptr
    have hid : r.systemId = id := Option.some.inj (hrule.symm.trans hsys)
    have hd := h.1 d hd
    rw [if_pos (any_eq_true.2 ⟨r, hr, by simpa using hid⟩)] at hd
    exact has_of_validateValueSet hs hd ptr hptr
  · obtain ⟨d, hd, hptr⟩ := mem_flatMap.1 hptr
    have hid : d.sourceSystemId = id ∨ d.targetSystemId = id := by
      rcases d.systemId_of_mem hptr with hsrc | htgt
      · exact .inl (Option.some.inj (hsrc.symm.trans hsys))
      · exact .inr (Option.some.inj (htgt.symm.trans hsys))
    have hd := h.2 d hd
    rw [if_pos hid] at hd
    exact has_of_validateConceptMap hs hd ptr hptr

/-- The coded values a checked system refers to are its own. -/
theorem mem_codes_of_validateCodeSystem (h : s.validateCodeSystemReferences d = .ok ())
    {id : CodedValueId} (hptr : .codedValue id ∈ d.pointers) : id ∈ d.codes.map (·.id) := by
  have hpointers : d.codes.forM (validateCodePointers d) = .ok () := by
    unfold validateCodeSystemReferences at h
    cases hkind : d.kind with
    | internal =>
      simp only [hkind, seq_eq_ok_iff] at h
      exact h.2.2.1
    | external sourceRef =>
      simp only [hkind, seq_eq_ok_iff] at h
      exact h.2.2.2.1
  rw [forM_eq_ok_iff] at hpointers
  simp only [CodeSystemDef.pointers, CodedValue.pointers, mem_append, mem_flatMap,
    mem_toList_map] at hptr
  rcases hptr with ⟨_, -, heq⟩ | ⟨cv, hcv, ⟨i, hi, heq⟩ | ⟨i, hi, heq⟩⟩
  · cases heq
  · obtain rfl := Pointer.codedValue.inj heq
    have hcheck := hpointers cv hcv
    unfold validateCodePointers at hcheck
    simp only [seq_eq_ok_iff, forM_eq_ok_iff, rejectIf_ok_iff] at hcheck
    have hparent := hcheck.1 id (by simp [hi])
    by_contra hnot
    exact hparent (.inr (.inr hnot))
  · obtain rfl := Pointer.codedValue.inj heq
    have hcheck := hpointers cv hcv
    unfold validateCodePointers at hcheck
    simp only [seq_eq_ok_iff, forM_eq_ok_iff, rejectIf_ok_iff] at hcheck
    have htarget := hcheck.2 id (by simp [hi])
    by_contra hnot
    exact htarget (.inr hnot)

/-- Replacing a system is sound unless a coded value that it drops is used
outside. -/
theorem sound_replaceSystem_iff (hs : s.Agrees) (hclean : s.ir.danglingReferences = [])
    (hok : (replaceCodeSystem id d s).1 = .ok ()) :
    RemovalSound s.ir (replaceCodeSystem id d s).2.ir ↔
      ¬RemovalCall.UnguardedReference s.ir (.replaceCodeSystem id d) := by
  obtain ⟨idx, hid, hpos, hcheck, hnext, hdep, hir⟩ := replaceSystem_of_ok hs hok
  have ho := hs.indexed
  have hmem (x : CodeSystemDef) : x ∈ (withCodeSystem s.ir idx d).codeSystems ↔
      x = d ∨ (x ∈ s.ir.codeSystems ∧ x.id ≠ id) :=
    mem_set_of_position ho.registries.codeSystems hpos
  rw [hir]
  constructor
  · intro h hbad
    obtain ⟨old, hold, holdId, cv, hcv, hdropped, hused⟩ := hbad
    have hptr : .codedValue cv.id ∈ (withCodeSystem s.ir idx d).pointers :=
      mem_pointers_of_usedOutside hused rfl rfl fun x hx hne => (hmem x).2 (.inr ⟨hx, hne⟩)
    obtain ⟨x, hx, hcvx⟩ := h.kept _ hptr ⟨old, hold, mem_map_of_mem hcv⟩
    rcases (hmem x).1 hx with rfl | ⟨hx, hne⟩
    · exact hdropped hcvx
    · have heq : old = x := eq_of_mem_nested ho.registries.codedValues hold hx
        (mem_map_of_mem hcv) hcvx
      exact hne (heq ▸ holdId)
  · intro h
    refine removalSound_of_kept ho hnext hclean (fun ptr h => h) fun ptr hptr hhas => ?_
    have howner := OntologyIR.owner_of_pointer hptr
    have hsame (i : CodeSystemId) (hi : i ≠ id) (x : CodeSystemDef) (hx : x ∈ s.ir.codeSystems)
        (hxi : x.id = i) : x ∈ (withCodeSystem s.ir idx d).codeSystems :=
      (hmem x).2 (.inr ⟨hx, hxi ▸ hi⟩)
    cases ptr with
    | codeSystem i =>
      obtain ⟨x, hx, hxi⟩ := mem_map.1 hhas
      by_cases hi : i = id
      · exact mem_map.2 ⟨d, (hmem d).2 (.inl rfl), hid.trans hi.symm⟩
      · exact mem_map.2 ⟨x, hsame i hi x hx hxi, hxi⟩
    | codedValue c =>
      obtain ⟨old, hold, hc⟩ := hhas
      by_cases holdId : old.id = id
      · by_cases hcd : c ∈ d.codes.map (·.id)
        · exact ⟨d, (hmem d).2 (.inl rfl), hcd⟩
        · obtain ⟨cv, hcv, rfl⟩ := mem_map.1 hc
          refine absurd ⟨old, hold, holdId, cv, hcv, hcd, ?_⟩ h
          rcases howner with hn | he | hother
          · exact .inl hn
          · exact .inr (.inl he)
          · obtain ⟨x, hx, hown⟩ := mem_flatMap.1 hother
            rcases (hmem x).1 hx with rfl | ⟨hx, hne⟩
            · exact absurd (mem_codes_of_validateCodeSystem hcheck hown) hcd
            · exact .inr (.inr ⟨x, hx, hne, hown⟩)
      · exact ⟨old, hsame old.id holdId old hold rfl, hc⟩
    | code i code | descendantsRoot i root =>
      obtain ⟨x, hx, hxi, hc⟩ := hhas
      by_cases hi : i = id
      · exact has_of_revalidateDependents (agrees_ofIR.2 hnext) hdep (congrArg some hi) howner
      · exact ⟨x, hsame i hi x hx hxi, hxi, hc⟩
    | _ => exact hhas

end OntologyState

namespace RemovalCall

/-- A call that goes through on an ontology without dangling references is sound
exactly when no unasked owner points at what it takes away. -/
theorem sound_run_iff {s : OntologyState} (hs : s.Agrees) (hclean : s.ir.danglingReferences = [])
    (c : RemovalCall) (hok : (c.run s).1 = .ok ()) :
    RemovalSound s.ir (c.run s).2.ir ↔ ¬UnguardedReference s.ir c := by
  cases c with
  | nodeType id => exact sound_removeNodeType_iff hs hclean hok
  | edgeType id => exact sound_removeEdgeType_iff hs hclean hok
  | index id => exact iff_of_true (sound_removeIndex hs hclean hok) not_false
  | rule id => exact sound_removeRule_iff hs hclean hok
  | concept id => exact iff_of_true (sound_removeConcept hs hclean hok) not_false
  | glossaryTerm id =>
    exact iff_of_true (sound_removeGlossaryTerm hs hclean hok) not_false
  | objectMapping id =>
    exact iff_of_true (sound_removeObjectMapping hs hclean hok) not_false
  | linkMapping id =>
    exact iff_of_true (sound_removeLinkMapping hs hclean hok) not_false
  | valueRangeSet id => exact sound_removeValueRangeSet_iff hs hclean hok
  | conceptMap id => exact sound_removeConceptMap_iff hs hclean hok
  | notationPattern id => exact sound_removePattern_iff hs hclean hok
  | valueSet id => exact sound_removeValueSet_iff hs hclean hok
  | codeSystem id => exact sound_removeSystem_iff hs hclean hok
  | replaceCodeSystem id d => exact sound_replaceSystem_iff hs hclean hok

/-- An ontology with one value set, one node type and an edge type whose only
property has the given bindings. -/
def boundEdge (bindings : List PropertyBinding) : OntologyState :=
  OntologyState.ofIR {
    id := "onto", name := "Shop"
    nodeTypes := [{ id := ⟨"customer"⟩, label := ⟨"Customer", .refl true⟩ }]
    edgeTypes := [{
      id := ⟨"knows"⟩, label := ⟨"KNOWS", by decide⟩
      sourceNodeId := ⟨"customer"⟩, targetNodeId := ⟨"customer"⟩
      properties := [{
        id := ⟨"how"⟩, name := ⟨"how", by decide⟩, propertyType := .string
        bindings := bindings }] }]
    valueSets := [{ id := ⟨"ways"⟩, name := "ways" }] }

theorem boundEdge_agrees (bindings : List PropertyBinding) : (boundEdge bindings).Agrees :=
  agrees_ofIR.2 ((OntologyIR.rebuild_ok_iff _).1 rfl)

/-- The binding of the edge property to the value set. -/
def waysBinding : PropertyBinding := .valueSet ⟨"ways"⟩ .required none none none

/-- A value set that nothing binds can go. -/
theorem sound_run_unboundValueSet :
    RemovalSound (boundEdge []).ir ((valueSet ⟨"ways"⟩).run (boundEdge [])).2.ir :=
  (sound_run_iff (boundEdge_agrees []) rfl (valueSet ⟨"ways"⟩) rfl).2 (by
    show Pointer.valueSet ⟨"ways"⟩ ∉ (boundEdge []).ir.edgePropertyPointers
    decide)

/-- The value set goes although an edge property is bound to it: nothing dangled
before, and the binding dangles afterwards. -/
theorem removeValueSet_leaves_edge_binding :
    (boundEdge [waysBinding]).Agrees ∧ (boundEdge [waysBinding]).ir.danglingReferences = [] ∧
      ((valueSet ⟨"ways"⟩).run (boundEdge [waysBinding])).1 = .ok () ∧
      ((valueSet ⟨"ways"⟩).run (boundEdge [waysBinding])).2.ir.danglingReferences ≠ [] := by
  refine ⟨boundEdge_agrees _, rfl, rfl, ?_⟩
  decide

end RemovalCall

end Ontosyx.Ontology
