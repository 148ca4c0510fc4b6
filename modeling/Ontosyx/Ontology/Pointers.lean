import Ontosyx.Ontology.Integrity

/-!
# Pointers between registries

Every reference by id that a property, a mapping, a registry or a segment holds,
as data: which entry it asks for, and whether that entry is there.  The walk of
`dangling_references` is about some of these owners (`trackedPointers`).
References to single properties and the records of provenance are not among
them: no call removes a property on its own, and a record may outlive what it
explains.

## Main results

* `dangling_nil_iff` — nothing dangles exactly when every tracked
  pointer has its target.
* `owner_of_pointer` — who can point at what.
-/

namespace Ontosyx.Ontology

open List Ontosyx.Core Lib.Keyed

/-- A reference to an entry of a collection, or to a code of a code system. -/
inductive Pointer where
  | nodeType (id : NodeTypeId)
  | edgeType (id : EdgeTypeId)
  | rule (id : RuleId)
  | concept (id : ConceptId)
  | glossaryTerm (id : GlossaryTermId)
  | valueRangeSet (id : ValueRangeSetId)
  | conceptMap (id : ConceptMapId)
  | notationPattern (id : NotationPatternId)
  | valueSet (id : ValueSetId)
  | codeSystem (id : CodeSystemId)
  | codedValue (id : CodedValueId)
  | code (systemId : CodeSystemId) (code : String)
  | descendantsRoot (systemId : CodeSystemId) (id : CodedValueId)
deriving DecidableEq

/-! ## Owners -/

def PropertyBinding.pointers : PropertyBinding → List Pointer
  | .concept id _ _ => [.concept id]
  | .valueSet id _ conceptMapId _ _ => .valueSet id :: (conceptMapId.map .conceptMap).toList
  | .notationPattern id _ _ _ => [.notationPattern id]
  | .valueRange id _ _ => [.valueRangeSet id]
  | .codeSystem id _ conceptMapId _ _ => .codeSystem id :: (conceptMapId.map .conceptMap).toList

def PropertyDef.pointers (p : PropertyDef) : List Pointer :=
  p.bindings.flatMap PropertyBinding.pointers ++ (p.unitId.map .codedValue).toList

def ObjectMappingDef.pointers (m : ObjectMappingDef) : List Pointer :=
  .nodeType m.nodeTypeId ::
    m.propertyMappings.flatMap fun pm => (pm.conceptMapId.map .conceptMap).toList

def LinkMappingDef.pointers (m : LinkMappingDef) : List Pointer := [.edgeType m.edgeTypeId]

/-- The node type a constraint component names. -/
def ConstraintTarget.pointers : ConstraintTarget → List Pointer
  | .property nodeTypeId _ | .nodeType nodeTypeId => [.nodeType nodeTypeId]
  | .inherit | .edgeLabel _ => []

mutual
def ShaclConstraint.targets : ShaclConstraint → List ConstraintTarget
  | .minCount t _ | .maxCount t _ | .datatype t _ | .matchesPattern t _ | .inValueSet t _
  | .hasValue t _ | .minInclusive t _ | .maxInclusive t _ | .minLength t _ | .maxLength t _
  | .uniqueLang t | .closed t _ | .lessThan t _ | .equals t _ => [t]
  | .disjoint a b => [a, b]
  | .uniqueKey targetNodeTypeId _ => [.nodeType targetNodeTypeId]
  | .or branches | .and branches | .xone branches => targetsAll branches
  | .not inner => inner.targets
  | .qualifiedValueShape shape _ _ => shape.targets

/-- `targets` of the branches of a combinator, in order. -/
def ShaclConstraint.targetsAll : List ShaclConstraint → List ConstraintTarget
  | [] => []
  | c :: cs => c.targets ++ targetsAll cs
end

/-- The registry entry a constraint refers to. -/
def ConstraintRef.pointers : ConstraintRef → List Pointer
  | .valueSet id => [.valueSet id]
  | .notationPattern id => [.notationPattern id]
  | .propertyId _ => []

def RuleKind.pointers : RuleKind → List Pointer
  | .nodeShape id | .propertyShape id _ | .stateMachine id _ _ => [.nodeType id]
  | .edgeShape id => [.edgeType id]
  | .crossEntityShape _ => []

def RuleOrigin.pointers : RuleOrigin → List Pointer
  | .derivedFromBinding nodeTypeId _ => [.nodeType nodeTypeId]
  | _ => []

/-- The registry entries the constraints of a rule refer to. -/
def RuleDef.constraintPointers (r : RuleDef) : List Pointer :=
  r.constraints.flatMap fun c => c.referencedIds.flatMap ConstraintRef.pointers

def RuleDef.typePointers (r : RuleDef) : List Pointer :=
  r.kind.pointers ++ r.origin.pointers ++
    r.constraints.flatMap fun c => c.targets.flatMap ConstraintTarget.pointers

def ActionDef.pointers (a : ActionDef) : List Pointer :=
  (match a.target with
    | .nodeType id => [.nodeType id]
    | .edgeType id => [.edgeType id]) ++
  (a.preconditions ++ a.postconditions).map .rule

def FunctionDef.pointers (f : FunctionDef) : List Pointer :=
  (f.propertyDependencies.map fun d => .nodeType d.nodeTypeId) ++
    f.edgeDependencies.map .edgeType

def MetricDef.pointers (m : MetricDef) : List Pointer :=
  match m.targetScope with
  | .nodeType id => [.nodeType id]
  | .edgeType id => [.edgeType id]
  | .global => []

def EnrichmentDef.pointers (e : EnrichmentDef) : List Pointer := [.nodeType e.targetNodeTypeId]

def InterfaceDef.pointers (d : InterfaceDef) : List Pointer :=
  d.requiredEdges.flatMap fun e => (e.expectedEdgeTypeId.map .edgeType).toList

def DataQualityDef.pointers (d : DataQualityDef) : List Pointer :=
  match d.target with
  | .nodeType id | .property id _ => [.nodeType id]

def ConceptDef.pointers (c : ConceptDef) : List Pointer :=
  .glossaryTerm c.canonicalTermId :: c.aliasTermIds.map .glossaryTerm ++
    (c.broader.map .concept).toList ++ (c.replacedBy.map .concept).toList

/-- The term that replaces a deprecated one, as a pointer. -/
def TermLifecycle.pointers : TermLifecycle → List Pointer
  | .deprecated (some id) _ => [.glossaryTerm id]
  | _ => []

def GlossaryTermDef.pointers (t : GlossaryTermDef) : List Pointer :=
  (t.relatedTerms.map fun r => .glossaryTerm r.target) ++ t.lifecycle.pointers ++
    (t.conceptId.map .concept).toList

def CodedValue.pointers (cv : CodedValue) : List Pointer :=
  (cv.broaderId.map .codedValue).toList ++ (cv.replacedById.map .codedValue).toList

def CodeSystemDef.pointers (d : CodeSystemDef) : List Pointer :=
  (d.replacedById.map .codeSystem).toList ++ d.codes.flatMap CodedValue.pointers

def ValueSetIncludeRule.pointers (r : ValueSetIncludeRule) : List Pointer :=
  .codeSystem r.systemId ::
    match r.selector with
    | .explicit codes => codes.map (.code r.systemId)
    | .descendantsOf rootId => [.descendantsRoot r.systemId rootId]
    | .all | .codePattern _ => []

def ValueSetDef.pointers (d : ValueSetDef) : List Pointer :=
  d.composition.flatMap ValueSetIncludeRule.pointers

def NotationPatternDef.pointers (d : NotationPatternDef) : List Pointer :=
  d.components.flatMap fun c =>
    match c.kind with
    | .codeFromSet id => [.valueSet id]
    | _ => []

def ConceptMapDef.pointers (d : ConceptMapDef) : List Pointer :=
  .codeSystem d.sourceSystemId :: .codeSystem d.targetSystemId ::
    d.mappings.flatMap fun m =>
      [.code d.sourceSystemId m.sourceCode, .code d.targetSystemId m.targetCode]

def TableInventoryEntry.pointers (e : TableInventoryEntry) : List Pointer :=
  e.contributedNodeIds.map .nodeType ++ e.contributedEdgeIds.map .edgeType

def SegmentDef.pointers (d : SegmentDef) : List Pointer := [.nodeType d.targetNodeTypeId]

/-! ## Who points at what -/

inductive PointerKind where
  | type
  | rule
  | concept
  | glossaryTerm
  | bindingTarget
  | conceptMap
  | valueSet
  | codeSystem
  | codedValue
  | systemCode
deriving DecidableEq

/-- The kind of a pointer.  Notation patterns and value range sets are asked for
alike; the codes of a system are asked for inside it. -/
def Pointer.kind : Pointer → PointerKind
  | .nodeType _ | .edgeType _ => .type
  | .rule _ => .rule
  | .concept _ => .concept
  | .glossaryTerm _ => .glossaryTerm
  | .valueRangeSet _ | .notationPattern _ => .bindingTarget
  | .conceptMap _ => .conceptMap
  | .valueSet _ => .valueSet
  | .codeSystem _ => .codeSystem
  | .codedValue _ => .codedValue
  | .code _ _ | .descendantsRoot _ _ => .systemCode

/-- A pointer kept in an optional field. -/
theorem mem_toList_map {α β : Type} {f : α → β} {x : Option α} {b : β} :
    b ∈ (x.map f).toList ↔ ∃ a, x = some a ∧ b = f a := by
  cases x with
  | none => simp
  | some a => simp

variable {ptr : Pointer}

theorem PropertyDef.kind_of_pointer {p : PropertyDef} (h : ptr ∈ p.pointers) :
    ptr.kind ∈ [PointerKind.concept, .bindingTarget, .conceptMap, .valueSet, .codeSystem,
      .codedValue] := by
  rcases mem_append.1 h with hb | hunit
  · obtain ⟨b, -, hb⟩ := mem_flatMap.1 hb
    cases b with
    | concept id | notationPattern id
    | valueRange id => simp_all [PropertyBinding.pointers, Pointer.kind]
    | valueSet id strength conceptMapId | codeSystem id strength conceptMapId =>
      rcases mem_cons.1 hb with rfl | hb
      · simp [Pointer.kind]
      · obtain ⟨cm, -, rfl⟩ := mem_toList_map.1 hb
        simp [Pointer.kind]
  · obtain ⟨uid, -, rfl⟩ := mem_toList_map.1 hunit
    simp [Pointer.kind]

theorem ObjectMappingDef.kind_of_pointer {m : ObjectMappingDef} (h : ptr ∈ m.pointers) :
    ptr.kind = .type ∨ ptr.kind = .conceptMap := by
  rcases mem_cons.1 h with rfl | h
  · exact .inl rfl
  · obtain ⟨pm, -, h⟩ := mem_flatMap.1 h
    obtain ⟨cm, -, rfl⟩ := mem_toList_map.1 h
    exact .inr rfl

theorem ConstraintTarget.kind_of_pointer {t : ConstraintTarget} (h : ptr ∈ t.pointers) :
    ptr.kind = .type := by
  cases t <;> simp_all [ConstraintTarget.pointers, Pointer.kind]

theorem RuleDef.kind_of_mem_typePointers {r : RuleDef} (h : ptr ∈ r.typePointers) :
    ptr.kind = .type := by
  rcases mem_append.1 h with h | h
  · rcases mem_append.1 h with h | h
    · cases hk : r.kind <;> simp_all [RuleKind.pointers, Pointer.kind]
    · cases ho : r.origin <;> simp_all [RuleOrigin.pointers, Pointer.kind]
  · obtain ⟨c, -, h⟩ := mem_flatMap.1 h
    obtain ⟨t, -, h⟩ := mem_flatMap.1 h
    exact t.kind_of_pointer h

theorem RuleDef.kind_of_mem_constraint {r : RuleDef} (h : ptr ∈ r.constraintPointers) :
    ptr.kind = .valueSet ∨ ptr.kind = .bindingTarget := by
  obtain ⟨c, -, h⟩ := mem_flatMap.1 h
  obtain ⟨ref, -, h⟩ := mem_flatMap.1 h
  cases ref <;> simp_all [ConstraintRef.pointers, Pointer.kind]

theorem ActionDef.kind_of_pointer {a : ActionDef} (h : ptr ∈ a.pointers) :
    ptr.kind = .type ∨ ptr.kind = .rule := by
  rcases mem_append.1 h with h | h
  · cases ht : a.target <;> simp_all [Pointer.kind]
  · obtain ⟨id, -, rfl⟩ := mem_map.1 h
    exact .inr rfl

theorem ConceptDef.kind_of_pointer {c : ConceptDef} (h : ptr ∈ c.pointers) :
    ptr.kind = .glossaryTerm ∨ ptr.kind = .concept := by
  simp only [ConceptDef.pointers, cons_append, mem_cons, mem_append, mem_map,
    mem_toList_map] at h
  rcases h with rfl | (⟨id, -, rfl⟩ | ⟨id, -, rfl⟩) | ⟨id, -, rfl⟩ <;> simp [Pointer.kind]

theorem GlossaryTermDef.kind_of_pointer {t : GlossaryTermDef} (h : ptr ∈ t.pointers) :
    ptr.kind = .glossaryTerm ∨ ptr.kind = .concept := by
  simp only [GlossaryTermDef.pointers, mem_append, mem_map, mem_toList_map] at h
  rcases h with (⟨r, -, rfl⟩ | h) | ⟨id, -, rfl⟩
  · exact .inl rfl
  · unfold TermLifecycle.pointers at h
    split at h <;> simp_all [Pointer.kind]
  · exact .inr rfl

theorem CodeSystemDef.kind_of_pointer {d : CodeSystemDef} (h : ptr ∈ d.pointers) :
    ptr.kind = .codeSystem ∨ ptr.kind = .codedValue := by
  simp only [CodeSystemDef.pointers, CodedValue.pointers, mem_append, mem_flatMap,
    mem_toList_map] at h
  rcases h with ⟨id, -, rfl⟩ | ⟨cv, -, ⟨id, -, rfl⟩ | ⟨id, -, rfl⟩⟩ <;> simp [Pointer.kind]

theorem ValueSetDef.kind_of_pointer {d : ValueSetDef} (h : ptr ∈ d.pointers) :
    ptr.kind = .codeSystem ∨ ptr.kind = .systemCode := by
  obtain ⟨rule, -, h⟩ := mem_flatMap.1 h
  rcases mem_cons.1 h with rfl | h
  · exact .inl rfl
  · cases hs : rule.selector with
    | explicit codes =>
      rw [hs] at h
      obtain ⟨code, -, rfl⟩ := mem_map.1 h
      exact .inr rfl
    | descendantsOf rootId =>
      rw [hs] at h
      obtain rfl := mem_singleton.1 h
      exact .inr rfl
    | all => simp [hs] at h
    | codePattern pattern => simp [hs] at h

theorem NotationPatternDef.kind_of_pointer {d : NotationPatternDef} (h : ptr ∈ d.pointers) :
    ptr.kind = .valueSet := by
  obtain ⟨c, -, h⟩ := mem_flatMap.1 h
  cases hk : c.kind <;> simp_all [Pointer.kind]

theorem ConceptMapDef.kind_of_pointer {d : ConceptMapDef} (h : ptr ∈ d.pointers) :
    ptr.kind = .codeSystem ∨ ptr.kind = .systemCode := by
  simp only [ConceptMapDef.pointers, mem_cons, mem_flatMap, not_mem_nil, or_false] at h
  rcases h with rfl | rfl | ⟨m, -, rfl | rfl⟩ <;> simp [Pointer.kind]

namespace OntologyIR

def nodePropertyPointers (o : OntologyIR) : List Pointer :=
  o.nodeTypes.flatMap fun n => n.properties.flatMap PropertyDef.pointers

def edgePropertyPointers (o : OntologyIR) : List Pointer :=
  o.edgeTypes.flatMap fun e => e.properties.flatMap PropertyDef.pointers

def mappingPointers (o : OntologyIR) : List Pointer :=
  o.objectMappings.flatMap ObjectMappingDef.pointers ++
    o.linkMappings.flatMap LinkMappingDef.pointers

def registryTypePointers (o : OntologyIR) : List Pointer :=
  o.rules.flatMap RuleDef.typePointers ++ o.functions.flatMap FunctionDef.pointers ++
    o.metrics.flatMap MetricDef.pointers ++ o.enrichments.flatMap EnrichmentDef.pointers ++
    o.interfaces.flatMap InterfaceDef.pointers ++
    o.dataQuality.flatMap DataQualityDef.pointers ++
    o.tableInventory.flatMap TableInventoryEntry.pointers

def pointers (o : OntologyIR) : List Pointer :=
  o.nodePropertyPointers ++ o.edgePropertyPointers ++ o.mappingPointers ++
    o.registryTypePointers ++ o.rules.flatMap RuleDef.constraintPointers ++
    o.actions.flatMap ActionDef.pointers ++ o.concepts.flatMap ConceptDef.pointers ++
    o.glossary.flatMap GlossaryTermDef.pointers ++
    o.codeSystems.flatMap CodeSystemDef.pointers ++ o.valueSets.flatMap ValueSetDef.pointers ++
    o.notationPatterns.flatMap NotationPatternDef.pointers ++
    o.conceptMaps.flatMap ConceptMapDef.pointers ++ o.segments.flatMap SegmentDef.pointers

/-- What `dangling_references` walks. -/
def trackedPointers (o : OntologyIR) : List Pointer :=
  o.nodePropertyPointers ++ o.edgePropertyPointers ++
    o.rules.flatMap RuleDef.constraintPointers ++ o.valueSets.flatMap ValueSetDef.pointers ++
    o.conceptMaps.flatMap ConceptMapDef.pointers

def Has (o : OntologyIR) : Pointer → Prop
  | .nodeType id => id ∈ o.nodeTypes.map (·.id)
  | .edgeType id => id ∈ o.edgeTypes.map (·.id)
  | .rule id => id ∈ o.rules.map (·.id)
  | .concept id => id ∈ o.concepts.map (·.id)
  | .glossaryTerm id => id ∈ o.glossary.map (·.id)
  | .valueRangeSet id => id ∈ o.valueRangeSets.map (·.id)
  | .conceptMap id => id ∈ o.conceptMaps.map (·.id)
  | .notationPattern id => id ∈ o.notationPatterns.map (·.id)
  | .valueSet id => id ∈ o.valueSets.map (·.id)
  | .codeSystem id => id ∈ o.codeSystems.map (·.id)
  | .codedValue id => ∃ d ∈ o.codeSystems, id ∈ d.codes.map (·.id)
  | .code systemId code => ∃ d ∈ o.codeSystems, d.id = systemId ∧ code ∈ d.codes.map (·.code)
  | .descendantsRoot systemId id =>
    ∃ d ∈ o.codeSystems, d.id = systemId ∧ id ∈ d.codes.map (·.id)

/-! ## The walk -/

variable {o : OntologyIR}

@[simp] theorem danglingIf_nil_iff {p : Prop} [Decidable p] {source : RegistrySite}
    {kind : DanglingKind} {missingId : String} : danglingIf p source kind missingId = [] ↔ ¬p := by
  by_cases hp : p <;> simp [danglingIf, hp]

theorem checkBindingConceptMap_nil_iff {site : String → RegistrySite}
    {conceptMapId : Option ConceptMapId} : o.checkBindingConceptMap site conceptMapId = [] ↔
      ∀ ptr ∈ (conceptMapId.map Pointer.conceptMap).toList, o.Has ptr := by
  cases conceptMapId with
  | none => simp [checkBindingConceptMap]
  | some id => simp [checkBindingConceptMap, Has]

theorem bindingPointers_nil_iff {site : String → RegistrySite} {b : PropertyBinding} :
    o.bindingPointers site b = [] ↔ ∀ ptr ∈ b.pointers, o.Has ptr := by
  cases b with
  | valueSet id strength conceptMapId validFrom validTo
  | codeSystem id strength conceptMapId validFrom validTo =>
    simp only [bindingPointers, PropertyBinding.pointers, append_eq_nil_iff,
      checkBindingConceptMap_nil_iff, danglingIf_nil_iff, not_not, forall_mem_cons]
    rfl
  | notationPattern id strength validFrom validTo =>
    simp [bindingPointers, PropertyBinding.pointers, Has]
  | valueRange id validFrom validTo
  | concept id validFrom validTo => simp [bindingPointers, PropertyBinding.pointers, Has]

theorem codedValueExists_iff {id : CodedValueId} :
    o.codedValueExists id = true ↔ o.Has (.codedValue id) := by
  simp [codedValueExists, Has]

theorem propertyPointerWalk_nil_iff {ownerLabel : String} {p : PropertyDef} :
    o.propertyPointerWalk ownerLabel p = [] ↔ ∀ ptr ∈ p.pointers, o.Has ptr := by
  unfold propertyPointerWalk PropertyDef.pointers
  rw [append_eq_nil_iff, flatMap_eq_nil_iff, forall_mem_append, forall_mem_flatMap]
  simp only [bindingPointers_nil_iff]
  refine and_congr_right fun _ => ?_
  cases p.unitId with
  | none => simp
  | some uid => simp [← codedValueExists_iff]

theorem rulePointerWalk_nil_iff {r : RuleDef} :
    o.rulePointerWalk r = [] ↔ ∀ ptr ∈ r.constraintPointers, o.Has ptr := by
  unfold rulePointerWalk RuleDef.constraintPointers
  simp only [flatMap_eq_nil_iff, forall_mem_flatMap]
  refine forall₂_congr fun c _ => forall₂_congr fun ref _ => ?_
  cases ref with
  | valueSet id | notationPattern id => simp [ConstraintRef.pointers, Has]
  | propertyId id => simp [ConstraintRef.pointers]

section

variable {id : CodeSystemId} (hnd : (o.codeSystems.map (·.id)).Nodup)
include hnd

/-- A code of the system under an id, when the system is there and ids are
distinct. -/
theorem has_code_iff {d : CodeSystemDef} (hd : last (·.id) id o.codeSystems = some d)
    {code : String} : o.Has (.code id code) ↔ code ∈ d.codes.map (·.code) := by
  have hmem := (last_some_iff _ hnd).1 hd
  constructor
  · intro h
    obtain ⟨d', hd', hid, hcode⟩ := h
    have heq : d' = d := eq_of_key_eq _ hnd hd' hmem.1 (hid.trans hmem.2.symm)
    exact heq ▸ hcode
  · intro h
    exact ⟨d, hmem.1, hmem.2, h⟩

theorem has_descendantsRoot_iff {d : CodeSystemDef}
    (hd : last (·.id) id o.codeSystems = some d) {root : CodedValueId} :
    o.Has (.descendantsRoot id root) ↔ root ∈ d.codes.map (·.id) := by
  have hmem := (last_some_iff _ hnd).1 hd
  constructor
  · intro h
    obtain ⟨d', hd', hid, hroot⟩ := h
    have heq : d' = d := eq_of_key_eq _ hnd hd' hmem.1 (hid.trans hmem.2.symm)
    exact heq ▸ hroot
  · intro h
    exact ⟨d, hmem.1, hmem.2, h⟩

omit hnd in
theorem has_codeSystem_iff : o.Has (.codeSystem id) ↔ ∃ d, last (·.id) id o.codeSystems = some d :=
  (last_isSome_iff _).symm

theorem includeRule_walk_nil_iff {rule : ValueSetIncludeRule} {site : RegistrySite} :
    (match last (·.id) rule.systemId o.codeSystems with
      | none => [⟨site, .codeSystem, rule.systemId.val⟩]
      | some system =>
        match rule.selector with
        | .explicit codes =>
          codes.flatMap fun code =>
            danglingIf (code ∉ system.codes.map (·.code)) site .code code
        | .descendantsOf rootId =>
          danglingIf (rootId ∉ system.codes.map (·.id)) site .codedValue rootId.val
        | .all | .codePattern _ => ([] : List DanglingReference)) = [] ↔
      ∀ ptr ∈ rule.pointers, o.Has ptr := by
  unfold ValueSetIncludeRule.pointers
  rw [forall_mem_cons, has_codeSystem_iff]
  cases hsys : last (·.id) rule.systemId o.codeSystems with
  | none => simp
  | some d =>
    cases rule.selector with
    | all => simp
    | codePattern pattern => simp
    | explicit codes => simp [has_code_iff hnd hsys]
    | descendantsOf rootId => simp [has_descendantsRoot_iff hnd hsys]

theorem compositionWalk_nil_iff {vs : ValueSetDef} :
    o.valueSetCompositionWalk vs = [] ↔ ∀ ptr ∈ vs.pointers, o.Has ptr := by
  unfold valueSetCompositionWalk ValueSetDef.pointers
  rw [flatMap_eq_nil_iff, forall_mem_flatMap]
  constructor
  · intro h rule hrule
    obtain ⟨i, hi⟩ := mem_iff_getElem?.1 hrule
    exact (includeRule_walk_nil_iff hnd).1
      (h (rule, i) (mem_zipIdx_iff_getElem?.2 hi))
  · intro h p hp
    have hrule : p.1 ∈ vs.composition :=
      mem_iff_getElem?.2 ⟨p.2, mem_zipIdx_iff_getElem?.1 hp⟩
    exact (includeRule_walk_nil_iff hnd).2 (h p.1 hrule)

/-- The mapping check of one end, when the system is there. -/
theorem mappingCode_nil_iff {cm : ConceptMapDef}
    {idx : Nat} {field code : String} (hid : o.Has (.codeSystem id)) :
    mappingCode cm idx field code (last (·.id) id o.codeSystems) = [] ↔ o.Has (.code id code) := by
  obtain ⟨d, hd⟩ := has_codeSystem_iff.1 hid
  rw [hd, has_code_iff hnd hd]
  simp [mappingCode]

theorem conceptMapWalk_nil_iff {cm : ConceptMapDef} :
    o.conceptMapWalk cm = [] ↔ ∀ ptr ∈ cm.pointers, o.Has ptr := by
  have hnone (id : CodeSystemId) :
      ¬(last (·.id) id o.codeSystems).isNone = true ↔ o.Has (.codeSystem id) := by
    rw [has_codeSystem_iff, Option.isNone_iff_eq_none, Option.eq_none_iff_forall_not_mem]
    simp
  unfold conceptMapWalk ConceptMapDef.pointers
  rw [append_eq_nil_iff, append_eq_nil_iff, danglingIf_nil_iff,
    danglingIf_nil_iff, hnone, hnone, forall_mem_cons, forall_mem_cons, and_assoc]
  refine and_congr_right fun hsource => and_congr_right fun htarget => ?_
  rw [flatMap_eq_nil_iff, forall_mem_flatMap]
  constructor
  · intro h m hm
    obtain ⟨i, hi⟩ := mem_iff_getElem?.1 hm
    have hboth := h (m, i) (mem_zipIdx_iff_getElem?.2 hi)
    rw [append_eq_nil_iff, mappingCode_nil_iff hnd hsource,
      mappingCode_nil_iff hnd htarget] at hboth
    simpa using hboth
  · intro h p hp
    have hm : p.1 ∈ cm.mappings :=
      mem_iff_getElem?.2 ⟨p.2, mem_zipIdx_iff_getElem?.1 hp⟩
    rw [append_eq_nil_iff, mappingCode_nil_iff hnd hsource, mappingCode_nil_iff hnd htarget]
    simpa using h p.1 hm

/-- Nothing dangles exactly when every tracked pointer has its target. -/
theorem dangling_nil_iff :
    o.danglingReferences = [] ↔ ∀ ptr ∈ o.trackedPointers, o.Has ptr := by
  unfold danglingReferences registryPointers trackedPointers nodePropertyPointers
    edgePropertyPointers
  simp only [append_eq_nil_iff, flatMap_eq_nil_iff, propertyPointerWalk_nil_iff,
    rulePointerWalk_nil_iff, compositionWalk_nil_iff hnd,
    conceptMapWalk_nil_iff hnd, forall_mem_append, forall_mem_flatMap, and_assoc]

end

variable {ptr : Pointer}

/-- The walk is about some of the owners. -/
theorem mem_pointers_of_mem_tracked (h : ptr ∈ o.trackedPointers) : ptr ∈ o.pointers := by
  simp only [trackedPointers, pointers, mem_append] at h ⊢
  tauto

theorem mem_pointers_of_node (h : ptr ∈ o.nodePropertyPointers) : ptr ∈ o.pointers := by
  unfold pointers
  simp [h]

theorem mem_pointers_of_codeSystem (h : ptr ∈ o.codeSystems.flatMap CodeSystemDef.pointers) :
    ptr ∈ o.pointers := by
  unfold pointers
  simp [h]

theorem mem_pointers_of_edge (h : ptr ∈ o.edgePropertyPointers) : ptr ∈ o.pointers := by
  unfold pointers
  simp [h]

theorem mem_pointers_of_mapping (h : ptr ∈ o.mappingPointers) : ptr ∈ o.pointers := by
  unfold pointers
  simp [h]

theorem kind_of_mem_registryTypePointers (h : ptr ∈ o.registryTypePointers) : ptr.kind = .type := by
  simp only [registryTypePointers, mem_append, mem_flatMap] at h
  rcases h with (((((⟨r, -, h⟩ | ⟨f, -, h⟩) | ⟨m, -, h⟩) | ⟨e, -, h⟩) | ⟨d, -, h⟩) | ⟨q, -, h⟩) |
    ⟨t, -, h⟩
  · exact r.kind_of_mem_typePointers h
  · simp only [FunctionDef.pointers, mem_append, mem_map] at h
    rcases h with ⟨_, -, rfl⟩ | ⟨_, -, rfl⟩ <;> rfl
  · cases hs : m.targetScope <;> simp_all [MetricDef.pointers, Pointer.kind]
  · obtain rfl := mem_singleton.1 h
    rfl
  · simp only [InterfaceDef.pointers, mem_flatMap, mem_toList_map] at h
    obtain ⟨_, -, id, -, rfl⟩ := h
    rfl
  · cases ht : q.target <;> simp_all [DataQualityDef.pointers, Pointer.kind]
  · simp only [TableInventoryEntry.pointers, mem_append, mem_map] at h
    rcases h with ⟨_, -, rfl⟩ | ⟨_, -, rfl⟩ <;> rfl

theorem owner_of_pointer {ptr : Pointer} (h : ptr ∈ o.pointers) :
    match ptr.kind with
    | .type => True
    | .rule => ptr ∈ o.actions.flatMap ActionDef.pointers
    | .concept =>
      ptr ∈ o.nodePropertyPointers ∨ ptr ∈ o.edgePropertyPointers ∨
        ptr ∈ o.concepts.flatMap ConceptDef.pointers ∨
        ptr ∈ o.glossary.flatMap GlossaryTermDef.pointers
    | .glossaryTerm =>
      ptr ∈ o.concepts.flatMap ConceptDef.pointers ∨
        ptr ∈ o.glossary.flatMap GlossaryTermDef.pointers
    | .bindingTarget =>
      ptr ∈ o.nodePropertyPointers ∨ ptr ∈ o.edgePropertyPointers ∨
        ptr ∈ o.rules.flatMap RuleDef.constraintPointers
    | .conceptMap =>
      ptr ∈ o.nodePropertyPointers ∨ ptr ∈ o.edgePropertyPointers ∨ ptr ∈ o.mappingPointers
    | .valueSet =>
      ptr ∈ o.nodePropertyPointers ∨ ptr ∈ o.edgePropertyPointers ∨
        ptr ∈ o.rules.flatMap RuleDef.constraintPointers ∨
        ptr ∈ o.notationPatterns.flatMap NotationPatternDef.pointers
    | .codeSystem =>
      ptr ∈ o.nodePropertyPointers ∨ ptr ∈ o.edgePropertyPointers ∨
        ptr ∈ o.codeSystems.flatMap CodeSystemDef.pointers ∨
        ptr ∈ o.valueSets.flatMap ValueSetDef.pointers ∨
        ptr ∈ o.conceptMaps.flatMap ConceptMapDef.pointers
    | .codedValue =>
      ptr ∈ o.nodePropertyPointers ∨ ptr ∈ o.edgePropertyPointers ∨
        ptr ∈ o.codeSystems.flatMap CodeSystemDef.pointers
    | .systemCode =>
      ptr ∈ o.valueSets.flatMap ValueSetDef.pointers ∨
        ptr ∈ o.conceptMaps.flatMap ConceptMapDef.pointers := by
  simp only [pointers, mem_append] at h
  rcases h with (((((((((((h | h) | h) | h) | h) | h) | h) | h) | h) | h) | h) | h) | h
  · obtain ⟨n, -, hmem⟩ := mem_flatMap.1 h
    obtain ⟨p, -, hmem⟩ := mem_flatMap.1 hmem
    have hk := p.kind_of_pointer hmem
    cases hptr : ptr.kind <;> simp_all
  · obtain ⟨e, -, hmem⟩ := mem_flatMap.1 h
    obtain ⟨p, -, hmem⟩ := mem_flatMap.1 hmem
    have hk := p.kind_of_pointer hmem
    cases hptr : ptr.kind <;> simp_all
  · have hk : ptr.kind = .type ∨ ptr.kind = .conceptMap := by
      rcases mem_append.1 h with h | h
      · obtain ⟨m, -, h⟩ := mem_flatMap.1 h
        exact m.kind_of_pointer h
      · obtain ⟨m, -, h⟩ := mem_flatMap.1 h
        obtain rfl := mem_singleton.1 h
        exact .inl rfl
    rcases hk with hk | hk
    · simp [hk]
    · simp [hk, h]
  · simp [kind_of_mem_registryTypePointers h]
  · obtain ⟨r, -, hr⟩ := mem_flatMap.1 h
    rcases r.kind_of_mem_constraint hr with hk | hk
    · simp [hk, h]
    · simp [hk, h]
  · obtain ⟨a, -, ha⟩ := mem_flatMap.1 h
    rcases a.kind_of_pointer ha with hk | hk
    · simp [hk]
    · simp [hk, h]
  · obtain ⟨c, -, hc⟩ := mem_flatMap.1 h
    rcases c.kind_of_pointer hc with hk | hk
    · simp [hk, h]
    · simp [hk, h]
  · obtain ⟨t, -, ht⟩ := mem_flatMap.1 h
    rcases t.kind_of_pointer ht with hk | hk
    · simp [hk, h]
    · simp [hk, h]
  · obtain ⟨d, -, hd⟩ := mem_flatMap.1 h
    rcases d.kind_of_pointer hd with hk | hk
    · simp [hk, h]
    · simp [hk, h]
  · obtain ⟨d, -, hd⟩ := mem_flatMap.1 h
    rcases d.kind_of_pointer hd with hk | hk
    · simp [hk, h]
    · simp [hk, h]
  · obtain ⟨d, -, hd⟩ := mem_flatMap.1 h
    simp [d.kind_of_pointer hd, h]
  · obtain ⟨d, -, hd⟩ := mem_flatMap.1 h
    rcases d.kind_of_pointer hd with hk | hk
    · simp [hk, h]
    · simp [hk, h]
  · obtain ⟨d, -, hd⟩ := mem_flatMap.1 h
    obtain rfl := mem_singleton.1 hd
    simp [Pointer.kind]

end OntologyIR

end Ontosyx.Ontology
