import Ontosyx.Lib.Checked
import Ontosyx.Ontology.Lookup
import Ontosyx.Ontology.References

/-!
# Guards of the mutators

What the mutators of the registries check before they change anything: an entry
that comes in must refer to entries that are there (`validate_*_references`),
and an entry that goes out must not be referred to (`ensure_*_not_referenced`).
A guard only reads the state.  The `is_finite` tests of value bands are left
out: a double of the model is finite.
-/

namespace Ontosyx.Ontology

open Ontosyx.Core Lib.Checked Lib.Keyed

/-- The first id that a chain of pointers reaches twice.  Each step meets a new
id, so fuel beyond the number of entries is never used up. -/
def repeatedId {κ : Type} [DecidableEq κ] (next : κ → Option κ) : Nat → List κ → κ → Option κ
  | 0, _, _ => none
  | fuel + 1, seen, id =>
    if id ∈ seen then some id else
      match next id with
      | none => none
      | some id' => repeatedId next fuel (id :: seen) id'

/-- `Err(InvalidReference { kind, id, target })` when the condition holds. -/
def rejectIf (p : Prop) [Decidable p] (kind id target : String) :
    Except OntologyInvariantError Unit :=
  if p then .error (.invalidReference kind id target) else .ok ()

theorem rejectIf_ok_iff {p : Prop} [Decidable p] {kind id target : String} :
    rejectIf p kind id target = .ok () ↔ ¬p := by
  by_cases hp : p <;> simp [rejectIf, hp]

def rejectCycle (kind id : String) : Option String → Except OntologyInvariantError Unit
  | some target => .error (.invalidReference kind id target)
  | none => .ok ()

theorem rejectCycle_ok_iff {kind id : String} {x : Option String} :
    rejectCycle kind id x = .ok () ↔ x = none := by
  cases x <;> simp [rejectCycle]

def startsStrictlyAfterEnd (start «end» : Option (F64 × Bool)) : Bool :=
  match start, «end» with
  | some (sm, sInc), some (em, eInc) =>
    if em.rank < sm.rank then true
    else if sm.rank = em.rank then !sInc || !eInc
    else false
  | _, _ => false

def bandsOverlap (a b : ValueBand) : Bool :=
  !startsStrictlyAfterEnd (a.min.map fun m => (m, a.inclusiveMin))
      (b.max.map fun m => (m, b.inclusiveMax)) &&
    !startsStrictlyAfterEnd (b.min.map fun m => (m, b.inclusiveMin))
      (a.max.map fun m => (m, a.inclusiveMax))

def ValueRangeSetDef.findOverlaps (d : ValueRangeSetDef) : List (Nat × Nat) :=
  d.bands.zipIdx.flatMap fun a =>
    (d.bands.zipIdx.filter fun b => a.2 < b.2 ∧ bandsOverlap a.1 b.1).map fun b => (a.2, b.2)

/-- A band with both bounds whose interval is empty. -/
def ValueBand.isEmptyInterval (b : ValueBand) : Bool :=
  match b.min, b.max with
  | some lo, some hi =>
    hi.rank < lo.rank || (lo.rank = hi.rank && !(b.inclusiveMin && b.inclusiveMax))
  | _, _ => false

namespace OntologyState

def codeSystemById (s : OntologyState) (id : CodeSystemId) : Option CodeSystemDef :=
  (s.lookup.codeSystemIdIdx id).bind fun i => s.ir.codeSystems[i]?

def glossaryTermById (s : OntologyState) (id : GlossaryTermId) : Option GlossaryTermDef :=
  (s.lookup.glossaryTermIdIdx id).bind fun i => s.ir.glossary[i]?

def conceptById (s : OntologyState) (id : ConceptId) : Option ConceptDef :=
  first (·.id) id s.ir.concepts

/-! ## References of an entry that comes in -/

/-- One lexical term of a concept that comes in. -/
def validateConceptTerm (s : OntologyState) (d : ConceptDef) (kind : String)
    (termId : GlossaryTermId) : Except OntologyInvariantError Unit :=
  match first (·.id) termId s.ir.glossary with
  | some term =>
    rejectIf (term.conceptId ≠ some d.id) (kind ++ ".concept_id") d.id.val
      ((term.conceptId.map (·.val)).getD "")
  | none => .error (.invalidReference kind d.id.val termId.val)

def validateConceptReferences (s : OntologyState) (d : ConceptDef) :
    Except OntologyInvariantError Unit := do
  let byId (id : ConceptId) := if id = d.id then some d else s.conceptById id
  let fuel := s.ir.concepts.length + 2
  s.validateConceptTerm d "concept.canonical_term_id" d.canonicalTermId
  d.aliasTermIds.forM (s.validateConceptTerm d "concept.alias_term_id")
  d.broader.toList.forM fun parent =>
    rejectIf (parent = d.id ∨ (s.lookup.conceptIdIdx parent).isNone) "concept.broader" d.id.val
      parent.val
  d.replacedBy.toList.forM fun target =>
    rejectIf (target = d.id ∨ (s.lookup.conceptIdIdx target).isNone) "concept.replaced_by"
      d.id.val target.val
  rejectCycle "concept.broader.cycle" d.id.val
    ((repeatedId (fun id => (byId id).bind (·.broader)) fuel [] d.id).map (·.val))
  rejectCycle "concept.replaced_by.cycle" d.id.val
    ((repeatedId (fun id => (byId id).bind (·.replacedBy)) fuel [] d.id).map (·.val))

def replacement (t : GlossaryTermDef) : Option GlossaryTermId :=
  match t.lifecycle with
  | .deprecated replacedBy _ => replacedBy
  | _ => none

def broaderTerms (t : GlossaryTermDef) : List GlossaryTermId :=
  (t.relatedTerms.filter fun r => r.kind = .broader).map (·.target)

/-- The stack walk over broader terms: the first id met again on its own path,
the last neighbour first.  A path never repeats an id, so fuel beyond the number
of terms is never used up. -/
def broaderCycle (byId : GlossaryTermId → Option GlossaryTermDef) :
    Nat → List GlossaryTermId → GlossaryTermId → Option GlossaryTermId
  | 0, _, _ => none
  | fuel + 1, path, id =>
    if id ∈ path then some id else
      ((byId id).map broaderTerms).toList.flatten.reverse.findSome?
        (broaderCycle byId fuel (path ++ [id]))

def validateGlossaryTermReferences (s : OntologyState) (d : GlossaryTermDef) :
    Except OntologyInvariantError Unit := do
  let byId (id : GlossaryTermId) := if id = d.id then some d else s.glossaryTermById id
  let fuel := s.ir.glossary.length + 2
  (replacement d).toList.forM fun target =>
    rejectIf (target = d.id ∨ (s.lookup.glossaryTermIdIdx target).isNone)
      "glossary_term.replaced_by" d.id.val target.val
  rejectCycle "glossary_term.replaced_by.cycle" d.id.val
    ((repeatedId (fun id => (byId id).bind replacement) fuel [] d.id).map (·.val))
  d.relatedTerms.forM fun relation =>
    rejectIf (relation.target = d.id ∨ (s.lookup.glossaryTermIdIdx relation.target).isNone)
      "glossary_term.related_terms.target" d.id.val relation.target.val
  rejectCycle "glossary_term.related_terms.broader_cycle" d.id.val
    ((broaderCycle byId fuel [] d.id).map (·.val))

/-- The concepts that keep a term to their own concept, in
`replace_glossary_term`. -/
def validateTermConcepts (s : OntologyState) (id : GlossaryTermId) (d : GlossaryTermDef) :
    Except OntologyInvariantError Unit :=
  s.ir.concepts.forM fun concept => do
    rejectIf (concept.canonicalTermId = id ∧ d.conceptId ≠ some concept.id)
      "glossary_term.in_use_by_concept_canonical" id.val concept.id.val
    rejectIf (id ∈ concept.aliasTermIds ∧ d.conceptId ≠ some concept.id)
      "glossary_term.in_use_by_concept_alias" id.val concept.id.val

def validateValueRangeSet (d : ValueRangeSetDef) : Except OntologyInvariantError Unit := do
  d.bands.zipIdx.forM fun (band, idx) =>
    rejectIf band.isEmptyInterval "value_range_set.band.interval" d.id.val (toString idx)
  rejectCycle "value_range_set.band.overlap" d.id.val
    (d.findOverlaps.head?.map fun p => toString p.1 ++ ":" ++ toString p.2)

/-- The first loop over the codes: no blank or repeated code, no repeated id. -/
def validateCodes (seenCodes : List String) (seenIds : List CodedValueId) :
    List CodedValue → Except OntologyInvariantError Unit
  | [] => .ok ()
  | cv :: cvs => do
    rejectIf (isBlank cv.code) "coded_value.code" cv.id.val cv.code
    if cv.code ∈ seenCodes then .error (.duplicateCollectionId "coded_value.code" cv.code)
    else if cv.id ∈ seenIds then .error (.duplicateCollectionId "coded_value" cv.id.val)
    else validateCodes (cv.code :: seenCodes) (cv.id :: seenIds) cvs

/-- The second loop over the codes: parents and replacements are other codes of
the system. -/
def validateCodePointers (d : CodeSystemDef) (cv : CodedValue) :
    Except OntologyInvariantError Unit := do
  cv.broaderId.toList.forM fun parent =>
    rejectIf (d.hierarchical = false ∨ parent = cv.id ∨ parent ∉ d.codes.map (·.id))
      "coded_value.broader_id" cv.id.val parent.val
  cv.replacedById.toList.forM fun target =>
    rejectIf (target = cv.id ∨ target ∉ d.codes.map (·.id)) "coded_value.replaced_by_id"
      cv.id.val target.val

/-- The third loop over the codes: neither chain runs into a cycle. -/
def validateCodeCycles (d : CodeSystemDef) (cv : CodedValue) :
    Except OntologyInvariantError Unit := do
  let byId (id : CodedValueId) := last (·.id) id d.codes
  let fuel := d.codes.length + 2
  rejectCycle "coded_value.broader_id.cycle" cv.id.val
    ((repeatedId (fun id => (byId id).bind (·.broaderId)) fuel [] cv.id).map (·.val))
  rejectCycle "coded_value.replaced_by_id.cycle" cv.id.val
    ((repeatedId (fun id => (byId id).bind (·.replacedById)) fuel [] cv.id).map (·.val))

def validateCodeSystemReferences (s : OntologyState) (d : CodeSystemDef) :
    Except OntologyInvariantError Unit := do
  match d.kind with
  | .external sourceRef =>
    rejectIf (isBlank sourceRef) "code_system.external.source_ref" d.id.val sourceRef
  | .internal => pure ()
  d.replacedById.toList.forM fun target => do
    rejectIf (target = d.id ∨ (s.codeSystemById target).isNone) "code_system.replaced_by_id"
      d.id.val target.val
    rejectCycle "code_system.replaced_by_id.cycle" d.id.val
      ((repeatedId (fun id => (s.codeSystemById id).bind (·.replacedById))
        (s.ir.codeSystems.length + 2) [d.id] target).map (·.val))
  validateCodes [] [] d.codes
  d.codes.forM (validateCodePointers d)
  d.codes.forM (validateCodeCycles d)

def validateConceptMapReferences (s : OntologyState) (d : ConceptMapDef) :
    Except OntologyInvariantError Unit :=
  match s.codeSystemById d.sourceSystemId with
  | none =>
    .error (.duplicateCollectionId "concept_map_unknown_source_system" d.sourceSystemId.val)
  | some sourceSystem =>
    match s.codeSystemById d.targetSystemId with
    | none =>
      .error (.duplicateCollectionId "concept_map_unknown_target_system" d.targetSystemId.val)
    | some targetSystem =>
      d.mappings.forM fun mapping => do
        rejectIf (mapping.sourceCode ∉ sourceSystem.codes.map (·.code))
          "concept_map.mapping.source_code" d.id.val mapping.sourceCode
        rejectIf (mapping.targetCode ∉ targetSystem.codes.map (·.code))
          "concept_map.mapping.target_code" d.id.val mapping.targetCode

/-- One rule of `validate_value_set_references`. -/
def validateIncludeRule (s : OntologyState) (d : ValueSetDef) (rule : ValueSetIncludeRule) :
    Except OntologyInvariantError Unit :=
  match s.codeSystemById rule.systemId with
  | none => .error (.duplicateCollectionId "value_set_unknown_system" rule.systemId.val)
  | some system =>
    match rule.selector with
    | .explicit codes =>
      codes.forM fun code =>
        rejectIf (code ∉ system.codes.map (·.code)) "value_set.selector.explicit_code"
          d.id.val code
    | .descendantsOf rootId =>
      rejectIf (rootId ∉ system.codes.map (·.id)) "value_set.selector.descendants_root"
        d.id.val rootId.val
    | .all | .codePattern _ => .ok ()

def validateValueSetReferences (s : OntologyState) (d : ValueSetDef) :
    Except OntologyInvariantError Unit :=
  d.composition.forM (s.validateIncludeRule d)

def validateNotationPatternReferences (s : OntologyState) (d : NotationPatternDef) :
    Except OntologyInvariantError Unit :=
  d.components.forM fun component =>
    match component.kind with
    | .codeFromSet valueSetId =>
      if (s.lookup.valueSetIdIdx valueSetId).isNone then
        .error (.duplicateCollectionId "notation_pattern_unknown_value_set" valueSetId.val)
      else .ok ()
    | _ => .ok ()

/-! ## References to an entry that goes out -/

/-- The loop over the bindings of node properties that every
`ensure_*_not_referenced` of a binding target starts with. -/
def ensureNodeBindings (s : OntologyState) (refers : PropertyBinding → Bool) (kind id : String) :
    Except OntologyInvariantError Unit :=
  s.ir.nodeTypes.forM fun node => node.properties.forM fun property =>
    rejectIf (property.bindings.any refers) kind id property.id.val

def ensureRuleReferences (s : OntologyState) (refers : ConstraintRef → Bool) (kind id : String) :
    Except OntologyInvariantError Unit :=
  s.ir.rules.forM fun rule => rule.constraints.forM fun constraint =>
    rejectIf (constraint.referencedIds.any refers) kind id rule.id.val

end OntologyState

namespace PropertyBinding

/-- A code-system binding to `id`. -/
def bindsCodeSystem (id : CodeSystemId) : PropertyBinding → Bool
  | codeSystem i .. => i = id
  | _ => false

/-- A value-set binding to `id`. -/
def bindsValueSet (id : ValueSetId) : PropertyBinding → Bool
  | valueSet i .. => i = id
  | _ => false

/-- A notation-pattern binding to `id`. -/
def bindsNotationPattern (id : NotationPatternId) : PropertyBinding → Bool
  | notationPattern i .. => i = id
  | _ => false

/-- A value-range binding to `id`. -/
def bindsValueRange (id : ValueRangeSetId) : PropertyBinding → Bool
  | valueRange i .. => i = id
  | _ => false

/-- A concept binding to `id`. -/
def bindsConcept (id : ConceptId) : PropertyBinding → Bool
  | concept i .. => i = id
  | _ => false

/-- A binding that goes through the concept map `id`. -/
def bindsConceptMap (id : ConceptMapId) (b : PropertyBinding) : Bool := b.conceptMapId = some id

end PropertyBinding

namespace OntologyState

def ensureCodeSystemNotReferenced (s : OntologyState) (id : CodeSystemId) :
    Except OntologyInvariantError Unit := do
  s.ensureNodeBindings (PropertyBinding.bindsCodeSystem id)
    "code_system.in_use_by_property_binding" id.val
  s.ir.valueSets.forM fun valueSet =>
    rejectIf (valueSet.composition.any fun rule => rule.systemId = id)
      "code_system.in_use_by_value_set" id.val valueSet.id.val
  s.ir.conceptMaps.forM fun conceptMap =>
    rejectIf (conceptMap.sourceSystemId = id ∨ conceptMap.targetSystemId = id)
      "code_system.in_use_by_concept_map" id.val conceptMap.id.val

def codesFromSet (id : ValueSetId) (component : NotationComponent) : Bool :=
  component.kind = .codeFromSet id

def ensureValueSetNotReferenced (s : OntologyState) (id : ValueSetId) :
    Except OntologyInvariantError Unit := do
  s.ensureNodeBindings (PropertyBinding.bindsValueSet id)
    "value_set.in_use_by_property_binding" id.val
  s.ir.notationPatterns.forM fun pattern =>
    rejectIf (pattern.components.any (codesFromSet id)) "value_set.in_use_by_notation_pattern"
      id.val pattern.id.val
  s.ensureRuleReferences (fun ref => ref = .valueSet id) "value_set.in_use_by_rule" id.val

def ensureConceptMapNotReferenced (s : OntologyState) (id : ConceptMapId) :
    Except OntologyInvariantError Unit :=
  s.ensureNodeBindings (PropertyBinding.bindsConceptMap id)
    "concept_map.in_use_by_property_binding" id.val

def ensureNotationPatternNotReferenced (s : OntologyState) (id : NotationPatternId) :
    Except OntologyInvariantError Unit := do
  s.ensureNodeBindings (PropertyBinding.bindsNotationPattern id)
    "notation_pattern.in_use_by_property_binding" id.val
  s.ensureRuleReferences (fun ref => ref = .notationPattern id) "notation_pattern.in_use_by_rule"
    id.val

def ensureValueRangeSetNotReferenced (s : OntologyState) (id : ValueRangeSetId) :
    Except OntologyInvariantError Unit :=
  s.ensureNodeBindings (PropertyBinding.bindsValueRange id)
    "value_range_set.in_use_by_property_binding" id.val

/-- The part of `ensure_concept_not_referenced` that is the same for nodes and
edges. -/
def ensureTypeConcept (id : ConceptId) (kind typeId : String) (concepts : List ConceptId)
    (properties : List PropertyDef) : Except OntologyInvariantError Unit := do
  rejectIf (id ∈ concepts) kind id.val typeId
  properties.forM fun property =>
    rejectIf (property.bindings.any (PropertyBinding.bindsConcept id))
      "concept.in_use_by_property_binding" id.val property.id.val

def ensureConceptNotReferenced (s : OntologyState) (id : ConceptId) :
    Except OntologyInvariantError Unit := do
  s.ir.glossary.forM fun term =>
    rejectIf (term.conceptId = some id) "concept.in_use_by_glossary_term" id.val term.id.val
  s.ir.concepts.forM fun concept => do
    rejectIf (concept.id ≠ id ∧ concept.broader = some id) "concept.in_use_by_broader" id.val
      concept.id.val
    rejectIf (concept.id ≠ id ∧ concept.replacedBy = some id) "concept.in_use_by_replacement"
      id.val concept.id.val
  s.ir.nodeTypes.forM fun node =>
    ensureTypeConcept id "concept.in_use_by_node_type" node.id.val node.realisedConcepts
      node.properties
  s.ir.edgeTypes.forM fun edge =>
    ensureTypeConcept id "concept.in_use_by_edge_type" edge.id.val edge.realisedConcepts
      edge.properties

def ensureGlossaryTermNotReferenced (s : OntologyState) (id : GlossaryTermId) :
    Except OntologyInvariantError Unit := do
  s.ir.concepts.forM fun concept => do
    rejectIf (concept.canonicalTermId = id) "glossary_term.in_use_by_concept_canonical" id.val
      concept.id.val
    rejectIf (id ∈ concept.aliasTermIds) "glossary_term.in_use_by_concept_alias" id.val
      concept.id.val
  s.ir.glossary.forM fun term => do
    rejectIf (term.id ≠ id ∧ id ∈ term.relatedTerms.map (·.target))
      "glossary_term.in_use_by_related_term" id.val term.id.val
    rejectIf (term.id ≠ id ∧ replacement term = some id) "glossary_term.in_use_by_replacement"
      id.val term.id.val

theorem ensureNodeBindings_ok_iff {s : OntologyState} {refers : PropertyBinding → Bool}
    {kind id : String} : s.ensureNodeBindings refers kind id = .ok () ↔
      ∀ n ∈ s.ir.nodeTypes, ∀ p ∈ n.properties, p.bindings.any refers = false := by
  simp only [ensureNodeBindings, forM_eq_ok_iff, rejectIf_ok_iff, Bool.not_eq_true]

theorem ensureRuleReferences_ok_iff {s : OntologyState} {refers : ConstraintRef → Bool}
    {kind id : String} : s.ensureRuleReferences refers kind id = .ok () ↔
      ∀ r ∈ s.ir.rules, ∀ c ∈ r.constraints, c.referencedIds.any refers = false := by
  simp only [ensureRuleReferences, forM_eq_ok_iff, rejectIf_ok_iff, Bool.not_eq_true]

end OntologyState

end Ontosyx.Ontology
