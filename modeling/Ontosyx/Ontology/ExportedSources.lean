import Ontosyx.Ontology.NameResolution

/-!
# The source hints of an export

Which table and which columns an export gives a node.  Insertions into a map
overwrite one another, so the last mapping decides: for the table the last
mapping that is not below the first one of its relation, for a column the last
mapping that gives the property a column, whatever their precedences.
-/

namespace Ontosyx.Ontology

open List Ontosyx.Core Lib.Keyed Prod

def ObjectMappingDef.columnFor (pid : PropertyId) (om : ObjectMappingDef) : Option String :=
  (last fst pid om.columns).map (·.2)

namespace OntologyIR

/-- A mapping that is not below the first mapping of its node and relation. -/
def takesTable (o : OntologyIR) (om : ObjectMappingDef) : Bool :=
  (o.firstOfRelation om).all fun x => x.precedence ≤ om.precedence

def lastTable (o : OntologyIR) (nid : NodeTypeId) : Option ObjectMappingDef :=
  last (·.nodeTypeId) nid (o.objectMappings.filter o.takesTable)

/-- The column that the last mapping of a node with one gives a property. -/
def lastColumn (o : OntologyIR) (nid : NodeTypeId) (pid : PropertyId) : Option String :=
  o.objectMappings.reverse.findSome? fun om =>
    if om.nodeTypeId = nid then om.columnFor pid else none

variable {o : OntologyIR}

theorem takesTable_of_firstOfRelation {om x : ObjectMappingDef}
    (h : o.firstOfRelation om = some x) : o.takesTable x = true ∧ x.nodeTypeId = om.nodeTypeId := by
  have hx : x.nodeTypeId = om.nodeTypeId ∧ x.relation = om.relation := by
    simpa using find?_some h
  have hself : o.firstOfRelation x = some x := by
    unfold firstOfRelation at h ⊢
    rw [hx.1, hx.2]
    exact h
  refine ⟨?_, hx.1⟩
  simp [takesTable, hself]

/-- One turn of the mapping loop, after the mappings `done`. -/
theorem recordRelation_eq {done rest : List ObjectMappingDef} {om : ObjectMappingDef}
    (h : done ++ om :: rest = o.objectMappings) :
    o.recordRelation ((done.filter o.takesTable).map fun x => (x.nodeTypeId, x.relation)) om =
      ((done ++ [om]).filter o.takesTable).map fun x => (x.nodeTypeId, x.relation) := by
  have hprior : (o.priorPrecedence ((done.filter o.takesTable).map fun x =>
      (x.nodeTypeId, x.relation)) om).all (· ≤ om.precedence) = o.takesTable om := by
    unfold priorPrecedence
    cases hlast : last fst om.nodeTypeId
        ((done.filter o.takesTable).map fun x => (x.nodeTypeId, x.relation)) with
    | some e =>
      rw [Option.bind_some, Option.all_map]
      rfl
    | none =>
      rw [Option.bind_none, Option.all_none]
      unfold takesTable
      cases hfirst : o.firstOfRelation om with
      | none => rfl
      | some x =>
        -- no mapping of the node has been recorded, so the first of the
        -- relation is not among those already seen
        have hnew : x ∉ done := by
          intro hx
          have htakes := takesTable_of_firstOfRelation hfirst
          rw [last_none_iff] at hlast
          refine hlast (mem_map.2 ⟨(x.nodeTypeId, x.relation), ?_, htakes.2⟩)
          exact mem_map.2 ⟨x, mem_filter.2 ⟨hx, htakes.1⟩, rfl⟩
        have hxom : x = om := by
          unfold firstOfRelation at hfirst
          rw [← h, find?_append] at hfirst
          cases hdone : done.find? fun y =>
              y.nodeTypeId = om.nodeTypeId ∧ y.relation = om.relation with
          | some y =>
            rw [hdone, Option.some_or, Option.some.injEq] at hfirst
            exact absurd (hfirst ▸ mem_of_find?_eq_some hdone) hnew
          | none =>
            rw [hdone] at hfirst
            simpa using hfirst.symm
        simp [hxom]
  unfold recordRelation
  rw [hprior, filter_append, map_append]
  cases htakes : o.takesTable om with
  | true => simp [htakes]
  | false => simp [htakes]

/-- `node_to_relation` holds the mappings that take a table, in their order. -/
theorem nodeToRelation_eq : o.nodeToRelation =
      (o.objectMappings.filter o.takesTable).map fun x => (x.nodeTypeId, x.relation) := by
  have hrun (rest : List ObjectMappingDef) : ∀ done, done ++ rest = o.objectMappings →
      rest.foldl o.recordRelation
          ((done.filter o.takesTable).map fun x => (x.nodeTypeId, x.relation)) =
        ((done ++ rest).filter o.takesTable).map fun x => (x.nodeTypeId, x.relation) := by
    induction rest with
    | nil =>
      intro done _
      rw [append_nil]
      rfl
    | cons om rest ih =>
      intro done h
      rw [foldl_cons, recordRelation_eq h, ih (done ++ [om]) (by simpa using h)]
      simp
  exact hrun o.objectMappings [] rfl

theorem sourceTableOf_eq (nid : NodeTypeId) :
    o.sourceTableOf nid = (o.lastTable nid).map (·.relation) := by
  have hmap : last fst nid ((o.objectMappings.filter o.takesTable).map fun x =>
      (x.nodeTypeId, x.relation)) =
        (o.lastTable nid).map fun x => (x.nodeTypeId, x.relation) :=
    @last_map ObjectMappingDef NodeTypeId _ ObjectMappingDef.nodeTypeId (NodeTypeId × String)
      fst (fun x => (x.nodeTypeId, x.relation)) (fun _ => rfl) nid _
  unfold sourceTableOf
  rw [nodeToRelation_eq, hmap, Option.map_map]
  rfl

theorem lastTable_isSome_iff {nid : NodeTypeId} :
    (∃ x, o.lastTable nid = some x) ↔ ∃ om ∈ o.objectMappings, om.nodeTypeId = nid := by
  unfold lastTable
  rw [last_isSome_iff]
  constructor
  · intro h
    obtain ⟨om, hom, hid⟩ := mem_map.1 h
    exact ⟨om, mem_of_mem_filter hom, hid⟩
  · intro h
    obtain ⟨om, hom, hid⟩ := h
    have hfound : ∃ x, o.firstOfRelation om = some x := by
      unfold firstOfRelation
      rw [← Option.isSome_iff_exists, find?_isSome]
      exact ⟨om, hom, by simp⟩
    obtain ⟨x, hx⟩ := hfound
    have htakes := takesTable_of_firstOfRelation hx
    exact mem_map.2 ⟨x, mem_filter.2 ⟨mem_of_find?_eq_some hx, htakes.1⟩, htakes.2.trans hid⟩

theorem sourceColumnOf_eq (nid : NodeTypeId) (pid : PropertyId) :
    o.sourceColumnOf nid pid = o.lastColumn nid pid := by
  unfold sourceColumnOf propToColumn lastColumn last
  rw [reverse_flatMap, find?_flatMap, map_findSome?]
  congr 1
  funext om
  unfold ObjectMappingDef.columnFor last
  simp only [Function.comp_def]
  rw [← map_reverse, find?_map, Option.map_map]
  by_cases hid : om.nodeTypeId = nid
  · simp [hid, Function.comp_def]
  · simp [hid, Function.comp_def]

end OntologyIR

end Ontosyx.Ontology
