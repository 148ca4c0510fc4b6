import Ontosyx.Compile.DataMigration

/-!
# The edits of one type

What the statements of a kept node or edge type do to the properties of its
instances, and which statements the diff of two ontologies compiles to.

## Main results

* `applyEdits_propertyEdits_iff` — the edits of one type do what the migration
  is for.
* `statements_compileData` — the statements of a migration, type by
  type.
-/

namespace Ontosyx.Compile

open List Ontosyx.Core Lib.Keyed Ontology

/-! ## Edits of one type -/

section

variable (engine : Engine)

theorem applyEdits_apply (es : List Edit) (props : Props) (k : PropertyKey) :
    applyEdits engine es props k =
      (es.filter fun e => e.property = k).foldl (fun x e => e.value engine x) (props k) := by
  induction es generalizing props with
  | nil => rfl
  | cons e es ih =>
    show applyEdits engine es (e.apply engine props) k = _
    rw [ih]
    by_cases hk : e.property = k
    · rw [filter_cons_of_pos (by simpa using hk), foldl_cons, Edit.apply, hk,
        Function.update_self]
    · rw [filter_cons_of_neg (by simpa using hk), Edit.apply, Function.update_of_ne (Ne.symm hk)]

theorem applyEdits_append (es fs : List Edit) (props : Props) :
    applyEdits engine (es ++ fs) props = applyEdits engine fs (applyEdits engine es props) :=
  foldl_append

/-- The edits of one entry of a list of distinct names. -/
theorem filter_flatMap_of_name {α : Type} {name : α → PropertyKey} {f : α → List Edit}
    (hf : ∀ x, ∀ e ∈ f x, e.property = name x) {xs : List α} (hnd : (xs.map name).Nodup)
    (k : PropertyKey) : ((xs.flatMap f).filter fun e => e.property = k) =
      ((xs.find? fun x => name x = k).map f).getD [] := by
  induction xs with
  | nil => rfl
  | cons x xs ih =>
    obtain ⟨hx, hnd⟩ := nodup_cons.1 hnd
    rw [flatMap_cons, filter_append, ih hnd]
    by_cases hk : name x = k
    · have hall : ((f x).filter fun e => e.property = k) = f x := by
        apply filter_eq_self.2
        intro e he
        simpa using (hf x e he).trans hk
      have hnone : (xs.find? fun y => name y = k) = none := by
        apply find?_eq_none.2
        intro y hy hyk
        have hyk : name y = k := by simpa using hyk
        exact hx (hk.trans hyk.symm ▸ mem_map_of_mem hy)
      rw [find?_cons_of_pos (by simpa using hk), hall, hnone]
      simp
    · have hempty : ((f x).filter fun e => e.property = k) = [] := by
        apply filter_eq_nil_iff.2
        intro e he heq
        have heq : e.property = k := by simpa using heq
        exact hk ((hf x e he).symm.trans heq)
      rw [find?_cons_of_neg (by simpa using hk), hempty, nil_append]

/-- The edits of a property that is on both sides. -/
def pairEdits (p : PropertyDef × PropertyDef) : List Edit :=
  modifiedEdits p.2.name (diffSingleProperty p.1 p.2)

/-- The edits of a kept type: properties that came in, that went, and that
changed. -/
def propertyEdits (old new : List PropertyDef) : List Edit :=
  (unmatched (·.id) new (old.map (·.id))).flatMap (addedEdits engine.showFloat) ++
    ((unmatched (·.id) old (new.map (·.id))).flatMap fun p => [.remove p.name]) ++
      (matchedPairs (·.id) old new).flatMap pairEdits

theorem tail_ne_typeChanged (old new : PropertyDef) :
    ∀ c ∈ (if old.nullable ≠ new.nullable then
        [PropertyChange.nullabilityChanged old.nullable new.nullable] else []) ++
      ((if old.description ≠ new.description then
        [.descriptionChanged old.description new.description] else []) ++
      (if !sameDefault old.defaultValue new.defaultValue then
        [.defaultValueChanged (old.defaultValue.map DebugText.mk)
          (new.defaultValue.map DebugText.mk)] else [])),
      ∀ a b, c ≠ .typeChanged a b := by
  intro c hc a b heq
  subst heq
  rcases mem_append.1 hc with hc | hc
  · split at hc
    · cases mem_singleton.1 hc
    · cases hc
  · rcases mem_append.1 hc with hc | hc
    · split at hc
      · cases mem_singleton.1 hc
      · cases hc
    · split at hc
      · cases mem_singleton.1 hc
      · cases hc

/-- A pair whose types differ is coerced or commented on, and any other is left
alone. -/
theorem pairEdits_eq (p : PropertyDef × PropertyDef) :
    pairEdits p =
      if p.1.propertyType ≠ p.2.propertyType then
        match coercionBetween (formatPropertyType p.1.propertyType)
          (formatPropertyType p.2.propertyType) with
        | some coercion => [.coerce p.2.name coercion]
        | none => [.warning p.2.name (formatPropertyType p.1.propertyType)
            (formatPropertyType p.2.propertyType)]
      else [] := by
  have hrest (changes : List PropertyChange) (h : ∀ c ∈ changes, ∀ a b, c ≠ .typeChanged a b) :
      modifiedEdits p.2.name changes = [] := by
    apply filterMap_eq_nil_iff.2
    intro c hc
    cases c with
    | typeChanged a b => exact absurd rfl (h _ hc a b)
    | _ => rfl
  unfold pairEdits diffSingleProperty
  rw [append_assoc, append_assoc, modifiedEdits, filterMap_append]
  have htail := hrest _ (tail_ne_typeChanged p.1 p.2)
  unfold modifiedEdits at htail
  rw [htail, append_nil]
  by_cases htypes : p.1.propertyType ≠ p.2.propertyType
  · rw [if_pos htypes, if_pos htypes]
    cases hc : coercionBetween (formatPropertyType p.1.propertyType)
        (formatPropertyType p.2.propertyType) with
    | none => simp [hc]
    | some coercion => simp [hc]
  · rw [if_neg htypes, if_neg htypes]
    rfl

theorem coercionBetween_self (t : PropertyType) :
    coercionBetween (formatPropertyType t) (formatPropertyType t) = none := by
  unfold coercionBetween
  split <;> simp_all

theorem property_of_mem_addedEdits {p : PropertyDef} {e : Edit}
    (he : e ∈ addedEdits engine.showFloat p) : e.property = p.name := by
  unfold addedEdits at he
  split at he
  · cases he
  · split at he
    · rw [mem_singleton.1 he]
      rfl
    · cases he

theorem property_of_mem_pairEdits {p : PropertyDef × PropertyDef} {e : Edit}
    (he : e ∈ pairEdits p) : e.property = p.2.name := by
  rw [pairEdits_eq] at he
  split at he
  · split at he
    · rw [mem_singleton.1 he]
      rfl
    · rw [mem_singleton.1 he]
      rfl
  · cases he

theorem foldl_addedEdits (found : Option PropertyDef) (x : Option PropertyValue) :
    ((found.map (addedEdits engine.showFloat)).getD []).foldl (fun x e => e.value engine x) x =
      match found.bind fun p => if p.nullable then none else p.defaultValue with
      | some default => x.or (engine.literal (displayValue engine.showFloat default)).join
      | none => x := by
  cases found with
  | none => rfl
  | some p =>
    simp only [Option.map_some, Option.getD_some, Option.bind_some, addedEdits]
    cases p.nullable with
    | true => rfl
    | false =>
      cases p.defaultValue with
      | none => rfl
      | some default => rfl

/-- The edits of a property that is on both sides, on its value. -/
theorem foldl_pairEdits (found : Option (PropertyDef × PropertyDef))
    (x : Option PropertyValue) :
    ((found.map pairEdits).getD []).foldl (fun x e => e.value engine x) x =
      match found.bind fun p => coercionBetween (formatPropertyType p.1.propertyType)
        (formatPropertyType p.2.propertyType) with
      | some coercion => x.bind (engine.coerce coercion)
      | none => x := by
  cases found with
  | none => rfl
  | some p =>
    simp only [Option.map_some, Option.getD_some, Option.bind_some, pairEdits_eq]
    by_cases htypes : p.1.propertyType ≠ p.2.propertyType
    · rw [if_pos htypes]
      cases coercionBetween (formatPropertyType p.1.propertyType)
          (formatPropertyType p.2.propertyType) with
      | none => rfl
      | some coercion => rfl
    · rw [if_neg htypes, not_not.1 htypes, coercionBetween_self]
      rfl

variable {old new : List PropertyDef}

/-- The edits of a kept type, on the value of one property. -/
theorem applyEdits_propertyEdits (hold : (old.map (·.name)).Nodup)
    (hnew : (new.map (·.name)).Nodup) (props : Props) (k : PropertyKey) :
    applyEdits engine (propertyEdits engine old new) props k =
      let x := match backfillAt old new k with
        | some default => (props k).or
            (engine.literal (displayValue engine.showFloat default)).join
        | none => props k
      let x := if RemovedAt old new k then none else x
      match coercionAt old new k with
      | some coercion => x.bind (engine.coerce coercion)
      | none => x := by
  have hadded : ((unmatched (·.id) new (old.map (·.id))).map (·.name)).Nodup :=
    hnew.sublist (filter_sublist.map _)
  have hremoved : ((unmatched (·.id) old (new.map (·.id))).map (·.name)).Nodup :=
    hold.sublist (filter_sublist.map _)
  have hmatched : ((matchedPairs (·.id) old new).map (·.2.name)).Nodup := by
    have hsub := (map_snd_matchedPairs_sublist (fun p : PropertyDef => p.id) old new).map
      PropertyDef.name
    rw [map_map] at hsub
    exact hnew.sublist hsub
  rw [applyEdits_apply, propertyEdits, filter_append, filter_append, foldl_append, foldl_append,
    filter_flatMap_of_name (fun p e he => property_of_mem_addedEdits engine he) hadded,
    filter_flatMap_of_name (fun p e he => by rw [mem_singleton.1 he]; rfl) hremoved,
    filter_flatMap_of_name (fun p e he => property_of_mem_pairEdits he) hmatched,
    foldl_addedEdits, foldl_pairEdits]
  have hgone (x : Option PropertyValue) :
      ((((unmatched (·.id) old (new.map (·.id))).find? fun p => p.name = k).map fun p =>
        [Edit.remove p.name]).getD []).foldl (fun x e => e.value engine x) x =
          if RemovedAt old new k then none else x := by
    cases hfind : (unmatched (·.id) old (new.map (·.id))).find? fun p => p.name = k with
    | none =>
      have hno : ¬RemovedAt old new k := by
        rintro ⟨p, hp, hpk⟩
        exact find?_eq_none.1 hfind p hp (by simpa using hpk)
      rw [if_neg hno]
      rfl
    | some p =>
      have hyes : RemovedAt old new k :=
        ⟨p, mem_of_find?_eq_some hfind, by simpa using find?_some hfind⟩
      rw [if_pos hyes]
      rfl
  rw [hgone]
  rfl

theorem coercionAt_of_backfillAt (hnew : (new.map (·.name)).Nodup) {k : PropertyKey}
    {default : PropertyValue} (h : backfillAt old new k = some default) :
    coercionAt old new k = none := by
  obtain ⟨p, hfind, -⟩ := Option.bind_eq_some_iff.1 h
  have hp := mem_of_find?_eq_some hfind
  have hpk : p.name = k := by simpa using find?_some hfind
  rw [mem_unmatched] at hp
  unfold coercionAt
  rw [find?_eq_none.2, Option.bind_none]
  intro q hq hqk
  have hqk : q.2.name = k := by simpa using hqk
  rw [mem_matchedPairs] at hq
  have heq : q.2 = p := eq_of_key_eq (·.name) hnew hq.1 hp.1 (hqk.trans hpk.symm)
  have hid := (last_isSome_iff (fun p : PropertyDef => p.id)).1 ⟨q.1, hq.2⟩
  rw [heq] at hid
  exact hp.2 hid

def sampleValue : PropertyType → PropertyValue
  | .bool => .bool true
  | .int => .int 0
  | .float => .float ⟨0, by decide⟩
  | .string => .string ""
  | .date => .date 0
  | .dateTime => .dateTime 0
  | .duration => .duration "P1D"
  | .bytes => .bytes []
  | .list _ => .list []
  | .map => .map []

/-- An instance with the required properties and no others. -/
def sampleProps (properties : List PropertyDef) : Props := fun k =>
  (properties.find? fun p => p.name = k ∧ p.nullable = false).map fun p =>
    sampleValue p.propertyType

theorem conforms_sampleProps (properties : List PropertyDef) :
    Conforms properties (sampleProps properties) where
  declared := by
    intro k v hv
    obtain ⟨p, hfind, rfl⟩ := Option.map_eq_some_iff.1 hv
    have hp := find?_some hfind
    refine ⟨p, mem_of_find?_eq_some hfind, (by simpa using hp : _ ∧ _).1, ?_⟩
    cases p.propertyType <;> rfl
  required := by
    intro p hp hreq
    cases hfind : properties.find? fun q => q.name = p.name ∧ q.nullable = false with
    | none => exact absurd (find?_eq_none.1 hfind p hp) (by simp [hreq])
    | some q => exact ⟨sampleValue q.propertyType, by rw [sampleProps, hfind]; rfl⟩

theorem sampleProps_eq_none {properties : List PropertyDef} {k : PropertyKey}
    (h : ¬∃ p ∈ properties, p.name = k ∧ p.nullable = false) : sampleProps properties k = none := by
  have hfind : (properties.find? fun p => p.name = k ∧ p.nullable = false) = none := by
    apply find?_eq_none.2
    intro p hp hpk
    exact h ⟨p, hp, by simpa using hpk⟩
  rw [sampleProps, hfind]
  rfl

/-- Every property that is filled is read back as its default, unless all
instances had a value under its name already; and a name that is filled is not
the name of a property that went, which would take the default away again. -/
def BackfillsSettled (engine : Engine) (old new : List PropertyDef) : Prop :=
  ∀ k default, backfillAt old new k = some default →
    (RemovedAt old new k → storedDefault default = none) ∧
      (¬RemovedAt old new k → (∃ p ∈ old, p.name = k ∧ p.nullable = false) ∨
        (engine.literal (displayValue engine.showFloat default)).join = storedDefault default)

/-- The edits of a kept type do what the migration is for exactly when its
properties that are filled are settled. -/
theorem applyEdits_propertyEdits_iff (hold : (old.map (·.name)).Nodup)
    (hnew : (new.map (·.name)).Nodup) : (∀ props, Conforms old props →
      applyEdits engine (propertyEdits engine old new) props = migrateProps engine old new props) ↔
        BackfillsSettled engine old new := by
  constructor
  · intro h k default hfill
    have hk := congrFun (h _ (conforms_sampleProps old)) k
    rw [applyEdits_propertyEdits engine hold hnew] at hk
    unfold migrateProps at hk
    rw [coercionAt_of_backfillAt hnew hfill, hfill] at hk
    constructor
    · intro hgone
      simp only [if_pos hgone] at hk
      simpa using hk.symm
    · intro hkept
      by_cases hreq : ∃ p ∈ old, p.name = k ∧ p.nullable = false
      · exact .inl hreq
      · simp only [if_neg hkept, sampleProps_eq_none hreq, Option.none_or] at hk
        exact .inr hk
  · intro h props hprops
    funext k
    rw [applyEdits_propertyEdits engine hold hnew]
    unfold migrateProps
    cases hfill : backfillAt old new k with
    | none => rfl
    | some default =>
      obtain ⟨hgone, hkept⟩ := h k default hfill
      rw [coercionAt_of_backfillAt hnew hfill]
      by_cases hrem : RemovedAt old new k
      · simp only [if_pos hrem, hgone hrem, Option.none_or]
      · simp only [if_neg hrem]
        rcases hkept hrem with ⟨p, hp, rfl, hreq⟩ | hread
        · obtain ⟨v, hv⟩ := hprops.required p hp hreq
          rw [hv]
          rfl
        · rw [hread]

end

/-! ## The statements of a diff -/

section

variable (engine : Engine)

/-- The statements of a node type that is on both sides. -/
def nodeStatements (p : NodeTypeDef × NodeTypeDef) : List DataStatement :=
  (if p.1.label ≠ p.2.label then [.renameLabel p.1.label p.2.label] else []) ++
    (propertyEdits engine p.1.properties p.2.properties).map (.onNodes p.2.label)

/-- The statements of an edge type that is on both sides. -/
def edgeStatements (p : EdgeTypeDef × EdgeTypeDef) : List DataStatement :=
  (if p.1.label ≠ p.2.label then [.renameType p.1.label p.2.label] else []) ++
    (propertyEdits engine p.1.properties p.2.properties).map (.onRelationships p.2.label)

def resultEdits : PropDiffResult → List Edit
  | .added p => addedEdits engine.showFloat p
  | .removed p => [.remove p.name]
  | .modified name changes => modifiedEdits name changes

theorem flatMap_resultEdits (old new : List PropertyDef) :
    (diffProperties old new).1.flatMap (resultEdits engine) = propertyEdits engine old new := by
  have hmodified (ps : List (PropertyDef × PropertyDef)) :
      (ps.filterMap fun p =>
        if (diffSingleProperty p.1 p.2).isEmpty then none
        else some (PropDiffResult.modified p.2.name (diffSingleProperty p.1 p.2))).flatMap
          (resultEdits engine) = ps.flatMap pairEdits := by
    induction ps with
    | nil => rfl
    | cons p ps ih =>
      rw [filterMap_cons, flatMap_cons, ← ih]
      by_cases hempty : (diffSingleProperty p.1 p.2).isEmpty = true
      · have hnone : pairEdits p = [] := by
          rw [pairEdits, List.isEmpty_iff.1 hempty]
          rfl
        rw [if_pos hempty, hnone, nil_append]
      · rw [if_neg hempty, flatMap_cons]
        rfl
  unfold diffProperties propertyEdits
  rw [flatMap_append, flatMap_append, flatMap_map, flatMap_map]
  exact congrArg _ (hmodified _)

theorem map_statement_editStep (statement : Edit → DataStatement) (es : List Edit) :
    (es.map (editStep statement)).map DataMigrationStep.statement = es.map statement := by
  rw [map_map]
  rfl

theorem statements_propertyChanges {change : Type} (steps : change → List DataMigrationStep)
    (toChange : PropDiffResult → change) (statement : Edit → DataStatement)
    (h : ∀ r, steps (toChange r) = (resultEdits engine r).map (editStep statement))
    (old new : List PropertyDef) :
    (((diffProperties old new).1.map toChange).flatMap steps).map DataMigrationStep.statement =
      (propertyEdits engine old new).map statement := by
  have hsteps : ((diffProperties old new).1.map toChange).flatMap steps =
      (propertyEdits engine old new).map (editStep statement) := by
    rw [flatMap_map, ← flatMap_resultEdits, map_flatMap]
    exact congrArg (fun f => flatMap f (diffProperties old new).1) (funext h)
  rw [hsteps, map_statement_editStep]

theorem nodeSteps_constraint {label : GraphLabel} {old new : List ConstraintDef} :
    (diffConstraints old new).flatMap (nodeSteps engine.showFloat label) = [] := by
  apply flatMap_eq_nil_iff.2
  intro c hc
  rcases mem_append.1 hc with hc | hc
  · rcases mem_append.1 hc with hc | hc
    · obtain ⟨d, -, rfl⟩ := mem_map.1 hc
      rfl
    · obtain ⟨d, -, rfl⟩ := mem_map.1 hc
      rfl
  · obtain ⟨d, -, hc⟩ := mem_flatMap.1 hc
    split at hc
    · cases hc
    · split at hc
      · rcases mem_cons.1 hc with rfl | hc
        · rfl
        · rw [mem_singleton.1 hc]
          rfl
      · cases hc

theorem statements_nodeSteps (p : NodeTypeDef × NodeTypeDef) :
    ((diffNode p.1 p.2).1.flatMap (nodeSteps engine.showFloat p.2.label)).map
      DataMigrationStep.statement = nodeStatements engine p := by
  have hlabel : ((if p.1.label ≠ p.2.label then [NodeChange.labelChanged p.1.label p.2.label]
      else []).flatMap (nodeSteps engine.showFloat p.2.label)).map DataMigrationStep.statement =
        if p.1.label ≠ p.2.label then [.renameLabel p.1.label p.2.label] else [] := by
    split <;> rfl
  have hdescription : (if p.1.description ≠ p.2.description then
      [NodeChange.descriptionChanged p.1.description p.2.description] else []).flatMap
        (nodeSteps engine.showFloat p.2.label) = [] := by
    split <;> rfl
  have hproperties := statements_propertyChanges engine (nodeSteps engine.showFloat p.2.label)
    PropDiffResult.toNodeChange (.onNodes p.2.label) (fun r => by cases r <;> rfl)
    p.1.properties p.2.properties
  unfold diffNode nodeStatements
  rw [flatMap_append, flatMap_append, flatMap_append, nodeSteps_constraint,
    hdescription, append_nil, append_nil, map_append, hlabel, hproperties]

theorem statements_edgeSteps (p : EdgeTypeDef × EdgeTypeDef) (old new : OntologyIR) :
    ((diffEdge p.1 p.2 old new).1.flatMap (edgeSteps engine.showFloat p.2.label)).map
      DataMigrationStep.statement = edgeStatements engine p := by
  have hlabel : ((if p.1.label ≠ p.2.label then [EdgeChange.labelChanged p.1.label p.2.label]
      else []).flatMap (edgeSteps engine.showFloat p.2.label)).map DataMigrationStep.statement =
        if p.1.label ≠ p.2.label then [.renameType p.1.label p.2.label] else [] := by
    split <;> rfl
  have hproperties := statements_propertyChanges engine (edgeSteps engine.showFloat p.2.label)
    PropDiffResult.toEdgeChange (.onRelationships p.2.label) (fun r => by cases r <;> rfl)
    p.1.properties p.2.properties
  have hskip (c : Prop) [Decidable c] (change : EdgeChange)
      (h : edgeSteps engine.showFloat p.2.label change = []) :
      (if c then [change] else []).flatMap (edgeSteps engine.showFloat p.2.label) = [] := by
    by_cases hc : c
    · rw [if_pos hc, flatMap_singleton, h]
    · rw [if_neg hc, flatMap_nil]
  unfold diffEdge edgeStatements
  rw [flatMap_append, flatMap_append, flatMap_append, flatMap_append, flatMap_append,
    hskip (p.1.description ≠ p.2.description) _ rfl,
    hskip (p.1.sourceNodeId ≠ p.2.sourceNodeId) _ rfl,
    hskip (p.1.targetNodeId ≠ p.2.targetNodeId) _ rfl,
    hskip (p.1.cardinality ≠ p.2.cardinality) _ rfl, append_nil, append_nil, append_nil, append_nil,
    map_append, hlabel, hproperties]

/-- The statements of a migration: those of the kept node types and those of the
kept edge types, in the order of the new ontology. -/
theorem statements_compileData (old new : OntologyIR) :
    (compileDataMigration engine.showFloat (computeDiff old new)).map DataMigrationStep.statement =
      (matchedPairs (·.id) old.nodeTypes new.nodeTypes).flatMap (nodeStatements engine) ++
        (matchedPairs (·.id) old.edgeTypes new.edgeTypes).flatMap (edgeStatements engine) := by
  have hnodes (ps : List (NodeTypeDef × NodeTypeDef)) :
      (((ps.map fun p => (p.2, diffNode p.1 p.2)).filterMap fun q =>
        if q.2.1.isEmpty then none else some (NodeDiff.mk q.1.id q.1.label q.2.1)).flatMap fun d =>
          d.changes.flatMap (nodeSteps engine.showFloat d.label)).map DataMigrationStep.statement =
            ps.flatMap (nodeStatements engine) := by
    induction ps with
    | nil => rfl
    | cons p ps ih =>
      rw [flatMap_cons, ← ih, ← statements_nodeSteps, map_cons, filterMap_cons]
      dsimp only
      by_cases hempty : (diffNode p.1 p.2).1.isEmpty = true
      · rw [if_pos hempty, List.isEmpty_iff.1 hempty]
        rfl
      · rw [if_neg hempty, flatMap_cons, map_append]
  have hedges (ps : List (EdgeTypeDef × EdgeTypeDef)) :
      (((ps.map fun p => (p.2, diffEdge p.1 p.2 old new)).filterMap fun q =>
        if q.2.1.isEmpty then none else some (EdgeDiff.mk q.1.id q.1.label q.2.1)).flatMap fun d =>
          d.changes.flatMap (edgeSteps engine.showFloat d.label)).map DataMigrationStep.statement =
            ps.flatMap (edgeStatements engine) := by
    induction ps with
    | nil => rfl
    | cons p ps ih =>
      rw [flatMap_cons, ← ih, ← statements_edgeSteps engine p old new, map_cons, filterMap_cons]
      dsimp only
      by_cases hempty : (diffEdge p.1 p.2 old new).1.isEmpty = true
      · rw [if_pos hempty, List.isEmpty_iff.1 hempty]
        rfl
      · rw [if_neg hempty, flatMap_cons, map_append]
  unfold compileDataMigration computeDiff
  rw [map_append]
  exact congrArg₂ _ (hnodes _) (hedges _)

end

end Ontosyx.Compile
