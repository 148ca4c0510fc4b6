import Ontosyx.Compile.DataMigrationLaws
import Ontosyx.Compile.Migration

/-!
# What a schema migration reaches

The plan of a migration run against a database that holds the schema of the old
ontology.  No statement of a plan drops a constraint, and the only indexes it
drops go by a name that the source guesses, so that a plan reaches the new schema
only when nothing has to go, and is undone only when nothing but indexes with
such names has come.

## Main results

* `filterMap_drops` — the constraints of a node type are never
  reversed.
* `reaches_iff` — when the statements of `up` lead to the schema of the new
  ontology.
* `restores_iff` — when those of `down` lead back.
-/

namespace Ontosyx.Compile

open List Ontosyx.Core Lib.Keyed Lib.Script Ontology

theorem mem_destutter_iff {α : Type} [DecidableEq α] {l : List α} {a : α} :
    a ∈ l.destutter (· ≠ ·) ↔ a ∈ l := by
  cases l with
  | nil => rfl
  | cons b l =>
    rw [destutter_cons']
    induction l generalizing b with
    | nil => rfl
    | cons c l ih =>
      by_cases hbc : b = c
      · rw [destutter'_cons_neg _ (not_not_intro hbc), ih, hbc]
        simp
      · rw [destutter'_cons_pos _ hbc, mem_cons, ih, mem_cons, mem_cons, mem_cons]

theorem mem_sortDedup {stmts : List String} {t : String} : t ∈ sortDedup stmts ↔ t ∈ stmts := by
  rw [sortDedup, mem_destutter_iff, mem_mergeSort]

theorem isIndex_of_mem_constraints {d : CypherDialect} {node : NodeTypeDef}
    {c : NodeConstraint} {x : SchemaObject} (hx : x ∈ constraintObjects d node c) :
    x.isIndex = false := by
  cases c with
  | unique propertyIds =>
    cases d with
    | neo4j =>
      dsimp only [constraintObjects] at hx
      split at hx
      · cases hx
      · rw [mem_singleton.1 hx]
        rfl
    | memgraph =>
      obtain ⟨name, _, rfl⟩ := mem_map.1 hx
      rfl
  | exists_ propertyId =>
    rw [constraintObjects] at hx
    split at hx
    · cases hx
    · rw [mem_singleton.1 hx]
      rfl
  | nodeKey propertyIds =>
    cases d with
    | neo4j =>
      rw [mem_singleton.1 hx]
      rfl
    | memgraph => cases hx

theorem isIndex_of_mem_nodeObjects {d : CypherDialect} {node : NodeTypeDef} {x : SchemaObject}
    (hx : x ∈ nodeObjects d node) : x.isIndex = false := by
  obtain ⟨c, _, hc⟩ := mem_flatMap.1 hx
  exact isIndex_of_mem_constraints hc

theorem reverseIndexStmt_append {s : String}
    (hs : s = "CREATE CONSTRAINT IF NOT EXISTS FOR (n:" ∨ s = "CREATE CONSTRAINT ON (n:")
    (t u : String) : reverseIndexStmt (s ++ t ++ u) = none := by
  unfold reverseIndexStmt
  rw [String.toList_append, String.toList_append]
  rcases hs with rfl | rfl
  · exact if_neg (Bool.eq_false_iff.1 rfl)
  · exact if_neg (Bool.eq_false_iff.1 rfl)

theorem reverseIndexStmt_of_createText {d : CypherDialect} {x : SchemaObject} {t : String}
    (hx : x.isIndex = false) (ht : createText d x = some t) : reverseIndexStmt t = none := by
  cases d with
  | neo4j =>
    cases ht
    cases x with
    | unique label properties | notNull label property
    | nodeKey label properties => exact reverseIndexStmt_append (.inl rfl) _ _
    | range => cases hx
    | fullText => cases hx
    | vector => cases hx
  | memgraph =>
    replace ht : memgraphText x = some t := ht
    unfold memgraphText at ht
    split at ht
    · cases ht
      exact reverseIndexStmt_append (.inr rfl) _ _
    · cases ht
      exact reverseIndexStmt_append (.inr rfl) _ _
    · cases hx
    · cases ht

theorem filterMap_drops (d : CypherDialect) (node : NodeTypeDef) :
    (compileNodeConstraints node d).filterMap reverseIndexStmt = [] := by
  apply filterMap_eq_nil_iff.2
  intro t ht
  obtain ⟨x, hx, htext⟩ := mem_filterMap.1 ht
  exact reverseIndexStmt_of_createText (isIndex_of_mem_nodeObjects hx) htext

/-! ## What a plan announces -/

abbrev addedNodes (old new : OntologyIR) : List NodeTypeDef :=
  unmatched (·.id) new.nodeTypes (old.nodeTypes.map (·.id))

abbrev removedNodes (old new : OntologyIR) : List NodeTypeDef :=
  unmatched (·.id) old.nodeTypes (new.nodeTypes.map (·.id))

def gainedNames (p : NodeTypeDef × NodeTypeDef) : List PropertyKey :=
  requiredNames (unmatched (·.id) p.2.properties (p.1.properties.map (·.id)))

/-- Label and property of each range index the plan creates: those of the
required properties of new node types, and of new required properties. -/
def announced (old new : OntologyIR) : List (GraphLabel × PropertyKey) :=
  (addedNodes old new).flatMap (fun n => (requiredNames n.properties).map (n.label, ·)) ++
    (keptNodes old new).flatMap fun p => (gainedNames p).map (p.2.label, ·)

/-- A constraint came to a node type, or changed. -/
def GainsConstraint (old new : NodeTypeDef) : Prop :=
  ∃ c ∈ new.constraints,
    ∀ c', first (·.id) c.id old.constraints = some c' → c'.constraint ≠ c.constraint

/-- The plan declares the constraints of these types of the new ontology again. -/
def Redeclared (old new : OntologyIR) (n : NodeTypeDef) : Prop :=
  n ∈ addedNodes old new ∨
    ∃ p ∈ keptNodes old new, p.2 = n ∧ (p.1.label ≠ p.2.label ∨ GainsConstraint p.1 p.2)

/-- The index names the plan drops on the way back. -/
def guessedNames (settings : SchemaSettings) (old new : OntologyIR) : List String :=
  (addedNodes old new).flatMap fun n =>
    (requiredNames n.properties).map (guessedIndexName settings n.label)

section

variable {settings : SchemaSettings} {old new : OntologyIR} {d : CypherDialect}

variable {t : String}

theorem mem_nodeConstraints {node : NodeTypeDef} :
    t ∈ compileNodeConstraints node d ↔ ∃ x ∈ nodeObjects d node, createText d x = some t :=
  mem_filterMap

variable {o n : NodeTypeDef} {ch : NodeChange}

theorem mem_diffNode : ch ∈ (diffNode o n).1 ↔
      (o.label ≠ n.label ∧ ch = .labelChanged o.label n.label) ∨
      (o.description ≠ n.description ∧ ch = .descriptionChanged o.description n.description) ∨
      (∃ r ∈ (diffProperties o.properties n.properties).1, r.toNodeChange = ch) ∨
      ch ∈ diffConstraints o.constraints n.constraints := by
  simp only [diffNode, mem_append, mem_map, mem_ite_nil_right, mem_singleton, or_assoc]

theorem mem_diffConstraints {cs ds : List ConstraintDef} : ch ∈ diffConstraints cs ds ↔
      (∃ c ∈ unmatched (·.id) ds (cs.map (·.id)), ch = .constraintAdded (formatConstraint c)) ∨
      (∃ c ∈ unmatched (·.id) cs (ds.map (·.id)), ch = .constraintRemoved (formatConstraint c)) ∨
      ∃ c ∈ ds, ∃ c', first (·.id) c.id cs = some c' ∧ c'.constraint ≠ c.constraint ∧
        (ch = .constraintRemoved (formatConstraint c') ∨
          ch = .constraintAdded (formatConstraint c)) := by
  simp only [diffConstraints, mem_append, mem_map, mem_flatMap, or_assoc, eq_comm (b := ch)]
  refine or_congr_right (or_congr_right (exists_congr fun c => and_congr_right fun _ => ?_))
  cases first (·.id) c.id cs with
  | none => simp
  | some c' =>
    by_cases heq : c'.constraint = c.constraint
    · simp [heq]
    · simp [heq]

theorem labelChanged_mem_diffNode :
    (∃ a b, NodeChange.labelChanged a b ∈ (diffNode o n).1) ↔ o.label ≠ n.label := by
  constructor
  · intro h
    obtain ⟨a, b, hab⟩ := h
    rcases mem_diffNode.1 hab with h | h | ⟨r, _, hr⟩ | h
    · exact h.1
    · cases h.2
    · cases r <;> cases hr
    · rcases mem_diffConstraints.1 h with ⟨_, _, h⟩ | ⟨_, _, h⟩ | ⟨_, _, _, _, _, h | h⟩ <;> cases h
  · exact fun h => ⟨_, _, mem_diffNode.2 (.inl ⟨h, rfl⟩)⟩

theorem mem_diffProperties {ps qs : List PropertyDef} {r : PropDiffResult} :
    r ∈ (diffProperties ps qs).1 ↔ (∃ q ∈ unmatched (·.id) qs (ps.map (·.id)), r = .added q) ∨
      (∃ p ∈ unmatched (·.id) ps (qs.map (·.id)), r = .removed p) ∨
      ∃ pq ∈ matchedPairs (·.id) ps qs, diffSingleProperty pq.1 pq.2 ≠ [] ∧
        r = .modified pq.2.name (diffSingleProperty pq.1 pq.2) := by
  simp only [diffProperties, mem_append, mem_map, mem_filterMap, or_assoc, eq_comm (b := r)]
  refine or_congr_right (or_congr_right (exists_congr fun pq => and_congr_right fun _ => ?_))
  cases diffSingleProperty pq.1 pq.2 with
  | nil => simp
  | cons c cs => simp [eq_comm (b := r)]

theorem propertyAdded_mem_diffNode {q : PropertyDef} :
    NodeChange.propertyAdded q ∈ (diffNode o n).1 ↔
      q ∈ unmatched (·.id) n.properties (o.properties.map (·.id)) := by
  constructor
  · intro h
    rcases mem_diffNode.1 h with h | h | ⟨r, hmem, hr⟩ | h
    · cases h.2
    · cases h.2
    · rcases mem_diffProperties.1 hmem with ⟨q', hq', rfl⟩ | ⟨_, _, rfl⟩ | ⟨_, _, _, rfl⟩
      · cases hr
        exact hq'
      · cases hr
      · cases hr
    · rcases mem_diffConstraints.1 h with ⟨_, _, h⟩ | ⟨_, _, h⟩ | ⟨_, _, _, _, _, h | h⟩ <;> cases h
  · intro hq
    apply mem_diffNode.2
    exact .inr (.inr (.inl ⟨.added q, mem_diffProperties.2 (.inl ⟨q, hq, rfl⟩), rfl⟩))

theorem constraintAdded_mem_diffNode :
    (∃ s, NodeChange.constraintAdded s ∈ (diffNode o n).1) ↔ GainsConstraint o n := by
  constructor
  · intro h
    obtain ⟨s, hs⟩ := h
    rcases mem_diffNode.1 hs with h | h | ⟨r, _, hr⟩ | h
    · cases h.2
    · cases h.2
    · cases r <;> cases hr
    · rcases mem_diffConstraints.1 h with ⟨c, hc, _⟩ | ⟨_, _, h⟩ | ⟨c, hc, c', hfirst, hne, _⟩
      · refine ⟨c, ((mem_unmatched _).1 hc).1, ?_⟩
        intro c' hfirst
        have hnone := (first_none_iff fun c : ConstraintDef => c.id).2 ((mem_unmatched _).1 hc).2
        rw [hnone] at hfirst
        cases hfirst
      · cases h
      · refine ⟨c, hc, ?_⟩
        intro c'' hfirst'
        rw [hfirst, Option.some.injEq] at hfirst'
        rwa [← hfirst']
  · intro h
    obtain ⟨c, hc, hne⟩ := h
    refine ⟨formatConstraint c, mem_diffNode.2 (.inr (.inr (.inr (mem_diffConstraints.2 ?_))))⟩
    cases hfirst : first (·.id) c.id o.constraints with
    | none =>
      exact .inl ⟨c, (mem_unmatched _).2 ⟨hc, (first_none_iff _).1 hfirst⟩, rfl⟩
    | some c' => exact .inr (.inr ⟨c, hc, c', hfirst, hne c' hfirst, .inr rfl⟩)

theorem filterMap_reverse_constraintsOf (d : CypherDialect) (node : Option NodeTypeDef) :
    (constraintsOf d node).filterMap reverseIndexStmt = [] := by
  cases node with
  | none => rfl
  | some n => exact filterMap_drops d n

/-- What one change of a kept node type brings. -/
theorem mem_up_pushNodeChange {oldNode : Option NodeTypeDef} {label : GraphLabel} :
    t ∈ (pushNodeChange d (some n) oldNode label ch).up ↔
      ((∃ a b, ch = .labelChanged a b) ∨ ∃ s, ch = .constraintAdded s) ∧
          t ∈ compileNodeConstraints n d ∨
        ∃ q : PropertyDef, ch = .propertyAdded q ∧ q.nullable = false ∧
          t = rangeText label [q.name] := by
  cases ch with
  | labelChanged a b =>
    simp only [pushNodeChange, filterMap_reverse_constraintsOf, append_nil]
    simp [constraintsOf]
  | propertyAdded q =>
    by_cases hq : q.nullable = true
    · simp [pushNodeChange, hq]
    · simp [pushNodeChange, hq]
  | constraintRemoved s => simp [pushNodeChange, filterMap_reverse_constraintsOf]
  | constraintAdded s | propertyRemoved q | propertyModified name changes
  | descriptionChanged a b => simp [pushNodeChange]

theorem down_pushNodeChange {newNode oldNode : Option NodeTypeDef} {label : GraphLabel} :
    (pushNodeChange d newNode oldNode label ch).down = [] := by
  unfold pushNodeChange
  split <;> try rfl
  · split <;> rfl
  · split <;> rfl

/-- What the changes of a kept node type bring. -/
theorem mem_up_pushNodeDiff (ho : old.Indexed) (hn : new.Indexed) {p : NodeTypeDef × NodeTypeDef}
    (hp : p ∈ keptNodes old new) :
    t ∈ (pushNodeDiff d old new ⟨p.2.id, p.2.label, (diffNode p.1 p.2).1⟩).flatMap (·.up) ↔
      (p.1.label ≠ p.2.label ∨ GainsConstraint p.1 p.2) ∧ t ∈ compileNodeConstraints p.2 d ∨
        ∃ name ∈ gainedNames p, t = rangeText p.2.label [name] := by
  have hfind : (new.nodeTypes.find? fun n => n.id = p.2.id) = some p.2 :=
    (first_some_iff NodeTypeDef.id hn.nodeIds).2 ⟨((mem_keptNodes ho).1 hp).1, rfl⟩
  rw [← labelChanged_mem_diffNode, ← constraintAdded_mem_diffNode]
  simp only [pushNodeDiff, hfind, flatMap_map, mem_flatMap, mem_up_pushNodeChange]
  constructor
  · intro h
    obtain ⟨ch, hch, h⟩ := h
    rcases h with ⟨⟨a, b, rfl⟩ | ⟨s, rfl⟩, ht⟩ | ⟨q, rfl, hq, ht⟩
    · exact .inl ⟨.inl ⟨a, b, hch⟩, ht⟩
    · exact .inl ⟨.inr ⟨s, hch⟩, ht⟩
    · refine .inr ⟨q.name, ?_, ht⟩
      rw [gainedNames, requiredNames]
      exact mem_map_of_mem (mem_filter.2 ⟨propertyAdded_mem_diffNode.1 hch, by simp [hq]⟩)
  · intro h
    rcases h with ⟨⟨a, b, hch⟩ | ⟨s, hch⟩, ht⟩ | ⟨name, hname, ht⟩
    · exact ⟨_, hch, .inl ⟨.inl ⟨a, b, rfl⟩, ht⟩⟩
    · exact ⟨_, hch, .inl ⟨.inr ⟨s, rfl⟩, ht⟩⟩
    · obtain ⟨q, hq, rfl⟩ := mem_map.1 hname
      obtain ⟨hmem, hnull⟩ := mem_filter.1 hq
      refine ⟨_, propertyAdded_mem_diffNode.2 hmem, .inr ⟨q, rfl, by simpa using hnull, ht⟩⟩

theorem mem_flatMap_modifiedNodes {β : Type} {f : NodeDiff → List β} {b : β}
    (hf : ∀ id label, f ⟨id, label, []⟩ = []) : b ∈ (computeDiff old new).modifiedNodes.flatMap f ↔
      ∃ p ∈ keptNodes old new, b ∈ f ⟨p.2.id, p.2.label, (diffNode p.1 p.2).1⟩ := by
  simp only [computeDiff, filterMap_map, mem_flatMap, mem_filterMap, Function.comp_apply]
  constructor
  · intro h
    obtain ⟨nd, ⟨p, hp, hnd⟩, hb⟩ := h
    split at hnd
    · cases hnd
    · cases hnd
      exact ⟨p, hp, hb⟩
  · intro h
    obtain ⟨p, hp, hb⟩ := h
    refine ⟨_, ⟨p, hp, if_neg ?_⟩, hb⟩
    intro hempty
    rw [List.isEmpty_iff.1 hempty, hf] at hb
    cases hb

/-- The statements on the way up declare constraints and announce indexes. -/
theorem mem_up_iff (ho : old.Indexed) (hn : new.Indexed) {showFloat : F64 → String} :
    t ∈ (compileMigration settings showFloat (computeDiff old new) old new d).up ↔
      (∃ n, Redeclared old new n ∧ t ∈ compileNodeConstraints n d) ∨
        ∃ a ∈ announced old new, t = rangeText a.1 [a.2] := by
  have hadded : t ∈ ((computeDiff old new).addedNodes.map (pushAddedNode settings d)).flatMap
      (·.up) ↔ ∃ n ∈ addedNodes old new, t ∈ compileNodeConstraints n d ∨
        ∃ name ∈ requiredNames n.properties, t = rangeText n.label [name] := by
    simp only [flatMap_map, mem_flatMap, pushAddedNode, mem_append, mem_map,
      eq_comm (b := t), computeDiff]
  have hremoved : ((computeDiff old new).removedNodes.map (pushRemovedNode d)).flatMap (·.up) =
      [] := by
    simp [flatMap_map, pushRemovedNode, filterMap_drops]
  have hkept : t ∈ ((computeDiff old new).modifiedNodes.flatMap (pushNodeDiff d old new)).flatMap
      (·.up) ↔ ∃ p ∈ keptNodes old new,
        (p.1.label ≠ p.2.label ∨ GainsConstraint p.1 p.2) ∧ t ∈ compileNodeConstraints p.2 d ∨
          ∃ name ∈ gainedNames p, t = rangeText p.2.label [name] := by
    rw [flatMap_assoc, mem_flatMap_modifiedNodes fun id label => rfl]
    exact exists_congr fun p => and_congr_right fun hp => mem_up_pushNodeDiff ho hn hp
  have hedges : (((computeDiff old new).addedEdges.map (pushAddedEdge new)).flatMap (·.up) = []) ∧
      ((computeDiff old new).removedEdges.map (pushRemovedEdge old)).flatMap (·.up) = [] := by
    simp [flatMap_map, pushAddedEdge, pushRemovedEdge]
  rw [compileMigration, mem_sortDedup, pushDiff]
  simp only [flatMap_append, mem_append, hadded, hremoved, hkept, hedges.1, hedges.2,
    not_mem_nil, or_false]
  unfold Redeclared announced
  simp only [mem_append, mem_flatMap, mem_map]
  constructor
  · intro h
    rcases h with ⟨n, hmem, ht | ⟨name, hname, ht⟩⟩ | ⟨p, hp, ⟨hwhy, ht⟩ | ⟨name, hname, ht⟩⟩
    · exact .inl ⟨n, .inl hmem, ht⟩
    · exact .inr ⟨_, .inl ⟨n, hmem, name, hname, rfl⟩, ht⟩
    · exact .inl ⟨p.2, .inr ⟨p, hp, rfl, hwhy⟩, ht⟩
    · exact .inr ⟨_, .inr ⟨p, hp, name, hname, rfl⟩, ht⟩
  · intro h
    rcases h with ⟨n, hmem | ⟨p, hp, rfl, hwhy⟩, ht⟩ | ⟨a, ⟨n, hmem, name, hname, rfl⟩ |
      ⟨p, hp, name, hname, rfl⟩, ht⟩
    · exact .inl ⟨n, hmem, .inl ht⟩
    · exact .inr ⟨p, hp, .inl ⟨hwhy, ht⟩⟩
    · exact .inl ⟨n, hmem, .inr ⟨name, hname, ht⟩⟩
    · exact .inr ⟨p, hp, .inr ⟨name, hname, ht⟩⟩

/-- Those on the way down declare the constraints of removed node types again, and
drop indexes by guessed names. -/
theorem mem_down_iff {showFloat : F64 → String} :
    t ∈ (compileMigration settings showFloat (computeDiff old new) old new d).down ↔
      (∃ n ∈ removedNodes old new, t ∈ compileNodeConstraints n d) ∨
        ∃ name ∈ guessedNames settings old new, t = dropIndexText name := by
  have hadded : t ∈ ((computeDiff old new).addedNodes.map (pushAddedNode settings d)).flatMap
      (·.down) ↔ ∃ name ∈ guessedNames settings old new, t = dropIndexText name := by
    simp only [flatMap_map, mem_flatMap, pushAddedNode, filterMap_drops,
      nil_append, mem_map, guessedNames, computeDiff]
    constructor
    · intro h
      obtain ⟨n, hmem, name, hname, ht⟩ := h
      exact ⟨_, ⟨n, hmem, name, hname, rfl⟩, ht.symm⟩
    · intro h
      obtain ⟨_, ⟨n, hmem, name, hname, rfl⟩, ht⟩ := h
      exact ⟨n, hmem, name, hname, ht.symm⟩
  have hremoved : t ∈ ((computeDiff old new).removedNodes.map (pushRemovedNode d)).flatMap
      (·.down) ↔ ∃ n ∈ removedNodes old new, t ∈ compileNodeConstraints n d := by
    simp only [flatMap_map, mem_flatMap, pushRemovedNode, computeDiff]
  have hkept : ((computeDiff old new).modifiedNodes.flatMap (pushNodeDiff d old new)).flatMap
      (·.down) = [] := by
    simp [flatMap_assoc, pushNodeDiff, flatMap_map, down_pushNodeChange]
  have hedges : (((computeDiff old new).addedEdges.map (pushAddedEdge new)).flatMap (·.down) = [])
      ∧ ((computeDiff old new).removedEdges.map (pushRemovedEdge old)).flatMap (·.down) = [] := by
    simp [flatMap_map, pushAddedEdge, pushRemovedEdge]
  rw [compileMigration, mem_sortDedup, pushDiff]
  simp only [flatMap_append, mem_append, hadded, hremoved, hkept, hedges.1, hedges.2,
    not_mem_nil, or_false]
  exact or_comm

end

/-! ## Running it -/

/-- The schema a database has after `compile_schema` of an ontology. -/
def schemaOf (settings : SchemaSettings) (db : Database) (o : OntologyIR) :
    Option (Finset SchemaObject) :=
  run (readDdl db) (compileSchema settings o db.dialect) ∅

theorem run_createTexts (db : Database) {xs : List SchemaObject}
    (hxs : ∀ x ∈ xs, (createText db.dialect x).isSome) :
    run (readDdl db) (xs.filterMap (createText db.dialect)) ∅ = some xs.toFinset := by
  have hread (t : String) (ht : t ∈ xs.filterMap (createText db.dialect)) :
      ∃ x ∈ xs, readDdl db t = some (.insert x) := by
    obtain ⟨x, hx, htext⟩ := mem_filterMap.1 ht
    exact ⟨x, hx, readDdl_createText htext⟩
  have hsome : (run (readDdl db) (xs.filterMap (createText db.dialect)) ∅).isSome := by
    apply run_isSome_iff.2
    intro t ht
    obtain ⟨x, _, hx⟩ := hread t ht
    rw [hx]
    rfl
  obtain ⟨s, hs⟩ := Option.isSome_iff_exists.1 hsome
  have hfree : OrderFree (readDdl db) (xs.filterMap (createText db.dialect)) := by
    intro t _ u hu a p _ hp
    obtain ⟨x, _, hx⟩ := hread u hu
    rw [hx] at hp
    cases hp
  rw [hs, Option.some.injEq]
  ext x
  rw [mem_run_iff hfree hs, mem_toFinset]
  constructor
  · intro h
    rcases h with ⟨t, ht, hx⟩ | ⟨h, _⟩
    · obtain ⟨y, hy, hty⟩ := hread t ht
      rw [hx, Option.some.injEq, SetEdit.insert.injEq] at hty
      rwa [hty]
    · exact absurd h (Finset.notMem_empty x)
  · intro hx
    obtain ⟨t, ht⟩ := Option.isSome_iff_exists.1 (hxs x hx)
    exact .inl ⟨t, mem_filterMap.2 ⟨x, hx, ht⟩, readDdl_createText ht⟩

theorem schemaOf_eq (settings : SchemaSettings) (db : Database) (o : OntologyIR) :
    schemaOf settings db o = some (schemaObjects settings o db.dialect).toFinset := by
  rw [schemaOf, compileSchema_eq]
  exact run_createTexts db fun x hx => isSome_text_of_mem_objects hx

/-- The statements of `up` are enough to reach the new schema. -/
structure UpSuffices (settings : SchemaSettings) (d : CypherDialect) (old new : OntologyIR) :
    Prop where
  /-- Nothing has to go. -/
  kept : ∀ x ∈ schemaObjects settings old d, x ∈ schemaObjects settings new d
  /-- An announced index is one of the new schema. -/
  wanted : ∀ a ∈ announced old new, .range a.1 [a.2] ∈ schemaObjects settings new d
  /-- What is new is announced, or declared by a type whose constraints go out. -/
  covered : ∀ x ∈ schemaObjects settings new d, x ∈ schemaObjects settings old d ∨
    (∃ a ∈ announced old new, x = .range a.1 [a.2]) ∨
      ∃ n, Redeclared old new n ∧ x ∈ nodeObjects d n
  /-- Memgraph reads no announcement. -/
  native : d = .memgraph → announced old new = []

/-- The statements of `down` take back what is new. -/
structure DownUndoes (settings : SchemaSettings) (db : Database) (old new : OntologyIR) :
    Prop where
  /-- The database reads the guessed names. -/
  bare : ∀ name ∈ guessedNames settings old new, db.symbolic name = true
  /-- What goes by a guessed name are the indexes that came. -/
  exact : ∀ x ∈ schemaObjects settings new db.dialect, x ∈ schemaObjects settings old db.dialect ↔
    ∀ name ∈ guessedNames settings old new, db.isIndexNamed name x = false

section

variable {settings : SchemaSettings} {db : Database} {old new : OntologyIR}
  {showFloat : F64 → String}

theorem mem_nodeTypes_of_redeclared (ho : old.Indexed) {n : NodeTypeDef}
    (h : Redeclared old new n) : n ∈ new.nodeTypes := by
  rcases h with h | ⟨p, hp, rfl, _⟩
  · exact ((mem_unmatched _).1 h).1
  · exact ((mem_keptNodes ho).1 hp).1

theorem mem_objects_of_node {o : OntologyIR} {d : CypherDialect} {n : NodeTypeDef}
    (hn : n ∈ o.nodeTypes) {x : SchemaObject} (hx : x ∈ nodeObjects d n) :
    x ∈ schemaObjects settings o d := by
  rw [schemaObjects, append_assoc]
  exact mem_append_left _ (mem_flatMap.2 ⟨n, hn, hx⟩)

section

variable (ho : old.Indexed) (hn : new.Indexed)
include ho hn

/-- What a database reads a statement of the way up as. -/
theorem readDdl_of_mem_up {t : String}
    (ht : t ∈ (compileMigration settings showFloat (computeDiff old new) old new db.dialect).up) :
    (∃ n, Redeclared old new n ∧ ∃ x ∈ nodeObjects db.dialect n, readDdl db t = some (.insert x)) ∨
      ∃ a ∈ announced old new, readDdl db t =
        if db.dialect = .neo4j then some (.insert (.range a.1 [a.2])) else none := by
  rcases (mem_up_iff ho hn).1 ht with ⟨n, hr, hmem⟩ | ⟨a, ha, rfl⟩
  · obtain ⟨x, hx, htext⟩ := mem_nodeConstraints.1 hmem
    exact .inl ⟨n, hr, x, hx, readDdl_createText htext⟩
  · exact .inr ⟨a, ha, readDdl_rangeText db a.1 a.2⟩

/-- A migration that was broken off can be run again from its start. -/
theorem run_up_again {us : List String} {s s' : Finset SchemaObject} :
    let plan := compileMigration settings showFloat (computeDiff old new) old new db.dialect
    us ⊆ plan.up → run (readDdl db) us s = some s' →
      run (readDdl db) plan.up s' = run (readDdl db) plan.up s := by
  intro plan hsub
  refine run_again hsub fun t ht p hp => ?_
  rcases readDdl_of_mem_up ho hn ht with ⟨_, _, _, _, hread⟩ | ⟨_, _, hread⟩ <;>
    grind

omit ho hn in
theorem isSome_text_of_mem_nodeObjects {d : CypherDialect} {n : NodeTypeDef}
    {x : SchemaObject} (hx : x ∈ nodeObjects d n) : (createText d x).isSome := by
  obtain ⟨c, _, hc⟩ := mem_flatMap.1 hx
  exact isSome_text_of_mem hc

/-- A plan runs on the way up unless Memgraph is to read an announcement. -/
theorem run_up_isSome_iff (s : Finset SchemaObject) :
    (run (readDdl db) (compileMigration settings showFloat (computeDiff old new) old new
        db.dialect).up s).isSome ↔ (db.dialect = .memgraph → announced old new = []) := by
  rw [run_isSome_iff]
  constructor
  · intro h hd
    apply eq_nil_iff_forall_not_mem.2
    intro a ha
    have hread := h _ ((mem_up_iff ho hn).2 (.inr ⟨a, ha, rfl⟩))
    rw [readDdl_rangeText, if_neg (by rw [hd]; decide)] at hread
    cases hread
  · intro h t ht
    rcases readDdl_of_mem_up ho hn ht with ⟨n, _, x, _, hread⟩ | ⟨a, ha, hread⟩
    · rw [hread]
      rfl
    · cases hd : db.dialect with
      | neo4j =>
        rw [hread, if_pos hd]
        rfl
      | memgraph =>
        rw [h hd] at ha
        cases ha

/-- Every object the plan declares on the way up, and nothing else, is added. -/
theorem mem_run_up {s s' : Finset SchemaObject}
    (h : run (readDdl db) (compileMigration settings showFloat (computeDiff old new) old new
      db.dialect).up s = some s') (x : SchemaObject) :
    x ∈ s' ↔ (∃ n, Redeclared old new n ∧ x ∈ nodeObjects db.dialect n) ∨
      (∃ a ∈ announced old new, x = .range a.1 [a.2]) ∨ x ∈ s := by
  have hinsert {t : String} {e : SetEdit SchemaObject}
      (ht : t ∈ (compileMigration settings showFloat
      (computeDiff old new) old new db.dialect).up) (he : readDdl db t = some e) :
      ∃ y, e = .insert y ∧ ((∃ n, Redeclared old new n ∧ y ∈ nodeObjects db.dialect n) ∨
        ∃ a ∈ announced old new, y = .range a.1 [a.2]) := by
    rcases readDdl_of_mem_up ho hn ht with ⟨n, hr, y, hy, hread⟩ | ⟨a, ha, hread⟩
    · rw [hread] at he
      exact ⟨y, (Option.some.inj he).symm, .inl ⟨n, hr, hy⟩⟩
    · rw [hread] at he
      split at he
      · exact ⟨_, (Option.some.inj he).symm, .inr ⟨a, ha, rfl⟩⟩
      · cases he
  have hfree : OrderFree (readDdl db) (compileMigration settings showFloat (computeDiff old new)
      old new db.dialect).up := by
    intro t _ u hu a p _ hp
    obtain ⟨y, hy, _⟩ := hinsert hu hp
    cases hy
  have hd := (run_up_isSome_iff ho hn s).1 (by rw [h]; rfl)
  rw [mem_run_iff hfree h, ← or_assoc]
  apply or_congr
  · constructor
    · intro hx
      obtain ⟨t, ht, hread⟩ := hx
      obtain ⟨y, hy, hfrom⟩ := hinsert ht hread
      cases hy
      exact hfrom
    · intro hx
      rcases hx with ⟨n, hr, hx⟩ | ⟨a, ha, rfl⟩
      · obtain ⟨t, ht⟩ := Option.isSome_iff_exists.1 (isSome_text_of_mem_nodeObjects hx)
        exact ⟨t, (mem_up_iff ho hn).2 (.inl ⟨n, hr, mem_nodeConstraints.2 ⟨x, hx, ht⟩⟩),
          readDdl_createText ht⟩
      · refine ⟨_, (mem_up_iff ho hn).2 (.inr ⟨a, ha, rfl⟩), ?_⟩
        rw [readDdl_rangeText]
        cases hdialect : db.dialect with
        | neo4j => rfl
        | memgraph =>
          rw [hd hdialect] at ha
          cases ha
  · constructor
    · exact fun hx => hx.1
    · intro hx
      refine ⟨hx, ?_⟩
      intro t ht p hp
      obtain ⟨y, hy, _⟩ := hinsert ht hp
      cases hy

/-- The way up leads to the new schema exactly when its statements are enough. -/
theorem reaches_iff :
    (schemaOf settings db old).bind (run (readDdl db) (compileMigration settings showFloat
        (computeDiff old new) old new db.dialect).up) = schemaOf settings db new ↔
      UpSuffices settings db.dialect old new := by
  rw [schemaOf_eq, schemaOf_eq, Option.bind_some]
  constructor
  · intro h
    have hmem := mem_run_up ho hn h
    simp only [mem_toFinset] at hmem
    refine ⟨?_, ?_, ?_, (run_up_isSome_iff ho hn _).1 (by rw [h]; rfl)⟩
    · exact fun x hx => (hmem x).2 (.inr (.inr hx))
    · exact fun a ha => (hmem _).2 (.inr (.inl ⟨a, ha, rfl⟩))
    · intro x hx
      rcases (hmem x).1 hx with hx | hx | hx
      · exact .inr (.inr hx)
      · exact .inr (.inl hx)
      · exact .inl hx
  · intro h
    have hruns := (@run_up_isSome_iff settings db old new showFloat ho hn
      (schemaObjects settings old db.dialect).toFinset).2 h.native
    obtain ⟨s', hs'⟩ := Option.isSome_iff_exists.1 hruns
    rw [hs', Option.some.injEq]
    ext x
    rw [mem_run_up ho hn hs', mem_toFinset, mem_toFinset]
    constructor
    · intro hx
      rcases hx with ⟨n, hr, hx⟩ | ⟨a, ha, rfl⟩ | hx
      · exact mem_objects_of_node (mem_nodeTypes_of_redeclared ho hr) hx
      · exact h.wanted a ha
      · exact h.kept x hx
    · intro hx
      rcases h.covered x hx with hx | hx | hx
      · exact .inr (.inr hx)
      · exact .inr (.inl hx)
      · exact .inl hx

end

/-- What a database reads a statement of the way down as. -/
theorem readDdl_of_mem_down {t : String}
    (ht : t ∈ (compileMigration settings showFloat (computeDiff old new) old new db.dialect).down) :
    (∃ n ∈ removedNodes old new, ∃ x ∈ nodeObjects db.dialect n, readDdl db t = some (.insert x)) ∨
      ∃ name ∈ guessedNames settings old new, readDdl db t =
        if db.dialect = .neo4j ∧ db.symbolic name = true then
          some (.remove (db.isIndexNamed name))
        else none := by
  rcases mem_down_iff.1 ht with ⟨n, hr, hmem⟩ | ⟨name, hname, rfl⟩
  · obtain ⟨x, hx, htext⟩ := mem_nodeConstraints.1 hmem
    exact .inl ⟨n, hr, x, hx, readDdl_createText htext⟩
  · exact .inr ⟨name, hname, readDdl_dropIndexText db name⟩

/-- A plan runs on the way down when the database reads the guessed names. -/
theorem run_down_isSome_iff (s : Finset SchemaObject) :
    (run (readDdl db) (compileMigration settings showFloat (computeDiff old new) old new
        db.dialect).down s).isSome ↔
      ∀ name ∈ guessedNames settings old new, db.dialect = .neo4j ∧ db.symbolic name = true := by
  rw [run_isSome_iff]
  constructor
  · intro h name hname
    have hread := h _ (mem_down_iff.2 (.inr ⟨name, hname, rfl⟩))
    rw [readDdl_dropIndexText] at hread
    by_contra hnot
    rw [if_neg hnot] at hread
    cases hread
  · intro h t ht
    rcases readDdl_of_mem_down ht with ⟨n, _, x, _, hread⟩ | ⟨name, hname, hread⟩
    · rw [hread]
      rfl
    · rw [hread, if_pos (h name hname)]
      rfl

/-- What the way down leaves: the constraints of removed node types, and of the
rest what no guessed name hits. -/
theorem mem_run_down {s s' : Finset SchemaObject}
    (h : run (readDdl db) (compileMigration settings showFloat (computeDiff old new) old new
      db.dialect).down s = some s') (x : SchemaObject) :
    x ∈ s' ↔ (∃ n ∈ removedNodes old new, x ∈ nodeObjects db.dialect n) ∨
      x ∈ s ∧ ∀ name ∈ guessedNames settings old new, db.isIndexNamed name x = false := by
  have hread := (run_down_isSome_iff s).1 (by rw [h]; rfl)
  have hdrop {name : String} (hname : name ∈ guessedNames settings old new) :
      readDdl db (dropIndexText name) = some (.remove (db.isIndexNamed name)) := by
    rw [readDdl_dropIndexText, if_pos (hread name hname)]
  have hedit {t : String} {e : SetEdit SchemaObject} (ht : t ∈ (compileMigration settings showFloat
      (computeDiff old new) old new db.dialect).down) (he : readDdl db t = some e) :
      (∃ n ∈ removedNodes old new, ∃ y ∈ nodeObjects db.dialect n, e = .insert y) ∨
        ∃ name ∈ guessedNames settings old new, e = .remove (db.isIndexNamed name) := by
    rcases mem_down_iff.1 ht with ⟨n, hr, hmem⟩ | ⟨name, hname, rfl⟩
    · obtain ⟨y, hy, htext⟩ := mem_nodeConstraints.1 hmem
      rw [readDdl_createText htext] at he
      exact .inl ⟨n, hr, y, hy, (Option.some.inj he).symm⟩
    · rw [hdrop hname] at he
      exact .inr ⟨name, hname, (Option.some.inj he).symm⟩
  have hspared {y : SchemaObject} {n : NodeTypeDef} (hy : y ∈ nodeObjects db.dialect n)
      (name : String) : db.isIndexNamed name y = false := by
    rw [Database.isIndexNamed, isIndex_of_mem_nodeObjects hy, Bool.false_and]
  have hfree : OrderFree (readDdl db) (compileMigration settings showFloat (computeDiff old new)
      old new db.dialect).down := by
    intro t ht u hu a p ha hp
    rcases hedit ht ha with ⟨n, _, y, hy, heq⟩ | ⟨name, _, heq⟩
    · cases heq
      rcases hedit hu hp with ⟨_, _, _, _, heq⟩ | ⟨name, _, heq⟩
      · cases heq
      · cases heq
        exact hspared hy name
    · cases heq
  rw [mem_run_iff hfree h]
  apply or_congr
  · constructor
    · intro hx
      obtain ⟨t, ht, hins⟩ := hx
      rcases hedit ht hins with ⟨n, hr, y, hy, heq⟩ | ⟨name, _, heq⟩
      · cases heq
        exact ⟨n, hr, hy⟩
      · cases heq
    · intro hx
      obtain ⟨n, hr, hx⟩ := hx
      obtain ⟨t, ht⟩ := Option.isSome_iff_exists.1 (isSome_text_of_mem_nodeObjects hx)
      exact ⟨t, mem_down_iff.2 (.inl ⟨n, hr, mem_nodeConstraints.2 ⟨x, hx, ht⟩⟩),
        readDdl_createText ht⟩
  · apply and_congr_right
    intro _
    constructor
    · intro hx name hname
      exact hx _ (mem_down_iff.2 (.inr ⟨name, hname, rfl⟩)) _ (hdrop hname)
    · intro hx t ht p hp
      rcases hedit ht hp with ⟨_, _, _, _, heq⟩ | ⟨name, hname, heq⟩
      · cases heq
      · cases heq
        exact hx name hname

theorem guessedNames_eq_nil (h : announced old new = []) : guessedNames settings old new = [] := by
  unfold announced at h
  rw [append_eq_nil_iff, flatMap_eq_nil_iff] at h
  apply flatMap_eq_nil_iff.2
  intro n hmem
  have hnil := h.1 n hmem
  rw [map_eq_nil_iff] at hnil ⊢
  exact hnil

/-- From the new schema the way down leads back to the old one exactly when its
statements take back what is new. -/
theorem restores_iff (hup : UpSuffices settings db.dialect old new) :
    (schemaOf settings db new).bind (run (readDdl db) (compileMigration settings showFloat
        (computeDiff old new) old new db.dialect).down) = schemaOf settings db old ↔
      DownUndoes settings db old new := by
  rw [schemaOf_eq, schemaOf_eq, Option.bind_some]
  constructor
  · intro h
    refine ⟨?_, ?_⟩
    · intro name hname
      exact ((run_down_isSome_iff _).1 (by rw [h]; rfl) name hname).2
    · intro x hx
      have hmem := mem_run_down h x
      rw [mem_toFinset, mem_toFinset] at hmem
      constructor
      · intro hold name _
        rcases hmem.1 hold with ⟨n, _, hn⟩ | ⟨_, hspared⟩
        · rw [Database.isIndexNamed, isIndex_of_mem_nodeObjects hn, Bool.false_and]
        · exact hspared name ‹_›
      · exact fun hspared => hmem.2 (.inr ⟨hx, hspared⟩)
  · intro h
    have hreads : ∀ name ∈ guessedNames settings old new,
        db.dialect = .neo4j ∧ db.symbolic name = true := by
      intro name hname
      refine ⟨?_, h.bare name hname⟩
      cases hd : db.dialect with
      | neo4j => rfl
      | memgraph =>
        rw [guessedNames_eq_nil (hup.native hd)] at hname
        cases hname
    have hruns := (@run_down_isSome_iff settings db old new showFloat
      (schemaObjects settings new db.dialect).toFinset).2 hreads
    obtain ⟨s', hs'⟩ := Option.isSome_iff_exists.1 hruns
    rw [hs', Option.some.injEq]
    ext x
    rw [mem_run_down hs', mem_toFinset, mem_toFinset]
    constructor
    · intro hx
      rcases hx with ⟨n, hr, hx⟩ | ⟨hx, hspared⟩
      · exact mem_objects_of_node ((mem_unmatched _).1 hr).1 hx
      · exact (h.exact x hx).2 hspared
    · intro hx
      have hnew := hup.kept x hx
      exact .inr ⟨hnew, (h.exact x hnew).1 hx⟩

/-- A plan leads from the old schema to the new one exactly when the statements of
`up` are enough, and there and back exactly when those of `down` take back what
is new besides. -/
theorem migratesSchema_iff (settings : SchemaSettings) (showFloat : F64 → String) (db : Database)
    {old new : OntologyIR} (ho : Valid old) (hn : Valid new) :
    let plan := compileMigration settings showFloat (computeDiff old new) old new db.dialect
    let migrated := (schemaOf settings db old).bind (run (readDdl db) plan.up)
    (migrated = schemaOf settings db new ↔ UpSuffices settings db.dialect old new) ∧
      (migrated = schemaOf settings db new ∧
          migrated.bind (run (readDdl db) plan.down) = schemaOf settings db old ↔
        UpSuffices settings db.dialect old new ∧ DownUndoes settings db old new) := by
  intro plan migrated
  have hup : migrated = schemaOf settings db new ↔ UpSuffices settings db.dialect old new :=
    reaches_iff ho.indexed hn.indexed
  refine ⟨hup, ?_⟩
  constructor
  · intro h
    have hsuffices := hup.1 h.1
    have hdown := h.2
    rw [h.1] at hdown
    exact ⟨hsuffices, (restores_iff hsuffices).1 hdown⟩
  · intro h
    have hmigrated := hup.2 h.1
    refine ⟨hmigrated, ?_⟩
    rw [hmigrated]
    exact (restores_iff h.1).2 h.2

end

/-- A shop, with the node types `more`. -/
def shop (more : List NodeTypeDef) : OntologyIR where
  id := "o"
  name := "shop"
  nodeTypes := { id := ⟨"customer"⟩, label := customerLabel } :: more

/-- `Product` with a required `code`. -/
def productType (constraints : List ConstraintDef) : NodeTypeDef where
  id := ⟨"product"⟩
  label := productLabel
  properties :=
    [{ id := ⟨"code"⟩, name := ⟨"code", by decide⟩, propertyType := .string, nullable := false }]
  constraints := constraints

/-- `code` is unique. -/
def uniqueCode : ConstraintDef := ⟨⟨"c"⟩, .unique [⟨"code"⟩]⟩

def defaultSettings : SchemaSettings where
  autoIndex := ⟨20, ["id", "code", "name", "email"]⟩
  toLowercase s := String.ofList (s.toList.map Char.toLower)

/-- A database that names indexes as the source guesses. -/
def guessedDatabase : Database where
  dialect := .neo4j
  symbolic s := s.toList.all fun c => isAlphanumeric c || c == '_'
  generatedName
    | .range label [p] => guessedIndexName defaultSettings label p
    | _ => "object"

theorem shop_valid : Valid (shop []) ∧ Valid (shop [productType []]) ∧
    Valid (shop [productType [uniqueCode]]) :=
  ⟨⟨(OntologyIR.rebuild_ok_iff _).1 rfl, rfl⟩,
    ⟨(OntologyIR.rebuild_ok_iff _).1 rfl, rfl⟩,
    (OntologyIR.rebuild_ok_iff _).1 rfl, rfl⟩

theorem schemaObjects_shop (d : CypherDialect) :
    schemaObjects defaultSettings (shop []) d = [] := by
  have hcandidates : autoIndexCandidates defaultSettings (shop []) = [] := rfl
  rw [schemaObjects, autoIndexObjects, hcandidates, mergeSort_nil]
  rfl

theorem objects_required (d : CypherDialect) :
    schemaObjects defaultSettings (shop [productType []]) d =
      [.range productLabel [⟨"code", by decide⟩]] := by
  have hcandidates : ∃ n, autoIndexCandidates defaultSettings (shop [productType []]) =
      [(.range productLabel [⟨"code", by decide⟩], n)] := ⟨_, rfl⟩
  obtain ⟨n, hn⟩ := hcandidates
  rw [schemaObjects, autoIndexObjects, hn, mergeSort_singleton]
  rfl

theorem objects_covered :
    schemaObjects defaultSettings (shop [productType [uniqueCode]]) .neo4j =
      [.unique productLabel [⟨"code", by decide⟩]] := by
  have hcandidates :
      autoIndexCandidates defaultSettings (shop [productType [uniqueCode]]) = [] := rfl
  rw [schemaObjects, autoIndexObjects, hcandidates, mergeSort_nil]
  rfl

theorem shop_again :
    let plan := compileMigration defaultSettings (fun _ => "0.0")
      (computeDiff (shop []) (shop [productType []])) (shop []) (shop [productType []]) .neo4j
    run (readDdl guessedDatabase) plan.up {.range productLabel [⟨"code", by decide⟩]} =
      run (readDdl guessedDatabase) plan.up ∅ := by
  have hindexed := And.intro shop_valid.1.indexed shop_valid.2.1.indexed
  refine run_up_again hindexed.1 hindexed.2 (cons_subset.2 ⟨
    (mem_up_iff hindexed.1 hindexed.2).2 (.inr ⟨_, mem_singleton_self _, rfl⟩), nil_subset _⟩) ?_
  rw [run, readDdl_rangeText]
  rfl

/-- `Product` comes with its required `code`, and goes again. -/
theorem migratesSchema_required :
    let plan := compileMigration defaultSettings (fun _ => "0.0")
      (computeDiff (shop []) (shop [productType []])) (shop []) (shop [productType []]) .neo4j
    let migrated := (schemaOf defaultSettings guessedDatabase (shop [])).bind
      (run (readDdl guessedDatabase) plan.up)
    migrated = schemaOf defaultSettings guessedDatabase (shop [productType []]) ∧
      migrated.bind (run (readDdl guessedDatabase) plan.down) =
        schemaOf defaultSettings guessedDatabase (shop []) := by
  refine (migratesSchema_iff defaultSettings _ guessedDatabase shop_valid.1 shop_valid.2.1).2.2 ?_
  refine ⟨⟨?_, ?_, ?_, ?_⟩, ⟨?_, ?_⟩⟩
  · intro x hx
    rw [schemaObjects_shop] at hx
    cases hx
  · intro a ha
    have heq : a = (productLabel, ⟨"code", by decide⟩) := mem_singleton.1 ha
    rw [heq, objects_required]
    exact mem_singleton_self _
  · intro x hx
    rw [objects_required] at hx
    exact .inr (.inl ⟨_, mem_singleton_self _, mem_singleton.1 hx⟩)
  · intro hd
    cases hd
  · intro name hname
    rw [mem_singleton.1 hname]
    decide
  · intro x hx
    rw [objects_required] at hx
    rw [schemaObjects_shop, mem_singleton.1 hx]
    simp only [not_mem_nil, false_iff, not_forall]
    exact ⟨_, mem_singleton_self _, by decide⟩

/-- With `code` unique the new schema has no index on it, but the plan creates
one. -/
theorem covered_index_created :
    let plan := compileMigration defaultSettings (fun _ => "0.0")
      (computeDiff (shop []) (shop [productType [uniqueCode]])) (shop [])
      (shop [productType [uniqueCode]]) .neo4j
    let migrated := (schemaOf defaultSettings guessedDatabase (shop [])).bind
      (run (readDdl guessedDatabase) plan.up)
    Valid (shop []) ∧ Valid (shop [productType [uniqueCode]]) ∧
      ¬(migrated = schemaOf defaultSettings guessedDatabase (shop [productType [uniqueCode]]) ∧
        migrated.bind (run (readDdl guessedDatabase) plan.down) =
          schemaOf defaultSettings guessedDatabase (shop [])) := by
  intro plan migrated
  refine ⟨shop_valid.1, shop_valid.2.2, ?_⟩
  intro h
  have hsuffices := (reaches_iff shop_valid.1.indexed shop_valid.2.2.indexed).1 h.1
  have hwanted := hsuffices.wanted (productLabel, ⟨"code", by decide⟩) (mem_singleton_self _)
  have hobjects := mem_singleton.1 (objects_covered ▸ hwanted)
  cases hobjects

end Ontosyx.Compile
