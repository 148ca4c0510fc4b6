import Ontosyx.Compile.DataMigrationEdits
import Ontosyx.Lib.Relabel
import Ontosyx.Ontology.Validity

/-!
# What a data migration does

The statements of a migration act on every stored node and relationship by
itself.  On a node they are a sequence of blocks, one for each kept node type,
that rename its label and edit the properties of what carries the new one.

## Main results

* `runStatements_some_iff` — a migration acts node by node.
* `migrates_iff` — when all the data of every conforming graph is migrated.
-/

namespace Ontosyx.Compile

open List Ontosyx.Core Lib Lib.Keyed Ontology

section

variable (engine : Engine)

/-! ## Running the statements -/

def runNode (ss : List DataStatement) (n : StoredNode) : StoredNode :=
  ss.foldl (fun n s => s.onNode engine n) n

def runRelationship (ss : List DataStatement) (r : StoredRelationship) : StoredRelationship :=
  ss.foldl (fun r s => s.onRelationship engine r) r

/-- A migration goes through when the database accepts every statement, and acts
on each node and each relationship by itself. -/
theorem runStatements_some_iff {ss : List DataStatement} :
    ∀ {g g' : StoredGraph}, runStatements engine ss g = some g' ↔
      (∀ s ∈ ss, s.readable engine = true) ∧ g' = ⟨g.nodes.map (runNode engine ss),
          g.relationships.map (runRelationship engine ss)⟩ := by
  induction ss with
  | nil =>
    intro g g'
    rw [runStatements, Option.some_inj]
    have hnodes : g.nodes.map (runNode engine []) = g.nodes := map_id' _
    have hrels : g.relationships.map (runRelationship engine []) = g.relationships :=
      map_id' _
    rw [hnodes, hrels]
    exact ⟨fun h => ⟨fun _ hs => absurd hs not_mem_nil, h.symm⟩, fun h => h.2.symm⟩
  | cons s ss ih =>
    intro g g'
    rw [runStatements, DataStatement.run]
    by_cases hs : s.readable engine = true
    · rw [if_pos hs, Option.bind_some, ih, forall_mem_cons]
      simp only [hs, true_and, map_map]
      rfl
    · rw [if_neg hs]
      apply iff_of_false (by simp)
      exact fun h => hs (h.1 s mem_cons_self)

theorem runNode_append (ss ts : List DataStatement) (n : StoredNode) :
    runNode engine (ss ++ ts) n = runNode engine ts (runNode engine ss n) := foldl_append

theorem runRelationship_append (ss ts : List DataStatement) (r : StoredRelationship) :
    runRelationship engine (ss ++ ts) r =
      runRelationship engine ts (runRelationship engine ss r) := foldl_append

theorem runNode_edits (es : List Edit) (label l : GraphLabel) (props : Props) :
    runNode engine (es.map (.onNodes label)) ⟨{l}, props⟩ =
      ⟨{l}, if l = label then applyEdits engine es props else props⟩ := by
  induction es generalizing props with
  | nil =>
    split <;> rfl
  | cons e es ih =>
    show runNode engine (es.map (.onNodes label))
      (DataStatement.onNode engine ⟨{l}, props⟩ (.onNodes label e)) = _
    by_cases hl : l = label
    · have hmem : label ∈ ({l} : Finset GraphLabel) := by
        rw [hl]
        exact Finset.mem_singleton_self _
      rw [DataStatement.onNode, if_pos hmem, ih, if_pos hl, if_pos hl]
      rfl
    · have hmem : label ∉ ({l} : Finset GraphLabel) := by
        rw [Finset.mem_singleton]
        exact Ne.symm hl
      rw [DataStatement.onNode, if_neg hmem, ih, if_neg hl, if_neg hl]

/-- A kept node type as a block: its renaming, and its edits on what carries the
new label then. -/
def nodeBlock (p : NodeTypeDef × NodeTypeDef) : Relabel.Block GraphLabel Props :=
  ⟨p.1.label, p.2.label, applyEdits engine (propertyEdits engine p.1.properties p.2.properties)⟩

def singleNode (x : GraphLabel × Props) : StoredNode := ⟨{x.1}, x.2⟩

theorem runNode_nodeStatements (p : NodeTypeDef × NodeTypeDef) (x : GraphLabel × Props) :
    runNode engine (nodeStatements engine p) (singleNode x) =
      singleNode ((nodeBlock engine p).step x) := by
  rcases x with ⟨l, props⟩
  unfold nodeStatements
  rw [runNode_append]
  by_cases hlabel : p.1.label = p.2.label
  · rw [if_neg (not_not.2 hlabel)]
    show runNode engine _ ⟨{l}, props⟩ = _
    rw [runNode_edits]
    by_cases hl : l = p.2.label
    · rw [if_pos hl, Relabel.Block.step, if_pos (.inr hl)]
      subst hl
      rfl
    · have hl' : l ≠ p.1.label := fun heq => hl (heq.trans hlabel)
      rw [if_neg hl, Relabel.Block.step_of_ne hl' hl]
      rfl
  · rw [if_pos hlabel]
    show runNode engine _ (DataStatement.onNode engine ⟨{l}, props⟩
      (.renameLabel p.1.label p.2.label)) = _
    rw [DataStatement.onNode]
    by_cases hl : l = p.1.label
    · have hmem : p.1.label ∈ ({l} : Finset GraphLabel) := by
        rw [hl]
        exact Finset.mem_singleton_self _
      have hlabels : (insert p.2.label ({l} : Finset GraphLabel)).erase p.1.label =
          {p.2.label} := by
        rw [Finset.erase_insert_of_ne (Ne.symm hlabel), hl, Finset.erase_singleton]
        rfl
      rw [if_pos hmem, hlabels, runNode_edits, if_pos rfl, Relabel.Block.step, if_pos (.inl hl)]
      rfl
    · have hmem : p.1.label ∉ ({l} : Finset GraphLabel) := by
        rw [Finset.mem_singleton]
        exact Ne.symm hl
      rw [if_neg hmem, runNode_edits]
      by_cases hl' : l = p.2.label
      · rw [if_pos hl', Relabel.Block.step, if_pos (.inr hl')]
        subst hl'
        rfl
      · rw [if_neg hl', Relabel.Block.step_of_ne hl hl']
        rfl

theorem runNode_flatMap (ps : List (NodeTypeDef × NodeTypeDef)) (x : GraphLabel × Props) :
    runNode engine (ps.flatMap (nodeStatements engine)) (singleNode x) =
      singleNode (Relabel.run (ps.map (nodeBlock engine)) x) := by
  induction ps generalizing x with
  | nil => rfl
  | cons p ps ih =>
    rw [flatMap_cons, runNode_append, runNode_nodeStatements, ih]
    rfl

/-- The statements of edge types leave the nodes alone. -/
theorem runNode_edgeStatements (ps : List (EdgeTypeDef × EdgeTypeDef)) (n : StoredNode) :
    runNode engine (ps.flatMap (edgeStatements engine)) n = n := by
  refine foldlRecOn (motive := (· = n)) _ _ rfl ?_
  rintro _ rfl s hs
  obtain ⟨p, -, hs⟩ := mem_flatMap.1 hs
  rcases mem_append.1 hs with hs | hs
  · split at hs
    · rw [mem_singleton.1 hs]
      rfl
    · cases hs
  · obtain ⟨e, -, rfl⟩ := mem_map.1 hs
    rfl

/-- The statements of node types leave the relationships alone. -/
theorem runRelationship_nodeStatements (ps : List (NodeTypeDef × NodeTypeDef))
    (r : StoredRelationship) :
    runRelationship engine (ps.flatMap (nodeStatements engine)) r = r := by
  refine foldlRecOn (motive := (· = r)) _ _ rfl ?_
  rintro _ rfl s hs
  obtain ⟨p, -, hs⟩ := mem_flatMap.1 hs
  rcases mem_append.1 hs with hs | hs
  · split at hs
    · rw [mem_singleton.1 hs]
      rfl
    · cases hs
  · obtain ⟨e, -, rfl⟩ := mem_map.1 hs
    rfl

def relationshipEdits (ps : List (EdgeTypeDef × EdgeTypeDef)) (type : GraphLabel) : List Edit :=
  ps.flatMap fun p =>
    if p.2.label = type then propertyEdits engine p.1.properties p.2.properties else []

theorem runRelationship_edits (es : List Edit) (type : GraphLabel) (r : StoredRelationship) :
    runRelationship engine (es.map (.onRelationships type)) r =
      ⟨r.type, if type = r.type then applyEdits engine es r.props else r.props⟩ := by
  induction es generalizing r with
  | nil =>
    split <;> rfl
  | cons e es ih =>
    show runRelationship engine (es.map (.onRelationships type))
      (DataStatement.onRelationship engine r (.onRelationships type e)) = _
    by_cases ht : type = r.type
    · rw [DataStatement.onRelationship, if_pos ht, ih, if_pos ht, if_pos ht]
      rfl
    · rw [DataStatement.onRelationship, if_neg ht, ih, if_neg ht, if_neg ht]

theorem runRelationship_edgeStatements (ps : List (EdgeTypeDef × EdgeTypeDef))
    (r : StoredRelationship) : runRelationship engine (ps.flatMap (edgeStatements engine)) r =
      ⟨r.type, applyEdits engine (relationshipEdits engine ps r.type) r.props⟩ := by
  induction ps generalizing r with
  | nil => rfl
  | cons p ps ih =>
    have hrename : runRelationship engine (if p.1.label ≠ p.2.label then
        [.renameType p.1.label p.2.label] else []) r = r := by
      split <;> rfl
    have hcons : relationshipEdits engine (p :: ps) r.type =
        (if p.2.label = r.type then propertyEdits engine p.1.properties p.2.properties
          else []) ++ relationshipEdits engine ps r.type := flatMap_cons
    rw [flatMap_cons, runRelationship_append, edgeStatements, runRelationship_append,
      hrename, runRelationship_edits, ih, hcons, applyEdits_append]
    by_cases ht : p.2.label = r.type
    · rw [if_pos ht, if_pos ht]
    · rw [if_neg ht, if_neg ht]
      rfl

/-- The database accepts the text of every default that is filled in. -/
def FillsReadable (old new : List PropertyDef) : Prop :=
  ∀ p ∈ unmatched (·.id) new (old.map (·.id)), p.nullable = false →
    ∀ default, p.defaultValue = some default →
      (engine.literal (displayValue engine.showFloat default)).isSome = true

theorem readable_propertyEdits_iff (old new : List PropertyDef) :
    (∀ e ∈ propertyEdits engine old new, e.readable engine = true) ↔
      FillsReadable engine old new := by
  have hadded (p : PropertyDef) : (∀ e ∈ addedEdits engine.showFloat p, e.readable engine = true) ↔
      (p.nullable = false → ∀ default, p.defaultValue = some default →
        (engine.literal (displayValue engine.showFloat default)).isSome = true) := by
    unfold addedEdits
    cases p.nullable with
    | true => simp
    | false =>
      cases p.defaultValue with
      | none => simp
      | some default => simp [Edit.readable]
  have hpair (p : PropertyDef × PropertyDef) :
      ∀ e ∈ pairEdits p, e.readable engine = true := by
    intro e he
    rw [pairEdits_eq] at he
    split at he
    · split at he
      · rw [mem_singleton.1 he]
        rfl
      · rw [mem_singleton.1 he]
        rfl
    · cases he
  unfold FillsReadable
  simp only [← hadded]
  constructor
  · intro h p hp e he
    apply h e
    exact mem_append_left _ (mem_append_left _ (mem_flatMap.2 ⟨p, hp, he⟩))
  · intro h e he
    rcases mem_append.1 he with he | he
    · rcases mem_append.1 he with he | he
      · obtain ⟨p, hp, he⟩ := mem_flatMap.1 he
        exact h p hp e he
      · obtain ⟨p, -, he⟩ := mem_flatMap.1 he
        rw [mem_singleton.1 he]
        rfl
    · obtain ⟨p, -, he⟩ := mem_flatMap.1 he
      exact hpair p e he

theorem readable_nodeStatements_iff (p : NodeTypeDef × NodeTypeDef) :
    (∀ s ∈ nodeStatements engine p, s.readable engine = true) ↔
      FillsReadable engine p.1.properties p.2.properties := by
  rw [← readable_propertyEdits_iff]
  constructor
  · intro h e he
    exact h _ (mem_append_right _ (mem_map_of_mem he))
  · intro h s hs
    rcases mem_append.1 hs with hs | hs
    · split at hs
      · rw [mem_singleton.1 hs]
        rfl
      · cases hs
    · obtain ⟨e, he, rfl⟩ := mem_map.1 hs
      exact h e he

theorem readable_edgeStatements_iff (p : EdgeTypeDef × EdgeTypeDef) :
    (∀ s ∈ edgeStatements engine p, s.readable engine = true) ↔
      FillsReadable engine p.1.properties p.2.properties := by
  rw [← readable_propertyEdits_iff]
  constructor
  · intro h e he
    exact h _ (mem_append_right _ (mem_map_of_mem he))
  · intro h s hs
    rcases mem_append.1 hs with hs | hs
    · split at hs
      · rw [mem_singleton.1 hs]
        rfl
      · cases hs
    · obtain ⟨e, he, rfl⟩ := mem_map.1 hs
      exact h e he

end

/-- An ontology that could be built and passes validation. -/
structure Valid (o : OntologyIR) : Prop where
  indexed : o.Indexed
  clean : o.validate = []

theorem Valid.nodup_names {o : OntologyIR} (h : Valid o) {t : NodeTypeDef}
    (ht : t ∈ o.nodeTypes) : (t.properties.map (·.name)).Nodup :=
  (nodup_of_validatePropertyDefs _
    (validate_of_validateNodes _ (o.validate_nil_iff.1 h.clean).nodes t ht).1).1

/-! ## The whole migration -/

/-- The kept node types, in the order of the new ontology. -/
abbrev keptNodes (old new : OntologyIR) : List (NodeTypeDef × NodeTypeDef) :=
  matchedPairs (·.id) old.nodeTypes new.nodeTypes

abbrev keptEdges (old new : OntologyIR) : List (EdgeTypeDef × EdgeTypeDef) :=
  matchedPairs (·.id) old.edgeTypes new.edgeTypes

/-- The statements of a migration carry every conforming graph over. -/
structure Migratable (engine : Engine) (old new : OntologyIR) : Prop where
  /-- The database accepts the text of every default that is filled in. -/
  readableNodes : ∀ p ∈ keptNodes old new, FillsReadable engine p.1.properties p.2.properties
  readableEdges : ∀ p ∈ keptEdges old new, FillsReadable engine p.1.properties p.2.properties
  /-- No type takes a label that a later type still has. -/
  ordered : (keptNodes old new).Pairwise fun p q => p.2.label ≠ q.1.label
  settled : ∀ p ∈ keptNodes old new, BackfillsSettled engine p.1.properties p.2.properties
  /-- A removed type whose label is taken has no instance that the edits of the
  type that takes it change. -/
  strangers : ∀ p ∈ keptNodes old new,
    ∀ u ∈ unmatched (·.id) old.nodeTypes (new.nodeTypes.map (·.id)), u.label = p.2.label →
      ∀ props, Conforms u.properties props →
        applyEdits engine (propertyEdits engine p.1.properties p.2.properties) props = props
  /-- The edits that go out under the label of an edge type are those of its own. -/
  relationships : ∀ f ∈ old.edgeTypes, ∀ props, Conforms f.properties props →
    applyEdits engine (relationshipEdits engine (keptEdges old new) f.label) props =
      migrateRelationship engine new f props

section

variable {engine : Engine} {old new : OntologyIR}

theorem nodup_keptNodes_new (hn : new.Indexed) : ((keptNodes old new).map (·.2.label)).Nodup := by
  have hsub := (map_snd_matchedPairs_sublist (fun t : NodeTypeDef => t.id) old.nodeTypes
    new.nodeTypes).map NodeTypeDef.label
  rw [map_map] at hsub
  exact hn.nodeLabels.sublist hsub

theorem mem_keptNodes (ho : old.Indexed) {p : NodeTypeDef × NodeTypeDef} :
    p ∈ keptNodes old new ↔ p.2 ∈ new.nodeTypes ∧ p.1 ∈ old.nodeTypes ∧ p.1.id = p.2.id := by
  rw [mem_matchedPairs, last_some_iff _ ho.nodeIds]

theorem nodup_keptNodes_old (ho : old.Indexed) (hn : new.Indexed) :
    ((keptNodes old new).map (·.1.label)).Nodup := by
  have hnd : (keptNodes old new).Nodup :=
    Nodup.of_map _ (nodup_keptNodes_new hn)
  apply hnd.map_on
  intro p hp q hq hlabel
  obtain ⟨hp2, hp1, hpid⟩ := (mem_keptNodes ho).1 hp
  obtain ⟨hq2, hq1, hqid⟩ := (mem_keptNodes ho).1 hq
  have h1 : p.1 = q.1 := eq_of_key_eq (·.label) ho.nodeLabels hp1 hq1 hlabel
  have h2 : p.2 = q.2 := by
    apply eq_of_key_eq (·.id) hn.nodeIds hp2 hq2
    rw [← hpid, ← hqid, h1]
  exact Prod.ext h1 h2

theorem find_new_some_iff (ho : old.Indexed) (hn : new.Indexed) {o t : NodeTypeDef}
    (hmem : o ∈ old.nodeTypes) :
    (new.nodeTypes.find? fun t => t.id = o.id) = some t ↔ (o, t) ∈ keptNodes old new := by
  rw [← first, first_some_iff _ hn.nodeIds, mem_keptNodes ho]
  exact ⟨fun h => ⟨h.1, hmem, h.2.symm⟩, fun h => ⟨h.1, h.2.2.symm⟩⟩

theorem find_new_none_iff {o : NodeTypeDef} (hmem : o ∈ old.nodeTypes) :
    (new.nodeTypes.find? fun t => t.id = o.id) = none ↔
      o ∈ unmatched (·.id) old.nodeTypes (new.nodeTypes.map (·.id)) := by
  rw [← first, first_none_iff, mem_unmatched]
  exact ⟨fun h => ⟨hmem, h⟩, fun h => h.2⟩

theorem singleNode_inj {x y : GraphLabel × Props} (h : singleNode x = singleNode y) : x = y := by
  injection h with hlabel hprops
  exact Prod.ext (Finset.singleton_injective hlabel) hprops

abbrev nodeBlocks (engine : Engine) (old new : OntologyIR) :
    List (Relabel.Block GraphLabel Props) := (keptNodes old new).map (nodeBlock engine)

theorem nodup_nodeBlocks (ho : old.Indexed) (hn : new.Indexed) :
    ((nodeBlocks engine old new).map Relabel.Block.old).Nodup ∧
      ((nodeBlocks engine old new).map Relabel.Block.new).Nodup := by
  rw [map_map, map_map]
  exact ⟨nodup_keptNodes_old ho hn, nodup_keptNodes_new hn⟩

theorem ordered_nodeBlocks_iff :
    Relabel.Ordered (nodeBlocks engine old new) ↔
      (keptNodes old new).Pairwise fun p q => p.2.label ≠ q.1.label := pairwise_map

/-- An instance of a kept type comes out as its block says. -/
theorem migrate_kept {n : NodeInstance old} {t : NodeTypeDef} (ho : old.Indexed)
    (hn : new.Indexed) (ht : (n.type, t) ∈ keptNodes old new) : n.migrate engine new =
      singleNode (t.label, migrateProps engine n.type.properties t.properties n.props) := by
  unfold NodeInstance.migrate
  rw [(find_new_some_iff ho hn n.mem).2 ht]
  rfl

theorem migrate_removed {n : NodeInstance old}
    (hu : n.type ∈ unmatched (·.id) old.nodeTypes (new.nodeTypes.map (·.id))) :
    n.migrate engine new = singleNode (n.type.label, n.props) := by
  unfold NodeInstance.migrate
  rw [(find_new_none_iff n.mem).2 hu]
  rfl

/-- The label of a removed type is not the old label of a kept one. -/
theorem label_ne_of_removed (ho : old.Indexed) {u : NodeTypeDef}
    (hu : u ∈ unmatched (·.id) old.nodeTypes (new.nodeTypes.map (·.id))) :
    ∀ b ∈ nodeBlocks engine old new, u.label ≠ b.old := by
  intro b hb heq
  obtain ⟨p, hp, rfl⟩ := mem_map.1 hb
  obtain ⟨hp2, hp1, hpid⟩ := (mem_keptNodes ho).1 hp
  rw [mem_unmatched] at hu
  have hup : u = p.1 := eq_of_key_eq (·.label) ho.nodeLabels hu.1 hp1 heq
  apply hu.2
  rw [hup, hpid]
  exact mem_map_of_mem hp2

/-- The nodes of every conforming graph are carried over. -/
theorem migrate_nodes_iff (ho : Valid old) (hn : Valid new) :
    (∀ n : NodeInstance old, singleNode (Relabel.run (nodeBlocks engine old new)
        (n.type.label, n.props)) = n.migrate engine new) ↔
      ((keptNodes old new).Pairwise fun p q => p.2.label ≠ q.1.label) ∧
      (∀ p ∈ keptNodes old new, BackfillsSettled engine p.1.properties p.2.properties) ∧
      ∀ p ∈ keptNodes old new,
        ∀ u ∈ unmatched (·.id) old.nodeTypes (new.nodeTypes.map (·.id)), u.label = p.2.label →
          ∀ props, Conforms u.properties props →
            applyEdits engine (propertyEdits engine p.1.properties p.2.properties) props =
              props := by
  obtain ⟨hold, hnew⟩ := @nodup_nodeBlocks engine old new ho.indexed hn.indexed
  have hnames (p : NodeTypeDef × NodeTypeDef) (hp : p ∈ keptNodes old new) :
      (p.1.properties.map (·.name)).Nodup ∧ (p.2.properties.map (·.name)).Nodup := by
    obtain ⟨hp2, hp1, -⟩ := (mem_keptNodes ho.indexed).1 hp
    exact ⟨ho.nodup_names hp1, hn.nodup_names hp2⟩
  constructor
  · intro h
    have hord : Relabel.Ordered (nodeBlocks engine old new) := by
      apply (Relabel.label_run_own_iff hold hnew (fun _ => none)).1
      intro b hb
      obtain ⟨p, hp, rfl⟩ := mem_map.1 hb
      obtain ⟨-, hp1, -⟩ := (mem_keptNodes ho.indexed).1 hp
      have hinst := h ⟨p.1, sampleProps p.1.properties, hp1, conforms_sampleProps _⟩
      rw [migrate_kept ho.indexed hn.indexed hp] at hinst
      rw [Relabel.label_run_congr _ _ (sampleProps p.1.properties)]
      exact congrArg Prod.fst (singleNode_inj hinst)
    refine ⟨ordered_nodeBlocks_iff.1 hord, ?_, ?_⟩
    · intro p hp
      obtain ⟨-, hp1, -⟩ := (mem_keptNodes ho.indexed).1 hp
      apply (applyEdits_propertyEdits_iff engine (hnames p hp).1 (hnames p hp).2).1
      intro props hprops
      have hinst := h ⟨p.1, props, hp1, hprops⟩
      rw [migrate_kept ho.indexed hn.indexed hp] at hinst
      have hown := Relabel.run_own hold hnew hord (mem_map_of_mem hp) props
      exact congrArg Prod.snd (hown.symm.trans (singleNode_inj hinst))
    · intro p hp u hu hlabel props hprops
      have hinst := h ⟨u, props, (mem_unmatched _).1 hu |>.1, hprops⟩
      rw [migrate_removed hu] at hinst
      have hrun := Relabel.run_stranger hnew (x := (u.label, props))
        (label_ne_of_removed ho.indexed hu) (mem_map_of_mem hp) hlabel.symm
      exact congrArg Prod.snd (hrun.symm.trans (singleNode_inj hinst))
  · rintro ⟨hord, hsettled, hstrangers⟩ n
    have hord := (@ordered_nodeBlocks_iff engine old new).2 hord
    cases hfind : new.nodeTypes.find? fun t => t.id = n.type.id with
    | some t =>
      have ht := (find_new_some_iff ho.indexed hn.indexed n.mem).1 hfind
      have hown := Relabel.run_own hold hnew hord (mem_map_of_mem ht) n.props
      have hprops := (applyEdits_propertyEdits_iff engine (hnames _ ht).1 (hnames _ ht).2).2
        (hsettled _ ht) n.props n.conforms
      rw [migrate_kept ho.indexed hn.indexed ht, ← hprops]
      exact congrArg singleNode hown
    | none =>
      have hu := (find_new_none_iff n.mem).1 hfind
      rw [migrate_removed hu]
      apply congrArg singleNode
      by_cases htaken : ∃ p ∈ keptNodes old new, p.2.label = n.type.label
      · obtain ⟨p, hp, hlabel⟩ := htaken
        have hrun := Relabel.run_stranger hnew (x := (n.type.label, n.props))
          (label_ne_of_removed ho.indexed hu) (mem_map_of_mem hp) hlabel
        rw [hrun]
        exact congrArg (Prod.mk _) (hstrangers p hp _ hu hlabel.symm n.props n.conforms)
      · apply Relabel.run_of_ne (label_ne_of_removed ho.indexed hu)
        intro b hb heq
        obtain ⟨p, hp, rfl⟩ := mem_map.1 hb
        exact htaken ⟨p, hp, heq.symm⟩

end

/-- Two node types, of which the first has a name. -/
def labelled (a b : GraphLabel) : OntologyIR where
  id := "o"
  name := "shop"
  nodeTypes :=
    [{ id := ⟨"a"⟩
       label := a
       properties := [{ id := ⟨"p"⟩, name := ⟨"name", .refl true⟩, propertyType := .string }] },
     { id := ⟨"b"⟩, label := b }]

def customerLabel : GraphLabel := ⟨"Customer", .refl true⟩

def productLabel : GraphLabel := ⟨"Product", by decide⟩

def clientLabel : GraphLabel := ⟨"Client", by decide⟩

/-- An engine for migrations without defaults and coercions. -/
def plainEngine : Engine := ⟨fun _ => "0.0", fun _ => none, fun _ v => some v⟩

theorem labelled_valid : Valid (labelled customerLabel productLabel) ∧
    Valid (labelled clientLabel productLabel) ∧ Valid (labelled productLabel customerLabel) :=
  ⟨⟨(OntologyIR.rebuild_ok_iff _).1 rfl, rfl⟩,
    ⟨(OntologyIR.rebuild_ok_iff _).1 rfl, rfl⟩,
    (OntologyIR.rebuild_ok_iff _).1 rfl, rfl⟩

def oneCustomer : DataGraph (labelled customerLabel productLabel) :=
  ⟨[⟨_, sampleProps _, List.mem_cons_self .., conforms_sampleProps _⟩], []⟩

end Ontosyx.Compile
