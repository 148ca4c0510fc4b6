import Ontosyx.Lib.Firsts
import Ontosyx.Design.Components
import Ontosyx.Design.Levels
import Ontosyx.Core.Source

/-!
# Clustering the tables

`cluster_tables`: the connected components of the tables, cut where they are too
large, become the clusters; foreign keys are told apart by whether they cross a
border, and the clusters are numbered in the order of their levels.
-/

namespace Ontosyx.Design

open List Ontosyx.Core Lib.Keyed Lib.Strata List Or

/-! ## The algorithm -/

/-- `name_to_idx.get`: the last table of the name. -/
def nameToIdx (names : List String) (name : String) : Option Nat :=
  (last Prod.fst name names.zipIdx).map (·.2)

/-- The indices of both tables of a foreign key. -/
def fkEnds (names : List String) (fk : ForeignKeyDef) : Option (Nat × Nat) :=
  match nameToIdx names fk.fromTable, nameToIdx names fk.toTable with
  | some fi, some ti => some (fi, ti)
  | _, _ => none

/-- The foreign keys in the order of the loops: the declared ones, then the
confirmed implied ones. -/
def candidateFks (schema : SourceSchema) (implied : List ImpliedRelationship) :
    List ForeignKeyDef :=
  schema.foreignKeys ++ (implied.filter (·.isConfirmed)).map (·.foreignKey)

def collectAllFks (names : List String) (fks : List ForeignKeyDef) : List (Nat × Nat) :=
  firsts id ((fks.filterMap (fkEnds names)).filter fun e => e.1 ≠ e.2)

section

variable (schema : SourceSchema) (implied : List ImpliedRelationship) (maxSize : Nat)

def tableNames : List String := schema.tables.map (·.name)

def allFks : List (Nat × Nat) :=
  collectAllFks (tableNames schema) (candidateFks schema implied)

/-- `partitions`. -/
def tablePartitions : List (List Nat) :=
  let n := (tableNames schema).length
  let fks := allFks schema implied
  (componentGroups n (unionAll n fks)).flatMap fun group =>
    if group.length ≤ maxSize then [group] else bfsSplit fks n group maxSize

end

/-- `table_partition[i]`. -/
def tablePartition (parts : List (List Nat)) (i : Nat) : Nat :=
  ((parts.zipIdx.reverse.find? fun p => i ∈ p.1).map (·.2)).getD 0

/-- Whether each end of a foreign key lies in the partition. -/
def endsIn (names : List String) (part : List Nat) (fk : ForeignKeyDef) : Option (Bool × Bool) :=
  (fkEnds names fk).map fun e => (decide (e.1 ∈ part), decide (e.2 ∈ part))

def buildCluster (names : List String) (fks : List ForeignKeyDef) (part : List Nat) (pid : Nat) :
    TableCluster where
  id := pid
  tables := part.map fun i => names.getD i ""
  internalFks := fks.filter fun fk => endsIn names part fk = some (true, true)
  crossFks := fks.filter fun fk =>
    endsIn names part fk = some (true, false) ∨ endsIn names part fk = some (false, true)

/-- A cross foreign key as a reference between clusters. -/
def crossReference (names : List String) (parts : List (List Nat)) (fk : ForeignKeyDef) :
    Option (Nat × Nat) :=
  (fkEnds names fk).bind fun e =>
    if tablePartition parts e.1 ≠ tablePartition parts e.2 then
      some (tablePartition parts e.1, tablePartition parts e.2)
    else none

def crossReferences (names : List String) (parts : List (List Nat))
    (clusters : List TableCluster) : List (Nat × Nat) :=
  clusters.flatMap fun c => c.crossFks.filterMap (crossReference names parts)

/-- `clusters[old_id]`, under its new id; every id of a level is in range. -/
def renumber (clusters : List TableCluster) (entry : Nat × Nat) : TableCluster :=
  { clusters.getD entry.1 ⟨entry.1, [], [], []⟩ with id := entry.2 }

section

variable (schema : SourceSchema) (implied : List ImpliedRelationship) (maxSize : Nat)

/-- `clusters`, numbered as the partitions are. -/
def partClusters : List TableCluster :=
  (tablePartitions schema implied maxSize).zipIdx.map fun p =>
    buildCluster (tableNames schema) (candidateFks schema implied) p.1 p.2

/-- `levels`, of the ids of the partitions. -/
def partLevels : List (List Nat) :=
  let clusters := partClusters schema implied maxSize
  computeParallelLevels clusters.length
    (crossReferences (tableNames schema) (tablePartitions schema implied maxSize) clusters)

def idOrder : List Nat := (partLevels schema implied maxSize).flatten

/-- `cluster_tables`.  `old_to_new` gives the place of an id in `id_order`. -/
def clusterTables : ClusterPlan :=
  if tableNames schema = [] then ⟨[], []⟩
  else
    { clusters := (idOrder schema implied maxSize).zipIdx.map
        (renumber (partClusters schema implied maxSize))
      levels := (partLevels schema implied maxSize).map fun level =>
        level.map fun old => (idOrder schema implied maxSize).idxOf old }

end

/-- Declared, or implied with enough confidence, between two tables of the schema. -/
def acceptedFks (schema : SourceSchema) (implied : List ImpliedRelationship) : List ForeignKeyDef :=
  (candidateFks schema implied).filter fun fk =>
    fk.fromTable ∈ tableNames schema ∧ fk.toTable ∈ tableNames schema

/-- A foreign key of the list joins the two tables, either way. -/
def Linked (fks : List ForeignKeyDef) (t u : String) : Prop :=
  ∃ fk ∈ fks, fk.fromTable = t ∧ fk.toTable = u ∨ fk.fromTable = u ∧ fk.toTable = t

/-- A cross foreign key leads from the tables of one cluster to those of another. -/
def ClusterPlan.References (plan : ClusterPlan) (i j : Nat) : Prop :=
  i ≠ j ∧ ∃ c d : TableCluster, plan.clusters[i]? = some c ∧ plan.clusters[j]? = some d ∧
    ∃ fk ∈ c.crossFks, fk.fromTable ∈ c.tables ∧ fk.toTable ∈ d.tables

/-- The foreign key is internal to the one cluster that holds both its tables, or
crosses between the two that hold one each, and is listed nowhere else. -/
def ClusterPlan.ListsOnce (plan : ClusterPlan) (fk : ForeignKeyDef) : Prop :=
  ∃ (i j : Nat) (c d : TableCluster), plan.clusters[i]? = some c ∧ plan.clusters[j]? = some d ∧
    fk.fromTable ∈ c.tables ∧ fk.toTable ∈ d.tables ∧
    ∀ (k : Nat) (e : TableCluster), plan.clusters[k]? = some e →
      (fk ∈ e.internalFks ↔ i = j ∧ k = i) ∧ (fk ∈ e.crossFks ↔ i ≠ j ∧ (k = i ∨ k = j))

structure CorrectSchedule (schema : SourceSchema) (implied : List ImpliedRelationship)
    (maxSize : Nat) (plan : ClusterPlan) : Prop where
  ids : ∀ (i : Nat) (c : TableCluster), plan.clusters[i]? = some c → c.id = i
  tables : (plan.clusters.flatMap (·.tables)).Perm (tableNames schema)
  size : ∀ c ∈ plan.clusters, c.tables.length ≤ maxSize
  connected : ∀ c ∈ plan.clusters, ∀ t ∈ c.tables, ∀ u ∈ c.tables,
    Relation.ReflTransGen (Linked c.internalFks) t u
  foreignKeys : ∀ fk ∈ acceptedFks schema implied, plan.ListsOnce fk
  levels : plan.levels.flatten.Perm (range plan.clusters.length)
  order : ∀ i j, plan.References i j → ¬ Relation.TransGen plan.References j i →
    Earlier plan.levels j i

/-- A foreign key leads from one partition to another. -/
def PartRefers (schema : SourceSchema) (implied : List ImpliedRelationship) (maxSize : Nat)
    (i j : Nat) : Prop :=
  i ≠ j ∧ ∃ p q, (tablePartitions schema implied maxSize)[i]? = some p ∧
    (tablePartitions schema implied maxSize)[j]? = some q ∧
    ∃ fk ∈ candidateFks schema implied, ∃ fi ∈ p, ∃ ti ∈ q,
      (tableNames schema)[fi]? = some fk.fromTable ∧ (tableNames schema)[ti]? = some fk.toTable

/-- Where one partition references another without being referenced back, the
other does not stand behind a cycle of references. -/
def NoneBehindCycle (schema : SourceSchema) (implied : List ImpliedRelationship)
    (maxSize : Nat) : Prop :=
  ∀ i j, PartRefers schema implied maxSize i j →
    ¬ Relation.TransGen (PartRefers schema implied maxSize) j i →
      ¬ Behind (PartRefers schema implied maxSize) j

variable {part : List Nat} {fk : ForeignKeyDef} {c : TableCluster}

section

variable {names : List String}

theorem nameToIdx_some_iff (hnd : names.Nodup) {name : String} {i : Nat} :
    nameToIdx names name = some i ↔ names[i]? = some name := by
  have hkeys : (names.zipIdx.map Prod.fst).Nodup := by
    rw [zipIdx_map_fst]
    exact hnd
  rw [nameToIdx, Option.map_eq_some_iff]
  constructor
  · rintro ⟨entry, hentry, rfl⟩
    obtain ⟨hmem, rfl⟩ := (last_some_iff Prod.fst hkeys).1 hentry
    exact mem_zipIdx_iff_getElem?.1 hmem
  · intro hi
    have hmem : (name, i) ∈ names.zipIdx := mem_zipIdx_iff_getElem?.2 hi
    exact ⟨(name, i), (last_some_iff Prod.fst hkeys).2 ⟨hmem, rfl⟩, rfl⟩

/-- The indices of a foreign key are those of its tables. -/
theorem fkEnds_eq_some_iff (hnd : names.Nodup) {e : Nat × Nat} : fkEnds names fk = some e ↔
      names[e.1]? = some fk.fromTable ∧ names[e.2]? = some fk.toTable := by
  rw [← nameToIdx_some_iff hnd, ← nameToIdx_some_iff hnd, fkEnds]
  constructor
  · intro h
    split at h
    · next fi ti hfi hti =>
        rw [← Option.some.inj h]
        exact ⟨hfi, hti⟩
    · exact absurd h (by simp)
  · rintro ⟨hfi, hti⟩
    simp only [hfi, hti]

theorem fkEnds_eq (hnd : names.Nodup) {fi ti : Nat} (hfi : names[fi]? = some fk.fromTable)
    (hti : names[ti]? = some fk.toTable) : fkEnds names fk = some (fi, ti) :=
  (fkEnds_eq_some_iff hnd).2 ⟨hfi, hti⟩

theorem lt_of_mem_collectAllFks (hnd : names.Nodup) {fks : List ForeignKeyDef} {e : Nat × Nat}
    (he : e ∈ collectAllFks names fks) : e.1 < names.length ∧ e.2 < names.length := by
  have hmem := List.mem_of_find?_eq_some ((mem_firsts_iff id).1 he)
  obtain ⟨fk, -, hfk⟩ := List.mem_filterMap.1 (List.mem_filter.1 hmem).1
  obtain ⟨hfrom, hto⟩ := (fkEnds_eq_some_iff hnd).1 hfk
  exact ⟨(List.getElem?_eq_some_iff.1 hfrom).1, (List.getElem?_eq_some_iff.1 hto).1⟩

/-- An edge of the graph comes from a candidate foreign key. -/
theorem exists_of_mem_collectAllFks {fks : List ForeignKeyDef} {e : Nat × Nat}
    (he : e ∈ collectAllFks names fks) : ∃ fk ∈ fks, fkEnds names fk = some e := by
  have hmem := mem_of_find?_eq_some ((mem_firsts_iff id).1 he)
  exact mem_filterMap.1 (mem_filter.1 hmem).1

theorem mem_map_getD (hnd : names.Nodup) (hlt : ∀ i ∈ part, i < names.length) {i : Nat}
    {name : String} (hi : names[i]? = some name) :
    (name ∈ part.map fun i => names.getD i "") ↔ i ∈ part := by
  constructor
  · intro hmem
    obtain ⟨j, hj, hname⟩ := List.mem_map.1 hmem
    have hjlt := hlt j hj
    obtain ⟨hilt, hname'⟩ := List.getElem?_eq_some_iff.1 hi
    rw [List.getD_eq_getElem _ _ hjlt, ← hname'] at hname
    rw [← (hnd.getElem_inj_iff).1 hname]
    exact hj
  · intro hmem
    refine mem_map.2 ⟨i, hmem, ?_⟩
    rw [getD_eq_getElem?_getD, hi, Option.getD_some]

end

/-! ## The partitions -/

section

variable {schema : SourceSchema} {implied : List ImpliedRelationship} {maxSize : Nat}

theorem allFks_lt (hnd : (tableNames schema).Nodup) : ∀ fk ∈ allFks schema implied,
      fk.1 < (tableNames schema).length ∧ fk.2 < (tableNames schema).length :=
  fun _ hfk => lt_of_mem_collectAllFks hnd hfk

/-- A partition is a component of at most the maximum size, or cut from a larger
one. -/
theorem mem_partitions (h : part ∈ tablePartitions schema implied maxSize) :
    (∃ group ∈ componentGroups (tableNames schema).length
        (unionAll (tableNames schema).length (allFks schema implied)),
      group.length ≤ maxSize ∧ part = group) ∨ ∃ group ∈ componentGroups (tableNames schema).length
        (unionAll (tableNames schema).length (allFks schema implied)),
      part ∈ bfsSplit (allFks schema implied) (tableNames schema).length group maxSize := by
  obtain ⟨group, hgroup, hpart⟩ := mem_flatMap.1 h
  split at hpart
  · next hsize => exact inl ⟨group, hgroup, hsize, mem_singleton.1 hpart⟩
  · exact inr ⟨group, hgroup, hpart⟩

variable (schema implied) in
theorem partitions_perm (hmax : 1 ≤ maxSize) :
    (tablePartitions schema implied maxSize).flatten.Perm
      (range (tableNames schema).length) := by
  have hgroups := components_perm (tableNames schema).length
    (unionAll (tableNames schema).length (allFks schema implied))
  refine Perm.trans ?_ hgroups
  have hnd := hgroups.nodup_iff.2 nodup_range
  rw [tablePartitions]
  generalize componentGroups (tableNames schema).length
    (unionAll (tableNames schema).length (allFks schema implied)) = groups at hnd ⊢
  induction groups with
  | nil => exact .refl _
  | cons group groups ih =>
    rw [flatten_cons] at hnd
    simp only [flatMap_cons, flatten_append, flatten_cons]
    refine Perm.append ?_ (ih hnd.of_append_right)
    split
    · rw [flatten_singleton]
    · exact bfsSplit_perm hmax hnd.of_append_left

theorem length_le_of_mem_partitions (hmax : 1 ≤ maxSize)
    (h : part ∈ tablePartitions schema implied maxSize) : part.length ≤ maxSize := by
  rcases mem_partitions h with ⟨group, -, hsize, rfl⟩ | ⟨group, -, hpart⟩
  · exact hsize
  · exact length_le_of_mem_bfsSplit hmax hpart

theorem connected_of_mem_partitions (hnd : (tableNames schema).Nodup) (hmax : 1 ≤ maxSize)
    (h : part ∈ tablePartitions schema implied maxSize) :
    ConnectedGroup (allFks schema implied) part := by
  rcases mem_partitions h with ⟨group, hgroup, -, rfl⟩ | ⟨group, -, hpart⟩
  · exact connected_of_mem_components (allFks_lt hnd) hgroup
  · exact connected_of_mem_bfsSplit hmax hpart

variable {i : Nat} {p : List Nat}

theorem part_unique {parts : List (List Nat)} (hnd : parts.flatten.Nodup) {j : Nat}
    {q : List Nat} (hp : parts[i]? = some p) (hq : parts[j]? = some q) {x : Nat} (hxp : x ∈ p)
    (hxq : x ∈ q) : i = j := by
  obtain ⟨hi, rfl⟩ := List.getElem?_eq_some_iff.1 hp
  obtain ⟨hj, rfl⟩ := List.getElem?_eq_some_iff.1 hq
  have hdisjoint := List.pairwise_iff_getElem.1 (List.nodup_flatten.1 hnd).2
  rcases Nat.lt_trichotomy i j with hlt | heq | hgt
  · exact absurd hxq (hdisjoint i j hi hj hlt hxp)
  · exact heq
  · exact absurd hxp (hdisjoint j i hj hi hgt hxq)

/-- `table_partition` holds the partition of each table. -/
theorem tablePartition_eq {parts : List (List Nat)} (hnd : parts.flatten.Nodup)
    (hp : parts[i]? = some p) {x : Nat} (hx : x ∈ p) : tablePartition parts x = i := by
  have hmem : (p, i) ∈ parts.zipIdx.reverse :=
    mem_reverse.2 (mem_zipIdx_iff_getElem?.2 hp)
  have hfound : parts.zipIdx.reverse.find? (fun p => x ∈ p.1) ≠ none := by
    intro hnone
    exact find?_eq_none.1 hnone (p, i) hmem (by simpa using hx)
  obtain ⟨entry, hentry⟩ := Option.ne_none_iff_exists'.1 hfound
  have hpart := mem_zipIdx_iff_getElem?.1
    (mem_reverse.1 (mem_of_find?_eq_some hentry))
  have hxentry : x ∈ entry.1 := by simpa using find?_some hentry
  rw [tablePartition, hentry, Option.map_some, Option.getD_some]
  exact part_unique hnd hpart hp hxentry hx

variable (implied) in
theorem exists_part (hmax : 1 ≤ maxSize) (hi : i < (tableNames schema).length) :
    ∃ (k : Nat) (p : List Nat), (tablePartitions schema implied maxSize)[k]? = some p ∧ i ∈ p := by
  have hmem := (partitions_perm schema implied hmax).mem_iff.2 (mem_range.2 hi)
  obtain ⟨p, hp, hip⟩ := mem_flatten.1 hmem
  obtain ⟨k, hk⟩ := getElem?_of_mem hp
  exact ⟨k, p, hk, hip⟩

variable (schema implied) in
theorem partitions_nodup (hmax : 1 ≤ maxSize) :
    (tablePartitions schema implied maxSize).flatten.Nodup :=
  (partitions_perm schema implied hmax).nodup_iff.2 nodup_range

theorem lt_of_mem_part (hmax : 1 ≤ maxSize) (hp : p ∈ tablePartitions schema implied maxSize)
    (hi : i ∈ p) : i < (tableNames schema).length := by
  have hmem := (partitions_perm schema implied hmax).mem_iff.1
    (mem_flatten.2 ⟨p, hp, hi⟩)
  exact mem_range.1 hmem

/-! ## The clusters -/

theorem partClusters_length : (partClusters schema implied maxSize).length =
      (tablePartitions schema implied maxSize).length := by
  rw [partClusters, length_map, length_zipIdx]

theorem partClusters_getElem? (i : Nat) : (partClusters schema implied maxSize)[i]? =
      (tablePartitions schema implied maxSize)[i]?.map fun p =>
        buildCluster (tableNames schema) (candidateFks schema implied) p i := by
  rw [partClusters, getElem?_map, getElem?_zipIdx, Option.map_map, Nat.zero_add]
  rfl

section

variable {names : List String} {fks : List ForeignKeyDef} {part : List Nat} {pid : Nat}
  {fk : ForeignKeyDef}

theorem endsIn_eq_some_iff (hnd : names.Nodup) {fi ti : Nat}
    (hfi : names[fi]? = some fk.fromTable) (hti : names[ti]? = some fk.toTable) {x y : Bool} :
    endsIn names part fk = some (x, y) ↔ decide (fi ∈ part) = x ∧ decide (ti ∈ part) = y := by
  rw [endsIn, fkEnds_eq hnd hfi hti, Option.map_some, Option.some.injEq, Prod.mk.injEq]

theorem mem_internalFks_iff (hnd : names.Nodup) {fi ti : Nat}
    (hfi : names[fi]? = some fk.fromTable) (hti : names[ti]? = some fk.toTable) :
    fk ∈ (buildCluster names fks part pid).internalFks ↔ fk ∈ fks ∧ fi ∈ part ∧ ti ∈ part := by
  rw [buildCluster, mem_filter, decide_eq_true_iff, endsIn_eq_some_iff hnd hfi hti,
    decide_eq_true_iff, decide_eq_true_iff]

theorem mem_crossFks_iff (hnd : names.Nodup) {fi ti : Nat}
    (hfi : names[fi]? = some fk.fromTable) (hti : names[ti]? = some fk.toTable) :
    fk ∈ (buildCluster names fks part pid).crossFks ↔
      fk ∈ fks ∧ (fi ∈ part ∧ ti ∉ part ∨ fi ∉ part ∧ ti ∈ part) := by
  rw [buildCluster, mem_filter, decide_eq_true_iff, endsIn_eq_some_iff hnd hfi hti,
    endsIn_eq_some_iff hnd hfi hti, decide_eq_true_iff, decide_eq_true_iff,
    decide_eq_false_iff_not, decide_eq_false_iff_not]

/-- A listed foreign key is a candidate with both tables known. -/
theorem exists_ends_of_mem_crossFks (hnd : names.Nodup)
    (h : fk ∈ (buildCluster names fks part pid).crossFks) : fk ∈ fks ∧ ∃ fi ti : Nat,
      names[fi]? = some fk.fromTable ∧ names[ti]? = some fk.toTable := by
  obtain ⟨hfk, hends⟩ := mem_filter.1 h
  refine ⟨hfk, ?_⟩
  cases hf : fkEnds names fk with
  | none =>
    rw [endsIn, hf] at hends
    simp at hends
  | some e => exact ⟨e.1, e.2, (fkEnds_eq_some_iff hnd).1 hf⟩

end

/-- The references that order the clusters are the foreign keys between their
partitions. -/
theorem partRefers_iff (hnd : (tableNames schema).Nodup) (hmax : 1 ≤ maxSize) {x y : Nat} :
    (x, y) ∈ crossReferences (tableNames schema) (tablePartitions schema implied maxSize)
        (partClusters schema implied maxSize) ↔ PartRefers schema implied maxSize x y := by
  have hparts := partitions_nodup schema implied hmax
  constructor
  · intro hmem
    obtain ⟨c, hc, hmem⟩ := mem_flatMap.1 hmem
    obtain ⟨fk, hfk, href⟩ := mem_filterMap.1 hmem
    obtain ⟨k, hk⟩ := getElem?_of_mem hc
    rw [partClusters_getElem?] at hk
    obtain ⟨p, -, rfl⟩ := Option.map_eq_some_iff.1 hk
    obtain ⟨hcand, fi, ti, hfi, hti⟩ := exists_ends_of_mem_crossFks hnd hfk
    obtain ⟨i, pf, hpf, hfimem⟩ := exists_part implied hmax
      (List.getElem?_eq_some_iff.1 hfi).1
    obtain ⟨j, pt, hpt, htimem⟩ := exists_part implied hmax
      (List.getElem?_eq_some_iff.1 hti).1
    rw [crossReference, fkEnds_eq hnd hfi hti, Option.bind_some,
      tablePartition_eq hparts hpf hfimem, tablePartition_eq hparts hpt htimem] at href
    split at href
    · next hne =>
        obtain ⟨rfl, rfl⟩ := Prod.mk.inj (Option.some.inj href)
        exact ⟨hne, pf, pt, hpf, hpt, fk, hcand, fi, hfimem, ti, htimem, hfi, hti⟩
    · exact absurd href (by simp)
  · rintro ⟨hne, p, q, hp, hq, fk, hfk, fi, hfimem, ti, htimem, hfi, hti⟩
    have hcluster : buildCluster (tableNames schema) (candidateFks schema implied) p x ∈
        partClusters schema implied maxSize := by
      refine mem_of_getElem? (i := x) ?_
      rw [partClusters_getElem?, hp, Option.map_some]
    have hcross : fk ∈
        (buildCluster (tableNames schema) (candidateFks schema implied) p x).crossFks := by
      rw [mem_crossFks_iff hnd hfi hti]
      exact ⟨hfk, inl ⟨hfimem, fun hmem => hne (part_unique hparts hp hq hmem htimem)⟩⟩
    refine mem_flatMap.2 ⟨_, hcluster, mem_filterMap.2 ⟨fk, hcross, ?_⟩⟩
    rw [crossReference, fkEnds_eq hnd hfi hti, Option.bind_some,
      tablePartition_eq hparts hp hfimem, tablePartition_eq hparts hq htimem, if_pos hne]

theorem refers_iff (hnd : (tableNames schema).Nodup) (hmax : 1 ≤ maxSize) :
    Refers (partClusters schema implied maxSize).length
        (crossReferences (tableNames schema) (tablePartitions schema implied maxSize)
          (partClusters schema implied maxSize)) = PartRefers schema implied maxSize := by
  funext x y
  rw [Refers, partRefers_iff hnd hmax, partClusters_length, eq_iff_iff]
  constructor
  · exact fun h => h.2.2
  · intro h
    obtain ⟨-, p, q, hp, hq, -⟩ := id h
    exact ⟨(List.getElem?_eq_some_iff.1 hp).1, (List.getElem?_eq_some_iff.1 hq).1, h⟩

variable (schema implied maxSize)

theorem idOrder_perm : (idOrder schema implied maxSize).Perm
      (range (tablePartitions schema implied maxSize).length) := by
  rw [← partClusters_length]
  exact parallelLevels_perm _ _

theorem idOrder_nodup : (idOrder schema implied maxSize).Nodup :=
  (idOrder_perm schema implied maxSize).nodup_iff.2 nodup_range

/-- Without tables there are no partitions, and nothing to lay out. -/
theorem clusterTables_eq :
    clusterTables schema implied maxSize =
      { clusters := (idOrder schema implied maxSize).zipIdx.map
          (renumber (partClusters schema implied maxSize))
        levels := (partLevels schema implied maxSize).map fun level =>
          level.map fun old => (idOrder schema implied maxSize).idxOf old } := by
  rw [clusterTables]
  split
  · next hempty =>
      have hparts : tablePartitions schema implied maxSize = [] := by
        rw [tablePartitions, hempty]
        simp
      have hlevels : partLevels schema implied maxSize = [] := by
        simp only [partLevels, partClusters, hparts, zipIdx_nil, map_nil,
          length_nil, computeParallelLevels_zero]
      simp [idOrder, hlevels]
  · rfl

variable {schema implied maxSize}

variable {k : Nat}

/-- The cluster under a new id is that of the partition at this place of the order. -/
theorem getElem?_clusters : (clusterTables schema implied maxSize).clusters[k]? = some c ↔
      ∃ old p, (idOrder schema implied maxSize)[k]? = some old ∧
        (tablePartitions schema implied maxSize)[old]? = some p ∧
          c = buildCluster (tableNames schema) (candidateFks schema implied) p k := by
  have hrenumber : ∀ {old : Nat} {p : List Nat},
      (tablePartitions schema implied maxSize)[old]? = some p →
        renumber (partClusters schema implied maxSize) (old, k) =
          buildCluster (tableNames schema) (candidateFks schema implied) p k := by
    intro old p hp
    rw [renumber, getD_eq_getElem?_getD, partClusters_getElem?, hp]
    rfl
  rw [clusterTables_eq]
  simp only [getElem?_map, getElem?_zipIdx, Option.map_map, Nat.zero_add,
    Option.map_eq_some_iff, Function.comp_apply]
  constructor
  · rintro ⟨old, hold, rfl⟩
    have hlt : old < (tablePartitions schema implied maxSize).length :=
      mem_range.1 ((idOrder_perm schema implied maxSize).mem_iff.1 (mem_of_getElem? hold))
    exact ⟨old, _, hold, getElem?_eq_getElem hlt, hrenumber (getElem?_eq_getElem hlt)⟩
  · rintro ⟨old, p, hold, hp, rfl⟩
    exact ⟨old, hold, hrenumber hp⟩

variable {old : Nat}

theorem exists_newId (hp : (tablePartitions schema implied maxSize)[old]? = some p) :
    (idOrder schema implied maxSize)[(idOrder schema implied maxSize).idxOf old]? = some old := by
  have hmem : old ∈ idOrder schema implied maxSize := by
    rw [(idOrder_perm schema implied maxSize).mem_iff, List.mem_range]
    exact (List.getElem?_eq_some_iff.1 hp).1
  exact List.getElem?_idxOf hmem

/-! ## The parts of the plan that hold of every schema -/

/-- A list read through its indices. -/
theorem map_getD_range {α : Type} (l : List α) (d : α) :
    (range l.length).map (fun i => l.getD i d) = l := by
  refine ext_getElem (by simp) fun i hi hi' => ?_
  rw [getElem_map, getElem_range, getD_eq_getElem _ _ hi']

theorem clusterTables_tables (hmax : 1 ≤ maxSize) :
    ((clusterTables schema implied maxSize).clusters.flatMap (·.tables)).Perm
      (tableNames schema) := by
  let name : Nat → String := fun i => (tableNames schema).getD i ""
  let tablesOf : Nat → List String := fun old =>
    ((tablePartitions schema implied maxSize).getD old []).map name
  have hrenumber : ∀ entry : Nat × Nat,
      (renumber (partClusters schema implied maxSize) entry).tables = tablesOf entry.1 := by
    intro entry
    simp only [renumber, tablesOf, getD_eq_getElem?_getD, partClusters_getElem?]
    cases (tablePartitions schema implied maxSize)[entry.1]? <;> rfl
  have hclusters : (clusterTables schema implied maxSize).clusters.flatMap (·.tables) =
      (idOrder schema implied maxSize).flatMap tablesOf := by
    rw [clusterTables_eq]
    simp only [flatMap_map, hrenumber]
    conv_rhs => rw [← zipIdx_map_fst 0 (idOrder schema implied maxSize)]
    rw [flatMap_map]
  have hparts : (range (tablePartitions schema implied maxSize).length).flatMap tablesOf =
      (tablePartitions schema implied maxSize).flatten.map name := by
    rw [map_flatten, flatMap_def]
    conv_rhs => rw [← map_getD_range (tablePartitions schema implied maxSize) []]
    rw [map_map]
    rfl
  rw [hclusters]
  refine ((idOrder_perm schema implied maxSize).flatMap_right tablesOf).trans ?_
  rw [hparts]
  refine ((partitions_perm schema implied hmax).map name).trans ?_
  rw [map_getD_range]

theorem mem_tables_iff (hnd : (tableNames schema).Nodup) (hmax : 1 ≤ maxSize) {pid : Nat}
    (hp : (tablePartitions schema implied maxSize)[old]? = some p) {t : String}
    (hi : (tableNames schema)[i]? = some t) :
    t ∈ (buildCluster (tableNames schema) (candidateFks schema implied) p pid).tables ↔ i ∈ p :=
  mem_map_getD hnd (fun _ hx => lt_of_mem_part hmax (mem_of_getElem? hp) hx) hi

theorem clusterTables_size (hmax : 1 ≤ maxSize)
    (hc : c ∈ (clusterTables schema implied maxSize).clusters) : c.tables.length ≤ maxSize := by
  obtain ⟨k, hk⟩ := getElem?_of_mem hc
  obtain ⟨old, p, -, hp, rfl⟩ := getElem?_clusters.1 hk
  rw [buildCluster, length_map]
  exact length_le_of_mem_partitions hmax (mem_of_getElem? hp)

theorem clusterTables_connected (hnd : (tableNames schema).Nodup) (hmax : 1 ≤ maxSize)
    (hc : c ∈ (clusterTables schema implied maxSize).clusters) {t u : String} (ht : t ∈ c.tables)
    (hu : u ∈ c.tables) : Relation.ReflTransGen (Linked c.internalFks) t u := by
  obtain ⟨k, hk⟩ := getElem?_of_mem hc
  obtain ⟨old, p, -, hp, rfl⟩ := getElem?_clusters.1 hk
  obtain ⟨a, ha, rfl⟩ := mem_map.1 ht
  obtain ⟨b, hb, rfl⟩ := mem_map.1 hu
  have hpath := connected_of_mem_partitions hnd hmax (mem_of_getElem? hp) a ha b hb
  refine hpath.lift (fun i => (tableNames schema).getD i "") ?_
  rintro x y ⟨hxy, hx, hy⟩
  have hlink : ∀ e : Nat × Nat, e ∈ allFks schema implied → e.1 ∈ p → e.2 ∈ p →
      ∃ fk ∈ (buildCluster (tableNames schema) (candidateFks schema implied) p k).internalFks,
        fk.fromTable = (tableNames schema).getD e.1 "" ∧
          fk.toTable = (tableNames schema).getD e.2 "" := by
    intro e he h1 h2
    obtain ⟨fk, hfk, hends⟩ := exists_of_mem_collectAllFks he
    obtain ⟨hfrom, hto⟩ := (fkEnds_eq_some_iff hnd).1 hends
    refine ⟨fk, (mem_internalFks_iff hnd hfrom hto).2 ⟨hfk, h1, h2⟩, ?_, ?_⟩
    · rw [getD_eq_getElem?_getD, hfrom, Option.getD_some]
    · rw [getD_eq_getElem?_getD, hto, Option.getD_some]
  rcases hxy with hfk | hfk
  · obtain ⟨fk, hmem, hfrom, hto⟩ := hlink (x, y) hfk hx hy
    exact ⟨fk, hmem, inl ⟨hfrom, hto⟩⟩
  · obtain ⟨fk, hmem, hfrom, hto⟩ := hlink (y, x) hfk hy hx
    exact ⟨fk, hmem, inr ⟨hfrom, hto⟩⟩

variable {k' old' : Nat}

/-- New ids are equal when the partitions are. -/
theorem newId_eq_iff (hk : (idOrder schema implied maxSize)[k]? = some old)
    (hk' : (idOrder schema implied maxSize)[k']? = some old') : k = k' ↔ old = old' := by
  constructor
  · rintro rfl
    exact Option.some.inj (hk.symm.trans hk')
  · rintro rfl
    obtain ⟨hlt, heq⟩ := List.getElem?_eq_some_iff.1 hk
    obtain ⟨hlt', heq'⟩ := List.getElem?_eq_some_iff.1 hk'
    exact (idOrder_nodup schema implied maxSize).getElem_inj_iff.1 (heq.trans heq'.symm)

theorem clusterTables_listsOnce (hnd : (tableNames schema).Nodup) (hmax : 1 ≤ maxSize)
    (hfk : fk ∈ acceptedFks schema implied) :
    (clusterTables schema implied maxSize).ListsOnce fk := by
  obtain ⟨hcand, hknown⟩ := mem_filter.1 hfk
  rw [decide_eq_true_iff] at hknown
  obtain ⟨fi, hfi⟩ := List.getElem?_of_mem hknown.1
  obtain ⟨ti, hti⟩ := List.getElem?_of_mem hknown.2
  have hparts := partitions_nodup schema implied hmax
  obtain ⟨old, p, hp, hfip⟩ := exists_part implied hmax (List.getElem?_eq_some_iff.1 hfi).1
  obtain ⟨old', q, hq, htiq⟩ := exists_part implied hmax (List.getElem?_eq_some_iff.1 hti).1
  have hi := exists_newId hp
  have hj := exists_newId hq
  refine ⟨_, _, _, _, getElem?_clusters.2 ⟨old, p, hi, hp, rfl⟩,
    getElem?_clusters.2 ⟨old', q, hj, hq, rfl⟩, (mem_tables_iff hnd hmax hp hfi).2 hfip,
    (mem_tables_iff hnd hmax hq hti).2 htiq, ?_⟩
  intro k e hk
  obtain ⟨o, r, ho, hr, rfl⟩ := getElem?_clusters.1 hk
  -- The ends lie in this partition when it is theirs.
  have hfr : fi ∈ r ↔ o = old := by
    constructor
    · exact fun hmem => part_unique hparts hr hp hmem hfip
    · rintro rfl
      rw [Option.some.inj (hr.symm.trans hp)]
      exact hfip
  have htr : ti ∈ r ↔ o = old' := by
    constructor
    · exact fun hmem => part_unique hparts hr hq hmem htiq
    · rintro rfl
      rw [Option.some.inj (hr.symm.trans hq)]
      exact htiq
  rw [mem_internalFks_iff hnd hfi hti, mem_crossFks_iff hnd hfi hti, hfr, htr, Ne,
    newId_eq_iff hi hj, newId_eq_iff ho hi, newId_eq_iff ho hj]
  constructor
  · constructor
    · rintro ⟨-, h1, h2⟩
      exact ⟨h1.symm.trans h2, h1⟩
    · rintro ⟨h1, h2⟩
      exact ⟨hcand, h2, h2.trans h1⟩
  · constructor
    · rintro ⟨-, ⟨h1, h2⟩ | ⟨h1, h2⟩⟩
      · exact ⟨fun heq => h2 (h1.trans heq), inl h1⟩
      · exact ⟨fun heq => h1 (h2.trans heq.symm), inr h2⟩
    · rintro ⟨hne, h | h⟩
      · exact ⟨hcand, inl ⟨h, fun heq => hne (h.symm.trans heq)⟩⟩
      · exact ⟨hcand, inr ⟨fun heq => hne (heq.symm.trans h), h⟩⟩

theorem clusterTables_levels : (clusterTables schema implied maxSize).levels.flatten.Perm
      (range (clusterTables schema implied maxSize).clusters.length) := by
  rw [clusterTables_eq]
  simp only [length_map, length_zipIdx]
  rw [← map_flatten]
  have hself : (idOrder schema implied maxSize).map (idOrder schema implied maxSize).idxOf =
      range (idOrder schema implied maxSize).length := by
    refine ext_getElem (by simp) fun i hi hi' => ?_
    rw [getElem_map, getElem_range, (idOrder_nodup schema implied maxSize).idxOf_getElem]
  exact Perm.of_eq hself

/-! ## The order of the levels -/

theorem references_iff (hnd : (tableNames schema).Nodup) (hmax : 1 ≤ maxSize)
    (hk : (idOrder schema implied maxSize)[k]? = some old)
    (hk' : (idOrder schema implied maxSize)[k']? = some old') :
    (clusterTables schema implied maxSize).References k k' ↔
      PartRefers schema implied maxSize old old' := by
  rw [ClusterPlan.References, PartRefers, Ne, newId_eq_iff hk hk']
  refine and_congr_right fun hne => ?_
  have hparts := partitions_nodup schema implied hmax
  constructor
  · rintro ⟨c, d, hc, hd, fk, hfk, hfrom, hto⟩
    obtain ⟨o, p, ho, hp, rfl⟩ := getElem?_clusters.1 hc
    obtain ⟨o', q, ho', hq, rfl⟩ := getElem?_clusters.1 hd
    obtain rfl := Option.some.inj (ho.symm.trans hk)
    obtain rfl := Option.some.inj (ho'.symm.trans hk')
    obtain ⟨hcand, fi, ti, hfi, hti⟩ := exists_ends_of_mem_crossFks hnd hfk
    exact ⟨p, q, hp, hq, fk, hcand, fi, (mem_tables_iff hnd hmax hp hfi).1 hfrom, ti,
      (mem_tables_iff hnd hmax hq hti).1 hto, hfi, hti⟩
  · rintro ⟨p, q, hp, hq, fk, hcand, fi, hfip, ti, htiq, hfi, hti⟩
    refine ⟨_, _, getElem?_clusters.2 ⟨old, p, hk, hp, rfl⟩,
      getElem?_clusters.2 ⟨old', q, hk', hq, rfl⟩, fk, ?_,
      (mem_tables_iff hnd hmax hp hfi).2 hfip, (mem_tables_iff hnd hmax hq hti).2 htiq⟩
    rw [mem_crossFks_iff hnd hfi hti]
    exact ⟨hcand, inl ⟨hfip, fun hmem => hne (part_unique hparts hp hq hmem htiq)⟩⟩

/-- The old id at a place of the order. -/
def oldIdAt (schema : SourceSchema) (implied : List ImpliedRelationship) (maxSize k : Nat) : Nat :=
  (idOrder schema implied maxSize).getD k 0

section

variable (hk : (idOrder schema implied maxSize)[k]? = some old)
include hk

theorem oldIdAt_eq : oldIdAt schema implied maxSize k = old := by
  rw [oldIdAt, getD_eq_getElem?_getD, hk, Option.getD_some]

theorem idxOf_idOrder_eq : (idOrder schema implied maxSize).idxOf old = k := by
  obtain ⟨hlt, rfl⟩ := List.getElem?_eq_some_iff.1 hk
  exact (idOrder_nodup schema implied maxSize).idxOf_getElem k hlt

/-- Levels under the new ids and under the old ones. -/
theorem earlier_levels_iff (hk' : (idOrder schema implied maxSize)[k']? = some old') :
    Earlier (clusterTables schema implied maxSize).levels k' k ↔
      Earlier (partLevels schema implied maxSize) old' old := by
  let newId : Nat → Nat := fun old => (idOrder schema implied maxSize).idxOf old
  let oldId : Nat → Nat := oldIdAt schema implied maxSize
  have hlevels : (clusterTables schema implied maxSize).levels =
      (partLevels schema implied maxSize).map fun level => level.map newId := by
    rw [clusterTables_eq]
  have hback : (partLevels schema implied maxSize).map
      (fun level => (level.map newId).map oldId) = partLevels schema implied maxSize := by
    conv_rhs => rw [← map_id (partLevels schema implied maxSize)]
    refine map_congr_left fun level hlevel => ?_
    rw [map_map]
    conv_rhs => rw [id, ← map_id level]
    refine map_congr_left fun o ho => ?_
    have hmem : o ∈ idOrder schema implied maxSize := mem_flatten.2 ⟨level, hlevel, ho⟩
    exact oldIdAt_eq (getElem?_idxOf hmem)
  rw [hlevels]
  constructor
  · intro h
    have hmap := h.map oldId
    rw [map_map, show oldId k = old from oldIdAt_eq hk,
      show oldId k' = old' from oldIdAt_eq hk'] at hmap
    change Earlier ((partLevels schema implied maxSize).map
      fun level => (level.map newId).map oldId) old' old at hmap
    rw [hback] at hmap
    exact hmap
  · intro h
    have hmap := h.map newId
    rw [show newId old = k from idxOf_idOrder_eq hk,
      show newId old' = k' from idxOf_idOrder_eq hk'] at hmap
    exact hmap

end

theorem lt_of_partRefers {j : Nat} (h : PartRefers schema implied maxSize i j) :
    i < (tablePartitions schema implied maxSize).length ∧
      j < (tablePartitions schema implied maxSize).length := by
  obtain ⟨-, p, q, hp, hq, -⟩ := h
  exact ⟨(List.getElem?_eq_some_iff.1 hp).1, (List.getElem?_eq_some_iff.1 hq).1⟩

theorem transGen_references_iff (hnd : (tableNames schema).Nodup) (hmax : 1 ≤ maxSize)
    (hk : (idOrder schema implied maxSize)[k]? = some old)
    (hk' : (idOrder schema implied maxSize)[k']? = some old') :
    Relation.TransGen (clusterTables schema implied maxSize).References k k' ↔
      Relation.TransGen (PartRefers schema implied maxSize) old old' := by
  have hforward : ∀ a b, (clusterTables schema implied maxSize).References a b →
      PartRefers schema implied maxSize (oldIdAt schema implied maxSize a)
        (oldIdAt schema implied maxSize b) := by
    intro a b href
    obtain ⟨-, c, d, hc, hd, -⟩ := id href
    obtain ⟨o, -, ho, -⟩ := getElem?_clusters.1 hc
    obtain ⟨o', -, ho', -⟩ := getElem?_clusters.1 hd
    rw [oldIdAt_eq ho, oldIdAt_eq ho']
    exact (references_iff hnd hmax ho ho').1 href
  have hbackward : ∀ a b, PartRefers schema implied maxSize a b →
      (clusterTables schema implied maxSize).References
        ((idOrder schema implied maxSize).idxOf a)
        ((idOrder schema implied maxSize).idxOf b) := by
    intro a b href
    obtain ⟨ha, hb⟩ := lt_of_partRefers href
    exact (references_iff hnd hmax (exists_newId (getElem?_eq_getElem ha))
      (exists_newId (getElem?_eq_getElem hb))).2 href
  have hiff := transGen_iff_of_renaming hforward hbackward (a := k) (b := k')
    (by rw [oldIdAt_eq hk, idxOf_idOrder_eq hk]) (by rw [oldIdAt_eq hk', idxOf_idOrder_eq hk'])
  rw [hiff, oldIdAt_eq hk, oldIdAt_eq hk']

/-- A cluster that another references stands in an earlier level exactly when its
partition is not behind a cycle. -/
theorem earlier_iff_not_behind (hnd : (tableNames schema).Nodup) (hmax : 1 ≤ maxSize) {j : Nat}
    (h : PartRefers schema implied maxSize i j) : Earlier (partLevels schema implied maxSize) j i ↔
      ¬ Behind (PartRefers schema implied maxSize) j := by
  rw [← refers_iff hnd hmax] at h ⊢
  exact parallelLevels_earlier_iff _ _ h

/-- The order asked of a schedule, in terms of the partitions. -/
theorem order_iff (hnd : (tableNames schema).Nodup) (hmax : 1 ≤ maxSize) :
    (∀ i j, (clusterTables schema implied maxSize).References i j →
      ¬ Relation.TransGen (clusterTables schema implied maxSize).References j i →
        Earlier (clusterTables schema implied maxSize).levels j i) ↔
      NoneBehindCycle schema implied maxSize := by
  constructor
  · intro h i j hij hback
    obtain ⟨hi, hj⟩ := lt_of_partRefers hij
    have hnewi := exists_newId (getElem?_eq_getElem hi)
    have hnewj := exists_newId (getElem?_eq_getElem hj)
    have hearlier := h _ _ ((references_iff hnd hmax hnewi hnewj).2 hij)
      fun hreach => hback ((transGen_references_iff hnd hmax hnewj hnewi).1 hreach)
    rw [earlier_levels_iff hnewi hnewj] at hearlier
    exact (earlier_iff_not_behind hnd hmax hij).1 hearlier
  · intro h k k' href hback
    obtain ⟨-, c, d, hc, hd, -⟩ := id href
    obtain ⟨old, -, hk, -⟩ := getElem?_clusters.1 hc
    obtain ⟨old', -, hk', -⟩ := getElem?_clusters.1 hd
    have hrefers := (references_iff hnd hmax hk hk').1 href
    rw [earlier_levels_iff hk hk', earlier_iff_not_behind hnd hmax hrefers]
    refine h old old' hrefers fun hreach => hback ?_
    exact (transGen_references_iff hnd hmax hk' hk).2 hreach

end

/-- The plan is a correct schedule exactly when no cluster references, without
being referenced back, one that stands behind a cycle of references. -/
theorem clusterTables_correct_iff (schema : SourceSchema) (implied : List ImpliedRelationship)
    (maxSize : Nat) (hnd : (tableNames schema).Nodup) (hmax : 1 ≤ maxSize) :
    CorrectSchedule schema implied maxSize (clusterTables schema implied maxSize) ↔
      NoneBehindCycle schema implied maxSize := by
  rw [← order_iff hnd hmax]
  constructor
  · exact fun h => h.order
  · intro h
    exact
      { ids := by
          intro i c hc
          obtain ⟨_, _, _, _, rfl⟩ := getElem?_clusters.1 hc
          rfl
        tables := clusterTables_tables hmax
        size := fun _ hc => clusterTables_size hmax hc
        connected := fun _ hc _ ht _ hu => clusterTables_connected hnd hmax hc ht hu
        foreignKeys := fun _ hfk => clusterTables_listsOnce hnd hmax hfk
        levels := clusterTables_levels
        order := h }

/-! Employees belong to departments, which are managed by employees, and payslips
belong to employees. -/

def payroll : SourceSchema where
  sourceType := "postgresql"
  tables := [⟨"employees", [], []⟩, ⟨"departments", [], []⟩, ⟨"payslips", [], []⟩]
  foreignKeys :=
    [⟨"employees", "department_id", "departments", "id", false⟩,
      ⟨"departments", "manager_id", "employees", "id", false⟩,
      ⟨"payslips", "employee_id", "employees", "id", false⟩]

theorem payroll_correct_iff :
    CorrectSchedule payroll [] 1 (clusterTables payroll [] 1) ↔ NoneBehindCycle payroll [] 1 :=
  clusterTables_correct_iff payroll [] 1 (by decide) (by decide)

/-- With clusters of one table each table is a partition of its own. -/
theorem payroll_part {i : Nat} (hi : i < (tableNames payroll).length) :
    ∃ k : Nat, (tablePartitions payroll [] 1)[k]? = some [i] := by
  obtain ⟨k, p, hp, hip⟩ := exists_part [] (Nat.le_refl 1) hi
  have hsize := length_le_of_mem_partitions (Nat.le_refl 1) (mem_of_getElem? hp)
  refine ⟨k, ?_⟩
  match p, hip, hsize with
  | [j], hip, _ =>
    rw [hp, mem_singleton.1 hip]

/-- Payslips are laid out beside the employees that they reference. -/
theorem payslips_beside_employees :
    ¬ CorrectSchedule payroll [] 1 (clusterTables payroll [] 1) := by
  intro h
  have hnone := (order_iff (by decide) (Nat.le_refl 1)).1 h.order
  have hparts := partitions_nodup payroll [] (Nat.le_refl 1)
  obtain ⟨e, he⟩ := payroll_part (i := 0) (by decide)
  obtain ⟨d, hd⟩ := payroll_part (i := 1) (by decide)
  obtain ⟨s, hs⟩ := payroll_part (i := 2) (by decide)
  have hdistinct : ∀ {i j a b : Nat}, a ≠ b → (tablePartitions payroll [] 1)[i]? = some [a] →
      (tablePartitions payroll [] 1)[j]? = some [b] → i ≠ j := by
    rintro i j a b hab hi hj rfl
    exact hab (singleton_inj.1 (Option.some.inj (hi.symm.trans hj)))
  have hed : PartRefers payroll [] 1 e d :=
    ⟨hdistinct (by decide) he hd, [0], [1], he, hd, _, .head _, 0, .head _, 1, .head _, rfl, rfl⟩
  have hde : PartRefers payroll [] 1 d e :=
    ⟨hdistinct (by decide) hd he, [1], [0], hd, he, _, .tail _ (.head _), 1, .head _, 0, .head _,
      rfl, rfl⟩
  have hse : PartRefers payroll [] 1 s e :=
    ⟨hdistinct (by decide) hs he, [2], [0], hs, he, _, .tail _ (.tail _ (.head _)), 2, .head _,
      0, .head _, rfl, rfl⟩
  refine hnone s e hse ?_ ⟨e, .refl, (Relation.TransGen.single hed).tail hde⟩
  -- No foreign key leads to the payslips.
  intro hreach
  obtain ⟨x, -, -, p, q, -, hq, fk, hfk, fi, -, ti, hti, -, hto⟩ :=
    Relation.TransGen.tail'_iff.1 hreach
  have hslips : ti = 2 := by
    rw [← Option.some.inj (hs.symm.trans hq)] at hti
    exact mem_singleton.1 hti
  rw [hslips] at hto
  have hname : fk.toTable = "payslips" := (Option.some.inj hto).symm
  have hall : ∀ fk ∈ candidateFks payroll [], fk.toTable ≠ "payslips" := by decide
  exact hall fk hfk hname

end Ontosyx.Design
