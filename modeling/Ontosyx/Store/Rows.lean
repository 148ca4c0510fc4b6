import Ontosyx.Store.ReadBack

/-!
# The rows of a version

What is read of a version: a row for every entity, and of every row the entity when it reads
back as it was written.

## Main results

* `joinRows_commit` — the rows that are read of a version.
* `forall₂_vector` — what is read of the rows, kind by kind.
-/

namespace Ontosyx.Store

open List Ontosyx.Core Ontology Lib.Checked Lib.Keyed Lib.Positions StoredEntity

/-! ## Entities by kind -/

variable {es : List StoredEntity} {kind : EntityKind}

section

theorem ofKind_self (kind : EntityKind) (d : kind.Payload) :
    ofKind kind ⟨kind, d⟩ = some d := dif_pos rfl

theorem ofKind_of_ne {kind' : EntityKind} (hne : kind' ≠ kind) (d : kind'.Payload) :
    ofKind kind ⟨kind', d⟩ = none := dif_neg hne

theorem ofKind_eq_some_iff {d : kind.Payload} {e : StoredEntity} :
    ofKind kind e = some d ↔ e = ⟨kind, d⟩ := by
  obtain ⟨kind', d'⟩ := e
  by_cases hkind : kind' = kind
  · subst hkind
    rw [ofKind_self, Option.some.injEq, mk.injEq, heq_eq_eq, and_iff_right rfl]
  · rw [ofKind_of_ne hkind, mk.injEq]
    exact iff_of_false nofun fun h => hkind h.1

theorem mem_vector {d : kind.Payload} : d ∈ vector es kind ↔ ⟨kind, d⟩ ∈ es := by
  unfold vector
  simp only [mem_filterMap, ofKind_eq_some_iff, exists_eq_right]

theorem vector_extract_self (ir : OntologyIR) (kind : EntityKind) :
    vector (extractCollection ir kind) kind = kind.collection ir := by
  unfold vector extractCollection
  rw [filterMap_map, show ofKind kind ∘ mk kind = some from
    funext (ofKind_self kind), filterMap_some]

theorem vector_extract_of_ne {kind' : EntityKind} (hne : kind' ≠ kind) (ir : OntologyIR) :
    vector (extractCollection ir kind') kind = [] := by
  unfold vector extractCollection
  rw [filterMap_map, filterMap_eq_nil_iff]
  exact fun d _ => ofKind_of_ne hne d

theorem vector_extractEntities (ir : OntologyIR) (kind : EntityKind) :
    vector (extractEntities ir) kind = kind.collection ir := by
  have hflat (kinds : List EntityKind) :
      vector (kinds.flatMap (extractCollection ir)) kind =
        kinds.flatMap fun kind' => vector (extractCollection ir kind') kind := by
    unfold vector
    rw [filterMap_flatMap]
  unfold extractEntities
  rw [hflat]
  cases kind <;>
    simp [vector_extract_self, vector_extract_of_ne, EntityKind.collection]

theorem filter_kind (kind : EntityKind) :
    es.filter (fun e => e.kind = kind) = (vector es kind).map (mk kind) := by
  induction es with
  | nil => rfl
  | cons e es ih =>
    obtain ⟨kind', d⟩ := e
    unfold vector at ih ⊢
    by_cases hkind : kind' = kind
    · subst hkind
      rw [filter_cons_of_pos (by simp), filterMap_cons_some (ofKind_self _ d), map_cons, ih]
    · rw [filter_cons_of_neg (by simpa using hkind),
        filterMap_cons_none (ofKind_of_ne hkind d), ih]

end

section

variable {Json Hash : Type} [DecidableEq Hash] {wire : Wire Json Hash}

def StoredEntity.row (wire : Wire Json Hash) (e : StoredEntity) : OntologyEntityJoinRow Json where
  entityKind := e.kind.asStr
  entityLogicalId := e.logicalId
  content := wire.encode e

theorem mem_insert (contents : Contents wire) (content : Json) :
    (wire.hash content, content) ∈ (contents.insert content).rows := by
  unfold Contents.insert
  split
  · rename_i hmem
    obtain ⟨r, hr, heq⟩ := mem_map.1 hmem
    have hcontent : r.2 = content := wire.hash_injective ((contents.hash_eq r hr).trans heq)
    rw [← heq, ← hcontent]
    exact hr
  · exact mem_append_right _ (mem_singleton_self _)

theorem subset_insert (contents : Contents wire) (content : Json) :
    contents.rows ⊆ (contents.insert content).rows := by
  unfold Contents.insert
  split
  · exact Subset.refl _
  · exact subset_append_left _ _

theorem mem_foldl_insert {written : List Json} {content : Json} (hcontent : content ∈ written)
    (contents : Contents wire) :
    (wire.hash content, content) ∈ (written.foldl Contents.insert contents).rows := by
  have hkeep (written : List Json) (contents : Contents wire) :
      contents.rows ⊆ (written.foldl Contents.insert contents).rows := by
    induction written generalizing contents with
    | nil => exact Subset.refl _
    | cons c written ih => exact Subset.trans (subset_insert contents c) (ih _)
  induction written generalizing contents with
  | nil => cases hcontent
  | cons c written ih =>
    rcases mem_cons.1 hcontent with rfl | hcontent
    · exact hkeep written _ (mem_insert contents content)
    · exact ih hcontent _

theorem filter_key_eq {α κ : Type} [DecidableEq κ] {key : α → κ} {xs : List α}
    (hnd : (xs.map key).Nodup) {x : α} (hx : x ∈ xs) :
    xs.filter (fun y => key y = key x) = [x] := by
  induction xs with
  | nil => cases hx
  | cons y xs ih =>
    rw [map_cons, nodup_cons] at hnd
    rcases mem_cons.1 hx with rfl | hx
    · have hnone : xs.filter (fun y => key y = key x) = [] := by
        rw [filter_eq_nil_iff]
        intro y hy
        have hne : key y ≠ key x := fun heq => hnd.1 (heq ▸ mem_map_of_mem hy)
        simpa using hne
      rw [filter_cons_of_pos (by simp), hnone]
    · have hne : key y ≠ key x := fun heq => hnd.1 (heq ▸ mem_map_of_mem hx)
      rw [filter_cons_of_neg (by simpa using hne), ih hnd.2 hx]

theorem joinRows_commit {contents contents' : Contents wire} {ir : OntologyIR}
    {pointers : List (EntityPointer Hash)}
    (h : commitVersion wire contents ir = some (pointers, contents')) :
    ((extractEntities ir).map fun e => (e.kind, e.logicalId)).Nodup ∧
      joinRows wire pointers contents' = (extractEntities ir).map (row wire) := by
  unfold commitVersion at h
  dsimp only at h
  split at h
  · rename_i hnd
    cases h
    refine ⟨hnd, ?_⟩
    have hrow (e : StoredEntity) (he : e ∈ extractEntities ir) :
        (((extractEntities ir).map wire.encode).foldl Contents.insert contents).rows.filter
          (fun r => r.1 = wire.hash (wire.encode e)) =
            [(wire.hash (wire.encode e), wire.encode e)] :=
      filter_key_eq (Contents.distinct _) (mem_foldl_insert (mem_map_of_mem he) contents)
    unfold joinRows
    rw [flatMap_map, show (extractEntities ir).map (row wire) =
      (extractEntities ir).flatMap fun e => [e.row wire] from map_eq_flatMap]
    refine flatMap_congr fun e he => ?_
    rw [show (pointer wire e).entityHash = wire.hash (wire.encode e) from rfl,
      hrow e he]
    rfl
  · cases h

/-! ## Reading the rows -/

def ReadsBack (wire : Wire Json Hash) (e : StoredEntity) : Prop :=
  wire.decode e.kind (wire.encode e) = some e.payload

omit [DecidableEq Hash] in
theorem readRow_row (e : StoredEntity) :
    readRow wire (e.row wire) =
      if e.kind = .ontologyHeader then .ok [] else readContent wire e.kind (wire.encode e) := by
  obtain ⟨kind, d⟩ := e
  unfold readRow row
  rw [EntityKind.parse_asStr]
  cases kind <;> first | exact Empty.elim d | simp

omit [DecidableEq Hash] in
theorem readContent_ok_iff {content : Json} : readContent wire kind content = .ok es ↔
      ∃ d, wire.decode kind content = some d ∧ es = [⟨kind, d⟩] := by
  unfold readContent
  cases wire.decode kind content with
  | none => simp
  | some d => simp [eq_comm]

omit [DecidableEq Hash] in
theorem forall₂_vector {ls : List (List StoredEntity)}
    (h : (es.map (row wire)).mapM (readRow wire) = .ok ls)
    (hkind : kind ≠ .ontologyHeader) :
    List.Forall₂ (fun d d' => wire.decode kind (wire.encode ⟨kind, d⟩) = some d')
      (vector es kind) (vector ls.flatten kind) := by
  rw [mapM_eq_ok_iff, forall₂_map_left_iff] at h
  induction h with
  | nil => exact .nil
  | @cons e l es ls hread _ ih =>
    obtain ⟨kind', d⟩ := e
    rw [readRow_row] at hread
    have hsplit : vector (l :: ls).flatten kind = vector l kind ++ vector ls.flatten kind := by
      rw [flatten_cons, vector, filterMap_append]
      rfl
    rw [hsplit]
    by_cases hsame : kind' = kind
    · subst hsame
      rw [if_neg hkind] at hread
      rw [vector, filterMap_cons_some (ofKind_self _ d)]
      obtain ⟨d', hdecode, rfl⟩ := readContent_ok_iff.1 hread
      rw [vector, filterMap_cons_some (ofKind_self _ d')]
      exact .cons hdecode ih
    · have hnone : vector l kind = [] := by
        split at hread
        · cases hread
          rfl
        · obtain ⟨d', -, rfl⟩ := readContent_ok_iff.1 hread
          rw [vector, filterMap_cons_none (ofKind_of_ne hsame d')]
          rfl
      rw [hnone, vector, filterMap_cons_none (ofKind_of_ne hsame d)]
      exact ih

omit [DecidableEq Hash] in
theorem mapM_readRow_of_readsBack (h : ∀ e ∈ es, ReadsBack wire e) :
    ∃ ls, (es.map (row wire)).mapM (readRow wire) = .ok ls := by
  simp only [mapM_eq_ok_iff, exists_forall₂_iff, forall_mem_map]
  intro e he
  rw [readRow_row]
  split
  · exact ⟨_, rfl⟩
  · exact ⟨_, readContent_ok_iff.2 ⟨_, h e he, rfl⟩⟩

def headerOf (o : OntologyIR) : Header where
  id := o.id
  name := o.name
  displayName := o.displayName
  description := o.description
  version := o.version

omit [DecidableEq Hash] in
theorem filter_rows (wire : Wire Json Hash) (es : List StoredEntity) (kind : EntityKind) :
    (es.map (row wire)).filter (fun row => row.entityKind = kind.asStr) =
      (vector es kind).map fun d => row wire ⟨kind, d⟩ := by
  have hinjective (e : StoredEntity) : (e.row wire).entityKind = kind.asStr ↔ e.kind = kind := by
    refine ⟨fun h => ?_, fun h => congrArg EntityKind.asStr h⟩
    have hparse := congrArg EntityKind.parse h
    rw [EntityKind.parse_asStr, row, EntityKind.parse_asStr] at hparse
    exact Option.some.inj hparse
  have hkind : es.filter ((fun row => decide (row.entityKind = kind.asStr)) ∘
      row wire) = es.filter fun e => e.kind = kind :=
    filter_congr fun e _ => decide_eq_decide.2 (hinjective e)
  rw [filter_map, hkind, filter_kind, map_map]
  rfl

omit [DecidableEq Hash] in
theorem readHeader_rows {o : OntologyIR} (hes : es.Perm (extractEntities o)) :
    readHeader wire (es.map (row wire)) =
      match wire.decode .ontologyHeader (wire.encode ⟨.ontologyHeader, headerOf o⟩) with
      | some h => .ok h
      | none => .error (.malformed .ontologyHeader) := by
  have hvector : vector es .ontologyHeader = [headerOf o] := by
    have hperm := hes.filterMap (ofKind .ontologyHeader)
    rw [show (extractEntities o).filterMap (ofKind .ontologyHeader) = _ from
      vector_extractEntities o .ontologyHeader] at hperm
    exact perm_singleton.1 hperm
  have hrows := filter_rows wire es .ontologyHeader
  rw [hvector, map_singleton] at hrows
  unfold readHeader
  rw [hrows]
  rfl

omit [DecidableEq Hash] in
theorem hydrate_congr {h : Header} {es' : List StoredEntity}
    (hvector : ∀ kind, kind ≠ .ontologyHeader → vector es' kind = vector es kind) :
    hydrate h es' = hydrate h es ∧ assembled h es' = assembled h es := by
  unfold hydrate assembled
  simp (disch := decide) only [hvector]
  trivial

end

end Ontosyx.Store
