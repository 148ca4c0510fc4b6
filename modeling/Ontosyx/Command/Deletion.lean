import Ontosyx.Command.Execute
import Ontosyx.Ontology.Validity

/-!
# Deleting a list of entries

Deletions of entries that are there go through one after the other, and leave the entries of
other ids.  A node takes along its edges, their link mappings, and its own indexes and object
mappings.

## Main results

* `execute_batch_iff` — when a batch is executed, and with what result.
* `Deletes.runAll` — entries that are there are deleted one after the other.
-/

namespace Ontosyx.Command

open List Ontology Lib.Keyed

/-- The ontology that a list of commands leads to, if none of them fails. -/
def runAll (commands : List OntologyCommand) (ont : OntologyIR) : Option OntologyIR :=
  commands.foldlM (fun current command =>
    (command.executeInner current).toOption.map (·.newOntology)) ont

theorem runAll_append (cs ds : List OntologyCommand) (ont : OntologyIR) :
    runAll (cs ++ ds) ont = (runAll cs ont).bind (runAll ds) := foldlM_append

theorem runAll_cons (c : OntologyCommand) (cs : List OntologyCommand) (ont : OntologyIR) :
    runAll (c :: cs) ont =
      ((c.executeInner ont).toOption.map (·.newOntology)).bind (runAll cs) := rfl

/-- The loop of a batch leads there. -/
theorem executeAll_toOption (i : ℕ) (cs : List OntologyCommand) (ont : OntologyIR) :
    (OntologyCommand.executeAll i cs ont).toOption.map Prod.fst = runAll cs ont := by
  induction cs generalizing i ont with
  | nil => rfl
  | cons c cs ih =>
    rw [runAll_cons, OntologyCommand.executeAll]
    dsimp only
    cases hc : c.executeInner ont with
    | error e => rfl
    | ok result =>
      dsimp only
      show _ = runAll cs result.newOntology
      rw [← ih (i + 1) result.newOntology]
      cases hrest : OntologyCommand.executeAll (i + 1) cs result.newOntology with
      | error e => rfl
      | ok rest => rfl

/-- A batch is executed when its commands lead to an ontology that passes. -/
theorem execute_batch_iff {description : String} {commands : List OntologyCommand}
    {ont o' : OntologyIR} :
    (∃ result, (OntologyCommand.batch description commands).execute ont = .ok result ∧
        result.newOntology = o') ↔ runAll commands ont = some o' ∧ o'.Indexed ∧ o'.Clean := by
  have hinner : (OntologyCommand.batch description commands).executeInner ont =
      (OntologyCommand.executeAll 0 commands ont).map fun rest =>
        { newOntology := rest.1, inverse := .batch ("undo: " ++ description) rest.2 } := by
    rw [OntologyCommand.executeInner]
    rfl
  rw [← executeAll_toOption 0, ← o'.validate_nil_iff, ← o'.rebuild_ok_iff]
  unfold OntologyCommand.execute
  rw [hinner]
  cases OntologyCommand.executeAll 0 commands ont with
  | error e => simp [Except.map, Except.toOption]
  | ok rest =>
    obtain ⟨current, inverses⟩ := rest
    simp only [Except.map, Except.toOption, Option.map_some, Option.some.injEq]
    constructor
    · rintro ⟨result, hresult, rfl⟩
      cases hindices : current.rebuildIndices with
      | error e =>
        rw [hindices] at hresult
        cases hresult
      | ok _ =>
        rw [hindices] at hresult
        dsimp only at hresult
        split at hresult
        · rename_i hvalid
          cases hresult
          exact ⟨rfl, hindices, hvalid⟩
        · cases hresult
    · rintro ⟨rfl, hindices, hvalid⟩
      refine ⟨{ newOntology := current
                inverse := .batch ("undo: " ++ description) inverses }, ?_, rfl⟩
      rw [hindices]
      exact if_pos hvalid

/-! ## Entries of other ids -/

section

variable {α κ : Type} [DecidableEq κ] {key : α → κ}

theorem eraseP_eq_filter {xs : List α} (hnd : (xs.map key).Nodup) (k : κ) :
    xs.eraseP (fun x => key x = k) = xs.filter fun x => key x ≠ k := by
  induction xs with
  | nil => rfl
  | cons x xs ih =>
    rw [map_cons, nodup_cons] at hnd
    by_cases hx : key x = k
    · have hnone : ∀ y ∈ xs, key y ≠ k := by
        rintro y hy rfl
        exact hnd.1 (hx ▸ mem_map_of_mem hy)
      rw [eraseP_cons_of_pos (by simpa using hx),
        filter_cons_of_neg (by simpa using hx), filter_eq_self.2 (by simpa using hnone)]
    · rw [eraseP_cons_of_neg (by simpa using hx),
        filter_cons_of_pos (by simpa using hx), ih hnd.2]

/-- An entry is taken out of those with distinct ids. -/
theorem takeFirst_of_mem {xs : List α} (hnd : (xs.map key).Nodup) {k : κ} (hk : k ∈ xs.map key) :
    ∃ x, takeFirst key k xs = some (x, xs.filter fun x => key x ≠ k) := by
  cases hfirst : first key k xs with
  | none => exact absurd hk ((first_none_iff key).1 hfirst)
  | some x => exact ⟨x, by rw [takeFirst, hfirst, Option.map_some, eraseP_eq_filter hnd]⟩

theorem takeFirst_none_iff {xs : List α} {k : κ} :
    takeFirst key k xs = none ↔ k ∉ xs.map key := by
  rw [takeFirst, Option.map_eq_none_iff, first_none_iff]

end

structure Deletes {κ : Type} (command : κ → OntologyCommand) (present : OntologyIR → κ → Prop)
    (without : OntologyIR → List κ → OntologyIR) : Prop where
  nil : ∀ o, without o [] = o
  cons : ∀ o k ks, without (without o [k]) ks = without o (k :: ks)
  step : ∀ o k, present o k →
    ((command k).executeInner o).toOption.map (·.newOntology) = some (without o [k])
  keep : ∀ o j k, j ≠ k → present o k → present (without o [j]) k

/-- Entries that are there are deleted one after the other. -/
theorem Deletes.runAll {κ : Type} {command : κ → OntologyCommand}
    {present : OntologyIR → κ → Prop} {without : OntologyIR → List κ → OntologyIR}
    (hdeletes : Deletes command present without) {o : OntologyIR} {ks : List κ} (hks : ks.Nodup)
    (h : ∀ k ∈ ks, present o k) : runAll (ks.map command) o = some (without o ks) := by
  induction ks generalizing o with
  | nil => exact congrArg some (hdeletes.nil o).symm
  | cons k ks ih =>
    rw [nodup_cons] at hks
    rw [forall_mem_cons] at h
    rw [map_cons, runAll_cons, hdeletes.step o k h.1, Option.bind_some, ih hks.2, hdeletes.cons]
    intro j hj
    apply hdeletes.keep o k j _ (h.2 j hj)
    rintro rfl
    exact hks.1 hj

def Present {α κ : Type} (key : α → κ) (xs : List α) (k : κ) : Prop :=
  (xs.map key).Nodup ∧ k ∈ xs.map key

section

variable {α κ : Type} [DecidableEq κ] {key : α → κ} {xs : List α}

theorem filter_notMem_nil : (xs.filter fun x => key x ∉ ([] : List κ)) = xs := by
  simp

theorem filter_notMem_cons (k : κ) (ks : List κ) :
    (xs.filter fun x => key x ∉ [k]).filter (fun x => key x ∉ ks) =
      xs.filter fun x => key x ∉ k :: ks := by
  rw [filter_filter]
  apply filter_congr
  intro x _
  simp [Bool.and_comm]

theorem Present.takeFirst {k : κ} (h : Present key xs k) :
    ∃ x, takeFirst key k xs = some (x, xs.filter fun x => key x ∉ [k]) := by
  obtain ⟨x, hx⟩ := takeFirst_of_mem h.1 h.2
  refine ⟨x, hx.trans ?_⟩
  simp only [ne_eq, mem_singleton]

omit [DecidableEq κ] in
theorem Present.filter {k : κ} (h : Present key xs k) {p : α → Bool}
    (hp : ∀ x ∈ xs, key x = k → p x = true) : Present key (xs.filter p) k := by
  refine ⟨h.1.sublist (filter_sublist.map key), ?_⟩
  obtain ⟨x, hx, rfl⟩ := mem_map.1 h.2
  exact mem_map_of_mem (mem_filter.2 ⟨hx, hp x hx rfl⟩)

end

def withoutObjectMappings (o : OntologyIR) (ids : List ObjectMappingId) : OntologyIR :=
  { o with objectMappings := o.objectMappings.filter fun m => m.id ∉ ids }

def withoutLinkMappings (o : OntologyIR) (ids : List LinkMappingId) : OntologyIR :=
  { o with linkMappings := o.linkMappings.filter fun m => m.id ∉ ids }

theorem deletes_objectMappings :
    Deletes .deleteObjectMapping (fun o => Present (·.id) o.objectMappings)
      withoutObjectMappings where
  nil o := by
    unfold withoutObjectMappings
    rw [filter_notMem_nil]
  cons o k ks := by
    unfold withoutObjectMappings
    rw [filter_notMem_cons]
  step o k h := by
    obtain ⟨x, hx⟩ := h.takeFirst
    rw [OntologyCommand.executeInner, deleteObjectMapping, hx]
    rfl
  keep o j k hjk h := h.filter fun m _ hm => by simpa [hm] using Ne.symm hjk

theorem deletes_linkMappings :
    Deletes .deleteLinkMapping (fun o => Present (·.id) o.linkMappings) withoutLinkMappings where
  nil o := by
    unfold withoutLinkMappings
    rw [filter_notMem_nil]
  cons o k ks := by
    unfold withoutLinkMappings
    rw [filter_notMem_cons]
  step o k h := by
    obtain ⟨x, hx⟩ := h.takeFirst
    rw [OntologyCommand.executeInner, deleteLinkMapping, hx]
    rfl
  keep o j k hjk h := h.filter fun m _ hm => by simpa [hm] using Ne.symm hjk

def EndsIn (nodeIds : List NodeTypeId) (e : EdgeTypeDef) : Prop :=
  e.sourceNodeId ∈ nodeIds ∨ e.targetNodeId ∈ nodeIds

instance (nodeIds : List NodeTypeId) (e : EdgeTypeDef) : Decidable (EndsIn nodeIds e) :=
  inferInstanceAs (Decidable (_ ∨ _))

/-- Without some nodes, the edges with an end there and what is attached to either. -/
def withoutNodes (o : OntologyIR) (ids : List NodeTypeId) : OntologyIR :=
  { o with
    nodeTypes := o.nodeTypes.filter fun n => n.id ∉ ids
    edgeTypes := o.edgeTypes.filter fun e => ¬ EndsIn ids e
    linkMappings := o.linkMappings.filter fun m =>
      m.edgeTypeId ∉ (o.edgeTypes.filter fun e => EndsIn ids e).map (·.id)
    indexes := o.indexes.filter fun idx => idx.indexNodeId ∉ ids
    objectMappings := o.objectMappings.filter fun m => m.nodeTypeId ∉ ids }

def withoutEdges (o : OntologyIR) (ids : List EdgeTypeId) : OntologyIR :=
  { o with
    edgeTypes := o.edgeTypes.filter fun e => e.id ∉ ids
    linkMappings := o.linkMappings.filter fun m => m.edgeTypeId ∉ ids }

theorem deletes_edges : Deletes .deleteEdge (fun o => Present (·.id) o.edgeTypes) withoutEdges where
  nil o := by
    unfold withoutEdges
    rw [filter_notMem_nil, filter_notMem_nil]
  cons o k ks := by
    unfold withoutEdges
    rw [filter_notMem_cons, filter_notMem_cons]
  step o k h := by
    obtain ⟨x, hx⟩ := h.takeFirst
    rw [OntologyCommand.executeInner, deleteEdge, hx]
    simp only [withoutEdges, mem_singleton]
    rfl
  keep o j k hjk h := h.filter fun m _ hm => by simpa [hm] using Ne.symm hjk

theorem deletes_nodes : Deletes .deleteNode (fun o => Present (·.id) o.nodeTypes) withoutNodes where
  nil o := by
    unfold withoutNodes EndsIn
    simp
  cons o k ks := by
    have hends (e : EdgeTypeDef) : EndsIn (k :: ks) e ↔ EndsIn [k] e ∨ EndsIn ks e := by
      unfold EndsIn
      simp only [mem_cons, not_mem_nil, or_false]
      tauto
    unfold withoutNodes
    rw [filter_notMem_cons, filter_notMem_cons, filter_notMem_cons]
    congr 1
    · rw [filter_filter]
      apply filter_congr
      intro e _
      simp [hends, and_comm]
    · rw [filter_filter]
      apply filter_congr
      intro m _
      have hids : m.edgeTypeId ∈ (o.edgeTypes.filter fun e => EndsIn (k :: ks) e).map (·.id) ↔
          m.edgeTypeId ∈ (o.edgeTypes.filter fun e => EndsIn [k] e).map (·.id) ∨
            m.edgeTypeId ∈ ((o.edgeTypes.filter fun e => ¬ EndsIn [k] e).filter
              fun e => EndsIn ks e).map (·.id) := by
        simp only [mem_map, mem_filter, decide_eq_true_eq, hends, and_assoc]
        constructor
        · rintro ⟨e, he, hin, hid⟩
          by_cases hk : EndsIn [k] e
          · exact .inl ⟨e, he, hk, hid⟩
          · exact .inr ⟨e, he, hk, hin.resolve_left hk, hid⟩
        · rintro (⟨e, he, hk, hid⟩ | ⟨e, he, -, hks, hid⟩)
          · exact ⟨e, he, .inl hk, hid⟩
          · exact ⟨e, he, .inr hks, hid⟩
      rw [← Bool.decide_and, decide_eq_decide, hids, not_or, and_comm]
  step o k h := by
    obtain ⟨x, hx⟩ := h.takeFirst
    rw [OntologyCommand.executeInner, deleteNode, hx]
    have hends (e : EdgeTypeDef) : EndsIn [k] e ↔ EndsAt k e := by
      unfold EndsIn EndsAt
      rw [mem_singleton, mem_singleton]
    simp only [withoutNodes, hends, mem_singleton, ne_eq, decide_not]
    rfl
  keep o j k hjk h := h.filter fun m _ hm => by simpa [hm] using Ne.symm hjk

end Ontosyx.Command
