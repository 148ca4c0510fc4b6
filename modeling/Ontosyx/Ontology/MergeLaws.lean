import Ontosyx.Ontology.Atomicity
import Ontosyx.Ontology.Merge

/-!
# Laws of extension

An extension that goes through should be complete (every item of the other
ontology is there afterwards), conservative (nothing of the base changes but
column profiles), account for every item exactly once, and be stable (a second
extension adds nothing).  Four collections have no merge helper: concepts,
segments, provenance and the table inventory.

## Main results

* `MergeTarget.merge_spec` — what the loop over one collection does.
* `MergeTarget.merge_again` — a second loop only skips and rejects.
* `extend_extended_iff` — the laws hold exactly when those four are empty.
-/

namespace Ontosyx.Ontology

open List Ontosyx.Core Lib.Keyed Lib.Positions OntologyState

variable {rest : List MergeStep} {report' : MergeReport} {s' : OntologyState} {base : OntologyIR}
  (r : MergeReport)

namespace MergeReport

def items (r : MergeReport) : List MergedItem :=
  r.added ++ r.skipped ++ r.conflicts.map fun c => ⟨c.kind, c.id⟩

theorem items_pushAdded (e : MergedItem) : (r.pushAdded e).items.Perm (e :: r.items) := by
  simp only [items, pushAdded, append_assoc, singleton_append]
  exact perm_middle

theorem items_pushSkipped (e : MergedItem) : (r.pushSkipped e).items.Perm (e :: r.items) := by
  simp only [items, pushSkipped, append_assoc, singleton_append]
  refine (Perm.append_left _ perm_middle).trans ?_
  exact perm_middle

theorem items_pushConflict (e : MergedItem) : (r.pushConflict e).items.Perm (e :: r.items) := by
  simp only [items, pushConflict, map_append, map_singleton]
  rw [← append_assoc]
  exact perm_append_singleton _ _

end MergeReport

/-- What the loop relies on: the collection is a field, and an addition that
goes through appends to it and indexes the result. -/
structure MergeTarget.Lawful {α κ : Type} (T : MergeTarget α κ)
    (put : OntologyIR → List α → OntologyIR) : Prop where
  items_put : ∀ o xs, T.items (put o xs) = xs := by intros; rfl
  put_items : ∀ o, put o (T.items o) = o := by intros; rfl
  put_put : ∀ o xs ys, put (put o xs) ys = put o ys := by intros; rfl
  add_ok : ∀ d s, s.Agrees → (T.add d s).1 = .ok () →
    (T.add d s).2 = ofIR (put s.ir (T.items s.ir ++ [d])) ∧ (T.add d s).2.Agrees

/-- The collection has kept its entries in front and has every incoming key. -/
structure Grown {α κ : Type} (key : α → κ) (old incoming new : List α) : Prop where
  kept : old <+: new
  present : ∀ x ∈ incoming, key x ∈ new.map key

namespace MergeTarget

variable {α κ : Type} [DecidableEq κ] {T : MergeTarget α κ}
  {put : OntologyIR → List α → OntologyIR} {same : α → α → Bool}

/-- The loop keeps the entries, adds the missing keys and accounts for every
item. -/
theorem merge_spec (hT : T.Lawful put) {xs : List α} {report : MergeReport} {s : OntologyState}
    (hs : s.Agrees) (h : T.merge same xs report s = (.ok report', s')) :
    s'.Agrees ∧ (∃ ys, s'.ir = put s.ir ys ∧ Grown T.key (T.items s.ir) xs ys) ∧
      report'.items.Perm (report.items ++ xs.map T.entry) := by
  induction xs generalizing report s with
  | nil =>
    obtain ⟨hr, hs'⟩ := Prod.mk.inj h
    obtain rfl := Except.ok.inj hr
    subst hs'
    refine ⟨hs, ⟨T.items s.ir, (hT.put_items _).symm, prefix_refl _, by simp⟩, ?_⟩
    simp
  | cons x xs ih =>
    have hpush {r : MergeReport} (hr : r.items.Perm (T.entry x :: report.items))
        (h : report'.items.Perm (r.items ++ xs.map T.entry)) :
        report'.items.Perm (report.items ++ (x :: xs).map T.entry) := by
      refine h.trans ((hr.append_right _).trans ?_)
      rw [map_cons, cons_append]
      exact perm_middle.symm
    unfold MergeTarget.merge at h
    cases hfirst : first T.key (T.key x) (T.items s.ir) with
    | some existing =>
      have hthere : T.key x ∈ (T.items s.ir).map T.key := by
        by_contra hnot
        rw [(first_none_iff T.key).2 hnot] at hfirst
        cases hfirst
      have hstep {r : MergeReport} (hr : r.items.Perm (T.entry x :: report.items))
          (h : T.merge same xs r s = (.ok report', s')) :
          s'.Agrees ∧
            (∃ ys, s'.ir = put s.ir ys ∧ Grown T.key (T.items s.ir) (x :: xs) ys) ∧
            report'.items.Perm (report.items ++ (x :: xs).map T.entry) := by
        obtain ⟨hagrees, ⟨ys, hir, hgrown⟩, hperm⟩ := ih hs h
        have hx : T.key x ∈ ys.map T.key := by
          obtain ⟨y, hy, hkey⟩ := mem_map.1 hthere
          exact mem_map.2 ⟨y, hgrown.kept.subset hy, hkey⟩
        exact ⟨hagrees, ⟨ys, hir, hgrown.kept, forall_mem_cons.2 ⟨hx, hgrown.present⟩⟩,
          hpush hr hperm⟩
      simp only [hfirst] at h
      by_cases hsame : same existing x = true
      · rw [if_pos hsame] at h
        exact hstep (report.items_pushSkipped _) h
      · rw [if_neg hsame] at h
        exact hstep (report.items_pushConflict _) h
    | none =>
      simp only [hfirst] at h
      cases hadd : T.add x s with
      | mk res s₁ =>
        cases res with
        | error e => simp [hadd] at h
        | ok u =>
          simp only [hadd] at h
          obtain ⟨hs₁, hagrees₁⟩ := hT.add_ok x s hs (by rw [hadd])
          rw [hadd] at hs₁ hagrees₁
          have hir₁ : s₁.ir = put s.ir (T.items s.ir ++ [x]) := by
            have hs₁ : s₁ = _ := hs₁
            rw [hs₁]
            rfl
          obtain ⟨hagrees, ⟨ys, hir, hgrown⟩, hperm⟩ := ih hagrees₁ h
          rw [hir₁, hT.items_put] at hgrown
          rw [hir₁, hT.put_put] at hir
          have hx : T.key x ∈ ys.map T.key :=
            mem_map_of_mem (hgrown.kept.subset (by simp))
          exact ⟨hagrees, ⟨ys, hir, (prefix_append _ _).trans hgrown.kept,
            forall_mem_cons.2 ⟨hx, hgrown.present⟩⟩,
            hpush (report.items_pushAdded _) hperm⟩

/-- When every key is there the loop changes nothing and adds nothing. -/
theorem merge_again {xs : List α} {s : OntologyState} (report : MergeReport)
    (hxs : ∀ x ∈ xs, T.key x ∈ (T.items s.ir).map T.key) :
    ∃ report', T.merge same xs report s = (.ok report', s) ∧ report'.added = report.added := by
  induction xs generalizing report with
  | nil => exact ⟨report, rfl, rfl⟩
  | cons x xs ih =>
    obtain ⟨hx, hxs⟩ := forall_mem_cons.1 hxs
    unfold MergeTarget.merge
    cases hfirst : first T.key (T.key x) (T.items s.ir) with
    | none => exact absurd hx ((first_none_iff T.key).1 hfirst)
    | some existing =>
      by_cases hsame : same existing x = true
      · simp only [if_pos hsame]
        exact ih (report.pushSkipped (T.entry x)) hxs
      · simp only [if_neg hsame]
        exact ih (report.pushConflict (T.entry x)) hxs

end MergeTarget

/-! ## The collections are lawful -/

variable {s : OntologyState}

theorem OntologyState.rebuild_of_ok (h : s.rebuild.1 = .ok ()) :
    s.rebuild.2 = ofIR s.ir ∧ s.rebuild.2.Agrees := by
  by_cases hind : s.ir.Indexed
  · rw [rebuild_of_indexed hind]
    exact ⟨rfl, agrees_ofIR.2 hind⟩
  · obtain ⟨e, he⟩ := rebuild_of_not_indexed hind
    rw [he] at h
    cases h

variable {α κ : Type}

/-- An addition to a collection with an id map that goes through. -/
theorem Slot.add_of_ok [DecidableEq κ] (S : Slot α κ)
    {check : OntologyState → α → Except OntologyInvariantError Unit} {d : α}
    (h : (S.add check d s).1 = .ok ()) :
    (S.add check d s).2 = ofIR (S.put s.ir (S.items s.ir ++ [d])) ∧ (S.add check d s).2.Agrees := by
  unfold Slot.add at h ⊢
  by_cases hthere : (S.idx s.lookup (S.key d)).isSome = true
  · rw [if_pos hthere] at h
    cases h
  · rw [if_neg hthere] at h ⊢
    cases hcheck : check s d with
    | error e => simp [hcheck] at h
    | ok u =>
      simp only [hcheck] at h
      exact rebuild_of_ok h

/-- The target of a collection with an id map. -/
theorem Slot.lawful_target [DecidableEq κ] (S : Slot α κ) {T : MergeTarget α κ}
    (check : OntologyState → α → Except OntologyInvariantError Unit) (hitems : T.items = S.items)
    (hadd : T.add = S.add check) (hput : ∀ o xs ys, S.put (S.put o xs) ys = S.put o ys) :
    T.Lawful S.put where
  items_put o xs := by rw [hitems, S.items_put]
  put_items o := by rw [hitems, S.put_items]
  put_put := hput
  add_ok d s _ h := by
    rw [hadd] at h ⊢
    rw [hitems]
    exact S.add_of_ok h

theorem nodeTypeTarget_lawful : nodeTypeTarget.Lawful fun o xs => { o with nodeTypes := xs } where
  add_ok d s _ h := by
    have h : (addNodeType d s).1 = .ok () := h
    show (addNodeType d s).2 = _ ∧ (addNodeType d s).2.Agrees
    unfold addNodeType at h ⊢
    by_cases hid : (s.lookup.nodeIdIdx d.id).isSome = true
    · rw [if_pos hid] at h
      cases h
    · rw [if_neg hid] at h ⊢
      by_cases hlabel : (s.lookup.nodeLabelIdx d.label).isSome = true
      · rw [if_pos hlabel] at h
        cases h
      · rw [if_neg hlabel] at h ⊢
        exact rebuild_of_ok h

theorem edgeTypeTarget_lawful : edgeTypeTarget.Lawful fun o xs => { o with edgeTypes := xs } where
  add_ok d s _ h := by
    have h : (addEdgeType d s).1 = .ok () := h
    show (addEdgeType d s).2 = _ ∧ (addEdgeType d s).2.Agrees
    unfold addEdgeType at h ⊢
    by_cases hid : (s.lookup.edgeIdIdx d.id).isSome = true
    · rw [if_pos hid] at h
      cases h
    · rw [if_neg hid] at h ⊢
      exact rebuild_of_ok h

theorem indexTarget_lawful (m : DefsMatch) :
    (indexTarget m).Lawful fun o xs => { o with indexes := xs } where
  add_ok _ _ _ h := rebuild_of_ok h

theorem objectMappingTarget_lawful :
    objectMappingTarget.Lawful fun o xs => { o with objectMappings := xs } :=
  objectMappingSlot.lawful_target unchecked rfl rfl fun _ _ _ => rfl

theorem linkMappingTarget_lawful :
    linkMappingTarget.Lawful fun o xs => { o with linkMappings := xs } :=
  linkMappingSlot.lawful_target unchecked rfl rfl fun _ _ _ => rfl

theorem interfaceTarget_lawful : interfaceTarget.Lawful fun o xs => { o with interfaces := xs } :=
  interfaceSlot.lawful_target unchecked rfl rfl fun _ _ _ => rfl

theorem glossaryTermTarget_lawful :
    glossaryTermTarget.Lawful fun o xs => { o with glossary := xs } :=
  glossaryTermSlot.lawful_target validateGlossaryTermReferences rfl rfl fun _ _ _ => rfl

theorem codeSystemTarget_lawful :
    codeSystemTarget.Lawful fun o xs => { o with codeSystems := xs } :=
  codeSystemSlot.lawful_target validateCodeSystemReferences rfl rfl fun _ _ _ => rfl

theorem valueSetTarget_lawful : valueSetTarget.Lawful fun o xs => { o with valueSets := xs } :=
  valueSetSlot.lawful_target validateValueSetReferences rfl rfl fun _ _ _ => rfl

theorem conceptMapTarget_lawful :
    conceptMapTarget.Lawful fun o xs => { o with conceptMaps := xs } :=
  conceptMapSlot.lawful_target validateConceptMapReferences rfl rfl fun _ _ _ => rfl

theorem notationPatternTarget_lawful :
    notationPatternTarget.Lawful fun o xs => { o with notationPatterns := xs } :=
  notationPatternSlot.lawful_target validateNotationPatternReferences rfl rfl fun _ _ _ => rfl

theorem valueRangeSetTarget_lawful :
    valueRangeSetTarget.Lawful fun o xs => { o with valueRangeSets := xs } :=
  valueRangeSetSlot.lawful_target (fun _ => validateValueRangeSet) rfl rfl fun _ _ _ => rfl

theorem ruleTarget_lawful : ruleTarget.Lawful fun o xs => { o with rules := xs } :=
  ruleSlot.lawful_target unchecked rfl rfl fun _ _ _ => rfl

theorem actionTarget_lawful : actionTarget.Lawful fun o xs => { o with actions := xs } :=
  actionSlot.lawful_target unchecked rfl rfl fun _ _ _ => rfl

theorem functionTarget_lawful : functionTarget.Lawful fun o xs => { o with functions := xs } :=
  functionSlot.lawful_target unchecked rfl rfl fun _ _ _ => rfl

theorem metricTarget_lawful : metricTarget.Lawful fun o xs => { o with metrics := xs } :=
  metricSlot.lawful_target unchecked rfl rfl fun _ _ _ => rfl

theorem enrichmentTarget_lawful :
    enrichmentTarget.Lawful fun o xs => { o with enrichments := xs } :=
  enrichmentSlot.lawful_target unchecked rfl rfl fun _ _ _ => rfl

theorem dataQualityTarget_lawful :
    dataQualityTarget.Lawful fun o xs => { o with dataQuality := xs } :=
  dataQualitySlot.lawful_target unchecked rfl rfl fun _ _ _ => rfl

/-- The ids stay in place, every old profile is kept or refreshed by an incoming
one, and every incoming profile is there. -/
structure Refreshed (old incoming new : List ColumnProfileDef) : Prop where
  ids : old.map (·.id) <+: new.map (·.id)
  kept : ∀ p ∈ old, p ∈ new ∨ ∃ q ∈ incoming, q.id = p.id ∧ q ∈ new
  present : ∀ q ∈ incoming, q ∈ new

theorem addProfile_spec (hs : s.Agrees) (d : ColumnProfileDef) :
    ∃ ys, (addColumnProfile d s).ir = { s.ir with columnProfiles := ys } ∧
      s.ir.columnProfiles.map (·.id) <+: ys.map (·.id) ∧ d ∈ ys ∧
      ∀ p ∈ s.ir.columnProfiles, p ∈ ys ∨ p.id = d.id := by
  have hind := columnProfileSlot.indexed_upsert hs d fun _ => trivial
  have hir : (addColumnProfile d s).ir = (columnProfileSlot.upsert d s).ir := by
    unfold addColumnProfile
    rw [rebuild_of_indexed hind]
    rfl
  rw [hir]
  unfold Slot.upsert
  rw [columnProfileSlot.idx_of_agrees hs]
  cases hidx : position columnProfileSlot.key (columnProfileSlot.items s.ir)
      (columnProfileSlot.key d) with
  | none =>
    refine ⟨s.ir.columnProfiles ++ [d], rfl, ?_, by simp, fun p hp => .inl (by simp [hp])⟩
    rw [map_append]
    exact prefix_append _ _
  | some idx =>
    have hnd : (s.ir.columnProfiles.map (·.id)).Nodup :=
      columnProfileSlot.nodup_of_indexed _ hs.indexed
    have hidx : position (·.id) s.ir.columnProfiles d.id = some idx := hidx
    have hmem {x : ColumnProfileDef} : x ∈ s.ir.columnProfiles.set idx d ↔
        x = d ∨ (x ∈ s.ir.columnProfiles ∧ x.id ≠ d.id) := mem_set_of_position hnd hidx
    refine ⟨s.ir.columnProfiles.set idx d, rfl, ?_, hmem.2 (.inl rfl), fun p hp => ?_⟩
    · have hkeys := columnProfileSlot.map_key_set hidx
      exact (show s.ir.columnProfiles.map (·.id) = (s.ir.columnProfiles.set idx d).map (·.id)
        from hkeys.symm) ▸ prefix_refl _
    · by_cases hp' : p.id = d.id
      · exact .inr hp'
      · exact .inl (hmem.2 (.inr ⟨hp, hp'⟩))

theorem mergeColumnProfiles_spec {xs : List ColumnProfileDef} (hxs : (xs.map (·.id)).Nodup)
    (hs : s.Agrees) (report : MergeReport) :
    (mergeColumnProfiles xs report s).2.Agrees ∧
      (∃ ys, (mergeColumnProfiles xs report s).2.ir = { s.ir with columnProfiles := ys } ∧
        Refreshed s.ir.columnProfiles xs ys) ∧
      (mergeColumnProfiles xs report s).1.items.Perm
        (report.items ++ xs.map fun p => ⟨"column_profile", p.id.val⟩) := by
  induction xs generalizing s report with
  | nil =>
    refine ⟨hs, ⟨s.ir.columnProfiles, rfl, prefix_refl _, fun p hp => .inl hp, by simp⟩, ?_⟩
    simp [mergeColumnProfiles]
  | cons x xs ih =>
    rw [map_cons, nodup_cons] at hxs
    obtain ⟨zs, hzs, hids, hx, hold⟩ := addProfile_spec hs x
    unfold mergeColumnProfiles
    dsimp only
    generalize hr : (if first (·.id) x.id s.ir.columnProfiles = some x then
      report.pushSkipped ⟨"column_profile", x.id.val⟩
      else report.pushAdded ⟨"column_profile", x.id.val⟩) = r
    have hritems : r.items.Perm (⟨"column_profile", x.id.val⟩ :: report.items) := by
      rw [← hr]
      split
      · exact report.items_pushSkipped _
      · exact report.items_pushAdded _
    obtain ⟨hagrees, ⟨ys, hys, href⟩, hperm⟩ := ih hxs.2 (agrees_addProfile hs x) r
    rw [hzs] at hys href
    have hxys : x ∈ ys := by
      rcases href.kept x hx with h | ⟨q, hq, hid, -⟩
      · exact h
      · exact absurd (mem_map.2 ⟨q, hq, hid⟩) hxs.1
    refine ⟨hagrees, ⟨ys, hys, hids.trans href.ids, fun p hp => ?_,
      forall_mem_cons.2 ⟨hxys, href.present⟩⟩, ?_⟩
    · rcases hold p hp with h | h
      · rcases href.kept p h with h | ⟨q, hq, hid, hqys⟩
        · exact .inl h
        · exact .inr ⟨q, mem_cons_of_mem _ hq, hid, hqys⟩
      · exact .inr ⟨x, mem_cons_self, h.symm, hxys⟩
    · refine hperm.trans ((hritems.append_right _).trans ?_)
      rw [map_cons, cons_append]
      exact perm_middle.symm

/-- Profiles that are there are skipped, and putting them back changes
nothing. -/
theorem mergeColumnProfiles_again {xs : List ColumnProfileDef} (hs : s.Agrees)
    (report : MergeReport) (hxs : ∀ x ∈ xs, x ∈ s.ir.columnProfiles) :
    ∃ report', mergeColumnProfiles xs report s = (report', s) ∧ report'.added = report.added := by
  induction xs generalizing report with
  | nil => exact ⟨report, rfl, rfl⟩
  | cons x xs ih =>
    obtain ⟨hx, hxs⟩ := List.forall_mem_cons.1 hxs
    have hnd : (s.ir.columnProfiles.map (·.id)).Nodup :=
      columnProfileSlot.nodup_of_indexed _ hs.indexed
    have hfirst : first (·.id) x.id s.ir.columnProfiles = some x :=
      (first_some_iff _ hnd).2 ⟨hx, rfl⟩
    have hsame : addColumnProfile x s = s := by
      have hput : (columnProfileSlot.upsert x s) = s := by
        unfold Slot.upsert
        rw [columnProfileSlot.idx_of_agrees hs]
        cases hidx : position columnProfileSlot.key (columnProfileSlot.items s.ir)
            (columnProfileSlot.key x) with
        | none =>
          have hnot : ¬columnProfileSlot.key x ∈
              (columnProfileSlot.items s.ir).map columnProfileSlot.key := by
            rw [← position_isSome_iff, hidx]
            simp
          exact absurd (List.mem_map_of_mem hx) hnot
        | some idx =>
          obtain ⟨y, hy, hkey⟩ := getElem?_of_position hidx
          have hyx : y = x := eq_of_key_eq _ hnd (List.mem_of_getElem? hy) hx hkey
          have hset :
              (columnProfileSlot.items s.ir).set idx x = columnProfileSlot.items s.ir := by
            obtain ⟨hlt, hget⟩ := List.getElem?_eq_some_iff.1 hy
            rw [← hyx, ← hget, List.set_getElem_self]
          simp only [hset, columnProfileSlot.put_items]
          rfl
      unfold addColumnProfile
      rw [hput, rebuild_of_indexed hs.indexed]
      exact (agrees_iff_eq_ofIR.1 hs).2.symm
    unfold mergeColumnProfiles
    simp only [hfirst, if_true, hsame]
    exact ih (report.pushSkipped _) hxs

namespace OntologyIR

/-- The items of the collections that have a merge helper, in the order of the
helpers.  An index is named by a text of its own. -/
def mergedEntries (indexText : IndexDef → String) (o : OntologyIR) : List MergedItem :=
  o.nodeTypes.map nodeTypeTarget.entry ++
  o.edgeTypes.map edgeTypeTarget.entry ++
  (o.indexes.map fun i => ⟨"index", indexText i⟩) ++
  o.objectMappings.map objectMappingTarget.entry ++
  o.linkMappings.map linkMappingTarget.entry ++
  o.interfaces.map interfaceTarget.entry ++
  o.glossary.map glossaryTermTarget.entry ++
  o.codeSystems.map codeSystemTarget.entry ++
  o.valueSets.map valueSetTarget.entry ++
  o.conceptMaps.map conceptMapTarget.entry ++
  o.notationPatterns.map notationPatternTarget.entry ++
  o.valueRangeSets.map valueRangeSetTarget.entry ++
  o.rules.map ruleTarget.entry ++
  o.actions.map actionTarget.entry ++
  (o.functions.map functionTarget.entry) ++
  o.metrics.map metricTarget.entry ++
  o.enrichments.map enrichmentTarget.entry ++
  o.dataQuality.map dataQualityTarget.entry ++
  (o.columnProfiles.map fun p => ⟨"column_profile", p.id.val⟩)

def unmergedEntries (o : OntologyIR) : List MergedItem :=
  (o.concepts.map fun c => ⟨"concept", c.id.val⟩) ++
  (o.segments.map fun d => ⟨"segment", d.id.val⟩) ++
  (o.provenance.map fun d => ⟨"provenance", d.id.val⟩) ++
  (o.tableInventory.map fun e => ⟨"table_inventory", tableInventorySlot.text e.key⟩)

def entries (indexText : IndexDef → String) (o : OntologyIR) : List MergedItem :=
  o.mergedEntries indexText ++ o.unmergedEntries

end OntologyIR

/-- Everything the base had is there unchanged, in its place; a column profile
may have been refreshed. -/
structure Conserved (base other result : OntologyIR) : Prop where
  nodeTypes : base.nodeTypes <+: result.nodeTypes
  edgeTypes : base.edgeTypes <+: result.edgeTypes
  indexes : base.indexes <+: result.indexes
  objectMappings : base.objectMappings <+: result.objectMappings
  linkMappings : base.linkMappings <+: result.linkMappings
  interfaces : base.interfaces <+: result.interfaces
  glossary : base.glossary <+: result.glossary
  codeSystems : base.codeSystems <+: result.codeSystems
  valueSets : base.valueSets <+: result.valueSets
  conceptMaps : base.conceptMaps <+: result.conceptMaps
  notationPatterns : base.notationPatterns <+: result.notationPatterns
  valueRangeSets : base.valueRangeSets <+: result.valueRangeSets
  rules : base.rules <+: result.rules
  actions : base.actions <+: result.actions
  functions : base.functions <+: result.functions
  metrics : base.metrics <+: result.metrics
  enrichments : base.enrichments <+: result.enrichments
  dataQuality : base.dataQuality <+: result.dataQuality
  columnProfiles : ∀ p ∈ base.columnProfiles,
    p ∈ result.columnProfiles ∨ ∃ q ∈ other.columnProfiles, q.id = p.id ∧ q ∈ result.columnProfiles
  rest : result = { base with
    nodeTypes := result.nodeTypes
    edgeTypes := result.edgeTypes
    indexes := result.indexes
    objectMappings := result.objectMappings
    linkMappings := result.linkMappings
    interfaces := result.interfaces
    glossary := result.glossary
    codeSystems := result.codeSystems
    valueSets := result.valueSets
    conceptMaps := result.conceptMaps
    notationPatterns := result.notationPatterns
    valueRangeSets := result.valueRangeSets
    rules := result.rules
    actions := result.actions
    functions := result.functions
    metrics := result.metrics
    enrichments := result.enrichments
    dataQuality := result.dataQuality
    columnProfiles := result.columnProfiles }

/-- The laws of an extension that goes through. -/
structure Extended (m : DefsMatch) (base : OntologyState) (other : OntologyIR)
    (report : MergeReport) (result : OntologyState) : Prop where
  complete : ∀ indexText, ∀ e ∈ other.entries indexText, e ∈ result.ir.entries indexText
  conservative : Conserved base.ir other result.ir
  classified : report.items.Perm (other.entries m.indexText)
  stable : ∃ report' result', extend m other result = (.ok report', result') ∧ report'.added = []

/-! ## What an extension does -/

variable {report : MergeReport}

theorem runMerges_cons_ok {step : MergeStep}
    (h : runMerges (step :: rest) report s = (.ok report', s')) :
    ∃ r t, step report s = (.ok r, t) ∧ runMerges rest r t = (.ok report', s') := by
  unfold runMerges at h
  cases hstep : step report s with
  | mk res t =>
    cases res with
    | error e => simp [hstep] at h
    | ok r =>
      simp only [hstep] at h
      exact ⟨r, t, rfl, h⟩

/-- The growth of every collection with a helper. -/
structure Grew (base other result : OntologyIR) : Prop where
  nodeTypes : Grown (·.id) base.nodeTypes other.nodeTypes result.nodeTypes
  edgeTypes : Grown (·.id) base.edgeTypes other.edgeTypes result.edgeTypes
  indexes : Grown id base.indexes other.indexes result.indexes
  objectMappings : Grown (·.id) base.objectMappings other.objectMappings result.objectMappings
  linkMappings : Grown (·.id) base.linkMappings other.linkMappings result.linkMappings
  interfaces : Grown (·.id) base.interfaces other.interfaces result.interfaces
  glossary : Grown (·.id) base.glossary other.glossary result.glossary
  codeSystems : Grown (·.id) base.codeSystems other.codeSystems result.codeSystems
  valueSets : Grown (·.id) base.valueSets other.valueSets result.valueSets
  conceptMaps : Grown (·.id) base.conceptMaps other.conceptMaps result.conceptMaps
  notationPatterns :
    Grown (·.id) base.notationPatterns other.notationPatterns result.notationPatterns
  valueRangeSets : Grown (·.id) base.valueRangeSets other.valueRangeSets result.valueRangeSets
  rules : Grown (·.id) base.rules other.rules result.rules
  actions : Grown (·.id) base.actions other.actions result.actions
  functions : Grown (·.id) base.functions other.functions result.functions
  metrics : Grown (·.id) base.metrics other.metrics result.metrics
  enrichments : Grown (·.id) base.enrichments other.enrichments result.enrichments
  dataQuality : Grown (·.id) base.dataQuality other.dataQuality result.dataQuality
  columnProfiles : Refreshed base.columnProfiles other.columnProfiles result.columnProfiles
  rest : result = { base with
    nodeTypes := result.nodeTypes
    edgeTypes := result.edgeTypes
    indexes := result.indexes
    objectMappings := result.objectMappings
    linkMappings := result.linkMappings
    interfaces := result.interfaces
    glossary := result.glossary
    codeSystems := result.codeSystems
    valueSets := result.valueSets
    conceptMaps := result.conceptMaps
    notationPatterns := result.notationPatterns
    valueRangeSets := result.valueRangeSets
    rules := result.rules
    actions := result.actions
    functions := result.functions
    metrics := result.metrics
    enrichments := result.enrichments
    dataQuality := result.dataQuality
    columnProfiles := result.columnProfiles }

/-- The loop of one collection in front of the others, when `done` has been accounted for. -/
theorem runMerges_target [DecidableEq κ] {T : MergeTarget α κ}
    {put : OntologyIR → List α → OntologyIR} {same : α → α → Bool} (hT : T.Lawful put)
    {xs : List α} {o : OntologyIR} {done : List MergedItem} (ho : o.Indexed)
    (hdone : report.items.Perm done)
    (h : runMerges (T.merge same xs :: rest) report (ofIR o) = (.ok report', s')) :
    ∃ r ys, (put o ys).Indexed ∧ Grown T.key (T.items o) xs ys ∧
      r.items.Perm (done ++ xs.map T.entry) ∧
      runMerges rest r (ofIR (put o ys)) = (.ok report', s') := by
  obtain ⟨r, t, hstep, h⟩ := runMerges_cons_ok h
  obtain ⟨hagrees, ⟨ys, hir, hgrown⟩, hperm⟩ := MergeTarget.merge_spec hT (agrees_ofIR.2 ho) hstep
  have hir : t.ir = put o ys := hir
  have ht : t = ofIR (put o ys) := by
    rw [← hir]
    exact (agrees_iff_eq_ofIR.1 hagrees).2
  rw [ht] at hagrees h
  exact ⟨r, ys, agrees_ofIR.1 hagrees, hgrown, hperm.trans (hdone.append_right _), h⟩

variable {other : OntologyIR}

/-- The collections with a helper have grown, nothing else has changed, and
every item they brought is accounted for. -/
theorem extend_spec {m : DefsMatch} {base result : OntologyState} (hb : base.Agrees)
    (ho : other.Indexed) (h : extend m other base = (.ok report, result)) :
    result.Agrees ∧ Grew base.ir other result.ir ∧
      report.items.Perm (other.mergedEntries m.indexText) := by
  rw [(agrees_iff_eq_ofIR.1 hb).2] at h
  obtain ⟨r1, y1, a1, g1, p1, h⟩ :=
    runMerges_target nodeTypeTarget_lawful hb.indexed (.refl _) h
  dsimp only at a1 g1 h
  obtain ⟨r2, y2, a2, g2, p2, h⟩ := runMerges_target edgeTypeTarget_lawful a1 p1 h
  dsimp only at a2 g2 h
  obtain ⟨r3, y3, a3, g3, p3, h⟩ := runMerges_target (indexTarget_lawful m) a2 p2 h
  dsimp only at a3 g3 h
  obtain ⟨r4, y4, a4, g4, p4, h⟩ := runMerges_target objectMappingTarget_lawful a3 p3 h
  dsimp only at a4 g4 h
  obtain ⟨r5, y5, a5, g5, p5, h⟩ := runMerges_target linkMappingTarget_lawful a4 p4 h
  dsimp only at a5 g5 h
  obtain ⟨r6, y6, a6, g6, p6, h⟩ := runMerges_target interfaceTarget_lawful a5 p5 h
  dsimp only at a6 g6 h
  obtain ⟨r7, y7, a7, g7, p7, h⟩ := runMerges_target glossaryTermTarget_lawful a6 p6 h
  dsimp only at a7 g7 h
  obtain ⟨r8, y8, a8, g8, p8, h⟩ := runMerges_target codeSystemTarget_lawful a7 p7 h
  dsimp only at a8 g8 h
  obtain ⟨r9, y9, a9, g9, p9, h⟩ := runMerges_target valueSetTarget_lawful a8 p8 h
  dsimp only at a9 g9 h
  obtain ⟨r10, y10, a10, g10, p10, h⟩ := runMerges_target conceptMapTarget_lawful a9 p9 h
  dsimp only at a10 g10 h
  obtain ⟨r11, y11, a11, g11, p11, h⟩ := runMerges_target notationPatternTarget_lawful a10 p10 h
  dsimp only at a11 g11 h
  obtain ⟨r12, y12, a12, g12, p12, h⟩ := runMerges_target valueRangeSetTarget_lawful a11 p11 h
  dsimp only at a12 g12 h
  obtain ⟨r13, y13, a13, g13, p13, h⟩ := runMerges_target ruleTarget_lawful a12 p12 h
  dsimp only at a13 g13 h
  obtain ⟨r14, y14, a14, g14, p14, h⟩ := runMerges_target actionTarget_lawful a13 p13 h
  dsimp only at a14 g14 h
  obtain ⟨r15, y15, a15, g15, p15, h⟩ := runMerges_target functionTarget_lawful a14 p14 h
  dsimp only at a15 g15 h
  obtain ⟨r16, y16, a16, g16, p16, h⟩ := runMerges_target metricTarget_lawful a15 p15 h
  dsimp only at a16 g16 h
  obtain ⟨r17, y17, a17, g17, p17, h⟩ := runMerges_target enrichmentTarget_lawful a16 p16 h
  dsimp only at a17 g17 h
  obtain ⟨r18, y18, a18, g18, p18, h⟩ := runMerges_target dataQualityTarget_lawful a17 p17 h
  dsimp only at a18 g18 h
  obtain ⟨r19, s19, hprofiles, h⟩ := runMerges_cons_ok h
  obtain ⟨hr, hs⟩ := Prod.mk.inj hprofiles
  obtain ⟨hr', hs'⟩ := Prod.mk.inj h
  obtain rfl := Except.ok.inj hr
  obtain rfl := Except.ok.inj hr'
  subst hs hs'
  have hnd : (other.columnProfiles.map (·.id)).Nodup := columnProfileSlot.nodup_of_indexed _ ho
  obtain ⟨a19, ⟨y19, e19, g19⟩, p19⟩ := mergeColumnProfiles_spec hnd (agrees_ofIR.2 a18) r18
  refine ⟨a19, ?_, ?_⟩
  · show Grew base.ir other (mergeColumnProfiles _ _ _).2.ir
    rw [e19]
    exact ⟨g1, g2, g3, g4, g5, g6, g7, g8, g9, g10, g11, g12, g13, g14, g15, g16, g17, g18,
      g19, rfl⟩
  · exact p19.trans (p18.append_right _)

/-- A loop that changes and adds nothing, in front of the others. -/
theorem runMerges_again {step : MergeStep}
    (hstep : ∀ report, ∃ r, step report s = (.ok r, s) ∧ r.added = report.added)
    (hrest : ∀ report, ∃ r, runMerges rest report s = (.ok r, s) ∧ r.added = report.added) :
    ∃ r, runMerges (step :: rest) report s = (.ok r, s) ∧ r.added = report.added := by
  obtain ⟨r, hr, hradded⟩ := hstep report
  obtain ⟨r', hr', hr'added⟩ := hrest r
  refine ⟨r', ?_, hr'added.trans hradded⟩
  unfold runMerges
  rw [hr]
  exact hr'

/-- The loop of a collection that has grown, in front of the others. -/
theorem runMerges_grown [DecidableEq κ] {T : MergeTarget α κ} {same : α → α → Bool}
    {old xs : List α} (h : Grown T.key old xs (T.items s.ir))
    (hrest : ∀ report, ∃ r, runMerges rest report s = (.ok r, s) ∧ r.added = report.added)
    (report : MergeReport) :
    ∃ r, runMerges (T.merge same xs :: rest) report s = (.ok r, s) ∧ r.added = report.added :=
  runMerges_again (fun _ => MergeTarget.merge_again _ h.present) hrest

/-- Extending a second time changes and adds nothing. -/
theorem extend_again {m : DefsMatch} {result : OntologyState} (hr : result.Agrees)
    (hgrew : Grew base other result.ir) :
    ∃ report', extend m other result = (.ok report', result) ∧ report'.added = [] := by
  refine runMerges_grown hgrew.nodeTypes (fun report => ?_) _
  refine runMerges_grown hgrew.edgeTypes (fun report => ?_) _
  refine runMerges_grown hgrew.indexes (fun report => ?_) _
  refine runMerges_grown hgrew.objectMappings (fun report => ?_) _
  refine runMerges_grown hgrew.linkMappings (fun report => ?_) _
  refine runMerges_grown hgrew.interfaces (fun report => ?_) _
  refine runMerges_grown hgrew.glossary (fun report => ?_) _
  refine runMerges_grown hgrew.codeSystems (fun report => ?_) _
  refine runMerges_grown hgrew.valueSets (fun report => ?_) _
  refine runMerges_grown hgrew.conceptMaps (fun report => ?_) _
  refine runMerges_grown hgrew.notationPatterns (fun report => ?_) _
  refine runMerges_grown hgrew.valueRangeSets (fun report => ?_) _
  refine runMerges_grown hgrew.rules (fun report => ?_) _
  refine runMerges_grown hgrew.actions (fun report => ?_) _
  refine runMerges_grown hgrew.functions (fun report => ?_) _
  refine runMerges_grown hgrew.metrics (fun report => ?_) _
  refine runMerges_grown hgrew.enrichments (fun report => ?_) _
  refine runMerges_grown hgrew.dataQuality (fun report => ?_) _
  refine runMerges_again (fun report => ?_) fun report => ⟨report, rfl, rfl⟩
  obtain ⟨report', hrun, hadded⟩ :=
    mergeColumnProfiles_again hr report hgrew.columnProfiles.present
  refine ⟨report', ?_, hadded⟩
  rw [hrun]

/-- What has grown holds the items that came in, under a name read off the
key. -/
theorem Grown.map_subset {β : Type} {key : α → κ} {old incoming new : List α}
    (h : Grown key old incoming new) {g : α → β} (hg : ∀ x y, key x = key y → g x = g y) :
    incoming.map g ⊆ new.map g := by
  intro b hb
  obtain ⟨x, hx, rfl⟩ := mem_map.1 hb
  obtain ⟨y, hy, hkey⟩ := mem_map.1 (h.present x hx)
  exact mem_map.2 ⟨y, hy, hg y x hkey⟩

theorem append_subset_append {as bs as' bs' : List MergedItem} (ha : as ⊆ as') (hb : bs ⊆ bs') :
    as ++ bs ⊆ as' ++ bs' :=
  append_subset.2 ⟨Subset.trans ha (subset_append_left _ _),
    Subset.trans hb (subset_append_right _ _)⟩

theorem Grew.mem_mergedEntries {result : OntologyIR} (h : Grew base other result)
    {indexText : IndexDef → String} :
    other.mergedEntries indexText ⊆ result.mergedEntries indexText := by
  refine append_subset_append ?_ (map_subset _ h.columnProfiles.present)
  repeat' apply append_subset_append
  · exact h.nodeTypes.map_subset fun _ _ heq => congrArg (fun i => MergedItem.mk _ i.val) heq
  · exact h.edgeTypes.map_subset fun _ _ heq => congrArg (fun i => MergedItem.mk _ i.val) heq
  · exact h.indexes.map_subset fun _ _ heq => congrArg (fun i => MergedItem.mk _ (indexText i)) heq
  · exact h.objectMappings.map_subset fun _ _ heq => congrArg (fun i => MergedItem.mk _ i.val) heq
  · exact h.linkMappings.map_subset fun _ _ heq => congrArg (fun i => MergedItem.mk _ i.val) heq
  · exact h.interfaces.map_subset fun _ _ heq => congrArg (fun i => MergedItem.mk _ i.val) heq
  · exact h.glossary.map_subset fun _ _ heq => congrArg (fun i => MergedItem.mk _ i.val) heq
  · exact h.codeSystems.map_subset fun _ _ heq => congrArg (fun i => MergedItem.mk _ i.val) heq
  · exact h.valueSets.map_subset fun _ _ heq => congrArg (fun i => MergedItem.mk _ i.val) heq
  · exact h.conceptMaps.map_subset fun _ _ heq => congrArg (fun i => MergedItem.mk _ i.val) heq
  · exact h.notationPatterns.map_subset fun _ _ heq => congrArg (fun i => MergedItem.mk _ i.val) heq
  · exact h.valueRangeSets.map_subset fun _ _ heq => congrArg (fun i => MergedItem.mk _ i.val) heq
  · exact h.rules.map_subset fun _ _ heq => congrArg (fun i => MergedItem.mk _ i.val) heq
  · exact h.actions.map_subset fun _ _ heq => congrArg (fun i => MergedItem.mk _ i.val) heq
  · exact h.functions.map_subset fun _ _ heq => congrArg (fun i => MergedItem.mk _ i.val) heq
  · exact h.metrics.map_subset fun _ _ heq => congrArg (fun i => MergedItem.mk _ i.val) heq
  · exact h.enrichments.map_subset fun _ _ heq => congrArg (fun i => MergedItem.mk _ i.val) heq
  · exact h.dataQuality.map_subset fun _ _ heq => congrArg (fun i => MergedItem.mk _ i.val) heq

theorem Grew.conserved {result : OntologyIR} (h : Grew base other result) :
    Conserved base other result where
  nodeTypes := h.nodeTypes.kept
  edgeTypes := h.edgeTypes.kept
  indexes := h.indexes.kept
  objectMappings := h.objectMappings.kept
  linkMappings := h.linkMappings.kept
  interfaces := h.interfaces.kept
  glossary := h.glossary.kept
  codeSystems := h.codeSystems.kept
  valueSets := h.valueSets.kept
  conceptMaps := h.conceptMaps.kept
  notationPatterns := h.notationPatterns.kept
  valueRangeSets := h.valueRangeSets.kept
  rules := h.rules.kept
  actions := h.actions.kept
  functions := h.functions.kept
  metrics := h.metrics.kept
  enrichments := h.enrichments.kept
  dataQuality := h.dataQuality.kept
  columnProfiles := h.columnProfiles.kept
  rest := h.rest

/-- An extension that goes through is lawful exactly when the other ontology has
no concept, no segment, no provenance record and no inventory row. -/
theorem extend_extended_iff (m : DefsMatch) {base result : OntologyState} {other : OntologyIR}
    {report : MergeReport} (hb : base.Agrees) (ho : other.Indexed)
    (h : extend m other base = (.ok report, result)) : Extended m base other report result ↔
      other.concepts = [] ∧ other.segments = [] ∧ other.provenance = [] ∧
        other.tableInventory = [] := by
  obtain ⟨hresult, hgrew, hperm⟩ := extend_spec hb ho h
  have hempty : other.unmergedEntries = [] ↔ other.concepts = [] ∧ other.segments = [] ∧
      other.provenance = [] ∧ other.tableInventory = [] := by
    simp only [OntologyIR.unmergedEntries, append_eq_nil_iff, map_eq_nil_iff, and_assoc]
  rw [← hempty]
  constructor
  · intro hlaw
    have hlen := (hperm.symm.trans hlaw.classified).length_eq
    rw [OntologyIR.entries, length_append] at hlen
    exact length_eq_zero_iff.1 (by omega)
  · intro hnone
    refine ⟨fun indexText e he => ?_, hgrew.conserved, ?_, ?_⟩
    · rw [OntologyIR.entries, hnone, append_nil] at he
      exact mem_append_left _ (hgrew.mem_mergedEntries he)
    · rw [OntologyIR.entries, hnone, append_nil]
      exact hperm
    · obtain ⟨report', hagain, hadded⟩ := extend_again (m := m) hresult hgrew
      exact ⟨report', result, hagain, hadded⟩

/-- Comparison by id, which is right where equal ids mean equal definitions. -/
def matchById : DefsMatch where
  nodeType a b := a.id = b.id
  edgeType a b := a.id = b.id
  objectMapping a b := a.id = b.id
  linkMapping a b := a.id = b.id
  interface a b := a.id = b.id
  glossaryTerm a b := a.id = b.id
  codeSystem a b := a.id = b.id
  valueSet a b := a.id = b.id
  conceptMap a b := a.id = b.id
  notationPattern a b := a.id = b.id
  valueRangeSet a b := a.id = b.id
  rule a b := a.id = b.id
  action a b := a.id = b.id
  function a b := a.id = b.id
  metric a b := a.id = b.id
  enrichment a b := a.id = b.id
  dataQuality a b := a.id = b.id
  indexText _ := "index"

/-- An ontology with one node type, the given concepts and their terms. -/
def withConcepts (concepts : List ConceptDef) : OntologyIR where
  id := "onto"
  name := "Shop"
  nodeTypes := [{ id := ⟨"customer"⟩, label := ⟨"Customer", .refl true⟩ }]
  concepts := concepts
  glossary := concepts.map fun c => { id := c.canonicalTermId, conceptId := some c.id }

theorem withConcepts_agrees : (ofIR (withConcepts [])).Agrees :=
  agrees_ofIR.2 ((OntologyIR.rebuild_ok_iff _).1 rfl)

/-- An ontology extended with itself. -/
theorem extend_self_extended :
    ∃ report result, extend matchById (withConcepts []) (ofIR (withConcepts [])) =
        (.ok report, result) ∧
      Extended matchById (ofIR (withConcepts [])) (withConcepts []) report result :=
  ⟨_, _, rfl, (extend_extended_iff matchById withConcepts_agrees
    withConcepts_agrees.indexed rfl).2 ⟨rfl, rfl, rfl, rfl⟩⟩

/-- The concept of the other ontology is lost: the extension goes through, and
the report does not mention it. -/
theorem extend_loses_concepts : ∃ other : OntologyIR, other.Indexed ∧ ∃ report result,
      extend matchById other (ofIR (withConcepts [])) = (.ok report, result) ∧
        (⟨"concept", "loyalty"⟩ : MergedItem) ∈ other.entries matchById.indexText ∧
        (⟨"concept", "loyalty"⟩ : MergedItem) ∉ result.ir.entries matchById.indexText ∧
        (⟨"concept", "loyalty"⟩ : MergedItem) ∉ report.items :=
  ⟨withConcepts [{ id := ⟨"loyalty"⟩, canonicalTermId := ⟨"term"⟩ }],
    (OntologyIR.rebuild_ok_iff _).1 rfl, _, _, rfl, by decide, by decide, by decide⟩

end Ontosyx.Ontology
