import Ontosyx.Lib.Splices
import Ontosyx.Ontology.Edit
import Ontosyx.Ontology.RemovalSafety

/-!
# What an edit does to the coded values

Routing judges an edit by its shape alone.  Here the shape is compared with the
effect: every operation that goes through replaces one stretch of the coded
values by another (`splice_applyTo`), and both stretches can be read off the
operation and the ontology it is applied to.

## Main results

* `splice_applyTo` — the stretch of coded values an operation replaces.
* `applyTo_bounded_iff` — when class and declared scope bound the effect.
-/

namespace Ontosyx.Ontology

open List Ontosyx.Core OntologyIR Lib.Keyed Lib.Positions Lib.Splices OntologyState

variable {old new : List CodedValue} {o : OntologyIR} {b a : List CodedValue} {id : CodeSystemId}

namespace OntologyIR

def codedValues (o : OntologyIR) : List CodedValue := o.codeSystems.flatMap (·.codes)

/-- The codes of a system; none when there is no such system. -/
def codesOf (o : OntologyIR) (id : CodeSystemId) : List CodedValue :=
  ((first (·.id) id o.codeSystems).map (·.codes)).getD []

theorem nodup_codedValues (ho : o.Indexed) : (o.codedValues.map (·.id)).Nodup := by
  have h := ho.registries.codedValues
  rwa [codedValues, map_flatMap]

end OntologyIR

/-- A coded value of `old` is missing from `new`, or is deprecated there and was
not before. -/
def RetiresCode (old new : List CodedValue) : Prop :=
  (∃ cv ∈ old, cv.id ∉ new.map (·.id)) ∨
    ∃ cv ∈ old, ∃ cv' ∈ new, cv'.id = cv.id ∧ cv.deprecatedAt = none ∧ cv'.deprecatedAt ≠ none

theorem retiresCode_iff_unmatched :
    RetiresCode old new ↔ unmatched CodedValue.id old (new.map (·.id)) ≠ [] ∨
      ∃ cv ∈ old, ∃ cv' ∈ new, cv'.id = cv.id ∧ cv.deprecatedAt = none ∧
        cv'.deprecatedAt ≠ none := by
  refine or_congr_left ?_
  rw [Ne, unmatched_nil_iff]
  simp only [mem_map, forall_exists_index, and_imp, forall_apply_eq_imp_iff₂, not_forall,
    exists_prop]

theorem retiresCode_splice (h : Splice CodedValue.id old new a b) :
    RetiresCode old new ↔ RetiresCode a b := by
  rw [retiresCode_iff_unmatched, retiresCode_iff_unmatched, h.unmatched_eq]
  refine or_congr_right (h.exists_pair_iff
    (R := fun x y => x.deprecatedAt = none ∧ y.deprecatedAt ≠ none) fun x hx => hx.2 hx.1)

/-! ## The stretch an operation replaces -/

namespace OntologyEditOp

/-- The `CodeCount` an operation declares; an operation without one declares
that it touches no code. -/
def codeCount (op : OntologyEditOp) : Nat :=
  ((op.scopes.find? fun s => s.kind = .codeCount).map (·.value)).getD 0

/-- The coded values an operation takes away. -/
def before (o : OntologyIR) : OntologyEditOp → List CodedValue
  | updateCodeSystem id _ | deleteCodeSystem id => o.codesOf id
  | updateCodedValue systemId id _ | deleteCodedValue systemId id =>
    (o.codesOf systemId).filter fun cv => cv.id = id
  | _ => []

/-- The coded values an operation puts in their place. -/
def after : OntologyEditOp → List CodedValue
  | createCodeSystem d | updateCodeSystem _ d => d.codes
  | createCodedValue _ value | updateCodedValue _ _ value => [value]
  | _ => []

/-! ### Operations that leave the code systems alone -/

section

variable {s t : OntologyState} {now : DateTime}

theorem viaMutator_ok {r : Outcome Unit} (h : viaMutator r = .ok t) : r.1 = .ok () ∧ r.2 = t := by
  unfold viaMutator at h
  split at h
  · rename_i hr
    exact ⟨hr, Except.ok.inj h⟩
  · cases h

theorem ir_of_rebuild : s.rebuild.2.ir = s.ir := by
  unfold rebuild
  cases hr : s.ir.rebuildIndices with
  | ok u => rfl
  | error e => rfl

theorem indexed_of_rebuild (h : s.rebuild.1 = .ok ()) : s.ir.Indexed := by
  by_contra hnot
  obtain ⟨e, he⟩ := rebuild_of_not_indexed hnot
  rw [he] at h
  cases h

variable {α κ : Type} [DecidableEq κ] {S : Slot α κ}
  {check : OntologyState → α → Except OntologyInvariantError Unit} {d : α} {id : κ}

theorem ir_of_add (h : viaMutator (S.add check d s) = .ok t) :
    t.ir = S.put s.ir (S.items s.ir ++ [d]) ∧ t.ir.Indexed := by
  obtain ⟨hok, rfl⟩ := viaMutator_ok h
  unfold Slot.add at hok ⊢
  split at hok
  · cases hok
  · split at hok
    · cases hok
    · rename_i hnew _ hcheck
      rw [if_neg hnew, ir_of_rebuild]
      exact ⟨rfl, indexed_of_rebuild hok⟩

theorem ir_of_replace (h : viaMutator (S.replace check id d s) = .ok t) :
    ∃ idx, t.ir = S.put s.ir ((S.items s.ir).set idx d) := by
  obtain ⟨hok, rfl⟩ := viaMutator_ok h
  unfold Slot.replace at hok ⊢
  split at hok
  · cases hok
  · rename_i hid
    rw [if_neg hid]
    cases hidx : S.idx s.lookup id with
    | none => simp [hidx] at hok
    | some idx =>
      cases hcheck : check s d with
      | error e => simp [hidx, hcheck] at hok
      | ok u =>
        exact ⟨idx, ir_of_rebuild⟩

theorem ir_of_remove {ensure : OntologyState → κ → Except OntologyInvariantError Unit}
    (h : viaMutator (S.remove ensure id s) = .ok t) : t.ir = S.without s.ir id := by
  obtain ⟨hok, rfl⟩ := viaMutator_ok h
  unfold Slot.remove at hok ⊢
  cases hens : ensure s id with
  | error e => simp [hens] at hok
  | ok u =>
    simp only [hens] at hok ⊢
    split at hok
    · cases hok
    · rename_i hlen
      rw [if_neg hlen, ir_of_rebuild]
      rfl

theorem ok_of_withSameId {operation defId id : String} {r : Except EditError OntologyState}
    (h : withSameId operation defId id r = .ok t) : defId = id ∧ r = .ok t := by
  unfold withSameId at h
  split at h
  · rename_i hid
    exact ⟨hid, h⟩
  · cases h

theorem codeSystems_mutateProperty {owner : PropertyOwnerPath} {propertyId : PropertyId}
    {f : PropertyDef → PropertyDef} (h : mutateProperty s owner propertyId f = .ok t) :
    t.ir.codeSystems = s.ir.codeSystems := by
  unfold mutateProperty at h
  cases owner with
  | node typeId | edge typeId =>
    dsimp only at h
    split at h
    · cases h
    · split at h
      · cases h
      · cases h
        rfl

theorem splice_of_same (hs : s.Agrees) (hir : t.ir = o) (h : o.codeSystems = s.ir.codeSystems) :
    Splice CodedValue.id s.ir.codedValues t.ir.codedValues [] [] := by
  have hcodes : t.ir.codedValues = s.ir.codedValues := by
    rw [hir, codedValues, codedValues, h]
  rw [hcodes]
  exact Splice.refl (nodup_codedValues hs.indexed)

end

/-! ### Operations on the code systems -/

section

variable {s t : OntologyState}

theorem codesOf_eq (ho : o.Indexed) {cs : CodeSystemDef} (hcs : cs ∈ o.codeSystems) :
    o.codesOf cs.id = cs.codes := by
  have hfirst := (first_some_iff CodeSystemDef.id ho.registries.codeSystems).2 ⟨hcs, rfl⟩
  rw [codesOf, hfirst]
  rfl

theorem splice_createCodeSystem (hs : s.Agrees) {d : CodeSystemDef}
    (h : viaMutator (addCodeSystem d s) = .ok t) :
    Splice CodedValue.id s.ir.codedValues t.ir.codedValues [] d.codes := by
  obtain ⟨hir, hindexed⟩ := ir_of_add h
  refine ⟨nodup_codedValues hs.indexed,
    nodup_codedValues hindexed, s.ir.codedValues, [], by simp, ?_⟩
  have hput : t.ir.codeSystems = s.ir.codeSystems ++ [d] := congrArg codeSystems hir
  rw [codedValues, hput]
  simp [codedValues]

theorem splice_deleteCodeSystem (hs : s.Agrees) (h : viaMutator (removeCodeSystem id s) = .ok t) :
    Splice CodedValue.id s.ir.codedValues t.ir.codedValues (s.ir.codesOf id) [] := by
  have ho := hs.indexed
  obtain ⟨hok, rfl⟩ := viaMutator_ok h
  obtain ⟨-, hmem, hir⟩ := codeSystemSlot.remove_of_ok hs hok
  obtain ⟨cs, hcs, rfl⟩ := mem_map.1 hmem
  have hcodes : s.ir.codesOf (codeSystemSlot.key cs) = cs.codes := codesOf_eq ho hcs
  have hleft : (removeCodeSystem (codeSystemSlot.key cs) s).2.ir.codeSystems =
      s.ir.codeSystems.filter fun x => x.id ≠ cs.id := congrArg codeSystems hir
  refine ⟨nodup_codedValues ho, ?_, ?_⟩
  · have hindexed := codeSystemSlot.indexed_without hs (codeSystemSlot.key cs)
    rw [← hir] at hindexed
    exact nodup_codedValues hindexed
  · obtain ⟨l, r, hlr⟩ := append_of_mem hcs
    have hnd := ho.registries.codeSystems
    have hsplit : s.ir.codeSystems = l ++ cs :: r := hlr
    rw [hsplit, map_append, map_cons, nodup_append, nodup_cons] at hnd
    have hl : l.filter (fun x => x.id ≠ cs.id) = l := by
      rw [filter_eq_self]
      intro x hx
      simpa using hnd.2.2 _ (mem_map_of_mem hx) _ mem_cons_self
    have hr : r.filter (fun x => x.id ≠ cs.id) = r := by
      rw [filter_eq_self]
      intro x hx
      simpa using fun hid => hnd.2.1.1 (mem_map.2 ⟨x, hx, hid⟩)
    refine ⟨l.flatMap (·.codes), r.flatMap (·.codes), ?_, ?_⟩
    · rw [hcodes, codedValues, hsplit]
      simp
    · rw [codedValues, hleft, hsplit, filter_append, filter_cons, hl, hr]
      simp

theorem splice_replaceSystem (hs : s.Agrees) {d : CodeSystemDef}
    (h : viaMutator (replaceCodeSystem id d s) = .ok t) :
    Splice CodedValue.id s.ir.codedValues t.ir.codedValues (s.ir.codesOf id) d.codes := by
  have ho := hs.indexed
  obtain ⟨hok, rfl⟩ := viaMutator_ok h
  obtain ⟨idx, -, hpos, -, hindexed, -, hir⟩ := replaceSystem_of_ok hs hok
  obtain ⟨cs, hcs, rfl⟩ := getElem?_of_position hpos
  obtain ⟨hlt, hget⟩ := List.getElem?_eq_some_iff.1 hcs
  have hcodes : s.ir.codesOf cs.id = cs.codes := codesOf_eq ho (List.mem_of_getElem? hcs)
  refine ⟨nodup_codedValues ho, ?_, ?_⟩
  · rw [hir]
    exact nodup_codedValues hindexed
  · obtain ⟨l, r, hsplit, -, hset⟩ :
        ∃ l r, s.ir.codeSystems = l ++ s.ir.codeSystems[idx] :: r ∧ l.length = idx ∧
          s.ir.codeSystems.set idx d = l ++ d :: r := List.exists_of_set hlt
    rw [hget] at hsplit
    have hnew : (replaceCodeSystem cs.id d s).2.ir.codeSystems = l ++ d :: r := by
      rw [hir, ← hset]
      rfl
    refine ⟨l.flatMap (·.codes), r.flatMap (·.codes), ?_, ?_⟩
    · rw [hcodes, codedValues, hsplit]
      simp
    · rw [codedValues, hnew]
      simp

/-- What an edit of the codes of a system that goes through has done. -/
theorem splice_editCodes (hs : s.Agrees)
    {f : List CodedValue → Except EditError (List CodedValue)} (h : editCodes s id f = .ok t)
    (hf : ∀ codes', f (s.ir.codesOf id) = .ok codes' →
      ∃ pre post, s.ir.codesOf id = pre ++ a ++ post ∧ codes' = pre ++ b ++ post) :
    Splice CodedValue.id s.ir.codedValues t.ir.codedValues a b := by
  unfold editCodes at h
  cases hcs : s.codeSystemById id with
  | none => simp [hcs] at h
  | some cs =>
    obtain ⟨hmem, hid⟩ := mem_of_codeSystemById hs hcs
    have hcodes : s.ir.codesOf id = cs.codes := hid ▸ codesOf_eq hs.indexed hmem
    cases hfc : f cs.codes with
    | error e => simp [hcs, hfc] at h
    | ok codes' =>
      simp only [hcs, hfc] at h
      exact (splice_replaceSystem hs h).within (hf codes' (hcodes ▸ hfc))

theorem nodup_codesOf (ho : o.Indexed) (id : CodeSystemId) : ((o.codesOf id).map (·.id)).Nodup := by
  cases hcs : first (·.id) id o.codeSystems with
  | none => simp [codesOf, hcs]
  | some cs =>
    obtain ⟨hmem, -⟩ := (first_some_iff CodeSystemDef.id ho.registries.codeSystems).1 hcs
    have hnd := (nodup_flatMap.1 ho.registries.codedValues).1 cs hmem
    simpa [codesOf, hcs] using hnd

/-- In a list with distinct ids, an id picks out one entry. -/
theorem filter_id_eq {l r : List CodedValue} {cv : CodedValue}
    (hnd : ((l ++ cv :: r).map (·.id)).Nodup) :
    (l ++ cv :: r).filter (fun c => c.id = cv.id) = [cv] ∧
      (l ++ cv :: r).filter (fun c => c.id ≠ cv.id) = l ++ r := by
  rw [map_append, map_cons, nodup_append, nodup_cons] at hnd
  have hl (c : CodedValue) (hc : c ∈ l) : c.id ≠ cv.id :=
    hnd.2.2 _ (mem_map_of_mem hc) _ mem_cons_self
  have hr (c : CodedValue) (hc : c ∈ r) : c.id ≠ cv.id :=
    fun hid => hnd.2.1.1 (mem_map.2 ⟨c, hc, hid⟩)
  constructor
  · rw [filter_append, filter_cons]
    rw [filter_eq_nil_iff.2 (by simpa using hl), filter_eq_nil_iff.2 (by simpa using hr)]
    simp
  · rw [filter_append, filter_cons]
    rw [filter_eq_self.2 (by simpa using hl), filter_eq_self.2 (by simpa using hr)]
    simp

end

variable {op : OntologyEditOp}

/-- Every operation that goes through replaces the codes it takes away by those
it puts in their place, and no others. -/
theorem splice_applyTo {s t : OntologyState} {now : DateTime} (hs : s.Agrees)
    (h : op.applyTo now s = .ok t) :
    Splice CodedValue.id s.ir.codedValues t.ir.codedValues (op.before s.ir) op.after := by
  have hnd (id : CodeSystemId) := nodup_codesOf hs.indexed id
  cases op with
  | createCodeSystem d => exact splice_createCodeSystem hs h
  | updateCodeSystem id d => exact splice_replaceSystem hs (ok_of_withSameId h).2
  | deleteCodeSystem id => exact splice_deleteCodeSystem hs h
  | createCodedValue systemId value =>
    refine splice_editCodes hs h fun codes' hcodes => ⟨s.ir.codesOf systemId, [], ?_, ?_⟩
    · simp [before]
    · unfold insertCode at hcodes
      split at hcodes
      · cases hcodes
      · cases hcodes
        simp [after]
  | updateCodedValue systemId id value =>
    refine splice_editCodes hs (ok_of_withSameId h).2 fun codes' hcodes => ?_
    unfold updateCode at hcodes
    split at hcodes
    · cases hcodes
    · rename_i pos hpos
      cases hcodes
      obtain ⟨hlt, hid, -⟩ := findIdx?_eq_some_iff_getElem.1 hpos
      obtain ⟨l, r, hsplit, -, hset⟩ :
          ∃ l r, s.ir.codesOf systemId = l ++ (s.ir.codesOf systemId)[pos] :: r ∧
            l.length = pos ∧ (s.ir.codesOf systemId).set pos value = l ++ value :: r :=
        exists_of_set hlt
      have hold := (filter_id_eq (hsplit ▸ hnd systemId)).1
      rw [← hsplit, of_decide_eq_true hid] at hold
      refine ⟨l, r, ?_, ?_⟩
      · rw [before, hold, append_assoc]
        exact hsplit
      · rw [hset, after, append_assoc]
        rfl
  | deleteCodedValue systemId id =>
    refine splice_editCodes hs h fun codes' hcodes => ?_
    unfold deleteCode at hcodes
    dsimp only at hcodes
    split at hcodes
    · cases hcodes
    · rename_i hlen
      cases hcodes
      have hmem : id ∈ (s.ir.codesOf systemId).map (·.id) := by
        by_contra hnot
        refine hlen (congrArg List.length (filter_eq_self.2 fun c hc => ?_))
        simpa using fun hid => hnot (mem_map.2 ⟨c, hc, hid⟩)
      obtain ⟨cv, hcv, rfl⟩ := mem_map.1 hmem
      obtain ⟨l, r, hsplit⟩ := append_of_mem hcv
      obtain ⟨hold, hkept⟩ := filter_id_eq (hsplit ▸ hnd systemId)
      refine ⟨l, r, ?_, ?_⟩
      · rw [before, hsplit, hold]
        simp
      · rw [hsplit, hkept]
        simp [after]
  | createConcept d => exact splice_of_same hs (ir_of_add h).1 rfl
  | updateConcept id d | updateGlossaryTerm id d | updateObjectMapping id mapping
  | updateLinkMapping id mapping | updateNotationPattern id d | updateConceptMap id d
  | updateValueSet id d | updateRule id d =>
    obtain ⟨idx, hir⟩ := ir_of_replace (ok_of_withSameId h).2
    exact splice_of_same hs hir rfl
  | deleteConcept id | deleteGlossaryTerm id | deleteObjectMapping id | deleteLinkMapping id
  | deleteNotationPattern id | deleteConceptMap id | deleteValueSet id
  | deleteRule id => exact splice_of_same hs (ir_of_remove h) rfl
  | createGlossaryTerm d | createObjectMapping mapping | createLinkMapping mapping
  | createNotationPattern d | createConceptMap d | createValueSet d
  | createRule d => exact splice_of_same hs (ir_of_add h).1 rfl
  | deprecateNodeType id replacedById =>
    change markNodeType now id replacedById s = .ok t at h
    unfold markNodeType at h
    split at h
    · cases h
    · cases h
      exact splice_of_same hs rfl rfl
  | deprecateEdgeType id replacedById =>
    change markEdgeType now id replacedById s = .ok t at h
    unfold markEdgeType at h
    split at h
    · cases h
    · cases h
      exact splice_of_same hs rfl rfl
  | bindProperty owner propertyId binding | unbindProperty owner propertyId target =>
    exact splice_of_same hs rfl (codeSystems_mutateProperty h)

/-! ## Class and scope against the effect -/

/-- The class says when a code is retired, and the declared scope bounds the
number of codes that change. -/
structure Bounded (op : OntologyEditOp) (old new : List CodedValue) : Prop where
  retires : RetiresCode old new → op.classifyChangeType = .codedValueDeprecate
  changes : changes CodedValue.id old new ≤ op.codeCount

/-- A system is replaced by one that still has its codes and deprecates none of
them anew, a code is not deprecated by an update, and no count of codes wraps
around at 32 bits. -/
def KeepsCodes (o : OntologyIR) : OntologyEditOp → Prop
  | createCodeSystem d => d.codes.length < 2 ^ 32
  | updateCodeSystem id d =>
    (∀ cv ∈ o.codesOf id, ∃ cv' ∈ d.codes, cv'.id = cv.id) ∧
    (∀ cv ∈ o.codesOf id, ∀ cv' ∈ d.codes, cv'.id = cv.id → cv.deprecatedAt = none →
      cv'.deprecatedAt = none) ∧
    (d.codes.filter fun cv => cv ∉ o.codesOf id).length ≤ d.codes.length % 2 ^ 32
  | deleteCodeSystem id => (o.codesOf id).length < 2 ^ 32
  | updateCodedValue systemId id value =>
    ∀ cv ∈ o.codesOf systemId, cv.id = id → cv.deprecatedAt = none → value.deprecatedAt = none
  | _ => True

theorem bounded_splice (h : Splice CodedValue.id old new a b) :
    op.Bounded old new ↔ op.Bounded a b := by
  constructor
  · intro hb
    exact ⟨fun hr => hb.retires ((retiresCode_splice h).2 hr), h.changes_eq ▸ hb.changes⟩
  · intro hb
    exact ⟨fun hr => hb.retires ((retiresCode_splice h).1 hr), h.changes_eq ▸ hb.changes⟩

theorem bounded_nil : op.Bounded [] [] :=
  ⟨fun hr => by simp [RetiresCode] at hr, Nat.zero_le _⟩

theorem bounded_added_iff : op.Bounded [] new ↔ new.length ≤ op.codeCount := by
  have hchanges : changes CodedValue.id [] new = new.length := by
    simp [changes, unmatched, altered]
  constructor
  · intro hb
    exact hchanges ▸ hb.changes
  · intro hle
    exact ⟨fun hr => by simp [RetiresCode] at hr, hchanges ▸ hle⟩

theorem bounded_removed_iff (hop : op.classifyChangeType = .codedValueDeprecate) :
    op.Bounded old [] ↔ old.length ≤ op.codeCount := by
  have hchanges : changes CodedValue.id old [] = old.length := by
    simp [changes, unmatched, altered]
  constructor
  · intro hb
    exact hchanges ▸ hb.changes
  · intro hle
    exact ⟨fun _ => hop, hchanges ▸ hle⟩

theorem bounded_replaced_iff (hop : op.classifyChangeType = .codedValueCreate) :
    op.Bounded old new ↔ (∀ cv ∈ old, ∃ cv' ∈ new, cv'.id = cv.id) ∧
      (∀ cv ∈ old, ∀ cv' ∈ new, cv'.id = cv.id → cv.deprecatedAt = none → cv'.deprecatedAt = none) ∧
      (new.filter fun cv => cv ∉ old).length ≤ op.codeCount := by
  have hkept : unmatched CodedValue.id old (new.map (·.id)) = [] ↔
      ∀ cv ∈ old, ∃ cv' ∈ new, cv'.id = cv.id := by
    rw [unmatched_nil_iff]
    simp only [mem_map, forall_exists_index, and_imp, forall_apply_eq_imp_iff₂]
  have hretires : ¬RetiresCode old new ↔
      (∀ cv ∈ old, ∃ cv' ∈ new, cv'.id = cv.id) ∧
      ∀ cv ∈ old, ∀ cv' ∈ new, cv'.id = cv.id → cv.deprecatedAt = none →
        cv'.deprecatedAt = none := by
    rw [retiresCode_iff_unmatched, not_or, ne_eq, not_not, hkept]
    refine and_congr_right fun _ => ?_
    push Not
    exact Iff.rfl
  have hclass : (RetiresCode old new → op.classifyChangeType = .codedValueDeprecate) ↔
      ¬RetiresCode old new := by
    rw [hop]
    exact ⟨fun h hr => absurd (h hr) (by decide), fun h hr => absurd hr h⟩
  constructor
  · intro hb
    obtain ⟨hids, hmarks⟩ := hretires.1 (hclass.1 hb.retires)
    refine ⟨hids, hmarks, ?_⟩
    rw [← changes_of_kept CodedValue.id (hkept.2 hids)]
    exact hb.changes
  · rintro ⟨hids, hmarks, hle⟩
    refine ⟨hclass.2 (hretires.2 ⟨hids, hmarks⟩), ?_⟩
    rw [changes_of_kept CodedValue.id (hkept.2 hids)]
    exact hle

/-- On distinct ids, at most one code carries an id. -/
theorem filter_id_cases {codes : List CodedValue} (hnd : (codes.map (·.id)).Nodup)
    (id : CodedValueId) : (codes.filter (fun cv => cv.id = id) = [] ∧ ∀ cv ∈ codes, cv.id ≠ id) ∨
      ∃ cv ∈ codes, cv.id = id ∧ codes.filter (fun cv => cv.id = id) = [cv] := by
  by_cases hmem : id ∈ codes.map (·.id)
  · obtain ⟨cv, hcv, rfl⟩ := mem_map.1 hmem
    obtain ⟨l, r, hsplit⟩ := append_of_mem hcv
    exact .inr ⟨cv, hcv, rfl, by rw [hsplit, (filter_id_eq (hsplit ▸ hnd)).1]⟩
  · left
    have hne (cv : CodedValue) (hcv : cv ∈ codes) : cv.id ≠ id :=
      fun hid => hmem (mem_map.2 ⟨cv, hcv, hid⟩)
    exact ⟨filter_eq_nil_iff.2 (by simpa using hne), hne⟩

/-- The class and the declared scope of an edit that goes through bound what it
does to the coded values exactly when it keeps the codes. -/
theorem applyTo_bounded_iff {s t : OntologyState} {now : DateTime} {op : OntologyEditOp}
    (hs : s.Agrees) (h : op.applyTo now s = .ok t) :
    op.Bounded s.ir.codedValues t.ir.codedValues ↔ op.KeepsCodes s.ir := by
  rw [bounded_splice (splice_applyTo hs h)]
  have hnd (id : CodeSystemId) := nodup_codesOf hs.indexed id
  cases op with
  | createCodeSystem d =>
    refine bounded_added_iff.trans ?_
    change d.codes.length ≤ d.codes.length % 2 ^ 32 ↔ d.codes.length < 2 ^ 32
    omega
  | updateCodeSystem id d => exact bounded_replaced_iff rfl
  | deleteCodeSystem id =>
    refine (bounded_removed_iff rfl).trans ?_
    change (s.ir.codesOf id).length ≤ 2 ^ 32 - 1 ↔ (s.ir.codesOf id).length < 2 ^ 32
    omega
  | createCodedValue systemId value =>
    exact iff_of_true (bounded_added_iff.2 (Nat.le_refl 1)) trivial
  | updateCodedValue systemId id value =>
    have hid : value.id = id := congrArg CodedValueId.mk (ok_of_withSameId h).1
    have hbefore : (updateCodedValue systemId id value).before s.ir =
        (s.ir.codesOf systemId).filter fun cv => cv.id = id := rfl
    rcases filter_id_cases (hnd systemId) id with ⟨hnone, hne⟩ | ⟨cv, hcv, hcvid, hone⟩
    · rw [hbefore, hnone]
      refine iff_of_true (bounded_added_iff.2 (Nat.le_refl 1)) ?_
      exact fun cv hcv hcvid => absurd hcvid (hne cv hcv)
    · rw [hbefore, hone, bounded_replaced_iff rfl]
      have hunique (c : CodedValue) (hc : c ∈ s.ir.codesOf systemId) (hcid : c.id = id) :
          c = cv := inj_on_of_nodup_map (hnd systemId) hc hcv (hcid.trans hcvid.symm)
      constructor
      · rintro ⟨-, hmarks, -⟩ c hc hcid hnone
        rw [hunique c hc hcid] at hnone
        exact hmarks cv (mem_singleton_self _) value (mem_singleton_self _)
          (hid.trans hcvid.symm) hnone
      · intro hkeeps
        refine ⟨?_, ?_, ?_⟩
        · intro c hc
          rw [mem_singleton.1 hc]
          exact ⟨value, mem_singleton_self _, hid.trans hcvid.symm⟩
        · intro c hc c' hc' _ hnone
          rw [mem_singleton.1 hc] at hnone
          rw [mem_singleton.1 hc']
          exact hkeeps cv hcv hcvid hnone
        · exact (length_filter_le ..).trans (Nat.le_refl 1)
  | deleteCodedValue systemId id =>
    refine iff_of_true ((bounded_removed_iff rfl).2 ?_) trivial
    change ((s.ir.codesOf systemId).filter fun cv => cv.id = id).length ≤ 1
    rcases filter_id_cases (hnd systemId) id with ⟨hnone, -⟩ | ⟨cv, -, -, hone⟩
    · rw [hnone]
      exact Nat.zero_le 1
    · rw [hone]
      exact Nat.le_refl 1
  | _ => exact iff_of_true bounded_nil trivial

/-! ## An order status with two codes -/

def orderStatus (codes : List CodedValue) : CodeSystemDef := { id := ⟨"status"⟩, codes := codes }

def statusState (codes : List CodedValue) : OntologyState :=
  ofIR { id := "onto", name := "Shop", nodeTypes := [], codeSystems := [orderStatus codes] }

def openAndClosed : List CodedValue :=
  [{ id := ⟨"o"⟩, code := "OPEN" }, { id := ⟨"c"⟩, code := "CLOSED" }]

/-- The same with a new code for the closed one. -/
def openAndDone : List CodedValue :=
  [{ id := ⟨"o"⟩, code := "OPEN" }, { id := ⟨"c"⟩, code := "DONE" }]

/-- The edit that gives the closed status its new code. -/
def renameClosed : OntologyEditOp :=
  updateCodedValue ⟨"status"⟩ ⟨"c"⟩ { id := ⟨"c"⟩, code := "DONE" }

theorem statusState_agrees : (statusState openAndClosed).Agrees :=
  agrees_ofIR.2 ((rebuild_ok_iff _).1 rfl)

/-- A code of the system is renamed. -/
theorem applyTo_bounded_rename : renameClosed.Bounded (statusState openAndClosed).ir.codedValues
      (statusState openAndDone).ir.codedValues :=
  have hrename : renameClosed.applyTo 0 (statusState openAndClosed) =
      .ok (statusState openAndDone) := rfl
  (applyTo_bounded_iff statusState_agrees hrename).2 fun _ _ _ _ => rfl

/-- The system is replaced by one without codes: both codes go, under the class
for new codes and with a declared scope of zero. -/
theorem updateCodeSystem_retires_codes : (statusState openAndClosed).Agrees ∧
      (updateCodeSystem ⟨"status"⟩ (orderStatus [])).applyTo 0 (statusState openAndClosed) =
        .ok (statusState []) ∧ ¬(updateCodeSystem ⟨"status"⟩ (orderStatus [])).Bounded
        (statusState openAndClosed).ir.codedValues (statusState []).ir.codedValues := by
  refine ⟨statusState_agrees, rfl, fun h => ?_⟩
  have hretires : RetiresCode openAndClosed [] := .inl ⟨_, mem_cons_self .., by decide⟩
  exact absurd (h.retires hretires) (by decide)

end OntologyEditOp

end Ontosyx.Ontology
