import Ontosyx.Ontology.Atomicity
import Ontosyx.Store.Entities

/-!
# Adding entries one after the other

A mutator sees the entries that were added before.  The terms, the concepts and the code systems
of an ontology go in exactly when each comes after those it refers to, and then no chain of
references runs into a cycle.

## Main results

* `addAll_add_iff` — when the entries of a collection go in.
* `terms_in_turn_iff`, `concepts_in_turn_iff`, `systems_in_turn_iff` — which orders go through.
-/

namespace Ontosyx.Store

open List Ontosyx.Core Option Ontology Lib.Checked Lib.Keyed Lib.Positions OntologyState

/-! ## Entries in turn -/

section

variable {α κ : Type}

/-- Every entry stands in the relation to the ones before it. -/
def InTurn (R : List α → α → Prop) (ds : List α) : Prop :=
  ∀ pre d post, ds = pre ++ d :: post → R pre d

variable {R : List α → α → Prop}

theorem inTurn_nil : InTurn R [] := by
  intro pre d post h
  simp at h

variable {ds : List α}

theorem inTurn_cons {d : α} :
    InTurn R (d :: ds) ↔ R [] d ∧ InTurn (fun pre => R (d :: pre)) ds := by
  constructor
  · intro h
    refine ⟨h [] d ds rfl, fun pre x post hds => ?_⟩
    exact h (d :: pre) x post (by rw [hds, cons_append])
  · intro ⟨hd, hds⟩ pre x post h
    cases pre with
    | nil =>
      rw [nil_append, cons_eq_cons] at h
      exact h.1 ▸ hd
    | cons y pre =>
      rw [cons_append, cons_eq_cons] at h
      exact h.1 ▸ hds pre x post h.2

theorem InTurn.mono {R' : List α → α → Prop} (h : InTurn R ds)
    (hR : ∀ pre d post, ds = pre ++ d :: post → R pre d → R' pre d) : InTurn R' ds :=
  fun pre d post hds => hR pre d post hds (h pre d post hds)

theorem inTurn_congr {R' : List α → α → Prop} (hR : ∀ pre d, R pre d ↔ R' pre d) :
    InTurn R ds ↔ InTurn R' ds :=
  ⟨fun h => h.mono fun pre d _ _ => (hR pre d).1, fun h => h.mono fun pre d _ _ => (hR pre d).2⟩

theorem inTurn_of_forall (h : ∀ pre, ∀ d ∈ ds, R pre d) : InTurn R ds :=
  fun pre d post hds => h pre d (by simp [hds])

theorem inTurn_const_iff {P : α → Prop} : InTurn (fun _ => P) ds ↔ ∀ d ∈ ds, P d := by
  refine ⟨fun h d hd => ?_, fun h => inTurn_of_forall fun _ => h⟩
  obtain ⟨pre, post, hds⟩ := append_of_mem hd
  exact h pre d post hds

theorem InTurn.of_append {xs ys : List α} (h : InTurn R (xs ++ ys)) : InTurn R xs := by
  intro pre d post hxs
  exact h pre d (post ++ ys) (by rw [hxs, append_assoc, cons_append])

/-- The first comes before the second. -/
def Precedes (ids : List κ) (a b : κ) : Prop := ∃ pre post, ids = pre ++ b :: post ∧ a ∈ pre

/-- With distinct ids, every entry comes after what it refers to when it does so in turn. -/
theorem inTurn_iff_precedes {key : α → κ} {refs : α → List κ} (hnd : (ds.map key).Nodup) :
    InTurn (fun pre d => ∀ k ∈ refs d, k ∈ pre.map key) ds ↔
      ∀ d ∈ ds, ∀ k ∈ refs d, Precedes (ds.map key) k (key d) := by
  constructor
  · intro h d hd k hk
    obtain ⟨pre, post, rfl⟩ := append_of_mem hd
    exact ⟨pre.map key, post.map key, by rw [map_append, map_cons],
      h pre d post rfl k hk⟩
  · intro h pre d post hds k hk
    subst hds
    obtain ⟨pre', post', hsplit, hmem⟩ := h d (by simp) k hk
    rw [map_append, map_cons] at hsplit hnd
    have hpre : pre.map key = pre' := by
      rw [nodup_append, nodup_cons] at hnd
      refine ((append_cons_inj_of_notMem ?_ hnd.2.1.1).1 hsplit).1
      exact fun hmem => hnd.2.2 _ hmem _ mem_cons_self rfl
    rwa [hpre]

end

/-! ## The entries of a collection -/

section

variable {α κ : Type} [DecidableEq κ] (S : Slot α κ)
  {check : OntologyState → α → Except OntologyInvariantError Unit} {o : OntologyIR} {step : String}

theorem addAll_nil (add : α → OntologyState → Outcome Unit) (ir : OntologyState) :
    addAll step add [] ir = .ok ir := rfl

theorem addAll_cons (add : α → OntologyState → Outcome Unit) (d : α) (ds : List α)
    (ir : OntologyState) : addAll step add (d :: ds) ir =
      (add d ir).1.mapError (.rejected step) >>= fun _ => addAll step add ds (add d ir).2 := by
  unfold addAll
  rw [foldlM_cons]
  cases (add d ir).1 <;> rfl

variable {ds : List α} {t : OntologyState}

/-- A loop that goes through, without its errors. -/
theorem addEach_eq_of_addAll {add : α → OntologyState → Outcome Unit} {ir : OntologyState}
    (h : addAll step add ds ir = .ok t) : addEach (fun d ir => (add d ir).2) ds ir = t := by
  induction ds generalizing ir with
  | nil => exact Except.ok.inj h
  | cons d ds ih =>
    rw [addAll_cons, bind_eq_ok_iff] at h
    obtain ⟨_, -, hrest⟩ := h
    exact ih hrest

variable {d : α} {done : List α}

/-- The next of an indexed collection has no place yet. -/
theorem idx_eq_none (h : (S.put o (done ++ [d])).Indexed) :
    S.idx (ofIR (S.put o done)).lookup (S.key d) = none := by
  have hnd := S.nodup_of_indexed _ h
  rw [S.items_put, map_append, nodup_append_comm, map_singleton,
    singleton_append, nodup_cons] at hnd
  have hlookup : S.idx (ofIR (S.put o done)).lookup = position S.key done := by
    rw [ofIR, S.idx_indices, S.items_put]
  rw [hlookup, ← not_isSome_iff_eq_none, position_isSome_iff]
  exact hnd.1

variable (hput : ∀ o xs ys, S.put (S.put o xs) ys = S.put o ys)
include hput

/-- Entries of an indexed collection, one less. -/
theorem indexed_of_append {xs ys : List α} (h : (S.put o (xs ++ ys)).Indexed) :
    (S.put o xs).Indexed := by
  have hnd := S.nodup_of_indexed _ h
  have hsound := S.sound_of_indexed _ h
  rw [S.items_put] at hnd hsound
  rw [← hput o (xs ++ ys) xs]
  exact S.indexed_put _ _ h (hnd.sublist ((sublist_append_left xs ys).map _))
    (S.sound_of_sublist _ _ (sublist_append_left xs ys) hsound)

theorem put_items_append (done : List α) (d : α) : S.put (ofIR (S.put o done)).ir
      (S.items (ofIR (S.put o done)).ir ++ [d]) = S.put o (done ++ [d]) := by
  rw [ofIR, S.items_put, hput]

/-- One entry goes in when it passes its check. -/
theorem add_ofIR {done : List α} {d : α} (h : (S.put o (done ++ [d])).Indexed) :
    S.add check d (ofIR (S.put o done)) =
      match check (ofIR (S.put o done)) d with
      | .error e => (.error e, ofIR (S.put o done))
      | .ok () => (.ok (), ofIR (S.put o (done ++ [d]))) := by
  have hnew := idx_eq_none S h
  unfold Slot.add
  rw [hnew, if_neg (by simp)]
  cases check (ofIR (S.put o done)) d with
  | error e => rfl
  | ok u =>
    rw [put_items_append S hput]
    exact rebuild_of_indexed h

theorem addAll_add_from (step : String)
    (check : OntologyState → α → Except OntologyInvariantError Unit) (done ds : List α)
    (h : (S.put o (done ++ ds)).Indexed) (t : OntologyState) :
    addAll step (S.add check) ds (ofIR (S.put o done)) = .ok t ↔
      InTurn (fun pre d => check (ofIR (S.put o (done ++ pre))) d = .ok ()) ds ∧
        t = ofIR (S.put o (done ++ ds)) := by
  induction ds generalizing done with
  | nil =>
    rw [addAll_nil, append_nil, and_iff_right inTurn_nil, Except.ok.injEq, eq_comm]
  | cons d ds ih =>
    rw [append_cons] at h
    rw [addAll_cons, add_ofIR S hput (indexed_of_append S hput h), inTurn_cons, append_nil]
    cases check (ofIR (S.put o done)) d with
    | error e => simp [Except.mapError, bind, Except.bind]
    | ok u =>
      have hrest := ih (done ++ [d]) h
      simp only [append_assoc, cons_append, nil_append] at hrest
      rw [and_iff_right rfl]
      exact hrest

/-- The entries of an empty collection go in when each passes its check in turn. -/
theorem addAll_add_iff (hempty : S.items o = []) (h : (S.put o ds).Indexed) :
    addAll step (S.add check) ds (ofIR o) = .ok t ↔
      InTurn (fun pre d => check (ofIR (S.put o pre)) d = .ok ()) ds ∧
        t = ofIR (S.put o ds) := by
  have hstart : S.put o [] = o := by rw [← hempty, S.put_items]
  have hall := addAll_add_from S hput step check [] ds h t
  rwa [hstart] at hall

omit hput in
theorem ofIR_of_rebuild {s : OntologyState} (h : s.rebuild.1 = .ok ()) :
    s.rebuild.2 = ofIR s.ir ∧ s.ir.Indexed := by
  by_cases hindexed : s.ir.Indexed
  · rw [rebuild_of_indexed hindexed]
    exact ⟨rfl, hindexed⟩
  · obtain ⟨e, he⟩ := rebuild_of_not_indexed hindexed
    rw [he] at h
    cases h

/-- An entry that went in is there, and the vectors are indexed. -/
theorem ofIR_of_add (h : (S.add check d (ofIR (S.put o done))).1 = .ok ()) :
    (S.add check d (ofIR (S.put o done))).2 =
        ofIR (S.put o (done ++ [d])) ∧ (S.put o (done ++ [d])).Indexed := by
  unfold Slot.add at h ⊢
  split at h
  · cases h
  · rename_i hnew
    rw [if_neg hnew]
    split at h
    · cases h
    · rw [put_items_append S hput] at h ⊢
      exact ofIR_of_rebuild h

/-- A new entry that went in is there, and the vectors are indexed. -/
theorem ofIR_of_upsert (hnew : S.key d ∉ done.map S.key)
    (h : (S.upsert d (ofIR (S.put o done))).rebuild.1 = .ok ()) :
    (S.upsert d (ofIR (S.put o done))).rebuild.2 =
        ofIR (S.put o (done ++ [d])) ∧ (S.put o (done ++ [d])).Indexed := by
  have hidx : S.idx (ofIR (S.put o done)).lookup (S.key d) = none := by
    have hlookup : S.idx (ofIR (S.put o done)).lookup = position S.key done := by
      rw [ofIR, S.idx_indices, S.items_put]
    rwa [hlookup, ← not_isSome_iff_eq_none, position_isSome_iff]
  have hnext : S.upsert d (ofIR (S.put o done)) =
      (ofIR (S.put o done)).withIR (S.put o (done ++ [d])) := by
    rw [Slot.upsert, hidx]
    rw [put_items_append S hput]
  rw [hnext] at h ⊢
  exact ofIR_of_rebuild h

omit hput in
theorem ofIR_of_addAll_from {add : α → OntologyState → Outcome Unit} (done ds : List α)
    (hstep : ∀ pre d post, ds = pre ++ d :: post →
      (add d (ofIR (S.put o (done ++ pre)))).1 = .ok () →
        (add d (ofIR (S.put o (done ++ pre)))).2 =
          ofIR (S.put o (done ++ pre ++ [d])) ∧
        (S.put o (done ++ pre ++ [d])).Indexed) (ho : (S.put o done).Indexed)
    (h : addAll step add ds (ofIR (S.put o done)) = .ok t) :
    t = ofIR (S.put o (done ++ ds)) ∧ (S.put o (done ++ ds)).Indexed := by
  induction ds generalizing done with
  | nil =>
    rw [append_nil]
    exact ⟨(Except.ok.inj h).symm, ho⟩
  | cons d ds ih =>
    rw [addAll_cons, bind_eq_ok_iff] at h
    obtain ⟨u, hadd, hrest⟩ := h
    have hok : (add d (ofIR (S.put o done))).1 = .ok () := by
      cases hres : (add d (ofIR (S.put o done))).1 with
      | error e =>
        rw [hres] at hadd
        cases hadd
      | ok u => rfl
    obtain ⟨heq, hindexed⟩ := hstep [] d ds rfl (by rwa [append_nil])
    rw [append_nil] at heq hindexed
    rw [heq] at hrest
    rw [append_cons]
    refine ih (done ++ [d]) (fun pre x post hds => ?_) hindexed hrest
    have hnext := hstep (d :: pre) x post (by rw [hds, cons_append])
    rwa [append_cons] at hnext

/-- Entries that went in are there, and the vectors are indexed. -/
theorem ofIR_of_addAll_add (hempty : S.items o = []) (ho : o.Indexed)
    (h : addAll step (S.add check) ds (ofIR o) = .ok t) :
    t = ofIR (S.put o ds) ∧ (S.put o ds).Indexed := by
  have hstart : S.put o [] = o := by rw [← hempty, S.put_items]
  have hbegin : (S.put o []).Indexed := by rwa [hstart]
  rw [← hstart] at h
  exact ofIR_of_addAll_from S [] ds (fun pre d _ _ => ofIR_of_add S hput) hbegin h

theorem ofIR_of_addAll_upsert (hempty : S.items o = []) (ho : o.Indexed)
    (hnd : (ds.map S.key).Nodup)
    (h : addAll step (fun d ir => (S.upsert d ir).rebuild) ds (ofIR o) = .ok t) :
    t = ofIR (S.put o ds) ∧ (S.put o ds).Indexed := by
  have hstart : S.put o [] = o := by rw [← hempty, S.put_items]
  have hbegin : (S.put o []).Indexed := by rwa [hstart]
  rw [← hstart] at h
  refine ofIR_of_addAll_from S [] ds (fun pre d post hds => ofIR_of_upsert S hput ?_) hbegin h
  rw [hds, map_append, map_cons, nodup_append] at hnd
  exact fun hmem => hnd.2.2 _ hmem _ mem_cons_self rfl

/-- Entries that are not checked go in. -/
theorem addAll_unchecked (hempty : S.items o = []) (h : (S.put o ds).Indexed) :
    addAll step (S.add unchecked) ds (ofIR o) =
      .ok (ofIR (S.put o ds)) :=
  (addAll_add_iff S hput hempty h).2 ⟨fun _ _ _ _ => rfl, rfl⟩

/-- A new entry is put behind the others. -/
theorem upsert_ofIR (h : (S.put o (done ++ [d])).Indexed) :
    (S.upsert d (ofIR (S.put o done))).rebuild =
      (.ok (), ofIR (S.put o (done ++ [d]))) := by
  have hnew : S.idx (ofIR (S.put o done)).lookup (S.key d) = none :=
    idx_eq_none S h
  rw [Slot.upsert, hnew]
  rw [put_items_append S hput]
  exact rebuild_of_indexed h

theorem addAll_upsert_from (step : String) (done ds : List α) (h : (S.put o (done ++ ds)).Indexed) :
    addAll step (fun d ir => (S.upsert d ir).rebuild) ds (ofIR (S.put o done)) =
      .ok (ofIR (S.put o (done ++ ds))) := by
  induction ds generalizing done with
  | nil => rw [addAll_nil, append_nil]
  | cons d ds ih =>
    rw [append_cons] at h
    rw [addAll_cons, upsert_ofIR S hput (indexed_of_append S hput h), append_cons done d ds]
    exact ih (done ++ [d]) h

/-- New entries are upserted one behind the other. -/
theorem addAll_upsert (step : String) (hempty : S.items o = []) (h : (S.put o ds).Indexed) :
    addAll step (fun d ir => (S.upsert d ir).rebuild) ds (ofIR o) =
      .ok (ofIR (S.put o ds)) := by
  have hstart : S.put o [] = o := by rw [← hempty, S.put_items]
  have hall := addAll_upsert_from S hput step [] ds h
  rwa [hstart] at hall

theorem addEach_upsert (hempty : S.items o = []) (h : (S.put o ds).Indexed) :
    addEach (fun d ir => (S.upsert d ir).rebuild.2) ds (ofIR o) =
      ofIR (S.put o ds) :=
  addEach_eq_of_addAll (addAll_upsert S hput "" hempty h)

end

section

variable {κ : Type} [DecidableEq κ]

/-- A chain along which the rank falls reaches no id twice. -/
theorem repeatedId_eq_none {next : κ → Option κ} (rank : κ → ℕ)
    (h : ∀ id id', next id = some id' → rank id' < rank id) (fuel : ℕ) (seen : List κ) (id : κ)
    (hseen : ∀ s ∈ seen, rank id < rank s) : repeatedId next fuel seen id = none := by
  induction fuel generalizing seen id with
  | zero => rfl
  | succ fuel ih =>
    rw [repeatedId, if_neg fun hmem => (hseen id hmem).false]
    cases hnext : next id with
    | none => rfl
    | some id' =>
      refine ih _ _ fun s hs => ?_
      rcases mem_cons.1 hs with rfl | hs
      · exact h _ _ hnext
      · exact (h _ _ hnext).trans (hseen s hs)

theorem Precedes.idxOf_lt {ids : List κ} (hnd : ids.Nodup) {a b : κ} (h : Precedes ids a b) :
    ids.idxOf a < ids.idxOf b := by
  obtain ⟨pre, post, rfl, ha⟩ := h
  have hb : b ∉ pre := by
    rw [nodup_append] at hnd
    exact fun hb => hnd.2.2 b hb b mem_cons_self rfl
  rw [idxOf_append_of_mem ha, idxOf_append_of_notMem hb, idxOf_cons_self]
  exact Nat.lt_add_right _ (idxOf_lt_length_of_mem ha)

/-- References that come before rank lower: the rank of an entry is its place. -/
theorem InTurn.exists_rank {α : Type} {key : α → κ} {refs : α → List κ} {ds : List α}
    (hnd : (ds.map key).Nodup) (h : InTurn (fun pre d => ∀ k ∈ refs d, k ∈ pre.map key) ds) :
    ∃ rank : κ → ℕ, ∀ d ∈ ds, ∀ k ∈ refs d, rank k < rank (key d) :=
  ⟨(ds.map key).idxOf, fun d hd k hk => ((inTurn_iff_precedes hnd).1 h d hd k hk).idxOf_lt hnd⟩

section

variable {α : Type} {key : α → κ} {refs : α → List κ} {pre : List α} {d : α}

/-- An entry that is overlaid on the ones before it. -/
theorem mem_of_overlay {byId : κ → Option α}
    (hbyId : ∀ id x, byId id = some x → x ∈ pre ∧ key x = id) (id : κ) (x : α)
    (hx : (if id = key d then some d else byId id) = some x) : x ∈ pre ++ [d] ∧ key x = id := by
  split at hx
  · rename_i hid
    cases hx
    exact ⟨by simp, hid.symm⟩
  · obtain ⟨hmem, hid⟩ := hbyId id x hx
    exact ⟨mem_append_left _ hmem, hid⟩

variable (hnd : ((pre ++ [d]).map key).Nodup)
  (h : InTurn (fun pre d => ∀ k ∈ refs d, k ∈ pre.map key) (pre ++ [d]))
include hnd h

omit [DecidableEq κ] in
/-- What the last entry refers to is another one, and before it. -/
theorem InTurn.ne_and_mem {k : κ} (hk : k ∈ refs d) : k ≠ key d ∧ k ∈ pre.map key := by
  rw [map_append, nodup_append_comm, map_singleton, singleton_append, nodup_cons] at hnd
  exact ⟨fun heq => hnd.1 (heq ▸ h pre d [] rfl k hk), h pre d [] rfl k hk⟩

/-- A chain of references, from anywhere or on from the last entry, reaches no id twice. -/
theorem InTurn.repeatedId_eq_none {byId : κ → Option α} {next : α → Option κ}
    (hbyId : ∀ id x, byId id = some x → x ∈ pre ++ [d] ∧ key x = id)
    (hnext : ∀ x k, next x = some k → k ∈ refs x) (fuel : ℕ) {seen : List κ} {id : κ}
    (hseen : ∀ s ∈ seen, s = key d ∧ id ∈ refs d) :
    repeatedId (fun id => (byId id).bind next) fuel seen id = none := by
  obtain ⟨rank, hrank⟩ := h.exists_rank hnd
  refine Store.repeatedId_eq_none rank (fun id id' hid => ?_) _ _ _ fun s hs => ?_
  · obtain ⟨x, hx, hk⟩ := bind_eq_some_iff.1 hid
    obtain ⟨hmem, rfl⟩ := hbyId id x hx
    exact hrank x hmem id' (hnext x id' hk)
  · rw [(hseen s hs).1]
    exact hrank d (by simp) id (hseen s hs).2

end

end

/-- A walk over broader terms along which the rank falls reaches no term again. -/
theorem broaderCycle_eq_none {byId : GlossaryTermId → Option GlossaryTermDef}
    (rank : GlossaryTermId → ℕ)
    (h : ∀ id t, byId id = some t → ∀ k ∈ broaderTerms t, rank k < rank id)
    (fuel : ℕ) (path : List GlossaryTermId) (id : GlossaryTermId)
    (hpath : ∀ s ∈ path, rank id < rank s) :
    broaderCycle byId fuel path id = none := by
  induction fuel generalizing path id with
  | zero => rfl
  | succ fuel ih =>
    rw [broaderCycle, if_neg fun hmem => (hpath id hmem).false,
      findSome?_eq_none_iff]
    intro k hk
    rw [mem_reverse] at hk
    cases hid : byId id with
    | none =>
      rw [hid] at hk
      cases hk
    | some t =>
      rw [hid] at hk
      have hlt : rank k < rank id := h id t hid k (by simpa using hk)
      refine ih _ _ fun s hs => ?_
      rcases mem_append.1 hs with hs | hs
      · exact hlt.trans (hpath s hs)
      · rw [mem_singleton.1 hs]
        exact hlt

def termReferences (t : GlossaryTermDef) : List GlossaryTermId :=
  (replacement t).toList ++ t.relatedTerms.map (·.target)

variable {o : OntologyIR} {pre : List GlossaryTermDef}

theorem mem_of_termById {id : GlossaryTermId} {t : GlossaryTermDef}
    (h : (ofIR { o with glossary := pre }).glossaryTermById id = some t) :
    t ∈ pre ∧ t.id = id := mem_of_position_bind h

theorem termIdIdx_isNone_iff {id : GlossaryTermId} :
    ((ofIR { o with glossary := pre }).lookup.glossaryTermIdIdx id).isNone = true ↔
      id ∉ pre.map (·.id) := by
  rw [← position_isSome_iff, ← not_isSome, Bool.not_eq_true', Bool.not_eq_true]
  rfl

/-- A term goes in when it comes after those it refers to, as those before it do. -/
theorem validateTerm_of_inTurn {d : GlossaryTermDef} (hnd : ((pre ++ [d]).map (·.id)).Nodup)
    (h : InTurn (fun pre d => ∀ k ∈ termReferences d, k ∈ pre.map (·.id)) (pre ++ [d])) :
    (ofIR { o with glossary := pre }).validateGlossaryTermReferences d = .ok () := by
  obtain ⟨rank, hrank⟩ := h.exists_rank hnd
  have hbyId : ∀ id t, (if id = d.id then some d
      else (ofIR { o with glossary := pre }).glossaryTermById id) = some t →
      t ∈ pre ++ [d] ∧ t.id = id := mem_of_overlay fun _ _ => mem_of_termById
  unfold validateGlossaryTermReferences
  simp only [seq_eq_ok_iff, forM_eq_ok_iff, rejectIf_ok_iff, rejectCycle_ok_iff,
    map_eq_none_iff, termIdIdx_isNone_iff, not_or, not_not]
  refine ⟨fun k hk => h.ne_and_mem hnd (mem_append_left _ hk), ?_,
    fun r hr => h.ne_and_mem hnd (mem_append_right _ (mem_map_of_mem hr)), ?_⟩
  · exact h.repeatedId_eq_none hnd hbyId
      (fun t k hk => mem_append_left _ (mem_toList.2 hk)) _ (by simp)
  · refine broaderCycle_eq_none rank (fun id t ht k hk => ?_) _ _ _ (by simp)
    obtain ⟨hmem, rfl⟩ := hbyId id t ht
    obtain ⟨r, hr, rfl⟩ := mem_map.1 hk
    exact hrank t hmem r.target (mem_append_right _ (mem_map_of_mem (mem_of_mem_filter hr)))

theorem references_of_validateTerm {d : GlossaryTermDef} (h : (ofIR
      { o with glossary := pre }).validateGlossaryTermReferences d = .ok ()) :
    ∀ k ∈ termReferences d, k ∈ pre.map (·.id) := by
  unfold validateGlossaryTermReferences at h
  simp only [seq_eq_ok_iff, forM_eq_ok_iff, rejectIf_ok_iff, termIdIdx_isNone_iff, not_or,
    not_not] at h
  intro k hk
  rcases mem_append.1 hk with hk | hk
  · exact (h.1 k hk).2
  · obtain ⟨r, hr, rfl⟩ := mem_map.1 hk
    exact (h.2.2.1 r hr).2

theorem terms_in_turn_iff {ts : List GlossaryTermDef} (hnd : (ts.map (·.id)).Nodup) :
    InTurn (fun pre d => (ofIR
        { o with glossary := pre }).validateGlossaryTermReferences d = .ok ()) ts ↔
      InTurn (fun pre d => ∀ k ∈ termReferences d, k ∈ pre.map (·.id)) ts := by
  refine ⟨fun h => h.mono fun _ _ _ _ => references_of_validateTerm, fun h => ?_⟩
  intro pre d post hts
  rw [hts, append_cons] at h hnd
  exact validateTerm_of_inTurn (hnd.sublist ((sublist_append_left _ _).map _)) h.of_append

def conceptReferences (c : ConceptDef) : List ConceptId :=
  c.broader.toList ++ c.replacedBy.toList

/-- The terms of a concept are there, and are its own. -/
def HasTerms (glossary : List GlossaryTermDef) (c : ConceptDef) : Prop :=
  ∀ termId ∈ c.canonicalTermId :: c.aliasTermIds,
    ∃ term, first (·.id) termId glossary = some term ∧ term.conceptId = some c.id

theorem conceptIdIdx_isNone_iff {pre : List ConceptDef} {id : ConceptId} :
    ((ofIR { o with concepts := pre }).lookup.conceptIdIdx id).isNone = true ↔
      id ∉ pre.map (·.id) := by
  rw [← position_isSome_iff, ← not_isSome, Bool.not_eq_true', Bool.not_eq_true]
  rfl

theorem validateConceptTerm_ok_iff {d : ConceptDef} {kind : String} {termId : GlossaryTermId} :
    (ofIR o).validateConceptTerm d kind termId = .ok () ↔
      ∃ term, first (·.id) termId o.glossary = some term ∧ term.conceptId = some d.id := by
  unfold validateConceptTerm ofIR
  cases first (·.id) termId o.glossary with
  | none => simp
  | some term => simp [rejectIf_ok_iff]

/-- A concept goes in when it comes after those it refers to, as those before it do. -/
theorem validateConcept_of_inTurn {pre : List ConceptDef} {d : ConceptDef}
    (hnd : ((pre ++ [d]).map (·.id)).Nodup)
    (h : InTurn (fun pre d => ∀ k ∈ conceptReferences d, k ∈ pre.map (·.id)) (pre ++ [d]))
    (hterms : HasTerms o.glossary d) :
    (ofIR { o with concepts := pre }).validateConceptReferences d = .ok () := by
  have hnd' : (pre.map (·.id)).Nodup := hnd.sublist ((sublist_append_left _ _).map _)
  rw [HasTerms, forall_mem_cons] at hterms
  unfold validateConceptReferences
  simp only [seq_eq_ok_iff, forM_eq_ok_iff, rejectIf_ok_iff, rejectCycle_ok_iff,
    map_eq_none_iff, conceptIdIdx_isNone_iff, validateConceptTerm_ok_iff, not_or, not_not]
  refine ⟨hterms.1, hterms.2, fun k hk => h.ne_and_mem hnd (mem_append_left _ hk),
    fun k hk => h.ne_and_mem hnd (mem_append_right _ hk), ?_, ?_⟩
  · exact h.repeatedId_eq_none hnd (mem_of_overlay fun _ _ => (first_some_iff _ hnd').1)
      (fun c k hk => mem_append_left _ (mem_toList.2 hk)) _ (by simp)
  · exact h.repeatedId_eq_none hnd (mem_of_overlay fun _ _ => (first_some_iff _ hnd').1)
      (fun c k hk => mem_append_right _ (mem_toList.2 hk)) _ (by simp)

theorem references_of_validateConcept {pre : List ConceptDef} {d : ConceptDef}
    (h : (ofIR { o with concepts := pre }).validateConceptReferences d = .ok ()) :
    ∀ k ∈ conceptReferences d, k ∈ pre.map (·.id) := by
  unfold validateConceptReferences at h
  simp only [seq_eq_ok_iff, forM_eq_ok_iff, rejectIf_ok_iff, conceptIdIdx_isNone_iff, not_or,
    not_not] at h
  intro k hk
  rcases mem_append.1 hk with hk | hk
  · exact (h.2.2.1 k hk).2
  · exact (h.2.2.2.1 k hk).2

theorem concepts_in_turn_iff {cs : List ConceptDef} (hnd : (cs.map (·.id)).Nodup)
    (hterms : ∀ c ∈ cs, HasTerms o.glossary c) :
    InTurn (fun pre d => (ofIR
        { o with concepts := pre }).validateConceptReferences d = .ok ()) cs ↔
      InTurn (fun pre d => ∀ k ∈ conceptReferences d, k ∈ pre.map (·.id)) cs := by
  refine ⟨fun h => h.mono fun _ _ _ _ => references_of_validateConcept, fun h => ?_⟩
  intro pre d post hcs
  have hd : d ∈ cs := by simp [hcs]
  rw [hcs, append_cons] at h hnd
  exact validateConcept_of_inTurn (hnd.sublist ((sublist_append_left _ _).map _))
    h.of_append (hterms d hd)

/-- The checks of a code system that ask nothing of the others. -/
structure CodesPass (d : CodeSystemDef) : Prop where
  sourceRef : ∀ sourceRef, d.kind = .external sourceRef → isBlank sourceRef = false
  codes : validateCodes [] [] d.codes = .ok ()
  pointers : ∀ cv ∈ d.codes, validateCodePointers d cv = .ok ()
  cycles : ∀ cv ∈ d.codes, validateCodeCycles d cv = .ok ()

theorem mem_of_systemById {pre : List CodeSystemDef} {id : CodeSystemId} {d : CodeSystemDef}
    (h : (ofIR { o with codeSystems := pre }).codeSystemById id = some d) :
    d ∈ pre ∧ d.id = id := mem_of_position_bind h

theorem systemById_isNone_iff {pre : List CodeSystemDef} {id : CodeSystemId} :
    ((ofIR { o with codeSystems := pre }).codeSystemById id).isNone = true ↔
      id ∉ pre.map (·.id) := by
  show ((position (·.id) pre id).bind fun i => pre[i]?).isNone = true ↔ _
  rw [← position_isSome_iff]
  cases hpos : position (·.id) pre id with
  | none => simp
  | some i =>
    obtain ⟨d, hd, -⟩ := getElem?_of_position hpos
    simp [hd]

theorem validateSystem_ok_iff {pre : List CodeSystemDef} {d : CodeSystemDef} :
    (ofIR { o with codeSystems := pre }).validateCodeSystemReferences d = .ok () ↔
      CodesPass d ∧ ∀ k ∈ d.replacedById, (k ≠ d.id ∧ k ∈ pre.map (·.id)) ∧
        repeatedId (fun id => ((ofIR
          { o with codeSystems := pre }).codeSystemById id).bind (·.replacedById))
          (pre.length + 2) [d.id] k = none := by
  have hrest : (ofIR
      { o with codeSystems := pre }).validateCodeSystemReferences d = .ok () ↔
      (∀ sourceRef, d.kind = .external sourceRef → isBlank sourceRef = false) ∧
        (∀ k ∈ d.replacedById, (k ≠ d.id ∧ k ∈ pre.map (·.id)) ∧
          repeatedId (fun id => ((ofIR
            { o with codeSystems := pre }).codeSystemById id).bind (·.replacedById))
            (pre.length + 2) [d.id] k = none) ∧
        validateCodes [] [] d.codes = .ok () ∧
        (∀ cv ∈ d.codes, validateCodePointers d cv = .ok ()) ∧
        ∀ cv ∈ d.codes, validateCodeCycles d cv = .ok () := by
    unfold validateCodeSystemReferences
    cases d.kind with
    | external sourceRef =>
      simp only [seq_eq_ok_iff, forM_eq_ok_iff, rejectIf_ok_iff, rejectCycle_ok_iff,
        map_eq_none_iff, systemById_isNone_iff, not_or, not_not, mem_toList]
      have hblank : (∀ ref, CodeSystemKind.external sourceRef = .external ref →
          isBlank ref = false) ↔ ¬ isBlank sourceRef = true := by simp
      rw [hblank]
      rfl
    | internal =>
      simp only [seq_eq_ok_iff, forM_eq_ok_iff, rejectIf_ok_iff, rejectCycle_ok_iff,
        map_eq_none_iff, systemById_isNone_iff, not_or, not_not, mem_toList]
      have hblank : ∀ ref, CodeSystemKind.internal = .external ref → isBlank ref = false := by simp
      rw [and_iff_right hblank]
      rfl
  rw [hrest]
  constructor
  · rintro ⟨hsource, hreplaced, hcodes, hpointers, hcycles⟩
    exact ⟨⟨hsource, hcodes, hpointers, hcycles⟩, hreplaced⟩
  · rintro ⟨hpass, hreplaced⟩
    exact ⟨hpass.sourceRef, hreplaced, hpass.codes, hpass.pointers, hpass.cycles⟩

/-- A code system goes in when its codes pass, and it comes after the one that replaces it. -/
theorem validateSystem_of_inTurn {pre : List CodeSystemDef} {d : CodeSystemDef}
    (hnd : ((pre ++ [d]).map (·.id)).Nodup)
    (h : InTurn (fun pre d => ∀ k ∈ d.replacedById.toList, k ∈ pre.map (·.id)) (pre ++ [d]))
    (hcodes : CodesPass d) :
    (ofIR { o with codeSystems := pre }).validateCodeSystemReferences d = .ok () := by
  refine validateSystem_ok_iff.2 ⟨hcodes, fun k hk => ?_⟩
  have hk := mem_toList.2 hk
  refine ⟨h.ne_and_mem hnd hk, h.repeatedId_eq_none hnd (fun id c hc => ?_)
    (fun c k hk => mem_toList.2 hk) _ fun s hs => ⟨mem_singleton.1 hs, hk⟩⟩
  obtain ⟨hmem, hid⟩ := mem_of_systemById hc
  exact ⟨mem_append_left _ hmem, hid⟩

theorem systems_in_turn_iff {ss : List CodeSystemDef} (hnd : (ss.map (·.id)).Nodup) :
    InTurn (fun pre d => (ofIR
        { o with codeSystems := pre }).validateCodeSystemReferences d = .ok ()) ss ↔
      (∀ d ∈ ss, CodesPass d) ∧
        InTurn (fun pre d => ∀ k ∈ d.replacedById.toList, k ∈ pre.map (·.id)) ss := by
  constructor
  · intro h
    refine ⟨fun d hd => ?_, h.mono fun pre d _ _ hpass k hk => ?_⟩
    · obtain ⟨pre, post, hss⟩ := append_of_mem hd
      exact (validateSystem_ok_iff.1 (h pre d post hss)).1
    · exact ((validateSystem_ok_iff.1 hpass).2 k (mem_toList.1 hk)).1.2
  · intro ⟨hcodes, h⟩ pre d post hss
    have hd : d ∈ ss := by simp [hss]
    rw [hss, append_cons] at h hnd
    exact validateSystem_of_inTurn (hnd.sublist ((sublist_append_left _ _).map _))
      h.of_append (hcodes d hd)

end Ontosyx.Store
