import Ontosyx.Lib.PathWalk
import Ontosyx.Ontology.RemovalSafety

/-!
# Hierarchies of the registries

Concepts, glossary terms and code systems point at each other: at what is broader, and at what
replaces them.  Each call that adds or replaces one of them walks these links, with the new entry
laid over the stored ones.  The links from a term to narrower ones are not walked.

## Main results

* `WalksEnd.of_agrees` — the walks end, whatever they run into.
* `hierarchies_acyclic_iff` — when the links stay without cycles.
-/

namespace Ontosyx.Ontology

open List Ontosyx.Core Lib.Checked Lib.Keyed Lib.PathWalk Lib.Positions OntologyState Option
open Relation (ReflTransGen TransGen)

variable {α κ : Type}

/-! ## Links -/

/-- An entry under one key points at the other. -/
def Links (key : α → κ) (targets : α → List κ) (xs : List α) (a b : κ) : Prop :=
  ∃ x ∈ xs, key x = a ∧ b ∈ targets x

def Acyclic (R : κ → κ → Prop) : Prop := ∀ a, ¬TransGen R a a

def follow (byId : κ → Option α) (targets : α → List κ) (id : κ) : List κ :=
  ((byId id).map targets).toList.flatten

theorem mem_follow {byId : κ → Option α} {targets : α → List κ} {a b : κ} :
    b ∈ follow byId targets a ↔ ∃ x, byId a = some x ∧ b ∈ targets x := by
  cases h : byId a <;> simp [follow, h]

section

variable [DecidableEq κ] {key : α → κ} {targets : α → List κ} {d : α} {xs ys : List α} {n : ℕ}

theorem repeatedId_eq_pathWalk (byId : κ → Option α) (next : α → Option κ) (fuel : ℕ)
    (seen : List κ) (id : κ) : repeatedId (fun id => (byId id).bind next) fuel seen id =
      pathWalk (follow byId fun x => (next x).toList) fuel seen id := by
  induction fuel generalizing seen id with
  | zero => rfl
  | succ fuel ih =>
    rw [repeatedId, pathWalk]
    refine if_congr Iff.rfl rfl ?_
    cases hid : byId id with
    | none => simp [follow, hid]
    | some x => cases hx : next x <;> simp [follow, hid, hx, ih]

theorem broaderCycle_eq_pathWalk (byId : GlossaryTermId → Option GlossaryTermDef) (fuel : ℕ)
    (path : List GlossaryTermId) (id : GlossaryTermId) :
    broaderCycle byId fuel path id =
      pathWalk (follow byId fun t => (broaderTerms t).reverse) fuel path.reverse
        id := by
  induction fuel generalizing path id with
  | zero => rfl
  | succ fuel ih =>
    rw [broaderCycle, pathWalk]
    refine if_congr mem_reverse.symm rfl ?_
    have hwalk : broaderCycle byId fuel (path ++ [id]) = _ := funext (ih _)
    rw [hwalk, reverse_append, reverse_singleton, singleton_append]
    cases hid : byId id <;> simp [follow, hid]

variable {byId : κ → Option α}

omit [DecidableEq κ] in
theorem mem_keys_of_follow {keys : List κ} (hkeys : ∀ id x, byId id = some x → id ∈ keys) (a : κ)
    (ha : follow byId targets a ≠ []) : a ∈ keys := by
  obtain ⟨b, hb⟩ := exists_mem_of_ne_nil _ ha
  obtain ⟨x, hx, -⟩ := mem_follow.1 hb
  exact hkeys a x hx

variable (hbyId : ∀ id x, byId id = some x ↔ x ∈ xs ∧ key x = id)
include hbyId

omit [DecidableEq κ] in
theorem links_iff {a b : κ} : Links key targets xs a b ↔ Linked (follow byId targets) a b := by
  rw [Linked, mem_follow]
  refine exists_congr fun x => ?_
  rw [hbyId, and_assoc]

theorem not_transGen_links (hn : xs.length < n) {id : κ}
    (h : pathWalk (follow byId targets) n [] id = none) :
    ¬TransGen (Links key targets xs) id id := by
  have hlinks : Links key targets xs = Linked (follow byId targets) :=
    funext₂ fun a b => propext (links_iff hbyId)
  rw [hlinks]
  have hkeys : ∀ id x, byId id = some x → id ∈ xs.map key := fun id x hx => by
    obtain ⟨hmem, rfl⟩ := (hbyId id x).1 hx
    exact mem_map_of_mem hmem
  exact not_transGen_of_pathWalk (mem_keys_of_follow hkeys) (by simpa) h

/-- Where the walk from every entry comes back nowhere there is no cycle. -/
theorem acyclic_of_walks (hn : xs.length < n)
    (h : ∀ x ∈ xs, pathWalk (follow byId targets) n [] (key x) = none) :
    Acyclic (Links key targets xs) := by
  intro a hcycle
  obtain ⟨b, ⟨x, hx, rfl, -⟩, -⟩ := TransGen.head'_iff.1 hcycle
  exact not_transGen_links hbyId hn (h x hx) hcycle

variable (hys : ∀ x, x ∈ ys ↔ x = d ∨ x ∈ xs ∧ key x ≠ key d)
include hys

theorem overlay_some_iff (id : κ) (x : α) :
    (if id = key d then some d else byId id) = some x ↔ x ∈ ys ∧ key x = id := by
  rw [hys]
  split_ifs with hid
  · subst hid
    rw [some_inj]
    constructor
    · rintro rfl
      exact ⟨.inl rfl, rfl⟩
    · rintro ⟨rfl | ⟨-, hne⟩, heq⟩
      · rfl
      · exact absurd heq hne
  · rw [hbyId]
    constructor
    · rintro ⟨hx, rfl⟩
      exact ⟨.inr ⟨hx, hid⟩, rfl⟩
    · rintro ⟨rfl | ⟨hx, -⟩, rfl⟩
      · exact absurd rfl hid
      · exact ⟨hx, rfl⟩

/-- A new entry whose walk comes back nowhere closes no cycle. -/
theorem acyclic_put (hlen : ys.length < n) (hxs : Acyclic (Links key targets xs))
    (h : pathWalk (follow (fun id => if id = key d then some d else byId id) targets) n []
      (key d) = none) : Acyclic (Links key targets ys) := by
  refine acyclic_of_changed hxs (fun a b ha hab => ?_)
    (not_transGen_links (overlay_some_iff hbyId hys) hlen h)
  obtain ⟨x, hx, rfl, hb⟩ := hab
  rcases (hys x).1 hx with rfl | ⟨hx, -⟩
  · exact absurd rfl ha
  · exact ⟨x, hx, rfl, hb⟩

end

/-- The entry is put into the collection, in the place of the one under its key. -/
def Slot.Puts [DecidableEq κ] (S : Slot α κ) (o : OntologyIR) (d : α) (o' : OntologyIR) : Prop :=
  ∃ ys, o' = S.put o ys ∧ ys.length ≤ (S.items o).length + 1 ∧
    ∀ x, x ∈ ys ↔ x = d ∨ x ∈ S.items o ∧ S.key x ≠ S.key d

section

variable [DecidableEq κ] {S : Slot α κ} {s s' : OntologyState} {d : α} {id : κ}
  {check : OntologyState → α → Except OntologyInvariantError Unit}

theorem ir_of_rebuild_eq_ok {o : OntologyIR} (h : (s.withIR o).rebuild = (.ok (), s')) :
    s'.ir = o := by
  by_cases ho : (s.withIR o).ir.Indexed
  · rw [rebuild_of_indexed ho] at h
    rw [← (Prod.mk.inj h).2]
    rfl
  · obtain ⟨e, he⟩ := rebuild_of_not_indexed ho
    rw [he] at h
    cases h

theorem Slot.puts_of_add (hs : s.Agrees) (h : S.add check d s = (.ok (), s')) :
    check s d = .ok () ∧ S.Puts s.ir d s'.ir := by
  unfold Slot.add at h
  rw [S.idx_of_agrees hs] at h
  split at h
  · cases h
  · rename_i hnew
    rw [position_isSome_iff] at hnew
    split at h
    · cases h
    · rename_i hcheck
      refine ⟨hcheck, _, ir_of_rebuild_eq_ok h, by simp, fun x => ?_⟩
      rw [mem_append, mem_singleton, or_comm]
      refine or_congr_right (iff_self_and.2 fun hx heq => hnew ?_)
      exact heq ▸ mem_map_of_mem hx

theorem Slot.puts_of_replace (hs : s.Agrees) (h : S.replace check id d s = (.ok (), s')) :
    check s d = .ok () ∧ S.Puts s.ir d s'.ir := by
  unfold Slot.replace at h
  rw [S.idx_of_agrees hs] at h
  split at h
  · cases h
  · rename_i hid
    split at h
    · cases h
    · rename_i idx hidx
      split at h
      · cases h
      · rename_i hcheck
        rw [← not_not.1 hid] at hidx
        exact ⟨hcheck, _, ir_of_rebuild_eq_ok h, by simp, fun x => mem_set_of_position
          (S.nodup_of_indexed _ hs.indexed) hidx⟩

end

/-! ## The hierarchies -/

namespace OntologyState

def narrowerTerms (t : GlossaryTermDef) : List GlossaryTermId :=
  (t.relatedTerms.filter fun r => r.kind = .narrower).map (·.target)

/-- The second term is above the first: one of them says so. -/
def Above (ts : List GlossaryTermDef) (a b : GlossaryTermId) : Prop :=
  Links (·.id) broaderTerms ts a b ∨ Links (·.id) narrowerTerms ts b a

/-- No cycle of the terms goes through a link to a narrower one. -/
def NarrowerApart (ts : List GlossaryTermDef) : Prop :=
  ∀ a b, Links (·.id) narrowerTerms ts b a → ¬ReflTransGen (Above ts) b a

structure HierarchiesAcyclic (o : OntologyIR) : Prop where
  concepts : Acyclic (Links (·.id) (·.broader.toList) o.concepts)
  conceptReplacements : Acyclic (Links (·.id) (·.replacedBy.toList) o.concepts)
  terms : Acyclic (Above o.glossary)
  termReplacements : Acyclic (Links (·.id) (fun t => (replacement t).toList) o.glossary)
  codes : ∀ d ∈ o.codeSystems, Acyclic (Links (·.id) (·.broaderId.toList) d.codes)
  codeReplacements : ∀ d ∈ o.codeSystems, Acyclic (Links (·.id) (·.replacedById.toList) d.codes)
  systemReplacements : Acyclic (Links (·.id) (·.replacedById.toList) o.codeSystems)

theorem transGen_above {ts : List GlossaryTermDef} {a b : GlossaryTermId}
    (h : TransGen (Above ts) a b) : TransGen (Links (·.id) broaderTerms ts) a b ∨
      ∃ c e, ReflTransGen (Above ts) a c ∧ Links (·.id) narrowerTerms ts e c ∧
        ReflTransGen (Above ts) e b := by
  induction h with
  | single hab => exact hab.imp .single fun h => ⟨_, _, .refl, h, .refl⟩
  | @tail b c hab hbc ih =>
    rcases ih with hab' | ⟨c', e, hc, hlink, he⟩
    · exact hbc.imp hab'.tail fun hbc => ⟨b, c, hab.to_reflTransGen, hbc, .refl⟩
    · exact .inr ⟨c', e, hc, hlink, he.tail hbc⟩

theorem acyclic_above_iff {ts : List GlossaryTermDef} :
    Acyclic (Above ts) ↔ Acyclic (Links (·.id) broaderTerms ts) ∧ NarrowerApart ts := by
  constructor
  · intro h
    exact ⟨fun a ha => h a (TransGen.mono (fun _ _ => Or.inl) a a ha), fun a b hlink hback =>
      h a (.head' (.inr hlink) hback)⟩
  · rintro ⟨hbroader, hnarrower⟩ a ha
    rcases transGen_above ha with ha | ⟨c, e, hc, hlink, he⟩
    · exact hbroader a ha
    · exact hnarrower c e hlink (he.trans hc)

/-- The term laid over the stored ones. -/
def overlaid (d : GlossaryTermDef) (ts : List GlossaryTermDef) : List GlossaryTermDef :=
  d :: ts.filter fun t => t.id ≠ d.id

theorem links_congr {key : α → κ} {targets : α → List κ} {xs ys : List α}
    (h : ∀ x, x ∈ xs ↔ x ∈ ys) : Links key targets xs = Links key targets ys :=
  funext₂ fun _ _ => propext (exists_congr fun x => and_congr_left' (h x))

theorem narrowerApart_congr {ts us : List GlossaryTermDef} (h : ∀ t, t ∈ ts ↔ t ∈ us) :
    NarrowerApart ts ↔ NarrowerApart us := by
  have habove : Above ts = Above us := by
    unfold Above
    rw [links_congr h, links_congr h]
  unfold NarrowerApart
  rw [habove, links_congr h]

variable {s : OntologyState} {o' : OntologyIR}

theorem conceptById_some_iff (hs : s.Agrees) (id : ConceptId) (c : ConceptDef) :
    s.conceptById id = some c ↔ c ∈ s.ir.concepts ∧ c.id = id :=
  first_some_iff _ (conceptSlot.nodup_of_indexed _ hs.indexed)

theorem position_bind_some_iff [DecidableEq κ] {key : α → κ} {xs : List α} {x : α} {k : κ}
    (hnd : (xs.map key).Nodup) :
    ((position key xs k).bind fun i => xs[i]?) = some x ↔ x ∈ xs ∧ key x = k := by
  constructor
  · exact mem_of_position_bind
  · rintro ⟨hx, hk⟩
    obtain ⟨i, hi⟩ := mem_iff_getElem?.1 hx
    rw [(position_isMap hnd k i).2 ⟨x, hi, hk⟩]
    exact hi

theorem glossaryTermById_some_iff (hs : s.Agrees) (id : GlossaryTermId) (t : GlossaryTermDef) :
    s.glossaryTermById id = some t ↔ t ∈ s.ir.glossary ∧ t.id = id := by
  unfold glossaryTermById
  rw [hs.lookup_eq]
  exact position_bind_some_iff
    (glossaryTermSlot.nodup_of_indexed _ hs.indexed)

theorem codeSystemById_some_iff (hs : s.Agrees) (id : CodeSystemId) (d : CodeSystemDef) :
    s.codeSystemById id = some d ↔ d ∈ s.ir.codeSystems ∧ d.id = id := by
  unfold codeSystemById
  rw [hs.lookup_eq]
  exact position_bind_some_iff (codeSystemSlot.nodup_of_indexed _ hs.indexed)

theorem acyclic_putConcept (hs : s.Agrees) (hac : HierarchiesAcyclic s.ir) {d : ConceptDef}
    (hcheck : s.validateConceptReferences d = .ok ()) (hput : conceptSlot.Puts s.ir d o') :
    HierarchiesAcyclic o' := by
  obtain ⟨cs, rfl, hlen, hcs⟩ := hput
  unfold validateConceptReferences at hcheck
  simp only [seq_eq_ok_iff, rejectCycle_ok_iff, map_eq_none_iff,
    repeatedId_eq_pathWalk] at hcheck
  obtain ⟨-, -, -, -, hbroader, hreplaced⟩ := hcheck
  have hbyId := conceptById_some_iff hs
  have hfuel := Nat.lt_succ_of_le hlen
  exact { hac with
    concepts := acyclic_put hbyId hcs hfuel hac.concepts hbroader
    conceptReplacements := acyclic_put hbyId hcs hfuel hac.conceptReplacements hreplaced }

theorem acyclic_putTerm_iff (hs : s.Agrees) (hac : HierarchiesAcyclic s.ir) {d : GlossaryTermDef}
    (hcheck : s.validateGlossaryTermReferences d = .ok ())
    (hput : glossaryTermSlot.Puts s.ir d o') :
    HierarchiesAcyclic o' ↔ NarrowerApart (overlaid d s.ir.glossary) := by
  obtain ⟨ts, rfl, hlen, hts⟩ := hput
  unfold validateGlossaryTermReferences at hcheck
  simp only [seq_eq_ok_iff, rejectCycle_ok_iff, map_eq_none_iff,
    repeatedId_eq_pathWalk, broaderCycle_eq_pathWalk, reverse_nil] at hcheck
  obtain ⟨-, hreplaced, -, hbroader⟩ := hcheck
  have hbyId := glossaryTermById_some_iff hs
  have hfuel := Nat.lt_succ_of_le hlen
  have hreverse (ts : List GlossaryTermDef) : Links (·.id) (fun t => (broaderTerms t).reverse) ts =
      Links (·.id) broaderTerms ts := by simp [funext_iff, Links]
  have hold := (acyclic_above_iff.1 hac.terms).1
  rw [← hreverse] at hold
  have hup := acyclic_put hbyId hts hfuel hold hbroader
  rw [hreverse] at hup
  have hoverlaid (t : GlossaryTermDef) : t ∈ ts ↔ t ∈ overlaid d s.ir.glossary := by
    simp [hts, overlaid]
    rfl
  rw [← narrowerApart_congr hoverlaid]
  exact ⟨fun h => (acyclic_above_iff.1 h.terms).2, fun h => { hac with
    terms := acyclic_above_iff.2 ⟨hup, h⟩
    termReplacements := acyclic_put hbyId hts hfuel hac.termReplacements hreplaced }⟩

/-- A code system that passes its validator has no cycle among its codes. -/
theorem acyclic_codes {d : CodeSystemDef} (hcheck : s.validateCodeSystemReferences d = .ok ()) :
    Acyclic (Links (·.id) (·.broaderId.toList) d.codes) ∧
      Acyclic (Links (·.id) (·.replacedById.toList) d.codes) := by
  have hnd := nodup_of_references hcheck
  have hcodes : ∀ cv ∈ d.codes, validateCodeCycles d cv = .ok () := by
    unfold validateCodeSystemReferences at hcheck
    cases hkind : d.kind with
    | external sourceRef =>
      simp only [hkind, seq_eq_ok_iff, forM_eq_ok_iff] at hcheck
      exact hcheck.2.2.2.2
    | internal =>
      simp only [hkind, seq_eq_ok_iff, forM_eq_ok_iff] at hcheck
      exact hcheck.2.2.2
  simp only [validateCodeCycles, seq_eq_ok_iff, rejectCycle_ok_iff, map_eq_none_iff,
    repeatedId_eq_pathWalk] at hcodes
  have hlast (id : CodedValueId) (cv : CodedValue) :=
    last_some_iff (·.id) (k := id) (x := cv) hnd
  have hfuel := Nat.lt_add_of_pos_right (n := d.codes.length) Nat.two_pos
  exact ⟨acyclic_of_walks hlast hfuel fun cv hcv => (hcodes cv hcv).1,
    acyclic_of_walks hlast hfuel fun cv hcv => (hcodes cv hcv).2⟩

theorem acyclic_putSystem (hs : s.Agrees) (hac : HierarchiesAcyclic s.ir) {d : CodeSystemDef}
    (hcheck : s.validateCodeSystemReferences d = .ok ()) (hput : codeSystemSlot.Puts s.ir d o') :
    HierarchiesAcyclic o' := by
  obtain ⟨ds, rfl, hlen, hds⟩ := hput
  have hwalk : ∀ target ∈ d.replacedById.toList, pathWalk (follow s.codeSystemById
      fun d => d.replacedById.toList) (s.ir.codeSystems.length + 2) [d.id] target = none := by
    have hreplaced := hcheck
    unfold validateCodeSystemReferences at hreplaced
    cases hkind : d.kind with
    | external sourceRef =>
      simp only [hkind, seq_eq_ok_iff, forM_eq_ok_iff, rejectCycle_ok_iff,
        map_eq_none_iff, repeatedId_eq_pathWalk] at hreplaced
      exact fun target htarget => (hreplaced.2.1 target htarget).2
    | internal =>
      simp only [hkind, seq_eq_ok_iff, forM_eq_ok_iff, rejectCycle_ok_iff,
        map_eq_none_iff, repeatedId_eq_pathWalk] at hreplaced
      exact fun target htarget => (hreplaced.1 target htarget).2
  have hsystem {P : CodeSystemDef → Prop} (hold : ∀ d ∈ s.ir.codeSystems, P d) (hnew : P d) :
      ∀ d' ∈ ds, P d' := fun d' hd' => by
    rcases (hds d').1 hd' with rfl | ⟨hd', -⟩
    · exact hnew
    · exact hold d' hd'
  exact { hac with
    codes := hsystem hac.codes (acyclic_codes hcheck).1
    codeReplacements := hsystem hac.codeReplacements (acyclic_codes hcheck).2
    systemReplacements := by
      refine acyclic_put (codeSystemById_some_iff hs) hds
        (n := s.ir.codeSystems.length + 2 + 1) (Nat.lt_succ_of_le (Nat.le_succ_of_le hlen))
        hac.systemReplacements ?_
      -- The walk goes over the stored systems, and does not come back to the new one.
      rw [pathWalk, if_neg not_mem_nil, findSome?_eq_none_iff]
      intro target htarget
      obtain ⟨x, hx, htarget⟩ := mem_follow.1 htarget
      obtain rfl : d = x := some.inj ((if_pos rfl).symm.trans hx)
      rw [pathWalk_congr (mem_singleton_self d.id) fun id hid => ?_]
      · exact hwalk target htarget
      · rw [follow, if_neg hid, follow] }

/-! ## The walks end -/

/-- More fuel changes nothing. -/
def EndsBy (walk : ℕ → Option κ) (n : ℕ) : Prop := ∀ fuel ≥ n, walk fuel = walk n

theorem EndsBy.repeatedId [DecidableEq κ] {byId : κ → Option α} (keys path : List κ)
    (hkeys : ∀ id x, byId id = some x → id ∈ keys) (hnd : path.Nodup)
    (hpath : ∀ k ∈ path, k ∈ keys) {n : ℕ} (hn : keys.length < n + path.length)
    (next : α → Option κ) (id : κ) :
    EndsBy (fun fuel => Ontology.repeatedId (fun id => (byId id).bind next) fuel path id) n := by
  intro fuel hfuel
  simp only [repeatedId_eq_pathWalk]
  exact pathWalk_eq_of_le (mem_keys_of_follow hkeys) hnd hpath hn hfuel

/-- The walks of the validators end on every entry and whatever is stored. -/
structure WalksEnd (s : OntologyState) : Prop where
  concept (d : ConceptDef) (next : ConceptDef → Option ConceptId) :
    EndsBy (fun fuel => repeatedId (fun id =>
      (if id = d.id then some d else s.conceptById id).bind next) fuel [] d.id)
      (s.ir.concepts.length + 2)
  term (d : GlossaryTermDef) :
    EndsBy (fun fuel => repeatedId (fun id =>
      (if id = d.id then some d else s.glossaryTermById id).bind replacement) fuel [] d.id)
      (s.ir.glossary.length + 2)
  broader (d : GlossaryTermDef) :
    EndsBy (fun fuel => broaderCycle (fun id =>
      if id = d.id then some d else s.glossaryTermById id) fuel [] d.id) (s.ir.glossary.length + 2)
  code (d : CodeSystemDef) (next : CodedValue → Option CodedValueId) (id : CodedValueId) :
    EndsBy (fun fuel => repeatedId (fun id => (last (·.id) id d.codes).bind next) fuel [] id)
      (d.codes.length + 2)
  system (d : CodeSystemDef) (target : CodeSystemId) :
    EndsBy (fun fuel => repeatedId (fun id =>
      (s.codeSystemById id).bind (·.replacedById)) fuel [d.id] target)
      (s.ir.codeSystems.length + 2)

theorem mem_keys_of_overlay [DecidableEq κ] {key : α → κ} {xs : List α} {d : α}
    {byId : κ → Option α} (hbyId : ∀ id x, byId id = some x → x ∈ xs ∧ key x = id) (id : κ) (x : α)
    (hx : (if id = key d then some d else byId id) = some x) : id ∈ key d :: xs.map key := by
  split_ifs at hx with hid
  · exact hid ▸ mem_cons_self
  · obtain ⟨hmem, rfl⟩ := hbyId id x hx
    exact mem_cons_of_mem _ (mem_map_of_mem hmem)

theorem WalksEnd.of_agrees (hs : s.Agrees) : WalksEnd s where
  concept d next := EndsBy.repeatedId _ []
    (mem_keys_of_overlay fun id c => (conceptById_some_iff hs id c).1) nodup_nil nofun
    (by simp) next d.id
  term d := EndsBy.repeatedId _ []
    (mem_keys_of_overlay fun id t => (glossaryTermById_some_iff hs id t).1) nodup_nil nofun
    (by simp) replacement d.id
  broader d fuel hfuel := by
    dsimp only
    rw [broaderCycle_eq_pathWalk, broaderCycle_eq_pathWalk]
    exact pathWalk_eq_of_le (mem_keys_of_follow
      (mem_keys_of_overlay fun id t => (glossaryTermById_some_iff hs id t).1)) nodup_nil
      nofun (by simp) hfuel
  code d next id := EndsBy.repeatedId (d.codes.map (·.id)) []
    (fun id cv hcv => (last_isSome_iff (·.id)).1 ⟨cv, hcv⟩) nodup_nil nofun (by simp) next id
  system d target := by
    refine EndsBy.repeatedId (d.id :: s.ir.codeSystems.map (·.id)) [d.id] (fun id d' hd' => ?_)
      (nodup_singleton _) (by simp) (by simp) _ target
    obtain ⟨hmem, rfl⟩ := (codeSystemById_some_iff hs id d').1 hd'
    exact mem_cons_of_mem _ (mem_map_of_mem hmem)

/-- A call that adds or replaces an entry of a hierarchy. -/
inductive HierarchyCall where
  | addConcept (d : ConceptDef)
  | replaceConcept (id : ConceptId) (d : ConceptDef)
  | addGlossaryTerm (d : GlossaryTermDef)
  | replaceGlossaryTerm (id : GlossaryTermId) (d : GlossaryTermDef)
  | addCodeSystem (d : CodeSystemDef)
  | replaceCodeSystem (id : CodeSystemId) (d : CodeSystemDef)

def HierarchyCall.run : HierarchyCall → OntologyState → Outcome Unit
  | addConcept d => OntologyState.addConcept d
  | replaceConcept id d => OntologyState.replaceConcept id d
  | addGlossaryTerm d => OntologyState.addGlossaryTerm d
  | replaceGlossaryTerm id d => OntologyState.replaceGlossaryTerm id d
  | addCodeSystem d => OntologyState.addCodeSystem d
  | replaceCodeSystem id d => OntologyState.replaceCodeSystem id d

/-- The glossary, with the term of the call laid over it. -/
def HierarchyCall.glossary (s : OntologyState) : HierarchyCall → List GlossaryTermDef
  | addGlossaryTerm d | replaceGlossaryTerm _ d => overlaid d s.ir.glossary
  | _ => s.ir.glossary

/-- The walks end, and a call that goes through leaves the hierarchies without cycles unless one
goes through a link to a narrower term. -/
theorem hierarchies_acyclic_iff (hs : s.Agrees) :
    WalksEnd s ∧ ∀ (c : HierarchyCall) (s' : OntologyState), HierarchiesAcyclic s.ir →
      c.run s = (.ok (), s') → (HierarchiesAcyclic s'.ir ↔ NarrowerApart (c.glossary s)) := by
  refine ⟨.of_agrees hs, fun c s' hac h => ?_⟩
  have hsame : HierarchiesAcyclic s'.ir →
      (HierarchiesAcyclic s'.ir ↔ NarrowerApart s.ir.glossary) :=
    fun h => iff_of_true h (acyclic_above_iff.1 hac.terms).2
  cases c with
  | addConcept d =>
    obtain ⟨hcheck, hput⟩ := Slot.puts_of_add hs h
    exact hsame (acyclic_putConcept hs hac hcheck hput)
  | replaceConcept id d =>
    obtain ⟨hcheck, hput⟩ := Slot.puts_of_replace hs h
    exact hsame (acyclic_putConcept hs hac hcheck hput)
  | addGlossaryTerm d =>
    obtain ⟨hcheck, hput⟩ := Slot.puts_of_add hs h
    exact acyclic_putTerm_iff hs hac hcheck hput
  | replaceGlossaryTerm id d =>
    have hrun : OntologyState.replaceGlossaryTerm id d s = (.ok (), s') := h
    obtain ⟨hcheck, hput⟩ := Slot.puts_of_replace hs hrun
    exact acyclic_putTerm_iff hs hac (seq_eq_ok_iff.1 hcheck).1 hput
  | addCodeSystem d =>
    obtain ⟨hcheck, hput⟩ := Slot.puts_of_add hs h
    exact hsame (acyclic_putSystem hs hac hcheck hput)
  | replaceCodeSystem id d =>
    have hrun : OntologyState.replaceCodeSystem id d s = (.ok (), s') := h
    obtain ⟨idx, rfl, hpos, hcheck, -, -, hir⟩ := replaceSystem_of_ok hs (by rw [hrun])
    rw [hrun] at hir
    exact hsame (acyclic_putSystem hs hac hcheck ⟨_, hir, by simp [codeSystemSlot],
      fun x => mem_set_of_position
        (codeSystemSlot.nodup_of_indexed _ hs.indexed) hpos⟩)

/-- A term with its relations to one called revenue. -/
def sales (kinds : List TermRelationKind) : GlossaryTermDef where
  id := ⟨"sales"⟩
  relatedTerms := kinds.map fun kind => ⟨kind, ⟨"revenue"⟩⟩

def revenueState : OntologyState :=
  ofIR { id := "o", name := "Revenue", nodeTypes := [], glossary := [{ id := ⟨"revenue"⟩ }] }

theorem revenueState_agrees : revenueState.Agrees :=
  agrees_ofIR.2 ((OntologyIR.rebuild_ok_iff _).1 rfl)

theorem acyclic_of_no_links {key : α → κ} {targets : α → List κ} {xs : List α}
    (h : ∀ x ∈ xs, targets x = []) : Acyclic (Links key targets xs) := by
  intro a ha
  obtain ⟨b, ⟨x, hx, -, hb⟩, -⟩ := TransGen.head'_iff.1 ha
  rw [h x hx] at hb
  cases hb

theorem revenueState_acyclic : HierarchiesAcyclic revenueState.ir where
  concepts := acyclic_of_no_links nofun
  conceptReplacements := acyclic_of_no_links nofun
  terms := acyclic_above_iff.2 ⟨acyclic_of_no_links (by decide), by
    rintro a b ⟨x, hx, -, hb⟩
    rw [mem_singleton.1 hx] at hb
    cases hb⟩
  termReplacements := acyclic_of_no_links (by decide)
  codes := nofun
  codeReplacements := nofun
  systemReplacements := acyclic_of_no_links nofun

/-- Sales goes in below revenue. -/
theorem sales_below_revenue : HierarchiesAcyclic
    ((HierarchyCall.addGlossaryTerm (sales [.broader])).run revenueState).2.ir := by
  refine ((hierarchies_acyclic_iff revenueState_agrees).2 (.addGlossaryTerm (sales [.broader])) _
    revenueState_acyclic rfl).2 ?_
  rintro a b ⟨t, ht, -, hb⟩
  have hnone : ∀ t ∈ overlaid (sales [.broader]) revenueState.ir.glossary,
      narrowerTerms t = [] := by decide
  rw [hnone t ht] at hb
  cases hb

/-- It goes in above it as well. -/
theorem sales_on_cycle : HierarchiesAcyclic revenueState.ir ∧
    ((HierarchyCall.addGlossaryTerm (sales [.broader, .narrower])).run revenueState).1 = .ok () ∧
      ¬HierarchiesAcyclic ((HierarchyCall.addGlossaryTerm (sales [.broader, .narrower])).run
        revenueState).2.ir := by
  refine ⟨revenueState_acyclic, rfl, fun h => h.terms ⟨"sales"⟩ ?_⟩
  have hmem : sales [.broader, .narrower] ∈ ((HierarchyCall.addGlossaryTerm
      (sales [.broader, .narrower])).run revenueState).2.ir.glossary := .tail _ (.head _)
  exact .head (.inl ⟨_, hmem, rfl, .head _⟩) (.single (.inr ⟨_, hmem, rfl, .head _⟩))

end OntologyState

end Ontosyx.Ontology
