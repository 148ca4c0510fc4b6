import Ontosyx.Compile.Compiler
import Ontosyx.Lib.Stamped
import Ontosyx.Query.ConceptMapScope
import Mathlib.Data.List.GetD

/-!
# The plan cache

`PlanCache` (`plan_cache.rs`) remembers the plans an inner compiler returned,
under a 64-bit key of the query's JSON and of the ontology's id and version
number.  When it holds more plans than its capacity it sweeps out the ones with
the smallest insertion stamps.  The serializer and the hasher are parameters.

The concept maps of an ontology are not part of the key.  A plan is the right
one for the call that finds it when the call that stored it had its codes
rewritten in the same way, and this is what the run law asks of every call.

## Main results

* `length_cache_le` — in every run the cache stays within its capacity.
* `run_faithful` — every call of a run gets the plan of the inner compiler, no error is
  kept, and only the oldest plans are swept out.
-/

namespace Ontosyx.Compile

open Ontosyx.Query Lib.Stamped Function AList Nat
open Ontology (OntologyIR)

/-- The arguments of `compile_query`. -/
structure Call where
  query : QueryIR
  ontology : Option OntologyIR

structure CachedPlan where
  compiled : CompiledQuery
  insertedSeq : UInt64

def CachedPlan.stamp (p : CachedPlan) : Nat := p.insertedSeq.toNat

/-- The mutable part of the cache, with its capacity.  The counters wrap. -/
structure PlanCache where
  cache : AList fun _ : UInt64 => CachedPlan
  capacity : UInt64
  sequence : UInt64
  hits : UInt64
  misses : UInt64
  evictions : UInt64

variable {cache : AList fun _ : UInt64 => CachedPlan} {k : UInt64} {c : PlanCache}

namespace PlanCache

def evictionFractionPct : UInt64 := 10

def new (capacity : UInt64) : PlanCache := ⟨∅, capacity, 0, 0, 0, 0⟩

def invalidateAll (c : PlanCache) : PlanCache := { c with cache := ∅ }

/-- `key`: nothing for a query that does not serialize.  A raw query has no
ontology to fold in. -/
def key (toJson : QueryIR → Option String) (hash : String → Option (String × Nat) → UInt64)
    (call : Call) : Option UInt64 := do
  let json ← toJson call.query
  return hash json (call.ontology.map fun ont => (ont.id, ont.version.number))

/-- How many plans a sweep is to drop. -/
def toEvict (c : PlanCache) : Nat := (max (c.capacity * evictionFractionPct / 100) 1).toNat

def maybeEvict (c : PlanCache) : PlanCache :=
  if c.capacity = 0 ∨ c.cache.entries.length ≤ c.capacity.toNat then c
  else
    let seqs := stamps CachedPlan.stamp c.cache
    if seqs.length ≤ c.toEvict then c
    else
      let kept := retain CachedPlan.stamp (seqs.getD (c.toEvict - 1) 0) c.cache
      let removed := c.cache.entries.length - kept.entries.length
      { c with cache := kept, evictions := c.evictions + .ofNat removed }

/-- A plan the inner compiler just returned goes in. -/
def store (c : PlanCache) (k : UInt64) (compiled : CompiledQuery) : PlanCache :=
  maybeEvict { c with
    cache := c.cache.insert k ⟨compiled, c.sequence⟩
    misses := c.misses + 1
    sequence := c.sequence + 1 }

/-- `compile_query` of the cache. -/
def compileQuery (inner : Call → Except CompileError CompiledQuery)
    (keyOf : Call → Option UInt64) (c : PlanCache) (call : Call) :
    Except CompileError CompiledQuery × PlanCache :=
  if c.capacity = 0 then (inner call, { c with misses := c.misses + 1 })
  else
    match keyOf call with
    | none => (inner call, { c with misses := c.misses + 1 })
    | some k =>
      match c.cache.lookup k with
      | some entry => (.ok entry.compiled, { c with hits := c.hits + 1 })
      | none =>
        match inner call with
        | .error e => (.error e, { c with misses := c.misses + 1 })
        | .ok compiled => (.ok compiled, c.store k compiled)

/-! ## Sweeps -/

/-- A sweep drops at least one plan, and never asks for more than there are. -/
theorem toEvict_le (c : PlanCache) (h : c.capacity ≠ 0) :
    1 ≤ c.toEvict ∧ c.toEvict ≤ c.capacity.toNat := by
  have hpos : 0 < c.capacity.toNat := by
    apply Nat.pos_of_ne_zero
    intro h0
    exact h (UInt64.toNat_inj.1 h0)
  have hdiv : (c.capacity * evictionFractionPct / 100).toNat ≤ c.capacity.toNat := by
    have hmul : (c.capacity * evictionFractionPct).toNat ≤ c.capacity.toNat * 10 := by
      rw [UInt64.toNat_mul]
      exact mod_le _ _
    rw [UInt64.toNat_div]
    show (c.capacity * evictionFractionPct).toNat / 100 ≤ _
    omega
  have hmax (x : UInt64) : (max x 1).toNat = max x.toNat 1 := by
    show (if x ≤ 1 then (1 : UInt64) else x).toNat = _
    by_cases hx : x ≤ 1
    · have hle : x.toNat ≤ 1 := UInt64.le_iff_toNat_le.1 hx
      rw [if_pos hx, max_eq_right hle]
      rfl
    · have hlt : 1 < x.toNat := not_le.1 fun hle => hx (UInt64.le_iff_toNat_le.2 hle)
      rw [if_neg hx, max_eq_left hlt.le]
  have heq : c.toEvict = max (c.capacity * evictionFractionPct / 100).toNat 1 := hmax _
  omega

@[simp] theorem maybeEvict_capacity (c : PlanCache) : c.maybeEvict.capacity = c.capacity := by
  unfold maybeEvict
  dsimp only
  split_ifs <;> rfl

/-- What `maybe_evict` does to the plans: nothing while they fit, and otherwise
a sweep at a stamp that is held. -/
theorem maybeEvict_cases (c : PlanCache) (h : c.capacity ≠ 0) :
    (c.cache.entries.length ≤ c.capacity.toNat ∧ c.maybeEvict = c) ∨
      ∃ t ∈ stamps CachedPlan.stamp c.cache,
        c.maybeEvict.cache = retain CachedPlan.stamp t c.cache := by
  have hto := c.toEvict_le h
  by_cases hfit : c.cache.entries.length ≤ c.capacity.toNat
  · exact .inl ⟨hfit, if_pos (.inr hfit)⟩
  · have hlt : c.toEvict - 1 < (stamps CachedPlan.stamp c.cache).length := by
      rw [length_stamps]
      omega
    have hmany : ¬(stamps CachedPlan.stamp c.cache).length ≤ c.toEvict := by
      rw [length_stamps]
      omega
    refine .inr ⟨_, List.getElem_mem hlt, ?_⟩
    rw [maybeEvict, if_neg (by simp only [h, hfit, or_self, not_false_eq_true]),
      if_neg hmany, List.getD_eq_getElem _ _ hlt]

/-- A plan that was in the cache, or came in, and is gone after the sweep has a
smaller stamp than any plan left. -/
theorem stamp_lt_of_evicted (h : c.capacity ≠ 0) {k' : UInt64} {p p' : CachedPlan}
    (hp : c.cache.lookup k = some p) (hgone : c.maybeEvict.cache.lookup k = none)
    (hleft : c.maybeEvict.cache.lookup k' = some p') : p.stamp < p'.stamp := by
  rcases c.maybeEvict_cases h with ⟨-, heq⟩ | ⟨t, -, heq⟩
  · rw [heq, hp] at hgone
    cases hgone
  · rw [heq] at hgone hleft
    exact stamp_lt_of_swept hp hgone hleft

/-- The sweep only takes plans away. -/
theorem lookup_of_lookup_maybeEvict (h : c.capacity ≠ 0) {p : CachedPlan}
    (hp : c.maybeEvict.cache.lookup k = some p) : c.cache.lookup k = some p := by
  rcases c.maybeEvict_cases h with ⟨-, heq⟩ | ⟨t, -, heq⟩
  · rwa [heq] at hp
  · rw [heq] at hp
    exact (lookup_retain_eq_some.1 hp).1

theorem length_maybeEvict_le (h : c.capacity ≠ 0)
    (hc : c.cache.entries.length ≤ c.capacity.toNat + 1) :
    c.maybeEvict.cache.entries.length ≤ c.capacity.toNat := by
  rcases c.maybeEvict_cases h with ⟨hfit, heq⟩ | ⟨t, ht, heq⟩
  · rwa [heq]
  · have hlt := length_retain_lt ht
    rw [heq]
    omega

section

variable (inner : Call → Except CompileError CompiledQuery) (keyOf : Call → Option UInt64)

/-- The key under which a call stores its plan: that of a call which finds
nothing and for which the inner compiler returns a plan. -/
def storesAt (c : PlanCache) (call : Call) : Option UInt64 :=
  if c.capacity = 0 then none
  else
    match keyOf call with
    | none => none
    | some k =>
      match c.cache.lookup k with
      | some _ => none
      | none =>
        match inner call with
        | .error _ => none
        | .ok _ => some k

def findsAt (c : PlanCache) (call : Call) : Option UInt64 :=
  if c.capacity = 0 then none else (keyOf call).filter fun k => (c.cache.lookup k).isSome

/-- A call finds a plan, stores one, or leaves the plans alone and returns what
the inner compiler returns. -/
theorem compileQuery_cases (c : PlanCache) (call : Call) :
    (∃ k p, c.findsAt keyOf call = some k ∧ c.cache.lookup k = some p ∧
        c.storesAt inner keyOf call = none ∧
        c.compileQuery inner keyOf call = (.ok p.compiled, { c with hits := c.hits + 1 })) ∨
      (∃ k r, c.capacity ≠ 0 ∧ keyOf call = some k ∧ c.cache.lookup k = none ∧
        c.storesAt inner keyOf call = some k ∧ inner call = .ok r ∧
        c.compileQuery inner keyOf call = (.ok r, c.store k r)) ∨
      c.storesAt inner keyOf call = none ∧
        c.compileQuery inner keyOf call = (inner call, { c with misses := c.misses + 1 }) := by
  unfold compileQuery storesAt findsAt
  by_cases hcap : c.capacity = 0
  · exact .inr (.inr ⟨if_pos hcap, if_pos hcap⟩)
  · simp only [if_neg hcap]
    cases hkey : keyOf call with
    | none => exact .inr (.inr ⟨rfl, rfl⟩)
    | some k =>
      dsimp only
      cases hfound : c.cache.lookup k with
      | some p => exact .inl ⟨k, p, by simp [hfound], hfound, rfl, rfl⟩
      | none =>
        cases hinner : inner call with
        | error e => exact .inr (.inr ⟨rfl, rfl⟩)
        | ok r => exact .inr (.inl ⟨k, r, hcap, rfl, hfound, rfl, rfl, rfl⟩)

end

end PlanCache

/-! ## Runs -/

/-- What can be done to the cache. -/
inductive Event where
  | compileQuery (call : Call)
  | invalidateAll

/-- A call that stored a plan, and when it did. -/
structure Source where
  time : Nat
  call : Call

/-- A cache under observation: how many events it saw, and the call that last
stored a plan under each key. -/
structure Observed where
  cache : PlanCache
  time : Nat
  source : UInt64 → Option Source

variable {source : UInt64 → Option Source}

namespace Observed

def start (capacity : UInt64) : Observed := ⟨.new capacity, 0, fun _ => none⟩

section

variable (inner : Call → Except CompileError CompiledQuery) (keyOf : Call → Option UInt64)

def sourceAfter (t : Observed) (call : Call) : UInt64 → Option Source :=
  match t.cache.storesAt inner keyOf call with
  | some k => update t.source k (some ⟨t.time, call⟩)
  | none => t.source

def step (t : Observed) : Event → Observed
  | .compileQuery call =>
    ⟨(t.cache.compileQuery inner keyOf call).2, t.time + 1, t.sourceAfter inner keyOf call⟩
  | .invalidateAll => ⟨t.cache.invalidateAll, t.time + 1, t.source⟩

/-- `P` holds before every event of a run. -/
def Throughout (P : Observed → Event → Prop) : Observed → List Event → Prop
  | _, [] => True
  | t, event :: events => P t event ∧ Throughout P (t.step inner keyOf event) events

/-- One event goes as the cache promises. -/
structure Faithful (t : Observed) (event : Event) : Prop where
  /-- A plan that is returned is the one the inner compiler returns. -/
  plan : ∀ call, event = .compileQuery call → ∀ r,
    (t.cache.compileQuery inner keyOf call).1 = .ok r → inner call = .ok r
  /-- An error leaves the plans as they are. -/
  error : ∀ call, event = .compileQuery call → ∀ e,
    (t.cache.compileQuery inner keyOf call).1 = .error e →
      (t.cache.compileQuery inner keyOf call).2.cache = t.cache.cache
  /-- The cache stays within its capacity. -/
  fits : (t.step inner keyOf event).cache.cache.entries.length ≤ t.cache.capacity.toNat
  /-- A plan that a call drops came in before every plan that is left. -/
  oldest : ∀ call, event = .compileQuery call → ∀ k,
    k ∈ t.cache.cache ∨ t.cache.storesAt inner keyOf call = some k →
      k ∉ (t.step inner keyOf event).cache.cache →
        ∀ k' ∈ (t.step inner keyOf event).cache.cache,
          ∃ s s', t.sourceAfter inner keyOf call k = some s ∧
            t.sourceAfter inner keyOf call k' = some s' ∧ s.time < s'.time

/-- The call a plan is found by has its codes rewritten as the call that stored
the plan had. -/
def SameRewriting (c c' : Call) : Prop :=
  rewriteCodes c.query c.ontology = rewriteCodes c'.query c'.ontology

/-- Before an event: a plan that is found was stored by a call with the same
rewriting, and a plan that is stored gets a stamp past the stamps held. -/
structure Settled (t : Observed) (event : Event) : Prop where
  found : ∀ call, event = .compileQuery call → ∀ k s, t.cache.findsAt keyOf call = some k →
    t.source k = some s → SameRewriting s.call call
  stored : ∀ call, event = .compileQuery call → ∀ k, t.cache.storesAt inner keyOf call = some k →
    ∀ k' p, t.cache.cache.lookup k' = some p → p.insertedSeq < t.cache.sequence

/-! ## The invariant -/

variable {inner keyOf}

/-- Every plan is what the inner compiler returns for the call that stored it. -/
def Sourced (inner : Call → Except CompileError CompiledQuery)
    (cache : AList fun _ : UInt64 => CachedPlan) (source : UInt64 → Option Source)
    (time : Nat) : Prop :=
  ∀ k p, cache.lookup k = some p →
    ∃ s, source k = some s ∧ inner s.call = .ok p.compiled ∧ s.time < time

/-- Smaller stamps were given earlier. -/
def Ordered (cache : AList fun _ : UInt64 => CachedPlan) (source : UInt64 → Option Source) : Prop :=
  ∀ k k' p p' s s', cache.lookup k = some p → cache.lookup k' = some p' → source k = some s →
    source k' = some s' → p.stamp < p'.stamp → s.time < s'.time

theorem Sourced.mono {cache' : AList fun _ : UInt64 => CachedPlan} {time time' : Nat}
    (hsub : ∀ k p, cache'.lookup k = some p → cache.lookup k = some p) (htime : time ≤ time')
    (h : Sourced inner cache source time) : Sourced inner cache' source time' := by
  intro k p hp
  obtain ⟨s, hs, hinner, hlt⟩ := h k p (hsub k p hp)
  exact ⟨s, hs, hinner, hlt.trans_le htime⟩

theorem Ordered.mono {cache' : AList fun _ : UInt64 => CachedPlan}
    (hsub : ∀ k p, cache'.lookup k = some p → cache.lookup k = some p) (h : Ordered cache source) :
    Ordered cache' source :=
  fun k k' p p' s s' hp hp' => h k k' p p' s s' (hsub k p hp) (hsub k' p' hp')

/-- A plan comes in under a free key, from the call at `time`. -/
theorem Sourced.insert {time : Nat} (h : Sourced inner cache source time) {call : Call}
    {r : CompiledQuery} {seq : UInt64} (hr : inner call = .ok r) :
    Sourced inner (cache.insert k ⟨r, seq⟩) (update source k (some ⟨time, call⟩))
      (time + 1) := by
  intro k' p hp
  by_cases hk : k' = k
  · subst hk
    rw [lookup_insert] at hp
    cases hp
    exact ⟨⟨time, call⟩, update_self .., hr, lt_succ_self _⟩
  · rw [lookup_insert_ne hk] at hp
    obtain ⟨s, hs, hinner, hlt⟩ := h k' p hp
    exact ⟨s, by rw [update_of_ne hk, hs], hinner, hlt.trans (lt_succ_self _)⟩

/-- A plan whose stamp is past the stamps held is the newest. -/
theorem Ordered.insert {time : Nat} (hs : Sourced inner cache source time)
    (h : Ordered cache source) {call : Call} {r : CompiledQuery} {seq : UInt64}
    (hnew : ∀ k' p, cache.lookup k' = some p → p.insertedSeq < seq) :
    Ordered (cache.insert k ⟨r, seq⟩) (update source k (some ⟨time, call⟩)) := by
  intro k₁ k₂ p₁ p₂ s₁ s₂ hp₁ hp₂ hs₁ hs₂ hlt
  by_cases hk₁ : k₁ = k
  · subst hk₁
    rw [lookup_insert] at hp₁
    cases hp₁
    by_cases hk₂ : k₂ = k₁
    · subst hk₂
      rw [lookup_insert] at hp₂
      cases hp₂
      exact absurd hlt (lt_irrefl _)
    · rw [lookup_insert_ne hk₂] at hp₂
      have hle : p₂.stamp < seq.toNat := UInt64.lt_iff_toNat_lt.1 (hnew k₂ p₂ hp₂)
      exact absurd hlt hle.not_gt
  · rw [lookup_insert_ne hk₁] at hp₁
    rw [update_of_ne hk₁] at hs₁
    by_cases hk₂ : k₂ = k
    · subst hk₂
      rw [update_self] at hs₂
      cases hs₂
      obtain ⟨s, hs, -, hbefore⟩ := hs k₁ p₁ hp₁
      rw [hs₁] at hs
      cases hs
      exact hbefore
    · rw [lookup_insert_ne hk₂] at hp₂
      rw [update_of_ne hk₂] at hs₂
      exact h k₁ k₂ p₁ p₂ s₁ s₂ hp₁ hp₂ hs₁ hs₂ hlt

/-- What holds of a cache before every event. -/
structure Sound (inner : Call → Except CompileError CompiledQuery) (t : Observed) : Prop where
  sourced : Sourced inner t.cache.cache t.source t.time
  ordered : Ordered t.cache.cache t.source
  fits : t.cache.cache.entries.length ≤ t.cache.capacity.toNat

theorem start_sound (capacity : UInt64) : Sound inner (start capacity) where
  sourced := by
    intro k p hp
    cases hp
  ordered := by
    intro k k' p p' s s' hp
    cases hp
  fits := zero_le _

/-- The cache a plan came into, before the sweep. -/
def withPlan (c : PlanCache) (k : UInt64) (r : CompiledQuery) : PlanCache :=
  { c with
    cache := c.cache.insert k ⟨r, c.sequence⟩
    misses := c.misses + 1
    sequence := c.sequence + 1 }

theorem length_withPlan (r : CompiledQuery) (hfree : c.cache.lookup k = none) :
    (withPlan c k r).cache.entries.length = c.cache.entries.length + 1 := by
  show (c.cache.insert k _).entries.length = _
  rw [entries_insert_of_notMem (lookup_eq_none.1 hfree), List.length_cons]

@[simp] theorem step_capacity (t : Observed) (event : Event) :
    (t.step inner keyOf event).cache.capacity = t.cache.capacity := by
  cases event with
  | invalidateAll => rfl
  | compileQuery call =>
    show (t.cache.compileQuery inner keyOf call).2.capacity = _
    rcases t.cache.compileQuery_cases inner keyOf call with
      ⟨k, p, -, -, -, heq⟩ | ⟨k, r, -, -, -, -, -, heq⟩ | ⟨-, heq⟩
    · rw [heq]
    · rw [heq]
      exact PlanCache.maybeEvict_capacity _
    · rw [heq]

theorem fits_step {t : Observed} (hfits : t.cache.cache.entries.length ≤ t.cache.capacity.toNat)
    (event : Event) :
    (t.step inner keyOf event).cache.cache.entries.length ≤ t.cache.capacity.toNat := by
  cases event with
  | invalidateAll => exact zero_le _
  | compileQuery call =>
    show (t.cache.compileQuery inner keyOf call).2.cache.entries.length ≤ _
    rcases t.cache.compileQuery_cases inner keyOf call with
      ⟨k, p, -, -, -, heq⟩ | ⟨k, r, hcap, -, hfree, -, -, heq⟩ | ⟨-, heq⟩
    · rwa [heq]
    · rw [heq]
      apply PlanCache.length_maybeEvict_le (c := withPlan t.cache k r) hcap
      rw [length_withPlan r hfree]
      exact succ_le_succ hfits
    · rwa [heq]

theorem Sound.step {t : Observed} (ht : Sound inner t) {event : Event}
    (hevent : Settled inner keyOf t event) : Sound inner (t.step inner keyOf event) := by
  have hfits : (t.step inner keyOf event).cache.cache.entries.length ≤
      (t.step inner keyOf event).cache.capacity.toNat := by
    rw [step_capacity]
    exact fits_step ht.fits event
  cases event with
  | invalidateAll =>
    refine ⟨?_, ?_, hfits⟩
    · intro k p hp
      cases hp
    · intro k k' p p' s s' hp
      cases hp
  | compileQuery call =>
    change Sound inner ⟨(t.cache.compileQuery inner keyOf call).2, t.time + 1,
      t.sourceAfter inner keyOf call⟩
    change (t.cache.compileQuery inner keyOf call).2.cache.entries.length ≤
      (t.cache.compileQuery inner keyOf call).2.capacity.toNat at hfits
    unfold sourceAfter
    rcases t.cache.compileQuery_cases inner keyOf call with
      ⟨k, p, -, -, hno, heq⟩ | ⟨k, r, hcap, -, -, hstore, hr, heq⟩ | ⟨hno, heq⟩
    · rw [heq] at hfits ⊢
      rw [hno]
      exact ⟨ht.sourced.mono (fun _ _ h => h) (le_succ _), ht.ordered, hfits⟩
    · rw [heq] at hfits ⊢
      rw [hstore]
      have hsub (k' : UInt64) (p : CachedPlan)
          (hp : (withPlan t.cache k r).maybeEvict.cache.lookup k' = some p) :
          (withPlan t.cache k r).cache.lookup k' = some p :=
        PlanCache.lookup_of_lookup_maybeEvict (c := withPlan t.cache k r) hcap hp
      have hnew := hevent.stored call rfl k hstore
      exact ⟨(ht.sourced.insert hr).mono hsub le_rfl,
        (ht.ordered.insert ht.sourced hnew).mono hsub, hfits⟩
    · rw [heq] at hfits ⊢
      rw [hno]
      exact ⟨ht.sourced.mono (fun _ _ h => h) (le_succ _), ht.ordered, hfits⟩

theorem Sound.faithful {t : Observed} (ht : Sound inner t)
    (hinner : ∀ c c', SameRewriting c c' → inner c = inner c') {event : Event}
    (hevent : Settled inner keyOf t event) : Faithful inner keyOf t event where
  plan := by
    intro call hcall r hr
    rcases t.cache.compileQuery_cases inner keyOf call with
      ⟨k, p, hfound, hp, -, heq⟩ | ⟨k, r', -, -, -, -, hr', heq⟩ | ⟨-, heq⟩
    · obtain ⟨s, hs, hplan, -⟩ := ht.sourced k p hp
      rw [heq] at hr
      rw [← hinner _ _ (hevent.found call hcall k s hfound hs), hplan]
      exact hr
    · rw [heq] at hr
      rw [hr']
      exact hr
    · rwa [heq] at hr
  error := by
    intro call _ e he
    rcases t.cache.compileQuery_cases inner keyOf call with
      ⟨k, p, -, -, -, heq⟩ | ⟨k, r, -, -, -, -, -, heq⟩ | ⟨-, heq⟩
    · rw [heq]
    · rw [heq] at he
      cases he
    · rw [heq]
  fits := fits_step ht.fits event
  oldest := by
    intro call hcall k hk hgone k' hleft
    subst hcall
    unfold sourceAfter
    change k ∉ (t.cache.compileQuery inner keyOf call).2.cache at hgone
    change k' ∈ (t.cache.compileQuery inner keyOf call).2.cache at hleft
    rcases t.cache.compileQuery_cases inner keyOf call with
      ⟨k₀, p, -, -, hno, heq⟩ | ⟨k₀, r, hcap, -, hfree, hstore, hr, heq⟩ | ⟨hno, heq⟩
    · rw [heq] at hgone
      rw [hno] at hk
      exact absurd (hk.resolve_right (by rintro ⟨⟩)) hgone
    · rw [heq] at hgone hleft
      rw [hstore] at hk
      have hsourced : Sourced inner (withPlan t.cache k₀ r).cache
          (update t.source k₀ (some ⟨t.time, call⟩)) (t.time + 1) :=
        ht.sourced.insert hr
      have hordered : Ordered (withPlan t.cache k₀ r).cache
          (update t.source k₀ (some ⟨t.time, call⟩)) :=
        ht.ordered.insert ht.sourced (hevent.stored call rfl k₀ hstore)
      have hin : k ∈ (withPlan t.cache k₀ r).cache := by
        apply (mem_insert _).2
        rcases hk with hk | hk
        · exact .inr hk
        · exact .inl (Option.some.inj hk).symm
      obtain ⟨p, hp⟩ := Option.isSome_iff_exists.1 (lookup_isSome.2 hin)
      obtain ⟨p', hp'⟩ := Option.isSome_iff_exists.1 (lookup_isSome.2 hleft)
      have hlt : p.stamp < p'.stamp :=
        PlanCache.stamp_lt_of_evicted (c := withPlan t.cache k₀ r) hcap hp
          (lookup_eq_none.2 hgone) hp'
      have hp'mid : (withPlan t.cache k₀ r).cache.lookup k' = some p' :=
        PlanCache.lookup_of_lookup_maybeEvict (c := withPlan t.cache k₀ r) hcap hp'
      obtain ⟨s, hs, -⟩ := hsourced k p hp
      obtain ⟨s', hs', -⟩ := hsourced k' p' hp'mid
      rw [hstore]
      exact ⟨s, s', hs, hs', hordered k k' p p' s s' hp hp'mid hs hs' hlt⟩
    · rw [heq] at hgone
      rw [hno] at hk
      exact absurd (hk.resolve_right (by rintro ⟨⟩)) hgone

/-- A run all of whose events are settled goes as promised. -/
theorem Sound.throughout (hinner : ∀ c c', SameRewriting c c' → inner c = inner c')
    (events : List Event) : ∀ {t : Observed}, Sound inner t →
      Throughout inner keyOf (Settled inner keyOf) t events →
        Throughout inner keyOf (Faithful inner keyOf) t events := by
  induction events with
  | nil => exact fun _ _ => trivial
  | cons event events ih =>
    intro t ht hall
    exact ⟨ht.faithful hinner hall.1, ih (ht.step hall.1) hall.2⟩

end

end Observed

namespace PlanCache

/-! ## Counters -/

/-- A call is a hit or a miss, and a plan that was stored is held or was swept out. -/
def Tallied (c : PlanCache) (calls : Nat) : Prop :=
  c.hits + c.misses = .ofNat calls ∧ c.evictions + .ofNat c.cache.entries.length = c.sequence

theorem Tallied.maybeEvict {calls : Nat} (h : c.Tallied calls) : c.maybeEvict.Tallied calls := by
  unfold PlanCache.maybeEvict
  split_ifs
  · exact h
  · dsimp only
    split
    · exact h
    · refine ⟨h.1, ?_⟩
      rw [← h.2]
      dsimp only
      rw [UInt64.add_assoc, ← UInt64.ofNat_add]
      exact congrArg (c.evictions + UInt64.ofNat ·) (Nat.sub_add_cancel (List.length_filter_le ..))

variable (inner : Call → Except CompileError CompiledQuery) (keyOf : Call → Option UInt64)

theorem Tallied.compileQuery {calls : Nat} (h : c.Tallied calls) (call : Call) :
    (c.compileQuery inner keyOf call).2.Tallied (calls + 1) := by
  have hmiss : c.hits + (c.misses + 1) = .ofNat (calls + 1) := by
    rw [← UInt64.add_assoc, h.1]
    exact (UInt64.ofNat_add ..).symm
  rcases c.compileQuery_cases inner keyOf call with
    ⟨k, p, -, -, -, heq⟩ | ⟨k, r, -, -, hfree, -, -, heq⟩ | ⟨-, heq⟩
  · rw [heq]
    refine ⟨?_, h.2⟩
    rw [← hmiss]
    show c.hits + 1 + c.misses = _
    rw [UInt64.add_assoc, UInt64.add_comm 1]
  · rw [heq]
    refine Tallied.maybeEvict (c := Observed.withPlan c k r) ⟨hmiss, ?_⟩
    rw [Observed.length_withPlan r hfree]
    show c.evictions + _ = c.sequence + 1
    rw [UInt64.ofNat_add, ← UInt64.add_assoc, h.2]
    rfl
  · rw [heq]
    exact ⟨hmiss, h.2⟩

/-- The counters of a run account for its calls and for the plans that were stored. -/
theorem tallied_run (capacity : UInt64) (calls : List Call) :
    (calls.foldl (fun c call => (c.compileQuery inner keyOf call).2) (new capacity)).Tallied
      calls.length := by
  induction calls using List.reverseRecOn with
  | nil => exact ⟨rfl, rfl⟩
  | append_singleton calls call ih =>
    rw [List.foldl_append, List.length_append]
    exact ih.compileQuery inner keyOf call

end PlanCache

/-! ## The Cypher compiler behind the cache -/

/-- `CypherCompiler::compile_query` on a call. -/
def compileCall (d : CypherDialect) (call : Call) : Except CompileError CompiledQuery :=
  compileQuery d call.query call.ontology

theorem asOf_rewriteCodes (query : QueryIR) (ontology : Option OntologyIR) :
    (rewriteCodes query ontology).1.asOf = query.asOf := by
  cases ontology with
  | none => rfl
  | some o =>
    rcases query with ⟨operation, limit, skip, orderBy, asOf⟩
    unfold rewriteCodes rewriteConceptMapValues rewriteQuery
    dsimp only
    split_ifs <;> rfl

theorem compileCall_congr (d : CypherDialect) {c c' : Call} (h : Observed.SameRewriting c c') :
    compileCall d c = compileCall d c' := by
  have hasOf : c.query.asOf = c'.query.asOf := by
    rw [← asOf_rewriteCodes c.query c.ontology, h, asOf_rewriteCodes]
  unfold compileCall compileQuery compileStretches
  rw [hasOf, h]

/-- In every run of the cache over the Cypher compiler whose calls find only
plans stored by a call with the same rewriting, and whose stamps stay ahead of
the stamps held, every event goes as the cache promises. -/
theorem run_faithful (d : CypherDialect) (toJson : QueryIR → Option String)
    (hash : String → Option (String × Nat) → UInt64) (capacity : UInt64) (events : List Event)
    (h : Observed.Throughout (compileCall d) (PlanCache.key toJson hash)
      (Observed.Settled (compileCall d) (PlanCache.key toJson hash)) (.start capacity) events) :
    Observed.Throughout (compileCall d) (PlanCache.key toJson hash)
      (Observed.Faithful (compileCall d) (PlanCache.key toJson hash)) (.start capacity) events :=
  (Observed.start_sound capacity).throughout (fun _ _ => compileCall_congr d) events h

/-- `MATCH (p:Patient) WHERE p.code = 'A001' RETURN p`. -/
def patientByCode : QueryIR where
  operation := .match_ [.node ⟨"p"⟩ (some ⟨"Patient", .refl true⟩) []]
    (some (.comparison (.property ⟨"p"⟩ (some ⟨"code", .refl true⟩)) .eq
      (.literal (.string "A001")))) [.variable_ ⟨"p"⟩ none] false []
  limit := none
  skip := none
  orderBy := []
  asOf := none

/-- The JSON of `patientByCode`. -/
def patientByCodeJson : String :=
  "\x7b\"schema_version\":2,\"operation\":\x7b\"op\":\"match\",\"patterns\":[\x7b" ++
  "\"kind\":\"node\",\"variable\":\"p\",\"label\":\"Patient\"," ++
  "\"property_filters\":[]\x7d],\"filter\":" ++
  "\x7b\"expr_type\":\"comparison\",\"left\":\x7b\"expr_type\":\"property\",\"variable\":\"p\"," ++
  "\"field\":\"code\"\x7d,\"op\":\"eq\",\"right\":\x7b\"expr_type\":\"literal\",\"value\":" ++
  "\x7b\"type\":\"string\",\"value\":\"A001\"\x7d\x7d\x7d,\"projections\":[\x7b\"kind\":" ++
  "\"variable\",\"variable\":\"p\",\"alias\":null\x7d],\"optional\":false,\"group_by\":[]\x7d," ++
  "\"limit\":null,\"skip\":null,\"order_by\":[]\x7d"

/-- The hash of that JSON with the id and version number of `codedPatients`. -/
def patientByCodeHash : UInt64 := 17054765473636082865

/-- `codedPatients` while its concept map is edited: `A001` goes to `target`. -/
def recodedPatients (target : String) : OntologyIR :=
  { codedPatients with
    conceptMaps := codedPatients.conceptMaps.map fun cm =>
      { cm with mappings := [⟨"A001", target, .equivalent⟩] } }

/-- The call that compiles `patientByCode` while `A001` goes to `target`. -/
def patientCall (target : String) : Call := ⟨patientByCode, some (recodedPatients target)⟩

def patientKey : Call → Option UInt64 :=
  PlanCache.key (fun _ => some patientByCodeJson) fun _ _ => patientByCodeHash

/-- The query is compiled, found, dropped and compiled again. -/
theorem run_faithful_patients : Observed.Throughout (compileCall .neo4j) patientKey
      (Observed.Faithful (compileCall .neo4j) patientKey) (.start 4096)
      [.compileQuery (patientCall "NEWA001"), .compileQuery (patientCall "NEWA001"),
        .invalidateAll, .compileQuery (patientCall "NEWA001")] := by
  apply run_faithful
  refine ⟨⟨?_, ?_⟩, ⟨?_, ?_⟩, ⟨?_, ?_⟩, ⟨?_, ?_⟩, trivial⟩
  · intro call _ k s _ hs
    cases hs
  · intro call _ k _ k' p hp
    cases hp
  · intro call hcall k s hk hs
    cases hcall
    cases hk
    cases hs
    rfl
  · intro call hcall k hk
    cases hcall
    cases hk
  · intro call hcall
    cases hcall
  · intro call hcall
    cases hcall
  · intro call hcall k s hk
    cases hcall
    cases hk
  · intro call _ k _ k' p hp
    cases hp

/-- The concept map is edited between two calls: the second gets the plan of the
first, with the code the first one was translated to. -/
theorem stale_plan_returned : ¬Observed.Throughout (compileCall .neo4j) patientKey
      (Observed.Faithful (compileCall .neo4j) patientKey) (.start 4096)
      [.compileQuery (patientCall "NEWA001"), .compileQuery (patientCall "B001")] := by
  intro h
  have hplan := h.2.1.plan _ rfl _ rfl
  have hparams : (compileCall .neo4j (patientCall "B001")).map CompiledQuery.params =
      .ok [("p0", .string "NEWA001")] := by
    rw [hplan]
    rfl
  have hfresh : (compileCall .neo4j (patientCall "B001")).map CompiledQuery.params =
      .ok [("p0", .string "B001")] := rfl
  rw [hfresh] at hparams
  simp at hparams

end Ontosyx.Compile
