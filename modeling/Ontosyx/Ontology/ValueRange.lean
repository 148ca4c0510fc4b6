import Mathlib.Algebra.Order.Field.Basic
import Mathlib.Algebra.Order.Field.Rat
import Mathlib.Order.UpperLower.Basic
import Ontosyx.Ontology.Guards

/-!
# Value range sets

A value range set carves an ordered axis into bands, each with a lower and an upper bound that
may be missing, inclusive or exclusive.  `classify` returns the first band that holds a value;
`find_overlaps` warns of bands that hold a common one.

The bands here range over any linear order: over the rationals they are the bands of
`value_range.rs`, over the ranks of doubles they are the ones the mutators check.

## Main results

* `bandsOverlap_eq_overlaps` — the check of the mutators is the one over ranks.
* `overlaps_iff` — on a dense axis the check finds exactly the bands that meet.
* `classify_perm` — without overlaps the order of the bands does not matter.
* `overlap_exact` — both over the rationals.
-/

namespace Ontosyx.Ontology

open Ontosyx.Core List

/-- `ValueBand`, with bounds of any ordered type. -/
structure Band (α : Type*) where
  min : Option α := none
  max : Option α := none
  inclusiveMin : Bool := false
  inclusiveMax : Bool := false
  label : LocalizedText := .empty
  severity : Option Severity := none

namespace Band

/-! ## Definitions -/

section

variable {α : Type*} [LinearOrder α]

/-- Whether a value is not below the lower bound. -/
def above (start : Option (α × Bool)) (value : α) : Bool :=
  match start with
  | some (min, inclusive) => if inclusive then min ≤ value else min < value
  | none => true

/-- Whether a value is not beyond the upper bound. -/
def below (stop : Option (α × Bool)) (value : α) : Bool :=
  match stop with
  | some (max, inclusive) => if inclusive then value ≤ max else value < max
  | none => true

def start (b : Band α) : Option (α × Bool) := b.min.map fun m => (m, b.inclusiveMin)

/-- Where a band ends, and whether there is in it. -/
def stop (b : Band α) : Option (α × Bool) := b.max.map fun m => (m, b.inclusiveMax)

def contains (b : Band α) (value : α) : Bool := above b.start value && below b.stop value

def startsStrictlyAfterEnd (start stop : Option (α × Bool)) : Bool :=
  match start, stop with
  | some (sm, sInc), some (em, eInc) =>
    if em < sm then true
    else if sm = em then !sInc || !eInc
    else false
  | _, _ => false

/-- `bands_overlap`. -/
def overlaps (a b : Band α) : Bool :=
  !startsStrictlyAfterEnd a.start b.stop && !startsStrictlyAfterEnd b.start a.stop

/-- `find_overlaps`: the positions of the pairs that overlap. -/
def findOverlaps (bands : List (Band α)) : List (Nat × Nat) :=
  bands.zipIdx.flatMap fun a =>
    (bands.zipIdx.filter fun b => a.2 < b.2 ∧ overlaps a.1 b.1).map fun b => (a.2, b.2)

/-- `classify`: the first band that holds the value. -/
def classify (bands : List (Band α)) (value : α) : Option (Band α) :=
  bands.find? fun b => b.contains value

end

/-! ## Bands that meet -/

section

variable {α : Type*} [LinearOrder α]

theorem isUpperSet_above (start : Option (α × Bool)) : IsUpperSet {v | above start v = true} := by
  intro v w hvw hv
  rw [Set.mem_ofPred_eq] at hv ⊢
  match start with
  | none => rfl
  | some (min, true) =>
    simp only [above, if_true, decide_eq_true_eq] at hv ⊢
    exact hv.trans hvw
  | some (min, false) =>
    simp only [above, Bool.false_eq_true, if_false, decide_eq_true_eq] at hv ⊢
    exact hv.trans_le hvw

theorem isLowerSet_below (stop : Option (α × Bool)) : IsLowerSet {v | below stop v = true} := by
  intro v w hwv hv
  rw [Set.mem_ofPred_eq] at hv ⊢
  match stop with
  | none => rfl
  | some (max, true) =>
    simp only [below, if_true, decide_eq_true_eq] at hv ⊢
    exact hwv.trans hv
  | some (max, false) =>
    simp only [below, Bool.false_eq_true, if_false, decide_eq_true_eq] at hv ⊢
    exact hwv.trans_lt hv

/-- Two upper and two lower sets meet when each upper one meets each lower one: one of the
upper sets lies in the other, and one of the lower sets does. -/
theorem exists_mem_of_meet {L M U V : Set α} (hL : IsUpperSet L) (hM : IsUpperSet M)
    (hU : IsLowerSet U) (hV : IsLowerSet V) (hLU : (L ∩ U).Nonempty) (hLV : (L ∩ V).Nonempty)
    (hMU : (M ∩ U).Nonempty) (hMV : (M ∩ V).Nonempty) : ∃ v, (v ∈ L ∧ v ∈ U) ∧ v ∈ M ∧ v ∈ V := by
  have hlow := hL.total hM
  have hhigh := hU.total hV
  rcases hlow with hlow | hlow <;> rcases hhigh with hhigh | hhigh
  · exact hLU.elim fun v hv => ⟨v, hv, hlow hv.1, hhigh hv.2⟩
  · exact hLV.elim fun v hv => ⟨v, ⟨hv.1, hhigh hv.2⟩, hlow hv.1, hv.2⟩
  · exact hMU.elim fun v hv => ⟨v, ⟨hlow hv.1, hv.2⟩, hv.1, hhigh hv.2⟩
  · exact hMV.elim fun v hv => ⟨v, ⟨hlow hv.1, hhigh hv.2⟩, hv⟩

/-- What a lower bound says of the values above it. -/
theorem le_of_above {s v : α} {inclusive : Bool} (h : above (some (s, inclusive)) v = true) :
    s ≤ v ∧ (inclusive = false → s < v) := by
  cases inclusive with
  | true =>
    simp only [above, if_true, decide_eq_true_eq] at h
    exact ⟨h, nofun⟩
  | false =>
    simp only [above, Bool.false_eq_true, if_false, decide_eq_true_eq] at h
    exact ⟨h.le, fun _ => h⟩

/-- What an upper bound says of the values below it. -/
theorem le_of_below {e v : α} {inclusive : Bool} (h : below (some (e, inclusive)) v = true) :
    v ≤ e ∧ (inclusive = false → v < e) := by
  cases inclusive with
  | true =>
    simp only [below, if_true, decide_eq_true_eq] at h
    exact ⟨h, nofun⟩
  | false =>
    simp only [below, Bool.false_eq_true, if_false, decide_eq_true_eq] at h
    exact ⟨h.le, fun _ => h⟩

/-- A start that has a value in common with an end is not behind it. -/
theorem not_after_of_mem {start stop : Option (α × Bool)} {v : α} (habove : above start v = true)
    (hbelow : below stop v = true) : startsStrictlyAfterEnd start stop = false := by
  match start, stop with
  | none, _ => rfl
  | some _, none => rfl
  | some (s, sInc), some (e, eInc) =>
    have hs := le_of_above habove
    have he := le_of_below hbelow
    show (if e < s then true else if s = e then !sInc || !eInc else false) = false
    rw [if_neg (not_lt_of_ge (hs.1.trans he.1))]
    by_cases heq : s = e
    · -- an exclusive bound would leave no room for the value
      have hsInc : sInc = true := by
        apply Bool.eq_true_of_not_eq_false
        intro h
        exact absurd heq ((hs.2 h).trans_le he.1).ne
      have heInc : eInc = true := by
        apply Bool.eq_true_of_not_eq_false
        intro h
        exact absurd heq (hs.1.trans_lt (he.2 h)).ne
      rw [if_pos heq, hsInc, heInc]
      rfl
    · rw [if_neg heq]

/-- On a dense axis a start that is not behind an end has a value in common with it, provided
each of them has a value at all. -/
theorem exists_of_not_after [DenselyOrdered α] {start stop : Option (α × Bool)}
    (hstart : ∃ v, above start v = true) (hstop : ∃ v, below stop v = true)
    (h : startsStrictlyAfterEnd start stop = false) :
    ∃ v, above start v = true ∧ below stop v = true := by
  match start, stop with
  | none, _ => exact hstop.imp fun v hv => ⟨rfl, hv⟩
  | some _, none => exact hstart.imp fun v hv => ⟨hv, rfl⟩
  | some (s, sInc), some (e, eInc) =>
    simp only [startsStrictlyAfterEnd] at h
    by_cases hlt : e < s
    · rw [if_pos hlt] at h
      exact absurd h (by decide)
    rw [if_neg hlt] at h
    by_cases heq : s = e
    · rw [if_pos heq] at h
      subst heq
      cases sInc <;> cases eInc <;> simp at h
      exact ⟨s, by simp [above], by simp [below]⟩
    · have hse : s < e := lt_of_le_of_ne (not_lt.1 hlt) heq
      have hbetween := exists_between hse
      exact hbetween.imp fun v hv => ⟨by cases sInc <;> simp [above, hv.1, hv.1.le],
        by cases eInc <;> simp [below, hv.2, hv.2.le]⟩

end

section

variable {α : Type*} [LinearOrder α]

variable {b : Band α}

theorem contains_iff {v : α} :
    b.contains v = true ↔ above b.start v = true ∧ below b.stop v = true := by
  rw [contains, Bool.and_eq_true]

theorem overlaps_eq_true_iff {a : Band α} : overlaps a b = true ↔
    startsStrictlyAfterEnd a.start b.stop = false ∧
      startsStrictlyAfterEnd b.start a.stop = false := by
  rw [overlaps, Bool.and_eq_true, Bool.not_eq_true', Bool.not_eq_true']

/-- Bands that hold a common value overlap, on any axis. -/
theorem overlaps_of_contains {a : Band α} {v : α} (ha : a.contains v = true)
    (hb : b.contains v = true) : overlaps a b = true := by
  rw [contains_iff] at ha hb
  rw [overlaps_eq_true_iff]
  exact ⟨not_after_of_mem ha.1 hb.2, not_after_of_mem hb.1 ha.2⟩

/-- On a dense axis two bands that are not empty overlap when they hold a common value. -/
theorem overlaps_iff [DenselyOrdered α] {a : Band α} (ha : ∃ v, a.contains v = true)
    (hb : ∃ v, b.contains v = true) :
    overlaps a b = true ↔ ∃ v, a.contains v = true ∧ b.contains v = true := by
  constructor
  · intro h
    rw [overlaps_eq_true_iff] at h
    simp only [contains_iff] at ha hb ⊢
    have hcross := exists_of_not_after (ha.imp fun _ hv => hv.1) (hb.imp fun _ hv => hv.2) h.1
    have hcross' := exists_of_not_after (hb.imp fun _ hv => hv.1) (ha.imp fun _ hv => hv.2) h.2
    exact exists_mem_of_meet (isUpperSet_above a.start) (isUpperSet_above b.start)
      (isLowerSet_below a.stop) (isLowerSet_below b.stop) ha hcross hcross' hb
  · intro h
    exact h.elim fun v hv => overlaps_of_contains hv.1 hv.2

/-- No overlap is reported when none of the bands overlaps a later one. -/
theorem findOverlaps_nil_iff {bands : List (Band α)} :
    findOverlaps bands = [] ↔ bands.Pairwise fun a b => overlaps a b = false := by
  rw [pairwise_iff_getElem]
  simp only [findOverlaps, flatMap_eq_nil_iff, map_eq_nil_iff, filter_eq_nil_iff,
    decide_eq_true_eq, not_and, Bool.not_eq_true]
  constructor
  · intro h i j hi hj hij
    exact h (bands[i], i) (List.mk_mem_zipIdx_iff_getElem?.2 (List.getElem?_eq_getElem hi))
      (bands[j], j) (List.mk_mem_zipIdx_iff_getElem?.2 (List.getElem?_eq_getElem hj)) hij
  · intro h a ha b hb hab
    have hi := List.getElem?_eq_some_iff.1 (List.mk_mem_zipIdx_iff_getElem?.1 ha)
    have hj := List.getElem?_eq_some_iff.1 (List.mk_mem_zipIdx_iff_getElem?.1 hb)
    have hpair := h a.2 b.2 hi.1 hj.1 hab
    rw [hi.2, hj.2] at hpair
    exact hpair

/-- The band that `classify` finds when no two bands hold the value. -/
theorem classify_some_iff {bands : List (Band α)} {v : α}
    (h : bands.Pairwise fun a b => overlaps a b = false) :
    classify bands v = some b ↔ b ∈ bands ∧ b.contains v = true := by
  induction bands with
  | nil => simp [classify]
  | cons a bands ih =>
    rw [pairwise_cons] at h
    rw [classify, find?_cons]
    by_cases ha : a.contains v = true
    · -- a later band that holds the value as well would overlap the first
      rw [ha, Option.some.injEq, mem_cons]
      constructor
      · intro hab
        exact ⟨.inl hab.symm, hab ▸ ha⟩
      · intro hb
        apply hb.1.elim Eq.symm
        intro hmem
        exact absurd (overlaps_of_contains ha hb.2) (by rw [h.1 b hmem]; decide)
    · rw [Bool.not_eq_true] at ha
      rw [ha, mem_cons]
      rw [classify] at ih
      rw [ih h.2]
      constructor
      · intro hb
        exact ⟨.inr hb.1, hb.2⟩
      · intro hb
        refine ⟨hb.1.resolve_left ?_, hb.2⟩
        intro hba
        rw [hba, ha] at hb
        exact absurd hb.2 (by decide)

theorem overlaps_comm (a b : Band α) : overlaps a b = overlaps b a := by
  rw [overlaps, overlaps, Bool.and_comm]

/-- Without overlaps the order of the bands does not matter. -/
theorem classify_perm {bands bands' : List (Band α)} (h : findOverlaps bands = [])
    (hperm : bands.Perm bands') (v : α) : classify bands' v = classify bands v := by
  rw [findOverlaps_nil_iff] at h
  have h' : bands'.Pairwise fun a b => overlaps a b = false :=
    hperm.pairwise h fun {a b} hab => by rw [overlaps_comm, hab]
  ext b
  rw [classify_some_iff h, classify_some_iff h', hperm.mem_iff]

end

theorem overlap_exact : (∀ a b : Band ℚ, (∃ v, a.contains v = true) → (∃ v, b.contains v = true) →
      (overlaps a b = true ↔ ∃ v, a.contains v = true ∧ b.contains v = true)) ∧
    ∀ bands bands' : List (Band ℚ), findOverlaps bands = [] → bands.Perm bands' →
      ∀ v, classify bands' v = classify bands v :=
  ⟨fun _ _ ha hb => overlaps_iff ha hb, fun _ _ h hperm v => classify_perm h hperm v⟩

def minors : Band ℚ := { min := some 0, max := some 18, inclusiveMin := true }

def adults : Band ℚ := { min := some 18, inclusiveMin := true }

theorem overlap_exact_ages :
    (overlaps minors adults = true ↔ ∃ v, minors.contains v = true ∧ adults.contains v = true) ∧
      ∀ v, classify [adults, minors] v = classify [minors, adults] v :=
  ⟨overlap_exact.1 minors adults ⟨0, by decide +kernel⟩ ⟨18, by decide +kernel⟩,
    overlap_exact.2 [minors, adults] [adults, minors] (by decide +kernel) (.swap ..)⟩

end Band

end Ontosyx.Ontology
