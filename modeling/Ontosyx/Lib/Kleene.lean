import Mathlib.Data.List.Count
import Mathlib.Data.List.Forall2

/-!
# Three-valued truth

A truth value that may be undecided, Kleene's connectives on it for any number of
arguments, and the one law that relates them to two-valued evaluation: whatever the
undecided arguments turn out to be, a decided result stands.
-/

namespace Ontosyx.Lib.Kleene

open List

def neg : Option Bool → Option Bool
  | some b => some !b
  | none => none

def all (ts : List (Option Bool)) : Option Bool :=
  if some false ∈ ts then some false else if none ∈ ts then none else some true

def any (ts : List (Option Bool)) : Option Bool :=
  if some true ∈ ts then some true else if none ∈ ts then none else some false

/-- Exactly one argument is true. -/
def one (ts : List (Option Bool)) : Option Bool :=
  if 2 ≤ ts.count (some true) then some false
  else if none ∈ ts then none
  else some (ts.count (some true) == 1)

/-- The two-valued `b` is a way in which `t` may turn out. -/
def Resolves (t : Option Bool) (b : Bool) : Prop := ∀ c, t = some c → b = c

theorem resolves_none (b : Bool) : Resolves none b := by
  intro c h
  cases h

theorem resolves_some (b : Bool) : Resolves (some b) b := by
  intro c h
  exact Option.some.inj h

theorem Resolves.neg {t : Option Bool} {b : Bool} (h : Resolves t b) :
    Resolves (Kleene.neg t) !b := by
  intro c hc
  cases t with
  | none => cases hc
  | some a =>
    cases hc
    rw [h a rfl]

section

variable {ts : List (Option Bool)} {bs : List Bool}

section

variable (h : List.Forall₂ Resolves ts bs)
include h

theorem mem_of_resolves {c : Bool} (hc : some c ∈ ts) : c ∈ bs := by
  induction h with
  | nil => cases hc
  | @cons t b ts bs htb _ ih =>
    rcases mem_cons.1 hc with rfl | hc
    · rw [htb c rfl]
      exact mem_cons_self
    · exact mem_cons_of_mem b (ih hc)

/-- Without undecided arguments there is one way to turn out. -/
theorem eq_map_some (hn : none ∉ ts) : ts = bs.map some := by
  induction h with
  | nil => rfl
  | @cons t b ts bs htb _ ih =>
    rw [mem_cons, not_or] at hn
    cases t with
    | none => exact absurd rfl hn.1
    | some c => rw [map_cons, htb c rfl, ih hn.2]

theorem count_some_le (c : Bool) : ts.count (some c) ≤ bs.count c := by
  induction h with
  | nil => exact Nat.le_refl 0
  | @cons t b ts bs htb _ ih =>
    rw [count_cons, count_cons]
    by_cases ht : t = some c
    · rw [htb c ht, ht, beq_self_eq_true, if_pos rfl, beq_self_eq_true, if_pos rfl]
      omega
    · rw [if_neg (by simpa using ht)]
      omega

theorem Resolves.all : Resolves (Kleene.all ts) (bs.all id) := by
  intro c hc
  unfold Kleene.all at hc
  split at hc
  · next hfalse =>
      cases hc
      exact all_eq_false.2 ⟨false, mem_of_resolves h hfalse, Bool.false_ne_true⟩
  · next hfalse =>
      split at hc
      · cases hc
      · next hnone =>
          cases hc
          rw [eq_map_some h hnone] at hfalse
          refine all_eq_true.2 ?_
          intro b hb
          cases b with
          | true => rfl
          | false => exact absurd (mem_map_of_mem hb) hfalse

omit h in
theorem Resolves.any_of_mem {t : Option Bool} (ht : t ∈ ts) (h : Resolves t true) :
    Resolves (Kleene.any ts) true := by
  intro c hc
  unfold Kleene.any at hc
  split at hc
  · exact Option.some.inj hc
  · next htrue =>
      split at hc
      · cases hc
      · next hnone =>
          cases t with
          | none => exact absurd ht hnone
          | some d =>
            rw [← h d rfl] at ht
            exact absurd ht htrue

omit h in
/-- Without a true argument there is none. -/
theorem Resolves.any_of_forall (h : ∀ t ∈ ts, Resolves t false) :
    Resolves (Kleene.any ts) false := by
  intro c hc
  unfold Kleene.any at hc
  split at hc
  · next htrue => exact nomatch (h _ htrue true rfl)
  · split at hc
    · cases hc
    · exact Option.some.inj hc

theorem Resolves.one : Resolves (Kleene.one ts) (bs.count true == 1) := by
  intro c hc
  unfold Kleene.one at hc
  split at hc
  · next htwo =>
      cases hc
      have hle := count_some_le h true
      rw [beq_eq_false_iff_ne]
      omega
  · split at hc
    · cases hc
    · next hnone =>
        have hcount : ts.count (some true) = bs.count true := by
          rw [eq_map_some h hnone]
          exact count_map_of_injective bs some (fun _ _ h => Option.some.inj h) true
        cases hc
        rw [hcount]

end

end

end Ontosyx.Lib.Kleene
