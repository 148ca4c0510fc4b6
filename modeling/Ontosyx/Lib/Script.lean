import Mathlib.Data.Finset.Basic

/-!
# Scripts over a finite set

A script is a list of texts.  A reader turns a text into an edit of a finite set:
an insertion, or the removal of whatever meets a test.  The first text that is
not read ends the run.

In a script whose removals spare its insertions the order of the texts and the
number of their copies do not matter.

## Main results

* `run_isSome_iff` — a run ends exactly when a text is not read.
* `mem_run_iff` — what an order-free run leaves.
-/

namespace Ontosyx.Lib.Script

open List

variable {τ α : Type} [DecidableEq α]

inductive SetEdit (α : Type) where
  | insert (a : α)
  | remove (p : α → Bool)

def SetEdit.apply (s : Finset α) : SetEdit α → Finset α
  | .insert a => Insert.insert a s
  | .remove p => s.filter fun a => p a = false

def run (read : τ → Option (SetEdit α)) : List τ → Finset α → Option (Finset α)
  | [], s => some s
  | t :: ts, s => (read t).bind fun e => run read ts (e.apply s)

/-- No removal of the script hits an insertion of it. -/
def OrderFree (read : τ → Option (SetEdit α)) (ts : List τ) : Prop :=
  ∀ t ∈ ts, ∀ u ∈ ts, ∀ a p, read t = some (.insert a) → read u = some (.remove p) → p a = false

variable {read : τ → Option (SetEdit α)}

theorem run_isSome_iff {ts : List τ} {s : Finset α} :
    (run read ts s).isSome ↔ ∀ t ∈ ts, (read t).isSome := by
  induction ts generalizing s with
  | nil => simp [run]
  | cons t ts ih =>
    rw [forall_mem_cons, run]
    cases read t with
    | none => simp
    | some e => simp [ih]

omit [DecidableEq α] in
theorem OrderFree.tail {t : τ} {ts : List τ} (h : OrderFree read (t :: ts)) : OrderFree read ts :=
  fun u hu v hv => h u (mem_cons_of_mem t hu) v (mem_cons_of_mem t hv)

/-- An order-free run leaves what it inserts, and of the rest what no removal
hits. -/
theorem mem_run_iff {ts : List τ} {s s' : Finset α} (hfree : OrderFree read ts)
    (h : run read ts s = some s') (a : α) : a ∈ s' ↔ (∃ t ∈ ts, read t = some (.insert a)) ∨
      a ∈ s ∧ ∀ t ∈ ts, ∀ p, read t = some (.remove p) → p a = false := by
  induction ts generalizing s with
  | nil =>
    rw [run, Option.some.injEq] at h
    simp [h]
  | cons t ts ih =>
    rw [run] at h
    cases hread : read t with
    | none =>
      rw [hread] at h
      cases h
    | some e =>
      rw [hread, Option.bind_some] at h
      rw [ih hfree.tail h]
      cases e with
      | insert b =>
        have hspare (hab : a = b) : ∀ u ∈ ts, ∀ p, read u = some (.remove p) →
            p a = false := by
          intro u hu p hp
          rw [hab]
          exact hfree t mem_cons_self u (mem_cons_of_mem t hu) b p hread hp
        simp only [SetEdit.apply, Finset.mem_insert, exists_mem_cons_iff, hread,
          forall_mem_cons, Option.some.injEq, SetEdit.insert.injEq, reduceCtorEq,
          false_implies, implies_true, true_and]
        by_cases hab : a = b
        · have hrest := hspare hab
          simp [hab] at hrest ⊢
          tauto
        · have hba : b ≠ a := fun hba => hab hba.symm
          simp [hab, hba]
      | remove p =>
        simp only [SetEdit.apply, Finset.mem_filter, exists_mem_cons_iff, hread,
          forall_mem_cons, Option.some.injEq, SetEdit.remove.injEq, reduceCtorEq,
          false_or, forall_eq', and_assoc]

/-- A script without removals that was broken off leaves the same when it is run from the start. -/
theorem run_again {ts us : List τ} {s s' : Finset α} (hsub : us ⊆ ts)
    (hkeeps : ∀ t ∈ ts, ∀ p, read t ≠ some (.remove p)) (h : run read us s = some s') :
    run read ts s' = run read ts s := by
  have hspares (a : α) : ∀ t ∈ ts, ∀ p, read t = some (.remove p) → p a = false :=
    fun t ht p hp => absurd hp (hkeeps t ht p)
  have hfree : OrderFree read ts := fun _ _ u hu a p _ => hspares a u hu p
  have hsome : (run read ts s').isSome ↔ (run read ts s).isSome :=
    run_isSome_iff.trans run_isSome_iff.symm
  cases hagain : run read ts s' <;> cases hrun : run read ts s <;> simp [hagain, hrun] at hsome ⊢
  ext a
  rw [mem_run_iff hfree hagain, mem_run_iff hfree hrun,
    mem_run_iff (fun t ht u hu => hfree t (hsub ht) u (hsub hu)) h]
  have hinsert : (∃ t ∈ us, read t = some (.insert a)) → ∃ t ∈ ts, read t = some (.insert a) :=
    fun ⟨t, ht, hread⟩ => ⟨t, hsub ht, hread⟩
  rw [and_iff_left (hspares a), and_iff_left fun t ht => hspares a t (hsub ht),
    and_iff_left (hspares a), ← or_assoc, or_iff_left_of_imp hinsert]

end Ontosyx.Lib.Script
