import Mathlib.Tactic.TypeStar

/-!
# Conditions along a loop

A loop goes through a list and changes a state at every entry.  `Along` says that a
condition holds at every turn, of the state as it is then; what a turn keeps under the
condition the loop keeps.

## Main results

* `Along.foldl_induct` — what each turn keeps holds in the end.
* `Along.foldl_rel` — two loops whose turns keep a relation end related.
-/

namespace Ontosyx.Lib.Along

variable {σ τ α : Type*}

/-- The condition holds at every turn of the loop. -/
def Along (step : σ → α → σ) (ok : σ → α → Prop) : σ → List α → Prop
  | _, [] => True
  | s, a :: as => ok s a ∧ Along step ok (step s a) as

variable {step : σ → α → σ} {ok : σ → α → Prop}

/-- What each turn keeps holds in the end. -/
theorem Along.foldl_induct {P : σ → Prop} (hstep : ∀ s a, P s → ok s a → P (step s a)) {s : σ}
    {as : List α} (h : Along step ok s as) (hs : P s) : P (as.foldl step s) := by
  induction as generalizing s with
  | nil => exact hs
  | cons a as ih => exact ih h.2 (hstep s a hs h.1)

/-- Two loops whose turns keep a relation end related. -/
theorem Along.foldl_rel {other : τ → α → τ} {Rel : σ → τ → Prop}
    (hstep : ∀ s t a, Rel s t → ok s a → Rel (step s a) (other t a)) {s : σ} {t : τ}
    {as : List α} (h : Along step ok s as) (hst : Rel s t) :
    Rel (as.foldl step s) (as.foldl other t) := by
  induction as generalizing s t with
  | nil => exact hst
  | cons a as ih => exact ih h.2 (hstep s t a hst h.1)

/-- A condition that always holds does so along a loop. -/
theorem along_of_forall (h : ∀ s a, ok s a) (s : σ) (as : List α) : Along step ok s as := by
  induction as generalizing s with
  | nil => trivial
  | cons a as ih => exact ⟨h s a, ih (step s a)⟩

end Ontosyx.Lib.Along
