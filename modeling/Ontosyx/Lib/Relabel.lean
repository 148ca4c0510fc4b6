import Mathlib.Data.List.Nodup

/-!
# Relabelling in sequence

A list of blocks relabels a population of labelled states.  A block moves what
carries its old label to its new label and acts on everything that carries the
new label then, so that its action also reaches what had that label before.

Run in sequence, the blocks do to each state what its own block says exactly
when no block takes a label that a later block still has to move: this is the
order in which a simultaneous substitution of the labels can be carried out one
label at a time.

## Main results

* `run_own` — in such an order a state gets its own block, and no other.
* `run_stranger` — a state with none of the old labels keeps its label.
* `label_run_own_iff` — the labels come out right exactly in such an order.
-/

namespace Ontosyx.Lib.Relabel

open List

/-- A renaming of one label, with an action on what then carries the new one. -/
structure Block (α σ : Type) where
  old : α
  new : α
  act : σ → σ

variable {α σ : Type} [DecidableEq α]

/-- What a block does to a labelled state. -/
def Block.step (b : Block α σ) (x : α × σ) : α × σ :=
  if x.1 = b.old ∨ x.1 = b.new then (b.new, b.act x.2) else x

def run : List (Block α σ) → α × σ → α × σ
  | [], x => x
  | b :: bs, x => run bs (b.step x)

/-- No block takes a label that a later block has to move. -/
def Ordered (bs : List (Block α σ)) : Prop := bs.Pairwise fun b c => b.new ≠ c.old

variable {bs : List (Block α σ)}

theorem Block.step_of_ne {b : Block α σ} {x : α × σ} (hold : x.1 ≠ b.old) (hnew : x.1 ≠ b.new) :
    b.step x = x := if_neg (not_or_intro hold hnew)

theorem run_append (as bs : List (Block α σ)) (x : α × σ) :
    run (as ++ bs) x = run bs (run as x) := by
  induction as generalizing x with
  | nil => rfl
  | cons a as ih => exact ih _

/-- A state no block speaks of stays as it is. -/
theorem run_of_ne {x : α × σ} (hold : ∀ b ∈ bs, x.1 ≠ b.old) (hnew : ∀ b ∈ bs, x.1 ≠ b.new) :
    run bs x = x := by
  induction bs with
  | nil => rfl
  | cons b bs ih =>
    rw [run, Block.step_of_ne (hold b mem_cons_self) (hnew b mem_cons_self)]
    exact ih (fun c hc => hold c (mem_cons_of_mem _ hc))
      fun c hc => hnew c (mem_cons_of_mem _ hc)

/-- In order, a state gets its own block and no other. -/
theorem run_own (hold : (bs.map Block.old).Nodup) (hnew : (bs.map Block.new).Nodup)
    (hord : Ordered bs) {b : Block α σ} (hb : b ∈ bs) (s : σ) :
    run bs (b.old, s) = (b.new, b.act s) := by
  obtain ⟨pre, post, rfl⟩ := append_of_mem hb
  rw [Ordered, pairwise_append] at hord
  obtain ⟨-, hpost, hpre⟩ := hord
  rw [map_append, map_cons, nodup_append] at hold hnew
  obtain ⟨-, hold, holdPre⟩ := hold
  obtain ⟨-, hnew, -⟩ := hnew
  have hbefore : run pre (b.old, s) = (b.old, s) := by
    apply run_of_ne
    · intro c hc heq
      exact holdPre c.old (mem_map_of_mem hc) b.old mem_cons_self heq.symm
    · intro c hc heq
      exact hpre c hc b mem_cons_self heq.symm
  have hstep : b.step (b.old, s) = (b.new, b.act s) := if_pos (.inl rfl)
  rw [run_append, hbefore, run, hstep]
  apply run_of_ne
  · exact fun c hc => (pairwise_cons.1 hpost).1 c hc
  · intro c hc heq
    change b.new = c.new at heq
    exact (nodup_cons.1 hnew).1 (heq ▸ mem_map_of_mem hc)

/-- A state with none of the old labels keeps its label and gets the action of
the block that gives the label, if there is one. -/
theorem run_stranger (hnew : (bs.map Block.new).Nodup) {x : α × σ}
    (hold : ∀ b ∈ bs, x.1 ≠ b.old) {b : Block α σ} (hb : b ∈ bs) (hx : b.new = x.1) :
    run bs x = (x.1, b.act x.2) := by
  obtain ⟨pre, post, rfl⟩ := append_of_mem hb
  rw [map_append, map_cons, nodup_append] at hnew
  obtain ⟨-, hnew, hnewPre⟩ := hnew
  have hbefore : run pre x = x := by
    apply run_of_ne
    · exact fun c hc => hold c (mem_append_left _ hc)
    · intro c hc heq
      exact hnewPre c.new (mem_map_of_mem hc) b.new mem_cons_self
        (heq.symm.trans hx.symm)
  have hstep : b.step x = (x.1, b.act x.2) := by
    rw [Block.step, if_pos (.inr hx.symm), hx]
  rw [run_append, hbefore, run, hstep]
  apply run_of_ne
  · exact fun c hc => hold c (mem_append_right _ (mem_cons_of_mem _ hc))
  · intro c hc heq
    exact (nodup_cons.1 hnew).1 (by rw [hx]; exact heq ▸ mem_map_of_mem hc)

/-- Where a label goes does not depend on the state. -/
theorem label_run_congr (l : α) (s t : σ) : (run bs (l, s)).1 = (run bs (l, t)).1 := by
  induction bs generalizing l s t with
  | nil => rfl
  | cons b bs ih =>
    rw [run, run]
    unfold Block.step
    split
    · exact ih ..
    · exact ih ..

/-- The labels come out right exactly in such an order. -/
theorem label_run_own_iff (hold : (bs.map Block.old).Nodup) (hnew : (bs.map Block.new).Nodup)
    (s : σ) : (∀ b ∈ bs, (run bs (b.old, s)).1 = b.new) ↔ Ordered bs := by
  constructor
  · intro h
    induction bs with
    | nil => exact .nil
    | cons b bs ih =>
      obtain ⟨holdb, hold⟩ := nodup_cons.1 hold
      obtain ⟨hnewb, hnew⟩ := nodup_cons.1 hnew
      have hrest (c : Block α σ) (hc : c ∈ bs) : (run bs (c.old, s)).1 = c.new := by
        have hown := h c (mem_cons_of_mem _ hc)
        have hne : c.old ≠ b.old := fun heq => holdb (heq ▸ mem_map_of_mem hc)
        rw [run, Block.step] at hown
        by_cases hmoved : c.old = b.new
        · rw [if_pos (.inr hmoved), ← hmoved] at hown
          rw [label_run_congr _ s (b.act s)]
          exact hown
        · rwa [if_neg (not_or_intro hne hmoved)] at hown
      refine pairwise_cons.2 ⟨?_, ih hold hnew hrest⟩
      intro c hc heq
      have hown := h b mem_cons_self
      have hstep : b.step (b.old, s) = (b.new, b.act s) := if_pos (.inl rfl)
      rw [run, hstep, heq, label_run_congr _ _ s, hrest c hc, ← heq] at hown
      exact hnewb (hown ▸ mem_map_of_mem hc)
  · intro hord b hb
    rw [run_own hold hnew hord hb]

end Ontosyx.Lib.Relabel
