import Mathlib.Data.Set.Finite.Basic
import Mathlib.Order.WellFounded

/-!
# Strata of a relation

Items that depend on one another are laid out in levels.  `Earlier` says that
one item stands in an earlier level than another; a layout is layered for a
relation when everything an item depends on stands in an earlier level.

What cannot be laid out in this way is what stands on a cycle or depends on one.

## Main results

* `behind_of_stuck` — where each item that is left depends on another that
  is left, and none of the others does, those left are the ones behind a cycle.
* `transGen_iff_of_renaming` — reachability is kept by a renaming.
-/

namespace Ontosyx.Lib.Strata

open List

variable {α β : Type} (R : α → α → Prop)

/-- The item is on a cycle of dependencies or depends on one, directly or not. -/
def Behind (x : α) : Prop := ∃ c, Relation.ReflTransGen R x c ∧ Relation.TransGen R c c

variable {R}

variable {x : α}

theorem Behind.exists_dep (hx : Behind R x) : ∃ y, R x y ∧ Behind R y := by
  obtain ⟨c, hxc, hcc⟩ := hx
  cases hxc.cases_head with
  | inl heq =>
    subst heq
    obtain ⟨y, hxy, hyx⟩ := Relation.TransGen.head'_iff.1 hcc
    exact ⟨y, hxy, x, hyx, hcc⟩
  | inr hstep =>
    obtain ⟨y, hxy, hyc⟩ := hstep
    exact ⟨y, hxy, c, hyc, hcc⟩

/-- Where every item left depends on another one left, each is behind a cycle. -/
theorem behind_of_stuck {left : Set α} (hfin : left.Finite)
    (hstuck : ∀ x ∈ left, ∃ y ∈ left, R x y) (hx : x ∈ left) : Behind R x := by
  by_contra hno
  -- Among the items left that `x` depends on, dependency is a strict order.
  let S : Set α := {y | y ∈ left ∧ Relation.ReflTransGen R x y}
  have : Finite S := hfin.subset fun y hy => hy.1
  let below : S → S → Prop := fun a b => Relation.TransGen R b.1 a.1
  have : IsTrans S below := ⟨fun a b c hab hbc => hbc.trans hab⟩
  have : Std.Irrefl below := ⟨fun a haa => hno ⟨a.1, a.2.2, haa⟩⟩
  have hwf : WellFounded below := Finite.wellFounded_of_trans_of_irrefl below
  obtain ⟨m, -, hmin⟩ :=
    hwf.has_min Set.univ ⟨⟨x, hx, Relation.ReflTransGen.refl⟩, Set.mem_univ _⟩
  obtain ⟨y, hy, hmy⟩ := hstuck m.1 m.2.1
  exact hmin ⟨y, hy, m.2.2.tail hmy⟩ (Set.mem_univ _) (Relation.TransGen.single hmy)

/-- Reachability is kept by a renaming that can be undone. -/
theorem transGen_iff_of_renaming {S : β → β → Prop} {f : α → β} {g : β → α}
    (hf : ∀ a b, R a b → S (f a) (f b)) (hg : ∀ a b, S a b → R (g a) (g b)) {a b : α}
    (ha : g (f a) = a) (hb : g (f b) = b) :
    Relation.TransGen R a b ↔ Relation.TransGen S (f a) (f b) := by
  constructor
  · intro h
    exact h.lift f hf
  · intro h
    have hback : Relation.TransGen R (g (f a)) (g (f b)) := h.lift g hg
    rwa [ha, hb] at hback

/-! ## Levels -/

/-- `x` stands in an earlier level than `y`. -/
def Earlier (levels : List (List α)) (x y : α) : Prop :=
  ∃ before level after, levels = before ++ level :: after ∧ y ∈ level ∧ x ∈ before.flatten

/-- Whatever an item depends on stands in an earlier level. -/
def Layered (R : α → α → Prop) (levels : List (List α)) : Prop :=
  ∀ before level after, levels = before ++ level :: after →
    ∀ x ∈ level, ∀ y, R x y → y ∈ before.flatten

theorem layered_nil : Layered R [] := by
  intro before level after h
  simp at h

variable {levels : List (List α)}

theorem Layered.init {last : List α} (h : Layered R (levels ++ [last])) : Layered R levels := by
  intro before level after hlevels x hx y hxy
  exact h before level (after ++ [last]) (by simp [hlevels]) x hx y hxy

theorem Layered.concat {last : List α} (h : Layered R levels)
    (hlast : ∀ x ∈ last, ∀ y, R x y → y ∈ levels.flatten) : Layered R (levels ++ [last]) := by
  intro before level after hlevels x hx y hxy
  induction after using reverseRecOn with
  | nil =>
    obtain ⟨rfl, hl⟩ := append_inj' hlevels rfl
    rw [← singleton_inj.1 hl] at hx
    exact hlast x hx y hxy
  | append_singleton after l _ =>
    rw [← cons_append, ← append_assoc] at hlevels
    obtain ⟨hlevels', -⟩ := append_inj' hlevels rfl
    exact h before level after hlevels' x hx y hxy

/-- In a layered list every dependency of an item stands before it. -/
theorem Layered.earlier (h : Layered R levels) {y : α} (hx : x ∈ levels.flatten) (hxy : R x y) :
    Earlier levels y x := by
  obtain ⟨level, hlevel, hmem⟩ := mem_flatten.1 hx
  obtain ⟨before, after, rfl⟩ := append_of_mem hlevel
  exact ⟨before, level, after, rfl, hmem, h before level after rfl x hmem y hxy⟩

/-- What is laid out in layers is not behind a cycle. -/
theorem Layered.not_behind (h : Layered R levels) : ∀ x ∈ levels.flatten, ¬ Behind R x := by
  induction levels using reverseRecOn with
  | nil => simp
  | append_singleton levels last ih =>
    intro x hx hbehind
    rw [flatten_append, mem_append] at hx
    rcases hx with hx | hx
    · exact ih h.init x hx hbehind
    · rw [flatten_singleton] at hx
      obtain ⟨y, hxy, hy⟩ := hbehind.exists_dep
      exact ih h.init y (h levels last [] rfl x hx y hxy) hy

theorem Earlier.append {y : α} (h : Earlier levels x y) (more : List (List α)) : Earlier
    (levels ++ more) x y := by
  obtain ⟨before, level, after, rfl, hy, hx⟩ := h
  exact ⟨before, level, after ++ more, by simp, hy, hx⟩

/-- Nothing is before an item that occurs once, in a level of its own kind. -/
theorem Earlier.mem_init {last : List α} {y : α} (h : Earlier (levels ++ [last]) x y) :
    x ∈ levels.flatten := by
  obtain ⟨before, level, after, hlevels, -, hx⟩ := h
  induction after using reverseRecOn with
  | nil =>
    obtain ⟨rfl, -⟩ := append_inj' hlevels rfl
    exact hx
  | append_singleton after l _ =>
    rw [← cons_append, ← append_assoc] at hlevels
    obtain ⟨rfl, -⟩ := append_inj' hlevels rfl
    rw [flatten_append]
    exact mem_append_left _ hx

theorem Earlier.map (f : α → β) {levels : List (List α)} {x y : α} (h : Earlier levels x y) :
    Earlier (levels.map fun level => level.map f) (f x) (f y) := by
  obtain ⟨before, level, after, rfl, hy, hx⟩ := h
  refine ⟨before.map fun l => l.map f, level.map f, after.map fun l => l.map f, by simp,
    mem_map_of_mem hy, ?_⟩
  rw [← map_flatten]
  exact mem_map_of_mem hx

end Ontosyx.Lib.Strata
