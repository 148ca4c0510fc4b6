import Ontosyx.Ontology.References
import Mathlib.Data.Set.Card

/-!
# The cycle detector

The depth-first search of `ir/cycles.rs` over an arbitrary successor function.  A grey node
lies on the path, and the black nodes are closed under successors without a cycle among them.

## Main results

* `dfs_spec` — what one call does, and how deep it goes.
* `findCycleWithin_decides` — the search finds a cycle exactly where one can be reached.
-/

namespace Ontosyx.Ontology

open List Lib.Keyed
open Relation (TransGen ReflTransGen)

variable {N : Type}

def Leads (edges : N → List N) (n m : N) : Prop := m ∈ edges n

def Reached (edges : N → List N) (roots : List N) (n : N) : Prop :=
  ∃ root ∈ roots, ReflTransGen (Leads edges) root n

/-- Each node of the path leads to the next one, and the last leads back to the first. -/
def IsCycle (edges : N → List N) (path : List N) : Prop :=
  ∃ n rest, path = n :: rest ∧ (n :: rest ++ [n]).IsChain (Leads edges)

theorem transGen_of_isChain {R : N → N → Prop} {n m : N} {path : List N}
    (h : (n :: path ++ [m]).IsChain R) : TransGen R n m := by
  induction path generalizing n with
  | nil => exact .single (isChain_cons_cons.1 h).1
  | cons l path ih =>
    obtain ⟨hstep, hrest⟩ := isChain_cons_cons.1 h
    exact .head hstep (ih hrest)

variable [DecidableEq N] {edges : N → List N}

/-- `color.get(node)`. -/
def colorOf (color : List (N × Color)) (n : N) : Option Color := (first (·.1) n color).map (·.2)

theorem colorOf_cons (color : List (N × Color)) (m n : N) (c : Color) :
    colorOf ((m, c) :: color) n = if m = n then some c else colorOf color n := by
  unfold colorOf first
  rw [find?_cons]
  by_cases hmn : m = n
  · simp [hmn]
  · simp [hmn]

/-- What holds between two calls of `dfs`: the path is a walk through the grey nodes, and what is
reached from a black node is black and on no cycle. -/
structure Searching (edges : N → List N) (color : List (N × Color)) (path : List N) : Prop where
  gray (n : N) : colorOf color n = some .gray ↔ n ∈ path
  walk : path.IsChain (Leads edges)
  closed (n : N) : colorOf color n = some .black → ∀ m ∈ edges n, colorOf color m = some .black
  acyclic (n : N) : colorOf color n = some .black → ¬ TransGen (Leads edges) n n

namespace Searching

variable {color : List (N × Color)} {path : List N} {node : N}

theorem black_of_reached (h : Searching edges color path) {n m : N}
    (hn : colorOf color n = some .black) (hnm : TransGen (Leads edges) n m) :
    colorOf color m = some .black := by
  induction hnm with
  | single hm => exact h.closed n hn _ hm
  | tail _ hm ih => exact h.closed _ ih _ hm

theorem push (h : Searching edges color path) (hnew : colorOf color node = none)
    (hlast : ∀ l ∈ path.getLast?, Leads edges l node) :
    Searching edges ((node, .gray) :: color) (path ++ [node]) where
  gray n := by
    rw [colorOf_cons, mem_append, mem_singleton, ← h.gray n]
    by_cases hn : node = n
    · simp [hn]
    · simp [hn, Ne.symm hn]
  walk := isChain_append.2 ⟨h.walk, .singleton _, fun l hl m hm => by
    cases hm
    exact hlast l hl⟩
  closed n hn m hm := by
    rw [colorOf_cons] at hn ⊢
    have hne : node ≠ n := by
      rintro rfl
      simp at hn
    rw [if_neg hne] at hn
    have hm' := h.closed n hn m hm
    rw [if_neg, hm']
    rintro rfl
    rw [hnew] at hm'
    cases hm'
  acyclic n hn := by
    rw [colorOf_cons] at hn
    by_cases hne : node = n
    · simp [hne] at hn
    · rw [if_neg hne] at hn
      exact h.acyclic n hn

/-- The last node of the path is left, all of its successors are black. -/
theorem pop (h : Searching edges color (path ++ [node])) (hnot : node ∉ path)
    (hblack : ∀ m ∈ edges node, colorOf color m = some .black) :
    Searching edges ((node, .black) :: color) path where
  gray n := by
    rw [colorOf_cons]
    by_cases hn : node = n
    · subst hn
      simp [hnot]
    · rw [if_neg hn, h.gray n]
      simp [Ne.symm hn]
  walk := (isChain_append.1 h.walk).1
  closed n hn m hm := by
    rw [colorOf_cons] at hn ⊢
    by_cases hmn : node = m
    · rw [if_pos hmn]
    · rw [if_neg hmn]
      by_cases hne : node = n
      · subst hne
        exact hblack m hm
      · rw [if_neg hne] at hn
        exact h.closed n hn m hm
  acyclic n hn hcycle := by
    rw [colorOf_cons] at hn
    by_cases hne : node = n
    · subst hne
      obtain ⟨m, hm, hback⟩ := TransGen.head'_iff.1 hcycle
      have hnode : colorOf color node = some .black := by
        rcases Relation.reflTransGen_iff_eq_or_transGen.1 hback with rfl | hback
        · exact hblack _ hm
        · exact h.black_of_reached (hblack m hm) hback
      have hgray := (h.gray node).2 (by simp)
      rw [hnode] at hgray
      cases hgray
    · rw [if_neg hne] at hn
      exact h.acyclic n hn hcycle

/-- A grey node that is met again closes a cycle. -/
theorem isCycle (h : Searching edges color path) (hmem : node ∈ path)
    (hlast : ∀ l ∈ path.getLast?, Leads edges l node) :
    IsCycle edges (path.drop (path.idxOf node)) := by
  have hlt := idxOf_lt_length_of_mem hmem
  have hdrop := drop_eq_getElem_cons hlt
  rw [getElem_idxOf] at hdrop
  refine ⟨node, _, hdrop, ?_⟩
  rw [← hdrop]
  refine isChain_append.2 ⟨h.walk.drop _, .singleton _, fun l hl m hm => ?_⟩
  cases hm
  rw [getLast?_drop, if_neg (by omega)] at hl
  exact hlast l hl

end Searching

/-! ## One call -/

/-- The nodes of `U` that have no colour. -/
def fresh (U : Finset N) (color : List (N × Color)) : Finset N :=
  U.filter fun n => colorOf color n = none

/-- What a call for some nodes leaves behind: a cycle, or the path as it was and the nodes
black. -/
def Explored (edges : N → List N) (U : Finset N) (color : List (N × Color)) (path nodes : List N)
    (r : Option (List N) × List (N × Color)) : Prop :=
  match r.1 with
  | some cycle => IsCycle edges cycle ∧ ∀ n ∈ cycle, n ∈ U
  | none => Searching edges r.2 path ∧ fresh U r.2 ⊆ fresh U color ∧
      (∀ n, colorOf color n = some .black → colorOf r.2 n = some .black) ∧
      ∀ n ∈ nodes, colorOf r.2 n = some .black

/-- The step of the loop over successors and of the one over roots. -/
def visitNext (visit : N → List (N × Color) → Option (List N) × List (N × Color))
    (found : Option (List N) × List (N × Color)) (next : N) : Option (List N) × List (N × Color) :=
  match found.1 with
  | some _ => found
  | none => visit next found.2

omit [DecidableEq N] in
theorem foldl_visitNext_some (visit : N → List (N × Color) → Option (List N) × List (N × Color))
    (cycle : List N) (color : List (N × Color)) (nodes : List N) :
    nodes.foldl (visitNext visit) (some cycle, color) = (some cycle, color) := by
  induction nodes with
  | nil => rfl
  | cons n nodes ih => exact ih

variable {U : Finset N} {path : List N} {k : ℕ}

/-- A loop of calls on the same path is explored when each call is, at any depth from `k` on. -/
theorem explored_loop (visit : ℕ → N → List (N × Color) → Option (List N) × List (N × Color))
    (nodes : List N) (color : List (N × Color)) (h : Searching edges color path)
    (hfresh : (fresh U color).card < k)
    (hvisit : ∀ n ∈ nodes, ∀ c, Searching edges c path → (fresh U c).card < k →
      ∃ r, (∀ fuel ≥ k, visit fuel n c = r) ∧ Explored edges U c path [n] r) :
    ∃ r, (∀ fuel ≥ k, nodes.foldl (visitNext (visit fuel)) (none, color) = r) ∧
      Explored edges U color path nodes r := by
  induction nodes generalizing color with
  | nil => exact ⟨_, fun _ _ => rfl, h, subset_rfl, fun _ hn => hn, nofun⟩
  | cons n nodes ih =>
    obtain ⟨⟨found, color'⟩, hr, hn⟩ := hvisit n mem_cons_self color h hfresh
    cases found with
    | some cycle =>
      refine ⟨(some cycle, color'), fun fuel hfuel => ?_, hn⟩
      rw [foldl_cons]
      show nodes.foldl (visitNext (visit fuel)) (visit fuel n color) = _
      rw [hr fuel hfuel, foldl_visitNext_some]
    | none =>
      obtain ⟨h', hsub, hkeep, hblack⟩ := hn
      obtain ⟨r, hr', hnodes⟩ := ih color' h' ((Finset.card_le_card hsub).trans_lt hfresh)
        fun m hm => hvisit m (mem_cons_of_mem _ hm)
      refine ⟨r, fun fuel hfuel => ?_, ?_⟩
      · rw [foldl_cons]
        show nodes.foldl (visitNext (visit fuel)) (visit fuel n color) = _
        rw [hr fuel hfuel, hr' fuel hfuel]
      · unfold Explored at hnodes ⊢
        split at hnodes
        · exact hnodes
        · obtain ⟨hs, hsub', hkeep', hblack'⟩ := hnodes
          refine ⟨hs, hsub'.trans hsub, fun m hm => hkeep' m (hkeep m hm), fun m hm => ?_⟩
          rcases mem_cons.1 hm with rfl | hm
          · exact hkeep' m (hblack m (by simp))
          · exact hblack' m hm

theorem mem_fresh {color : List (N × Color)} {n : N} :
    n ∈ fresh U color ↔ n ∈ U ∧ colorOf color n = none := Finset.mem_filter

/-- A colour only takes nodes away. -/
theorem fresh_cons_subset (color : List (N × Color)) (node : N) (c : Color) :
    fresh U ((node, c) :: color) ⊆ fresh U color := by
  intro n hn
  rw [mem_fresh, colorOf_cons] at hn
  by_cases hne : node = n
  · simp [hne] at hn
  · rw [if_neg hne] at hn
    exact mem_fresh.2 hn

theorem card_fresh_push {color : List (N × Color)} {node : N} (hnode : node ∈ U)
    (hnew : colorOf color node = none) :
    (fresh U ((node, .gray) :: color)).card < (fresh U color).card := by
  refine Finset.card_lt_card ⟨fresh_cons_subset color node .gray, fun hsub => ?_⟩
  have hin := hsub (mem_fresh.2 ⟨hnode, hnew⟩)
  rw [mem_fresh, colorOf_cons] at hin
  simp at hin

/-- The end of a call: without a cycle, the node is black. -/
def finish (node : N) (found : Option (List N) × List (N × Color)) :
    Option (List N) × List (N × Color) :=
  match found.1 with
  | some cycle => (some cycle, found.2)
  | none => (none, (node, .black) :: found.2)

theorem dfs_new {color : List (N × Color)} {node : N} {fuel : ℕ}
    (hnew : first (·.1) node color = none) :
    dfs edges (fuel + 1) node color path = finish node ((edges node).foldl
      (visitNext fun next c => dfs edges fuel next c (path ++ [node]))
      (none, (node, .gray) :: color)) := by
  rw [dfs, hnew]
  rfl

/-- `dfs` from a node that the last node of the path leads to: a call takes as many levels as
there are nodes without a colour, and then its result depends on the depth no more. -/
theorem dfs_spec (hU : ∀ n ∈ U, ∀ m ∈ edges n, m ∈ U) (k : ℕ) :
    ∀ (color : List (N × Color)) (path : List N) (node : N), Searching edges color path →
      (∀ n ∈ path, n ∈ U) → node ∈ U → (∀ l ∈ path.getLast?, Leads edges l node) →
      (fresh U color).card < k → ∃ r, (∀ fuel ≥ k, dfs edges fuel node color path = r) ∧
        Explored edges U color path [node] r := by
  induction k with
  | zero => exact fun _ _ _ _ _ _ _ hk => absurd hk (Nat.not_lt_zero _)
  | succ k ih =>
    intro color path node h hpath hnode hlast hk
    have hstep (fuel : ℕ) (hfuel : fuel ≥ k + 1) : ∃ fuel' ≥ k, fuel = fuel' + 1 :=
      ⟨fuel - 1, by omega, by omega⟩
    cases hcolor : first (·.1) node color with
    | some entry =>
      obtain ⟨n, c⟩ := entry
      have hcolorOf : colorOf color node = some c := by simp [colorOf, hcolor]
      cases c with
      | black =>
        refine ⟨(none, color), fun fuel hfuel => ?_, h, subset_rfl, fun _ hn => hn, ?_⟩
        · obtain ⟨fuel, -, rfl⟩ := hstep fuel hfuel
          rw [dfs, hcolor]
        · simpa using hcolorOf
      | gray =>
        have hmem := (h.gray node).1 hcolorOf
        refine ⟨(some (path.drop (path.idxOf node)), color), fun fuel hfuel => ?_,
          h.isCycle hmem hlast, fun n hn => hpath n (mem_of_mem_drop hn)⟩
        obtain ⟨fuel, -, rfl⟩ := hstep fuel hfuel
        rw [dfs, hcolor]
        simp only [if_pos hmem]
    | none =>
      have hcolorOf : colorOf color node = none := by simp [colorOf, hcolor]
      have hnot : node ∉ path := fun hmem => by
        rw [(h.gray node).2 hmem] at hcolorOf
        cases hcolorOf
      have hless := card_fresh_push hnode hcolorOf
      have hpath' : ∀ n ∈ path ++ [node], n ∈ U := by
        intro n hn
        rcases mem_append.1 hn with hn | hn
        · exact hpath n hn
        · rw [mem_singleton.1 hn]
          exact hnode
      obtain ⟨⟨found, color'⟩, hr, hloop⟩ := explored_loop
        (fun fuel next c => dfs edges fuel next c (path ++ [node])) (edges node) _
        (h.push hcolorOf hlast) (by omega) fun m hm c hc hlt =>
          ih c _ m hc hpath' (hU node hnode m hm) (by simpa [Leads] using hm) hlt
      have hcall (fuel : ℕ) (hfuel : fuel ≥ k + 1) :
          dfs edges fuel node color path = finish node (found, color') := by
        obtain ⟨fuel, hle, rfl⟩ := hstep fuel hfuel
        rw [dfs_new hcolor, hr fuel hle]
      cases found with
      | some cycle => exact ⟨_, hcall, hloop⟩
      | none =>
        obtain ⟨h', hsub, hkeep, hblack⟩ := hloop
        refine ⟨_, hcall, h'.pop hnot hblack,
          (fresh_cons_subset _ _ _).trans (hsub.trans (fresh_cons_subset _ _ _)), ?_, ?_⟩
        · intro n hn
          show colorOf ((node, .black) :: color') n = _
          rw [colorOf_cons]
          by_cases hne : node = n
          · rw [if_pos hne]
          · rw [if_neg hne]
            exact hkeep n (by rwa [colorOf_cons, if_neg hne])
        · intro n hn
          rw [mem_singleton.1 hn]
          show colorOf ((node, .black) :: color') node = _
          rw [colorOf_cons, if_pos rfl]

theorem searching_nil : Searching edges [] [] where
  gray n := by simp [colorOf, first]
  walk := .nil
  closed n hn := by simp [colorOf, first] at hn
  acyclic n hn := by simp [colorOf, first] at hn

/-- From as many levels on as there are nodes to reach, the search has one result: a cycle if one
can be reached from the roots, and then one that is. -/
theorem findCycleWithin_decides (edges : N → List N) (roots : List N)
    (hfin : {n | Reached edges roots n}.Finite) :
    ∃ found, (∀ depth > {n | Reached edges roots n}.ncard,
        findCycleWithin depth roots edges = found) ∧
      (found.isSome ↔ ∃ n, Reached edges roots n ∧ TransGen (Leads edges) n n) ∧
      ∀ path, found = some path → IsCycle edges path ∧ ∀ n ∈ path, Reached edges roots n := by
  have hmem (n : N) : n ∈ hfin.toFinset ↔ Reached edges roots n := hfin.mem_toFinset
  have hU : ∀ n ∈ hfin.toFinset, ∀ m ∈ edges n, m ∈ hfin.toFinset := by
    intro n hn m hm
    obtain ⟨root, hroot, hreach⟩ := (hmem n).1 hn
    exact (hmem m).2 ⟨root, hroot, hreach.tail hm⟩
  have hcard : (fresh hfin.toFinset ([] : List (N × Color))).card <
      {n | Reached edges roots n}.ncard + 1 := by
    rw [Set.ncard_eq_toFinset_card _ hfin]
    exact Nat.lt_succ_of_le (Finset.card_filter_le _ _)
  obtain ⟨⟨found, color⟩, hr, hexplored⟩ := explored_loop
    (fun fuel root c => dfs edges fuel root c []) roots [] searching_nil hcard
    fun root hroot c hc hlt => dfs_spec hU _ c [] root hc nofun
      ((hmem root).2 ⟨root, hroot, .refl⟩) nofun hlt
  refine ⟨found, fun depth hdepth => ?_, ?_⟩
  · exact congrArg Prod.fst (hr depth hdepth)
  cases found with
  | some cycle =>
    obtain ⟨hcycle, hin⟩ := hexplored
    have hreached : ∀ n ∈ cycle, Reached edges roots n := fun n hn => (hmem n).1 (hin n hn)
    refine ⟨iff_of_true rfl ?_, fun path hpath => ?_⟩
    · obtain ⟨n, rest, rfl, hwalk⟩ := hcycle
      exact ⟨n, hreached n mem_cons_self, transGen_of_isChain hwalk⟩
    · cases hpath
      exact ⟨hcycle, hreached⟩
  | none =>
    obtain ⟨h, -, -, hblack⟩ := hexplored
    refine ⟨iff_of_false (by simp) ?_, nofun⟩
    rintro ⟨n, ⟨root, hroot, hreach⟩, hcycle⟩
    refine h.acyclic n ?_ hcycle
    rcases Relation.reflTransGen_iff_eq_or_transGen.1 hreach with rfl | hreach
    · exact hblack _ hroot
    · exact h.black_of_reached (hblack root hroot) hreach

local instance ringNonempty : NeZero 3 := ⟨three_ne_zero⟩

def ring (n : Fin 3) : List (Fin 3) := [n + 1]

theorem findCycleWithin_ring :
    findCycleWithin 4 [0] ring = some [0, 1, 2] ∧ IsCycle ring [0, 1, 2] := by
  have hfind : findCycleWithin 4 [0] ring = some [0, 1, 2] := by decide
  obtain ⟨found, hdepth, -, hpath⟩ := findCycleWithin_decides ring [0] (Set.toFinite _)
  have hcard : {n | Reached ring [0] n}.ncard ≤ 3 := (Set.ncard_le_card _).trans_eq (Nat.card_fin 3)
  exact ⟨hfind, (hpath _ ((hdepth 4 (by omega)).symm.trans hfind)).1⟩

end Ontosyx.Ontology
