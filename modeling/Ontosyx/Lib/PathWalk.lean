import Mathlib.Data.Finset.Card

/-!
# Walks in a graph

A walk goes to successors and stops where it comes back to a node of its own path.  A search
follows the successors of what it has visited, the last one found first.

## Main results

* `pathWalk_eq_of_le` — more rounds than nodes change nothing: the walk ends on every graph.
* `not_transGen_of_pathWalk` — a walk that comes back nowhere starts on no cycle.
* `acyclic_of_changed` — new links of one node close no cycle unless one goes through the node.
* `search_spec` — with enough turns a search visits what can be reached.
-/

namespace Ontosyx.Lib.PathWalk

open List

open Relation (ReflTransGen TransGen)

variable {κ : Type}

def Linked (succ : κ → List κ) (a b : κ) : Prop := b ∈ succ a

section

variable {R : κ → κ → Prop} {a b : κ} {n : ℕ}

/-- The one is so many links away from the other. -/
def Path (R : κ → κ → Prop) : ℕ → κ → κ → Prop
  | 0, a, b => a = b
  | n + 1, a, c => ∃ b, R a b ∧ Path R n b c

/-- No path between the two is shorter. -/
def Distance (R : κ → κ → Prop) (a b : κ) (n : ℕ) : Prop :=
  Path R n a b ∧ ∀ m, Path R m a b → n ≤ m

theorem Path.reflTransGen (h : Path R n a b) : ReflTransGen R a b := by
  induction n generalizing a with
  | zero =>
    obtain rfl : a = b := h
    exact .refl
  | succ n ih =>
    obtain ⟨c, hac, hcb⟩ := h
    exact .head hac (ih hcb)

theorem Path.not_succ (hac : ∀ a, ¬TransGen R a a) : ¬Path R (n + 1) a a := by
  rintro ⟨c, hlink, hback⟩
  exact hac a (.head' hlink hback.reflTransGen)

/-- A path passes as many entities as it has links. -/
theorem Path.exists_nodup (hac : ∀ a, ¬TransGen R a a) (h : Path R n a b) : ∃ xs : List κ,
    xs.length = n ∧ xs.Nodup ∧ ∀ x ∈ xs, (∃ y, R x y) ∧ ReflTransGen R a x := by
  induction n generalizing a with
  | zero => exact ⟨[], rfl, nodup_nil, nofun⟩
  | succ n ih =>
    obtain ⟨c, hlink, hcb⟩ := h
    obtain ⟨xs, hlen, hnd, hxs⟩ := ih hcb
    refine ⟨a :: xs, by rw [length_cons, hlen], nodup_cons.2 ⟨fun ha => ?_, hnd⟩, ?_⟩
    · exact hac a (.head' hlink (hxs a ha).2)
    · refine forall_mem_cons.2 ⟨⟨⟨c, hlink⟩, .refl⟩, fun x hx => ?_⟩
      exact ⟨(hxs x hx).1, .head hlink (hxs x hx).2⟩

/-- Where every entity has one link, one path leads to an entity. -/
theorem Path.unique (hac : ∀ a, ¬TransGen R a a) (hone : ∀ a b c, R a b → R a c → b = c) {m : ℕ}
    (hn : Path R n a b) (hm : Path R m a b) : n = m := by
  induction n generalizing a m with
  | zero =>
    obtain rfl : a = b := hn
    cases m with
    | zero => rfl
    | succ m => exact absurd hm (Path.not_succ hac)
  | succ n ih =>
    cases m with
    | zero =>
      obtain rfl : a = b := hm
      exact absurd hn (Path.not_succ hac)
    | succ m =>
      obtain ⟨c, hlink, hc⟩ := hn
      obtain ⟨c', hlink', hc'⟩ := hm
      obtain rfl := hone a c c' hlink hlink'
      rw [ih hc hc']

theorem Path.trans {c : κ} {m : ℕ} (hn : Path R n a b) (hm : Path R m b c) :
    Path R (n + m) a c := by
  induction n generalizing a with
  | zero =>
    obtain rfl : a = b := hn
    rwa [Nat.zero_add]
  | succ n ih =>
    obtain ⟨d, hlink, hd⟩ := hn
    rw [Nat.succ_add]
    exact ⟨d, hlink, ih hd⟩

/-- Where every entity has one link, the longer of two paths goes on from the end of the other. -/
theorem Path.drop (hone : ∀ a b c, R a b → R a c → b = c) {c : κ} {m : ℕ} (hn : Path R n a b)
    (hm : Path R (n + m) a c) : Path R m b c := by
  induction n generalizing a with
  | zero =>
    obtain rfl : a = b := hn
    rwa [Nat.zero_add] at hm
  | succ n ih =>
    obtain ⟨d, hlink, hd⟩ := hn
    rw [Nat.succ_add] at hm
    obtain ⟨d', hlink', hd'⟩ := hm
    obtain rfl := hone a d d' hlink hlink'
    exact ih hd hd'

end

variable [DecidableEq κ]

/-- The first node that is met again on a path, in as many rounds. -/
def pathWalk (succ : κ → List κ) : ℕ → List κ → κ → Option κ
  | 0, _, _ => none
  | rounds + 1, path, node =>
    if node ∈ path then some node
    else (succ node).findSome? (pathWalk succ rounds (node :: path))

omit [DecidableEq κ] in
theorem findSome?_congr {f g : κ → Option κ} {xs : List κ} (h : ∀ x ∈ xs, f x = g x) :
    xs.findSome? f = xs.findSome? g := by
  induction xs with
  | nil => rfl
  | cons x xs ih =>
    rw [forall_mem_cons] at h
    rw [findSome?_cons, findSome?_cons, h.1, ih h.2]

variable {succ : κ → List κ} {nodes path : List κ} {node : κ} {rounds n : ℕ}

theorem pathWalk_step : pathWalk succ (rounds + 1) path node =
    if node ∈ path then some node
    else (succ node).findSome? (pathWalk succ rounds (node :: path)) := rfl

/-- A path of distinct nodes is no longer than there are nodes. -/
theorem pathWalk_succ (hnodes : ∀ a, succ a ≠ [] → a ∈ nodes) (hnd : path.Nodup)
    (hpath : ∀ a ∈ path, a ∈ nodes) (hn : nodes.length < rounds + path.length) :
    pathWalk succ (rounds + 1) path node = pathWalk succ rounds path node := by
  induction rounds generalizing path node with
  | zero =>
    have hle := (hnd.subperm hpath).length_le
    omega
  | succ rounds ih =>
    rw [pathWalk_step, pathWalk_step]
    by_cases hmem : node ∈ path
    · rw [if_pos hmem, if_pos hmem]
    · rw [if_neg hmem, if_neg hmem]
      refine findSome?_congr fun next hnext => ?_
      refine ih (nodup_cons.2 ⟨hmem, hnd⟩) (forall_mem_cons.2 ⟨?_, hpath⟩) ?_
      · exact hnodes node (ne_nil_of_mem hnext)
      · rw [length_cons]
        omega

theorem pathWalk_eq_of_le (hnodes : ∀ a, succ a ≠ [] → a ∈ nodes) (hnd : path.Nodup)
    (hpath : ∀ a ∈ path, a ∈ nodes) (hn : nodes.length < n + path.length) (hle : n ≤ rounds) :
    pathWalk succ rounds path node = pathWalk succ n path node := by
  induction hle with
  | refl => rfl
  | @step rounds hle ih =>
    have hle : n ≤ rounds := hle
    rw [pathWalk_succ hnodes hnd hpath (by omega), ih]

/-- A walk does not go on from a node of its path. -/
theorem pathWalk_congr {succ' : κ → List κ} {a : κ} (ha : a ∈ path)
    (h : ∀ b, b ≠ a → succ b = succ' b) (node : κ) :
    pathWalk succ rounds path node = pathWalk succ' rounds path node := by
  induction rounds generalizing path node with
  | zero => rfl
  | succ rounds ih =>
    rw [pathWalk_step, pathWalk_step]
    split_ifs with hmem
    · rfl
    · rw [h node fun heq => hmem (heq ▸ ha)]
      exact findSome?_congr fun next _ => ih (mem_cons_of_mem node ha) next

/-- A walk finds its way to what is on its path. -/
theorem pathWalk_ne_none {last : κ} (h : ReflTransGen (Linked succ) node last)
    (hlast : last ∈ path) : ∃ n, ∀ rounds ≥ n, pathWalk succ rounds path node ≠ none := by
  induction h using ReflTransGen.head_induction_on generalizing path with
  | refl =>
    refine ⟨1, fun rounds hrounds => ?_⟩
    obtain ⟨rounds, rfl⟩ := Nat.exists_eq_add_of_le' hrounds
    rw [pathWalk_step, if_pos hlast]
    exact Option.some_ne_none _
  | @head a b hab _ ih =>
    obtain ⟨n, hn⟩ := ih (mem_cons_of_mem a hlast)
    refine ⟨n + 1, fun rounds hrounds => ?_⟩
    obtain ⟨rounds, rfl⟩ := Nat.exists_eq_add_of_le' (Nat.le_of_add_left_le hrounds)
    rw [pathWalk_step]
    split_ifs
    · exact Option.some_ne_none _
    · intro hnone
      exact hn rounds (by omega) (findSome?_eq_none_iff.1 hnone b hab)

theorem not_transGen_of_pathWalk (hnodes : ∀ a, succ a ≠ [] → a ∈ nodes)
    (hn : nodes.length < n) (h : pathWalk succ n [] node = none) :
    ¬TransGen (Linked succ) node node := by
  intro hcycle
  obtain ⟨next, hnext, hback⟩ := TransGen.head'_iff.1 hcycle
  obtain ⟨m, hm⟩ := pathWalk_ne_none hback (mem_singleton_self node)
  have hend := @pathWalk_eq_of_le _ _ _ _ _ node _ _ hnodes nodup_nil (by simp) (by simpa using hn)
    (show n ≤ n + m + 1 by omega)
  rw [h, pathWalk_step, if_neg not_mem_nil] at hend
  exact hm (n + m) (by omega) (findSome?_eq_none_iff.1 hend next hnext)

omit [DecidableEq κ] in
theorem acyclic_of_changed {R R' : κ → κ → Prop} (hR : ∀ a, ¬TransGen R a a)
    (hsame : ∀ a b, a ≠ node → R' a b → R a b) (hnode : ¬TransGen R' node node) (a : κ) :
    ¬TransGen R' a a := by
  have hthrough : ∀ b, TransGen R' a b →
      TransGen R a b ∨ ReflTransGen R' a node ∧ TransGen R' node b := by
    intro b h
    induction h with
    | @single b hab =>
      by_cases ha : a = node
      · exact .inr ⟨ha ▸ .refl, .single (ha ▸ hab)⟩
      · exact .inl (.single (hsame a b ha hab))
    | @tail b c hab hbc ih =>
      by_cases hb : b = node
      · exact .inr ⟨hb ▸ hab.to_reflTransGen, .single (hb ▸ hbc)⟩
      · exact ih.imp (fun h => h.tail (hsame b c hb hbc)) fun h => ⟨h.1, h.2.tail hbc⟩
  intro h
  rcases hthrough a h with h | ⟨hto, hfrom⟩
  · exact hR a h
  · exact hnode (hfrom.trans_left hto)

end Ontosyx.Lib.PathWalk

namespace Ontosyx.Lib.Search

open Relation

variable {α : Type*} {succ : α → List α}

/-- What a search has visited, and of that what it has not followed yet. -/
structure State (α : Type*) where
  visited : List α
  stack : List α

/-- Nothing is visited twice, what is on the stack was visited, and the successors of what
was visited are followed or will be. -/
structure State.Inv (succ : α → List α) (s : State α) : Prop where
  nodup : s.visited.Nodup
  stack_visited : ∀ a ∈ s.stack, a ∈ s.visited
  frontier : ∀ a ∈ s.visited, a ∈ s.stack ∨ ∀ b ∈ succ a, b ∈ s.visited

/-- With an empty stack everything that can be reached is visited. -/
theorem State.Inv.mem_visited_iff {visited : List α} (h : State.Inv succ ⟨visited, []⟩) (b : α) :
    b ∈ visited ↔ ∃ a ∈ visited, ReflTransGen (fun a b => b ∈ succ a) a b := by
  refine ⟨fun hb => ⟨b, hb, .refl⟩, ?_⟩
  rintro ⟨a, ha, hab⟩
  induction hab with
  | refl => exact ha
  | tail _ hstep ih => exact (h.frontier _ ih).resolve_left List.not_mem_nil _ hstep

variable [DecidableEq α]

/-- A successor goes on the stack unless it was visited before. -/
def visit (s : State α) (next : α) : State α :=
  if next ∈ s.visited then s else ⟨next :: s.visited, next :: s.stack⟩

/-- The loop, with `none` where its turns run out. -/
def search (succ : α → List α) : Nat → State α → Option (List α)
  | _, ⟨visited, []⟩ => some visited
  | 0, ⟨_, _ :: _⟩ => none
  | fuel + 1, ⟨visited, node :: stack⟩ =>
    search succ fuel ((succ node).foldl visit ⟨visited, stack⟩)

theorem visit_foldl (nexts : List α) (s : State α) (h : s.visited.Nodup) :
    let s' := nexts.foldl visit s
    s'.visited.Nodup ∧ (∀ b, b ∈ s'.visited ↔ b ∈ s.visited ∨ b ∈ nexts) ∧
      (∀ b, b ∈ s'.stack ↔ b ∈ s.stack ∨ b ∈ nexts ∧ b ∉ s.visited) ∧
      s'.stack.length + s.visited.length = s.stack.length + s'.visited.length := by
  induction nexts generalizing s with
  | nil => simp [h]
  | cons next nexts ih =>
    rw [List.foldl_cons]
    by_cases hin : next ∈ s.visited
    · rw [visit, if_pos hin]
      obtain ⟨hnodup, hvisited, hstack, hlength⟩ := ih s h
      refine ⟨hnodup, fun b => ?_, fun b => ?_, hlength⟩
      · rw [hvisited, List.mem_cons]
        exact ⟨fun hb => hb.imp_right .inr, by rintro (hb | rfl | hb) <;> tauto⟩
      · rw [hstack, List.mem_cons]
        exact ⟨by tauto, by rintro (hb | ⟨rfl | hb, hnot⟩) <;> tauto⟩
    · rw [visit, if_neg hin]
      obtain ⟨hnodup, hvisited, hstack, hlength⟩ :=
        ih ⟨next :: s.visited, next :: s.stack⟩ (List.nodup_cons.2 ⟨hin, h⟩)
      refine ⟨hnodup, fun b => ?_, fun b => ?_, ?_⟩
      · rw [hvisited, List.mem_cons, List.mem_cons]
        tauto
      · rw [hstack, List.mem_cons, List.mem_cons, List.mem_cons]
        constructor
        · rintro ((rfl | hb) | hb) <;> tauto
        · tauto
      · simp only [List.length_cons] at hlength
        omega

theorem State.Inv.turn {visited stack : List α} {node : α}
    (h : State.Inv succ ⟨visited, node :: stack⟩) :
    State.Inv succ ((succ node).foldl visit ⟨visited, stack⟩) := by
  obtain ⟨hnodup, hvisited, hstack, -⟩ := visit_foldl (succ node) ⟨visited, stack⟩ h.nodup
  refine ⟨hnodup, fun a ha => ?_, fun a ha => ?_⟩
  · rw [hvisited]
    exact ((hstack a).1 ha).imp (fun hin => h.stack_visited a (List.mem_cons_of_mem _ hin)) And.left
  · rw [hstack]
    by_cases hold : a ∈ visited
    · rcases h.frontier a hold with hin | hfollowed
      · rcases List.mem_cons.1 hin with rfl | hin
        · exact .inr fun b hb => (hvisited b).2 (.inr hb)
        · exact .inl (.inl hin)
      · exact .inr fun b hb => (hvisited b).2 (.inl (hfollowed b hb))
    · exact .inl (.inr ⟨((hvisited a).1 ha).resolve_left hold, hold⟩)

/-- With enough turns for a set that is closed under successors, a search visits what can
be reached. -/
theorem search_spec {bound : Finset α} (hbound : ∀ a ∈ bound, ∀ b ∈ succ a, b ∈ bound)
    {fuel : Nat} {s : State α} (h : s.Inv succ) (hin : ∀ a ∈ s.visited, a ∈ bound)
    (hfuel : bound.card + s.stack.length ≤ fuel + s.visited.length) :
    ∃ found, search succ fuel s = some found ∧
      ∀ b, b ∈ found ↔ ∃ a ∈ s.visited, ReflTransGen (fun a b => b ∈ succ a) a b := by
  induction fuel generalizing s with
  | zero =>
    obtain ⟨visited, _ | ⟨node, stack⟩⟩ := s
    · exact ⟨visited, by rw [search], h.mem_visited_iff⟩
    · have hcard : visited.length ≤ bound.card := by
        rw [← List.toFinset_card_of_nodup h.nodup]
        exact Finset.card_le_card fun a ha => hin a (List.mem_toFinset.1 ha)
      simp only [List.length_cons] at hfuel
      omega
  | succ fuel ih =>
    obtain ⟨visited, _ | ⟨node, stack⟩⟩ := s
    · exact ⟨visited, by rw [search], h.mem_visited_iff⟩
    · obtain ⟨-, hvisited, -, hlength⟩ := visit_foldl (succ node) ⟨visited, stack⟩ h.nodup
      have hnode := h.stack_visited node List.mem_cons_self
      have hnext : ∀ a ∈ ((succ node).foldl visit ⟨visited, stack⟩).visited, a ∈ bound :=
        fun a ha => ((hvisited a).1 ha).elim (hin a) (hbound node (hin node hnode) a)
      obtain ⟨found, hfound, hmem⟩ := ih h.turn hnext
        (by simp only [List.length_cons] at hfuel hlength; omega)
      refine ⟨found, by rw [search, hfound], fun b => (hmem b).trans ⟨?_, ?_⟩⟩
      · rintro ⟨a, ha, hab⟩
        rcases (hvisited a).1 ha with ha | ha
        exacts [⟨a, ha, hab⟩, ⟨node, hnode, .head ha hab⟩]
      · rintro ⟨a, ha, hab⟩
        exact ⟨a, (hvisited a).2 (.inl ha), hab⟩

end Ontosyx.Lib.Search
