import Mathlib.Data.List.Sort

/-!
# Splitting a component

`bfs_split`: a component with too many tables is cut into partitions, each grown
breadth-first from the table with the most neighbours that is left, up to the
maximum size.
-/

namespace Ontosyx.Design

open List Or

/-! ## Connectivity -/

variable {group : List Nat} {b a : Nat} {part : List Nat}

section

variable (fks : List (Nat × Nat))

/-- A foreign key leads from one table to the other. -/
def Adjacent (a b : Nat) : Prop := (a, b) ∈ fks ∨ (b, a) ∈ fks

instance (a b : Nat) : Decidable (Adjacent fks a b) := inferInstanceAs (Decidable (_ ∨ _))

def AdjacentIn (group : List Nat) (a b : Nat) : Prop := Adjacent fks a b ∧ a ∈ group ∧ b ∈ group

/-- Any two tables of the group are connected by foreign keys inside it. -/
def ConnectedGroup (group : List Nat) : Prop :=
  ∀ a ∈ group, ∀ b ∈ group, Relation.ReflTransGen (AdjacentIn fks group) a b

variable {fks}

/-- What each step keeps, a path keeps. -/
theorem reflTransGen_mem (hstay : ∀ x y, Adjacent fks x y → x ∈ group → y ∈ group)
    (h : Relation.ReflTransGen (Adjacent fks) a b) (ha : a ∈ group) : b ∈ group := by
  induction h with
  | refl => exact ha
  | tail _ hstep ih => exact hstay _ _ hstep ih

theorem Adjacent.symm (h : Adjacent fks a b) : Adjacent fks b a := Or.symm h

theorem AdjacentIn.symm (h : AdjacentIn fks group a b) : AdjacentIn fks group b a :=
  ⟨h.1.symm, h.2.2, h.2.1⟩

theorem reflTransGen_adjacentIn_symm (h : Relation.ReflTransGen (AdjacentIn fks group) a b) :
    Relation.ReflTransGen (AdjacentIn fks group) b a := by
  induction h with
  | refl => exact .refl
  | tail _ hstep ih => exact .head hstep.symm ih

/-- A group whose tables are all reached from one of them is connected. -/
theorem connectedGroup_of_start {start : Nat}
    (h : ∀ a ∈ group, Relation.ReflTransGen (AdjacentIn fks group) start a) :
    ConnectedGroup fks group := by
  intro a ha b hb
  exact (reflTransGen_adjacentIn_symm (h a ha)).trans (h b hb)

end

/-! ## The algorithm -/

section

variable (fks : List (Nat × Nat)) (n : Nat) (group : List Nat) (maxSize : Nat)

/-- `adj[i]`, ascending. -/
def adj (i : Nat) : List Nat := (List.range n).filter fun j => Adjacent fks i j

/-- `degrees[i]`: neighbours in the group. -/
def degree (i : Nat) : Nat := ((adj fks n i).filter (· ∈ group)).length

/-- `by_degree`: highest degree first, then by index. -/
def byDegree : List Nat :=
  group.mergeSort fun a b => decide (degree fks n group b < degree fks n group a ∨
    degree fks n group a = degree fks n group b ∧ a ≤ b)

structure Growth where
  assigned : List Nat
  part : List Nat
  queue : List Nat

def Growth.start (assigned : List Nat) (table : Nat) : Growth :=
  ⟨assigned ++ [table], [table], [table]⟩

/-- One neighbour; a full partition takes none, which is the `break`. -/
def Growth.visit (g : Growth) (neighbor : Nat) : Growth :=
  if maxSize ≤ g.part.length then g
  else if neighbor ∈ group ∧ neighbor ∉ g.assigned then
    ⟨g.assigned ++ [neighbor], g.part ++ [neighbor], g.queue ++ [neighbor]⟩
  else g

/-- What the search can still do: tables to assign, and tables to take from the
queue. -/
def Growth.work (g : Growth) : Nat := (group.filter (· ∉ g.assigned)).length + g.queue.length

theorem length_filter_concat_lt {assigned : List Nat} {x : Nat} (hx : x ∈ group)
    (hnew : x ∉ assigned) :
    (group.filter (· ∉ assigned ++ [x])).length < (group.filter (· ∉ assigned)).length := by
  have hsplit : group.filter (· ∉ assigned ++ [x]) =
      (group.filter (· ∉ assigned)).filter (· ≠ x) := by
    rw [filter_filter]
    refine filter_congr fun y _ => ?_
    rw [← Bool.coe_iff_coe]
    simp
    tauto
  rw [hsplit, length_filter_lt_length_iff_exists]
  exact ⟨x, mem_filter.2 ⟨hx, by simpa using hnew⟩, by simp⟩

theorem Growth.work_visit (g : Growth) (neighbor : Nat) :
    (g.visit group maxSize neighbor).work group ≤ g.work group := by
  rw [visit]
  split
  · exact Nat.le_refl _
  · split
    · next h =>
        have hlt := length_filter_concat_lt group h.1 h.2
        simp only [work, length_append, length_singleton]
        omega
    · exact Nat.le_refl _

theorem Growth.work_foldl_visit (g : Growth) (neighbors : List Nat) :
    (neighbors.foldl (Growth.visit group maxSize) g).work group ≤ g.work group := by
  induction neighbors generalizing g with
  | nil => exact Nat.le_refl _
  | cons x neighbors ih => exact (ih _).trans (g.work_visit group maxSize x)

/-- The search until the queue is empty or the partition is full. -/
def Growth.grow : Growth → Growth
  | ⟨assigned, part, []⟩ => ⟨assigned, part, []⟩
  | ⟨assigned, part, node :: queue⟩ =>
    if maxSize ≤ part.length then ⟨assigned, part, queue⟩
    else
      have := (Growth.mk assigned part queue).work_foldl_visit group maxSize (adj fks n node)
      ((adj fks n node).foldl (Growth.visit group maxSize) ⟨assigned, part, queue⟩).grow
termination_by g => g.work group
decreasing_by
  simp only [Growth.work, List.length_cons] at *
  omega

/-- One turn of the outer loop: the tables assigned and the partitions so far. -/
def splitStep (acc : List Nat × List (List Nat)) (table : Nat) : List Nat × List (List Nat) :=
  if table ∈ acc.1 then acc
  else
    let grown := (Growth.start acc.1 table).grow fks n group maxSize
    (grown.assigned, acc.2 ++ [grown.part])

def bfsSplit : List (List Nat) :=
  ((byDegree fks n group).foldl (splitStep fks n group maxSize) ([], [])).2

variable {fks n group maxSize}

/-- A search from `start` has assigned its partition on top of `assigned`; the
partition stays in the group, within the size, and is reached from `start`. -/
structure Grown (fks : List (Nat × Nat)) (group : List Nat) (maxSize : Nat)
    (assigned : List Nat) (start : Nat) (g : Growth) : Prop where
  assigned_eq : g.assigned = assigned ++ g.part
  nodup : g.assigned.Nodup
  start_mem : start ∈ g.part
  mem_group : ∀ x ∈ g.part, x ∈ group
  queued : ∀ x ∈ g.queue, x ∈ g.part
  size : g.part.length ≤ maxSize
  reached : ∀ x ∈ g.part, Relation.ReflTransGen (AdjacentIn fks g.part) start x

theorem grown_start {assigned : List Nat} {start : Nat} (hnd : assigned.Nodup)
    (hnew : start ∉ assigned) (hstart : start ∈ group) (hmax : 1 ≤ maxSize) :
    Grown fks group maxSize assigned start (Growth.start assigned start) where
  assigned_eq := rfl
  nodup := Nodup.append hnd (nodup_singleton _) (by simpa using hnew)
  start_mem := .head _
  mem_group := fun x hx => by rwa [mem_singleton.1 hx]
  queued := fun _ hx => hx
  size := hmax
  reached := fun x hx => by rw [mem_singleton.1 hx]

/-- A larger partition keeps the paths of a smaller one. -/
theorem reflTransGen_adjacentIn_mono {part' : List Nat} (hsub : ∀ x ∈ part, x ∈ part')
    (h : Relation.ReflTransGen (AdjacentIn fks part) a b) :
    Relation.ReflTransGen (AdjacentIn fks part') a b := by
  refine Relation.ReflTransGen.mono (fun u v huv => ?_) _ _ h
  exact ⟨huv.1, hsub u huv.2.1, hsub v huv.2.2⟩

variable {assigned : List Nat} {start : Nat} {g : Growth}

/-- A neighbour of a table of the partition is visited. -/
theorem Grown.visit (h : Grown fks group maxSize assigned start g) {node neighbor : Nat}
    (hnode : node ∈ g.part) (hadj : Adjacent fks node neighbor) :
    Grown fks group maxSize assigned start (g.visit group maxSize neighbor) ∧
      node ∈ (g.visit group maxSize neighbor).part := by
  rw [Growth.visit]
  split
  · exact ⟨h, hnode⟩
  · next hroom =>
      split
      · next hnew =>
          have hsub : ∀ x ∈ g.part, x ∈ g.part ++ [neighbor] :=
            fun x hx => mem_append_left _ hx
          have hmem : neighbor ∈ g.part ++ [neighbor] := by simp
          refine ⟨?_, hsub node hnode⟩
          exact
            { assigned_eq := by simp [h.assigned_eq]
              nodup := Nodup.append h.nodup (nodup_singleton _)
                (by simpa using hnew.2)
              start_mem := hsub start h.start_mem
              mem_group := by
                intro x hx
                rcases mem_append.1 hx with hx | hx
                · exact h.mem_group x hx
                · rw [mem_singleton.1 hx]
                  exact hnew.1
              queued := by
                intro x hx
                rcases mem_append.1 hx with hx | hx
                · exact hsub x (h.queued x hx)
                · exact mem_append_right _ hx
              size := by
                rw [length_append, length_singleton]
                omega
              reached := by
                intro x hx
                rcases mem_append.1 hx with hx | hx
                · exact reflTransGen_adjacentIn_mono hsub (h.reached x hx)
                · rw [mem_singleton.1 hx]
                  have hpath := reflTransGen_adjacentIn_mono hsub (h.reached node hnode)
                  exact hpath.tail ⟨hadj, hsub node hnode, hmem⟩ }
      · exact ⟨h, hnode⟩

theorem Grown.foldl_visit {neighbors : List Nat} {node : Nat}
    (h : Grown fks group maxSize assigned start g) (hnode : node ∈ g.part)
    (hadj : ∀ x ∈ neighbors, Adjacent fks node x) : Grown fks group maxSize assigned start
      (neighbors.foldl (Growth.visit group maxSize) g) := by
  induction neighbors generalizing g with
  | nil => exact h
  | cons x neighbors ih =>
    have hvisit := h.visit hnode (hadj x (.head _))
    exact ih hvisit.1 hvisit.2 fun y hy => hadj y (.tail _ hy)

theorem Grown.grow (h : Grown fks group maxSize assigned start g) :
    Grown fks group maxSize assigned start (g.grow fks n group maxSize) := by
  induction g using Growth.grow.induct fks n group maxSize with
  | case1 assigned' part =>
    rw [Growth.grow]
    exact h
  | case2 assigned' part node queue hfull =>
    rw [Growth.grow, if_pos hfull]
    exact { h with queued := fun x hx => h.queued x (.tail _ hx) }
  | case3 assigned' part node queue hroom _ ih =>
    rw [Growth.grow, if_neg hroom]
    refine ih ?_
    have hrest : Grown fks group maxSize assigned start ⟨assigned', part, queue⟩ :=
      { h with queued := fun x hx => h.queued x (.tail _ hx) }
    refine hrest.foldl_visit (h.queued node (.head _)) fun x hx => ?_
    exact of_decide_eq_true (mem_filter.1 hx).2

/-- What the outer loop has cut off so far. -/
structure Cut (fks : List (Nat × Nat)) (group : List Nat) (maxSize : Nat)
    (acc : List Nat × List (List Nat)) : Prop where
  assigned_eq : acc.1 = acc.2.flatten
  nodup : acc.1.Nodup
  mem_group : ∀ x ∈ acc.1, x ∈ group
  size : ∀ part ∈ acc.2, part.length ≤ maxSize
  connected : ∀ part ∈ acc.2, ConnectedGroup fks part

theorem Cut.splitStep {acc : List Nat × List (List Nat)} (h : Cut fks group maxSize acc)
    (hmax : 1 ≤ maxSize) {table : Nat} (htable : table ∈ group) :
    Cut fks group maxSize (splitStep fks n group maxSize acc table) ∧
      (∀ x ∈ acc.1, x ∈ (splitStep fks n group maxSize acc table).1) ∧
        table ∈ (splitStep fks n group maxSize acc table).1 := by
  rw [Design.splitStep]
  split
  · next hmem => exact ⟨h, fun _ hx => hx, hmem⟩
  · next hnew =>
      have hgrown : Grown fks group maxSize acc.1 table
          ((Growth.start acc.1 table).grow fks n group maxSize) :=
        (grown_start h.nodup hnew htable hmax).grow
      dsimp only
      refine ⟨?_, ?_, ?_⟩
      · exact
          { assigned_eq := by
              rw [hgrown.assigned_eq, flatten_append, flatten_singleton, h.assigned_eq]
            nodup := hgrown.nodup
            mem_group := by
              intro x hx
              rw [hgrown.assigned_eq, mem_append] at hx
              rcases hx with hx | hx
              · exact h.mem_group x hx
              · exact hgrown.mem_group x hx
            size := by
              intro part hpart
              rcases mem_append.1 hpart with hold | hnew
              · exact h.size part hold
              · rw [mem_singleton.1 hnew]
                exact hgrown.size
            connected := by
              intro part hpart
              rcases mem_append.1 hpart with hold | hnew
              · exact h.connected part hold
              · rw [mem_singleton.1 hnew]
                exact connectedGroup_of_start hgrown.reached }
      · intro x hx
        rw [hgrown.assigned_eq]
        exact mem_append_left _ hx
      · rw [hgrown.assigned_eq]
        exact mem_append_right _ hgrown.start_mem

theorem Cut.foldl_splitStep {acc : List Nat × List (List Nat)} {tables : List Nat}
    (h : Cut fks group maxSize acc) (hmax : 1 ≤ maxSize) (htables : ∀ x ∈ tables, x ∈ group) :
    Cut fks group maxSize (tables.foldl (Design.splitStep fks n group maxSize) acc) ∧
      ∀ x, x ∈ acc.1 ∨ x ∈ tables →
        x ∈ (tables.foldl (Design.splitStep fks n group maxSize) acc).1 := by
  induction tables generalizing acc with
  | nil =>
    refine ⟨h, fun x hx => ?_⟩
    rcases hx with hx | hx
    · exact hx
    · exact absurd hx (not_mem_nil)
  | cons table tables ih =>
    obtain ⟨hcut, hkept, hmem⟩ := h.splitStep hmax (htables table (.head _))
    obtain ⟨hrest, hall⟩ := ih hcut fun x hx => htables x (.tail _ hx)
    refine ⟨hrest, fun x hx => hall x ?_⟩
    rcases hx with hx | hx
    · exact inl (hkept x hx)
    · rcases mem_cons.1 hx with rfl | hx
      · exact inl hmem
      · exact inr hx

theorem bfsSplit_cut (hmax : 1 ≤ maxSize) : Cut fks group maxSize
        ((byDegree fks n group).foldl (splitStep fks n group maxSize) ([], [])) ∧ ∀ x ∈ group,
        x ∈ ((byDegree fks n group).foldl (splitStep fks n group maxSize) ([], [])).1 := by
  have hempty : Cut fks group maxSize ([], []) :=
    { assigned_eq := rfl
      nodup := nodup_nil
      mem_group := by simp
      size := by simp
      connected := by simp }
  have hperm : (byDegree fks n group).Perm group := mergeSort_perm _ _
  obtain ⟨hcut, hall⟩ := hempty.foldl_splitStep hmax fun x hx => hperm.mem_iff.1 hx
  exact ⟨hcut, fun x hx => hall x (inr (hperm.mem_iff.2 hx))⟩

/-- The partitions hold every table of the component once. -/
theorem bfsSplit_perm (hmax : 1 ≤ maxSize) (hnd : group.Nodup) :
    (bfsSplit fks n group maxSize).flatten.Perm group := by
  obtain ⟨hcut, hall⟩ := bfsSplit_cut hmax
  rw [bfsSplit, ← hcut.assigned_eq]
  exact (perm_ext_iff_of_nodup hcut.nodup hnd).2 fun x => ⟨hcut.mem_group x, hall x⟩

theorem length_le_of_mem_bfsSplit (hmax : 1 ≤ maxSize)
    (hpart : part ∈ bfsSplit fks n group maxSize) : part.length ≤ maxSize :=
  (bfsSplit_cut hmax).1.size part hpart

theorem connected_of_mem_bfsSplit (hmax : 1 ≤ maxSize)
    (hpart : part ∈ bfsSplit fks n group maxSize) : ConnectedGroup fks part :=
  (bfsSplit_cut hmax).1.connected part hpart

end

end Ontosyx.Design
