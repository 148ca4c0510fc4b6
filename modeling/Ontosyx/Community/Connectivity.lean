import Ontosyx.Community.Levels
import Ontosyx.Lib.Contraction

/-!
# Whether communities are connected

A turn moves a node next to the community it joins, which stays connected.  The community
it leaves may fall apart, and nothing looks after that: refinement starts from single nodes
again, but it is not what is emitted.
-/

namespace Ontosyx.Community

open List Lib Lib.Contraction Prod

variable {n : ℕ} {R : Type} {env : Environment R} {resolution : ℚ}

def ClassesConnected {C : Type} (g : CommunityGraph n) (label : Fin n → C) : Prop :=
  ∀ c, (g.toSimple.induce {v | label v = c}).Preconnected

/-- A node that moves leaves the rest of its community connected. -/
def KeepsRest (resolution : ℚ) : TurnCondition := fun g s node weightsTo =>
  (∃ e, BestMove g (gainWeight g) resolution weightsTo s node e) →
    (g.toSimple.induce {v | v ≠ node ∧ s.community v = s.community node}).Preconnected

section

variable {g : CommunityGraph n}

theorem preconnected_singleton {S : Set (Fin n)} (h : S.Subsingleton) :
    (g.toSimple.induce S).Preconnected := by
  have : Subsingleton S := h.coe_sort
  exact .of_subsingleton

theorem classesConnected_id : ClassesConnected g (id : Fin n → Fin n) := by
  intro c
  apply preconnected_singleton
  intro x hx y hy
  exact hx.trans hy.symm

/-- Labellings that tell the same nodes apart have the same classes. -/
theorem classesConnected_of_iff {C D : Type} {label : Fin n → C} {label' : Fin n → D}
    (h : ClassesConnected g label) (hiff : ∀ i j, label' i = label' j ↔ label i = label j) :
    ClassesConnected g label' := by
  intro d
  by_cases hd : ∃ i, label' i = d
  · obtain ⟨i, rfl⟩ := hd
    have hset : {v | label' v = label' i} = {v | label v = label i} := by
      ext v
      exact hiff v i
    rw [hset]
    exact h (label i)
  · apply preconnected_singleton
    intro x hx
    exact absurd ⟨x, hx⟩ hd

/-- A node joins a community next to it. -/
theorem classesConnected_update {label : Fin n → Fin n} (h : ClassesConnected g label)
    {node c : Fin n} (hc : c ≠ label node)
    (hrest : (g.toSimple.induce {v | v ≠ node ∧ label v = label node}).Preconnected)
    (hnext : ∃ j, g.Adj node j ∧ label j = c) :
    ClassesConnected g (Function.update label node c) := by
  intro d
  have hother {v : Fin n} (hv : v ≠ node) : Function.update label node c v = label v :=
    Function.update_of_ne hv c label
  by_cases hd : d = c
  · have hset : {v | Function.update label node c v = d} = insert node {v | label v = c} := by
      ext v
      rw [Set.mem_insert_iff, Set.mem_ofPred_eq, Set.mem_ofPred_eq, hd]
      by_cases hv : v = node
      · simp [hv]
      · simp [hv]
    obtain ⟨j, hadj, hj⟩ := hnext
    rw [hset]
    exact preconnected_insert (h c) hj hadj
  · by_cases hd' : d = label node
    · have hset : {v | Function.update label node c v = d} =
          {v | v ≠ node ∧ label v = label node} := by
        ext v
        rw [Set.mem_ofPred_eq, Set.mem_ofPred_eq, hd']
        by_cases hv : v = node
        · simp [hv, hc]
        · simp [hv]
      rw [hset]
      exact hrest
    · have hset : {v | Function.update label node c v = d} = {v | label v = d} := by
        ext v
        rw [Set.mem_ofPred_eq, Set.mem_ofPred_eq]
        by_cases hv : v = node
        · rw [hv, Function.update_self]
          exact ⟨fun heq => absurd heq.symm hd, fun heq => absurd heq.symm hd'⟩
        · rw [hother hv]
      rw [hset]
      exact h d

/-- A turn keeps communities connected when a node that moves leaves the rest of its own so. -/
theorem classesConnected_settle {s : Moving n} {node : Fin n} {counts : Fin n → Bool}
    (h : ClassesConnected g s.community)
    (hok : KeepsRest resolution g s node (neighbourWeights g counts s.community node)) :
    ClassesConnected g (settle env g (gainWeight g) resolution
      (neighbourWeights g counts s.community node) s node).community := by
  cases settle_cases env g (gainWeight g) resolution
      (neighbourWeights g counts s.community node) s node with
  | inl hstay =>
    rw [hstay.1]
    exact h
  | inr hmove =>
    obtain ⟨e, he, heq⟩ := hmove
    rw [heq]
    obtain ⟨j, hadj, -, hj⟩ := (of_mem_weights he.mem).2.resolve_left he.ne
    exact classesConnected_update h he.ne (hok ⟨e, he⟩) ⟨j, hadj, hj⟩

theorem kept_classesConnected :
    Kept (KeepsRest resolution) env g resolution fun s => ClassesConnected g s.community where
  turn _ _ _ h hok := classesConnected_settle h hok
  sweep _ h := h

end

/-- The nodes of a graph stand for connected parts of another one, and its edges for edges
between them. -/
structure Grounded (g : CommunityGraph n) (w : Working n) : Prop where
  classes : ClassesConnected g w.home
  adj : ∀ A B, w.graph.Adj A B → ∃ a b, w.home a = A ∧ w.home b = B ∧ g.Adj a b

theorem grounded_start (g : CommunityGraph n) : Grounded g (.start g) where
  classes := classesConnected_of_iff classesConnected_id fun i j => by
    rw [Working.home_start, Working.home_start]
    rfl
  adj A B h := ⟨A, B, Working.home_start g A, Working.home_start g B, h⟩

/-- An edge of the aggregate graph comes from one between members. -/
theorem exists_adj_of_aggregate {k : ℕ} {g : CommunityGraph k} {p : Partition k} {maps : ℕ}
    {A B : Fin p.size} (h : (aggregateGraph env g p maps).Adj A B) :
    ∃ a b, p.label a = A ∧ p.label b = B ∧ g.Adj a b := by
  obtain ⟨w, hw⟩ := h
  obtain ⟨edge, hedge, hpushed⟩ := mem_filterMap.1 hw
  rw [(env.enumerate_perm maps _).mem_iff] at hedge
  have hkey := Tally.mem_keys_tally.1 (mem_map_of_mem (f := fst) hedge)
  obtain ⟨x, hx, hfst⟩ := mem_map.1 hkey
  rw [crossing, mem_flatMap] at hx
  obtain ⟨node, -, hx⟩ := hx
  obtain ⟨⟨other, v⟩, hother, hx⟩ := mem_filterMap.1 hx
  have hadj : g.Adj node other := ⟨v, hother⟩
  have hends : x.1 = (p.label node, p.label other) ∨ x.1 = (p.label other, p.label node) := by
    dsimp only at hx
    split at hx
    · cases hx
    · split at hx
      · cases hx
      · split at hx
        · cases hx
          exact .inl rfl
        · cases hx
          exact .inr rfl
  have hpair : edge.1 = (A, B) ∨ edge.1 = (B, A) := by
    cases (pushed_eq_some_iff.1 hpushed).2 with
    | inl heq => exact .inl (congrArg fst heq)
    | inr heq => exact .inr (congrArg fst heq)
  rw [← hfst] at hpair
  cases hends with
  | inl hends =>
    rw [hends, mk.injEq, mk.injEq] at hpair
    cases hpair with
    | inl h => exact ⟨node, other, h.1, h.2, hadj⟩
    | inr h => exact ⟨other, node, h.2, h.1, hadj.symm⟩
  | inr hends =>
    rw [hends, mk.injEq, mk.injEq] at hpair
    cases hpair with
    | inl h => exact ⟨other, node, h.1, h.2, hadj.symm⟩
    | inr h => exact ⟨node, other, h.2, h.1, hadj⟩

/-- Connected classes of nodes are connected in the input. -/
theorem Grounded.classesConnected {g : CommunityGraph n} {w : Working n} (h : Grounded g w)
    {C : Type} {label : Fin w.size → C} (hlabel : ClassesConnected w.graph label) :
    ClassesConnected g fun o => label (w.home o) := by
  intro c
  exact preconnected_of_classes w.home h.classes h.adj (hlabel c)

theorem Grounded.aggregate {g : CommunityGraph n} {w : Working n} (h : Grounded g w)
    {refined : Partition w.size} (hrefined : ClassesConnected w.graph refined.label) (maps : ℕ) :
    Grounded g (w.aggregate env refined maps) where
  classes := classesConnected_of_iff (h.classesConnected hrefined) fun i j => by
    rw [Working.home_aggregate, Working.home_aggregate]
    exact Iff.rfl
  adj A B hAB := by
    obtain ⟨X, Y, hX, hY, hXY⟩ := exists_adj_of_aggregate hAB
    obtain ⟨a, b, ha, hb, hab⟩ := h.adj X Y hXY
    refine ⟨a, b, ?_, ?_, hab⟩
    · rw [Working.home_aggregate, ha, hX]
    · rw [Working.home_aggregate, hb, hY]

theorem detectLevels_connected {g : CommunityGraph n} {cap : ℕ} {w : Working n} {draws : Draws R}
    (hw : Grounded g w) (h : LevelsMeet (KeepsRest resolution) env resolution cap w draws) :
    ∀ a ∈ (detectLevels env resolution cap w draws).1, ClassesConnected g a := by
  induction cap generalizing w draws with
  | zero => exact fun a ha => absurd ha not_mem_nil
  | succ cap ih =>
    rw [LevelsMeet] at h
    dsimp only at h
    obtain ⟨hmoving, hrest⟩ := h
    obtain ⟨s, hs, hpartition⟩ :=
      kept_classesConnected.moving hmoving fun _ => classesConnected_id
    have hfirst : ClassesConnected g (projectToOriginal
        (localMovingPhase env w.graph resolution draws).1 w.currentToOriginal) := by
      apply classesConnected_of_iff (hw.classesConnected hs)
      intro i j
      rw [projectToOriginal_eq, projectToOriginal_eq, ← Fin.ext_iff, hpartition,
        Partition.densify_eq_iff]
    rw [detectLevels]
    dsimp only
    split
    · rw [forall_mem_singleton]
      exact hfirst
    · rename_i hsingleton
      rw [Bool.not_eq_true] at hsingleton
      obtain ⟨hrefinement, hlevels⟩ := hrest hsingleton
      obtain ⟨s', hs', hrefined⟩ :=
        kept_classesConnected.refinement hrefinement fun _ => classesConnected_id
      rw [forall_mem_cons]
      refine ⟨hfirst, ih (hw.aggregate ?_ _) hlevels⟩
      rw [hrefined]
      exact classesConnected_of_iff hs' fun _ _ => Partition.densify_eq_iff

def CommunitiesConnected (g : CommunityGraph n) (result : DetectionResult n) : Prop :=
  ∀ c ∈ result.communities, (g.toSimple.induce {v | v ∈ c.members}).Connected

theorem communities_connected {g : CommunityGraph n} {policy : CommunityDetectionPolicy}
    {result : DetectionResult n} (h : detectCommunities env g policy = .ok result)
    (hkeeps : LevelsMeet (KeepsRest (max policy.resolution epsilon)) env
      (max policy.resolution epsilon) (max policy.levels 1) (.start g)
        ⟨env.seedFromU64 policy.seed, 0⟩) : CommunitiesConnected g result := by
  have hlevels := detectLevels_connected (grounded_start g) hkeeps
  obtain ⟨-, rfl⟩ := detect_ok_iff.1 h
  intro c hc
  obtain ⟨l, hl, hmem⟩ := mem_emit_iff.1 hc
  obtain ⟨first, hfirst, hclass⟩ := mem_groupsOf (mem_emitLevel hmem).2
  refine { preconnected := ?_, nonempty := ⟨first, hfirst⟩ }
  rw [show {v | v ∈ c.members} = {v | _ = _} from Set.ext hclass]
  exact hlevels _ (getElem_mem hl) _

/-- In a graph of two nodes a node that moves leaves at most one behind. -/
theorem keepsRest_of_two (g : CommunityGraph 2) (cap : ℕ) (draws : Draws R) :
    LevelsMeet (KeepsRest resolution) env resolution cap (.start g) draws := by
  apply levelsMeet_of_size
  intro k hk g s node weightsTo _
  apply preconnected_singleton
  intro x hx y hy
  have hsize : k ≤ 2 := hk
  have hxn := Fin.val_ne_iff.2 hx.1
  have hyn := Fin.val_ne_iff.2 hy.1
  apply Fin.ext
  omega

theorem pair_connected : ∃ result,
    detectCommunities .plain pair { resolution := 1, levels := 2, seed := 0 } = .ok result ∧
      CommunitiesConnected pair result := by
  have hconnected := communities_connected pair_run
  exact ⟨_, pair_run, hconnected (keepsRest_of_two pair _ _)⟩

/-- Two nodes tied to a third one, and that one more strongly to a fourth. -/
def bridge : CommunityGraph 4 := .ofEdges [((0, 2), 1), ((1, 2), 1), ((2, 3), 6)]

/-- The third node leaves the other two behind, which stay together without an edge. -/
theorem bridge_not_connected : ¬ ∀ (env : Environment Unit) (g : CommunityGraph 4)
    (policy : CommunityDetectionPolicy) (result : DetectionResult 4),
    detectCommunities env g policy = .ok result → CommunitiesConnected g result := by
  intro h
  have hrun : detectCommunities .plain bridge { resolution := 3 / 2, levels := 1, seed := 0 } =
      .ok { communities := [⟨0, "c-0-0", [0, 1]⟩, ⟨0, "c-0-1", [2, 3]⟩]
            modularity := -27 / 64
            levelsProduced := 1 } := by
    decide +kernel
  have hconnected := h _ _ _ _ hrun ⟨0, "c-0-0", [0, 1]⟩ (by decide)
  obtain ⟨walk⟩ := hconnected.preconnected ⟨0, by decide⟩ ⟨1, by decide⟩
  -- The first node has an edge to the third one only.
  have honly : ∀ e ∈ bridge.neighbours 0, e.1 = 2 := by
    decide +kernel
  cases walk with
  | @cons _ next _ hedge _ =>
    obtain ⟨w, hw⟩ := hedge
    have hnext : next.1 = 2 := honly _ hw
    have hmem : next.1 ∈ [0, 1] := next.2
    rw [hnext] at hmem
    exact absurd hmem (by decide)

end Ontosyx.Community
