import Ontosyx.Lib.ParentForest
import Ontosyx.Query.Cost

/-!
# Disconnected patterns

The union-find of the cost estimate tells whether the node variables of a list of patterns fall
into several components.
-/

namespace Ontosyx.Query

open List Lib.ParentForest Relation List Prod

def pathNodes (elements : List PathElement) : List VariableName :=
  elements.filterMap fun
    | .node v _ => some v
    | .edge _ _ _ => none

def GraphPattern.nodeVariables : GraphPattern → List VariableName
  | .node v _ _ => [v]
  | .relationship _ _ source target _ _ _ => [source, target]
  | .path elements => pathNodes elements

/-- The endpoints of a relationship, and the consecutive nodes of a path. -/
def GraphPattern.joins : GraphPattern → List (VariableName × VariableName)
  | .node _ _ _ => []
  | .relationship _ _ source target _ _ _ => [(source, target)]
  | .path elements => (pathNodes elements).zip ((pathNodes elements).drop 1)

def Joined (patterns : List GraphPattern) (u v : VariableName) : Prop :=
  (u, v) ∈ patterns.flatMap GraphPattern.joins

/-- Some two node variables are in different components. -/
def Disconnected (patterns : List GraphPattern) : Prop :=
  ∃ u ∈ patterns.flatMap GraphPattern.nodeVariables,
    ∃ v ∈ patterns.flatMap GraphPattern.nodeVariables, ¬ EqvGen (Joined patterns) u v

/-! ## Finding roots -/

/-- The runs of `find`: the array it leaves, and the root it returns. -/
inductive Finds : List Nat → Nat → List Nat → Nat → Prop
  | root {parent : List Nat} {i : Nat} (h : up parent i = i) : Finds parent i parent i
  | climb {parent parent' : List Nat} {i root : Nat} (h : up parent i ≠ i)
      (hfind : Finds parent (up parent i) parent' root) :
      Finds parent i (parent'.set i root) root

/-- The parent arrays of `n` entries that finds and links build. -/
inductive Built (n : Nat) : List Nat → Prop
  | start : Built n (range n)
  | find {parent parent' : List Nat} {i root : Nat} (h : Built n parent) (hi : i < n)
      (hfind : Finds parent i parent' root) : Built n parent'
  | link {parent : List Nat} {ra rb : Nat} (h : Built n parent) (ha : ra < n) (hb : rb < n)
      (hra : up parent ra = ra) (hrb : up parent rb = rb) (hne : ra ≠ rb) :
      Built n (parent.set ra rb)

variable {root : Nat → Nat} {parent : List Nat} {i : Nat}

/-- With fuel for the climb, `findRoot` is a run of `find` that keeps the roots. -/
theorem findRoot_spec (h : Forest parent root) {fuel k : Nat} (hk : (up parent)^[k] i = root i)
    (hfuel : k ≤ fuel) : Finds parent i (findRoot fuel parent i).1 (findRoot fuel parent i).2 ∧
      (findRoot fuel parent i).2 = root i ∧ Forest (findRoot fuel parent i).1 root ∧
        (findRoot fuel parent i).1.length = parent.length := by
  induction fuel generalizing k i with
  | zero =>
    obtain rfl := Nat.le_zero.1 hfuel
    exact ⟨.root ((h.up_eq_iff i).2 hk.symm), hk, h, rfl⟩
  | succ fuel ih =>
    by_cases hup : up parent i = i
    · have hstop : findRoot (fuel + 1) parent i = (parent, i) := by
        exact if_neg (not_not.2 hup)
      rw [hstop]
      exact ⟨.root hup, ((h.up_eq_iff i).1 hup).symm, h, rfl⟩
    · have hgo : findRoot (fuel + 1) parent i =
          ((findRoot fuel parent (up parent i)).1.set i (findRoot fuel parent (up parent i)).2,
            (findRoot fuel parent (up parent i)).2) := by
        rw [findRoot]
        exact if_pos hup
      cases k with
      | zero => exact absurd ((h.up_eq_iff i).2 hk.symm) hup
      | succ k =>
        rw [Function.iterate_succ_apply, ← h.root_up] at hk
        obtain ⟨hfinds, hroot, hforest, hlength⟩ := ih hk (Nat.le_of_succ_le_succ hfuel)
        rw [h.root_up] at hroot
        rw [hgo, length_set]
        refine ⟨.climb hup hfinds, hroot, ?_, hlength⟩
        rw [hroot]
        exact hforest.compress i

variable {vars' added vars : List VariableName} {n : Nat} {v : VariableName}

/-- Fuel for every entry is enough. -/
theorem findRoot_forest (h : Forest parent root) (hn : parent.length = n) (hi : i < n) :
    Finds parent i (findRoot n parent i).1 (findRoot n parent i).2 ∧
      (findRoot n parent i).2 = root i ∧ Forest (findRoot n parent i).1 root ∧
        (findRoot n parent i).1.length = n := by
  obtain ⟨k, hk, hiterate⟩ := h.exists_iterate (hn ▸ hi)
  have hspec := findRoot_spec h hiterate (hn ▸ hk.le)
  rwa [hn] at hspec

/-- A run of `find` keeps the roots. -/
theorem Finds.forest {parent' : List Nat} {r : Nat} (hfind : Finds parent i parent' r)
    (h : Forest parent root) :
    r = root i ∧ Forest parent' root ∧ parent'.length = parent.length := by
  induction hfind with
  | root hup => exact ⟨((h.up_eq_iff _).1 hup).symm, h, rfl⟩
  | @climb parent' i r hup _ ih =>
    obtain ⟨rfl, hforest, hlength⟩ := ih
    rw [h.root_up, length_set]
    exact ⟨rfl, hforest.compress i, hlength⟩

theorem Built.forest {parent : List Nat} (h : Built n parent) :
    parent.length = n ∧ ∃ root, Forest parent root := by
  induction h with
  | start => exact ⟨length_range, id, forest_range n⟩
  | find _ _ hfind ih =>
    obtain ⟨hlength, root, hforest⟩ := ih
    obtain ⟨-, hforest', hlength'⟩ := hfind.forest hforest
    exact ⟨hlength'.trans hlength, root, hforest'⟩
  | @link parent ra rb _ ha hb hra hrb hne ih =>
    obtain ⟨hlength, root, hforest⟩ := ih
    have hroota := (hforest.up_eq_iff ra).1 hra
    have hrootb := (hforest.up_eq_iff rb).1 hrb
    rw [length_set]
    have hlinked := hforest.link (a := ra) (b := rb)
    rw [hroota, hrootb, hlength] at hlinked
    exact ⟨hlength, _, hlinked ha hb hne⟩

/-- `find` comes to an end on every array that is built. -/
theorem exists_finds_of_built (h : Built n parent) (hi : i < n) :
    ∃ parent' root, Finds parent i parent' root := by
  obtain ⟨hlength, root, hforest⟩ := h.forest
  exact ⟨_, _, (findRoot_forest hforest hlength hi).1⟩

/-- The roots tell the connected indices apart. -/
structure United (n : Nat) (connections : List (Nat × Nat)) (parent : List Nat)
    (root : Nat → Nat) : Prop where
  forest : Forest parent root
  length : parent.length = n
  connected : ∀ i j, root i = root j ↔ EqvGen (fun a b => (a, b) ∈ connections) i j

theorem united_nil (n : Nat) : United n [] (range n) id where
  forest := forest_range n
  length := length_range
  connected := by
    intro i j
    constructor
    · rintro rfl
      exact .refl _
    · intro h
      induction h with
      | rel _ _ hmem => cases hmem
      | refl => rfl
      | symm _ _ _ ih => exact ih.symm
      | trans _ _ _ _ _ ih ih' => exact ih.trans ih'

theorem United.connect {connections : List (Nat × Nat)} {parent : List Nat} {root : Nat → Nat}
    (h : United n connections parent root) {c : Nat × Nat} (ha : c.1 < n) (hb : c.2 < n) :
    ∃ root', United n (connections ++ [c]) (connect n parent c) root' := by
  obtain ⟨a, b⟩ := c
  obtain ⟨-, hra, hforest, hlength⟩ := findRoot_forest h.forest h.length ha
  obtain ⟨-, hrb, hforest', hlength'⟩ := findRoot_forest hforest hlength hb
  have hstep : Query.connect n parent (a, b) =
      if root a ≠ root b then
        (findRoot n (findRoot n parent a).1 b).1.set (root a) (root b)
      else (findRoot n (findRoot n parent a).1 b).1 := by
    rw [← hra, ← hrb]
    rfl
  have hold {i j : Nat} (hij : root i = root j) :
      EqvGen (fun a' b' => (a', b') ∈ connections ++ [(a, b)]) i j :=
    EqvGen.mono (fun _ _ hmem => mem_append_left _ hmem) _ _ ((h.connected i j).1 hij)
  have hnew : EqvGen (fun a' b' => (a', b') ∈ connections ++ [(a, b)]) a b :=
    .rel _ _ (mem_append_right _ (mem_singleton_self _))
  rw [hstep]
  by_cases hab : root a = root b
  · rw [if_neg (not_not.2 hab)]
    refine ⟨root, hforest', hlength', fun i j => ⟨hold, fun hij => ?_⟩⟩
    induction hij with
    | rel x y hmem =>
      rcases mem_append.1 hmem with hmem | hmem
      · exact (h.connected x y).2 (.rel _ _ hmem)
      · obtain ⟨rfl, rfl⟩ := mk.inj (mem_singleton.1 hmem)
        exact hab
    | refl => rfl
    | symm _ _ _ ih => exact ih.symm
    | trans _ _ _ _ _ ih ih' => exact ih.trans ih'
  · rw [if_pos hab]
    have hlt (i : Nat) (hi : i < n) :
        root i < (findRoot n (findRoot n parent a).1 b).1.length := by
      rw [hlength', ← h.length]
      exact h.forest.root_lt (h.length ▸ hi)
    refine ⟨_, hforest'.link (hlt a ha) (hlt b hb) hab, by rw [length_set, hlength'],
      fun i j => ⟨fun hij => ?_, fun hij => ?_⟩⟩
    · by_cases hi : root i = root a <;> by_cases hj : root j = root a
      · exact hold (hi.trans hj.symm)
      · rw [if_pos hi, if_neg hj] at hij
        exact (hold hi).trans _ _ _ (hnew.trans _ _ _ (hold hij))
      · rw [if_neg hi, if_pos hj] at hij
        exact (hold hij).trans _ _ _ ((hnew.symm _ _).trans _ _ _ (hold hj.symm))
      · rw [if_neg hi, if_neg hj] at hij
        exact hold hij
    · induction hij with
      | rel x y hmem =>
        rcases mem_append.1 hmem with hmem | hmem
        · rw [(h.connected x y).2 (.rel _ _ hmem)]
        · obtain ⟨rfl, rfl⟩ := mk.inj (mem_singleton.1 hmem)
          rw [if_pos rfl, if_neg (Ne.symm hab)]
      | refl => rfl
      | symm _ _ _ ih => exact ih.symm
      | trans _ _ _ _ _ ih ih' => exact ih.trans ih'

theorem united_foldl (done connections : List (Nat × Nat))
    (hlt : ∀ c ∈ connections, c.1 < n ∧ c.2 < n) (h : United n done parent root) :
    ∃ root', United n (done ++ connections) (connections.foldl (connect n) parent) root' := by
  induction connections generalizing done parent root with
  | nil =>
    rw [append_nil]
    exact ⟨root, h⟩
  | cons c connections ih =>
    rw [forall_mem_cons] at hlt
    obtain ⟨root', hstep⟩ := h.connect hlt.1.1 hlt.1.2
    rw [append_cons]
    exact ih _ hlt.2 hstep

/-! ## Numbering the variables -/

/-- The variables in order of first appearance, and the connections by their numbers. -/
structure Numbered (patterns : List GraphPattern)
    (acc : List VariableName × List (Nat × Nat)) : Prop where
  nodup : acc.1.Nodup
  mem : ∀ v, v ∈ acc.1 ↔ v ∈ patterns.flatMap GraphPattern.nodeVariables
  joins : acc.2.map (fun c => (acc.1[c.1]?, acc.1[c.2]?)) =
    (patterns.flatMap GraphPattern.joins).map fun p => (some p.1, some p.2)

structure Inserted (vars vars' : List VariableName) (added : List VariableName) : Prop where
  pre : vars <+: vars'
  nodup : vars.Nodup → vars'.Nodup
  mem : ∀ w, w ∈ vars' ↔ w ∈ vars ∨ w ∈ added

theorem Inserted.refl (vars : List VariableName) : Inserted vars vars [] :=
  ⟨prefix_refl _, id, fun w => by simp⟩

theorem Inserted.trans {vars'' added' : List VariableName} (h : Inserted vars vars' added)
    (h' : Inserted vars' vars'' added') : Inserted vars vars'' (added ++ added') where
  pre := h.pre.trans h'.pre
  nodup hnd := h'.nodup (h.nodup hnd)
  mem w := by rw [h'.mem, h.mem, mem_append, or_assoc]

/-- A number stays that of its variable. -/
theorem Inserted.getElem? (h : Inserted vars vars' added) (hi : vars[i]? = some v) :
    vars'[i]? = some v := by
  obtain ⟨rest, rfl⟩ := h.pre
  rw [List.getElem?_append_left (List.getElem?_eq_some_iff.1 hi).1, hi]

theorem getOrInsert_spec (vars : List VariableName) (v : VariableName) :
    Inserted vars (getOrInsert vars v).1 [v] ∧
      (getOrInsert vars v).1[(getOrInsert vars v).2]? = some v := by
  unfold getOrInsert
  cases hfound : vars.findIdx? fun w => w = v with
  | some i =>
    obtain ⟨hi, hv, -⟩ := findIdx?_eq_some_iff_getElem.1 hfound
    have hv : vars[i] = v := by simpa using hv
    have hmem : v ∈ vars := mem_of_getElem hv
    refine ⟨⟨prefix_refl _, id, fun w => ?_⟩, by rw [getElem?_eq_getElem hi, hv]⟩
    rw [mem_singleton]
    exact ⟨.inl, fun h => h.elim id fun h => h ▸ hmem⟩
  | none =>
    have hnot : v ∉ vars := by
      intro hmem
      simpa using findIdx?_eq_none_iff.1 hfound v hmem
    refine ⟨⟨prefix_append _ _, fun hnd => ?_, fun w => ?_⟩, getElem?_concat_length⟩
    · rw [nodup_append_comm, singleton_append, nodup_cons]
      exact ⟨hnot, hnd⟩
    · exact mem_append

theorem pathIndices_spec (vars : List VariableName) (elements : List PathElement) :
    Inserted vars (pathIndices vars elements).1 (pathNodes elements) ∧
      (pathIndices vars elements).2.map (fun i => (pathIndices vars elements).1[i]?) =
        (pathNodes elements).map some := by
  induction elements generalizing vars with
  | nil => exact ⟨.refl vars, rfl⟩
  | cons element elements ih =>
    cases element with
    | edge => exact ih vars
    | node v label =>
      obtain ⟨hone, hv⟩ := getOrInsert_spec vars v
      obtain ⟨hrest, hmap⟩ := ih (getOrInsert vars v).1
      refine ⟨hone.trans hrest, ?_⟩
      have hnodes : pathNodes (.node v label :: elements) = v :: pathNodes elements := rfl
      rw [hnodes, map_cons, ← hmap]
      exact congrArg (· :: _) (hrest.getElem? hv)

theorem Inserted.joins (h : Inserted vars vars' added) {connections : List (Nat × Nat)}
    {pairs : List (VariableName × VariableName)}
    (hjoins : connections.map (fun c => (vars[c.1]?, vars[c.2]?)) =
      pairs.map fun p => (some p.1, some p.2)) :
    connections.map (fun c => (vars'[c.1]?, vars'[c.2]?)) =
      pairs.map fun p => (some p.1, some p.2) := by
  rw [← hjoins]
  refine map_congr_left fun c hc => ?_
  have hmem : (vars[c.1]?, vars[c.2]?) ∈ pairs.map fun p => (some p.1, some p.2) := by
    rw [← hjoins]
    exact mem_map_of_mem hc
  obtain ⟨p, -, hp⟩ := mem_map.1 hmem
  obtain ⟨h1, h2⟩ := mk.inj hp
  rw [← h1, ← h2, h.getElem? h1.symm, h.getElem? h2.symm]

theorem Numbered.connectPattern {patterns : List GraphPattern}
    {acc : List VariableName × List (Nat × Nat)} (h : Numbered patterns acc) (p : GraphPattern) :
    Numbered (patterns ++ [p]) (connectPattern acc p) := by
  have hstep {vars : List VariableName} {more : List (Nat × Nat)}
      (hvars : Inserted acc.1 vars p.nodeVariables)
      (hmore : more.map (fun c => (vars[c.1]?, vars[c.2]?)) =
        p.joins.map fun q => (some q.1, some q.2)) :
      Numbered (patterns ++ [p]) (vars, acc.2 ++ more) := by
    refine ⟨hvars.nodup h.nodup, fun v => ?_, ?_⟩
    · rw [hvars.mem, h.mem, flatMap_append, mem_append, flatMap_singleton]
    · rw [map_append, hvars.joins h.joins, hmore, flatMap_append, map_append, flatMap_singleton]
  cases p with
  | node v label filters =>
    have hnode := hstep (getOrInsert_spec acc.1 v).1 (map_nil)
    rwa [append_nil] at hnode
  | relationship v label source target direction filters varLength =>
    obtain ⟨hsource, hs⟩ := getOrInsert_spec acc.1 source
    obtain ⟨htarget, ht⟩ := getOrInsert_spec (getOrInsert acc.1 source).1 target
    have hpair : ((getOrInsert (getOrInsert acc.1 source).1 target).1[
          (getOrInsert acc.1 source).2]?,
        (getOrInsert (getOrInsert acc.1 source).1 target).1[
          (getOrInsert (getOrInsert acc.1 source).1 target).2]?) =
        (some source, some target) := by
      rw [ht, htarget.getElem? hs]
    exact hstep (hsource.trans htarget) (congrArg (fun c => [c]) hpair)
  | path elements =>
    obtain ⟨hpath, hmap⟩ := pathIndices_spec acc.1 elements
    refine hstep hpath ?_
    have hzip : (((pathIndices acc.1 elements).2.zip ((pathIndices acc.1 elements).2.drop 1)).map
        fun c => ((pathIndices acc.1 elements).1[c.1]?, (pathIndices acc.1 elements).1[c.2]?)) =
        ((pathNodes elements).map some).zip (((pathNodes elements).map some).drop 1) := by
      rw [← hmap, ← map_drop, zip_map]
      rfl
    rw [hzip, ← map_drop, zip_map]
    rfl

theorem numbered_foldl (patterns : List GraphPattern) :
    Numbered patterns (patterns.foldl Query.connectPattern ([], [])) := by
  induction patterns using reverseRecOn with
  | nil => exact ⟨nodup_nil, fun v => by simp, rfl⟩
  | append_singleton patterns p ih =>
    rw [foldl_append]
    exact ih.connectPattern p

/-- A map carries what is connected along. -/
theorem eqvGen_map {α β : Type} {r : α → α → Prop} {s : β → β → Prop} {f : α → β}
    (h : ∀ a b, r a b → s (f a) (f b)) {a b : α} (hab : EqvGen r a b) : EqvGen s (f a) (f b) := by
  induction hab with
  | rel a b hr => exact .rel _ _ (h a b hr)
  | refl => exact .refl _
  | symm _ _ _ ih => exact .symm _ _ ih
  | trans _ _ _ _ _ ih ih' => exact .trans _ _ _ ih ih'

namespace Numbered

variable {patterns : List GraphPattern} {acc : List VariableName × List (Nat × Nat)}

/-- The two variables of a connection. -/
theorem exists_joined (h : Numbered patterns acc) {c : Nat × Nat} (hc : c ∈ acc.2) :
    ∃ u v, acc.1[c.1]? = some u ∧ acc.1[c.2]? = some v ∧ Joined patterns u v := by
  have hmem : (acc.1[c.1]?, acc.1[c.2]?) ∈
      (patterns.flatMap GraphPattern.joins).map fun p => (some p.1, some p.2) := by
    rw [← h.joins]
    exact mem_map_of_mem hc
  obtain ⟨⟨u, v⟩, huv, hp⟩ := mem_map.1 hmem
  obtain ⟨h1, h2⟩ := mk.inj hp
  exact ⟨u, v, h1.symm, h2.symm, huv⟩

theorem bounds (h : Numbered patterns acc) :
    ∀ c ∈ acc.2, c.1 < acc.1.length ∧ c.2 < acc.1.length := by
  intro c hc
  obtain ⟨u, v, hu, hv, -⟩ := h.exists_joined hc
  exact ⟨(List.getElem?_eq_some_iff.1 hu).1, (List.getElem?_eq_some_iff.1 hv).1⟩

theorem idxOf_eq (h : Numbered patterns acc) {i : Nat} (hi : acc.1[i]? = some v) :
    acc.1.idxOf v = i := by
  obtain ⟨hlt, rfl⟩ := List.getElem?_eq_some_iff.1 hi
  exact h.nodup.idxOf_getElem i hlt

theorem eqvGen_iff (h : Numbered patterns acc) {i j : Nat} {u : VariableName}
    (hi : acc.1[i]? = some u) (hj : acc.1[j]? = some v) :
    EqvGen (fun a b => (a, b) ∈ acc.2) i j ↔ EqvGen (Joined patterns) u v := by
  constructor
  · intro hij
    have hmap := eqvGen_map (f := fun k => (acc.1[k]?).getD u) (s := Joined patterns)
      (fun a b hab => ?_) hij
    · simpa only [hi, hj, Option.getD_some] using hmap
    · obtain ⟨a', b', ha, hb, hjoined⟩ := h.exists_joined hab
      simpa only [ha, hb, Option.getD_some] using hjoined
  · intro huv
    have hmap := eqvGen_map (f := acc.1.idxOf) (s := fun a b => (a, b) ∈ acc.2)
      (fun a b hab => ?_) huv
    · rwa [h.idxOf_eq hi, h.idxOf_eq hj] at hmap
    · have hmem : (some a, some b) ∈ acc.2.map fun c => (acc.1[c.1]?, acc.1[c.2]?) := by
        rw [h.joins]
        exact mem_map_of_mem (f := fun p => (some p.1, some p.2)) hab
      obtain ⟨c, hc, hp⟩ := mem_map.1 hmem
      obtain ⟨h1, h2⟩ := mk.inj hp
      rwa [h.idxOf_eq h1, h.idxOf_eq h2]

end Numbered

/-- There are two values exactly when some two entries differ. -/
theorem one_lt_dedup_length_iff {xs : List Nat} :
    1 < xs.dedup.length ↔ ∃ x ∈ xs, ∃ y ∈ xs, x ≠ y := by
  rw [← card_toFinset, Finset.one_lt_card]
  simp only [mem_toFinset]

/-- `find` comes to an end on every parent array, and the answer is that of the components. -/
theorem hasCartesianProduct_iff (patterns : List GraphPattern) :
    (∀ n parent, Built n parent → ∀ i < n, ∃ parent' root, Finds parent i parent' root) ∧
      (hasCartesianProduct patterns = true ↔ Disconnected patterns) := by
  refine ⟨fun n parent h i hi => exists_finds_of_built h hi, ?_⟩
  have hnumbered := numbered_foldl patterns
  unfold hasCartesianProduct
  generalize patterns.foldl Query.connectPattern ([], []) = acc at hnumbered
  obtain ⟨vars, connections⟩ := acc
  dsimp only
  have hdisconnected : Disconnected patterns ↔ ∃ i < vars.length, ∃ j < vars.length,
      ¬ EqvGen (fun a b => (a, b) ∈ connections) i j := by
    unfold Disconnected
    simp only [← hnumbered.mem]
    constructor
    · intro ⟨u, hu, v, hv, hne⟩
      obtain ⟨i, hi⟩ := List.getElem?_of_mem hu
      obtain ⟨j, hj⟩ := List.getElem?_of_mem hv
      exact ⟨i, (List.getElem?_eq_some_iff.1 hi).1, j, (List.getElem?_eq_some_iff.1 hj).1,
        fun hij => hne ((hnumbered.eqvGen_iff hi hj).1 hij)⟩
    · intro ⟨i, hi, j, hj, hne⟩
      exact ⟨vars[i], List.getElem_mem hi, vars[j], List.getElem_mem hj, fun huv =>
        hne ((hnumbered.eqvGen_iff (getElem?_eq_getElem hi) (getElem?_eq_getElem hj)).2
          huv)⟩
  rw [hdisconnected]
  by_cases hfew : vars.length ≤ 1
  · rw [if_pos hfew]
    refine iff_of_false Bool.false_ne_true fun ⟨i, hi, j, hj, hne⟩ => hne ?_
    obtain rfl : i = j := by omega
    exact .refl i
  · rw [if_neg hfew]
    obtain ⟨root, hunited⟩ := united_foldl [] connections hnumbered.bounds (united_nil vars.length)
    rw [nil_append] at hunited
    have hroots : (range vars.length).map (fun i => (findRoot vars.length
        (connections.foldl (connect vars.length) (range vars.length)) i).2) =
        (range vars.length).map root := by
      refine map_congr_left fun i hi => ?_
      exact (findRoot_forest hunited.forest hunited.length (mem_range.1 hi)).2.1
    rw [hroots, decide_eq_true_iff, one_lt_dedup_length_iff]
    simp only [mem_map, mem_range, ← hunited.connected]
    constructor
    · rintro ⟨_, ⟨i, hi, rfl⟩, _, ⟨j, hj, rfl⟩, hne⟩
      exact ⟨i, hi, j, hj, hne⟩
    · intro ⟨i, hi, j, hj, hne⟩
      exact ⟨_, ⟨i, hi, rfl⟩, _, ⟨j, hj, rfl⟩, hne⟩

end Ontosyx.Query
