import Ontosyx.Lib.Checked
import Ontosyx.Query.Canvas

/-!
# Round trips through the canvas

A query that is opened on the canvas and saved comes back as `compile` makes it.
What the canvas cannot hold is lost without a word: an `OPTIONAL` flag, grouping
columns, a temporal pivot, path patterns, and the ends of relationships whose
nodes are not listed before them.

## Main results

* `combine_split` — splitting a filter into rows and combining them only moves
  the parentheses of its conjunctions.
* `compile_decompile` — the patterns that come back.
* `roundTrip_iff` — the queries and the canvases that survive a round trip.
-/

namespace Ontosyx.Query

open List Ontosyx.Core Option Lib Lib.Checked Nat PatternNode VariableName

/-! ## Filters -/

/-- The two filters differ in the association of their conjunctions. -/
inductive Reassociated : Expr → Expr → Prop
  | refl (e : Expr) : Reassociated e e
  | symm {e f : Expr} : Reassociated e f → Reassociated f e
  | trans {e f g : Expr} : Reassociated e f → Reassociated f g → Reassociated e g
  | assoc (a b c : Expr) :
      Reassociated (.logical (.logical a .and b) .and c) (.logical a .and (.logical b .and c))
  | congr {a a' b b' : Expr} : Reassociated a a' → Reassociated b b' →
      Reassociated (.logical a .and b) (.logical a' .and b')

def IsConjunction : Expr → Prop
  | .logical _ .and _ => True
  | _ => False

/-- No conjunction stands to the right of the top-level `AND`s. -/
def LeftNested : Expr → Prop
  | .logical left .and right => LeftNested left ∧ ¬IsConjunction right
  | _ => True

theorem not_isConjunction {e : Expr} (h : ∀ left right, e ≠ .logical left .and right) :
    ¬IsConjunction e := by
  intro hconj
  unfold IsConjunction at hconj
  split at hconj
  · exact h _ _ rfl
  · exact hconj

theorem conjoin_append (e : Expr) (xs ys : List Expr) :
    conjoin e (xs ++ ys) = conjoin (conjoin e xs) ys := by
  induction xs generalizing e with
  | nil => rfl
  | cons x xs ih => exact ih _

/-- Conjoining onto a conjunction is conjoining its right side first. -/
theorem reassociated_conjoin (a b : Expr) (xs : List Expr) :
    Reassociated (conjoin (.logical a .and b) xs) (.logical a .and (conjoin b xs)) := by
  induction xs generalizing a b with
  | nil => exact .refl _
  | cons x xs ih =>
    have hmove : Reassociated (conjoin (.logical (.logical a .and b) .and x) xs)
        (.logical (.logical a .and b) .and (conjoin x xs)) := ih _ _
    have hright : Reassociated (.logical a .and (conjoin (.logical b .and x) xs))
        (.logical a .and (.logical b .and (conjoin x xs))) := .congr (.refl _) (ih b x)
    exact (hmove.trans (.assoc a b _)).trans hright.symm

/-- A filter is the conjunction of its rows up to the parentheses. -/
theorem reassociated_split (e : Expr) :
    ∃ x xs, splitTopLevelAnd e = x :: xs ∧ Reassociated e (conjoin x xs) := by
  induction e using splitTopLevelAnd.induct with
  | case1 left right ihl ihr =>
    obtain ⟨x, xs, hx, hleft⟩ := ihl
    obtain ⟨y, ys, hy, hright⟩ := ihr
    refine ⟨x, xs ++ y :: ys, by rw [splitTopLevelAnd, hx, hy, cons_append], ?_⟩
    have hsplit : conjoin x (xs ++ y :: ys) = conjoin (.logical (conjoin x xs) .and y) ys :=
      conjoin_append ..
    rw [hsplit]
    exact (Reassociated.congr hleft hright).trans (reassociated_conjoin _ _ _).symm
  | case2 e h =>
    refine ⟨e, [], ?_, .refl e⟩
    rw [splitTopLevelAnd]
    exact h

/-- Splitting a filter and combining its rows moves its parentheses at most. -/
theorem combine_split (e : Expr) :
    ∃ f, combineFiltersAnd (splitTopLevelAnd e) = some f ∧ Reassociated e f := by
  obtain ⟨x, xs, hsplit, hsame⟩ := reassociated_split e
  exact ⟨_, by rw [hsplit]; rfl, hsame⟩

theorem not_isConjunction_of_mem_split {e x : Expr} (hx : x ∈ splitTopLevelAnd e) :
    ¬IsConjunction x := by
  induction e using splitTopLevelAnd.induct with
  | case1 left right ihl ihr =>
    rw [splitTopLevelAnd] at hx
    rcases mem_append.1 hx with hx | hx
    · exact ihl hx
    · exact ihr hx
  | case2 e h =>
    rw [splitTopLevelAnd] at hx
    · rw [mem_singleton.1 hx]
      exact not_isConjunction h
    · exact h

theorem split_eq_singleton {e : Expr} (he : ¬IsConjunction e) : splitTopLevelAnd e = [e] := by
  induction e using splitTopLevelAnd.induct with
  | case1 left right => exact absurd trivial he
  | case2 e h =>
    rw [splitTopLevelAnd]
    exact h

/-- The right side of what was conjoined is one of the rows. -/
theorem mem_of_conjoin_eq {a b : Expr} :
    ∀ {x : Expr} {xs : List Expr}, xs ≠ [] → conjoin x xs = .logical a .and b → b ∈ xs
  | _, [], h, _ => absurd rfl h
  | _, [y], _, heq => by
    cases heq
    exact mem_singleton_self _
  | _, _ :: z :: zs, _, heq =>
    mem_cons_of_mem _ (mem_of_conjoin_eq (cons_ne_nil z zs) heq)

/-- Combining the rows of a filter gives it back exactly when its conjunctions
lean to the left. -/
theorem combine_split_eq_iff (e : Expr) :
    combineFiltersAnd (splitTopLevelAnd e) = some e ↔ LeftNested e := by
  induction e using splitTopLevelAnd.induct with
  | case1 left right ihl _ =>
    obtain ⟨x, xs, hleft, -⟩ := reassociated_split left
    by_cases hr : IsConjunction right
    · obtain ⟨y, ys, hright, -⟩ := reassociated_split right
      have hrows : splitTopLevelAnd (.logical left .and right) = x :: (xs ++ y :: ys) := by
        rw [splitTopLevelAnd, hleft, hright, cons_append]
      apply iff_of_false
      · intro heq
        rw [hrows] at heq
        have hmem := mem_of_conjoin_eq (by simp) (Option.some.inj heq)
        have hrow : right ∈ splitTopLevelAnd (.logical left .and right) := by
          rw [hrows]
          exact mem_cons_of_mem _ hmem
        exact not_isConjunction_of_mem_split hrow hr
      · exact fun hnest => hnest.2 hr
    · have hcombine : combineFiltersAnd (splitTopLevelAnd (.logical left .and right)) =
          some (.logical (conjoin x xs) .and right) := by
        rw [splitTopLevelAnd, hleft, split_eq_singleton hr, cons_append]
        exact congrArg some (conjoin_append x xs [right])
      rw [hleft] at ihl
      rw [hcombine]
      constructor
      · intro heq
        have hx : conjoin x xs = left := by
          cases heq
          rfl
        exact ⟨ihl.1 (congrArg some hx), hr⟩
      · intro hnest
        have hx : conjoin x xs = left := Option.some.inj (ihl.2 hnest.1)
        rw [hx]
  | case2 e h =>
    have hno := not_isConjunction h
    rw [split_eq_singleton hno]
    apply iff_of_true rfl
    unfold LeftNested
    split
    · exact absurd trivial hno
    · trivial

/-! ## Patterns -/

/-- The end of a relationship after a round trip: a variable of no earlier node
has become a placeholder twice over. -/
def returnedEnd (seen : List VariableName) (v : VariableName) : VariableName :=
  if v ∈ seen then v else ⟨"__missing_" ++ ("missing_" ++ v.val) ++ "__"⟩

def returnedNodes : List GraphPattern → List GraphPattern
  | [] => []
  | .node v label propertyFilters :: ps => .node v label propertyFilters :: returnedNodes ps
  | .relationship .. :: ps | .path _ :: ps => returnedNodes ps

/-- The relationships after a round trip; `seen` are the variables of the nodes
so far. -/
def returnedEdges : List VariableName → List GraphPattern → List GraphPattern
  | _, [] => []
  | seen, .node v _ _ :: ps => returnedEdges (v :: seen) ps
  | seen, .relationship v label source target direction propertyFilters varLength :: ps =>
    .relationship v label (returnedEnd seen source) (returnedEnd seen target) direction
      propertyFilters varLength :: returnedEdges seen ps
  | seen, .path _ :: ps => returnedEdges seen ps

/-- A pattern with its variable names checked once more. -/
def revalidate : GraphPattern → Except String GraphPattern
  | .node v label propertyFilters => do
    return .node (← new v.val) label propertyFilters
  | .relationship v label source target direction propertyFilters varLength => do
    let source ← new source.val
    let target ← new target.val
    let v ← (v.map val).mapM new
    return .relationship v label source target direction propertyFilters varLength
  | .path elements => .ok (.path elements)

variable {all : List PatternNode} {v : VariableName} {g : GraphPattern} (ps : List GraphPattern)
  (filter : Option Expr)

theorem eq_of_new {s : String} (h : new s = .ok v) : v = ⟨s⟩ := by
  unfold new at h
  cases hs : sanitizeVariable s with
  | none =>
    rw [hs] at h
    cases h
  | some w =>
    rw [hs] at h
    cases h
    rw [eq_of_sanitizeVariable hs]

theorem new_val_of_new {s : String} (h : new s = .ok v) :
    new v.val = .ok v := by
  have hv := eq_of_new h
  subst hv
  exact h

theorem nodeId_injective {i j : Nat} (h : nodeId i = nodeId j) : i = j := by
  have hdigits : toDigits 10 i = toDigits 10 j := by
    rw [← toList_repr, ← toList_repr]
    exact congrArg String.toList ((String.append_right_inj "n").1 h)
  rw [← ofDigitChars_ten_toDigits (n := i), hdigits, ofDigitChars_ten_toDigits]

theorem nodeId_ne_missing (i : Nat) (x : String) : nodeId i ≠ "missing_" ++ x := by
  intro h
  have hlist := congrArg (fun s => s.toList.head?) h
  simp [nodeId] at hlist

theorem id_of_mem_decompile {ps : List GraphPattern} :
    ∀ {idx : Nat} {varToId : String → Option String} {n : PatternNode},
      n ∈ (decompilePatterns idx varToId ps).1 → ∃ j, idx ≤ j ∧ n.id = nodeId j := by
  induction ps with
  | nil =>
    intro idx varToId n hn
    cases hn
  | cons p ps ih =>
    intro idx varToId n hn
    cases p with
    | node v label fs =>
      rcases mem_cons.1 hn with rfl | hn
      · exact ⟨idx, le_rfl, rfl⟩
      · obtain ⟨j, hj, hid⟩ := ih hn
        exact ⟨j, by omega, hid⟩
    | relationship v label s t dir fs vl | path elements =>
      obtain ⟨j, hj, hid⟩ := ih hn
      exact ⟨j, by omega, hid⟩

/-- The nodes of a canvas that was opened have distinct ids. -/
theorem nodup_ids : ∀ (idx : Nat) (varToId : String → Option String),
      ((decompilePatterns idx varToId ps).1.map PatternNode.id).Nodup := by
  induction ps with
  | nil => exact fun _ _ => nodup_nil
  | cons p ps ih =>
    intro idx varToId
    cases p with
    | node v label fs =>
      apply nodup_cons.2 ⟨?_, ih _ _⟩
      intro hmem
      obtain ⟨n, hn, hid⟩ := mem_map.1 hmem
      obtain ⟨j, hj, hid'⟩ := id_of_mem_decompile hn
      have heq : j = idx := nodeId_injective (hid'.symm.trans hid)
      omega
    | relationship v label s t dir fs vl => exact ih _ _
    | path elements => exact ih _ _

variable {nodes : List PatternNode}

/-- Distinct ids name their nodes. -/
theorem variableAt_of_mem (hnd : (nodes.map PatternNode.id).Nodup) {n : PatternNode}
    (hn : n ∈ nodes) : variableAt nodes n.id = n.var := by
  have hlast : Keyed.last PatternNode.id n.id nodes = some n :=
    (Keyed.last_some_iff PatternNode.id hnd).2 ⟨hn, rfl⟩
  rw [variableAt, hlast]

theorem variableAt_of_notMem {id : String} (hid : id ∉ nodes.map PatternNode.id) :
    variableAt nodes id = "__missing_" ++ id ++ "__" := by
  rw [variableAt, (Keyed.last_none_iff PatternNode.id).2 hid]

/-- What `decompile` knows of the nodes seen so far, about the nodes of the whole
canvas. -/
structure Tracks (all : List PatternNode) (varToId : String → Option String)
    (seen : List VariableName) : Prop where
  named : ∀ v id, varToId v = some id → variableAt all id = v
  seen : ∀ v : VariableName, (varToId v.val).isSome ↔ v ∈ seen
  missing : ∀ x, variableAt all ("missing_" ++ x) = "__missing_" ++ ("missing_" ++ x) ++ "__"

theorem Tracks.node {varToId : String → Option String} {seen : List VariableName}
    (h : Tracks all varToId seen) {id : String} (hid : variableAt all id = v.val) :
    Tracks all (Function.update varToId v.val (some id)) (v :: seen) where
  named := by
    intro u id' hu
    by_cases heq : u = v.val
    · subst heq
      rw [Function.update_self] at hu
      cases hu
      exact hid
    · rw [Function.update_of_ne heq] at hu
      exact h.named u id' hu
  seen := by
    intro u
    by_cases heq : u = v
    · subst heq
      rw [Function.update_self]
      exact iff_of_true rfl mem_cons_self
    · have hval : u.val ≠ v.val := fun hval => heq (congrArg VariableName.mk hval)
      rw [Function.update_of_ne hval, h.seen, mem_cons]
      exact ⟨.inr, fun hmem => hmem.resolve_left heq⟩
  missing := h.missing

/-- The end of an edge is compiled to the end that returns. -/
theorem Tracks.variableAt_endId {varToId : String → Option String} {seen : List VariableName}
    (h : Tracks all varToId seen) (v : VariableName) :
    variableAt all (endId varToId v) = (returnedEnd seen v).val := by
  unfold endId returnedEnd
  cases hv : varToId v.val with
  | none =>
    have hno : v ∉ seen := by
      intro hmem
      rw [← h.seen, hv] at hmem
      cases hmem
    rw [if_neg hno]
    exact h.missing v.val
  | some id =>
    have hmem : v ∈ seen := (h.seen v).1 (by rw [hv]; rfl)
    rw [if_pos hmem]
    exact h.named v.val id hv

theorem mapM_compile_edges :
    ∀ {idx : Nat} {varToId : String → Option String} {seen : List VariableName},
      Tracks all varToId seen →
        (∀ n ∈ (decompilePatterns idx varToId ps).1, variableAt all n.id = n.var) →
          (decompilePatterns idx varToId ps).2.mapM (PatternEdge.compile all) =
            (returnedEdges seen ps).mapM revalidate := by
  induction ps with
  | nil => exact fun _ _ => rfl
  | cons p ps ih =>
    intro idx varToId seen htracks hnodes
    cases p with
    | node v label fs =>
      have hhead : variableAt all (nodeId idx) = v.val := hnodes _ mem_cons_self
      exact ih (htracks.node hhead) fun n hn => hnodes n (mem_cons_of_mem _ hn)
    | path elements => exact ih htracks hnodes
    | relationship v label s t dir fs vl =>
      have hsource := htracks.variableAt_endId s
      have htarget := htracks.variableAt_endId t
      have hrest := ih htracks hnodes
      rw [decompilePatterns, returnedEdges, mapM_cons, mapM_cons, hrest]
      have hedge : PatternEdge.compile all ⟨"e" ++ toString idx, v.map val, label,
          endId varToId s, endId varToId t, dir, fs, vl⟩ =
            revalidate (.relationship v label (returnedEnd seen s) (returnedEnd seen t) dir
              fs vl) := by
        unfold PatternEdge.compile revalidate
        rw [hsource, htarget]
      rw [hedge]

theorem mapM_compile_nodes : ∀ (idx : Nat) (varToId : String → Option String),
      (decompilePatterns idx varToId ps).1.mapM PatternNode.compile =
        (returnedNodes ps).mapM revalidate := by
  induction ps with
  | nil => exact fun _ _ => rfl
  | cons p ps ih =>
    intro idx varToId
    cases p with
    | node v label fs =>
      rw [decompilePatterns, returnedNodes, mapM_cons, mapM_cons, ih]
      rfl
    | relationship v label s t dir fs vl => exact ih _ _
    | path elements => exact ih _ _

/-- The rows of a list with its positions hold the list. -/
theorem map_mapIdx_eq {α β : Type} {f : Nat → α → β} {g : β → α} (h : ∀ i x, g (f i x) = x)
    (xs : List α) : (xs.mapIdx f).map g = xs := by
  apply ext_getElem
  · simp
  · intro i hi hi'
    simp [h]

/-- What comes back of a `MATCH` that is opened and saved. -/
theorem compile_decompile (projections : List Projection) (optional : Bool)
    (groupBy : List Projection) (limit skip : Option Nat) (orderBy : List OrderClause)
    (asOf : Option Ontology.DateTime) :
    (decompile ⟨.match_ ps filter projections optional groupBy, limit, skip, orderBy,
        asOf⟩).pattern.compile = do
      let nodes ← (returnedNodes ps).mapM revalidate
      let edges ← (returnedEdges [] ps).mapM revalidate
      return ⟨.match_ (nodes ++ edges) (filter.bind fun e => combineFiltersAnd (splitTopLevelAnd e))
        projections false [], limit, skip, orderBy, none⟩ := by
  let parts := decompilePatterns 0 (fun _ => none) ps
  have hnamed (n : PatternNode) (hn : n ∈ parts.1) : variableAt parts.1 n.id = n.var :=
    variableAt_of_mem (nodup_ids ps 0 _) hn
  have htracks : Tracks parts.1 (fun _ => none) [] := by
    refine ⟨?_, ?_, ?_⟩
    · intro v id hv
      cases hv
    · exact fun v => iff_of_false (by simp) not_mem_nil
    · intro x
      apply variableAt_of_notMem
      intro hmem
      obtain ⟨n, hn, hid⟩ := mem_map.1 hmem
      obtain ⟨j, -, hj⟩ := id_of_mem_decompile hn
      exact nodeId_ne_missing j x (hj.symm.trans hid)
  have hrows : combineFiltersAnd ((((filter.map splitTopLevelAnd).getD []).mapIdx
      fun idx expr => (⟨"f" ++ toString idx, expr⟩ : PatternFilter)).map PatternFilter.expr) =
        filter.bind fun e => combineFiltersAnd (splitTopLevelAnd e) := by
    rw [map_mapIdx_eq fun _ _ => rfl]
    cases filter <;> rfl
  unfold PatternIR.compile decompile
  rw [mapM_compile_nodes, mapM_compile_edges ps htracks hnamed, hrows, map_mapIdx_eq fun _ _ => rfl]

theorem revalidate_eq {g' : GraphPattern} (h : revalidate g = .ok g') : g' = g := by
  cases g with
  | node v label fs =>
    rw [revalidate, bind_eq_ok_iff] at h
    obtain ⟨w, hw, h⟩ := h
    rw [pure_eq_ok_iff] at h
    rw [← h, eq_of_new hw]
  | path elements => exact (Except.ok.inj h).symm
  | relationship v label s t dir fs vl =>
    rw [revalidate, bind_eq_ok_iff] at h
    obtain ⟨s', hs, h⟩ := h
    rw [bind_eq_ok_iff] at h
    obtain ⟨t', ht, h⟩ := h
    rw [bind_eq_ok_iff] at h
    obtain ⟨v', hv, h⟩ := h
    rw [pure_eq_ok_iff] at h
    have hvar : v' = v := by
      cases v with
      | none => exact (Except.ok.inj hv).symm
      | some v =>
        cases hnew : new v.val with
        | error e =>
          rw [map_some, mapM_some, hnew] at hv
          cases hv
        | ok w =>
          rw [map_some, mapM_some, hnew] at hv
          rw [← Except.ok.inj hv, eq_of_new hnew]
    rw [← h, eq_of_new hs, eq_of_new ht, hvar]

variable {gs : List GraphPattern}

theorem mapM_revalidate_eq {gs' : List GraphPattern} (h : gs.mapM revalidate = .ok gs') :
    gs' = gs := by
  have hrel := forall₂_of_mapM h
  clear h
  induction hrel with
  | nil => rfl
  | cons hg _ ih => rw [revalidate_eq hg, ih]

/-! ## What the canvas holds -/

/-- Both ends of every relationship are variables of earlier nodes, and no
pattern is a path. -/
def EndsDeclared : List VariableName → List GraphPattern → Prop
  | _, [] => True
  | seen, .node v _ _ :: ps => EndsDeclared (v :: seen) ps
  | seen, .relationship _ _ source target _ _ _ :: ps =>
    source ∈ seen ∧ target ∈ seen ∧ EndsDeclared seen ps
  | _, .path _ :: _ => False

/-- How long the names of a pattern's ends are. -/
def endLength : GraphPattern → Nat
  | .relationship _ _ source target _ _ _ => source.val.length + target.val.length
  | _ => 0

def IsSingle : GraphPattern → Prop
  | .path _ => False
  | _ => True

theorem length_returnedEnd (seen : List VariableName) (v : VariableName) :
    v.val.length ≤ (returnedEnd seen v).val.length ∧
      ((returnedEnd seen v).val.length = v.val.length → v ∈ seen) := by
  unfold returnedEnd
  by_cases hv : v ∈ seen
  · rw [if_pos hv]
    exact ⟨le_rfl, fun _ => hv⟩
  · rw [if_neg hv]
    simp only [String.length_append]
    constructor
    · omega
    · intro h
      have hprefix : "__missing_".length = 10 := rfl
      omega

theorem isSingle_returned :
    ∀ (seen : List VariableName), ∀ g ∈ returnedNodes ps ++ returnedEdges seen ps, IsSingle g := by
  induction ps with
  | nil =>
    intro seen g hg
    cases hg
  | cons p ps ih =>
    intro seen g hg
    cases p with
    | node v label fs =>
      rcases mem_cons.1 hg with rfl | hg
      · trivial
      · exact ih _ g hg
    | path elements => exact ih seen g hg
    | relationship v label s t dir fs vl =>
      rcases mem_append.1 hg with hg | hg
      · exact ih seen g (mem_append_left _ hg)
      · rcases mem_cons.1 hg with rfl | hg
        · trivial
        · exact ih seen g (mem_append_right _ hg)

theorem endLength_returnedNodes : ((returnedNodes ps).map endLength).sum = 0 := by
  induction ps with
  | nil => rfl
  | cons p ps ih =>
    cases p with
    | node v label fs =>
      rw [returnedNodes, map_cons, sum_cons, ih]
      rfl
    | path elements => exact ih
    | relationship v label s t dir fs vl => exact ih

/-- The names of the ends only grow, and they grow when an end is not declared. -/
theorem endLength_returnedEdges : ∀ (seen : List VariableName), (∀ g ∈ ps, IsSingle g) →
      (ps.map endLength).sum ≤ ((returnedEdges seen ps).map endLength).sum ∧
      (((returnedEdges seen ps).map endLength).sum = (ps.map endLength).sum →
        EndsDeclared seen ps) := by
  induction ps with
  | nil => exact fun _ _ => ⟨le_rfl, fun _ => trivial⟩
  | cons p ps ih =>
    intro seen hsingle
    have hrest : ∀ g ∈ ps, IsSingle g := fun g hg => hsingle g (mem_cons_of_mem _ hg)
    cases p with
    | node v label fs =>
      rw [returnedEdges, map_cons, sum_cons]
      show 0 + _ ≤ _ ∧ (_ = 0 + _ → _)
      rw [zero_add]
      exact ih _ hrest
    | path elements => exact absurd (hsingle _ mem_cons_self) id
    | relationship v label s t dir fs vl =>
      obtain ⟨hle, heq⟩ := ih seen hrest
      obtain ⟨hs, hs'⟩ := length_returnedEnd seen s
      obtain ⟨ht, ht'⟩ := length_returnedEnd seen t
      rw [returnedEdges, map_cons, sum_cons, map_cons, sum_cons]
      show s.val.length + t.val.length + _ ≤
          (returnedEnd seen s).val.length + (returnedEnd seen t).val.length + _ ∧
        ((returnedEnd seen s).val.length + (returnedEnd seen t).val.length + _ =
          s.val.length + t.val.length + _ → _)
      constructor
      · omega
      · intro hsum
        exact ⟨hs' (by omega), ht' (by omega), heq (by omega)⟩

theorem perm_of_endsDeclared : ∀ (seen : List VariableName), EndsDeclared seen ps →
      ps.Perm (returnedNodes ps ++ returnedEdges seen ps) := by
  induction ps with
  | nil => exact fun _ _ => .refl _
  | cons p ps ih =>
    intro seen h
    cases p with
    | node v label fs => exact (ih _ h).cons _
    | path elements => exact absurd h id
    | relationship v label s t dir fs vl =>
      obtain ⟨hs, ht, h⟩ := h
      rw [returnedNodes, returnedEdges, returnedEnd, if_pos hs, returnedEnd, if_pos ht]
      exact ((ih _ h).cons _).trans perm_middle.symm

theorem perm_returned_iff :
    ps.Perm (returnedNodes ps ++ returnedEdges [] ps) ↔ EndsDeclared [] ps := by
  constructor
  · intro h
    have hsingle (g : GraphPattern) (hg : g ∈ ps) : IsSingle g :=
      isSingle_returned ps [] g (h.mem_iff.1 hg)
    have hsum : (ps.map endLength).sum = ((returnedEdges [] ps).map endLength).sum := by
      rw [(h.map endLength).sum_eq, map_append, List.sum_append_nat, endLength_returnedNodes,
        zero_add]
    exact (endLength_returnedEdges ps [] hsingle).2 hsum.symm
  · exact perm_of_endsDeclared ps []

/-! ## The round trips -/

/-- The two queries are the same `MATCH` up to the order of its patterns and the
association of the conjunctions of its filter. -/
inductive SameUpToOrder : QueryIR → QueryIR → Prop
  | match_ {patterns patterns' : List GraphPattern} {filter filter' : Option Expr}
      {projections : List Projection} {optional : Bool} {groupBy : List Projection}
      {limit skip : Option Nat} {orderBy : List OrderClause} {asOf : Option Ontology.DateTime}
      (hpatterns : patterns.Perm patterns') (hfilter : Option.Rel Reassociated filter filter') :
      SameUpToOrder
        ⟨.match_ patterns filter projections optional groupBy, limit, skip, orderBy, asOf⟩
        ⟨.match_ patterns' filter' projections optional groupBy, limit, skip, orderBy, asOf⟩

/-- The query has a canvas form: it is a plain `MATCH` of single patterns that
lists the nodes of a relationship before it, without grouping columns and
without a temporal pivot. -/
def FitsCanvas (q : QueryIR) : Prop :=
  match q.operation with
  | .match_ patterns _ _ optional groupBy =>
    optional = false ∧ groupBy = [] ∧ q.asOf = none ∧ EndsDeclared [] patterns
  | _ => False

/-- Every end of an edge compiles to the variable of a node. -/
def Attached (p : PatternIR) : Prop :=
  ∀ e ∈ p.edges, ∀ id ∈ [e.sourceNodeId, e.targetNodeId],
    variableAt p.nodes id ∈ p.nodes.map var

theorem relReassociated_split : Option.Rel Reassociated filter
      (filter.bind fun e => combineFiltersAnd (splitTopLevelAnd e)) := by
  cases filter with
  | none => exact .none
  | some e =>
    obtain ⟨f, hf, hsame⟩ := combine_split e
    rw [bind_some, hf]
    exact .some hsame

/-- An editable query that compiles again is the same query exactly when the
canvas can hold it. -/
theorem sameUpToOrder_iff {q q' : QueryIR} (hedit : (decompile q).isEditable)
    (hq' : (decompile q).pattern.compile = .ok q') : SameUpToOrder q q' ↔ FitsCanvas q := by
  rcases q with ⟨op, limit, skip, orderBy, asOf⟩
  cases op with
  | match_ ps filter projections optional groupBy =>
    rw [compile_decompile, bind_eq_ok_iff] at hq'
    obtain ⟨nodes, hnodes, hq'⟩ := hq'
    rw [bind_eq_ok_iff] at hq'
    obtain ⟨edges, hedges, hq'⟩ := hq'
    rw [pure_eq_ok_iff, mapM_revalidate_eq hnodes, mapM_revalidate_eq hedges] at hq'
    subst hq'
    constructor
    · intro h
      cases h with
      | match_ hpatterns _ => exact ⟨rfl, rfl, rfl, (perm_returned_iff ps).1 hpatterns⟩
    · rintro ⟨rfl, rfl, hasOf, hends⟩
      subst hasOf
      exact .match_ ((perm_returned_iff ps).2 hends) (relReassociated_split filter)
  | _ => cases hedit

/-! ### Canvases that were compiled -/

def seenAfter : List VariableName → List PatternNode → List VariableName
  | seen, [] => seen
  | seen, n :: ns => seenAfter (⟨n.var⟩ :: seen) ns

theorem mem_seenAfter {x : String} (ns : List PatternNode) : ∀ {seen : List VariableName},
      (⟨x⟩ : VariableName) ∈ seenAfter seen ns ↔ ⟨x⟩ ∈ seen ∨ x ∈ ns.map var := by
  induction ns with
  | nil =>
    intro seen
    exact ⟨.inl, fun h => h.resolve_right not_mem_nil⟩
  | cons n ns ih =>
    intro seen
    rw [seenAfter, ih, mem_cons, map_cons, mem_cons, VariableName.mk.injEq]
    exact ⟨fun h => by tauto, fun h => by tauto⟩

theorem node_of_compile {n : PatternNode} (h : n.compile = .ok g) :
    g = .node ⟨n.var⟩ n.label n.propertyFilters ∧ revalidate g = .ok g := by
  rw [compile, bind_eq_ok_iff] at h
  obtain ⟨v, hv, h⟩ := h
  rw [pure_eq_ok_iff] at h
  rw [← h, revalidate, new_val_of_new hv, eq_of_new hv]
  exact ⟨rfl, rfl⟩

theorem returned_append_nodes {ns : List PatternNode}
    (h : List.Forall₂ (fun n g => compile n = .ok g) ns gs) (hs : List GraphPattern) :
    ∀ (seen : List VariableName), returnedNodes (gs ++ hs) = gs ++ returnedNodes hs ∧
      returnedEdges seen (gs ++ hs) = returnedEdges (seenAfter seen ns) hs ∧
      (EndsDeclared seen (gs ++ hs) ↔ EndsDeclared (seenAfter seen ns) hs) := by
  induction h with
  | nil => exact fun _ => ⟨rfl, rfl, .rfl⟩
  | cons hg _ ih =>
    intro seen
    rw [(node_of_compile hg).1]
    obtain ⟨hnodes, hedges, hends⟩ := ih (⟨_⟩ :: seen)
    exact ⟨congrArg _ hnodes, hedges, hends⟩

theorem edge_of_compile {e : PatternEdge} (h : e.compile nodes = .ok g) :
    (∃ v, g = .relationship v e.label ⟨variableAt nodes e.sourceNodeId⟩
      ⟨variableAt nodes e.targetNodeId⟩ e.direction e.propertyFilters e.varLength) ∧
      revalidate g = .ok g := by
  rw [PatternEdge.compile, bind_eq_ok_iff] at h
  obtain ⟨s, hs, h⟩ := h
  rw [bind_eq_ok_iff] at h
  obtain ⟨t, ht, h⟩ := h
  rw [bind_eq_ok_iff] at h
  obtain ⟨v, hv, h⟩ := h
  rw [pure_eq_ok_iff] at h
  have hvar : (v.map val).mapM new = .ok v := by
    cases hvar : e.var with
    | none =>
      rw [hvar] at hv
      rw [← Except.ok.inj hv]
      rfl
    | some x =>
      cases hx : new x with
      | error err =>
        rw [hvar, mapM_some, hx] at hv
        cases hv
      | ok w =>
        rw [hvar, mapM_some, hx] at hv
        rw [← Except.ok.inj hv, map_some, mapM_some, new_val_of_new hx]
        rfl
  constructor
  · exact ⟨v, by rw [← h, eq_of_new hs, eq_of_new ht]⟩
  · rw [← h, revalidate, new_val_of_new hs, new_val_of_new ht, hvar]
    rfl

theorem returned_edges {es : List PatternEdge}
    (h : List.Forall₂ (fun e g => e.compile nodes = .ok g) es gs) (seen : List VariableName) :
    returnedNodes gs = [] ∧ (EndsDeclared seen gs → returnedEdges seen gs = gs) ∧
      (EndsDeclared seen gs ↔ ∀ e ∈ es, ∀ id ∈ [e.sourceNodeId, e.targetNodeId],
        (⟨variableAt nodes id⟩ : VariableName) ∈ seen) := by
  induction h with
  | nil => exact ⟨rfl, fun _ => rfl, iff_of_true trivial (by simp)⟩
  | cons hg _ ih =>
    obtain ⟨hnodes, hedges, hends⟩ := ih
    obtain ⟨⟨v, hgeq⟩, -⟩ := edge_of_compile hg
    rw [hgeq]
    refine ⟨hnodes, ?_, ?_⟩
    · rintro ⟨hs, ht, hrest⟩
      rw [returnedEdges, returnedEnd, if_pos hs, returnedEnd, if_pos ht, hedges hrest]
    · rw [EndsDeclared, hends]
      simp [and_assoc]

theorem mapM_revalidate_of_ok (h : ∀ g ∈ gs, revalidate g = .ok g) :
    gs.mapM revalidate = .ok gs := by
  induction gs with
  | nil => rfl
  | cons g gs ih =>
    rw [mapM_cons, h g mem_cons_self, ih fun x hx => h x (mem_cons_of_mem _ hx)]
    rfl

theorem exists_of_forall₂_right {α β : Type} {R : α → β → Prop} {xs : List α} {ys : List β}
    (h : List.Forall₂ R xs ys) {y : β} (hy : y ∈ ys) : ∃ x, R x y := by
  induction h with
  | nil => cases hy
  | cons hxy _ ih =>
    rcases mem_cons.1 hy with rfl | hy
    · exact ⟨_, hxy⟩
    · exact ih hy

/-- A compiled canvas has a canvas form exactly when its edges are attached, and
is then compiled again to itself up to its filter. -/
theorem fitsCanvas_compile {p : PatternIR} {q : QueryIR} (h : p.compile = .ok q) :
    (FitsCanvas q ↔ Attached p) ∧ (decompile q).isEditable ∧
      ∃ patterns, q = ⟨.match_ patterns (combineFiltersAnd (p.filters.map PatternFilter.expr))
          (p.projections.map PatternProjection.projection) false [], p.limit, p.skip, p.orderBy,
          none⟩ ∧ (Attached p → (decompile q).pattern.compile = .ok ⟨.match_ patterns
          ((combineFiltersAnd (p.filters.map PatternFilter.expr)).bind fun e =>
            combineFiltersAnd (splitTopLevelAnd e))
          (p.projections.map PatternProjection.projection) false [], p.limit, p.skip, p.orderBy,
          none⟩) := by
  rw [PatternIR.compile, bind_eq_ok_iff] at h
  obtain ⟨nodes, hnodes, h⟩ := h
  rw [bind_eq_ok_iff] at h
  obtain ⟨edges, hedges, h⟩ := h
  rw [pure_eq_ok_iff] at h
  have hns := forall₂_of_mapM hnodes
  have hes := forall₂_of_mapM hedges
  obtain ⟨hrn, hre, hdecl⟩ := returned_append_nodes hns edges []
  obtain ⟨hrn', hre', hdecl'⟩ := returned_edges hes (seenAfter [] p.nodes)
  have hattached : EndsDeclared [] (nodes ++ edges) ↔ Attached p := by
    rw [hdecl, hdecl']
    unfold Attached
    simp only [mem_seenAfter, not_mem_nil, false_or]
  have hfits : FitsCanvas q ↔ Attached p := by
    rw [← h, ← hattached]
    exact ⟨fun hq => hq.2.2.2, fun hends => ⟨rfl, rfl, rfl, hends⟩⟩
  refine ⟨hfits, by rw [← h]; rfl, nodes ++ edges, h.symm, ?_⟩
  intro hatt
  rw [← h, compile_decompile, hrn, hrn', append_nil, hre, hre' (hdecl.1 (hattached.2 hatt)),
    mapM_revalidate_of_ok fun g hg => by
      obtain ⟨n, hn⟩ := exists_of_forall₂_right hns hg
      exact (node_of_compile hn).2,
    mapM_revalidate_of_ok fun g hg => by
      obtain ⟨e, he⟩ := exists_of_forall₂_right hes hg
      exact (edge_of_compile he).2]
  rfl

theorem relReassociated_refl : Option.Rel Reassociated filter filter := by
  cases filter with
  | none => exact .none
  | some e => exact .some (.refl e)

/-- An editable query is restored by opening and saving it exactly when the
canvas can hold it; a compiled canvas is restored exactly when its edges are
attached, to the letter when its filter leans to the left as well. -/
theorem roundTrip_iff (opened : QueryIR) (p : PatternIR) :
    (∀ q, (decompile opened).isEditable → (decompile opened).pattern.compile = .ok q →
      (SameUpToOrder opened q ↔ FitsCanvas opened)) ∧ ∀ q, p.compile = .ok q →
      ((∃ q', (decompile q).pattern.compile = .ok q' ∧ SameUpToOrder q q') ↔ Attached p) ∧
      ((decompile q).pattern.compile = .ok q ↔ Attached p ∧
        ∀ e, combineFiltersAnd (p.filters.map PatternFilter.expr) = some e → LeftNested e) := by
  refine ⟨fun q hedit hq => sameUpToOrder_iff hedit hq, ?_⟩
  intro q h
  obtain ⟨hfits, hedit, patterns, hq, hagain⟩ := fitsCanvas_compile h
  constructor
  · constructor
    · rintro ⟨q', hq', hsame⟩
      exact hfits.1 ((sameUpToOrder_iff hedit hq').1 hsame)
    · intro hatt
      refine ⟨_, hagain hatt, ?_⟩
      rw [hq]
      exact .match_ (.refl _) (relReassociated_split _)
  · have hfilter (e : Option Expr) :
        (e.bind fun e => combineFiltersAnd (splitTopLevelAnd e)) = e ↔
          ∀ e', e = some e' → LeftNested e' := by
      cases e with
      | none => exact iff_of_true rfl (by simp)
      | some e =>
        rw [bind_some, combine_split_eq_iff]
        simp
    constructor
    · intro hsame
      have hself : SameUpToOrder q q := by
        rw [hq]
        exact .match_ (.refl _) (relReassociated_refl _)
      have hatt := hfits.1 ((sameUpToOrder_iff hedit hsame).1 hself)
      refine ⟨hatt, (hfilter _).1 ?_⟩
      rw [hagain hatt] at hsame
      have heq := Except.ok.inj hsame
      rw [hq] at heq
      injection heq with hop
      injection hop
    · rintro ⟨hatt, hleft⟩
      rw [hagain hatt, (hfilter _).2 hleft, hq]

/-- `MATCH (p:Person) RETURN p`, or its `OPTIONAL` form. -/
def matchPerson (optional : Bool) : QueryIR where
  operation := .match_ [.node ⟨"p"⟩ (some ⟨"Person", .refl true⟩) []] none [.variable_ ⟨"p"⟩ none]
    optional []
  limit := none
  skip := none
  orderBy := []
  asOf := none

/-- The canvas of `matchPerson`. -/
def personCanvas : PatternIR where
  nodes := [⟨"n0", "p", some ⟨"Person", .refl true⟩, []⟩]
  edges := []
  filters := []
  projections := [⟨"p0", .variable_ ⟨"p"⟩ none⟩]
  limit := none
  skip := none
  orderBy := []

/-- The plain form comes back, from the query and from its canvas. -/
theorem roundTrip_matchPerson : SameUpToOrder (matchPerson false) (matchPerson false) ∧
      (decompile (matchPerson false)).pattern.compile = .ok (matchPerson false) :=
  have h := roundTrip_iff (matchPerson false) personCanvas
  ⟨(h.1 (matchPerson false) rfl rfl).2 ⟨rfl, rfl, rfl, trivial⟩,
    (h.2 (matchPerson false) rfl).2.2 ⟨by simp [Attached, personCanvas], fun _ h => by cases h⟩⟩

/-- The `OPTIONAL` form opens as an editable canvas and comes back as the plain
form. -/
theorem optional_lost : (decompile (matchPerson true)).isEditable ∧
      (decompile (matchPerson true)).pattern.compile = .ok (matchPerson false) ∧
      ¬SameUpToOrder (matchPerson true) (matchPerson false) := by
  refine ⟨rfl, rfl, ?_⟩
  intro h
  cases h

end Ontosyx.Query
