import Ontosyx.Cypher.SetClause

/-!
# What the write path of the workspace scope covers

A node that a CREATE or MERGE binds first is stamped when the clause itself gives
it the workspace property, or when a SET after it assigns the property before a
clause can observe the node.  The assignment has to be one in the rendered text:
the SET must be apart from the clauses around it.

The rewriter collects the indices of the CREATE and MERGE clauses once, so a round
that inserts a SET leaves the later indices one short.

## Main results

* `stampsExcept_inject` — a round of the write path unstamps no clause.
* `stamps_rewrite` — the rounds stamp every clause when each meets its condition.
-/

namespace Ontosyx.Cypher.WorkspaceScopeRewriter

open List Ontosyx.Core Option

variable (rw : WorkspaceScopeRewriter)

/-- The SET `s`, between `prev` and `next`, assigns the property of `v`. -/
structure Assigns (v : Text) (prev s : CypherClause) (next : Option CypherClause) : Prop where
  kind : s.kind = .set
  assigned : ∃ items, assignments s.text = some items ∧ rw.guardAtom v ∈ items
  before : Apart prev.text s.text
  after : ∀ t, next = some t → Apart s.text t.text

/-- A SET observes no node, and a CREATE none that it does not name. -/
def observes (v : Text) (c : CypherClause) : Bool :=
  match c.kind with
  | .set => false
  | .create => (lex c.text).all fun ls => decide (nameLexeme v ∈ ls)
  | _ => true

/-- Among the clauses after `prev` one assigns the property of `v` before any
observes it. -/
def AssignedAfter (v : Text) : CypherClause → List CypherClause → Prop
  | _, [] => False
  | prev, s :: cs =>
    rw.Assigns v prev s cs.head? ∨ observes v s = false ∧ AssignedAfter v s cs

/-- The clause gives the node the property itself. -/
def BindsInline (v : Text) (c : CypherClause) : Prop :=
  ∃ n, CypherPatternElement.node n ∈ c.patterns.flatMap (·.elements) ∧
    n.variableName = some v ∧ (rw.property, '$' :: rw.paramName) ∈ n.properties

/-- The clause at an index is no CREATE or MERGE, or it is stamped. -/
def StampedAt (cs : List CypherClause) (i : Nat) : Prop :=
  ∀ c, cs[i]? = some c → c.isCreate → ∀ v, (boundNodeVariables c).head? = some v →
    rw.BindsInline v c ∨ rw.AssignedAfter v c (cs.drop (i + 1))

def Stamps (cs : List CypherClause) : Prop := ∀ i, rw.StampedAt cs i

variable {rw}

variable {s : CypherClause}

theorem observes_of_set (hs : s.kind = .set) (v : Text) : observes v s = false := by
  unfold observes
  rw [hs]

theorem not_assigns_of_not_set {v : Text} {prev : CypherClause} {next : Option CypherClause}
    (hs : s.kind ≠ .set) : ¬rw.Assigns v prev s next := fun h => hs h.kind

variable {post : List CypherClause}

theorem assignedAfter_cons_set {v : Text} {c n : CypherClause} (hn : n.kind = .set)
    (hpost : ¬post.head?.any (·.kind == .set)) (h : rw.AssignedAfter v c post) :
    rw.AssignedAfter v c (n :: post) := by
  refine .inr ⟨observes_of_set hn v, ?_⟩
  cases post with
  | nil => exact h
  | cons t post =>
    have ht : t.kind ≠ .set := by
      intro hkind
      refine hpost ?_
      rw [head?_cons, any_some, hkind]
      rfl
    exact .inr (h.resolve_left (not_assigns_of_not_set ht))

/-- Where the clauses before differ only in what comes after them. -/
theorem assignedAfter_append {v : Text} {c : CypherClause} {xs ys : List CypherClause}
    (hnext : ∀ prev, rw.Assigns v prev c xs.head? → rw.Assigns v prev c ys.head?)
    (hafter : rw.AssignedAfter v c xs → rw.AssignedAfter v c ys) (pre : List CypherClause)
    (prev : CypherClause) (h : rw.AssignedAfter v prev (pre ++ c :: xs)) :
    rw.AssignedAfter v prev (pre ++ c :: ys) := by
  induction pre generalizing prev with
  | nil =>
    rcases h with h | h
    · exact .inl (hnext prev h)
    · exact .inr ⟨h.1, hafter h.2⟩
  | cons d pre ih =>
    rcases h with h | h
    · left
      cases pre with
      | nil => exact h
      | cons e pre => exact h
    · exact .inr ⟨h.1, ih d h.2⟩

variable {pre : List CypherClause}

/-- Where the clauses after one index change, and how. -/
theorem stampedAt_append {c : CypherClause} {xs ys : List CypherClause}
    (hnext : ∀ v prev, rw.Assigns v prev c xs.head? → rw.Assigns v prev c ys.head?)
    (hafter : ∀ v, rw.AssignedAfter v c xs → rw.AssignedAfter v c ys) {i : Nat}
    (hi : i ≤ pre.length) (h : rw.StampedAt (pre ++ c :: xs) i) :
    rw.StampedAt (pre ++ c :: ys) i := by
  induction pre generalizing i with
  | nil =>
    obtain rfl := Nat.le_zero.1 hi
    intro d hd hcreate v hv
    exact (h d hd hcreate v hv).imp_right (by
      obtain rfl : c = d := some.inj hd
      exact hafter v)
  | cons d pre ih =>
    cases i with
    | zero =>
      intro e he hcreate v hv
      exact (h e he hcreate v hv).imp_right
        (assignedAfter_append (hnext v) (hafter v) pre e)
    | succ i => exact ih (Nat.le_of_succ_le_succ hi) h

theorem stampedAt_append_right (pre cs : List CypherClause) (j : Nat) :
    rw.StampedAt (pre ++ cs) (pre.length + j) ↔ rw.StampedAt cs j := by
  have hget : (pre ++ cs)[pre.length + j]? = cs[j]? := by
    rw [getElem?_append_right (Nat.le_add_right _ _), Nat.add_sub_cancel_left]
  have hdrop : (pre ++ cs).drop (pre.length + j + 1) = cs.drop (j + 1) := by
    rw [Nat.add_assoc, drop_length_add_append]
  unfold StampedAt
  rw [hget, hdrop]

theorem stampedAt_set (hs : s.kind = .set) (cs : List CypherClause) : rw.StampedAt (s :: cs) 0 := by
  intro c hc hcreate
  obtain rfl : s = c := some.inj hc
  unfold CypherClause.isCreate at hcreate
  rw [hs] at hcreate
  cases hcreate

/-! ## One round -/

/-- There is a place for the assignment of a variable after the clause `c`: in the
SET that follows, or between `c` and what follows. -/
structure PlaceAfter (c : CypherClause) (post : List CypherClause) : Prop where
  /-- The SET that follows is well formed and apart from what is around it. -/
  reuse : ∀ s post', post = s :: post' → s.kind = .set →
    StartsWithSet s.text ∧ (assignments s.text).isSome ∧ Closed c.text s.text ∧
      ∀ t, post'.head? = some t → Apart s.text t.text
  /-- Nothing in `c` reaches over its end, and what follows starts no word. -/
  insert : ¬post.head?.any (·.kind == .set) → Closed c.text [' '] ∧
    ∀ t, post.head? = some t → NotIdentNext t.text ∧ (lex t.text).isSome

variable (hrw : rw.IsConfig) {c : CypherClause} {v : Text} (hv : IsName v)

include hrw hv

theorem assigns_newSet (hplace : PlaceAfter c post) (hset : ¬post.head?.any (·.kind == .set)) :
    rw.Assigns v c (rw.newSet v) post.head? where
  kind := rfl
  assigned := ⟨_, assignments_newSet hrw hv, mem_cons_self⟩
  before := by
    have hlex := lex_newSet_append hrw hv (s := []) fun c hc => by cases hc
    rw [append_nil] at hlex
    refine (hplace.insert hset).1.apart (.inl ⟨?_, ?_⟩) hlex
    · intro d hd
      obtain rfl : ' ' = d := some.inj hd
      rfl
    · intro d hd
      obtain rfl : ' ' = d := some.inj hd
      rfl
  after := by
    intro t ht
    obtain ⟨hnext, hlex⟩ := (hplace.insert hset).2 t ht
    obtain ⟨ms, hms⟩ := isSome_iff_exists.1 hlex
    exact apart_newSet hrw hv hnext hms

/-- The SET with the assignment in front is apart from the clause before. -/
theorem apart_before_prependToSet (hstarts : StartsWithSet s.text)
    (hitems : (assignments s.text).isSome) (hclosed : Closed c.text s.text) :
    Apart c.text (prependToSet (rw.guard v) s.text) := by
  obtain ⟨items, hitems⟩ := isSome_iff_exists.1 hitems
  have hassigned := setItems_prependToSet hrw hv hstarts hitems
  cases hlex : lex (prependToSet (rw.guard v) s.text) with
  | none =>
    rw [assignments, hlex] at hassigned
    cases hassigned
  | some ms => exact hclosed.apart (sameStart_prependToSet _ hstarts) hlex

/-- The SET with the assignment in front assigns the property, and what it
assigned. -/
theorem assigns_prependToSet (hplace : PlaceAfter c (s :: post)) (hs : s.kind = .set) :
    rw.Assigns v c { s with text := prependToSet (rw.guard v) s.text } post.head? ∧
    ∀ u, rw.Assigns u c s post.head? →
      rw.Assigns u c { s with text := prependToSet (rw.guard v) s.text } post.head? := by
  obtain ⟨hstarts, hsome, hclosed, hafter⟩ := hplace.reuse s post rfl hs
  have hbefore := apart_before_prependToSet hrw hv hstarts hsome hclosed
  obtain ⟨items, hitems⟩ := isSome_iff_exists.1 hsome
  have hassigned := setItems_prependToSet hrw hv hstarts hitems
  have hright : ∀ t, post.head? = some t →
      Apart (prependToSet (rw.guard v) s.text) t.text :=
    fun t ht => apart_prependToSet hrw hv hstarts (hafter t ht)
  refine ⟨⟨hs, ⟨_, hassigned, mem_cons_self⟩, hbefore, hright⟩, fun u hu => ?_⟩
  obtain ⟨items', hitems', hmem⟩ := hu.assigned
  obtain rfl := some.inj (hitems.symm.trans hitems')
  exact ⟨hs, ⟨_, hassigned, mem_cons_of_mem _ hmem⟩, hbefore, hright⟩

/-- What is assigned after a SET is so when an assignment is put in front of it. -/
theorem assignedAfter_prependToSet (hstarts : StartsWithSet s.text) {u : Text}
    (h : rw.AssignedAfter u s post) :
    rw.AssignedAfter u { s with text := prependToSet (rw.guard v) s.text } post := by
  cases post with
  | nil => exact h
  | cons t post =>
    rcases h with h | h
    · exact .inl ⟨h.kind, h.assigned, apart_prependToSet hrw hv hstarts h.before, h.after⟩
    · exact .inr h

/-- A round that inserts a SET unstamps nothing up to the clause at its index. -/
theorem stampedAt_insert (hplace : PlaceAfter c post) (hset : ¬post.head?.any (·.kind == .set))
    {i : Nat} (hi : i ≤ pre.length) (h : rw.StampedAt (pre ++ c :: post) i) :
    rw.StampedAt (pre ++ c :: rw.newSet v :: post) i := by
  have hassigns := assigns_newSet hrw hv hplace hset
  refine stampedAt_append (fun u prev hu => ?_)
    (fun u hu => assignedAfter_cons_set rfl hset hu) hi h
  refine ⟨hu.kind, hu.assigned, hu.before, fun t ht => ?_⟩
  obtain rfl := some.inj ht
  exact hassigns.before

/-- A round that changes a SET unstamps nothing. -/
theorem stampedAt_prepend (hplace : PlaceAfter c (s :: post)) (hs : s.kind = .set) {i : Nat}
    (h : rw.StampedAt (pre ++ c :: s :: post) i) :
    rw.StampedAt (pre ++ c :: { s with text := prependToSet (rw.guard v) s.text } :: post) i := by
  obtain ⟨hstarts, hsome, hclosed, -⟩ := hplace.reuse s post rfl hs
  have hbefore := apart_before_prependToSet hrw hv hstarts hsome hclosed
  by_cases hi : i ≤ pre.length
  · refine stampedAt_append (fun u prev hu => ?_) (fun u hu => ?_) hi h
    · refine ⟨hu.kind, hu.assigned, hu.before, fun t ht => ?_⟩
      obtain rfl := some.inj ht
      exact hbefore
    · rcases hu with hu | hu
      · exact .inl ((assigns_prependToSet hrw hv hplace hs).2 u hu)
      · have hs' : observes u { s with text := prependToSet (rw.guard v) s.text } = false :=
          observes_of_set (s := { s with text := prependToSet (rw.guard v) s.text }) hs u
        exact .inr ⟨hs', assignedAfter_prependToSet hrw hv hstarts hu.2⟩
  · obtain ⟨j, rfl⟩ : ∃ j, i = (pre ++ [c]).length + j :=
      ⟨i - (pre ++ [c]).length, by rw [length_append, length_singleton]; omega⟩
    rw [append_cons, stampedAt_append_right] at h ⊢
    cases j with
    | zero =>
      exact stampedAt_set (s := { s with text := prependToSet (rw.guard v) s.text }) hs post
    | succ j => exact h

/-- A round that inserts a SET stamps the clause at its index. -/
theorem stampedAt_insert_self (hplace : PlaceAfter c post)
    (hset : ¬post.head?.any (·.kind == .set)) (hhead : (boundNodeVariables c).head? = some v) :
    rw.StampedAt (pre ++ c :: rw.newSet v :: post) pre.length := by
  have h := @stampedAt_append_right rw pre (c :: rw.newSet v :: post) 0
  refine h.2 ?_
  intro d hd _ u hu
  obtain rfl : c = d := some.inj hd
  obtain rfl : v = u := some.inj (hhead.symm.trans hu)
  exact .inr (.inl (assigns_newSet hrw hv hplace hset))

/-- A round that changes a SET stamps the clause at its index. -/
theorem stampedAt_prepend_self (hplace : PlaceAfter c (s :: post)) (hs : s.kind = .set)
    (hhead : (boundNodeVariables c).head? = some v) :
    rw.StampedAt (pre ++ c :: { s with text := prependToSet (rw.guard v) s.text } :: post)
      pre.length := by
  have h := @stampedAt_append_right rw pre
    (c :: { s with text := prependToSet (rw.guard v) s.text } :: post) 0
  refine h.2 ?_
  intro d hd _ u hu
  obtain rfl : c = d := some.inj hd
  obtain rfl : v = u := some.inj (hhead.symm.trans hu)
  exact .inr (.inl (assigns_prependToSet hrw hv hplace hs).1)

omit hrw hv

/-! ## All rounds -/

/-- What a round needs of the clauses before it: a variable that it skips is
stamped already; else there is a place for the assignment, and where the round
inserts a clause, each later clause is stamped already or its new index is still to
come. -/
def RoundReady (rw : WorkspaceScopeRewriter) (cs : List CypherClause) (idx : Nat)
    (idxs : List Nat) : Prop :=
  ∀ c v, cs[idx]? = some c → (boundNodeVariables c).head? = some v →
    if (cs.drop idx).any fun d => rw.clauseBindsWorkspaceFor d v then rw.StampedAt cs idx
    else IsName v ∧ PlaceAfter c (cs.drop (idx + 1)) ∧
      (¬(cs.drop (idx + 1)).head?.any (·.kind == .set) →
        ∀ i, idx < i → rw.StampedAt cs i ∨ i + 1 ∈ idxs)

def RoundsReady (rw : WorkspaceScopeRewriter) : List CypherClause → List Nat → Prop
  | _, [] => True
  | cs, idx :: idxs =>
    RoundReady rw cs idx idxs ∧ RoundsReady rw (rw.injectAssignment cs idx) idxs

/-- Every clause is stamped that no later round visits. -/
def StampsExcept (rw : WorkspaceScopeRewriter) (cs : List CypherClause) (idxs : List Nat) : Prop :=
  ∀ i, i ∉ idxs → rw.StampedAt cs i

/-- A ready round stamps the clause at its index and unstamps none. -/
theorem stampsExcept_inject (hrw : rw.IsConfig) {cs : List CypherClause} {idx : Nat}
    {idxs : List Nat} (hready : RoundReady rw cs idx idxs) (h : StampsExcept rw cs (idx :: idxs)) :
    StampsExcept rw (rw.injectAssignment cs idx) idxs := by
  rcases rw.inject_cases cs idx with
    ⟨heq, hskip⟩ | ⟨pre, c, post, v, rfl, rfl, hhead, hbinds, hstep⟩
  · rw [heq]
    intro i hi
    by_cases hidx : i = idx
    · subst hidx
      intro c hc hcreate v hv
      have hfirst : firstVariableInClauseAt cs i = some v := by
        rw [firstVariableInClauseAt, hc]
        exact hv
      have hcond := hready c v hc hv
      rw [if_pos (hskip v hfirst)] at hcond
      exact hcond c hc hcreate v hv
    · exact h i (by rw [mem_cons, not_or]; exact ⟨hidx, hi⟩)
  · have hget : (pre ++ c :: post)[pre.length]? = some c := by
      rw [getElem?_append_right (Nat.le_refl _), Nat.sub_self]
      rfl
    have hdrop : (pre ++ c :: post).drop pre.length = c :: post := drop_left
    have hdrop' : (pre ++ c :: post).drop (pre.length + 1) = post := by
      rw [drop_length_add_append]
      rfl
    have hcond := hready c v hget hhead
    rw [hdrop, if_neg hbinds, hdrop'] at hcond
    obtain ⟨hname, hplace, hlater⟩ := hcond
    rcases hstep with ⟨s, post, rfl, hs, heq⟩ | ⟨hset, heq⟩
    · rw [heq]
      intro i hi
      by_cases hidx : i = pre.length
      · subst hidx
        exact stampedAt_prepend_self hrw hname hplace hs hhead
      · exact stampedAt_prepend hrw hname hplace hs
          (h i (by rw [mem_cons, not_or]; exact ⟨hidx, hi⟩))
    · rw [heq]
      intro i hi
      rcases Nat.lt_trichotomy i pre.length with hlt | rfl | hgt
      · refine stampedAt_insert hrw hname hplace hset hlt.le (h i ?_)
        rw [mem_cons, not_or]
        exact ⟨Nat.ne_of_lt hlt, hi⟩
      · exact stampedAt_insert_self hrw hname hplace hset hhead
      · obtain ⟨j, rfl⟩ : ∃ j, i = (pre ++ [c]).length + j :=
          ⟨i - (pre ++ [c]).length, by rw [length_append, length_singleton]; omega⟩
        rw [append_cons, stampedAt_append_right]
        cases j with
        | zero => exact stampedAt_set rfl post
        | succ j =>
          -- the clause was one to the left before
          have hj := (hlater hset ((pre ++ [c]).length + j) (by
            rw [length_append, length_singleton]; omega)).resolve_right hi
          rw [append_cons, stampedAt_append_right] at hj
          exact hj

theorem stamps_foldl_inject (hrw : rw.IsConfig) {cs : List CypherClause}
    {idxs : List Nat} (hready : RoundsReady rw cs idxs) (h : StampsExcept rw cs idxs) :
      rw.Stamps (idxs.foldl rw.injectAssignment cs) := by
  induction idxs generalizing cs with
  | nil => exact fun i => h i not_mem_nil
  | cons idx idxs ih =>
    exact ih hready.2 (stampsExcept_inject hrw hready.1 h)

theorem stampsExcept_createIndices (cs : List CypherClause) :
    StampsExcept rw cs (createIndices cs) := by
  intro i hi c hc hcreate
  exfalso
  refine hi ?_
  unfold createIndices
  rw [List.mem_filter, List.mem_range, hc]
  exact ⟨(List.getElem?_eq_some_iff.1 hc).1, hcreate⟩

/-- The write path stamps every CREATE and MERGE of a statement whose rounds are
ready. -/
theorem stamps_injectWriteScope (hrw : rw.IsConfig) {cs : List CypherClause}
    (hready : RoundsReady rw cs (createIndices cs)) : rw.Stamps (rw.injectWriteScope cs) :=
  stamps_foldl_inject hrw hready (stampsExcept_createIndices cs)

/-- The clause `CREATE (v)` for a name `v`, after some blanks. -/
def createNode (lead v : Text) : CypherClause :=
  { kind := .create, text := lead ++ "CREATE (".toList ++ v ++ [')'],
    patterns := [{ elements := [.node { variableName := some v }] }] }

theorem closed_createNode {v : Text} (hv : IsName v) : Closed (createNode [] v).text [' '] := by
  have hparen : ∀ {c : Char}, (∀ cs, scanRule c cs = .paren) →
      (Lexeme.mk .paren [c]).isBlank = false →
        ∀ s, lex (c :: s) = (lex s).map (⟨.paren, [c]⟩ :: ·) := by
    intro c hrule hblank s
    refine lex_of_scan_not_blank ?_ hblank
    rw [scan_cons, scanToken, hrule]
    rfl
  have hopen := hparen (c := '(') (fun _ => rfl) (by decide)
  have hclose := hparen (c := ')') (fun _ => rfl) (by decide)
  have hcreate : IsWord "CREATE".toList := ⟨'C', "REATE".toList, rfl, by decide, by decide⟩
  have hlex : ∀ s, lex ((createNode [] v).text ++ s) = (lex s).map
      ([⟨.keyword, "CREATE".toList⟩, ⟨.paren, ['(']⟩, nameLexeme v, ⟨.paren, [')']⟩] ++ ·) := by
    intro s
    have htext : (createNode [] v).text ++ s =
        "CREATE".toList ++ ' ' :: '(' :: (v ++ ')' :: s) := by
      simp [createNode]
    have hblank : NotIdentNext (' ' :: '(' :: (v ++ ')' :: s)) := by
      intro c hc
      obtain rfl : ' ' = c := some.inj hc
      rfl
    have hnext : NotIdentNext (')' :: s) := by
      intro c hc
      obtain rfl : ')' = c := some.inj hc
      rfl
    rw [htext, lex_word hcreate hblank, lex_cons_blank (by rfl), hopen, lex_word hv.word hnext,
      hv.lexeme_eq, hclose]
    cases lex s with
    | none => rfl
    | some ls => rfl
  have hnil := hlex []
  rw [append_nil] at hnil
  exact ⟨_, hnil, fun s _ => hlex s⟩

end Ontosyx.Cypher.WorkspaceScopeRewriter
