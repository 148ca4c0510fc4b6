import Ontosyx.Cypher.GuardConjuncts

/-!
# What the read path of the workspace scope covers

A node variable is guarded at a MATCH when the WHERE of its binding has the guard
`v.property = $param` among its conjuncts: the WHERE after the MATCH itself, or
after an earlier MATCH that binds the variable, as long as every WITH in between
carries it on.

The rewriter injects the guard once for each variable, at its first binding, and
skips a variable whose guard occurs in some text of the statement.
-/

namespace Ontosyx.Cypher

open List Ontosyx.Core Lib.Precedence

def Tree.lexeme : Tree → Option Lexeme
  | .leaf l => some l
  | .group _ _ => none

/-- The items of a WITH, split at its commas. -/
def withItems (text : Text) : Option (List (List Tree)) := do
  match ← lex text with
  | [] => none
  | w :: ls =>
    if w.isKeyword "WITH" then
      let body := if (ls.head?).any (·.isKeyword "DISTINCT") then ls.tail else ls
      let ts ← trees body
      let (item, rest) := segments (fun t => t.lexeme == some ⟨.punctuation, [',']⟩) ts
      return item :: rest
    else none

/-- An item that keeps a variable: the variable itself, `*`, or the variable
under its own name. -/
def keepsVariable (v : Text) (item : List Tree) : Bool :=
  match item.map Tree.lexeme with
  | [some l] => l == nameLexeme v || l == ⟨.operator, ['*']⟩
  | [some l, some m, some n] => l == nameLexeme v && m.isKeyword "AS" && n == nameLexeme v
  | _ => false

/-- The clause is no WITH, or it keeps the variable. -/
def CypherClause.carries (c : CypherClause) (v : Text) : Bool :=
  c.kind != .withClause || ((withItems c.text).any fun items => items.any (keepsVariable v))

namespace WorkspaceScopeRewriter

variable (rw : WorkspaceScopeRewriter)

/-- Inject into a WHERE at the front of the clauses, or put one there. -/
def withPredicate (vars : List Text) : List CypherClause → List CypherClause
  | [] => [rw.newWhere vars]
  | w :: cs =>
    if w.kind = .whereClause then
      { w with text := WorkspaceScope.prependToWhere (rw.combined vars) w.text } :: cs
    else rw.newWhere vars :: w :: cs

def scopePass (binds : Text → Bool) : List Text → List CypherClause → List CypherClause
  | _, [] => []
  | queued, c :: cs =>
    if c.isMatch then
      let vars := (planVars binds queued (boundNodeVariables c)).1
      let queued' := (planVars binds queued (boundNodeVariables c)).2
      if vars.isEmpty then c :: scopePass binds queued' cs
      else c :: rw.withPredicate vars (scopePass binds queued' cs)
    else c :: scopePass binds queued cs

variable {rw}

theorem injectPredicate_succ (idx : Nat) (vars : List Text) (c : CypherClause)
    (cs : List CypherClause) :
    rw.injectPredicate (idx + 1, vars) (c :: cs) = c :: rw.injectPredicate (idx, vars) cs := by
  unfold injectPredicate findFollowingWhereClause
  simp only [getElem?_cons_succ]
  by_cases h : (cs[idx + 1]?).any (·.kind == .whereClause)
  · rw [if_pos h, if_pos h]
    rfl
  · rw [if_neg h, if_neg h]
    rfl

theorem injectPredicate_append (vars : List Text) (pre : List CypherClause) (c : CypherClause)
    (cs : List CypherClause) : rw.injectPredicate (pre.length, vars) (pre ++ c :: cs) =
      pre ++ c :: rw.withPredicate vars cs := by
  induction pre with
  | nil =>
    unfold injectPredicate findFollowingWhereClause withPredicate
    cases cs with
    | nil => rfl
    | cons w cs =>
      by_cases hw : w.kind = .whereClause
      · simp [hw]
      · simp [hw]
  | cons d pre ih => rw [length_cons, cons_append, injectPredicate_succ, ih]; rfl

/-- The plan, applied from its end, is the pass. -/
theorem foldr_plan_eq (binds : Text → Bool) (pre : List CypherClause) (queued : List Text)
    (cs : List CypherClause) :
    (plan binds pre.length queued cs).foldr rw.injectPredicate (pre ++ cs) =
      pre ++ rw.scopePass binds queued cs := by
  induction cs generalizing pre queued with
  | nil => rfl
  | cons c cs ih =>
    have hnext : ∀ queued', (plan binds (pre.length + 1) queued' cs).foldr rw.injectPredicate
        (pre ++ c :: cs) = pre ++ c :: rw.scopePass binds queued' cs := by
      intro queued'
      have h := ih (pre ++ [c]) queued'
      rw [length_append, length_singleton] at h
      simpa using h
    rw [plan, scopePass]
    by_cases hc : c.isMatch
    · rw [if_pos hc, if_pos hc]
      by_cases hvars : (planVars binds queued (boundNodeVariables c)).1.isEmpty
      · simp only [hvars, if_true]
        exact hnext _
      · simp only [hvars, Bool.false_eq_true, if_false, foldr_cons]
        rw [hnext, injectPredicate_append]
    · rw [if_neg hc, if_neg hc]
      exact hnext queued

theorem injectReadScope_eq (cs : List CypherClause) :
    rw.injectReadScope cs = rw.scopePass (rw.statementBindsSystemParamFor cs) [] cs :=
  foldr_plan_eq _ [] [] cs

/-! ## Guarded variables -/

variable (rw)

/-- The clause is a WHERE with the guard among its conjuncts. -/
def Guards (v : Text) (next : Option CypherClause) : Prop :=
  ∃ w, next = some w ∧ w.kind = .whereClause ∧
    ∃ r, readWhere w.text = some r ∧ r.IsConjunction ∧ rw.guardAtom v ∈ conjuncts r.body

def stillGuarded (env : Set Text) (c : CypherClause) : Set Text := {v ∈ env | c.carries v}

/-- Every node variable of every MATCH is guarded, by the WHERE after the MATCH or
by that of an earlier one; `env` has the variables guarded before. -/
def Covered : Set Text → List CypherClause → Prop
  | _, [] => True
  | env, c :: cs =>
    if c.isMatch then
      (∀ v ∈ c.nodeVariables, v ∈ env ∨ rw.Guards v cs.head?) ∧
        Covered (env ∪ {v | v ∈ c.nodeVariables ∧ rw.Guards v cs.head?}) cs
    else Covered (stillGuarded env c) cs

/-- What the rewriter leaves of a WHERE after its keyword is one conjunction. -/
def ReadyWhere (next : Option CypherClause) : Prop :=
  ∀ w, next = some w → w.kind = .whereClause →
    ∃ r, readBody (afterKeyword w.text) = some r ∧ r.IsConjunction

/-- The guard is among the conjuncts of what the rewriter leaves of a WHERE. -/
def BodyGuards (v : Text) (next : Option CypherClause) : Prop :=
  ∃ w, next = some w ∧ w.kind = .whereClause ∧
    ∃ r, readBody (afterKeyword w.text) = some r ∧ rw.guardAtom v ∈ conjuncts r.body

/-- The WHERE after a MATCH guards the variable once `vars` are injected. -/
def GuardsAfter (vars : List Text) (v : Text) (next : Option CypherClause) : Prop :=
  if vars.isEmpty then rw.Guards v next else v ∈ vars ∨ rw.BodyGuards v next

/-- The statement before the rewriter runs is one that it scopes: what it injects
has a place, and every node variable of every MATCH is injected for or guarded
already, there or before. -/
def ScopesReads (binds : Text → Bool) : Set Text → List Text → List CypherClause → Prop
  | _, _, [] => True
  | env, queued, c :: cs =>
    if c.isMatch then
      let vars := (planVars binds queued (boundNodeVariables c)).1
      let queued' := (planVars binds queued (boundNodeVariables c)).2
      (vars ≠ [] → (∀ v ∈ vars, IsName v) ∧ ReadyWhere cs.head?) ∧
        (∀ v ∈ c.nodeVariables, v ∈ env ∨ rw.GuardsAfter vars v cs.head?) ∧
        ScopesReads binds (env ∪ {v | v ∈ c.nodeVariables ∧ rw.GuardsAfter vars v cs.head?})
          queued' cs
    else ScopesReads binds (stillGuarded env c) queued cs

/-- The clause that the rewriter leaves after a MATCH. -/
def whereAfter (vars : List Text) (next : Option CypherClause) : CypherClause :=
  match next with
  | none => rw.newWhere vars
  | some w =>
    if w.kind = .whereClause then
      { w with text := WorkspaceScope.prependToWhere (rw.combined vars) w.text }
    else rw.newWhere vars

variable {rw}

theorem head?_withPredicate (vars : List Text) (cs : List CypherClause) :
    (rw.withPredicate vars cs).head? = some (rw.whereAfter vars cs.head?) := by
  cases cs with
  | nil => rfl
  | cons w cs =>
    unfold withPredicate whereAfter
    show head? (ite _ _ _) = some (ite _ _ _)
    split_ifs
    · rfl
    · rfl

theorem head?_scopePass (binds : Text → Bool) (queued : List Text) (cs : List CypherClause) :
    (rw.scopePass binds queued cs).head? = cs.head? := by
  cases cs with
  | nil => rfl
  | cons c cs =>
    rw [scopePass]
    by_cases hc : c.isMatch
    · rw [if_pos hc]
      show head? (ite _ _ _) = _
      split_ifs
      · rfl
      · rfl
    · rw [if_neg hc]
      rfl

theorem stillGuarded_of_not_with {c : CypherClause} (hc : c.kind ≠ .withClause) (env : Set Text) :
    stillGuarded env c = env := by
  have hcarries : ∀ v, c.carries v = true := by
    intro v
    unfold CypherClause.carries
    rw [bne_iff_ne.2 hc, Bool.true_or]
  ext v
  simp only [stillGuarded, Set.mem_ofPred_eq, hcarries, and_true]

/-- A clause that is neither MATCH nor WITH changes nothing. -/
theorem covered_cons_iff {c : CypherClause} (hmatch : c.isMatch = false)
    (hwith : c.kind ≠ .withClause) (env : Set Text) (cs : List CypherClause) :
    rw.Covered env (c :: cs) ↔ rw.Covered env cs := by
  rw [Covered, if_neg (by rw [hmatch]; nofun), stillGuarded_of_not_with hwith]

theorem covered_withPredicate_iff (vars : List Text) (env : Set Text) (cs : List CypherClause) :
    rw.Covered env (rw.withPredicate vars cs) ↔ rw.Covered env cs := by
  have hwhere : ∀ {w : CypherClause}, w.kind = .whereClause →
      w.isMatch = false ∧ w.kind ≠ .withClause := by
    intro w hw
    unfold CypherClause.isMatch
    rw [hw]
    decide
  have hnew := hwhere (w := rw.newWhere vars) rfl
  cases cs with
  | nil => exact covered_cons_iff hnew.1 hnew.2 env []
  | cons w cs =>
    rw [withPredicate]
    by_cases hw : w.kind = .whereClause
    · have hnext : ∀ text, rw.Covered env ({ w with text := text } :: cs) ↔ rw.Covered env cs :=
        fun text =>
          have h := hwhere (w := { w with text := text }) hw
          covered_cons_iff h.1 h.2 env cs
      rw [if_pos hw, hnext]
      exact (hnext w.text).symm
    · rw [if_neg hw, covered_cons_iff hnew.1 hnew.2]

theorem planVars_spec {binds : Text → Bool} {queued vars planned queued' : List Text}
    (h : planVars binds queued vars = (planned, queued')) :
    (∀ v ∈ planned, v ∈ vars ∧ v ∉ queued) ∧ (∀ v, v ∈ queued' ↔ v ∈ queued ∨ v ∈ vars) := by
  induction vars generalizing queued planned queued' with
  | nil =>
    cases h
    exact ⟨fun v hv => absurd hv not_mem_nil, fun v => by simp⟩
  | cons w ws ih =>
    unfold planVars at h
    by_cases hw : w ∈ queued
    · rw [if_pos hw] at h
      obtain ⟨hplanned, hqueued⟩ := ih h
      refine ⟨fun v hv => ⟨mem_cons_of_mem w (hplanned v hv).1, (hplanned v hv).2⟩, ?_⟩
      intro v
      rw [hqueued, mem_cons]
      constructor
      · intro hv
        exact hv.imp_right .inr
      · intro hv
        rcases hv with hv | rfl | hv
        · exact .inl hv
        · exact .inl hw
        · exact .inr hv
    · rw [if_neg hw] at h
      obtain ⟨planned₀, queued₀, hplan⟩ :
          ∃ planned₀ queued₀, planVars binds (w :: queued) ws = (planned₀, queued₀) :=
        ⟨_, _, rfl⟩
      rw [hplan] at h
      obtain ⟨rfl, rfl⟩ := Prod.mk.inj h
      obtain ⟨hplanned, hqueued⟩ := ih hplan
      have hrest : ∀ v ∈ planned₀, v ∈ w :: ws ∧ v ∉ queued := fun v hv =>
        ⟨mem_cons_of_mem w (hplanned v hv).1, fun hq => (hplanned v hv).2 (mem_cons_of_mem w hq)⟩
      refine ⟨?_, ?_⟩
      · intro v hv
        split_ifs at hv
        · exact hrest v hv
        · rcases mem_cons.1 hv with rfl | hv
          · exact ⟨mem_cons_self, hw⟩
          · exact hrest v hv
      · intro v
        rw [hqueued, mem_cons, mem_cons]
        tauto

/-! ## What the injected clause guards -/

theorem guardAtom_leaf (v : Text) : Tree.leaf (nameLexeme v) ∈ rw.guardAtom v :=
  mem_cons_self

theorem isName_of_guards {v : Text} {next : Option CypherClause} (h : rw.Guards v next) :
    IsName v := by
  obtain ⟨w, -, -, r, hread, -, hmem⟩ := h
  exact isName_of_readWhere hread (mem_of_mem_conjuncts hmem (guardAtom_leaf v))

theorem trimEnd_combined (hrw : rw.IsConfig) {vars : List Text} (hne : vars ≠ []) :
    trimEnd (rw.combined vars) = rw.combined vars ∧ rw.combined vars ≠ [] := by
  have hparam : trimEnd ('$' :: rw.paramName) = '$' :: rw.paramName := by
    rw [trimEnd, rdropWhile_eq_self_iff]
    intro hcons hlast
    rcases mem_cons.1 (getLast_mem hcons) with h | h
    · rw [h] at hlast
      cases hlast
    · have hrest := hrw.paramName _ h
      rw [not_isIdentRest_of_blank hlast] at hrest
      cases hrest
  have hend : ∃ pre, rw.combined vars = pre ++ '$' :: rw.paramName := by
    induction vars with
    | nil => exact absurd rfl hne
    | cons v vs ih =>
      have hguard : rw.guard v =
          (v ++ '.' :: rw.property ++ " = ".toList) ++ '$' :: rw.paramName := by
        simp [guard, guardText]
      cases vs with
      | nil =>
        refine ⟨v ++ '.' :: rw.property ++ " = ".toList, ?_⟩
        rw [← hguard]
        simp [combined, intercalate]
      | cons w vs =>
        obtain ⟨pre, hpre⟩ := ih (cons_ne_nil w vs)
        refine ⟨rw.guard v ++ " AND ".toList ++ pre, ?_⟩
        rw [combined_cons_cons, hpre]
        simp only [append_assoc]
  obtain ⟨pre, hpre⟩ := hend
  rw [hpre]
  refine ⟨?_, append_ne_nil_of_right_ne_nil _ (cons_ne_nil _ _)⟩
  rw [trimEnd_append (by rw [hparam]; exact cons_ne_nil _ _), hparam]

/-- A new WHERE guards exactly the variables it is for. -/
theorem guards_newWhere_iff (hrw : rw.IsConfig) {vars : List Text} (hne : vars ≠ [])
    (hvars : ∀ v ∈ vars, IsName v) (v : Text) :
    rw.Guards v (some (rw.newWhere vars)) ↔ v ∈ vars := by
  have hconj := injected_combined hrw hne hvars
  obtain ⟨hend, hne'⟩ := trimEnd_combined hrw hne
  have hread : readWhere (rw.newWhere vars).text = some ⟨rw.guardConj vars, []⟩ :=
    readWhere_alone hconj hend hne'
  have hmem : rw.guardAtom v ∈ conjuncts (rw.guardConj vars) ↔ v ∈ vars := by
    rw [conjuncts_guardConj rw hne, mem_map]
    constructor
    · intro h
      obtain ⟨w, hw, heq⟩ := h
      rwa [← rw.guardAtom_injective heq]
    · intro h
      exact ⟨v, h, rfl⟩
  constructor
  · intro h
    obtain ⟨w, hw, -, r, hr, -, hguard⟩ := h
    obtain rfl := Option.some.inj hw
    obtain rfl := Option.some.inj (hread.symm.trans hr)
    exact hmem.1 hguard
  · intro h
    exact ⟨_, rfl, rfl, _, hread, hconj.isConjunction, hmem.2 h⟩

theorem readWhere_prepend {condition : Text} {conj : List Tree}
    (hconj : InjectedPredicate condition conj) (text : Text) :
    readWhere (WorkspaceScope.prependToWhere condition text) =
      (readBody (afterKeyword text)).map (WhereReading.under conj) := by
  rw [WorkspaceScope.prependToWhere_eq,
    readWhere_splice (isWhitespace_lead text) hconj, readBody_trimStart]

/-- After the injection a WHERE that is ready guards the variables injected for
and those whose guard it had. -/
theorem guards_whereAfter_iff (hrw : rw.IsConfig) {vars : List Text} (hne : vars ≠ [])
    (hvars : ∀ v ∈ vars, IsName v) {next : Option CypherClause} (hready : ReadyWhere next)
    (v : Text) :
    rw.Guards v (some (rw.whereAfter vars next)) ↔ v ∈ vars ∨ rw.BodyGuards v next := by
  have hnone : (∀ w, next = some w → w.kind ≠ .whereClause) → ¬rw.BodyGuards v next := by
    intro h hbody
    obtain ⟨w, hw, hkind, -⟩ := hbody
    exact h w hw hkind
  cases next with
  | none =>
    have hbody := hnone fun w hw => by cases hw
    rw [whereAfter, guards_newWhere_iff hrw hne hvars]
    tauto
  | some w =>
    by_cases hw : w.kind = .whereClause
    · have hconj := injected_combined hrw hne hvars
      obtain ⟨r, hr, hrconj⟩ := hready w rfl hw
      have hread := readWhere_prepend hconj w.text
      rw [hr, Option.map_some] at hread
      have hmem : rw.guardAtom v ∈ conjuncts (r.under (rw.guardConj vars)).body ↔
          v ∈ vars ∨ rw.guardAtom v ∈ conjuncts r.body := by
        unfold WhereReading.under
        rw [conjuncts_append_and, mem_append, conjuncts_guardConj rw hne, mem_map]
        refine or_congr_left ⟨?_, fun h => ⟨v, h, rfl⟩⟩
        intro h
        obtain ⟨u, hu, heq⟩ := h
        rwa [← rw.guardAtom_injective heq]
      simp only [whereAfter, hw, if_true]
      constructor
      · intro h
        obtain ⟨u, hu, -, r', hr', -, hguard⟩ := h
        obtain rfl := Option.some.inj hu
        obtain rfl := Option.some.inj (hread.symm.trans hr')
        exact (hmem.1 hguard).imp_right fun h => ⟨w, rfl, hw, r, hr, h⟩
      · intro h
        refine ⟨_, rfl, rfl, _, hread, (WhereReading.isConjunction_under_iff hconj r).2 hrconj,
          hmem.2 (h.imp_right ?_)⟩
        intro h
        obtain ⟨u, hu, -, r', hr', hguard⟩ := h
        obtain rfl := Option.some.inj hu
        obtain rfl := Option.some.inj (hr.symm.trans hr')
        exact hguard
    · have hbody := hnone fun u hu => by
        obtain rfl := Option.some.inj hu
        exact hw
      rw [whereAfter, if_neg hw, guards_newWhere_iff hrw hne hvars]
      tauto

/-- Where the injected variables end up guarded, the injection had a place. -/
theorem ready_of_guards (hrw : rw.IsConfig) {vars : List Text} (hne : vars ≠ [])
    {next : Option CypherClause} (h : ∀ v ∈ vars, rw.Guards v (some (rw.whereAfter vars next))) :
    (∀ v ∈ vars, IsName v) ∧ ReadyWhere next := by
  have hvars : ∀ v ∈ vars, IsName v := fun v hv => isName_of_guards (h v hv)
  refine ⟨hvars, ?_⟩
  intro w hw hkind
  subst hw
  obtain ⟨v, hv⟩ := exists_mem_of_ne_nil vars hne
  obtain ⟨u, hu, -, r, hr, hrconj, -⟩ := h v hv
  obtain rfl := Option.some.inj hu
  have hconj := injected_combined hrw hne hvars
  simp only [whereAfter, hkind, if_true] at hr
  rw [readWhere_prepend hconj] at hr
  obtain ⟨r', hr', rfl⟩ := Option.map_eq_some_iff.1 hr
  exact ⟨r', hr', (WhereReading.isConjunction_under_iff hconj r').1 hrconj⟩

/-- After the read path every node variable is guarded exactly when the statement
before was one that the rewriter scopes. -/
theorem covered_scopePass_iff (hrw : rw.IsConfig) (binds : Text → Bool) {env : Set Text}
    {queued : List Text} (henv : ∀ v ∈ env, v ∈ queued) (cs : List CypherClause) :
    rw.Covered env (rw.scopePass binds queued cs) ↔ rw.ScopesReads binds env queued cs := by
  induction cs generalizing env queued with
  | nil => exact Iff.rfl
  | cons c cs ih =>
    rw [scopePass, ScopesReads]
    by_cases hc : c.isMatch
    · rw [if_pos hc, if_pos hc]
      obtain ⟨hplanned, hqueued⟩ := @planVars_spec binds queued
        (boundNodeVariables c) (planVars binds queued (boundNodeVariables c)).1
        (planVars binds queued (boundNodeVariables c)).2 rfl
      generalize (planVars binds queued (boundNodeVariables c)).1 = vars at hplanned ⊢
      generalize (planVars binds queued (boundNodeVariables c)).2 = queued' at hqueued ⊢
      have henv' : ∀ p : Text → Prop, ∀ v ∈ env ∪ {v | v ∈ c.nodeVariables ∧ p v},
          v ∈ queued' := by
        intro p v hv
        rw [hqueued]
        rcases hv with hv | hv
        · exact .inl (henv v hv)
        · exact .inr ((mem_bound_iff c v).2 hv.1)
      by_cases hvars : vars = []
      · subst hvars
        show rw.Covered env (c :: rw.scopePass binds queued' cs) ↔ _
        have hafter : ∀ v next, rw.GuardsAfter [] v next = rw.Guards v next :=
          fun _ _ => if_pos rfl
        rw [Covered, if_pos hc, head?_scopePass, ih (henv' _)]
        simp only [hafter, ne_eq, not_true_eq_false, false_imp_iff, true_and]
      · have hempty : vars.isEmpty = false := by rwa [← Bool.not_eq_true, List.isEmpty_iff]
        have hafter : ∀ v next, rw.GuardsAfter vars v next = (v ∈ vars ∨ rw.BodyGuards v next) :=
          fun _ _ => if_neg (by rw [hempty]; nofun)
        simp only [hempty, Bool.false_eq_true, if_false, hafter]
        rw [Covered, if_pos hc, head?_withPredicate, head?_scopePass, covered_withPredicate_iff]
        constructor
        · intro h
          obtain ⟨hguards, hrest⟩ := h
          -- a variable that gets injected is not guarded before
          have hready := @ready_of_guards rw hrw vars hvars cs.head? fun v hv =>
            (hguards v ((mem_bound_iff c v).1 (hplanned v hv).1)).resolve_left
              fun hmem => (hplanned v hv).2 (henv v hmem)
          have hiff := guards_whereAfter_iff hrw hvars hready.1 hready.2
          simp only [hiff] at hguards hrest
          exact ⟨fun _ => hready, hguards, (ih (henv' _)).1 hrest⟩
        · intro h
          obtain ⟨hready, hguards, hrest⟩ := h
          have hiff := guards_whereAfter_iff hrw hvars (hready hvars).1 (hready hvars).2
          simp only [hiff]
          exact ⟨hguards, (ih (henv' _)).2 hrest⟩
    · rw [if_neg hc, if_neg hc, Covered, if_neg hc]
      exact ih fun v hv => henv v hv.1

end WorkspaceScopeRewriter

end Ontosyx.Cypher
