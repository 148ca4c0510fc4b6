import Ontosyx.Cypher.WorkspaceScope

/-!
# Guards among the conjuncts of a WHERE

An expression without `OR` and `XOR` outside brackets is a list of conjuncts.
The joined guards that the workspace scope injects have one conjunct for each
variable, and a conjunct that starts with a name shows that the text lexes to that
name.

## Main results

* `isName_of_readWhere` — a name among the leaves of a clause is one.
* `isConjunction_under_iff` — a predicate in front keeps a conjunction one.
* `injected_combined` — joined guards are a predicate.
-/

namespace Ontosyx.Cypher

open List Ontosyx.Core Option Lib.Precedence Tree

/-- The conjuncts of an expression without `OR` and `XOR`. -/
def conjuncts (ts : List Tree) : List (List Tree) :=
  (segments (·.isKeyword "AND") ts).1 :: (segments (·.isKeyword "AND") ts).2

theorem conjuncts_append_and (xs ys : List Tree) :
    conjuncts (xs ++ .leaf andLexeme :: ys) = conjuncts xs ++ conjuncts ys := by
  unfold conjuncts
  rw [segments_append_cons (fun t => isKeyword "AND" t) xs (a := .leaf andLexeme) rfl ys]
  rfl

theorem mem_of_mem_segments {p : Tree → Bool} {ts seg : List Tree} {t : Tree}
    (hseg : seg ∈ (segments p ts).1 :: (segments p ts).2) (ht : t ∈ seg) : t ∈ ts := by
  induction ts generalizing seg with
  | nil =>
    obtain rfl := mem_singleton.1 hseg
    cases ht
  | cons x xs ih =>
    unfold segments at hseg
    cases hx : p x with
    | true =>
      simp only [hx, if_true] at hseg
      rcases mem_cons.1 hseg with rfl | hseg
      · cases ht
      · exact mem_cons_of_mem x (ih hseg ht)
    | false =>
      simp only [hx, Bool.false_eq_true, if_false] at hseg
      rcases mem_cons.1 hseg with rfl | hseg
      · rcases mem_cons.1 ht with rfl | ht
        · exact mem_cons_self
        · exact mem_cons_of_mem x (ih mem_cons_self ht)
      · exact mem_cons_of_mem x (ih (mem_cons_of_mem _ hseg) ht)

theorem mem_of_mem_conjuncts {ts seg : List Tree} {t : Tree} (hseg : seg ∈ conjuncts ts)
    (ht : t ∈ seg) : t ∈ ts :=
  mem_of_mem_segments hseg ht

/-! ## Leaves come from lexemes -/

/-- The leaves that a state holds outside finished groups. -/
def TreeState.openTrees (σ : TreeState) : List Tree := σ.done ++ σ.stack.flatMap (·.2)

theorem TreeState.mem_openTrees_step {σ τ : TreeState} {l m : Lexeme} (h : σ.step l = some τ)
    (hm : leaf m ∈ τ.openTrees) : leaf m ∈ σ.openTrees ∨ m = l := by
  obtain ⟨stack, done⟩ := σ
  unfold TreeState.step at h
  by_cases hopen : (closerOf l).isSome
  · rw [if_pos hopen] at h
    obtain rfl := Option.some.inj h
    exact .inl hm
  · rw [if_neg hopen] at h
    cases hclose : asCloser l with
    | none =>
      rw [hclose] at h
      obtain rfl := Option.some.inj h
      rcases mem_cons.1 hm with hm | hm
      · exact .inr (leaf.inj hm)
      · exact .inl hm
    | some closer =>
      rw [hclose] at h
      cases stack with
      | nil => cases h
      | cons f stack =>
        simp only [ite_none_right_eq_some] at h
        obtain ⟨-, h⟩ := h
        obtain rfl := Option.some.inj h
        rcases mem_cons.1 hm with hm | hm
        · cases hm
        · refine .inl (mem_append_right _ ?_)
          rw [flatMap_cons]
          exact hm

theorem TreeState.mem_openTrees_foldlM {ls : List Lexeme} {σ τ : TreeState}
    (h : ls.foldlM TreeState.step σ = some τ) {m : Lexeme} (hm : leaf m ∈ τ.openTrees) :
    leaf m ∈ σ.openTrees ∨ m ∈ ls := by
  induction ls generalizing σ with
  | nil =>
    obtain rfl := Option.some.inj h
    exact .inl hm
  | cons l ls ih =>
    rw [foldlM_cons] at h
    obtain ⟨σ', hstep, hfold⟩ := bind_eq_some_iff.1 h
    rcases ih hfold with hm | hm
    · rcases TreeState.mem_openTrees_step hstep hm with hm | rfl
      · exact .inl hm
      · exact .inr mem_cons_self
    · exact .inr (mem_cons_of_mem l hm)

theorem mem_of_leaf_mem_trees {ls : List Lexeme} {ts : List Tree} (h : trees ls = some ts)
    {m : Lexeme} (hm : leaf m ∈ ts) : m ∈ ls := by
  obtain ⟨σ, hσ, hdone⟩ := bind_eq_some_iff.1 h
  by_cases hstack : σ.stack = []
  · rw [if_pos hstack] at hdone
    obtain rfl := Option.some.inj hdone
    have hopen : leaf m ∈ σ.openTrees :=
      mem_append_left _ (mem_reverse.1 hm)
    rcases TreeState.mem_openTrees_foldlM hσ hopen with h | h
    · cases h
    · exact h
  · rw [if_neg hstack] at hdone
    cases hdone

/-- A name among the leaves of a clause is one. -/
theorem isName_of_readWhere {text : Text} {r : WhereReading} (h : readWhere text = some r)
    {w : Text} (hw : leaf (nameLexeme w) ∈ r.body) : IsName w := by
  obtain ⟨lexemes, hlexemes, h⟩ := bind_eq_some_iff.1 h
  cases lexemes with
  | nil => cases h
  | cons l ls =>
    simp only [ite_none_right_eq_some, map_eq_some_iff] at h
    obtain ⟨-, ts, hts, rfl⟩ := h
    have hmem : leaf (nameLexeme w) ∈ ts := takeWhile_prefix _ |>.mem hw
    exact isName_of_mem_lex hlexemes (mem_cons_of_mem l (mem_of_leaf_mem_trees hts hmem))

/-- A well-formed expression without `OR` and `XOR` outside brackets. -/
structure WhereReading.IsConjunction (r : WhereReading) : Prop where
  valued : ∀ u, (exprValue u r.body).isSome
  chain : ∀ t ∈ r.body, t.IsChainLink

/-- A predicate in front keeps what an expression is. -/
theorem WhereReading.isConjunction_under_iff {condition : Text} {conj : List Tree}
    (hconj : InjectedPredicate condition conj) (r : WhereReading) :
    (r.under conj).IsConjunction ↔ r.IsConjunction := by
  have hvalue : (∀ t ∈ (r.under conj).body, t.IsChainLink) → (∀ t ∈ r.body, t.IsChainLink) →
      ∀ u, (exprValue u (r.under conj).body).isSome ↔ (exprValue u r.body).isSome := by
    intro hout hbody u
    obtain ⟨c, hc⟩ := isSome_iff_exists.1 (hconj.valued u)
    rw [exprValue_of_chain hout, exprValue_of_chain hbody]
    unfold WhereReading.under
    rw [items_append, items, andValue_append_and operator (operandValue u) _ rfl, hc,
      bind_some, isSome_map]
  constructor
  · intro h
    have hbody : ∀ t ∈ r.body, t.IsChainLink :=
      fun t ht => h.chain t (mem_append_right _ (mem_cons_of_mem _ ht))
    exact ⟨fun u => (hvalue h.chain hbody u).1 (h.valued u), hbody⟩
  · intro h
    have hout : ∀ t ∈ (r.under conj).body, t.IsChainLink := by
      intro t ht
      rcases mem_append.1 ht with ht | ht
      · exact hconj.chain t ht
      · rcases mem_cons.1 ht with rfl | ht
        · exact ⟨rfl, rfl⟩
        · exact h.chain t ht
    exact ⟨fun u => (hvalue hout h.chain u).2 (h.valued u), hout⟩

theorem InjectedPredicate.isConjunction {condition : Text} {conj : List Tree}
    (hconj : InjectedPredicate condition conj) : (⟨conj, []⟩ : WhereReading).IsConjunction where
  valued u := by
    rw [exprValue_of_chain hconj.chain]
    exact hconj.valued u
  chain := hconj.chain

theorem readWhere_alone {condition : Text} {conj : List Tree}
    (hconj : InjectedPredicate condition conj) (hend : trimEnd condition = condition)
    (hne : condition ≠ []) : readWhere (" WHERE ".toList ++ condition) = some ⟨conj, []⟩ := by
  obtain ⟨ms, hms, htms⟩ := hconj.reads
  have hwhere : LexesTo whereKeyword [⟨.keyword, whereKeyword⟩] :=
    lexesTo_word ⟨'W', "HERE".toList, rfl, by decide, by decide⟩
  have hlex : lex (trimEnd (" WHERE ".toList ++ condition)) =
      some (⟨.keyword, whereKeyword⟩ :: ms) := by
    have htext : " WHERE ".toList ++ condition = [' '] ++ (whereKeyword ++ ' ' :: condition) := by
      simp [whereKeyword]
    rw [trimEnd_append (by rwa [hend]), hend, htext, lex_append_blanks (by decide),
      (hwhere.append_blank hms).lex_eq]
    rfl
  have hsplit : splitTail conj = ⟨conj, []⟩ := by
    have h : splitTail (conj ++ []) = _ := splitTail_append hconj.noTail
    rw [append_nil] at h
    rw [h]
    show (⟨conj ++ [], []⟩ : WhereReading) = _
    rw [append_nil]
  unfold readWhere
  rw [hlex]
  show Option.map splitTail (trees ms) = _
  rw [htms, map_some, hsplit]

namespace WorkspaceScopeRewriter

variable (rw : WorkspaceScopeRewriter)

/-! ## Joined guards -/

def guardAtom (v : Text) : List Tree := guardTrees v rw.property rw.paramName

theorem guardAtom_injective {v w : Text} (h : rw.guardAtom v = rw.guardAtom w) : v = w := by
  have hleaf := (List.cons.inj h).1
  exact (Lexeme.mk.inj (leaf.inj hleaf)).2

def guardConj : List Text → List Tree
  | [] => []
  | [v] => rw.guardAtom v
  | v :: w :: vs => rw.guardAtom v ++ .leaf andLexeme :: guardConj (w :: vs)

theorem combined_cons_cons (v w : Text) (vs : List Text) :
    rw.combined (v :: w :: vs) = rw.guard v ++ " AND ".toList ++ rw.combined (w :: vs) := by
  simp [combined, intercalate]

theorem conjuncts_guardConj {vars : List Text} (hne : vars ≠ []) :
    conjuncts (rw.guardConj vars) = vars.map rw.guardAtom := by
  induction vars with
  | nil => exact absurd rfl hne
  | cons v vs ih =>
    cases vs with
    | nil => rfl
    | cons w vs =>
      rw [guardConj, conjuncts_append_and, ih (cons_ne_nil w vs)]
      rfl

/-- The configuration of the rewriter: a name and the rest of a parameter. -/
structure IsConfig : Prop where
  property : IsName rw.property
  paramName : ∀ c ∈ rw.paramName, isIdentRest c = true

def registered : WorkspaceScopeRewriter := ⟨"_workspace_id".toList, "_ws_id".toList⟩

theorem isConfig_registered : registered.IsConfig where
  property := ⟨⟨'_', "workspace_id".toList, rfl, by decide, by decide⟩, by decide⟩
  paramName := by decide

variable {rw}

theorem injected_combined (hrw : rw.IsConfig) {vars : List Text} (hne : vars ≠ [])
    (hvars : ∀ v ∈ vars, IsName v) : InjectedPredicate (rw.combined vars) (rw.guardConj vars) := by
  induction vars with
  | nil => exact absurd rfl hne
  | cons v vs ih =>
    have hv : InjectedPredicate (rw.guard v) (rw.guardAtom v) :=
      injectedPredicate_guard (hvars v mem_cons_self) hrw.property hrw.paramName
    cases vs with
    | nil => simpa [combined, intercalate, guardConj] using hv
    | cons w vs =>
      have hvs := ih (cons_ne_nil w vs) fun x hx => hvars x (mem_cons_of_mem v hx)
      rw [combined_cons_cons]
      exact hv.and hvs

end WorkspaceScopeRewriter

end Ontosyx.Cypher
