import Ontosyx.Cypher.SoftDelete
import Ontosyx.Cypher.SetClause

/-!
# What the soft delete keeps out of sight

A node variable is filtered at a MATCH when the WHERE of its binding has `v._deleted_at IS NULL`
among its conjuncts: the WHERE after the MATCH itself, or after an earlier MATCH that binds the
variable, as long as every WITH in between carries it on.  A DELETE is replaced when the SET in its
place assigns the tombstone of every variable that it names, and nothing else.

The stamp of a DELETE has `v._deleted_at` in its text, which makes the read path skip `v`.

## Main results

* `filtered_filterPass_iff` — which statements the read path filters.
* `stamped_iff` — which deletes are replaced.
-/

namespace Ontosyx.Cypher.SoftDelete

open List Ontosyx.Core Lib.Precedence
open WorkspaceScopeRewriter (planVars planVars_spec stillGuarded stillGuarded_of_not_with)

/-! ## Joined checks -/

theorem isName_tombstoneProperty : IsName tombstoneProperty :=
  ⟨⟨'_', "deleted_at".toList, rfl, by decide, by decide⟩, by decide⟩

def nullAtom (v : Text) : List Tree := nullCheckTrees v tombstoneProperty

variable {v : Text}

theorem nullAtom_injective {w : Text} (h : nullAtom v = nullAtom w) : v = w :=
  (Lexeme.mk.inj (Tree.leaf.inj (List.cons.inj h).1)).2

theorem nullAtom_leaf (v : Text) : Tree.leaf (nameLexeme v) ∈ nullAtom v := mem_cons_self

def nullConj : List Text → List Tree
  | [] => []
  | [v] => nullAtom v
  | v :: w :: vs => nullAtom v ++ .leaf andLexeme :: nullConj (w :: vs)

theorem combined_cons_cons (v w : Text) (vs : List Text) :
    combined (v :: w :: vs) = nullCheck v ++ " AND ".toList ++ combined (w :: vs) := by
  simp [combined, intercalate]

variable {vars : List Text}

theorem conjuncts_nullConj (hne : vars ≠ []) : conjuncts (nullConj vars) = vars.map nullAtom := by
  induction vars with
  | nil => exact absurd rfl hne
  | cons v vs ih =>
    cases vs with
    | nil => rfl
    | cons w vs =>
      rw [nullConj, conjuncts_append_and, ih (cons_ne_nil w vs)]
      rfl

theorem mem_conjuncts_nullConj (hne : vars ≠ []) (v : Text) :
    nullAtom v ∈ conjuncts (nullConj vars) ↔ v ∈ vars := by
  rw [conjuncts_nullConj hne, mem_map]
  constructor
  · intro h
    obtain ⟨w, hw, heq⟩ := h
    rwa [← nullAtom_injective heq]
  · intro h
    exact ⟨v, h, rfl⟩

theorem injected_combined (hne : vars ≠ []) (hvars : ∀ v ∈ vars, IsName v) :
    InjectedPredicate (combined vars) (nullConj vars) := by
  induction vars with
  | nil => exact absurd rfl hne
  | cons v vs ih =>
    have hv : InjectedPredicate (nullCheck v) (nullAtom v) :=
      injectedPredicate_nullCheck (hvars v mem_cons_self) isName_tombstoneProperty
    cases vs with
    | nil => simpa [combined, intercalate, nullConj] using hv
    | cons w vs =>
      have hvs := ih (cons_ne_nil w vs) fun x hx => hvars x (mem_cons_of_mem v hx)
      rw [combined_cons_cons]
      exact hv.and hvs

theorem combined_eq_append (hne : vars ≠ []) : ∃ pre, combined vars = pre ++ "NULL".toList := by
  induction vars with
  | nil => exact absurd rfl hne
  | cons v vs ih =>
    cases vs with
    | nil =>
      refine ⟨v ++ '.' :: tombstoneProperty ++ " IS ".toList, ?_⟩
      simp [combined, intercalate, nullCheck, nullCheckText]
    | cons w vs =>
      obtain ⟨pre, hpre⟩ := ih (cons_ne_nil w vs)
      refine ⟨nullCheck v ++ " AND ".toList ++ pre, ?_⟩
      rw [combined_cons_cons, hpre]
      simp only [append_assoc]

theorem trimEnd_combined (hne : vars ≠ []) :
    trimEnd (combined vars) = combined vars ∧ combined vars ≠ [] := by
  obtain ⟨pre, hpre⟩ := combined_eq_append hne
  rw [hpre]
  refine ⟨?_, append_ne_nil_of_right_ne_nil _ (by decide)⟩
  rw [trimEnd_append (by decide)]
  rfl

/-! ## Filtered variables -/

/-- The clause is a WHERE with the check among its conjuncts. -/
def Filters (v : Text) (next : Option CypherClause) : Prop :=
  ∃ w, next = some w ∧ w.kind = .whereClause ∧
    ∃ r, readWhere w.text = some r ∧ r.IsConjunction ∧ nullAtom v ∈ conjuncts r.body

/-- Every node variable of every MATCH is filtered, by the WHERE after the MATCH or by that of an
earlier one; `env` has the variables filtered before. -/
def Filtered : Set Text → List CypherClause → Prop
  | _, [] => True
  | env, c :: cs =>
    if c.isMatch then
      (∀ v ∈ c.nodeVariables, v ∈ env ∨ Filters v cs.head?) ∧
        Filtered (env ∪ {v | v ∈ c.nodeVariables ∧ Filters v cs.head?}) cs
    else Filtered (stillGuarded env c) cs

/-- What is behind the keyword of a WHERE is blank or one conjunction. -/
def ReadyWhere (next : Option CypherClause) : Prop :=
  ∀ w, next = some w → w.kind = .whereClause → trimEnd (afterKeyword w.text) = [] ∨
    ∃ r, readBody (afterKeyword w.text) = some r ∧ r.IsConjunction

/-- The check is among the conjuncts of what is behind the keyword. -/
def BodyFilters (v : Text) (next : Option CypherClause) : Prop :=
  ∃ w, next = some w ∧ w.kind = .whereClause ∧ trimEnd (afterKeyword w.text) ≠ [] ∧
    ∃ r, readBody (afterKeyword w.text) = some r ∧ nullAtom v ∈ conjuncts r.body

/-- The WHERE after a MATCH filters the variable once the checks of `vars` are injected. -/
def FiltersAfter (vars : List Text) (v : Text) (next : Option CypherClause) : Prop :=
  if vars.isEmpty then Filters v next else v ∈ vars ∨ BodyFilters v next

/-- The statement before the read path is one that it filters: what it injects has a place, and
every node variable of every MATCH is injected for or filtered already, there or before. -/
def FiltersReads (has : Text → Bool) : Set Text → List Text → List CypherClause → Prop
  | _, _, [] => True
  | env, queued, c :: cs =>
    if c.isMatch then
      let vars := (planVars has queued (boundNodeVariables c)).1
      let queued' := (planVars has queued (boundNodeVariables c)).2
      (vars ≠ [] → (∀ v ∈ vars, IsName v) ∧ ReadyWhere cs.head?) ∧
        (∀ v ∈ c.nodeVariables, v ∈ env ∨ FiltersAfter vars v cs.head?) ∧
        FiltersReads has (env ∪ {v | v ∈ c.nodeVariables ∧ FiltersAfter vars v cs.head?})
          queued' cs
    else FiltersReads has (stillGuarded env c) queued cs

/-- The clause that the read path leaves after a MATCH. -/
def whereAfter (vars : List Text) (next : Option CypherClause) : CypherClause :=
  match next with
  | none => newWhere vars
  | some w =>
    if w.kind = .whereClause then { w with text := prependToWhere (combined vars) w.text }
    else newWhere vars

theorem head?_withPredicate (vars : List Text) (cs : List CypherClause) :
    (withPredicate vars cs).head? = some (whereAfter vars cs.head?) := by
  cases cs with
  | nil => rfl
  | cons w cs =>
    unfold withPredicate whereAfter
    show head? (ite _ _ _) = some (ite _ _ _)
    split_ifs
    · rfl
    · rfl

theorem head?_filterPass (has : Text → Bool) (queued : List Text) (cs : List CypherClause) :
    (filterPass has queued cs).head? = cs.head? := by
  cases cs with
  | nil => rfl
  | cons c cs =>
    rw [filterPass]
    by_cases hc : c.isMatch
    · rw [if_pos hc]
      show head? (ite _ _ _) = _
      split_ifs
      · rfl
      · rfl
    · rw [if_neg hc]
      rfl

theorem filtered_cons_where {w : CypherClause} (hw : w.kind = .whereClause) (env : Set Text)
    (cs : List CypherClause) : Filtered env (w :: cs) ↔ Filtered env cs := by
  have hmatch : ¬ w.isMatch := by
    unfold CypherClause.isMatch
    rw [hw]
    decide
  have hwith : w.kind ≠ .withClause := by
    rw [hw]
    decide
  rw [Filtered, if_neg hmatch, stillGuarded_of_not_with hwith]

theorem filtered_withPredicate_iff (vars : List Text) (env : Set Text) (cs : List CypherClause) :
    Filtered env (withPredicate vars cs) ↔ Filtered env cs := by
  cases cs with
  | nil => exact filtered_cons_where (w := newWhere vars) rfl env []
  | cons w cs =>
    rw [withPredicate]
    by_cases hw : w.kind = .whereClause
    · rw [if_pos hw, filtered_cons_where hw]
      exact filtered_cons_where (w := { w with text := prependToWhere (combined vars) w.text }) hw
        env cs
    · rw [if_neg hw]
      exact filtered_cons_where (w := newWhere vars) rfl env (w :: cs)

/-! ## What the injected clause filters -/

theorem isName_of_filters {next : Option CypherClause} (h : Filters v next) : IsName v := by
  obtain ⟨w, -, -, r, hread, -, hmem⟩ := h
  exact isName_of_readWhere hread (mem_of_mem_conjuncts hmem (nullAtom_leaf v))

/-- A WHERE of joined checks filters exactly the variables that they are for. -/
theorem filters_of_read {w : CypherClause} (hw : w.kind = .whereClause) (hne : vars ≠ [])
    (hvars : ∀ v ∈ vars, IsName v) (hread : readWhere w.text = some ⟨nullConj vars, []⟩)
    (v : Text) : Filters v (some w) ↔ v ∈ vars := by
  constructor
  · intro h
    obtain ⟨u, hu, -, r, hr, -, hcheck⟩ := h
    obtain rfl := Option.some.inj hu
    obtain rfl := Option.some.inj (hread.symm.trans hr)
    exact (mem_conjuncts_nullConj hne v).1 hcheck
  · intro h
    exact ⟨w, rfl, hw, _, hread, (injected_combined hne hvars).isConjunction,
      (mem_conjuncts_nullConj hne v).2 h⟩

section

variable (hne : vars ≠ []) (hvars : ∀ v ∈ vars, IsName v)
include hne hvars

theorem readWhere_newWhere : readWhere (newWhere vars).text = some ⟨nullConj vars, []⟩ :=
  readWhere_alone (injected_combined hne hvars) (trimEnd_combined hne).1
    (trimEnd_combined hne).2

omit hne hvars in
theorem readWhere_append_blanks {lead s : Text} (hlead : ∀ c ∈ lead, isWhitespace c = true)
    (hs : trimEnd s ≠ []) : readWhere (lead ++ s) = readWhere s := by
  unfold readWhere
  rw [trimEnd_append hs, lex_append_blanks hlead]

variable {text : Text}

/-- A WHERE without an expression becomes one of the checks alone. -/
theorem readWhere_prepend_blank (hblank : trimEnd (afterKeyword text) = []) :
    readWhere (prependToWhere (combined vars) text) = some ⟨nullConj vars, []⟩ := by
  obtain ⟨hend, hcombined⟩ := trimEnd_combined hne
  have hbody : (trimChars (afterKeyword text)).isEmpty = true := by
    rw [List.isEmpty_iff]
    exact trimEnd_trimStart_nil_iff.2 hblank
  have htext : prependToWhere (combined vars) text =
      leadWhitespace text ++ ("WHERE ".toList ++ combined vars) := by
    show (if (trimChars (afterKeyword text)).isEmpty then _ else _) = _
    rw [if_pos hbody, ← append_assoc]
    rfl
  have hkeyword : trimEnd ("WHERE ".toList ++ combined vars) ≠ [] := by
    rw [trimEnd_append (by rwa [hend]), hend]
    exact append_ne_nil_of_right_ne_nil _ hcombined
  have hlead := readWhere_append_blanks (isWhitespace_lead text) hkeyword
  have hblanks : readWhere ([' '] ++ ("WHERE ".toList ++ combined vars)) = _ :=
    readWhere_append_blanks (by decide) hkeyword
  rw [htext, hlead, ← hblanks]
  exact readWhere_newWhere hne hvars

/-- What a WHERE with an expression reads as once the checks are injected. -/
theorem readWhere_prepend
    (hbody : trimEnd (afterKeyword text) ≠ []) : readWhere (prependToWhere (combined vars) text) =
      (readBody (afterKeyword text)).map (WhereReading.under (nullConj vars)) := by
  rw [prependToWhere_eq hbody, readWhere_splice (isWhitespace_lead text)
    (injected_combined hne hvars), readBody_trimChars]

/-- After the injection a WHERE that is ready filters the variables injected for and those whose
check it had. -/
theorem filters_whereAfter_iff {next : Option CypherClause} (hready : ReadyWhere next) (v : Text) :
    Filters v (some (whereAfter vars next)) ↔ v ∈ vars ∨ BodyFilters v next := by
  have hnew : (∀ w, next = some w → w.kind = .whereClause → trimEnd (afterKeyword w.text) = []) →
      (Filters v (some (whereAfter vars next)) ↔ v ∈ vars) →
        (Filters v (some (whereAfter vars next)) ↔ v ∈ vars ∨ BodyFilters v next) := by
    intro h hiff
    rw [hiff, or_iff_left]
    rintro ⟨w, hw, hkind, hbody, -⟩
    exact hbody (h w hw hkind)
  cases next with
  | none => exact hnew nofun (filters_of_read rfl hne hvars (readWhere_newWhere hne hvars) v)
  | some w =>
    by_cases hw : w.kind = .whereClause
    · have hafter : whereAfter vars (some w) =
          { w with text := prependToWhere (combined vars) w.text } := if_pos hw
      rcases hready w rfl hw with hblank | ⟨r, hr, hconj⟩
      · refine hnew (fun u hu _ => ?_) ?_
        · obtain rfl := Option.some.inj hu
          exact hblank
        · rw [hafter]
          exact filters_of_read (w := { w with text := prependToWhere (combined vars) w.text })
            hw hne hvars (readWhere_prepend_blank hne hvars hblank) v
      · have hbody : trimEnd (afterKeyword w.text) ≠ [] := by
          intro hblank
          have hnil : readBody (afterKeyword w.text) = some ⟨[], []⟩ := by
            rw [readBody, hblank]
            rfl
          obtain rfl := Option.some.inj (hnil.symm.trans hr)
          have hnone := hconj.valued fun _ => none
          rw [exprValue_nil] at hnone
          cases hnone
        have hread := readWhere_prepend hne hvars hbody
        rw [hr, Option.map_some] at hread
        have hmem : nullAtom v ∈ conjuncts (r.under (nullConj vars)).body ↔
            v ∈ vars ∨ nullAtom v ∈ conjuncts r.body := by
          unfold WhereReading.under
          rw [conjuncts_append_and, mem_append, mem_conjuncts_nullConj hne]
        rw [hafter]
        constructor
        · intro h
          obtain ⟨u, hu, -, r', hr', -, hcheck⟩ := h
          obtain rfl := Option.some.inj hu
          obtain rfl := Option.some.inj (hread.symm.trans hr')
          exact (hmem.1 hcheck).imp_right fun h => ⟨w, rfl, hw, hbody, r, hr, h⟩
        · intro h
          refine ⟨_, rfl, hw, _, hread, (WhereReading.isConjunction_under_iff
            (injected_combined hne hvars) r).2 hconj, hmem.2 (h.imp_right ?_)⟩
          intro h
          obtain ⟨u, hu, -, -, r', hr', hcheck⟩ := h
          obtain rfl := Option.some.inj hu
          obtain rfl := Option.some.inj (hr.symm.trans hr')
          exact hcheck
    · have hafter : whereAfter vars (some w) = newWhere vars := if_neg hw
      refine hnew (fun u hu hkind => ?_) ?_
      · obtain rfl := Option.some.inj hu
        exact absurd hkind hw
      · rw [hafter]
        exact filters_of_read rfl hne hvars (readWhere_newWhere hne hvars) v

end

/-- Where the injected variables end up filtered, the injection had a place. -/
theorem ready_of_filters (hne : vars ≠ []) {next : Option CypherClause}
    (h : ∀ v ∈ vars, Filters v (some (whereAfter vars next))) :
    (∀ v ∈ vars, IsName v) ∧ ReadyWhere next := by
  have hvars : ∀ v ∈ vars, IsName v := fun v hv => isName_of_filters (h v hv)
  refine ⟨hvars, fun w hw hkind => or_iff_not_imp_left.2 fun hbody => ?_⟩
  subst hw
  obtain ⟨v, hv⟩ := exists_mem_of_ne_nil vars hne
  obtain ⟨u, hu, -, r, hr, hconj, -⟩ := h v hv
  obtain rfl := Option.some.inj hu
  simp only [whereAfter, hkind, if_true] at hr
  rw [readWhere_prepend hne hvars hbody] at hr
  obtain ⟨r', hr', rfl⟩ := Option.map_eq_some_iff.1 hr
  exact ⟨r', hr', (WhereReading.isConjunction_under_iff
    (injected_combined hne hvars) r').1 hconj⟩

/-- After the read path every node variable is filtered exactly when the statement before was one
that it filters. -/
theorem filtered_filterPass_iff (has : Text → Bool) {env : Set Text} {queued : List Text}
    (henv : ∀ v ∈ env, v ∈ queued) (cs : List CypherClause) :
    Filtered env (filterPass has queued cs) ↔ FiltersReads has env queued cs := by
  induction cs generalizing env queued with
  | nil => exact Iff.rfl
  | cons c cs ih =>
    rw [filterPass, FiltersReads]
    by_cases hc : c.isMatch
    · rw [if_pos hc, if_pos hc]
      obtain ⟨hplanned, hqueued⟩ := @planVars_spec has queued (boundNodeVariables c) _ _ rfl
      generalize (planVars has queued (boundNodeVariables c)).1 = vars at hplanned ⊢
      generalize (planVars has queued (boundNodeVariables c)).2 = queued' at hqueued ⊢
      have henv' : ∀ p : Text → Prop, ∀ v ∈ env ∪ {v | v ∈ c.nodeVariables ∧ p v},
          v ∈ queued' := by
        intro p v hv
        rw [hqueued]
        rcases hv with hv | hv
        · exact .inl (henv v hv)
        · exact .inr ((mem_bound_iff c v).2 hv.1)
      by_cases hvars : vars = []
      · subst hvars
        have hafter : ∀ v next, FiltersAfter [] v next = Filters v next := fun _ _ => if_pos rfl
        simp only [isEmpty_nil, if_true]
        rw [Filtered, if_pos hc, head?_filterPass, ih (henv' _)]
        simp only [hafter, ne_eq, not_true_eq_false, false_imp_iff, true_and]
      · have hempty : vars.isEmpty = false := by rwa [← Bool.not_eq_true, List.isEmpty_iff]
        have hafter : ∀ v next, FiltersAfter vars v next = (v ∈ vars ∨ BodyFilters v next) :=
          fun _ _ => if_neg (by simp [hempty])
        simp only [hempty, Bool.false_eq_true, if_false, hafter]
        rw [Filtered, if_pos hc, head?_withPredicate, head?_filterPass,
          filtered_withPredicate_iff]
        constructor
        · intro h
          obtain ⟨hfilters, hrest⟩ := h
          -- a variable that gets injected is not filtered before
          have hready := ready_of_filters hvars fun v hv =>
            (hfilters v ((mem_bound_iff c v).1 (hplanned v hv).1)).resolve_left
              fun hmem => (hplanned v hv).2 (henv v hmem)
          have hiff := filters_whereAfter_iff hvars hready.1 hready.2
          simp only [hiff] at hfilters hrest
          exact ⟨fun _ => hready, hfilters, (ih (henv' _)).1 hrest⟩
        · intro h
          obtain ⟨hready, hfilters, hrest⟩ := h
          have hiff := filters_whereAfter_iff hvars (hready hvars).1 (hready hvars).2
          simp only [hiff]
          exact ⟨hfilters, (ih (henv' _)).2 hrest⟩
    · rw [if_neg hc, if_neg hc, Filtered, if_neg hc]
      exact ih fun v hv => henv v hv.1

/-! ## Stamps -/

def stampLexemes (v : Text) : List Lexeme :=
  [nameLexeme v, dot, nameLexeme tombstoneProperty, ⟨.operator, ['=']⟩,
    nameLexeme "timestamp".toList, ⟨.paren, ['(']⟩, ⟨.paren, [')']⟩]

def stampAtom (v : Text) : List Tree :=
  [.leaf (nameLexeme v), .leaf dot, .leaf (nameLexeme tombstoneProperty), .leaf ⟨.operator, ['=']⟩,
    .leaf (nameLexeme "timestamp".toList), .group ['('] []]

theorem trees_stampLexemes (v : Text) : trees (stampLexemes v) = some (stampAtom v) := by
  unfold stampLexemes
  rw [trees_cons_plain ⟨rfl, rfl⟩, trees_cons_plain ⟨rfl, rfl⟩, trees_cons_plain ⟨rfl, rfl⟩,
    trees_cons_plain ⟨rfl, rfl⟩, trees_cons_plain ⟨rfl, rfl⟩]
  rfl

theorem stampAtom_not_comma (v : Text) : ∀ t ∈ stampAtom v, t.isComma = false := by
  unfold stampAtom
  simp only [forall_mem_cons, not_mem_nil, false_imp_iff, implies_true, and_true]
  exact ⟨rfl, rfl, rfl, rfl, rfl, rfl⟩

theorem lex_stamp_append (hv : IsName v) (s : Text) :
    lex (stamp v ++ s) = (lex s).map (stampLexemes v ++ ·) := by
  have hblank : ∀ x : Text, BlankNext (' ' :: x) := by
    intro x c hc
    obtain rfl : ' ' = c := Option.some.inj hc
    rfl
  have hparen : NotIdentNext ('(' :: ')' :: s) := by
    intro c hc
    obtain rfl : '(' = c := Option.some.inj hc
    rfl
  have hopen : lex ('(' :: ')' :: s) = (lex (')' :: s)).map (⟨.paren, ['(']⟩ :: ·) := by
    refine lex_of_scan_not_blank ?_ rfl
    rw [scan_cons]
    rfl
  have hclose : lex (')' :: s) = (lex s).map (⟨.paren, [')']⟩ :: ·) := by
    refine lex_of_scan_not_blank ?_ rfl
    rw [scan_cons]
    rfl
  have htimestamp : IsWord "timestamp".toList :=
    ⟨'t', "imestamp".toList, rfl, by decide, by decide⟩
  have htext : stamp v ++ s = (v ++ '.' :: tombstoneProperty) ++
      ' ' :: (['='] ++ ' ' :: ("timestamp".toList ++ '(' :: ')' :: s)) := by
    simp [stamp]
  have haccess := lexesTo_access hv.word isName_tombstoneProperty.word
  rw [hv.lexeme_eq, isName_tombstoneProperty.lexeme_eq] at haccess
  rw [htext, haccess _ (hblank _), lex_cons_blank (by rfl), lexesTo_equals _ (hblank _),
    lex_cons_blank (by rfl), lex_word htimestamp hparen, hopen, hclose]
  cases lex s with
  | none => rfl
  | some ls => rfl

def stampsLexemes : List Text → List Lexeme
  | [] => []
  | [v] => stampLexemes v
  | v :: w :: vs => stampLexemes v ++ comma :: stampsLexemes (w :: vs)

theorem lex_stamps (hvars : ∀ v ∈ vars, IsName v) :
    lex (", ".toList.intercalate (vars.map stamp)) = some (stampsLexemes vars) := by
  induction vars with
  | nil => rfl
  | cons v vs ih =>
    obtain ⟨hv, hvs⟩ := forall_mem_cons.1 hvars
    cases vs with
    | nil =>
      have hlex := lex_stamp_append hv []
      rw [append_nil] at hlex
      simp only [map_cons, map_nil, intercalate_singleton, stampsLexemes]
      rw [hlex]
      rfl
    | cons w vs =>
      have htext : ", ".toList.intercalate ((v :: w :: vs).map stamp) =
          stamp v ++ ',' :: ' ' :: ", ".toList.intercalate ((w :: vs).map stamp) := by
        simp [intercalate]
      rw [htext, lex_stamp_append hv, lex_comma, lex_cons_blank (by rfl), ih hvs]
      rfl

theorem trees_stampsLexemes (hne : vars ≠ []) :
    (trees (stampsLexemes vars)).map commaParts = some (vars.map stampAtom) := by
  induction vars with
  | nil => exact absurd rfl hne
  | cons v vs ih =>
    cases vs with
    | nil =>
      rw [stampsLexemes, trees_stampLexemes]
      exact congrArg some (commaParts_eq_singleton (stampAtom_not_comma v))
    | cons w vs =>
      obtain ⟨ts, hts, hparts⟩ := Option.map_eq_some_iff.1 (ih (cons_ne_nil w vs))
      rw [stampsLexemes, trees_append_plain (trees_stampLexemes v) ⟨rfl, rfl⟩, hts]
      exact congrArg some
        ((commaParts_append (stampAtom_not_comma v) ts).trans (congrArg _ hparts))

/-- The SET in the place of a DELETE assigns the tombstones of its variables. -/
theorem assignments_stampClause (text : Text) (hne : vars ≠ []) (hvars : ∀ v ∈ vars, IsName v) :
    assignments (stampClause text vars).text = some (vars.map stampAtom) := by
  have hset : IsWord "SET".toList := ⟨'S', "ET".toList, rfl, by decide, by decide⟩
  have hblank : NotIdentNext (' ' :: ", ".toList.intercalate (vars.map stamp)) := by
    intro c hc
    obtain rfl : ' ' = c := Option.some.inj hc
    rfl
  have htext : (stampClause text vars).text = leadWhitespace text ++
      ("SET".toList ++ ' ' :: ", ".toList.intercalate (vars.map stamp)) := by
    simp [stampClause]
  unfold assignments
  rw [htext, lex_append_blanks (isWhitespace_lead text), lex_word hset hblank,
    lex_cons_blank (by rfl), lex_stamps hvars]
  exact trees_stampsLexemes hne

theorem isName_of_assignments {items : List (List Tree)} (h : assignments text = some items)
    (hv : stampAtom v ∈ items) : IsName v := by
  obtain ⟨lexemes, hlexemes, h⟩ := Option.bind_eq_some_iff.1 h
  cases lexemes with
  | nil => cases h
  | cons l ls =>
    simp only [Option.ite_none_right_eq_some, Option.map_eq_some_iff] at h
    obtain ⟨-, ts, hts, rfl⟩ := h
    have hleaf : Tree.leaf (nameLexeme v) ∈ ts := mem_of_mem_segments hv mem_cons_self
    exact isName_of_mem_lex hlexemes (mem_cons_of_mem l (mem_of_leaf_mem_trees hts hleaf))

/-- A DELETE is replaced: in its place there is a SET that assigns the tombstone of each variable
that it names, and nothing else. -/
def Stamped (c : CypherClause) : Prop :=
  ∃ body, deleteBody c.text = some body ∧ ∃ s ∈ rewriteDelete c, s.kind = .set ∧
    assignments s.text = some ((deleteItems body).map fun x => stampAtom (stripBackticks x))

/-- The clause starts with its keyword, and each item between its commas is a name, which may stand
in backticks. -/
def NamesTargets (c : CypherClause) : Prop :=
  ∃ body, deleteBody c.text = some body ∧
    ∀ x ∈ deleteItems body, isIdentifierLike x ∧ IsName (stripBackticks x)

theorem deleteItems_ne_nil (body : Text) : deleteItems body ≠ [] := by
  unfold deleteItems
  rw [ne_eq, map_eq_nil_iff]
  exact splitOn_ne_nil _ _

theorem parseDeleteTargets_eq {body : Text} (h : deleteBody text = some body) :
    parseDeleteTargets text =
      if (deleteItems body).all isIdentifierLike then (deleteItems body).map stripBackticks
      else [] := by
  unfold parseDeleteTargets
  rw [h]

/-- What a DELETE with targets becomes ends in the SET of the stamps. -/
theorem rewriteDelete_of_targets {c : CypherClause} (hc : deletes c)
    (hne : parseDeleteTargets c.text ≠ []) :
    ∃ pre, rewriteDelete c = pre ++ [stampClause c.text (parseDeleteTargets c.text)] ∧
      ∀ d ∈ pre, d.kind ≠ .set := by
  have hempty : (parseDeleteTargets c.text).isEmpty = false := by
    rwa [← Bool.not_eq_true, List.isEmpty_iff]
  unfold rewriteDelete
  rw [if_pos hc]
  simp only [hempty, Bool.false_eq_true, if_false]
  split
  · refine ⟨_, rfl, fun d hd hkind => ?_⟩
    obtain ⟨v, -, hd⟩ := mem_flatMap.1 hd
    unfold detachClauses at hd
    simp only [mem_cons, not_mem_nil, or_false] at hd
    rcases hd with rfl | rfl
    · cases hkind
    · cases hkind
  · exact ⟨[], rfl, nofun⟩

/-- A DELETE is replaced exactly when it names its targets plainly. -/
theorem stamped_iff {c : CypherClause} (hc : deletes c) : Stamped c ↔ NamesTargets c := by
  constructor
  · rintro ⟨body, hbody, s, hs, hset, hassigned⟩
    refine ⟨body, hbody, ?_⟩
    have hne : parseDeleteTargets c.text ≠ [] := by
      intro hnil
      unfold rewriteDelete at hs
      rw [if_pos hc] at hs
      simp only [hnil, isEmpty_nil, if_true, mem_singleton] at hs
      obtain rfl := hs
      unfold deletes at hc
      rw [hset] at hc
      cases hc
    have hall : (deleteItems body).all isIdentifierLike := by
      by_contra hnot
      exact hne ((parseDeleteTargets_eq hbody).trans (if_neg hnot))
    intro x hx
    exact ⟨all_eq_true.1 hall x hx, isName_of_assignments hassigned (mem_map_of_mem hx)⟩
  · rintro ⟨body, hbody, hitems⟩
    have hall : (deleteItems body).all isIdentifierLike :=
      all_eq_true.2 fun x hx => (hitems x hx).1
    have htargets : parseDeleteTargets c.text = (deleteItems body).map stripBackticks :=
      (parseDeleteTargets_eq hbody).trans (if_pos hall)
    have hne : parseDeleteTargets c.text ≠ [] := by
      rw [htargets, ne_eq, map_eq_nil_iff]
      exact deleteItems_ne_nil body
    have hnames : ∀ v ∈ parseDeleteTargets c.text, IsName v := by
      rw [htargets, forall_mem_map]
      exact fun x hx => (hitems x hx).2
    obtain ⟨pre, hpre, -⟩ := rewriteDelete_of_targets hc hne
    refine ⟨body, hbody, stampClause c.text (parseDeleteTargets c.text), ?_, rfl, ?_⟩
    · rw [hpre]
      exact mem_append_right _ (mem_singleton_self _)
    · rw [assignments_stampClause c.text hne hnames, htargets, map_map]
      rfl

/-- The reads of the rewritten query see no tombstone, and its deletes are stamps. -/
structure HidesTombstones (ast : CypherAst) : Prop where
  reads : ∀ s ∈ (rewrite false ast).statements, Filtered ∅ s.clauses
  deletes : ∀ s ∈ ast.statements, ∀ c ∈ s.clauses, deletes c → Stamped c

/-- The clause `MATCH (n)`. -/
def matchNode : CypherClause :=
  { kind := .matchClause, text := "MATCH (n)".toList,
    patterns := [{ elements := [.node { variableName := some "n".toList }] }] }

/-- `MATCH (n) DELETE n`. -/
def matchDelete : CypherAst :=
  { statements := [⟨[matchNode, { kind := .delete, text := " DELETE n".toList }]⟩] }

end Ontosyx.Cypher.SoftDelete
