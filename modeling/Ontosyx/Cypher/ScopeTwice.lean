import Ontosyx.Cypher.ReadCoverage
import Ontosyx.Cypher.WriteScope

/-!
# The workspace scope, applied twice

The rewriter recognizes what it has injected by its text, so a second application changes nothing
where the first one has gone through with its injections: every node variable of a MATCH has its
guard in some text, and every CREATE and MERGE the property of its first node in a text behind it.

The read path always does.  On the write path a SET that a round inserts moves the clauses behind
it away from the indices that the later rounds have for them.

## Main results

* `holds_injectReadScope` — the read path leaves every guard behind.
* `rewrite_rewrite_of_inTurn` — the second application does nothing.
-/

namespace Ontosyx.Cypher

open List Ontosyx.Core

/-- `CypherAst::render`. -/
def CypherAst.render (ast : CypherAst) : Text :=
  ast.statements.zipIdx.flatMap fun s =>
    s.1.clauses.flatMap (·.text) ++
      match ast.unions[s.2]? with
      | some .distinct => " UNION ".toList
      | some .all => " UNION ALL ".toList
      | none => []

/-! ## What splicing keeps of a text -/

/-- A text without white space. -/
def Unbroken (v : Text) : Prop := ∀ c ∈ v, isWhitespace c = false

/-- A property of `v`, with what comes after it. -/
def accessText (v q : Text) : Text := v ++ '.' :: q

variable {cs : List CypherClause} {c : CypherClause} {queued : List Text} {binds : Text → Bool}
  {vars : List Text} {pre ys xs : List CypherClause} {t : Text} {s : CypherClause}

section

variable {v : Text} (hv : Unbroken v) (q : Text)

include hv

/-- The variable and the point have no blank in them. -/
theorem unbroken_point : ∀ c ∈ v ++ ['.'], isWhitespace c = false := by
  intro c hc
  rcases mem_append.1 hc with hc | hc
  · exact hv c hc
  · obtain rfl := mem_singleton.1 hc
    decide

omit hv in
theorem point_prefix_accessText : v ++ ['.'] <+: accessText v q := by
  refine ⟨q, ?_⟩
  rw [accessText, append_assoc]
  rfl

/-- An access does not start in leading white space. -/
theorem infix_trimStart (h : accessText v q <:+: t) : accessText v q <:+: trimStart t := by
  induction t with
  | nil => exact h
  | cons c t ih =>
    rw [trimStart, dropWhile_cons]
    split
    · rename_i hc
      refine ih ((infix_cons_iff.1 h).resolve_left fun hprefix => ?_)
      have hstart := (point_prefix_accessText q).trans hprefix
      have hmem : c ∈ v ++ ['.'] := by
        obtain ⟨d, m, hm⟩ := exists_cons_of_ne_nil
          (append_ne_nil_of_right_ne_nil v (cons_ne_nil '.' []))
        rw [hm] at hstart
        rw [hm, (cons_prefix_cons.1 hstart).1]
        exact mem_cons_self
      rw [unbroken_point hv c hmem] at hc
      cases hc
    · exact h

theorem infix_of_keyword {kw rest : Text} (hkw : '.' ∉ kw) (hrest : BlankNext rest)
    (h : accessText v q <:+: kw ++ rest) : accessText v q <:+: rest := by
  induction kw with
  | nil => exact h
  | cons c kw ih =>
    refine ih (fun hmem => hkw (mem_cons_of_mem c hmem))
      ((infix_cons_iff.1 h).resolve_left fun hprefix => ?_)
    have hstart : v ++ ['.'] <+: (c :: kw) ++ rest :=
      (point_prefix_accessText q).trans hprefix
    have hpoint : '.' ∈ v ++ ['.'] := mem_append_right _ (mem_singleton_self _)
    rcases prefix_or_prefix_of_prefix hstart (prefix_append (c :: kw) rest) with
      hinside | houtside
    · exact hkw (hinside.subset hpoint)
    · obtain ⟨z, hz⟩ := houtside
      cases z with
      | nil =>
        rw [append_nil] at hz
        exact hkw (hz ▸ hpoint)
      | cons d z =>
        rw [← hz, prefix_append_right_inj] at hstart
        obtain ⟨r, rfl⟩ := hstart
        have hblank := hrest d rfl
        have hmem : d ∈ v ++ ['.'] := hz ▸ mem_append_right _ mem_cons_self
        rw [unbroken_point hv d hmem] at hblank
        cases hblank

/-- What a rewriter leaves of a text behind the keyword has every access of the text. -/
theorem infix_of_strip {kw rest : Text} (hkw : '.' ∉ kw)
    (hstrip : stripLeadingKeyword (trimStart t) kw = some rest) (h : accessText v q <:+: t) :
    accessText v q <:+: trimStart rest := by
  obtain ⟨w, hw, hupper, hblank⟩ := stripKeyword_iff.1 hstrip
  have hpoint : '.' ∉ w := fun hmem => hkw (hupper ▸ mem_map_of_mem hmem)
  refine infix_trimStart hv q (infix_of_keyword hv q hpoint hblank ?_)
  rw [← hw]
  exact infix_trimStart hv q h

theorem infix_prepend (condition : Text) (h : accessText v q <:+: t) :
    accessText v q <:+: WorkspaceScope.prependToWhere condition t := by
  rw [WorkspaceScope.prependToWhere, splitLeadingWhitespace]
  dsimp only
  cases hstrip : stripLeadingKeyword (t.dropWhile isWhitespace) whereKeyword with
  | none => exact (infix_trimStart hv q h).trans (suffix_append _ _).isInfix
  | some rest =>
    exact (infix_of_strip hv q (by decide) hstrip h).trans (suffix_append _ _).isInfix

theorem infix_prependToSet (assignment : Text) (h : accessText v q <:+: t) :
    accessText v q <:+: prependToSet assignment t := by
  rw [prependToSet, splitLeadingWhitespace]
  dsimp only
  cases hstrip : stripLeadingKeyword (t.dropWhile isWhitespace) setKeyword with
  | none => exact (infix_trimStart hv q h).trans (suffix_append _ _).isInfix
  | some rest =>
    exact (infix_of_strip hv q (by decide) hstrip h).trans (suffix_append _ _).isInfix

end

namespace WorkspaceScopeRewriter

variable {rw : WorkspaceScopeRewriter}

/-! ## The read path -/

def Holds (n : Text) (cs : List CypherClause) : Prop := ∃ c ∈ cs, n <:+: c.text

/-- No node variable of the clauses has white space in its name. -/
def UnbrokenNames (cs : List CypherClause) : Prop :=
  ∀ c ∈ cs, ∀ v ∈ c.nodeVariables, Unbroken v

theorem guard_eq_accessText (v : Text) :
    rw.guard v = accessText v (rw.property ++ " = $".toList ++ rw.paramName) := by
  simp [guard, guardText, accessText]

theorem infix_combined {v : Text} (hv : v ∈ vars) : rw.guard v <:+: rw.combined vars := by
  induction vars with
  | nil => cases hv
  | cons w vs ih =>
    cases vs with
    | nil =>
      obtain rfl := mem_singleton.1 hv
      simp [combined, intercalate]
    | cons x vs =>
      rw [combined_cons_cons]
      rcases mem_cons.1 hv with rfl | hv
      · rw [append_assoc]
        exact (prefix_append _ _).isInfix
      · exact (ih hv).trans (suffix_append _ _).isInfix

theorem infix_where (vars : List Text) {v : Text} (hv : v ∈ vars) (t : Text) :
    rw.guard v <:+: WorkspaceScope.prependToWhere (rw.combined vars) t := by
  have hcombined : rw.guard v <:+: rw.combined vars := infix_combined hv
  rw [WorkspaceScope.prependToWhere_eq]
  unfold splice
  refine hcombined.trans ⟨leadWhitespace t ++ "WHERE ".toList,
    " AND ".toList ++ trimStart (afterKeyword t), ?_⟩
  simp only [append_assoc]

theorem holds_cons {n : Text} : Holds n (c :: cs) ↔ n <:+: c.text ∨ Holds n cs := by
  unfold Holds
  simp

/-- The WHERE after a MATCH keeps what it has, and gets the guards. -/
theorem holds_withPredicate {v q : Text} (hv : Unbroken v) (vars : List Text)
    (h : Holds (accessText v q) cs) : Holds (accessText v q) (rw.withPredicate vars cs) := by
  cases cs with
  | nil => exact absurd h (by simp [Holds])
  | cons w cs =>
    rw [withPredicate]
    split
    · rw [holds_cons] at h ⊢
      exact h.imp_left (infix_prepend hv q _)
    · exact holds_cons.2 (.inr h)

theorem holds_guard_withPredicate {v : Text} (hv : v ∈ vars) (cs : List CypherClause) :
    Holds (rw.guard v) (rw.withPredicate vars cs) := by
  have hnew : rw.guard v <:+: (rw.newWhere vars).text :=
    (infix_combined hv).trans (suffix_append _ _).isInfix
  cases cs with
  | nil => exact ⟨_, mem_singleton_self _, hnew⟩
  | cons w cs =>
    rw [withPredicate]
    split
    · exact holds_cons.2 (.inl (infix_where vars hv w.text))
    · exact holds_cons.2 (.inl hnew)

/-- The WHERE after a MATCH is no MATCH itself. -/
theorem mem_of_mem_withPredicate (hc : c ∈ rw.withPredicate vars cs)
    (hkind : c.kind ≠ .whereClause) : c ∈ cs := by
  cases cs with
  | nil =>
    obtain rfl := mem_singleton.1 hc
    exact absurd rfl hkind
  | cons w cs =>
    rw [withPredicate] at hc
    split at hc
    · rename_i hw
      rcases mem_cons.1 hc with rfl | hc
      · exact absurd hw hkind
      · exact mem_cons_of_mem w hc
    · rcases mem_cons.1 hc with rfl | hc
      · exact absurd rfl hkind
      · exact hc

theorem unbrokenNames_cons :
    UnbrokenNames (c :: cs) ↔ (∀ v ∈ c.nodeVariables, Unbroken v) ∧ UnbrokenNames cs :=
  forall_mem_cons

theorem unbrokenNames_withPredicate (h : UnbrokenNames cs) :
    UnbrokenNames (rw.withPredicate vars cs) := by
  cases cs with
  | nil => exact unbrokenNames_cons.2 ⟨nofun, nofun⟩
  | cons w cs =>
    rw [withPredicate]
    split
    · obtain ⟨hw, hcs⟩ := unbrokenNames_cons.1 h
      exact unbrokenNames_cons.2 ⟨hw, hcs⟩
    · exact unbrokenNames_cons.2 ⟨nofun, h⟩

theorem mem_planVars {v : Text} (hv : v ∈ vars) :
    v ∈ queued ∨ binds v ∨ v ∈ (planVars binds queued vars).1 := by
  induction vars generalizing queued with
  | nil => cases hv
  | cons w ws ih =>
    unfold planVars
    by_cases hw : w ∈ queued
    · rw [if_pos hw]
      rcases mem_cons.1 hv with rfl | hv
      · exact .inl hw
      · exact ih hv
    · rw [if_neg hw]
      show v ∈ queued ∨ binds v ∨ v ∈ (if binds w then _ else w :: _)
      rcases mem_cons.1 hv with rfl | hv
      · cases hbinds : binds v with
        | true => exact .inr (.inl rfl)
        | false => exact .inr (.inr mem_cons_self)
      · rcases @ih (w :: queued) hv with hqueued | hbinds | hplanned
        · rcases mem_cons.1 hqueued with rfl | hqueued
          · cases hbinds : binds v with
            | true => exact .inr (.inl rfl)
            | false => exact .inr (.inr mem_cons_self)
          · exact .inl hqueued
        · exact .inr (.inl hbinds)
        · refine .inr (.inr ?_)
          split
          · exact hplanned
          · exact mem_cons_of_mem _ hplanned

/-- The read path keeps what the texts have. -/
theorem holds_scopePass {v q : Text} (hv : Unbroken v) (binds : Text → Bool)
    (h : Holds (accessText v q) cs) : Holds (accessText v q) (rw.scopePass binds queued cs) := by
  induction cs generalizing queued with
  | nil => exact h
  | cons c cs ih =>
    rw [holds_cons] at h
    rw [scopePass]
    dsimp only
    split
    · split
      · exact holds_cons.2 (h.imp_right ih)
      · exact holds_cons.2 (h.imp_right fun h => holds_withPredicate hv _ (ih h))
    · exact holds_cons.2 (h.imp_right ih)

/-- After the read path the guard of a variable that a MATCH binds is in some text, unless the
variable was found bound before. -/
theorem holds_guard_scopePass (hc : c ∈ cs) (hmatch : c.isMatch) {v : Text}
    (hmem : v ∈ c.nodeVariables) (hv : Unbroken v) :
    v ∈ queued ∨ binds v ∨ Holds (rw.guard v) (rw.scopePass binds queued cs) := by
  induction cs generalizing queued with
  | nil => cases hc
  | cons d cs ih =>
    rw [scopePass]
    dsimp only
    by_cases hd : d.isMatch
    · rw [if_pos hd]
      have hhere : v ∈ boundNodeVariables d → v ∈ queued ∨ binds v ∨
          Holds (rw.guard v) (if (planVars binds queued (boundNodeVariables d)).1.isEmpty then
            d :: rw.scopePass binds (planVars binds queued (boundNodeVariables d)).2 cs
          else d :: rw.withPredicate (planVars binds queued (boundNodeVariables d)).1
            (rw.scopePass binds (planVars binds queued (boundNodeVariables d)).2 cs)) := by
        intro hbound
        refine (mem_planVars hbound).imp_right fun h => h.imp_right fun hplanned => ?_
        rw [if_neg (by rw [List.isEmpty_iff]; exact ne_nil_of_mem hplanned)]
        exact holds_cons.2 (.inr (holds_guard_withPredicate hplanned _))
      rcases mem_cons.1 hc with rfl | hc
      · exact hhere ((mem_bound_iff c v).2 hmem)
      · rcases @ih (planVars binds queued (boundNodeVariables d)).2 hc with
          hqueued | hbinds | hholds
        · rcases ((@planVars_spec binds queued _ _ _ rfl).2 v).1 hqueued with
            hqueued | hbound
          · exact .inl hqueued
          · exact hhere hbound
        · exact .inr (.inl hbinds)
        · refine .inr (.inr ?_)
          split
          · exact holds_cons.2 (.inr hholds)
          · rw [guard_eq_accessText] at hholds ⊢
            exact holds_cons.2 (.inr (holds_withPredicate hv _ hholds))
    · rw [if_neg hd]
      rcases mem_cons.1 hc with rfl | hc
      · exact absurd hmatch hd
      · exact (ih hc).imp_right fun h => h.imp_right fun h => holds_cons.2 (.inr h)

theorem mem_of_mem_scopePass (hc : c ∈ rw.scopePass binds queued cs)
    (hkind : c.kind ≠ .whereClause) : c ∈ cs := by
  induction cs generalizing queued with
  | nil => exact hc
  | cons d cs ih =>
    rw [scopePass] at hc
    dsimp only at hc
    split at hc
    · split at hc
      · exact mem_cons.2 ((mem_cons.1 hc).imp_right ih)
      · exact mem_cons.2 ((mem_cons.1 hc).imp_right fun h =>
          ih (mem_of_mem_withPredicate h hkind))
    · exact mem_cons.2 ((mem_cons.1 hc).imp_right ih)

theorem unbrokenNames_scopePass (h : UnbrokenNames cs) :
    UnbrokenNames (rw.scopePass binds queued cs) := by
  induction cs generalizing queued with
  | nil => exact h
  | cons d cs ih =>
    obtain ⟨hd, hcs⟩ := unbrokenNames_cons.1 h
    rw [scopePass]
    dsimp only
    split
    · split
      · exact unbrokenNames_cons.2 ⟨hd, ih hcs⟩
      · exact unbrokenNames_cons.2 ⟨hd, unbrokenNames_withPredicate (ih hcs)⟩
    · exact unbrokenNames_cons.2 ⟨hd, ih hcs⟩

theorem planVars_of_binds (h : ∀ v ∈ vars, binds v) : (planVars binds queued vars).1 = [] := by
  induction vars generalizing queued with
  | nil => rfl
  | cons w ws ih =>
    obtain ⟨hw, hws⟩ := forall_mem_cons.1 h
    unfold planVars
    split
    · exact ih hws
    · exact ih hws

/-- Where every variable is bound already, the read path changes nothing. -/
theorem scopePass_of_binds (h : ∀ c ∈ cs, c.isMatch → ∀ v ∈ c.nodeVariables, binds v) :
    rw.scopePass binds queued cs = cs := by
  induction cs generalizing queued with
  | nil => rfl
  | cons c cs ih =>
    obtain ⟨hc, hcs⟩ := forall_mem_cons.1 h
    rw [scopePass]
    dsimp only
    split
    · rename_i hmatch
      rw [planVars_of_binds fun v hv => hc hmatch v ((mem_bound_iff c v).1 hv),
        ih hcs]
      rfl
    · rw [ih hcs]

/-- A second read path changes nothing where every guard is in some text. -/
theorem injectReadScope_of_holds
    (h : ∀ c ∈ cs, c.isMatch → ∀ v ∈ c.nodeVariables, Holds (rw.guard v) cs) :
    rw.injectReadScope cs = cs := by
  rw [injectReadScope_eq]
  refine scopePass_of_binds fun c hc hmatch v hv => ?_
  obtain ⟨d, hd, hn⟩ := h c hc hmatch v hv
  exact any_eq_true.2 ⟨d, hd, decide_eq_true hn⟩

theorem ne_where_of_isMatch (hc : c.isMatch) : c.kind ≠ .whereClause := by
  intro hkind
  rw [CypherClause.isMatch, hkind] at hc
  cases hc

/-- After the read path every guard is in some text. -/
theorem holds_injectReadScope (hnames : UnbrokenNames cs) :
    ∀ c ∈ rw.injectReadScope cs, c.isMatch → ∀ v ∈ c.nodeVariables,
      Holds (rw.guard v) (rw.injectReadScope cs) := by
  rw [injectReadScope_eq]
  intro c hc hmatch v hv
  have hmem := mem_of_mem_scopePass hc (ne_where_of_isMatch hmatch)
  have hunbroken := hnames c hmem v hv
  have hpass := @holds_guard_scopePass cs c [] (rw.statementBindsSystemParamFor cs) rw hmem hmatch
    v hv hunbroken
  rcases hpass with hqueued | hbinds | hholds
  · cases hqueued
  · obtain ⟨d, hd, hn⟩ := any_eq_true.1 hbinds
    rw [guard_eq_accessText] at hn ⊢
    exact holds_scopePass hunbroken _ ⟨d, hd, of_decide_eq_true hn⟩
  · exact hholds

/-! ## The write path -/

/-- The clauses start with a CREATE or MERGE whose first node has its property in no text. -/
def Needs (rw : WorkspaceScopeRewriter) (cs : List CypherClause) : Prop :=
  ∃ c v, cs.head? = some c ∧ c.isCreate ∧ (boundNodeVariables c).head? = some v ∧
    ¬ cs.any fun d => rw.clauseBindsWorkspaceFor d v

/-- Behind a CREATE or MERGE for which a round inserts a SET, no other is without its property. -/
def InTurn (rw : WorkspaceScopeRewriter) (cs : List CypherClause) : Prop :=
  ∀ i j, i < j → rw.Needs (cs.drop i) → (findImmediateFollowingSet cs i).isNone →
    ¬ rw.Needs (cs.drop j)

theorem any_binds_iff {v : Text} :
    (cs.any fun d => rw.clauseBindsWorkspaceFor d v) ↔ Holds (accessText v rw.property) cs := by
  rw [any_eq_true]
  exact exists_congr fun c => and_congr_right fun _ => decide_eq_true_iff

theorem holds_append {n : Text} : Holds n (xs ++ ys) ↔ Holds n xs ∨ Holds n ys := by
  unfold Holds
  simp [or_and_right, exists_or]

/-- What a round leaves in the texts behind the clause at its index. -/
structure Grows (xs ys : List CypherClause) : Prop where
  holds : ∀ v q, Unbroken v → Holds (accessText v q) xs → Holds (accessText v q) ys
  names : UnbrokenNames xs → UnbrokenNames ys

theorem grows_prependToSet (a : Text) (s : CypherClause) (cs : List CypherClause) :
    Grows (s :: cs) ({ s with text := prependToSet a s.text } :: cs) where
  holds v q hv h := by
    rw [holds_cons] at h ⊢
    exact h.imp_left (infix_prependToSet hv q a)
  names h := by
    obtain ⟨hs, hcs⟩ := unbrokenNames_cons.1 h
    exact unbrokenNames_cons.2 ⟨hs, hcs⟩

theorem grows_newSet (v : Text) (cs : List CypherClause) : Grows cs (rw.newSet v :: cs) where
  holds _ _ _ h := holds_cons.2 (.inr h)
  names h := unbrokenNames_cons.2 ⟨nofun, h⟩

theorem Grows.append (h : Grows xs ys) (pre : List CypherClause) :
    Grows (pre ++ xs) (pre ++ ys) where
  holds v q hv hx := by
    rw [holds_append] at hx ⊢
    exact hx.imp_right (h.holds v q hv)
  names hx := by
    intro c hc
    rcases mem_append.1 hc with hc | hc
    · exact hx c (mem_append_left _ hc)
    · exact h.names (fun d hd => hx d (mem_append_right _ hd)) c hc

/-- A clause that is without its property in the new texts was so before. -/
theorem Grows.needs (h : Grows xs ys) (hnames : UnbrokenNames (pre ++ c :: xs))
    (hneeds : rw.Needs (pre ++ c :: ys)) : rw.Needs (pre ++ c :: xs) := by
  obtain ⟨d, v, hd, hcreate, hv, hfree⟩ := hneeds
  have hhead : (pre ++ c :: xs).head? = some d := by
    cases pre with
    | nil => exact hd
    | cons e pre => exact hd
  refine ⟨d, v, hhead, hcreate, hv, fun hbound => hfree ?_⟩
  have hmem : v ∈ d.nodeVariables :=
    (mem_bound_iff d v).1 (mem_of_mem_head? hv)
  have hunbroken := hnames d (mem_of_mem_head? hhead) v hmem
  have hgrows := h.append (pre ++ [c])
  rw [append_assoc, append_assoc] at hgrows
  exact any_binds_iff.2 (hgrows.holds v _ hunbroken (any_binds_iff.1 hbound))

theorem not_needs_of_set (hs : s.kind = .set) (cs : List CypherClause) : ¬ rw.Needs (s :: cs) := by
  rintro ⟨c, v, hc, hcreate, -⟩
  obtain rfl := Option.some.inj hc
  rw [CypherClause.isCreate, hs] at hcreate
  cases hcreate

/-- Behind an assignment to its property, a clause is not without it. -/
theorem not_needs_of_assigned {pre : Text} {v : Text} {post : List CypherClause}
    (hv : (boundNodeVariables c).head? = some v) (hs : s.text = pre ++ rw.guard v ++ t) :
    ¬ rw.Needs (c :: s :: post) := by
  rintro ⟨d, w, hd, -, hw, hfree⟩
  obtain rfl : c = d := Option.some.inj hd
  obtain rfl : v = w := Option.some.inj (hv.symm.trans hw)
  refine hfree (any_binds_iff.2 (holds_cons.2 (.inr (holds_cons.2 (.inl ?_)))))
  refine ⟨pre, " = $".toList ++ rw.paramName ++ t, ?_⟩
  rw [hs]
  simp [guard, guardText, accessText]

theorem drop_append_cons_le {i : Nat} (hi : i ≤ pre.length) (xs : List CypherClause) :
    (pre ++ xs).drop i = pre.drop i ++ xs :=
  drop_append_of_le_length hi

theorem drop_append_cons_gt {i : Nat} (hi : pre.length < i) (c : CypherClause)
    (xs : List CypherClause) : (pre ++ c :: xs).drop i = xs.drop (i - pre.length - 1) := by
  obtain ⟨k, rfl⟩ : ∃ k, i = pre.length + (k + 1) := ⟨i - pre.length - 1, by omega⟩
  rw [drop_length_add_append, drop_succ_cons]
  congr 1
  omega

variable {pre post : List CypherClause} {c : CypherClause} {v : Text}

/-- A round that changes the SET behind a clause leaves no other without its property. -/
theorem needs_of_prepend (hs : s.kind = .set) (hnames : UnbrokenNames (pre ++ c :: s :: post))
    {i : Nat}
    (h : rw.Needs ((pre ++ c :: { s with text := prependToSet (rw.guard v) s.text } :: post).drop
      i)) : rw.Needs ((pre ++ c :: s :: post).drop i) := by
  rcases Nat.lt_or_ge pre.length i with hi | hi
  · rw [drop_append_cons_gt hi] at h ⊢
    cases hk : i - pre.length - 1 with
    | zero =>
      rw [hk] at h
      exact absurd h (not_needs_of_set
        (s := { s with text := prependToSet (rw.guard v) s.text }) hs post)
    | succ k =>
      rw [hk] at h
      exact h
  · rw [drop_append_cons_le hi] at h ⊢
    refine (grows_prependToSet (rw.guard v) s post).needs (fun d hd => ?_) h
    rw [← drop_append_cons_le hi] at hd
    exact hnames d (mem_of_mem_drop hd)

/-- A round that inserts a SET moves the clauses behind it on, and leaves no other without its
property. -/
theorem needs_of_insert (hnames : UnbrokenNames (pre ++ c :: post)) {i : Nat}
    (h : rw.Needs ((pre ++ c :: rw.newSet v :: post).drop i)) :
    i ≤ pre.length ∧ rw.Needs ((pre ++ c :: post).drop i) ∨
      pre.length < i - 1 ∧ rw.Needs ((pre ++ c :: post).drop (i - 1)) := by
  rcases Nat.lt_or_ge pre.length i with hi | hi
  · right
    rw [drop_append_cons_gt hi] at h
    cases hk : i - pre.length - 1 with
    | zero =>
      rw [hk] at h
      exact absurd h (not_needs_of_set (s := rw.newSet v) rfl post)
    | succ k =>
      rw [hk] at h
      have hlt : pre.length < i - 1 := by omega
      have hindex : i - 1 - pre.length - 1 = k := by omega
      rw [drop_append_cons_gt hlt, hindex]
      exact ⟨hlt, h⟩
  · left
    rw [drop_append_cons_le hi] at h ⊢
    refine ⟨hi, (grows_newSet v post).needs (fun d hd => ?_) h⟩
    rw [← drop_append_cons_le hi] at hd
    exact hnames d (mem_of_mem_drop hd)

theorem exists_prependToSet_eq (a t : Text) : ∃ x y, prependToSet a t = x ++ a ++ y := by
  unfold prependToSet splitLeadingWhitespace
  dsimp only
  split
  · exact ⟨_, _, append_assoc _ _ _⟩
  · exact ⟨_, _, append_assoc _ _ _⟩

/-- What a round does, told by the clauses that are without their property. -/
inductive Round (rw : WorkspaceScopeRewriter) (cs : List CypherClause) (idx : Nat) :
    List CypherClause → Prop
  /-- Nothing is left to do. -/
  | skip (hdone : ¬ rw.Needs (cs.drop idx)) : Round rw cs idx cs
  /-- The SET behind the clause is changed. -/
  | prepend {ds : List CypherClause} (hkinds : ds.map (·.kind) = cs.map (·.kind))
      (hdone : ¬ rw.Needs (ds.drop idx))
      (hkept : ∀ i, rw.Needs (ds.drop i) → rw.Needs (cs.drop i)) :
      Round rw cs idx ds
  /-- A SET is inserted behind the clause. -/
  | insert {ds : List CypherClause} (hnone : (findImmediateFollowingSet cs idx).isNone)
      (hcreate : (cs[idx]?).any (·.isCreate) → rw.Needs (cs.drop idx))
      (hdone : ¬ rw.Needs (ds.drop idx))
      (hkept : ∀ i, rw.Needs (ds.drop i) → i ≤ idx ∧ rw.Needs (cs.drop i) ∨
        idx < i - 1 ∧ rw.Needs (cs.drop (i - 1))) : Round rw cs idx ds

theorem round_inject (hnames : UnbrokenNames cs) (idx : Nat) :
    Round rw cs idx (rw.injectAssignment cs idx) := by
  rcases rw.inject_cases cs idx with
    ⟨heq, hskip⟩ | ⟨pre, c, post, v, rfl, rfl, hv, hfree, hstep⟩
  · rw [heq]
    refine .skip ?_
    rintro ⟨c, v, hc, -, hv, hfree⟩
    refine hfree (hskip v ?_)
    rw [firstVariableInClauseAt, ← head?_drop, hc]
    exact hv
  · have hget : (pre ++ c :: post)[pre.length]? = some c := by simp
    rcases hstep with ⟨s, post, rfl, hs, heq⟩ | ⟨hset, heq⟩
    · rw [heq]
      refine .prepend ?_ ?_ fun i h => needs_of_prepend hs hnames h
      · simp
      · obtain ⟨x, y, hxy⟩ := exists_prependToSet_eq (rw.guard v) s.text
        rw [drop_left]
        exact not_needs_of_assigned hv hxy
    · rw [heq]
      refine .insert ?_ ?_ ?_ fun i h => needs_of_insert hnames h
      · rw [findImmediateFollowingSet, getElem?_after, if_neg hset]
        rfl
      · rw [hget, drop_left]
        intro hcreate
        exact ⟨c, v, rfl, hcreate, hv, hfree⟩
      · rw [drop_left]
        have htext : (rw.newSet v).text = " SET ".toList ++ rw.guard v ++ [] :=
          (append_nil _).symm
        exact not_needs_of_assigned hv htext

/-- A round keeps what the texts have. -/
theorem grows_inject (cs : List CypherClause) (idx : Nat) :
    Grows cs (rw.injectAssignment cs idx) := by
  rcases rw.inject_cases cs idx with
    ⟨heq, -⟩ | ⟨pre, c, post, v, rfl, rfl, -, -, hstep⟩
  · rw [heq]
    exact ⟨fun _ _ _ h => h, fun h => h⟩
  · rcases hstep with ⟨s, post, rfl, -, heq⟩ | ⟨-, heq⟩
    · have hgrows := (grows_prependToSet (rw.guard v) s post).append (pre ++ [c])
      rw [append_assoc, append_assoc] at hgrows
      rw [heq]
      exact hgrows
    · have hgrows := (@grows_newSet rw v post).append (pre ++ [c])
      rw [append_assoc, append_assoc] at hgrows
      rw [heq]
      exact hgrows

theorem mem_of_mem_inject {idx : Nat} (hc : c ∈ rw.injectAssignment cs idx)
    (hkind : c.kind ≠ .set) : c ∈ cs := by
  rcases rw.inject_cases cs idx with
    ⟨heq, -⟩ | ⟨pre, d, post, v, rfl, rfl, -, -, hstep⟩
  · rwa [heq] at hc
  · rcases hstep with ⟨s, post, rfl, hs, heq⟩ | ⟨-, heq⟩
    · rw [heq] at hc
      simp only [mem_append, mem_cons] at hc ⊢
      rcases hc with hc | rfl | rfl | hc
      · exact .inl hc
      · exact .inr (.inl rfl)
      · exact absurd hs hkind
      · exact .inr (.inr (.inr hc))
    · rw [heq] at hc
      simp only [mem_append, mem_cons] at hc ⊢
      rcases hc with hc | rfl | rfl | hc
      · exact .inl hc
      · exact .inr (.inl rfl)
      · exact absurd rfl hkind
      · exact .inr (.inr hc)

/-! ## All rounds -/

/-- What the rounds keep: no clause is without its property, or those that are have their rounds
to come, in turn. -/
def Pending (rw : WorkspaceScopeRewriter) (cs : List CypherClause) (idxs : List Nat) : Prop :=
  (∀ i, ¬ rw.Needs (cs.drop i)) ∨
    (idxs.Pairwise (· < ·) ∧ (∀ i ∈ idxs, (cs[i]?).any (·.isCreate)) ∧ InTurn rw cs ∧
      ∀ i, rw.Needs (cs.drop i) → i ∈ idxs)

theorem any_isCreate_congr {ds : List CypherClause} (h : ds.map (·.kind) = cs.map (·.kind))
    (i : Nat) : (ds[i]?).any (·.isCreate) = (cs[i]?).any (·.isCreate) := by
  have hi := congrArg (·[i]?) h
  simp only [getElem?_map] at hi
  cases hd : ds[i]? <;> cases hc : cs[i]? <;> rw [hd, hc] at hi <;>
    simp_all [CypherClause.isCreate]

theorem findSet_congr {ds : List CypherClause}
    (h : ds.map (·.kind) = cs.map (·.kind)) (i : Nat) :
    findImmediateFollowingSet ds i = findImmediateFollowingSet cs i := by
  have hi := congrArg (·[i + 1]?) h
  simp only [getElem?_map] at hi
  unfold findImmediateFollowingSet
  cases hd : ds[i + 1]? <;> cases hc : cs[i + 1]? <;> rw [hd, hc] at hi <;> simp_all

theorem pending_inject {idx : Nat} {idxs : List Nat} (hnames : UnbrokenNames cs)
    (h : Pending rw cs (idx :: idxs)) : Pending rw (rw.injectAssignment cs idx) idxs := by
  have hround := @round_inject _ rw hnames idx
  generalize rw.injectAssignment cs idx = ds at hround ⊢
  rcases h with hnone | ⟨hsorted, hcreates, hturn, hneeds⟩
  · left
    cases hround with
    | skip _ => exact hnone
    | prepend _ _ hkept => exact fun i hi => hnone i (hkept i hi)
    | insert _ _ _ hkept =>
      intro i hi
      rcases hkept i hi with ⟨-, hi⟩ | ⟨-, hi⟩
      · exact hnone i hi
      · exact hnone (i - 1) hi
  · obtain ⟨hlater, hsorted⟩ := pairwise_cons.1 hsorted
    cases hround with
    | skip hdone =>
      refine .inr ⟨hsorted, fun i hi => hcreates i (mem_cons_of_mem idx hi), hturn, ?_⟩
      intro i hi
      refine (mem_cons.1 (hneeds i hi)).resolve_left fun hidx => hdone ?_
      rwa [← hidx]
    | prepend hkinds hdone hkept =>
      refine .inr ⟨hsorted, ?_, ?_, ?_⟩
      · intro i hi
        rw [any_isCreate_congr hkinds]
        exact hcreates i (mem_cons_of_mem idx hi)
      · intro i j hij hi hset hj
        rw [findSet_congr hkinds] at hset
        exact hturn i j hij (hkept i hi) hset (hkept j hj)
      · intro i hi
        refine (mem_cons.1 (hneeds i (hkept i hi))).resolve_left fun hidx => hdone ?_
        rwa [← hidx]
    | insert hnone hcreate hdone hkept =>
      left
      have hhere := hcreate (hcreates idx mem_cons_self)
      intro i hi
      rcases hkept i hi with ⟨hle, hneeds'⟩ | ⟨hlt, hneeds'⟩
      · rcases mem_cons.1 (hneeds i hneeds') with rfl | hmem
        · exact hdone hi
        · exact absurd (hlater i hmem) (Nat.not_lt.2 hle)
      · exact hturn idx (i - 1) hlt hhere hnone hneeds'

theorem foldl_inject {idxs : List Nat} (hnames : UnbrokenNames cs)
    (h : Pending rw cs idxs) : (∀ i, ¬ rw.Needs ((idxs.foldl rw.injectAssignment cs).drop i)) ∧
      Grows cs (idxs.foldl rw.injectAssignment cs) ∧
      ∀ c ∈ idxs.foldl rw.injectAssignment cs, c.kind ≠ .set → c ∈ cs := by
  induction idxs generalizing cs with
  | nil =>
    refine ⟨?_, ⟨fun _ _ _ h => h, fun h => h⟩, fun c hc _ => hc⟩
    rcases h with hnone | ⟨-, -, -, hneeds⟩
    · exact hnone
    · exact fun i hi => not_mem_nil (hneeds i hi)
  | cons idx idxs ih =>
    have hgrows := @grows_inject rw cs idx
    obtain ⟨hnone, hrest, hmem⟩ := ih (hgrows.names hnames) (pending_inject hnames h)
    refine ⟨hnone, ⟨fun v q hv hx => hrest.holds v q hv (hgrows.holds v q hv hx),
      fun hx => hrest.names (hgrows.names hx)⟩, fun c hc hkind => ?_⟩
    exact mem_of_mem_inject (hmem c hc hkind) hkind

theorem pending_createIndices (h : InTurn rw cs) : Pending rw cs (createIndices cs) := by
  have hmem : ∀ i, i ∈ createIndices cs ↔ i < cs.length ∧ (cs[i]?).any (·.isCreate) := by
    intro i
    rw [createIndices, List.mem_filter, List.mem_range]
  refine .inr ⟨List.Pairwise.filter _ List.pairwise_lt_range, fun i hi => ((hmem i).1 hi).2, h, ?_⟩
  rintro i ⟨c, v, hc, hcreate, -⟩
  rw [List.head?_drop] at hc
  rw [hmem, hc]
  exact ⟨(List.getElem?_eq_some_iff.1 hc).1, hcreate⟩

/-- Rounds that have nothing to do. -/
theorem injectWriteScope_of_not_needs (h : ∀ i, ¬ rw.Needs (cs.drop i)) :
    rw.injectWriteScope cs = cs := by
  have hround : ∀ i ∈ createIndices cs, rw.injectAssignment cs i = cs := by
    intro i hi
    rw [createIndices, mem_filter] at hi
    rcases rw.inject_cases cs i with
      ⟨heq, -⟩ | ⟨pre, c, post, v, rfl, rfl, hv, hfree, -⟩
    · exact heq
    · have hcreate : c.isCreate := by simpa using hi.2
      refine absurd ?_ (h pre.length)
      rw [drop_left]
      exact ⟨c, v, rfl, hcreate, hv, hfree⟩
  rw [injectWriteScope]
  generalize createIndices cs = idxs at hround
  induction idxs with
  | nil => rfl
  | cons i idxs ih =>
    obtain ⟨hi, hidxs⟩ := forall_mem_cons.1 hround
    rw [foldl_cons, hi]
    exact ih hidxs

/-- Where the rounds come to every clause in turn, the rewriter does not find anything to do in
what it has written. -/
theorem rewriteClauses_rewriteClauses (hnames : UnbrokenNames cs)
    (hturn : InTurn rw (rw.injectReadScope cs)) :
    rw.rewriteClauses (rw.rewriteClauses cs) = rw.rewriteClauses cs := by
  have hreads : UnbrokenNames (rw.injectReadScope cs) := by
    rw [injectReadScope_eq]
    exact unbrokenNames_scopePass hnames
  obtain ⟨hnone, hgrows, hmem⟩ := foldl_inject hreads (pending_createIndices hturn)
  have hread : rw.injectReadScope (rw.rewriteClauses cs) = rw.rewriteClauses cs := by
    refine injectReadScope_of_holds fun c hc hmatch v hv => ?_
    have hset : c.kind ≠ .set := by
      intro hkind
      rw [CypherClause.isMatch, hkind] at hmatch
      cases hmatch
    have hc' := hmem c hc hset
    have hholds := holds_injectReadScope hnames c hc' hmatch v hv
    rw [guard_eq_accessText] at hholds ⊢
    exact hgrows.holds v _ (hreads c hc' v hv) hholds
  show rw.injectWriteScope (rw.injectReadScope (rw.rewriteClauses cs)) = _
  rw [hread]
  exact injectWriteScope_of_not_needs hnone

end WorkspaceScopeRewriter

end Ontosyx.Cypher
