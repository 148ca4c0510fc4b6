import Ontosyx.Cypher.Reading
import Ontosyx.Cypher.Tiling

/-!
# The levels of a query

A query and the body of each `CALL` subquery in it is a level: a list of trees that falls
into statements at its `UNION`s and into clauses at its clause keywords.  Other than the
parser, a reader of a level does not take a keyword for one where a name stands: after a
point, a colon or `AS`, and `WITH` after `STARTS` or `ENDS`.

## Main results

* `kind_of_mem_clause` — a clause keyword of a statement is the keyword of its clause.
* `mem_of_parseAst` — every lexeme of a query is in a clause, or part of a `UNION`.
-/

namespace Ontosyx.Cypher

open List Prod Or

/-! ## Names -/

def Lexeme.announcesName (l : Lexeme) : Bool :=
  l.isOperator '.' || l.isOperator ':' || l.isKeyword "AS"

/-- The first word of `STARTS WITH` and `ENDS WITH`. -/
def Lexeme.announcesWith (l : Lexeme) : Bool :=
  l.kind == .identifier && (upper l.text == "STARTS".toList || upper l.text == "ENDS".toList)

/-- The lexeme, after `prev`, is no keyword although it looks like one. -/
def isNameAfter (prev : Option Lexeme) (l : Lexeme) : Bool :=
  l.kind == .keyword && (prev.any Lexeme.announcesName ||
    (l.isKeyword "WITH" && prev.any Lexeme.announcesWith))

/-- The lexeme as it is read after `prev`. -/
def Lexeme.named (prev : Option Lexeme) (l : Lexeme) : Lexeme :=
  if isNameAfter prev l then { l with kind := .identifier } else l

def nameLevel : Option Lexeme → List Tree → List Tree
  | _, [] => []
  | prev, .leaf l :: ts => .leaf (l.named prev) :: nameLevel (some (l.named prev)) ts
  | _, .group opener children :: ts => .group opener children :: nameLevel none ts

def levelStatements (ts : List Tree) : List (List (ClauseKind × List Tree)) :=
  statementsOf (nameLevel none ts)

/-- The brackets behind a keyword, those inside of other brackets included.  A pair of
parentheses may stand in between. -/
def bodies (kw : String) (bracket : Text) : Option Lexeme → List Tree → List (List Tree)
  | _, [] => []
  | prev, .leaf l :: ts => bodies kw bracket (some (l.named prev)) ts
  | prev, .group opener children :: ts =>
    (if prev.any (·.isKeyword kw) && opener = bracket then [children] else []) ++
      bodies kw bracket none children ++
        bodies kw bracket (if opener = ['('] then prev else none) ts

/-- The bodies of the `CALL` subqueries. -/
def callBodies (ts : List Tree) : List (List Tree) := bodies "CALL" ['\x7b'] none ts

/-- The bodies of the `FOREACH`s. -/
def foreachBodies (ts : List Tree) : List (List Tree) := bodies "FOREACH" ['('] none ts

/-- The levels of a query: its own, and the bodies of its subqueries. -/
def levels (ts : List Tree) : List (List Tree) := ts :: callBodies ts

def statementTrees (s : List (ClauseKind × List Tree)) : List Tree := s.flatMap (·.2)

/-- A clause does not reach over a `FOREACH`. -/
def ownTrees (ts : List Tree) : List Tree := ts.takeWhile fun t => !t.isKeyword "FOREACH"

/-! ## Clause keywords -/

variable {l : Lexeme}

theorem isKeyword_unique {kw kw' : String} (h : l.isKeyword kw = true)
    (h' : l.isKeyword kw' = true) : kw = kw' :=
  String.toList_inj.1 ((text_of_isKeyword h).symm.trans (text_of_isKeyword h'))

/-- The kind of a clause is that of the entry its words match. -/
theorem classifyHead_eq {first second : Option Lexeme} {head : String × Option String × ClauseKind}
    (hhead : head ∈ clauseHeads) (hfirst : first.any (·.isKeyword head.1) = true)
    (hsecond : (head.2.1.all fun word => second.any (·.isKeyword word)) = true) :
    classifyHead first second = head.2.2 := by
  have hknown : classifyHead first second ≠ .unknown := by
    unfold classifyHead
    cases hfind : clauseHeads.find? fun head => first.any (·.isKeyword head.1) &&
        head.2.1.all fun word => second.any (·.isKeyword word) with
    | none =>
      have hnone := find?_eq_none.1 hfind head hhead
      rw [hfirst, hsecond] at hnone
      exact absurd rfl hnone
    | some found =>
      have hkinds : ∀ head ∈ clauseHeads, head.2.2 ≠ .unknown := by
        decide
      exact hkinds found (mem_of_find?_eq_some hfind)
  rcases mem_of_classifyHead hknown with ⟨found, hfound, hkind, hfirst', -⟩
  rcases exists_of_any hfirst with ⟨l, hl, hkw⟩
  rw [hl] at hfirst'
  have hkeys : ∀ a ∈ clauseHeads, ∀ b ∈ clauseHeads, a.1 = b.1 → a = b := by
    decide
  rw [hkind, hkeys found hfound head hhead (isKeyword_unique hfirst' hkw)]

variable {ts : List Tree}

/-- A tree inside of a body starts no clause. -/
theorem treeBody_mem {t : Tree} (h : t ∈ (treeBody ts).1) :
    ∃ us, isBoundary (flattenAll (t :: us)) = false := by
  induction ts with
  | nil => cases h
  | cons u us ih =>
    unfold treeBody at h
    by_cases hstop : isBoundary (flattenAll (u :: us)) = true
    · rw [if_pos hstop] at h
      cases h
    · rw [if_neg hstop] at h
      rcases mem_cons.1 h with rfl | h
      · exact ⟨us, Bool.eq_false_iff.2 hstop⟩
      · exact ih h

theorem headKind_leaf {head : String × Option String × ClauseKind} (hhead : head ∈ clauseHeads)
    (hl : l.isKeyword head.1 = true) (hone : head.2.1 = none) (ts : List Tree) : headKind
    (flattenAll (.leaf l :: ts)) = head.2.2 := by
  rw [flattenAll_leaf]
  refine classifyHead_eq hhead hl ?_
  rw [hone]
  rfl

theorem long_of_hasTwoWords {t : Tree} {kw : String} (hkw : l.isKeyword kw = true)
    (htwo : (headKind (flattenAll (t :: .leaf l :: ts))).hasTwoWords = true) :
    ∃ long ∈ clauseHeads, long.2.1 = some kw ∧
      headKind (flattenAll (t :: .leaf l :: ts)) = long.2.2 := by
  have hknown : headKind (flattenAll (t :: .leaf l :: ts)) ≠ .unknown := by
    intro hunknown
    rw [hunknown] at htwo
    cases htwo
  rcases mem_of_classifyHead hknown with ⟨long, hlong, hkind, hfirst, hsecond⟩
  have hwords : ∀ head ∈ clauseHeads, head.2.2.hasTwoWords = true → head.2.1.isSome = true := by
    decide
  have htwo' := htwo
  rw [show headKind _ = long.2.2 from hkind] at htwo'
  rcases Option.isSome_iff_exists.1 (hwords long hlong htwo') with ⟨word, hword⟩
  refine ⟨long, hlong, ?_, hkind⟩
  cases t with
  | group opener children =>
    rcases exists_of_any hfirst with ⟨m, hm, hmkw⟩
    rw [flattenAll_group, head?_cons] at hm
    cases hm
    have hkeyword := kind_of_isKeyword hmkw
    cases hkeyword
  | leaf m =>
    rw [hword, flattenAll_leaf, flattenAll_leaf, tail_cons, head?_cons] at hsecond
    rw [hword, isKeyword_unique (show l.isKeyword word = true from hsecond) hkw]

variable {fuel : Nat}

/-- A clause keyword of one word is the keyword of its clause, or the second word of a
longer one. -/
theorem kind_of_mem_clause {c : ClauseKind × List Tree}
    {l : Lexeme} {head : String × Option String × ClauseKind} (hc : c ∈ (treeClauses fuel ts).1)
    (hl : .leaf l ∈ c.2) (hhead : head ∈ clauseHeads) (hkw : l.isKeyword head.1 = true)
    (hone : head.2.1 = none) :
    c.1 = head.2.2 ∨ ∃ long ∈ clauseHeads, long.2.1 = some head.1 ∧ c.1 = long.2.2 := by
  fun_induction treeClauses fuel ts with
  | case1 | case2 | case3 => cases hc
  | case4 fuel t ts hunion kind body clauses ih =>
    rcases mem_cons.1 hc with rfl | hc
    · dsimp only at hl ⊢
      rcases mem_append.1 hl with hl | hl
      · have hsplit : Tree.leaf l = t ∨ (ts.head? = some (.leaf l) ∧
            kind.hasTwoWords = true) := by
          unfold ClauseKind.words at hl
          by_cases htwo : kind.hasTwoWords = true
          · rw [if_pos htwo] at hl
            rcases ts with _ | ⟨u, us⟩
            · exact inl (mem_singleton.1 hl)
            · rw [take_succ_cons, take_succ_cons, take_zero] at hl
              rcases mem_pair.1 hl with hl | hl
              · exact inl hl
              · exact inr ⟨congrArg some hl.symm, htwo⟩
          · rw [if_neg htwo, take_succ_cons, take_zero] at hl
            exact inl (mem_singleton.1 hl)
        rcases hsplit with rfl | ⟨hsecond, htwo⟩
        · exact inl (headKind_leaf hhead hkw hone ts)
        · rcases ts with _ | ⟨u, us⟩
          · cases hsecond
          · cases hsecond
            exact inr (long_of_hasTwoWords hkw htwo)
      · rcases treeBody_mem hl with ⟨us, hus⟩
        unfold isBoundary at hus
        rw [headKind_leaf hhead hkw hone us, Bool.or_eq_false_iff] at hus
        have hkinds : ∀ head ∈ clauseHeads, head.2.2 ≠ .unknown := by
          decide
        exact absurd (hkinds head hhead) (by simpa using hus.2)
    · exact ih hc

theorem kind_of_mem_statement {s : List (ClauseKind × List Tree)} {c : ClauseKind × List Tree}
    {l : Lexeme} {head : String × Option String × ClauseKind} (hs : s ∈ treeStatements fuel ts)
    (hc : c ∈ s) (hl : .leaf l ∈ c.2) (hhead : head ∈ clauseHeads)
    (hkw : l.isKeyword head.1 = true) (hone : head.2.1 = none) :
    c.1 = head.2.2 ∨ ∃ long ∈ clauseHeads, long.2.1 = some head.1 ∧ c.1 = long.2.2 := by
  fun_induction treeStatements fuel ts with
  | case1 => cases hs
  | case2 fuel ts clauses ih =>
    rcases mem_cons.1 hs with rfl | hs
    · exact kind_of_mem_clause hc hl hhead hkw hone
    · split at hs
      · cases hs
      · exact ih hs

theorem head_of_mem_clause {c : ClauseKind × List Tree} (hc : c ∈ (treeClauses fuel ts).1)
    (hknown : c.1 ≠ .unknown) : ∃ head ∈ clauseHeads, c.1 = head.2.2 ∧ ∃ l us, c.2 = .leaf l :: us ∧
      l.isKeyword head.1 = true := by
  fun_induction treeClauses fuel ts with
  | case1 | case2 | case3 => cases hc
  | case4 fuel t ts hunion kind body clauses ih =>
    rcases mem_cons.1 hc with rfl | hc
    · rcases mem_of_classifyHead hknown with ⟨head, hhead, hkind, hfirst, -⟩
      refine ⟨head, hhead, hkind, ?_⟩
      rcases exists_of_any hfirst with ⟨l, hl, hkw⟩
      have hwords : ∃ n, kind.words = n + 1 := by
        unfold ClauseKind.words
        split
        · exact ⟨1, rfl⟩
        · exact ⟨0, rfl⟩
      rcases hwords with ⟨n, hwords⟩
      cases t with
      | leaf m =>
        rw [flattenAll_leaf, head?_cons, Option.some_inj] at hl
        subst hl
        refine ⟨m, ts.take n ++ body.1, ?_, hkw⟩
        rw [hwords, take_succ_cons, cons_append]
      | group opener children =>
        rw [flattenAll_group, head?_cons, Option.some_inj] at hl
        rw [← hl] at hkw
        have hkeyword := kind_of_isKeyword hkw
        cases hkeyword
    · exact ih hc

theorem bracketedAll_of_mem_clause {c : ClauseKind × List Tree} (hts : BracketedAll ts)
    (hc : c ∈ (treeClauses fuel ts).1) : BracketedAll c.2 := by
  fun_induction treeClauses fuel ts with
  | case1 | case2 | case3 => cases hc
  | case4 fuel t ts hunion kind body clauses ih =>
    rw [← take_append_drop kind.words (t :: ts), bracketedAll_append,
      ← treeBody_append ((t :: ts).drop _), bracketedAll_append] at hts
    rcases mem_cons.1 hc with rfl | hc
    · exact bracketedAll_append.2 ⟨hts.1, hts.2.1⟩
    · exact ih hts.2.2 hc

theorem bracketedAll_afterUnion (h : BracketedAll ts) : BracketedAll (afterUnion ts) := by
  rcases ts with _ | ⟨t, _ | ⟨u, ts⟩⟩
  · exact h
  · exact trivial
  · simp only [BracketedAll] at h
    show BracketedAll (if u.isKeyword "ALL" = true then ts else u :: ts)
    split
    · exact h.2.2
    · exact h.2

/-- What a clause of a statement starts with, and that its brackets match. -/
theorem head_of_mem_statement {s : List (ClauseKind × List Tree)} {c : ClauseKind × List Tree}
    (hts : BracketedAll ts) (hs : s ∈ treeStatements fuel ts) (hc : c ∈ s)
    (hknown : c.1 ≠ .unknown) : BracketedAll c.2 ∧ ∃ head ∈ clauseHeads, c.1 = head.2.2 ∧
      ∃ l us, c.2 = .leaf l :: us ∧ l.isKeyword head.1 = true := by
  fun_induction treeStatements fuel ts with
  | case1 => cases hs
  | case2 fuel ts clauses ih =>
    rcases mem_cons.1 hs with rfl | hs
    · exact ⟨bracketedAll_of_mem_clause hts hc, head_of_mem_clause hc hknown⟩
    · split at hs
      · cases hs
      · exact ih (bracketedAll_afterUnion (bracketedAll_treeClauses hts)) hs

variable {tokens rest : List CypherToken} {clauses : List CypherClause}

/-- The statements and `UNION`s make up the tokens. -/
theorem parseStatement_append (h : parseStatement fuel tokens = some (clauses, rest)) :
    clauses.flatMap (·.tokens) ++ rest = tokens := by
  fun_induction parseStatement fuel tokens generalizing clauses with
  | case1 | case2 | case3 =>
    cases h
    rfl
  | case4 fuel tokens hne hunion ih =>
    rcases parseStatement_clause hne h with ⟨-, c, cs, rfl, hspec, hcs⟩
    rw [flatMap_cons, append_assoc, ih _ hcs, hspec.tokens]
    exact clauseTokens_append _

/-- With enough fuel a statement ends at a `UNION` or at the end. -/
theorem parseStatement_rest (hlength : tokens.length ≤ fuel)
    (h : parseStatement fuel tokens = some (clauses, rest)) :
    rest = [] ∨ (peekUnion rest).isSome = true := by
  fun_induction parseStatement fuel tokens generalizing clauses with
  | case1 =>
    cases h
    exact inl (length_eq_zero_iff.1 (Nat.le_zero.1 hlength))
  | case2 =>
    cases h
    exact inl rfl
  | case3 fuel tokens hne hunion =>
    cases h
    exact inr hunion
  | case4 fuel tokens hne hunion ih =>
    rcases parseStatement_clause hne h with ⟨hlt, c, cs, rfl, -, hcs⟩
    exact ih _ (by omega) hcs

/-- The keyword is part of a `UNION`. -/
def Lexeme.isUnionWord (l : Lexeme) : Bool := l.isKeyword "UNION" || l.isKeyword "ALL"

theorem mem_dropUnion {ls : List Lexeme} (hunion : startsUnion ls = true) (hl : l ∈ ls) :
    l.isUnionWord = true ∨ l ∈ dropUnion ls := by
  unfold Lexeme.isUnionWord
  rw [Bool.or_eq_true]
  rcases ls with _ | ⟨m, ls⟩
  · cases hl
  · rcases mem_cons.1 hl with rfl | hl
    · exact inl (inl hunion)
    · unfold dropUnion
      rw [drop_succ_cons, drop_zero]
      rcases ls with _ | ⟨n, ls⟩
      · cases hl
      · by_cases hall : n.isKeyword "ALL" = true
        · rw [head?_cons, Option.any_some, if_pos hall, drop_succ_cons, drop_zero]
          rcases mem_cons.1 hl with rfl | hl
          · exact inl (inr hall)
          · exact inr hl
        · rw [head?_cons, Option.any_some, if_neg hall]
          exact inr hl

/-- Every lexeme is in a clause or part of a `UNION`. -/
theorem mem_of_parseAst : ∀ {tokens : List CypherToken} {ast : CypherAst}
    {l : Lexeme}, tokens.length < fuel → parseAst fuel tokens = some ast → l ∈ lexemesOf tokens →
    l.isUnionWord = true ∨ ∃ s ∈ ast.statements, ∃ c ∈ s.clauses, l ∈ lexemesOf c.tokens := by
  induction fuel with
  | zero =>
    intro tokens ast l hlength
    exact absurd hlength (Nat.not_lt_zero _)
  | succ fuel ih =>
    intro tokens ast l hlength h hl
    rcases parseAst_cases h with ⟨clauses, rest, hclauses, h⟩
    rw [← parseStatement_append hclauses, lexemesOf_append, mem_append] at hl
    have hfirst : l ∈ lexemesOf (clauses.flatMap (·.tokens)) →
        ∃ c ∈ clauses, l ∈ lexemesOf c.tokens := by
      intro hmem
      unfold lexemesOf significant at hmem
      rcases mem_map.1 hmem with ⟨t, ht, rfl⟩
      rcases mem_filter.1 ht with ⟨ht, htrivia⟩
      rcases mem_flatMap.1 ht with ⟨c, hc, ht⟩
      exact ⟨c, hc, mem_map.2 ⟨t, mem_filter.2 ⟨ht, htrivia⟩, rfl⟩⟩
    have hend := parseStatement_rest (Nat.le_refl _) hclauses
    rcases h with ⟨hpeek, rfl⟩ | ⟨kind, others, hpeek, hothers, rfl⟩
    · rw [hpeek] at hend
      rcases hl with hl | hl
      · rcases hfirst hl with ⟨c, hc, hl⟩
        exact inr ⟨_, mem_singleton_self _, c, hc, hl⟩
      · rcases hend with hend | hend
        · rw [hend] at hl
          cases hl
        · cases hend
    · rcases hl with hl | hl
      · rcases hfirst hl with ⟨c, hc, hl⟩
        exact inr ⟨_, mem_cons_self, c, hc, hl⟩
      · have hunion : startsUnion (lexemesOf rest) = true := by
          rw [← isSome_peekUnion, hpeek]
          rfl
        have hne : rest ≠ [] := by
          intro hnil
          rw [hnil] at hl
          cases hl
        have hshort := length_consumeUnion_lt hne
        have hshort' := length_parseStatement_le hclauses
        rcases mem_dropUnion hunion hl with hword | hl
        · exact inl hword
        · rw [← lexemesOf_consumeUnion] at hl
          rcases ih (by omega) hothers hl with hword | ⟨s, hs, c, hc, hl⟩
          · exact inl hword
          · exact inr ⟨s, mem_cons_of_mem _ hs, c, hc, hl⟩

theorem clauseSpec_of_mem_parseStatement {c : CypherClause}
    (h : parseStatement fuel tokens = some (clauses, rest)) (hc : c ∈ clauses) :
    ClauseSpec c.kind c.tokens c := by
  fun_induction parseStatement fuel tokens generalizing clauses with
  | case1 | case2 | case3 =>
    cases h
    cases hc
  | case4 fuel tokens hne hunion ih =>
    rcases parseStatement_clause hne h with ⟨-, d, cs, rfl, hspec, hcs⟩
    rcases mem_cons.1 hc with rfl | hc
    · rw [← hspec.head, ← hspec.tokens] at hspec
      exact hspec
    · exact ih _ hcs hc

theorem clauseSpec_of_mem_parseAst : ∀ {tokens : List CypherToken} {ast : CypherAst}
    {s : CypherStatement} {c : CypherClause}, parseAst fuel tokens = some ast →
    s ∈ ast.statements → c ∈ s.clauses → ClauseSpec c.kind c.tokens c := by
  induction fuel with
  | zero =>
    intro tokens ast s c h hs
    cases h
    cases hs
  | succ fuel ih =>
    intro tokens ast s c h hs hc
    rcases parseAst_cases h with ⟨clauses, rest, hclauses, h⟩
    rcases h with ⟨-, rfl⟩ | ⟨kind, others, -, hothers, rfl⟩
    · rw [mem_singleton.1 hs] at hc
      exact clauseSpec_of_mem_parseStatement hclauses hc
    · rcases mem_cons.1 hs with rfl | hs
      · exact clauseSpec_of_mem_parseStatement hclauses hc
      · exact ih hothers hs hc

/-! ## Plain queries -/

/-- The keyword tokens of the top level are keywords, and its statements start with one. -/
structure Plain (text : Text) (ts : List Tree) : Prop where
  named : nameLevel none ts = ts
  started : WellStarted (ts.length + 1) ts
  blanks : ∀ ls, scan text = some ls → ∀ l ∈ ls, l.isBlank = true → l.isTrivia = true

theorem isBlank_of_isTrivia (h : l.isTrivia = true) : l.isBlank = true := by
  unfold Lexeme.isBlank
  rw [h, Bool.true_or]

/-- The lexemes of the tokens are those of the text that are not trivia. -/
theorem lexemesOf_withSpans (start : Nat) (ls : List Lexeme) :
    lexemesOf (withSpans start ls) = ls.filter fun l => !l.isTrivia := by
  have hmap := map_withSpans start ls
  unfold lexemesOf significant
  rw [← hmap, filter_map, hmap]
  rfl

theorem lexemesOf_eq_lex {text : Text} {tokens : List CypherToken} (hplain : Plain text ts)
    (hreads : Reads text ts) (htokens : tokenize text = some tokens) :
    lexemesOf tokens = flattenAll ts := by
  rcases Option.map_eq_some_iff.1 htokens with ⟨ls, hls, rfl⟩
  have hlex := hreads.lexemes
  unfold lex at hlex
  rw [hls, Option.map_some, Option.some_inj] at hlex
  rw [lexemesOf_withSpans, ← hlex]
  refine filter_congr ?_
  intro l hl
  by_cases hblank : l.isBlank = true
  · rw [hblank, hplain.blanks ls hls l hl hblank]
  · have htrivia : l.isTrivia = false := Bool.eq_false_iff.2 fun h => hblank (isBlank_of_isTrivia h)
    rw [htrivia, Bool.eq_false_iff.2 hblank]

theorem isKeyword_named {prev : Option Lexeme} {kw : String}
    (h : (l.named prev).isKeyword kw = true) : l.isKeyword kw = true := by
  unfold Lexeme.named at h
  by_cases hname : isNameAfter prev l = true
  · rw [if_pos hname, isKeyword_of_kind TokenKind.noConfusion] at h
    cases h
  · rwa [if_neg hname] at h

theorem ownTrees_eq (h : ∀ t ∈ ts, t.isKeyword "FOREACH" = false) : ownTrees ts = ts := by
  unfold ownTrees
  rw [takeWhile_eq_self_iff]
  intro t ht
  rw [h t ht]
  rfl

variable {s : List (ClauseKind × List Tree)}

/-- A clause of trees that is not empty is a clause of the parser, and the other way round. -/
theorem mem_outlines {cs : List CypherClause} (h : outlines cs = s.map treeOutline)
    {kind : ClauseKind} {ls : List Lexeme} (hls : ls ≠ []) :
    (∃ c ∈ cs, c.kind = kind ∧ lexemesOf c.tokens = ls) ↔
      ∃ c ∈ s, c.1 = kind ∧ flattenAll c.2 = ls := by
  have houtline : (∃ c ∈ cs, c.kind = kind ∧ lexemesOf c.tokens = ls) ↔
      (kind, ls) ∈ outlines cs := by
    unfold outlines
    rw [mem_filter, mem_map, isEmpty_eq_false_iff.2 hls]
    constructor
    · rintro ⟨c, hc, rfl, rfl⟩
      exact ⟨⟨c, hc, rfl⟩, rfl⟩
    · rintro ⟨⟨c, hc, heq⟩, -⟩
      exact ⟨c, hc, congrArg fst heq, congrArg snd heq⟩
  rw [houtline, h, mem_map]
  constructor
  · rintro ⟨c, hc, heq⟩
    exact ⟨c, hc, congrArg fst heq, congrArg snd heq⟩
  · rintro ⟨c, hc, rfl, rfl⟩
    exact ⟨c, hc, rfl⟩

theorem statement_of_plain {text : Text} {ast : CypherAst} (hparse : parse text = some ast)
    (hreads : Reads text ts) (hplain : Plain text ts) (hs : s ∈ levelStatements ts) :
    s ∈ statementsOf ts ∧ ∃ s' ∈ ast.statements, outlines s'.clauses = s.map treeOutline := by
  unfold levelStatements at hs
  rw [hplain.named] at hs
  refine ⟨hs, ?_⟩
  have houtline := outline_parse hparse hreads.bracketed
    (fun tokens htokens => lexemesOf_eq_lex hplain hreads htokens) hplain.started
  have hmem : s.map treeOutline ∈ ast.statements.map (outlines ·.clauses) := by
    rw [houtline]
    exact mem_map_of_mem hs
  exact mem_map.1 hmem

/-- A clause of trees in the tokens of the parser: a keyword and what comes after it. -/
structure ClauseReading (s : CypherStatement) (c : ClauseKind × List Tree) (c' : CypherClause)
    (head : String × Option String × ClauseKind) (l : Lexeme) (us : List Tree) : Prop where
  mem : c' ∈ s.clauses
  head_mem : head ∈ clauseHeads
  word : l.isKeyword head.1 = true
  head_kind : c.1 = head.2.2
  clause_kind : c'.kind = c.1
  trees : c.2 = .leaf l :: us
  lexemes : lexemesOf c'.tokens = l :: flattenAll us
  bracketed : BracketedAll us

theorem exists_clauseReading {s' : CypherStatement} {c : ClauseKind × List Tree}
    (hts : BracketedAll ts) (hs : s ∈ statementsOf ts)
    (hclauses : outlines s'.clauses = s.map treeOutline) (hc : c ∈ s) (hknown : c.1 ≠ .unknown) :
    ∃ c' head l us, ClauseReading s' c c' head l us := by
  rcases head_of_mem_statement hts hs hc hknown with
    ⟨hbracketed, head, hhead, hkind, l, us, htrees, hkw⟩
  have hne : flattenAll c.2 ≠ [] := by
    rw [htrees, flattenAll_leaf]
    exact cons_ne_nil _ _
  rcases (mem_outlines hclauses hne).2 ⟨c, hc, rfl, rfl⟩ with ⟨c', hc', hckind, hctrees⟩
  rw [htrees, flattenAll_leaf] at hctrees
  rw [htrees] at hbracketed
  simp only [BracketedAll] at hbracketed
  exact ⟨c', head, l, us, hc', hhead, hkw, hkind, hckind, htrees, hctrees, hbracketed.2⟩

end Ontosyx.Cypher
