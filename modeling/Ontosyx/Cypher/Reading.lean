import Ontosyx.Cypher.Formula
import Ontosyx.Cypher.Parse

/-!
# Reading a query by its brackets

The lexemes of a query, grouped by their brackets, are a list of trees.  The parser cuts
a query at the clause keywords outside of brackets, that is, between top-level trees.
`treeStatements` says so on the trees.

## Main results

* `bodyLexemes_top` — the body of a clause is a run of whole trees.
* `outline_parse` — the statements of a parsed query are those of its trees.
-/

namespace Ontosyx.Cypher

open List Ontosyx.Core Nat Or

/-! ## Trees -/

def closingText (opener : Text) : Text :=
  match opener with
  | ['('] => [')']
  | ['['] => [']']
  | _ => ['\x7d']

mutual
def Tree.flatten : Tree → List Lexeme
  | .leaf l => [l]
  | .group opener children =>
    ⟨.paren, opener⟩ :: (flattenAll children ++ [⟨.paren, closingText opener⟩])

def flattenAll : List Tree → List Lexeme
  | [] => []
  | t :: ts => t.flatten ++ flattenAll ts
end

mutual
/-- Leaves are not brackets, and groups have an opening one. -/
def Tree.Bracketed : Tree → Prop
  | .leaf l => l.kind ≠ .paren
  | .group opener children =>
    (opener = ['('] ∨ opener = ['['] ∨ opener = ['\x7b']) ∧ BracketedAll children

def BracketedAll : List Tree → Prop
  | [] => True
  | t :: ts => t.Bracketed ∧ BracketedAll ts
end

/-- The trees are those of the text: its lexemes without blanks, grouped by their
brackets. -/
structure Reads (text : Text) (ts : List Tree) : Prop where
  bracketed : BracketedAll ts
  lexemes : lex text = some (flattenAll ts)

theorem flattenAll_append (ts us : List Tree) :
    flattenAll (ts ++ us) = flattenAll ts ++ flattenAll us := by
  induction ts with
  | nil => simp only [flattenAll, nil_append]
  | cons t ts ih => simp only [flattenAll, cons_append, ih, append_assoc]

variable {ts : List Tree}

theorem bracketedAll_append {us : List Tree} :
    BracketedAll (ts ++ us) ↔ BracketedAll ts ∧ BracketedAll us := by
  induction ts with
  | nil => simp only [BracketedAll, nil_append, true_and]
  | cons t ts ih => simp only [BracketedAll, cons_append, ih, and_assoc]

/-! ## Clause boundaries -/

def headKind (ls : List Lexeme) : ClauseKind := classifyHead ls.head? ls.tail.head?

/-- The lexemes start with `UNION`. -/
def startsUnion (ls : List Lexeme) : Bool := ls.head?.any (·.isKeyword "UNION")

/-- A clause or a `UNION` starts here. -/
def isBoundary (ls : List Lexeme) : Bool := startsUnion ls || headKind ls ≠ .unknown

def lexemesOf (ts : List CypherToken) : List Lexeme := (significant ts).map (·.toLexeme)

theorem lexemesOf_nil : lexemesOf [] = [] := rfl

theorem lexemesOf_cons (t : CypherToken) (ts : List CypherToken) :
    lexemesOf (t :: ts) = if t.isTrivia then lexemesOf ts else t.toLexeme :: lexemesOf ts := by
  unfold lexemesOf significant
  cases h : t.isTrivia with
  | true => rw [filter_cons_of_neg (by rw [h]; nofun), if_pos rfl]
  | false =>
    rw [filter_cons_of_pos (by rw [h]; rfl), map_cons, if_neg Bool.false_ne_true]

theorem lexemesOf_append (ts us : List CypherToken) :
    lexemesOf (ts ++ us) = lexemesOf ts ++ lexemesOf us := by
  unfold lexemesOf significant
  rw [filter_append, map_append]

theorem peekNonTrivia_zero (ts : List CypherToken) :
    (peekNonTrivia ts 0).map (·.toLexeme) = (lexemesOf ts).head? := by
  unfold peekNonTrivia lexemesOf
  cases significant ts <;> rfl

theorem peekNonTrivia_one (ts : List CypherToken) :
    (peekNonTrivia ts 1).map (·.toLexeme) = (lexemesOf ts).tail.head? := by
  unfold peekNonTrivia lexemesOf
  rcases significant ts with _ | ⟨t, _ | ⟨u, ts⟩⟩ <;> rfl

theorem classifyClauseHead_eq (ts : List CypherToken) :
    classifyClauseHead ts = headKind (lexemesOf ts) := by
  unfold classifyClauseHead headKind
  rw [peekNonTrivia_zero, peekNonTrivia_one]

theorem any_isKeyword_peek (ts : List CypherToken) (kw : String) :
    (peekNonTrivia ts 0).any (·.isKeyword kw) = (lexemesOf ts).head?.any (·.isKeyword kw) := by
  rw [← peekNonTrivia_zero]
  cases peekNonTrivia ts 0 <;> rfl

theorem isSome_peekUnion (ts : List CypherToken) :
    (peekUnion ts).isSome = startsUnion (lexemesOf ts) := by
  unfold peekUnion startsUnion
  rw [any_isKeyword_peek]
  cases (lexemesOf ts).head?.any (·.isKeyword "UNION") <;> rfl

theorem boundary_eq (ts : List CypherToken) :
    ((peekUnion ts).isSome || atClauseHead ts) = isBoundary (lexemesOf ts) := by
  unfold atClauseHead isBoundary
  rw [isSome_peekUnion, classifyClauseHead_eq, any_isKeyword_peek]
  show (_ || (_ || startsUnion (lexemesOf ts))) = _
  cases startsUnion (lexemesOf ts) with
  | true => rfl
  | false => rw [Bool.or_false]

def bodyLexemes : Depth → List Lexeme → List Lexeme × List Lexeme
  | _, [] => ([], [])
  | d, l :: ls =>
    if d.atTop && isBoundary (l :: ls) then ([], l :: ls)
    else (l :: (bodyLexemes (d.step l) ls).1, (bodyLexemes (d.step l) ls).2)

variable {l : Lexeme}

theorem Depth.step_of_not_paren {d : Depth} (h : l.kind ≠ .paren) : d.step l = d := by
  exact if_pos h

theorem kind_of_isTrivia (h : l.isTrivia = true) : l.kind ≠ .paren := by
  intro hparen
  unfold Lexeme.isTrivia at h
  rw [hparen] at h
  cases h

theorem clauseBody_cons (d : Depth) (t : CypherToken) (ts : List CypherToken) :
    clauseBody d (t :: ts) =
      if d.atTop && isBoundary (lexemesOf (t :: ts)) then ([], t :: ts)
      else (t :: (clauseBody (d.step t.toLexeme) ts).1, (clauseBody (d.step t.toLexeme) ts).2) := by
  rw [← boundary_eq]
  rfl

theorem bodyLexemes_cons (d : Depth) (l : Lexeme) (ls : List Lexeme) :
    bodyLexemes d (l :: ls) =
      if d.atTop && isBoundary (l :: ls) then ([], l :: ls)
      else (l :: (bodyLexemes (d.step l) ls).1, (bodyLexemes (d.step l) ls).2) := rfl

/-- Trivia do not change where the body of a clause ends. -/
theorem lexemesOf_clauseBody (d : Depth) (ts : List CypherToken) : bodyLexemes d (lexemesOf ts) =
      (lexemesOf (clauseBody d ts).1, lexemesOf (clauseBody d ts).2) := by
  induction ts generalizing d with
  | nil => rfl
  | cons t ts ih =>
    rw [clauseBody_cons]
    by_cases htrivia : t.isTrivia = true
    · have hlexemes : lexemesOf (t :: ts) = lexemesOf ts := by
        rw [lexemesOf_cons, if_pos htrivia]
      have hdepth : d.step t.toLexeme = d := Depth.step_of_not_paren (kind_of_isTrivia htrivia)
      rw [hlexemes, hdepth]
      by_cases hstop : (d.atTop && isBoundary (lexemesOf ts)) = true
      · rw [if_pos hstop, hlexemes]
        cases hls : lexemesOf ts with
        | nil => rfl
        | cons l ls =>
          rw [hls] at hstop
          rw [bodyLexemes_cons, if_pos hstop]
          rfl
      · rw [if_neg hstop, ih d, lexemesOf_cons, if_pos htrivia]
    · have hlexemes : lexemesOf (t :: ts) = t.toLexeme :: lexemesOf ts := by
        rw [lexemesOf_cons, if_neg htrivia]
      rw [hlexemes, bodyLexemes_cons]
      by_cases hstop : (d.atTop && isBoundary (t.toLexeme :: lexemesOf ts)) = true
      · rw [if_pos hstop, if_pos hstop, hlexemes]
        rfl
      · rw [if_neg hstop, if_neg hstop, ih, lexemesOf_cons, if_neg htrivia]

def Depth.Inside (d : Depth) : Prop :=
  0 ≤ d.paren ∧ 0 ≤ d.bracket ∧ 0 ≤ d.brace ∧ d.atTop = false

def Depth.Counts (d : Depth) : Prop := 0 ≤ d.paren ∧ 0 ≤ d.bracket ∧ 0 ≤ d.brace

theorem Depth.inside_step {d : Depth} (hd : d.Counts) {opener : Text}
    (h : opener = ['('] ∨ opener = ['['] ∨ opener = ['\x7b']) : (d.step ⟨.paren, opener⟩).Inside ∧
      (d.step ⟨.paren, opener⟩).step ⟨.paren, closingText opener⟩ = d := by
  rcases d with ⟨paren, bracket, brace⟩
  rcases hd with ⟨hparen, hbracket, hbrace⟩
  dsimp only at hparen hbracket hbrace
  have htop : ∀ d : Depth, (0 < d.paren ∨ 0 < d.bracket ∨ 0 < d.brace) → d.atTop = false := by
    intro d h
    unfold Depth.atTop
    rw [← Bool.not_eq_true, Bool.and_eq_true, Bool.and_eq_true, beq_iff_eq, beq_iff_eq, beq_iff_eq]
    omega
  rcases h with rfl | rfl | rfl
  · refine ⟨⟨?_, hbracket, hbrace, htop _ (inl ?_)⟩, ?_⟩
    · show 0 ≤ paren + 1
      omega
    · show 0 < paren + 1
      omega
    · show (⟨paren + 1 - 1, bracket, brace⟩ : Depth) = _
      rw [Int.add_sub_cancel]
  · refine ⟨⟨hparen, ?_, hbrace, htop _ (inr (inl ?_))⟩, ?_⟩
    · show 0 ≤ bracket + 1
      omega
    · show 0 < bracket + 1
      omega
    · show (⟨paren, bracket + 1 - 1, brace⟩ : Depth) = _
      rw [Int.add_sub_cancel]
  · refine ⟨⟨hparen, hbracket, ?_, htop _ (inr (inr ?_))⟩, ?_⟩
    · show 0 ≤ brace + 1
      omega
    · show 0 < brace + 1
      omega
    · show (⟨paren, bracket, brace + 1 - 1⟩ : Depth) = _
      rw [Int.add_sub_cancel]

theorem bodyLexemes_inside {d : Depth} (hd : d.Inside) (l : Lexeme) (ls : List Lexeme) :
    bodyLexemes d (l :: ls) =
      (l :: (bodyLexemes (d.step l) ls).1, (bodyLexemes (d.step l) ls).2) := by
  rw [bodyLexemes_cons, if_neg]
  rw [hd.2.2.2, Bool.false_and]
  exact Bool.false_ne_true

mutual
/-- Inside of brackets whole trees belong to the body. -/
theorem bodyLexemes_flatten {d : Depth} (hd : d.Inside) : (t : Tree) → t.Bracketed →
    (ls : List Lexeme) → bodyLexemes d (t.flatten ++ ls) =
      (t.flatten ++ (bodyLexemes d ls).1, (bodyLexemes d ls).2)
  | .leaf l, ht, ls => by
    simp only [Tree.Bracketed] at ht
    simp only [Tree.flatten, singleton_append]
    rw [bodyLexemes_inside hd, Depth.step_of_not_paren ht]
  | .group opener children, ht, ls => by
    simp only [Tree.Bracketed] at ht
    simp only [Tree.flatten, cons_append, append_assoc, nil_append]
    rw [bodyLexemes_inside hd,
      bodyLexemes_group ⟨hd.1, hd.2.1, hd.2.2.1⟩ opener children ht.1 ht.2 ls]

theorem bodyLexemes_group {d : Depth} (hd : d.Counts) (opener : Text) (children : List Tree)
    (hopener : opener = ['('] ∨ opener = ['['] ∨ opener = ['\x7b'])
    (hchildren : BracketedAll children) (ls : List Lexeme) : bodyLexemes (d.step ⟨.paren, opener⟩)
        (flattenAll children ++ ⟨.paren, closingText opener⟩ :: ls) =
      (flattenAll children ++ ⟨.paren, closingText opener⟩ :: (bodyLexemes d ls).1,
        (bodyLexemes d ls).2) := by
  have hstep := Depth.inside_step hd hopener
  rw [bodyLexemes_flattenAll hstep.1 children hchildren, bodyLexemes_inside hstep.1, hstep.2]

theorem bodyLexemes_flattenAll {d : Depth} (hd : d.Inside) : (ts : List Tree) →
    BracketedAll ts → (ls : List Lexeme) → bodyLexemes d (flattenAll ts ++ ls) =
      (flattenAll ts ++ (bodyLexemes d ls).1, (bodyLexemes d ls).2)
  | [], _, ls => by simp only [flattenAll, nil_append]
  | t :: ts, hts, ls => by
    simp only [BracketedAll] at hts
    simp only [flattenAll, append_assoc]
    rw [bodyLexemes_flatten hd t hts.1, bodyLexemes_flattenAll hd ts hts.2]
end

/-! ## Clauses of trees -/

/-- The trees up to the next clause or `UNION`. -/
def treeBody : List Tree → List Tree × List Tree
  | [] => ([], [])
  | t :: ts =>
    if isBoundary (flattenAll (t :: ts)) then ([], t :: ts)
    else (t :: (treeBody ts).1, (treeBody ts).2)

theorem depth_counts : ({} : Depth).Counts := ⟨Int.le_refl 0, Int.le_refl 0, Int.le_refl 0⟩

/-- The body of a clause is a run of whole trees. -/
theorem bodyLexemes_top : (ts : List Tree) → BracketedAll ts →
    bodyLexemes {} (flattenAll ts) = (flattenAll (treeBody ts).1, flattenAll (treeBody ts).2)
  | [], _ => by
    simp only [flattenAll, treeBody]
    rfl
  | .leaf l :: ts, hts => by
    simp only [BracketedAll, Tree.Bracketed] at hts
    have hflat : flattenAll (.leaf l :: ts) = l :: flattenAll ts := by
      simp only [flattenAll, Tree.flatten, singleton_append]
    unfold treeBody
    rw [hflat, bodyLexemes_cons, Depth.step_of_not_paren hts.1, bodyLexemes_top ts hts.2]
    by_cases hstop : isBoundary (l :: flattenAll ts) = true
    · rw [if_pos hstop, if_pos (by rw [hstop]; rfl), hflat]
      simp only [flattenAll]
    · rw [if_neg hstop, if_neg (by rw [Bool.and_eq_true]; exact fun h => hstop h.2)]
      simp only [flattenAll, Tree.flatten, singleton_append]
  | .group opener children :: ts, hts => by
    simp only [BracketedAll, Tree.Bracketed] at hts
    have hflat : flattenAll (.group opener children :: ts) = ⟨.paren, opener⟩ ::
        (flattenAll children ++ ⟨.paren, closingText opener⟩ :: flattenAll ts) := by
      simp only [flattenAll, Tree.flatten, cons_append, append_assoc, nil_append]
    unfold treeBody
    rw [hflat, bodyLexemes_cons, bodyLexemes_group depth_counts opener children hts.1.1 hts.1.2,
      bodyLexemes_top ts hts.2, ← hflat]
    by_cases hstop : isBoundary (flattenAll (.group opener children :: ts)) = true
    · rw [if_pos hstop, if_pos (by rw [hstop]; rfl)]
      simp only [flattenAll]
    · rw [if_neg hstop, if_neg (by rw [Bool.and_eq_true]; exact fun h => hstop h.2)]
      simp only [flattenAll, Tree.flatten, cons_append, append_assoc, nil_append]

def ClauseKind.words (kind : ClauseKind) : Nat := if kind.hasTwoWords then 2 else 1

/-- The clauses up to the next `UNION`, each with its kind, and what comes after them. -/
def treeClauses : Nat → List Tree → List (ClauseKind × List Tree) × List Tree
  | 0, ts => ([], ts)
  | _, [] => ([], [])
  | fuel + 1, t :: ts =>
    if startsUnion (flattenAll (t :: ts)) then ([], t :: ts)
    else
      let kind := headKind (flattenAll (t :: ts))
      let body := treeBody ((t :: ts).drop kind.words)
      let clauses := treeClauses fuel body.2
      ((kind, (t :: ts).take kind.words ++ body.1) :: clauses.1, clauses.2)

/-- What comes after a `UNION`. -/
def afterUnion (ts : List Tree) : List Tree :=
  match ts.drop 1 with
  | t :: us => if t.isKeyword "ALL" then us else t :: us
  | [] => []

/-- The statements between the `UNION`s, as lists of clauses. -/
def treeStatements : Nat → List Tree → List (List (ClauseKind × List Tree))
  | 0, _ => []
  | fuel + 1, ts =>
    let clauses := treeClauses ts.length ts
    clauses.1 :: if clauses.2.isEmpty then [] else treeStatements fuel (afterUnion clauses.2)

def statementsOf (ts : List Tree) : List (List (ClauseKind × List Tree)) :=
  treeStatements (ts.length + 1) ts

/-- Every statement is empty or starts with a clause keyword. -/
def WellStarted : Nat → List Tree → Prop
  | 0, _ => True
  | fuel + 1, ts =>
    (ts = [] ∨ isBoundary (flattenAll ts) = true) ∧
      ((treeClauses ts.length ts).2 ≠ [] →
        WellStarted fuel (afterUnion (treeClauses ts.length ts).2))

/-! ## The clauses of the parser -/

theorem lexemesOf_advance (ts : List CypherToken) :
    lexemesOf (advanceNonTrivia ts).1 = (lexemesOf ts).take 1 ∧
      lexemesOf (advanceNonTrivia ts).2 = (lexemesOf ts).drop 1 := by
  induction ts with
  | nil => exact ⟨rfl, rfl⟩
  | cons t ts ih =>
    unfold advanceNonTrivia
    by_cases htrivia : t.isTrivia = true
    · have hlexemes : ∀ us, lexemesOf (t :: us) = lexemesOf us := by
        intro us
        rw [lexemesOf_cons, if_pos htrivia]
      rw [if_pos htrivia, hlexemes ts]
      exact ⟨(hlexemes _).trans ih.1, ih.2⟩
    · have hlexemes : ∀ us, lexemesOf (t :: us) = t.toLexeme :: lexemesOf us := by
        intro us
        rw [lexemesOf_cons, if_neg htrivia]
      rw [if_neg htrivia, hlexemes ts]
      exact ⟨hlexemes [], rfl⟩

theorem lexemesOf_clauseTokens (ts : List CypherToken) : lexemesOf (clauseTokens ts).1 =
        (lexemesOf ts).take (headKind (lexemesOf ts)).words ++
          (bodyLexemes {} ((lexemesOf ts).drop (headKind (lexemesOf ts)).words)).1 ∧
      lexemesOf (clauseTokens ts).2 =
        (bodyLexemes {} ((lexemesOf ts).drop (headKind (lexemesOf ts)).words)).2 := by
  have hfirst := lexemesOf_advance ts
  unfold clauseTokens ClauseKind.words
  rw [classifyClauseHead_eq]
  by_cases htwo : (headKind (lexemesOf ts)).hasTwoWords = true
  · have hsecond := lexemesOf_advance (advanceNonTrivia ts).2
    rw [hfirst.2] at hsecond
    simp only [if_pos htwo]
    have hbody := lexemesOf_clauseBody {} (advanceNonTrivia (advanceNonTrivia ts).2).2
    rw [hsecond.2, drop_drop] at hbody
    rw [lexemesOf_append, lexemesOf_append, hfirst.1, hsecond.1, hbody]
    refine ⟨?_, rfl⟩
    cases lexemesOf ts with
    | nil => rfl
    | cons l ls => cases ls <;> rfl
  · simp only [if_neg htwo]
    have hbody := lexemesOf_clauseBody {} (advanceNonTrivia ts).2
    rw [hfirst.2] at hbody
    rw [append_nil, lexemesOf_append, hfirst.1, hbody]
    exact ⟨rfl, rfl⟩

theorem isKeyword_of_kind (h : l.kind ≠ .keyword) (kw : String) : l.isKeyword kw = false := by
  unfold Lexeme.isKeyword
  rw [beq_false_of_ne h, Bool.false_and]

theorem kind_of_isKeyword {kw : String} (h : l.isKeyword kw = true) : l.kind = .keyword := by
  exact beq_iff_eq.1 (Bool.and_eq_true_iff.1 h).1

/-- A kind other than `unknown` is in the table, and its words are there. -/
theorem mem_of_classifyHead {first second : Option Lexeme}
    (h : classifyHead first second ≠ .unknown) :
    ∃ head ∈ clauseHeads, classifyHead first second = head.2.2 ∧
      first.any (·.isKeyword head.1) = true ∧
      (head.2.1.all fun word => second.any (·.isKeyword word)) = true := by
  unfold classifyHead at h ⊢
  cases hfind : clauseHeads.find? fun head => first.any (·.isKeyword head.1) &&
      head.2.1.all fun word => second.any (·.isKeyword word) with
  | none =>
    rw [hfind] at h
    exact absurd rfl h
  | some head =>
    have htest := find?_some hfind
    rw [Bool.and_eq_true] at htest
    exact ⟨head, mem_of_find?_eq_some hfind, rfl, htest⟩

theorem exists_of_any {l? : Option Lexeme} {kw : String} (h : l?.any (·.isKeyword kw) = true) :
    ∃ l, l? = some l ∧ l.isKeyword kw = true := by
  cases l? with
  | none => cases h
  | some l => exact ⟨l, rfl, h⟩

theorem keyword_of_classifyHead {first second : Option Lexeme}
    (h : classifyHead first second ≠ .unknown) : ∃ l, first = some l ∧ l.kind = .keyword := by
  rcases mem_of_classifyHead h with ⟨head, -, -, hfirst, -⟩
  rcases exists_of_any hfirst with ⟨l, hl, hkw⟩
  exact ⟨l, hl, kind_of_isKeyword hkw⟩

theorem keyword_of_hasTwoWords {first second : Option Lexeme}
    (h : (classifyHead first second).hasTwoWords = true) :
    ∃ m, second = some m ∧ m.kind = .keyword := by
  have hknown : classifyHead first second ≠ .unknown := by
    intro hunknown
    rw [hunknown] at h
    cases h
  rcases mem_of_classifyHead hknown with ⟨head, hmem, hkind, -, hsecond⟩
  rw [hkind] at h
  have htwo : ∀ head ∈ clauseHeads, head.2.2.hasTwoWords = true → head.2.1.isSome = true := by
    decide
  rcases Option.isSome_iff_exists.1 (htwo head hmem h) with ⟨word, hword⟩
  rw [hword] at hsecond
  rcases exists_of_any hsecond with ⟨m, hm, hkw⟩
  exact ⟨m, hm, kind_of_isKeyword hkw⟩

theorem text_of_isKeyword {kw : String} (h : l.isKeyword kw = true) : upper l.text = kw.toList := by
  exact beq_iff_eq.1 (Bool.and_eq_true_iff.1 h).2

/-- The keyword of a clause is made of leaves. -/
theorem flattenAll_take_words (hts : BracketedAll ts) (h : headKind (flattenAll ts) ≠ .unknown) :
    flattenAll (ts.take (headKind (flattenAll ts)).words) =
        (flattenAll ts).take (headKind (flattenAll ts)).words ∧
      flattenAll (ts.drop (headKind (flattenAll ts)).words) =
        (flattenAll ts).drop (headKind (flattenAll ts)).words := by
  rcases keyword_of_classifyHead h with ⟨l, hl, hkind⟩
  rcases ts with _ | ⟨t, ts⟩
  · simp only [flattenAll] at hl
    cases hl
  · cases t with
    | group opener children =>
      simp only [flattenAll, Tree.flatten, cons_append, head?_cons, Option.some_inj] at hl
      rw [← hl] at hkind
      cases hkind
    | leaf m =>
      have hflat : ∀ us, flattenAll (.leaf m :: us) = m :: flattenAll us := by
        intro us
        simp only [flattenAll, Tree.flatten, singleton_append]
      by_cases htwo : (headKind (flattenAll (.leaf m :: ts))).hasTwoWords = true
      · unfold ClauseKind.words
        rw [if_pos htwo]
        rcases keyword_of_hasTwoWords htwo with ⟨n, hn, hnkind⟩
        rw [hflat, tail_cons] at hn
        rcases ts with _ | ⟨u, ts⟩
        · simp only [flattenAll] at hn
          cases hn
        · cases u with
          | group opener children =>
            simp only [flattenAll, Tree.flatten, cons_append, head?_cons, Option.some_inj] at hn
            rw [← hn] at hnkind
            cases hnkind
          | leaf u => simp only [flattenAll, Tree.flatten, singleton_append, take_succ_cons,
              take_zero, drop_succ_cons, drop_zero, and_self]
      · unfold ClauseKind.words
        rw [if_neg htwo, hflat]
        simp only [flattenAll, Tree.flatten, singleton_append, take_succ_cons,
          take_zero, drop_succ_cons, drop_zero, and_self]

theorem treeBody_append (ts : List Tree) : (treeBody ts).1 ++ (treeBody ts).2 = ts := by
  induction ts with
  | nil => rfl
  | cons t ts ih =>
    unfold treeBody
    split
    · rfl
    · exact congrArg (t :: ·) ih

/-- After a body comes nothing or a boundary. -/
theorem treeBody_rest (ts : List Tree) :
    (treeBody ts).2 = [] ∨ isBoundary (flattenAll (treeBody ts).2) = true := by
  induction ts with
  | nil => exact inl rfl
  | cons t ts ih =>
    unfold treeBody
    split
    · next hstop => exact inr hstop
    · exact ih

theorem flattenAll_eq_nil (h : flattenAll ts = []) : ts = [] := by
  cases ts with
  | nil => rfl
  | cons t ts =>
    cases t with
    | leaf l | group opener children => simp [flattenAll, Tree.flatten] at h

def outline (c : CypherClause) : ClauseKind × List Lexeme := (c.kind, lexemesOf c.tokens)

def outlines (cs : List CypherClause) : List (ClauseKind × List Lexeme) :=
  (cs.map outline).filter fun o => !o.2.isEmpty

def treeOutline (c : ClauseKind × List Tree) : ClauseKind × List Lexeme := (c.1, flattenAll c.2)

theorem outline_of_clauseSpec {tokens : List CypherToken} {c : CypherClause}
    (h : ClauseSpec (classifyClauseHead tokens) (clauseTokens tokens).1 c) :
    outline c = (headKind (lexemesOf tokens), lexemesOf (clauseTokens tokens).1) := by
  unfold outline
  rw [h.head, h.tokens, classifyClauseHead_eq]

theorem outlines_cons (c : CypherClause) (cs : List CypherClause) :
    outlines (c :: cs) = if (outline c).2.isEmpty then outlines cs
      else outline c :: outlines cs := by
  unfold outlines
  rw [map_cons]
  cases h : (outline c).2.isEmpty with
  | true => rw [filter_cons_of_neg (by rw [h]; nofun), if_pos rfl]
  | false => rw [filter_cons_of_pos (by rw [h]; rfl), if_neg Bool.false_ne_true]

variable {fuel : Nat}

theorem one_le_words (kind : ClauseKind) : 1 ≤ kind.words := by
  unfold ClauseKind.words
  split <;> omega

theorem outlines_parseStatement {fuel' : Nat} {tokens rest : List CypherToken}
    {clauses : List CypherClause} (hlength : tokens.length ≤ fuel) (hlength' : ts.length ≤ fuel')
    (hts : BracketedAll ts) (hlexemes : lexemesOf tokens = flattenAll ts)
    (hstart : ts = [] ∨ isBoundary (flattenAll ts) = true)
    (h : parseStatement fuel tokens = some (clauses, rest)) :
    outlines clauses = (treeClauses fuel' ts).1.map treeOutline ∧
      lexemesOf rest = flattenAll (treeClauses fuel' ts).2 := by
  fun_induction parseStatement fuel tokens generalizing clauses fuel' ts with
  | case1 tokens =>
    have htokens : tokens = [] := length_eq_zero_iff.1 (le_zero.1 hlength)
    subst htokens
    have hnil : ts = [] := flattenAll_eq_nil hlexemes.symm
    subst hnil
    cases h
    cases fuel' <;> exact ⟨rfl, by simp only [treeClauses, flattenAll, lexemesOf_nil]⟩
  | case2 =>
    have hnil : ts = [] := flattenAll_eq_nil hlexemes.symm
    subst hnil
    cases h
    cases fuel' <;> exact ⟨rfl, by simp only [treeClauses, flattenAll, lexemesOf_nil]⟩
  | case3 fuel tokens hne hunion =>
    rw [isSome_peekUnion, hlexemes] at hunion
    cases h
    rcases ts with _ | ⟨u, ts⟩
    · simp only [flattenAll] at hunion
      cases hunion
    · rcases fuel' with _ | fuel'
      · exact absurd hlength' (by simp)
      · unfold treeClauses
        rw [if_pos hunion]
        exact ⟨rfl, hlexemes⟩
  | case4 fuel tokens hne hunion ih =>
    rw [isSome_peekUnion, hlexemes] at hunion
    rcases parseStatement_clause hne h with ⟨hlt, c, cs, rfl, hspec, hcs⟩
    have houtline := outline_of_clauseSpec hspec
    have hshort : (clauseTokens tokens).2.length ≤ fuel := by
      omega
    rcases lexemesOf_clauseTokens tokens with ⟨hfirst, hsecond⟩
    rw [hlexemes] at hfirst hsecond houtline
    rcases ts with _ | ⟨u, ts⟩
    · have hrest := ih _ hshort (zero_le fuel') hts
        (by rw [hsecond]; simp only [flattenAll, drop_nil]; rfl) (inl rfl) hcs
      have hempty : lexemesOf (clauseTokens tokens).1 = [] := by
        rw [hfirst]
        simp only [flattenAll, take_nil, drop_nil]
        rfl
      rw [outlines_cons, houtline, hempty]
      exact hrest
    · have hkind : headKind (flattenAll (u :: ts)) ≠ .unknown := by
        rcases hstart with hstart | hstart
        · cases hstart
        · unfold isBoundary at hstart
          rw [Bool.or_eq_true] at hstart
          rcases hstart with hstart | hstart
          · exact absurd hstart hunion
          · exact of_decide_eq_true hstart
      rcases fuel' with _ | fuel'
      · exact absurd hlength' (by simp)
      · rcases flattenAll_take_words hts hkind with ⟨htake, hdrop⟩
        have hwords := one_le_words (headKind (flattenAll (u :: ts)))
        have hsplit := hts
        rw [← take_append_drop (headKind (flattenAll (u :: ts))).words (u :: ts),
          bracketedAll_append] at hsplit
        rw [← hdrop, bodyLexemes_top _ hsplit.2] at hfirst hsecond
        rw [← htake, ← flattenAll_append] at hfirst
        have hrest := hsplit.2
        rw [← treeBody_append ((u :: ts).drop _), bracketedAll_append] at hrest
        have hshorter : (treeBody
            ((u :: ts).drop (headKind (flattenAll (u :: ts))).words)).2.length ≤ fuel' := by
          have happend := congrArg List.length
            (treeBody_append ((u :: ts).drop (headKind (flattenAll (u :: ts))).words))
          rw [length_append, length_drop] at happend
          rw [length_cons] at happend hlength'
          omega
        have hnext := ih _ hshort hshorter hrest.2 hsecond (treeBody_rest _) hcs
        unfold treeClauses
        rw [if_neg hunion, outlines_cons, houtline, if_neg]
        · refine ⟨?_, hnext.2⟩
          rw [map_cons, hnext.1, hfirst]
          rfl
        · rw [hfirst, List.isEmpty_iff]
          intro hnil
          have hempty := flattenAll_eq_nil hnil
          rw [append_eq_nil_iff, take_eq_nil_iff] at hempty
          rcases hempty.1 with hzero | hzero
          · omega
          · cases hzero

/-- After the clauses of a statement comes nothing or a `UNION`. -/
theorem treeClauses_rest (h : ts.length ≤ fuel) : (treeClauses fuel ts).2.length ≤ ts.length ∧
      ((treeClauses fuel ts).2 = [] ∨ startsUnion (flattenAll (treeClauses fuel ts).2) = true) := by
  fun_induction treeClauses fuel ts with
  | case1 =>
    rw [length_eq_zero_iff.1 (le_zero.1 h)]
    exact ⟨le_refl _, inl rfl⟩
  | case2 => exact ⟨le_refl _, inl rfl⟩
  | case3 fuel t ts hunion => exact ⟨le_refl _, inr hunion⟩
  | case4 fuel t ts hunion kind body clauses ih =>
    have happend : (body.1 ++ body.2).length = _ :=
      congrArg List.length (treeBody_append ((t :: ts).drop kind.words))
    have hwords := one_le_words kind
    rw [length_append, length_drop] at happend
    rw [length_cons] at h happend
    have hshorter : body.2.length ≤ fuel := by
      omega
    rcases ih hshorter with ⟨hle, hrest⟩
    refine ⟨?_, hrest⟩
    show (treeClauses fuel _).2.length ≤ _
    rw [length_cons]
    omega

theorem bracketedAll_treeClauses (h : BracketedAll ts) : BracketedAll (treeClauses fuel ts).2 := by
  fun_induction treeClauses fuel ts with
  | case1 | case2 | case3 => exact h
  | case4 fuel t ts hunion kind body clauses ih =>
    rw [← take_append_drop kind.words (t :: ts), bracketedAll_append,
      ← treeBody_append ((t :: ts).drop _), bracketedAll_append] at h
    exact ih h.2.2

/-- Without the first lexeme, and without `ALL` if it comes next. -/
def dropUnion (ls : List Lexeme) : List Lexeme :=
  if (ls.drop 1).head?.any (·.isKeyword "ALL") then (ls.drop 1).drop 1 else ls.drop 1

theorem lexemesOf_consumeUnion (tokens : List CypherToken) :
    lexemesOf (consumeUnion tokens) = dropUnion (lexemesOf tokens) := by
  unfold consumeUnion dropUnion
  dsimp only
  rw [any_isKeyword_peek, ← (lexemesOf_advance tokens).2]
  split
  · exact (lexemesOf_advance _).2
  · rfl

theorem flattenAll_leaf (l : Lexeme) (ts : List Tree) :
    flattenAll (.leaf l :: ts) = l :: flattenAll ts := by
  simp only [flattenAll, Tree.flatten, singleton_append]

theorem flattenAll_group (opener : Text) (children ts : List Tree) :
    flattenAll (.group opener children :: ts) = ⟨.paren, opener⟩ ::
      (flattenAll children ++ ⟨.paren, closingText opener⟩ :: flattenAll ts) := by
  simp only [flattenAll, Tree.flatten, cons_append, append_assoc, nil_append]

theorem dropUnion_flattenAll (hts : BracketedAll ts) (hunion : startsUnion (flattenAll ts) = true) :
    dropUnion (flattenAll ts) = flattenAll (afterUnion ts) ∧ BracketedAll (afterUnion ts) ∧
      (afterUnion ts).length < ts.length := by
  rcases exists_of_any hunion with ⟨l, hl, hkw⟩
  have hkind := kind_of_isKeyword hkw
  rcases ts with _ | ⟨t, ts⟩
  · simp only [flattenAll] at hl
    cases hl
  · cases t with
    | group opener children =>
      rw [flattenAll_group, head?_cons, Option.some_inj] at hl
      rw [← hl] at hkind
      cases hkind
    | leaf m =>
      simp only [BracketedAll] at hts
      rw [flattenAll_leaf]
      rcases ts with _ | ⟨u, us⟩
      · simp only [flattenAll]
        exact ⟨rfl, trivial, lt_succ_self _⟩
      · simp only [BracketedAll] at hts
        cases u with
        | group opener children =>
          rw [flattenAll_group]
          refine ⟨?_, hts.2, lt_succ_self _⟩
          have hnot := isKeyword_of_kind (l := ⟨.paren, opener⟩) TokenKind.noConfusion "ALL"
          show (if (⟨.paren, opener⟩ : Lexeme).isKeyword "ALL" = true then _ else _) = _
          rw [hnot, if_neg Bool.false_ne_true]
          exact (flattenAll_group _ _ _).symm
        | leaf u =>
          rw [flattenAll_leaf]
          by_cases hall : u.isKeyword "ALL" = true
          · have hdrop : dropUnion (m :: u :: flattenAll us) = flattenAll us := if_pos hall
            have hafter : afterUnion (.leaf m :: .leaf u :: us) = us := if_pos hall
            rw [hdrop, hafter]
            refine ⟨rfl, hts.2.2, ?_⟩
            simp only [length_cons]
            omega
          · have hdrop : dropUnion (m :: u :: flattenAll us) = u :: flattenAll us :=
              if_neg hall
            have hafter : afterUnion (.leaf m :: .leaf u :: us) = .leaf u :: us := if_neg hall
            rw [hdrop, hafter]
            exact ⟨(flattenAll_leaf u us).symm, hts.2, lt_succ_self _⟩

theorem outlines_parseAst : ∀ {fuel' : Nat} {tokens : List CypherToken}
    {ast : CypherAst} {ts : List Tree}, tokens.length < fuel → ts.length < fuel' →
    BracketedAll ts → lexemesOf tokens = flattenAll ts → WellStarted fuel' ts →
    parseAst fuel tokens = some ast → ast.statements.map (outlines ·.clauses) =
      (treeStatements fuel' ts).map (·.map treeOutline) := by
  induction fuel with
  | zero =>
    intro fuel' tokens ast ts hlength
    exact absurd hlength (not_lt_zero _)
  | succ fuel ih =>
    intro fuel' tokens ast ts hlength hlength' hts hlexemes hstarted h
    rcases fuel' with _ | fuel'
    · exact absurd hlength' (not_lt_zero _)
    · rcases hstarted with ⟨hstart, hnext⟩
      rcases parseAst_cases h with ⟨clauses, rest, hclauses, h⟩
      rcases outlines_parseStatement (le_refl _) (le_refl _) hts hlexemes hstart
        hclauses with ⟨houtlines, hrest⟩
      rcases treeClauses_rest (le_refl ts.length) with ⟨hle, hend⟩
      have hunion := isSome_peekUnion rest
      rw [hrest] at hunion
      unfold treeStatements
      rcases h with ⟨hpeek, rfl⟩ | ⟨kind, others, hpeek, hothers, rfl⟩
      · rw [hpeek] at hunion
        have hnil : (treeClauses ts.length ts).2 = [] := by
          rcases hend with hend | hend
          · exact hend
          · rw [hend] at hunion
            cases hunion
        dsimp only
        rw [hnil, isEmpty_nil, if_pos rfl, map_cons, map_cons, houtlines]
        rfl
      · rw [hpeek] at hunion
        have hne : (treeClauses ts.length ts).2 ≠ [] := by
          intro hnil
          rw [hnil] at hunion
          simp only [flattenAll] at hunion
          cases hunion
        have hrestne : rest ≠ [] := by
          intro hnil
          rw [hnil, lexemesOf_nil] at hrest
          exact hne (flattenAll_eq_nil hrest.symm)
        have hshort := length_consumeUnion_lt hrestne
        have hshort' := length_parseStatement_le hclauses
        rcases dropUnion_flattenAll (bracketedAll_treeClauses hts) hunion.symm with
          ⟨hlex, hbracketed, hlt⟩
        rw [← hrest, ← lexemesOf_consumeUnion] at hlex
        have hall := ih (by omega) (by omega) hbracketed hlex (hnext hne) hothers
        dsimp only
        rw [isEmpty_eq_false_iff.2 hne, if_neg Bool.false_ne_true, map_cons,
          map_cons, houtlines, hall]

theorem outline_parse {input : Text} {ast : CypherAst} (h : parse input = some ast)
    (hts : BracketedAll ts)
    (hlexemes : ∀ tokens, tokenize input = some tokens → lexemesOf tokens = flattenAll ts)
    (hstarted : WellStarted (ts.length + 1) ts) :
    ast.statements.map (outlines ·.clauses) = (statementsOf ts).map (·.map treeOutline) := by
  rcases Option.bind_eq_some_iff.1 h with ⟨tokens, htokens, h⟩
  exact outlines_parseAst (lt_succ_self _) (lt_succ_self _) hts (hlexemes tokens htokens)
    hstarted h

end Ontosyx.Cypher
