import Ontosyx.Cypher.Lexical

/-!
# Injected predicates

What the rewriters inject in front of a WHERE body: a text that contributes a
fixed list of balanced lexemes and reads as one conjunction.  The guard
`v.p = $q` of the workspace scope, the check `v.p IS NULL` of the soft delete and
the `false` of a denial are such predicates, and so is one `AND` another.

## Main results

* `trees_append_plain` — balanced lexemes group by themselves.
* `InjectedPredicate.and` — joined predicates are a predicate.
-/

namespace Ontosyx.Cypher

open List Lib.Precedence TreeState

def addOutermost (base : List Tree) : List (Lexeme × List Tree) → List (Lexeme × List Tree)
  | [] => []
  | [(opener, outer)] => [(opener, outer ++ base)]
  | f :: g :: stack => f :: addOutermost base (g :: stack)

/-- Trees before everything that has been read. -/
def TreeState.under (base : List Tree) (σ : TreeState) : TreeState :=
  ⟨addOutermost base σ.stack, if σ.stack = [] then σ.done ++ base else σ.done⟩

theorem TreeState.under_step (base : List Tree) (σ : TreeState) (l : Lexeme) :
    (σ.under base).step l = (σ.step l).map (under base) := by
  obtain ⟨stack, done⟩ := σ
  unfold step
  by_cases hopen : (closerOf l).isSome
  · rw [if_pos hopen, if_pos hopen]
    cases stack with
    | nil => rfl
    | cons f stack => rfl
  · rw [if_neg hopen, if_neg hopen]
    cases asCloser l with
    | none =>
      cases stack with
      | nil => rfl
      | cons f stack => rfl
    | some closer =>
      match stack with
      | [] => rfl
      | [(opener, outer)] | (opener, outer) :: g :: stack =>
        show (if closerOf opener = some closer then _ else none) = Option.map _ (ite _ _ _)
        split_ifs
        · rfl
        · rfl

theorem TreeState.under_foldlM (base : List Tree) (ls : List Lexeme) (σ : TreeState) :
    ls.foldlM step (σ.under base) =
      (ls.foldlM step σ).map (under base) := by
  induction ls generalizing σ with
  | nil => rfl
  | cons l ls ih =>
    rw [foldlM_cons, foldlM_cons, under_step]
    cases hstep : σ.step l with
    | none => rfl
    | some σ' => exact ih σ'

def Lexeme.IsPlain (l : Lexeme) : Prop := closerOf l = none ∧ asCloser l = none

variable {ts : List Tree}

theorem trees_append_plain {ls : List Lexeme} {l : Lexeme} (hts : trees ls = some ts)
    (hl : l.IsPlain) (ms : List Lexeme) :
    trees (ls ++ l :: ms) = (trees ms).map fun us => ts ++ .leaf l :: us := by
  obtain ⟨σ, hσ, hdone⟩ := Option.bind_eq_some_iff.1 hts
  obtain ⟨stack, done⟩ := σ
  by_cases hstack : stack = []
  · subst hstack
    obtain rfl : done.reverse = ts := by simpa using hdone
    have hstep : step ⟨[], done⟩ l =
        some (under (.leaf l :: done) {}) := by
      unfold step
      rw [hl.1, hl.2]
      rfl
    unfold trees
    rw [foldlM_append, hσ]
    show ((step ⟨[], done⟩ l >>= fun σ => ms.foldlM step σ) >>= _) = _
    rw [hstep]
    show (ms.foldlM step (under (.leaf l :: done) {}) >>= _) = _
    rw [under_foldlM]
    cases ms.foldlM step {} with
    | none => rfl
    | some τ =>
      obtain ⟨stack, inner⟩ := τ
      cases stack with
      | nil => simp [under, addOutermost]
      | cons f stack =>
        have hne : addOutermost (.leaf l :: done) (f :: stack) ≠ [] := by
          cases stack with
          | nil | cons g stack => exact cons_ne_nil _ _
        simp [under, hne]
  · rw [if_neg hstack] at hdone
    cases hdone

theorem trees_cons_plain {l : Lexeme} (hl : l.IsPlain) (ms : List Lexeme) :
    trees (l :: ms) = (trees ms).map (.leaf l :: ·) :=
  @trees_append_plain [] [] l rfl hl ms

/-! ## Injected predicates -/

/-- A tree that is neither `OR` nor `XOR`. -/
def Tree.IsChainLink (t : Tree) : Prop :=
  t.isKeyword "OR" = false ∧ t.isKeyword "XOR" = false

instance (t : Tree) : Decidable t.IsChainLink := inferInstanceAs (Decidable (_ ∧ _))

/-- What the rewriters inject: a text that reads as the conjunction `conj`. -/
structure InjectedPredicate (condition : Text) (conj : List Tree) : Prop where
  /-- Nothing in the text reaches over its end, and its brackets are balanced. -/
  reads : ∃ ls, LexesTo condition ls ∧ trees ls = some conj
  /-- No `OR` and no `XOR` outside brackets. -/
  chain : ∀ t ∈ conj, t.IsChainLink
  noTail : ∀ t ∈ conj, t.startsTail = false
  /-- It has a value. -/
  valued : ∀ v, (andValue operator (operandValue v) (items v conj)).isSome

theorem items_append (v : Valuation) (xs ys : List Tree) :
    items v (xs ++ ys) = items v xs ++ items v ys := by
  induction xs with
  | nil => rfl
  | cons x xs ih => rw [cons_append, items, items, ih, cons_append]

theorem mem_items {v : Valuation} {x : Item} (hx : x ∈ items v ts) :
    x.1 ∈ ts ∧ x.2 = x.1.groupValue v := by
  induction ts with
  | nil => cases hx
  | cons t ts ih =>
    rw [items, mem_cons] at hx
    rcases hx with rfl | hx
    · exact ⟨mem_cons_self, rfl⟩
    · exact ⟨mem_cons_of_mem t (ih hx).1, (ih hx).2⟩

theorem isChain_items (h : ∀ t ∈ ts, t.IsChainLink) (v : Valuation) :
    IsChain operator (items v ts) := by
  intro x hx
  obtain ⟨hor, hxor⟩ := h x.1 (mem_items hx).1
  unfold isOp operator
  rw [hor, hxor]
  simp only [Bool.false_eq_true, if_false]
  split_ifs
  · exact ⟨rfl, rfl⟩
  · exact ⟨rfl, rfl⟩
  · exact ⟨rfl, rfl⟩

/-- The tree of the predicate `false`. -/
def falseTree : Tree := .leaf ⟨.keyword, "false".toList⟩

theorem injected_false : InjectedPredicate "false".toList [falseTree] where
  reads := by
    refine ⟨[⟨.keyword, "false".toList⟩], lexesTo_word ?_, rfl⟩
    exact ⟨'f', "alse".toList, rfl, by decide, by decide⟩
  chain := by decide
  noTail := by decide
  valued := fun v => rfl

/-- The keyword between two conjuncts. -/
def andLexeme : Lexeme := ⟨.keyword, "AND".toList⟩

theorem lexesTo_and : LexesTo "AND".toList [andLexeme] :=
  lexesTo_word ⟨'A', "ND".toList, rfl, by decide, by decide⟩

/-- A chain alone has the value of its conjunction. -/
theorem exprValue_of_chain (h : ∀ t ∈ ts, t.IsChainLink) (v : Valuation) :
    exprValue v ts = andValue operator (operandValue v) (items v ts) := by
  have hvalue := @value_chain_append _ operator (operandValue v) _ [] (isChain_items h v) rfl
  rw [append_nil] at hvalue
  unfold exprValue
  rw [hvalue]
  cases andValue operator (operandValue v) (items v ts) with
  | none => rfl
  | some t =>
    show some (Truth.or (Truth.xor t (some false)) (some false)) = some t
    rw [Truth.xor_false, Truth.or_false]

theorem InjectedPredicate.and {c d : Text} {C D : List Tree} (hc : InjectedPredicate c C)
    (hd : InjectedPredicate d D) :
    InjectedPredicate (c ++ " AND ".toList ++ d) (C ++ .leaf andLexeme :: D) where
  reads := by
    obtain ⟨ls, hls, htls⟩ := hc.reads
    obtain ⟨ms, hms, htms⟩ := hd.reads
    refine ⟨ls ++ andLexeme :: ms, ?_, ?_⟩
    · have h := (hls.append_blank lexesTo_and).append_blank hms
      simpa using h
    · rw [trees_append_plain htls ⟨rfl, rfl⟩, htms]
      rfl
  chain := by
    intro t ht
    rcases mem_append.1 ht with ht | ht
    · exact hc.chain t ht
    · rcases mem_cons.1 ht with rfl | ht
      · exact ⟨rfl, rfl⟩
      · exact hd.chain t ht
  noTail := by
    intro t ht
    rcases mem_append.1 ht with ht | ht
    · exact hc.noTail t ht
    · rcases mem_cons.1 ht with rfl | ht
      · rfl
      · exact hd.noTail t ht
  valued := by
    intro v
    obtain ⟨x, hx⟩ := Option.isSome_iff_exists.1 (hc.valued v)
    obtain ⟨y, hy⟩ := Option.isSome_iff_exists.1 (hd.valued v)
    rw [items_append, items, andValue_append_and _ _ _ rfl, hx, hy]
    rfl

/-- A text whose lexemes are an operand without brackets. -/
theorem injectedPredicate_of_lexemes {c : Text} {ls : List Lexeme} (hls : LexesTo c ls)
    (hplain : ∀ l ∈ ls, l.IsPlain) (hchain : ∀ l ∈ ls, (Tree.leaf l).IsChainLink)
    (htail : ∀ l ∈ ls, (Tree.leaf l).startsTail = false)
    (hvalued : ∀ v, (andValue operator (operandValue v) (items v (ls.map .leaf))).isSome) :
    InjectedPredicate c (ls.map .leaf) where
  reads := by
    refine ⟨ls, hls, ?_⟩
    clear hls hchain htail hvalued
    induction ls with
    | nil => rfl
    | cons l ls ih =>
      rw [trees_cons_plain (hplain l mem_cons_self),
        ih fun m hm => hplain m (mem_cons_of_mem l hm)]
      rfl
  chain := by
    intro t ht
    obtain ⟨l, hl, rfl⟩ := mem_map.1 ht
    exact hchain l hl
  noTail := by
    intro t ht
    obtain ⟨l, hl, rfl⟩ := mem_map.1 ht
    exact htail l hl
  valued := hvalued

theorem injectedPredicate_access {c v p : Text} {l m : Lexeme}
    (hls : LexesTo c [nameLexeme v, dot, nameLexeme p, l, m]) (hplain : l.IsPlain ∧ m.IsPlain)
    (hchain : (Tree.leaf l).IsChainLink ∧ (Tree.leaf m).IsChainLink)
    (htail : (Tree.leaf l).startsTail = false ∧ (Tree.leaf m).startsTail = false)
    (hvalued : ∀ u, (andValue operator (operandValue u)
      (items u ([nameLexeme v, dot, nameLexeme p, l, m].map .leaf))).isSome) :
    InjectedPredicate c ([nameLexeme v, dot, nameLexeme p, l, m].map .leaf) := by
  refine injectedPredicate_of_lexemes hls ?_ ?_ ?_ hvalued
  · simp only [forall_mem_cons, not_mem_nil, false_imp_iff, implies_true, and_true]
    exact ⟨⟨rfl, rfl⟩, ⟨rfl, rfl⟩, ⟨rfl, rfl⟩, hplain⟩
  · simp only [forall_mem_cons, not_mem_nil, false_imp_iff, implies_true, and_true]
    exact ⟨⟨rfl, rfl⟩, ⟨rfl, rfl⟩, ⟨rfl, rfl⟩, hchain⟩
  · simp only [forall_mem_cons, not_mem_nil, false_imp_iff, implies_true, and_true]
    exact ⟨rfl, rfl, rfl, htail⟩

/-- The trees of `v.p = $q`. -/
def guardTrees (v p q : Text) : List Tree := (guardLexemes v p q).map .leaf

theorem injectedPredicate_guard {v p q : Text} (hv : IsName v) (hp : IsName p)
    (hq : ∀ c ∈ q, isIdentRest c = true) : InjectedPredicate (guardText v p q) (guardTrees v p q) :=
  injectedPredicate_access (lexesTo_guard hv hp hq) ⟨⟨rfl, rfl⟩, ⟨rfl, rfl⟩⟩
    ⟨⟨rfl, rfl⟩, ⟨rfl, rfl⟩⟩ ⟨rfl, rfl⟩ fun _ => rfl

/-- The trees of `v.p IS NULL`. -/
def nullCheckTrees (v p : Text) : List Tree := (nullCheckLexemes v p).map .leaf

theorem injectedPredicate_nullCheck {v p : Text} (hv : IsName v) (hp : IsName p) :
    InjectedPredicate (nullCheckText v p) (nullCheckTrees v p) :=
  injectedPredicate_access (lexesTo_nullCheck hv hp) ⟨⟨rfl, rfl⟩, ⟨rfl, rfl⟩⟩
    ⟨⟨rfl, rfl⟩, ⟨rfl, rfl⟩⟩ ⟨rfl, rfl⟩ fun _ => rfl

end Ontosyx.Cypher
