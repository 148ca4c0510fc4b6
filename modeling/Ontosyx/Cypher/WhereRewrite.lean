import Ontosyx.Cypher.Predicate

/-!
# Splicing a predicate into a WHERE clause

Three rewriters put a predicate in front of the text of an existing WHERE
clause: the workspace scope, the soft delete and the denial of access.  None of
them puts the text it finds in parentheses, so the predicate joins the first
conjunction of that text only.  With Cypher's precedences it conjoins to the
whole expression exactly when nothing after the first conjunction can make the
expression true, and when the keyword is found at all: it has to come first and
be followed by a blank.
-/

namespace Ontosyx.Cypher

open List Ontosyx.Core Option Lib.Precedence Option

def splitLeadingWhitespace (text : Text) : Text × Text :=
  (text.takeWhile isWhitespace, text.dropWhile isWhitespace)

/-- `strip_leading_keyword`; `kw` is written in capitals. -/
def stripLeadingKeyword (text kw : Text) : Option Text :=
  if upper (text.take kw.length) = kw then
    if (text.drop kw.length).isEmpty || (text.drop kw.length).head?.any isWhitespace then
      some (text.drop kw.length)
    else none
  else none

def whereKeyword : Text := "WHERE".toList

/-- `prepend_to_where` of the workspace scope, on the text of the clause. -/
def WorkspaceScope.prependToWhere (condition original : Text) : Text :=
  let (leadWs, afterWs) := splitLeadingWhitespace original
  match stripLeadingKeyword afterWs whereKeyword with
  | some rest => leadWs ++ "WHERE ".toList ++ condition ++ " AND ".toList ++ trimStart rest
  | none => leadWs ++ "WHERE ".toList ++ condition ++ " AND ".toList ++ afterWs

/-- `prepend_to_where` of the soft delete, on the text of the clause. -/
def SoftDelete.prependToWhere (condition original : Text) : Text :=
  let (leadWs, afterWs) := splitLeadingWhitespace original
  let afterKeyword := (stripLeadingKeyword afterWs whereKeyword).getD afterWs
  let body := trimChars afterKeyword
  if body.isEmpty then leadWs ++ "WHERE ".toList ++ condition
  else leadWs ++ "WHERE ".toList ++ condition ++ " AND ".toList ++ body

/-- `prepend_false_to_where`, on the text of the clause. -/
def Acl.prependFalseToWhere (original : Text) : Text :=
  let (leadWs, afterWs) := splitLeadingWhitespace original
  let afterKeyword := (stripLeadingKeyword afterWs whereKeyword).getD afterWs
  let body := trimChars afterKeyword
  if body.isEmpty then leadWs ++ "WHERE false".toList
  else leadWs ++ "WHERE false AND ".toList ++ body

/-- The denial splices like the soft delete, with the predicate `false`. -/
theorem Acl.prependFalseToWhere_eq (original : Text) : Acl.prependFalseToWhere original =
      SoftDelete.prependToWhere "false".toList original := by
  simp only [Acl.prependFalseToWhere, SoftDelete.prependToWhere]
  split_ifs
  · simp
  · simp

/-! ## Reading spliced texts -/

/-- The text a rewriter leaves: blanks, the predicate, and a body. -/
def splice (lead condition body : Text) : Text :=
  lead ++ "WHERE ".toList ++ condition ++ " AND ".toList ++ body

theorem lex_trimEnd_trimStart (s : Text) : lex (trimEnd (trimStart s)) = lex (trimEnd s) := by
  by_cases hs : trimEnd s = []
  · rw [trimEnd_trimStart_nil_iff.2 hs, hs]
  · have hne : trimEnd (trimStart s) ≠ [] := fun h => hs (trimEnd_trimStart_nil_iff.1 h)
    conv_rhs => rw [← takeWhile_trimStart s]
    rw [trimEnd_append hne, lex_append_blanks]
    exact fun c hc => mem_takeWhile_imp hc

variable {conj : List Tree} {condition : Text}

theorem splitTail_append {ts : List Tree} (h : ∀ t ∈ conj, t.startsTail = false) :
    splitTail (conj ++ ts) = ⟨conj ++ (splitTail ts).body, (splitTail ts).tail⟩ := by
  have hconj : ∀ t ∈ conj, (!t.startsTail) = true := by
    intro t ht
    rw [h t ht]
    rfl
  unfold splitTail
  rw [takeWhile_append_of_pos hconj, dropWhile_append_of_pos hconj]

/-- A spliced text lexes to the keyword, the predicate, an `AND` and its body. -/
theorem lex_trimEnd_splice {lead body : Text} {ms : List Lexeme}
    (hlead : ∀ c ∈ lead, isWhitespace c = true) (hms : LexesTo condition ms) :
    lex (trimEnd (splice lead condition body)) =
      (lex (trimEnd body)).map fun ls => ⟨.keyword, whereKeyword⟩ :: (ms ++ andLexeme :: ls) := by
  have hwhere : LexesTo whereKeyword [⟨.keyword, whereKeyword⟩] :=
    lexesTo_word ⟨'W', "HERE".toList, rfl, by decide, by decide⟩
  have hfront := (hwhere.append_blank hms).append_blank lexesTo_and
  have htext : splice lead condition body =
      lead ++ (whereKeyword ++ ' ' :: condition ++ ' ' :: "AND".toList) ++ ' ' :: body := by
    simp [splice, whereKeyword]
  by_cases hbody : trimEnd body = []
  · have hblank : trimEnd (' ' :: body) = [] := by
      rw [trimEnd_eq_nil_iff] at hbody ⊢
      exact forall_mem_cons.2 ⟨rfl, hbody⟩
    have hand : trimEnd "AND".toList = "AND".toList := by decide
    have hend : trimEnd (whereKeyword ++ ' ' :: condition ++ ' ' :: "AND".toList) =
        whereKeyword ++ ' ' :: condition ++ ' ' :: "AND".toList := by
      have h : trimEnd (whereKeyword ++ ' ' :: condition ++ [' '] ++ "AND".toList) = _ :=
        trimEnd_append (by decide)
      rw [hand] at h
      simpa using h
    have hne : trimEnd (whereKeyword ++ ' ' :: condition ++ ' ' :: "AND".toList) ≠ [] := by
      rw [hend]
      exact append_ne_nil_of_right_ne_nil _ (cons_ne_nil _ _)
    rw [htext, trimEnd_append_blanks hblank, trimEnd_append hne, hend, lex_append_blanks hlead,
      hfront.lex_eq, hbody]
    simp [lex]
  · have htrim : trimEnd (' ' :: body) = ' ' :: trimEnd body :=
      @trimEnd_append [' '] body hbody
    have hne : trimEnd (' ' :: body) ≠ [] := by
      rw [htrim]
      exact cons_ne_nil _ _
    have hblank : BlankNext (' ' :: trimEnd body) := by
      intro c hc
      obtain rfl : ' ' = c := some.inj hc
      rfl
    rw [htext, trimEnd_append hne, htrim, append_assoc, lex_append_blanks hlead,
      hfront _ hblank, lex_cons_blank (by rfl)]
    simp

def WhereReading.under (conj : List Tree) (r : WhereReading) : WhereReading :=
  ⟨conj ++ .leaf andLexeme :: r.body, r.tail⟩

/-- Read the text after the keyword of a WHERE clause. -/
def readBody (text : Text) : Option WhereReading := ((lex (trimEnd text)).bind trees).map splitTail

theorem readBody_trimStart (text : Text) : readBody (trimStart text) = readBody text := by
  unfold readBody
  rw [lex_trimEnd_trimStart]

theorem readBody_trimChars (text : Text) : readBody (trimChars text) = readBody text := by
  rw [← readBody_trimStart text, readBody, trimChars, trimEnd_idem]
  rfl

theorem readWhere_splice {lead body : Text} (hlead : ∀ c ∈ lead, isWhitespace c = true)
    (hconj : InjectedPredicate condition conj) :
    readWhere (splice lead condition body) = (readBody body).map (WhereReading.under conj) := by
  obtain ⟨ms, hms, htms⟩ := hconj.reads
  have hsplit : ∀ ts, splitTail (conj ++ .leaf andLexeme :: ts) =
      (splitTail ts).under conj := by
    intro ts
    have hplain : ∀ t ∈ conj ++ [.leaf andLexeme], t.startsTail = false := by
      intro t ht
      rcases mem_append.1 ht with ht | ht
      · exact hconj.noTail t ht
      · obtain rfl := mem_singleton.1 ht
        rfl
    have h : splitTail (conj ++ [.leaf andLexeme] ++ ts) = _ := splitTail_append hplain
    simpa [WhereReading.under] using h
  unfold readWhere readBody
  rw [lex_trimEnd_splice hlead hms]
  cases lex (trimEnd body) with
  | none => rfl
  | some ls =>
    show Option.map splitTail (trees (ms ++ andLexeme :: ls)) = _
    rw [trees_append_plain htms ⟨rfl, rfl⟩, Option.map_map, Option.bind_some, Option.map_map]
    congr 1
    funext ts
    exact hsplit ts

/-- What the rewriters take for the body of a clause. -/
def afterKeyword (text : Text) : Text :=
  (stripLeadingKeyword (trimStart text) whereKeyword).getD (trimStart text)

/-- The white space a clause starts with. -/
def leadWhitespace (text : Text) : Text := text.takeWhile isWhitespace

theorem isWhitespace_lead (text : Text) :
    ∀ c ∈ leadWhitespace text, isWhitespace c = true :=
  fun _ hc => mem_takeWhile_imp hc

theorem WorkspaceScope.prependToWhere_eq (condition text : Text) :
    WorkspaceScope.prependToWhere condition text =
      splice (leadWhitespace text) condition (trimStart (afterKeyword text)) := by
  unfold WorkspaceScope.prependToWhere splitLeadingWhitespace splice afterKeyword
  show (match stripLeadingKeyword (trimStart text) whereKeyword with
    | some rest => _
    | none => _) = _
  cases stripLeadingKeyword (trimStart text) whereKeyword with
  | none =>
    rw [getD_none, trimStart_idem]
    rfl
  | some rest => rfl

variable {text : Text}

theorem SoftDelete.prependToWhere_eq (hbody : trimEnd (afterKeyword text) ≠ []) :
    SoftDelete.prependToWhere condition text =
      splice (leadWhitespace text) condition (trimChars (afterKeyword text)) := by
  have hne : trimChars (afterKeyword text) ≠ [] :=
    fun h => hbody (trimEnd_trimStart_nil_iff.1 h)
  have hempty : (trimChars (afterKeyword text)).isEmpty = false := by
    rwa [← Bool.not_eq_true, List.isEmpty_iff]
  show (if (trimChars (afterKeyword text)).isEmpty then _ else _) = _
  rw [hempty, if_neg Bool.false_ne_true]
  rfl

theorem stripKeyword_iff {kw rest : Text} : stripLeadingKeyword text kw = some rest ↔
      ∃ w, text = w ++ rest ∧ upper w = kw ∧ (∀ c ∈ rest.head?, isWhitespace c = true) := by
  have hrest : ∀ r : Text, (r.isEmpty || r.head?.any isWhitespace) = true ↔
      ∀ c ∈ r.head?, isWhitespace c = true := by
    intro r
    cases r with
    | nil => simp
    | cons c cs => simp
  unfold stripLeadingKeyword
  constructor
  · intro h
    split_ifs at h with hw hr
    obtain rfl := some.inj h
    exact ⟨text.take kw.length, (take_append_drop _ _).symm, hw, (hrest _).1 hr⟩
  · intro h
    obtain ⟨w, rfl, hw, hr⟩ := h
    have hlen : w.length = kw.length := by
      rw [← hw, upper, length_map]
    rw [← hlen, take_left, drop_left, if_pos hw]
    rw [if_pos ((hrest _).2 hr)]

theorem isAlpha_of_toUpper {c : Char} (h : c.toUpper.isUpper = true) : c.isAlpha = true := by
  unfold Char.isAlpha
  by_cases hc : c.isLower
  · rw [hc, Bool.or_true]
  · have hself : c.toUpper = c := by
      unfold Char.toUpper
      rw [dif_neg]
      intro hrange
      refine hc ?_
      unfold Char.isLower
      rw [Bool.and_eq_true, decide_eq_true_eq, decide_eq_true_eq]
      exact hrange
    rw [hself] at h
    rw [h, Bool.true_or]

/-- A text in capitals that are letters is a word. -/
theorem isWord_of_upper {w : Text} (hne : w ≠ []) (h : ∀ c ∈ upper w, c.isUpper = true) :
    IsWord w := by
  have hall : ∀ c ∈ w, isIdentStart c = true := by
    intro c hc
    have halpha : c.isAlpha = true := isAlpha_of_toUpper (h _ (mem_map_of_mem hc))
    unfold isIdentStart
    rw [halpha, Bool.true_or]
  cases w with
  | nil => exact absurd rfl hne
  | cons c cs =>
    exact ⟨c, cs, rfl, hall c mem_cons_self,
      fun d hd => isIdentRest_of_start (hall d (mem_cons_of_mem c hd))⟩

theorem trimEnd_word {w : Text} (hw : IsWord w) : trimEnd w = w := by
  obtain ⟨c, cs, rfl, hc, hcs⟩ := hw
  rw [trimEnd, rdropWhile_eq_self_iff]
  intro hne hlast
  have hrest : isIdentRest ((c :: cs).getLast hne) = true := by
    rcases mem_cons.1 (getLast_mem hne) with h | h
    · rw [h]
      exact isIdentRest_of_start hc
    · exact hcs _ h
  rw [not_isIdentRest_of_blank hlast] at hrest
  cases hrest

theorem lex_trimEnd_word {w rest : Text} (hw : IsWord w)
    (hrest : ∀ c ∈ rest.head?, isWhitespace c = true) :
    lex (trimEnd (w ++ rest)) = (lex (trimEnd rest)).map (⟨wordKind w, w⟩ :: ·) := by
  by_cases hne : trimEnd rest = []
  · rw [trimEnd_append_blanks hne, trimEnd_word hw, hne]
    have h := lexesTo_word hw [] fun c hc => by cases hc
    rwa [append_nil] at h
  · have hnext : NotIdentNext (trimEnd rest) := by
      intro c hc
      obtain ⟨ys, hys⟩ := rdropWhile_prefix isWhitespace rest
      have hhead : c ∈ rest.head? := by
        rw [← hys, head?_append]
        show c ∈ (trimEnd rest).head?.or _
        rw [mem_def.1 hc]
        rfl
      exact not_isIdentRest_of_blank (hrest c hhead)
    rw [trimEnd_append hne, lex_word hw hnext]

/-- After white space, the keyword comes first and a blank or nothing follows. -/
def StartsWithWhere (text : Text) : Prop :=
  (stripLeadingKeyword (trimStart text) whereKeyword).isSome

/-- How a clause lexes that a rewriter recognizes, and one that it does not. -/
theorem lex_trimEnd_afterKeyword (text : Text) : (StartsWithWhere text ∧ ∃ w,
      lex (trimEnd text) = (lex (trimEnd (afterKeyword text))).map (⟨.keyword, w⟩ :: ·)) ∨
    ¬StartsWithWhere text ∧ lex (trimEnd text) = lex (trimEnd (afterKeyword text)) := by
  unfold afterKeyword StartsWithWhere
  cases hstrip : stripLeadingKeyword (trimStart text) whereKeyword with
  | none => exact .inr ⟨Bool.false_ne_true, (lex_trimEnd_trimStart text).symm⟩
  | some rest =>
    obtain ⟨w, htext, hw, hrest⟩ := stripKeyword_iff.1 hstrip
    have hword : IsWord w := by
      refine isWord_of_upper ?_ ?_
      · rintro rfl
        cases hw
      · rw [hw]
        decide
    have hkind : wordKind w = .keyword := by
      unfold wordKind isKeywordText
      rw [hw]
      rfl
    refine .inl ⟨rfl, w, ?_⟩
    rw [← lex_trimEnd_trimStart text, htext, lex_trimEnd_word hword hrest, hkind]
    rfl

/-! ## Conjoining -/

/-- A rewritten clause reads as the predicate conjoined to the clause before, and
keeps what follows the expression. -/
def Conjoins (conj : List Tree) (r : WhereReading) (text : Text) : Prop :=
  ∃ out, readWhere text = some out ∧ out.tail = r.tail ∧
    ∀ v, ∃ c b, exprValue v conj = some c ∧ exprValue v r.body = some b ∧
      exprValue v out.body = some (Truth.and c b)

/-- Nothing outside the first conjunction makes the expression true. -/
def FirstConjunctionDecides (r : WhereReading) : Prop :=
  ∀ v, restValue operator (operandValue v) (items v r.body) = some (some false)

variable {r : WhereReading}

/-- An expression without `OR` and `XOR` outside brackets is one conjunction. -/
theorem firstDecides_of_chain (h : ∀ t ∈ r.body, t.IsChainLink) :
    FirstConjunctionDecides r := by
  intro v
  have hchain := isChain_items h v
  have hafter : afterChain operator (items v r.body) = [] := by
    unfold afterChain
    rw [dropWhile_eq_nil_iff]
    intro x hx
    rw [(hchain x hx).1, (hchain x hx).2]
    rfl
  unfold restValue
  rw [hafter]
  rfl

variable {l : Lexeme}

section

variable (hl : l.isKeyword "WHERE" = true)
include hl

theorem not_isKeyword_of_where {kw : String}
    (hkw : kw.toList ≠ whereKeyword) : l.isKeyword kw = false := by
  unfold Lexeme.isKeyword at hl ⊢
  simp only [Bool.and_eq_true, beq_iff_eq] at hl
  rw [hl.2, Bool.and_eq_false_iff]
  exact .inr (beq_eq_false_iff_ne.2 fun h => hkw h.symm)

theorem isPlain_of_where : l.IsPlain := by
  have hkind : l.kind ≠ .paren := by
    intro h
    unfold Lexeme.isKeyword at hl
    rw [h] at hl
    cases hl
  constructor
  · rw [closerOf, if_neg hkind, not_isKeyword_of_where hl (by decide)]
    rfl
  · rw [asCloser, if_neg hkind, not_isKeyword_of_where hl (by decide)]
    rfl

theorem startsTail_where : (Tree.leaf l).startsTail = false := by
  show (l.isKeyword "ORDER" || l.isKeyword "SKIP" || l.isKeyword "LIMIT" ||
    l.isKeyword "USING") = false
  rw [not_isKeyword_of_where hl (by decide), not_isKeyword_of_where hl (by decide),
    not_isKeyword_of_where hl (by decide), not_isKeyword_of_where hl (by decide)]
  rfl

theorem operator_where (o : Option Truth) : operator (.leaf l, o) = none := by
  show (if l.isKeyword "OR" then some Op.or else if l.isKeyword "XOR" then some .xor
    else if l.isKeyword "AND" then some .and else if l.isKeyword "NOT" then some .not
    else none) = none
  rw [not_isKeyword_of_where hl (by decide), not_isKeyword_of_where hl (by decide),
    not_isKeyword_of_where hl (by decide), not_isKeyword_of_where hl (by decide)]
  rfl

/-- An operand that starts with the keyword `WHERE` has no value. -/
theorem andValue_where (v : Valuation) (o : Option Truth)
    (xs : List Item) : andValue operator (operandValue v) ((.leaf l, o) :: xs) = none := by
  have hop := operator_where hl o
  have hoperand : ∀ ys : List Item, operandValue v ((.leaf l, o) :: ys) = none := by
    intro ys
    have hany : (((Tree.leaf l, o) :: ys).any fun x => x.1.isKeyword "WHERE") = true := by
      rw [any_cons]
      show (l.isKeyword "WHERE" || _) = true
      rw [hl, Bool.true_or]
    unfold operandValue
    split
    · rfl
    · next h => cases (List.cons.inj h).1
    · rw [if_pos hany]
  have hnot : ∀ ys : List Item,
      notValue operator (operandValue v) ((.leaf l, o) :: ys) = none := by
    intro ys
    rw [notValue, isOp, hop, hoperand]
    rfl
  unfold andValue combine
  rw [segments_cons, isOp, hop]
  show bind (notValue operator (operandValue v) ((.leaf l, o) :: _)) _ = none
  rw [hnot]
  rfl

end

section

variable {lead body : Text} {r : WhereReading}
  (hlead : ∀ c ∈ lead, isWhitespace c = true) (hbody : readBody body = some r)

include hlead hbody

theorem conjoins_splice (hconj : InjectedPredicate condition conj)
    (hvalued : ∀ v, (exprValue v r.body).isSome) (hrest : FirstConjunctionDecides r) :
    Conjoins conj r (splice lead condition body) := by
  refine ⟨r.under conj, ?_, rfl, ?_⟩
  · rw [readWhere_splice hlead hconj, hbody]
    rfl
  · intro v
    obtain ⟨c, hc⟩ := isSome_iff_exists.1 (hconj.valued v)
    obtain ⟨b, hb⟩ := isSome_iff_exists.1 (hvalued v)
    refine ⟨c, b, ?_, hb, ?_⟩
    · rw [exprValue_of_chain hconj.chain, hc]
    · unfold exprValue WhereReading.under
      rw [items_append, items]
      exact value_append_and_of_rest operator (operandValue v) (isChain_items hconj.chain v) rfl hc
        hb (hrest v)

/-- Where a predicate conjoins that is false, nothing else makes the expression
true. -/
theorem rest_of_conjoins (hconj : InjectedPredicate condition conj)
    (h : Conjoins conj r (splice lead condition body)) {v : Valuation}
    (hfalse : exprValue v conj = some (some false)) :
    restValue operator (operandValue v) (items v r.body) = some (some false) := by
  obtain ⟨out, hout, -, hvalue⟩ := h
  rw [readWhere_splice hlead hconj, hbody] at hout
  obtain rfl := some.inj hout
  obtain ⟨c, b, hc, -, hv⟩ := hvalue v
  obtain rfl : some false = c := some.inj (hfalse.symm.trans hc)
  rw [Truth.false_and] at hv
  unfold exprValue WhereReading.under at hv
  rw [items_append, items] at hv
  rw [exprValue_of_chain hconj.chain] at hfalse
  exact rest_of_value_append_and operator (operandValue v) (isChain_items hconj.chain v) rfl
    hfalse hv

end

/-- A conjunct that starts with the keyword `WHERE` leaves the whole without a
value. -/
theorem exprValue_under_where (hl : l.isKeyword "WHERE" = true)
    (hchain : ∀ t ∈ conj, t.IsChainLink) {ts : List Tree} (hr : r.body = .leaf l :: ts)
    (v : Valuation) : exprValue v (r.under conj).body = none := by
  have hfirst : firstChain operator ((.leaf l, none) :: items v ts) =
      (.leaf l, none) :: firstChain operator (items v ts) := by
    unfold firstChain
    rw [takeWhile_cons, isOp, isOp, operator_where hl]
    rfl
  have hitems : items v (r.under conj).body =
      items v conj ++ (.leaf andLexeme, none) :: ((.leaf l, none) :: items v ts) := by
    unfold WhereReading.under
    rw [hr, items_append]
    rfl
  unfold exprValue
  rw [hitems, value_append_and operator (operandValue v) (isChain_items hchain v) rfl, hfirst,
    andValue_where hl]
  cases andValue operator (operandValue v) (items v conj) with
  | none => rfl
  | some c => rfl

/-- How the rewriters take a clause apart that reads as a WHERE clause: they find
the keyword, or they leave it in the body. -/
theorem readBody_afterKeyword (hread : readWhere text = some r) :
    (StartsWithWhere text ∧ readBody (afterKeyword text) = some r) ∨
    (¬StartsWithWhere text ∧ ∃ l, l.isKeyword "WHERE" = true ∧
      readBody (afterKeyword text) = some ⟨.leaf l :: r.body, r.tail⟩) := by
  obtain ⟨lexemes, hlexemes, hread⟩ := bind_eq_some_iff.1 hread
  cases lexemes with
  | nil => cases hread
  | cons l ls =>
    have hl : l.isKeyword "WHERE" = true := by
      by_contra h
      simp only [h, if_false, reduceCtorEq] at hread
    simp only [hl, if_true] at hread
    rcases lex_trimEnd_afterKeyword text with ⟨hstarts, w, hafter⟩ | ⟨hstarts, hafter⟩
    · rw [hlexemes] at hafter
      obtain ⟨ls', hls', heq⟩ := map_eq_some_iff.1 hafter.symm
      obtain ⟨-, rfl⟩ := List.cons.inj heq
      refine .inl ⟨hstarts, ?_⟩
      rw [readBody, hls', bind_some, hread]
    · rw [hlexemes] at hafter
      refine .inr ⟨hstarts, l, hl, ?_⟩
      obtain ⟨ts, hts, rfl⟩ := map_eq_some_iff.1 hread
      rw [readBody, ← hafter, bind_some, trees_cons_plain (isPlain_of_where hl), hts]
      have hsplit : splitTail ([.leaf l] ++ ts) = _ := splitTail_append fun t ht => by
        obtain rfl := mem_singleton.1 ht
        exact startsTail_where hl
      exact congrArg some hsplit

theorem exprValue_nil (v : Valuation) : exprValue v [] = none := rfl

/-- A well-formed clause has a body after its keyword. -/
theorem trimEnd_afterKeyword_ne_nil (hread : readWhere text = some r)
    (hvalued : ∀ v, (exprValue v r.body).isSome) : trimEnd (afterKeyword text) ≠ [] := by
  intro h
  have hbody : readBody (afterKeyword text) = some ⟨[], []⟩ := by
    rw [readBody, h]
    rfl
  rcases readBody_afterKeyword hread with ⟨-, hr⟩ | ⟨-, l, -, hr⟩
  · obtain rfl := some.inj (hbody.symm.trans hr)
    have hnone := hvalued fun _ => none
    rw [exprValue_nil] at hnone
    cases hnone
  · cases some.inj (hbody.symm.trans hr)

/-- A rewriter that splices its predicate in front of what it takes for the body
conjoins it under one condition on the clause. -/
theorem conjoins_iff_of_splice {f : Text → Text} {body : Text} (hread : readWhere text = some r)
    (hvalued : ∀ v, (exprValue v r.body).isSome)
    (hf : trimEnd (afterKeyword text) ≠ [] → ∀ c, f c = splice (leadWhitespace text) c body)
    (hbody : readBody body = readBody (afterKeyword text)) :
    ((∀ c conj, InjectedPredicate c conj → Conjoins conj r (f c)) ↔
      StartsWithWhere text ∧ FirstConjunctionDecides r) ∧
    (Conjoins [falseTree] r (f "false".toList) ↔
      StartsWithWhere text ∧ FirstConjunctionDecides r) := by
  have hlead := isWhitespace_lead text
  have hne := trimEnd_afterKeyword_ne_nil hread hvalued
  -- it suffices to conjoin `false`
  suffices h : (StartsWithWhere text ∧ FirstConjunctionDecides r →
        ∀ c conj, InjectedPredicate c conj → Conjoins conj r (f c)) ∧
      (Conjoins [falseTree] r (f "false".toList) →
        StartsWithWhere text ∧ FirstConjunctionDecides r) from
    ⟨⟨fun hall => h.2 (hall _ _ injected_false), h.1⟩,
      ⟨h.2, fun hcond => h.1 hcond _ _ injected_false⟩⟩
  rcases readBody_afterKeyword hread with ⟨hstarts, hafter⟩ | ⟨hstarts, l, hl, hafter⟩
  · rw [← hbody] at hafter
    refine ⟨fun hcond c conj hc => ?_, fun h => ⟨hstarts, fun v => ?_⟩⟩
    · rw [hf hne]
      exact conjoins_splice hlead hafter hc hvalued hcond.2
    · rw [hf hne] at h
      exact rest_of_conjoins hlead hafter injected_false h rfl
  · -- the keyword stays in the body
    rw [← hbody] at hafter
    refine ⟨fun hcond => absurd hcond.1 hstarts, fun h => ?_⟩
    obtain ⟨out, hout, -, hvalue⟩ := h
    rw [hf hne, readWhere_splice hlead injected_false, hafter] at hout
    obtain rfl := some.inj hout
    obtain ⟨c, b, -, -, hv⟩ := hvalue fun _ => none
    rw [exprValue_under_where hl injected_false.chain rfl] at hv
    cases hv

/-- The rewriters conjoin their predicates exactly to the clauses that start with
the keyword and a blank and in which the first conjunction decides. -/
theorem rewriters_conjoin_iff {text : Text} {r : WhereReading} (hread : readWhere text = some r)
    (hvalued : ∀ v, (exprValue v r.body).isSome) : ((∀ c conj, InjectedPredicate c conj →
        Conjoins conj r (WorkspaceScope.prependToWhere c text)) ↔
      StartsWithWhere text ∧ FirstConjunctionDecides r) ∧
    ((∀ c conj, InjectedPredicate c conj → Conjoins conj r (SoftDelete.prependToWhere c text)) ↔
      StartsWithWhere text ∧ FirstConjunctionDecides r) ∧
    (Conjoins [falseTree] r (Acl.prependFalseToWhere text) ↔
      StartsWithWhere text ∧ FirstConjunctionDecides r) := by
  have hscope := conjoins_iff_of_splice (f := fun c => WorkspaceScope.prependToWhere c text) hread
    hvalued (fun _ c => WorkspaceScope.prependToWhere_eq c text) (readBody_trimStart _)
  have hdelete := conjoins_iff_of_splice (f := fun c => SoftDelete.prependToWhere c text) hread
    hvalued (fun h c => SoftDelete.prependToWhere_eq h) (readBody_trimChars _)
  rw [Acl.prependFalseToWhere_eq]
  exact ⟨hscope.1, hdelete.1, hdelete.2⟩

/-- A clause of one conjunction with an `ORDER BY` after it. -/
theorem prependFalseToWhere_conjoins : Conjoins [falseTree]
      ⟨[.leaf ⟨.identifier, ['a']⟩, .leaf andLexeme, .leaf ⟨.identifier, ['b']⟩],
        [.leaf ⟨.keyword, "ORDER".toList⟩, .leaf ⟨.keyword, "BY".toList⟩,
          .leaf ⟨.identifier, ['c']⟩]⟩
      (Acl.prependFalseToWhere " WHERE a AND b ORDER BY c".toList) :=
  (rewriters_conjoin_iff rfl fun _ => rfl).2.2.2
    ⟨rfl, firstDecides_of_chain (by decide)⟩

/-- The clause `WHERE a OR b`. -/
def disjunction : WhereReading :=
  ⟨[.leaf ⟨.identifier, ['a']⟩, .leaf ⟨.keyword, "OR".toList⟩, .leaf ⟨.identifier, ['b']⟩], []⟩

/-- Where only `b` holds, every row passes the denial, a deleted one passes the
soft delete, and one of another workspace passes the workspace scope. -/
theorem rewriters_leak_disjunction : readWhere "WHERE a OR b".toList = some disjunction ∧
      ¬Conjoins (guardTrees "n".toList "_workspace_id".toList "_ws_id".toList) disjunction
        (WorkspaceScope.prependToWhere "n._workspace_id = $_ws_id".toList "WHERE a OR b".toList) ∧
      ¬Conjoins (nullCheckTrees "n".toList "_deleted_at".toList) disjunction
        (SoftDelete.prependToWhere "n._deleted_at IS NULL".toList "WHERE a OR b".toList) ∧
      ¬Conjoins [falseTree] disjunction (Acl.prependFalseToWhere "WHERE a OR b".toList) := by
  -- only `b` holds
  let u : Valuation := fun ts =>
    some (ts.any fun t => t.casesOn (fun l => l.text == ['b']) fun _ _ => false)
  have hn : IsName "n".toList := ⟨⟨'n', [], rfl, by decide, by decide⟩, by decide⟩
  have hw : IsName "_workspace_id".toList :=
    ⟨⟨'_', "workspace_id".toList, rfl, by decide, by decide⟩, by decide⟩
  have hd : IsName "_deleted_at".toList :=
    ⟨⟨'_', "deleted_at".toList, rfl, by decide, by decide⟩, by decide⟩
  have hsplice : ∀ {condition : Text} {conj : List Tree}, InjectedPredicate condition conj →
      exprValue u conj = some (some false) →
      ¬Conjoins conj disjunction (splice [] condition "a OR b".toList) := by
    intro condition conj hconj hfalse h
    have hrest := rest_of_conjoins (fun c hc => by cases hc) rfl hconj h hfalse
    cases hrest
  refine ⟨rfl, ?_, ?_, ?_⟩
  · rw [WorkspaceScope.prependToWhere_eq]
    exact hsplice (injectedPredicate_guard hn hw (q := "_ws_id".toList) (by decide))
      rfl
  · rw [SoftDelete.prependToWhere_eq (by decide)]
    exact hsplice (injectedPredicate_nullCheck hn hd) rfl
  · rw [Acl.prependFalseToWhere_eq, SoftDelete.prependToWhere_eq (by decide)]
    exact hsplice injected_false rfl

end Ontosyx.Cypher
