import Ontosyx.Cypher.GuardConjuncts

/-!
# Assignments of a SET clause

The items of a SET are the parts between its commas.  `prepend_to_set` puts the
guard of a variable in front of them.  Two texts are `Apart` when neither reaches
into the other: the lexemes of both together are those of each.

## Main results

* `lex_prependToSet` — what a SET lexes to once an assignment is in front.
* `setItems_prependToSet` — its items are the assignment and those it had.
-/

namespace Ontosyx.Cypher

open List Ontosyx.Core Lib.Precedence Option

/-- The lexemes of both texts together are those of each. -/
def Apart (t u : Text) : Prop :=
  ∃ ls ms, lex t = some ls ∧ lex u = some ms ∧ lex (t ++ u) = some (ls ++ ms)

def WordNext (s : Text) : Prop := ∃ c ∈ s.head?, isIdentStart c = true

/-- Both texts start with a blank or both start a word. -/
def SameStart (u s : Text) : Prop := BlankNext u ∧ BlankNext s ∨ WordNext u ∧ WordNext s

/-- Nothing in `t` reaches over its end into a text that starts like `u`. -/
def Closed (t u : Text) : Prop :=
  ∃ ls, lex t = some ls ∧ ∀ s, SameStart u s → lex (t ++ s) = (lex s).map (ls ++ ·)

theorem Closed.apart {t u s : Text} (h : Closed t u) (hs : SameStart u s) {ms : List Lexeme}
    (hms : lex s = some ms) : Apart t s := by
  obtain ⟨ls, hls, hall⟩ := h
  refine ⟨ls, ms, hls, hms, ?_⟩
  rw [hall s hs, hms]
  rfl

/-- The comma between two items. -/
def comma : Lexeme := ⟨.punctuation, [',']⟩

def Tree.isComma : Tree → Bool
  | .leaf l => l == comma
  | .group _ _ => false

def commaParts (ts : List Tree) : List (List Tree) :=
  (segments Tree.isComma ts).1 :: (segments Tree.isComma ts).2

def assignments (text : Text) : Option (List (List Tree)) := do
  match ← lex text with
  | [] => none
  | w :: ls => if w.isKeyword "SET" then (trees ls).map commaParts else none

theorem commaParts_append {xs : List Tree} (hxs : ∀ t ∈ xs, t.isComma = false) (ys : List Tree) :
    commaParts (xs ++ .leaf comma :: ys) = xs :: commaParts ys := by
  unfold commaParts
  rw [segments_append_cons Tree.isComma xs (a := .leaf comma) rfl ys, segments_eq_self _ hxs]
  rfl

theorem commaParts_eq_singleton {xs : List Tree} (hxs : ∀ t ∈ xs, t.isComma = false) :
    commaParts xs = [xs] := by
  unfold commaParts
  rw [segments_eq_self _ hxs]

/-! ## A guard in front -/

theorem lex_comma (s : Text) : lex (',' :: s) = (lex s).map (comma :: ·) := by
  refine lex_of_scan_not_blank ?_ rfl
  rw [scan_cons]
  rfl

/-- A SET that the rewriter takes apart: white space, the keyword, and a body that
starts with a blank. -/
structure SetParts (text lead keyword body : Text) : Prop where
  text_eq : text = lead ++ keyword ++ body
  lead_blank : ∀ c ∈ lead, isWhitespace c = true
  keyword_eq : upper keyword = setKeyword
  body_blank : BlankNext body

/-- The text is such a SET, and its body is not empty. -/
def StartsWithSet (text : Text) : Prop :=
  ∃ rest, stripLeadingKeyword (trimStart text) setKeyword = some rest ∧ rest ≠ []

variable {text : Text}

theorem StartsWithSet.parts (h : StartsWithSet text) :
    ∃ keyword body, SetParts text (leadWhitespace text) keyword body ∧ body ≠ [] ∧
      stripLeadingKeyword (trimStart text) setKeyword = some body := by
  obtain ⟨body, hstrip, hne⟩ := h
  obtain ⟨keyword, htext, hkeyword, hbody⟩ := stripKeyword_iff.1 hstrip
  refine ⟨keyword, body, ⟨?_, isWhitespace_lead text, hkeyword, hbody⟩, hne, hstrip⟩
  rw [append_assoc, ← htext]
  exact (takeWhile_trimStart text).symm

variable {body : Text}

theorem SetParts.isWord {lead keyword : Text} (h : SetParts text lead keyword body) :
    IsWord keyword := by
  refine isWord_of_upper ?_ ?_
  · rintro rfl
    cases h.keyword_eq
  · rw [h.keyword_eq]
    decide

theorem SetParts.wordKind_eq {lead keyword : Text} (h : SetParts text lead keyword body) :
    wordKind keyword = .keyword := by
  unfold wordKind isKeywordText
  rw [h.keyword_eq]
  rfl

theorem SetParts.lex_append {lead keyword : Text} (h : SetParts text lead keyword body)
    (hne : body ≠ []) (s : Text) :
    lex (text ++ s) = (lex (body ++ s)).map (⟨.keyword, keyword⟩ :: ·) := by
  have hnext : NotIdentNext (body ++ s) := by
    cases body with
    | nil => exact absurd rfl hne
    | cons c cs => exact notIdentNext_of_blankNext h.body_blank
  rw [h.text_eq, append_assoc, append_assoc, lex_append_blanks h.lead_blank,
    lex_word h.isWord hnext, h.wordKind_eq]

theorem lex_trimStart_append (body s : Text) : lex (trimStart body ++ s) = lex (body ++ s) := by
  conv_rhs => rw [← takeWhile_trimStart body, append_assoc]
  exact (lex_append_blanks (isWhitespace_lead body) _).symm

theorem trees_of_plain {ls : List Lexeme} (h : ∀ l ∈ ls, l.IsPlain) :
    trees ls = some (ls.map .leaf) := by
  induction ls with
  | nil => rfl
  | cons l ls ih =>
    rw [trees_cons_plain (h l mem_cons_self), ih fun m hm => h m (mem_cons_of_mem l hm)]
    rfl

theorem guardLexemes_isPlain (v p q : Text) : ∀ l ∈ guardLexemes v p q, l.IsPlain := by
  unfold guardLexemes
  simp only [forall_mem_cons, not_mem_nil, false_imp_iff, implies_true, and_true]
  exact ⟨⟨rfl, rfl⟩, ⟨rfl, rfl⟩, ⟨rfl, rfl⟩, ⟨rfl, rfl⟩, ⟨rfl, rfl⟩⟩

theorem guardTrees_not_comma (v p q : Text) : ∀ t ∈ guardTrees v p q, t.isComma = false := by
  unfold guardTrees guardLexemes
  simp only [map_cons, map_nil, forall_mem_cons, not_mem_nil, false_imp_iff, implies_true, and_true]
  exact ⟨rfl, rfl, rfl, rfl, rfl⟩

theorem prependToSet_eq (assignment : Text)
    (hstrip : stripLeadingKeyword (trimStart text) setKeyword = some body) :
    prependToSet assignment text = leadWhitespace text ++
      (setKeyword ++ ' ' :: (assignment ++ ',' :: ' ' :: trimStart body)) := by
  unfold prependToSet splitLeadingWhitespace
  rw [trimStart] at hstrip
  dsimp only
  rw [hstrip]
  simp [leadWhitespace, setKeyword]

/-- An assignment in front keeps how a SET starts. -/
theorem sameStart_prependToSet (assignment : Text) (hstarts : StartsWithSet text) :
    SameStart text (prependToSet assignment text) := by
  obtain ⟨keyword, body, hparts, -, hstrip⟩ := hstarts.parts
  rw [prependToSet_eq assignment hstrip]
  cases hlead : leadWhitespace text with
  | nil =>
    obtain ⟨c, cs, hkeyword, hc, -⟩ := hparts.isWord
    refine .inr ⟨⟨c, ?_, hc⟩, ⟨'S', rfl, rfl⟩⟩
    rw [hparts.text_eq, hlead, hkeyword]
    rfl
  | cons c cs =>
    have hc : isWhitespace c = true :=
      isWhitespace_lead text c (hlead ▸ mem_cons_self)
    refine .inl ⟨?_, ?_⟩
    · rw [hparts.text_eq, hlead]
      intro d hd
      obtain rfl : c = d := some.inj hd
      exact hc
    · intro d hd
      obtain rfl : c = d := some.inj hd
      exact hc

section

variable {rw : WorkspaceScopeRewriter} (hrw : rw.IsConfig) {v : Text} (hv : IsName v)

include hrw hv

/-- What a SET lexes to once an assignment is in front. -/
theorem lex_prependToSet {text body : Text}
    (hstrip : stripLeadingKeyword (trimStart text) setKeyword = some body) (s : Text) :
    lex (prependToSet (rw.guard v) text ++ s) =
      (lex (body ++ s)).map fun ls => ⟨.keyword, setKeyword⟩ ::
        (guardLexemes v rw.property rw.paramName ++ comma :: ls) := by
  have htext : prependToSet (rw.guard v) text ++ s = leadWhitespace text ++
      (setKeyword ++ ' ' :: (rw.guard v ++ ',' :: ' ' :: (trimStart body ++ s))) := by
    rw [prependToSet_eq _ hstrip]
    simp
  have hset : IsWord setKeyword := ⟨'S', "ET".toList, rfl, by decide, by decide⟩
  have hblank : ∀ x : Text, NotIdentNext (' ' :: x) := by
    intro x c hc
    obtain rfl : ' ' = c := some.inj hc
    rfl
  have hcomma : ∀ x : Text, NotIdentNext (',' :: x) := by
    intro x c hc
    obtain rfl : ',' = c := some.inj hc
    rfl
  rw [htext, lex_append_blanks (isWhitespace_lead text), lex_word hset (hblank _),
    lex_cons_blank (by rfl), WorkspaceScopeRewriter.guard,
    lex_guard_append hv hrw.property hrw.paramName (hcomma _), lex_comma, lex_cons_blank (by rfl),
    lex_trimStart_append]
  cases lex (body ++ s) with
  | none => rfl
  | some ls => rfl

/-- A SET whose items are known, and the same with an assignment in front. -/
theorem setItems_prependToSet {text : Text} (hstarts : StartsWithSet text)
    {items : List (List Tree)} (hitems : assignments text = some items) :
    assignments (prependToSet (rw.guard v) text) = some (rw.guardAtom v :: items) := by
  obtain ⟨keyword, body, hparts, hne, hstrip⟩ := hstarts.parts
  have hlex := hparts.lex_append hne []
  have hlex' := lex_prependToSet hrw hv hstrip []
  rw [append_nil, append_nil] at hlex hlex'
  have hset : (⟨.keyword, keyword⟩ : Lexeme).isKeyword "SET" = true := by
    unfold Lexeme.isKeyword
    rw [Bool.and_eq_true]
    exact ⟨rfl, beq_iff_eq.2 hparts.keyword_eq⟩
  unfold assignments at hitems ⊢
  rw [hlex] at hitems
  rw [hlex']
  cases hbody : lex body with
  | none =>
    rw [hbody] at hitems
    cases hitems
  | some ls =>
    rw [hbody] at hitems
    simp only [Option.map_some, Option.bind_eq_bind, Option.bind_some, hset, if_true,
      Option.map_eq_some_iff] at hitems
    obtain ⟨ts, hts, rfl⟩ := hitems
    show Option.map commaParts
      (trees (guardLexemes v rw.property rw.paramName ++ comma :: ls)) = _
    rw [trees_append_plain (trees_of_plain (guardLexemes_isPlain v _ _)) ⟨rfl, rfl⟩, hts]
    exact congrArg some (commaParts_append (guardTrees_not_comma v _ _) ts)

/-- An assignment in front does not change how a SET meets the text after it. -/
theorem apart_prependToSet {text t : Text} (hstarts : StartsWithSet text) (h : Apart text t) :
    Apart (prependToSet (rw.guard v) text) t := by
  obtain ⟨keyword, body, hparts, hne, hstrip⟩ := hstarts.parts
  obtain ⟨ls, ms, hls, hms, hboth⟩ := h
  have hlex := hparts.lex_append hne []
  have hlex' := lex_prependToSet hrw hv hstrip []
  rw [append_nil, append_nil] at hlex hlex'
  rw [hls] at hlex
  rw [hparts.lex_append hne] at hboth
  obtain ⟨xs, hxs, rfl⟩ := Option.map_eq_some_iff.1 hlex.symm
  obtain ⟨ys, hys, heq⟩ := Option.map_eq_some_iff.1 hboth
  obtain rfl : ys = xs ++ ms := (List.cons.inj heq).2
  refine ⟨_, ms, hlex'.trans (by rw [hxs]; rfl), hms, ?_⟩
  rw [lex_prependToSet hrw hv hstrip, hys]
  simp

/-- A new SET in front of a text that does not go on with a word character. -/
theorem lex_newSet_append {s : Text} (hs : NotIdentNext s) :
    lex ((rw.newSet v).text ++ s) = (lex s).map fun ls => ⟨.keyword, setKeyword⟩ ::
      (guardLexemes v rw.property rw.paramName ++ ls) := by
  have htext : (rw.newSet v).text ++ s = ' ' :: (setKeyword ++ ' ' :: (rw.guard v ++ s)) := by
    simp [WorkspaceScopeRewriter.newSet, setKeyword]
  have hset : IsWord setKeyword := ⟨'S', "ET".toList, rfl, by decide, by decide⟩
  have hblank : NotIdentNext (' ' :: (rw.guard v ++ s)) := by
    intro c hc
    obtain rfl : ' ' = c := Option.some.inj hc
    rfl
  rw [htext, lex_cons_blank (by rfl), lex_word hset hblank, lex_cons_blank (by rfl),
    WorkspaceScopeRewriter.guard, lex_guard_append hv hrw.property hrw.paramName hs, Option.map_map]
  rfl

theorem assignments_newSet : assignments (rw.newSet v).text = some [rw.guardAtom v] := by
  have hlex := lex_newSet_append hrw hv (s := []) fun c hc => by cases hc
  rw [append_nil] at hlex
  unfold assignments
  rw [hlex]
  show Option.map commaParts (trees (guardLexemes v rw.property rw.paramName ++ [])) = _
  rw [append_nil, trees_of_plain (guardLexemes_isPlain v _ _)]
  exact congrArg some (commaParts_eq_singleton (guardTrees_not_comma v _ _))

theorem apart_newSet {t : Text} (ht : NotIdentNext t) {ms : List Lexeme} (hms : lex t = some ms) :
    Apart (rw.newSet v).text t := by
  have hnil := lex_newSet_append hrw hv (s := []) fun c hc => by cases hc
  rw [append_nil] at hnil
  refine ⟨_, ms, hnil, hms, ?_⟩
  rw [lex_newSet_append hrw hv ht, hms]
  simp

end

end Ontosyx.Cypher
