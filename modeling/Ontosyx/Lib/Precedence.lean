import Mathlib.Data.Fintype.Option
import Mathlib.Data.List.TakeWhile

/-!
# Boolean expressions read by operator precedence

An expression is a list of items, some of which are the operators `or`, `xor`,
`and` and `not`.  It is read with `not` binding tightest and `or` loosest: split
at the `or`s, each part at the `xor`s, each of these at the `and`s, and what
remains is an operand under a run of `not`s.  Truth values are three-valued.

Everything before the first `or` or `xor` is a conjunction, and the value of the
expression depends on it in one place: it is `s ∨ (r ⊕ t)` for the value `t` of
that conjunction.  Prefixing a conjunct therefore conjoins it to the whole
expression exactly when `s ∨ r` is false.

## Main results

* `value_append_and` — prefixing a conjunct changes the first conjunction.
* `rest_of_value_append_and` — and a false prefix does so nowhere else.
-/

namespace Ontosyx.Lib.Precedence

open List Option

/-! ## Truth values -/

/-- A truth value; `none` is unknown. -/
abbrev Truth := Option Bool

namespace Truth

def and : Truth → Truth → Truth
  | some false, _ => some false
  | _, some false => some false
  | some true, b => b
  | a, some true => a
  | none, none => none

def or : Truth → Truth → Truth
  | some true, _ => some true
  | _, some true => some true
  | some false, b => b
  | a, some false => a
  | none, none => none

def xor : Truth → Truth → Truth
  | some a, some b => some (a != b)
  | _, _ => none

def not (a : Truth) : Truth := a.map (!·)

theorem and_assoc (a b c : Truth) : and (and a b) c = and a (and b c) := by
  revert a b c
  decide

theorem or_assoc (a b c : Truth) : or (or a b) c = or a (or b c) := by
  revert a b c
  decide

theorem xor_assoc (a b c : Truth) : xor (xor a b) c = xor a (xor b c) := by
  revert a b c
  decide

instance : Std.Associative and := ⟨and_assoc⟩
instance : Std.Associative or := ⟨or_assoc⟩
instance : Std.Associative xor := ⟨xor_assoc⟩

@[simp] theorem or_false (a : Truth) : or a (some false) = a := by
  revert a
  decide

@[simp] theorem xor_false (a : Truth) : xor a (some false) = a := by
  revert a
  decide

@[simp] theorem false_and (a : Truth) : and (some false) a = some false := by
  revert a
  decide

/-- A disjunction that is false when its first part is false has nothing else
in it. -/
theorem or_xor_false_iff {r s : Truth} :
    or (xor (some false) r) s = some false ↔ r = some false ∧ s = some false := by
  revert r s
  decide

end Truth

section

variable {α : Type} (p : α → Bool)

/-- The parts between the items that satisfy `p`: the first, and the others. -/
def segments : List α → List α × List (List α)
  | [] => ([], [])
  | x :: xs =>
    let (s, ss) := segments xs
    if p x then ([], s :: ss) else (x :: s, ss)

theorem segments_cons (x : α) (xs : List α) : segments p (x :: xs) =
    if p x then ([], (segments p xs).1 :: (segments p xs).2)
    else (x :: (segments p xs).1, (segments p xs).2) := rfl

theorem segments_append {xs : List α} (hxs : ∀ x ∈ xs, p x = false) (ys : List α) :
    segments p (xs ++ ys) = (xs ++ (segments p ys).1, (segments p ys).2) := by
  induction xs with
  | nil => rfl
  | cons x xs ih =>
    have hx : p x = false := hxs x mem_cons_self
    have hrest := ih fun y hy => hxs y (mem_cons_of_mem x hy)
    simp only [cons_append, segments_cons, hrest, hx, Bool.false_eq_true, if_false]

theorem segments_eq_self {xs : List α} (hxs : ∀ x ∈ xs, p x = false) :
    segments p xs = (xs, []) := by
  have h := segments_append p hxs []
  rw [append_nil] at h
  rw [h]
  show (xs ++ [], []) = (xs, [])
  rw [append_nil]

/-- Splitting at an item that satisfies `p`. -/
theorem segments_append_cons (xs : List α) {a : α} (ha : p a = true) (ys : List α) :
    segments p (xs ++ a :: ys) =
      ((segments p xs).1, (segments p xs).2 ++ (segments p ys).1 :: (segments p ys).2) := by
  induction xs with
  | nil =>
    rw [nil_append, segments_cons, if_pos ha]
    rfl
  | cons x xs ih =>
    simp only [cons_append, segments_cons, ih]
    cases p x <;> rfl

end

/-- Combine the values of the parts, from the left.  A part without a value
leaves the whole without one. -/
def combine {β : Type} (f : Truth → Truth → Truth) (g : β → Option Truth) (parts : β × List β) :
    Option Truth := do
  let a ← g parts.1
  let bs ← parts.2.mapM g
  return bs.foldl f a

/-! ## Reading -/

inductive Op where
  | or
  | xor
  | and
  | not
deriving DecidableEq

section

variable {α : Type} (op : α → Option Op) (operand : List α → Option Truth)

def isOp (o : Op) (x : α) : Bool := op x == some o

/-- An operand under a run of `not`s. -/
def notValue : List α → Option Truth
  | [] => operand []
  | x :: xs => if isOp op .not x then (notValue xs).map Truth.not else operand (x :: xs)

def andValue (xs : List α) : Option Truth :=
  combine Truth.and (notValue op operand) (segments (isOp op .and) xs)

def xorValue (xs : List α) : Option Truth :=
  combine Truth.xor (andValue op operand) (segments (isOp op .xor) xs)

def value (xs : List α) : Option Truth :=
  combine Truth.or (xorValue op operand) (segments (isOp op .or) xs)

/-- No `or` and no `xor` among the items. -/
def IsChain (xs : List α) : Prop := ∀ x ∈ xs, isOp op .or x = false ∧ isOp op .xor x = false

/-- The items up to the first `or` or `xor`. -/
def firstChain (xs : List α) : List α :=
  xs.takeWhile fun x => !isOp op .or x && !isOp op .xor x

/-- The items from the first `or` or `xor` on. -/
def afterChain (xs : List α) : List α :=
  xs.dropWhile fun x => !isOp op .or x && !isOp op .xor x

theorem firstChain_append_afterChain (xs : List α) :
    firstChain op xs ++ afterChain op xs = xs := takeWhile_append_dropWhile

theorem isChain_firstChain (xs : List α) : IsChain op (firstChain op xs) := by
  intro x hx
  have h := mem_takeWhile_imp hx
  simpa only [Bool.and_eq_true, Bool.not_eq_true'] using h

/-- The value of two conjunctions joined by an `and`. -/
theorem andValue_append_and (xs : List α) {a : α} (ha : isOp op .and a = true) (ys : List α) :
    andValue op operand (xs ++ a :: ys) = (andValue op operand xs).bind fun t =>
        (andValue op operand ys).map fun u => Truth.and t u := by
  unfold andValue combine
  rw [segments_append_cons _ _ ha]
  cases notValue op operand (segments (isOp op .and) xs).1 with
  | none => rfl
  | some t =>
    simp only [Option.bind_eq_bind, Option.bind_some, mapM_append, mapM_cons]
    cases (segments (isOp op .and) xs).2.mapM (notValue op operand) with
    | none => rfl
    | some ts =>
      cases notValue op operand (segments (isOp op .and) ys).1 with
      | none => rfl
      | some u =>
        cases (segments (isOp op .and) ys).2.mapM (notValue op operand) with
        | none => rfl
        | some us =>
          simp only [Option.bind_some, Option.pure_def, Option.map_some,
            foldl_append, foldl_cons]
          rw [foldl_assoc]

/-- The `xor` parts after the first of the first `or` part, combined. -/
def xorRest (xs : List α) : Option Truth :=
  ((segments (isOp op .xor) (segments (isOp op .or) xs).1).2.mapM (andValue op operand)).map
    fun ts => ts.foldl Truth.xor (some false)

/-- The `or` parts after the first, combined. -/
def orRest (xs : List α) : Option Truth :=
  ((segments (isOp op .or) xs).2.mapM (xorValue op operand)).map
    fun ts => ts.foldl Truth.or (some false)

private theorem foldl_or_eq (t : Truth) (ts : List Truth) :
    ts.foldl Truth.or t = Truth.or t (ts.foldl Truth.or (some false)) := by
  have h : ts.foldl Truth.or (Truth.or t (some false)) =
      Truth.or t (ts.foldl Truth.or (some false)) := foldl_assoc
  rw [← h, Truth.or_false]

private theorem foldl_xor_eq (t : Truth) (ts : List Truth) :
    ts.foldl Truth.xor t = Truth.xor t (ts.foldl Truth.xor (some false)) := by
  have h : ts.foldl Truth.xor (Truth.xor t (some false)) =
      Truth.xor t (ts.foldl Truth.xor (some false)) := foldl_assoc
  rw [← h, Truth.xor_false]

/-- A chain in front of `rest`, which starts with an `or` or `xor` or is empty:
its value enters in one place. -/
theorem value_chain_append {chain rest : List α} (hchain : IsChain op chain)
    (hrest : firstChain op rest = []) : value op operand (chain ++ rest) =
      (andValue op operand chain).bind fun t => (xorRest op operand rest).bind fun r =>
          (orRest op operand rest).map fun s => Truth.or (Truth.xor t r) s := by
  have hor := segments_append (isOp op .or) (fun x hx => (hchain x hx).1) rest
  have hnil : (segments (isOp op .xor) (segments (isOp op .or) rest).1).1 = [] := by
    cases rest with
    | nil => rfl
    | cons x xs =>
      have hx : (!isOp op .or x && !isOp op .xor x) = false := by
        by_contra hne
        rw [Bool.not_eq_false] at hne
        simp only [firstChain, takeWhile_cons, hne, if_true, reduceCtorEq] at hrest
      cases hor : isOp op .or x with
      | true =>
        rw [segments_cons, if_pos hor]
        rfl
      | false =>
        have hxor : isOp op .xor x = true := by simpa [hor] using hx
        simp only [segments_cons, hor, hxor, if_true, Bool.false_eq_true, if_false]
  have hxor := segments_append (isOp op .xor) (fun x hx => (hchain x hx).2)
    (segments (isOp op .or) rest).1
  rw [hnil, append_nil] at hxor
  unfold value xorRest orRest
  rw [hor]
  simp only [xorValue, combine, hxor]
  cases andValue op operand chain with
  | none => rfl
  | some t =>
    cases (segments (isOp op .xor) (segments (isOp op .or) rest).1).2.mapM
        (andValue op operand) with
    | none => rfl
    | some rs =>
      cases (segments (isOp op .or) rest).2.mapM (xorValue op operand) with
      | none => rfl
      | some ss =>
        show some (ss.foldl Truth.or (rs.foldl Truth.xor t)) = some _
        rw [foldl_or_eq, foldl_xor_eq]

theorem firstChain_afterChain (xs : List α) : firstChain op (afterChain op xs) = [] := by
  unfold firstChain afterChain
  rw [takeWhile_eq_nil_iff]
  intro hpos
  have h := dropWhile_get_zero_not (fun x => !isOp op .or x && !isOp op .xor x) xs hpos
  exact h

section

variable {conj xs : List α} {a : α} (hconj : IsChain op conj) (ha : op a = some .and)

include hconj ha

theorem value_append_and : value op operand (conj ++ a :: xs) =
      (andValue op operand conj).bind fun c =>
        (andValue op operand (firstChain op xs)).bind fun t =>
          (xorRest op operand (afterChain op xs)).bind fun r =>
            (orRest op operand (afterChain op xs)).map fun s =>
              Truth.or (Truth.xor (Truth.and c t) r) s := by
  have hand : isOp op .and a = true := by rw [isOp, ha]; rfl
  have hchain : IsChain op (conj ++ a :: firstChain op xs) := by
    intro x hx
    rcases mem_append.1 hx with hx | hx
    · exact hconj x hx
    · rcases mem_cons.1 hx with rfl | hx
      · constructor
        · rw [isOp, ha]; rfl
        · rw [isOp, ha]; rfl
      · exact isChain_firstChain op xs x hx
  have hsplit : conj ++ a :: xs = (conj ++ a :: firstChain op xs) ++ afterChain op xs := by
    rw [append_assoc, cons_append, firstChain_append_afterChain]
  rw [hsplit, value_chain_append op operand hchain (firstChain_afterChain op xs),
    andValue_append_and op operand conj hand]
  cases andValue op operand conj with
  | none => rfl
  | some c =>
    cases andValue op operand (firstChain op xs) with
    | none => rfl
    | some t => rfl

end

theorem value_eq (xs : List α) : value op operand xs =
      (andValue op operand (firstChain op xs)).bind fun t =>
        (xorRest op operand (afterChain op xs)).bind fun r =>
          (orRest op operand (afterChain op xs)).map fun s => Truth.or (Truth.xor t r) s := by
  rw [← value_chain_append op operand (isChain_firstChain op xs) (firstChain_afterChain op xs),
    firstChain_append_afterChain]

/-- What is left of an expression when its first conjunction is false. -/
def restValue (xs : List α) : Option Truth :=
  (xorRest op operand (afterChain op xs)).bind fun r =>
    (orRest op operand (afterChain op xs)).map fun s => Truth.or (Truth.xor (some false) r) s

/-- Where nothing else makes the expression true, a prefix conjoins to it. -/
theorem value_append_and_of_rest {conj xs : List α} {a : α} (hconj : IsChain op conj)
    (ha : op a = some .and) {c b : Truth} (hc : andValue op operand conj = some c)
    (hb : value op operand xs = some b) (hrest : restValue op operand xs = some (some false)) :
    value op operand (conj ++ a :: xs) = some (Truth.and c b) := by
  rw [value_append_and op operand hconj ha, hc]
  rw [value_eq] at hb
  unfold restValue at hrest
  obtain ⟨t, ht, hb⟩ := bind_eq_some_iff.1 hb
  obtain ⟨r, hr, hb⟩ := bind_eq_some_iff.1 hb
  obtain ⟨s, hs, rfl⟩ := map_eq_some_iff.1 hb
  rw [hr, bind_some, hs, map_some, Option.some.injEq, Truth.or_xor_false_iff] at hrest
  obtain ⟨rfl, rfl⟩ := hrest
  rw [ht, hr, hs]
  simp only [bind_some, map_some, Truth.xor_false, Truth.or_false]

/-- A false prefix that conjoins to the expression leaves nothing else to make
it true. -/
theorem rest_of_value_append_and {conj xs : List α} {a : α} (hconj : IsChain op conj)
    (ha : op a = some .and) (hc : andValue op operand conj = some (some false))
    (h : value op operand (conj ++ a :: xs) = some (some false)) :
    restValue op operand xs = some (some false) := by
  rw [value_append_and op operand hconj ha, hc, bind_some] at h
  obtain ⟨t, -, h⟩ := bind_eq_some_iff.1 h
  rw [Truth.false_and] at h
  exact h

end

end Ontosyx.Lib.Precedence
