import Mathlib.Algebra.Group.Int.Defs
import Mathlib.Algebra.GroupWithZero.Nat
import Mathlib.Data.List.Induction
import Mathlib.Data.List.TakeWhile

/-!
# Reading decimal numerals

`str::parse::<i64>`, on texts as lists of characters: an optional sign, at least one
digit, a value within the bounds.
-/

namespace Ontosyx.Core

open List Nat

/-- The number that decimal digits stand for. -/
def digitsValue (ds : List Char) : Nat := ds.foldl (fun n c => 10 * n + (c.toNat - 48)) 0

def readSign : List Char → Bool × List Char
  | '-' :: cs => (true, cs)
  | '+' :: cs => (false, cs)
  | cs => (false, cs)

/-- `str::parse::<i64>`. -/
def parseI64 (t : List Char) : Option Int :=
  let (negative, ds) := readSign t
  if ds.isEmpty || !ds.all Char.isDigit then none
  else
    let n : Int := if negative then -(digitsValue ds : Int) else digitsValue ds
    if -2 ^ 63 ≤ n ∧ n < 2 ^ 63 then some n else none

/-! ## Digits and their values -/

theorem value_toDigits (n : Nat) : digitsValue (toDigits 10 n) = n := by
  have h := ofDigitChars_ten_toDigits (n := n)
  rw [ofDigitChars_eq_foldl] at h
  exact h

theorem readSign_of_digit {c : Char} {cs : List Char} (hc : c.isDigit = true) :
    readSign (c :: cs) = (false, c :: cs) := by
  unfold readSign
  split
  · rename_i h
    cases h
    exact absurd hc (by decide)
  · rename_i h
    cases h
    exact absurd hc (by decide)
  · rfl

theorem digitsValue_concat (ds : List Char) (c : Char) :
    digitsValue (ds ++ [c]) = 10 * digitsValue ds + (c.toNat - 48) := by
  rw [digitsValue, foldl_append]
  rfl

/-- Zeros in front count for nothing. -/
theorem digitsValue_zeros (k : Nat) (ds : List Char) :
    digitsValue (List.replicate k '0' ++ ds) = digitsValue ds := by
  induction k with
  | zero => rfl
  | succ k ih =>
    rw [← ih]
    rfl

theorem isDigit_iff {c : Char} : c.isDigit = true ↔ 48 ≤ c.toNat ∧ c.toNat ≤ 57 := by
  rw [Char.isDigit, Bool.and_eq_true, decide_eq_true_eq, decide_eq_true_eq]
  exact Iff.rfl

variable {ds : List Char}

theorem digitsValue_lt (h : ∀ c ∈ ds, c.isDigit = true) : digitsValue ds < 10 ^ ds.length := by
  induction ds using reverseRecOn with
  | nil => decide
  | append_singleton ds c ih =>
    have hds := ih fun d hd => h d (mem_append_left _ hd)
    have hc := isDigit_iff.1 (h c (by simp))
    rw [digitsValue_concat, length_append, length_singleton, Nat.pow_succ]
    omega

/-- Digits are told by their number and their value. -/
theorem digits_inj {xs ys : List Char} (hxs : ∀ c ∈ xs, c.isDigit = true)
    (hys : ∀ c ∈ ys, c.isDigit = true) (hlen : xs.length = ys.length)
    (h : digitsValue xs = digitsValue ys) : xs = ys := by
  induction xs using reverseRecOn generalizing ys with
  | nil => exact (length_eq_zero_iff.1 hlen.symm).symm
  | append_singleton xs c ih =>
    cases ys using reverseRecOn with
    | nil => simp at hlen
    | append_singleton ys d =>
      have hc := isDigit_iff.1 (hxs c (by simp))
      have hd := isDigit_iff.1 (hys d (by simp))
      rw [digitsValue_concat, digitsValue_concat] at h
      have hlast : c = d := Char.toNat_inj.1 (by omega)
      have hinit : xs = ys := by
        apply ih (fun e he => hxs e (mem_append_left _ he))
          (fun e he => hys e (mem_append_left _ he))
        · simpa using hlen
        · omega
      rw [hinit, hlast]

theorem isDigit_toDigits (n : Nat) : ∀ c ∈ toDigits 10 n, c.isDigit = true := fun _ hc =>
  isDigit_of_mem_toDigits (by decide) (by decide) hc

section

variable (hne : ds ≠ []) (h : ∀ c ∈ ds, c.isDigit = true)
include hne h

/-- A number is written with no more digits than it can be read from. -/
theorem length_toDigits_digitsValue_le : (toDigits 10 (digitsValue ds)).length ≤ ds.length :=
  (length_toDigits_le_iff (by decide) (length_pos_iff.2 hne)).2 (digitsValue_lt h)

/-- Written with zeros in front, a number is what it was read from. -/
theorem leftpad_toDigits_digitsValue :
    (toDigits 10 (digitsValue ds)).leftpad ds.length '0' = ds := by
  have hle := length_toDigits_digitsValue_le hne h
  apply digits_inj _ h
  · rw [length_leftpad, max_eq_left hle]
  · rw [leftpad, digitsValue_zeros, value_toDigits]
  · intro c hc
    rw [leftpad, mem_append, mem_replicate] at hc
    cases hc with
    | inl hc =>
      rw [hc.2]
      decide
    | inr hc => exact isDigit_toDigits _ c hc

omit hne h in
theorem parseI64_bounds {t : List Char} {n : Int} (h : parseI64 t = some n) :
    -2 ^ 63 ≤ n ∧ n < 2 ^ 63 := by
  unfold parseI64 at h
  generalize readSign t = signed at h
  obtain ⟨negative, ds⟩ := signed
  dsimp only at h
  split at h
  · cases h
  · split at h <;> split at h
    · rw [← Option.some.inj h]
      assumption
    · cases h
    · rw [← Option.some.inj h]
      assumption
    · cases h

omit hne h in
/-- What is read: digits behind a sign, or without one. -/
theorem parseI64_eq_some {t : List Char} {n : Int} (h : parseI64 t = some n) :
    ∃ ds, ds ≠ [] ∧ (∀ c ∈ ds, c.isDigit = true) ∧ (t = '-' :: ds ∧ n = -digitsValue ds ∨
        (t = '+' :: ds ∨ t = ds) ∧ n = digitsValue ds) := by
  have hsign : (readSign t = (true, t.tail) ∧ t = '-' :: t.tail) ∨
      (readSign t = (false, t.tail) ∧ t = '+' :: t.tail) ∨ readSign t = (false, t) := by
    unfold readSign
    split
    · exact .inl ⟨rfl, rfl⟩
    · exact .inr (.inl ⟨rfl, rfl⟩)
    · exact .inr (.inr rfl)
  unfold parseI64 at h
  have hread {negative : Bool} {ds : List Char} (hds : readSign t = (negative, ds)) :
      ds ≠ [] ∧ (∀ c ∈ ds, c.isDigit = true) ∧
        n = if negative then -(digitsValue ds : Int) else digitsValue ds := by
    rw [hds] at h
    dsimp only at h
    split at h
    · cases h
    · rename_i hdigits
      rw [Bool.not_eq_true, Bool.or_eq_false_iff, Bool.not_eq_false', all_eq_true] at hdigits
      refine ⟨by simpa using hdigits.1, hdigits.2, ?_⟩
      exact (Option.some.inj (Option.ite_none_right_eq_some.1 h).2).symm
  cases hsign with
  | inl hminus =>
    obtain ⟨hne, hdigits, hn⟩ := hread hminus.1
    exact ⟨_, hne, hdigits, .inl ⟨hminus.2, hn⟩⟩
  | inr hrest =>
    cases hrest with
    | inl hplus =>
      obtain ⟨hne, hdigits, hn⟩ := hread hplus.1
      exact ⟨_, hne, hdigits, .inr ⟨.inl hplus.2, hn⟩⟩
    | inr hnone =>
      obtain ⟨hne, hdigits, hn⟩ := hread hnone
      exact ⟨_, hne, hdigits, .inr ⟨.inr rfl, hn⟩⟩

theorem parseI64_digits
    (hlt : digitsValue ds < 2 ^ 63) : parseI64 ds = some (digitsValue ds : Int) := by
  have hsign : readSign ds = (false, ds) := by
    obtain ⟨c, cs, rfl⟩ := exists_cons_of_ne_nil hne
    exact readSign_of_digit (h c mem_cons_self)
  unfold parseI64
  rw [hsign]
  dsimp only
  rw [isEmpty_eq_false_iff.2 hne, all_eq_true.2 h, Bool.not_true, Bool.or_false,
    if_neg Bool.false_ne_true, if_neg Bool.false_ne_true, if_pos (by omega)]

theorem parseI64_minus
    (hle : digitsValue ds ≤ 2 ^ 63) : parseI64 ('-' :: ds) = some (-(digitsValue ds : Int)) := by
  have hsign : readSign ('-' :: ds) = (true, ds) := rfl
  unfold parseI64
  rw [hsign]
  dsimp only
  rw [isEmpty_eq_false_iff.2 hne, all_eq_true.2 h, Bool.not_true, Bool.or_false,
    if_neg Bool.false_ne_true, if_pos rfl, if_pos (by omega)]

end

end Ontosyx.Core
