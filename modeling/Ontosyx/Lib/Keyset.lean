import Mathlib.Data.List.Sort

/-!
# Keyset pagination

A table is read in pages: the rows whose key lies beyond the last key seen, in
the order of the keys, and at most so many at once.  Nothing is lost when no
page ends between two rows with the same key.
-/

namespace Ontosyx.Lib.Keyset

open List List

section

variable {V : Type*} (size : Nat)

/-- No page ends between two equal keys. -/
def NoTies (keys : List V) : Prop :=
  ∀ i x y, size ∣ i + 1 → keys[i]? = some x → keys[i + 1]? = some y → x ≠ y

def IsEnd (keys : List V) (x : V) : Prop :=
  ∃ i, keys[i]? = some x ∧ (size ∣ i + 1 ∨ i + 1 = keys.length)

variable {size}

theorem NoTies.drop {keys : List V} (h : NoTies size keys) : NoTies size (keys.drop size) := by
  intro i x y hi hx hy
  rw [getElem?_drop] at hx hy
  refine h (size + i) x y ?_ hx hy
  rw [Nat.add_assoc]
  exact Nat.dvd_add (Nat.dvd_refl size) hi

theorem IsEnd.mem {keys : List V} {x : V} (h : IsEnd size keys x) : x ∈ keys := by
  obtain ⟨i, hi, -⟩ := h
  exact mem_of_getElem? hi

theorem IsEnd.of_drop {keys : List V} {x : V} (h : IsEnd size (keys.drop size) x) :
    IsEnd size keys x := by
  obtain ⟨i, hi, hend⟩ := h
  rw [List.getElem?_drop] at hi
  have hlt : size + i < keys.length := (List.getElem?_eq_some_iff.1 hi).1
  refine ⟨size + i, hi, ?_⟩
  rcases hend with hend | hend
  · left
    rw [Nat.add_assoc]
    exact Nat.dvd_add (Nat.dvd_refl size) hend
  · right
    rw [length_drop] at hend
    omega

theorem isEnd_of_last_take {keys : List V} {x : V} (h : (keys.take size).getLast? = some x) :
    IsEnd size keys x := by
  rw [List.getLast?_eq_getElem?, List.length_take] at h
  have hlt : min size keys.length - 1 < (keys.take size).length := (List.getElem?_eq_some_iff.1 h).1
  rw [List.length_take] at hlt
  refine ⟨min size keys.length - 1, ?_, ?_⟩
  · rw [List.getElem?_take_of_lt (by omega)] at h
    exact h
  · rcases Nat.le_total size keys.length with hle | hle
    · left
      have hend : min size keys.length - 1 + 1 = size := by omega
      exact ⟨1, by omega⟩
    · right
      omega

end

section

variable {α V : Type*} [LinearOrder V] {key : α → V} {l : List α}

/-- In a sorted list the last key of a part in front is the largest of it. -/
theorem le_last_of_pairwise (h : (l.map key).Pairwise (· ≤ ·)) {last : α}
    (hlast : l.getLast? = some last) : ∀ a ∈ l, key a ≤ key last := by
  intro a ha
  obtain ⟨front, rfl⟩ := getLast?_eq_some_iff.1 hlast
  rw [map_append, pairwise_append] at h
  rcases mem_append.1 ha with ha | ha
  · exact h.2.2 _ (mem_map_of_mem ha) _ (mem_map_of_mem (mem_singleton_self last))
  · rw [mem_singleton.1 ha]

/-- The rows behind a page have larger keys than the last row on it. -/
theorem last_lt_of_mem_drop {size : Nat} (hsorted : (l.map key).Pairwise (· ≤ ·))
    (hties : NoTies size (l.map key)) {last : α} (hlast : (l.take size).getLast? = some last)
    {a : α} (ha : a ∈ l.drop size) : key last < key a := by
  have hlong : size < l.length := by
    have hlen := length_pos_of_mem ha
    rw [length_drop] at hlen
    omega
  have hpos : 0 < size := by
    rcases Nat.eq_zero_or_pos size with rfl | hpos
    · rw [take_zero] at hlast
      cases hlast
    · exact hpos
  rw [List.getLast?_eq_getElem?, List.length_take, Nat.min_eq_left hlong.le,
    List.getElem?_take_of_lt (by omega)] at hlast
  obtain ⟨hlt, hl⟩ := List.getElem?_eq_some_iff.1 hlast
  -- the row right behind the page lies between the two
  have hne : key last ≠ key l[size] := by
    refine hties (size - 1) _ _ ?_ ?_ ?_
    · exact ⟨1, by omega⟩
    · rw [getElem?_map, hlast]
      rfl
    · rw [Nat.sub_add_cancel hpos, getElem?_map, getElem?_eq_getElem hlong]
      rfl
  have hnext : key last ≤ key l[size] := by
    have hpair := pairwise_iff_getElem.1 hsorted (size - 1) size
      (by rw [length_map]; omega) (by rw [length_map]; omega) (by omega)
    rwa [getElem_map, getElem_map, hl] at hpair
  have hbehind : key l[size] ≤ key a := by
    have hpart : ((l.drop size).map key).Pairwise (· ≤ ·) := by
      rw [map_drop]
      exact hsorted.sublist (drop_sublist _ _)
    rw [drop_eq_getElem_cons hlong] at hpart ha
    rcases mem_cons.1 ha with rfl | ha
    · exact le_refl _
    · exact (pairwise_cons.1 hpart).1 _ (mem_map_of_mem ha)
  exact (lt_of_le_of_ne hnext hne).trans_le hbehind

/-- The rows beyond the last key of a page are those of the later pages. -/
theorem filter_beyond {size : Nat} (hsorted : (l.map key).Pairwise (· ≤ ·))
    (hties : NoTies size (l.map key)) {last : α} (hlast : (l.take size).getLast? = some last) :
    l.filter (fun a => key last < key a) = l.drop size := by
  have hfront : (l.take size).filter (fun a => key last < key a) = [] := by
    have hpart : ((l.take size).map key).Pairwise (· ≤ ·) := by
      rw [map_take]
      exact hsorted.sublist (take_sublist _ _)
    rw [filter_eq_nil_iff]
    intro a ha
    rw [decide_eq_true_eq]
    exact not_lt.2 (le_last_of_pairwise hpart hlast a ha)
  have hback : (l.drop size).filter (fun a => key last < key a) = l.drop size := by
    rw [filter_eq_self]
    intro a ha
    exact decide_eq_true (last_lt_of_mem_drop hsorted hties hlast ha)
  calc l.filter (fun a => key last < key a)
      = (l.take size ++ l.drop size).filter (fun a => key last < key a) := by
        rw [take_append_drop]
    _ = l.drop size := by rw [filter_append, hfront, hback, nil_append]

end

section

variable {α T : Type*} [LinearOrder T] {step : T → α → T} {text : α → T}

/-- A running maximum stays where nothing is larger. -/
theorem foldl_eq_self {l : List α} {start : T}
    (hstep : ∀ m, ∀ a ∈ l, step m a = if m < text a then text a else m)
    (hall : ∀ a ∈ l, text a ≤ start) : l.foldl step start = start := by
  induction l with
  | nil => rfl
  | cons b l ih =>
    have hb : step start b = start := by
      rw [hstep start b mem_cons_self, if_neg (not_lt.2 (hall b mem_cons_self))]
    rw [foldl_cons, hb]
    exact ih (fun m a ha => hstep m a (mem_cons_of_mem b ha))
      fun a ha => hall a (mem_cons_of_mem b ha)

/-- A running maximum ends with the largest entry. -/
theorem foldl_eq_largest {l : List α} {start : T} {largest : α}
    (hstep : ∀ m, ∀ a ∈ l, step m a = if m < text a then text a else m) (hmem : largest ∈ l)
    (hall : ∀ a ∈ l, text a ≤ text largest) (hstart : start ≤ text largest) :
    l.foldl step start = text largest := by
  induction l generalizing start with
  | nil => cases hmem
  | cons b l ih =>
    have hrest : ∀ m, ∀ a ∈ l, step m a = if m < text a then text a else m :=
      fun m a ha => hstep m a (mem_cons_of_mem b ha)
    have hbounded : ∀ a ∈ l, text a ≤ text largest :=
      fun a ha => hall a (mem_cons_of_mem b ha)
    rw [foldl_cons, hstep start b mem_cons_self]
    rcases mem_cons.1 hmem with hb | hmem
    · have hreached : (if start < text b then text b else start) = text largest := by
        rw [hb] at hstart ⊢
        split
        · rfl
        · next hlt => exact le_antisymm hstart (not_lt.1 hlt)
      rw [hreached]
      exact foldl_eq_self hrest hbounded
    · refine ih hrest hmem hbounded ?_
      split
      · exact hall b mem_cons_self
      · exact hstart

end

end Ontosyx.Lib.Keyset
