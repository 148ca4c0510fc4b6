import Mathlib.Data.Finset.Sort
import Mathlib.Data.String.Basic

/-!
# The scope of an analysis

A draft keeps book of the tables of its source: those that are included, those that
are deferred, and those that a policy excludes.  A deferral honours the policy, but a
selection of all tables includes whatever it is given and a reduction defers whatever
it removes.
-/

namespace Ontosyx.Source

open List

/-- What a user asks an analysis to cover. -/
inductive AnalyzeSelection where
  | all
  | subset (tables : Finset String)
  | extend (tables : Finset String)
  | reduce (tables : Finset String)
  | staged (tables : Finset String)

structure DeferredTable (τ : Type) where
  table : String
  reason : String
  deferredAt : τ
  revisitAt : Option τ

/-- The tables of a source as a draft treats them. -/
structure AnalysisScope (τ : Type) where
  included : Finset String
  deferred : List (DeferredTable τ)
  excludedByPolicy : Finset String
  lastIntrospectedAt : Option τ

variable {τ : Type}

namespace AnalysisScope

def deferredTables (s : AnalysisScope τ) : List String :=
  s.deferred.map DeferredTable.table

def includeOne (s : AnalysisScope τ) (table : String) : AnalysisScope τ :=
  { s with
    deferred := s.deferred.filter fun d => d.table ≠ table
    included := if table ∈ s.included then s.included else insert table s.included }

def defer (s : AnalysisScope τ) (table reason : String) (now : τ) : AnalysisScope τ :=
  { s with deferred := s.deferred ++ [⟨table, reason, now, none⟩] }

/-- A turn of the loop of `deferRemaining`. -/
def deferUnlessKnown (reason : String) (now : τ) (s : AnalysisScope τ) (table : String) :
    AnalysisScope τ :=
  if table ∈ s.included ∨ table ∈ s.deferredTables ∨ table ∈ s.excludedByPolicy then s
  else s.defer table reason now

/-- A turn of the loop over the tables of a reduction. -/
def reduceOne (now : τ) (s : AnalysisScope τ) (table : String) : AnalysisScope τ :=
  let s := { s with included := s.included.erase table }
  if table ∈ s.deferredTables then s else s.defer table "removed via reduce" now

local instance scopeTrans : IsTrans String (· ≤ ·) := inferInstance

local instance scopeAntisymm : Std.Antisymm fun a b : String => a ≤ b := inferInstance

def includeAll (s : AnalysisScope τ) (tables : Finset String) : AnalysisScope τ :=
  (tables.sort (· ≤ ·)).foldl includeOne s

def deferRemaining (s : AnalysisScope τ) (allTables : Finset String) (reason : String)
    (now : τ) : AnalysisScope τ :=
  (allTables.sort (· ≤ ·)).foldl (deferUnlessKnown reason now) s

def reduceAll (s : AnalysisScope τ) (tables : Finset String) (now : τ) : AnalysisScope τ :=
  (tables.sort (· ≤ ·)).foldl (reduceOne now) s

def recordSelection (s : AnalysisScope τ) (selection : AnalyzeSelection)
    (allTablesForAllSelection : Finset String) (now : τ) : AnalysisScope τ :=
  let s := match selection with
    | .all => s.includeAll allTablesForAllSelection
    | .subset tables | .extend tables => s.includeAll tables
    | .staged tables =>
      (s.includeAll tables).deferRemaining allTablesForAllSelection "deferred at bootstrap" now
    | .reduce tables => s.reduceAll tables now
  { s with lastIntrospectedAt := some now }

end AnalysisScope

/-- How the books stand for one table: whether it is included, how often it is deferred, and
whether the policy excludes it. -/
structure Entry where
  included : Bool
  deferred : Nat
  excluded : Bool

/-- The table is not both included and deferred, not deferred twice, and not deferred where
the policy excludes it. -/
structure Entry.Good (e : Entry) : Prop where
  not_both : e.included = true → e.deferred = 0
  once : e.deferred ≤ 1
  not_excluded : e.excluded = true → e.deferred = 0

/-- The table is in exactly one of the books. -/
def Entry.Single (e : Entry) : Prop :=
  e.included = true ∧ e.deferred = 0 ∧ e.excluded = false ∨
    e.included = false ∧ 0 < e.deferred ∧ e.excluded = false ∨
    e.included = false ∧ e.deferred = 0 ∧ e.excluded = true

def Entry.include (e : Entry) : Entry := { e with included := true, deferred := 0 }

def Entry.defer (e : Entry) : Entry :=
  if e.included || decide (0 < e.deferred) || e.excluded then e
  else { e with deferred := e.deferred + 1 }

def Entry.reduce (e : Entry) : Entry :=
  { e with included := false, deferred := if 0 < e.deferred then e.deferred else e.deferred + 1 }

/-! ## Books of one table -/

theorem Entry.Good.include {e : Entry} (_ : e.Good) : e.include.Good :=
  ⟨fun _ => rfl, Nat.zero_le 1, fun _ => rfl⟩

theorem Entry.Good.defer {e : Entry} (h : e.Good) : e.defer.Good := by
  unfold Entry.defer
  split
  · exact h
  · rename_i hnew
    simp only [Bool.or_eq_true, decide_eq_true_iff, not_or, Nat.not_lt, Bool.not_eq_true] at hnew
    refine ⟨fun hin => ?_, by simp only; omega, fun hex => ?_⟩
    · exact Bool.noConfusion (hnew.1.1.symm.trans hin)
    · exact Bool.noConfusion (hnew.2.symm.trans hex)

theorem Entry.Good.reduce_iff {e : Entry} (h : e.Good) : e.reduce.Good ↔ e.excluded ≠ true := by
  have hpos : 0 < e.reduce.deferred := by
    simp only [Entry.reduce]
    split <;> omega
  refine ⟨fun hg hex => absurd (hg.not_excluded hex) hpos.ne', fun hex => ⟨nofun, ?_, ?_⟩⟩
  · have hle := h.once
    simp only [Entry.reduce]
    split <;> omega
  · exact fun hex' => absurd hex' hex

/-- A table that has a turn of the deferral is in one book, unless it is excluded and included. -/
theorem Entry.Good.single_defer_iff {e : Entry} (h : e.Good) :
    e.defer.Single ↔ (e.excluded = true → e.included = false) := by
  obtain ⟨hboth, hle, hex⟩ := h
  obtain ⟨i, d, x⟩ := e
  by_cases hd : 0 < d <;> cases i <;> cases x <;>
    simp [Entry.defer, Entry.Single, hd] at * <;> omega

namespace AnalysisScope

def entry (s : AnalysisScope τ) (t : String) : Entry :=
  ⟨t ∈ s.included, s.deferredTables.count t, t ∈ s.excludedByPolicy⟩

def Consistent (s : AnalysisScope τ) : Prop := ∀ t, (s.entry t).Good

/-! ## Loops, a table at a time -/

variable (s : AnalysisScope τ) (u t : String)

theorem entry_includeOne :
    (s.includeOne u).entry t = if u = t then (s.entry t).include else s.entry t := by
  have hdeferred : (s.includeOne u).deferredTables = s.deferredTables.filter (· ≠ u) := by
    simp only [deferredTables, includeOne, filter_map]
    rfl
  have hincluded : (s.includeOne u).included = insert u s.included := by
    rw [includeOne]
    split
    · rename_i hin
      exact (Finset.insert_eq_self.2 hin).symm
    · rfl
  rw [entry, hdeferred, hincluded]
  by_cases h : u = t
  · subst h
    simp [Entry.include, entry, count_eq_zero, includeOne]
  · simp [entry, h, Ne.symm h, count_filter, includeOne]

theorem entry_push (reason : String) (now : τ) : (s.defer u reason now).entry t =
    if u = t then { s.entry t with deferred := (s.entry t).deferred + 1 } else s.entry t := by
  have hdeferred : (s.defer u reason now).deferredTables = s.deferredTables ++ [u] := by
    simp [deferredTables, defer]
  rw [entry, hdeferred, count_append]
  by_cases h : u = t
  · subst h
    simp [entry]
    exact ⟨Iff.rfl, Iff.rfl⟩
  · simp [entry, h]
    exact ⟨Iff.rfl, Iff.rfl⟩

theorem entry_deferUnlessKnown (reason : String) (now : τ) :
    (deferUnlessKnown reason now s u).entry t =
      if u = t then (s.entry t).defer else s.entry t := by
  unfold deferUnlessKnown
  have hknown : (u ∈ s.included ∨ u ∈ s.deferredTables ∨ u ∈ s.excludedByPolicy) ↔
      ((s.entry u).included || decide (0 < (s.entry u).deferred) || (s.entry u).excluded) =
        true := by
    simp [entry, count_pos_iff, or_assoc]
  by_cases h : u = t
  · subst h
    rw [if_pos rfl, Entry.defer]
    by_cases hk : u ∈ s.included ∨ u ∈ s.deferredTables ∨ u ∈ s.excludedByPolicy
    · rw [if_pos hk, if_pos (hknown.1 hk)]
    · rw [if_neg hk, if_neg fun hb => hk (hknown.2 hb), entry_push, if_pos rfl]
  · rw [if_neg h]
    split
    · rfl
    · rw [entry_push, if_neg h]

theorem entry_reduceOne (now : τ) : (reduceOne now s u).entry t =
    if u = t then (s.entry t).reduce else s.entry t := by
  have herased : ({ s with included := s.included.erase u } : AnalysisScope τ).entry t =
      if u = t then { s.entry t with included := false } else s.entry t := by
    by_cases h : u = t
    · subst h
      simp [entry, deferredTables]
    · simp [entry, deferredTables, h, Ne.symm h]
  unfold reduceOne
  dsimp only
  split
  · rename_i hin
    rw [herased]
    split
    · rename_i h
      subst h
      have hpos : 0 < (s.entry u).deferred := count_pos_iff.2 hin
      simp [Entry.reduce, hpos]
    · rfl
  · rename_i hnew
    rw [entry_push, herased]
    split
    · rename_i h
      subst h
      have hzero : (s.entry u).deferred = 0 := count_eq_zero.2 hnew
      simp [Entry.reduce, hzero]
    · rfl

theorem entry_foldl {turn : AnalysisScope τ → String → AnalysisScope τ} {act : Entry → Entry}
    (hturn : ∀ s u t, (turn s u).entry t = if u = t then act (s.entry t) else s.entry t)
    (tables : Finset String) :
    ((tables.sort (· ≤ ·)).foldl turn s).entry t =
      if t ∈ tables then act (s.entry t) else s.entry t := by
  have hlist : ∀ l : List String, l.Nodup → ∀ s, (l.foldl turn s).entry t =
      if t ∈ l then act (s.entry t) else s.entry t := by
    intro l hl
    induction l with
    | nil => exact fun s => rfl
    | cons u l ih =>
      intro s
      obtain ⟨hnot, hl⟩ := nodup_cons.1 hl
      rw [foldl_cons, ih hl, hturn]
      by_cases h : u = t
      · subst h
        simp [hnot]
      · simp [h, Ne.symm h]
  rw [hlist _ (Finset.sort_nodup _ _)]
  simp only [Finset.mem_sort]

end AnalysisScope

/-! ## Calls -/

inductive ScopeCall (τ : Type) where
  | recordSelection (selection : AnalyzeSelection) (allTables : Finset String) (now : τ)
  | deferRemaining (allTables : Finset String) (reason : String) (now : τ)

namespace ScopeCall

open AnalysisScope

def run : ScopeCall τ → AnalysisScope τ → AnalysisScope τ
  | recordSelection selection allTables now, s => s.recordSelection selection allTables now
  | deferRemaining allTables reason now, s => s.deferRemaining allTables reason now

/-- What a call does to the books of one table. -/
def act (t : String) : ScopeCall τ → Entry → Entry
  | recordSelection .all allTables _, e => if t ∈ allTables then e.include else e
  | recordSelection (.subset tables) _ _, e | recordSelection (.extend tables) _ _, e =>
    if t ∈ tables then e.include else e
  | recordSelection (.staged tables) allTables _, e =>
    if t ∈ allTables then (if t ∈ tables then e.include else e).defer
    else if t ∈ tables then e.include else e
  | recordSelection (.reduce tables) _ _, e => if t ∈ tables then e.reduce else e
  | deferRemaining allTables _ _, e => if t ∈ allTables then e.defer else e

/-- A selection of all tables brings in no table that the policy excludes, and a staged
one leaves every known table in exactly one of the books. -/
def KeepsBooks (s : AnalysisScope τ) (c : ScopeCall τ) : Prop :=
  match c with
  | recordSelection .all _ _ => ∀ t, (s.entry t).excluded = true →
      ((c.run s).entry t).included = true → (s.entry t).included = true
  | recordSelection (.staged _) allTables _ => ∀ t ∈ allTables, ((c.run s).entry t).Single
  | _ => True

/-- The call neither includes nor defers a table that the policy excludes, where the
books are to tell included, deferred and excluded tables apart. -/
def RespectsPolicy (s : AnalysisScope τ) : ScopeCall τ → Prop
  | recordSelection .all allTables _ =>
    ∀ t ∈ s.excludedByPolicy, t ∈ allTables → t ∈ s.included
  | recordSelection (.reduce tables) _ _ => ∀ t ∈ s.excludedByPolicy, t ∉ tables
  | recordSelection (.staged tables) allTables _ =>
    ∀ t ∈ s.excludedByPolicy, t ∈ allTables → t ∉ s.included ∧ t ∉ tables
  | _ => True

variable {s : AnalysisScope τ}

theorem entry_run (c : ScopeCall τ) (t : String) : (c.run s).entry t = c.act t (s.entry t) := by
  have hinclude : ∀ (s : AnalysisScope τ) tables, (s.includeAll tables).entry t =
      if t ∈ tables then (s.entry t).include else s.entry t :=
    fun s => entry_foldl s t entry_includeOne
  have hdefer : ∀ (s : AnalysisScope τ) tables reason now,
      (s.deferRemaining tables reason now).entry t =
        if t ∈ tables then (s.entry t).defer else s.entry t := fun s tables reason now =>
    entry_foldl s t (fun s u t => entry_deferUnlessKnown s u t reason now) tables
  cases c with
  | deferRemaining allTables reason now => exact hdefer s allTables reason now
  | recordSelection selection allTables now =>
    cases selection with
    | all => exact hinclude s allTables
    | subset tables | extend tables => exact hinclude s tables
    | staged tables =>
      refine (hdefer _ allTables _ now).trans ?_
      rw [hinclude s tables]
      rfl
    | reduce tables => exact entry_foldl s t (fun s u t => entry_reduceOne s u t now) tables

/-- A call keeps the books of a consistent scope exactly if it respects the policy. -/
theorem keepsBooks_and_consistent_iff (h : s.Consistent) (c : ScopeCall τ) :
    KeepsBooks s c ∧ (c.run s).Consistent ↔ RespectsPolicy s c := by
  have hincluded (tables : Finset String) (t : String) :
      (if t ∈ tables then (s.entry t).include else s.entry t).Good := by
    split
    exacts [(h t).include, h t]
  simp only [KeepsBooks, Consistent, entry_run]
  cases c with
  | deferRemaining allTables reason now =>
    refine iff_of_true ⟨trivial, fun t => ?_⟩ trivial
    rw [act]
    split
    exacts [(h t).defer, h t]
  | recordSelection selection allTables now =>
    cases selection with
    | all =>
      refine (and_iff_left (hincluded allTables)).trans (forall_congr' fun t => ?_)
      by_cases hall : t ∈ allTables <;> simp [act, hall, entry, Entry.include]
    | subset tables | extend tables => exact iff_of_true ⟨trivial, hincluded tables⟩ trivial
    | reduce tables =>
      refine (and_iff_right trivial).trans (forall_congr' fun t => ?_)
      rw [act]
      split
      · rename_i hin
        rw [(h t).reduce_iff]
        simp [hin, entry]
      · rename_i hnot
        exact iff_of_true (h t) fun _ => hnot
    | staged tables =>
      have hgood : ∀ t, (act t (recordSelection (.staged tables) allTables now)
          (s.entry t)).Good := by
        intro t
        rw [act]
        split
        exacts [(hincluded tables t).defer, hincluded tables t]
      refine (and_iff_left hgood).trans (forall_congr' fun t => ?_)
      rw [forall_comm]
      refine forall_congr' fun hall => ?_
      rw [act, if_pos hall, (hincluded tables t).single_defer_iff]
      by_cases hpick : t ∈ tables <;> simp [hpick, entry, Entry.include]

/-! ## Runs -/

/-- Every scope of a run is consistent, and every call keeps the books. -/
def RunConsistent : AnalysisScope τ → List (ScopeCall τ) → Prop
  | s, [] => s.Consistent
  | s, c :: calls => s.Consistent ∧ KeepsBooks s c ∧ RunConsistent (c.run s) calls

/-- Every call of a run respects the policy. -/
def RunRespectsPolicy : AnalysisScope τ → List (ScopeCall τ) → Prop
  | _, [] => True
  | s, c :: calls => RespectsPolicy s c ∧ RunRespectsPolicy (c.run s) calls

theorem RunConsistent.head {calls : List (ScopeCall τ)} (h : RunConsistent s calls) :
    s.Consistent := by
  cases calls with
  | nil => exact h
  | cons c calls => exact h.1

theorem runConsistent_iff (h : s.Consistent) (calls : List (ScopeCall τ)) :
    RunConsistent s calls ↔ RunRespectsPolicy s calls := by
  induction calls generalizing s with
  | nil => exact iff_of_true h trivial
  | cons c calls ih =>
    constructor
    · rintro ⟨-, hkeeps, hrest⟩
      exact ⟨(keepsBooks_and_consistent_iff h c).1 ⟨hkeeps, hrest.head⟩, (ih hrest.head).1 hrest⟩
    · rintro ⟨hrespects, hrest⟩
      obtain ⟨hkeeps, hnext⟩ := (keepsBooks_and_consistent_iff h c).2 hrespects
      exact ⟨h, hkeeps, (ih hnext).2 hrest⟩

/-- What holds of a table whether or not the policy is respected. -/
def Apart (e : Entry) : Prop := (e.included = true → e.deferred = 0) ∧ e.deferred ≤ 1

theorem apart_act {e : Entry} (h : Apart e) (c : ScopeCall τ) (t : String) : Apart (c.act t e) := by
  have hinclude : Apart e.include := ⟨fun _ => rfl, Nat.zero_le 1⟩
  have hdefer {e : Entry} (h : Apart e) : Apart e.defer := by
    unfold Entry.defer
    split
    · exact h
    · simp_all [Apart]
  have hreduce : Apart e.reduce := by
    refine ⟨nofun, ?_⟩
    have hle := h.2
    simp only [Entry.reduce]
    split <;> omega
  unfold act
  split <;> split_ifs <;> first
    | exact hdefer hinclude
    | exact hdefer h
    | assumption

/-- Whatever calls are made, no table is both included and deferred, or deferred twice. -/
theorem apart_run (h : ∀ t, Apart (s.entry t)) (calls : List (ScopeCall τ)) :
    let s' := calls.foldl (fun s c => c.run s) s
    (∀ t ∈ s'.deferredTables, t ∉ s'.included) ∧ s'.deferredTables.Nodup := by
  have hrun : ∀ t, Apart ((calls.foldl (fun s c => c.run s) s).entry t) := by
    induction calls generalizing s with
    | nil => exact h
    | cons c calls ih => exact ih fun t => entry_run c t ▸ apart_act (h t) c t
  refine ⟨fun t ht hin => ?_, nodup_iff_count_le_one.2 fun t => (hrun t).2⟩
  exact (count_pos_iff.2 ht).ne' ((hrun t).1 (decide_eq_true hin))

/-- A scope whose policy excludes the audit log. -/
def audited : AnalysisScope ℕ where
  included := {"customers"}
  deferred := []
  excludedByPolicy := {"audit_log"}
  lastIntrospectedAt := none

theorem audited_consistent : audited.Consistent := fun _ =>
  ⟨fun _ => rfl, Nat.zero_le 1, fun _ => rfl⟩

/-- A staged selection of the orders, and then a deferral of the payments. -/
theorem audited_runConsistent :
    RunConsistent audited [recordSelection (.staged {"orders"}) {"audit_log", "orders"} 1,
      deferRemaining {"payments"} "not picked" 2] := by
  refine (runConsistent_iff audited_consistent _).2 ⟨fun t ht _ => ?_, trivial, trivial⟩
  obtain rfl := Finset.mem_singleton.1 ht
  decide

/-- A selection of all tables includes the audit log, and a reduction by it defers it. -/
theorem auditLog_booked :
    ¬RunConsistent audited [recordSelection .all {"audit_log", "customers"} 1] ∧
      ¬RunConsistent audited [recordSelection (.reduce {"audit_log"}) ∅ 1] := by
  have hexcl : "audit_log" ∈ audited.excludedByPolicy := Finset.mem_singleton_self _
  constructor <;> rintro ⟨-, hkeeps, hnext⟩ <;>
    have hrespects := (keepsBooks_and_consistent_iff audited_consistent _).1 ⟨hkeeps, hnext⟩
  · exact absurd (hrespects _ hexcl (by decide)) (by decide)
  · exact hrespects _ hexcl (Finset.mem_singleton_self _)

/-- A reduction by the audit log, and then a selection of all tables. -/
theorem audited_apart :
    ([recordSelection (.reduce {"audit_log"}) ∅ 1, recordSelection .all {"audit_log"} 2].foldl
      (fun s c => c.run s) audited).deferredTables.Nodup :=
  (apart_run (s := audited) (fun _ => ⟨fun _ => rfl, Nat.zero_le 1⟩) _).2

end ScopeCall

end Ontosyx.Source
