import Ontosyx.Api.Versions

/-!
# Runs of the version lifecycle

Many requests are under way at once, and each turn lets one of them make its next
store call, or edits a draft.
-/

namespace Ontosyx.Api

open List

inductive Handler (C : Type) where
  | complete (q : CompleteRequest) (phase : CompletePhase C)
  | rebase (q : RebaseRequest) (phase : RebasePhase C)
  | edit (q : EditRequest C) (phase : EditPhase C)
  | create (q : CreateRequest) (phase : CreatePhase C)

/-- A request that has made no call yet. -/
def Handler.Fresh {C : Type} : Handler C → Prop
  | .complete _ phase => phase = .start
  | .rebase _ phase => phase = .start
  | .edit _ phase => phase = .start
  | .create _ phase => phase = .start

/-- The next call of a request, which may fail, at a time of the clock; or a
call that edits a draft. -/
inductive Turn (ι C : Type) where
  | advance (i : ι) (ok : Bool) (epoch : Nat)
  | draft (id revision : Nat) (call : DraftCall C)

/-- The store and the requests.  `branched` is the version that the content of a
draft was branched from, which the program does not keep. -/
structure World (ι C : Type) where
  store : VersionStore C := {}
  handlers : ι → Handler C
  branched : Nat → Option Nat := fun _ => none

section

variable {ι C : Type} [DecidableEq ι] (isClean : C → C → C → Bool) (empty : C)

namespace World

variable (w : World ι C)

def put (i : ι) (store : VersionStore C) (handler : Handler C) : World ι C :=
  { w with store := store, handlers := Function.update w.handlers i handler }

/-- The next call of a request. -/
def advance (i : ι) (ok : Bool) (epoch : Nat) : World ι C :=
  match w.handlers i with
  | .complete q phase =>
    let next := q.advance epoch ok w.store phase
    w.put i next.1 (.complete q next.2)
  | .rebase q phase =>
    let next := q.advance isClean empty ok w.store phase
    w.put i next.1 (.rebase q next.2)
  | .edit q phase =>
    let next := q.advance ok w.store phase
    w.put i next.1 (.edit q next.2)
  | .create q phase =>
    let next := q.advance ok w.store phase
    { w.put i next.1 (.create q next.2) with
      branched :=
        if (w.store.drafts q.draft).isSome then w.branched
        else Function.update w.branched q.draft
          ((next.1.drafts q.draft).bind (·.parentVersionId)) }

/-- One turn.  A call that edits a draft and finds another revision changes
nothing. -/
def step : Turn ι C → World ι C
  | .advance i ok epoch => w.advance isClean empty i ok epoch
  | .draft id revision call =>
    { w with store := (w.store.updateDraft id revision call.write).getD w.store }

def run (turns : List (Turn ι C)) : World ι C :=
  turns.foldl (fun w m => w.step isClean empty m) w

theorem run_append (turns more : List (Turn ι C)) :
    w.run isClean empty (turns ++ more) = (w.run isClean empty turns).run isClean empty more :=
  foldl_append

end World

end

section

variable {C : Type}

/-- The versions are counted from one on, and their ids are their places. -/
def Numbered (versions : List (Version C)) : Prop :=
  ∀ (k : Nat) (v : Version C), versions[k]? = some v → v.id = k ∧ v.tag = .number (k + 1)

theorem Numbered.contentOf {s : VersionStore C} (h : Numbered s.versions) {k : Nat} {v : Version C}
    (hv : s.versions[k]? = some v) : s.contentOf k = some v.content := by
  unfold VersionStore.contentOf
  have hid := (h k v hv).1
  cases hfound : s.versions.find? fun v => v.id = k with
  | none =>
    have hnot := find?_eq_none.1 hfound v (mem_of_getElem? hv)
    exact absurd (decide_eq_true hid) hnot
  | some found =>
    obtain ⟨j, hj⟩ := mem_iff_getElem?.1 (mem_of_find?_eq_some hfound)
    have htest := find?_some hfound
    have hfoundId : found.id = k := of_decide_eq_true htest
    have hjk : j = k := (h j found hj).1.symm.trans hfoundId
    rw [hjk, hv] at hj
    cases hj
    rfl

theorem currentVersion_eq {s : VersionStore C} {head : Version C}
    (h : s.currentVersion = some head) : s.versions[s.versions.length - 1]? = some head := by
  unfold VersionStore.currentVersion at h
  rwa [getLast?_eq_getElem?] at h

theorem lt_of_getElem? {α : Type} {xs : List α} {k : Nat} {x : α} (h : xs[k]? = some x) :
    k < xs.length := (List.getElem?_eq_some_iff.1 h).1

/-- A commit that succeeds under a counter tag follows all versions. -/
theorem Numbered.commit {s : VersionStore C} (h : Numbered s.versions) {content : C} {k : Nat}
    {parent : Option Nat} {next : VersionStore C × Version C}
    (hcommit : s.commitVersion content (.number (k + 1)) parent = some next)
    (hk : k ≤ s.versions.length) :
    k = s.versions.length ∧ Numbered next.1.versions ∧ next.2.content = content ∧
      next.1 = { s with versions := s.versions ++ [next.2] } := by
  unfold VersionStore.commitVersion at hcommit
  by_cases htaken : s.versions.any (·.tag = .number (k + 1)) = true
  · rw [if_pos htaken] at hcommit
    cases hcommit
  · rw [if_neg htaken] at hcommit
    cases hcommit
    have hlast : k = s.versions.length := by
      by_contra hne
      have hlt : k < s.versions.length := by omega
      refine htaken (any_eq_true.2 ⟨s.versions[k], getElem_mem hlt, ?_⟩)
      exact decide_eq_true (h k _ (getElem?_eq_getElem hlt)).2
    refine ⟨hlast, fun j v hv => ?_, rfl, rfl⟩
    have hv : (s.versions ++ [_])[j]? = some v := hv
    rcases Nat.lt_or_ge j s.versions.length with hj | hj
    · rw [getElem?_append_left hj] at hv
      exact h j v hv
    · rw [getElem?_append_right hj] at hv
      have hj' : j = s.versions.length := by
        have hlt := lt_of_getElem? hv
        rw [length_singleton] at hlt
        omega
      rw [hj', Nat.sub_self] at hv
      cases hv
      exact ⟨hj'.symm, by rw [hj', hlast]⟩

end

/-! ## What a call does to the store -/

section

variable {C : Type} {s s' : VersionStore C}

/-- A compare-and-swap that succeeds. -/
theorem updateDraft_some {id revision : Nat} {f : OntologyDraft C → OntologyDraft C}
    (h : s.updateDraft id revision f = some s') :
    ∃ d, s.drafts id = some d ∧ d.revision = revision ∧
      s' = s.putDraft id { f d with revision := d.revision + 1 } := by
  unfold VersionStore.updateDraft at h
  cases hd : s.drafts id with
  | none =>
    rw [hd] at h
    cases h
  | some d =>
    rw [hd] at h
    dsimp only at h
    split at h
    · next hrevision =>
        cases h
        exact ⟨d, rfl, hrevision, rfl⟩
    · cases h

theorem completeDraft_eq_some {id versionId revision : Nat}
    (h : s.completeDraft id versionId revision = some s') :
    ∃ d, s.drafts id = some d ∧ d.status = .designed ∧ d.revision = revision ∧
      s' = s.putDraft id { d with
        status := .completed
        committedVersionId := some versionId
        revision := d.revision + 1 } := by
  unfold VersionStore.completeDraft at h
  cases hd : s.drafts id with
  | none =>
    rw [hd] at h
    cases h
  | some d =>
    rw [hd] at h
    dsimp only at h
    split at h
    · next hstatus =>
        obtain ⟨d', hd', hrevision, hs'⟩ := updateDraft_some h
        rw [hd] at hd'
        cases hd'
        exact ⟨d, rfl, hstatus, hrevision, hs'⟩
    · cases h

/-- A call that neither commits nor writes a draft. -/
def Reads (s s' : VersionStore C) : Prop := s'.versions = s.versions ∧ s'.drafts = s.drafts

theorem Reads.refl (s : VersionStore C) : Reads s s := ⟨rfl, rfl⟩

/-- Two calls of a completion write: the commit, and the mark on the draft. -/
theorem CompleteRequest.advance_store (q : CompleteRequest) (epoch : Nat) (ok : Bool)
    (s : VersionStore C) (phase : CompletePhase C) : Reads s (q.advance epoch ok s phase).1 ∨
    (∃ ontology parent tag v, phase = .ready ontology parent tag ∧
      s.commitVersion ontology tag parent = some ((q.advance epoch ok s phase).1, v) ∧
      (q.advance epoch ok s phase).2 = .committed v) ∨ (∃ v, phase = .committed v ∧
      s.completeDraft q.draft v.id q.revision = some (q.advance epoch ok s phase).1 ∧
      (q.advance epoch ok s phase).2 = .marked v) := by
  cases phase with
  | start | identified =>
    left
    unfold CompleteRequest.advance
    dsimp only
    repeat' split
    all_goals exact .refl s
  | loaded | stale | placed | marked | published | done => exact .inl (.refl s)
  | gated =>
    left
    unfold CompleteRequest.advance
    dsimp only
    split
    · exact .refl s
    · exact .refl s
  | unclaimed =>
    left
    unfold CompleteRequest.advance
    dsimp only
    split
    · exact ⟨rfl, rfl⟩
    · exact .refl s
  | ready ontology parent tag =>
    unfold CompleteRequest.advance
    dsimp only
    cases ok with
    | false => exact .inl (.refl s)
    | true =>
      rw [if_pos rfl]
      cases hcommit : s.commitVersion ontology tag parent with
      | none => exact .inl (.refl s)
      | some next => exact .inr (.inl ⟨ontology, parent, tag, next.2, rfl, hcommit, rfl⟩)
  | committed v =>
    unfold CompleteRequest.advance
    dsimp only
    cases ok with
    | false => exact .inl (.refl s)
    | true =>
      rw [if_pos rfl]
      cases hmark : s.completeDraft q.draft v.id q.revision with
      | none => exact .inl (.refl s)
      | some next => exact .inr (.inr ⟨v, rfl, hmark, rfl⟩)

/-- One call of a rebase writes: the pin. -/
theorem RebaseRequest.advance_store (q : RebaseRequest) (isClean : C → C → C → Bool) (empty : C)
    (ok : Bool) (s : VersionStore C) (phase : RebasePhase C) :
    Reads s (q.advance isClean empty ok s phase).1 ∨
    (∃ project head, phase = .cleared project head ∧
      s.updateDraft q.draft project.revision (fun d => { d with parentVersionId := some head.id }) =
        some (q.advance isClean empty ok s phase).1 ∧ ok = true) := by
  cases phase with
  | start | identified =>
    left
    unfold RebaseRequest.advance
    dsimp only
    split
    · exact .refl s
    · exact .refl s
  | loaded | headed | pinned | done => exact .inl (.refl s)
  | compared =>
    left
    unfold RebaseRequest.advance
    dsimp only
    repeat' split
    all_goals exact .refl s
  | cleared project head =>
    unfold RebaseRequest.advance
    dsimp only
    cases ok with
    | false => exact .inl (.refl s)
    | true =>
      rw [if_pos rfl]
      cases hpin : s.updateDraft q.draft project.revision fun d =>
          { d with parentVersionId := some head.id } with
      | none => exact .inl (.refl s)
      | some next => exact .inr ⟨project, head, rfl, hpin, rfl⟩

/-- One call of a batch of edits writes: the commit. -/
theorem EditRequest.advance_store (q : EditRequest C) (ok : Bool) (s : VersionStore C)
    (phase : EditPhase C) : Reads s (q.advance ok s phase).1 ∨
    (∃ head content v, phase = .gated head content ∧
      s.commitVersion content (.number (head.tag.parseU32 + 1)) (some head.id) =
        some ((q.advance ok s phase).1, v) ∧ (q.advance ok s phase).2 = .committed v) := by
  cases phase with
  | start | current | edited | sourced | committed | done => exact .inl (.refl s)
  | identified =>
    left
    unfold EditRequest.advance
    dsimp only
    repeat' split
    all_goals exact .refl s
  | routed =>
    left
    unfold EditRequest.advance
    dsimp only
    split
    · exact .refl s
    · exact .refl s
  | gated head content =>
    unfold EditRequest.advance
    dsimp only
    cases ok with
    | false => exact .inl (.refl s)
    | true =>
      rw [if_pos rfl]
      cases hcommit : s.commitVersion content (.number (head.tag.parseU32 + 1))
          (some head.id) with
      | none => exact .inl (.refl s)
      | some next => exact .inr ⟨head, content, next.2, rfl, hcommit, rfl⟩

/-- One call of a creation writes: the insert of a new row. -/
theorem CreateRequest.advance_store (q : CreateRequest) (ok : Bool) (s : VersionStore C)
    (phase : CreatePhase C) : Reads s (q.advance ok s phase).1 ∨
    (∃ row, s.drafts q.draft = none ∧ (q.advance ok s phase).1 = s.putDraft q.draft row ∧
      (phase = .headed (none : Option (Version C)) ∧ row.parentVersionId = none ∨
        ∃ head, row.parentVersionId = some head.id ∧
          (phase = .headed (some head) ∨ ∃ content, phase = .hydrated head content))) := by
  cases phase with
  | start =>
    left
    cases q with
    | baseOntology => exact .refl s
    | source => exact .refl s
  | identified =>
    left
    unfold CreateRequest.advance
    dsimp only
    split
    · exact .refl s
    · exact .refl s
  | headed head =>
    unfold CreateRequest.advance
    cases q with
    | baseOntology draft =>
      left
      cases head with
      | none => exact .refl s
      | some head =>
        dsimp only
        split
        · exact .refl s
        · exact .refl s
    | source draft =>
      dsimp only
      by_cases hfree : (ok && (s.drafts draft).isNone) = true
      · rw [if_pos hfree]
        have hnone := Option.isNone_iff_eq_none.1 (Bool.and_eq_true_iff.1 hfree).2
        refine .inr ⟨_, hnone, rfl, ?_⟩
        cases head with
        | none => exact .inl ⟨rfl, rfl⟩
        | some head => exact .inr ⟨head, rfl, .inl rfl⟩
      · rw [if_neg hfree]
        exact .inl (.refl s)
  | hydrated head content =>
    unfold CreateRequest.advance
    dsimp only
    by_cases hfree : (ok && (s.drafts q.draft).isNone) = true
    · rw [if_pos hfree]
      have hnone := Option.isNone_iff_eq_none.1 (Bool.and_eq_true_iff.1 hfree).2
      exact .inr ⟨_, hnone, rfl, .inr ⟨head, rfl, .inr ⟨content, rfl⟩⟩⟩
    · rw [if_neg hfree]
      exact .inl (.refl s)
  | done => exact .inl (.refl s)

end

end Ontosyx.Api
