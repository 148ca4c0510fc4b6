import Ontosyx.Collaboration.Sections
import Ontosyx.Lib.RefCount

/-!
# One room for each draft

Seen from outside, a hub is a map from drafts to rooms.  The counts of references are
right in every state, so a room that somebody is about to use stays in the registry,
and every step either leaves the map alone, opens a room, runs one call on the room
of its draft, or closes a room.  The last must find the room empty, and the hub does
not see to that.
-/

namespace Ontosyx.Collaboration

open Lib Function AList

variable {ι : Type} {limits : HubLimits} {s s' : State ι} {m : Move ι}
  {events : List (Event ι)}

/-- The room that a process has a reference to, and the draft it takes it for. -/
def Phase.arc : Phase → Option (OntologyDraftId × Nat)
  | .calling call (.holding a) _ => some (call.draft, a)
  | .calling call (.finished a _) _ => some (call.draft, a)
  | _ => none

@[simp] theorem Phase.arc_after (sweep : Option Sweep) : (Phase.after sweep).arc = none := by
  cases sweep <;> rfl

section

variable [DecidableEq ι]

/-- The steps, by what they do to rooms and references. -/
inductive Effect (limits : HubLimits) (s : State ι) (m : Move ι) :
    State ι → List (Event ι) → Prop
  | moved {i : ι} {hub : Hub ι} {phase : Phase} (hrooms : hub.rooms = s.hub.rooms)
      (hheap : hub.heap = s.hub.heap) (hnext : hub.next = s.hub.next)
      (hclock : hub.clock = s.hub.clock) (hfrom : (s.phase i).arc = none)
      (hto : phase.arc = none) : Effect limits s m (s.put i hub phase) []
  | passed (duration : Nat) :
      Effect limits s m { s with hub := { s.hub with clock := s.hub.clock + duration } } []
  | missed {i : ι} {call : Call} {sweep : Option Sweep} {phase : Phase}
      (hroom : s.hub.rooms.lookup call.draft = none) (hcreates : call.creates = false)
      (hfrom : s.phase i = .calling call .looking sweep) (hto : phase.arc = none) :
      Effect limits s m (s.put i s.hub phase) [.ran s.hub.clock i call none]
  | cloned {i : ι} {draft : OntologyDraftId} {a : Nat} {phase : Phase}
      (hroom : s.hub.rooms.lookup draft = some a) (hfrom : (s.phase i).arc = none)
      (hto : phase.arc = some (draft, a)) : Effect limits s m (s.put i (s.hub.cloneArc a) phase) []
  | opened {i : ι} {draft : OntologyDraftId} {phase : Phase}
      (hroom : s.hub.rooms.lookup draft = none) (hfrom : (s.phase i).arc = none)
      (hto : phase.arc = some (draft, s.hub.next)) :
      Effect limits s m (s.put i (s.hub.openRoom draft) phase) []
  | ran {i : ι} {call : Call} {a : Nat} {sweep : Option Sweep} {phase : Phase}
      {done : Outcome ι} (hmove : m = .turn i)
      (hdone : done = call.underMutex limits s.hub.clock i (s.hub.heap a).room)
      (hfrom : s.phase i = .calling call (.holding a) sweep)
      (hto : phase.arc = some (call.draft, a)) :
      Effect limits s m (s.put i (s.hub.setRoom a done.room) phase)
        (.ran s.hub.clock i call done.reply ::
          done.frames.map fun frame => .sent s.hub.clock call.draft frame done.room.receivers)
  | dropped {i : ι} {draft : OntologyDraftId} {a : Nat} {phase : Phase}
      (hfrom : (s.phase i).arc = some (draft, a)) (hto : phase.arc = none) :
      Effect limits s m (s.put i (s.hub.dropArc a) phase) []
  | removed {i : ι} {call : Call} {sweep : Option Sweep} {a : Nat} {phase : Phase}
      (hmove : m = .turn i) (hfrom : s.phase i = .calling call .emptied sweep)
      (hroom : s.hub.rooms.lookup call.draft = some a) (hstrong : (s.hub.heap a).strong = 1)
      (hto : phase.arc = none) :
      Effect limits s m
        (s.put i ({ s.hub with rooms := s.hub.rooms.erase call.draft }.dropArc a) phase) []

theorem callStep_effect {i : ι} {call : Call} {stage : Stage} {sweep : Option Sweep}
    (hphase : s.phase i = .calling call stage sweep)
    (h : s.callStep limits i call stage sweep = some (s', events)) :
    Effect limits s (.turn i) s' events := by
  have hfrom : (s.phase i).arc = (Phase.calling call stage sweep).arc := congrArg _ hphase
  cases stage with
  | looking =>
    simp only [State.callStep] at h
    split at h
    · cases h
      exact .cloned ‹_› hfrom rfl
    · split at h
      · cases h
        exact .moved rfl rfl rfl rfl hfrom rfl
      · cases h
        exact .missed ‹_› (Bool.eq_false_iff.2 ‹_›) hphase (Phase.arc_after sweep)
  | missing =>
    simp only [State.callStep] at h
    split at h
    · split at h
      · cases h
        exact .cloned ‹_› hfrom rfl
      · cases h
        exact .opened ‹_› hfrom rfl
    · cases h
  | holding a =>
    simp only [State.callStep] at h
    cases h
    exact .ran rfl rfl hphase rfl
  | finished a empty =>
    simp only [State.callStep] at h
    cases h
    cases empty with
    | false => exact .dropped hfrom (Phase.arc_after sweep)
    | true => exact .dropped hfrom rfl
  | emptied =>
    simp only [State.callStep, Hub.removeRoom] at h
    split at h
    · cases h
      split
      · exact .moved rfl rfl rfl rfl hfrom (Phase.arc_after sweep)
      · split
        · exact .removed rfl hphase ‹_› ‹_› (Phase.arc_after sweep)
        · exact .moved rfl rfl rfl rfl hfrom (Phase.arc_after sweep)
    · cases h

theorem step_effect (h : s.step limits m = some (s', events)) : Effect limits s m s' events := by
  cases m with
  | call i call | reap i =>
    simp only [State.step] at h
    split at h
    · cases h
      exact .moved rfl rfl rfl rfl (by rw [‹s.phase i = _›]; rfl) rfl
    · cases h
  | turn i =>
    simp only [State.step] at h
    split at h
    · exact callStep_effect ‹_› h
    all_goals first
      | cases h; exact .moved rfl rfl rfl rfl (by rw [‹s.phase i = _›]; rfl) rfl
      | cases h
  | visit i draft | evict i draft user =>
    simp only [State.step] at h
    split at h
    · split at h
      · cases h
        exact .moved rfl rfl rfl rfl (by rw [‹s.phase i = _›]; rfl) rfl
      · cases h
    · cases h
  | pass duration =>
    simp only [State.step] at h
    cases h
    exact .passed duration

end

/-! ## The counts are right -/

/-- Every reference is to the room in the registry, and the count of a room there is
that of its holders and the registry. -/
structure Counted (s : State ι) : Prop where
  held : ∀ i draft a, (s.phase i).arc = some (draft, a) → s.hub.rooms.lookup draft = some a
  strong : ∀ draft a, s.hub.rooms.lookup draft = some a →
    ∃ n, Counts (fun i => (s.phase i).arc = some (draft, a)) n ∧ (s.hub.heap a).strong = n + 1
  fresh : ∀ draft a, s.hub.rooms.lookup draft = some a → a < s.hub.next
  apart : ∀ draft draft' a, s.hub.rooms.lookup draft = some a →
    s.hub.rooms.lookup draft' = some a → draft = draft'

theorem counted_start : Counted ({} : State ι) := by
  refine ⟨?_, ?_, ?_, ?_⟩
  · intro i draft a h
    cases h
  all_goals
    intro draft
    intros
    rename_i h
    cases h

/-- Nothing that the counts are about has changed. -/
theorem Counted.of_eq (h : Counted s) (hrooms : s'.hub.rooms = s.hub.rooms)
    (hstrong : ∀ a, (s'.hub.heap a).strong = (s.hub.heap a).strong)
    (hnext : s'.hub.next = s.hub.next) (harc : ∀ j, (s'.phase j).arc = (s.phase j).arc) :
    Counted s' := by
  refine ⟨?_, ?_, ?_, ?_⟩
  · intro j draft a hj
    rw [hrooms]
    exact h.held j draft a ((harc j).symm.trans hj)
  · intro draft a hroom
    rw [hrooms] at hroom
    obtain ⟨n, hcounts, hn⟩ := h.strong draft a hroom
    exact ⟨n, hcounts.congr fun j => by rw [harc], (hstrong a).trans hn⟩
  · intro draft a hroom
    rw [hrooms] at hroom
    rw [hnext]
    exact h.fresh draft a hroom
  · intro draft draft' a hroom hroom'
    rw [hrooms] at hroom hroom'
    exact h.apart draft draft' a hroom hroom'

variable {draft : OntologyDraftId} {a : Nat}

section

variable [DecidableEq ι]

variable {phase : Phase} {i : ι}

theorem arc_put {hub : Hub ι} (j : ι) :
    ((s.put i hub phase).phase j).arc = if j = i then phase.arc else (s.phase j).arc := by
  simp only [State.put, update_apply, apply_ite Phase.arc]

theorem arc_put_of_eq {hub : Hub ι} (h : phase.arc = (s.phase i).arc) (j : ι) :
    ((s.put i hub phase).phase j).arc = (s.phase j).arc := by
  rw [arc_put]
  split
  · rw [h, ‹j = i›]
  · rfl

/-- A process takes a reference to a room of the registry. -/
theorem Counted.clone {i : ι} {phase : Phase} (h : Counted s)
    (hroom : s.hub.rooms.lookup draft = some a) (hfrom : (s.phase i).arc = none)
    (hto : phase.arc = some (draft, a)) : Counted (s.put i (s.hub.cloneArc a) phase) := by
  refine ⟨?_, ?_, h.fresh, h.apart⟩
  · intro j draft' a' hj
    rw [arc_put] at hj
    split at hj
    · cases hto.symm.trans hj
      exact hroom
    · exact h.held j draft' a' hj
  · intro draft' a' hroom'
    obtain ⟨n, hcounts, hn⟩ := h.strong draft' a' hroom'
    by_cases ha : a' = a
    · subst ha
      cases h.apart draft draft' a' hroom hroom'
      refine ⟨n + 1, hcounts.clone (i := i) ?_ ?_, ?_⟩
      · rw [hfrom]
        exact fun hnone => by cases hnone
      · intro j
        rw [arc_put]
        by_cases hj : j = i
        · simp [hj, hto]
        · simp [hj]
      · simp [State.put, Hub.cloneArc, Hub.setStrong, hn]
    · refine ⟨n, hcounts.congr fun j => ?_, ?_⟩
      · rw [arc_put]
        by_cases hj : j = i
        · subst hj
          simp [hto, hfrom, Ne.symm ha]
        · rw [if_neg hj]
      · rw [← hn]
        exact congrArg Shared.strong (update_of_ne ha _ _)

/-- A process opens a room and keeps a reference to it. -/
theorem Counted.open (h : Counted s) (hroom : s.hub.rooms.lookup draft = none)
    (hfrom : (s.phase i).arc = none) (hto : phase.arc = some (draft, s.hub.next)) :
    Counted (s.put i (s.hub.openRoom draft) phase) := by
  have hlookup : ∀ draft' a, (s.hub.openRoom draft).rooms.lookup draft' = some a →
      (draft' = draft ∧ a = s.hub.next) ∨
        (draft' ≠ draft ∧ s.hub.rooms.lookup draft' = some a ∧ a < s.hub.next) := by
    intro draft' a hsome
    by_cases hd : draft' = draft
    · subst hd
      cases (lookup_insert _).symm.trans hsome
      exact .inl ⟨rfl, rfl⟩
    · have hbefore := (lookup_insert_ne hd).symm.trans hsome
      exact .inr ⟨hd, hbefore, h.fresh draft' a hbefore⟩
  refine ⟨?_, ?_, ?_, ?_⟩
  · intro j draft' a hj
    rw [arc_put] at hj
    split at hj
    · cases hto.symm.trans hj
      exact lookup_insert _
    · have hbefore := h.held j draft' a hj
      have hd : draft' ≠ draft := by
        rintro rfl
        cases hroom.symm.trans hbefore
      exact (lookup_insert_ne hd).trans hbefore
  · intro draft' a hroom'
    rcases hlookup draft' a hroom' with ⟨rfl, rfl⟩ | ⟨hd, hbefore, hlt⟩
    · refine ⟨1, ?_, ?_⟩
      · have hnobody : Counts (fun j => (s.phase j).arc = some (draft', s.hub.next)) 0 := by
          refine counts_zero_iff.2 fun j hj => ?_
          cases hroom.symm.trans (h.held j draft' _ hj)
        refine hnobody.clone (i := i) ?_ ?_
        · rw [hfrom]
          exact fun hnone => by cases hnone
        · intro j
          rw [arc_put]
          by_cases hj : j = i
          · simp [hj, hto]
          · simp [hj]
      · simp [State.put, Hub.openRoom]
    · obtain ⟨n, hcounts, hn⟩ := h.strong draft' a hbefore
      refine ⟨n, hcounts.congr fun j => ?_, ?_⟩
      · rw [arc_put]
        by_cases hj : j = i
        · subst hj
          simp [hto, hfrom, Ne.symm hd]
        · rw [if_neg hj]
      · rw [← hn]
        exact congrArg Shared.strong (update_of_ne (Nat.ne_of_lt hlt) _ _)
  · intro draft' a hroom'
    rcases hlookup draft' a hroom' with ⟨_, rfl⟩ | ⟨_, _, hlt⟩
    · exact Nat.lt_succ_self _
    · exact Nat.lt_succ_of_lt hlt
  · intro draft₁ draft₂ a hroom₁ hroom₂
    rcases hlookup draft₁ a hroom₁ with ⟨rfl, rfl⟩ | ⟨_, hbefore₁, hlt⟩
    · rcases hlookup draft₂ _ hroom₂ with ⟨rfl, _⟩ | ⟨_, _, hlt⟩
      · rfl
      · exact absurd hlt (Nat.lt_irrefl _)
    · rcases hlookup draft₂ a hroom₂ with ⟨_, rfl⟩ | ⟨_, hbefore₂, _⟩
      · exact absurd hlt (Nat.lt_irrefl _)
      · exact h.apart draft₁ draft₂ a hbefore₁ hbefore₂

/-- A reference goes out of scope. -/
theorem Counted.drop {i : ι} {phase : Phase} (h : Counted s)
    (hfrom : (s.phase i).arc = some (draft, a)) (hto : phase.arc = none) :
    Counted (s.put i (s.hub.dropArc a) phase) := by
  have hroom := h.held i draft a hfrom
  refine ⟨?_, ?_, h.fresh, h.apart⟩
  · intro j draft' a' hj
    rw [arc_put] at hj
    split at hj
    · cases hto.symm.trans hj
    · exact h.held j draft' a' hj
  · intro draft' a' hroom'
    obtain ⟨n, hcounts, hn⟩ := h.strong draft' a' hroom'
    by_cases ha : a' = a
    · subst ha
      cases h.apart draft draft' a' hroom hroom'
      have hothers : ∀ j, ((s.put i (s.hub.dropArc a') phase).phase j).arc = some (draft, a') ↔
          j ≠ i ∧ (s.phase j).arc = some (draft, a') := by
        intro j
        rw [arc_put]
        by_cases hj : j = i
        · simp [hj, hto]
        · simp [hj]
      obtain ⟨hpos, hfewer⟩ := hcounts.drop hfrom hothers
      refine ⟨n - 1, hfewer, ?_⟩
      have hstrong : ((s.put i (s.hub.dropArc a') phase).hub.heap a').strong =
          (s.hub.heap a').strong - 1 := by
        simp [State.put, Hub.dropArc, Hub.setStrong]
      rw [hstrong, hn]
      omega
    · refine ⟨n, hcounts.congr fun j => ?_, ?_⟩
      · rw [arc_put]
        by_cases hj : j = i
        · subst hj
          simp [hto, hfrom, Ne.symm ha]
        · rw [if_neg hj]
      · rw [← hn]
        exact congrArg Shared.strong (update_of_ne ha _ _)

/-- A room that only the registry refers to leaves it. -/
theorem Counted.remove (h : Counted s) (hroom : s.hub.rooms.lookup draft = some a)
    (hstrong : (s.hub.heap a).strong = 1) (hfrom : (s.phase i).arc = none)
    (hto : phase.arc = none) :
    Counted (s.put i ({ s.hub with rooms := s.hub.rooms.erase draft }.dropArc a) phase) := by
  have hnobody : ∀ j, (s.phase j).arc ≠ some (draft, a) := by
    obtain ⟨n, hcounts, hn⟩ := h.strong draft a hroom
    obtain rfl : n = 0 := by omega
    exact counts_zero_iff.1 hcounts
  have hlookup : ∀ draft' a', (s.hub.rooms.erase draft).lookup draft' = some a' →
      draft' ≠ draft ∧ s.hub.rooms.lookup draft' = some a' := by
    intro draft' a' hsome
    by_cases hd : draft' = draft
    · subst hd
      rw [lookup_erase] at hsome
      cases hsome
    · exact ⟨hd, (lookup_erase_ne hd).symm.trans hsome⟩
  refine ⟨?_, ?_, ?_, ?_⟩
  · intro j draft' a' hj
    rw [arc_put_of_eq (hto.trans hfrom.symm)] at hj
    have hbefore := h.held j draft' a' hj
    have hd : draft' ≠ draft := by
      rintro rfl
      cases hroom.symm.trans hbefore
      exact hnobody j hj
    exact (lookup_erase_ne hd).trans hbefore
  · intro draft' a' hroom'
    obtain ⟨hd, hbefore⟩ := hlookup draft' a' hroom'
    obtain ⟨n, hcounts, hn⟩ := h.strong draft' a' hbefore
    refine ⟨n, hcounts.congr fun j => by rw [arc_put_of_eq (hto.trans hfrom.symm)], ?_⟩
    rw [← hn]
    have ha : a' ≠ a := fun heq => hd (h.apart draft' draft a (heq ▸ hbefore) hroom)
    exact congrArg Shared.strong (update_of_ne ha _ _)
  · intro draft' a' hroom'
    exact h.fresh draft' a' (hlookup draft' a' hroom').2
  · intro draft₁ draft₂ a' hroom₁ hroom₂
    exact h.apart draft₁ draft₂ a' (hlookup draft₁ a' hroom₁).2 (hlookup draft₂ a' hroom₂).2

theorem Counted.step (h : Counted s) (heffect : Effect limits s m s' events) : Counted s' := by
  cases heffect with
  | moved hrooms hheap hnext hclock hfrom hto =>
    exact h.of_eq hrooms (fun a => by rw [State.put, hheap]) hnext
      (arc_put_of_eq (hto.trans hfrom.symm))
  | passed duration => exact h.of_eq rfl (fun _ => rfl) rfl fun _ => rfl
  | missed hroom hcreates hfrom hto =>
    exact h.of_eq rfl (fun _ => rfl) rfl
      (arc_put_of_eq (hto.trans (congrArg Phase.arc hfrom).symm))
  | cloned hroom hfrom hto => exact h.clone hroom hfrom hto
  | opened hroom hfrom hto => exact h.open hroom hfrom hto
  | @ran i call a sweep phase done hmove hdone hfrom hto =>
    refine h.of_eq rfl (fun a' => ?_) rfl
      (arc_put_of_eq (hto.trans (congrArg Phase.arc hfrom).symm))
    by_cases ha : a' = a
    · subst ha
      simp [State.put, Hub.setRoom]
    · exact congrArg Shared.strong (update_of_ne ha _ _)
  | dropped hfrom hto => exact h.drop hfrom hto
  | removed hmove hfrom hroom hstrong hto =>
    exact h.remove hroom hstrong (congrArg Phase.arc hfrom) hto

end

/-! ## The map of rooms -/

def Hub.roomOf (h : Hub ι) (draft : OntologyDraftId) : Option (Room ι) :=
  (h.rooms.lookup draft).map fun a => (h.heap a).room

/-- What a step does to the map of rooms. -/
inductive Change (limits : HubLimits) (now : Time) (rooms : OntologyDraftId → Option (Room ι)) :
    (OntologyDraftId → Option (Room ι)) → List (Event ι) → Prop
  | none : Change limits now rooms rooms []
  | missed {i : ι} {call : Call} (hroom : rooms call.draft = none)
      (hcreates : call.creates = false) :
      Change limits now rooms rooms [.ran now i call none]
  | opened {draft : OntologyDraftId} (hroom : rooms draft = none) :
      Change limits now rooms (update rooms draft (some {})) []
  | ran {i : ι} {call : Call} {room : Room ι} {done : Outcome ι}
      (hroom : rooms call.draft = some room) (hdone : done = call.underMutex limits now i room) :
      Change limits now rooms (update rooms call.draft (some done.room))
        (.ran now i call done.reply ::
          done.frames.map fun frame => .sent now call.draft frame done.room.receivers)
  | closed {draft : OntologyDraftId} {room : Room ι} (hroom : rooms draft = some room)
      (hempty : room.members.entries = []) :
      Change limits now rooms (update rooms draft none) []

/-- The step takes no room from the registry that has members. -/
def State.FindsEmpty (s : State ι) : Move ι → Prop
  | .turn i =>
    match s.phase i with
    | .calling call .emptied _ =>
      match s.hub.rooms.lookup call.draft with
      | some a => (s.hub.heap a).strong = 1 → (s.hub.heap a).room.members.entries = []
      | none => True
    | _ => True
  | _ => True

theorem roomOf_of_eq {h h' : Hub ι} (hrooms : h'.rooms = h.rooms)
    (hheap : ∀ a, (h'.heap a).room = (h.heap a).room) : h'.roomOf = h.roomOf := by
  funext draft
  simp only [Hub.roomOf, hrooms, hheap]

theorem roomOf_setStrong {h : Hub ι} {n : Nat} : (h.setStrong a n).roomOf = h.roomOf := by
  refine roomOf_of_eq rfl fun a' => ?_
  by_cases ha : a' = a
  · subst ha
    simp [Hub.setStrong]
  · exact congrArg Shared.room (update_of_ne ha _ _)

theorem Counted.roomOf_setRoom {room : Room ι} (h : Counted s)
    (hroom : s.hub.rooms.lookup draft = some a) :
    (s.hub.setRoom a room).roomOf = update s.hub.roomOf draft (some room) := by
  funext draft'
  by_cases hd : draft' = draft
  · subst hd
    simp [Hub.roomOf, Hub.setRoom, hroom]
  · rw [update_of_ne hd]
    simp only [Hub.roomOf, Hub.setRoom]
    refine Option.map_congr fun a' ha' => ?_
    have hne : a' ≠ a := fun heq => hd (h.apart draft' draft a (heq ▸ ha') hroom)
    rw [update_of_ne hne]

theorem Counted.roomOf_openRoom (h : Counted s) :
    (s.hub.openRoom draft).roomOf = update s.hub.roomOf draft (some {}) := by
  funext draft'
  by_cases hd : draft' = draft
  · subst hd
    simp [Hub.roomOf, Hub.openRoom]
  · rw [update_of_ne hd]
    simp only [Hub.roomOf, Hub.openRoom, lookup_insert_ne hd]
    refine Option.map_congr fun a' ha' => ?_
    rw [update_of_ne (Nat.ne_of_lt (h.fresh draft' a' ha'))]

theorem roomOf_erase {h : Hub ι} :
    ({ h with rooms := h.rooms.erase draft } : Hub ι).roomOf =
      update h.roomOf draft none := by
  funext draft'
  by_cases hd : draft' = draft
  · subst hd
    simp [Hub.roomOf]
  · rw [update_of_ne hd]
    simp only [Hub.roomOf, lookup_erase_ne hd]

/-- Every step that finds no room in use is one of the map of rooms. -/
theorem Counted.change [DecidableEq ι] (h : Counted s) (heffect : Effect limits s m s' events)
    (hempty : s.FindsEmpty m) :
    Change limits s.hub.clock s.hub.roomOf s'.hub.roomOf events ∧ s.hub.clock ≤ s'.hub.clock := by
  cases heffect with
  | moved hrooms hheap hnext hclock hfrom hto =>
    refine ⟨?_, Int.le_of_eq hclock.symm⟩
    rw [State.put, roomOf_of_eq hrooms fun a => by rw [hheap]]
    exact .none
  | passed duration => exact ⟨.none, Int.le_add_of_nonneg_right (Int.natCast_nonneg duration)⟩
  | missed hroom hcreates hfrom hto =>
    exact ⟨.missed (by rw [Hub.roomOf, hroom]; rfl) hcreates, Int.le_refl _⟩
  | cloned hroom hfrom hto =>
    refine ⟨?_, Int.le_refl _⟩
    rw [State.put, Hub.cloneArc, roomOf_setStrong]
    exact .none
  | opened hroom hfrom hto =>
    refine ⟨?_, Int.le_refl _⟩
    rw [State.put, h.roomOf_openRoom]
    exact .opened (by rw [Hub.roomOf, hroom]; rfl)
  | @ran i call a sweep phase done hmove hdone hfrom hto =>
    refine ⟨?_, Int.le_refl _⟩
    have hroom := h.held i _ a (congrArg Phase.arc hfrom)
    rw [State.put, h.roomOf_setRoom hroom]
    exact .ran (by rw [Hub.roomOf, hroom]; rfl) hdone
  | dropped hfrom hto =>
    refine ⟨?_, Int.le_refl _⟩
    rw [State.put, Hub.dropArc, roomOf_setStrong]
    exact .none
  | @removed i call sweep a phase hmove hfrom hroom hstrong hto =>
    refine ⟨?_, Int.le_refl _⟩
    rw [State.put, Hub.dropArc, roomOf_setStrong, roomOf_erase]
    subst hmove
    simp only [State.FindsEmpty, hfrom, hroom] at hempty
    exact .closed (by rw [Hub.roomOf, hroom]; rfl) (hempty hstrong)

end Ontosyx.Collaboration
