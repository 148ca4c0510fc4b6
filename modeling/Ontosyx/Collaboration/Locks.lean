import Ontosyx.Collaboration.Rooms

/-!
# Locks are exclusive

While no room is taken from the registry that has members, those who have joined a
draft and not left it are all in its one room and hear whatever it broadcasts, and an
entity that was granted to a user goes to nobody else before the user gives it up or
the grant expires.  Nothing keeps such a room in the registry: a leave that saw its
room empty takes it out even if someone has come in since, for the reference count
tells only of calls that are still under way.

## Main results

* `hub_run` — locks are exclusive and a draft has one room, in every run in which no
  leave removes a room with members.
* `joinedMeanwhile_shared` — a join between the two halves of a leave: two users in
  one draft hold the same entity.
-/

namespace Ontosyx.Collaboration

open List Function Or

variable {ι : Type} {limits : HubLimits} {now : Time}
  {rooms rooms' : OntologyDraftId → Option (Room ι)} {log events : List (Event ι)}

/-! ## What a log tells

A log lists the newest event first. -/

/-- A process has come into a draft for a user. -/
def Event.Joins (draft : OntologyDraftId) (user : UserId) (i : ι) : Event ι → Prop
  | .ran _ j call _ => j = i ∧ ∃ name, call = .join draft user name
  | .sent .. => False

def Event.Leaves (draft : OntologyDraftId) (user : UserId) : Event ι → Prop
  | .ran _ _ call _ => call = .leave draft user
  | .sent .. => False

def Event.Grants (draft : OntologyDraftId) (entity : EntityId) (user : UserId)
    (expiresAt : Time) : Event ι → Prop
  | .ran _ _ _ reply => reply = some (.lockGranted draft entity user expiresAt)
  | .sent .. => False

def Event.Releases (draft : OntologyDraftId) (entity : EntityId) (user : UserId) : Event ι → Prop
  | .ran _ _ call reply => call = .releaseLock draft user entity ∧ reply = none
  | .sent .. => False

def Event.time : Event ι → Time
  | .ran time .. => time
  | .sent time .. => time

/-- The user has come into the draft through a process and not left since. -/
def Joined (draft : OntologyDraftId) (user : UserId) (i : ι) : List (Event ι) → Prop
  | [] => False
  | event :: log => event.Joins draft user i ∨ ¬event.Leaves draft user ∧ Joined draft user i log

/-- The user was granted the entity up to a time, and has neither released it nor left
the draft since. -/
def Held (draft : OntologyDraftId) (entity : EntityId) (user : UserId) (expiresAt : Time) :
    List (Event ι) → Prop
  | [] => False
  | event :: log =>
    event.Grants draft entity user expiresAt ∨
      ¬event.Releases draft entity user ∧ ¬event.Leaves draft user ∧
        Held draft entity user expiresAt log

/-- No entity was granted while another user held it under a grant that had not
expired. -/
def Exclusive : List (Event ι) → Prop
  | [] => True
  | event :: log =>
    Exclusive log ∧ ∀ draft entity user expiresAt, event.Grants draft entity user expiresAt →
      ∀ holder until', holder ≠ user → Held draft entity holder until' log → until' ≤ event.time

/-- Everyone who was in a draft was to hear every frame broadcast for it. -/
def Heard : List (Event ι) → Prop
  | [] => True
  | event :: log =>
    Heard log ∧ match event with
      | .sent _ draft _ receivers => ∀ user i, Joined draft user i log → i ∈ receivers
      | .ran .. => True

/-- Everyone who is in a draft is a member of the room that the registry has for it,
and has subscribed to it. -/
def OneRoom (rooms : OntologyDraftId → Option (Room ι)) (log : List (Event ι)) : Prop :=
  ∀ draft user i, Joined draft user i log →
    ∃ room, rooms draft = some room ∧ user ∈ room.members ∧ i ∈ room.receivers

def Event.IsSent : Event ι → Prop
  | .sent .. => True
  | .ran .. => False

variable {draft : OntologyDraftId}

theorem joined_append {user : UserId} {i : ι} (hsent : ∀ event ∈ events, event.IsSent) :
    Joined draft user i (events ++ log) ↔ Joined draft user i log := by
  induction events with
  | nil => rfl
  | cons event events ih =>
    cases event with
    | ran => exact (hsent _ mem_cons_self).elim
    | sent =>
      rw [cons_append, Joined, ih fun e he => hsent e (mem_cons_of_mem _ he)]
      simp [Event.Joins, Event.Leaves]

theorem held_append {entity : EntityId} {user : UserId} {expiresAt : Time}
    (hsent : ∀ event ∈ events, event.IsSent) :
    Held draft entity user expiresAt (events ++ log) ↔ Held draft entity user expiresAt log := by
  induction events with
  | nil => rfl
  | cons event events ih =>
    cases event with
    | ran => exact (hsent _ mem_cons_self).elim
    | sent =>
      rw [cons_append, Held, ih fun e he => hsent e (mem_cons_of_mem _ he)]
      simp [Event.Grants, Event.Releases, Event.Leaves]

theorem exclusive_append (hsent : ∀ event ∈ events, event.IsSent) :
    Exclusive (events ++ log) ↔ Exclusive log := by
  induction events with
  | nil => rfl
  | cons event events ih =>
    cases event with
    | ran => exact (hsent _ mem_cons_self).elim
    | sent =>
      rw [cons_append, Exclusive, ih fun e he => hsent e (mem_cons_of_mem _ he)]
      simp [Event.Grants]

theorem heard_append (h : Heard log) (hevents : ∀ event ∈ events,
      ∃ time draft frame receivers, event = .sent time draft frame receivers ∧
        ∀ user i, Joined draft user i log → i ∈ receivers) : Heard (events ++ log) := by
  induction events with
  | nil => exact h
  | cons event events ih =>
    have hrest := fun e he => hevents e (mem_cons_of_mem event he)
    obtain ⟨time, draft, frame, receivers, rfl, hall⟩ := hevents event mem_cons_self
    refine ⟨ih hrest, fun user i hjoined => hall user i ?_⟩
    refine (joined_append fun e he => ?_).1 hjoined
    obtain ⟨_, _, _, _, rfl, _⟩ := hrest e he
    trivial

/-! ## The invariant -/

/-- What holds of the map of rooms and the log while no room closes on its members. -/
structure Kept (limits : HubLimits) (now : Time) (rooms : OntologyDraftId → Option (Room ι))
    (log : List (Event ι)) : Prop where
  joined : OneRoom rooms log
  owned : ∀ draft room, rooms draft = some room →
    ∀ e lock, room.locks.lookup e = some lock → lock.heldBy ∈ room.members
  bounded : ∀ draft room, rooms draft = some room →
    ∀ e lock, room.locks.lookup e = some lock →
      lock.expiresAt ≤ now + chronoDuration limits.lockTtl
  held : ∀ draft e user expiresAt, Held draft e user expiresAt log →
    expiresAt ≤ now ∨ ∃ room lock, rooms draft = some room ∧ room.locks.lookup e = some lock ∧
      lock.heldBy = user ∧ expiresAt ≤ lock.expiresAt
  exclusive : Exclusive log
  heard : Heard log

theorem kept_start : Kept limits now (fun _ => none) ([] : List (Event ι)) := by
  refine ⟨?_, ?_, ?_, ?_, trivial, trivial⟩
  · intro _ _ _ h
    exact h.elim
  · rintro _ _ ⟨⟩
  · rintro _ _ ⟨⟩
  · intro _ _ _ _ h
    exact h.elim

section

variable (h : Kept limits now rooms log)
include h

theorem Kept.pass {later : Time} (hle : now ≤ later) : Kept limits later rooms log := by
  refine { h with bounded := ?_, held := ?_ }
  · intro draft room hroom e lock hlock
    exact Int.le_trans (h.bounded draft room hroom e lock hlock) (Int.add_le_add_right hle _)
  · intro draft e user expiresAt hheld
    rcases h.held draft e user expiresAt hheld with hpast | hlock
    · exact .inl (Int.le_trans hpast hle)
    · exact .inr hlock

/-- A call that finds no room, and opens none, changes nothing. -/
theorem Kept.missed {i : ι} {call : Call}
    (hcreates : call.creates = false) : Kept limits now rooms (.ran now i call none :: log) := by
  refine { h with
    joined := ?_, held := ?_, exclusive := ⟨h.exclusive, ?_⟩, heard := ⟨h.heard, trivial⟩ }
  · intro draft user j hjoined
    rcases hjoined with ⟨_, name, rfl⟩ | ⟨_, hjoined⟩
    · cases hcreates
    · exact h.joined draft user j hjoined
  · intro draft e user expiresAt hheld
    rcases hheld with hgrants | ⟨_, _, hheld⟩
    · cases hgrants
    · exact h.held draft e user expiresAt hheld
  · intro draft e user expiresAt hgrants
    cases hgrants

theorem Kept.open (hroom : rooms draft = none) :
    Kept limits now (update rooms draft (some {})) log := by
  have hold : ∀ draft' room, rooms draft' = some room →
      update rooms draft (some {}) draft' = some room := by
    intro draft' room hsome
    have hd : draft' ≠ draft := by
      rintro rfl
      cases hroom.symm.trans hsome
    rw [update_of_ne hd, hsome]
  have hlocks : ∀ draft' room, update rooms draft (some {}) draft' = some room →
      rooms draft' = some room ∨ room = {} := by
    intro draft' room hsome
    by_cases hd : draft' = draft
    · subst hd
      rw [update_self] at hsome
      cases hsome
      exact .inr rfl
    · exact .inl ((update_of_ne hd _ _).symm.trans hsome)
  refine { h with joined := ?_, owned := ?_, bounded := ?_, held := ?_ }
  · intro draft' user i hjoined
    obtain ⟨room, hsome, hin⟩ := h.joined draft' user i hjoined
    exact ⟨room, hold draft' room hsome, hin⟩
  · intro draft' room hsome e lock hlock
    rcases hlocks draft' room hsome with hbefore | rfl
    · exact h.owned draft' room hbefore e lock hlock
    · cases hlock
  · intro draft' room hsome e lock hlock
    rcases hlocks draft' room hsome with hbefore | rfl
    · exact h.bounded draft' room hbefore e lock hlock
    · cases hlock
  · intro draft' e user expiresAt hheld
    rcases h.held draft' e user expiresAt hheld with hpast | ⟨room, lock, hsome, hlock⟩
    · exact .inl hpast
    · exact .inr ⟨room, lock, hold draft' room hsome, hlock⟩

/-- An empty room has no locks, so its draft loses nothing with it. -/
theorem Kept.close {room : Room ι}
    (hroom : rooms draft = some room) (hempty : room.members.entries = []) :
    Kept limits now (update rooms draft none) log := by
  have hnobody : ∀ user, user ∉ room.members := by
    intro user huser
    have hkeys : room.members.keys = [] := by
      rw [AList.keys, keys, hempty]
      rfl
    have hin := AList.mem_keys.1 huser
    rw [hkeys] at hin
    cases hin
  have hbefore : ∀ draft' room', update rooms draft none draft' = some room' →
      rooms draft' = some room' := by
    intro draft' room' hsome
    by_cases hd : draft' = draft
    · subst hd
      rw [update_self] at hsome
      cases hsome
    · exact (update_of_ne hd _ _).symm.trans hsome
  have hother : ∀ draft' room', rooms draft' = some room' → draft' ≠ draft →
      update rooms draft none draft' = some room' := by
    intro draft' room' hsome hd
    rw [update_of_ne hd, hsome]
  refine { h with joined := ?_, owned := ?_, bounded := ?_, held := ?_ }
  · intro draft' user i hjoined
    obtain ⟨room', hsome, hin, hhears⟩ := h.joined draft' user i hjoined
    refine ⟨room', hother draft' room' hsome ?_, hin, hhears⟩
    rintro rfl
    cases hroom.symm.trans hsome
    exact hnobody user hin
  · intro draft' room' hsome
    exact h.owned draft' room' (hbefore draft' room' hsome)
  · intro draft' room' hsome
    exact h.bounded draft' room' (hbefore draft' room' hsome)
  · intro draft' e user expiresAt hheld
    rcases h.held draft' e user expiresAt hheld with hpast | ⟨room', lock, hsome, hlock, howner⟩
    · exact .inl hpast
    · refine .inr ⟨room', lock, hother draft' room' hsome ?_, hlock, howner⟩
      rintro rfl
      cases hroom.symm.trans hsome
      exact hnobody _ (h.owned draft' room hroom e lock hlock)

/-- A section on the room of a draft, before its frames. -/
theorem Kept.ran {i : ι} {call : Call} {room : Room ι} {done : Outcome ι}
    (hroom : rooms call.draft = some room) (hsettled : Settled limits now i call room done) :
    Kept limits now (update rooms call.draft (some done.room))
      (.ran now i call done.reply :: log) := by
  have hmine : ∀ draft room', update rooms call.draft (some done.room) draft =
      some room' → (draft = call.draft ∧ room' = done.room) ∨ rooms draft = some room' := by
    intro draft room' hsome
    by_cases hd : draft = call.draft
    · subst hd
      rw [update_self] at hsome
      cases hsome
      exact .inl ⟨rfl, rfl⟩
    · exact .inr ((update_of_ne hd _ _).symm.trans hsome)
  refine ⟨?_, ?_, ?_, ?_, ⟨h.exclusive, ?_⟩, ⟨h.heard, trivial⟩⟩
  · intro draft user j hjoined
    rcases hjoined with ⟨rfl, name, rfl⟩ | ⟨hstays, hjoined⟩
    · exact ⟨done.room, update_self .., hsettled.enters _ _ _ rfl⟩
    · obtain ⟨room', hsome, hin, hhears⟩ := h.joined draft user j hjoined
      by_cases hd : draft = call.draft
      · subst hd
        cases hroom.symm.trans hsome
        refine ⟨done.room, update_self .., hsettled.stays user hin ?_,
          hsettled.receivers j hhears⟩
        rintro draft' rfl
        exact hstays rfl
      · exact ⟨room', by rw [update_of_ne hd, hsome], hin, hhears⟩
  · intro draft room' hsome
    rcases hmine draft room' hsome with ⟨rfl, rfl⟩ | hbefore
    · exact hsettled.owned (h.owned _ room hroom)
    · exact h.owned draft room' hbefore
  · intro draft room' hsome
    rcases hmine draft room' hsome with ⟨rfl, rfl⟩ | hbefore
    · exact hsettled.bounded (h.bounded _ room hroom)
    · exact h.bounded draft room' hbefore
  · intro draft e user expiresAt hheld
    rcases hheld with hgrants | ⟨hreleases, hleaves, hheld⟩
    · obtain ⟨rfl, hlock, _⟩ := hsettled.granted draft e user expiresAt hgrants
      exact .inr ⟨done.room, _, update_self .., hlock, rfl, Int.le_refl _⟩
    · rcases h.held draft e user expiresAt hheld with hpast | ⟨room', lock, hsome, hlock, rfl, hle⟩
      · exact .inl hpast
      · by_cases hd : draft = call.draft
        · subst hd
          cases hroom.symm.trans hsome
          rcases hsettled.kept e lock hlock (h.bounded _ room hroom e lock hlock) with
            ⟨lock', hlock', howner, hle'⟩ | hpast | ⟨draft', rfl, hreply⟩ | ⟨draft', rfl⟩
          · exact .inr ⟨done.room, lock', update_self .., hlock', howner,
              Int.le_trans hle hle'⟩
          · exact .inl (Int.le_trans hle hpast)
          · exact absurd ⟨rfl, hreply⟩ hreleases
          · exact absurd rfl hleaves
        · exact .inr ⟨room', lock, by rw [update_of_ne hd, hsome], hlock, rfl, hle⟩
  · intro draft e user expiresAt hgrants holder until' hne hheld
    obtain ⟨rfl, _, hfree⟩ := hsettled.granted draft e user expiresAt hgrants
    rcases h.held _ e holder until' hheld with hpast | ⟨room', lock, hsome, hlock, rfl, hle⟩
    · exact hpast
    · cases hroom.symm.trans hsome
      rcases hfree lock hlock with howner | hpast
      · exact absurd howner hne
      · exact Int.le_trans hle hpast

theorem Kept.send (hevents : ∀ event ∈ events,
      ∃ time draft frame receivers, event = .sent time draft frame receivers ∧
        ∀ user i, Joined draft user i log → i ∈ receivers) :
    Kept limits now rooms (events ++ log) := by
  have hsent : ∀ event ∈ events, event.IsSent := by
    intro event hmem
    obtain ⟨_, _, _, _, rfl, _⟩ := hevents event hmem
    trivial
  refine { h with
    joined := ?_, held := ?_, exclusive := (exclusive_append hsent).2 h.exclusive
    heard := heard_append h.heard hevents }
  · intro draft user i hjoined
    exact h.joined draft user i ((joined_append hsent).1 hjoined)
  · intro draft e user expiresAt hheld
    exact h.held draft e user expiresAt ((held_append hsent).1 hheld)

theorem Kept.change (hchange : Change limits now rooms rooms' events) :
    Kept limits now rooms' (events.reverse ++ log) := by
  cases hchange with
  | none => exact h
  | missed hroom hcreates => exact h.missed hcreates
  | opened hroom => exact h.open hroom
  | closed hroom hempty => exact h.close hroom hempty
  | @ran i call room done hroom hdone =>
    have hran := h.ran hroom (hdone ▸ settled_underMutex)
    rw [reverse_cons, append_assoc, singleton_append]
    refine hran.send fun event hmem => ?_
    obtain ⟨frame, _, rfl⟩ := mem_map.1 (mem_reverse.1 hmem)
    refine ⟨now, call.draft, frame, done.room.receivers, rfl, fun user j hjoined => ?_⟩
    obtain ⟨room', hsome, _, hhears⟩ := hran.joined _ user j hjoined
    rw [update_self] at hsome
    cases hsome
    exact hhears

end

/-! ## Runs -/

section

variable [DecidableEq ι] (limits)

/-- No step of the run takes a room from the registry that has members. -/
def RunFindsEmpty (s : State ι) : List (Move ι) → Prop
  | [] => True
  | m :: ms =>
    s.FindsEmpty m ∧ match s.step limits m with
      | some (s', _) => RunFindsEmpty s' ms
      | none => True

variable {limits}

theorem Kept.step {s s' : State ι} {m : Move ι} (hcounted : Counted s)
    (h : Kept limits s.hub.clock s.hub.roomOf log) (hempty : s.FindsEmpty m)
    (hstep : s.step limits m = some (s', events)) :
    Counted s' ∧ Kept limits s'.hub.clock s'.hub.roomOf (events.reverse ++ log) := by
  have heffect := step_effect hstep
  obtain ⟨hchange, hclock⟩ := hcounted.change heffect hempty
  exact ⟨hcounted.step heffect, (h.change hchange).pass hclock⟩

theorem Kept.steps {s s' : State ι} {moves : List (Move ι)} {log' : List (Event ι)}
    (hcounted : Counted s) (h : Kept limits s.hub.clock s.hub.roomOf log)
    (hempty : RunFindsEmpty limits s moves) (hrun : run limits s log moves = some (s', log')) :
    Counted s' ∧ Kept limits s'.hub.clock s'.hub.roomOf log' := by
  induction moves generalizing s log with
  | nil =>
    cases hrun
    exact ⟨hcounted, h⟩
  | cons m ms ih =>
    rw [run] at hrun
    obtain ⟨hfirst, hrest⟩ := hempty
    cases hstep : s.step limits m with
    | none =>
      rw [hstep] at hrun
      cases hrun
    | some next =>
      rw [hstep] at hrun hrest
      obtain ⟨hcounted', h'⟩ := h.step hcounted hfirst hstep
      exact ih hcounted' h' hrest hrun

/-- In every run in which no leave takes a room from the registry that has members,
locks are exclusive, and all who are in a draft are in its one room and hear what it
broadcasts. -/
theorem hub_run {moves : List (Move ι)} {s : State ι} {log : List (Event ι)}
    (hrun : run limits {} [] moves = some (s, log)) (hempty : RunFindsEmpty limits {} moves) :
    Exclusive log ∧ OneRoom s.hub.roomOf log ∧ Heard log := by
  obtain ⟨_, hkept⟩ := Kept.steps counted_start kept_start hempty hrun
  exact ⟨hkept.exclusive, hkept.joined, hkept.heard⟩

end

def stockLimits : HubLimits := { lockTtl := 300000, cursorThrottle := 50, idleTimeout := 300000 }

/-- A call from its start to its end, in so many sections. -/
def whole {ι : Type} (i : ι) (call : Call) (sections : Nat) : List (Move ι) :=
  .call i call :: List.replicate sections (.turn i)

/-- Bea waits for Ann to leave, and the last one out closes the room. -/
def handover : List (Move Bool) :=
  whole false (.join 7 "ann" "Ann") 4 ++ whole true (.join 7 "bea" "Bea") 3 ++
  whole false (.acquireLock 7 "ann" "Person") 3 ++ [.pass 1000] ++
  whole false (.leave 7 "ann") 3 ++ whole true (.acquireLock 7 "bea" "Person") 3 ++
  whole true (.leave 7 "bea") 4

theorem hub_run_handover : ∃ s log,
    run stockLimits ({} : State Bool) [] handover = some (s, log) ∧ s.hub.roomOf 7 = none ∧
      Exclusive log ∧ OneRoom s.hub.roomOf log ∧ Heard log := by
  have hempty : RunFindsEmpty stockLimits ({} : State Bool) handover := by
    repeat refine ⟨trivial, ?_⟩
    exact ⟨fun _ => rfl, trivial⟩
  exact ⟨_, _, rfl, rfl, hub_run rfl hempty⟩

local instance usersNonempty : NeZero 3 := ⟨three_ne_zero⟩

/-- Ann is the last to leave.  Before her call takes the room away, Bea has come in and
locked an entity; afterwards Cy comes in and locks it too. -/
def joinedMeanwhile : List (Move (Fin 3)) :=
  whole 0 (.join 7 "ann" "Ann") 4 ++ whole 0 (.leave 7 "ann") 3 ++
  whole 1 (.join 7 "bea" "Bea") 3 ++ whole 1 (.acquireLock 7 "bea" "Person") 3 ++
  [.turn 0] ++
  whole 2 (.join 7 "cy" "Cy") 4 ++ whole 2 (.acquireLock 7 "cy" "Person") 3

/-- The two are in one draft and in two rooms, and both hold the entity. -/
theorem joinedMeanwhile_shared : ∃ s log,
    run stockLimits ({} : State (Fin 3)) [] joinedMeanwhile = some (s, log) ∧
      ¬Exclusive log ∧ ¬OneRoom s.hub.roomOf log := by
  refine ⟨_, _, rfl, ?_, ?_⟩
  · intro h
    refine absurd (h.1.2 7 "Person" "cy" 300000 rfl "bea" 300000 (by decide) ?_) (by decide)
    exact inr ⟨id, id, inr ⟨nofun, nofun, inr ⟨id, id, inl rfl⟩⟩⟩
  · intro h
    obtain ⟨room, hroom, hin, _⟩ := h 7 "bea" 1 (inr ⟨id, inr ⟨nofun, inr ⟨id,
      inr ⟨nofun, inr ⟨id, inr ⟨nofun, inr ⟨id, inl ⟨rfl, "Bea", rfl⟩⟩⟩⟩⟩⟩⟩⟩)
    cases hroom
    exact absurd hin (by decide)

end Ontosyx.Collaboration
