import Ontosyx.Collaboration.Hub

/-!
# What a call does to its room

Six calls work on a room under its mutex.  Whatever the call, nobody loses a place in
the room but by leaving it, a lock outlives every call but the release by its holder,
the leave of its holder, and a grant after its expiry, and a grant is made only of an
entity that no other user holds.
-/

namespace Ontosyx.Collaboration

open List AList

variable {ι : Type} {limits : HubLimits} {now : Time} {i : ι} {room : Room ι} {call : Call}
  {done : Outcome ι}

variable {entity : EntityId} {user : UserId}

theorem mem_lockedBy :
    entity ∈ room.lockedBy user ↔
      ∃ lock, room.locks.lookup entity = some lock ∧ lock.heldBy = user := by
  unfold Room.lockedBy
  simp only [mem_map, mem_filter, beq_iff_eq]
  constructor
  · rintro ⟨⟨e, lock⟩, ⟨hmem, huser⟩, rfl⟩
    exact ⟨lock, mem_lookup_iff.2 hmem, huser⟩
  · rintro ⟨lock, hlock, huser⟩
    exact ⟨⟨entity, lock⟩, ⟨mem_lookup_iff.1 hlock, huser⟩, rfl⟩

theorem lookup_foldl_erase {entities : List EntityId}
    {locks : AList fun _ : EntityId => LockEntry} :
    (entities.foldl (fun locks entity => locks.erase entity) locks).lookup entity =
      if entity ∈ entities then none else locks.lookup entity := by
  induction entities generalizing locks with
  | nil => rfl
  | cons first rest ih =>
    rw [foldl_cons, ih]
    by_cases hrest : entity ∈ rest
    · rw [if_pos hrest, if_pos (mem_cons_of_mem _ hrest)]
    · rw [if_neg hrest]
      by_cases hfirst : entity = first
      · subst hfirst
        rw [if_pos mem_cons_self, lookup_erase]
      · have hnot : entity ∉ first :: rest := by
          intro hmem
          exact (mem_cons.1 hmem).elim hfirst hrest
        rw [if_neg hnot, lookup_erase_ne hfirst]

/-! ## The effect of a section -/

structure Settled (limits : HubLimits) (now : Time) (i : ι) (call : Call) (room : Room ι)
    (done : Outcome ι) : Prop where
  receivers : ∀ j ∈ room.receivers, j ∈ done.room.receivers
  stays : ∀ user ∈ room.members, (∀ draft, call ≠ .leave draft user) → user ∈ done.room.members
  enters : ∀ draft user name, call = .join draft user name →
    user ∈ done.room.members ∧ i ∈ done.room.receivers
  owned : (∀ e lock, room.locks.lookup e = some lock → lock.heldBy ∈ room.members) →
    ∀ e lock, done.room.locks.lookup e = some lock → lock.heldBy ∈ done.room.members
  bounded : (∀ e lock, room.locks.lookup e = some lock →
      lock.expiresAt ≤ now + chronoDuration limits.lockTtl) →
    ∀ e lock, done.room.locks.lookup e = some lock →
      lock.expiresAt ≤ now + chronoDuration limits.lockTtl
  kept : ∀ e lock, room.locks.lookup e = some lock →
    lock.expiresAt ≤ now + chronoDuration limits.lockTtl →
    (∃ lock', done.room.locks.lookup e = some lock' ∧ lock'.heldBy = lock.heldBy ∧
      lock.expiresAt ≤ lock'.expiresAt) ∨ lock.expiresAt ≤ now ∨
    (∃ draft, call = .releaseLock draft lock.heldBy e ∧ done.reply = none) ∨
    ∃ draft, call = .leave draft lock.heldBy
  granted : ∀ draft e user expiresAt, done.reply = some (.lockGranted draft e user expiresAt) →
    draft = call.draft ∧ done.room.locks.lookup e = some ⟨user, expiresAt⟩ ∧
      ∀ lock, room.locks.lookup e = some lock → lock.heldBy = user ∨ lock.expiresAt ≤ now
  refused : done.reply = some (.error .notJoined) →
    ∃ draft user entity, (call = .acquireLock draft user entity ∨
      call = .releaseLock draft user entity) ∧ user ∉ room.members
  departs : ∀ draft user, .userLeft draft user ∈ done.frames → call = .leave draft user

/-- A section that leaves the locks alone and lets nobody go. -/
theorem Settled.of_locks (hlocks : done.room.locks = room.locks)
    (hmembers : ∀ user ∈ room.members, user ∈ done.room.members)
    (hreceivers : ∀ j ∈ room.receivers, j ∈ done.room.receivers)
    (henters : ∀ draft user name, call = .join draft user name →
      user ∈ done.room.members ∧ i ∈ done.room.receivers)
    (hgrant : ∀ draft e user expiresAt,
      done.reply ≠ some (.lockGranted draft e user expiresAt))
    (hrefused : done.reply = some (.error .notJoined) →
      ∃ draft user entity, (call = .acquireLock draft user entity ∨
        call = .releaseLock draft user entity) ∧ user ∉ room.members)
    (hdeparts : ∀ draft user, .userLeft draft user ∉ done.frames) :
    Settled limits now i call room done where
  receivers := hreceivers
  stays user huser _ := hmembers user huser
  enters := henters
  owned howned e lock hlock := hmembers _ (howned e lock (hlocks ▸ hlock))
  bounded hbounded e lock hlock := hbounded e lock (hlocks ▸ hlock)
  kept _ lock hlock _ := .inl ⟨lock, hlocks ▸ hlock, rfl, Int.le_refl _⟩
  granted draft e user expiresAt hreply := absurd hreply (hgrant draft e user expiresAt)
  refused := hrefused
  departs draft user hmem := absurd hmem (hdeparts draft user)

variable {draft : OntologyDraftId}

theorem settled_join {name : String} :
    Settled limits now i (.join draft user name) room (join now i room draft user name) := by
  refine .of_locks rfl ?_ ?_ ?_ ?_ ?_ ?_
  · intro u hu
    exact (mem_insert _).2 (.inr hu)
  · intro j hj
    exact mem_cons_of_mem i hj
  · rintro _ u _ ⟨⟩
    exact ⟨(mem_insert _).2 (.inl rfl), mem_cons_self⟩
  · intro _ _ _ _ hreply
    simp [join] at hreply
  · intro hreply
    simp [join] at hreply
  · intro _ _ hmem
    simp [join] at hmem

theorem settled_leave : Settled limits now i (.leave draft user) room (leave room draft user) := by
  have hlookup : ∀ e, (leave room draft user).room.locks.lookup e =
      if e ∈ room.lockedBy user then none else room.locks.lookup e := fun e => lookup_foldl_erase
  have hlock : ∀ e lock, (leave room draft user).room.locks.lookup e = some lock →
      room.locks.lookup e = some lock ∧ lock.heldBy ≠ user := by
    intro e lock hsome
    rw [hlookup] at hsome
    by_cases hmem : e ∈ room.lockedBy user
    · rw [if_pos hmem] at hsome
      cases hsome
    · rw [if_neg hmem] at hsome
      exact ⟨hsome, fun huser => hmem (mem_lockedBy.2 ⟨lock, hsome, huser⟩)⟩
  refine ⟨fun j hj => hj, ?_, ?_, ?_, ?_, ?_, ?_, ?_, ?_⟩
  · intro u hu hne
    exact mem_erase.2 ⟨fun heq => hne draft (heq ▸ rfl), hu⟩
  · rintro _ _ _ ⟨⟩
  · intro howned e lock hsome
    obtain ⟨hbefore, hne⟩ := hlock e lock hsome
    exact mem_erase.2 ⟨hne, howned e lock hbefore⟩
  · intro hbounded e lock hsome
    exact hbounded e lock (hlock e lock hsome).1
  · intro e lock hsome _
    by_cases huser : lock.heldBy = user
    · exact .inr (.inr (.inr ⟨draft, huser ▸ rfl⟩))
    · left
      refine ⟨lock, ?_, rfl, Int.le_refl _⟩
      rw [hlookup, if_neg, hsome]
      intro hmem
      obtain ⟨other, hother, howner⟩ := mem_lockedBy.1 hmem
      cases hsome.symm.trans hother
      exact huser howner
  · intro _ _ _ _ hreply
    simp [leave] at hreply
  · intro hreply
    simp [leave] at hreply
  · intro d u hmem
    simp only [leave, mem_append, mem_map, mem_singleton] at hmem
    rcases hmem with ⟨e, _, heq⟩ | heq
    · cases heq
    · cases heq
      rfl

theorem settled_moveCursor {position : CursorPosition} :
    Settled limits now i (.moveCursor draft user position) room
      (moveCursor limits now room draft user position) := by
  have hnone : Settled limits now i (.moveCursor draft user position) room { room := room } := by
    refine .of_locks rfl (fun _ h => h) (fun _ h => h) ?_ ?_ ?_ ?_
    · rintro _ _ _ ⟨⟩
    · rintro _ _ _ _ ⟨⟩
    · rintro ⟨⟩
    · intro _ _ hmem
      cases hmem
  unfold moveCursor
  split
  · exact hnone
  · split
    · exact hnone
    · refine .of_locks rfl ?_ (fun _ h => h) ?_ ?_ ?_ ?_
      · intro u hu
        exact (mem_insert _).2 (.inr hu)
      · rintro _ _ _ ⟨⟩
      · rintro _ _ _ _ ⟨⟩
      · rintro ⟨⟩
      · intro _ _ hmem
        simp at hmem

theorem settled_broadcast {author : UserId} {name : String} {base new : Int}
    {commands : List Command.OntologyCommand} :
    Settled limits now i (.broadcastEntityUpdated draft author name base new commands) room
      { room := room, frames := [.entityUpdated draft author name base new commands] } := by
  refine .of_locks rfl (fun _ h => h) (fun _ h => h) ?_ ?_ ?_ ?_
  · rintro _ _ _ ⟨⟩
  · rintro _ _ _ _ ⟨⟩
  · rintro ⟨⟩
  · intro _ _ hmem
    simp at hmem

/-- A grant, of an entity that is free, the caller's own, or past its expiry. -/
theorem settled_grant {member : RoomMember} {frames : List ServerMessage}
    (hfree : ∀ lock, room.locks.lookup entity = some lock →
      lock.heldBy = user ∨ lock.expiresAt ≤ now) (hframes : ∀ d u, .userLeft d u ∉ frames) :
    Settled limits now i (.acquireLock draft user entity) room
      { room :=
          { touched now room user member with
            locks := room.locks.insert entity
              { heldBy := user, expiresAt := now + chronoDuration limits.lockTtl } }
        frames := frames
        reply := some (.lockGranted draft entity user (now + chronoDuration limits.lockTtl)) } := by
  refine ⟨fun j hj => hj, ?_, ?_, ?_, ?_, ?_, ?_, ?_, ?_⟩
  · intro u hu _
    exact (mem_insert _).2 (.inr hu)
  · rintro _ _ _ ⟨⟩
  · intro howned e lock hsome
    by_cases he : e = entity
    · subst he
      rw [lookup_insert] at hsome
      cases hsome
      exact (mem_insert _).2 (.inl rfl)
    · dsimp only at hsome
      rw [lookup_insert_ne he] at hsome
      exact (mem_insert _).2 (.inr (howned e lock hsome))
  · intro hbounded e lock hsome
    by_cases he : e = entity
    · subst he
      rw [lookup_insert] at hsome
      cases hsome
      exact Int.le_refl _
    · dsimp only at hsome
      rw [lookup_insert_ne he] at hsome
      exact hbounded e lock hsome
  · intro e lock hsome hbound
    by_cases he : e = entity
    · subst he
      rcases hfree lock hsome with howner | hpast
      · exact .inl ⟨_, lookup_insert _, howner.symm, hbound⟩
      · exact .inr (.inl hpast)
    · exact .inl ⟨lock, (lookup_insert_ne he).trans hsome, rfl, Int.le_refl _⟩
  · rintro _ _ _ _ ⟨⟩
    exact ⟨rfl, lookup_insert _, hfree⟩
  · rintro ⟨⟩
  · intro d u hmem
    exact absurd hmem (hframes d u)

theorem settled_acquireLock :
    Settled limits now i (.acquireLock draft user entity) room
      (acquireLock limits now room draft user entity) := by
  have hbroadcast : ∀ d u, ServerMessage.userLeft d u ∉
      [.lockGranted draft entity user (now + chronoDuration limits.lockTtl)] := by
    intro d u hmem
    simp at hmem
  unfold acquireLock
  split
  · rename_i hout
    refine .of_locks rfl (fun _ h => h) (fun _ h => h) ?_ ?_ ?_ ?_
    · rintro _ _ _ ⟨⟩
    · rintro _ _ _ _ ⟨⟩
    · exact fun _ => ⟨draft, user, entity, .inl rfl, lookup_eq_none.1 hout⟩
    · intro _ _ hmem
      cases hmem
  · dsimp only [touched]
    split
    · rename_i hnone
      refine settled_grant ?_ hbroadcast
      intro lock hsome
      cases hnone.symm.trans hsome
    · rename_i lock hlock
      split
      · rename_i howner
        refine settled_grant ?_ fun _ _ hmem => by cases hmem
        intro lock' hsome
        cases hlock.symm.trans hsome
        exact .inl howner
      · split
        · refine .of_locks rfl ?_ (fun _ h => h) ?_ ?_ ?_ ?_
          · intro u hu
            exact (mem_insert _).2 (.inr hu)
          · rintro _ _ _ ⟨⟩
          · rintro _ _ _ _ ⟨⟩
          · rintro ⟨⟩
          · intro _ _ hmem
            cases hmem
        · rename_i hpast
          refine settled_grant ?_ hbroadcast
          intro lock' hsome
          cases hlock.symm.trans hsome
          exact .inr (Int.not_lt.1 hpast)

theorem settled_releaseLock :
    Settled limits now i (.releaseLock draft user entity) room
      (releaseLock now room draft user entity) := by
  unfold releaseLock
  split
  · rename_i hout
    refine .of_locks rfl (fun _ h => h) (fun _ h => h) ?_ ?_ ?_ ?_
    · rintro _ _ _ ⟨⟩
    · rintro _ _ _ _ ⟨⟩
    · exact fun _ => ⟨draft, user, entity, .inr rfl, lookup_eq_none.1 hout⟩
    · intro _ _ hmem
      cases hmem
  · dsimp only [touched]
    split
    · rename_i howns
      obtain ⟨owned, hlookup, howner⟩ := (Option.any_eq_true _ _).1 howns
      rw [beq_iff_eq] at howner
      have hlock : ∀ e lock, (room.locks.erase entity).lookup e = some lock →
          room.locks.lookup e = some lock := by
        intro e lock hsome
        by_cases he : e = entity
        · subst he
          rw [lookup_erase] at hsome
          cases hsome
        · rwa [lookup_erase_ne he] at hsome
      refine ⟨fun j hj => hj, ?_, ?_, ?_, ?_, ?_, ?_, ?_, ?_⟩
      · intro u hu _
        exact (mem_insert _).2 (.inr hu)
      · rintro _ _ _ ⟨⟩
      · intro howned e lock hsome
        exact (mem_insert _).2 (.inr (howned e lock (hlock e lock hsome)))
      · intro hbounded e lock hsome
        exact hbounded e lock (hlock e lock hsome)
      · intro e lock hsome _
        by_cases he : e = entity
        · subst he
          cases hlookup.symm.trans hsome
          exact .inr (.inr (.inl ⟨draft, howner ▸ rfl, rfl⟩))
        · exact .inl ⟨lock, (lookup_erase_ne he).trans hsome, rfl, Int.le_refl _⟩
      · rintro _ _ _ _ ⟨⟩
      · rintro ⟨⟩
      · intro _ _ hmem
        simp at hmem
    · refine .of_locks rfl ?_ (fun _ h => h) ?_ ?_ ?_ ?_
      · intro u hu
        exact (mem_insert _).2 (.inr hu)
      · rintro _ _ _ ⟨⟩
      · rintro _ _ _ _ ⟨⟩
      · rintro ⟨⟩
      · intro _ _ hmem
        cases hmem

/-- Every section keeps the places and the locks of the others. -/
theorem settled_underMutex :
    Settled limits now i call room (call.underMutex limits now i room) := by
  cases call with
  | join => exact settled_join
  | leave => exact settled_leave
  | moveCursor => exact settled_moveCursor
  | acquireLock => exact settled_acquireLock
  | releaseLock => exact settled_releaseLock
  | broadcastEntityUpdated => exact settled_broadcast

end Ontosyx.Collaboration
