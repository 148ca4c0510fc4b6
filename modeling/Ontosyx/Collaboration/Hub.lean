import Ontosyx.Command.Syntax

/-!
# The collaboration hub

Rooms of the realtime collaboration, one for each draft that someone edits: who is
in, which entities are locked, and who hears the room's broadcasts.  A registry
under a read-write lock leads to the rooms, each under a mutex of its own and
counted by its holders, and a call takes these locks one after the other.  Every
section under one of them is a step here, so the steps of many calls interleave.
-/

namespace Ontosyx.Collaboration

open Ontosyx.Core Ontosyx.Command

abbrev OntologyDraftId := Nat
abbrev UserId := String
abbrev EntityId := String

abbrev Time := Int

inductive ErrorCode where
  | authRequired
  | malformedFrame
  | unauthorizedOntologyDraft
  | notJoined
  | sessionRevoked
deriving DecidableEq

structure CursorPosition where
  x : F64
  y : F64
  selectedElement : Option String

structure PresenceInfo where
  userId : UserId
  userName : String
  joinedAt : Time
  cursor : Option CursorPosition

structure LockSnapshot where
  entityId : EntityId
  heldBy : UserId
  expiresAt : Time

inductive ServerMessage where
  | presence (draft : OntologyDraftId) (users : List PresenceInfo) (locks : List LockSnapshot)
  | remoteCursor (draft : OntologyDraftId) (user : UserId) (userName : String)
      (position : CursorPosition)
  | lockGranted (draft : OntologyDraftId) (entity : EntityId) (heldBy : UserId) (expiresAt : Time)
  | lockDenied (draft : OntologyDraftId) (entity : EntityId) (heldBy : UserId)
  | lockReleased (draft : OntologyDraftId) (entity : EntityId)
  | userJoined (draft : OntologyDraftId) (user : PresenceInfo)
  | userLeft (draft : OntologyDraftId) (user : UserId)
  | entityUpdated (draft : OntologyDraftId) (authorUserId : UserId) (authorUserName : String)
      (baseRevision newRevision : Int) (commands : List OntologyCommand)
  | error (code : ErrorCode)

/-! ## Rooms -/

structure RoomMember where
  userName : String
  joinedAt : Time
  cursor : Option CursorPosition
  lastCursorAt : Option Time
  lastActivityAt : Time

structure LockEntry where
  heldBy : UserId
  expiresAt : Time

/-- A room.  `receivers` are the processes that have subscribed to its broadcasts,
once for each subscription. -/
structure Room (ι : Type) where
  members : AList fun _ : UserId => RoomMember := ∅
  locks : AList fun _ : EntityId => LockEntry := ∅
  receivers : List ι := []

structure HubLimits where
  lockTtl : Nat
  cursorThrottle : Nat
  idleTimeout : Nat

/-- `chrono::Duration::from_std(d).unwrap_or(300 s)`. -/
def chronoDuration (d : Nat) : Int := if d < 2 ^ 63 then d else 300000

namespace Room

variable {ι : Type} (room : Room ι)

def presenceSnapshot : List PresenceInfo :=
  room.members.entries.map fun m =>
    { userId := m.1, userName := m.2.userName, joinedAt := m.2.joinedAt, cursor := m.2.cursor }

def lockSnapshot : List LockSnapshot :=
  room.locks.entries.map fun lock =>
    { entityId := lock.1, heldBy := lock.2.heldBy, expiresAt := lock.2.expiresAt }

def lockedBy (user : UserId) : List EntityId :=
  (room.locks.entries.filter fun lock => lock.2.heldBy == user).map (·.1)

/-- The members whose last accepted frame is older than the cutoff. -/
def idle (cutoff : Time) : List UserId :=
  (room.members.entries.filter fun m => m.2.lastActivityAt < cutoff).map (·.1)

end Room

/-! ## What a call does to its room -/

/-- A call of the hub that concerns one draft. -/
inductive Call where
  | join (draft : OntologyDraftId) (user : UserId) (userName : String)
  | leave (draft : OntologyDraftId) (user : UserId)
  | moveCursor (draft : OntologyDraftId) (user : UserId) (position : CursorPosition)
  | acquireLock (draft : OntologyDraftId) (user : UserId) (entity : EntityId)
  | releaseLock (draft : OntologyDraftId) (user : UserId) (entity : EntityId)
  | broadcastEntityUpdated (draft : OntologyDraftId) (authorUserId : UserId)
      (authorUserName : String) (baseRevision newRevision : Int) (commands : List OntologyCommand)

def Call.draft : Call → OntologyDraftId
  | join draft .. => draft
  | leave draft .. => draft
  | moveCursor draft .. => draft
  | acquireLock draft .. => draft
  | releaseLock draft .. => draft
  | broadcastEntityUpdated draft .. => draft

/-- Whether the call borrows its room through `room`, which opens a missing one. -/
def Call.creates : Call → Bool
  | join .. | acquireLock .. => true
  | _ => false

/-- What a call leaves behind in the section under the room's mutex: the room, the
frames it broadcast, and the answer.  The outcome of a join is the frame that the
socket makes of it. -/
structure Outcome (ι : Type) where
  room : Room ι
  frames : List ServerMessage := []
  reply : Option ServerMessage := none

section

variable {ι : Type} (limits : HubLimits) (now : Time) (i : ι) (room : Room ι)

def join (draft : OntologyDraftId) (user : UserId) (userName : String) : Outcome ι :=
  let room' : Room ι :=
    { room with
      members := room.members.insert user
        { userName := userName, joinedAt := now, cursor := none, lastCursorAt := none,
          lastActivityAt := now }
      receivers := i :: room.receivers }
  { room := room'
    frames := [.userJoined draft
      { userId := user, userName := userName, joinedAt := now, cursor := none }]
    reply := some (.presence draft room'.presenceSnapshot room'.lockSnapshot) }

def leave (draft : OntologyDraftId) (user : UserId) : Outcome ι :=
  let released := room.lockedBy user
  { room :=
      { room with
        members := room.members.erase user
        locks := released.foldl (fun locks entity => locks.erase entity) room.locks }
    frames := released.map (.lockReleased draft) ++ [.userLeft draft user] }

def moveCursor (draft : OntologyDraftId) (user : UserId) (position : CursorPosition) : Outcome ι :=
  match room.members.lookup user with
  | none => { room := room }
  | some member =>
    if member.lastCursorAt.any fun prev => now - prev < limits.cursorThrottle then
      { room := room }
    else
      { room :=
          { room with
            members := room.members.insert user
              { member with
                lastCursorAt := some now, lastActivityAt := now, cursor := some position } }
        frames := [.remoteCursor draft user member.userName position] }

def touched (user : UserId) (member : RoomMember) : Room ι :=
  { room with members := room.members.insert user { member with lastActivityAt := now } }

def acquireLock (draft : OntologyDraftId) (user : UserId) (entity : EntityId) : Outcome ι :=
  match room.members.lookup user with
  | none => { room := room, reply := some (.error .notJoined) }
  | some member =>
    let room := touched now room user member
    let expiresAt := now + chronoDuration limits.lockTtl
    let locks := room.locks.insert entity { heldBy := user, expiresAt := expiresAt }
    let granted := ServerMessage.lockGranted draft entity user expiresAt
    match room.locks.lookup entity with
    | none => { room := { room with locks := locks }, frames := [granted], reply := some granted }
    | some lock =>
      if lock.heldBy = user then
        -- a refresh, which only the caller hears of
        { room := { room with locks := locks }, reply := some granted }
      else if lock.expiresAt > now then
        { room := room, reply := some (.lockDenied draft entity lock.heldBy) }
      else
        { room := { room with locks := locks }, frames := [granted], reply := some granted }

def releaseLock (draft : OntologyDraftId) (user : UserId) (entity : EntityId) : Outcome ι :=
  match room.members.lookup user with
  | none => { room := room, reply := some (.error .notJoined) }
  | some member =>
    let room := touched now room user member
    if (room.locks.lookup entity).any fun lock => lock.heldBy == user then
      { room := { room with locks := room.locks.erase entity }
        frames := [.lockReleased draft entity] }
    else
      { room := room }

/-- The section of a call under the mutex of its room. -/
def Call.underMutex : Call → Outcome ι
  | .join draft user userName => Collaboration.join now i room draft user userName
  | .leave draft user => Collaboration.leave room draft user
  | .moveCursor draft user position =>
    Collaboration.moveCursor limits now room draft user position
  | .acquireLock draft user entity => Collaboration.acquireLock limits now room draft user entity
  | .releaseLock draft user entity => Collaboration.releaseLock now room draft user entity
  | .broadcastEntityUpdated draft authorId authorName base new commands =>
    { room := room, frames := [.entityUpdated draft authorId authorName base new commands] }

end

/-! ## The hub and its processes -/

/-- A room behind an `Arc`: how many references there are to it, the registry's
included. -/
structure Shared (ι : Type) where
  strong : Nat
  room : Room ι

/-- The hub.  `readers` counts who holds the registry's lock for reading over more
than one step. -/
structure Hub (ι : Type) where
  rooms : AList fun _ : OntologyDraftId => Nat := ∅
  heap : Nat → Shared ι := fun _ => { strong := 0, room := {} }
  next : Nat := 0
  readers : Nat := 0
  clock : Time := 0

/-- How far a call has come. -/
inductive Stage where
  | looking
  /-- `room` has not found the room and is to take the registry's lock for writing. -/
  | missing
  | holding (address : Nat)
  /-- The mutex is free again, the reference is not; a leave saw whether the room was
  empty. -/
  | finished (address : Nat) (empty : Bool)
  /-- A leave that saw its room empty is to take the registry's lock for writing. -/
  | emptied
deriving DecidableEq

/-- What a sweep has still to do, and the cutoff it goes by. -/
structure Sweep where
  cutoff : Time
  victims : List (OntologyDraftId × UserId)

/-- Where a process stands.  The calls of leave that a sweep makes carry the rest of
the sweep. -/
inductive Phase where
  | resting
  | calling (call : Call) (stage : Stage) (sweep : Option Sweep)
  | reaping (cutoff : Time)
  | sweeping (sweep : Sweep) (pending : List (OntologyDraftId × Nat))
  | evicting (sweep : Sweep)

def Phase.after : Option Sweep → Phase
  | none => .resting
  | some sweep => .evicting sweep

/-- What has happened under a mutex, or at a call that found no room: the answer of
a call, and the frames broadcast with those who were to hear them. -/
inductive Event (ι : Type) where
  | ran (time : Time) (i : ι) (call : Call) (reply : Option ServerMessage)
  | sent (time : Time) (draft : OntologyDraftId) (frame : ServerMessage) (receivers : List ι)

structure State (ι : Type) where
  hub : Hub ι := {}
  phase : ι → Phase := fun _ => .resting

/-- What can come next.  The orders in which a sweep visits rooms and evicts members
are those of hash maps, so the moves choose. -/
inductive Move (ι : Type) where
  | call (i : ι) (call : Call)
  | reap (i : ι)
  | turn (i : ι)
  | visit (i : ι) (draft : OntologyDraftId)
  | evict (i : ι) (draft : OntologyDraftId) (user : UserId)
  | pass (duration : Nat)

namespace Hub

variable {ι : Type} (h : Hub ι)

def setStrong (a : Nat) (n : Nat) : Hub ι :=
  { h with heap := Function.update h.heap a { h.heap a with strong := n } }

def setRoom (a : Nat) (room : Room ι) : Hub ι :=
  { h with heap := Function.update h.heap a { h.heap a with room := room } }

/-- `Arc::clone`. -/
def cloneArc (a : Nat) : Hub ι := h.setStrong a ((h.heap a).strong + 1)

/-- A reference goes out of scope. -/
def dropArc (a : Nat) : Hub ι := h.setStrong a ((h.heap a).strong - 1)

/-- A new room in the registry, with a reference to it for the caller. -/
def openRoom (draft : OntologyDraftId) : Hub ι :=
  { h with
    rooms := h.rooms.insert draft h.next
    heap := Function.update h.heap h.next { strong := 2, room := {} }
    next := h.next + 1 }

/-- The section of `leave` under the registry's lock for writing. -/
def removeRoom (draft : OntologyDraftId) : Hub ι :=
  match h.rooms.lookup draft with
  | none => h
  | some a =>
    if (h.heap a).strong = 1 then { h with rooms := h.rooms.erase draft }.dropArc a else h

end Hub

namespace State

variable {ι : Type} [DecidableEq ι] (limits : HubLimits) (s : State ι)

def put (i : ι) (hub : Hub ι) (phase : Phase) : State ι :=
  { hub := hub, phase := Function.update s.phase i phase }

/-- The next section of a call, and what it makes happen, in order. -/
def callStep (i : ι) (call : Call) (stage : Stage) (sweep : Option Sweep) :
    Option (State ι × List (Event ι)) :=
  let draft := call.draft
  match stage with
  | .looking =>
    match s.hub.rooms.lookup draft with
    | some a => some (s.put i (s.hub.cloneArc a) (.calling call (.holding a) sweep), [])
    | none =>
      if call.creates then some (s.put i s.hub (.calling call .missing sweep), [])
      else some (s.put i s.hub (.after sweep), [.ran s.hub.clock i call none])
  | .missing =>
    if s.hub.readers = 0 then
      match s.hub.rooms.lookup draft with
      | some a => some (s.put i (s.hub.cloneArc a) (.calling call (.holding a) sweep), [])
      | none =>
        some (s.put i (s.hub.openRoom draft) (.calling call (.holding s.hub.next) sweep), [])
    else none
  | .holding a =>
    let done := call.underMutex limits s.hub.clock i (s.hub.heap a).room
    let empty := match call with
      | .leave .. => done.room.members.entries.isEmpty
      | _ => false
    some (s.put i (s.hub.setRoom a done.room) (.calling call (.finished a empty) sweep),
      .ran s.hub.clock i call done.reply ::
        done.frames.map fun frame => .sent s.hub.clock draft frame done.room.receivers)
  | .finished a empty =>
    let next := if empty then .calling call .emptied sweep else .after sweep
    some (s.put i (s.hub.dropArc a) next, [])
  | .emptied =>
    if s.hub.readers = 0 then some (s.put i (s.hub.removeRoom draft) (.after sweep), []) else none

def step : Move ι → Option (State ι × List (Event ι))
  | .call i call =>
    match s.phase i with
    | .resting => some (s.put i s.hub (.calling call .looking none), [])
    | _ => none
  | .reap i =>
    match s.phase i with
    | .resting =>
      some (s.put i s.hub (.reaping (s.hub.clock - chronoDuration limits.idleTimeout)), [])
    | _ => none
  | .turn i =>
    match s.phase i with
    | .calling call stage sweep => s.callStep limits i call stage sweep
    | .reaping cutoff =>
      let pending := s.hub.rooms.entries.map fun entry => (entry.1, entry.2)
      some (s.put i { s.hub with readers := s.hub.readers + 1 }
        (.sweeping { cutoff := cutoff, victims := [] } pending), [])
    | .sweeping sweep [] =>
      some (s.put i { s.hub with readers := s.hub.readers - 1 } (.evicting sweep), [])
    | .evicting { victims := [], .. } => some (s.put i s.hub .resting, [])
    | _ => none
  | .visit i draft =>
    match s.phase i with
    | .sweeping sweep pending =>
      match pending.find? (·.1 == draft) with
      | some (draft, a) =>
        let idle := (s.hub.heap a).room.idle sweep.cutoff
        some (s.put i s.hub (.sweeping
          { sweep with victims := sweep.victims ++ idle.map fun user => (draft, user) }
          (pending.erase (draft, a))), [])
      | none => none
    | _ => none
  | .evict i draft user =>
    match s.phase i with
    | .evicting sweep =>
      if (draft, user) ∈ sweep.victims then
        some (s.put i s.hub (.calling (.leave draft user) .looking
          (some { sweep with victims := sweep.victims.erase (draft, user) })), [])
      else none
    | _ => none
  | .pass duration =>
    some ({ s with hub := { s.hub with clock := s.hub.clock + duration } }, [])

end State

/-- A run from a state with its log, whose newest event comes first. -/
def run {ι : Type} [DecidableEq ι] (limits : HubLimits) (s : State ι) (log : List (Event ι)) :
    List (Move ι) → Option (State ι × List (Event ι))
  | [] => some (s, log)
  | m :: ms =>
    match s.step limits m with
    | some (s', events) => run limits s' (events.reverse ++ log) ms
    | none => none

end Ontosyx.Collaboration
