import Ontosyx.Collaboration.Hub

/-!
# Connections of the collaboration socket

A connection serves one authenticated user and handles one frame at a time: it waits
for the call of the hub before it reads the next frame, remembers the rooms it has
joined, and leaves them when its loop ends.  The user may have several connections.
Besides them there are the idle sweep and the request handlers that announce commits.
-/

namespace Ontosyx.Collaboration

/-- What a client sends after it has authenticated. -/
inductive ClientMessage where
  | authenticate
  | join (draft : OntologyDraftId)
  | leave (draft : OntologyDraftId)
  | moveCursor (draft : OntologyDraftId) (position : CursorPosition)
  | acquireLock (draft : OntologyDraftId) (entity : EntityId)
  | releaseLock (draft : OntologyDraftId) (entity : EntityId)

structure AuthOutcome where
  userId : UserId
  userName : String

/-- What a frame makes of the hub: a call, or an error at once.  `authorised` is what
`verify_ontology_draft` finds. -/
def handleClientMessage (auth : AuthOutcome) (authorised : Bool) :
    ClientMessage → Except ErrorCode Call
  | .authenticate => .error .authRequired
  | .join draft =>
    if authorised then .ok (.join draft auth.userId auth.userName)
    else .error .unauthorizedOntologyDraft
  | .leave draft => .ok (.leave draft auth.userId)
  | .moveCursor draft position => .ok (.moveCursor draft auth.userId position)
  | .acquireLock draft entity => .ok (.acquireLock draft auth.userId entity)
  | .releaseLock draft entity => .ok (.releaseLock draft auth.userId entity)

/-- What a connection keeps: the rooms joined, and once its loop has ended those that
it has still to leave. -/
structure Socket where
  joinedRooms : List OntologyDraftId := []
  cleanup : Option (List OntologyDraftId) := none

/-- The loop goes on after the call of a frame has returned. -/
def Socket.returned (socket : Socket) (call : Call) : Socket :=
  match socket.cleanup, call with
  | none, .join draft .. => { socket with joinedRooms := socket.joinedRooms.insert draft }
  | none, .leave draft .. => { socket with joinedRooms := socket.joinedRooms.erase draft }
  | _, _ => socket

/-- What happens, at the hub and at the connections.  A frame for a draft that reaches
the hub is logged when it is taken up. -/
inductive SocketEvent (κ ρ : Type) where
  | hub (event : Event (κ ⊕ ρ))
  | frame (time : Time) (c : κ) (draft : OntologyDraftId)
  | leaving (time : Time) (c : κ) (draft : OntologyDraftId)
  | closed (time : Time) (c : κ)
  | replied (time : Time) (c : κ) (frame : ServerMessage)

/-- The hub and the connections; connections `κ` and other processes `ρ` call it. -/
structure World (κ ρ : Type) where
  state : State (κ ⊕ ρ) := {}
  sockets : κ → Socket := fun _ => {}

/-- What can come next. -/
inductive SocketMove (κ ρ : Type) where
  | frame (c : κ) (message : ClientMessage) (authorised : Bool)
  /-- The loop of a connection ends: the socket is closed or the session revoked. -/
  | disconnect (c : κ)
  | cleanup (c : κ) (draft : OntologyDraftId)
  | hub (move : Move (κ ⊕ ρ))

/-- The moves of the hub that are not a connection's own: its processes go on, the
sweep runs, a commit is announced, time passes. -/
def Move.fits {κ ρ : Type} : Move (κ ⊕ ρ) → Bool
  | .call (.inr _) (.broadcastEntityUpdated ..) => true
  | .call .. => false
  | .reap (.inr _) => true
  | .reap (.inl _) => false
  | .visit (.inr _) _ => true
  | .visit (.inl _) _ => false
  | .evict (.inr _) _ _ => true
  | .evict (.inl _) _ _ => false
  | .turn _ => true
  | .pass _ => true

namespace World

variable {κ ρ : Type} [DecidableEq κ] [DecidableEq ρ] (auth : κ → AuthOutcome)
  (limits : HubLimits) (w : World κ ρ)

/-- The connections after a step of the hub. -/
def settle (move : Move (κ ⊕ ρ)) (state : State (κ ⊕ ρ)) : κ → Socket :=
  match move with
  | .turn (.inl c) =>
    match w.state.phase (.inl c), state.phase (.inl c) with
    | .calling call _ _, .resting =>
      Function.update w.sockets c ((w.sockets c).returned call)
    | _, _ => w.sockets
  | _ => w.sockets

def step : SocketMove κ ρ → Option (World κ ρ × List (SocketEvent κ ρ))
  | .frame c message authorised =>
    match (w.sockets c).cleanup, w.state.phase (.inl c) with
    | none, .resting =>
      match handleClientMessage (auth c) authorised message with
      | .error code => some (w, [.replied w.state.hub.clock c (.error code)])
      | .ok call =>
        (w.state.step limits (.call (.inl c) call)).map fun next =>
          ({ w with state := next.1 },
            [match call with
            | .leave draft _ => .leaving w.state.hub.clock c draft
            | _ => .frame w.state.hub.clock c call.draft])
    | _, _ => none
  | .disconnect c =>
    match (w.sockets c).cleanup, w.state.phase (.inl c) with
    | none, .resting =>
      let socket := { w.sockets c with cleanup := some (w.sockets c).joinedRooms }
      some ({ w with sockets := Function.update w.sockets c socket },
        [.closed w.state.hub.clock c])
    | _, _ => none
  | .cleanup c draft =>
    match (w.sockets c).cleanup with
    | some rest =>
      if draft ∈ rest then
        (w.state.step limits (.call (.inl c) (.leave draft (auth c).userId))).map fun next =>
          let socket := { w.sockets c with cleanup := some (rest.erase draft) }
          ({ state := next.1, sockets := Function.update w.sockets c socket }, [])
      else none
    | none => none
  | .hub move =>
    if move.fits then
      (w.state.step limits move).map fun next =>
        ({ state := next.1, sockets := w.settle move next.1 }, next.2.map .hub)
    else none

/-- A run with its log, whose newest event comes first. -/
def run (w : World κ ρ) (log : List (SocketEvent κ ρ)) :
    List (SocketMove κ ρ) → Option (World κ ρ × List (SocketEvent κ ρ))
  | [] => some (w, log)
  | m :: ms =>
    match w.step auth limits m with
    | some (w', events) => run w' (events.reverse ++ log) ms
    | none => none

end World

end Ontosyx.Collaboration
