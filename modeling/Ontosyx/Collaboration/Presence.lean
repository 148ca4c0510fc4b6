import Mathlib.Data.Fintype.Basic
import Ontosyx.Collaboration.Locks
import Ontosyx.Collaboration.Sockets

/-!
# The departure of another connection

A connection is in a draft from its join until it leaves, closes, or sends nothing for
longer than the idle timeout.  The hub knows users, not connections: whichever
connection of a user goes takes the membership and the locks of all of them along, and
so does a sweep that acts on what it saw before the user was heard of again.  As long
as a user is taken out of a draft only when no connection of theirs is in it, and no
room is closed on its members, a connection is disturbed by nobody.

## Main results

* `presence_run` — every run in which nobody is taken out of a draft that one of their
  connections is in.
* `secondTab_evicts` — a second tab that closes takes the first one out.
-/

namespace Ontosyx.Collaboration

open List

/-! ## What a log of connections tells -/

section

variable {κ ρ : Type}

def hubLog (log : List (SocketEvent κ ρ)) : List (Event (κ ⊕ ρ)) :=
  log.filterMap fun event =>
    match event with
    | .hub event => some event
    | _ => none

theorem hubLog_append {events : List (Event (κ ⊕ ρ))} {log : List (SocketEvent κ ρ)} :
    hubLog ((events.map .hub).reverse ++ log) = events.reverse ++ hubLog log := by
  unfold hubLog
  rw [filterMap_append, ← map_reverse, filterMap_map]
  exact congrArg (· ++ _) (filterMap_some)

def SocketEvent.time : SocketEvent κ ρ → Time
  | .hub event => event.time
  | .frame time .. => time
  | .leaving time .. => time
  | .closed time _ => time
  | .replied time .. => time

variable [DecidableEq κ] (auth : κ → AuthOutcome) (limits : HubLimits)

/-- When a connection was last heard of in a draft, if it has joined and since neither
left nor closed nor been idle past the timeout. -/
def lastSeen (c : κ) (draft : OntologyDraftId) : List (SocketEvent κ ρ) → Option Time
  | [] => none
  | .hub (.ran time (.inl c') (.join draft' _ _) _) :: log =>
    if c' = c ∧ draft' = draft then some time else lastSeen c draft log
  | .frame time c' draft' :: log =>
    if c' = c ∧ draft' = draft then
      (lastSeen c draft log).bind fun before =>
        if time ≤ before + chronoDuration limits.idleTimeout then some time else none
    else lastSeen c draft log
  | .leaving _ c' draft' :: log =>
    if c' = c ∧ draft' = draft then none else lastSeen c draft log
  | .closed _ c' :: log => if c' = c then none else lastSeen c draft log
  | .hub _ :: log => lastSeen c draft log
  | .replied .. :: log => lastSeen c draft log

def Attends (c : κ) (draft : OntologyDraftId) (now : Time) (log : List (SocketEvent κ ρ)) : Prop :=
  ∃ time, lastSeen limits c draft log = some time ∧
    now ≤ time + chronoDuration limits.idleTimeout

/-- The connection was granted the entity up to a time, has been in the draft ever
since, and its user has not released the entity. -/
def Acquired (c : κ) (draft : OntologyDraftId) (entity : EntityId) (expiresAt : Time) :
    List (SocketEvent κ ρ) → Prop
  | [] => False
  | event :: log =>
    (∃ time call, event = .hub (.ran time (.inl c) call
      (some (.lockGranted draft entity (auth c).userId expiresAt)))) ∨
    ((∀ ran, event = .hub ran → ¬ran.Releases draft entity (auth c).userId) ∧
      Attends limits c draft event.time log ∧ Acquired c draft entity expiresAt log)

/-- No connection that was in a draft was answered that it had not joined, nor was
its user reported to have left. -/
def Undisturbed : List (SocketEvent κ ρ) → Prop
  | [] => True
  | event :: log =>
    Undisturbed log ∧ match event with
      | .hub (.ran time (.inl c) call (some (.error .notJoined))) =>
        ¬Attends limits c call.draft time log
      | .hub (.sent time draft (.userLeft _ user) _) =>
        ∀ c, (auth c).userId = user → ¬Attends limits c draft time log
      | _ => True

variable {auth limits} {c : κ} {draft : OntologyDraftId} {now later : Time}
  {log : List (SocketEvent κ ρ)}

theorem Attends.earlier (h : Attends limits c draft later log) (hle : now ≤ later) :
    Attends limits c draft now log := by
  obtain ⟨time, hseen, hlater⟩ := h
  exact ⟨time, hseen, Int.le_trans hle hlater⟩

/-- Only a join brings a connection into a draft. -/
theorem Attends.of_cons {event : SocketEvent κ ρ} (hjoin : ∀ time user name reply,
      event ≠ .hub (.ran time (.inl c) (.join draft user name) reply))
    (h : Attends limits c draft event.time (event :: log)) :
    Attends limits c draft event.time log := by
  obtain ⟨time, hseen, hnow⟩ := h
  unfold lastSeen at hseen
  split at hseen
  · cases ‹_ = []›
  · rename_i heq
    cases heq
    split at hseen
    · rename_i hsame
      obtain ⟨rfl, rfl⟩ := hsame
      exact absurd rfl (hjoin _ _ _ _)
    · exact ⟨time, hseen, hnow⟩
  · rename_i heq
    cases heq
    split at hseen
    · obtain ⟨before, hbefore, hin⟩ := Option.bind_eq_some_iff.1 hseen
      split at hin
      · exact ⟨before, hbefore, ‹_›⟩
      · cases hin
    · exact ⟨time, hseen, hnow⟩
  · rename_i heq
    cases heq
    split at hseen
    · cases hseen
    · exact ⟨time, hseen, hnow⟩
  · rename_i heq
    cases heq
    split at hseen
    · cases hseen
    · exact ⟨time, hseen, hnow⟩
  · rename_i heq
    cases heq
    exact ⟨time, hseen, hnow⟩
  · rename_i heq
    cases heq
    exact ⟨time, hseen, hnow⟩

def Call.user : Call → UserId
  | join _ user _ => user
  | leave _ user => user
  | moveCursor _ user _ => user
  | acquireLock _ user _ => user
  | releaseLock _ user _ => user
  | broadcastEntityUpdated _ author .. => author

/-- What the log of the connections tells of that of the hub. -/
structure Told (auth : κ → AuthOutcome) (limits : HubLimits) (now : Time)
    (log : List (SocketEvent κ ρ)) : Prop where
  joined : ∀ c draft, Attends limits c draft now log →
    Joined draft (auth c).userId (.inl c) (hubLog log)
  held : ∀ c draft e expiresAt, Acquired auth limits c draft e expiresAt log →
    Attends limits c draft now log → Held draft e (auth c).userId expiresAt (hubLog log)
  undisturbed : Undisturbed auth limits log

theorem told_start : Told auth limits now ([] : List (SocketEvent κ ρ)) := by
  refine ⟨?_, ?_, trivial⟩
  · rintro _ _ ⟨_, hseen, _⟩
    cases hseen
  · intro _ _ _ _ h
    exact h.elim

theorem Told.pass (h : Told auth limits now log) (hle : now ≤ later) :
    Told auth limits later log where
  joined c draft hin := h.joined c draft (hin.earlier hle)
  held c draft e expiresAt hacquired hin := h.held c draft e expiresAt hacquired (hin.earlier hle)
  undisturbed := h.undisturbed

theorem Told.add {event : SocketEvent κ ρ} (h : Told auth limits now log)
    (hnow : event.time = now) (hran : ∀ time i call reply, event ≠ .hub (.ran time i call reply))
    (hleft : ∀ time draft draft' user receivers,
      event = .hub (.sent time draft (.userLeft draft' user) receivers) →
      ∀ c, (auth c).userId = user → ¬Attends limits c draft now log) :
    Told auth limits now (event :: log) := by
  have hbefore : ∀ c draft, Attends limits c draft now (event :: log) →
      Attends limits c draft now log := by
    intro c draft hin
    rw [← hnow] at hin ⊢
    exact hin.of_cons fun time user name reply => hran time _ _ reply
  have hhub : ∀ draft user i, Joined draft user i (hubLog log) →
      Joined draft user i (hubLog (event :: log)) := by
    intro draft user i hjoined
    cases event with
    | hub event =>
      cases event with
      | ran time i call reply => exact absurd rfl (hran time i call reply)
      | sent => exact .inr ⟨id, hjoined⟩
    | _ => exact hjoined
  have hlocks : ∀ draft e user expiresAt, Held draft e user expiresAt (hubLog log) →
      Held draft e user expiresAt (hubLog (event :: log)) := by
    intro draft e user expiresAt hheld
    cases event with
    | hub event =>
      cases event with
      | ran time i call reply => exact absurd rfl (hran time i call reply)
      | sent => exact .inr ⟨id, id, hheld⟩
    | _ => exact hheld
  refine ⟨?_, ?_, h.undisturbed, ?_⟩
  · intro c draft hin
    exact hhub _ _ _ (h.joined c draft (hbefore c draft hin))
  · intro c draft e expiresAt hacquired hin
    rcases hacquired with ⟨time, call, heq⟩ | ⟨_, _, hacquired⟩
    · exact absurd heq (hran _ _ _ _)
    · exact hlocks _ _ _ _ (h.held c draft e expiresAt hacquired (hbefore c draft hin))
  · subst hnow
    split
    · exact absurd rfl (hran _ _ _ _)
    · exact hleft _ _ _ _ _ rfl
    · trivial

/-- The section of a call that takes nobody out of a draft they are in. -/
theorem Told.ran {i : κ ⊕ ρ} {call : Call} {reply : Option ServerMessage}
    (h : Told auth limits now log)
    (hleave : ∀ draft user, call = .leave draft user → ∀ c, (auth c).userId = user →
      ¬Attends limits c draft now log) (huser : ∀ c, i = .inl c → call.user = (auth c).userId)
    (hrefused : ∀ c, i = .inl c → reply = some (.error .notJoined) →
      ¬Attends limits c call.draft now log) :
    Told auth limits now (.hub (.ran now i call reply) :: log) := by
  refine ⟨?_, ?_, h.undisturbed, ?_⟩
  · intro c draft hin
    by_cases hjoin : i = .inl c ∧ ∃ user name, call = .join draft user name
    · obtain ⟨rfl, user, name, rfl⟩ := hjoin
      exact .inl ⟨rfl, name, by rw [← huser c rfl]; rfl⟩
    · have hbefore := Attends.of_cons ?_ hin
      · refine .inr ⟨fun hleaves => ?_, h.joined c draft hbefore⟩
        exact hleave draft _ hleaves c rfl hbefore
      · intro time user name reply heq
        cases heq
        exact hjoin ⟨rfl, user, name, rfl⟩
  · intro c draft e expiresAt hacquired hin
    rcases hacquired with ⟨time, call, heq⟩ | ⟨hreleases, hbefore, hacquired⟩
    · cases heq
      exact .inl rfl
    · refine .inr ⟨hreleases _ rfl, fun hleaves => ?_, h.held c draft e expiresAt hacquired hbefore⟩
      exact hleave draft _ hleaves c rfl hbefore
  · split
    · rename_i heq
      cases heq
      exact hrefused _ rfl rfl
    · rename_i heq
      cases heq
    · trivial

theorem Told.send {draft : OntologyDraftId} {receivers : List (κ ⊕ ρ)}
    {frames : List ServerMessage} (h : Told auth limits now log)
    (hleft : ∀ draft' user, .userLeft draft' user ∈ frames →
      ∀ c, (auth c).userId = user → ¬Attends limits c draft now log) :
    Told auth limits now ((frames.map fun frame =>
      SocketEvent.hub (.sent now draft frame receivers)).reverse ++ log) := by
  induction frames generalizing log with
  | nil => exact h
  | cons frame frames ih =>
    rw [map_cons, reverse_cons, append_assoc, singleton_append]
    refine ih (h.add rfl ?_ ?_) ?_
    · rintro _ _ _ _ ⟨⟩
    · rintro _ _ draft' user _ ⟨⟩
      exact hleft draft' user mem_cons_self
    · intro draft' user hmem c hc hin
      refine hleft draft' user (mem_cons_of_mem _ hmem) c hc ?_
      exact Attends.of_cons (by rintro _ _ _ _ ⟨⟩) hin

end

/-! ## Runs of the connections -/

section

variable {ι : Type} [DecidableEq ι] {limits : HubLimits} {s s' : State ι} {m : Move ι}
  {events : List (Event ι)} {i j : ι} {call : Call} {stage : Stage} {sweep : Option Sweep}

theorem put_calling {hub : Hub ι} {phase : Phase}
    (h : (s.put i hub phase).phase j = .calling call stage sweep) :
    s.phase j = .calling call stage sweep ∨ j = i ∧ phase = .calling call stage sweep := by
  rw [State.put] at h
  dsimp only at h
  rw [Function.update_apply] at h
  split at h
  · exact .inr ⟨‹_›, h⟩
  · exact .inl h

theorem after_ne_calling {sweep' : Option Sweep} :
    Phase.after sweep' ≠ .calling call stage sweep := by
  cases sweep' <;> rintro ⟨⟩

/-- A section goes on with the call that the process runs. -/
theorem callStep_calling {call' : Call} {stage' : Stage} {sweep' : Option Sweep}
    (hphase : s.phase i = .calling call' stage' sweep')
    (h : s.callStep limits i call' stage' sweep' = some (s', events))
    (hcalling : s'.phase j = .calling call stage sweep) :
    ∃ stage'' sweep'', s.phase j = .calling call stage'' sweep'' := by
  have hput : ∀ hub phase, s' = s.put i hub phase →
      (∀ call stage sweep, phase = .calling call stage sweep → call = call') →
      ∃ stage'' sweep'', s.phase j = .calling call stage'' sweep'' := by
    rintro hub phase rfl hsame
    rcases put_calling hcalling with hbefore | ⟨rfl, heq⟩
    · exact ⟨_, _, hbefore⟩
    · obtain rfl := hsame _ _ _ heq
      exact ⟨_, _, hphase⟩
  have hafter : ∀ call stage sweep, Phase.after sweep' = .calling call stage sweep →
      call = call' := fun _ _ _ heq => absurd heq after_ne_calling
  have hon : ∀ stage'' call stage sweep,
      Phase.calling call' stage'' sweep' = .calling call stage sweep → call = call' := by
    rintro _ _ _ _ ⟨⟩
    rfl
  unfold State.callStep at h
  dsimp only at h
  split at h
  · split at h
    · cases h
      exact hput _ _ rfl (hon _)
    · split at h
      · cases h
        exact hput _ _ rfl (hon _)
      · cases h
        exact hput _ _ rfl hafter
  · split at h
    · split at h
      · cases h
        exact hput _ _ rfl (hon _)
      · cases h
        exact hput _ _ rfl (hon _)
    · cases h
  · cases h
    exact hput _ _ rfl (hon _)
  · cases h
    refine hput _ _ rfl ?_
    split
    · exact hon _
    · exact hafter
  · split at h
    · cases h
      exact hput _ _ rfl hafter
    · cases h

/-- A process comes to run a call only by calling it or by evicting. -/
theorem step_calling (h : s.step limits m = some (s', events))
    (hcalling : s'.phase j = .calling call stage sweep) :
    (∃ stage' sweep', s.phase j = .calling call stage' sweep') ∨ m = .call j call ∨
      ∃ draft user, m = .evict j draft user := by
  cases m with
  | call i call' =>
    simp only [State.step] at h
    split at h
    · cases h
      rcases put_calling hcalling with hbefore | ⟨rfl, heq⟩
      · exact .inl ⟨_, _, hbefore⟩
      · cases heq
        exact .inr (.inl rfl)
    · cases h
  | reap i =>
    simp only [State.step] at h
    split at h
    · cases h
      rcases put_calling hcalling with hbefore | ⟨rfl, heq⟩
      · exact .inl ⟨_, _, hbefore⟩
      · cases heq
    · cases h
  | turn i =>
    simp only [State.step] at h
    split at h
    · exact .inl (callStep_calling ‹_› h hcalling)
    all_goals first
      | cases h
        rcases put_calling hcalling with hbefore | ⟨rfl, heq⟩
        · exact .inl ⟨_, _, hbefore⟩
        · cases heq
      | cases h
  | visit i draft =>
    simp only [State.step] at h
    split at h
    · split at h
      · cases h
        rcases put_calling hcalling with hbefore | ⟨rfl, heq⟩
        · exact .inl ⟨_, _, hbefore⟩
        · cases heq
      · cases h
    · cases h
  | evict i draft user =>
    simp only [State.step] at h
    split at h
    · split at h
      · cases h
        rcases put_calling hcalling with hbefore | ⟨rfl, heq⟩
        · exact .inl ⟨_, _, hbefore⟩
        · exact .inr (.inr ⟨draft, user, rfl⟩)
      · cases h
    · cases h
  | pass duration =>
    simp only [State.step] at h
    cases h
    exact .inl ⟨_, _, hcalling⟩

end

section

variable {κ ρ : Type} [DecidableEq κ] {auth : κ → AuthOutcome} {limits : HubLimits}
  {w w' : World κ ρ} {log : List (SocketEvent κ ρ)}

/-- Every connection that is in a draft is a member of its room. -/
def Present (auth : κ → AuthOutcome) (limits : HubLimits) (w : World κ ρ)
    (log : List (SocketEvent κ ρ)) : Prop :=
  ∀ c draft, Attends limits c draft w.state.hub.clock log →
    ∃ room, w.state.hub.roomOf draft = some room ∧ (auth c).userId ∈ room.members

/-- Every lock acquired through a connection is there until it is released or expires. -/
def LocksStay (auth : κ → AuthOutcome) (limits : HubLimits) (w : World κ ρ)
    (log : List (SocketEvent κ ρ)) : Prop :=
  ∀ c draft e expiresAt, Attends limits c draft w.state.hub.clock log →
    Acquired auth limits c draft e expiresAt log → expiresAt ≤ w.state.hub.clock ∨
      ∃ room lock, w.state.hub.roomOf draft = some room ∧ room.locks.lookup e = some lock ∧
        lock.heldBy = (auth c).userId ∧ expiresAt ≤ lock.expiresAt

/-- The step takes no user out of a draft that one of their connections is in, and no
room from the registry that has members. -/
def World.Spares (auth : κ → AuthOutcome) (limits : HubLimits) (w : World κ ρ)
    (log : List (SocketEvent κ ρ)) : SocketMove κ ρ → Prop
  | .hub move =>
    w.state.FindsEmpty move ∧
      match move with
      | .turn i =>
        match w.state.phase i with
        | .calling (.leave draft user) (.holding _) _ =>
          ∀ c, (auth c).userId = user → ¬Attends limits c draft w.state.hub.clock log
        | _ => True
      | _ => True
  | _ => True

/-- What holds of the connections while all who are in are spared. -/
structure Spared (auth : κ → AuthOutcome) (limits : HubLimits) (w : World κ ρ)
    (log : List (SocketEvent κ ρ)) : Prop where
  counted : Counted w.state
  kept : Kept limits w.state.hub.clock w.state.hub.roomOf (hubLog log)
  calls : ∀ c call stage sweep, w.state.phase (.inl c) = .calling call stage sweep →
    call.user = (auth c).userId
  told : Told auth limits w.state.hub.clock log

theorem spared_start : Spared auth limits ({} : World κ ρ) [] := by
  refine ⟨counted_start, kept_start, ?_, told_start⟩
  rintro c call stage sweep ⟨⟩

variable (h : Spared auth limits w log)
include h

theorem Spared.present : Present auth limits w log := by
  intro c draft hin
  obtain ⟨room, hroom, hmember, _⟩ := h.kept.joined draft _ _ (h.told.joined c draft hin)
  exact ⟨room, hroom, hmember⟩

theorem Spared.locksStay : LocksStay auth limits w log := by
  intro c draft e expiresAt hin hacquired
  exact h.kept.held draft e _ expiresAt (h.told.held c draft e expiresAt hacquired hin)

/-- Something that happens at a connection alone. -/
theorem Spared.add {event : SocketEvent κ ρ}
    (hnow : event.time = w.state.hub.clock) (hhub : ∀ ran, event ≠ .hub ran) :
    Spared auth limits w (event :: log) := by
  refine ⟨h.counted, ?_, h.calls, h.told.add hnow (fun _ _ _ _ => hhub _) ?_⟩
  · have hlog : hubLog (event :: log) = hubLog log := by
      cases event with
      | hub event => exact absurd rfl (hhub event)
      | _ => rfl
    rw [hlog]
    exact h.kept
  · intro _ _ _ _ _ heq
    exact absurd heq (hhub _)

variable [DecidableEq ρ]

theorem Spared.hub {m : Move (κ ⊕ ρ)} {s' : State (κ ⊕ ρ)} {events : List (Event (κ ⊕ ρ))}
    (hspares : w.Spares auth limits log (.hub m))
    (hstep : w.state.step limits m = some (s', events)) :
    Counted s' ∧ Kept limits s'.hub.clock s'.hub.roomOf (events.reverse ++ hubLog log) ∧
      Told auth limits s'.hub.clock ((events.map .hub).reverse ++ log) := by
  obtain ⟨hempty, hleave⟩ := hspares
  obtain ⟨hcounted, hkept⟩ := h.kept.step h.counted hempty hstep
  refine ⟨hcounted, hkept, ?_⟩
  have heffect := step_effect hstep
  refine Told.pass ?_ (h.counted.change heffect hempty).2
  cases heffect with
  | missed hroom hcreates hfrom hto =>
    refine h.told.ran ?_ ?_ ?_
    · rintro draft user rfl c rfl hin
      obtain ⟨room, hsome, _⟩ := h.present c draft hin
      rw [Hub.roomOf, show w.state.hub.rooms.lookup draft = none from hroom] at hsome
      cases hsome
    · rintro c rfl
      exact h.calls c _ _ _ hfrom
    · rintro c rfl ⟨⟩
  | @ran i call a sweep phase done hmove hdone hfrom hto =>
    have hsettled : Settled limits w.state.hub.clock i call (w.state.hub.heap a).room done :=
      hdone ▸ settled_underMutex
    have hroom : w.state.hub.roomOf call.draft = some (w.state.hub.heap a).room := by
      rw [Hub.roomOf, h.counted.held i _ a (congrArg Phase.arc hfrom)]
      rfl
    have hspared : ∀ draft user, call = .leave draft user → ∀ c, (auth c).userId = user →
        ¬Attends limits c draft w.state.hub.clock log := by
      rintro draft user rfl
      subst hmove
      simp only [hfrom] at hleave
      exact hleave
    rw [map_cons, map_map, reverse_cons, append_assoc, singleton_append]
    refine Told.send (h.told.ran hspared ?_ ?_) ?_
    · rintro c rfl
      exact h.calls c _ _ _ hfrom
    · rintro c rfl hreply hin
      obtain ⟨room, hsome, hmember⟩ := h.present c _ hin
      cases hroom.symm.trans hsome
      obtain ⟨draft, user, entity, hcall, hout⟩ := hsettled.refused hreply
      have huser : user = (auth c).userId := by
        rw [← h.calls c _ _ _ hfrom]
        rcases hcall with rfl | rfl <;> rfl
      exact hout (huser ▸ hmember)
    · intro draft user hmem c hc hin
      obtain rfl := hsettled.departs draft user hmem
      exact hspared draft user rfl c hc (Attends.of_cons (by rintro _ _ _ _ ⟨⟩) hin)
  | moved | passed | cloned | opened | dropped | removed => exact h.told

omit h in
/-- A frame makes a call for the user of its connection. -/
theorem user_of_handleMessage {auth : AuthOutcome} {authorised : Bool}
    {message : ClientMessage} {call : Call}
    (h : handleClientMessage auth authorised message = .ok call) : call.user = auth.userId := by
  unfold handleClientMessage at h
  split at h
  case h_2 =>
    split at h
    · cases h
      rfl
    · cases h
  all_goals first
    | cases h; rfl
    | cases h

theorem Spared.call {c : κ} {call : Call} {s' : State (κ ⊕ ρ)} {events : List (Event (κ ⊕ ρ))}
    (huser : call.user = (auth c).userId)
    (hstep : w.state.step limits (.call (.inl c) call) = some (s', events)) (sockets : κ → Socket) :
    Spared auth limits { state := s', sockets := sockets } log := by
  have hspares : w.Spares auth limits log (.hub (.call (.inl c) call)) := ⟨trivial, trivial⟩
  obtain ⟨hcounted, hkept, htold⟩ := h.hub hspares hstep
  have hevents : events = [] := by
    simp only [State.step] at hstep
    split at hstep
    · cases hstep
      rfl
    · cases hstep
  subst hevents
  refine ⟨hcounted, hkept, ?_, htold⟩
  intro c' call' stage sweep hcalling
  rcases step_calling hstep hcalling with ⟨stage', sweep', hbefore⟩ | heq | ⟨_, _, heq⟩
  · exact h.calls c' call' stage' sweep' hbefore
  · cases heq
    exact huser
  · cases heq

theorem Spared.step {m : SocketMove κ ρ} {events : List (SocketEvent κ ρ)}
    (hspares : w.Spares auth limits log m) (hstep : w.step auth limits m = some (w', events)) :
    Spared auth limits w' (events.reverse ++ log) := by
  cases m with
  | frame c message authorised =>
    simp only [World.step] at hstep
    split at hstep
    · split at hstep
      · cases hstep
        exact h.add rfl (by rintro _ ⟨⟩)
      · rename_i call hcall
        obtain ⟨⟨s', events'⟩, hnext, heq⟩ := Option.map_eq_some_iff.1 hstep
        cases heq
        refine (h.add ?_ ?_).call (user_of_handleMessage hcall) hnext _
        · cases call <;> rfl
        · intro ran heq
          cases call <;> cases heq
    · cases hstep
  | disconnect c =>
    simp only [World.step] at hstep
    split at hstep
    · cases hstep
      have hclosed : Spared auth limits w (.closed w.state.hub.clock c :: log) :=
        h.add rfl (by rintro _ ⟨⟩)
      exact ⟨hclosed.counted, hclosed.kept, hclosed.calls, hclosed.told⟩
    · cases hstep
  | cleanup c draft =>
    simp only [World.step] at hstep
    split at hstep
    · split at hstep
      · obtain ⟨⟨s', events'⟩, hnext, heq⟩ := Option.map_eq_some_iff.1 hstep
        cases heq
        exact h.call rfl hnext _
      · cases hstep
    · cases hstep
  | hub m =>
    simp only [World.step] at hstep
    split at hstep
    · rename_i hfits
      obtain ⟨⟨s', events'⟩, hnext, heq⟩ := Option.map_eq_some_iff.1 hstep
      cases heq
      obtain ⟨hcounted, hkept, htold⟩ := h.hub hspares hnext
      refine ⟨hcounted, hubLog_append ▸ hkept, ?_, htold⟩
      intro c call stage sweep hcalling
      rcases step_calling hnext hcalling with ⟨stage', sweep', hbefore⟩ | rfl | ⟨_, _, rfl⟩
      · exact h.calls c call stage' sweep' hbefore
      · cases hfits
      · cases hfits
    · cases hstep

/-- Every step of the run spares those who are in. -/
def RunSpares (auth : κ → AuthOutcome) (limits : HubLimits) (w : World κ ρ)
    (log : List (SocketEvent κ ρ)) : List (SocketMove κ ρ) → Prop
  | [] => True
  | m :: ms =>
    w.Spares auth limits log m ∧
      match w.step auth limits m with
      | some (w', events) => RunSpares auth limits w' (events.reverse ++ log) ms
      | none => True

theorem Spared.steps {moves : List (SocketMove κ ρ)} {log' : List (SocketEvent κ ρ)}
    (hspares : RunSpares auth limits w log moves)
    (hrun : w.run auth limits log moves = some (w', log')) : Spared auth limits w' log' := by
  induction moves generalizing w log with
  | nil =>
    cases hrun
    exact h
  | cons m ms ih =>
    rw [World.run] at hrun
    obtain ⟨hfirst, hrest⟩ := hspares
    cases hstep : w.step auth limits m with
    | none =>
      rw [hstep] at hrun
      cases hrun
    | some next =>
      rw [hstep] at hrun hrest
      exact ih (h.step hfirst hstep) hrest hrun

omit h

/-- In every run in which no user is taken out of a draft that one of their connections
is in, and no room from the registry that has members, every connection stays a member
of the rooms it is in and keeps its locks, is never told that it has not joined, and
its user is not reported to have left. -/
theorem presence_run {moves : List (SocketMove κ ρ)}
    (hrun : World.run auth limits {} [] moves = some (w, log))
    (hspares : RunSpares auth limits ({} : World κ ρ) [] moves) :
    Present auth limits w log ∧ LocksStay auth limits w log ∧ Undisturbed auth limits log := by
  have h := spared_start.steps hspares hrun
  exact ⟨h.present, h.locksStay, h.told.undisturbed⟩

end

/-! ## Checking a run -/

section

instance State.decidableFindsEmpty {ι : Type} (s : State ι) (m : Move ι) :
    Decidable (s.FindsEmpty m) :=
  match m with
  | .turn i => by
    unfold State.FindsEmpty
    dsimp only
    split
    · split <;> infer_instance
    · infer_instance
  | .call .. | .reap _ | .visit .. | .evict .. | .pass _ => inferInstanceAs (Decidable True)

variable {κ ρ : Type} [DecidableEq κ] (auth : κ → AuthOutcome) (limits : HubLimits)

instance decidableAttends (c : κ) (draft : OntologyDraftId) (now : Time)
    (log : List (SocketEvent κ ρ)) : Decidable (Attends limits c draft now log) :=
  decidable_of_iff
    ((lastSeen limits c draft log).any fun time => now ≤ time + chronoDuration limits.idleTimeout)
    (by simp [Attends, Option.any_eq_true])

variable [Fintype κ]

instance World.decidableSpares (w : World κ ρ) (log : List (SocketEvent κ ρ))
    (m : SocketMove κ ρ) : Decidable (w.Spares auth limits log m) :=
  match m with
  | .hub (.turn i) => by
    unfold World.Spares
    dsimp only
    refine @instDecidableAnd _ _ _ ?_
    split <;> infer_instance
  | .hub (.call ..) | .hub (.reap _) | .hub (.visit ..) | .hub (.evict ..) | .hub (.pass _) =>
    inferInstanceAs (Decidable (_ ∧ True))
  | .frame .. | .disconnect _ | .cleanup .. => inferInstanceAs (Decidable True)

instance decidableRunSpares [DecidableEq ρ] (w : World κ ρ) (log : List (SocketEvent κ ρ)) :
    (moves : List (SocketMove κ ρ)) → Decidable (RunSpares auth limits w log moves)
  | [] => inferInstanceAs (Decidable True)
  | m :: ms =>
    match h : w.step auth limits m with
    | some (w', events) =>
      have := decidableRunSpares w' (events.reverse ++ log) ms
      decidable_of_iff
        (w.Spares auth limits log m ∧ RunSpares auth limits w' (events.reverse ++ log) ms)
        (by rw [RunSpares, h])
    | none => decidable_of_iff (w.Spares auth limits log m) (by rw [RunSpares, h, and_true])

end

/-- A frame from its start to the end of its call, in so many sections. -/
def answered {κ ρ : Type} (c : κ) (message : ClientMessage) (sections : Nat) :
    List (SocketMove κ ρ) :=
  .frame c message true :: List.replicate sections (.hub (.turn (.inl c)))

def annAndBea : Bool → AuthOutcome
  | false => { userId := "ann", userName := "Ann" }
  | true => { userId := "bea", userName := "Bea" }

/-- Ann edits on while Bea leaves and a sweep goes by. -/
def beaLeaves : List (SocketMove Bool Unit) :=
  answered false (.join 7) 4 ++ answered true (.join 7) 3 ++
  answered false (.acquireLock 7 "Person") 3 ++ answered true (.leave 7) 3 ++
  [.hub (.reap (.inr ())), .hub (.turn (.inr ())), .hub (.visit (.inr ()) 7),
    .hub (.turn (.inr ())), .hub (.turn (.inr ()))] ++
  answered false (.releaseLock 7 "Person") 3

theorem presence_run_beaLeaves : ∃ w log,
    World.run annAndBea stockLimits ({} : World Bool Unit) [] beaLeaves = some (w, log) ∧
      Present annAndBea stockLimits w log ∧ LocksStay annAndBea stockLimits w log ∧
        Undisturbed annAndBea stockLimits log := by
  have hspares : RunSpares annAndBea stockLimits ({} : World Bool Unit) [] beaLeaves := by
    decide +kernel
  exact ⟨_, _, rfl, presence_run rfl hspares⟩

def annTwice : Bool → AuthOutcome := fun _ => { userId := "ann", userName := "Ann" }

/-- The first tab locks an entity, the second comes and is closed, and the first asks
for its lock again. -/
def secondTab : List (SocketMove Bool Unit) :=
  answered false (.join 7) 4 ++ answered false (.acquireLock 7 "Person") 3 ++
  answered true (.join 7) 3 ++ [.disconnect true, .cleanup true 7] ++
  List.replicate 4 (.hub (.turn (.inl true))) ++ answered false (.acquireLock 7 "Person") 4

/-- The first tab is out, without its lock, and is told that it has not joined. -/
theorem secondTab_evicts : ∃ w log,
    World.run annTwice stockLimits ({} : World Bool Unit) [] secondTab = some (w, log) ∧
      ¬Present annTwice stockLimits w log ∧ ¬Undisturbed annTwice stockLimits log := by
  refine ⟨_, _, rfl, ?_, ?_⟩
  · intro h
    obtain ⟨room, hroom, hin⟩ := h false 7 ⟨0, rfl, by decide⟩
    cases hroom
    exact absurd hin (by decide)
  · intro h
    exact h.2 ⟨0, rfl, by decide⟩

end Ontosyx.Collaboration
