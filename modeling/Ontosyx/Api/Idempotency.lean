import Ontosyx.Core.Chars

/-!
# The idempotency layer

`idempotency_layer` looks up a record before the handler runs and writes one
after it.  The lookup, the handler and the write are steps of their own, so the
steps of several requests interleave; the clock and the sweep of expired records
go on between them.
-/

namespace Ontosyx.Api

open Ontosyx.Core

/-! ## Requests and responses -/

structure AuthClaims where
  sub : String
deriving DecidableEq

def AuthClaims.isApiKey (claims : AuthClaims) : Bool :=
  "apikey:".toList.isPrefixOf claims.sub.toList

/-- The parts of a request the layer reads, and its query string.  `key` is the
`Idempotency-Key` header when it is there and is text. -/
structure Request where
  key : Option String
  principal : Option AuthClaims
  workspaceId : Option String
  method : String
  path : String
  query : String
  body : List UInt8
deriving DecidableEq

structure Response where
  status : Nat
  contentType : Option String
  body : List UInt8
deriving DecidableEq

/-- `is_client_error` or `is_server_error`. -/
def Response.isError (r : Response) : Bool := 400 ≤ r.status && r.status < 600

def Response.isStreaming (r : Response) : Bool :=
  r.contentType.any fun ct => "text/event-stream".toList.isPrefixOf ct.toList

/-- The answers the layer gives itself. -/
inductive LayerError where
  | streamingUnsupported (path : String)
  | unauthorized (message : String)
  | workspaceHeaderInvalid (reason : String)
  | requestBodyTooLarge (limit : Nat)
  | keyReused
  | store
deriving DecidableEq

def maxBufferedRequestBytes : Nat := 1024 * 1024

def maxBufferedResponseBytes : Nat := 2 * 1024 * 1024

/-- `REPLAY_TTL`, in seconds. -/
def replayTtl : Nat := 60 * 60 * 24

/-- The primary key of a record. -/
structure Scope where
  workspaceId : String
  userId : String
  method : String
  path : String
  key : String
deriving DecidableEq

/-- What the layer takes from elsewhere: the hash and the reading of a UUID. -/
structure Layer (H : Type) where
  sha256 : List UInt8 → H
  parseUuid : String → Option String

def extractKey (q : Request) : Option String :=
  q.key.bind fun value =>
    let s := String.ofList (trimChars value.toList)
    if s.isEmpty || s.utf8ByteSize > 255 then none else some s

def isStreamingPath (path : String) : Bool := "/stream".toList.isSuffixOf path.toList

/-- Where a request goes before the lookup: past the layer, back with an error,
or on to the lookup. -/
inductive Admission (H : Type) where
  | through
  | refused (e : LayerError)
  | guarded (scope : Scope) (hash : H)
deriving DecidableEq

/-- The part of `idempotency_layer` before the lookup. -/
def admission {H : Type} (layer : Layer H) (q : Request) : Admission H :=
  match extractKey q with
  | none => .through
  | some key =>
    if isStreamingPath q.path then .refused (.streamingUnsupported q.path)
    else
      match q.principal with
      | none => .refused (.unauthorized "Idempotency-Key requires an authenticated principal")
      | some claims =>
        match q.workspaceId with
        | none => .refused (.workspaceHeaderInvalid "missing")
        | some workspaceId =>
          if claims.isApiKey then .through
          else
            match layer.parseUuid claims.sub with
            | none => .refused (.unauthorized "Invalid user ID in token")
            | some userId =>
              if maxBufferedRequestBytes < q.body.length then
                .refused (.requestBodyTooLarge maxBufferedRequestBytes)
              else .guarded ⟨workspaceId, userId, q.method, q.path, key⟩
                (layer.sha256 q.body)

/-- A record of `idempotency_records`. -/
structure IdempotencyRecord (H : Type) where
  scope : Scope
  requestHash : H
  responseStatus : Nat
  responseBody : List UInt8
  responseContentType : Option String
  createdAt : Nat
  expiresAt : Nat

section

variable {H : Type}

def recordOf (scope : Scope) (hash : H) (r : Response) (now : Nat) : IdempotencyRecord H where
  scope := scope
  requestHash := hash
  responseStatus := r.status
  responseBody := r.body
  responseContentType := r.contentType
  createdAt := now
  expiresAt := now + replayTtl

def replay (record : IdempotencyRecord H) : Response :=
  ⟨record.responseStatus, record.responseContentType, record.responseBody⟩

@[simp] theorem replay_recordOf (scope : Scope) (hash : H) (r : Response) (now : Nat) :
    replay (recordOf scope hash r now) = r := rfl

/-- `find_idempotency_record`: the row of the scope, unless it has expired. -/
def findRecord (records : List (IdempotencyRecord H)) (now : Nat) (scope : Scope) :
    Option (IdempotencyRecord H) :=
  records.find? fun r => r.scope = scope && now < r.expiresAt

/-- `create_idempotency_record`: a row of the scope, expired or not, stays. -/
def createRecord (records : List (IdempotencyRecord H)) (record : IdempotencyRecord H) :
    List (IdempotencyRecord H) :=
  if records.any (·.scope = record.scope) then records else records ++ [record]

/-- `delete_expired_idempotency_records`. -/
def deleteExpired (records : List (IdempotencyRecord H)) (now : Nat) : List (IdempotencyRecord H) :=
  records.filter fun r => now ≤ r.expiresAt

end

/-! ## The steps of many requests -/

/-- How far a request has come. -/
inductive Phase (H : Type) where
  | arrived
  | passing
  | running (scope : Scope) (hash : H)
  | recording (record : IdempotencyRecord H) (response : Response)
  | answered

/-- What has happened: the handler completed, or a request was answered, with the
response of its own handler, from a record, or with an error of the layer. -/
inductive ApiEvent (ι H : Type) where
  | handled (i : ι) (response : Response) (time : Nat)
  | answered (i : ι) (response : Response) (time : Nat)
  | replayed (i : ι) (record : IdempotencyRecord H) (time : Nat)
  | refused (i : ι) (e : LayerError)

/-- One step: the lookup, the handler or the write of a request, the sweep, or
time going by.  A store call may fail. -/
inductive Move (ι : Type) where
  | lookup (i : ι) (stored : Bool)
  | handle (i : ι) (response : Response)
  | record (i : ι) (stored : Bool)
  | sweep
  | tick (seconds : Nat)

structure ApiState (ι H : Type) where
  now : Nat := 0
  records : List (IdempotencyRecord H) := []
  phase : ι → Phase H := fun _ => .arrived
  log : List (ApiEvent ι H) := []

section

variable {ι H : Type} [DecidableEq ι] [DecidableEq H] (layer : Layer H) (request : ι → Request)

namespace ApiState

variable (s : ApiState ι H)

def enter (i : ι) (phase : Phase H) : ApiState ι H :=
  { s with phase := Function.update s.phase i phase }

def finish (i : ι) (events : List (ApiEvent ι H)) : ApiState ι H :=
  { s with phase := Function.update s.phase i .answered, log := s.log ++ events }

/-- The lookup, with the part of the layer before it. -/
def lookup (i : ι) (stored : Bool) : ApiState ι H :=
  match s.phase i with
  | .arrived =>
    match admission layer (request i) with
    | .through => s.enter i .passing
    | .refused e => s.finish i [.refused i e]
    | .guarded scope hash =>
      if stored then
        match findRecord s.records s.now scope with
        | some existing =>
          if existing.requestHash = hash then s.finish i [.replayed i existing s.now]
          else s.finish i [.refused i .keyReused]
        | none => s.enter i (.running scope hash)
      else s.finish i [.refused i .store]
  | .passing | .running .. | .recording .. | .answered => s

/-- The handler, with the part of the layer between it and the write. -/
def handle (i : ι) (response : Response) : ApiState ι H :=
  match s.phase i with
  | .passing => s.finish i [.handled i response s.now, .answered i response s.now]
  | .running scope hash =>
    if response.isError || response.isStreaming then
      s.finish i [.handled i response s.now, .answered i response s.now]
    else if maxBufferedResponseBytes < response.body.length then
      -- the buffer is gone: an empty body goes out, and nothing is recorded
      s.finish i [.handled i response s.now, .answered i { response with body := [] } s.now]
    else
      { s with
        phase := Function.update s.phase i
          (.recording (recordOf scope hash response s.now) response)
        log := s.log ++ [.handled i response s.now] }
  | .arrived | .recording .. | .answered => s

/-- The write; its failure is only logged. -/
def record (i : ι) (stored : Bool) : ApiState ι H :=
  match s.phase i with
  | .recording rec response =>
    { s.finish i [.answered i response s.now] with
      records := if stored then createRecord s.records rec else s.records }
  | .arrived | .passing | .running .. | .answered => s

def step : Move ι → ApiState ι H
  | .lookup i stored => s.lookup layer request i stored
  | .handle i response => s.handle i response
  | .record i stored => s.record i stored
  | .sweep => { s with records := deleteExpired s.records s.now }
  | .tick seconds => { s with now := s.now + seconds }

def run (moves : List (Move ι)) : ApiState ι H :=
  moves.foldl (fun s m => s.step layer request m) s

end ApiState

end

end Ontosyx.Api
