import WatchParty.Actor.Store
import WatchParty.Gateway.Handlers

/-!
# The gateway on the actor plane

The handlers of `sync/sync.gateway.ts` over the actor store, as programs of an instance, for one room: every `await` of
a redis call is a command, and `ensureRoom` and `releaseRoom` run in the room's gate. The forward handler is what the
store calls with a control that another instance has published.

What the database and socket.io answer, and when, is left open: the stretch of a handler that follows such an answer is
a request of its own, which carries the answer. Who controls the room, the participants, the chat history and the voice
roster are told to the sockets besides; that is left out here.

- `handleControl`, `forwardHandler`, `handleJoinRoom`, …: the handlers, under the source's names;
- `ActorGateway.system`: any number of instances;
- `posted?`, `opened?`, `inFlight`: the controls that were published and have not been delivered.
-/

namespace WatchParty
namespace ActorGateway

open ActorRoomStateStore (Async iface)

/-- What reaches an instance. A control has a number `n`, which a message that forwards it carries along for the
reader; `k` tells the deliveries of messages apart. -/
inductive Request
  /- `handleJoinRoom` after `client.join`, with the row that it read before -/
  | joined (id : String) (room : RoomRow) (now : ℚ)
  /- `handleLeaveRoom` after `client.leave` -/
  | left (id : String)
  /- `handleLeaveRoom` after `fetchSockets` -/
  | departed (id : String) (sockets : List String)
  /- the socket joins another room -/
  | elsewhere (id : String)
  | control (n : ℕ) (id : String) (now : ℚ) (req : ControlReq)
  | forwarded (k n : ℕ) (now : ℚ) (c : ControlReq)
  | sweep (now : ℚ)
  | persistTimer
  | renewAll
  deriving DecidableEq, Repr

/-- `ensureRoomInner`. -/
def ensureRoomInner (instanceId : String) (room : RoomRow) (now : ℚ) : Async Timeline := do
  Prog.modify (TimelineService.ensureMeta room)
  ActorRoomStateStore.init instanceId room.videoUrl room.currentTime now

/-- `releaseRoomInner`; what is written to the database is left out. -/
def releaseRoomInner : Async Unit := do
  let _ ← ActorRoomStateStore.get
  Prog.modify fun l => { l with roomMeta := none }
  ActorRoomStateStore.clear

/-- `handleControl`. The socket is synthetic for a control that was forwarded. -/
def handleControl (instanceId socketId : String) (c : ControlReq) (now : ℚ) : Async ControlResult := do
  let l ← Prog.get
  let r := TimelineService.admission socketId c.byUser now l
  Prog.modify fun _ => r.2
  match r.1 with
  | some reason => pure (.refused reason)
  | none =>
    let outcome ← ActorRoomStateStore.applyControl instanceId c now
    match outcome with
    | .committed tl =>
      Prog.modify TimelineService.schedulePersist
      pure (.committed tl)
    | outcome => pure (TimelineService.controlResult outcome)

/-- `sweepSnapshot`, with what `sweepTimelines` emits. -/
def sweepTimelines (instanceId : String) (now : ℚ) : Async Unit := do
  if (← Prog.get).members = [] then pure ()
  else
    match ← ActorRoomStateStore.get with
    | none => pure ()
    | some current =>
      if !current.isPlaying then pure ()
      else
        match ← ActorRoomStateStore.applySnapshot instanceId now with
        | some committed => Prog.emit (.room committed)
        | none =>
          let latest ← ActorRoomStateStore.get
          Prog.emit (.localRoom (latest.getD current))

/-- `flushPersist`, when its timer fires; what is written to the database is left out. -/
def flushPersist : Async Unit := do
  if (← Prog.get).persistTimer then
    Prog.modify fun l => { l with persistTimer := false }
    let _ ← ActorRoomStateStore.get
    pure ()
  else pure ()

section Handlers

variable (auth : String → AuthedSocketData) (instanceId : String)

/-- What the gateway hands on of a control: the sender is the one of the handshake. -/
def payload (id : String) (req : ControlReq) : ControlReq :=
  { req with byUser := (auth id).userId, originSocketId := some id }

/-- `handleSyncControl`. -/
def handleSyncControl (id : String) (now : ℚ) (req : ControlReq) : Async Unit := do
  if id ∈ (← Prog.get).members then
    match ← handleControl instanceId id (payload auth id req) now with
    | .refused reason => Prog.emit (.rejected id req.intent reason)
    | .forwarded => pure ()
    | .duplicate tl => Prog.emit (.socket id tl)
    | .fenced tl =>
      Prog.emit (.socket id tl)
      Prog.emit (.rejected id req.intent .staleVideo)
    | .committed tl => Prog.emit (.room tl)
  else Prog.emit (.rejected id req.intent .notController)

/-- A re-anchor to the socket that a control came from; the id of a socket is never empty. -/
def reanchor (c : ControlReq) (tl : Timeline) : Async Unit :=
  match c.originSocketId with
  | some id => Prog.emit (.socket id tl)
  | none => pure ()

/-- The forward handler: a refusal is answered to nobody. -/
def forwardHandler (c : ControlReq) (now : ℚ) : Async Unit := do
  match ← handleControl instanceId ("forward:" ++ c.byUser) c now with
  | .refused _ => pure ()
  | .forwarded => pure ()
  | .duplicate tl => reanchor c tl
  | .fenced tl => reanchor c tl
  | .committed tl => Prog.emit (.room tl)

def handleJoinRoom (id : String) (room : RoomRow) (now : ℚ) : Async Unit := do
  Prog.modify fun l => { l with members := if id ∈ l.members then l.members else l.members ++ [id] }
  let tl ← Prog.within (S := iface) Lane.gate (ensureRoomInner instanceId room now)
  Prog.modify fun l => (TimelineService.reclaim (auth id).userId l).2
  Prog.emit (.joined id tl)

def handleDeparture (id : String) (sockets : List String) : Async Unit :=
  if sockets = [] then Prog.within (S := iface) Lane.gate releaseRoomInner
  else Prog.modify fun l => (TimelineService.succession (auth id).userId (SyncGateway.candidate auth sockets) l).2

def program : Request → Async Unit
  | .joined id room now => handleJoinRoom auth instanceId id room now
  | .left id => Prog.modify fun l => TimelineService.dropSocket id { l with members := l.members.filter (· ≠ id) }
  | .departed id sockets => handleDeparture auth id sockets
  | .elsewhere id => Prog.modify fun l => { l with members := l.members.filter (· ≠ id) }
  | .control _ id now req => handleSyncControl auth instanceId id now req
  | .forwarded _ _ now c => forwardHandler instanceId c now
  | .sweep now => sweepTimelines instanceId now
  | .persistTimer => flushPersist
  | .renewAll => ActorRoomStateStore.renewAll instanceId

end Handlers

/-- Any number of instances that serve a room. -/
def system (auth : String → AuthedSocketData) : System iface String Redis Request ℕ Env :=
  { loc := Local.empty, shared := Redis.empty, exec := ActorRoomStateStore.exec, program := program auth,
    env := Env.apply }

/-- A state, a step and an event of such a run. -/
abbrev State := Cluster iface String Redis Request
abbrev Action := Label iface String Request ℕ Env
abbrev Event := Machine.Event State Action (Obs iface String Request)

/-! ## The messages between instances -/

/-- The control that a request is for: its number, and what is handed on of it. -/
def Request.subject? (auth : String → AuthedSocketData) : Request → Option (ℕ × ControlReq)
  | .control n id _ req => some (n, payload auth id req)
  | .forwarded _ n _ c => some (n, c)
  | _ => none

/-- A control that an instance forwards to another: its number, which is not on the wire, and its payload. -/
structure Message where
  addressee : String
  number : ℕ
  payload : ControlReq
  deriving DecidableEq, Repr

/-- The number of the control that a request is for. -/
def Request.number? : Request → Option ℕ
  | .control n _ _ _ => some n
  | .forwarded _ n _ _ => some n
  | _ => none

/-- The message that an event publishes to a subscriber. -/
def posted? (e : Event) : Option Message :=
  match e.out with
  | .executed _ r (.publish owner c) delivered =>
    if 0 < (show ℕ from delivered) then r.number?.map fun n => ⟨owner, n, c⟩ else none
  | _ => none

/-- The message that an event delivers. -/
def opened? (e : Event) : Option Message :=
  match e.act with
  | .start i (.forwarded _ n _ c) => some ⟨i, n, c⟩
  | _ => none

/-- The messages under way after an event. -/
def delivered (messages : List Message) (e : Event) : List Message :=
  match opened? e with
  | some m => messages.erase m
  | none => messages ++ (posted? e).toList

/-- The messages that were published and have not been delivered. -/
def inFlight (tr : List Event) : List Message := tr.foldl delivered []

theorem inFlight_snoc (tr : List Event) (e : Event) : inFlight (tr ++ [e]) = delivered (inFlight tr) e := by
  simp [inFlight]

end ActorGateway
end WatchParty
