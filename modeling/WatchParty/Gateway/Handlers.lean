import Mathlib.Data.List.MinMax
import WatchParty.Gateway.Service
import WatchParty.Lib.Tasks

/-!
# The gateway

The handlers of `sync/sync.gateway.ts`, with what they call of `sync/timeline.service.ts` and with the PATCH route of
`rooms/rooms.service.ts`, for one room on the shared-script plane. Each handler is given by its stretches: an
`Await` is a point at which it awaits a database, store or socket.io call, and `resume` is what runs from the reply to
the next `await`. `ensureRoom` and `releaseRoom` run in the room's gate.

What other rooms' handlers do to this one is a request of its own (`elsewhere`). The chat history and the voice roster
that follow a join are left out, as is the map of room hosts, which nothing reads.
-/

namespace WatchParty

/-- What the handshake leaves on a socket. -/
structure AuthedSocketData where
  userId : String
  connectedAt : ℕ
  deriving DecidableEq, Repr

/-- The body of a PATCH, as far as the sync code reads what it writes. -/
structure UpdateRoom where
  videoUrl : Option String
  allowGuestControl : Option Bool
  maxUsers : Option ℕ
  deriving DecidableEq, Repr

namespace SyncGateway

/-- What the handlers await. -/
inductive Await
  /- `handleJoinRoom` -/
  | joinRow (id : String)
  | joinSocket (id : String) (room : RoomRow)
  | joinInit (id : String) (room : RoomRow)
  | joinUpsert (id : String) (tl : Timeline)
  | joinList (id : String) (tl : Timeline)
  /- `handleDisconnect` of a socket that is in no room -/
  | dropped (id : String)
  /- `handleLeaveRoom` -/
  | leaveSocket (id : String)
  | leaveFetch (id : String)
  | releaseGet (id : String)
  | releaseClear (id : String) (timeline : Option Timeline)
  | releasePersist (id : String) (tl : Timeline) (now : ℚ)
  | leaveRow (id : String)
  | leaveUpdate (id : String)
  | leaveList (id : String)
  /- `handleSyncControl` -/
  | control (id : String) (req : ControlReq)
  /- `sweepTimelines` -/
  | sweepGet
  | sweepApply (current : Timeline)
  | sweepReread (current : Timeline)
  /- `flushPersist` -/
  | flushGet
  | flushUpdate (tl : Timeline) (now : ℚ)
  /- `updateRoomByCode` -/
  | patchRow (userId : String) (data : UpdateRoom)
  | patchUpdate (data : UpdateRoom)
  deriving DecidableEq

/-- What each `await` answers. After a read of the store in a flush, and after the `clear` of a release, the clock of
the instance is read. -/
@[reducible] def Reply : Await → Type
  | .joinRow _ => Option (RoomRow × List String)
  | .joinSocket _ _ => Unit
  | .joinInit _ _ => Timeline
  | .joinUpsert _ _ => Unit
  | .joinList _ _ => List String
  | .dropped _ => Unit
  | .leaveSocket _ => Unit
  | .leaveFetch _ => List String
  | .releaseGet _ => Option Timeline
  | .releaseClear _ _ => ℚ
  | .releasePersist _ _ _ => Unit
  | .leaveRow _ => Bool
  | .leaveUpdate _ => Unit
  | .leaveList _ => List String
  | .control _ _ => ApplyOutcome
  | .sweepGet => Option Timeline
  | .sweepApply _ => Option Timeline
  | .sweepReread _ => Option Timeline
  | .flushGet => Option Timeline × ℚ
  | .flushUpdate _ _ => Unit
  | .patchRow _ _ => Option String
  | .patchUpdate _ => Unit

/-- What waits for the gate. -/
inductive Gated
  | ensure (id : String) (room : RoomRow)
  | release (id : String)
  deriving DecidableEq, Repr

/-- What reaches an instance. -/
inductive Request
  | joinRoom (id : String)
  | disconnect (id : String)
  | elsewhere (id : String)
  | leaveRoom (id : String)
  | control (id : String) (now : ℚ) (req : ControlReq)
  | sweep
  | persistTimer
  | updateRoom (userId : String) (data : UpdateRoom)
  deriving DecidableEq, Repr

/-- What an instance sends: to one socket, to the sockets of the room on every instance, or to its own; or the answer
to a PATCH. -/
inductive Emit
  | error (socketId : String) (message : String)
  | joined (socketId : String) (timeline : Timeline) (participants : List String)
  | userJoined (userId : String)
  | userLeft (userId : String)
  | participants (userIds : List String)
  | controller (controllerId : String) (reason : ControllerReason)
  | room (tl : Timeline)
  | localRoom (tl : Timeline)
  | socket (socketId : String) (tl : Timeline)
  | rejected (socketId : String) (intent : ControlIntent) (reason : Rejection)
  | updated (data : UpdateRoom)
  | notUpdated
  deriving DecidableEq, Repr

/-- The database rows of the room, its keys in Redis, the sockets that socket.io has in it on all instances, and the
sockets that are closed, whose `join` does nothing. -/
structure World where
  redis : Room
  row : Option RoomRow
  active : List String
  sockets : List String
  gone : List String

/-- What the server and the clock leave open: what the log drops beyond its bound, and what the clock of an instance
reads. -/
structure Choice where
  trim : ℕ
  now : ℚ
  deriving DecidableEq, Repr

/-- `persistTimeline`: the fields that are written. -/
def persisted (tl : Timeline) (now : ℚ) (row : RoomRow) : RoomRow :=
  { row with currentTime := projectMediaTime tl now, isPlaying := tl.isPlaying, videoUrl := tl.videoId }

/-- `updateRoom`: fields that the body does not have are left alone. -/
def updated (data : UpdateRoom) (row : RoomRow) : RoomRow :=
  { row with videoUrl := data.videoUrl.or row.videoUrl,
             allowGuestControl := data.allowGuestControl.getD row.allowGuestControl,
             maxUsers := data.maxUsers.or row.maxUsers }

/-- What an awaited call does when it is executed. -/
def exec (auth : String → AuthedSocketData) : (a : Await) → Choice → World → Reply a × World
  | .joinRow _, _, w => (w.row.map fun room => (room, w.active), w)
  | .joinSocket id _, _, w =>
    ((), { w with sockets := if id ∈ w.gone ∨ id ∈ w.sockets then w.sockets else w.sockets ++ [id] })
  | .joinInit _ room, x, w =>
    let r := RedisRoomStateStore.init room.videoUrl room.currentTime x.trim w.redis
    (r.1, { w with redis := r.2 })
  | .joinUpsert id _, _, w =>
    ((), { w with active := if (auth id).userId ∈ w.active then w.active else w.active ++ [(auth id).userId] })
  | .joinList _ _, _, w => (w.active, w)
  | .dropped id, _, w => ((), { w with sockets := w.sockets.filter (· ≠ id), gone := id :: w.gone })
  | .leaveSocket id, _, w => ((), { w with sockets := w.sockets.filter (· ≠ id), gone := id :: w.gone })
  | .leaveFetch _, _, w => (w.sockets, w)
  | .releaseGet _, _, w => (RedisRoomStateStore.get w.redis, w)
  | .releaseClear _ _, x, w => (x.now, { w with redis := RedisRoomStateStore.clear w.redis })
  | .releasePersist _ tl now, _, w => ((), { w with row := w.row.map (persisted tl now) })
  | .leaveRow _, _, w => (w.row.isSome, w)
  | .leaveUpdate id, _, w => ((), { w with active := w.active.filter (· ≠ (auth id).userId) })
  | .leaveList _, _, w => (w.active, w)
  | .control _ req, x, w =>
    let r := RedisRoomStateStore.applyControl req x.trim w.redis
    (r.1, { w with redis := r.2 })
  | .sweepGet, _, w => (RedisRoomStateStore.get w.redis, w)
  | .sweepApply _, x, w =>
    let r := RedisRoomStateStore.applySnapshot x.trim w.redis
    (r.1, { w with redis := r.2 })
  | .sweepReread _, _, w => (RedisRoomStateStore.get w.redis, w)
  | .flushGet, x, w => ((RedisRoomStateStore.get w.redis, x.now), w)
  | .flushUpdate tl now, _, w => ((), { w with row := w.row.map (persisted tl now) })
  | .patchRow _ _, _, w => (w.row.map RoomRow.creatorId, w)
  | .patchUpdate data, _, w => ((), { w with row := w.row.map (updated data) })

/-- The points inside the gate. -/
def inGate : Await → Bool
  | .joinInit _ _ => true
  | .releaseGet _ => true
  | .releaseClear _ _ => true
  | .releasePersist _ _ _ => true
  | _ => false

abbrev Stretch := Turn Local Emit Await Gated

/-- The handler has ended. -/
def done (sent : List Emit) (l : Local) : Stretch := ⟨l, sent, .done⟩

/-- The handler awaits `a`. -/
def await (a : Await) (sent : List Emit) (l : Local) : Stretch := ⟨l, sent, .await a⟩

/-- The handler waits for the gate. -/
def gated (q : Gated) (sent : List Emit) (l : Local) : Stretch := ⟨l, sent, .queue q⟩

/-- Is the room full for a user? A returning participant never counts. -/
def isFull (room : RoomRow) (active : List String) (userId : String) : Bool :=
  match room.maxUsers with
  | none => false
  | some n => decide (n ≠ 0 ∧ n ≤ (active.filter (· ≠ userId)).length)

/-- The longest-connected of the sockets that are left. -/
def candidate (auth : String → AuthedSocketData) (sockets : List String) : Option String :=
  (sockets.argmin fun id => (auth id).connectedAt).map fun id => (auth id).userId

/-- The event of a controller change. -/
def announce (reason : ControllerReason) (change : Option String) : List Emit :=
  match change with
  | none => []
  | some controllerId => [.controller controllerId reason]

/-- A request arrives. `leave-room` has no handler. -/
def start (auth : String → AuthedSocketData) : Request → Local → Stretch
  | .joinRoom id, l => await (.joinRow id) [] l
  | .disconnect id, l => if id ∈ l.members then await (.leaveSocket id) [] l else await (.dropped id) [] l
  | .elsewhere id, l => done [] { l with members := l.members.filter (· ≠ id) }
  | .leaveRoom _, l => done [] l
  | .control id now req, l =>
    if id ∈ l.members then
      let r := TimelineService.admission id (auth id).userId now l
      match r.1 with
      | some reason => done [.rejected id req.intent reason] r.2
      | none => await (.control id { req with byUser := (auth id).userId, originSocketId := some id }) [] r.2
    else done [.rejected id req.intent .notController] l
  | .sweep, l => if l.members = [] then done [] l else await .sweepGet [] l
  | .persistTimer, l => if l.persistTimer then await .flushGet [] { l with persistTimer := false } else done [] l
  | .updateRoom userId data, l => await (.patchRow userId data) [] l

/-- What runs from a reply to the next `await`. -/
def resume (auth : String → AuthedSocketData) : (a : Await) → Reply a → Local → Stretch
  | .joinRow id, found, l =>
    match found with
    | none => done [.error id "Room not found or inactive"] l
    | some (room, active) =>
      if !room.isActive then done [.error id "Room not found or inactive"] l
      else if isFull room active (auth id).userId then done [.error id "Room is full"] l
      else await (.joinSocket id room) [] l
  | .joinSocket id room, _, l =>
    gated (.ensure id room) [] { l with members := if id ∈ l.members then l.members else l.members ++ [id] }
  | .joinInit id _, tl, l =>
    let r := TimelineService.reclaim (auth id).userId l
    await (.joinUpsert id tl) (announce .reclaim r.1) r.2
  | .joinUpsert id tl, _, l => await (.joinList id tl) [] l
  | .joinList id tl, userIds, l => done [.joined id tl userIds, .userJoined (auth id).userId, .participants userIds] l
  | .dropped _, _, l => done [] l
  | .leaveSocket id, _, l =>
    await (.leaveFetch id) [] (TimelineService.dropSocket id { l with members := l.members.filter (· ≠ id) })
  | .leaveFetch id, sockets, l =>
    if sockets = [] then gated (.release id) [] l
    else
      let r := TimelineService.succession (auth id).userId (candidate auth sockets) l
      await (.leaveRow id) (announce .succession r.1) r.2
  | .releaseGet id, timeline, l => await (.releaseClear id timeline) [] { l with roomMeta := none }
  | .releaseClear id timeline, now, l =>
    match timeline with
    | some tl => await (.releasePersist id tl now) [] l
    | none => await (.leaveRow id) [] l
  | .releasePersist id _ _, _, l => await (.leaveRow id) [] l
  | .leaveRow id, found, l => if found then await (.leaveUpdate id) [] l else done [] l
  | .leaveUpdate id, _, l => await (.leaveList id) [] l
  | .leaveList id, userIds, l => done [.userLeft (auth id).userId, .participants userIds] l
  | .control id req, outcome, l =>
    match TimelineService.controlResult outcome with
    | .refused reason => done [.rejected id req.intent reason] l
    | .forwarded => done [] l
    | .duplicate tl => done [.socket id tl] l
    | .fenced tl => done [.socket id tl, .rejected id req.intent .staleVideo] l
    | .committed tl => done [.room tl] (TimelineService.schedulePersist l)
  | .sweepGet, current, l =>
    match current with
    | none => done [] l
    | some tl => if tl.isPlaying then await (.sweepApply tl) [] l else done [] l
  | .sweepApply current, committed, l =>
    match committed with
    | some tl => done [.room tl] l
    | none => await (.sweepReread current) [] l
  | .sweepReread current, latest, l => done [.localRoom (latest.getD current)] l
  | .flushGet, found, l =>
    match found with
    | (none, _) => done [] l
    | (some tl, now) => await (.flushUpdate tl now) [] l
  | .flushUpdate _ _, _, l => done [] l
  | .patchRow userId data, creatorId, l =>
    if creatorId = some userId then await (.patchUpdate data) [] l else done [.notUpdated] l
  | .patchUpdate data, _, l => done [.updated data] l

/-- A handler is let into the gate. -/
def enter : Gated → Local → Stretch
  | .ensure id room, l => await (.joinInit id room) [] (TimelineService.ensureMeta room l)
  | .release id, l => await (.releaseGet id) [] l

/-- What happens besides: time passes, or Redis loses its keys. -/
inductive Env
  | tick (d : ℕ)
  | flush
  deriving DecidableEq, Repr

def Env.apply : Env → World → World
  | .tick d, w => { w with redis := w.redis.tick d }
  | .flush, w => { w with redis := { w.redis with tl := none, cmd := fun _ => none, log := none, lease := none } }

/-- Any number of instances that serve a room with this row. -/
def system (auth : String → AuthedSocketData) (row : RoomRow) :
    Tasks Local Emit Await Gated Request World Choice Env Reply :=
  { loc := Local.empty, shared := ⟨Room.empty, some row, [], [], []⟩, start := start auth, resume := resume auth,
    enter := enter, exec := exec auth, inside := inGate, env := Env.apply }

abbrev State (I : Type) := Office I World Local Gated Reply

abbrev Event (I : Type) := Machine.Event (State I) (Move I Request Choice Env) (Shown I Emit)

/-- The call that an event executes. -/
def call? {I : Type} (e : Event I) : Option Await := (e.pre.executed e.act).map Prod.snd

/-- The runs of the instances `I`. -/
abbrev backend {I : Type} [DecidableEq I] (auth : String → AuthedSocketData) (row : RoomRow) :
    Machine (State I) (Move I Request Choice Env) (Shown I Emit) := (system auth row).machine

/-! ## Handlers that run alone -/

section Alone

variable {I : Type} (i : I)

/-- The handler behind the `n` oldest ones of an instance is answered. -/
def answer (n : ℕ) : List (Move I Request Choice Env) := [.exec i n ⟨0, 0⟩, .deliver i n]

/-- A join, while `n` handlers wait. -/
def joining (n : ℕ) (id : String) : List (Move I Request Choice Env) :=
  .start i (.joinRoom id) :: answer i n ++ answer i n ++ .enter i :: answer i n ++ answer i n ++ answer i n

/-- A leave that finds other sockets in the room, while `n` handlers wait. -/
def departing (n : ℕ) (id : String) : List (Move I Request Choice Env) :=
  .start i (.disconnect id) :: answer i n ++ answer i n ++ answer i n ++ answer i n ++ answer i n

def patching (userId : String) (data : UpdateRoom) : List (Move I Request Choice Env) :=
  .start i (.updateRoom userId data) :: answer i 0 ++ answer i 0

/-- Sockets whose users are named as they are. -/
def namesake (id : String) : AuthedSocketData := ⟨id, 0⟩

/-- A room that guests do not control. -/
def quietRow : RoomRow :=
  { creatorId := "creator", allowGuestControl := false, videoUrl := none, currentTime := 0, isPlaying := false,
    isActive := true, maxUsers := none }

end Alone

end SyncGateway
end WatchParty
