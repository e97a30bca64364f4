import WatchParty.Lib.Cluster
import WatchParty.Redis.Room
import WatchParty.Sync.RoomStateStore

/-!
# An instance of the backend

What one process keeps in memory for a room, what it shows to the outside, and the store that the room's keys live in.
The two per-room promise queues (`ActorRoomStateStore.enqueue` and `TimelineService.gated`) are lanes: an operation
waits for its turn, runs, and gives the lane back whether it succeeds or not.
-/

namespace WatchParty

/-- An entry of `ActorRoomStateStore.owned`. -/
structure Owned where
  fence : ℚ
  timeline : Timeline
  deriving DecidableEq, Repr

structure RoomMeta where
  creatorId : String
  allowGuestControl : Bool
  videoId : Option String
  activeController : Option String
  deriving DecidableEq, Repr

structure TokenBucket where
  tokens : ℚ
  lastRefill : ℚ
  deriving DecidableEq, Repr

/-- The memory of an instance about the room: the actor store's `owned`, the timeline service's `meta`, `buckets` and
`persistTimers`, and the sockets that the gateway's `userRooms` has in the room. -/
structure Local where
  owned : Option Owned
  roomMeta : Option RoomMeta
  buckets : String → Option TokenBucket
  persistTimer : Bool
  members : List String

def Local.empty : Local :=
  { owned := none, roomMeta := none, buckets := fun _ => none, persistTimer := false, members := [] }

/-- The per-room queues. -/
inductive Lane
  | queue | gate
  deriving DecidableEq, Repr

/-- A call of the store interface. -/
inductive Call
  | get
  | applyControl (req : ControlReq) (serverNow : ℚ)
  | applySnapshot (serverNow : ℚ)
  | init (videoId : Option String) (mediaTime serverNow : ℚ)
  | clear
  | renewAll
  deriving DecidableEq, Repr

/-- What a call returns. -/
inductive Result
  | timeline (tl : Option Timeline)
  | outcome (o : ApplyOutcome)
  | done
  deriving DecidableEq, Repr

/-- Why a control is rejected. -/
inductive Rejection
  | notController | rateLimited | roomNotFound | invalidVideoUrl | staleVideo
  deriving DecidableEq, Repr

/-- What an instance shows: call number `n` returned; or, from the gateway, a timeline for all sockets of the room
(`server.to(roomCode)`, which reaches other instances over the adapter), for its own sockets (`server.local`), for one
socket, the answer to a join, a rejected control, and the end of sweep tick `n`. -/
inductive Emit
  | returned (n : ℕ) (c : Call) (r : Result)
  | room (tl : Timeline)
  | localRoom (tl : Timeline)
  | socket (id : String) (tl : Timeline)
  | joined (id : String) (tl : Timeline)
  | rejected (id : String) (intent : ControlIntent) (reason : Rejection)
  | swept (n : ℕ)
  deriving DecidableEq, Repr

/-- The interface of an instance whose store sends the commands `Cmd`. -/
def instanceIface (Cmd : Type) (Reply : Cmd → Type) : Iface := ⟨Local, Cmd, Reply, Emit, Lane⟩

instance (Cmd : Type) (Reply : Cmd → Type) : DecidableEq (instanceIface Cmd Reply).Lane :=
  inferInstanceAs (DecidableEq Lane)

/-- The redis server: the keys of the room, and the instances whose forward channel has a subscriber. -/
structure Redis where
  room : Room
  subscribed : String → Bool

def Redis.empty : Redis := ⟨Room.empty, fun _ => false⟩

/-- What happens to the server besides commands: time passes, and forward channels get and lose their subscriber. -/
inductive Env
  | tick (d : ℕ)
  | subscription (instanceId : String) (up : Bool)

def Env.apply : Env → Redis → Redis
  | .tick d, k => { k with room := k.room.tick d }
  | .subscription instanceId up, k => { k with subscribed := Function.update k.subscribed instanceId up }

/-- The operations of `RoomStateStore` as programs of an instance. -/
structure RoomStateStore (S : Iface) where
  get : Prog S (Option Timeline)
  applyControl : ControlReq → ℚ → Prog S ApplyOutcome
  applySnapshot : ℚ → Prog S (Option Timeline)
  init : Option String → ℚ → ℚ → Prog S Timeline
  clear : Prog S Unit

/-- What an instance runs for call number `n`; `renewAll` is what the store's own timer does. -/
def RoomStateStore.run {Cmd : Type} {Reply : Cmd → Type} (store : RoomStateStore (instanceIface Cmd Reply))
    (renewAll : Prog (instanceIface Cmd Reply) Unit) (n : ℕ) : Call → Prog (instanceIface Cmd Reply) Unit
  | .get => do
    let tl ← store.get
    Prog.emit (.returned n .get (.timeline tl))
  | .applyControl req serverNow => do
    let o ← store.applyControl req serverNow
    Prog.emit (.returned n (.applyControl req serverNow) (.outcome o))
  | .applySnapshot serverNow => do
    let tl ← store.applySnapshot serverNow
    Prog.emit (.returned n (.applySnapshot serverNow) (.timeline tl))
  | .init videoId mediaTime serverNow => do
    let tl ← store.init videoId mediaTime serverNow
    Prog.emit (.returned n (.init videoId mediaTime serverNow) (.timeline (some tl)))
  | .clear => do
    store.clear
    Prog.emit (.returned n .clear .done)
  | .renewAll => do
    renewAll
    Prog.emit (.returned n .renewAll .done)

end WatchParty
