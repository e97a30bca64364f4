import WatchParty.Actor.Plane
import WatchParty.Sync.Instance

/-!
# The actor store

`sync/actor-room-state.store.ts` as programs of an instance. Every `await` of a redis call is a command; between two
of them an operation runs without interruption. `applyControl` and `applySnapshot` run in the room's queue.

- `ActorRoomStateStore.*`: the operations, under the source's names;
- `ActorRoomStateStore.system`: any number of instances that call them, and renew, in any order.
-/

namespace WatchParty
namespace ActorRoomStateStore

/-- The commands the store sends. A commit keeps the arguments of the method; its `ARGV` are `commitArgs`. -/
inductive Cmd
  | actorClaim (instanceId : String)
  | actorReclaim (observedOwner : String) (observedFence : ℚ)
  | actorInit (instanceId : String) (fence : ℚ) (videoId : Option String) (mediaTime : ℚ)
  | actorCommit (instanceId : String) (fence : ℚ) (next : Draft) (cmdId : Option String)
      (forVideoId : Option (Option String))
  | hgetall
  | del
  | publish (instanceId : String) (c : ControlReq)

/-- What each command answers. -/
def Reply : Cmd → Type
  | .actorClaim _ => Lua.LeaseView
  | .actorReclaim _ _ => ℕ
  | .actorInit _ _ _ _ => Option Timeline
  | .actorCommit _ _ _ _ _ => Option Answer
  | .hgetall => Option Timeline
  | .del => Unit
  | .publish _ _ => ℕ

/-- One command at the server; `trim` is what the server drops of the log beyond its bound. -/
def exec : (c : Cmd) → ℕ → Redis → Reply c × Redis
  | .actorClaim instanceId, _, k =>
    let r := Lua.actorClaim instanceId LEASE_TTL_MS k.room
    (r.1, { k with room := r.2 })
  | .actorReclaim observedOwner observedFence, _, k =>
    let r := Lua.actorReclaim observedOwner observedFence k.room
    (r.1, { k with room := r.2 })
  | .actorInit instanceId fence videoId mediaTime, trim, k =>
    let r := Lua.actorInit (initArgs instanceId fence videoId mediaTime) trim k.room
    (r.1, { k with room := r.2 })
  | .actorCommit instanceId fence next cmdId forVideoId, trim, k =>
    let r := Lua.actorCommit (commitArgs instanceId fence next cmdId forVideoId) trim k.room
    (r.1, { k with room := r.2 })
  | .hgetall, _, k => (k.room.loadTl.map TlHash.toTimeline, k)
  | .del, _, k => ((), { k with room := { k.room with tl := none, lease := none } })
  | .publish instanceId _, _, k => ((if k.subscribed instanceId then 1 else 0 : ℕ), k)

abbrev iface : Iface := instanceIface Cmd Reply

/-- A program of an instance. -/
abbrev Async (α : Type) : Type := Prog iface α

def setOwned (entry : Option Owned) : Async Unit := Prog.modify fun l => { l with owned := entry }

/-- `this.claim`. -/
def claim (instanceId : String) : Async Lua.LeaseView := Prog.call (S := iface) (.actorClaim instanceId)

/-- The publish of a control on the forward channel of an instance: how many subscribers it reached. -/
def forward (instanceId : String) (req : ControlReq) : Async ℕ := Prog.call (S := iface) (.publish instanceId req)

/-- `renewAll`, for one room. -/
def renewAll (instanceId : String) : Async Unit := do
  match (← Prog.get).owned with
  | none => pure ()
  | some _ =>
    let lease ← claim instanceId
    if !lease.mine then setOwned none

def get : Async (Option Timeline) := do
  match (← Prog.get).owned with
  | some entry => pure (some entry.timeline)
  | none => Prog.call (S := iface) .hgetall

/-- `commit`: `null` (fenced out) drops the authority, an answer replaces the cached timeline if there still is one. -/
def commit (instanceId : String) (fence : ℚ) (next : Draft) (cmdId : Option String)
    (forVideoId : Option (Option String)) : Async (Option Answer) := do
  match ← Prog.call (S := iface) (.actorCommit instanceId fence next cmdId forVideoId) with
  | none =>
    setOwned none
    pure none
  | some answer =>
    Prog.modify fun l => { l with owned := l.owned.map fun entry => { entry with timeline := answer.timeline } }
    pure (some answer)

/-- What a control's caller is told of an answered commit. -/
def outcome (answer : Answer) : ApplyOutcome :=
  match answer.marker with
  | some .dup => .duplicate answer.timeline
  | some .fenced => .fenced answer.timeline
  | none => .committed answer.timeline

/-- Read the timeline and become its owner under a lease that was claimed. -/
def adopt (epoch : ℚ) : Async (ApplyOutcome ⊕ Owned) := do
  match ← get with
  | none => pure (.inl .missing)
  | some current =>
    setOwned (some ⟨epoch, current⟩)
    pure (.inr ⟨epoch, current⟩)

/-- The first part of `applyControlSerial`: the entry to commit from, or the outcome of a control that another
instance owns. A forward that reaches nobody takes the lease that was observed away and tries once more. -/
def acquire (instanceId : String) (req : ControlReq) : Async (ApplyOutcome ⊕ Owned) := do
  match (← Prog.get).owned with
  | some entry => pure (.inr entry)
  | none =>
    let lease ← claim instanceId
    if lease.mine then adopt lease.epoch
    else
      let delivered ← forward lease.owner req
      if delivered > 0 then pure (.inl .forwarded)
      else
        let _ ← Prog.call (S := iface) (.actorReclaim lease.owner lease.epoch)
        let retaken ← claim instanceId
        if retaken.mine then adopt retaken.epoch
        else
          let second ← forward retaken.owner req
          pure (.inl (if second > 0 then .forwarded else .missing))

/-- The last part of `applyControlSerial`: a commit was fenced out, so claim again and retry once, or forward. -/
def retry (instanceId : String) (req : ControlReq) (serverNow : ℚ) : Async ApplyOutcome := do
  let nowLease ← claim instanceId
  if nowLease.mine then
    match ← get with
    | none => pure .missing
    | some fresh =>
      setOwned (some ⟨nowLease.epoch, fresh⟩)
      let next := WatchParty.applyControl fresh req.intent req.mediaTime serverNow req.byUser req.videoId
      match ← commit instanceId nowLease.epoch next req.cmdId req.forVideoId with
      | some answer => pure (outcome answer)
      | none => pure .missing
  else
    let delivered ← forward nowLease.owner req
    pure (if delivered > 0 then .forwarded else .missing)

def applyControlSerial (instanceId : String) (req : ControlReq) (serverNow : ℚ) : Async ApplyOutcome := do
  match ← acquire instanceId req with
  | .inl o => pure o
  | .inr entry =>
    let next := WatchParty.applyControl entry.timeline req.intent req.mediaTime serverNow req.byUser req.videoId
    match ← commit instanceId entry.fence next req.cmdId req.forVideoId with
    | some answer => pure (outcome answer)
    | none => retry instanceId req serverNow

def applyControl (instanceId : String) (req : ControlReq) (serverNow : ℚ) : Async ApplyOutcome :=
  Prog.within (S := iface) Lane.queue (applyControlSerial instanceId req serverNow)

/-- The queued part of `applySnapshot`: only the owner of a playing room commits. -/
def applySnapshotSerial (instanceId : String) (serverNow : ℚ) : Async (Option Timeline) := do
  match (← Prog.get).owned with
  | none => pure none
  | some entry =>
    if entry.timeline.isPlaying then
      let r ← commit instanceId entry.fence (snapshot entry.timeline serverNow) none none
      pure (r.map Answer.timeline)
    else pure none

def applySnapshot (instanceId : String) (serverNow : ℚ) : Async (Option Timeline) :=
  Prog.within (S := iface) Lane.queue (applySnapshotSerial instanceId serverNow)

/-- What `init` answers when nothing is stored: a projection of its own arguments. -/
def projected (epoch : ℚ) (videoId : Option String) (mediaTime serverNow : ℚ) : Timeline :=
  { seq := 0, storeEpoch := epoch, videoId := videoId, isPlaying := false, mediaTime := mediaTime,
    stampedAt := serverNow, reason := .join, byUser := none }

/-- The end of `init`: the stored timeline, or the projection. -/
def fallback (epoch : ℚ) (videoId : Option String) (mediaTime serverNow : ℚ) : Async Timeline := do
  match ← get with
  | some tl => pure tl
  | none => pure (projected epoch videoId mediaTime serverNow)

def init (instanceId : String) (videoId : Option String) (mediaTime serverNow : ℚ) : Async Timeline := do
  match ← get with
  | some existing => pure existing
  | none =>
    let lease ← claim instanceId
    if lease.mine then
      match ← Prog.call (S := iface) (.actorInit instanceId lease.epoch videoId mediaTime) with
      | some created =>
        setOwned (some ⟨lease.epoch, created⟩)
        pure created
      | none => fallback lease.epoch videoId mediaTime serverNow
    else
      match ← get with
      | some found => pure found
      | none => fallback lease.epoch videoId mediaTime serverNow

def clear : Async Unit := do
  setOwned none
  Prog.call (S := iface) .del

/-- The store of an instance. -/
def store (instanceId : String) : RoomStateStore iface :=
  { get := get, applyControl := applyControl instanceId, applySnapshot := applySnapshot instanceId,
    init := init instanceId, clear := clear }

/-- Any number of instances that call their stores, for one room; every call has a number. -/
def system : System iface String Redis (ℕ × Call) ℕ Env :=
  { loc := Local.empty, shared := Redis.empty, exec := exec,
    program := fun instanceId r => (store instanceId).run (renewAll instanceId) r.1 r.2, env := Env.apply }

/-- A state, a step and an event of such a run. -/
abbrev State := Cluster iface String Redis (ℕ × Call)
abbrev Action := Label iface String (ℕ × Call) ℕ Env
abbrev Event := Machine.Event State Action (Obs iface String (ℕ × Call))

/-- What an instance shows in an event. -/
def shown (e : Event) : List Emit := e.out.emits

end ActorRoomStateStore
end WatchParty
