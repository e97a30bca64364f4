import WatchParty.Shared.Plane

/-!
# The players of a room

`EnhancedVideoPlayer.tsx` with its `SyncEngine`, on any number of clients of one room. The engine holds the newest
timeline that it was delivered, and its tick hands the component a status. The component renders the status later, the
effects of the render run after that, and a new player reports itself when it is ready. A gesture reads what was
rendered last; the listener of the keyboard reads the render in which it was installed. What `classifyMediaSource` makes
of a URL, what a player answers and what the clock estimator says are inputs.

- `View` is what a render closes over, `Client` the engine and the component;
- `Gesture.command` is the intent and the position of a gesture, `sendIntent` the message;
- `machine` is the room with its clients, over the shared-script plane.
-/

namespace WatchParty
namespace Player

variable {Src : Type}

/-- A mounted player: what it plays, and how often the user has retried. -/
structure Mount (Src : Type) where
  source : Src
  playerEpoch : ℕ
  deriving DecidableEq

/-- The fields of `EngineStatus` that a gesture reads. `player` is a ghost: the player whose duration this is. -/
structure EngineStatus (Src : Type) where
  timeline : Option Timeline
  roomPlaying : Bool
  projectedS : ℚ
  durationS : ℚ
  player : Option (Mount Src)

def EMPTY_STATUS : EngineStatus Src := ⟨none, false, 0, 0, none⟩

/-- What a render closes over. -/
structure View (Src : Type) where
  status : EngineStatus Src
  videoUrl : String
  canControl : Bool
  failure : Bool
  playerEpoch : ℕ
  isReady : Bool

namespace View

/-- The timeline is the authority once there is one. -/
def activeVideoUrl (v : View Src) : String :=
  match v.status.timeline with
  | some tl => textOf tl.videoId
  | none => v.videoUrl

/-- The player that is to be mounted. -/
def mount (classify : String → Option Src) (v : View Src) : Option (Mount Src) :=
  if v.failure then none else (classify v.activeVideoUrl).map fun source => ⟨source, v.playerEpoch⟩

def shownTime (v : View Src) : ℚ :=
  if v.status.roomPlaying then v.status.projectedS else (v.status.timeline.map fun tl => tl.mediaTime).getD 0

end View

/-- A client: the engine's timeline and adapter; the state of the component as it was last set, rendered, and acted on
by the effects; the render that the keyboard listener closes over; the player that is mounted, and the adapter that it
has reported. -/
structure Client (Src : Type) where
  connected : Bool
  timeline : Option Timeline
  adapter : Option (Mount Src)
  next : View Src
  view : View Src
  effected : View Src
  keys : View Src
  mounted : Option (Mount Src)
  adapterRef : Option (Mount Src)

def Client.empty : Client Src :=
  let v : View Src := ⟨EMPTY_STATUS, "", false, false, 0, false⟩
  ⟨true, none, none, v, v, v, v, none, none⟩

/-! ## Gestures -/

inductive ProgressKey
  | arrowLeft
  | arrowRight
  | home
  | endKey

/-- What a user does: to a button, to the progress bar, or on the keyboard. -/
inductive Gesture
  | playButton
  | skipButton (forward : Bool)
  | progressClick (fraction : ℚ)
  | progressKey (key : ProgressKey)
  | playKey
  | skipKey (forward : Bool)

def SKIP_STEP_S : ℚ := 10

def SEEK_STEP_S : ℚ := 5

/-- The render that the handler of a gesture closes over. -/
def Gesture.closure (c : Client Src) : Gesture → View Src
  | .playKey => c.keys
  | .skipKey _ => c.keys
  | _ => c.view

section Handlers

variable (classify : String → Option Src)

/-- `handlePlayPause`: pause freezes at the frame of the player, play starts from the projection. -/
def handlePlayPause (v : View Src) (adapter : Option (Mount Src)) (playerTime : ℚ) : Option (ControlIntent × ℚ) :=
  if ¬v.canControl ∨ adapter.isNone then none
  else if v.status.roomPlaying then some (.pause, playerTime)
  else some (.play, if v.status.timeline.isSome then v.status.projectedS else playerTime)

def handleProgressClick (v : View Src) (fraction : ℚ) : Option (ControlIntent × ℚ) :=
  if ¬v.canControl ∨ v.status.durationS = 0 then none else some (.seek, fraction * v.status.durationS)

def seekBy (v : View Src) (deltaS : ℚ) : Option (ControlIntent × ℚ) :=
  if ¬v.canControl ∨ v.status.durationS = 0 then none
  else some (.seek, max 0 (min v.status.durationS (v.shownTime + deltaS)))

def handleProgressKeyDown (v : View Src) (key : ProgressKey) : Option (ControlIntent × ℚ) :=
  let target :=
    match key with
    | .arrowLeft => v.shownTime - SEEK_STEP_S
    | .arrowRight => v.shownTime + SEEK_STEP_S
    | .home => 0
    | .endKey => v.status.durationS
  if ¬v.canControl ∨ v.status.durationS = 0 then none else some (.seek, max 0 (min v.status.durationS target))

/-- The intent and the position of a gesture. The controls are there when a player is to be mounted, and the buttons are
enabled when it is ready. -/
def Gesture.command (g : Gesture) (c : Client Src) (playerTime : ℚ) : Option (ControlIntent × ℚ) :=
  let v := g.closure c
  match g with
  | .playButton =>
    if (v.mount classify).isSome ∧ v.isReady then handlePlayPause v c.adapterRef playerTime else none
  | .skipButton forward =>
    if (v.mount classify).isSome ∧ v.isReady then seekBy v (if forward then SKIP_STEP_S else -SKIP_STEP_S) else none
  | .progressClick fraction => if (v.mount classify).isSome then handleProgressClick v fraction else none
  | .progressKey key => if (v.mount classify).isSome then handleProgressKeyDown v key else none
  | .playKey => handlePlayPause v c.adapterRef playerTime
  | .skipKey forward => seekBy v (if forward then SKIP_STEP_S else -SKIP_STEP_S)

/-- `sendIntent`: nothing is sent without a connection; the fence is the video of the engine's timeline. -/
def sendIntent (c : Client Src) (userId cmdId : String) (command : ControlIntent × ℚ) : Option ControlReq :=
  if ¬c.connected then none
  else
    some
      { intent := command.1, mediaTime := max 0 command.2, byUser := userId, cmdId := some cmdId, originSocketId := none,
        videoId := none, forVideoId := c.timeline.map fun tl => tl.videoId }

end Handlers

/-! ## What happens to a client -/

/-- What happens to a client besides deliveries and gestures: its engine ticks; the component is given props, is told that
its player has failed, retries, renders, and runs the effects of its render; a player is ready; the connection comes or
goes; the engine is made anew. -/
inductive Happening
  | tick (serverNow durationS : ℚ)
  | props (videoUrl : String) (canControl : Bool)
  | failed
  | retry
  | render
  | effects
  | ready
  | connection (connected : Bool)
  | newEngine

/-- `emitStatus`: the duration is that of the engine's adapter. -/
def emitStatus (c : Client Src) (serverNow durationS : ℚ) : EngineStatus Src :=
  { timeline := c.timeline
    roomPlaying := (c.timeline.map fun tl => tl.isPlaying).getD false
    projectedS := (c.timeline.map fun tl => projectMediaTime tl serverNow).getD 0
    durationS := if c.adapter.isSome then durationS else 0
    player := c.adapter }

/-- The effects of the last render: a player of another source is torn down, and its adapter with it; the keyboard
listener is installed anew where what it depends on has changed; a failure belongs to one source. -/
def effects (classify : String → Option Src) [DecidableEq Src] (c : Client Src) : Client Src :=
  let torn := c.mounted.isSome ∧ c.view.mount classify ≠ c.mounted
  { c with
    mounted := c.view.mount classify
    adapterRef := if torn then none else c.adapterRef
    next :=
      { c.next with
        isReady := if torn then false else c.next.isReady
        failure := if c.view.activeVideoUrl = c.effected.activeVideoUrl then c.next.failure else false }
    keys :=
      if c.view.status.roomPlaying = c.effected.status.roomPlaying ∧ c.view.canControl = c.effected.canControl ∧
          c.view.isReady = c.effected.isReady then c.keys
      else c.view
    effected := c.view }

def Client.after (classify : String → Option Src) [DecidableEq Src] (c : Client Src) : Happening → Client Src
  | .tick serverNow durationS => { c with next := { c.next with status := emitStatus c serverNow durationS } }
  | .props videoUrl canControl => { c with next := { c.next with videoUrl, canControl } }
  | .failed => { c with next := { c.next with failure := true } }
  | .retry => { c with next := { c.next with failure := false, playerEpoch := c.next.playerEpoch + 1 } }
  | .render => { c with view := c.next }
  | .effects => effects classify c
  | .ready =>
    match c.mounted with
    | none => c
    | some m => { c with adapterRef := some m, adapter := some m, next := { c.next with isReady := true } }
  | .connection connected => { c with connected }
  | .newEngine => { c with timeline := none, adapter := c.adapterRef }

/-! ## The room -/

/-- A command that a client has sent, with the render that its position was computed from and the player of that
moment. -/
structure Sent (Src : Type) where
  req : ControlReq
  view : View Src
  player : Option (Mount Src)

/-- The room, the timelines that its store has answered, the commands that the clients have sent, and the clients. -/
structure Party (C Src : Type) where
  room : Room
  answered : List Timeline
  sent : List (Sent Src)
  client : C → Client Src

/-- One step: an operation of the store for anyone else; a command of a client, first or again, reaches the store; a
client is delivered a timeline that the store has answered; something else happens to a client; or its user makes a
gesture. -/
inductive Action (C : Type)
  | store (op : Plane.Op)
  | apply (n trim : ℕ)
  | receive (c : C) (n : ℕ)
  | client (c : C) (h : Happening)
  | gesture (c : C) (g : Gesture) (cmdId : String) (playerTime : ℚ)

section Machine

variable {C : Type} [DecidableEq C] [DecidableEq Src] (classify : String → Option Src) (user : C → String)

/-- The command that a gesture sends. -/
def sends (s : Party C Src) (c : C) (g : Gesture) (cmdId : String) (playerTime : ℚ) : Option (Sent Src) :=
  (g.command classify (s.client c) playerTime).bind fun command =>
    (sendIntent (s.client c) (user c) cmdId command).map fun req =>
      { req, view := g.closure (s.client c), player := (s.client c).adapterRef }

/-- An operation of the store. -/
def operate (s : Party C Src) (op : Plane.Op) : Party C Src × Option Plane.Out :=
  let r := Plane.step s.room op
  ({ s with room := r.1, answered := s.answered ++ r.2.carried.toList }, some r.2)

def Party.set (s : Party C Src) (c : C) (x : Client Src) : Party C Src :=
  { s with client := Function.update s.client c x }

def step (s : Party C Src) : Action C → Party C Src × Option Plane.Out
  | .store op => operate s op
  | .apply n trim =>
    match s.sent[n]? with
    | none => (s, none)
    | some k => operate s (.applyControl k.req trim)
  | .receive c n =>
    match s.answered[n]? with
    | none => (s, none)
    | some tl => (s.set c { s.client c with timeline := onTimeline (s.client c).timeline tl }, none)
  | .client c h => (s.set c ((s.client c).after classify h), none)
  | .gesture c g cmdId playerTime =>
    ({ s with sent := s.sent ++ (sends classify user s c g cmdId playerTime).toList }, none)

/-- The room with its clients. -/
def machine : Machine (Party C Src) (Action C) (Option Plane.Out) :=
  ⟨⟨Room.empty, [], [], fun _ => .empty⟩, step classify user⟩

abbrev Event (C Src : Type) := Machine.Event (Party C Src) (Action C) (Option Plane.Out)

end Machine

end Player
end WatchParty
