import WatchParty.Relay.Identity
import WatchParty.Relay.Registry
import WatchParty.Relay.Snapshot
import WatchParty.Relay.Wire

/-!
# The loops of the relays

`handle`, the snapshot sweep and the revocation of `relay-go/main.go`, and `handle`, `snapshot_sweep`,
`evict_revoked` and the sweep of `revocation_loop` of `relay-rs/src/main.rs`: what a relay does with what comes to it from
its clients, from Redis and from its timers. A handler waits for the script that it called, and other handlers go on
meanwhile. What a relay does to the outside is its calls of the scripts and the frames that its writers write.

A connection whose transport fails is one that is `closed`. Which of two clocks is read is not told apart: a message comes
with the readings that its handler takes.

- `Input`: what comes to a relay;
- `Go.relay`, `Rust.relay`: the two relays as machines over it.
-/

namespace WatchParty
namespace Relay

/-- The scripts that both relays load. -/
inductive Script
  | applyControl | initRoom | applySnapshot
  deriving DecidableEq, Repr

/-- An argument of a script: a text, the decimal of an integer, or the shortest decimal of a double. -/
inductive Arg (S : Type)
  | text (s : S)
  | integer (n : ℤ)
  | decimal (x : Float)

structure Invocation (S : Type) where
  script : Script
  keys : List S
  args : List (Arg S)

def Arg.map {S T : Type} (f : S → T) : Arg S → Arg T
  | .text s => .text (f s)
  | .integer n => .integer n
  | .decimal x => .decimal x

def Invocation.map {S T : Type} (f : S → T) (i : Invocation S) : Invocation T :=
  ⟨i.script, i.keys.map f, i.args.map (Arg.map f)⟩

/-- A timeline of a script: its epoch is the decimal of an integer. -/
structure ScriptTimeline extends LuaTimeline where
  canonical : ∃ z : ℤ, storeEpoch = toString z

/-- What a call is answered with: an error or nothing, a text that is no timeline, or a timeline. -/
inductive Reply
  | error
  | unreadable
  | timeline (tl : ScriptTimeline) (dup : Bool)

/-- The name of an intent, as the scripts are told it. -/
def intentName : ControlIntent → String
  | .play => "play"
  | .pause => "pause"
  | .seek => "seek"
  | .setVideo => "set-video"

/-- What comes to a relay. A connection is its number in the order of the connections. -/
inductive Input
  /-- a token with this identity, and the mirror in Redis -/
  | accept (id : Identity) (named : id.sub ≠ "") (mirror : Mirror)
  /-- a binary message, and the readings of the clock: in seconds for the token, and for a pong -/
  | receive (c : ℕ) (data : List UInt8) (now : ℤ) (t₁ t₂ : Float)
  | reply (c : ℕ) (reply : Reply)
  /-- the writer of a connection takes the next message -/
  | written (c : ℕ)
  /-- the reader of a connection returns -/
  | closed (c : ℕ)
  | revocation (ev : RevocationEvent) (named : ev ≠ .token (some ""))
  /-- the sweep of the tokens -/
  | expire (now : ℤ) (mirror : Mirror)
  /-- a step of the refresh of the snapshot -/
  | refresh (mirror : Mirror) (ok : Bool)
  /-- the sweep of the rooms begins, visits a room, and has its answer -/
  | tick
  | visit (room : String)
  | swept (reply : Reply)

/-- What a relay does to the outside. -/
inductive Output (S : Type)
  | silent
  | call (i : Invocation S)
  | wire (c : ℕ) (frame : List UInt8)

def Output.map {S T : Type} (f : S → T) : Output S → Output T
  | .silent => .silent
  | .call i => .call (i.map f)
  | .wire c frame => .wire c frame

/-- A sweep of the rooms: those that it has yet to visit, in any order, and the one that it visits. -/
structure Sweep (S : Type) where
  left : Finset S
  visiting : Option S

/-! ## The go relay -/

namespace Go

/-- What `identityFromClaims` makes of the claims: the empty string stands for no jti. -/
def identity (id : Identity) : GoIdentity := ⟨id.sub, id.jti.getD "", id.ver, id.exp⟩

/-- `revoked`, by the mirror. -/
def revoked (m : Mirror) (id : GoIdentity) : Bool :=
  (decide (id.jti ≠ "") && decide (id.jti ∈ m.jti)) ||
  match m.version id.sub with
  | some v => decide (id.ver < v)
  | none => false

/-- `selectRevoked`. -/
def selectRevoked (ev : RevocationEvent) (id : GoIdentity) : Bool :=
  match ev with
  | .token jti => decide (jti.getD "" ≠ "") && decide (id.jti = jti.getD "")
  | .user userId version =>
    decide (userId.getD "" ≠ "") && decide (version.getD 0 > 0) && decide (id.sub = userId.getD "") &&
      decide (id.ver < version.getD 0)
  | .other => false

/-- A connection: the frames of `send`, and the frame whose script its handler waits for. -/
structure Client where
  id : GoIdentity
  send : List (List UInt8)
  waiting : Option (ClientFrame (List UInt8))
  evicted : Bool

structure Server where
  registry : Rooms ℕ
  conns : ℕ → Option Client
  next : ℕ
  sweep : Sweep (List UInt8)

/-- A frame is put into the buffer, if that is not full. -/
def Client.offer (frame : List UInt8) (p : Client) : Client × Bool :=
  if p.send.length < 256 then ({ p with send := p.send ++ [frame] }, true) else (p, false)

namespace Server

def trySend (c : ℕ) (frame : List UInt8) (s : Server) : Server × Bool :=
  match s.conns c with
  | some p => ({ s with conns := Function.update s.conns c (some (p.offer frame).1) }, (p.offer frame).2)
  | none => (s, false)

def broadcast (room frame : List UInt8) (s : Server) : Server :=
  (Go.broadcast room s.registry).foldl (fun s c => (s.trySend c frame).1) s

/-- What the handler defers. -/
def teardown (c : ℕ) (s : Server) : Server :=
  { s with registry := leave c s.registry, conns := Function.update s.conns c none }

/-- The handler of a connection goes on, or is over. -/
def proceed (c : ℕ) (r : Server × Bool) : Server := if r.2 = true then r.1 else r.1.teardown c

end Server

def key (room : List UInt8) (suffix : String) : List UInt8 := Bytes.utf8 "room:" ++ room ++ Bytes.utf8 suffix

def cmdDedupTTLMS : ℤ := 15 * 60 * 1000

def sweepDedupPeriodMS : ℤ := 10000

def invocation : ClientFrame (List UInt8) → Invocation (List UInt8)
  | .join room => ⟨.initRoom, [key room ":tl", key room ":log"], [.text (Bytes.utf8 ""), .text (Bytes.utf8 "0")]⟩
  | .control intent mediaTime room cmdId =>
    ⟨.applyControl, [key room ":tl", key room ":cmd:" ++ cmdId, key room ":log"],
      [.text (Bytes.utf8 (intentName intent)), .decimal mediaTime, .text (Bytes.utf8 "relay"), .text cmdId,
        .integer cmdDedupTTLMS]⟩

def sweepInvocation (room : List UInt8) : Invocation (List UInt8) :=
  ⟨.applySnapshot, [key room ":tl", key room ":log"], [.integer sweepDedupPeriodMS]⟩

def pong (data : List UInt8) (t₁ t₂ : Float) : List UInt8 :=
  let pong := List.replicate 25 0
  let pong := Bytes.put pong 0 [0x02]
  let pong := Bytes.put pong 1 (Bytes.slice data 1 8)
  let pong := Bytes.put pong 9 (Bytes.le 8 t₁.toBits.toNat)
  Bytes.put pong 17 (Bytes.le 8 t₂.toBits.toNat)

variable (lang : Numerals)

def frameOf (msgType : UInt8) (tl : ScriptTimeline) : List UInt8 := encodeTimeline msgType (toWire lang tl.toLuaTimeline)

namespace Server

/-- The read loop has a message. A connection that was evicted reads no more. -/
def receive (c : ℕ) (data : List UInt8) (t₁ t₂ : Float) (s : Server) : Server × Output (List UInt8) :=
  match s.conns c with
  | none => (s, .silent)
  | some p =>
    if p.evicted = true ∨ p.waiting.isSome = true then (s, .silent)
    else if data.length < 1 then (s, .silent)
    else if byteAt data 0 = 0x01 then
      if data.length < 9 then (s, .silent) else (proceed c (s.trySend c (pong data t₁ t₂)), .silent)
    else
      match Go.handle data with
      | none => (s, .silent)
      | some frame =>
        ({ s with
            registry := match frame with
              | .join room => joinRoom c room s.registry
              | .control .. => s.registry
            conns := Function.update s.conns c (some { p with waiting := some frame }) },
          .call (invocation frame))

/-- The handler has the answer of its script; whether it goes on. -/
def handled (c : ℕ) (frame : ClientFrame (List UInt8)) (reply : Reply) (s : Server) : Server × Bool :=
  match frame, reply with
  | .join _, .timeline tl _ => s.trySend c (frameOf lang 0x06 tl)
  | .join _, _ => (s, true)
  | .control .., .error => s.trySend c [0x07, 0]
  | .control .., .unreadable => (s, true)
  | .control _ _ room _, .timeline tl dup =>
    if dup = true then s.trySend c (frameOf lang 0x04 tl) else (s.broadcast room (frameOf lang 0x04 tl), true)

def reply (c : ℕ) (reply : Reply) (s : Server) : Server :=
  match s.conns c with
  | none => s
  | some p =>
    match p.waiting with
    | none => s
    | some frame =>
      let r := handled lang c frame reply
        { s with conns := Function.update s.conns c (some { p with waiting := none }) }
      proceed c (r.1, r.2 && !p.evicted)

/-- The websocket of a connection that was evicted is closed: what its writer takes is lost. -/
def written (c : ℕ) (s : Server) : Server × Output (List UInt8) :=
  match s.conns c with
  | none => (s, .silent)
  | some p =>
    if p.evicted = true then (s, .silent)
    else
      match p.send with
      | [] => (s, .silent)
      | frame :: send => ({ s with conns := Function.update s.conns c (some { p with send }) }, .wire c frame)

def evict (victim : GoIdentity → Bool) (s : Server) : Server :=
  { s with conns := fun c => (s.conns c).map fun p => if victim p.id = true then { p with evicted := true } else p }

end Server

def step (s : Server) : Input → Server × Output (List UInt8)
  | .accept id _ m =>
    if revoked m (identity id) = true then (s, .silent)
    else ({ s with conns := Function.update s.conns s.next (some ⟨identity id, [], none, false⟩), next := s.next + 1 }, .silent)
  | .receive c data _ t₁ t₂ => s.receive c data t₁ t₂
  | .reply c reply => (s.reply lang c reply, .silent)
  | .written c => s.written c
  | .closed c =>
    match s.conns c with
    | some p => if p.waiting.isSome = true then (s, .silent) else (s.teardown c, .silent)
    | none => (s, .silent)
  | .revocation ev _ => (s.evict (selectRevoked ev), .silent)
  | .expire now m => (s.evict fun id => decide (id.exp ≤ now) || revoked m id, .silent)
  | .refresh _ _ => (s, .silent)
  | .tick =>
    if s.sweep.left = ∅ ∧ s.sweep.visiting = none then
      ({ s with sweep := ⟨s.registry.rooms.keys.toFinset, none⟩ }, .silent)
    else (s, .silent)
  | .visit room =>
    if Bytes.utf8 room ∈ s.sweep.left ∧ s.sweep.visiting = none then
      ({ s with sweep := ⟨s.sweep.left.erase (Bytes.utf8 room), some (Bytes.utf8 room)⟩ },
        .call (sweepInvocation (Bytes.utf8 room)))
    else (s, .silent)
  | .swept reply =>
    match s.sweep.visiting, reply with
    | some room, .timeline tl _ =>
      let s := { s with sweep := { s.sweep with visiting := none } }
      (if tl.isPlaying = true then s.broadcast room (frameOf lang 0x04 tl) else s, .silent)
    | some _, _ => ({ s with sweep := { s.sweep with visiting := none } }, .silent)
    | none, _ => (s, .silent)

def relay : Machine Server Input (Output (List UInt8)) :=
  ⟨⟨⟨.empty, fun _ => []⟩, fun _ => none, 0, ⟨∅, none⟩⟩, step lang⟩

end Go

/-! ## The rust relay -/

namespace Rust

/-- A message in a channel. -/
inductive Message
  | binary (frame : List UInt8)
  | close
  deriving DecidableEq

/-- A connection: the messages of its channel, whether its writer still takes them, and the frame whose script its handler
waits for. -/
structure Client where
  identity : Identity
  queue : List Message
  writing : Bool
  waiting : Option (ClientFrame String)
  evicted : Bool

structure Server where
  registry : Rooms
  conns : ℕ → Option Client
  next : ℕ
  sweep : Sweep String
  snapshot : Snapshot

def SEND_BUFFER : ℕ := 256

/-- A message is put into the channel, if that is neither full nor without its receiver. -/
def Client.offer (msg : Message) (q : Client) : Client × Bool :=
  if q.writing = true ∧ q.queue.length < SEND_BUFFER then ({ q with queue := q.queue ++ [msg] }, true) else (q, false)

/-- `evict`: the goodbye, and the signal for the read loop. -/
def Client.evict (q : Client) : Client := { (q.offer .close).1 with evicted := true }

/-- The connections that an event names. -/
def hit (ev : RevocationEvent) (id : Identity) : Bool :=
  match ev with
  | .token jti =>
    match jti, id.jti with
    | some a, some b => decide (a = b)
    | _, _ => false
  | .user user_id version =>
    decide (version.getD 0 > 0) && decide (user_id = some id.sub) && decide (id.ver < version.getD 0)
  | .other => false

namespace Server

def try_send (c : ℕ) (frame : List UInt8) (s : Server) : Server × Bool :=
  match s.conns c with
  | some q =>
    ({ s with conns := Function.update s.conns c (some (q.offer (.binary frame)).1) }, (q.offer (.binary frame)).2)
  | none => (s, false)

def broadcast (room : String) (frame : List UInt8) (s : Server) : Server :=
  (Rust.broadcast room s.registry).foldl (fun s c => (s.try_send c.id frame).1) s

def teardown (c : ℕ) (s : Server) : Server :=
  { s with registry := leave ⟨c⟩ s.registry, conns := Function.update s.conns c none }

/-- The read loop of a connection goes on, or breaks. -/
def proceed (c : ℕ) (r : Server × Bool) : Server := if r.2 = true then r.1 else r.1.teardown c

end Server

def key (room suffix : String) : String := "room:" ++ room ++ suffix

def CMD_DEDUP_TTL_MS : ℤ := 15 * 60 * 1000

def SWEEP_DEDUP_PERIOD_MS : ℤ := 10000

def invocation : ClientFrame String → Invocation String
  | .join room => ⟨.initRoom, [key room ":tl", key room ":log"], [.text "", .text "0"]⟩
  | .control intent media_time room cmd_id =>
    ⟨.applyControl, [key room ":tl", key room ":cmd:" ++ cmd_id, key room ":log"],
      [.text (intentName intent), .decimal media_time, .text "relay", .text cmd_id, .integer CMD_DEDUP_TTL_MS]⟩

def sweepInvocation (room : String) : Invocation String :=
  ⟨.applySnapshot, [key room ":tl", key room ":log"], [.integer SWEEP_DEDUP_PERIOD_MS]⟩

def pong (data : List UInt8) (t₁ t₂ : Float) : List UInt8 :=
  let pong := List.replicate 25 0
  let pong := Bytes.put pong 0 [0x02]
  let pong := Bytes.put pong 1 (Bytes.slice data 1 8)
  let pong := Bytes.put pong 9 (Bytes.le 8 t₁.toBits.toNat)
  Bytes.put pong 17 (Bytes.le 8 t₂.toBits.toNat)

variable (lang : Numerals)

namespace Server

/-- The read loop has a message. The gate comes before it is looked into: a token that has expired or was revoked since it
was accepted ends the loop. -/
def receive (c : ℕ) (data : List UInt8) (now : ℤ) (t₁ t₂ : Float) (s : Server) : Server × Output String :=
  match s.conns c with
  | none => (s, .silent)
  | some q =>
    if q.evicted = true ∨ q.waiting.isSome = true then (s, .silent)
    else if data.isEmpty = true then (s, .silent)
    else if q.identity.exp ≤ now ∨ s.snapshot.revoked q.identity = true then (s.teardown c, .silent)
    else if byteAt data 0 = 0x01 then
      if data.length < 9 then (s, .silent) else (proceed c (s.try_send c (pong data t₁ t₂)), .silent)
    else
      match Rust.handle data with
      | none => (s, .silent)
      | some frame =>
        ({ s with
            registry := match frame with
              | .join room => join_room ⟨c⟩ room s.registry
              | .control .. => s.registry
            conns := Function.update s.conns c (some { q with waiting := some frame }) },
          .call (invocation frame))

/-- The handler has the answer of its script; whether the loop goes on. -/
def handled (c : ℕ) (frame : ClientFrame String) (reply : Reply) (s : Server) : Server × Bool :=
  match frame, reply with
  | .join _, .timeline tl _ => s.try_send c (encode_timeline lang 0x06 tl.toLuaTimeline)
  | .join _, _ => (s, true)
  | .control .., .error => s.try_send c [0x07, 0]
  | .control .., .unreadable => (s, true)
  | .control _ _ room _, .timeline tl dup =>
    if dup = true then s.try_send c (encode_timeline lang 0x04 tl.toLuaTimeline)
    else (s.broadcast room (encode_timeline lang 0x04 tl.toLuaTimeline), true)

/-- The signal of an eviction is looked at before the next message. -/
def reply (c : ℕ) (reply : Reply) (s : Server) : Server :=
  match s.conns c with
  | none => s
  | some q =>
    match q.waiting with
    | none => s
    | some frame =>
      let r := handled lang c frame reply
        { s with conns := Function.update s.conns c (some { q with waiting := none }) }
      proceed c (r.1, r.2 && !q.evicted)

/-- The writer stops when it has written a goodbye. -/
def written (c : ℕ) (s : Server) : Server × Output String :=
  match s.conns c with
  | none => (s, .silent)
  | some q =>
    if q.writing = false then (s, .silent)
    else
      match q.queue with
      | [] => (s, .silent)
      | .binary frame :: queue => ({ s with conns := Function.update s.conns c (some { q with queue }) }, .wire c frame)
      | .close :: queue =>
        ({ s with conns := Function.update s.conns c (some { q with queue, writing := false }) }, .silent)

def evict (victim : Identity → Bool) (s : Server) : Server :=
  { s with conns := fun c => (s.conns c).map fun q => if victim q.identity = true then q.evict else q }

end Server

def step (s : Server) : Input → Server × Output String
  | .accept id _ _ =>
    if s.snapshot.revoked id = true then (s, .silent)
    else
      ({ s with conns := Function.update s.conns s.next (some ⟨id, [], true, none, false⟩), next := s.next + 1 }, .silent)
  | .receive c data now t₁ t₂ => s.receive c data now t₁ t₂
  | .reply c reply => (s.reply lang c reply, .silent)
  | .written c => s.written c
  | .closed c =>
    match s.conns c with
    | some q => if q.waiting.isSome = true then (s, .silent) else (s.teardown c, .silent)
    | none => (s, .silent)
  | .revocation ev _ => ({ s.evict (hit ev) with snapshot := apply_revocation_message ev s.snapshot }, .silent)
  | .expire now _ => (s.evict fun id => decide (id.exp ≤ now) || s.snapshot.revoked id, .silent)
  | .refresh m ok => ({ s with snapshot := s.snapshot.refresh_snapshot m ok }, .silent)
  | .tick =>
    if s.sweep.left = ∅ ∧ s.sweep.visiting = none then
      ({ s with sweep := ⟨s.registry.rooms.keys.toFinset, none⟩ }, .silent)
    else (s, .silent)
  | .visit room =>
    if room ∈ s.sweep.left ∧ s.sweep.visiting = none then
      ({ s with sweep := ⟨s.sweep.left.erase room, some room⟩ }, .call (sweepInvocation room))
    else (s, .silent)
  | .swept reply =>
    match s.sweep.visiting, reply with
    | some room, .timeline tl _ =>
      let s := { s with sweep := { s.sweep with visiting := none } }
      (if tl.isPlaying = true then s.broadcast room (encode_timeline lang 0x04 tl.toLuaTimeline) else s, .silent)
    | some _, _ => ({ s with sweep := { s.sweep with visiting := none } }, .silent)
    | none, _ => (s, .silent)

def relay : Machine Server Input (Output String) :=
  ⟨⟨⟨.empty, fun _ => none⟩, fun _ => none, 0, ⟨∅, none⟩, Snapshot.empty⟩, step lang⟩

end Rust

end Relay
end WatchParty
