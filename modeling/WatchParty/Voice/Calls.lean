import WatchParty.Lib.OrderedMap
import WatchParty.Lib.Tasks

/-!
# The voice calls of an instance

`voice.gateway.ts` and `voice-roster.service.ts`. A handler changes the maps before it awaits the socket's join or leave
of the voice channel, and tells the others after it. Identities come from the verified tokens of the sockets; a socket
has an id of its own for each connection.

- `VoiceRoster` is the roster service; `VoiceGateway` the maps of the gateway, with the roster;
- `start` and `resume` are the stretches of the handlers, `calls` the system.
-/

namespace WatchParty
namespace Voice

structure VoiceMember where
  userId : String
  username : String
  deriving DecidableEq

structure VoiceUser extends VoiceMember where
  socketId : String
  roomCode : String
  isMuted : Bool
  isDeafened : Bool
  deriving DecidableEq

/-- Who is on the voice call, per room. -/
structure VoiceRoster where
  byRoom : OrderedMap String (OrderedMap String VoiceMember)

namespace VoiceRoster

def join (roomCode socketId : String) (member : VoiceMember) (r : VoiceRoster) : VoiceRoster :=
  { byRoom := r.byRoom.setIn roomCode socketId member }

/-- The socket leaves the first room that has it. -/
def leave (socketId : String) (r : VoiceRoster) : Option String × VoiceRoster :=
  match r.byRoom.entries.find? fun e => e.2.has socketId with
  | none => (none, r)
  | some (roomCode, _) => (some roomCode, { byRoom := r.byRoom.deleteIn roomCode socketId })

/-- The members of a room, each user once. -/
def list (roomCode : String) (r : VoiceRoster) : List VoiceMember :=
  match r.byRoom.get roomCode with
  | none => []
  | some room => (OrderedMap.byKey VoiceMember.userId room.values).values

end VoiceRoster

/-- The maps of the gateway, and the roster. -/
structure VoiceGateway where
  voiceUsers : OrderedMap String VoiceUser
  roomVoiceUsers : OrderedMap String (OrderedMap String Unit)
  roster : VoiceRoster

namespace VoiceGateway

def empty : VoiceGateway := ⟨.empty, .empty, ⟨.empty⟩⟩

/-- The sockets of a room, in the order in which they joined. -/
def sockets (roomCode : String) (c : VoiceGateway) : List String := ((c.roomVoiceUsers.get roomCode).getD .empty).keys

/-- The room that the socket has joined, by the gateway's own map. -/
def joinedRoom (id : String) (c : VoiceGateway) : Option String := (c.voiceUsers.get id).map VoiceUser.roomCode

end VoiceGateway

/-- What arrives: a message of a socket, or its disconnect. -/
inductive Request
  | join (id roomCode : String)
  | leave (id : String)
  | disconnect (id : String)
  | muteToggle (id : String) (isMuted : Bool)
  | deafenToggle (id : String) (isDeafened : Bool)
  | speaking (id : String) (isSpeaking : Bool)
  deriving DecidableEq

/-- What is sent: to one socket, to a voice channel, or through the main gateway to everyone in the room. -/
inductive Emit
  | usersList (recipient : String) (users : List VoiceUser)
  | roster (roomCode : String) (users : List VoiceMember)
  | userJoined (roomCode : String) (member : VoiceMember) (socketId : String)
  | userLeft (roomCode userId socketId : String)
  | muteStatus (roomCode userId socketId : String) (isMuted : Bool)
  | deafenStatus (roomCode userId socketId : String) (isDeafened isMuted : Bool)
  | speakingStatus (roomCode userId socketId : String) (isSpeaking : Bool)
  | error (recipient message : String)
  deriving DecidableEq

/-- Where a handler awaits: the socket joins or leaves the voice channel of the room. -/
inductive Point
  | join (id roomCode : String)
  | leave (id roomCode : String)

/-- Has the socket joined, or left? Otherwise the call has thrown. -/
abbrev Reply (_ : Point) : Type := Bool

abbrev Stretch := Turn VoiceGateway Emit Point Empty

def ends (c : VoiceGateway) (sent : List Emit) : Stretch := ⟨c, sent, .done⟩

def awaits (c : VoiceGateway) (p : Point) : Stretch := ⟨c, [], .await p⟩

section Handlers

variable (identity : String → VoiceMember)

/-- Everyone in the room is told who is on the call. -/
def broadcastVoiceRoster (roomCode : String) (c : VoiceGateway) : Emit :=
  .roster roomCode ((c.sockets roomCode).filterMap fun id => (c.voiceUsers.get id).map VoiceUser.toVoiceMember)

def handleJoinVoiceChat (id roomCode : String) (c : VoiceGateway) : Stretch :=
  let voiceUser : VoiceUser :=
    { toVoiceMember := identity id, socketId := id, roomCode, isMuted := false, isDeafened := false }
  awaits
    { voiceUsers := c.voiceUsers.set id voiceUser
      roomVoiceUsers := c.roomVoiceUsers.setIn roomCode id ()
      roster := c.roster.join roomCode id (identity id) }
    (.join id roomCode)

/-- A handler that acts in the room that the socket has joined; an empty code counts as none. -/
def inRoom (id : String) (c : VoiceGateway) (act : String → Stretch) : Stretch :=
  match c.joinedRoom id with
  | none => ends c []
  | some room => if room = "" then ends c [] else act room

def handleLeaveVoice (id : String) (c : VoiceGateway) : Stretch :=
  inRoom id c fun room =>
    awaits
      { voiceUsers := c.voiceUsers.delete id
        roomVoiceUsers := c.roomVoiceUsers.deleteIn room id
        roster := (c.roster.leave id).2 }
      (.leave id room)

def handleDisconnect (id : String) (c : VoiceGateway) : Stretch :=
  match c.voiceUsers.get id with
  | none => ends c []
  | some _ => handleLeaveVoice id c

def handleMuteToggle (id : String) (isMuted : Bool) (c : VoiceGateway) : Stretch :=
  inRoom id c fun room =>
    let voiceUsers :=
      match c.voiceUsers.get id with
      | none => c.voiceUsers
      | some user => c.voiceUsers.set id { user with isMuted }
    ends { c with voiceUsers } [.muteStatus room (identity id).userId id isMuted]

def handleDeafenToggle (id : String) (isDeafened : Bool) (c : VoiceGateway) : Stretch :=
  inRoom id c fun room =>
    match c.voiceUsers.get id with
    | none => ends c [.deafenStatus room (identity id).userId id isDeafened false]
    | some user =>
      let isMuted := isDeafened || user.isMuted
      ends { c with voiceUsers := c.voiceUsers.set id { user with isDeafened, isMuted } }
        [.deafenStatus room (identity id).userId id isDeafened isMuted]

def handleSpeaking (id : String) (isSpeaking : Bool) (c : VoiceGateway) : Stretch :=
  inRoom id c fun room => ends c [.speakingStatus room (identity id).userId id isSpeaking]

/-- The first stretch of each handler. -/
def start (r : Request) (c : VoiceGateway) : Stretch :=
  match r with
  | .join id roomCode => handleJoinVoiceChat identity id roomCode c
  | .leave id => handleLeaveVoice id c
  | .disconnect id => handleDisconnect id c
  | .muteToggle id isMuted => handleMuteToggle identity id isMuted c
  | .deafenToggle id isDeafened => handleDeafenToggle identity id isDeafened c
  | .speaking id isSpeaking => handleSpeaking identity id isSpeaking c

/-- The stretch that follows the await. -/
def resume (p : Point) (ok : Bool) (c : VoiceGateway) : Stretch :=
  match p with
  | .join id roomCode =>
    if ok then
      let existingUsers := ((c.sockets roomCode).filter fun other => ¬other = id).filterMap c.voiceUsers.get
      ends c [.usersList id existingUsers, broadcastVoiceRoster roomCode c, .userJoined roomCode (identity id) id]
    else ends c [.error id "Failed to join voice chat"]
  | .leave id room =>
    if ok then ends c [broadcastVoiceRoster room c, .userLeft room (identity id).userId id] else ends c []

/-- The system: each instance has maps of its own, and nothing is shared. -/
def calls : Tasks VoiceGateway Emit Point Empty Request Unit Bool Empty Reply where
  loc := .empty
  shared := ()
  start := start identity
  resume := resume identity
  enter q := nomatch q
  exec _ ok _ := (ok, ())
  inside _ := false
  env e := nomatch e

end Handlers

abbrev State (I : Type) := Office I Unit VoiceGateway Empty Reply
abbrev Action (I : Type) := Move I Request Bool Empty
abbrev Output (I : Type) := Shown I Emit
abbrev Event (I : Type) := Machine.Event (State I) (Action I) (Output I)

/-- Its runs. -/
abbrev machine (I : Type) [DecidableEq I] (identity : String → VoiceMember) :
    Machine (State I) (Action I) (Output I) :=
  (calls identity).machine

abbrev Step {I : Type} [DecidableEq I] (identity : String → VoiceMember) (s : State I) (a : Action I) (o : Output I)
    (s' : State I) : Prop :=
  Tasks.Step (calls identity) s a o s'

end Voice
end WatchParty
