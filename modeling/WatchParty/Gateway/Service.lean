import WatchParty.Shared.Plane
import WatchParty.Sync.Instance

/-!
# The timeline service

The parts of `sync/timeline.service.ts` that run without an `await`: who may control a room, the token bucket of a
socket, succession and reclaim, and what a control's caller is told of an outcome. The maps are those of `Local`.
-/

namespace WatchParty

/-- The row of a room, as far as the sync code reads it. -/
structure RoomRow where
  creatorId : String
  allowGuestControl : Bool
  videoUrl : Option String
  currentTime : ℚ
  isPlaying : Bool
  isActive : Bool
  maxUsers : Option ℕ
  deriving DecidableEq, Repr

/-- Why a `room:controller` event is sent. -/
inductive ControllerReason
  | succession | reclaim
  deriving DecidableEq, Repr

/-- The result of `handleControl`. -/
inductive ControlResult
  | committed (timeline : Timeline)
  | duplicate (timeline : Timeline)
  | fenced (timeline : Timeline)
  | forwarded
  | refused (reason : Rejection)
  deriving DecidableEq, Repr

namespace TimelineService

def BUCKET_CAPACITY : ℚ := 10
def BUCKET_REFILL_PER_S : ℚ := 5

def allowedToControl (m : RoomMeta) (userId : String) : Bool :=
  m.allowGuestControl || decide (userId = m.creatorId) || decide (m.activeController = some userId)

/-- The bucket of a socket at `now`. -/
def refilled (bucket : Option TokenBucket) (now : ℚ) : TokenBucket :=
  let bucket := bucket.getD ⟨BUCKET_CAPACITY, now⟩
  ⟨min BUCKET_CAPACITY (bucket.tokens + ((now - bucket.lastRefill) / 1000) * BUCKET_REFILL_PER_S), now⟩

def takeToken (socketId : String) (now : ℚ) (l : Local) : Bool × Local :=
  let bucket := refilled (l.buckets socketId) now
  if bucket.tokens < 1 then (false, { l with buckets := Function.update l.buckets socketId (some bucket) })
  else
    (true, { l with buckets := Function.update l.buckets socketId (some { bucket with tokens := bucket.tokens - 1 }) })

/-- `handleControl` up to the store: the refusal, or `none` when the control is admitted. -/
def admission (socketId userId : String) (now : ℚ) (l : Local) : Option Rejection × Local :=
  match l.roomMeta with
  | none => (some .roomNotFound, l)
  | some m =>
    if allowedToControl m userId then
      let r := takeToken socketId now l
      (if r.1 then none else some .rateLimited, r.2)
    else (some .notController, l)

/-- The end of `handleControl`. -/
def controlResult : ApplyOutcome → ControlResult
  | .missing => .refused .roomNotFound
  | .forwarded => .forwarded
  | .duplicate tl => .duplicate tl
  | .fenced tl => .fenced tl
  | .committed tl => .committed tl

/-- `schedulePersist`: the timer of the debounced flush is running. -/
def schedulePersist (l : Local) : Local := { l with persistTimer := true }

/-- The first part of `ensureRoomInner`: the room's settings are copied on first touch. -/
def ensureMeta (room : RoomRow) (l : Local) : Local :=
  match l.roomMeta with
  | some _ => l
  | none =>
    { l with roomMeta := some { creatorId := room.creatorId, allowGuestControl := room.allowGuestControl,
                                videoId := room.videoUrl, activeController := none } }

def succession (departedUserId : String) (candidateUserId : Option String) (l : Local) : Option String × Local :=
  match l.roomMeta, candidateUserId with
  | some m, some candidate =>
    if m.allowGuestControl then (none, l)
    else if departedUserId = m.creatorId ∨ m.activeController = some departedUserId then
      if candidate = departedUserId then (none, l)
      else (some candidate, { l with roomMeta := some { m with activeController := some candidate } })
    else (none, l)
  | _, _ => (none, l)

def reclaim (userId : String) (l : Local) : Option String × Local :=
  match l.roomMeta with
  | none => (none, l)
  | some m =>
    if userId = m.creatorId ∧ m.activeController ≠ none then
      (some userId, { l with roomMeta := some { m with activeController := none } })
    else (none, l)

def dropSocket (socketId : String) (l : Local) : Local :=
  { l with buckets := Function.update l.buckets socketId none }

/-! ## What they leave alone -/

section Frame

variable (socketId userId : String) (now : ℚ) (candidate : Option String) (room : RoomRow) (l : Local)

@[simp] theorem takeToken_roomMeta : (takeToken socketId now l).2.roomMeta = l.roomMeta := by
  simp only [takeToken]; split <;> rfl

@[simp] theorem takeToken_members : (takeToken socketId now l).2.members = l.members := by
  simp only [takeToken]; split <;> rfl

@[simp] theorem takeToken_persistTimer : (takeToken socketId now l).2.persistTimer = l.persistTimer := by
  simp only [takeToken]; split <;> rfl

@[simp] theorem admission_roomMeta : (admission socketId userId now l).2.roomMeta = l.roomMeta := by
  unfold admission
  split
  · rfl
  · split
    · exact takeToken_roomMeta socketId now l
    · rfl

@[simp] theorem admission_members : (admission socketId userId now l).2.members = l.members := by
  unfold admission
  split
  · rfl
  · split
    · exact takeToken_members socketId now l
    · rfl

@[simp] theorem admission_persistTimer : (admission socketId userId now l).2.persistTimer = l.persistTimer := by
  unfold admission
  split
  · rfl
  · split
    · exact takeToken_persistTimer socketId now l
    · rfl

@[simp] theorem ensureMeta_persistTimer : (ensureMeta room l).persistTimer = l.persistTimer := by
  unfold ensureMeta; split <;> rfl

@[simp] theorem succession_persistTimer : (succession userId candidate l).2.persistTimer = l.persistTimer := by
  unfold succession; split <;> (try split) <;> (try split) <;> (try split) <;> rfl

@[simp] theorem reclaim_persistTimer : (reclaim userId l).2.persistTimer = l.persistTimer := by
  unfold reclaim; split <;> (try split) <;> rfl

@[simp] theorem ensureMeta_members : (ensureMeta room l).members = l.members := by
  unfold ensureMeta; split <;> rfl

@[simp] theorem succession_members : (succession userId candidate l).2.members = l.members := by
  unfold succession; split <;> (try split) <;> (try split) <;> (try split) <;> rfl

@[simp] theorem reclaim_members : (reclaim userId l).2.members = l.members := by
  unfold reclaim; split <;> (try split) <;> rfl

@[simp] theorem dropSocket_roomMeta : (dropSocket socketId l).roomMeta = l.roomMeta := rfl
@[simp] theorem dropSocket_members : (dropSocket socketId l).members = l.members := rfl
@[simp] theorem schedulePersist_roomMeta : (schedulePersist l).roomMeta = l.roomMeta := rfl
@[simp] theorem schedulePersist_members : (schedulePersist l).members = l.members := rfl

end Frame

/-- A control is admitted exactly when the settings are there, the user may control and the bucket has a token. -/
theorem admission_eq_none {socketId userId : String} {now : ℚ} {l : Local} :
    (admission socketId userId now l).1 = none ↔
      ∃ m, l.roomMeta = some m ∧ allowedToControl m userId = true ∧ (takeToken socketId now l).1 = true := by
  unfold admission
  cases l.roomMeta with
  | none => simp
  | some m =>
    by_cases ha : allowedToControl m userId = true
    · simp [ha]
    · simp [ha]

/-- Where the settings are there, no control is answered room-not-found before the store is asked. -/
theorem admission_ne_roomNotFound {socketId userId : String} {now : ℚ} {l : Local} {m : RoomMeta}
    (hm : l.roomMeta = some m) : (admission socketId userId now l).1 ≠ some .roomNotFound := by
  simp only [admission, hm]
  split
  · split <;> simp
  · simp

end TimelineService
end WatchParty
