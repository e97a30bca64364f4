import WatchParty.Lib.Machine
import WatchParty.Sync.Replay
import WatchParty.Sync.RoomStateStore

/-!
# The in-memory store

`InMemoryRoomStateStore` of `sync/room-state.store.ts` for one room: the timeline, the expiry of each remembered
command, and the bounded log. A process runs one method at a time, so each method is one step. Instants are what the
caller's clock reads.
-/

namespace WatchParty

/-- The maps of the store at one room. -/
structure MemoryRoom where
  room : Option Timeline
  cmdSeen : String → Option ℚ
  log : List LogEntry

namespace InMemoryRoomStateStore

def empty : MemoryRoom := ⟨none, fun _ => none, []⟩

/-- The log entry of a committed timeline. -/
def entryOf (tl : Timeline) (cmdId : Option String) : LogEntry :=
  { seq := tl.seq, storeEpoch := tl.storeEpoch, videoId := tl.videoId, isPlaying := tl.isPlaying,
    mediaTime := tl.mediaTime, stampedAt := tl.stampedAt, reason := tl.reason, byUser := tl.byUser, cmdId := cmdId }

/-- `appendLog`: push, and shift when the log is over its bound. -/
def appendLog (tl : Timeline) (cmdId : Option String) (m : MemoryRoom) : MemoryRoom :=
  let log := m.log ++ [entryOf tl cmdId]
  { m with log := if log.length > 1024 then log.drop 1 else log }

def getLog (m : MemoryRoom) : List LogEntry := m.log

def get (m : MemoryRoom) : Option Timeline := m.room

/-- The remembered commands that have not expired. -/
def unexpired (seen : String → Option ℚ) (serverNow : ℚ) : String → Option ℚ :=
  fun id => (seen id).filter fun expiresAt => !decide (expiresAt ≤ serverNow)

/-- Commit `next` under `cmdId`. -/
def set (next : Timeline) (cmdId : Option String) (m : MemoryRoom) : MemoryRoom :=
  appendLog next cmdId { m with room := some next }

/-- The id of a command, when it has one that is remembered. -/
def idOf (req : ControlReq) : Option String := req.cmdId.filter (· ≠ "")

/-- A command with an id first forgets what has expired. -/
def purge (req : ControlReq) (serverNow : ℚ) (m : MemoryRoom) : MemoryRoom :=
  if (idOf req).isSome then { m with cmdSeen := unexpired m.cmdSeen serverNow } else m

/-- A command that commits is remembered. -/
def remember (req : ControlReq) (serverNow : ℚ) (m : MemoryRoom) : MemoryRoom :=
  match idOf req with
  | some id => { m with cmdSeen := Function.update m.cmdSeen id (some (serverNow + CMD_DEDUP_TTL_MS)) }
  | none => m

/-- `applyControl`: dup lookup, video fence, dedup record, commit, in this order. -/
def applyControl (req : ControlReq) (serverNow : ℚ) (m : MemoryRoom) : ApplyOutcome × MemoryRoom :=
  match m.room with
  | none => (.missing, m)
  | some prev =>
    let m := purge req serverNow m
    if (idOf req).any fun id => (m.cmdSeen id).isSome then (.duplicate prev, m)
    else if req.forVideoId.any fun v => decide (req.intent ≠ .setVideo ∧ prev.videoId ≠ v) then (.fenced prev, m)
    else
      let next : Timeline :=
        { WatchParty.applyControl prev req.intent req.mediaTime serverNow req.byUser req.videoId with
          seq := prev.seq + 1 }
      (.committed next, set next req.cmdId (remember req serverNow m))

/-- `applySnapshot`: restamp whatever is there. -/
def applySnapshot (serverNow : ℚ) (m : MemoryRoom) : Option Timeline × MemoryRoom :=
  match m.room with
  | none => (none, m)
  | some prev =>
    let next : Timeline := { snapshot prev serverNow with seq := prev.seq + 1 }
    (some next, set next none m)

def init (videoId : Option String) (mediaTime serverNow : ℚ) (m : MemoryRoom) : Timeline × MemoryRoom :=
  match m.room with
  | some existing => (existing, m)
  | none =>
    let created : Timeline :=
      { seq := 0, storeEpoch := serverNow, videoId := videoId, isPlaying := false, mediaTime := mediaTime,
        stampedAt := serverNow, reason := .join, byUser := none }
    (created, set created none m)

def clear (_ : MemoryRoom) : MemoryRoom := empty

/-- The calls of the store. -/
inductive Op
  | get
  | applyControl (req : ControlReq) (serverNow : ℚ)
  | applySnapshot (serverNow : ℚ)
  | init (videoId : Option String) (mediaTime serverNow : ℚ)
  | clear

/-- What the caller's clock read for a call. -/
def Op.serverNow : Op → Option ℚ
  | .get => none
  | .applyControl _ serverNow => some serverNow
  | .applySnapshot serverNow => some serverNow
  | .init _ _ serverNow => some serverNow
  | .clear => none

inductive Out
  | outcome (o : ApplyOutcome)
  | timeline (tl : Option Timeline)
  | done

/-- One call. -/
def step (m : MemoryRoom) : Op → MemoryRoom × Out
  | .get => (m, .timeline (get m))
  | .applyControl req serverNow =>
    let r := applyControl req serverNow m
    (r.2, .outcome r.1)
  | .applySnapshot serverNow =>
    let r := applySnapshot serverNow m
    (r.2, .timeline r.1)
  | .init videoId mediaTime serverNow =>
    let r := init videoId mediaTime serverNow m
    (r.2, .timeline (some r.1))
  | .clear => (clear m, .done)

/-- The store, for one room. -/
def machine : Machine MemoryRoom Op Out := ⟨empty, step⟩

abbrev Event := Machine.Event MemoryRoom Op Out

/-- The clock readings of a run, oldest first. -/
def clock (tr : List Event) : List ℚ := tr.filterMap fun e => e.act.serverNow

/-- The instant at which an event created an incarnation. -/
def mint (e : Event) : Option ℚ :=
  match e.act, e.pre.room with
  | .init _ _ serverNow, none => some serverNow
  | _, _ => none

def mints (tr : List Event) : List ℚ := tr.filterMap mint

@[simp] theorem clock_snoc (tr : List Event) (e : Event) :
    clock (tr ++ [e]) = clock tr ++ e.act.serverNow.toList := by
  cases h : e.act.serverNow <;> simp [clock, h]

@[simp] theorem mints_snoc (tr : List Event) (e : Event) : mints (tr ++ [e]) = mints tr ++ (mint e).toList := by
  cases h : mint e <;> simp [mints, h]

/-! ## What a call can do -/

section Purge

variable (req : ControlReq) (serverNow : ℚ) (m : MemoryRoom)

@[simp] theorem purge_room : (purge req serverNow m).room = m.room := by unfold purge; split <;> rfl
@[simp] theorem purge_log : (purge req serverNow m).log = m.log := by unfold purge; split <;> rfl
@[simp] theorem remember_log : (remember req serverNow m).log = m.log := by unfold remember; split <;> rfl

end Purge

@[simp] theorem set_room (next : Timeline) (cmdId : Option String) (m : MemoryRoom) :
    (set next cmdId m).room = some next := rfl

theorem set_log (next : Timeline) (cmdId : Option String) (m : MemoryRoom) :
    ∃ old, old <:+ m.log ∧ (set next cmdId m).log = old ++ [entryOf next cmdId] := by
  simp only [set, appendLog]
  split
  · rename_i h
    refine ⟨m.log.drop 1, List.drop_suffix _ _, ?_⟩
    rw [List.drop_append_of_le_length (by simp at h; omega)]
  · exact ⟨m.log, List.suffix_rfl, rfl⟩

/-- The ways a call can go: neither the timeline nor the log changes, the incarnation ends, or one timeline is
committed, which is a birth, a control or a snapshot. -/
inductive Step (m : MemoryRoom) : Op → Out → MemoryRoom → Prop
  | keep (op : Op) (out : Out) (m' : MemoryRoom) (hroom : m'.room = m.room) (hlog : m'.log = m.log)
      (hi : ∀ v t now, op = .init v t now → m.room ≠ none) : Step m op out m'
  | control (req : ControlReq) (serverNow : ℚ) (prev next : Timeline) (m₀ : MemoryRoom) (h : m.room = some prev)
      (hlog : m₀.log = m.log)
      (hnext : next =
        { WatchParty.applyControl prev req.intent req.mediaTime serverNow req.byUser req.videoId with
          seq := prev.seq + 1 }) :
      Step m (.applyControl req serverNow) (.outcome (.committed next)) (set next req.cmdId m₀)
  | snapshot (serverNow : ℚ) (prev next : Timeline) (h : m.room = some prev)
      (hnext : next = { snapshot prev serverNow with seq := prev.seq + 1 }) :
      Step m (.applySnapshot serverNow) (.timeline (some next)) (set next none m)
  | birth (videoId : Option String) (mediaTime serverNow : ℚ) (new : Timeline) (h : m.room = none)
      (hnew : new.storeEpoch = serverNow ∧ new.stampedAt = serverNow) :
      Step m (.init videoId mediaTime serverNow) (.timeline (some new)) (set new none m)
  | clear : Step m .clear .done (clear m)

/-- Every call goes one of these ways. -/
theorem step_cases (m : MemoryRoom) (op : Op) : Step m op (step m op).2 (step m op).1 := by
  cases op with
  | get => exact .keep _ _ _ rfl rfl (fun _ _ _ h => by cases h)
  | applyControl req serverNow =>
    simp only [step, applyControl]
    cases h : m.room with
    | none => exact .keep _ _ _ rfl rfl (fun _ _ _ h => by cases h)
    | some prev =>
      simp only
      split
      · exact .keep _ _ _ (by simp) (by simp) (fun _ _ _ h => by cases h)
      · split
        · exact .keep _ _ _ (by simp) (by simp) (fun _ _ _ h => by cases h)
        · exact .control req serverNow prev _ _ h (by simp) rfl
  | applySnapshot serverNow =>
    simp only [step, applySnapshot]
    cases h : m.room with
    | none => exact .keep _ _ _ rfl rfl (fun _ _ _ h => by cases h)
    | some prev => exact .snapshot serverNow prev _ h rfl
  | init videoId mediaTime serverNow =>
    simp only [step, init]
    cases h : m.room with
    | some tl => exact .keep _ _ _ rfl rfl (fun _ _ _ _ => by simp [h])
    | none => exact .birth videoId mediaTime serverNow _ h ⟨rfl, rfl⟩
  | clear => exact .clear

end InMemoryRoomStateStore
end WatchParty
