import WatchParty.Lib.Machine
import WatchParty.Redis.SharedScripts
import WatchParty.Sync.RoomStateStore

/-!
# The shared-script plane

`sync/redis-room-state.store.ts`: every operation of the store is one command on the keys of the room, so the plane is
a machine whose actions are the operations of any number of instances in the order in which the commands execute. A
command that an instance or its Redis client sends again is the same action once more.

- `RedisRoomStateStore.*`: the operations, each a function of the room's keys;
- `Plane.machine`: their runs;
- `Plane.mints`: the instants at which incarnations were created.
-/

namespace WatchParty
namespace RedisRoomStateStore

def get (σ : Room) : Option Timeline := σ.loadTl.map TlHash.toTimeline

/-- The `ARGV` of a control; presence of the fence is a flag of its own. -/
def controlArgs (req : ControlReq) : Lua.ControlArgs :=
  { intent := req.intent, mediaTime := req.mediaTime, byUser := req.byUser, cmdId := textOf req.cmdId,
    dedupTtlMs := CMD_DEDUP_TTL_MS, videoId := textOf req.videoId.join, fenced := req.forVideoId.isSome,
    forVideoId := textOf req.forVideoId.join }

/-- What the store makes of the script's answer. -/
def outcome : Option Answer → ApplyOutcome
  | none => .missing
  | some ⟨tl, some .dup⟩ => .duplicate tl
  | some ⟨tl, some .fenced⟩ => .fenced tl
  | some ⟨tl, none⟩ => .committed tl

def applyControl (req : ControlReq) (trim : ℕ) (σ : Room) : ApplyOutcome × Room :=
  let r := Lua.applyControl (controlArgs req) trim σ
  (outcome r.1, r.2)

def applySnapshot (trim : ℕ) (σ : Room) : Option Timeline × Room :=
  let r := Lua.applySnapshot SWEEP_DEDUP_PERIOD_MS trim σ
  (r.1.map Answer.timeline, r.2)

def init (videoId : Option String) (mediaTime : ℚ) (trim : ℕ) (σ : Room) : Timeline × Room :=
  let r := Lua.init (textOf videoId) mediaTime trim σ
  (r.1.timeline, r.2)

/-- `DEL room:X:tl`. -/
def clear (σ : Room) : Room := { σ with tl := none }

end RedisRoomStateStore

namespace Plane

/-- What the instances do to a room, and the passing of time. -/
inductive Op
  | get
  | applyControl (req : ControlReq) (trim : ℕ)
  | applySnapshot (trim : ℕ)
  | init (videoId : Option String) (mediaTime : ℚ) (trim : ℕ)
  | clear
  | tick (d : ℕ)

/-- What an operation answers. -/
inductive Out
  | outcome (o : ApplyOutcome)
  | timeline (tl : Option Timeline)
  | done
  deriving DecidableEq, Repr

/-- The timeline an answer carries. -/
def Out.carried : Out → Option Timeline
  | .outcome o => o.timeline
  | .timeline tl => tl
  | .done => none

/-- One operation. -/
def step (σ : Room) : Op → Room × Out
  | .get => (σ, .timeline (RedisRoomStateStore.get σ))
  | .applyControl req trim =>
    let r := RedisRoomStateStore.applyControl req trim σ
    (r.2, .outcome r.1)
  | .applySnapshot trim =>
    let r := RedisRoomStateStore.applySnapshot trim σ
    (r.2, .timeline r.1)
  | .init videoId mediaTime trim =>
    let r := RedisRoomStateStore.init videoId mediaTime trim σ
    (r.2, .timeline (some r.1))
  | .clear => (RedisRoomStateStore.clear σ, .done)
  | .tick d => (σ.tick d, .done)

/-- The plane, for one room. -/
def machine : Machine Room Op Out := ⟨Room.empty, step⟩

abbrev Event := Machine.Event Room Op Out

/-- The instant at which an event created an incarnation. -/
def mint (e : Event) : Option ℕ :=
  match e.act, e.pre.loadTl with
  | .init _ _ _, none => some e.pre.now
  | _, _ => none

/-- The instants at which a run created incarnations, oldest first. -/
def mints (tr : List Event) : List ℕ := tr.filterMap mint

/-- The timelines committed to the room, oldest first. -/
def commits (σ : Room) : List Timeline := σ.saves.map TlHash.toTimeline

/-- The timelines that instances were answered, and so may emit. -/
def answered (tr : List Event) : List Timeline := tr.filterMap fun e => e.out.carried

/-! ## What one operation can do -/

/-- The ways an operation can go: nothing is written, the incarnation ends, time passes, or one hash is committed,
which is a birth, a control or a snapshot. `o` is the answer and `σ'` the state after. -/
inductive Step (σ : Room) : Op → Out → Room → Prop
  | read (tl : Option Timeline) (h : tl = σ.loadTl.map TlHash.toTimeline) : Step σ .get (.timeline tl) σ
  | missing (req : ControlReq) (trim : ℕ) (h : σ.loadTl = none) :
      Step σ (.applyControl req trim) (.outcome .missing) σ
  | duplicate (req : ControlReq) (trim : ℕ) (tl : TlHash) (h : σ.loadTl = some tl)
      (hr : Lua.Recorded (RedisRoomStateStore.controlArgs req) σ) :
      Step σ (.applyControl req trim) (.outcome (.duplicate tl.toTimeline)) σ
  | fenced (req : ControlReq) (trim : ℕ) (tl : TlHash) (h : σ.loadTl = some tl)
      (hr : ¬Lua.Recorded (RedisRoomStateStore.controlArgs req) σ)
      (hf : Lua.FencedOut (RedisRoomStateStore.controlArgs req) tl) :
      Step σ (.applyControl req trim) (.outcome (.fenced tl.toTimeline)) σ
  | control (req : ControlReq) (trim : ℕ) (tl new : TlHash) (h : σ.loadTl = some tl)
      (hr : ¬Lua.Recorded (RedisRoomStateStore.controlArgs req) σ)
      (hf : ¬Lua.FencedOut (RedisRoomStateStore.controlArgs req) tl)
      (hnew : new = Lua.controlled (RedisRoomStateStore.controlArgs req) σ.now tl) :
      Step σ (.applyControl req trim) (.outcome (.committed new.toTimeline))
        (Lua.committed new (textOf req.cmdId) trim
          (Lua.record (RedisRoomStateStore.controlArgs req) tl σ))
  | idle (trim : ℕ) (tl : Option Timeline) (h : tl = none ∨ tl = σ.loadTl.map TlHash.toTimeline) :
      Step σ (.applySnapshot trim) (.timeline tl) σ
  | snapshot (trim : ℕ) (tl new : TlHash) (h : σ.loadTl = some tl) (hp : tl.isPlaying = true) (window : ℤ)
      (hnew : new = Lua.swept σ.now window tl) :
      Step σ (.applySnapshot trim) (.timeline (some new.toTimeline)) (Lua.committed new "" trim σ)
  | found (videoId : Option String) (mediaTime : ℚ) (trim : ℕ) (tl : TlHash) (h : σ.loadTl = some tl) :
      Step σ (.init videoId mediaTime trim) (.timeline (some tl.toTimeline)) σ
  | birth (videoId : Option String) (mediaTime : ℚ) (trim : ℕ) (new : TlHash) (h : σ.loadTl = none)
      (hnew : new = Lua.born (textOf videoId) mediaTime σ.now) :
      Step σ (.init videoId mediaTime trim) (.timeline (some new.toTimeline)) (Lua.committed new "" trim σ)
  | clear : Step σ .clear .done (RedisRoomStateStore.clear σ)
  | tick (d : ℕ) : Step σ (.tick d) .done (σ.tick d)

/-- Every operation goes one of these ways. -/
theorem step_cases (σ : Room) (op : Op) : Step σ op (step σ op).2 (step σ op).1 := by
  cases op with
  | get => exact .read _ rfl
  | applyControl req trim =>
    simp only [step, RedisRoomStateStore.applyControl]
    rcases Lua.applyControl_cases (RedisRoomStateStore.controlArgs req) trim σ with
      ⟨h, he⟩ | ⟨tl, h, ⟨hr, he⟩ | ⟨hr, hf, he⟩ | ⟨hr, hf, he⟩⟩
    · rw [he]; exact .missing req trim h
    · rw [he]; exact .duplicate req trim tl h hr
    · rw [he]; exact .fenced req trim tl h hr hf
    · rw [he]; exact .control req trim tl _ h hr hf rfl
  | applySnapshot trim =>
    simp only [step, RedisRoomStateStore.applySnapshot]
    rcases Lua.applySnapshot_cases SWEEP_DEDUP_PERIOD_MS trim σ with
      ⟨h, he⟩ | ⟨tl, h, ⟨hp, he⟩ | ⟨hp, hw, he⟩ | ⟨hp, hw, he⟩⟩
    · rw [he]; exact .idle trim _ (Or.inl rfl)
    · rw [he]; exact .idle trim _ (Or.inr (by rw [h]; rfl))
    · rw [he]; exact .idle trim _ (Or.inl rfl)
    · rw [he]; exact .snapshot trim tl _ h hp _ rfl
  | init videoId mediaTime trim =>
    simp only [step, RedisRoomStateStore.init]
    rcases Lua.init_cases (textOf videoId) mediaTime trim σ with ⟨tl, h, he⟩ | ⟨h, he⟩
    · rw [he]; exact .found videoId mediaTime trim tl h
    · rw [he]; exact .birth videoId mediaTime trim _ h rfl
  | clear => exact .clear
  | tick d => exact .tick d

/-- No operation takes a stored hash back. -/
theorem Step.saves_grow {σ σ' : Room} {op : Op} {o : Out} (h : Step σ op o σ') : σ.saves <+: σ'.saves := by
  cases h with
  | control | snapshot | birth => simp
  | _ => exact List.prefix_rfl

/-- `init` leaves a timeline. -/
theorem Step.init_loadTl {σ σ' : Room} {videoId : Option String} {mediaTime : ℚ} {trim : ℕ} {o : Out}
    (h : Step σ (.init videoId mediaTime trim) o σ') : σ'.loadTl.isSome := by
  cases h with
  | found _ _ _ tl h =>
    rw [h]
    rfl
  | birth => simp

/-- A control misses the room only where there is no timeline. -/
theorem Step.missing_loadTl {σ σ' : Room} {req : ControlReq} {trim : ℕ} {o : Out}
    (h : Step σ (.applyControl req trim) o σ') (ho : o = .outcome .missing) : σ.loadTl = none := by
  cases h with
  | missing _ _ h => exact h
  | _ => cases ho

/-- A command other than `clear` leaves the timeline there. -/
theorem Step.keep_loadTl {σ σ' : Room} {op : Op} {o : Out} (h : Step σ op o σ') (hc : op ≠ .clear)
    (ht : ∀ d, op ≠ .tick d) (hs : σ.loadTl.isSome) : σ'.loadTl.isSome := by
  cases h with
  | control | snapshot | birth => simp
  | clear => exact absurd rfl hc
  | tick d => exact absurd rfl (ht d)
  | _ => exact hs

/-- An event of a run is one of these ways. -/
theorem event_cases (σ : Room) (op : Op) : Step σ op (machine.event σ op).out (machine.event σ op).post :=
  step_cases σ op

@[simp] theorem mints_snoc (tr : List Event) (e : Event) : mints (tr ++ [e]) = mints tr ++ (mint e).toList := by
  cases h : mint e <;> simp [mints, h]

@[simp] theorem answered_snoc (tr : List Event) (e : Event) :
    answered (tr ++ [e]) = answered tr ++ e.out.carried.toList := by
  cases h : e.out.carried <;> simp [answered, h]

end Plane
end WatchParty
