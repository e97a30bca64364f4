import WatchParty.Lib.Machine
import WatchParty.Redis.ActorScripts
import WatchParty.Sync.RoomStateStore

/-!
# The keys of a room on the actor plane

The commands that `sync/actor-room-state.store.ts` issues on the keys of one room, as a machine: its actions are the
commands of any number of instances in the order in which they execute, each with arguments of any age. Instances that
crash, revive or resend are covered: their commands are missing, late or repeated.

- `ActorRoomStateStore.*`: how the store fills the arguments of its scripts;
- `ActorPlane.machine`: the runs;
- `ActorPlane.Step`: everything one command can do.
-/

namespace WatchParty
namespace ActorRoomStateStore

def LEASE_TTL_MS : ℕ := 10000
def RENEW_MS : ℕ := 3000
def KEY_TTL_MS : ℕ := 24 * 60 * 60 * 1000

theorem LEASE_TTL_MS_pos : 0 < LEASE_TTL_MS := by decide
theorem KEY_TTL_MS_pos : 0 < KEY_TTL_MS := by decide

/-- The `ARGV` of `actor_init.lua`. -/
def initArgs (instanceId : String) (fence : ℚ) (videoId : Option String) (mediaTime : ℚ) : Lua.ActorInitArgs :=
  { instanceId := instanceId, fence := fence, mediaTime := mediaTime, videoId := textOf videoId, ttlMs := KEY_TTL_MS }

/-- The `ARGV` of `actor_commit.lua`; presence of the video fence is a flag of its own. -/
def commitArgs (instanceId : String) (fence : ℚ) (next : Draft) (cmdId : Option String)
    (forVideoId : Option (Option String)) : Lua.ActorCommitArgs :=
  { instanceId := instanceId, fence := fence, isPlaying := next.isPlaying, mediaTime := next.mediaTime,
    reason := next.reason, byUser := textOf next.byUser, videoId := textOf next.videoId, ttlMs := KEY_TTL_MS,
    cmdId := textOf cmdId, dedupTtlMs := CMD_DEDUP_TTL_MS, videoFenced := forVideoId.isSome,
    forVideoId := textOf forVideoId.join }

end ActorRoomStateStore

namespace ActorPlane

open ActorRoomStateStore

/-- The commands on the keys of a room, and the passing of time. `clear` is the store's one `DEL` of both keys. -/
inductive Op
  | claim (instanceId : String)
  | reclaim (observedOwner : String) (observedFence : ℚ)
  | init (instanceId : String) (fence : ℚ) (videoId : Option String) (mediaTime : ℚ) (trim : ℕ)
  | commit (instanceId : String) (fence : ℚ) (next : Draft) (cmdId : Option String)
      (forVideoId : Option (Option String)) (trim : ℕ)
  | hgetall
  | clear
  | tick (d : ℕ)

inductive Out
  | lease (view : Lua.LeaseView)
  | count (n : ℕ)
  | created (tl : Option Timeline)
  | answer (a : Option Answer)
  | timeline (tl : Option Timeline)
  | done

/-- One command. -/
def step (σ : Room) : Op → Room × Out
  | .claim instanceId =>
    let r := Lua.actorClaim instanceId LEASE_TTL_MS σ
    (r.2, .lease r.1)
  | .reclaim observedOwner observedFence =>
    let r := Lua.actorReclaim observedOwner observedFence σ
    (r.2, .count r.1)
  | .init instanceId fence videoId mediaTime trim =>
    let r := Lua.actorInit (initArgs instanceId fence videoId mediaTime) trim σ
    (r.2, .created r.1)
  | .commit instanceId fence next cmdId forVideoId trim =>
    let r := Lua.actorCommit (commitArgs instanceId fence next cmdId forVideoId) trim σ
    (r.2, .answer r.1)
  | .hgetall => (σ, .timeline (σ.loadTl.map TlHash.toTimeline))
  | .clear => ({ σ with tl := none, lease := none }, .done)
  | .tick d => (σ.tick d, .done)

/-- The keys of a room, for one room. -/
def machine : Machine Room Op Out := ⟨Room.empty, step⟩

abbrev Event := Machine.Event Room Op Out

/-- The lease a writing command believes it holds. -/
def Op.caller : Op → Option Lease
  | .init instanceId fence _ _ _ => some ⟨instanceId, fence⟩
  | .commit instanceId fence _ _ _ _ => some ⟨instanceId, fence⟩
  | _ => none

/-- The id of the command that a commit is for. -/
def Op.cmdId : Op → Option String
  | .commit _ _ _ cmdId _ _ => if textOf cmdId ≠ "" then some (textOf cmdId) else none
  | _ => none

/-- The command that was committed. -/
def committedCmd (op : Op) (out : Out) : Option String :=
  match out with
  | .answer (some ⟨_, none⟩) => op.cmdId
  | _ => none

/-- The lease is (again) `lease`, for its time to live. -/
def granted (lease : Lease) (σ : Room) : Room := { σ with lease := Expiring.put σ.now LEASE_TTL_MS lease }

/-- The lease is deleted. -/
def revoked (σ : Room) : Room := { σ with lease := none }

section Granted

variable (lease : Lease) (σ : Room)

@[simp] theorem granted_now : (granted lease σ).now = σ.now := rfl
@[simp] theorem granted_tl : (granted lease σ).tl = σ.tl := rfl
@[simp] theorem granted_loadTl : (granted lease σ).loadTl = σ.loadTl := rfl
@[simp] theorem granted_cmd : (granted lease σ).cmd = σ.cmd := rfl
@[simp] theorem granted_saves : (granted lease σ).saves = σ.saves := rfl
@[simp] theorem granted_leaseNow : (granted lease σ).leaseNow = some lease :=
  Expiring.get_put_self LEASE_TTL_MS_pos lease
@[simp] theorem revoked_now : (revoked σ).now = σ.now := rfl
@[simp] theorem revoked_loadTl : (revoked σ).loadTl = σ.loadTl := rfl
@[simp] theorem revoked_leaseNow : (revoked σ).leaseNow = none := rfl

end Granted

/-- The ways a command can go: a lease is minted, renewed or revoked, a hash is written under a lease that is held,
both keys are deleted, time passes, or nothing is written. -/
inductive Step (σ : Room) : Op → Out → Room → Prop
  | mint (i : String) (h : σ.leaseNow = none) :
      Step σ (.claim i) (.lease ⟨⟨i, σ.now⟩, true⟩) (granted ⟨i, σ.now⟩ σ)
  | renew (i : String) (lease : Lease) (h : σ.leaseNow = some lease) (ho : lease.owner = i) :
      Step σ (.claim i) (.lease ⟨lease, true⟩) (granted lease σ)
  | foreign (i : String) (lease : Lease) (h : σ.leaseNow = some lease) (ho : lease.owner ≠ i) :
      Step σ (.claim i) (.lease ⟨lease, false⟩) σ
  | revoke (owner : String) (fence : ℚ) (n : ℕ) (hh : Lua.Holds owner fence σ) :
      Step σ (.reclaim owner fence) (.count n) (revoked σ)
  | birth (i : String) (fence : ℚ) (videoId : Option String) (mediaTime : ℚ) (trim : ℕ) (new : TlHash)
      (hh : Lua.Holds i fence σ) (h : σ.loadTl = none)
      (hnew : new = Lua.actorBorn (initArgs i fence videoId mediaTime) σ.now) :
      Step σ (.init i fence videoId mediaTime trim) (.created (some new.toTimeline))
        (Lua.stored new "" trim KEY_TTL_MS σ)
  | commit (i : String) (fence : ℚ) (next : Draft) (cmdId : Option String) (forVideoId : Option (Option String))
      (trim : ℕ) (new : TlHash) (hh : Lua.Holds i fence σ)
      (hok : ∀ c, σ.loadTl = some c → ¬Lua.ActorRecorded (commitArgs i fence next cmdId forVideoId) σ ∧
        ¬Lua.ActorFencedOut (commitArgs i fence next cmdId forVideoId) c)
      (hnew : new = Lua.actorCommitted (commitArgs i fence next cmdId forVideoId) σ.now σ.loadTl) :
      Step σ (.commit i fence next cmdId forVideoId trim) (.answer (some ⟨new.toTimeline, none⟩))
        (Lua.stored new (textOf cmdId) trim KEY_TTL_MS
          (Lua.actorRecord (commitArgs i fence next cmdId forVideoId) σ.loadTl σ))
  | clear : Step σ .clear .done { σ with tl := none, lease := none }
  | tick (d : ℕ) : Step σ (.tick d) .done (σ.tick d)
  | keep (op : Op) (out : Out) (hout : committedCmd op out = none) (hop : ∀ i, op ≠ .claim i)
      (hl : ∀ view, out ≠ .lease view) : Step σ op out σ

/-- Every command goes one of these ways. -/
theorem step_cases (σ : Room) (op : Op) : Step σ op (step σ op).2 (step σ op).1 := by
  cases op with
  | claim i =>
    simp only [step]
    rcases Lua.actorClaim_cases i LEASE_TTL_MS σ with ⟨h, he⟩ | ⟨lease, h, ho, he⟩ | ⟨lease, h, ho, he⟩
    · rw [he]; exact .mint i h
    · rw [he]; exact .renew i lease h ho
    · rw [he]; exact .foreign i lease h ho
  | reclaim owner fence =>
    simp only [step]
    rcases Lua.actorReclaim_cases owner fence σ with ⟨hh, he⟩ | ⟨hh, he⟩
    · rw [he]; exact .revoke owner fence _ hh
    · rw [he]; exact .keep _ _ rfl (by simp) (by simp)
  | init i fence videoId mediaTime trim =>
    simp only [step]
    rcases Lua.actorInit_cases (initArgs i fence videoId mediaTime) trim σ with ⟨hh, he⟩ | ⟨hh, ⟨c, h, he⟩ | ⟨h, he⟩⟩
    · rw [he]; exact .keep _ _ rfl (by simp) (by simp)
    · rw [he]; exact .keep _ _ rfl (by simp) (by simp)
    · rw [he]; exact .birth i fence videoId mediaTime trim _ hh h rfl
  | commit i fence next cmdId forVideoId trim =>
    simp only [step]
    rcases Lua.actorCommit_cases (commitArgs i fence next cmdId forVideoId) trim σ with
      ⟨hh, he⟩ | ⟨hh, ⟨c, h, hr, he⟩ | ⟨c, h, hr, hf, he⟩ | ⟨hok, he⟩⟩
    · rw [he]; exact .keep _ _ rfl (by simp) (by simp)
    · rw [he]; exact .keep _ _ rfl (by simp) (by simp)
    · rw [he]; exact .keep _ _ rfl (by simp) (by simp)
    · rw [he]; exact .commit i fence next cmdId forVideoId trim _ hh hok rfl
  | hgetall => exact .keep _ _ rfl (by simp) (by simp [step])
  | clear => exact .clear
  | tick d => exact .tick d

/-- An event of a run goes one of these ways. -/
theorem event_cases (σ : Room) (op : Op) :
    Step (machine.event σ op).pre (machine.event σ op).act (machine.event σ op).out (machine.event σ op).post :=
  step_cases σ op

end ActorPlane
end WatchParty
