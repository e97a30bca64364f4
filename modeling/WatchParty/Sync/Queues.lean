import WatchParty.Lib.Machine
import WatchParty.Lib.Promises
import WatchParty.Sync.Instance

/-!
# The promise queues of the rooms

`gated` of `sync/timeline.service.ts` and `enqueue` of `sync/actor-room-state.store.ts`: the two functions are the same
but for the map that they keep the last promise of a room in. An operation is known by the number of its submission,
and the promises that are made for it by their place in the chain.

- `chain` is the code of both, `runJob` what the jobs of its promises do, `finish` the end of an operation;
- `Stage` is how far the promises of an operation have come, and `Chained`, the invariant, says it of all of them.
-/

namespace WatchParty
namespace Queues

/-- The promises of an operation: `Promise.resolve()`, `prior.catch(..)`, `next`, `next.catch(..)` and what the operation
returns. -/
inductive PromiseId
  | resolved (k : ℕ)
  | guard (k : ℕ)
  | next (k : ℕ)
  | tail (k : ℕ)
  | result (k : ℕ)
  deriving DecidableEq, Repr

/-- A queue: which of the two maps, and the room. -/
abbrev Key := Lane × String

/-- What reacts to a promise: `() => undefined`, which settles the promise that `catch` returned; the operation; the
finaliser; and how `next` follows the promise that the operation returned. -/
inductive Handler
  | swallow (derived : PromiseId)
  | op (k : ℕ)
  | release (key : Key) (k : ℕ)
  | adopt (k : ℕ)
  | forward (k : ℕ)
  deriving DecidableEq, Repr

/-- What an operation has done so far. -/
inductive Phase (R : Type)
  | waiting
  | running
  | ended (r : R)

abbrev Job (E V : Type) := Promises.Job Handler (Except E V)

/-- The promises and the two maps; `keys` and `phase` are the operations that were submitted. -/
structure State (E V : Type) where
  promises : Promises PromiseId Handler (Except E V)
  heads : Key → Option PromiseId
  keys : List Key
  phase : ℕ → Phase (Except E V)

variable {E V : Type} (undefined : V)

def State.empty : State E V := ⟨.empty, fun _ => none, [], fun _ => .waiting⟩

/-- The body of `gated` and `enqueue`; `next` is returned. -/
def chain (key : Key) (s : State E V) : State E V :=
  let k := s.keys.length
  let prior := (s.heads key).getD (.resolved k)
  let promises := if s.heads key = none then s.promises.settle (.resolved k) (.ok undefined) else s.promises
  let promises := promises.react prior (.swallow (.guard k))
  let promises := promises.react (.guard k) (.op k)
  let promises := promises.react (.next k) (.swallow (.tail k))
  { promises := promises.react (.tail k) (.release key k)
    heads := Function.update s.heads key (some (.next k))
    keys := s.keys ++ [key]
    phase := s.phase }

def gated (roomCode : String) (s : State E V) : State E V := chain undefined (.gate, roomCode) s

def enqueue (roomCode : String) (s : State E V) : State E V := chain undefined (.queue, roomCode) s

/-- `catch(() => undefined)` -/
def swallowed (r : Except E V) : Except E V :=
  match r with
  | .ok v => .ok v
  | .error _ => .ok undefined

/-- What a job does that was taken out. An operation that is started may throw at once; otherwise it returns a promise,
which `next` adopts in a job of its own. -/
def runJob (job : Job E V) (thrown : Option E) (s : State E V) : State E V :=
  match job with
  | .react (.swallow derived) r => { s with promises := s.promises.settle derived (swallowed undefined r) }
  | .react (.op k) (.error e) => { s with promises := s.promises.settle (.next k) (.error e) }
  | .react (.op k) (.ok _) =>
    match thrown with
    | some e =>
      { s with promises := s.promises.settle (.next k) (.error e)
               phase := Function.update s.phase k (.ended (.error e)) }
    | none => { s with promises := s.promises.enqueue (.call (.adopt k)), phase := Function.update s.phase k .running }
  | .react (.release key k) _ =>
    if s.heads key = some (.next k) then { s with heads := Function.update s.heads key none } else s
  | .react (.forward k) r => { s with promises := s.promises.settle (.next k) r }
  | .call (.adopt k) => { s with promises := s.promises.react (.result k) (.forward k) }
  | _ => s

/-- The promise that a running operation returned is settled. -/
def finish (k : ℕ) (r : Except E V) (s : State E V) : State E V :=
  match s.phase k with
  | .running => { s with promises := s.promises.settle (.result k) r, phase := Function.update s.phase k (.ended r) }
  | _ => s

/-- What happens: a submission, one of the jobs that are due, the end of an operation. -/
inductive Act (E V : Type)
  | gated (roomCode : String)
  | enqueue (roomCode : String)
  | job (i : ℕ) (thrown : Option E)
  | finish (k : ℕ) (r : Except E V)

def step (s : State E V) : Act E V → State E V × Unit
  | .gated roomCode => (gated undefined roomCode s, ())
  | .enqueue roomCode => (enqueue undefined roomCode s, ())
  | .job i thrown =>
    match s.promises.take? i with
    | none => (s, ())
    | some (job, promises) => (runJob undefined job thrown { s with promises := promises }, ())
  | .finish k r => (finish k r s, ())

def machine : Machine (State E V) (Act E V) Unit := ⟨.empty, step undefined⟩

/-! ## How far an operation has come -/

/-- The stages of an operation's promises, each with the results that its jobs have: it waits for the operation `j`, its
guard is to be settled, it is due to start, `next` is to adopt what it returned or has adopted it, `next` is to be
settled, the finaliser is to be woken, is due, has run. -/
inductive Stage (E V : Type)
  | chained (j : ℕ)
  | guarded (r : Except E V)
  | ready (v : V)
  | adopting
  | adopted
  | forwarding (r : Except E V)
  | tailing (r : Except E V)
  | releasing (r r' : Except E V)
  | released (r : Except E V)

namespace Stage

/-- The job that the operation has due. -/
def job? (key : Key) (k : ℕ) : Stage E V → Option (Job E V)
  | .chained _ => none
  | .guarded r => some (.react (.swallow (.guard k)) r)
  | .ready v => some (.react (.op k) (.ok v))
  | .adopting => some (.call (.adopt k))
  | .adopted => none
  | .forwarding r => some (.react (.forward k) r)
  | .tailing r => some (.react (.swallow (.tail k)) r)
  | .releasing _ r' => some (.react (.release key k) r')
  | .released _ => none

/-- The result of `next`, once it is settled. -/
def outcome? : Stage E V → Option (Except E V)
  | .tailing r => some r
  | .releasing r _ => some r
  | .released r => some r
  | _ => none

def isChained : Stage E V → Bool
  | .chained _ => true
  | _ => false

def isReleased : Stage E V → Bool
  | .released _ => true
  | _ => false

/-- The guard is not settled. -/
def guarding : Stage E V → Bool
  | .chained _ => true
  | .guarded _ => true
  | _ => false

/-- The tail is not settled. -/
def untailed : Stage E V → Bool
  | .releasing _ _ => false
  | .released _ => false
  | _ => true

/-- The number of the stage. -/
def rank : Stage E V → ℕ
  | .chained _ => 0
  | .guarded _ => 1
  | .ready _ => 2
  | .adopting => 3
  | .adopted => 4
  | .forwarding _ => 5
  | .tailing _ => 6
  | .releasing _ _ => 7
  | .released _ => 8

theorem rank_le (st : Stage E V) : st.rank ≤ 8 := by cases st <;> simp [rank]

/-- The operation `k` has settled: who waits for it is woken. -/
def wake (k : ℕ) (r : Except E V) : Stage E V → Stage E V
  | .chained j => if j = k then .guarded r else .chained j
  | st => st

end Stage

def PromiseId.number : PromiseId → ℕ
  | .resolved k | .guard k | .next k | .tail k | .result k => k

/-- The operation that a job is of. -/
def owner : Job E V → ℕ
  | .react (.swallow p) _ => p.number
  | .react (.op k) _ => k
  | .react (.release _ k) _ => k
  | .react (.adopt k) _ => k
  | .react (.forward k) _ => k
  | .call (.adopt k) => k
  | .call _ => 0

theorem Stage.owner_eq {key : Key} {k : ℕ} {st : Stage E V} {job : Job E V} (h : st.job? key k = some job) :
    owner job = k := by
  cases st with
  | chained j => cases h
  | adopted => cases h
  | released r => cases h
  | guarded r | ready v | adopting | forwarding r | tailing r | releasing r r' =>
    obtain rfl := Option.some.inj h
    rfl

/-- What an operation has done at a stage, and the promise that it returned. -/
def Runs (phase : Phase (Except E V)) (result : Promises.Cell Handler (Except E V)) (k : ℕ) : Stage E V → Prop
  | .chained _ => phase = .waiting ∧ result = .pending []
  | .guarded _ => phase = .waiting ∧ result = .pending []
  | .ready _ => phase = .waiting ∧ result = .pending []
  | .adopting => phase = .running ∧ result = .pending [] ∨ ∃ r, phase = .ended r ∧ result = .settled r
  | .adopted => phase = .running ∧ result = .pending [.forward k]
  | .forwarding r => phase = .ended r
  | .tailing r => phase = .ended r
  | .releasing r _ => phase = .ended r
  | .released r => phase = .ended r

/-- The promises of one operation but `next`, and what it has done. -/
structure Local (s : State E V) (k : ℕ) (key : Key) (st : Stage E V) : Prop where
  guard : st.guarding = true → s.promises.cells (.guard k) = .pending [.op k]
  tail : st.untailed = true → s.promises.cells (.tail k) = .pending [.release key k]
  run : Runs (s.phase k) (s.promises.cells (.result k)) k st

/-- `next` has its outcome, or waits with the finaliser and with who is chained to it. -/
def Next (s : State E V) (stage : ℕ → Stage E V) (k : ℕ) : Prop :=
  match (stage k).outcome? with
  | some r => s.promises.cells (.next k) = .settled r
  | none => ∃ handlers, s.promises.cells (.next k) = .pending handlers ∧ handlers.Nodup ∧
      ∀ h, h ∈ handlers ↔
        h = .swallow (.tail k) ∨ ∃ k' < s.keys.length, stage k' = .chained k ∧ h = .swallow (.guard k')

/-- A map has the last operation of each room, unless that is released. -/
structure Heads (heads : Key → Option PromiseId) (keys : List Key) (released : ℕ → Bool) : Prop where
  last : ∀ key p, heads key = some p →
    ∃ k, p = .next k ∧ keys[k]? = some key ∧ (∀ k' > k, keys[k']? ≠ some key) ∧ released k = false
  kept : ∀ k key, keys[k]? = some key → (∀ k' > k, keys[k']? ≠ some key) → released k = false →
    heads key = some (.next k)

/-- **The invariant**: the operations are at these stages. Who is chained waits for the operation of its room before it;
who is not comes after operations that have settled. -/
structure Chained (s : State E V) (stage : ℕ → Stage E V) : Prop where
  nodup : s.promises.jobs.Nodup
  jobs : ∀ job, job ∈ s.promises.jobs ↔ ∃ k key, s.keys[k]? = some key ∧ (stage k).job? key k = some job
  own : ∀ k key, s.keys[k]? = some key → Local s k key (stage k)
  next : ∀ k < s.keys.length, Next s stage k
  fresh : ∀ p : PromiseId, s.keys.length ≤ p.number → s.promises.cells p = .pending []
  unborn : ∀ k, s.keys.length ≤ k → s.phase k = .waiting
  heads : Heads s.heads s.keys fun k => (stage k).isReleased
  serial : ∀ j k key, j < k → s.keys[j]? = some key → s.keys[k]? = some key →
    (stage j).outcome?.isSome = true ∨ (stage k).isChained = true
  chained : ∀ k j key, stage k = .chained j → s.keys[k]? = some key →
    j < k ∧ s.keys[j]? = some key ∧ (stage j).outcome? = none ∧ ∀ i, j < i → i < k → s.keys[i]? ≠ some key

end Queues
end WatchParty
