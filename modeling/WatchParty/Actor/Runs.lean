import WatchParty.Actor.Fence
import WatchParty.Actor.Store

/-!
# The actor store on its keys

What instances that run the actor store do to the keys of a room is a run of the keys' machine, whatever programs the
instances run around the store.

- `exec_step`: a command of the store is a command on the keys;
- `exec_carried`: a reply that carries a timeline carries the stored one;
- `plane_run`: every run of a system of instances is, on the keys, a run of `ActorPlane.machine`.
-/

namespace WatchParty
namespace ActorRoomStateStore

/-- The command on the keys; a publish touches none of them. -/
def op : Cmd → ℕ → ActorPlane.Op
  | .actorClaim instanceId, _ => .claim instanceId
  | .actorReclaim observedOwner observedFence, _ => .reclaim observedOwner observedFence
  | .actorInit instanceId fence videoId mediaTime, trim => .init instanceId fence videoId mediaTime trim
  | .actorCommit instanceId fence next cmdId forVideoId, trim => .commit instanceId fence next cmdId forVideoId trim
  | .hgetall, _ => .hgetall
  | .del, _ => .clear
  | .publish _ _, _ => .hgetall

/-- Is the command a commit? -/
def Cmd.isCommit : Cmd → Bool
  | .actorCommit _ _ _ _ _ => true
  | _ => false

/-- **A command of the store is a command on the keys.** -/
theorem exec_step (c : Cmd) (trim : ℕ) (k : Redis) :
    ∃ out, ActorPlane.Step k.room (op c trim) out (exec c trim k).2.room := by
  have h := ActorPlane.step_cases k.room (op c trim)
  cases c with
  | actorClaim instanceId => exact ⟨_, h⟩
  | actorReclaim observedOwner observedFence => exact ⟨_, h⟩
  | actorInit instanceId fence videoId mediaTime => exact ⟨_, h⟩
  | actorCommit instanceId fence next cmdId forVideoId => exact ⟨_, h⟩
  | hgetall => exact ⟨_, h⟩
  | del => exact ⟨_, h⟩
  | publish instanceId req => exact ⟨_, h⟩

theorem exec_room (c : Cmd) (trim : ℕ) (k : Redis) :
    (exec c trim k).2.room = (ActorPlane.machine.step k.room (op c trim)).1 := by cases c <;> rfl

/-- What happens to the server besides commands touches the keys by letting time pass. -/
theorem env_room (e : Env) (k : Redis) :
    ∃ d, (e.apply k).room = (ActorPlane.machine.step k.room (.tick d)).1 := by
  cases e with
  | tick d => exact ⟨d, rfl⟩
  | subscription instanceId up => exact ⟨0, rfl⟩

/-- The timeline that a reply carries. -/
def carried : (c : Cmd) → Reply c → Option Timeline
  | .actorInit _ _ _ _, r => r
  | .actorCommit _ _ _ _ _, r => r.map Answer.timeline
  | .hgetall, r => r
  | .actorClaim _, _ => none
  | .actorReclaim _ _, _ => none
  | .del, _ => none
  | .publish _ _, _ => none

/-- A timeline without its author, which `actor_init.lua` does not answer. -/
def plain (tl : Timeline) : Timeline := { tl with byUser := none }

/-- **A reply that carries a timeline carries the one that is stored** when the command is done. -/
theorem exec_carried {c : Cmd} {trim : ℕ} {k : Redis} {tl : Timeline}
    (h : carried c (exec c trim k).1 = some tl) :
    ∃ w, (exec c trim k).2.room.loadTl = some w ∧ plain tl = plain w.toTimeline := by
  cases c with
  | actorInit instanceId fence videoId mediaTime =>
    rcases Lua.actorInit_cases (initArgs instanceId fence videoId mediaTime) trim k.room with
      ⟨-, he⟩ | ⟨-, ⟨c, hc, he⟩ | ⟨-, he⟩⟩
    · simp only [exec, carried, he] at h
      cases h
    · simp only [exec, carried, he] at h ⊢
      cases h
      exact ⟨c, hc, rfl⟩
    · simp only [exec, carried, he] at h ⊢
      cases h
      exact ⟨_, Lua.stored_loadTl _ _ _ _ _ KEY_TTL_MS_pos, rfl⟩
  | actorCommit instanceId fence next cmdId forVideoId =>
    rcases Lua.actorCommit_cases (commitArgs instanceId fence next cmdId forVideoId) trim k.room with
      ⟨-, he⟩ | ⟨-, ⟨c, hc, -, he⟩ | ⟨c, hc, -, -, he⟩ | ⟨-, he⟩⟩
    · simp only [exec, carried, he] at h
      cases h
    · simp only [exec, carried, he] at h ⊢
      cases h
      exact ⟨c, hc, rfl⟩
    · simp only [exec, carried, he] at h ⊢
      cases h
      exact ⟨c, hc, rfl⟩
    · simp only [exec, carried, he] at h ⊢
      cases h
      exact ⟨_, Lua.stored_loadTl _ _ _ _ _ KEY_TTL_MS_pos, rfl⟩
  | hgetall =>
    obtain ⟨w, hw, rfl⟩ := Option.map_eq_some_iff.mp h
    exact ⟨w, hw, rfl⟩
  | actorClaim instanceId => cases h
  | actorReclaim observedOwner observedFence => cases h
  | del => cases h
  | publish instanceId req => cases h

/-! ## Runs -/

section Runs

variable {R : Type} {sys : System iface String Redis R ℕ Env}

/-- One step of the instances is at most one command on the keys. -/
theorem plane_step (hexec : sys.exec = exec) (henv : sys.env = Env.apply) {s s' : Cluster iface String Redis R}
    {a : Label iface String R ℕ Env} {o : Obs iface String R} (hs : System.Step sys s a o s') :
    ∃ ops, s'.shared.room = ActorPlane.machine.runFrom s.shared.room ops := by
  cases hs with
  | exec j trim pre post f hc hpre hf r k hr =>
    rw [hexec] at hr
    refine ⟨[op f.cmd trim], ?_⟩
    have hroom := exec_room f.cmd trim s.shared
    rw [hr] at hroom
    exact hroom
  | env e =>
    obtain ⟨d, hd⟩ := env_room e s.shared
    refine ⟨[.tick d], ?_⟩
    rw [henv]
    exact hd
  | start j r n es h => exact ⟨[], rfl⟩
  | deliver j f rest hc r hf n es h => exact ⟨[], rfl⟩
  | grant j pre post y hw hfree n es h => exact ⟨[], rfl⟩
  | reconnect j => exact ⟨[], rfl⟩
  | reject j => exact ⟨[], rfl⟩
  | restart j => exact ⟨[], rfl⟩
  | idle a => exact ⟨[], rfl⟩

/-- **On the keys, a run of the instances is a run of the keys' machine.** -/
theorem plane_run (hexec : sys.exec = exec) (henv : sys.env = Env.apply) (hshared : sys.shared = Redis.empty)
    (as : List (Label iface String R ℕ Env)) :
    ∃ ops, (sys.machine.run as).shared.room = ActorPlane.machine.run ops := by
  refine sys.machine.invariant_state (I := fun s => ∃ ops, s.shared.room = ActorPlane.machine.run ops) ?_ ?_ as
  · refine ⟨[], ?_⟩
    show sys.shared.room = _
    rw [hshared]
    rfl
  · rintro s a ⟨ops, hops⟩
    obtain ⟨ops', hstep⟩ := plane_step hexec henv (sys.step_cases s a)
    refine ⟨ops ++ ops', ?_⟩
    rw [Machine.run_append, ← hops]
    exact hstep

end Runs

end ActorRoomStateStore
end WatchParty
