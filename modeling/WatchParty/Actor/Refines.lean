import WatchParty.Actor.Store
import WatchParty.Memory.Refines

/-!
# The actor plane and the shared scripts

One instance that runs the actor store alone, its calls one after the other, beside the shared scripts that are asked
the same calls at the same time. Time passes between the calls, and the instance renews its lease between them or not.

- `actor`, `scripts`: the two planes as machines over the same acts;
- `Twin`: what the keys and the cache of the one have to do with the keys of the other;
- `Heeded`: the two ways in which a call can be answered differently do not arise;
- `actor_refines_scripts_iff`: the planes answer a run alike exactly when every call of it is heeded.
-/

namespace WatchParty
namespace ActorRoomStateStore

open Stores (Request)

/-- A call, a run of the renewal timer, or the passing of time. `trim` is what Redis drops of the log beyond its
bound. -/
inductive Act
  | call (c : Request) (trim : ℕ)
  | renew
  | tick (d : ℕ)

/-! ## The two planes -/

/-- The instance and the server. -/
structure Alone where
  loc : Local
  redis : Redis

/-- What the instance answers to a call at `now`. -/
def ask (instanceId : String) (now : ℕ) : Request → Async Plane.Out
  | .init videoId mediaTime => do
    let tl ← init instanceId videoId mediaTime now
    pure (.timeline (some tl))
  | .applyControl req => do
    let o ← applyControl instanceId req now
    pure (.outcome o)
  | .get => do
    let tl ← get
    pure (.timeline tl)

/-- The server, with a fixed choice of what it drops of the log. -/
def served (trim : ℕ) (c : iface.Cmd) (k : Redis) : iface.Reply c × Redis := exec c trim k

/-- A program of the instance that runs to its end. -/
def Alone.after (s : Alone) {α : Type} (trim : ℕ) (p : Async α) : Alone × α :=
  let r := p.alone (served trim) s.loc s.redis
  (⟨r.2.1, r.2.2⟩, r.1)

/-- A timeline without its version, which the planes mint differently. -/
def relative (tl : Timeline) : Draft := { tl.toDraft with storeEpoch := 0 }

/-- What a caller is answered, relative to the version. -/
inductive Seen
  | committed (tl : Draft)
  | duplicate (tl : Draft)
  | fenced (tl : Draft)
  | forwarded
  | missing
  | timeline (tl : Option Draft)
  | done
  deriving DecidableEq, Repr

def seen : Plane.Out → Seen
  | .outcome (.committed tl) => .committed (relative tl)
  | .outcome (.duplicate tl) => .duplicate (relative tl)
  | .outcome (.fenced tl) => .fenced (relative tl)
  | .outcome .forwarded => .forwarded
  | .outcome .missing => .missing
  | .timeline tl => .timeline (tl.map relative)
  | .done => .done

/-- A new video that is sent with an expectation of the stored one which the stored one does not meet. -/
def SwitchFenced (req : ControlReq) (w : TlHash) : Prop :=
  req.intent = .setVideo ∧ req.forVideoId.isSome = true ∧ w.videoId ≠ textOf req.forVideoId.join

instance (req : ControlReq) (w : TlHash) : Decidable (SwitchFenced req w) := by
  unfold SwitchFenced
  infer_instance

/-- The instance still caches a timeline whose key is gone. -/
def Alone.Outlived (s : Alone) : Prop := s.loc.owned.isSome = true ∧ s.redis.room.loadTl = none

/-- The command of a control has a live dedup record. -/
def Known (req : ControlReq) (σ : Room) : Prop := textOf req.cmdId ≠ "" ∧ (σ.getCmd (textOf req.cmdId)).isSome = true

/-- A control does not meet a cached timeline whose key is gone while the lease of the cache is held, nor, with a new
video that is not recorded yet, a stored video that it did not expect. -/
def Allowed (instanceId : String) (req : ControlReq) (x : Alone) : Prop :=
  (∀ entry ∈ x.loc.owned, Lua.Holds instanceId entry.fence x.redis.room → x.redis.room.loadTl ≠ none) ∧
    ∀ w ∈ x.redis.room.loadTl, SwitchFenced req w → Known req x.redis.room

/-- What both planes store of a timeline. -/
def bare (h : TlHash) : TlHash := { h with seq := 0, storeEpoch := 0, lastSweepWindow := none }

/-- The two planes hold the same timeline and remember the same commands, each until the same instant. A lease is the
instance's own, and what the instance caches is what is, or was last, stored. -/
structure Twin (instanceId : String) (x : Alone) (s : Room) : Prop where
  now : x.redis.room.now = s.now
  tl : x.redis.room.tl.map (fun st => (bare st.val, st.expiresAt)) = s.tl.map fun st => (bare st.val, st.expiresAt)
  expiry : ∀ st ∈ x.redis.room.tl, (st.expiresAt : ℚ) = st.val.stampedAt + KEY_TTL_MS
  cmd : ∀ id, (x.redis.room.cmd id).map Stored.expiresAt = (s.cmd id).map Stored.expiresAt
  lease : ∀ st ∈ x.redis.room.lease, st.val.owner = instanceId
  owned : ∀ entry ∈ x.loc.owned, ∃ st, x.redis.room.tl = some st ∧ entry.timeline = st.val.toTimeline

section Twin

variable {instanceId : String} {x : Alone} {s : Room}

/-- Time passes. -/
theorem Twin.tick (h : Twin instanceId x s) (d : ℕ) :
    Twin instanceId { x with redis := Env.apply (.tick d) x.redis } (s.tick d) where
  now := congrArg (· + d) h.now
  tl := h.tl
  expiry := h.expiry
  cmd := h.cmd
  lease := h.lease
  owned := h.owned

/-- Both planes read the same timeline. -/
theorem Twin.loadTl (h : Twin instanceId x s) : x.redis.room.loadTl.map bare = s.loadTl.map bare := by
  have htl := h.tl
  unfold Room.loadTl
  rw [h.now]
  cases hx : x.redis.room.tl with
  | none =>
    rw [hx, Option.map_none, eq_comm, Option.map_eq_none_iff] at htl
    rw [htl]
  | some st =>
    rw [hx, Option.map_some, eq_comm, Option.map_eq_some_iff] at htl
    obtain ⟨st', hs, he⟩ := htl
    obtain ⟨hval, hexp⟩ := Prod.mk.inj he
    rw [hs]
    simp only [Expiring.get, hexp]
    split
    · rw [Option.map_some, Option.map_some, hval]
    · rfl

/-- Both planes remember the same commands. -/
theorem Twin.getCmd (h : Twin instanceId x s) (id : String) :
    (x.redis.room.getCmd id).isSome = (s.getCmd id).isSome := by
  have hcmd := h.cmd id
  unfold Room.getCmd
  rw [h.now]
  cases hx : x.redis.room.cmd id with
  | none =>
    rw [hx, Option.map_none, eq_comm, Option.map_eq_none_iff] at hcmd
    rw [hcmd]
  | some st =>
    rw [hx, Option.map_some, eq_comm, Option.map_eq_some_iff] at hcmd
    obtain ⟨st', hs, he⟩ := hcmd
    rw [hs]
    simp only [Expiring.get, he]
    split <;> rfl

/-- A live timeline that is cached is the stored one. -/
theorem Twin.cached (h : Twin instanceId x s) {entry : Owned} (he : x.loc.owned = some entry) {w : TlHash}
    (hw : x.redis.room.loadTl = some w) : entry.timeline = w.toTimeline := by
  obtain ⟨st, hst, htl⟩ := h.owned entry he
  obtain ⟨st', hst', -, rfl⟩ := Expiring.get_eq_some.mp hw
  rw [hst, Option.some_inj] at hst'
  rw [htl, hst']

/-- What the instance caches is dropped, or taken from the store. -/
theorem Twin.cache (h : Twin instanceId x s) {owned : Option Owned}
    (ho : ∀ entry ∈ owned, ∃ w, x.redis.room.loadTl = some w ∧ entry.timeline = w.toTimeline) :
    Twin instanceId { x with loc := { x.loc with owned := owned } } s where
  now := h.now
  tl := h.tl
  expiry := h.expiry
  cmd := h.cmd
  lease := h.lease
  owned entry he := by
    obtain ⟨w, hw, htl⟩ := ho entry he
    obtain ⟨st, hst, -, rfl⟩ := Expiring.get_eq_some.mp hw
    exact ⟨st, hst, htl⟩

/-- The instance claims its lease or renews it. -/
theorem Twin.claimed (h : Twin instanceId x s) (epoch : ℚ) :
    Twin instanceId { x with redis := { x.redis with room := ActorPlane.granted ⟨instanceId, epoch⟩ x.redis.room } } s where
  now := h.now
  tl := h.tl
  expiry := h.expiry
  cmd := h.cmd
  lease st hst := by
    rw [Option.mem_def, ActorPlane.granted, Expiring.put, Option.some_inj] at hst
    rw [← hst]
  owned := h.owned

/-- A claim of the only instance succeeds. -/
theorem Twin.claim (h : Twin instanceId x s) (trim : ℕ) : ∃ epoch, served trim (.actorClaim instanceId) x.redis =
    (⟨⟨instanceId, epoch⟩, true⟩,
      { x.redis with room := ActorPlane.granted ⟨instanceId, epoch⟩ x.redis.room }) := by
  rcases Lua.actorClaim_cases instanceId LEASE_TTL_MS x.redis.room with
    ⟨-, he⟩ | ⟨lease, -, ho, he⟩ | ⟨lease, hl, ho, -⟩
  · exact ⟨x.redis.room.now, by simp only [served, exec, he]; rfl⟩
  · obtain ⟨owner, epoch⟩ := lease
    obtain rfl : owner = instanceId := ho
    exact ⟨epoch, by simp only [served, exec, he]; rfl⟩
  · obtain ⟨st, hst, -, rfl⟩ := Expiring.get_eq_some.mp hl
    exact absurd (h.lease st hst) ho

/-! ## Commits -/

/-- The arguments of the commit of a control that was computed from `w`. -/
def controlArgs (instanceId : String) (f : ℚ) (req : ControlReq) (now : ℚ) (w : TlHash) : Lua.ActorCommitArgs :=
  commitArgs instanceId f (WatchParty.applyControl w.toTimeline req.intent req.mediaTime now req.byUser req.videoId)
    req.cmdId req.forVideoId

/-- Both planes store a timeline that is stamped now. -/
theorem Twin.stored (h : Twin instanceId x s) {new new' : TlHash} (hb : bare new = bare new')
    (hstamp : new.stampedAt = x.redis.room.now) (cmdId : String) (trim : ℕ) {σ σ' : Room}
    (hnow : σ.now = x.redis.room.now) (hlease : σ.lease = x.redis.room.lease) (hnow' : σ'.now = s.now)
    (hcmd : ∀ id, (σ.cmd id).map Stored.expiresAt = (σ'.cmd id).map Stored.expiresAt) {owned : Option Owned}
    (ho : ∀ entry ∈ owned, entry.timeline = new.toTimeline) :
    Twin instanceId
      ⟨{ x.loc with owned := owned }, { x.redis with room := Lua.stored new cmdId trim KEY_TTL_MS σ }⟩
      (Lua.committed new' cmdId trim σ') where
  now := by rw [Lua.stored_now, Lua.committed_now, hnow, hnow', h.now]
  tl := by
    rw [Lua.stored_tl, Lua.committed_tl, hnow, hnow', h.now]
    exact congrArg (fun b => some (b, s.now + Lua.keyTtlMs)) hb
  expiry st hst := by
    rw [Lua.stored_tl, Option.mem_def, Expiring.put, Option.some_inj] at hst
    rw [← hst, hstamp, hnow]
    push_cast
    rfl
  cmd := hcmd
  lease st hst := h.lease st (hlease ▸ hst)
  owned entry he := ⟨_, Lua.stored_tl _ _ _ _ _, ho entry he⟩

/-- A control restamps a stored timeline alike in both planes. -/
theorem bare_controlled (instanceId : String) (f : ℚ) (req : ControlReq) (now : ℕ) {w w' : TlHash} (hb : bare w = bare w') :
    bare (Lua.actorCommitted (controlArgs instanceId f req now w) now (some w)) =
      bare (Lua.controlled (RedisRoomStateStore.controlArgs req) now w') := by
  simp only [bare, TlHash.mk.injEq] at hb
  obtain ⟨-, -, hv, hp, -⟩ := hb
  cases hi : req.intent <;>
    simp [bare, Lua.actorCommitted, controlArgs, commitArgs, WatchParty.applyControl, Lua.controlled,
      RedisRoomStateStore.controlArgs, TlHash.toTimeline, hi, hv, hp, ControlIntent.reason]

/-- The dedup records that the two planes leave. -/
theorem Twin.record (h : Twin instanceId x s) (f : ℚ) (req : ControlReq) (now : ℚ) (w w' : TlHash) (id : String) :
    ((Lua.actorRecord (controlArgs instanceId f req now w) (some w) x.redis.room).cmd id).map Stored.expiresAt =
      ((Lua.record (RedisRoomStateStore.controlArgs req) w' s).cmd id).map Stored.expiresAt := by
  have hcmd := h.cmd id
  by_cases hc : textOf req.cmdId = ""
  · simpa [Lua.actorRecord, controlArgs, commitArgs, Lua.record, RedisRoomStateStore.controlArgs, hc] using hcmd
  · by_cases hid : id = textOf req.cmdId
    · subst hid
      simp [Lua.actorRecord, controlArgs, commitArgs, Lua.record, RedisRoomStateStore.controlArgs, hc, Room.setCmd, Expiring.put,
        h.now]
    · simpa [Lua.actorRecord, controlArgs, commitArgs, Lua.record, RedisRoomStateStore.controlArgs, hc, Room.setCmd, hid] using hcmd

end Twin

/-- The commit of a control that was computed from the stored timeline, and the control in the shared scripts. -/
structure Settled (instanceId : String) (f : ℚ) (req : ControlReq) (x : Alone) (s : Room) (trim : ℕ) (w : TlHash)
    (answer answer' : Answer) (σ σ' : Room) : Prop where
  commit : Lua.actorCommit (controlArgs instanceId f req x.redis.room.now w) trim x.redis.room = (some answer, σ)
  control : Lua.applyControl (RedisRoomStateStore.controlArgs req) trim s = (some answer', σ')

theorem relative_of_bare {w w' : TlHash} (hb : bare w = bare w') : relative w.toTimeline = relative w'.toTimeline := by
  simp only [bare, TlHash.mk.injEq] at hb
  obtain ⟨-, -, hv, hp, hm, hst, hr, hby, -⟩ := hb
  simp only [relative, TlHash.toTimeline, hv, hp, hm, hst, hr, hby]

section Settled

variable {instanceId : String} {x : Alone} {s : Room}

/-- **A control is answered alike and leaves the planes alike**, unless it is a new video that does not meet the
stored one it was sent with and is not recorded: then the actor plane fences what the shared scripts commit. -/
theorem Twin.settled (h : Twin instanceId x s) {f : ℚ} (hh : Lua.Holds instanceId f x.redis.room) {w : TlHash}
    (hw : x.redis.room.loadTl = some w) (req : ControlReq) (trim : ℕ) :
    ∃ answer answer' σ σ', Settled instanceId f req x s trim w answer answer' σ σ' ∧
      ((SwitchFenced req w ∧ ¬Known req x.redis.room ∧ answer.marker = some .fenced ∧ answer'.marker = none) ∨
       ((SwitchFenced req w → Known req x.redis.room) ∧ answer.marker = answer'.marker ∧
          relative answer.timeline = relative answer'.timeline ∧
          Twin instanceId ⟨{ x.loc with owned := some ⟨f, answer.timeline⟩ }, { x.redis with room := σ }⟩ σ')) := by
  obtain ⟨w', hw', hb⟩ : ∃ w', s.loadTl = some w' ∧ bare w = bare w' := by
    have hload := h.loadTl
    rw [hw, Option.map_some, eq_comm, Option.map_eq_some_iff] at hload
    obtain ⟨w', hw', he⟩ := hload
    exact ⟨w', hw', he.symm⟩
  have hvid : w.videoId = w'.videoId := by
    simp only [bare, TlHash.mk.injEq] at hb
    exact hb.2.2.1
  have hknown : Known req x.redis.room ↔ Lua.Recorded (RedisRoomStateStore.controlArgs req) s := by
    simp only [Known, Lua.Recorded, RedisRoomStateStore.controlArgs, h.getCmd]
  have hcache : Twin instanceId { x with loc := { x.loc with owned := some ⟨f, w.toTimeline⟩ } } s :=
    h.cache fun entry he => ⟨w, hw, by cases he; rfl⟩
  by_cases hk : Known req x.redis.room
  · exact ⟨encode w (some .dup), encode w' (some .dup), x.redis.room, s,
      ⟨Lua.actorCommit_dup hh hw hk, Lua.applyControl_dup hw' (hknown.mp hk)⟩,
      Or.inr ⟨fun _ => hk, rfl, relative_of_bare hb, hcache⟩⟩
  · have hrec : ¬Lua.Recorded (RedisRoomStateStore.controlArgs req) s := mt hknown.mpr hk
    by_cases hf : req.forVideoId.isSome = true ∧ w.videoId ≠ textOf req.forVideoId.join
    · by_cases hi : req.intent = .setVideo
      · -- the actor plane fences it, the shared scripts commit it
        have hf' : ¬Lua.FencedOut (RedisRoomStateStore.controlArgs req) w' := fun hf' => hf'.2.1 hi
        exact ⟨encode w (some .fenced), encode (Lua.controlled (RedisRoomStateStore.controlArgs req) s.now w') none, _, _,
          ⟨Lua.actorCommit_fenced hh hw hk hf, Lua.applyControl_committed hw' hrec hf'⟩,
          Or.inl ⟨⟨hi, hf⟩, hk, rfl, rfl⟩⟩
      · have hf' : Lua.FencedOut (RedisRoomStateStore.controlArgs req) w' := ⟨hf.1, hi, hvid ▸ hf.2⟩
        exact ⟨encode w (some .fenced), encode w' (some .fenced), x.redis.room, s,
          ⟨Lua.actorCommit_fenced hh hw hk hf, Lua.applyControl_fenced hw' hrec hf'⟩,
          Or.inr ⟨fun hsw => absurd hsw.1 hi, rfl, relative_of_bare hb, hcache⟩⟩
    · have hf' : ¬Lua.FencedOut (RedisRoomStateStore.controlArgs req) w' := fun hf' =>
        hf ⟨hf'.1, hvid ▸ hf'.2.2⟩
      have hok : ∀ c, x.redis.room.loadTl = some c →
          ¬Lua.ActorRecorded (controlArgs instanceId f req x.redis.room.now w) x.redis.room ∧
            ¬Lua.ActorFencedOut (controlArgs instanceId f req x.redis.room.now w) c := by
        intro c hc
        obtain rfl := Option.some_inj.mp (hw.symm.trans hc)
        exact ⟨hk, hf⟩
      have hnew := bare_controlled instanceId f req x.redis.room.now hb
      rw [h.now] at hnew
      have hcommit := Lua.actorCommit_committed trim hh hok
      rw [hw] at hcommit
      refine ⟨_, _, _, _, ⟨hcommit, Lua.applyControl_committed hw' hrec hf'⟩,
        Or.inr ⟨fun hsw => absurd hsw.2 hf, rfl, ?_, ?_⟩⟩
      · exact relative_of_bare (h.now ▸ hnew)
      · refine h.stored (h.now ▸ hnew) rfl (textOf req.cmdId) trim (Lua.actorRecord_now _ _ _)
          (Lua.actorRecord_lease _ _ _) (Lua.record_now _ _ _) (h.record f req x.redis.room.now w w') ?_
        intro entry he
        cases he
        rfl

end Settled

/-! ## What the instance does alone -/

section Programs

variable {instanceId : String} {x : Alone} {s : Room} (trim : ℕ)

theorem alone_get_cached {l : Local} {entry : Owned} (h : l.owned = some entry) (k : Redis) :
    get.alone (served trim) l k = (some entry.timeline, l, k) := by
  refine (Prog.alone_get_seq _ _ _).trans ?_
  rw [h]
  rfl

theorem alone_get_stored {l : Local} (h : l.owned = none) (k : Redis) :
    get.alone (served trim) l k = (k.room.loadTl.map TlHash.toTimeline, l, k) := by
  refine (Prog.alone_get_seq _ _ _).trans ?_
  rw [h]
  rfl

/-- A commit that is answered. -/
theorem alone_commit {l : Local} {k : Redis} {f : ℚ} {next : Draft} {cmdId : Option String}
    {forVideoId : Option (Option String)} {answer : Answer} {σ : Room}
    (h : Lua.actorCommit (commitArgs instanceId f next cmdId forVideoId) trim k.room = (some answer, σ)) :
    (commit instanceId f next cmdId forVideoId).alone (served trim) l k =
      (some answer, { l with owned := l.owned.map fun entry => { entry with timeline := answer.timeline } },
        { k with room := σ }) := by
  have hexec : served trim (.actorCommit instanceId f next cmdId forVideoId) k = (some answer, { k with room := σ }) := by
    simp only [served, exec, h]
    rfl
  exact (Prog.alone_call_seq hexec).trans rfl

/-- A commit that is fenced out. -/
theorem alone_commit_fencedOut {l : Local} {k : Redis} {f : ℚ} {next : Draft} {cmdId : Option String}
    {forVideoId : Option (Option String)} (h : ¬Lua.Holds instanceId f k.room) :
    (commit instanceId f next cmdId forVideoId).alone (served trim) l k = (none, { l with owned := none }, k) := by
  have hc : Lua.actorCommit (commitArgs instanceId f next cmdId forVideoId) trim k.room = (none, k.room) := by
    simp only [Lua.actorCommit]
    exact if_neg h
  have hexec : served trim (.actorCommit instanceId f next cmdId forVideoId) k = (none, k) := by
    simp only [served, exec, hc]
    rfl
  exact (Prog.alone_call_seq hexec).trans rfl

/-- The instance commits a control from the stored timeline, under a lease that it holds. -/
structure Decides (instanceId : String) (req : ControlReq) (trim : ℕ) (x : Alone) (s : Room) (f : ℚ) (w : TlHash)
    (x' : Alone) : Prop where
  twin : Twin instanceId x' s
  cmd : x'.redis.room.cmd = x.redis.room.cmd
  held : Lua.Holds instanceId f x'.redis.room
  stored : x'.redis.room.loadTl = some w
  answer : ∀ answer σ, Lua.actorCommit (controlArgs instanceId f req x.redis.room.now w) trim x'.redis.room =
      (some answer, σ) →
    (applyControl instanceId req x.redis.room.now).alone (served trim) x.loc x.redis =
      (outcome answer, { x'.loc with owned := some ⟨f, answer.timeline⟩ }, { x'.redis with room := σ })

theorem after_eq {α : Type} {p : Async α} {a : α} {l : Local} {k : Redis}
    (h : p.alone (served trim) x.loc x.redis = (a, l, k)) : x.after trim p = (⟨l, k⟩, a) := by
  rw [Alone.after, h]

/-- The instance takes up the stored timeline. -/
theorem alone_adopt {l : Local} {k : Redis} (h : l.owned = none) (epoch : ℚ) {w : TlHash} (hw : k.room.loadTl = some w) :
    (adopt epoch).alone (served trim) l k =
      (.inr ⟨epoch, w.toTimeline⟩, { l with owned := some ⟨epoch, w.toTimeline⟩ }, k) := by
  refine (Prog.alone_seq (alone_get_stored trim h k)).trans ?_
  rw [hw]
  rfl

theorem alone_adopt_missing {l : Local} {k : Redis} (h : l.owned = none) (epoch : ℚ) (hw : k.room.loadTl = none) :
    (adopt epoch).alone (served trim) l k = (.inl .missing, l, k) := by
  refine (Prog.alone_seq (alone_get_stored trim h k)).trans ?_
  rw [hw]
  rfl

/-- The server after a claim of the only instance. -/
def leased (instanceId : String) (epoch : ℚ) (k : Redis) : Redis :=
  { k with room := ActorPlane.granted ⟨instanceId, epoch⟩ k.room }

/-- An instance without a cached timeline acquires the room as it finds it after a claim. -/
theorem alone_acquire {l : Local} {k : Redis} (h : l.owned = none) {epoch : ℚ} (req : ControlReq)
    (hc : served trim (.actorClaim instanceId) k = (⟨⟨instanceId, epoch⟩, true⟩, leased instanceId epoch k)) :
    (acquire instanceId req).alone (served trim) l k =
      (adopt epoch).alone (served trim) l (leased instanceId epoch k) := by
  refine (Prog.alone_get_seq _ _ _).trans ?_
  rw [h]
  refine (Prog.alone_call_seq hc).trans ?_
  rfl

/-- A control that misses the room, and one that commits from an entry and is answered. -/
theorem alone_serial_missing {l l' : Local} {k k' : Redis} {req : ControlReq} (serverNow : ℚ)
    (h : (acquire instanceId req).alone (served trim) l k = (.inl .missing, l', k')) :
    (applyControl instanceId req serverNow).alone (served trim) l k = (.missing, l', k') := by
  refine (Prog.alone_within _ _ _ _ _).trans ?_
  exact (Prog.alone_seq h).trans rfl

theorem alone_serial_answered {l l' : Local} {k k' : Redis} {req : ControlReq} {serverNow f : ℚ} {w : TlHash}
    (h : (acquire instanceId req).alone (served trim) l k = (.inr ⟨f, w.toTimeline⟩, l', k'))
    (hl : l'.owned = some ⟨f, w.toTimeline⟩) {answer : Answer} {σ : Room}
    (hc : Lua.actorCommit (controlArgs instanceId f req serverNow w) trim k'.room = (some answer, σ)) :
    (applyControl instanceId req serverNow).alone (served trim) l k =
      (outcome answer, { l' with owned := some ⟨f, answer.timeline⟩ }, { k' with room := σ }) := by
  have hcommit := alone_commit (l := l') trim hc
  rw [hl] at hcommit
  refine (Prog.alone_within _ _ _ _ _).trans ?_
  refine (Prog.alone_seq h).trans ?_
  exact (Prog.alone_seq hcommit).trans rfl

/-- A control whose first commit is fenced out is retried. -/
theorem alone_serial_retry {l : Local} {k : Redis} {req : ControlReq} {serverNow : ℚ} {entry : Owned}
    (h : l.owned = some entry) (hh : ¬Lua.Holds instanceId entry.fence k.room) :
    (applyControl instanceId req serverNow).alone (served trim) l k =
      (retry instanceId req serverNow).alone (served trim) { l with owned := none } k := by
  have hacquire : (acquire instanceId req).alone (served trim) l k = (.inr entry, l, k) := by
    refine (Prog.alone_get_seq _ _ _).trans ?_
    rw [h]
    rfl
  refine (Prog.alone_within _ _ _ _ _).trans ?_
  refine (Prog.alone_seq hacquire).trans ?_
  exact (Prog.alone_seq (alone_commit_fencedOut trim hh)).trans rfl

theorem alone_retry_missing {l : Local} {k : Redis} (h : l.owned = none) {epoch : ℚ} (req : ControlReq) (serverNow : ℚ)
    (hc : served trim (.actorClaim instanceId) k = (⟨⟨instanceId, epoch⟩, true⟩, leased instanceId epoch k))
    (hw : k.room.loadTl = none) :
    (retry instanceId req serverNow).alone (served trim) l k = (.missing, l, leased instanceId epoch k) := by
  refine (Prog.alone_call_seq hc).trans ?_
  refine (Prog.alone_seq (alone_get_stored trim h _)).trans ?_
  rw [show (leased instanceId epoch k).room.loadTl = none from hw]
  rfl

theorem alone_retry_answered {l : Local} {k : Redis} (h : l.owned = none) {epoch : ℚ} {req : ControlReq} {serverNow : ℚ}
    (hc : served trim (.actorClaim instanceId) k = (⟨⟨instanceId, epoch⟩, true⟩, leased instanceId epoch k))
    {w : TlHash} (hw : k.room.loadTl = some w) {answer : Answer} {σ : Room}
    (hcommit : Lua.actorCommit (controlArgs instanceId epoch req serverNow w) trim (leased instanceId epoch k).room =
      (some answer, σ)) :
    (retry instanceId req serverNow).alone (served trim) l k =
      (outcome answer, { l with owned := some ⟨epoch, answer.timeline⟩ }, { leased instanceId epoch k with room := σ }) := by
  refine (Prog.alone_call_seq hc).trans ?_
  refine (Prog.alone_seq (alone_get_stored trim h _)).trans ?_
  rw [show (leased instanceId epoch k).room.loadTl = some w from hw]
  exact (Prog.alone_seq (alone_commit (l := { l with owned := some ⟨epoch, w.toTimeline⟩ }) trim hcommit)).trans rfl

/-- A control misses the room when nothing is stored, and is decided by a commit from the stored timeline otherwise.
The lease may have been lost: then the first commit is fenced out, and the second decides. -/
theorem Twin.decides (h : Twin instanceId x s) (req : ControlReq)
    (hheld : ∀ entry ∈ x.loc.owned, Lua.Holds instanceId entry.fence x.redis.room → x.redis.room.loadTl ≠ none) :
    (x.redis.room.loadTl = none ∧ ∃ l k, Twin instanceId ⟨l, k⟩ s ∧
      (applyControl instanceId req x.redis.room.now).alone (served trim) x.loc x.redis = (.missing, l, k)) ∨
    ∃ f w x', x.redis.room.loadTl = some w ∧ Decides instanceId req trim x s f w x' := by
  obtain ⟨epoch, hclaim⟩ := h.claim trim
  have hgranted : Lua.Holds instanceId epoch (leased instanceId epoch x.redis).room :=
    ActorPlane.granted_leaseNow _ _
  have hclaimed : Twin instanceId ⟨x.loc, leased instanceId epoch x.redis⟩ s := h.claimed epoch
  cases hx : x.loc.owned with
  | none =>
    cases hw : x.redis.room.loadTl with
    | none =>
      refine Or.inl ⟨rfl, _, _, hclaimed, alone_serial_missing trim _ ?_⟩
      exact (alone_acquire trim hx req hclaim).trans (alone_adopt_missing trim hx epoch hw)
    | some w =>
      refine Or.inr ⟨epoch, w, ⟨{ x.loc with owned := some ⟨epoch, w.toTimeline⟩ }, leased instanceId epoch x.redis⟩, rfl,
        ?_, rfl, hgranted, hw, fun answer σ hc => ?_⟩
      · exact hclaimed.cache fun entry he => ⟨w, hw, by cases he; rfl⟩
      · refine alone_serial_answered trim ?_ rfl hc
        exact (alone_acquire trim hx req hclaim).trans (alone_adopt trim hx epoch hw)
  | some entry =>
    by_cases hh : Lua.Holds instanceId entry.fence x.redis.room
    · obtain ⟨w, hw⟩ := Option.ne_none_iff_exists'.mp (hheld entry hx hh)
      have hentry : entry = ⟨entry.fence, w.toTimeline⟩ := by rw [← h.cached hx hw]
      refine Or.inr ⟨entry.fence, w, x, hw, h, rfl, hh, hw, fun answer σ hc => ?_⟩
      refine alone_serial_answered trim ?_ (hx.trans (congrArg some hentry)) hc
      refine (Prog.alone_get_seq _ _ _).trans ?_
      rw [hx, ← hentry]
      rfl
    · have hdropped : Twin instanceId ⟨{ x.loc with owned := none }, leased instanceId epoch x.redis⟩ s :=
        hclaimed.cache fun entry he => by cases he
      cases hw : x.redis.room.loadTl with
      | none =>
        refine Or.inl ⟨rfl, _, _, hdropped, ?_⟩
        exact (alone_serial_retry trim hx hh).trans (alone_retry_missing trim rfl req _ hclaim hw)
      | some w =>
        refine Or.inr ⟨epoch, w, ⟨{ x.loc with owned := none }, leased instanceId epoch x.redis⟩, rfl, hdropped, rfl,
          hgranted, hw, fun answer σ hc => ?_⟩
        exact (alone_serial_retry trim hx hh).trans (alone_retry_answered trim rfl hclaim hw hc)

/-- An instance that caches a timeline answers `init` with it. -/
theorem alone_init_cached {l : Local} {k : Redis} {entry : Owned} (h : l.owned = some entry) (videoId : Option String)
    (mediaTime serverNow : ℚ) :
    (init instanceId videoId mediaTime serverNow).alone (served trim) l k = (entry.timeline, l, k) := by
  refine (Prog.alone_seq (alone_get_cached trim h k)).trans ?_
  rfl

theorem alone_init_stored {l : Local} {k : Redis} (h : l.owned = none) {w : TlHash} (hw : k.room.loadTl = some w)
    (videoId : Option String) (mediaTime serverNow : ℚ) :
    (init instanceId videoId mediaTime serverNow).alone (served trim) l k = (w.toTimeline, l, k) := by
  refine (Prog.alone_seq (alone_get_stored trim h k)).trans ?_
  rw [hw]
  rfl

/-- An instance that finds no timeline creates one under its lease. -/
theorem alone_init_created {l : Local} {k : Redis} (h : l.owned = none) (hw : k.room.loadTl = none) {epoch : ℚ}
    (hc : served trim (.actorClaim instanceId) k = (⟨⟨instanceId, epoch⟩, true⟩, leased instanceId epoch k))
    (videoId : Option String) (mediaTime serverNow : ℚ) :
    let new := Lua.actorBorn (initArgs instanceId epoch videoId mediaTime) k.room.now
    (init instanceId videoId mediaTime serverNow).alone (served trim) l k =
      (new.toTimeline, { l with owned := some ⟨epoch, new.toTimeline⟩ },
        { leased instanceId epoch k with room := Lua.stored new "" trim KEY_TTL_MS (leased instanceId epoch k).room }) := by
  intro new
  have hinit : served trim (.actorInit instanceId epoch videoId mediaTime) (leased instanceId epoch k) =
      (some new.toTimeline,
        { leased instanceId epoch k with
          room := Lua.stored new "" trim KEY_TTL_MS (leased instanceId epoch k).room }) := by
    have hh : Lua.Holds instanceId epoch (leased instanceId epoch k).room := ActorPlane.granted_leaseNow _ _
    rcases Lua.actorInit_cases (initArgs instanceId epoch videoId mediaTime) trim (leased instanceId epoch k).room with
      ⟨hn, -⟩ | ⟨-, ⟨c, hload, -⟩ | ⟨-, he⟩⟩
    · exact absurd hh hn
    · rw [show (leased instanceId epoch k).room.loadTl = none from hw] at hload
      cases hload
    · simp only [served, exec, he]
      rfl
  refine (Prog.alone_seq (alone_get_stored trim h k)).trans ?_
  rw [hw]
  refine (Prog.alone_call_seq hc).trans ?_
  refine (Prog.alone_call_seq hinit).trans ?_
  rfl

end Programs

/-! ## One call -/

section Calls

variable {instanceId : String} {x : Alone} {s : Room} (trim : ℕ)

theorem ask_get {now : ℕ} {tl : Option Timeline} {l : Local} {k : Redis}
    (h : get.alone (served trim) x.loc x.redis = (tl, l, k)) :
    x.after trim (ask instanceId now .get) = (⟨l, k⟩, .timeline tl) :=
  after_eq trim ((Prog.alone_seq h).trans rfl)

theorem ask_init {now : ℕ} {videoId : Option String} {mediaTime : ℚ} {tl : Timeline} {l : Local} {k : Redis}
    (h : (init instanceId videoId mediaTime now).alone (served trim) x.loc x.redis = (tl, l, k)) :
    x.after trim (ask instanceId now (.init videoId mediaTime)) = (⟨l, k⟩, .timeline (some tl)) :=
  after_eq trim ((Prog.alone_seq h).trans rfl)

theorem ask_applyControl {now : ℕ} {req : ControlReq} {o : ApplyOutcome} {l : Local} {k : Redis}
    (h : (applyControl instanceId req now).alone (served trim) x.loc x.redis = (o, l, k)) :
    x.after trim (ask instanceId now (.applyControl req)) = (⟨l, k⟩, .outcome o) :=
  after_eq trim ((Prog.alone_seq h).trans rfl)

/-- The stored timelines are there or gone together. -/
theorem Twin.loadTl_cases (h : Twin instanceId x s) :
    (x.redis.room.loadTl = none ∧ s.loadTl = none) ∨
    ∃ w w', x.redis.room.loadTl = some w ∧ s.loadTl = some w' ∧ bare w = bare w' := by
  have hload := h.loadTl
  cases hw : x.redis.room.loadTl with
  | none =>
    rw [hw, Option.map_none, eq_comm, Option.map_eq_none_iff] at hload
    exact Or.inl ⟨rfl, hload⟩
  | some w =>
    rw [hw, Option.map_some, eq_comm, Option.map_eq_some_iff] at hload
    obtain ⟨w', hw', hb⟩ := hload
    exact Or.inr ⟨w, w', rfl, hw', hb.symm⟩

/-- `get` is answered alike unless the cached timeline has outlived its key. -/
theorem Twin.get (h : Twin instanceId x s) :
    (seen (x.after trim (ask instanceId x.redis.room.now .get)).2 = seen (Plane.step s (Request.redis trim .get)).2 ↔
      ¬x.Outlived) ∧ (x.after trim (ask instanceId x.redis.room.now .get)).1 = x := by
  cases hx : x.loc.owned with
  | none =>
    rw [ask_get trim (alone_get_stored trim hx _)]
    refine ⟨iff_of_true ?_ (by simp [Alone.Outlived, hx]), rfl⟩
    rcases h.loadTl_cases with ⟨hw, hw'⟩ | ⟨w, w', hw, hw', hb⟩
    · simp [seen, Request.redis, Plane.step, RedisRoomStateStore.get, hw, hw']
    · simp [seen, Request.redis, Plane.step, RedisRoomStateStore.get, hw, hw', relative_of_bare hb]
  | some entry =>
    rw [ask_get trim (alone_get_cached trim hx _)]
    refine ⟨?_, rfl⟩
    rcases h.loadTl_cases with ⟨hw, hw'⟩ | ⟨w, w', hw, hw', hb⟩
    · simp [seen, Request.redis, Plane.step, RedisRoomStateStore.get, Alone.Outlived, hx, hw, hw']
    · simp [seen, Request.redis, Plane.step, RedisRoomStateStore.get, Alone.Outlived, hx, hw, hw', h.cached hx hw,
        relative_of_bare hb]

/-- `init` is answered alike unless the cached timeline has outlived its key. -/
theorem Twin.init (h : Twin instanceId x s) (videoId : Option String) (mediaTime : ℚ) :
    (seen (x.after trim (ask instanceId x.redis.room.now (.init videoId mediaTime))).2 =
        seen (Plane.step s (Request.redis trim (.init videoId mediaTime))).2 ↔ ¬x.Outlived) ∧
      (¬x.Outlived → Twin instanceId (x.after trim (ask instanceId x.redis.room.now (.init videoId mediaTime))).1
        (Plane.step s (Request.redis trim (.init videoId mediaTime))).1) := by
  have hfound : ∀ {w' : TlHash}, s.loadTl = some w' →
      Plane.step s (Request.redis trim (.init videoId mediaTime)) = (s, .timeline (some w'.toTimeline)) := by
    intro w' hw'
    simp only [Plane.step, Request.redis, RedisRoomStateStore.init, Lua.init, hw']
    rfl
  have hborn : s.loadTl = none → Plane.step s (Request.redis trim (.init videoId mediaTime)) =
      (Lua.committed (Lua.born (textOf videoId) mediaTime s.now) "" trim s,
        .timeline (some (Lua.born (textOf videoId) mediaTime s.now).toTimeline)) := by
    intro hw'
    simp only [Plane.step, Request.redis, RedisRoomStateStore.init, Lua.init, hw']
    rfl
  cases hx : x.loc.owned with
  | some entry =>
    rw [ask_init trim (alone_init_cached trim hx _ _ _)]
    rcases h.loadTl_cases with ⟨hw, hw'⟩ | ⟨w, w', hw, hw', hb⟩
    · have hout : x.Outlived := ⟨by rw [hx]; rfl, hw⟩
      refine ⟨iff_of_false (fun hseen => ?_) (not_not_intro hout), fun hn => absurd hout hn⟩
      rw [hborn hw'] at hseen
      have hstamp : entry.timeline.stampedAt = s.now := by
        have := congrArg Draft.stampedAt (Option.some_inj.mp (Seen.timeline.inj hseen))
        exact this
      obtain ⟨st, hst, htl⟩ := h.owned entry hx
      rw [htl] at hstamp
      have hgone : st.expiresAt ≤ s.now := by
        rw [← h.now]
        by_contra hlt
        rw [Room.loadTl, Expiring.get_eq_some.mpr ⟨st, hst, not_le.mp hlt, rfl⟩] at hw
        cases hw
      have hexp := h.expiry st hst
      rw [show st.val.stampedAt = s.now from hstamp] at hexp
      have hexp' : st.expiresAt = s.now + KEY_TTL_MS := by exact_mod_cast hexp
      have hpos := KEY_TTL_MS_pos
      omega
    · rw [hfound hw']
      refine ⟨iff_of_true ?_ (by simp [Alone.Outlived, hw]), fun _ => h⟩
      simp only [seen, Option.map_some, h.cached hx hw, relative_of_bare hb]
  | none =>
    have hlive : ¬x.Outlived := by simp [Alone.Outlived, hx]
    rcases h.loadTl_cases with ⟨hw, hw'⟩ | ⟨w, w', hw, hw', hb⟩
    · obtain ⟨epoch, hclaim⟩ := h.claim trim
      have hbare : bare (Lua.actorBorn (initArgs instanceId epoch videoId mediaTime) x.redis.room.now) =
          bare (Lua.born (textOf videoId) mediaTime s.now) := by
        simp [bare, Lua.actorBorn, Lua.born, initArgs, h.now]
      rw [ask_init trim (alone_init_created trim hx hw hclaim videoId mediaTime x.redis.room.now), hborn hw']
      refine ⟨iff_of_true ?_ hlive, fun _ => ?_⟩
      · simp only [seen, Option.map_some, relative_of_bare hbare]
      · refine (h.claimed epoch).stored hbare rfl "" trim rfl rfl rfl h.cmd ?_
        intro entry he
        cases he
        rfl
    · rw [ask_init trim (alone_init_stored trim hx hw _ _ _), hfound hw']
      refine ⟨iff_of_true ?_ hlive, fun _ => h⟩
      simp only [seen, Option.map_some, relative_of_bare hb]

/-- The control that the shared scripts make of a request. -/
theorem redis_applyControl {req : ControlReq} {answer : Answer} {σ : Room}
    (h : Lua.applyControl (RedisRoomStateStore.controlArgs req) trim s = (some answer, σ)) :
    Plane.step s (Request.redis trim (.applyControl req)) = (σ, .outcome (outcome answer)) := by
  simp only [Plane.step, Request.redis, RedisRoomStateStore.applyControl, h]
  obtain ⟨tl, marker⟩ := answer
  cases marker with
  | none => rfl
  | some m => cases m <;> rfl

/-- A control of an instance that holds its lease over a key that is gone commits, where the scripts miss the room. -/
theorem Twin.outlived (h : Twin instanceId x s) {req : ControlReq} {entry : Owned} (hx : x.loc.owned = some entry)
    (hh : Lua.Holds instanceId entry.fence x.redis.room) (hw : x.redis.room.loadTl = none) :
    seen (x.after trim (ask instanceId x.redis.room.now (.applyControl req))).2 ≠
      seen (Plane.step s (Request.redis trim (.applyControl req))).2 := by
  have hw' : s.loadTl = none := by
    rcases h.loadTl_cases with ⟨-, hw'⟩ | ⟨w, w', hw₁, -, -⟩
    · exact hw'
    · rw [hw] at hw₁
      cases hw₁
  obtain ⟨st, hst, htl⟩ := h.owned entry hx
  have hentry : entry = ⟨entry.fence, st.val.toTimeline⟩ := by rw [← htl]
  have hacquire : (acquire instanceId req).alone (served trim) x.loc x.redis =
      (.inr ⟨entry.fence, st.val.toTimeline⟩, x.loc, x.redis) := by
    refine (Prog.alone_get_seq _ _ _).trans ?_
    rw [hx, ← hentry]
    rfl
  have hcommit := Lua.actorCommit_committed (a := controlArgs instanceId entry.fence req x.redis.room.now st.val)
    trim hh fun c hc => by rw [hw] at hc; cases hc
  rw [ask_applyControl trim (alone_serial_answered trim hacquire (hx.trans (congrArg some hentry)) hcommit)]
  intro hseen
  simp only [Plane.step, Request.redis, RedisRoomStateStore.applyControl, Lua.applyControl, hw'] at hseen
  cases hseen

/-- `applyControl` is answered alike exactly when it is allowed. -/
theorem Twin.applyControl (h : Twin instanceId x s) (req : ControlReq) :
    (seen (x.after trim (ask instanceId x.redis.room.now (.applyControl req))).2 =
        seen (Plane.step s (Request.redis trim (.applyControl req))).2 ↔ Allowed instanceId req x) ∧
      (Allowed instanceId req x → Twin instanceId (x.after trim (ask instanceId x.redis.room.now (.applyControl req))).1
        (Plane.step s (Request.redis trim (.applyControl req))).1) := by
  by_cases hheld : ∀ entry ∈ x.loc.owned, Lua.Holds instanceId entry.fence x.redis.room → x.redis.room.loadTl ≠ none
  · rcases h.decides trim req hheld with ⟨hw, l, k, htwin, hrun⟩ | ⟨f, w, x', hw, hd⟩
    · have hw' : s.loadTl = none := by
        rcases h.loadTl_cases with ⟨-, hw'⟩ | ⟨w, w', hw₁, -, -⟩
        · exact hw'
        · rw [hw] at hw₁
          cases hw₁
      have hscript : Plane.step s (Request.redis trim (.applyControl req)) = (s, .outcome .missing) := by
        simp only [Plane.step, Request.redis, RedisRoomStateStore.applyControl, Lua.applyControl, hw']
        rfl
      rw [ask_applyControl trim hrun, hscript]
      refine ⟨iff_of_true rfl ⟨hheld, fun w hw₁ => ?_⟩, fun _ => htwin⟩
      rw [hw] at hw₁
      cases hw₁
    · have hnow : x'.redis.room.now = x.redis.room.now := hd.twin.now.trans h.now.symm
      have hknown : Known req x'.redis.room ↔ Known req x.redis.room := by
        simp only [Known, Room.getCmd, hd.cmd, hnow]
      obtain ⟨answer, answer', σ, σ', hset, hcases⟩ := hd.twin.settled hd.held hd.stored req trim
      rw [ask_applyControl trim (hd.answer answer σ (hnow ▸ hset.commit)), redis_applyControl trim hset.control]
      obtain ⟨tl, marker⟩ := answer
      obtain ⟨tl', marker'⟩ := answer'
      rcases hcases with ⟨hsw, hk, rfl, rfl⟩ | ⟨hsw, rfl, htl, htwin⟩
      · have hnot : ¬Allowed instanceId req x := fun ha => hk (hknown.mpr (ha.2 w hw hsw))
        exact ⟨iff_of_false (fun hseen => by cases hseen) hnot, fun ha => absurd ha hnot⟩
      · have hallowed : Allowed instanceId req x := by
          refine ⟨hheld, fun w₁ hw₁ hsw₁ => ?_⟩
          obtain rfl := Option.some_inj.mp (hw.symm.trans hw₁)
          exact hknown.mp (hsw hsw₁)
        refine ⟨iff_of_true ?_ hallowed, fun _ => htwin⟩
        cases marker with
        | none => exact congrArg Seen.committed htl
        | some m =>
          cases m with
          | dup => exact congrArg Seen.duplicate htl
          | fenced => exact congrArg Seen.fenced htl
  · have hnot : ¬Allowed instanceId req x := fun ha => hheld ha.1
    refine ⟨iff_of_false ?_ hnot, fun ha => absurd ha hnot⟩
    push Not at hheld
    obtain ⟨entry, hx, hh, hw⟩ := hheld
    exact h.outlived trim hx hh hw

end Calls

/-! ## Runs -/

end ActorRoomStateStore
end WatchParty
