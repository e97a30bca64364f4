import WatchParty.Memory.Store
import WatchParty.Shared.Plane

/-!
# The in-memory store refines the shared scripts

The in-memory store keeps a timeline until it is cleared, Redis drops the keys of a room a day after the last write.
Up to that, the two stores answer the same calls alike under one clock, on any number of rooms.

- `memory`, `redis`: the two stores as machines over the same acts, which are calls on a room and the passing of time;
- `Refines`: what the maps of the one have to do with the keys of the other;
- `init_refines`, `applyControl_refines`: each call keeps it and is answered alike;
- `memory_refines_scripts`: every run of the two.
-/

namespace WatchParty
namespace Stores

/-- The calls that are compared. -/
inductive Request
  | init (videoId : Option String) (mediaTime : ℚ)
  | applyControl (req : ControlReq)
  | get

/-- A call on a room, or the passing of time. `trim` is what Redis drops of the log beyond its bound. -/
inductive Act
  | call (roomCode : String) (c : Request) (trim : ℕ)
  | tick (d : ℕ)

/-- A video id is null or not empty. -/
def Request.Named : Request → Prop
  | .init videoId _ => videoId ≠ some ""
  | .applyControl req => req.videoId ≠ some (some "") ∧ req.forVideoId ≠ some (some "")
  | .get => True

instance : DecidablePred Request.Named := fun c => by cases c <;> unfold Request.Named <;> infer_instance

def Act.Named : Act → Prop
  | .call _ c _ => c.Named
  | .tick _ => True

instance : DecidablePred Act.Named := fun a => by cases a <;> unfold Act.Named <;> infer_instance

/-! ## The two stores -/

/-- The call as the in-memory store is asked it. -/
def Request.memory (now : ℕ) : Request → InMemoryRoomStateStore.Op
  | .init videoId mediaTime => .init videoId mediaTime now
  | .applyControl req => .applyControl req now
  | .get => .get

/-- The call as Redis is asked it. -/
def Request.redis (trim : ℕ) : Request → Plane.Op
  | .init videoId mediaTime => .init videoId mediaTime trim
  | .applyControl req => .applyControl req trim
  | .get => .get

/-- The maps of `InMemoryRoomStateStore` and the clock of its process. -/
structure Memory where
  now : ℕ
  rooms : String → MemoryRoom

/-- The in-memory store. -/
def memory : Machine Memory Act (Option InMemoryRoomStateStore.Out) where
  init := ⟨0, fun _ => InMemoryRoomStateStore.empty⟩
  step s
    | .call roomCode c _ =>
      let r := InMemoryRoomStateStore.step (s.rooms roomCode) (c.memory s.now)
      ({ s with rooms := Function.update s.rooms roomCode r.1 }, some r.2)
    | .tick d => ({ s with now := s.now + d }, none)

/-- The keys of all rooms in Redis, which share its clock. -/
def redis : Machine (String → Room) Act (Option Plane.Out) where
  init := fun _ => Room.empty
  step σ
    | .call roomCode c trim =>
      let r := Plane.step (σ roomCode) (c.redis trim)
      (Function.update σ roomCode r.1, some r.2)
    | .tick d => (fun roomCode => (σ roomCode).tick d, none)

/-! ## The same answers and the same log entries -/

/-- An empty author reads back as an absent one. -/
def present (tl : Timeline) : Timeline := { tl with byUser := nullOf (textOf tl.byUser) }

/-- An outcome with its timeline as it reads back. -/
def presentOutcome : ApplyOutcome → ApplyOutcome
  | .committed tl => .committed (present tl)
  | .duplicate tl => .duplicate (present tl)
  | .fenced tl => .fenced (present tl)
  | .forwarded => .forwarded
  | .missing => .missing

def presentOut : InMemoryRoomStateStore.Out → Plane.Out
  | .outcome o => .outcome (presentOutcome o)
  | .timeline tl => .timeline (tl.map present)
  | .done => .done

/-- A log entry as it reads back. -/
def presentEntry (e : LogEntry) : LogEntry :=
  { e with byUser := nullOf (textOf e.byUser), cmdId := nullOf (textOf e.cmdId) }

/-- What a call appended to a log, of whose oldest entries it may have dropped some. -/
def Appended (old new : List LogEntry) : Option LogEntry → Prop
  | none => new = old
  | some e => ∃ kept, kept <:+ old ∧ new = kept ++ [e]

/-- The two stores answered a call alike and appended the same entry, or none. -/
structure Alike (m m' : MemoryRoom) (out : InMemoryRoomStateStore.Out) (σ σ' : Room) (out' : Plane.Out) : Prop where
  out : presentOut out = out'
  log : ∃ e, Appended m.log m'.log e ∧ Appended σ.entries σ'.entries (e.map presentEntry)

/-- Two events of the stores agree about a room. -/
def Agree (roomCode : String) (e : Machine.Event Memory Act (Option InMemoryRoomStateStore.Out))
    (e' : Machine.Event (String → Room) Act (Option Plane.Out)) : Prop :=
  ∀ c trim, e.act = .call roomCode c trim → ∃ out out', e.out = some out ∧ e'.out = some out' ∧
    Alike (e.pre.rooms roomCode) (e.post.rooms roomCode) out (e'.pre roomCode) (e'.post roomCode) out'

/-- A call on a room that has a timeline comes less than a day after the last commit, which the timeline is stamped
with. -/
def Timely (roomCode : String) (e : Machine.Event Memory Act (Option InMemoryRoomStateStore.Out)) : Prop :=
  match e.act with
  | .call r _ _ => r = roomCode → ∀ tl ∈ (e.pre.rooms r).room, (e.pre.now : ℚ) < tl.stampedAt + Lua.keyTtlMs
  | .tick _ => True

instance (roomCode : String) : DecidablePred (Timely roomCode) := fun e => by
  unfold Timely
  split <;> infer_instance

/-! ## The maps of a room and its keys -/

/-- The maps of a room hold what its keys hold, whether or not the keys have expired. A dedup record is remembered for
as long as its key lives. -/
structure Refines (m : MemoryRoom) (σ : Room) : Prop where
  room : m.room.map present = σ.tl.map fun s => s.val.toTimeline
  expiry : ∀ s ∈ σ.tl, (s.expiresAt : ℚ) = s.val.stampedAt + Lua.keyTtlMs
  cmds : ∀ id, id ≠ "" → ∀ t, σ.now ≤ t →
    (((σ.cmd id).get t).isSome ↔ ∃ expiresAt ∈ m.cmdSeen id, (t : ℚ) < expiresAt)

theorem refines_empty : Refines InMemoryRoomStateStore.empty Room.empty where
  room := rfl
  expiry _ h := by cases h
  cmds id _ t _ := by simp [InMemoryRoomStateStore.empty, Room.empty]

/-- Time passes. -/
theorem Refines.tick {m : MemoryRoom} {σ : Room} (h : Refines m σ) (d : ℕ) : Refines m (σ.tick d) where
  room := h.room
  expiry := h.expiry
  cmds id hid t ht := h.cmds id hid t (le_trans (Nat.le_add_right _ d) ht)

/-- A room whose timeline has not expired reads the same in both stores. -/
theorem Refines.loadTl {m : MemoryRoom} {σ : Room} (h : Refines m σ)
    (ht : ∀ tl ∈ m.room, (σ.now : ℚ) < tl.stampedAt + Lua.keyTtlMs) :
    m.room.map present = σ.loadTl.map TlHash.toTimeline := by
  rw [h.room, Room.loadTl]
  cases hs : σ.tl with
  | none => rfl
  | some s =>
    have hroom := h.room
    rw [hs, Option.map_some, Option.map_eq_some_iff] at hroom
    obtain ⟨tl, htl, hp⟩ := hroom
    have hstamp : tl.stampedAt = s.val.stampedAt := congrArg (·.stampedAt) hp
    have hlt : (σ.now : ℚ) < s.expiresAt := by
      rw [h.expiry s hs, ← hstamp]
      exact ht tl htl
    rw [Expiring.get, if_pos (by exact_mod_cast hlt)]
    rfl

/-! ## One call -/

/-- What `appendLog` appends. -/
theorem appended_set (next : Timeline) (cmdId : Option String) (m : MemoryRoom) :
    Appended m.log (InMemoryRoomStateStore.set next cmdId m).log
      (some (InMemoryRoomStateStore.entryOf next cmdId)) :=
  InMemoryRoomStateStore.set_log next cmdId m

/-- What `log_tl` appends. -/
theorem appended_committed (tl : TlHash) (cmdId : String) (trim : ℕ) (σ : Room) :
    Appended σ.entries (Lua.committed tl cmdId trim σ).entries (some (tl.toEntry cmdId)) := by
  have hlen : min trim ((σ.entries ++ [tl.toEntry cmdId]).length - 1024) ≤ σ.entries.length := by
    rw [List.length_append, List.length_singleton]
    omega
  refine ⟨σ.entries.drop (min trim ((σ.entries ++ [tl.toEntry cmdId]).length - 1024)), List.drop_suffix _ _, ?_⟩
  rw [Lua.committed_entries, Room.retained, List.drop_append_of_le_length hlen]

/-- A hash that reads as a timeline is logged as the timeline is. -/
theorem presentEntry_entryOf {next : Timeline} {new : TlHash} (h : present next = new.toTimeline)
    (cmdId : Option String) :
    presentEntry (InMemoryRoomStateStore.entryOf next cmdId) = new.toEntry (textOf cmdId) := by
  simp only [present, TlHash.toTimeline, Timeline.mk.injEq, Draft.mk.injEq] at h
  obtain ⟨⟨he, hv, hp, hm, hs, hr, hb⟩, hseq⟩ := h
  simp only [presentEntry, InMemoryRoomStateStore.entryOf, TlHash.toEntry, he, hv, hp, hm, hs, hr, hb, hseq]

/-- Both stores commit the same timeline. -/
theorem Refines.commit {m n : MemoryRoom} {σ σ₀ : Room} {next : Timeline} {new : TlHash}
    (cmdId : Option String) (trim : ℕ) (hnext : present next = new.toTimeline) (hstamp : new.stampedAt = σ.now)
    (hnow : σ₀.now = σ.now) (hlog : n.log = m.log) (hentries : σ₀.entries = σ.entries)
    (hcmds : ∀ id, id ≠ "" → ∀ t, σ.now ≤ t →
      (((σ₀.cmd id).get t).isSome ↔ ∃ expiresAt ∈ n.cmdSeen id, (t : ℚ) < expiresAt)) :
    (∃ e, Appended m.log (InMemoryRoomStateStore.set next cmdId n).log e ∧
      Appended σ.entries (Lua.committed new (textOf cmdId) trim σ₀).entries (e.map presentEntry)) ∧
    Refines (InMemoryRoomStateStore.set next cmdId n) (Lua.committed new (textOf cmdId) trim σ₀) := by
  refine ⟨⟨_, hlog ▸ appended_set next cmdId n, ?_⟩, ?_, ?_, ?_⟩
  · rw [Option.map_some, presentEntry_entryOf hnext, ← hentries]
    exact appended_committed new (textOf cmdId) trim σ₀
  · rw [InMemoryRoomStateStore.set_room, Option.map_some, hnext, Lua.committed_tl]
    rfl
  · intro s hs
    rw [Lua.committed_tl, Option.mem_def, Expiring.put, Option.some_inj] at hs
    subst hs
    simp [hnow, hstamp]
  · intro id hid t ht
    rw [Lua.committed_now, hnow] at ht
    exact hcmds id hid t ht

/-- Both stores commit the same timeline and remember no command. -/
theorem Refines.commit_none {m : MemoryRoom} {σ : Room} (h : Refines m σ) {next : Timeline} {new : TlHash} (trim : ℕ)
    (hnext : present next = new.toTimeline) (hstamp : new.stampedAt = σ.now) :
    (∃ e, Appended m.log (InMemoryRoomStateStore.set next none m).log e ∧
      Appended σ.entries (Lua.committed new "" trim σ).entries (e.map presentEntry)) ∧
    Refines (InMemoryRoomStateStore.set next none m) (Lua.committed new "" trim σ) :=
  Refines.commit none trim hnext hstamp rfl rfl rfl h.cmds

section Calls

variable {m : MemoryRoom} {σ : Room}

/-- `init` finds the same timeline in both stores, or creates it in both. -/
theorem init_refines (h : Refines m σ) (hroom : m.room.map present = σ.loadTl.map TlHash.toTimeline)
    {videoId : Option String} (hv : videoId ≠ some "") (mediaTime : ℚ) (trim : ℕ) :
    let r := InMemoryRoomStateStore.init videoId mediaTime σ.now m
    let r' := RedisRoomStateStore.init videoId mediaTime trim σ
    Alike m r.2 (.timeline (some r.1)) σ r'.2 (.timeline (some r'.1)) ∧ Refines r.2 r'.2 := by
  cases hm : m.room with
  | some existing =>
    rw [hm, Option.map_some, eq_comm, Option.map_eq_some_iff] at hroom
    obtain ⟨tl, hload, htl⟩ := hroom
    simp only [InMemoryRoomStateStore.init, RedisRoomStateStore.init, Lua.init, hm, hload]
    exact ⟨⟨congrArg (Plane.Out.timeline ∘ some) htl.symm, none, rfl, rfl⟩, h⟩
  | none =>
    rw [hm, Option.map_none, eq_comm, Option.map_eq_none_iff] at hroom
    rcases Lua.init_cases (textOf videoId) mediaTime trim σ with ⟨tl, hload, -⟩ | ⟨-, hr⟩
    · rw [hroom] at hload
      cases hload
    · simp only [InMemoryRoomStateStore.init, RedisRoomStateStore.init, hm, hr]
      have hnew : present
          { storeEpoch := (σ.now : ℚ), videoId := videoId, isPlaying := false, mediaTime := mediaTime,
            stampedAt := σ.now, reason := .join, byUser := none, seq := 0 } =
          (Lua.born (textOf videoId) mediaTime σ.now).toTimeline := by
        simp [present, TlHash.toTimeline, Lua.born, nullOf_textOf hv]
      obtain ⟨hlog, hrefines⟩ := h.commit_none trim hnew rfl
      exact ⟨⟨congrArg (Plane.Out.timeline ∘ some) hnew, hlog⟩, hrefines⟩

/-- A command is remembered in the map exactly when it has a live dedup record. -/
theorem remembered_iff (h : Refines m σ) (req : ControlReq) :
    ((InMemoryRoomStateStore.idOf req).any fun id =>
        ((InMemoryRoomStateStore.purge req σ.now m).cmdSeen id).isSome) = true ↔
      Lua.Recorded (RedisRoomStateStore.controlArgs req) σ := by
  cases hid : InMemoryRoomStateStore.idOf req with
  | none =>
    have hempty : textOf req.cmdId = "" := by
      cases hc : req.cmdId with
      | none => rfl
      | some id =>
        rw [InMemoryRoomStateStore.idOf, hc, Option.filter_eq_none_iff] at hid
        simpa using hid id rfl
    simp [Lua.Recorded, RedisRoomStateStore.controlArgs, hempty]
  | some id =>
    obtain ⟨hc, hne⟩ := Option.filter_eq_some_iff.mp hid
    have htext : textOf req.cmdId = id := by rw [hc]; rfl
    have hne : id ≠ "" := by simpa using hne
    have hrec : Lua.Recorded (RedisRoomStateStore.controlArgs req) σ ↔ ((σ.cmd id).get σ.now).isSome := by
      simp only [Lua.Recorded, RedisRoomStateStore.controlArgs, htext, Room.getCmd]
      exact ⟨And.right, fun hs => ⟨hne, hs⟩⟩
    rw [hrec, h.cmds id hne σ.now le_rfl]
    cases hseen : m.cmdSeen id with
    | none => simp [InMemoryRoomStateStore.purge, hid, InMemoryRoomStateStore.unexpired, hseen]
    | some e => simp [InMemoryRoomStateStore.purge, hid, InMemoryRoomStateStore.unexpired, hseen, Option.filter]

/-- Forgetting what has expired keeps what lives. -/
theorem Refines.purge (h : Refines m σ) (req : ControlReq) :
    Refines (InMemoryRoomStateStore.purge req σ.now m) σ := by
  refine ⟨by rw [InMemoryRoomStateStore.purge_room]; exact h.room, h.expiry, fun id hid t ht => ?_⟩
  rw [h.cmds id hid t ht, InMemoryRoomStateStore.purge]
  split
  · have hlive : ∀ e : ℚ, (t : ℚ) < e → (σ.now : ℚ) < e := fun e he =>
      lt_of_le_of_lt (by exact_mod_cast ht) he
    constructor
    · rintro ⟨e, hseen, hlt⟩
      refine ⟨e, Option.mem_def.mpr (Option.filter_eq_some_iff.mpr ⟨hseen, ?_⟩), hlt⟩
      simpa using hlive e hlt
    · rintro ⟨e, hseen, hlt⟩
      exact ⟨e, (Option.filter_eq_some_iff.mp hseen).1, hlt⟩
  · rfl

/-- A command that commits is remembered for as long as its record lives. -/
theorem Refines.remember (h : Refines m σ) (req : ControlReq) (tl : TlHash) (id : String) (hid : id ≠ "") (t : ℕ)
    (ht : σ.now ≤ t) :
    (((Lua.record (RedisRoomStateStore.controlArgs req) tl σ).cmd id).get t).isSome ↔
      ∃ expiresAt ∈ (InMemoryRoomStateStore.remember req σ.now m).cmdSeen id, (t : ℚ) < expiresAt := by
  by_cases hc : textOf req.cmdId = id
  · have hsome : req.cmdId = some id := by
      cases hr : req.cmdId with
      | none => rw [hr] at hc; exact absurd hc.symm hid
      | some c => rw [hr] at hc; exact congrArg some hc
    have hid' : InMemoryRoomStateStore.idOf req = some id :=
      Option.filter_eq_some_iff.mpr ⟨hsome, by simpa using hid⟩
    simp [Lua.record, RedisRoomStateStore.controlArgs, hc, hid, Room.setCmd, Expiring.get_put,
      InMemoryRoomStateStore.remember, hid']
    exact_mod_cast Iff.rfl
  · have hrec : (Lua.record (RedisRoomStateStore.controlArgs req) tl σ).cmd id = σ.cmd id := by
      unfold Lua.record
      split
      · exact Function.update_of_ne (Ne.symm hc) _ _
      · rfl
    have hseen : (InMemoryRoomStateStore.remember req σ.now m).cmdSeen id = m.cmdSeen id := by
      unfold InMemoryRoomStateStore.remember
      split
      · rename_i c hid'
        have hc' : textOf req.cmdId = c := by rw [(Option.filter_eq_some_iff.mp hid').1]; rfl
        exact Function.update_of_ne (fun he => hc (hc'.trans he.symm)) _ _
      · rfl
    rw [hrec, hseen]
    exact h.cmds id hid t ht

/-- Both stores refuse the same fences. -/
theorem fenced_iff {req : ControlReq} (hv : req.forVideoId ≠ some (some "")) {prev : Timeline} {tl : TlHash}
    (h : present prev = tl.toTimeline) :
    (req.forVideoId.any fun v => decide (req.intent ≠ .setVideo ∧ prev.videoId ≠ v)) = true ↔
      Lua.FencedOut (RedisRoomStateStore.controlArgs req) tl := by
  have hvid : prev.videoId = nullOf tl.videoId := congrArg (·.videoId) h
  cases hf : req.forVideoId with
  | none => simp [Lua.FencedOut, RedisRoomStateStore.controlArgs, hf]
  | some v =>
    have hv' : v ≠ some "" := fun he => hv (by rw [hf, he])
    simp [Lua.FencedOut, RedisRoomStateStore.controlArgs, hf, hvid, nullOf_eq_iff hv']

/-- Both stores restamp a control alike. -/
theorem present_controlled {req : ControlReq} (hv : req.videoId ≠ some (some "")) {prev : Timeline} {tl : TlHash}
    (h : present prev = tl.toTimeline) (now : ℕ) :
    present { applyControl prev req.intent req.mediaTime now req.byUser req.videoId with seq := prev.seq + 1 } =
      (Lua.controlled (RedisRoomStateStore.controlArgs req) now tl).toTimeline := by
  have hv' : req.videoId.join ≠ some "" := fun he => hv (Option.join_eq_some_iff.mp he)
  simp only [present, TlHash.toTimeline, Timeline.mk.injEq, Draft.mk.injEq] at h
  obtain ⟨⟨he, hvid, hp, -, -, -, -⟩, hseq⟩ := h
  cases hi : req.intent <;>
    simp [present, applyControl, TlHash.toTimeline, Lua.controlled, RedisRoomStateStore.controlArgs, hi, he, hvid, hp,
      hseq, nullOf_textOf hv']

/-- `applyControl` misses the room, knows the command, refuses the fence or commits in both stores alike. -/
theorem applyControl_refines (h : Refines m σ) (hroom : m.room.map present = σ.loadTl.map TlHash.toTimeline)
    {req : ControlReq} (hv : req.videoId ≠ some (some "")) (hf : req.forVideoId ≠ some (some "")) (trim : ℕ) :
    let r := InMemoryRoomStateStore.applyControl req σ.now m
    let r' := RedisRoomStateStore.applyControl req trim σ
    Alike m r.2 (.outcome r.1) σ r'.2 (.outcome r'.1) ∧ Refines r.2 r'.2 := by
  rcases Lua.applyControl_cases (RedisRoomStateStore.controlArgs req) trim σ with
    ⟨hload, hr⟩ | ⟨tl, hload, hr⟩
  · rw [hload, Option.map_none, Option.map_eq_none_iff] at hroom
    simp only [InMemoryRoomStateStore.applyControl, RedisRoomStateStore.applyControl, hroom, hr]
    exact ⟨⟨rfl, none, rfl, rfl⟩, h⟩
  · rw [hload, Option.map_some, Option.map_eq_some_iff] at hroom
    obtain ⟨prev, hprev, htl⟩ := hroom
    rcases hr with ⟨hrec, hr⟩ | ⟨hrec, hfence, hr⟩ | ⟨hrec, hfence, hr⟩
    · simp only [InMemoryRoomStateStore.applyControl, RedisRoomStateStore.applyControl, hprev, hr,
        if_pos ((remembered_iff h req).mpr hrec)]
      exact ⟨⟨congrArg (Plane.Out.outcome ∘ ApplyOutcome.duplicate) htl, none, by simp [Appended], rfl⟩, h.purge req⟩
    · simp only [InMemoryRoomStateStore.applyControl, RedisRoomStateStore.applyControl, hprev, hr,
        if_neg (mt (remembered_iff h req).mp hrec), if_pos ((fenced_iff hf htl).mpr hfence)]
      exact ⟨⟨congrArg (Plane.Out.outcome ∘ ApplyOutcome.fenced) htl, none, by simp [Appended], rfl⟩, h.purge req⟩
    · simp only [InMemoryRoomStateStore.applyControl, RedisRoomStateStore.applyControl, hprev, hr,
        if_neg (mt (remembered_iff h req).mp hrec), if_neg (mt (fenced_iff hf htl).mp hfence)]
      have hnext := present_controlled hv htl σ.now
      obtain ⟨hlog, hrefines⟩ := Refines.commit (m := m) req.cmdId trim hnext (by
        cases hi : req.intent <;> simp [Lua.controlled, RedisRoomStateStore.controlArgs, hi])
        (Lua.record_now (RedisRoomStateStore.controlArgs req) tl σ) (n := InMemoryRoomStateStore.remember req σ.now
          (InMemoryRoomStateStore.purge req σ.now m)) (by simp)
        (Lua.record_entries (RedisRoomStateStore.controlArgs req) tl σ) ((h.purge req).remember req tl)
      exact ⟨⟨congrArg (Plane.Out.outcome ∘ ApplyOutcome.committed) hnext, hlog⟩, hrefines⟩

end Calls

/-- **One call.** Whatever is asked of a room, the two stores answer alike and log alike. -/
theorem call_refines {m : MemoryRoom} {σ : Room} (h : Refines m σ) {c : Request} (hc : c.Named) (trim : ℕ)
    (ht : ∀ tl ∈ m.room, (σ.now : ℚ) < tl.stampedAt + Lua.keyTtlMs) :
    let r := InMemoryRoomStateStore.step m (c.memory σ.now)
    let r' := Plane.step σ (c.redis trim)
    Alike m r.1 r.2 σ r'.1 r'.2 ∧ Refines r.1 r'.1 := by
  have hroom := h.loadTl ht
  cases c with
  | init videoId mediaTime => exact init_refines h hroom hc mediaTime trim
  | applyControl req => exact applyControl_refines h hroom hc.1 hc.2 trim
  | get => exact ⟨⟨congrArg Plane.Out.timeline hroom, none, rfl, rfl⟩, h⟩

/-! ## Runs -/

/-- The two stores agree about a room, and about the time. -/
def RefinesAt (roomCode : String) (s : Memory) (σ : String → Room) : Prop :=
  Refines (s.rooms roomCode) (σ roomCode) ∧ ∀ r, (σ r).now = s.now

/-- A call takes no time. -/
theorem call_now (σ : Room) (c : Request) (trim : ℕ) : (Plane.step σ (c.redis trim)).1.now = σ.now := by
  have hstep := Plane.step_cases σ (c.redis trim)
  generalize (Plane.step σ (c.redis trim)).1 = σ' at hstep ⊢
  generalize (Plane.step σ (c.redis trim)).2 = out at hstep
  cases c with
  | get => cases hstep; rfl
  | init videoId mediaTime => cases hstep <;> simp
  | applyControl req => cases hstep <;> simp

/-- **One act.** -/
theorem step_refines {roomCode : String} {s : Memory} {σ : String → Room} {a : Act} (hn : a.Named)
    (ht : Timely roomCode (memory.event s a)) (h : RefinesAt roomCode s σ) :
    Agree roomCode (memory.event s a) (redis.event σ a) ∧
      RefinesAt roomCode (memory.step s a).1 (redis.step σ a).1 := by
  obtain ⟨hroom, hnow⟩ := h
  cases a with
  | tick d =>
    exact ⟨fun c trim hact => (by cases hact), hroom.tick d, fun r => congrArg (· + d) (hnow r)⟩
  | call r c trim =>
    have hnow' : ∀ r', (Function.update σ r (Plane.step (σ r) (c.redis trim)).1 r').now = s.now := by
      intro r'
      by_cases hr : r' = r
      · subst hr
        rw [Function.update_self, call_now]
        exact hnow r'
      · rw [Function.update_of_ne hr]
        exact hnow r'
    by_cases hr : roomCode = r
    · subst hr
      have hcall := call_refines hroom hn trim (hnow roomCode ▸ ht rfl)
      rw [hnow roomCode] at hcall
      refine ⟨fun c' trim' hact => ?_, ?_, hnow'⟩
      · obtain ⟨-, rfl, rfl⟩ := Act.call.inj hact
        refine ⟨_, _, rfl, rfl, ?_⟩
        simpa [memory, redis] using hcall.1
      · simpa [memory, redis] using hcall.2
    · refine ⟨fun c' trim' hact => ?_, ?_, hnow'⟩
      · obtain ⟨rfl, -, -⟩ := Act.call.inj hact
        exact absurd rfl hr
      · simpa [memory, redis, Function.update_of_ne hr] using hroom

/-- **The in-memory store refines the shared scripts.** On any number of rooms and under one clock, every call on a
room is answered alike and appends the same log entry in both stores, as long as each call on the room that finds a
timeline comes less than a day after the last commit. -/
theorem memory_refines_scripts (acts : List Act) (hnamed : ∀ a ∈ acts, a.Named) (roomCode : String)
    (htimely : ∀ e ∈ memory.trace acts, Timely roomCode e) :
    List.Forall₂ (Agree roomCode) (memory.trace acts) (redis.trace acts) := by
  refine (memory.refines redis (R := RefinesAt roomCode) (C := fun e => e.act.Named ∧ Timely roomCode e)
    ⟨refines_empty, fun _ => rfl⟩ (fun s σ a hc h => step_refines hc.1 hc.2 h) acts fun e he => ⟨?_, htimely e he⟩).1
  obtain ⟨before, a, hpre, rfl⟩ := memory.mem_trace he
  exact hnamed a (hpre.subset (List.mem_append_right _ (List.mem_singleton_self _)))

/-- A room in which a repeated control, a stale fence and a new video meet, beside another room. -/
theorem memory_refines_scripts_fence :
    List.Forall₂ (Agree "A")
      (memory.trace [.call "A" (.init none 0) 0, .call "B" (.init (some "w") 3) 0, .tick 7,
        .call "A" (.applyControl ⟨.setVideo, 0, "u", some "c", none, some (some "v"), none⟩) 0, .tick 86399999,
        .call "A" (.applyControl ⟨.setVideo, 0, "u", some "c", none, some (some "v"), none⟩) 0,
        .call "A" (.applyControl ⟨.seek, 5, "u", none, none, none, some none⟩) 0, .call "A" .get 0])
      (redis.trace [.call "A" (.init none 0) 0, .call "B" (.init (some "w") 3) 0, .tick 7,
        .call "A" (.applyControl ⟨.setVideo, 0, "u", some "c", none, some (some "v"), none⟩) 0, .tick 86399999,
        .call "A" (.applyControl ⟨.setVideo, 0, "u", some "c", none, some (some "v"), none⟩) 0,
        .call "A" (.applyControl ⟨.seek, 5, "u", none, none, none, some none⟩) 0, .call "A" .get 0]) :=
  memory_refines_scripts _ (by decide) "A" (by decide +kernel)

/-- A room that is left alone for a day is gone from Redis and still in memory. -/
theorem memory_keeps_expired :
    ¬∀ (acts : List Act), (∀ a ∈ acts, a.Named) → ∀ roomCode,
      List.Forall₂ (Agree roomCode) (memory.trace acts) (redis.trace acts) := by
  intro h
  have hall := h [.call "A" (.init none 0) 0, .tick 86400000, .call "A" .get 0] (by decide) "A"
  cases hall with
  | cons _ hrest =>
    cases hrest with
    | cons _ hlast =>
      cases hlast with
      | cons hget _ =>
        obtain ⟨out, out', hout, hout', hsame⟩ := hget .get 0 rfl
        cases hout
        cases hout'
        exact absurd hsame.out (by decide)

end Stores
end WatchParty
