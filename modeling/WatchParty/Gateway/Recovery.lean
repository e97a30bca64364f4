import WatchParty.Gateway.Versions

/-!
# Losing the store

A flush of Redis, or the end of its time to live, takes the timeline of a room away while sockets stay joined. Only a
join creates it again. So the next admitted control commits on a timeline of a fresh epoch when a join has come before
it (`Rehydrated`), and is answered room-not-found when none has.

- `lost` remembers what had been committed when the timeline was lost; `Recovered` is what the next control should do;
- `Fresh` is the invariant, `store_recovered` the result, `store_lost` a run in which the next control finds no room.
-/

namespace WatchParty
namespace SyncGateway

variable {I : Type}

/-- The timeline runs out, or is flushed. -/
def vanished (e : Event I) : Bool :=
  match e.act with
  | .env _ => e.pre.shared.redis.loadTl.isSome && e.post.shared.redis.loadTl.isNone
  | _ => false

/-- The admitted control that an event executes. -/
def control? (e : Event I) : Option (I × String × ControlReq) :=
  match e.pre.executed e.act with
  | some (i, .control id req) => some (i, id, req)
  | _ => none

/-- What had been committed when the timeline was lost, until the next admitted control is executed. -/
def lost (tr : List (Event I)) : Option (List Timeline) :=
  tr.foldl
    (fun l e =>
      if vanished e then some (Plane.commits e.post.shared.redis) else if (control? e).isSome then none else l)
    none

/-- The next admitted control after a loss commits on a timeline of a fresh epoch, which is newer than everything that a
client was shown, and which is emitted to the room when the control is answered. -/
def Recovered (auth : String → AuthedSocketData) (tr : List (Event I)) (e : Event I) : Prop :=
  ∀ cs, lost tr = some cs → ∀ i n x id req, e.act = .exec i n x → control? e = some (i, id, req) →
    ∃ tl, (RedisRoomStateStore.applyControl req x.trim e.pre.shared.redis).1 = .committed tl ∧
      (∀ t ∈ cs, t.storeEpoch < tl.storeEpoch) ∧ (∀ t ∈ shown tr, isNewer tl (some t) = true) ∧
      ∀ l, (resume auth (.control id req) (.committed tl) l).sent = [.room tl]

instance (a : Lua.ControlArgs) (σ : Room) : Decidable (Lua.Recorded a σ) :=
  inferInstanceAs (Decidable (a.cmdId ≠ "" ∧ (σ.getCmd a.cmdId).isSome))

instance (a : Lua.ControlArgs) (tl : TlHash) : Decidable (Lua.FencedOut a tl) :=
  inferInstanceAs (Decidable (a.fenced = true ∧ a.intent ≠ .setVideo ∧ tl.videoId ≠ a.forVideoId))

/-- When the next admitted control after a loss is executed, a join has created the timeline again, and the control is
neither a recorded duplicate nor fenced. -/
def Rehydrated (tr : List (Event I)) (e : Event I) : Prop :=
  ∀ c ∈ control? e, (lost tr).isSome →
    ∃ tl ∈ e.pre.shared.redis.loadTl,
      ¬Lua.Recorded (RedisRoomStateStore.controlArgs c.2.2) e.pre.shared.redis ∧
        ¬Lua.FencedOut (RedisRoomStateStore.controlArgs c.2.2) tl

instance (tr : List (Event I)) (e : Event I) : Decidable (Rehydrated tr e) :=
  inferInstanceAs (Decidable (∀ c ∈ control? e, _))

theorem lost_snoc {tr : List (Event I)} {e : Event I} {cs : List Timeline} (h : lost (tr ++ [e]) = some cs) :
    (vanished e = true ∧ cs = Plane.commits e.post.shared.redis) ∨ lost tr = some cs := by
  simp only [lost, List.foldl_append, List.foldl_cons, List.foldl_nil] at h ⊢
  split at h
  · rename_i hv
    exact Or.inl ⟨hv, (Option.some.inj h).symm⟩
  · split at h
    · cases h
    · exact Or.inr h

variable {auth : String → AuthedSocketData} {row : RoomRow} [DecidableEq I]

/-- What a run keeps: versions are ordered, and a timeline that is there after a loss is of a fresh epoch. -/
structure Fresh (tr : List (Event I)) (s : State I) : Prop where
  versioned : Versioned tr s
  before : ∀ cs, lost tr = some cs → ∀ t ∈ cs, t ∈ Plane.commits s.shared.redis
  fresh : ∀ cs, lost tr = some cs → ∀ tl, s.shared.redis.loadTl = some tl → ∀ t ∈ cs, t.storeEpoch < tl.storeEpoch

section Step

variable {tr : List (Event I)} {e : Event I}

/-- A timeline that a step leaves is of the incarnation that it found, or newer than every commit. -/
theorem loaded_step (hs : Tasks.Step (system auth row) e.pre e.act e.out e.post)
    (hmint : (Plane.mints (planeEvents (tr ++ [e]))).Nodup) (hI : Versioned tr e.pre) {tl : TlHash}
    (h : e.post.shared.redis.loadTl = some tl) :
    (∃ old, e.pre.shared.redis.loadTl = some old ∧ tl.storeEpoch = old.storeEpoch) ∨
      ∀ t ∈ Plane.commits e.pre.shared.redis, t.storeEpoch < tl.storeEpoch := by
  rcases redis_step hs with ⟨op, hp, he⟩ | ⟨-, he | he⟩
  · rw [he] at h
    rcases (Plane.step_cases e.pre.shared.redis op).loaded h with hold | ⟨hnone, videoId, mediaTime, trim, rfl, rfl⟩
    · exact Or.inl hold
    · right
      intro t ht
      have hm : Plane.mint (Plane.machine.event e.pre.shared.redis (.init videoId mediaTime trim)) =
          some e.pre.shared.redis.now := by
        simp only [Plane.mint, Machine.event_act, Machine.event_pre, hnone]
      rw [planeEvents_snoc, hp, Option.toList_some, Plane.mints_snoc, hm, Option.toList_some] at hmint
      have hfresh : e.pre.shared.redis.now ∉ Plane.mints (planeEvents tr) := fun hin =>
        (List.nodup_append.mp hmint).2.2 _ hin _ (List.mem_singleton_self _) rfl
      have hlt : t.version < (Lua.born (textOf videoId) mediaTime e.pre.shared.redis.now).toTimeline.version :=
        hI.ordered.lt_born hfresh t ht
      rcases version_lt_iff.mp hlt with hlt | ⟨-, hlt⟩
      · exact hlt
      · exact absurd hlt (Nat.not_lt_zero _)
  · rw [he] at h
    exact Or.inl ⟨tl, h, rfl⟩
  · rw [he] at h
    cases h

theorem Fresh.step (hs : Tasks.Step (system auth row) e.pre e.act e.out e.post)
    (hmint : (Plane.mints (planeEvents (tr ++ [e]))).Nodup) (hI : Fresh tr e.pre) : Fresh (tr ++ [e]) e.post where
  versioned := hI.versioned.step hs hmint
  before cs h t ht := by
    rcases lost_snoc h with ⟨-, rfl⟩ | h
    · exact ht
    · exact commits_step hs (hI.before cs h t ht)
  fresh cs h tl htl t ht := by
    rcases lost_snoc h with ⟨hv, -⟩ | h
    · unfold vanished at hv
      split at hv
      · rw [htl] at hv
        simp at hv
      · cases hv
    · rcases loaded_step hs hmint hI.versioned htl with ⟨old, hold, he⟩ | hnew
      · rw [he]
        exact hI.fresh cs h old hold t ht
      · exact hnew t (hI.before cs h t ht)

omit [DecidableEq I] in
/-- A control that is executed after a loss, once a join has created the timeline again. -/
theorem Fresh.recovered (hI : Fresh tr e.pre) (hr : Rehydrated tr e) : Recovered auth tr e := by
  intro cs hcs i n x id req hm hc
  obtain ⟨tl, htl, hrec, hf⟩ := hr _ hc (by rw [hcs]; rfl)
  have hout : Lua.applyControl _ x.trim _ = _ := Lua.applyControl_committed htl hrec hf
  refine ⟨(Lua.controlled (RedisRoomStateStore.controlArgs req) e.pre.shared.redis.now tl).toTimeline, ?_,
    fun t ht => ?_, fun t ht => ?_, fun l => rfl⟩
  · simp only [RedisRoomStateStore.applyControl, hout]
    rfl
  · rw [show (TlHash.toTimeline _).storeEpoch = _ from Plane.controlled_storeEpoch _ _ tl]
    exact hI.fresh cs hcs tl htl t ht
  · rw [isNewer_iff]
    exact hI.versioned.ordered.lt_succ htl (Plane.controlled_storeEpoch _ _ tl) (Plane.controlled_seq _ _ tl) t
      (hI.versioned.shown t ht)

end Step

theorem fresh_init : Fresh [] (backend (I := I) auth row).init where
  versioned := versioned_init
  before _ h := by cases h
  fresh _ h := by cases h

/-- **The loss of the store is recovered.** In every run in which no two timelines are minted in one millisecond, and in
which a join comes between a loss and the next admitted control, that control commits on a timeline of a fresh epoch,
which every client accepts over what it was shown, and which its answer emits to the whole room. -/
theorem store_recovered (ops : List (Move I Request Choice Env))
    (hmint : (Plane.mints (planeEvents ((backend auth row).trace ops))).Nodup)
    (h : Machine.Always Rehydrated ((backend auth row).trace ops)) :
    Machine.Always (Recovered auth) ((backend auth row).trace ops) := by
  refine ((backend auth row).invariant_under
    (C := fun tr => (Plane.mints (planeEvents tr)).Nodup ∧ Machine.Always Rehydrated tr)
    (I := fun tr s => Fresh tr s ∧ Machine.Always (Recovered auth) tr) (fun tr e hc => ⟨?_, ?_⟩)
    ⟨fresh_init, fun n hn => absurd hn (Nat.not_lt_zero n)⟩ (fun tr s a hc hI => ?_) ops ⟨hmint, h⟩).2
  · have hm := hc.1
    rw [planeEvents_snoc, Plane.mints, List.filterMap_append] at hm
    exact (List.nodup_append.mp hm).1
  · exact (Machine.always_snoc.mp hc.2).1
  · have hs : Tasks.Step (system auth row) _ _ _ _ := Tasks.event_cases s a
    exact ⟨Fresh.step hs hc.1 hI.1, Machine.always_snoc.mpr ⟨hI.2, hI.1.recovered (Machine.always_snoc.mp hc.2).2⟩⟩

/-- Redis loses its keys under a joined socket, and its next control finds no timeline. -/
theorem store_lost :
    ¬∀ (auth : String → AuthedSocketData) (row : RoomRow) (ops : List (Move Unit Request Choice Env)),
        (Plane.mints (planeEvents ((backend auth row).trace ops))).Nodup →
        Machine.Always (Recovered auth) ((backend auth row).trace ops) := by
  intro h
  let ops : List (Move Unit Request Choice Env) := joining () 0 "creator" ++
    [.env .flush, .start () (.control "creator" 0 ⟨.play, 0, "creator", none, none, none, none⟩)]
  have hall := h namesake quietRow (ops ++ [.exec () 0 ⟨0, 0⟩]) (by decide +kernel)
  rw [Machine.trace_snoc, Machine.always_snoc] at hall
  have hlost : (lost ((backend namesake quietRow).trace ops)).isSome := by decide +kernel
  obtain ⟨cs, hcs⟩ := Option.isSome_iff_exists.mp hlost
  obtain ⟨tl, htl, -⟩ := hall.2 cs hcs () 0 ⟨0, 0⟩ "creator"
    ⟨.play, 0, "creator", none, some "creator", none, none⟩ rfl (by decide +kernel)
  rw [show (RedisRoomStateStore.applyControl _ _ _).1 = .missing by decide +kernel] at htl
  cases htl

/-- Another socket joins in a later millisecond, and the control commits. -/
theorem store_recovered_join :
    Machine.Always (Recovered namesake) ((backend (I := Unit) namesake quietRow).trace
      (joining () 0 "creator" ++ [.env (.tick 5), .env .flush] ++ joining () 0 "guest" ++
        .start () (.control "creator" 0 ⟨.play, 0, "creator", none, none, none, none⟩) :: answer () 0)) :=
  store_recovered _ (by decide +kernel) (by decide +kernel)

end SyncGateway
end WatchParty
