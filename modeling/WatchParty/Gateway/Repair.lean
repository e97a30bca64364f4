import WatchParty.Gateway.Rehydration

/-!
# The repair sweep

Every period an instance sends its own sockets in a playing room what the store holds, whatever became of the broadcasts
of other instances. So where only sweeps write to the room any more, a client whose instance has swept shows what the
store says, whatever it was shown before or missed. A paused room is never sent again.

- `told` is what an instance sends to all its sockets in the room;
- `Resting` is what a stretch of a run keeps in which only sweeps write, `Repairs` says how far a sweep has come, and
  `Silent` that a handler tells nothing;
- `sweep_repairs` is the result.
-/

namespace WatchParty
namespace SyncGateway

variable {I : Type} {auth : String → AuthedSocketData} {row : RoomRow}

/-- The timeline that an emission sends to every socket that the instance has in the room. -/
def Emit.broadcast? : Emit → Option Timeline
  | .room tl => some tl
  | .localRoom tl => some tl
  | _ => none

/-- What an event sends to every socket that the instance `i` has in the room. -/
def told [DecidableEq I] (i : I) (e : Event I) : List Timeline :=
  match e.out with
  | some (j, sent) => if j = i then sent.filterMap Emit.broadcast? else []
  | none => []

/-- Does the call run `apply_snapshot`? -/
def Await.commitsSnapshot : Await → Bool
  | .sweepApply _ => true
  | _ => false

/-- Nothing but a sweep writes the timeline of the room, and it does not run out. -/
def OnlySwept (e : Event I) : Prop :=
  (call? e).any Await.commitsSnapshot = true ∨ e.post.shared.redis.loadTl = e.pre.shared.redis.loadTl

instance (e : Event I) : Decidable (OnlySwept e) := inferInstanceAs (Decidable (_ ∨ _))

/-- The handlers that may send a timeline to the whole room. -/
def Await.tells : Await → Bool
  | .control _ _ => true
  | .sweepGet => true
  | .sweepApply _ => true
  | .sweepReread _ => true
  | _ => false

/-- The sweep. -/
def Await.sweeps : Await → Bool
  | .sweepGet => true
  | .sweepApply _ => true
  | .sweepReread _ => true
  | _ => false

/-! ## The store of a resting room -/

/-- What a stretch of a run keeps in which only sweeps write, since the store held `tl` and had committed `before`. -/
structure Resting (tl : Timeline) (before : List Timeline) (σ : Room) : Prop where
  stored : ∃ cur, σ.loadTl = some cur ∧ tl.version ≤ cur.toTimeline.version ∧ SameShow cur.toTimeline tl
  commits : ∃ since, Plane.commits σ = before ++ since ∧ ∀ t ∈ since, SameShow t tl

/-- An operation that leaves the timeline of a room has committed nothing. -/
theorem saves_of_loadTl {σ σ' : Room} {op : Plane.Op} {o : Plane.Out} (hs : Plane.Step σ op o σ')
    (h : σ'.loadTl = σ.loadTl) : σ'.saves = σ.saves := by
  have hseq : ∀ {old new : TlHash}, σ.loadTl = some old → σ'.loadTl = some new → new.seq ≠ old.seq + 1 := by
    intro old new hold hnew hq
    have hsame : some new = some old := hnew.symm.trans (h.trans hold)
    rw [Option.some.inj hsame] at hq
    omega
  cases hs with
  | control req trim old new hold hr hf hnew =>
    exact absurd (by rw [hnew, Plane.controlled_seq]) (hseq hold (Lua.committed_loadTl ..))
  | snapshot trim old new hold hp window hnew =>
    exact absurd (by rw [hnew]; rfl) (hseq hold (Lua.committed_loadTl ..))
  | birth videoId mediaTime trim new hnone hnew =>
    rw [Lua.committed_loadTl, hnone] at h
    cases h
  | _ => rfl

/-- A resting room rests after a sweep. -/
theorem Resting.sweep {tl : Timeline} {before : List Timeline} {σ σ' : Room} {trim : ℕ} {o : Plane.Out}
    (h : Resting tl before σ) (hs : Plane.Step σ (.applySnapshot trim) o σ') : Resting tl before σ' := by
  cases hs with
  | idle _ tl' hidle => exact h
  | snapshot _ old new hold hp window hnew =>
    obtain ⟨cur, hcur, hle, hshows⟩ := h.stored
    obtain ⟨since, hsince, hall⟩ := h.commits
    obtain rfl : old = cur := Option.some.inj (hold.symm.trans hcur)
    have hnew' : SameShow new.toTimeline tl := by
      rw [hnew]
      exact (SameShow.swept hp σ.now window).trans hshows
    refine ⟨⟨new, Lua.committed_loadTl .., ?_, hnew'⟩, since ++ [new.toTimeline], ?_, ?_⟩
    · refine hle.trans (version_lt_iff.mpr (Or.inr ⟨?_, ?_⟩)).le
      · rw [hnew]
        rfl
      · rw [hnew]
        exact Nat.lt_succ_self _
    · rw [Plane.commits, Lua.committed_saves, List.map_append, ← List.append_assoc, ← hsince]
      rfl
    · intro t ht
      rcases List.mem_append.mp ht with ht | ht
      · exact hall t ht
      · rw [List.mem_singleton.mp ht]
        exact hnew'

variable [DecidableEq I]

/-- **A step that only sweeps keeps a room at rest.** -/
theorem Resting.step {tl : Timeline} {before : List Timeline} {e : Event I}
    (hs : Tasks.Step (system auth row) e.pre e.act e.out e.post) (hu : OnlySwept e)
    (h : Resting tl before e.pre.shared.redis) : Resting tl before e.post.shared.redis := by
  rcases hu with hcall | hsame
  · obtain ⟨pre, act, out, post⟩ := e
    simp only [call?] at hcall hs h ⊢
    cases hx : pre.executed act with
    | none =>
      rw [hx] at hcall
      cases hcall
    | some c =>
      obtain ⟨j, a⟩ := c
      rw [hx] at hcall
      cases a with
      | sweepApply current =>
        obtain ⟨x, hpost, -⟩ := Tasks.executed_step hs hx
        rw [hpost]
        exact h.sweep (Plane.step_cases pre.shared.redis (.applySnapshot x.trim))
      | _ => cases hcall
  · have hsaves : e.post.shared.redis.saves = e.pre.shared.redis.saves := by
      rcases redis_step hs with ⟨op, -, hpost⟩ | ⟨-, hpost | hpost⟩
      · rw [hpost] at hsame ⊢
        exact saves_of_loadTl (Plane.step_cases e.pre.shared.redis op) hsame
      · rw [hpost]
      · rw [hpost]
        rfl
    refine ⟨?_, ?_⟩
    · rw [hsame]
      exact h.stored
    · rw [Plane.commits, hsaves]
      exact h.commits

/-! ## A sweep under way -/

/-- A sweep that has read, or will read, something at least as new as `tl`, in a room that plays. -/
def Repairs (tl : Timeline) : Pending Reply → Prop
  | ⟨.sweepGet, none⟩ => True
  | ⟨.sweepGet, some current⟩ => ∃ t, current = some t ∧ t.isPlaying = true ∧ tl.version ≤ t.version
  | ⟨.sweepApply current, none⟩ => tl.version ≤ current.version
  | ⟨.sweepApply current, some committed⟩ =>
    tl.version ≤ current.version ∧ ∀ t, committed = some t → tl.version ≤ t.version
  | ⟨.sweepReread current, none⟩ => tl.version ≤ current.version
  | ⟨.sweepReread current, some latest⟩ =>
    tl.version ≤ current.version ∧ ∀ t, latest = some t → tl.version ≤ t.version
  | _ => False

/-- Only sweeps repair. -/
theorem Repairs.sweeps {tl : Timeline} {t : Pending Reply} (h : Repairs tl t) : t.point.sweeps = true := by
  obtain ⟨a, r⟩ := t
  cases a with
  | sweepGet | sweepApply | sweepReread => rfl
  | _ => exact h.elim

/-- What a sweep reads of a resting room that plays. -/
theorem Repairs.exec {tl : Timeline} {before : List Timeline} {a : Await} {w : World} (h : Repairs tl ⟨a, none⟩)
    (hq : Resting tl before w.redis) (hp : tl.isPlaying = true) (x : Choice) : Repairs tl ⟨a, some (exec auth a x w).1⟩ := by
  obtain ⟨cur, hcur, hle, hshows⟩ := hq.stored
  have hget : RedisRoomStateStore.get w.redis = some cur.toTimeline := by
    rw [RedisRoomStateStore.get, hcur]
    rfl
  cases a with
  | sweepGet => exact ⟨cur.toTimeline, hget, hshows.2.1.trans hp, hle⟩
  | sweepApply current =>
    refine ⟨h, fun t ht => ?_⟩
    have hs := Plane.step_cases w.redis (.applySnapshot x.trim)
    have hout : (Plane.step w.redis (.applySnapshot x.trim)).2 = .timeline (some t) := congrArg Plane.Out.timeline ht
    rw [hout] at hs
    obtain ⟨cur', hcur', hle', -⟩ := (hq.sweep hs).stored
    generalize (Plane.step w.redis (.applySnapshot x.trim)).1 = σ' at hs hcur'
    cases hs with
    | idle _ _ hidle =>
      rcases hidle with hidle | hidle
      · cases hidle
      · rw [hcur] at hidle
        rw [Option.some.inj hidle]
        exact hle
    | snapshot _ old new hold hp' window hnew =>
      rw [Lua.committed_loadTl] at hcur'
      rw [Option.some.inj hcur']
      exact hle'
  | sweepReread current =>
    refine ⟨h, fun t ht => ?_⟩
    obtain rfl : cur.toTimeline = t := Option.some.inj (hget.symm.trans ht)
    exact hle
  | _ => exact h.elim

/-- A sweep that is answered goes on, or tells the room. -/
theorem Repairs.resume (auth : String → AuthedSocketData) {tl : Timeline} {a : Await} {r : Reply a} (h : Repairs tl ⟨a, some r⟩) (l : Local) :
    (∃ b, (resume auth a r l).next = .await b ∧ Repairs tl ⟨b, none⟩) ∨
      ∃ t ∈ (resume auth a r l).sent.filterMap Emit.broadcast?, tl.version ≤ t.version := by
  cases a with
  | sweepGet =>
    obtain ⟨t, rfl, hp, hle⟩ := h
    refine Or.inl ⟨.sweepApply t, ?_, hle⟩
    simp only [SyncGateway.resume, hp]
    rfl
  | sweepApply current =>
    obtain ⟨hle, hall⟩ := h
    cases r with
    | none => exact Or.inl ⟨.sweepReread current, rfl, hle⟩
    | some t => exact Or.inr ⟨t, List.mem_singleton_self t, hall t rfl⟩
  | sweepReread current =>
    obtain ⟨hle, hall⟩ := h
    refine Or.inr ⟨r.getD current, List.mem_singleton_self _, ?_⟩
    cases r with
    | none => exact hle
    | some t => exact hall t rfl
  | _ => exact h.elim

/-- What a run keeps since a sweep of the instance `i` began. -/
structure Repairing (tl : Timeline) (before : List Timeline) (i : I) (tr : List (Event I)) (s : State I) : Prop where
  quiet : Resting tl before s.shared.redis
  repairs : (∃ t ∈ tr.flatMap (told i), tl.version ≤ t.version) ∨ ∃ t ∈ (s.node i).tasks, Repairs tl t

theorem told_of_sent {i : I} {e : Event I} {sent : List Emit} (h : e.out = some (i, sent)) :
    told i e = sent.filterMap Emit.broadcast? := by
  simp only [told, h, if_true]

/-- **Such a step carries the sweep on.** -/
theorem Repairing.step {tl : Timeline} {before : List Timeline} {i : I} {tr : List (Event I)} {e : Event I}
    (hs : Tasks.Step (system auth row) e.pre e.act e.out e.post) (hu : OnlySwept e) (hp : tl.isPlaying = true)
    (h : Repairing tl before i tr e.pre) : Repairing tl before i (tr ++ [e]) e.post := by
  refine ⟨h.quiet.step hs hu, ?_⟩
  rw [List.flatMap_append, List.flatMap_singleton]
  rcases h.repairs with ⟨t, ht, hle⟩ | ⟨t, ht, hrep⟩
  · exact Or.inl ⟨t, List.mem_append_left _ ht, hle⟩
  · rcases Tasks.tasks_keep hs ht with hkeep | ⟨a, x, hx, rfl, hshared, hmem⟩ | ⟨d, a, r, hr, rfl, hout, hnode⟩
    · exact Or.inr ⟨t, hkeep, hrep⟩
    · exact Or.inr ⟨_, hmem, hrep.exec h.quiet hp x⟩
    · rcases hrep.resume auth (e.pre.node i).loc with ⟨b, hb, hrepb⟩ | ⟨t, ht, hle⟩
      · refine Or.inr ⟨⟨b, none⟩, ?_, hrepb⟩
        rw [hnode]
        exact Desk.mem_tasks_await hb
      · refine Or.inl ⟨t, List.mem_append_right _ ?_, hle⟩
        rw [told_of_sent hout]
        exact ht

/-! ## A paused room -/

/-- A handler that will not send a timeline to the whole room, as long as the room is paused and only sweeps write. -/
def Silent : Pending Reply → Prop
  | ⟨.control _ _, some outcome⟩ => ∀ tl, outcome ≠ .committed tl
  | ⟨.sweepGet, some current⟩ => ∀ t, current = some t → t.isPlaying = false
  | ⟨.sweepApply _, _⟩ => False
  | ⟨.sweepReread _, _⟩ => False
  | _ => True

theorem silent_of_tells {t : Pending Reply} (h : t.point.tells = false) : Silent t := by
  obtain ⟨a, r⟩ := t
  cases a with
  | control | sweepGet | sweepApply | sweepReread => cases h
  | _ => trivial

omit [DecidableEq I] in
/-- Where a paused room is at rest, no call makes a handler tell. -/
theorem Silent.exec {tl : Timeline} {before : List Timeline} {e : Event I} {i : I} {a : Await} {x : Choice}
    (hu : OnlySwept e) (hx : e.pre.executed e.act = some (i, a))
    (hshared : e.post.shared = (exec auth a x e.pre.shared).2) (hq : Resting tl before e.pre.shared.redis)
    (hp : tl.isPlaying = false) (h : Silent ⟨a, none⟩) :
    Silent ⟨a, some (exec auth a x e.pre.shared).1⟩ := by
  obtain ⟨cur, hcur, hle, hshows⟩ := hq.stored
  cases a with
  | control id req =>
    intro tl' hcommit
    have hsame : e.post.shared.redis.loadTl = e.pre.shared.redis.loadTl := by
      refine hu.resolve_left fun hcall => ?_
      rw [call?, hx] at hcall
      cases hcall
    have hpost : e.post.shared.redis = (Plane.step e.pre.shared.redis (.applyControl req x.trim)).1 := by
      rw [hshared]
      rfl
    have hout : (Plane.step e.pre.shared.redis (.applyControl req x.trim)).2 = .outcome (.committed tl') :=
      congrArg Plane.Out.outcome hcommit
    have hstep := Plane.step_cases e.pre.shared.redis (.applyControl req x.trim)
    rw [← hpost, hout] at hstep
    have hsaves := saves_of_loadTl hstep hsame
    generalize e.post.shared.redis = σ' at hstep hsaves
    cases hstep with
    | control _ _ old new hold hr hf hnew =>
      rw [Lua.committed_saves, Lua.record_saves] at hsaves
      exact absurd (congrArg List.length hsaves) (by simp)
  | sweepGet =>
    intro t ht
    have hget : RedisRoomStateStore.get e.pre.shared.redis = some cur.toTimeline := by
      rw [RedisRoomStateStore.get, hcur]
      rfl
    obtain rfl : cur.toTimeline = t := Option.some.inj (hget.symm.trans ht)
    exact hshows.2.1.trans hp
  | sweepApply | sweepReread => exact h.elim
  | _ => trivial

/-- A handler that is silent goes on in silence. -/
theorem Silent.resume {a : Await} {r : Reply a} (h : Silent ⟨a, some r⟩) (l : Local) :
    (∀ b, (resume auth a r l).next = .await b → Silent ⟨b, none⟩) ∧
      (resume auth a r l).sent.filterMap Emit.broadcast? = [] := by
  cases a with
  | control id req =>
    cases r with
    | committed tl => exact absurd rfl (h tl)
    | _ =>
      simp only [SyncGateway.resume, TimelineService.controlResult]
      exact ⟨fun b hb => (by cases hb), rfl⟩
  | sweepGet =>
    cases r with
    | none => exact ⟨fun b hb => (by cases hb), rfl⟩
    | some t =>
      have hpaused : (if t.isPlaying then await (.sweepApply t) [] l else done [] l) = done [] l :=
        if_neg (by rw [h t rfl]; exact Bool.false_ne_true)
      simp only [SyncGateway.resume, hpaused]
      exact ⟨fun b hb => (by cases hb), rfl⟩
  | sweepApply | sweepReread => exact h.elim
  | joinInit id room =>
    refine ⟨fun b hb => ?_, ?_⟩
    · cases hb
      trivial
    · simp only [SyncGateway.resume, await]
      cases (TimelineService.reclaim (auth id).userId l).1 <;> rfl
  | leaveFetch id =>
    simp only [SyncGateway.resume]
    split
    · exact ⟨fun b hb => (by cases hb), rfl⟩
    · refine ⟨fun b hb => ?_, ?_⟩
      · cases hb
        trivial
      · simp only [await]
        cases (TimelineService.succession (auth id).userId (candidate auth r) l).1 <;> rfl
  | _ =>
    simp only [SyncGateway.resume]
    repeat' split
    all_goals exact ⟨fun b hb => (by cases hb <;> trivial), rfl⟩

theorem silent_start (r : Request) (l : Local) :
    (∀ b, (start auth r l).next = .await b → Silent ⟨b, none⟩) ∧
      (start auth r l).sent.filterMap Emit.broadcast? = [] := by
  cases r
  all_goals
    simp only [start]
    repeat' split
    all_goals exact ⟨fun b hb => (by cases hb <;> trivial), rfl⟩

omit [DecidableEq I] in
/-- What a stretch of a handler does that begins in silence. -/
theorem silent_begins {s : State I} {m : Move I Request Choice Env} {i : I} {d : Desk Local Gated Reply} {u : Stretch}
    (hb : Tasks.Begins (system auth row) s m i d u) (h : ∀ t ∈ (s.node i).tasks, Silent t) :
    (∀ b, u.next = .await b → Silent ⟨b, none⟩) ∧ u.sent.filterMap Emit.broadcast? = [] := by
  cases hb with
  | start r hm => exact silent_start r _
  | resume pre post a r hm hc => exact (h _ (Office.replied_mem hm)).resume _
  | enter q rest hm hq hfree => cases q <;> exact ⟨fun b hb => (by cases hb; trivial), rfl⟩

/-- **Such a step in a paused room leaves an instance silent.** -/
theorem silent_step {tl : Timeline} {before : List Timeline} {i : I} {e : Event I}
    (hs : Tasks.Step (system auth row) e.pre e.act e.out e.post) (hu : OnlySwept e)
    (hq : Resting tl before e.pre.shared.redis) (hp : tl.isPlaying = false) (h : ∀ t ∈ (e.pre.node i).tasks, Silent t) :
    (∀ t ∈ (e.post.node i).tasks, Silent t) ∧ told i e = [] := by
  refine ⟨fun t ht => ?_, ?_⟩
  · rcases Tasks.mem_tasks hs ht with ht | ⟨a, x, hx, hmem, rfl, hshared⟩ | ⟨d, u, a, hb, ha, rfl, -⟩
    · exact h t ht
    · exact Silent.exec hu hx hshared hq hp (h _ hmem)
    · exact (silent_begins hb h).1 a ha
  · unfold told
    split
    · rename_i j sent hout
      split
      · rename_i hj
        subst hj
        obtain ⟨d, u, hb, rfl, -⟩ := Tasks.sent_cases hs hout
        exact (silent_begins hb h).2
      · rfl
    · rfl

/-! ## The result -/

/-- In `ticks` the instance `i` begins a sweep while it has sockets in the room, and later has no sweep under way. -/
def Swept (auth : String → AuthedSocketData) (row : RoomRow) (i : I) (s : State I)
    (ticks : List (Move I Request Choice Env)) : Prop :=
  ∃ before during after, ticks = before ++ .start i .sweep :: during ++ after ∧
    (((backend auth row).runFrom s before).node i).loc.members ≠ [] ∧
    ∀ t ∈ (((backend auth row).runFrom s (before ++ .start i .sweep :: during)).node i).tasks, t.point.sweeps = false

/-- A room stays at rest while only sweeps write to it. -/
theorem resting_run {tl : Timeline} {before : List Timeline} (s : State I) (h : Resting tl before s.shared.redis)
    (ticks : List (Move I Request Choice Env)) :
    (∀ e ∈ (backend auth row).traceFrom s ticks, OnlySwept e) →
      Resting tl before ((backend auth row).runFrom s ticks).shared.redis :=
  (backend auth row).invariant_forall_from (I := fun _ s => Resting tl before s.shared.redis) s h
    (fun _ _ _ hu hI => Resting.step (Tasks.event_cases _ _) hu hI) ticks

/-- A sweep that begins in a resting room that plays tells the sockets of its instance. -/
theorem told_of_swept {tl : Timeline} {before : List Timeline} {i : I} {s : State I}
    (h : Resting tl before s.shared.redis) (hp : tl.isPlaying = true) {ticks : List (Move I Request Choice Env)}
    (hu : ∀ e ∈ (backend auth row).traceFrom s ticks, OnlySwept e) (hswept : Swept auth row i s ticks) :
    ∃ t ∈ ((backend auth row).traceFrom s ticks).flatMap (told i), tl.version ≤ t.version := by
  obtain ⟨as, bs, cs, rfl, hmembers, hdone⟩ := hswept
  simp only [Machine.traceFrom_append, Machine.runFrom_append, Machine.runFrom_cons, List.mem_append,
    Machine.traceFrom, List.mem_cons, List.flatMap_append, List.flatMap_cons] at hu hdone ⊢
  generalize hs₁ : (backend auth row).runFrom s as = s₁ at hu hmembers hdone ⊢
  -- the sweep begins
  have hquiet : Resting tl before s₁.shared.redis := by
    rw [← hs₁]
    exact resting_run s h as fun e he => hu e (Or.inl (Or.inl he))
  have hstart : Tasks.Step (system auth row) s₁ _ _ _ := Tasks.event_cases s₁ (.start i .sweep)
  have hawait : (start auth .sweep (s₁.node i).loc).next = .await .sweepGet := by
    simp only [start, if_neg hmembers]
    rfl
  have hbegun : Repairing tl before i [] ((backend auth row).step s₁ (.start i .sweep)).1 := by
    refine ⟨Resting.step hstart (hu _ (Or.inl (Or.inr (Or.inl rfl)))) hquiet, Or.inr ⟨⟨.sweepGet, none⟩, ?_, trivial⟩⟩
    rw [show ((backend auth row).step s₁ (.start i .sweep)).1.node i = _ from (Tasks.started hstart).1]
    exact Desk.mem_tasks_await hawait
  -- it is over
  have hrun := (backend auth row).invariant_forall_from (I := fun tr s => Repairing tl before i tr s) _ hbegun
    (fun _ _ _ hu hI => Repairing.step (Tasks.event_cases _ _) hu hp hI) bs
    fun e he => hu e (Or.inl (Or.inr (Or.inr he)))
  rcases hrun.repairs with ⟨t, ht, hle⟩ | ⟨t, ht, hrep⟩
  · exact ⟨t, Or.inl (Or.inr (Or.inr ht)), hle⟩
  · exact absurd (hdone t ht) (by rw [hrep.sweeps]; exact Bool.noConfusion)

/-- An instance that is silent stays so in a resting room that is paused. -/
theorem told_of_paused {tl : Timeline} {before : List Timeline} {i : I} {s : State I}
    (h : Resting tl before s.shared.redis) (hp : tl.isPlaying = false) (hidle : ∀ t ∈ (s.node i).tasks, Silent t)
    {ticks : List (Move I Request Choice Env)} (hu : ∀ e ∈ (backend auth row).traceFrom s ticks, OnlySwept e) :
    ((backend auth row).traceFrom s ticks).flatMap (told i) = [] := by
  have hrun := (backend auth row).invariant_forall_from
    (I := fun tr s => Resting tl before s.shared.redis ∧ (∀ t ∈ (s.node i).tasks, Silent t) ∧ tr.flatMap (told i) = [])
    s ⟨h, hidle, rfl⟩ (fun tr s a hu hI => ?_) ticks hu
  · exact hrun.2.2
  · obtain ⟨hq, hsilent, htold⟩ := hI
    have hs : Tasks.Step (system auth row) _ _ _ _ := Tasks.event_cases s a
    obtain ⟨hsilent', htold'⟩ := silent_step hs hu hq hp hsilent
    refine ⟨hq.step hs hu, hsilent', ?_⟩
    rw [List.flatMap_append, htold, List.flatMap_singleton, htold']
    rfl

variable (auth row) in
/-- **The sweep repairs playing rooms, and only these.** From where the store holds `tl`, in any stretch in which only
sweeps write to the room, it goes on to show what `tl` shows. If the room plays, then every client that received what
its instance `i` told its sockets in the stretch, where `i` swept, shows what the store says: whatever the client
received besides of what was ever sent, in whatever order and how often, and whatever it missed. If the room is paused,
an instance at which no control or sweep was under way tells its sockets nothing. -/
theorem sweep_repairs (ops ticks : List (Move I Request Choice Env)) (i : I) {tl : TlHash}
    (hmint : (Plane.mints (planeEvents ((backend auth row).trace (ops ++ ticks)))).Nodup)
    (hstored : ((backend auth row).run ops).shared.redis.loadTl = some tl)
    (hquiet : ∀ e ∈ (backend auth row).traceFrom ((backend auth row).run ops) ticks, OnlySwept e) :
    ∃ cur, ((backend auth row).run (ops ++ ticks)).shared.redis.loadTl = some cur ∧
      SameShow cur.toTimeline tl.toTimeline ∧
      (tl.isPlaying = true → Swept auth row i ((backend auth row).run ops) ticks →
        ∀ tls : List Timeline, (∀ t ∈ tls, t ∈ shown ((backend auth row).trace (ops ++ ticks))) →
          (∀ t ∈ ((backend auth row).traceFrom ((backend auth row).run ops) ticks).flatMap (told i), t ∈ tls) →
          ∃ held, received tls = some held ∧ SameShow held cur.toTimeline) ∧
      (tl.isPlaying = false → (∀ t ∈ (((backend auth row).run ops).node i).tasks, t.point.tells = false) →
        ((backend auth row).traceFrom ((backend auth row).run ops) ticks).flatMap (told i) = []) := by
  have hV := versioned (ops ++ ticks) hmint
  have hV₀ : Versioned ((backend auth row).trace ops) ((backend auth row).run ops) := by
    refine versioned ops ?_
    rw [Machine.trace_append, planeEvents, List.filterMap_append, Plane.mints, List.filterMap_append] at hmint
    exact (List.nodup_append.mp hmint).1
  rw [Machine.run_append] at hV ⊢
  generalize (backend auth row).run ops = s at hstored hquiet hV hV₀ ⊢
  have hq₀ : Resting tl.toTimeline (Plane.commits s.shared.redis) s.shared.redis :=
    ⟨⟨tl, hstored, le_rfl, .refl _⟩, [], (List.append_nil _).symm, fun t ht => absurd ht List.not_mem_nil⟩
  have hq := resting_run s hq₀ ticks hquiet
  obtain ⟨cur, hcur, -, hshows⟩ := hq.stored
  obtain ⟨since, hsince, hall⟩ := hq.commits
  refine ⟨cur, hcur, hshows, fun hp hswept tls hsent htold => ?_, fun hp hidle => ?_⟩
  · obtain ⟨t, ht, hle⟩ := told_of_swept hq₀ hp hquiet hswept
    -- the client holds something as new as `tl`
    cases hheld : received tls with
    | none =>
      rw [received_eq_none.mp hheld] at htold
      exact absurd (htold t ht) List.not_mem_nil
    | some held =>
      refine ⟨held, rfl, SameShow.trans ?_ hshows.symm⟩
      obtain ⟨hmem, hmax⟩ := received_max hheld
      have hnew : tl.toTimeline.version ≤ held.version := hle.trans (hmax t (htold t ht))
      have hcommit := hV.shown held (hsent held hmem)
      rw [hsince, List.mem_append] at hcommit
      rcases hcommit with hcommit | hcommit
      · have hsame : held.version = tl.toTimeline.version :=
          le_antisymm (hV₀.ordered.le_loaded hstored held hcommit) hnew
        rw [Plane.version_injOn hV₀.ordered hcommit (hV₀.ordered.loaded_mem hstored) hsame]
        exact .refl _
      · exact hall held hcommit
  · exact told_of_paused hq₀ hp (fun t ht => silent_of_tells (hidle t ht)) hquiet

/-- The creator plays on one instance, while a guest has joined on another. -/
def playedApart : List (Move Bool Request Choice Env) :=
  joining true 0 "creator" ++ joining false 0 "guest" ++
    .start true (.control "creator" 0 ⟨.play, 7, "creator", none, none, none, none⟩) :: answer true 0

/-- The instance of the guest sweeps. -/
def sweptApart : List (Move Bool Request Choice Env) :=
  .env (.tick 5000) :: .start false .sweep :: (answer false 0 ++ answer false 0)

/-- The play reaches nobody on the other instance, whose sweep sends the guest there what plays. -/
theorem sweep_repairs_missed :
    ∃ held cur, received (((backend namesake quietRow).traceFrom ((backend namesake quietRow).run playedApart)
        sweptApart).flatMap (told false)) = some held ∧
      ((backend namesake quietRow).run (playedApart ++ sweptApart)).shared.redis.loadTl = some cur ∧
      SameShow held cur.toTimeline := by
  have hplays : ((backend namesake quietRow).run playedApart).shared.redis.loadTl.map TlHash.isPlaying = some true := by
    decide +kernel
  obtain ⟨tl, hstored, hp⟩ := Option.map_eq_some_iff.mp hplays
  have hswept : Swept namesake quietRow false ((backend namesake quietRow).run playedApart) sweptApart :=
    ⟨[.env (.tick 5000)], answer false 0 ++ answer false 0, [], rfl, by decide +kernel, by decide +kernel⟩
  obtain ⟨cur, hcur, -, hrepaired, -⟩ :=
    sweep_repairs namesake quietRow playedApart sweptApart false (by decide +kernel) hstored (by decide +kernel)
  obtain ⟨held, hheld, hshows⟩ := hrepaired hp hswept _ (by decide +kernel) fun t ht => ht
  exact ⟨held, cur, hheld, hcur, hshows⟩

end SyncGateway
end WatchParty
