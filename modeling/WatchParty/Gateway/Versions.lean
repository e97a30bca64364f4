import WatchParty.Gateway.Handlers
import WatchParty.Shared.Order

/-!
# The timelines that clients are shown

What the handlers do to the keys of the room are operations of the shared-script plane, so the order of its versions
carries over to the runs of the gateway, also when Redis loses its keys. Every timeline that a handler holds or sends
was committed.

- `planeEvents` are the plane's events in a run of the gateway;
- `Versioned` is the invariant, `versioned` the run lemma.
-/

namespace WatchParty
namespace SyncGateway

variable {I : Type} {auth : String → AuthedSocketData} {row : RoomRow}

/-- The operation of the plane that an awaited call is. -/
def Await.op : Await → Choice → Option Plane.Op
  | .joinInit _ room, x => some (.init room.videoUrl room.currentTime x.trim)
  | .releaseGet _, _ => some .get
  | .releaseClear _ _, _ => some .clear
  | .control _ req, x => some (.applyControl req x.trim)
  | .sweepGet, _ => some .get
  | .sweepApply _, x => some (.applySnapshot x.trim)
  | .sweepReread _, _ => some .get
  | .flushGet, _ => some .get
  | _, _ => none

/-- The event of the plane that an event of the gateway is. -/
def planeEvent? (e : Event I) : Option Plane.Event :=
  match e.act with
  | .exec _ _ x =>
    (e.pre.executed e.act).bind fun c => (c.2.op x).map (Plane.machine.event e.pre.shared.redis)
  | .env (.tick d) => some (Plane.machine.event e.pre.shared.redis (.tick d))
  | _ => none

def planeEvents (tr : List (Event I)) : List Plane.Event := tr.filterMap planeEvent?

theorem planeEvents_snoc (tr : List (Event I)) (e : Event I) :
    planeEvents (tr ++ [e]) = planeEvents tr ++ (planeEvent? e).toList := by
  cases h : planeEvent? e <;> simp [planeEvents, h]

/-- What a call does to the keys of the room is its operation. -/
theorem exec_redis (a : Await) (x : Choice) (w : World) :
    (exec auth a x w).2.redis = ((a.op x).map fun op => (Plane.step w.redis op).1).getD w.redis := by
  cases a <;> rfl

/-- Redis without its keys. -/
def flushed (σ : Room) : Room := { σ with tl := none, cmd := fun _ => none, log := none, lease := none }

variable [DecidableEq I]

/-- The keys of the room change by an operation of the plane or by a flush. -/
theorem redis_step {e : Event I} (hs : Tasks.Step (system auth row) e.pre e.act e.out e.post) :
    (∃ op, planeEvent? e = some (Plane.machine.event e.pre.shared.redis op) ∧
      e.post.shared.redis = (Plane.step e.pre.shared.redis op).1) ∨
    planeEvent? e = none ∧
      (e.post.shared.redis = e.pre.shared.redis ∨ e.post.shared.redis = flushed e.pre.shared.redis) := by
  obtain ⟨pre, act, out, post⟩ := e
  simp only at hs
  cases act with
  | exec i n x =>
    cases hx : pre.executed (.exec i n x : Move I Request Choice Env) with
    | none =>
      have hsame : post.shared = pre.shared := by
        rcases Tasks.shared_cases _ hs with ⟨_, _, _, hx', -⟩ | ⟨_, hm, -⟩ | ⟨-, h⟩
        · rw [hx] at hx'
          cases hx'
        · cases hm
        · exact h
      exact Or.inr ⟨by simp only [planeEvent?, hx, Option.bind_none], Or.inl (by rw [hsame])⟩
    | some c =>
      obtain ⟨j, a⟩ := c
      have hredis : post.shared.redis = ((a.op x).map fun op => (Plane.step pre.shared.redis op).1).getD
          pre.shared.redis := by
        rw [(Tasks.exec_step hs hx).1]
        exact exec_redis a x pre.shared
      cases hop : a.op x with
      | none =>
        rw [hop] at hredis
        exact Or.inr ⟨by simp only [planeEvent?, hx, Option.bind_some, hop, Option.map_none], Or.inl hredis⟩
      | some op =>
        rw [hop] at hredis
        exact Or.inl ⟨op, by simp only [planeEvent?, hx, Option.bind_some, hop, Option.map_some], hredis⟩
  | env env =>
    have hpost : post.shared = env.apply pre.shared := by
      rcases Tasks.shared_cases _ hs with ⟨_, _, _, hx, -⟩ | ⟨env', hm, h⟩ | ⟨-, h⟩
      · cases hx
      · cases hm
        exact h
      · cases hs with
        | env => rfl
        | idle _ hm hx hr => exact absurd rfl (hm.2 env)
    cases env with
    | tick d => exact Or.inl ⟨.tick d, rfl, by rw [hpost]; rfl⟩
    | flush => exact Or.inr ⟨rfl, Or.inr (by rw [hpost]; rfl)⟩
  | start | deliver | enter =>
    rcases Tasks.shared_cases _ hs with ⟨_, _, _, hx, -⟩ | ⟨_, hm, -⟩ | ⟨-, h⟩
    · cases hx
    · cases hm
    · exact Or.inr ⟨rfl, Or.inl (by rw [h])⟩

/-! ## What is held and shown was committed -/

/-- The timelines that a handler holds at a task. -/
def timelines : Pending Reply → List Timeline
  | ⟨.joinInit _ _, some tl⟩ => [tl]
  | ⟨.joinUpsert _ tl, _⟩ => [tl]
  | ⟨.joinList _ tl, _⟩ => [tl]
  | ⟨.control _ _, some o⟩ => o.timeline.toList
  | ⟨.sweepGet, some current⟩ => current.toList
  | ⟨.sweepApply current, committed⟩ => current :: committed.join.toList
  | ⟨.sweepReread current, latest⟩ => current :: latest.join.toList
  | _ => []

/-- The timelines that an event sends to a client. -/
def Emit.timelines : Emit → List Timeline
  | .joined _ tl _ => [tl]
  | .room tl => [tl]
  | .localRoom tl => [tl]
  | .socket _ tl => [tl]
  | _ => []

def sentTimelines (e : Event I) : List Timeline :=
  match e.out with
  | some (_, sent) => sent.flatMap Emit.timelines
  | none => []

/-- The timelines that clients were shown. -/
def shown (tr : List (Event I)) : List Timeline := tr.flatMap sentTimelines

/-- The answer to a call holds what the handler held and what the operation answered. -/
theorem exec_timelines (a : Await) (x : Choice) (w : World) :
    ∀ tl ∈ timelines ⟨a, some (exec auth a x w).1⟩,
      tl ∈ timelines ⟨a, none⟩ ∨ ∃ op, a.op x = some op ∧ (Plane.step w.redis op).2.carried = some tl := by
  intro tl h
  cases a with
  | joinInit id room =>
    rw [List.mem_singleton.mp h]
    exact Or.inr ⟨_, rfl, rfl⟩
  | control id req => exact Or.inr ⟨_, rfl, Option.mem_toList.mp h⟩
  | sweepGet => exact Or.inr ⟨_, rfl, Option.mem_toList.mp h⟩
  | sweepApply current =>
    rcases List.mem_cons.mp h with rfl | h
    · exact Or.inl List.mem_cons_self
    · exact Or.inr ⟨_, rfl, Option.mem_toList.mp h⟩
  | sweepReread current =>
    rcases List.mem_cons.mp h with rfl | h
    · exact Or.inl List.mem_cons_self
    · exact Or.inr ⟨_, rfl, Option.mem_toList.mp h⟩
  | joinUpsert | joinList => exact Or.inl h
  | _ => cases h

theorem announce_timelines (reason : ControllerReason) (change : Option String) :
    (announce reason change).flatMap Emit.timelines = [] := by
  cases change <;> rfl

/-- A handler goes on with what it holds, and shows nothing else. -/
theorem resume_timelines (a : Await) (r : Reply a) (l : Local) :
    (∀ b, (resume auth a r l).next = .await b → timelines ⟨b, none⟩ ⊆ timelines ⟨a, some r⟩) ∧
      (resume auth a r l).sent.flatMap Emit.timelines ⊆ timelines ⟨a, some r⟩ := by
  refine ⟨fun b h => ?_, ?_⟩
  · cases a
    all_goals
      simp only [resume] at h
      repeat' split at h
      all_goals cases h
      all_goals simp [timelines]
  · cases a with
    | joinInit id room =>
      simp only [resume, await, announce_timelines]
      exact List.nil_subset _
    | leaveFetch id =>
      simp only [resume]
      split
      · exact List.nil_subset _
      · simp only [await, announce_timelines]
        exact List.nil_subset _
    | control id req => cases r <;> simp [resume, timelines, Emit.timelines, done, TimelineService.controlResult,
        ApplyOutcome.timeline]
    | sweepReread current => cases r <;> simp [resume, timelines, Emit.timelines, done]
    | _ =>
      simp only [resume]
      repeat' split
      all_goals simp [timelines, Emit.timelines, done, await, gated]

theorem start_timelines (r : Request) (l : Local) :
    (∀ b, (start auth r l).next = .await b → timelines ⟨b, none⟩ = []) ∧
      (start auth r l).sent.flatMap Emit.timelines = [] := by
  refine ⟨fun b h => ?_, ?_⟩
  · cases r
    all_goals
      simp only [start] at h
      repeat' split at h
      all_goals cases h
      all_goals rfl
  · cases r
    all_goals
      simp only [start]
      repeat' split
      all_goals rfl

/-- What a run keeps: the order of versions, and that what is held and shown was committed. -/
structure Versioned (tr : List (Event I)) (s : State I) : Prop where
  ordered : Plane.Ordered (planeEvents tr) s.shared.redis
  held : ∀ i, (s.node i).Meets (fun _ => True) (fun t => ∀ tl ∈ timelines t, tl ∈ Plane.commits s.shared.redis)
    fun _ => True
  shown : ∀ tl ∈ shown tr, tl ∈ Plane.commits s.shared.redis

/-- A flush takes no commit back. -/
theorem ordered_flushed {tr : List Plane.Event} {σ : Room} (h : Plane.Ordered tr σ) : Plane.Ordered tr (flushed σ) where
  newest _ h' := nomatch h'
  mono := h.mono
  epochs := h.epochs
  past := h.past
  honest := h.honest

/-- No step takes a commit back. -/
theorem commits_step {e : Event I} (hs : Tasks.Step (system auth row) e.pre e.act e.out e.post) {tl : Timeline}
    (h : tl ∈ Plane.commits e.pre.shared.redis) : tl ∈ Plane.commits e.post.shared.redis := by
  rcases redis_step hs with ⟨op, -, he⟩ | ⟨-, he | he⟩
  · rw [he]
    exact ((Plane.step_cases e.pre.shared.redis op).saves_grow.map TlHash.toTimeline).subset h
  · rw [he]
    exact h
  · rw [he]
    exact h

section Step

variable {tr : List (Event I)} {e : Event I}

theorem Versioned.ordered_step (hs : Tasks.Step (system auth row) e.pre e.act e.out e.post)
    (hmint : (Plane.mints (planeEvents (tr ++ [e]))).Nodup)
    (h : Plane.Ordered (planeEvents tr) e.pre.shared.redis) :
    Plane.Ordered (planeEvents (tr ++ [e])) e.post.shared.redis := by
  rw [planeEvents_snoc] at hmint ⊢
  rcases redis_step hs with ⟨op, hp, he⟩ | ⟨hp, he | he⟩
  · rw [hp, Option.toList_some] at hmint ⊢
    rw [he]
    exact Plane.Ordered.step (Plane.event_cases e.pre.shared.redis op) hmint h
  · rw [hp, Option.toList_none, List.append_nil, he]
    exact h
  · rw [hp, Option.toList_none, List.append_nil, he]
    exact ordered_flushed h

omit [DecidableEq I] in
/-- What an operation answers was committed. -/
theorem answered_committed (ho : Plane.Ordered (planeEvents (tr ++ [e])) e.post.shared.redis) {op : Plane.Op}
    {tl : Timeline} (hp : planeEvent? e = some (Plane.machine.event e.pre.shared.redis op))
    (h : (Plane.step e.pre.shared.redis op).2.carried = some tl) : tl ∈ Plane.commits e.post.shared.redis := by
  refine ho.honest tl ?_
  rw [planeEvents_snoc, hp, Option.toList_some, Plane.answered_snoc]
  exact List.mem_append_right _ (Option.mem_toList.mpr h)

theorem Versioned.step (hs : Tasks.Step (system auth row) e.pre e.act e.out e.post)
    (hmint : (Plane.mints (planeEvents (tr ++ [e]))).Nodup) (hI : Versioned tr e.pre) :
    Versioned (tr ++ [e]) e.post := by
  have ho := Versioned.ordered_step hs hmint hI.ordered
  have hpost : ∀ i, (e.pre.node i).Meets (fun _ => True)
      (fun t => ∀ tl ∈ timelines t, tl ∈ Plane.commits e.post.shared.redis) fun _ => True :=
    fun i => ⟨trivial, fun t ht tl h => commits_step hs ((hI.held i).tasks t ht tl h), fun _ _ => trivial⟩
  refine ⟨ho, Tasks.meets_step hs hpost (fun i r _ _ => ?_) (fun i n x a hm hx ha tl h => ?_)
    (fun i a r _ _ hr => ?_) fun i q _ _ _ => ?_, fun tl h => ?_⟩
  · refine ⟨trivial, fun a h tl ht => ?_, fun _ _ => trivial⟩
    rw [(start_timelines r _).1 a h] at ht
    cases ht
  · rcases exec_timelines a x e.pre.shared tl h with h | ⟨op, hop, h⟩
    · exact ha tl h
    · refine answered_committed ho ?_ h
      rw [hm] at hx
      simp only [planeEvent?, hm, hx, Option.bind_some, hop, Option.map_some]
  · exact ⟨trivial, fun b h tl ht => hr tl ((resume_timelines a r _).1 b h ht), fun _ _ => trivial⟩
  · refine ⟨trivial, fun b h tl ht => ?_, fun _ _ => trivial⟩
    cases q <;> cases h <;> cases ht
  · rw [SyncGateway.shown, List.flatMap_append, List.mem_append] at h
    rcases h with h | h
    · exact commits_step hs (hI.shown tl h)
    · simp only [List.flatMap_cons, List.flatMap_nil, List.append_nil, sentTimelines] at h
      split at h
      · rename_i i sent hout
        obtain ⟨d, u, hb, rfl, -⟩ := Tasks.sent_cases hs hout
        cases hb with
        | start r hm =>
          rw [show (system auth row).start = start auth from rfl, (start_timelines r _).2] at h
          cases h
        | enter q rest hm hq hfree => cases q <;> cases h
        | resume pre post a r hm hc =>
          exact (hpost i).tasks _ (Office.replied_mem hm) tl ((resume_timelines a r _).2 h)
      · cases h

end Step

theorem versioned_init : Versioned [] (backend (I := I) auth row).init where
  ordered := Plane.ordered_init
  held _ := ⟨trivial, fun _ h => absurd h List.not_mem_nil, fun _ _ => trivial⟩
  shown _ h := absurd h List.not_mem_nil

/-- **Every timeline that clients are shown was committed**, and versions increase from commit to commit. -/
theorem versioned (ops : List (Move I Request Choice Env)) :
    (Plane.mints (planeEvents ((backend auth row).trace ops))).Nodup →
      Versioned ((backend auth row).trace ops) ((backend auth row).run ops) := by
  refine (backend auth row).invariant_under (C := fun tr => (Plane.mints (planeEvents tr)).Nodup) (fun tr e h => ?_)
    versioned_init (fun _ _ _ hc hI => Versioned.step (Tasks.event_cases _ _) hc hI) ops
  rw [planeEvents_snoc, Plane.mints, List.filterMap_append] at h
  exact (List.nodup_append.mp h).1

end SyncGateway
end WatchParty
