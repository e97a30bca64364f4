import WatchParty.Gateway.Presence
import WatchParty.Gateway.Versions

/-!
# What is left of a room when everybody has gone

Each thing that a join leaves behind has somebody who will take it away: the settings of an instance the sockets of that
instance, or a leave or a release that is under way there; the timeline the sockets of the room, or a leave or a release
somewhere; a participant the sockets of the user, or their leaves. So nothing is left when every handler has ended and
nobody wants to be in the room.

- `Kept`, `Clearing`, `Remaining` say who takes away the settings, the timeline and a participant;
- `Attended` is the condition on a leave that finds sockets in the room;
- `Vacating` is the invariant, `Vacating.step` the step lemma;
- `room_isolated` is the result, `moved_on` a run in which a socket that has gone elsewhere is sent a timeline.
-/

namespace WatchParty
namespace SyncGateway

variable {I : Type}

/-- The leave or release at a point that is still to delete the settings. -/
def Await.tidier : Await → Option String
  | .leaveSocket id => some id
  | .leaveFetch id => some id
  | .releaseGet id => some id
  | _ => none

/-- Somebody other than a leave of this socket is there to delete the settings of the instance. -/
def KeptBut (id : String) (d : Desk Local Gated Reply) : Prop :=
  d.loc.members ≠ [] ∨ (∃ t ∈ d.tasks, ∃ id' ∈ t.point.tidier, id' ≠ id) ∨ ∃ q ∈ d.queue, q.isEnsure = false

instance (id : String) (d : Desk Local Gated Reply) : Decidable (KeptBut id d) :=
  inferInstanceAs (Decidable (_ ∨ _ ∨ _))

/-- Somebody is there to delete the settings of the instance. -/
def Kept (d : Desk Local Gated Reply) : Prop :=
  d.loc.members ≠ [] ∨ (∃ t ∈ d.tasks, ∃ id, t.point.tidier = some id) ∨ ∃ q ∈ d.queue, q.isEnsure = false

/-- A leave or a release that is still to clear the store, or a join that has put its socket in the room. -/
def clearing : Pending Reply → Bool
  | ⟨.joinSocket _ _, some _⟩ => true
  | ⟨.leaveSocket _, _⟩ => true
  | ⟨.leaveFetch _, none⟩ => true
  | ⟨.leaveFetch _, some []⟩ => true
  | ⟨.releaseGet _, _⟩ => true
  | ⟨.releaseClear _ _, none⟩ => true
  | _ => false

def Clearing (d : Desk Local Gated Reply) : Prop :=
  (∃ t ∈ d.tasks, clearing t = true) ∨ ∃ q ∈ d.queue, q.isEnsure = false

/-- The socket whose leave is still to mark its participant inactive, at a task. -/
def remaining : Pending Reply → Option String
  | ⟨.leaveSocket id, _⟩ => some id
  | ⟨.leaveFetch id, _⟩ => some id
  | ⟨.releaseGet id, _⟩ => some id
  | ⟨.releaseClear id _, _⟩ => some id
  | ⟨.releasePersist id _ _, _⟩ => some id
  | ⟨.leaveRow id, _⟩ => some id
  | ⟨.leaveUpdate id, none⟩ => some id
  | _ => none

def Remaining (d : Desk Local Gated Reply) (id : String) : Prop :=
  id ∈ d.loc.members ∨ (∃ t ∈ d.tasks, remaining t = some id) ∨ .release id ∈ d.queue

/-- The leave that an event tells that there are sockets in the room. -/
def outlived? (e : Event I) : Option (I × String) :=
  match e.pre.replied e.act with
  | some (j, ⟨.leaveFetch id, _ :: _⟩) => some (j, id)
  | _ => none

/-- A leave that finds sockets in the room finds one of its own instance, or leaves the settings to another leave. -/
def Attended (e : Event I) : Prop :=
  ∀ p ∈ outlived? e, (e.pre.node p.1).loc.roomMeta = none ∨ KeptBut p.2 (e.pre.node p.1)

instance (e : Event I) : Decidable (Attended e) := inferInstanceAs (Decidable (∀ p ∈ outlived? e, _))

/-- No handler is under way. -/
def Quiet (s : State I) : Prop := ∀ j, (s.node j).tasks = [] ∧ (s.node j).queue = []

variable {auth : String → AuthedSocketData} {row : RoomRow}

/-! ## Who takes what away -/

section Stages

variable [DecidableEq I] {s s' : State I} {m : Move I Request Choice Env} {o : Shown I Emit} {j : I} {id : String}

omit [DecidableEq I] in
theorem executed_of_replied {c : I × (a : Await) × Reply a} (h : s.replied m = some c) : s.executed m = none := by
  cases m with
  | deliver => rfl
  | _ => cases h

/-- A member of an instance stays one until its leave has it out of the room, or it is heard of elsewhere. -/
theorem members_keep (hs : Tasks.Step (system auth row) s m o s') (h : id ∈ (s.node j).loc.members) :
    id ∈ (s'.node j).loc.members ∨ s.replied m = some (j, ⟨.leaveSocket id, ()⟩) ∨ m = .start j (.elsewhere id) := by
  rcases Tasks.loc_cases hs j with he | ⟨d, u, hu, he⟩
  · rw [he]
    exact Or.inl h
  · rw [he]
    cases hu with
    | start r hm =>
      cases r with
      | elsewhere id' =>
        by_cases hid : id = id'
        · subst hid
          exact Or.inr (Or.inr hm)
        · exact Or.inl (List.mem_filter.mpr ⟨h, decide_eq_true hid⟩)
      | control id' now req =>
        left
        simp only [system, start]
        repeat' split
        · simpa [done] using h
        · simpa [await] using h
        · exact h
      | _ =>
        left
        simp only [system, start]
        repeat' split
        all_goals exact h
    | enter q rest hm hq hfree =>
      left
      cases q with
      | ensure id' room =>
        simp only [system, enter, await, TimelineService.ensureMeta_members]
        exact h
      | release id' => exact h
    | resume pre post a r hm hc =>
      cases a with
      | leaveSocket id' =>
        by_cases hid : id = id'
        · subst hid
          exact Or.inr (Or.inl hm)
        · exact Or.inl (List.mem_filter.mpr ⟨h, decide_eq_true hid⟩)
      | joinSocket id' room =>
        left
        simp only [system, resume, gated]
        split
        · exact h
        · exact List.mem_append_left _ h
      | joinInit id' room =>
        left
        simp only [system, resume, await, TimelineService.reclaim_members]
        exact h
      | leaveFetch id' =>
        left
        simp only [system, resume]
        split
        · exact h
        · simp only [await, TimelineService.succession_members]
          exact h
      | _ =>
        left
        simp only [system, resume]
        repeat' split
        all_goals exact h

/-- A socket that its leave has out of the room is no member. -/
theorem left_members (hs : Tasks.Step (system auth row) s m o s')
    (hr : s.replied m = some (j, ⟨.leaveSocket id, ()⟩)) : id ∉ (s'.node j).loc.members := by
  obtain ⟨d, hd, -⟩ := Tasks.replied_step hs hr
  rw [hd, Desk.after_loc]
  intro h
  simpa using (List.mem_filter.mp h).2

/-- A participant that remains does so until it is marked inactive. -/
theorem Remaining.step (hs : Tasks.Step (system auth row) s m o s')
    (hmem : ∀ id ∈ (s.node j).loc.members, id ∈ (s'.node j).loc.members ∨ s.replied m = some (j, ⟨.leaveSocket id, ()⟩))
    (hfound : ∀ id b, ⟨.leaveRow id, some b⟩ ∈ (s.node j).tasks → b = true) (h : Remaining (s.node j) id) :
    Remaining (s'.node j) id ∨ s.executed m = some (j, .leaveUpdate id) := by
  rcases h with h | ⟨t, ht, hid⟩ | hq
  · rcases hmem id h with h | hr
    · exact Or.inl (Or.inl h)
    · obtain ⟨d, hd, -⟩ := Tasks.replied_step hs hr
      exact Or.inl (Or.inr (Or.inl ⟨⟨.leaveFetch id, none⟩, by rw [hd]; exact Desk.mem_tasks_await rfl, rfl⟩))
  · rcases Tasks.tasks_keep hs ht with ht' | ⟨a, x, hx, rfl, -, ht'⟩ | ⟨d, a, r, hr, rfl, -, hd⟩
    · exact Or.inl (Or.inr (Or.inl ⟨t, ht', hid⟩))
    · cases a with
      | leaveUpdate id' =>
        cases hid
        exact Or.inr hx
      | leaveSocket | leaveFetch | releaseGet | releaseClear | releasePersist | leaveRow =>
        exact Or.inl (Or.inr (Or.inl ⟨_, ht', hid⟩))
      | _ => cases hid
    · left
      have hawait : ∀ b, ((system auth row).resume a r (s.node j).loc).next = .await b →
          remaining ⟨b, none⟩ = some id → Remaining (s'.node j) id := fun b hb hid =>
        Or.inr (Or.inl ⟨⟨b, none⟩, by rw [hd]; exact Desk.mem_tasks_await hb, hid⟩)
      cases a with
      | leaveSocket id' => exact hawait (.leaveFetch id') rfl hid
      | leaveFetch id' =>
        by_cases hnil : r = []
        · cases hid
          refine Or.inr (Or.inr ?_)
          rw [hd]
          exact Desk.mem_queue_queued (by simp [system, resume, hnil, gated])
        · exact hawait (.leaveRow id') (by simp [system, resume, hnil, await]) hid
      | releaseGet id' => exact hawait (.releaseClear id' r) rfl hid
      | releaseClear id' timeline =>
        cases timeline with
        | none => exact hawait (.leaveRow id') rfl hid
        | some tl => exact hawait (.releasePersist id' tl r) rfl hid
      | releasePersist id' tl now => exact hawait (.leaveRow id') rfl hid
      | leaveRow id' =>
        have hr' : r = true := hfound id' r ht
        exact hawait (.leaveUpdate id') (by simp [system, resume, hr', await]) hid
      | _ => cases hid
  · rcases Tasks.queue_keep hs hq with hq | ⟨d, -, -, hd⟩
    · exact Or.inl (Or.inr (Or.inr hq))
    · exact Or.inl (Or.inr (Or.inl ⟨⟨.releaseGet id, none⟩, by rw [hd]; exact Desk.mem_tasks_await rfl, rfl⟩))

/-- An answer to a leave leaves the other handlers of its instance as they are. -/
theorem KeptBut.step {sockets : List String} (hs : Tasks.Step (system auth row) s m o s')
    (hmem : ∀ id ∈ (s.node j).loc.members, id ∈ (s'.node j).loc.members ∨ s.replied m = some (j, ⟨.leaveSocket id, ()⟩))
    (hr : s.replied m = some (j, ⟨.leaveFetch id, sockets⟩)) (h : KeptBut id (s.node j)) : Kept (s'.node j) := by
  rcases h with h | ⟨t, ht, id', hid, hne⟩ | ⟨q, hq, hqe⟩
  · obtain ⟨id', h⟩ := List.exists_mem_of_ne_nil _ h
    rcases hmem id' h with h | hr'
    · exact Or.inl (List.ne_nil_of_mem h)
    · rw [hr] at hr'
      cases hr'
  · rcases Tasks.tasks_keep hs ht with ht | ⟨a, x, hx, -⟩ | ⟨d, a, r, hr', rfl, -⟩
    · exact Or.inr (Or.inl ⟨t, ht, id', hid⟩)
    · rw [executed_of_replied hr] at hx
      cases hx
    · rw [hr] at hr'
      cases hr'
      cases hid
      exact absurd rfl hne
  · rcases Tasks.queue_keep hs hq with hq | ⟨d, rfl, -⟩
    · exact Or.inr (Or.inr ⟨q, hq, hqe⟩)
    · cases hr

/-- The settings of an instance that somebody is there to delete are deleted, or somebody still is. -/
theorem Kept.step (hs : Tasks.Step (system auth row) s m o s')
    (hmem : ∀ id ∈ (s.node j).loc.members, id ∈ (s'.node j).loc.members ∨ s.replied m = some (j, ⟨.leaveSocket id, ()⟩))
    (hatt : ∀ id x rest, s.replied m = some (j, ⟨.leaveFetch id, x :: rest⟩) →
      (s.node j).loc.roomMeta = none ∨ KeptBut id (s.node j)) (h : Kept (s.node j)) :
    Kept (s'.node j) ∨ (s'.node j).loc.roomMeta = none := by
  have hawait : ∀ {d : Desk Local Gated Reply} {a b : Await} {r : Reply a},
      s'.node j = d.after ((system auth row).resume a r (s.node j).loc) →
      ((system auth row).resume a r (s.node j).loc).next = .await b → (∃ id, b.tidier = some id) → Kept (s'.node j) :=
    fun hd hb hid => Or.inr (Or.inl ⟨⟨_, none⟩, by rw [hd]; exact Desk.mem_tasks_await hb, hid⟩)
  rcases h with h | ⟨t, ht, id, hid⟩ | ⟨q, hq, hqe⟩
  · obtain ⟨id, h⟩ := List.exists_mem_of_ne_nil _ h
    rcases hmem id h with h | hr
    · exact Or.inl (Or.inl (List.ne_nil_of_mem h))
    · obtain ⟨d, hd, -⟩ := Tasks.replied_step hs hr
      exact Or.inl (hawait hd rfl ⟨id, rfl⟩)
  · rcases Tasks.tasks_keep hs ht with ht | ⟨a, x, -, rfl, -, ht⟩ | ⟨d, a, r, hr, rfl, -, hd⟩
    · exact Or.inl (Or.inr (Or.inl ⟨t, ht, id, hid⟩))
    · exact Or.inl (Or.inr (Or.inl ⟨_, ht, id, hid⟩))
    · cases a with
      | leaveSocket id' => exact Or.inl (hawait hd rfl ⟨id', rfl⟩)
      | leaveFetch id' =>
        cases r with
        | nil =>
          refine Or.inl (Or.inr (Or.inr ⟨.release id', ?_, rfl⟩))
          rw [hd]
          exact Desk.mem_queue_queued (by simp [system, resume, gated])
        | cons x rest =>
          rcases hatt id' x rest hr with hnone | hkept
          · right
            rw [hd, Desk.after_loc]
            simp [system, resume, await, TimelineService.succession, hnone]
          · exact Or.inl (hkept.step hs hmem hr)
      | releaseGet id' =>
        right
        rw [hd, Desk.after_loc]
        rfl
      | _ => cases hid
  · rcases Tasks.queue_keep hs hq with hq | ⟨d, -, -, hd⟩
    · exact Or.inl (Or.inr (Or.inr ⟨q, hq, hqe⟩))
    · cases q with
      | ensure id room => cases hqe
      | release id =>
        exact Or.inl (Or.inr (Or.inl ⟨⟨.releaseGet id, none⟩, by rw [hd]; exact Desk.mem_tasks_await rfl, id, rfl⟩))

/-- The settings of an instance are copied by a join that is let in. -/
theorem roomMeta_from (hs : Tasks.Step (system auth row) s m o s') (h : (s'.node j).loc.roomMeta.isSome) :
    (s.node j).loc.roomMeta.isSome ∨
      ∃ id room rest, m = .enter j ∧ (s.node j).queue = .ensure id room :: rest ∧ o ≠ none := by
  rcases Tasks.node_cases hs j with he | ⟨a, x, pre, post, -, -, -, he⟩ | ⟨d, u, hu, ho, -, he⟩
  · rw [he] at h
    exact Or.inl h
  · rw [he] at h
    exact Or.inl h
  · rw [he, Desk.after_loc] at h
    cases hu with
    | start r hm => exact Or.inl (start_isSome.symm.trans h)
    | resume pre post a r hm hc =>
      cases ha : a.releasing with
      | false => exact Or.inl ((resume_isSome ha).symm.trans h)
      | true =>
        left
        cases a with
        | releaseGet id => cases h
        | releaseClear id timeline => cases timeline <;> exact h
        | releasePersist id tl now => exact h
        | _ => cases ha
    | enter q rest hm hq hfree =>
      cases q with
      | ensure id room => exact Or.inr ⟨id, room, rest, hm, hq, by rw [ho]; exact Option.some_ne_none _⟩
      | release id => exact Or.inl h

/-- What is there to clear the store does so, finds a socket in the room, or is still there. -/
theorem Clearing.step (hs : Tasks.Step (system auth row) s m o s')
    (hput : ∀ id room, s.replied m = some (j, ⟨.joinSocket id room, ()⟩) → s.shared.sockets ≠ [])
    (h : Clearing (s.node j)) :
    Clearing (s'.node j) ∨ s'.shared.sockets ≠ [] ∨ s'.shared.redis.loadTl = none := by
  rcases h with ⟨t, ht, hc⟩ | ⟨q, hq, hqe⟩
  · rcases Tasks.tasks_keep hs ht with ht | ⟨a, x, -, rfl, hsh, ht⟩ | ⟨d, a, r, hr, rfl, -, hd⟩
    · exact Or.inl (Or.inl ⟨t, ht, hc⟩)
    · cases a with
      | leaveFetch id =>
        cases hsockets : s.shared.sockets with
        | nil =>
          refine Or.inl (Or.inl ⟨_, ht, ?_⟩)
          simp only [system, exec, hsockets]
          rfl
        | cons y rest =>
          right
          left
          rw [hsh]
          simp [system, exec, hsockets]
      | releaseClear id timeline =>
        right
        right
        rw [hsh]
        rfl
      | leaveSocket | releaseGet => exact Or.inl (Or.inl ⟨_, ht, rfl⟩)
      | _ => cases hc
    · have hawait : ∀ b, ((system auth row).resume a r (s.node j).loc).next = .await b →
          clearing ⟨b, none⟩ = true → Clearing (s'.node j) := fun b hb hcb =>
        Or.inl ⟨⟨b, none⟩, by rw [hd]; exact Desk.mem_tasks_await hb, hcb⟩
      cases a with
      | joinSocket id room =>
        obtain ⟨-, -, -, -, hsh⟩ := Tasks.replied_step hs hr
        rw [hsh]
        exact Or.inr (Or.inl (hput id room hr))
      | leaveSocket id => exact Or.inl (hawait (.leaveFetch id) rfl rfl)
      | leaveFetch id =>
        cases r with
        | nil =>
          refine Or.inl (Or.inr ⟨.release id, ?_, rfl⟩)
          rw [hd]
          exact Desk.mem_queue_queued (by simp [system, resume, gated])
        | cons x rest => cases hc
      | releaseGet id => exact Or.inl (hawait (.releaseClear id r) rfl rfl)
      | _ => cases hc
  · rcases Tasks.queue_keep hs hq with hq | ⟨d, -, -, hd⟩
    · exact Or.inl (Or.inr ⟨q, hq, hqe⟩)
    · cases q with
      | ensure id room => cases hqe
      | release id => exact Or.inl (Or.inl ⟨⟨.releaseGet id, none⟩, by rw [hd]; exact Desk.mem_tasks_await rfl, rfl⟩)

/-- A timeline is created by the `init` of a join. -/
theorem loadTl_from (hs : Tasks.Step (system auth row) s m o s') (h : s'.shared.redis.loadTl.isSome) :
    s.shared.redis.loadTl.isSome ∨ ∃ j id room, s.executed m = some (j, .joinInit id room) := by
  have hplane : ∀ op, (∀ videoId mediaTime trim, op ≠ .init videoId mediaTime trim) →
      (Plane.step s.shared.redis op).1.loadTl.isSome → s.shared.redis.loadTl.isSome := by
    intro op hop hsome
    obtain ⟨tl, htl⟩ := Option.isSome_iff_exists.mp hsome
    rcases (Plane.step_cases s.shared.redis op).loaded htl with ⟨old, hold, -⟩ | ⟨-, videoId, mediaTime, trim, he, -⟩
    · rw [hold]
      rfl
    · exact absurd he (hop videoId mediaTime trim)
  rcases Tasks.shared_cases _ hs with ⟨j, a, x, hx, he⟩ | ⟨env, -, he⟩ | ⟨-, he⟩
  · rw [he] at h
    change (exec auth a x s.shared).2.redis.loadTl.isSome at h
    rw [exec_redis] at h
    cases a with
    | joinInit id room => exact Or.inr ⟨j, id, room, hx⟩
    | releaseGet | releaseClear | control | sweepGet | sweepApply | sweepReread | flushGet =>
      exact Or.inl (hplane _ (fun _ _ _ he => by cases he) h)
    | _ => exact Or.inl h
  · rw [he] at h
    cases env with
    | tick d => exact Or.inl (hplane (.tick d) nofun h)
    | flush => cases h
  · rw [he] at h
    exact Or.inl h

/-- A participant is active that was before and whose user has not just been marked inactive, or whose row has just been
written. -/
theorem active_from (hs : Tasks.Step (system auth row) s m o s') {u : String} (h : u ∈ s'.shared.active) :
    (u ∈ s.shared.active ∧ ∀ j id, s.executed m = some (j, .leaveUpdate id) → (auth id).userId ≠ u) ∨
      ∃ j id tl, s.executed m = some (j, .joinUpsert id tl) ∧ (auth id).userId = u := by
  rcases Tasks.shared_cases _ hs with ⟨j, a, x, hx, he⟩ | ⟨env, rfl, he⟩ | ⟨hx, he⟩
  · rw [he] at h
    rw [hx]
    cases a with
    | joinUpsert id tl =>
      simp only [system, exec] at h
      split at h
      · exact Or.inl ⟨h, fun _ _ he => by cases he⟩
      · rcases List.mem_append.mp h with h | h
        · exact Or.inl ⟨h, fun _ _ he => by cases he⟩
        · exact Or.inr ⟨j, id, tl, rfl, (List.mem_singleton.mp h).symm⟩
    | leaveUpdate id =>
      left
      obtain ⟨h, hne⟩ := List.mem_filter.mp h
      refine ⟨h, fun j id' he => ?_⟩
      cases he
      exact fun hu => of_decide_eq_true hne hu.symm
    | _ => exact Or.inl ⟨h, fun _ _ he => by cases he⟩
  · rw [he] at h
    left
    exact ⟨by cases env <;> exact h, fun _ _ he => by cases he⟩
  · rw [he] at h
    left
    rw [hx]
    exact ⟨h, fun _ _ he => by cases he⟩

/-- The row of the room stays, and every read of a leave finds it. -/
theorem row_keep (hs : Tasks.Step (system auth row) s m o s') (h : s.shared.row.isSome) : s'.shared.row.isSome := by
  have hsettings := row_step hs
  obtain ⟨r, hr⟩ := Option.isSome_iff_exists.mp h
  rw [hr] at hsettings
  obtain ⟨r', hr', -⟩ := Option.map_eq_some_iff.mp hsettings
  rw [hr']
  rfl

end Stages

/-! ## The invariant -/

/-- A join of the socket that has entered it in the maps of the instance. -/
def Await.seating : Await → Option String
  | .joinInit id _ => some id
  | .joinUpsert id _ => some id
  | _ => none

def Seating (d : Desk Local Gated Reply) (id : String) : Prop :=
  (∃ t ∈ d.tasks, t.point.seating = some id) ∨ ∃ q ∈ d.queue, q.joiner = some id

/-- `client.join` of the socket has been executed at an instance, and its join not yet gone on. -/
def Landed (d : Desk Local Gated Reply) (id : String) : Prop := ∃ room, ⟨.joinSocket id room, some ()⟩ ∈ d.tasks

variable (auth) in
/-- What a run keeps: everything that is there has somebody who will take it away. -/
structure Vacating (home : String → I) (tr : List (Event I)) (s : State I) : Prop where
  seated : Seated home tr s
  tracked : Tracked tr s
  members : ∀ j, ∀ id ∈ (s.node j).loc.members,
    j = home id ∧ (Left tr id → ∃ r, ⟨.leaveSocket id, r⟩ ∈ (s.node j).tasks)
  seating : ∀ j id, Seating (s.node j) id → ¬Left tr id → id ∈ (s.node j).loc.members
  counted : ∀ id ∈ s.shared.sockets, ¬Left tr id →
    id ∈ (s.node (home id)).loc.members ∨ Landed (s.node (home id)) id
  dropped : ∀ j id, ⟨.dropped id, none⟩ ∈ (s.node j).tasks → id ∈ s.shared.sockets → ∃ i, Landed (s.node i) id
  kept : ∀ j, (s.node j).loc.roomMeta.isSome → Kept (s.node j)
  cleared : s.shared.redis.loadTl.isSome → s.shared.sockets ≠ [] ∨ ∃ j, Clearing (s.node j)
  row : s.shared.row.isSome
  found : ∀ j id b, ⟨.leaveRow id, some b⟩ ∈ (s.node j).tasks → b = true
  active : ∀ u ∈ s.shared.active, ∃ id, (auth id).userId = u ∧ ∃ j, Remaining (s.node j) id

section Step

variable {home : String → I} {tr : List (Event I)} {e : Event I} {id : String}

theorem Seating.arriving {d : Desk Local Gated Reply} (h : Seating d id) : Arriving d id := by
  rcases h with ⟨⟨a, r⟩, ht, hid⟩ | h
  · refine Or.inl ⟨_, ht, ?_⟩
    cases a with
    | joinInit | joinUpsert => exact hid
    | _ => cases hid
  · exact Or.inr h

theorem settling_of_executed {j : I} {a : Await} (h : e.pre.executed e.act = some (j, a))
    (ha : a.seating = some id) : settling? e = some id := by
  obtain ⟨pre, act, out, post⟩ := e
  cases act with
  | exec i n x =>
    simp only at h
    cases a with
    | joinInit | joinUpsert =>
      cases ha
      simp only [settling?, h]
    | _ => cases ha
  | _ => cases h

theorem settling_of_replied {j : I} {room : RoomRow}
    (h : e.pre.replied e.act = some (j, ⟨.joinSocket id room, ()⟩)) : settling? e = some id := by
  obtain ⟨pre, act, out, post⟩ := e
  cases act with
  | deliver i n =>
    simp only at h
    simp only [settling?, h, executed_of_replied h]
  | _ => cases h

theorem left_of_snoc (h : Left (tr ++ [e]) id) : Left tr id ∨ left? e = some id := by
  obtain ⟨e', he', hl⟩ := h
  rcases List.mem_append.mp he' with he' | he'
  · exact Or.inl ⟨e', he', hl⟩
  · rw [List.mem_singleton.mp he'] at hl
    exact Or.inr hl

theorem act_of_left (h : left? e = some id) : ∃ i, e.act = .start i (.disconnect id) := by
  unfold left? at h
  split at h
  · rename_i i id' hm
    cases h
    exact ⟨i, hm⟩
  · cases h

variable [DecidableEq I]

section

variable (hs : Tasks.Step (system auth row) e.pre e.act e.out e.post) (hw : Wired home tr e) (ht : Tidy tr e)
  (hI : Vacating auth home tr e.pre)

include hs hw ht hI

/-- A socket in the maps of an instance stays there until its leave. -/
theorem Vacating.members_keep {j : I} (h : id ∈ (e.pre.node j).loc.members) :
    id ∈ (e.post.node j).loc.members ∨ e.pre.replied e.act = some (j, ⟨.leaveSocket id, ()⟩) := by
  rcases SyncGateway.members_keep hs h with h' | hr | hm
  · exact Or.inl h'
  · exact Or.inr hr
  · exfalso
    have hr : request? e = some (j, .elsewhere id) := by rw [request?, hm]
    have hin := (hI.seated.inside j).loc id h
    rcases hin with hin | hin
    · exact (ht.stays (j, id) (by simp only [moved?, hr]; rfl)).1 hin
    · exact (hw _ hr id rfl).2 hin

theorem Vacating.members_step {j : I} (h : id ∈ (e.post.node j).loc.members) :
    j = home id ∧ (Left (tr ++ [e]) id → ∃ r, ⟨.leaveSocket id, r⟩ ∈ (e.post.node j).tasks) := by
  rcases members_cases hs h with hpre | ⟨room, hr⟩
  · obtain ⟨hj, htask⟩ := hI.members j id hpre
    refine ⟨hj, fun hl => ?_⟩
    rcases left_of_snoc hl with hl | hl
    · obtain ⟨r, hmem⟩ := htask hl
      rcases Tasks.tasks_keep hs hmem with hpost | ⟨a, x, -, hx, -, hpost⟩ | ⟨d, a, r', hr, hx, -, -⟩
      · exact ⟨r, hpost⟩
      · cases hx
        exact ⟨_, hpost⟩
      · cases hx
        exact absurd h (left_members hs hr)
    · obtain ⟨i, hm⟩ := act_of_left hl
      have hr : request? e = some (i, .disconnect id) := by rw [request?, hm]
      obtain rfl : i = j := (hw _ hr id rfl).1.trans hj.symm
      have hs' := hs
      rw [hm] at hs'
      obtain ⟨hnode, -⟩ := Tasks.started hs'
      refine ⟨none, ?_⟩
      rw [hnode]
      exact Desk.mem_tasks_await (by simp [system, start, hpre, await])
  · refine ⟨(hI.seated.arriving j id (Or.inl ⟨_, Office.replied_mem hr, rfl⟩)).1, fun hl => ?_⟩
    exfalso
    rcases left_of_snoc hl with hl | hl
    · exact ht.alive id (settling_of_replied hr) hl
    · obtain ⟨i, hm⟩ := act_of_left hl
      rw [hm] at hr
      cases hr

/-- A join that goes on has its socket in the maps. -/
theorem Vacating.seating_step {j : I} (h : Seating (e.post.node j) id) (hl : ¬Left (tr ++ [e]) id) :
    id ∈ (e.post.node j).loc.members := by
  have hl' : ¬Left tr id := fun h => hl (h.snoc e)
  have hkeep : Seating (e.pre.node j) id → id ∈ (e.post.node j).loc.members := by
    intro h
    rcases Vacating.members_keep hs hw ht hI (hI.seating j id h hl') with h' | hr
    · exact h'
    · exact absurd (hI.seated.closing j _ (Office.replied_mem hr) id rfl) hl'
  have hentered : ∀ {room}, e.pre.replied e.act = some (j, ⟨.joinSocket id room, ()⟩) →
      id ∈ (e.post.node j).loc.members := by
    intro room hr
    obtain ⟨d, hd, -⟩ := Tasks.replied_step hs hr
    rw [hd, Desk.after_loc]
    simp only [system, resume, gated]
    split
    · assumption
    · exact List.mem_append_right _ (List.mem_singleton_self _)
  rcases h with ⟨t, hmem, hid⟩ | ⟨q, hq, hid⟩
  · rcases Tasks.mem_tasks hs hmem with hpre | ⟨a, x, hx, hpre, rfl, -⟩ | ⟨d, u, a, hu, ha, rfl, -⟩
    · exact hkeep (Or.inl ⟨t, hpre, hid⟩)
    · exact hkeep (Or.inl ⟨_, hpre, hid⟩)
    · cases hu with
      | start r hm =>
        have hjoin : a.joiner = some id := by
          cases a with
          | joinInit | joinUpsert => exact hid
          | _ => cases hid
        have hr := start_joiner ha hjoin
        subst hr
        cases ha
        cases hid
      | resume pre post b r hm hc =>
        cases b with
        | joinInit id' room =>
          cases ha
          exact hkeep (Or.inl ⟨_, Office.replied_mem hm, hid⟩)
        | _ =>
          exfalso
          simp only [system, resume] at ha
          repeat' split at ha
          all_goals cases ha
          all_goals cases hid
      | enter q rest hm hq hfree =>
        rcases enter_next ha with ⟨id', room, rfl, rfl⟩ | ⟨id', rfl, rfl⟩
        · exact hkeep (Or.inr ⟨.ensure id' room, by rw [hq]; exact List.mem_cons_self, hid⟩)
        · cases hid
  · rcases Tasks.queue_cases hs j with he | ⟨d, u, hu, he⟩
    · rw [he] at hq
      exact hkeep (Or.inr ⟨q, hq, hid⟩)
    · rw [he] at hq
      rcases List.mem_append.mp hq with hq | hq
      · exact hkeep (Or.inr ⟨q, hu.queue_suffix.subset hq, hid⟩)
      · have hn : u.next = .queue q := by cases hn : u.next <;> simp_all [Next.queued?]
        cases hu with
        | start r hm => exact absurd hn (start_not_queued r q)
        | enter q' rest hm hq' hfree => exact absurd hn enter_not_queued
        | resume pre post a r hm hc =>
          rcases resume_queue hn with ⟨id', room, rfl, rfl⟩ | ⟨id', -, rfl⟩
          · cases hid
            exact hentered hm
          · cases hid

omit hw ht hI in
theorem Landed.step {j : I} (h : Landed (e.pre.node j) id) :
    Landed (e.post.node j) id ∨ ∃ room, e.pre.replied e.act = some (j, ⟨.joinSocket id room, ()⟩) := by
  obtain ⟨room, hmem⟩ := h
  rcases Tasks.tasks_keep hs hmem with hpost | ⟨a, x, -, hx, -⟩ | ⟨d, a, r, hr, hx, -⟩
  · exact Or.inl ⟨room, hpost⟩
  · cases hx
  · cases hx
    exact Or.inr ⟨room, hr⟩

/-- A socket of the room is in the maps of its instance, or about to be. -/
theorem Vacating.counted_step (h : id ∈ e.post.shared.sockets) (hl : ¬Left (tr ++ [e]) id) :
    id ∈ (e.post.node (home id)).loc.members ∨ Landed (e.post.node (home id)) id := by
  have hl' : ¬Left tr id := fun h => hl (h.snoc e)
  rcases sockets_from hs h with h | ⟨⟨j, room, hx⟩, hg⟩
  · rcases hI.counted id h hl' with h | h
    · rcases Vacating.members_keep hs hw ht hI h with h | hr
      · exact Or.inl h
      · exact absurd (hI.seated.closing _ _ (Office.replied_mem hr) id rfl) hl'
    · rcases h.step hs with h | ⟨room, hr⟩
      · exact Or.inr h
      · obtain ⟨d, hd, -⟩ := Tasks.replied_step hs hr
        left
        rw [hd, Desk.after_loc]
        simp only [system, resume, gated]
        split
        · assumption
        · exact List.mem_append_right _ (List.mem_singleton_self _)
  · obtain ⟨x, -, hmem⟩ := Tasks.executed_step hs hx
    rw [← (hI.seated.arriving j id (Or.inl ⟨_, Office.executed_mem hx, rfl⟩)).1]
    exact Or.inr ⟨room, hmem⟩

/-- A socket that disconnects before the gateway knows of it is in the room only while its join is under way. -/
theorem Vacating.dropped_step {j : I} (h : ⟨.dropped id, none⟩ ∈ (e.post.node j).tasks)
    (hin : id ∈ e.post.shared.sockets) : ∃ i, Landed (e.post.node i) id := by
  have hlanded : ∀ {i}, Landed (e.pre.node i) id → Left tr id ∨ e.pre.replied e.act = none →
      Landed (e.post.node i) id := by
    intro i h hl
    rcases h.step hs with h | ⟨room, hr⟩
    · exact h
    · rcases hl with hl | hn
      · exact absurd hl (ht.alive id (settling_of_replied hr))
      · rw [hn] at hr
        cases hr
  rcases sockets_from hs hin with hpre | ⟨⟨i, room, hx⟩, -⟩
  · rcases Tasks.mem_tasks hs h with hmem | ⟨a, x, -, -, hx, -⟩ | ⟨d, u, a, hu, ha, hx, -⟩
    · obtain ⟨i, hi⟩ := hI.dropped j id hmem hpre
      exact ⟨i, hlanded hi (Or.inl (hI.seated.closing j _ hmem id rfl))⟩
    · cases hx
    · cases hx
      cases hu with
      | start r hm =>
        obtain rfl := (start_next ha).2.2.2 id rfl
        have hr : request? e = some (j, .disconnect id) := by rw [request?, hm]
        obtain ⟨rfl, hl⟩ := hw _ hr id rfl
        refine ⟨home id, hlanded ?_ (Or.inr (by rw [hm]; rfl))⟩
        refine (hI.counted id hpre hl).resolve_left fun hmem => ?_
        simp only [system, start, hmem, if_true, await] at ha
        cases ha
      | resume pre post b r hm hc =>
        have hn := (resume_next ha).2.2.2.1
        cases hn
      | enter q rest hm hq hfree =>
        rcases enter_next ha with ⟨id', room, rfl, he⟩ | ⟨id', rfl, he⟩ <;> cases he
  · obtain ⟨x, -, hmem⟩ := Tasks.executed_step hs hx
    exact ⟨i, room, hmem⟩

/-- The settings of an instance have somebody who will delete them. -/
theorem Vacating.kept_step (ha : Attended e) {j : I} (h : (e.post.node j).loc.roomMeta.isSome) :
    Kept (e.post.node j) := by
  have hmem := fun id (h : id ∈ (e.pre.node j).loc.members) => Vacating.members_keep hs hw ht hI h
  rcases roomMeta_from hs h with hpre | ⟨id, room, rest, hm, hq, ho⟩
  · refine ((hI.kept j hpre).step hs hmem fun id x rest hr => ?_).resolve_right fun hn => ?_
    · exact ha (j, id) (by simp only [outlived?, hr]; rfl)
    · rw [hn] at h
      cases h
  · have hset : settling? e = some id := by
      obtain ⟨p, hp⟩ := Option.ne_none_iff_exists'.mp ho
      simp only [settling?, hm, hq, hp]
    have hin : id ∈ (e.pre.node j).loc.members :=
      hI.seating j id (Or.inr ⟨.ensure id room, by rw [hq]; exact List.mem_cons_self, rfl⟩) (ht.alive id hset)
    rcases hmem id hin with hin | hr
    · exact Or.inl (List.ne_nil_of_mem hin)
    · rw [hm] at hr
      cases hr

omit hw in
/-- The timeline has somebody who will clear it. -/
theorem Vacating.cleared_step (h : e.post.shared.redis.loadTl.isSome) :
    e.post.shared.sockets ≠ [] ∨ ∃ j, Clearing (e.post.node j) := by
  rcases loadTl_from hs h with hpre | ⟨j, id, room, hx⟩
  · rcases hI.cleared hpre with hne | ⟨j, hc⟩
    · obtain ⟨id, hin⟩ := List.exists_mem_of_ne_nil _ hne
      rcases sockets_step hs hin with hin | ⟨j, a, hx, ha⟩
      · exact Or.inl (List.ne_nil_of_mem hin)
      · right
        cases a with
        | leaveSocket id' =>
          obtain ⟨x, -, hmem⟩ := Tasks.executed_step hs hx
          exact ⟨j, Or.inl ⟨_, hmem, rfl⟩⟩
        | dropped id' =>
          cases ha
          obtain ⟨i, hi⟩ := hI.dropped j id (Office.executed_mem hx) hin
          rcases hi.step hs with ⟨room, hmem⟩ | ⟨room, hr⟩
          · exact ⟨i, Or.inl ⟨_, hmem, rfl⟩⟩
          · rw [executed_of_replied hr] at hx
            cases hx
        | _ => cases ha
    · have hput : ∀ id room, e.pre.replied e.act = some (j, ⟨.joinSocket id room, ()⟩) → e.pre.shared.sockets ≠ [] := by
        intro id room hr
        have hin := (hI.seated.inside j).tasks _ (Office.replied_mem hr) id rfl
        exact List.ne_nil_of_mem (hin.resolve_right (ht.alive id (settling_of_replied hr)))
      rcases hc.step hs hput with hc | hne | hn
      · exact Or.inr ⟨j, hc⟩
      · exact Or.inl hne
      · rw [hn] at h
        cases h
  · have hl := ht.alive id (settling_of_executed hx rfl)
    have hin := ((hI.seated.inside j).tasks _ (Office.executed_mem hx) id rfl).resolve_right hl
    rcases sockets_step hs hin with hin | ⟨i, a, hx', ha⟩
    · exact Or.inl (List.ne_nil_of_mem hin)
    · rw [hx] at hx'
      cases hx'
      cases ha

omit hw ht in
/-- A leave finds the row of the room. -/
theorem Vacating.found_step {j : I} {b : Bool} (h : ⟨.leaveRow id, some b⟩ ∈ (e.post.node j).tasks) : b = true := by
  rcases Tasks.mem_tasks hs h with hmem | ⟨a, x, -, -, hx, -⟩ | ⟨d, u, a, -, -, hx, -⟩
  · exact hI.found j id b hmem
  · cases hx
    exact hI.row
  · cases hx

/-- An active participant has somebody who will mark it inactive. -/
theorem Vacating.active_step {u : String} (h : u ∈ e.post.shared.active) :
    ∃ id, (auth id).userId = u ∧ ∃ j, Remaining (e.post.node j) id := by
  rcases active_from hs h with ⟨hpre, hne⟩ | ⟨j, id, tl, hx, hu⟩
  · obtain ⟨id, hu, j, hr⟩ := hI.active u hpre
    refine ⟨id, hu, j, (hr.step hs ?_ fun id b h => hI.found j id b h).resolve_right fun hx => hne j id hx hu⟩
    exact fun id h => Vacating.members_keep hs hw ht hI h
  · have hl := ht.alive id (settling_of_executed hx rfl)
    have hin := hI.seating j id (Or.inl ⟨_, Office.executed_mem hx, rfl⟩) hl
    refine ⟨id, hu, j, Or.inl ((Vacating.members_keep hs hw ht hI hin).resolve_right fun hr => ?_)⟩
    rw [executed_of_replied hr] at hx
    cases hx

/-- **One step leaves nothing without somebody who will take it away.** -/
theorem Vacating.step (ha : Attended e) : Vacating auth home (tr ++ [e]) e.post where
  seated := hI.seated.step hs hw ht
  tracked := hI.tracked.step hs
  members _ _ h := Vacating.members_step hs hw ht hI h
  seating _ _ h hl := Vacating.seating_step hs hw ht hI h hl
  counted _ h hl := Vacating.counted_step hs hw ht hI h hl
  dropped _ _ h hin := Vacating.dropped_step hs hw ht hI h hin
  kept _ h := Vacating.kept_step hs hw ht hI ha h
  cleared h := Vacating.cleared_step hs ht hI h
  row := row_keep hs hI.row
  found _ _ _ h := Vacating.found_step hs hI h
  active _ h := Vacating.active_step hs hw ht hI h

end

theorem vacating_init : Vacating auth home [] (backend (I := I) auth row).init where
  seated := seated_init
  tracked := tracked_init
  members _ _ h := absurd h List.not_mem_nil
  seating _ _ h _ := by
    rcases h with ⟨_, h, _⟩ | ⟨_, h, _⟩ <;> exact absurd h List.not_mem_nil
  counted _ h := absurd h List.not_mem_nil
  dropped _ _ h := absurd h List.not_mem_nil
  kept _ h := by cases h
  cleared h := by cases h
  row := rfl
  found _ _ _ h := absurd h List.not_mem_nil
  active _ h := absurd h List.not_mem_nil

omit [DecidableEq I] in
/-- Where no handler is under way and nobody wants to be in the room, nothing of it is left. -/
theorem Vacating.vacated {s : State I} (hI : Vacating auth home tr s) (hq : Quiet s) (hn : ∀ id, ¬Here tr id) :
    (∀ j, (s.node j).loc.roomMeta = none) ∧ s.shared.redis.loadTl = none ∧ s.shared.active = [] := by
  have htasks : ∀ j t, t ∉ (s.node j).tasks := fun j t h => by
    rw [(hq j).1] at h
    cases h
  have hqueue : ∀ j q, q ∉ (s.node j).queue := fun j q h => by
    rw [(hq j).2] at h
    cases h
  have hleft : ∀ id ∈ s.shared.sockets, Left tr id := fun id h => by
    by_contra hl
    exact hn id (hI.seated.here id h hl)
  have hsockets : s.shared.sockets = [] := by
    refine List.eq_nil_iff_forall_not_mem.mpr fun id h => ?_
    rcases hI.tracked.left id (hleft id h) with ⟨j, t, ht, -⟩ | hg
    · exact htasks j t ht
    · exact hI.tracked.gone id hg h
  have hmembers : ∀ j, (s.node j).loc.members = [] := by
    refine fun j => List.eq_nil_iff_forall_not_mem.mpr fun id h => ?_
    have hl : Left tr id := by
      rcases (hI.seated.inside j).loc id h with hin | hl
      · exact hleft id hin
      · exact hl
    obtain ⟨r, hmem⟩ := (hI.members j id h).2 hl
    exact htasks j _ hmem
  refine ⟨fun j => ?_, ?_, ?_⟩
  · by_contra hne
    rcases hI.kept j (Option.isSome_iff_ne_none.mpr hne) with h | ⟨t, ht, -⟩ | ⟨q, hq', -⟩
    · exact h (hmembers j)
    · exact htasks j t ht
    · exact hqueue j q hq'
  · by_contra hne
    rcases hI.cleared (Option.isSome_iff_ne_none.mpr hne) with h | ⟨j, ⟨t, ht, -⟩ | ⟨q, hq', -⟩⟩
    · exact h hsockets
    · exact htasks j t ht
    · exact hqueue j q hq'
  · refine List.eq_nil_iff_forall_not_mem.mpr fun u hu => ?_
    obtain ⟨id, -, j, h | ⟨t, ht, -⟩ | h⟩ := hI.active u hu
    · rw [hmembers j] at h
      cases h
    · exact htasks j t ht
    · exact hqueue j _ h

/-- A run whose events meet the conditions. -/
theorem vacating_run (ops : List (Move I Request Choice Env))
    (hw : Machine.Always (Wired home) ((backend auth row).trace ops))
    (h : Machine.Always (fun tr e => Tidy tr e ∧ Attended e) ((backend auth row).trace ops)) :
    Vacating auth home ((backend auth row).trace ops) ((backend auth row).run ops) ∧
      Machine.Always Isolated ((backend auth row).trace ops) := by
  refine (backend auth row).invariant_under
    (C := fun tr => Machine.Always (Wired home) tr ∧ Machine.Always (fun tr e => Tidy tr e ∧ Attended e) tr)
    (I := fun tr s => Vacating auth home tr s ∧ Machine.Always Isolated tr)
    (fun tr e hc => ⟨(Machine.always_snoc.mp hc.1).1, (Machine.always_snoc.mp hc.2).1⟩)
    ⟨vacating_init, fun n hn => absurd hn (Nat.not_lt_zero n)⟩ (fun tr s a hc hI => ?_) ops ⟨hw, h⟩
  have hs : Tasks.Step (system auth row) _ _ _ _ := Tasks.event_cases s a
  obtain ⟨ht, ha⟩ := (Machine.always_snoc.mp hc.2).2
  exact ⟨Vacating.step hs (Machine.always_snoc.mp hc.1).2 ht hI.1 ha,
    Machine.always_snoc.mpr ⟨hI.2, hI.1.seated.isolated hs⟩⟩

/-- **The room of a socket is its own.** In every run in which no socket of the room goes elsewhere or asks to leave
without disconnecting, no join goes on after the disconnect of its socket, and no leave finds only sockets of other
instances, what is emitted reaches the sockets that joined the room last; and when every handler has ended and nobody
wants to be in the room, no instance has its settings, the store has no timeline, and no participant is active. -/
theorem room_isolated (home : String → I) (ops : List (Move I Request Choice Env))
    (hw : Machine.Always (Wired home) ((backend auth row).trace ops))
    (h : Machine.Always (fun tr e => Tidy tr e ∧ Attended e) ((backend auth row).trace ops)) :
    let s := (backend auth row).run ops
    Machine.Always Isolated ((backend auth row).trace ops) ∧
      (Quiet s → (∀ id, ¬Here ((backend auth row).trace ops) id) →
        (∀ j, (s.node j).loc.roomMeta = none) ∧ s.shared.redis.loadTl = none ∧ s.shared.active = []) := by
  intro s
  obtain ⟨hI, hiso⟩ := vacating_run ops hw h
  exact ⟨hiso, fun hq hn => hI.vacated hq hn⟩

end Step

/-- Two sockets join and leave again. -/
theorem room_isolated_left :
    let ops : List (Move Unit Request Choice Env) := joining () 0 "a" ++ joining () 0 "b" ++ departing () 0 "a" ++
      .start () (.disconnect "b") :: answer () 0 ++ answer () 0 ++ .enter () :: answer () 0 ++ answer () 0 ++
        answer () 0 ++ answer () 0 ++ answer () 0 ++ answer () 0
    let s := (backend namesake quietRow).run ops
    Machine.Always Isolated ((backend namesake quietRow).trace ops) ∧
      (Quiet s → (∀ id, ¬Here ((backend namesake quietRow).trace ops) id) →
        (∀ j, (s.node j).loc.roomMeta = none) ∧ s.shared.redis.loadTl = none ∧ s.shared.active = []) :=
  room_isolated (fun _ => ()) _ (by decide +kernel) (by decide +kernel)

/-- A socket joins another room, and is sent what the room that it has left commits. -/
theorem moved_on :
    ¬∀ (auth : String → AuthedSocketData) (row : RoomRow) (home : String → Unit)
        (ops : List (Move Unit Request Choice Env)),
        Machine.Always (Wired home) ((backend auth row).trace ops) →
        let s := (backend auth row).run ops
        Machine.Always Isolated ((backend auth row).trace ops) ∧
          (Quiet s → (∀ id, ¬Here ((backend auth row).trace ops) id) →
            (∀ j, (s.node j).loc.roomMeta = none) ∧ s.shared.redis.loadTl = none ∧ s.shared.active = []) := by
  intro h
  let ops : List (Move Unit Request Choice Env) := joining () 0 "a" ++ [.start () (.elsewhere "a")] ++
    joining () 0 "creator" ++ [.start () (.control "creator" 0 ⟨.play, 0, "creator", none, none, none, none⟩),
      .exec () 0 ⟨0, 0⟩]
  have hall := (h namesake quietRow (fun _ => ()) (ops ++ [.deliver () 0]) (by decide +kernel)).1
  rw [Machine.trace_snoc, Machine.always_snoc] at hall
  have hsent : ((backend namesake quietRow).event ((backend namesake quietRow).run ops) (.deliver () 0)).out =
      some ((), [.room ⟨⟨0, none, true, 0, 0, .play, some "creator"⟩, 1⟩]) := by decide +kernel
  exact absurd (hall.2 "a" _ ⟨_, hsent, Or.inr ⟨Or.inl List.mem_cons_self, by decide +kernel⟩⟩ (by decide +kernel))
    (by decide +kernel)

end SyncGateway
end WatchParty
