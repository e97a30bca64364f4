import WatchParty.Gateway.Settings

/-!
# The stages of a join and of a leave

Which points of the handlers belong to a socket's join, to its close and to a release, and how each comes about.

- `Await.closing`, `begun`, `hydrated`, `Await.releasing`: the stages;
- `begun_step`, `hydrated_step`, `closing_step`, `sockets_step`: what one step can add to them.
-/

namespace WatchParty
namespace SyncGateway

variable {I : Type}

/-- The socket that socket.io takes out of the room at a point. -/
def Await.closing : Await → Option String
  | .dropped id => some id
  | .leaveSocket id => some id
  | _ => none

/-- A point of `releaseRoomInner`. -/
def Await.releasing : Await → Bool
  | .releaseGet _ => true
  | .releaseClear _ _ => true
  | .releasePersist _ _ _ => true
  | _ => false

/-- The socket whose join has put it in the room, at a task. -/
def begun : Pending Reply → Option String
  | ⟨.joinSocket id _, some _⟩ => some id
  | ⟨.joinInit id _, _⟩ => some id
  | ⟨.joinUpsert id _, _⟩ => some id
  | ⟨.joinList id _, _⟩ => some id
  | _ => none

/-- The socket whose join has created the timeline, or found it, at a task. -/
def hydrated : Pending Reply → Option String
  | ⟨.joinInit id _, some _⟩ => some id
  | ⟨.joinUpsert id _, _⟩ => some id
  | ⟨.joinList id _, _⟩ => some id
  | _ => none

def Gated.isEnsure : Gated → Bool
  | .ensure _ _ => true
  | .release _ => false

/-- The socket whose disconnect an event brings. -/
def left? (e : Event I) : Option String :=
  match e.act with
  | .start _ (.disconnect id) => some id
  | _ => none

/-- The socket whose join an event completes. -/
def joined? (e : Event I) : Option String :=
  match e.out with
  | some (_, .joined id _ _ :: _) => some id
  | _ => none

/-- The socket has disconnected. -/
def Left (tr : List (Event I)) (id : String) : Prop := ∃ e ∈ tr, left? e = some id

/-- The socket has completed a join. -/
def Joined (tr : List (Event I)) (id : String) : Prop := ∃ e ∈ tr, joined? e = some id

instance (tr : List (Event I)) (id : String) : Decidable (Left tr id) :=
  inferInstanceAs (Decidable (∃ e ∈ tr, left? e = some id))

instance (tr : List (Event I)) (id : String) : Decidable (Joined tr id) :=
  inferInstanceAs (Decidable (∃ e ∈ tr, joined? e = some id))

theorem Left.snoc {tr : List (Event I)} {id : String} (h : Left tr id) (e : Event I) : Left (tr ++ [e]) id := by
  obtain ⟨e', he', h⟩ := h
  exact ⟨e', List.mem_append_left _ he', h⟩

theorem joined_snoc {tr : List (Event I)} {e : Event I} {id : String} :
    Joined (tr ++ [e]) id ↔ Joined tr id ∨ joined? e = some id := by
  simp [Joined, or_and_right, exists_or]

/-! ## What the stretches leave -/

section Stretches

variable {auth : String → AuthedSocketData} {l : Local}

/-- A request begins no join, hydrates nothing and releases nothing; only a disconnect closes a socket. -/
theorem start_next {r : Request} {a : Await} (h : (start auth r l).next = .await a) :
    begun ⟨a, none⟩ = none ∧ hydrated ⟨a, none⟩ = none ∧ a.releasing = false ∧
      ∀ id, a.closing = some id → r = .disconnect id := by
  cases r
  all_goals
    simp only [start] at h
    repeat' split at h
    all_goals cases h
    all_goals exact ⟨rfl, rfl, rfl, fun id h => by cases h <;> rfl⟩

/-- A handler stays in its stages. -/
theorem resume_next {a b : Await} {r : Reply a} (h : (resume auth a r l).next = .await b) :
    (∀ id, begun ⟨b, none⟩ = some id → begun ⟨a, some r⟩ = some id) ∧
    (∀ id, hydrated ⟨b, none⟩ = some id → hydrated ⟨a, some r⟩ = some id) ∧
    (b.releasing = true → a.releasing = true) ∧ b.closing = none ∧ ∀ id room, b ≠ .joinInit id room := by
  cases a
  all_goals
    simp only [resume] at h
    repeat' split at h
    all_goals cases h
    all_goals
      refine ⟨fun id h => ?_, fun id h => ?_, fun h => ?_, rfl, fun id room h => ?_⟩
      all_goals cases h <;> rfl

/-- The gate is asked for by a join that has put its socket in the room, and by a leave that found the room empty. -/
theorem resume_queue {a : Await} {r : Reply a} {q : Gated} (h : (resume auth a r l).next = .queue q) :
    (∃ id room, a = .joinSocket id room ∧ q = .ensure id room) ∨
      ∃ id, (⟨a, r⟩ : (a : Await) × Reply a) = ⟨.leaveFetch id, []⟩ ∧ q = .release id := by
  cases a with
  | joinSocket id room =>
    cases h
    exact Or.inl ⟨id, room, rfl, rfl⟩
  | leaveFetch id =>
    simp only [resume] at h
    split at h
    · rename_i hr
      cases h
      subst hr
      exact Or.inr ⟨id, rfl, rfl⟩
    · cases h
  | _ =>
    simp only [resume] at h
    repeat' split at h
    all_goals cases h

/-- Only the end of a join answers the joiner. -/
theorem resume_joined {a : Await} {r : Reply a} {id : String} {tl : Timeline} {ids : List String} {rest : List Emit}
    (h : (resume auth a r l).sent = .joined id tl ids :: rest) : a = .joinList id tl := by
  cases a with
  | joinList id' tl' =>
    cases h
    rfl
  | joinInit id' room =>
    simp only [resume, await, announce] at h
    split at h <;> cases h
  | leaveFetch id' =>
    simp only [resume] at h
    split at h
    · cases h
    · simp only [await, announce] at h
      split at h <;> cases h
  | _ =>
    simp only [resume] at h
    repeat' split at h
    all_goals cases h

theorem enter_next {q : Gated} {b : Await} (h : (enter q l).next = .await b) :
    (∃ id room, q = .ensure id room ∧ b = .joinInit id room) ∨ ∃ id, q = .release id ∧ b = .releaseGet id := by
  cases q with
  | ensure id room =>
    cases h
    exact Or.inl ⟨id, room, rfl, rfl⟩
  | release id =>
    cases h
    exact Or.inr ⟨id, rfl, rfl⟩

theorem enter_not_queued {q q' : Gated} : (enter q l).next ≠ .queue q' := by
  cases q <;> nofun

theorem enter_joined {q : Gated} {id : String} {tl : Timeline} {ids : List String} {rest : List Emit} :
    (enter q l).sent ≠ .joined id tl ids :: rest := by
  cases q <;> nofun

theorem start_joined {r : Request} {id : String} {tl : Timeline} {ids : List String} {rest : List Emit} :
    (start auth r l).sent ≠ .joined id tl ids :: rest := by
  intro h
  cases r
  all_goals
    simp only [start] at h
    repeat' split at h
    all_goals cases h

/-- The settings stay until they are released. -/
theorem resume_isSome {a : Await} {r : Reply a} (ha : a.releasing = false) :
    (resume auth a r l).loc.roomMeta.isSome = l.roomMeta.isSome := by
  have h : (resume auth a r l).loc.settings = l.settings :=
    resume_settings a r fun id hid => by rw [hid] at ha; cases ha
  simpa [Local.settings] using congrArg Option.isSome h

theorem start_isSome {r : Request} : (start auth r l).loc.roomMeta.isSome = l.roomMeta.isSome := by
  have h : (start auth r l).loc.settings = l.settings := start_settings r
  simpa [Local.settings] using congrArg Option.isSome h

/-- A join that is let in leaves the settings there. -/
theorem ensure_isSome (id : String) (room : RoomRow) : (enter (.ensure id room) l).loc.roomMeta.isSome := by
  have h : (TimelineService.ensureMeta room l).settings.isSome := by
    rw [TimelineService.ensureMeta_settings]
    rfl
  simpa [Local.settings, enter, await] using h

theorem enter_isSome {q : Gated} (h : l.roomMeta.isSome) : (enter q l).loc.roomMeta.isSome := by
  cases q with
  | ensure id room => exact ensure_isSome id room
  | release id => exact h

end Stretches

/-! ## What one step adds -/

section Steps

variable {auth : String → AuthedSocketData} {row : RoomRow} [DecidableEq I]

theorem system_gated : (system auth row).Gated where
  start r l a h := by
    cases r
    all_goals
      simp only [system, start] at h
      repeat' split at h
      all_goals cases h
      all_goals rfl
  resume a r l b h hb := by
    cases a
    all_goals
      simp only [system, resume] at h
      repeat' split at h
      all_goals cases h
      all_goals first | rfl | exact absurd hb Bool.false_ne_true

/-- A join has put the socket in the room. -/
def Begun (tr : List (Event I)) (s : State I) (id : String) : Prop :=
  (∃ j, ∃ t ∈ (s.node j).tasks, begun t = some id) ∨ (∃ j room, .ensure id room ∈ (s.node j).queue) ∨ Joined tr id

/-- A join of the socket has had the timeline. -/
def Hydrated (tr : List (Event I)) (s : State I) (id : String) : Prop :=
  (∃ j, ∃ t ∈ (s.node j).tasks, hydrated t = some id) ∨ Joined tr id

variable {tr : List (Event I)} {e : Event I} {id : String}

/-- The end of a join is the end of its last task. -/
theorem joined_step (hs : Tasks.Step (system auth row) e.pre e.act e.out e.post) (h : joined? e = some id) :
    ∃ j tl r, ⟨.joinList id tl, some r⟩ ∈ (e.pre.node j).tasks := by
  unfold joined? at h
  split at h
  · rename_i i id' tl ids rest hout
    cases h
    obtain ⟨d, u, hb, hsent, -⟩ := Tasks.sent_cases hs hout
    cases hb with
    | start r hm => exact absurd hsent.symm start_joined
    | resume pre post a r hm hc =>
      have ha := resume_joined hsent.symm
      subst ha
      exact ⟨i, tl, r, Office.replied_mem hm⟩
    | enter q rest hm hq hfree => exact absurd hsent.symm enter_joined
  · cases h

/-- A socket is put in the room by `client.join` only. -/
theorem begun_step (hs : Tasks.Step (system auth row) e.pre e.act e.out e.post) (h : Begun (tr ++ [e]) e.post id) :
    Begun tr e.pre id ∨ ∃ j room, e.pre.executed e.act = some (j, .joinSocket id room) := by
  rcases h with ⟨j, t, ht, hb⟩ | ⟨j, room, hq⟩ | h
  · rcases Tasks.mem_tasks hs ht with ht | ⟨a, x, hx, hmem, rfl, -⟩ | ⟨d, u, a, hu, ha, rfl, -⟩
    · exact Or.inl (Or.inl ⟨j, t, ht, hb⟩)
    · cases a with
      | joinSocket id' room =>
        cases hb
        exact Or.inr ⟨j, room, hx⟩
      | _ => exact Or.inl (Or.inl ⟨j, _, hmem, hb⟩)
    · left
      cases hu with
      | start r hm =>
        rw [(start_next ha).1] at hb
        cases hb
      | resume pre post b r hm hc => exact Or.inl ⟨j, _, Office.replied_mem hm, (resume_next ha).1 id hb⟩
      | enter q rest hm hq hfree =>
        rcases enter_next ha with ⟨id', room, rfl, rfl⟩ | ⟨id', rfl, rfl⟩
        · cases hb
          exact Or.inr (Or.inl ⟨j, room, by rw [hq]; exact List.mem_cons_self⟩)
        · cases hb
  · left
    rcases Tasks.queue_cases hs j with he | ⟨d, u, hu, he⟩
    · rw [he] at hq
      exact Or.inr (Or.inl ⟨j, room, hq⟩)
    · rw [he] at hq
      rcases List.mem_append.mp hq with hq | hq
      · exact Or.inr (Or.inl ⟨j, room, hu.queue_suffix.subset hq⟩)
      · have hn : u.next = .queue (.ensure id room) := by
          cases hn : u.next <;> simp_all [Next.queued?]
        cases hu with
        | start r hm => exact absurd hn (start_not_queued r _)
        | resume pre post a r hm hc =>
          rcases resume_queue hn with ⟨id', room', rfl, hen⟩ | ⟨id', -, hen⟩
          · cases hen
            exact Or.inl ⟨j, _, Office.replied_mem hm, rfl⟩
          · cases hen
        | enter q rest hm hq hfree => exact absurd hn enter_not_queued
  · left
    rcases joined_snoc.mp h with h | h
    · exact Or.inr (Or.inr h)
    · obtain ⟨j, tl, r, ht⟩ := joined_step hs h
      exact Or.inl ⟨j, _, ht, rfl⟩

/-- A join has the timeline when `init` has been executed for it. -/
theorem hydrated_step (hs : Tasks.Step (system auth row) e.pre e.act e.out e.post)
    (h : Hydrated (tr ++ [e]) e.post id) :
    Hydrated tr e.pre id ∨ ∃ j room, e.pre.executed e.act = some (j, .joinInit id room) := by
  rcases h with ⟨j, t, ht, hb⟩ | h
  · rcases Tasks.mem_tasks hs ht with ht | ⟨a, x, hx, hmem, rfl, -⟩ | ⟨d, u, a, hu, ha, rfl, -⟩
    · exact Or.inl (Or.inl ⟨j, t, ht, hb⟩)
    · cases a with
      | joinInit id' room =>
        cases hb
        exact Or.inr ⟨j, room, hx⟩
      | _ => exact Or.inl (Or.inl ⟨j, _, hmem, hb⟩)
    · left
      cases hu with
      | start r hm =>
        rw [(start_next ha).2.1] at hb
        cases hb
      | resume pre post b r hm hc => exact Or.inl ⟨j, _, Office.replied_mem hm, (resume_next ha).2.1 id hb⟩
      | enter q rest hm hq hfree =>
        rcases enter_next ha with ⟨id', room, rfl, rfl⟩ | ⟨id', rfl, rfl⟩ <;> cases hb
  · left
    rcases joined_snoc.mp h with h | h
    · exact Or.inr h
    · obtain ⟨j, tl, r, ht⟩ := joined_step hs h
      exact Or.inl ⟨j, _, ht, rfl⟩

/-- What a step adds to the queue of the gate. -/
theorem queue_step {s s' : State I} {m : Move I Request Choice Env} {o : Shown I Emit}
    (hs : Tasks.Step (system auth row) s m o s') (j : I) :
    (s'.node j).queue <:+ (s.node j).queue ∨
    (∃ id room, ⟨.joinSocket id room, some ()⟩ ∈ (s.node j).tasks ∧
      (s'.node j).queue = (s.node j).queue ++ [.ensure id room]) ∨
    ∃ id, s.replied m = some (j, ⟨.leaveFetch id, []⟩) ∧ (s'.node j).queue = (s.node j).queue ++ [.release id] := by
  rcases Tasks.queue_cases hs j with h | ⟨d, u, hu, h⟩
  · exact Or.inl (by rw [h])
  · cases hn : u.next with
    | queue q =>
      simp only [hn, Next.queued?, Option.toList_some] at h
      cases hu with
      | start r hm => exact absurd hn (start_not_queued r q)
      | resume pre post a r hm hc =>
        rcases resume_queue hn with ⟨id, room, rfl, rfl⟩ | ⟨id, har, rfl⟩
        · exact Or.inr (Or.inl ⟨id, room, Office.replied_mem hm, h⟩)
        · rw [har] at hm
          exact Or.inr (Or.inr ⟨id, hm, h⟩)
      | enter q' rest hm hq hfree => exact absurd hn enter_not_queued
    | done =>
      simp only [hn, Next.queued?, Option.toList_none, List.append_nil] at h
      exact Or.inl (h ▸ hu.queue_suffix)
    | await a =>
      simp only [hn, Next.queued?, Option.toList_none, List.append_nil] at h
      exact Or.inl (h ▸ hu.queue_suffix)

/-- Only a disconnect begins to close a socket. -/
theorem closing_step (hs : Tasks.Step (system auth row) e.pre e.act e.out e.post) {j : I} {t : Pending Reply}
    (ht : t ∈ (e.post.node j).tasks) (hid : t.point.closing = some id) :
    (∃ t' ∈ (e.pre.node j).tasks, t'.point.closing = some id) ∨ left? e = some id := by
  rcases Tasks.mem_tasks hs ht with ht | ⟨a, x, hx, hmem, rfl, -⟩ | ⟨d, u, a, hu, ha, rfl, -⟩
  · exact Or.inl ⟨t, ht, hid⟩
  · exact Or.inl ⟨_, hmem, hid⟩
  · cases hu with
    | start r hm =>
      right
      rw [(start_next ha).2.2.2 id hid] at hm
      rw [left?, hm]
    | resume pre post b r hm hc =>
      rw [(resume_next ha).2.2.2.1] at hid
      cases hid
    | enter q rest hm hq hfree =>
      rcases enter_next ha with ⟨id', room, rfl, rfl⟩ | ⟨id', rfl, rfl⟩ <;> cases hid

/-- The sockets that a call takes out of the room are closed. -/
theorem exec_sockets {a : Await} (x : Choice) {w : World} (h : id ∈ w.sockets) (ha : a.closing ≠ some id) :
    id ∈ (exec auth a x w).2.sockets := by
  cases a with
  | joinSocket id' room =>
    simp only [exec]
    split
    · exact h
    · exact List.mem_append_left _ h
  | dropped id' =>
    refine List.mem_filter.mpr ⟨h, decide_eq_true fun he => ha ?_⟩
    rw [he]
    rfl
  | leaveSocket id' =>
    refine List.mem_filter.mpr ⟨h, decide_eq_true fun he => ha ?_⟩
    rw [he]
    rfl
  | _ => exact h

/-- `client.join` puts a socket in the room unless it is closed. -/
theorem joinSocket_mem {room : RoomRow} (x : Choice) {w : World} (h : id ∉ w.gone) :
    id ∈ (exec auth (.joinSocket id room) x w).2.sockets := by
  simp only [exec]
  split
  · rename_i hor
    exact hor.resolve_left h
  · exact List.mem_append_right _ (List.mem_singleton_self id)

theorem exec_gone {a : Await} {x : Choice} {w : World} (h : id ∈ (exec auth a x w).2.gone) :
    id ∈ w.gone ∨ a.closing = some id := by
  cases a with
  | dropped id' =>
    rcases List.mem_cons.mp h with rfl | h
    · exact Or.inr rfl
    · exact Or.inl h
  | leaveSocket id' =>
    rcases List.mem_cons.mp h with rfl | h
    · exact Or.inr rfl
    · exact Or.inl h
  | _ => exact Or.inl h

/-- A socket stays in the room until a call takes it out. -/
theorem sockets_step (hs : Tasks.Step (system auth row) e.pre e.act e.out e.post) (h : id ∈ e.pre.shared.sockets) :
    id ∈ e.post.shared.sockets ∨ ∃ j a, e.pre.executed e.act = some (j, a) ∧ a.closing = some id := by
  rcases Tasks.shared_cases _ hs with ⟨j, a, x, hx, he⟩ | ⟨env, -, he⟩ | ⟨-, he⟩
  · by_cases ha : a.closing = some id
    · exact Or.inr ⟨j, a, hx, ha⟩
    · rw [he]
      exact Or.inl (exec_sockets x h ha)
  · rw [he]
    cases env <;> exact Or.inl h
  · rw [he]
    exact Or.inl h

theorem gone_step (hs : Tasks.Step (system auth row) e.pre e.act e.out e.post) (h : id ∈ e.post.shared.gone) :
    id ∈ e.pre.shared.gone ∨ ∃ j a, e.pre.executed e.act = some (j, a) ∧ a.closing = some id := by
  rcases Tasks.shared_cases _ hs with ⟨j, a, x, hx, he⟩ | ⟨env, -, he⟩ | ⟨-, he⟩
  · rw [he] at h
    exact (exec_gone h).imp_right fun ha => ⟨j, a, hx, ha⟩
  · rw [he] at h
    cases env <;> exact Or.inl h
  · rw [he] at h
    exact Or.inl h

/-! ## The sockets of the room -/

/-- A join that has begun is carried on. -/
theorem Begun.step (hs : Tasks.Step (system auth row) e.pre e.act e.out e.post) (h : Begun tr e.pre id) :
    Begun (tr ++ [e]) e.post id := by
  rcases h with ⟨j, t, ht, hb⟩ | ⟨j, room, hq⟩ | h
  · rcases Tasks.tasks_keep hs ht with ht | ⟨a, x, -, rfl, -, ht⟩ | ⟨d, a, r, hr, rfl, ho, hd⟩
    · exact Or.inl ⟨j, t, ht, hb⟩
    · refine Or.inl ⟨j, _, ht, ?_⟩
      cases a with
      | joinInit | joinUpsert | joinList => exact hb
      | _ => cases hb
    · cases a with
      | joinSocket id' room =>
        cases hb
        exact Or.inr (Or.inl ⟨j, room, by rw [hd]; exact Desk.mem_queue_queued rfl⟩)
      | joinInit id' room =>
        cases hb
        exact Or.inl ⟨j, ⟨.joinUpsert id r, none⟩, by rw [hd]; exact Desk.mem_tasks_await rfl, rfl⟩
      | joinUpsert id' tl =>
        cases hb
        exact Or.inl ⟨j, ⟨.joinList id tl, none⟩, by rw [hd]; exact Desk.mem_tasks_await rfl, rfl⟩
      | joinList id' tl =>
        cases hb
        exact Or.inr (Or.inr (joined_snoc.mpr (Or.inr (by rw [joined?, ho]; rfl))))
      | _ => cases hb
  · rcases Tasks.queue_keep hs hq with hq | ⟨d, -, -, hd⟩
    · exact Or.inr (Or.inl ⟨j, room, hq⟩)
    · exact Or.inl ⟨j, ⟨.joinInit id room, none⟩, by rw [hd]; exact Desk.mem_tasks_await rfl, rfl⟩
  · exact Or.inr (Or.inr (joined_snoc.mpr (Or.inl h)))

/-- Every socket in the room was put there by a join, and a socket that has disconnected is taken out for good. -/
structure Tracked (tr : List (Event I)) (s : State I) : Prop where
  begun : ∀ id ∈ s.shared.sockets, Begun tr s id
  left : ∀ id, Left tr id →
    (∃ j, ∃ t ∈ (s.node j).tasks, t.point.closing = some id ∧ t.reply = none) ∨ id ∈ s.shared.gone
  gone : ∀ id ∈ s.shared.gone, id ∉ s.shared.sockets

theorem exec_sockets_subset {a : Await} {x : Choice} {w : World} (h : id ∈ (exec auth a x w).2.sockets) :
    id ∈ w.sockets ∨ (∃ room, a = .joinSocket id room) ∧ id ∉ w.gone := by
  cases a with
  | joinSocket id' room =>
    simp only [exec] at h
    split at h
    · exact Or.inl h
    · rename_i hn
      rcases List.mem_append.mp h with h | h
      · exact Or.inl h
      · rw [List.mem_singleton.mp h]
        exact Or.inr ⟨⟨room, rfl⟩, fun hg => hn (Or.inl hg)⟩
  | dropped | leaveSocket => exact Or.inl (List.mem_filter.mp h).1
  | _ => exact Or.inl h

/-- A call that closes a socket takes it out for good. -/
theorem exec_closing {a : Await} (x : Choice) (w : World) (ha : a.closing = some id) :
    id ∈ (exec auth a x w).2.gone ∧ id ∉ (exec auth a x w).2.sockets := by
  cases a with
  | dropped | leaveSocket =>
    cases ha
    exact ⟨List.mem_cons_self, fun h => by simpa using (List.mem_filter.mp h).2⟩
  | _ => cases ha

theorem exec_gone_mono {a : Await} (x : Choice) {w : World} (h : id ∈ w.gone) : id ∈ (exec auth a x w).2.gone := by
  cases a with
  | dropped | leaveSocket => exact List.mem_cons_of_mem _ h
  | _ => exact h

theorem gone_mono (hs : Tasks.Step (system auth row) e.pre e.act e.out e.post) (h : id ∈ e.pre.shared.gone) :
    id ∈ e.post.shared.gone := by
  rcases Tasks.shared_cases _ hs with ⟨j, a, x, hx, he⟩ | ⟨env, -, he⟩ | ⟨-, he⟩
  · rw [he]
    exact exec_gone_mono x h
  · rw [he]
    cases env <;> exact h
  · rw [he]
    exact h

/-- A socket comes into the room by `client.join`, unless it is closed. -/
theorem sockets_from (hs : Tasks.Step (system auth row) e.pre e.act e.out e.post) (h : id ∈ e.post.shared.sockets) :
    id ∈ e.pre.shared.sockets ∨
      (∃ j room, e.pre.executed e.act = some (j, .joinSocket id room)) ∧ id ∉ e.pre.shared.gone := by
  rcases Tasks.shared_cases _ hs with ⟨j, a, x, hx, he⟩ | ⟨env, -, he⟩ | ⟨-, he⟩
  · rw [he] at h
    rcases exec_sockets_subset h with h | ⟨⟨room, rfl⟩, hg⟩
    · exact Or.inl h
    · exact Or.inr ⟨⟨j, room, hx⟩, hg⟩
  · rw [he] at h
    cases env <;> exact Or.inl h
  · rw [he] at h
    exact Or.inl h

theorem Tracked.step (hs : Tasks.Step (system auth row) e.pre e.act e.out e.post) (hI : Tracked tr e.pre) :
    Tracked (tr ++ [e]) e.post where
  begun id h := by
    rcases sockets_from hs h with h | ⟨⟨j, room, hx⟩, -⟩
    · exact (hI.begun id h).step hs
    · obtain ⟨x, -, ht⟩ := Tasks.executed_step hs hx
      exact Or.inl ⟨j, _, ht, rfl⟩
  left id h := by
    obtain ⟨e', he', hl⟩ := h
    rcases List.mem_append.mp he' with he' | he'
    · rcases hI.left id ⟨e', he', hl⟩ with ⟨j, t, ht, hc, hn⟩ | hg
      · rcases Tasks.tasks_keep hs ht with ht | ⟨a, x, -, rfl, hsh, -⟩ | ⟨d, a, r, -, rfl, -⟩
        · exact Or.inl ⟨j, t, ht, hc, hn⟩
        · rw [hsh]
          exact Or.inr (exec_closing x e.pre.shared hc).1
        · cases hn
      · exact Or.inr (gone_mono hs hg)
    · rw [List.mem_singleton.mp he'] at hl
      unfold left? at hl
      split at hl
      · rename_i i id' hm
        cases hl
        rw [hm] at hs
        obtain ⟨hnode, -⟩ := Tasks.started hs
        left
        by_cases hin : id ∈ (e.pre.node i).loc.members
        · refine ⟨i, ⟨.leaveSocket id, none⟩, ?_, rfl, rfl⟩
          rw [hnode]
          exact Desk.mem_tasks_await (by simp [system, start, hin, await])
        · refine ⟨i, ⟨.dropped id, none⟩, ?_, rfl, rfl⟩
          rw [hnode]
          exact Desk.mem_tasks_await (by simp [system, start, hin, await])
      · cases hl
  gone id hg hmem := by
    rcases gone_step hs hg with hg' | ⟨j, a, hx, ha⟩
    · rcases sockets_from hs hmem with hmem | ⟨-, hn⟩
      · exact hI.gone id hg' hmem
      · exact hn hg'
    · obtain ⟨x, he, -⟩ := Tasks.executed_step hs hx
      rw [he] at hmem
      exact (exec_closing x e.pre.shared ha).2 hmem

theorem tracked_init : Tracked [] (backend (I := I) auth row).init where
  begun _ h := absurd h List.not_mem_nil
  left _ h := by
    obtain ⟨_, h, _⟩ := h
    exact absurd h List.not_mem_nil
  gone _ h := absurd h List.not_mem_nil

end Steps

end SyncGateway
end WatchParty
