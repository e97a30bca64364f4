import WatchParty.Gateway.Stages

/-!
# Joined sockets and releases

On one instance, a leave that finds the room empty queues a release behind whatever the gate already holds. Nothing
looks again when the release runs. So a socket that has joined keeps its room as long as no leave uses an empty answer
of `fetchSockets` that is out of date (`Vacant`), and as long as Redis keeps the timeline (`Lasting`).

- `Occupied` is the invariant: no release is pending behind the `ensureRoom` of a socket that has not left;
- `Occupied.step` is the step lemma, `occupied` the run lemma;
- `joined_room` is the result, `joined_roomless` a run in which a stale answer releases the room of a joined socket.
-/

namespace WatchParty
namespace SyncGateway

/-- The leave that an event answers with the news that the room is empty. -/
def emptied? {I : Type} (e : Event I) : Option String :=
  match e.pre.replied e.act with
  | some (_, ⟨.leaveFetch id, []⟩) => some id
  | _ => none

/-- A leave that is told that the room is empty finds it empty. -/
def Vacant {I : Type} (e : Event I) : Prop := ∀ id ∈ emptied? e, e.pre.shared.sockets = []

instance {I : Type} (e : Event I) : Decidable (Vacant e) := inferInstanceAs (Decidable (∀ id ∈ emptied? e, _))

/-- Something other than a handler acts. -/
def outside {I : Type} (e : Event I) : Bool :=
  match e.act with
  | .env _ => true
  | _ => false

/-- What happens besides the handlers leaves the timeline of the room where it is. -/
def Lasting {I : Type} (e : Event I) : Prop :=
  outside e = true → e.pre.shared.redis.loadTl.isSome → e.post.shared.redis.loadTl.isSome

instance {I : Type} (e : Event I) : Decidable (Lasting e) := inferInstanceAs (Decidable (_ → _ → _))

/-- An entry of the gate that a socket that has not left needs. -/
def Needed {I : Type} (tr : List (Event I)) (q : Gated) : Prop := ∃ id room, q = .ensure id room ∧ ¬Left tr id

/-- The settings are there, and no release is on its way. -/
structure Settled (d : Desk Local Gated Reply) : Prop where
  there : d.loc.roomMeta.isSome
  waits : ∀ q ∈ d.queue, q.isEnsure
  runs : ∀ t ∈ d.tasks, t.point.releasing = false

variable {auth : String → AuthedSocketData} {row : RoomRow}

variable (auth row) in
/-- What a run keeps. -/
structure Occupied (tr : List (Event Unit)) (s : State Unit) : Prop where
  single : ((system auth row).within (s.node ())).length ≤ 1
  closing : ∀ t ∈ (s.node ()).tasks, ∀ id, t.point.closing = some id → Left tr id
  gone : ∀ id ∈ s.shared.gone, Left tr id
  begun : ∀ id, ¬Left tr id → Begun tr s id → id ∈ s.shared.sockets
  waits : (s.node ()).queue.Pairwise fun a b => Needed tr a → b.isEnsure
  inside : ∀ t ∈ (s.node ()).tasks, ∀ id room, t.point = .joinInit id room → ¬Left tr id →
    ∀ q ∈ (s.node ()).queue, q.isEnsure
  kept : ∀ t ∈ (s.node ()).tasks, ∀ id room, t.point = .joinInit id room → (s.node ()).loc.roomMeta.isSome
  settled : ∀ id, ¬Left tr id → Hydrated tr s id → Settled (s.node ())

variable {tr : List (Event Unit)} {e : Event Unit} {id : String}

theorem Needed.of_snoc {q : Gated} (h : Needed (tr ++ [e]) q) : Needed tr q := by
  obtain ⟨id, room, rfl, hl⟩ := h
  exact ⟨id, room, rfl, fun h => hl (h.snoc e)⟩

/-- A hydrated join has begun. -/
theorem Hydrated.begun {I : Type} {tr : List (Event I)} {s : State I} (h : Hydrated tr s id) : Begun tr s id := by
  rcases h with ⟨j, ⟨a, r⟩, ht, hb⟩ | h
  · refine Or.inl ⟨j, _, ht, ?_⟩
    cases a with
    | joinInit id' room =>
      cases r with
      | none => cases hb
      | some r => exact hb
    | joinUpsert id' tl => exact hb
    | joinList id' tl => exact hb
    | _ => cases hb
  · exact Or.inr (Or.inr h)

/-- A release is queued only where no socket that has not left is in the room. -/
theorem Occupied.empty (hI : Occupied auth row tr e.pre) (hv : Vacant e) {i : Unit} {id' : String}
    (h : e.pre.replied e.act = some (i, ⟨.leaveFetch id', []⟩)) (hb : Begun tr e.pre id) : Left tr id := by
  by_contra hl
  have hmem := hI.begun id hl hb
  rw [hv id' (by simp only [emptied?, h]; rfl)] at hmem
  cases hmem

/-- What is left of the gate's queue, and what comes behind it, is as it was while a socket that has begun has not left. -/
theorem Occupied.ensures (hI : Occupied auth row tr e.pre) (hs : Tasks.Step (system auth row) e.pre e.act e.out e.post)
    (hv : Vacant e) (hl : ¬Left tr id) (hb : Begun tr e.pre id) (h : ∀ q ∈ (e.pre.node ()).queue, q.isEnsure) :
    ∀ q ∈ (e.post.node ()).queue, q.isEnsure := by
  rcases queue_step hs () with hq | ⟨id', room, -, hq⟩ | ⟨id', hr, hq⟩
  · exact fun q hq' => h q (hq.subset hq')
  · rw [hq, List.forall_mem_append]
    exact ⟨h, fun q hq' => List.mem_singleton.mp hq' ▸ rfl⟩
  · exact absurd (hI.empty hv hr hb) hl

theorem Occupied.settled_step (hI : Occupied auth row tr e.pre)
    (hs : Tasks.Step (system auth row) e.pre e.act e.out e.post) (hv : Vacant e) (hl : ¬Left tr id)
    (hb : Begun tr e.pre id) (h : Settled (e.pre.node ())) : Settled (e.post.node ()) where
  there := by
    rcases Tasks.loc_cases hs () with he | ⟨d, u, hu, he⟩
    · rw [he]
      exact h.there
    · rw [he]
      cases hu with
      | start r hm => exact start_isSome.trans h.there
      | resume pre post a r hm hc => exact (resume_isSome (h.runs _ (Office.replied_mem hm))).trans h.there
      | enter q rest hm hq hfree => exact enter_isSome h.there
  waits := hI.ensures hs hv hl hb h.waits
  runs t ht := by
    rcases Tasks.mem_tasks hs ht with ht | ⟨a, x, hx, hmem, rfl, -⟩ | ⟨d, u, a, hu, ha, rfl, -⟩
    · exact h.runs t ht
    · exact h.runs ⟨a, none⟩ hmem
    · cases hu with
      | start r hm => exact (start_next ha).2.2.1
      | resume pre post b r hm hc =>
        by_contra hrel
        have := (resume_next ha).2.2.1 (by simpa using hrel)
        rw [h.runs _ (Office.replied_mem hm)] at this
        cases this
      | enter q rest hm hq hfree =>
        rcases enter_next ha with ⟨id', room, rfl, rfl⟩ | ⟨id', rfl, rfl⟩
        · rfl
        · have := h.waits (.release id') (by rw [hq]; exact List.mem_cons_self)
          cases this

/-- No release runs beside a join that is inside. -/
theorem Occupied.alone (hI : Occupied auth row tr e.pre) {t t' : Pending Reply} {room : RoomRow}
    (ht : t ∈ (e.pre.node ()).tasks) (hp : t.point = .joinInit id room) (ht' : t' ∈ (e.pre.node ()).tasks) :
    t'.point.releasing = false := by
  cases hr : t'.point.releasing with
  | false => rfl
  | true =>
    have hin : inGate t'.point = true := by cases h : t'.point <;> simp_all [Await.releasing, inGate]
    have he := Tasks.eq_of_within hI.single ht ht' (show inGate t.point = true by rw [hp]; rfl) hin
    rw [← he, hp] at hr
    cases hr

theorem Occupied.waits_step (hI : Occupied auth row tr e.pre)
    (hs : Tasks.Step (system auth row) e.pre e.act e.out e.post) (hv : Vacant e) :
    (e.post.node ()).queue.Pairwise fun a b => Needed (tr ++ [e]) a → b.isEnsure := by
  have hpre : (e.pre.node ()).queue.Pairwise fun a b => Needed (tr ++ [e]) a → b.isEnsure :=
    hI.waits.imp fun h hn => h hn.of_snoc
  rcases queue_step hs () with hq | ⟨id', room, -, hq⟩ | ⟨id', hr, hq⟩
  · exact hpre.sublist hq.sublist
  · rw [hq]
    refine List.pairwise_append.mpr ⟨hpre, List.pairwise_singleton _ _, fun a _ b hb _ => ?_⟩
    rw [List.mem_singleton.mp hb]
    rfl
  · rw [hq]
    refine List.pairwise_append.mpr ⟨hpre, List.pairwise_singleton _ _, fun a ha b hb hn => ?_⟩
    obtain ⟨id, room, rfl, hl⟩ := hn.of_snoc
    exact absurd (hI.empty hv hr (Or.inr (Or.inl ⟨(), room, ha⟩))) hl

theorem Occupied.inside_step (hI : Occupied auth row tr e.pre)
    (hs : Tasks.Step (system auth row) e.pre e.act e.out e.post) (hv : Vacant e) {t : Pending Reply} {room : RoomRow}
    (ht : t ∈ (e.post.node ()).tasks) (hp : t.point = .joinInit id room) (hl : ¬Left tr id) :
    ∀ q ∈ (e.post.node ()).queue, q.isEnsure := by
  have hold : ∀ r, ⟨.joinInit id room, r⟩ ∈ (e.pre.node ()).tasks → ∀ q ∈ (e.post.node ()).queue, q.isEnsure :=
    fun r hmem => hI.ensures hs hv hl (Or.inl ⟨(), _, hmem, rfl⟩) (hI.inside _ hmem id room rfl hl)
  rcases Tasks.mem_tasks hs ht with ht | ⟨a, x, hx, hmem, rfl, -⟩ | ⟨d, u, a, hu, ha, rfl, hd⟩
  · obtain ⟨a, r⟩ := t
    obtain rfl : a = _ := hp
    exact hold r ht
  · obtain rfl : a = _ := hp
    exact hold none hmem
  · obtain rfl : a = _ := hp
    cases hu with
    | start r hm => cases (start_next ha).1
    | resume pre post b r hm hc => exact absurd rfl ((resume_next ha).2.2.2.2 id room)
    | enter q rest hm hq hfree =>
      rcases enter_next ha with ⟨id', room', rfl, he⟩ | ⟨id', rfl, he⟩
      · cases he
        have hw := hI.waits
        rw [hq, List.pairwise_cons] at hw
        rw [hd, Desk.queue_after, ha]
        simpa [Next.queued?] using fun q hq' => hw.1 q hq' ⟨id, room, rfl, hl⟩
      · cases he

theorem Occupied.kept_step (hI : Occupied auth row tr e.pre)
    (hs : Tasks.Step (system auth row) e.pre e.act e.out e.post) {t : Pending Reply} {room : RoomRow}
    (ht : t ∈ (e.post.node ()).tasks) (hp : t.point = .joinInit id room) : (e.post.node ()).loc.roomMeta.isSome := by
  have hold : ∀ r, ⟨.joinInit id room, r⟩ ∈ (e.pre.node ()).tasks → (e.post.node ()).loc.roomMeta.isSome := by
    intro r hmem
    have hthere := hI.kept _ hmem id room rfl
    rcases Tasks.loc_cases hs () with he | ⟨d, u, hu, he⟩
    · rw [he]
      exact hthere
    · rw [he]
      cases hu with
      | start r hm => exact start_isSome.trans hthere
      | resume pre post b r hm hc => exact (resume_isSome (hI.alone hmem rfl (Office.replied_mem hm))).trans hthere
      | enter q rest hm hq hfree => exact enter_isSome hthere
  rcases Tasks.mem_tasks hs ht with ht | ⟨a, x, hx, hmem, rfl, -⟩ | ⟨d, u, a, hu, ha, rfl, hd⟩
  · obtain ⟨a, r⟩ := t
    obtain rfl : a = _ := hp
    exact hold r ht
  · obtain rfl : a = _ := hp
    exact hold none hmem
  · obtain rfl : a = _ := hp
    cases hu with
    | start r hm => cases (start_next ha).1
    | resume pre post b r hm hc => exact absurd rfl ((resume_next ha).2.2.2.2 id room)
    | enter q rest hm hq hfree =>
      rcases enter_next ha with ⟨id', room', rfl, he⟩ | ⟨id', rfl, he⟩
      · rw [hd, Desk.after_loc]
        exact ensure_isSome id' room'
      · cases he

/-- **One step keeps the room of the sockets that have not left.** -/
theorem Occupied.step (hs : Tasks.Step (system auth row) e.pre e.act e.out e.post) (hv : Vacant e)
    (hI : Occupied auth row tr e.pre) : Occupied auth row (tr ++ [e]) e.post := by
  have hstay : ∀ {id}, ¬Left (tr ++ [e]) id → ¬Left tr id := fun hl h => hl (h.snoc e)
  have hclosing : ∀ {j : Unit} {a : Await} {id : String}, e.pre.executed e.act = some (j, a) → a.closing = some id →
      Left tr id := fun hx ha => hI.closing _ (Office.executed_mem hx) _ ha
  refine ⟨Tasks.single_step system_gated hs (fun _ => hI.single) (), fun t ht id hid => ?_, fun id hid => ?_,
    fun id hl hb => ?_, ?_, fun t ht id room hp hl => ?_, fun t ht id room hp => ?_, fun id hl hb => ?_⟩
  · rcases closing_step hs ht hid with ⟨t', ht', hid'⟩ | hleft
    · exact (hI.closing t' ht' id hid').snoc e
    · exact ⟨e, List.mem_append_right _ (List.mem_singleton_self _), hleft⟩
  · rcases gone_step hs hid with hid | ⟨j, a, hx, ha⟩
    · exact (hI.gone id hid).snoc e
    · exact (hclosing hx ha).snoc e
  · rcases begun_step hs hb with hb | ⟨j, room, hx⟩
    · rcases sockets_step hs (hI.begun id (hstay hl) hb) with h | ⟨j, a, hx, ha⟩
      · exact h
      · exact absurd (hclosing hx ha) (hstay hl)
    · -- `client.join` puts the socket in the room, for it is not closed
      obtain ⟨x, he, -⟩ := Tasks.executed_step hs hx
      rw [he]
      show id ∈ (exec auth (.joinSocket id room) x e.pre.shared).2.sockets
      exact joinSocket_mem x fun hg => hstay hl (hI.gone id hg)
  · exact hI.waits_step hs hv
  · exact hI.inside_step hs hv ht hp (hstay hl)
  · exact hI.kept_step hs ht hp
  · rcases hydrated_step hs hb with hb | ⟨j, room, hx⟩
    · exact hI.settled_step hs hv (hstay hl) hb.begun (hI.settled id (hstay hl) hb)
    · have hmem := Office.executed_mem hx
      have hsettled : Settled (e.pre.node ()) :=
        ⟨hI.kept _ hmem id room rfl, hI.inside _ hmem id room rfl (hstay hl), fun t ht => hI.alone hmem rfl ht⟩
      exact hI.settled_step hs hv (hstay hl) (Or.inl ⟨_, _, hmem, rfl⟩) hsettled

theorem occupied_init : Occupied auth row [] (backend auth row).init where
  single := Nat.zero_le 1
  closing _ h := absurd h List.not_mem_nil
  gone _ h := absurd h List.not_mem_nil
  begun _ _ h := by
    rcases h with ⟨_, _, h, _⟩ | ⟨_, _, h⟩ | ⟨_, h, _⟩ <;> exact absurd h List.not_mem_nil
  waits := List.Pairwise.nil
  inside _ h := absurd h List.not_mem_nil
  kept _ h := absurd h List.not_mem_nil
  settled _ _ h := by
    rcases h with ⟨_, _, h, _⟩ | ⟨_, h, _⟩ <;> exact absurd h List.not_mem_nil

/-- **A run in which no leave uses an outdated empty answer keeps the room of the sockets that have not left.** -/
theorem occupied (ops : List (Move Unit Request Choice Env)) :
    (∀ e ∈ (backend auth row).trace ops, Vacant e) →
      Occupied auth row ((backend auth row).trace ops) ((backend auth row).run ops) :=
  (backend auth row).invariant_forall occupied_init
    (fun _ _ _ hc hI => Occupied.step (Tasks.event_cases _ _) hc hI) ops

/-! ## The timeline in Redis -/

/-- Only the `clear` of a release takes the timeline away. -/
theorem exec_loadTl {a : Await} (x : Choice) {w : World} (ha : a.releasing = false) (h : w.redis.loadTl.isSome) :
    (exec auth a x w).2.redis.loadTl.isSome := by
  cases a with
  | joinInit id room => exact (Plane.step_cases w.redis (.init room.videoUrl room.currentTime x.trim)).init_loadTl
  | control id req => exact (Plane.step_cases w.redis (.applyControl req x.trim)).keep_loadTl nofun nofun h
  | sweepApply current => exact (Plane.step_cases w.redis (.applySnapshot x.trim)).keep_loadTl nofun nofun h
  | releaseGet | releaseClear | releasePersist => cases ha
  | _ => exact h

/-- While a socket that has not left is hydrated, the timeline is there. -/
def Stored (tr : List (Event Unit)) (s : State Unit) : Prop :=
  ∀ id, ¬Left tr id → Hydrated tr s id → s.shared.redis.loadTl.isSome

theorem Stored.step (hs : Tasks.Step (system auth row) e.pre e.act e.out e.post) (hl : Lasting e)
    (hI : Occupied auth row tr e.pre) (h : Stored tr e.pre) : Stored (tr ++ [e]) e.post := by
  intro id hleft hy
  have hstay : ¬Left tr id := fun h => hleft (h.snoc e)
  rcases hydrated_step hs hy with hy | ⟨j, room, hx⟩
  · have hthere := h id hstay hy
    rcases Tasks.shared_cases _ hs with ⟨j, a, x, hx, he⟩ | ⟨env, hm, -⟩ | ⟨-, he⟩
    · rw [he]
      exact exec_loadTl x ((hI.settled id hstay hy).runs _ (Office.executed_mem hx)) hthere
    · exact hl (by rw [outside, hm]) hthere
    · rw [he]
      exact hthere
  · obtain ⟨x, he, -⟩ := Tasks.executed_step hs hx
    rw [he]
    exact (Plane.step_cases e.pre.shared.redis (.init room.videoUrl room.currentTime x.trim)).init_loadTl

/-- **The timeline stays** while a socket that has not left is hydrated. -/
theorem stored (ops : List (Move Unit Request Choice Env)) :
    (∀ e ∈ (backend auth row).trace ops, Vacant e ∧ Lasting e) →
      Stored ((backend auth row).trace ops) ((backend auth row).run ops) := by
  intro h
  refine ((backend auth row).invariant_forall (P := fun e => Vacant e ∧ Lasting e)
    (I := fun tr s => Occupied auth row tr s ∧ Stored tr s) ⟨occupied_init, fun id _ hy => ?_⟩
    (fun tr s a hc hI => ?_) ops h).2
  · rcases hy with ⟨_, _, h, _⟩ | ⟨_, h, _⟩ <;> exact absurd h List.not_mem_nil
  · obtain ⟨hv, hl⟩ := hc
    have hs : Tasks.Step (system auth row) _ _ _ _ := Tasks.event_cases s a
    exact ⟨Occupied.step hs hv hI.1, Stored.step hs hl hI.1 hI.2⟩

/-- **A joined socket has a room.** In every run in which no leave uses an empty answer that is out of date and Redis
keeps the timeline, the settings and the timeline are there while a socket has completed its join and not disconnected,
and none of its controls is answered room-not-found. -/
theorem joined_room (ops : List (Move Unit Request Choice Env))
    (h : ∀ e ∈ (backend auth row).trace ops, Vacant e ∧ Lasting e) (hj : Joined ((backend auth row).trace ops) id)
    (hl : ¬Left ((backend auth row).trace ops) id) :
    let s := (backend auth row).run ops
    (s.node ()).loc.roomMeta.isSome ∧ s.shared.redis.loadTl.isSome ∧
      (∀ userId now, (TimelineService.admission id userId now (s.node ()).loc).1 ≠ some .roomNotFound) ∧
      ∀ req trim, (RedisRoomStateStore.applyControl req trim s.shared.redis).1 ≠ .missing := by
  intro s
  have hy : Hydrated ((backend auth row).trace ops) s id := Or.inr hj
  have hthere := ((occupied ops fun e he => (h e he).1).settled id hl hy).there
  have hstored : s.shared.redis.loadTl.isSome := stored ops h id hl hy
  refine ⟨hthere, hstored, fun userId now hr => ?_, fun req trim hr => ?_⟩
  · obtain ⟨m, hm⟩ := Option.isSome_iff_exists.mp hthere
    exact TimelineService.admission_ne_roomNotFound hm hr
  · have hn := (Plane.step_cases s.shared.redis (.applyControl req trim)).missing_loadTl (congrArg Plane.Out.outcome hr)
    rw [hn] at hstored
    cases hstored

/-- A leave takes its answer, another socket joins, and the leave uses the answer. -/
theorem joined_roomless :
    ¬∀ (auth : String → AuthedSocketData) (row : RoomRow) (ops : List (Move Unit Request Choice Env)) (id : String),
        (∀ e ∈ (backend auth row).trace ops, Lasting e) → Joined ((backend auth row).trace ops) id →
        ¬Left ((backend auth row).trace ops) id →
        let s := (backend auth row).run ops
        (s.node ()).loc.roomMeta.isSome ∧ s.shared.redis.loadTl.isSome ∧
          (∀ userId now, (TimelineService.admission id userId now (s.node ()).loc).1 ≠ some .roomNotFound) ∧
          ∀ req trim, (RedisRoomStateStore.applyControl req trim s.shared.redis).1 ≠ .missing := by
  intro h
  have hroom := h namesake quietRow
    (joining () 0 "a" ++ [.start () (.disconnect "a")] ++ answer () 0 ++ [.exec () 0 ⟨0, 0⟩] ++ joining () 1 "b" ++
      [.deliver () 0, .enter ()] ++ answer () 0 ++ [.exec () 0 ⟨0, 0⟩]) "b" (by decide +kernel)
      (by decide +kernel) (by decide +kernel)
  exact absurd hroom.1 (by decide +kernel)

/-- The other socket joins when the answer has been used. -/
theorem joined_room_after :
    let s := (backend namesake quietRow).run (joining () 0 "a" ++ [.start () (.disconnect "a")] ++ answer () 0 ++
      answer () 0 ++ .enter () :: answer () 0 ++ answer () 0 ++ answer () 0 ++ answer () 0 ++ joining () 1 "b")
    (s.node ()).loc.roomMeta.isSome ∧ s.shared.redis.loadTl.isSome ∧
      (∀ userId now, (TimelineService.admission "b" userId now (s.node ()).loc).1 ≠ some .roomNotFound) ∧
      ∀ req trim, (RedisRoomStateStore.applyControl req trim s.shared.redis).1 ≠ .missing :=
  joined_room _ (by decide +kernel) (by decide +kernel) (by decide +kernel)

end SyncGateway
end WatchParty
