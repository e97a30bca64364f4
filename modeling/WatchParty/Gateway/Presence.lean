import WatchParty.Gateway.Authority

/-!
# The room that a socket joined last

socket.io keeps a socket in every room that it joined, and the gateway keeps the last of them. Only a disconnect takes a
socket out of a room: a join of another room does not, and `leave-room` has no handler. So what is emitted to a room
reaches the sockets that joined it last as long as no socket goes elsewhere, or asks to leave, while it is in the room.

- `Here` says that a socket joined the room last and has not left it, `Reaches` what an event sends to a socket;
- `Wired` is what socket.io promises, `Tidy` the condition on an event;
- `Seated` is the invariant, `Seated.step` the step lemma, `Seated.here_of_reaches` what it says of an emission.
-/

namespace WatchParty
namespace SyncGateway

variable {I : Type}

/-- The socket that sends a request. Sweeps, timers and PATCHes are nobody's. -/
def Request.socket? : Request → Option String
  | .joinRoom id => some id
  | .disconnect id => some id
  | .elsewhere id => some id
  | .leaveRoom id => some id
  | .control id _ _ => some id
  | _ => none

/-- The socket whose `join-room` an await point belongs to. -/
def Await.joiner : Await → Option String
  | .joinRow id => some id
  | .joinSocket id _ => some id
  | .joinInit id _ => some id
  | .joinUpsert id _ => some id
  | .joinList id _ => some id
  | _ => none

def Gated.joiner : Gated → Option String
  | .ensure id _ => some id
  | .release _ => none

/-- A join of the socket is under way at an instance. -/
def Arriving (d : Desk Local Gated Reply) (id : String) : Prop :=
  (∃ t ∈ d.tasks, t.point.joiner = some id) ∨ ∃ q ∈ d.queue, q.joiner = some id

instance (d : Desk Local Gated Reply) (id : String) : Decidable (Arriving d id) :=
  inferInstanceAs (Decidable (_ ∨ _))

/-- The request that an event brings, and the instance that it reaches. -/
def request? (e : Event I) : Option (I × Request) :=
  match e.act with
  | .start i r => some (i, r)
  | _ => none

/-- What a request says of whether its socket wants to be in this room. -/
def Request.wants : Request → Option (String × Bool)
  | .joinRoom id => some (id, true)
  | .disconnect id => some (id, false)
  | .elsewhere id => some (id, false)
  | .leaveRoom id => some (id, false)
  | _ => none

/-- What an event says of whether a socket wants to be in this room. -/
def wanted? (e : Event I) (id : String) : Option Bool :=
  (request? e).bind fun p => p.2.wants.bind fun w => if w.1 = id then some w.2 else none

/-- The room is the one that the socket joined last, and it has not left. -/
def Here (tr : List (Event I)) (id : String) : Prop :=
  tr.foldl (fun b e => (wanted? e id).getD b) false = true

instance (tr : List (Event I)) (id : String) : Decidable (Here tr id) := inferInstanceAs (Decidable (_ = _))

theorem here_snoc {tr : List (Event I)} {e : Event I} {id : String} :
    Here (tr ++ [e]) id ↔ wanted? e id = some true ∨ (wanted? e id = none ∧ Here tr id) := by
  simp only [Here, List.foldl_append, List.foldl_cons, List.foldl_nil]
  cases h : wanted? e id with
  | none => simp
  | some b => simp

/-- The timelines that an event sends to a socket, if it is connected: those that are emitted to it, and those that are
emitted to the room while socket.io has it in the room. -/
def Reaches (e : Event I) (id : String) (tl : Timeline) : Prop :=
  ∃ p ∈ e.out, .socket id tl ∈ p.2 ∨ ((.room tl ∈ p.2 ∨ .localRoom tl ∈ p.2) ∧ id ∈ e.pre.shared.sockets)

/-- A connected socket is sent timelines of this room only if it joined it last and has not left. -/
def Isolated (tr : List (Event I)) (e : Event I) : Prop :=
  ∀ id tl, Reaches e id tl → ¬Left tr id → Here tr id

/-- A socket is connected to one instance, and nothing comes from it after its disconnect. -/
def Wired (home : String → I) (tr : List (Event I)) (e : Event I) : Prop :=
  ∀ p ∈ request? e, ∀ id ∈ p.2.socket?, p.1 = home id ∧ ¬Left tr id

instance [DecidableEq I] (home : String → I) (tr : List (Event I)) (e : Event I) : Decidable (Wired home tr e) :=
  inferInstanceAs (Decidable (∀ p ∈ request? e, ∀ id ∈ p.2.socket?, _))

/-- The socket that asks to leave the room otherwise than by a disconnect, and the instance that is told. -/
def moved? (e : Event I) : Option (I × String) :=
  match request? e with
  | some (i, .elsewhere id) => some (i, id)
  | some (i, .leaveRoom id) => some (i, id)
  | _ => none

/-- The socket whose join goes on behind `client.join`: it is entered in the maps of the instance, let into the gate, or
its `init` or its participant row is written. -/
def settling? (e : Event I) : Option String :=
  match e.act with
  | .enter j =>
    match (e.pre.node j).queue, e.out with
    | .ensure id _ :: _, some _ => some id
    | _, _ => none
  | _ =>
    match e.pre.executed e.act, e.pre.replied e.act with
    | some (_, .joinInit id _), _ => some id
    | some (_, .joinUpsert id _), _ => some id
    | _, some (_, ⟨.joinSocket id _, _⟩) => some id
    | _, _ => none

/-- No socket of the room goes elsewhere or asks to leave, and no join goes on when its socket has disconnected. -/
structure Tidy (tr : List (Event I)) (e : Event I) : Prop where
  stays : ∀ p ∈ moved? e, p.2 ∉ e.pre.shared.sockets ∧ ¬Arriving (e.pre.node p.1) p.2
  alive : ∀ id ∈ settling? e, ¬Left tr id

instance (tr : List (Event I)) (e : Event I) : Decidable (Tidy tr e) :=
  decidable_of_iff ((∀ p ∈ moved? e, p.2 ∉ e.pre.shared.sockets ∧ ¬Arriving (e.pre.node p.1) p.2) ∧
    ∀ id ∈ settling? e, ¬Left tr id) ⟨fun h => ⟨h.1, h.2⟩, fun h => ⟨h.stays, h.alive⟩⟩

/-- The socket is in the room, or has disconnected. -/
def Inside (tr : List (Event I)) (w : World) (id : String) : Prop := id ∈ w.sockets ∨ Left tr id

/-- The socket that a handler took from the room, or put there. -/
def insider : Pending Reply → Option String
  | ⟨.control id _, _⟩ => some id
  | t => begun t

variable {auth : String → AuthedSocketData} {row : RoomRow}

/-! ## Joins that are under way -/

section Joins

variable {l : Local} {id : String}

theorem start_joiner {r : Request} {a : Await} (h : (start auth r l).next = .await a) (ha : a.joiner = some id) :
    r = .joinRoom id := by
  cases r
  all_goals
    simp only [start] at h
    repeat' split at h
    all_goals cases h
    all_goals cases ha
  rfl

theorem resume_joiner {a b : Await} {r : Reply a} (h : (resume auth a r l).next = .await b)
    (hb : b.joiner = some id) : a.joiner = some id := by
  cases a
  all_goals
    simp only [resume] at h
    repeat' split at h
    all_goals cases h
    all_goals cases hb
    all_goals rfl

theorem enter_joiner {q : Gated} {b : Await} (h : (enter q l).next = .await b) (hb : b.joiner = some id) :
    q.joiner = some id := by
  cases q <;> cases h <;> cases hb
  rfl

variable [DecidableEq I] {tr : List (Event I)} {e : Event I}

/-- A join that is under way was, or has just been asked for. -/
theorem arriving_from (hs : Tasks.Step (system auth row) e.pre e.act e.out e.post) {j : I}
    (h : Arriving (e.post.node j) id) : Arriving (e.pre.node j) id ∨ e.act = .start j (.joinRoom id) := by
  rcases h with ⟨t, ht, hid⟩ | ⟨q, hq, hid⟩
  · rcases Tasks.mem_tasks hs ht with ht | ⟨a, x, hx, hmem, rfl, -⟩ | ⟨d, u, a, hu, ha, rfl, -⟩
    · exact Or.inl (Or.inl ⟨t, ht, hid⟩)
    · exact Or.inl (Or.inl ⟨_, hmem, hid⟩)
    · cases hu with
      | start r hm =>
        rw [start_joiner ha hid] at hm
        exact Or.inr hm
      | resume pre post b r hm hc => exact Or.inl (Or.inl ⟨_, Office.replied_mem hm, resume_joiner ha hid⟩)
      | enter q rest hm hq hfree =>
        exact Or.inl (Or.inr ⟨q, by rw [hq]; exact List.mem_cons_self, enter_joiner ha hid⟩)
  · left
    rcases queue_step hs j with he | ⟨id', room, hmem, he⟩ | ⟨id', -, he⟩
    · exact Or.inr ⟨q, he.subset hq, hid⟩
    · rw [he] at hq
      rcases List.mem_append.mp hq with hq | hq
      · exact Or.inr ⟨q, hq, hid⟩
      · rw [List.mem_singleton.mp hq] at hid
        exact Or.inl ⟨_, hmem, hid⟩
    · rw [he] at hq
      rcases List.mem_append.mp hq with hq | hq
      · exact Or.inr ⟨q, hq, hid⟩
      · rw [List.mem_singleton.mp hq] at hid
        cases hid

end Joins

/-! ## The invariant -/

/-- What a run keeps. -/
structure Seated (home : String → I) (tr : List (Event I)) (s : State I) : Prop where
  closing : ∀ j, ∀ t ∈ (s.node j).tasks, ∀ id, t.point.closing = some id → Left tr id
  gone : ∀ id ∈ s.shared.gone, Left tr id
  here : ∀ id ∈ s.shared.sockets, ¬Left tr id → Here tr id
  arriving : ∀ j id, Arriving (s.node j) id → j = home id ∧ (¬Left tr id → Here tr id)
  inside : ∀ j, (s.node j).Meets (fun l => ∀ id ∈ l.members, Inside tr s.shared id)
    (fun t => ∀ id ∈ insider t, Inside tr s.shared id) fun q => ∀ id ∈ q.joiner, Inside tr s.shared id

section Step

variable {home : String → I} {tr : List (Event I)} {e : Event I} {id : String}

theorem left_of_wanted (h : wanted? e id = some false) : (∃ i, moved? e = some (i, id)) ∨ left? e = some id := by
  obtain ⟨pre, act, out, post⟩ := e
  cases act with
  | start i r =>
    cases r with
    | joinRoom id' => simp [wanted?, request?, Request.wants] at h
    | disconnect id' =>
      right
      simpa [wanted?, request?, Request.wants, left?] using h
    | elsewhere id' =>
      left
      exact ⟨i, by simpa [wanted?, request?, Request.wants, moved?] using h⟩
    | leaveRoom id' =>
      left
      exact ⟨i, by simpa [wanted?, request?, Request.wants, moved?] using h⟩
    | _ => cases h
  | _ => cases h

/-- A socket that is in the room, or on its way, stays where it is unless it disconnects. -/
theorem Here.step (hw : Wired home tr e) (ht : Tidy tr e) (h : Here tr id) (hl : ¬Left (tr ++ [e]) id)
    (hin : id ∈ e.pre.shared.sockets ∨ Arriving (e.pre.node (home id)) id) : Here (tr ++ [e]) id := by
  rw [here_snoc]
  cases hn : wanted? e id with
  | none => exact Or.inr ⟨rfl, h⟩
  | some b =>
    cases b with
    | true => exact Or.inl rfl
    | false =>
      exfalso
      rcases left_of_wanted hn with ⟨i, hm⟩ | hleft
      · obtain ⟨hs, ha⟩ := ht.stays _ hm
        obtain rfl : i = home id := by
          unfold moved? at hm
          split at hm
          · rename_i hr
            cases hm
            exact (hw _ hr _ rfl).1
          · rename_i hr
            cases hm
            exact (hw _ hr _ rfl).1
          · cases hm
        rcases hin with hin | hin
        · exact hs hin
        · exact ha hin
      · exact hl ⟨e, List.mem_append_right _ (List.mem_singleton_self _), hleft⟩

variable [DecidableEq I]

/-- A socket in the room stays there until it is closed. -/
theorem Seated.inside_keep (hI : Seated home tr e.pre) (hs : Tasks.Step (system auth row) e.pre e.act e.out e.post)
    (h : Inside tr e.pre.shared id) : Inside (tr ++ [e]) e.post.shared id := by
  rcases h with h | h
  · rcases sockets_step hs h with h | ⟨j, a, hx, ha⟩
    · exact Or.inl h
    · exact Or.inr ((hI.closing j _ (Office.executed_mem hx) id ha).snoc e)
  · exact Or.inr (h.snoc e)

/-- What a stretch of a join, or of a control, took from the room was in it. -/
theorem resume_insider {l : Local} {a b : Await} {r : Reply a} (h : (resume auth a r l).next = .await b)
    (hb : insider ⟨b, none⟩ = some id) : insider ⟨a, some r⟩ = some id := by
  cases a
  all_goals
    simp only [resume] at h
    repeat' split at h
    all_goals cases h
    all_goals cases hb
    all_goals rfl

theorem Seated.inside_step (hI : Seated home tr e.pre) (hs : Tasks.Step (system auth row) e.pre e.act e.out e.post)
    (j : I) : (e.post.node j).Meets (fun l => ∀ id ∈ l.members, Inside (tr ++ [e]) e.post.shared id)
      (fun t => ∀ id ∈ insider t, Inside (tr ++ [e]) e.post.shared id)
      fun q => ∀ id ∈ q.joiner, Inside (tr ++ [e]) e.post.shared id := by
  have hpre : ∀ i, (e.pre.node i).Meets (fun l => ∀ id ∈ l.members, Inside (tr ++ [e]) e.post.shared id)
      (fun t => ∀ id ∈ insider t, Inside (tr ++ [e]) e.post.shared id)
      fun q => ∀ id ∈ q.joiner, Inside (tr ++ [e]) e.post.shared id := fun i =>
    ⟨fun id h => hI.inside_keep hs ((hI.inside i).loc id h), fun t ht id h =>
      hI.inside_keep hs ((hI.inside i).tasks t ht id h), fun q hq id h => hI.inside_keep hs ((hI.inside i).queue q hq id h)⟩
  refine Tasks.meets_step hs hpre (fun i r hm hl => ⟨fun id h => hl id (start_members r h), fun a ha id h => ?_,
    fun q h => absurd h (start_not_queued r q)⟩) (fun i n x a hm hx ha id h => ?_)
    (fun i a r hr hl ha => ⟨fun id h => ?_, fun b hb id h => ha id (resume_insider hb h), fun q hq id h => ?_⟩)
    (fun i q hm hl hq => ⟨fun id h => ?_, fun b hb id h => ?_, fun q' h => absurd h enter_not_queued⟩) j
  · -- a control is taken from a member
    cases r with
    | control id' now req =>
      simp only [system, start] at ha
      split at ha
      · rename_i hmem
        split at ha
        · cases ha
        · cases ha
          cases h
          exact hl _ hmem
      · cases ha
    | _ =>
      simp only [system, start] at ha
      repeat' split at ha
      all_goals cases ha
      all_goals cases h
  · cases a with
    | joinSocket id' room =>
      cases h
      by_cases hg : id ∈ e.pre.shared.gone
      · exact Or.inr ((hI.gone id hg).snoc e)
      · left
        obtain ⟨x, he, -⟩ := Tasks.executed_step hs hx
        rw [he]
        show id ∈ (exec auth (.joinSocket id room) x e.pre.shared).2.sockets
        exact joinSocket_mem x hg
    | _ => exact ha id h
  · rcases resume_members r h with h | ⟨room, rfl⟩
    · exact hl id h
    · exact ha id rfl
  · rcases resume_queue hq with ⟨id', room, rfl, rfl⟩ | ⟨id', -, rfl⟩
    · exact ha id h
    · cases h
  · cases q with
    | ensure id' room =>
      simp only [system, enter, await, TimelineService.ensureMeta_members] at h
      exact hl id h
    | release id' => exact hl id h
  · rcases enter_next hb with ⟨id', room, rfl, rfl⟩ | ⟨id', rfl, rfl⟩
    · exact hq id h
    · cases h

/-- **One step keeps the sockets of the room where they are.** -/
theorem Seated.step (hs : Tasks.Step (system auth row) e.pre e.act e.out e.post) (hw : Wired home tr e)
    (ht : Tidy tr e) (hI : Seated home tr e.pre) : Seated home (tr ++ [e]) e.post where
  closing j t hmem id hid := by
    rcases closing_step hs hmem hid with ⟨t', hmem', hid'⟩ | hleft
    · exact (hI.closing j t' hmem' id hid').snoc e
    · exact ⟨e, List.mem_append_right _ (List.mem_singleton_self _), hleft⟩
  gone id h := by
    rcases gone_step hs h with h | ⟨j, a, hx, ha⟩
    · exact (hI.gone id h).snoc e
    · exact (hI.closing j _ (Office.executed_mem hx) id ha).snoc e
  here id h hl := by
    have hl' : ¬Left tr id := fun h => hl (h.snoc e)
    rcases sockets_from hs h with h | ⟨⟨j, room, hx⟩, -⟩
    · exact (hI.here id h hl').step hw ht hl (Or.inl h)
    · have ha : Arriving (e.pre.node j) id := Or.inl ⟨_, Office.executed_mem hx, rfl⟩
      obtain ⟨rfl, hh⟩ := hI.arriving j id ha
      exact (hh hl').step hw ht hl (Or.inr ha)
  arriving j id h := by
    rcases arriving_from hs h with h | hm
    · obtain ⟨rfl, hh⟩ := hI.arriving j id h
      exact ⟨rfl, fun hl => (hh fun h => hl (h.snoc e)).step hw ht hl (Or.inr h)⟩
    · have hr : request? e = some (j, .joinRoom id) := by rw [request?, hm]
      refine ⟨(hw _ hr id rfl).1, fun hl => here_snoc.mpr (Or.inl ?_)⟩
      simp [wanted?, hr, Request.wants]
  inside := hI.inside_step hs

theorem seated_init : Seated home [] (backend (I := I) auth row).init where
  closing _ _ h := absurd h List.not_mem_nil
  gone _ h := absurd h List.not_mem_nil
  here _ h := absurd h List.not_mem_nil
  arriving _ _ h := by
    rcases h with ⟨_, h, _⟩ | ⟨_, h, _⟩ <;> exact absurd h List.not_mem_nil
  inside _ := ⟨fun _ h => absurd h List.not_mem_nil, fun _ h => absurd h List.not_mem_nil,
    fun _ h => absurd h List.not_mem_nil⟩

/-- Only the answer to its control sends a socket a timeline of its own. -/
theorem sent_socket (hs : Tasks.Step (system auth row) e.pre e.act e.out e.post) {p : I × List Emit} {tl : Timeline}
    (ho : e.out = some p) (h : .socket id tl ∈ p.2) :
    ∃ req r, e.pre.replied e.act = some (p.1, ⟨.control id req, r⟩) := by
  obtain ⟨d, u, hb, hsent, -⟩ := Tasks.sent_cases hs (show e.out = some (p.1, p.2) from ho)
  rw [hsent] at h
  cases hb with
  | start r hm =>
    exfalso
    cases r
    all_goals
      simp only [system, start] at h
      repeat' split at h
      all_goals simp [done, await] at h
  | enter q rest hm hq hfree =>
    cases q <;> cases h
  | resume pre post a r hm hc =>
    cases a with
    | control id' req =>
      have hid : id = id' := by
        simp only [system, resume] at h
        split at h <;> simp [done] at h
        · exact h.1
        · exact h.1
      subst hid
      exact ⟨req, r, hm⟩
    | joinInit | leaveFetch =>
      exfalso
      simp only [system, resume, announce] at h
      repeat' split at h
      all_goals simp [await, gated] at h
    | _ =>
      exfalso
      simp only [system, resume] at h
      repeat' split at h
      all_goals simp [done, await, gated] at h

/-- **What an event sends reaches the sockets that joined the room last.** -/
theorem Seated.isolated (hs : Tasks.Step (system auth row) e.pre e.act e.out e.post) (hI : Seated home tr e.pre) :
    Isolated tr e := by
  rintro id tl ⟨p, ho, h⟩ hl
  have hin : Inside tr e.pre.shared id := by
    rcases h with h | ⟨-, h⟩
    · obtain ⟨req, r, hr⟩ := sent_socket hs ho h
      exact (hI.inside p.1).tasks _ (Office.replied_mem hr) id rfl
    · exact Or.inl h
  exact hI.here id (hin.resolve_right hl) hl

end Step

end SyncGateway
end WatchParty
