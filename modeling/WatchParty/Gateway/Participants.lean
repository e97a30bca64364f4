import WatchParty.Gateway.Presence
import WatchParty.Gateway.Succession

/-!
# Who is marked active

Presence is a row per user, joins and leaves are of sockets. A join marks its user active at its end, whatever has
become of the socket, and a leave marks its user inactive, whatever other sockets the user has in the room. So users are
marked as they should be as long as no leave ends while another socket of the user stays, no join ends after its socket
has gone, and no socket that is in the room is closed as one that is in none.

- `Enrolling`, `Retiring`: a join that will mark the user active, a leave that will mark it inactive;
- `InTime` is the condition on an event, `Enrolled` the invariant, `Enrolled.step` the step lemma;
- `presence_truthful` is the result, `presence_lost` a run in which closing one of two tabs takes the user away.
-/

namespace WatchParty
namespace SyncGateway

variable {I : Type} (auth : String → AuthedSocketData)

/-- The socket whose join has put it into the room, and has still to mark its user active. -/
def enrolling : Pending Reply → Option String
  | ⟨.joinSocket id _, some _⟩ => some id
  | ⟨.joinInit id _, _⟩ => some id
  | ⟨.joinUpsert id _, none⟩ => some id
  | _ => none

/-- The socket whose leave has still to mark its user inactive. -/
def retiring : Pending Reply → Option String
  | ⟨.leaveSocket id, _⟩ => some id
  | ⟨.leaveFetch id, _⟩ => some id
  | ⟨.releaseGet id, _⟩ => some id
  | ⟨.releaseClear id _, _⟩ => some id
  | ⟨.releasePersist id _ _, _⟩ => some id
  | ⟨.leaveRow id, none⟩ => some id
  | ⟨.leaveRow id, some true⟩ => some id
  | ⟨.leaveUpdate id, none⟩ => some id
  | _ => none

def Gated.leaver : Gated → Option String
  | .ensure _ _ => none
  | .release id => some id

/-- A join of a socket of the user has still to mark it active. -/
def Enrolling (s : State I) (userId : String) : Prop :=
  ∃ i, (∃ t ∈ (s.node i).tasks, ∃ id ∈ enrolling t, (auth id).userId = userId) ∨
    ∃ q ∈ (s.node i).queue, ∃ id ∈ q.joiner, (auth id).userId = userId

/-- A leave of a socket of the user has still to mark it inactive. -/
def Retiring (s : State I) (userId : String) : Prop :=
  ∃ i, (∃ t ∈ (s.node i).tasks, ∃ id ∈ retiring t, (auth id).userId = userId) ∨
    ∃ q ∈ (s.node i).queue, ∃ id ∈ q.leaver, (auth id).userId = userId

/-- The sockets whose users a call marks active, marks inactive, or which a call closes although its instance has them
in no room. -/
def Await.enrols? : Await → Option String
  | .joinUpsert id _ => some id
  | _ => none

def Await.retires? : Await → Option String
  | .leaveUpdate id => some id
  | _ => none

def Await.drops? : Await → Option String
  | .dropped id => some id
  | _ => none

/-- A join that ends finds a socket of its user in the room, or a leave of the user that is still to end. -/
def EnrolsPresent (e : Event I) : Prop :=
  ∀ id ∈ (call? e).bind Await.enrols?,
    Connected auth e.pre.shared (auth id).userId ∨ Retiring auth e.pre (auth id).userId

/-- A leave that ends finds no socket of its user in the room, or a join of the user that is still to end. -/
def RetiresAbsent (e : Event I) : Prop :=
  ∀ id ∈ (call? e).bind Await.retires?,
    ¬Connected auth e.pre.shared (auth id).userId ∨ Enrolling auth e.pre (auth id).userId

/-- A socket that is closed as one in no room is not the only one that an active user has in the room, unless a leave of
the user is still to end. -/
def DropsSpare (e : Event I) : Prop :=
  ∀ id ∈ (call? e).bind Await.drops?, id ∈ e.pre.shared.sockets → (auth id).userId ∈ e.pre.shared.active →
    (∃ id' ∈ e.pre.shared.sockets, id' ≠ id ∧ (auth id').userId = (auth id).userId) ∨
      Retiring auth e.pre (auth id).userId

/-- Joins and leaves end in time. -/
def InTime (e : Event I) : Prop := EnrolsPresent auth e ∧ RetiresAbsent auth e ∧ DropsSpare auth e

section Decidable

variable [Fintype I] (s : State I) (e : Event I) (u : String)

instance : Decidable (Enrolling auth s u) := inferInstanceAs (Decidable (∃ _, _))

instance : Decidable (Retiring auth s u) := inferInstanceAs (Decidable (∃ _, _))

instance : Decidable (EnrolsPresent auth e) := inferInstanceAs (Decidable (∀ id ∈ _, _))

instance : Decidable (RetiresAbsent auth e) := inferInstanceAs (Decidable (∀ id ∈ _, _))

instance : Decidable (DropsSpare auth e) := inferInstanceAs (Decidable (∀ id ∈ _, _))

instance : Decidable (InTime auth e) := inferInstanceAs (Decidable (_ ∧ _))

end Decidable

/-- No handler runs. -/
def Still (s : State I) : Prop := ∀ i, (s.node i).tasks = [] ∧ (s.node i).queue = []

instance [Fintype I] (s : State I) : Decidable (Still s) := inferInstanceAs (Decidable (∀ _, _))

/-- A user is marked active exactly when it has a socket in the room. -/
def Truthful (s : State I) : Prop := ∀ u, u ∈ s.shared.active ↔ Connected auth s.shared u

variable {auth} {row : RoomRow} [DecidableEq I] {e : Event I} {u : String}

/-! ## Joins and leaves on their way -/

/-- A join goes on until it marks its user active. -/
theorem Enrolling.step (hs : Tasks.Step (system auth row) e.pre e.act e.out e.post) (h : Enrolling auth e.pre u) :
    Enrolling auth e.post u ∨ u ∈ e.post.shared.active := by
  obtain ⟨i, ⟨t, ht, id, hid, hu⟩ | ⟨q, hq, id, hid, hu⟩⟩ := h
  · rcases Tasks.tasks_keep hs ht with ht | ⟨a, x, hx, rfl, he, ht⟩ | ⟨d, a, r, -, rfl, -, hd⟩
    · exact Or.inl ⟨i, Or.inl ⟨t, ht, id, hid, hu⟩⟩
    · cases a with
      | joinInit id' room => exact Or.inl ⟨i, Or.inl ⟨_, ht, id, hid, hu⟩⟩
      | joinUpsert id' tl =>
        right
        cases hid
        rw [he, ← hu]
        simp only [system, exec]
        split
        · assumption
        · exact List.mem_append_right _ (List.mem_singleton_self _)
      | _ => cases hid
    · left
      cases a with
      | joinSocket id' room =>
        refine ⟨i, Or.inr ⟨.ensure id' room, ?_, id, hid, hu⟩⟩
        rw [hd]
        exact Desk.mem_queue_queued rfl
      | joinInit id' room =>
        refine ⟨i, Or.inl ⟨⟨.joinUpsert id' r, none⟩, ?_, id, hid, hu⟩⟩
        rw [hd]
        exact Desk.mem_tasks_await rfl
      | _ => cases hid
  · left
    rcases Tasks.queue_keep hs hq with hq | ⟨d, -, -, hd⟩
    · exact ⟨i, Or.inr ⟨q, hq, id, hid, hu⟩⟩
    · cases q with
      | ensure id' room =>
        refine ⟨i, Or.inl ⟨⟨.joinInit id' room, none⟩, ?_, id, hid, hu⟩⟩
        rw [hd]
        exact Desk.mem_tasks_await rfl
      | release id' => cases hid

/-- A leave goes on, in a room that exists, until it marks its user inactive. -/
theorem Retiring.step (hs : Tasks.Step (system auth row) e.pre e.act e.out e.post)
    (hrow : e.pre.shared.row.isSome = true) (h : Retiring auth e.pre u) :
    Retiring auth e.post u ∨ ∃ j id, e.pre.executed e.act = some (j, .leaveUpdate id) ∧ (auth id).userId = u := by
  obtain ⟨i, ⟨t, ht, id, hid, hu⟩ | ⟨q, hq, id, hid, hu⟩⟩ := h
  · rcases Tasks.tasks_keep hs ht with ht | ⟨a, x, hx, rfl, -, ht⟩ | ⟨d, a, r, -, rfl, -, hd⟩
    · exact Or.inl ⟨i, Or.inl ⟨t, ht, id, hid, hu⟩⟩
    · cases a with
      | leaveRow id' =>
        left
        refine ⟨i, Or.inl ⟨_, ht, id, ?_, hu⟩⟩
        simp only [system, exec, hrow]
        exact hid
      | leaveUpdate id' =>
        cases hid
        exact Or.inr ⟨i, id, hx, hu⟩
      | leaveSocket | leaveFetch | releaseGet | releaseClear | releasePersist =>
        exact Or.inl ⟨i, Or.inl ⟨_, ht, id, hid, hu⟩⟩
      | _ => cases hid
    · left
      have hawait : ∀ {b}, (resume auth a r (e.pre.node i).loc).next = .await b → retiring ⟨b, none⟩ = some id →
          Retiring auth e.post u := by
        intro b hn hb
        refine ⟨i, Or.inl ⟨⟨b, none⟩, ?_, id, hb, hu⟩⟩
        rw [hd]
        exact Desk.mem_tasks_await hn
      cases a with
      | leaveSocket id' => exact hawait rfl hid
      | leaveFetch id' =>
        by_cases hsock : r = []
        · refine ⟨i, Or.inr ⟨.release id', ?_, id, hid, hu⟩⟩
          rw [hd]
          exact Desk.mem_queue_queued (by simp only [system, resume, hsock]; rfl)
        · exact hawait (b := .leaveRow id') (by simp only [resume, if_neg hsock]; rfl) hid
      | releaseGet id' => exact hawait rfl hid
      | releaseClear id' timeline =>
        cases timeline with
        | none => exact hawait (b := .leaveRow id') rfl hid
        | some tl => exact hawait (b := .releasePersist id' tl r) rfl hid
      | releasePersist id' tl now => exact hawait (b := .leaveRow id') rfl hid
      | leaveRow id' =>
        cases r with
        | true => exact hawait (b := .leaveUpdate id') rfl hid
        | false => cases hid
      | _ => cases hid
  · left
    rcases Tasks.queue_keep hs hq with hq | ⟨d, -, -, hd⟩
    · exact ⟨i, Or.inr ⟨q, hq, id, hid, hu⟩⟩
    · cases q with
      | ensure id' room => cases hid
      | release id' =>
        refine ⟨i, Or.inl ⟨⟨.releaseGet id', none⟩, ?_, id, hid, hu⟩⟩
        rw [hd]
        exact Desk.mem_tasks_await rfl

/-! ## The invariant -/

/-- What a run keeps: a user with a socket in the room is active or will be, an active one has a socket in the room or
will be marked inactive, and the room exists. -/
structure Enrolled (auth : String → AuthedSocketData) (s : State I) : Prop where
  connected : ∀ u, Connected auth s.shared u → u ∈ s.shared.active ∨ Enrolling auth s u
  active : ∀ u ∈ s.shared.active, Connected auth s.shared u ∨ Retiring auth s u
  row : s.shared.row.isSome = true

/-- A user stays active until one of its leaves ends. -/
theorem active_keep (hs : Tasks.Step (system auth row) e.pre e.act e.out e.post) (h : u ∈ e.pre.shared.active) :
    u ∈ e.post.shared.active ∨ ∃ id, call? e = some (.leaveUpdate id) ∧ (auth id).userId = u := by
  rcases Tasks.shared_cases _ hs with ⟨j, a, x, hx, he⟩ | ⟨env, -, he⟩ | ⟨-, he⟩
  · rw [he]
    cases a with
    | joinUpsert id tl =>
      left
      simp only [system, exec]
      split
      · exact h
      · exact List.mem_append_left _ h
    | leaveUpdate id =>
      by_cases hu : (auth id).userId = u
      · exact Or.inr ⟨id, by simp only [call?, hx]; rfl, hu⟩
      · exact Or.inl (List.mem_filter.mpr ⟨h, by simpa using Ne.symm hu⟩)
    | _ => exact Or.inl h
  · rw [he]
    cases env <;> exact Or.inl h
  · rw [he]
    exact Or.inl h

/-- Who is active after a step was, or one of its joins has ended. -/
theorem enrolled_from (hs : Tasks.Step (system auth row) e.pre e.act e.out e.post) (h : u ∈ e.post.shared.active) :
    u ∈ e.pre.shared.active ∨ ∃ id, (call? e).bind Await.enrols? = some id ∧ (auth id).userId = u := by
  rcases Tasks.shared_cases _ hs with ⟨j, a, x, hx, he⟩ | ⟨env, -, he⟩ | ⟨-, he⟩
  · rw [he] at h
    cases a with
    | joinUpsert id tl =>
      simp only [system, exec] at h
      split at h
      · exact Or.inl h
      · rcases List.mem_append.mp h with h | h
        · exact Or.inl h
        · exact Or.inr ⟨id, by simp only [call?, hx]; rfl, (List.mem_singleton.mp h).symm⟩
    | leaveUpdate id => exact Or.inl (List.mem_filter.mp h).1
    | _ => exact Or.inl h
  · rw [he] at h
    cases env <;> exact Or.inl h
  · rw [he] at h
    exact Or.inl h

/-- A leave that has just ended leaves its user inactive. -/
theorem retired {j : I} {id : String} (hs : Tasks.Step (system auth row) e.pre e.act e.out e.post)
    (hx : e.pre.executed e.act = some (j, .leaveUpdate id)) : (auth id).userId ∉ e.post.shared.active := by
  obtain ⟨x, he, -⟩ := Tasks.executed_step hs hx
  rw [he]
  intro h
  have hne := (List.mem_filter.mp h).2
  simp at hne

theorem row_isSome_step (hs : Tasks.Step (system auth row) e.pre e.act e.out e.post)
    (h : e.pre.shared.row.isSome = true) : e.post.shared.row.isSome = true := by
  rcases Tasks.shared_cases _ hs with ⟨j, a, x, hx, he⟩ | ⟨env, -, he⟩ | ⟨-, he⟩
  · rw [he]
    cases a with
    | releasePersist | flushUpdate | patchUpdate =>
      simp only [system, exec, Option.isSome_map]
      exact h
    | _ => exact h
  · rw [he]
    cases env <;> exact h
  · rw [he]
    exact h

/-- A user who has a socket in the room keeps it, or has another, or its leave is under way, unless its only socket is
closed as one in no room. -/
theorem connected_keep (hs : Tasks.Step (system auth row) e.pre e.act e.out e.post) (hd : DropsSpare auth e)
    (hrow : e.pre.shared.row.isSome = true) (ha : u ∈ e.pre.shared.active) (h : Connected auth e.pre.shared u) :
    Connected auth e.post.shared u ∨ Retiring auth e.post u ∨ u ∉ e.post.shared.active := by
  have hretire : Retiring auth e.pre u → Retiring auth e.post u ∨ u ∉ e.post.shared.active := by
    intro h
    rcases h.step hs hrow with h | ⟨j, id, hx, rfl⟩
    · exact Or.inl h
    · exact Or.inr (retired hs hx)
  obtain ⟨id, hid, rfl⟩ := h
  rcases sockets_step hs hid with hid | ⟨j, a, hx, hclose⟩
  · exact Or.inl ⟨id, hid, rfl⟩
  · cases a with
    | leaveSocket id' =>
      cases hclose
      obtain ⟨x, -, ht⟩ := Tasks.executed_step hs hx
      exact Or.inr (Or.inl ⟨j, Or.inl ⟨_, ht, id, rfl, rfl⟩⟩)
    | dropped id' =>
      cases hclose
      rcases hd id (by simp only [call?, hx]; rfl) hid ha with ⟨id', hid', hne, hu⟩ | hret
      · left
        rcases sockets_step hs hid' with hid' | ⟨j', a', hx', hclose'⟩
        · exact ⟨id', hid', hu⟩
        · rw [hx] at hx'
          cases hx'
          cases hclose'
          exact absurd rfl hne
      · exact Or.inr (hretire hret)
    | _ => cases hclose

/-- One step, when joins and leaves end in time. -/
theorem Enrolled.step (hs : Tasks.Step (system auth row) e.pre e.act e.out e.post) (ht : InTime auth e)
    (hI : Enrolled auth e.pre) : Enrolled auth e.post where
  connected u h := by
    obtain ⟨id, hid, rfl⟩ := h
    rcases sockets_from hs hid with hold | ⟨⟨j, room, hx⟩, -⟩
    · have hcon : Connected auth e.pre.shared (auth id).userId := ⟨id, hold, rfl⟩
      rcases hI.connected _ hcon with ha | hen
      · rcases active_keep hs ha with ha | ⟨id', hc, hu⟩
        · exact Or.inl ha
        · rcases ht.2.1 id' (by rw [hc]; rfl) with hno | hen
          · rw [hu] at hno
            exact absurd hcon hno
          · rw [hu] at hen
            exact (hen.step hs).symm
      · exact (hen.step hs).symm
    · obtain ⟨x, -, hmem⟩ := Tasks.executed_step hs hx
      exact Or.inr ⟨j, Or.inl ⟨_, hmem, id, rfl, rfl⟩⟩
  active u h := by
    have hretire : Retiring auth e.pre u → Connected auth e.post.shared u ∨ Retiring auth e.post u := by
      intro hr
      rcases hr.step hs hI.row with hr | ⟨j, id, hx, rfl⟩
      · exact Or.inr hr
      · exact absurd h (retired hs hx)
    rcases enrolled_from hs h with ha | ⟨id, hc, rfl⟩
    · rcases hI.active u ha with hcon | hr
      · rcases connected_keep hs ht.2.2 hI.row ha hcon with hcon | hr | hn
        · exact Or.inl hcon
        · exact Or.inr hr
        · exact absurd h hn
      · exact hretire hr
    · rcases ht.1 id hc with ⟨id', hid', hu⟩ | hr
      · rcases sockets_step hs hid' with hid' | ⟨j, a, hx, hclose⟩
        · exact Or.inl ⟨id', hid', hu⟩
        · -- the call marks a user active, and closes no socket
          simp only [call?, hx] at hc
          cases a with
          | joinUpsert id tl => cases hclose
          | _ => cases hc
      · exact hretire hr
  row := row_isSome_step hs hI.row

theorem enrolled_init : Enrolled auth (backend (I := I) auth row).init where
  connected _ h := by
    obtain ⟨_, h, _⟩ := h
    cases h
  active _ h := nomatch h
  row := rfl

omit [DecidableEq I] in
/-- Where no handler runs, nothing is still to come. -/
theorem Enrolled.truthful {s : State I} (hI : Enrolled auth s) (h : Still s) : Truthful auth s := by
  intro u
  constructor
  · intro ha
    rcases hI.active u ha with hc | ⟨i, ⟨t, ht, -⟩ | ⟨q, hq, -⟩⟩
    · exact hc
    · rw [(h i).1] at ht
      cases ht
    · rw [(h i).2] at hq
      cases hq
  · intro hc
    rcases hI.connected u hc with ha | ⟨i, ⟨t, ht, -⟩ | ⟨q, hq, -⟩⟩
    · exact ha
    · rw [(h i).1] at ht
      cases ht
    · rw [(h i).2] at hq
      cases hq

/-- **Presence is truthful** where no handler runs, in every run in which joins and leaves end in time. -/
theorem presence_truthful (ops : List (Move I Request Choice Env))
    (h : ∀ e ∈ (backend auth row).trace ops, InTime auth e) :
    Still ((backend auth row).run ops) → Truthful auth ((backend auth row).run ops) := by
  have hI : Enrolled auth ((backend auth row).run ops) :=
    (backend auth row).invariant_forall (P := InTime auth) (I := fun _ s => Enrolled auth s) enrolled_init
      (fun _ s a hc hI => Enrolled.step (Tasks.event_cases s a) hc hI) ops h
  exact Enrolled.truthful hI

/-- Two sockets of one user. -/
def tabs (id : String) : AuthedSocketData := ⟨if id = "tab" then "ann" else id, 0⟩

/-- A user joins with two tabs and closes one of them. -/
theorem presence_lost :
    ¬∀ (auth : String → AuthedSocketData) (row : RoomRow) (ops : List (Move Unit Request Choice Env)),
        Still ((backend auth row).run ops) → Truthful auth ((backend auth row).run ops) := by
  intro h
  have ht := h tabs quietRow (joining () 0 "ann" ++ joining () 0 "tab" ++ departing () 0 "tab") (by decide +kernel)
  have hann : Connected tabs ((backend tabs quietRow).run
      (joining () 0 "ann" ++ joining () 0 "tab" ++ departing () 0 "tab")).shared "ann" := by decide +kernel
  exact absurd ((ht "ann").mpr hann) (by decide +kernel)

/-- Two users join, and one of them leaves. -/
theorem presence_truthful_left :
    Truthful namesake ((backend namesake quietRow).run
      (joining () 0 "ann" ++ joining () 0 "bob" ++ departing () 0 "bob")) :=
  presence_truthful _ (by decide +kernel) (by decide +kernel)

end SyncGateway
end WatchParty
