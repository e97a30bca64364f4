import Mathlib.Data.Fintype.Basic
import Mathlib.Data.Finset.Card
import Mathlib.Data.Finset.Union
import WatchParty.Gateway.Stages

/-!
# The capacity of a room

A join checks `maxUsers` against the participants that it reads with the row, and writes its own participant several
awaits later. So the limit holds as long as a join that is let in finds a seat that no other join under way will take.

- `seats` are the users that are active, or that a join under way will mark active;
- `Reserved` is the condition on an event, `Unchanged` says that no PATCH writes `maxUsers`;
- `Roomy` is the invariant, `Roomy.step` the step lemma;
- `capacity_holds` is the result, `capacity_exceeded` a run in which two joins take the last seat.
-/

namespace WatchParty
namespace SyncGateway

variable {I : Type} (auth : String → AuthedSocketData)

/-- The user whose join has passed the capacity check and has still to write its participant. -/
def admitted : Pending Reply → Option String
  | ⟨.joinRow id, some (some (room, active))⟩ =>
    if room.isActive && !isFull room active (auth id).userId then some (auth id).userId else none
  | ⟨.joinSocket id _, _⟩ => some (auth id).userId
  | ⟨.joinInit id _, _⟩ => some (auth id).userId
  | ⟨.joinUpsert id _, none⟩ => some (auth id).userId
  | _ => none

def Gated.admitted : Gated → Option String
  | .ensure id _ => some (auth id).userId
  | .release _ => none

/-- The users whose joins at a node have passed the check. -/
def arrivals (d : Desk Local Gated Reply) : List String :=
  d.tasks.filterMap (admitted auth) ++ d.queue.filterMap (Gated.admitted auth)

/-- The users that are active, or that a join under way will mark active. -/
def seats [Fintype I] (s : State I) : Finset String :=
  s.shared.active.toFinset ∪ Finset.univ.biUnion fun i => (arrivals auth (s.node i)).toFinset

/-- The socket whose join reads the row. -/
def Await.reader? : Await → Option String
  | .joinRow id => some id
  | _ => none

/-- A join that reads the row is refused, or finds a seat that no other user has or will take. -/
def Reserved [Fintype I] (m : ℕ) (e : Event I) : Prop :=
  ∀ id ∈ (call? e).bind Await.reader?,
    (∃ room ∈ e.pre.shared.row, isFull room e.pre.shared.active (auth id).userId = true) ∨
      ((seats auth e.pre).erase (auth id).userId).card < m

/-- What the write of a PATCH sets `maxUsers` to. -/
def Await.limit? : Await → Option ℕ
  | .patchUpdate data => data.maxUsers
  | _ => none

/-- No PATCH writes `maxUsers`. -/
def Unchanged (e : Event I) : Prop := (call? e).bind Await.limit? = none

instance [Fintype I] (m : ℕ) (e : Event I) : Decidable (Reserved auth m e) :=
  inferInstanceAs (Decidable (∀ id ∈ _, _))

instance (e : Event I) : Decidable (Unchanged e) := inferInstanceAs (Decidable (_ = _))

/-- At most `m` users are active, and the join of an active user is let in. -/
structure Bounded (m : ℕ) (w : World) : Prop where
  active : w.active.length ≤ m
  rejoin : ∀ id, (auth id).userId ∈ w.active → ∀ x l, ∃ room,
    (resume auth (.joinRow id) (exec auth (.joinRow id) x w).1 l).next = .await (.joinSocket id room)

variable {auth} {row : RoomRow}

theorem mem_seats [Fintype I] {s : State I} {u : String} :
    u ∈ seats auth s ↔ u ∈ s.shared.active ∨ ∃ i, (∃ t ∈ (s.node i).tasks, admitted auth t = some u) ∨
      ∃ q ∈ (s.node i).queue, q.admitted auth = some u := by
  simp [seats, arrivals]

/-! ## What one step does to the seats -/

section Stretches

variable {l : Local} {u : String}

theorem start_admitted {r : Request} {a : Await} (h : (start auth r l).next = .await a) :
    admitted auth ⟨a, none⟩ = none := by
  cases r
  all_goals
    simp only [start] at h
    repeat' split at h
    all_goals cases h
    all_goals rfl

/-- A handler goes on towards the write of its participant only where it was let in. -/
theorem resume_admitted {a b : Await} {r : Reply a} (h : (resume auth a r l).next = .await b)
    (hb : admitted auth ⟨b, none⟩ = some u) : admitted auth ⟨a, some r⟩ = some u := by
  cases a with
  | joinRow id =>
    cases r with
    | none => cases h
    | some found =>
      simp only [resume] at h
      split at h
      · cases h
      · rename_i hact
        split at h
        · cases h
        · rename_i hfull
          cases h
          simp only [admitted]
          rw [Bool.not_eq_true, Bool.not_eq_false'] at hact
          rw [if_pos (by simpa using And.intro hact hfull)]
          exact hb
  | _ =>
    simp only [resume] at h
    repeat' split at h
    all_goals cases h
    all_goals exact hb

theorem enter_admitted {q : Gated} {b : Await} (h : (enter q l).next = .await b)
    (hb : admitted auth ⟨b, none⟩ = some u) : q.admitted auth = some u := by
  rcases enter_next h with ⟨id, room, rfl, rfl⟩ | ⟨id, rfl, rfl⟩
  · exact hb
  · cases hb

end Stretches

/-- The row that a read finds lets the join of a socket in. -/
def LetIn (auth : String → AuthedSocketData) (w : World) (id : String) : Prop :=
  ∃ room ∈ w.row, room.isActive = true ∧ isFull room w.active (auth id).userId = false

/-- The reply to a call admits whom the call admitted, or the reader of the row. -/
theorem exec_admitted {a : Await} {x : Choice} {w : World} {u : String}
    (h : admitted auth ⟨a, some (exec auth a x w).1⟩ = some u) :
    admitted auth ⟨a, none⟩ = some u ∨ ∃ id, a = .joinRow id ∧ u = (auth id).userId ∧ LetIn auth w id := by
  cases a with
  | joinRow id =>
    right
    cases hr : w.row with
    | none =>
      simp only [exec, hr, Option.map_none] at h
      cases h
    | some room =>
      simp only [exec, hr, Option.map_some, admitted] at h
      split at h
      · rename_i hin
        cases h
        simp only [Bool.and_eq_true, Bool.not_eq_true'] at hin
        exact ⟨id, rfl, rfl, room, hr, hin.1, hin.2⟩
      · cases h
  | joinUpsert id tl => cases h
  | joinSocket | joinInit => exact Or.inl h
  | _ => cases h

/-- A user who is active after a call was active, or is the one whose participant the call writes. -/
theorem exec_active {a : Await} {x : Choice} {w : World} {u : String} (h : u ∈ (exec auth a x w).2.active) :
    u ∈ w.active ∨ admitted auth ⟨a, none⟩ = some u := by
  cases a with
  | joinUpsert id tl =>
    simp only [exec] at h
    split at h
    · exact Or.inl h
    · rcases List.mem_append.mp h with h | h
      · exact Or.inl h
      · rw [List.mem_singleton.mp h]
        exact Or.inr rfl
  | leaveUpdate id => exact Or.inl (List.mem_filter.mp h).1
  | _ => exact Or.inl h

theorem exec_active_nodup {a : Await} {x : Choice} {w : World} (h : w.active.Nodup) :
    (exec auth a x w).2.active.Nodup := by
  cases a with
  | joinUpsert id tl =>
    simp only [exec]
    split
    · exact h
    · rename_i hnot
      exact h.append (List.nodup_singleton _) (by simpa using hnot)
  | leaveUpdate id => exact h.filter _
  | _ => exact h

section Step

variable [DecidableEq I] {e : Event I} {u : String}

/-- Who has a seat after a step had one, or is let in by it. -/
theorem seats_step [Fintype I] (hs : Tasks.Step (system auth row) e.pre e.act e.out e.post)
    (h : u ∈ seats auth e.post) :
    u ∈ seats auth e.pre ∨ ∃ id, call? e = some (.joinRow id) ∧ u = (auth id).userId ∧ LetIn auth e.pre.shared id := by
  rw [mem_seats] at h
  have hpre : ∀ {i : I} {t : Pending Reply}, t ∈ (e.pre.node i).tasks → admitted auth t = some u →
      u ∈ seats auth e.pre := fun ht hu => mem_seats.mpr (Or.inr ⟨_, Or.inl ⟨_, ht, hu⟩⟩)
  have hqueue : ∀ {i : I} {q : Gated}, q ∈ (e.pre.node i).queue → q.admitted auth = some u →
      u ∈ seats auth e.pre := fun hq hu => mem_seats.mpr (Or.inr ⟨_, Or.inr ⟨_, hq, hu⟩⟩)
  rcases h with h | ⟨i, ⟨t, ht, hu⟩ | ⟨q, hq, hu⟩⟩
  · left
    rcases Tasks.shared_cases _ hs with ⟨j, a, x, hx, he⟩ | ⟨env, -, he⟩ | ⟨-, he⟩
    · rw [he] at h
      rcases exec_active h with h | h
      · exact mem_seats.mpr (Or.inl h)
      · exact hpre (Office.executed_mem hx) h
    · rw [he] at h
      cases env <;> exact mem_seats.mpr (Or.inl h)
    · rw [he] at h
      exact mem_seats.mpr (Or.inl h)
  · rcases Tasks.mem_tasks hs ht with ht | ⟨a, x, hx, hmem, rfl, -⟩ | ⟨d, v, a, hv, ha, rfl, -⟩
    · exact Or.inl (hpre ht hu)
    · rcases exec_admitted hu with hu | ⟨id, rfl, rfl, hin⟩
      · exact Or.inl (hpre hmem hu)
      · exact Or.inr ⟨id, by simp only [call?, hx]; rfl, rfl, hin⟩
    · left
      cases hv with
      | start r hm =>
        rw [start_admitted ha] at hu
        cases hu
      | resume pre post b r hm hc => exact hpre (Office.replied_mem hm) (resume_admitted ha hu)
      | enter q rest hm hq hfree =>
        exact hqueue (by rw [hq]; exact List.mem_cons_self) (enter_admitted ha hu)
  · left
    rcases queue_step hs i with he | ⟨id, room, hmem, he⟩ | ⟨id, -, he⟩
    · exact hqueue (he.subset hq) hu
    · rw [he] at hq
      rcases List.mem_append.mp hq with hq | hq
      · exact hqueue hq hu
      · rw [List.mem_singleton.mp hq] at hu
        exact hpre hmem hu
    · rw [he] at hq
      rcases List.mem_append.mp hq with hq | hq
      · exact hqueue hq hu
      · rw [List.mem_singleton.mp hq] at hu
        cases hu

/-- No step changes the limit or whether the room is active. -/
theorem limit_step {m : ℕ} {b : Bool} (hs : Tasks.Step (system auth row) e.pre e.act e.out e.post) (hu : Unchanged e)
    (h : ∃ r ∈ e.pre.shared.row, r.maxUsers = some m ∧ r.isActive = b) :
    ∃ r ∈ e.post.shared.row, r.maxUsers = some m ∧ r.isActive = b := by
  obtain ⟨r, hr, hm⟩ := h
  rcases Tasks.shared_cases _ hs with ⟨j, a, x, hx, he⟩ | ⟨env, -, he⟩ | ⟨-, he⟩
  · rw [he]
    cases a with
    | patchUpdate data =>
      have hn : data.maxUsers = none := by
        simp only [Unchanged, call?, hx] at hu
        exact hu
      refine ⟨updated data r, congrArg (Option.map _) hr, ?_⟩
      simp only [updated, hn, Option.none_or]
      exact hm
    | releasePersist id tl now => exact ⟨persisted tl now r, congrArg (Option.map _) hr, hm⟩
    | flushUpdate tl now => exact ⟨persisted tl now r, congrArg (Option.map _) hr, hm⟩
    | _ => exact ⟨r, hr, hm⟩
  · rw [he]
    cases env <;> exact ⟨r, hr, hm⟩
  · rw [he]
    exact ⟨r, hr, hm⟩

/-- What a run keeps: no more seats are taken than there are, and only in an active room. -/
structure Roomy [Fintype I] (auth : String → AuthedSocketData) (row : RoomRow) (m : ℕ) (s : State I) : Prop where
  seats : (seats auth s).card ≤ m
  nodup : s.shared.active.Nodup
  limit : ∃ r ∈ s.shared.row, r.maxUsers = some m ∧ r.isActive = row.isActive
  open_ : (SyncGateway.seats auth s).Nonempty → row.isActive = true

/-- One step, when every join finds a seat of its own. -/
theorem Roomy.step [Fintype I] {m : ℕ} (hs : Tasks.Step (system auth row) e.pre e.act e.out e.post)
    (hu : Unchanged e) (hr : Reserved auth m e) (hI : Roomy auth row m e.pre) : Roomy auth row m e.post where
  seats := by
    by_cases hin : ∃ id, call? e = some (.joinRow id) ∧ LetIn auth e.pre.shared id
    · obtain ⟨id, hc, room, hroom, -, hfree⟩ := hin
      have hlt : ((SyncGateway.seats auth e.pre).erase (auth id).userId).card < m := by
        rcases hr id (by rw [hc]; rfl) with ⟨room', hroom', hfull⟩ | hlt
        · cases hroom.symm.trans hroom'
          rw [hfree] at hfull
          cases hfull
        · exact hlt
      have hsub : SyncGateway.seats auth e.post ⊆
          insert (auth id).userId ((SyncGateway.seats auth e.pre).erase (auth id).userId) := by
        intro u h
        rw [Finset.mem_insert, Finset.mem_erase]
        rcases seats_step hs h with h | ⟨id', hc', rfl, -⟩
        · by_cases hid : u = (auth id).userId
          · exact Or.inl hid
          · exact Or.inr ⟨hid, h⟩
        · cases hc.symm.trans hc'
          exact Or.inl rfl
      have hcard := Finset.card_le_card hsub
      have hins := Finset.card_insert_le (auth id).userId ((SyncGateway.seats auth e.pre).erase (auth id).userId)
      omega
    · refine (Finset.card_le_card fun u h => ?_).trans hI.seats
      rcases seats_step hs h with h | ⟨id, hc, -, hlet⟩
      · exact h
      · exact absurd ⟨id, hc, hlet⟩ hin
  nodup := by
    rcases Tasks.shared_cases _ hs with ⟨j, a, x, hx, he⟩ | ⟨env, -, he⟩ | ⟨-, he⟩
    · rw [he]
      exact exec_active_nodup hI.nodup
    · rw [he]
      cases env <;> exact hI.nodup
    · rw [he]
      exact hI.nodup
  limit := limit_step hs hu hI.limit
  open_ := by
    rintro ⟨u, h⟩
    rcases seats_step hs h with h | ⟨id, -, -, room, hroom, hact, -⟩
    · exact hI.open_ ⟨u, h⟩
    · obtain ⟨r, hr, -, hb⟩ := hI.limit
      cases hroom.symm.trans hr
      rw [← hb, hact]

omit [DecidableEq I] in
/-- Where no more seats are taken than there are, an active user is not counted against the limit. -/
theorem Roomy.bounded [Fintype I] {m : ℕ} {s : State I} (hI : Roomy auth row m s) : Bounded auth m s.shared := by
  have hle : s.shared.active.length ≤ m := by
    rw [← List.toFinset_card_of_nodup hI.nodup]
    exact (Finset.card_le_card Finset.subset_union_left).trans hI.seats
  refine ⟨hle, fun id hid x l => ?_⟩
  obtain ⟨r, hr, hm, hact⟩ := hI.limit
  have hopen : r.isActive = true := hact.trans (hI.open_ ⟨_, mem_seats.mpr (Or.inl hid)⟩)
  have hothers : (s.shared.active.filter (· ≠ (auth id).userId)).length < s.shared.active.length := by
    refine List.length_filter_lt_length_iff_exists.mpr ⟨_, hid, ?_⟩
    simp
  have hfull : isFull r s.shared.active (auth id).userId = false := by
    simp only [isFull, hm, decide_eq_false_iff_not, not_and, not_le]
    omega
  refine ⟨r, ?_⟩
  rw [Option.mem_def] at hr
  simp [exec, hr, resume, hopen, hfull, await]

theorem roomy_init [Fintype I] {m : ℕ} (h : row.maxUsers = some m) :
    Roomy auth row m (backend (I := I) auth row).init where
  seats := by
    have hnone : SyncGateway.seats auth (backend (I := I) auth row).init = ∅ := by
      rw [Finset.eq_empty_iff_forall_notMem]
      intro u hu
      rcases mem_seats.mp hu with hu | ⟨i, ⟨t, ht, -⟩ | ⟨q, hq, -⟩⟩
      · cases hu
      · cases ht
      · cases hq
    rw [hnone]
    exact Nat.zero_le m
  nodup := List.nodup_nil
  limit := ⟨row, rfl, h, rfl⟩
  open_ := by
    rintro ⟨u, h⟩
    simp [SyncGateway.seats, backend, Tasks.machine, Tasks.init, system, arrivals] at h

end Step

/-- **Capacity holds** in every run in which a join that is let in finds a seat that no other user has or will take: at
most `maxUsers` users are active, and an active user can always join again. -/
theorem capacity_holds [DecidableEq I] [Fintype I] {m : ℕ} (hm : row.maxUsers = some m)
    (ops : List (Move I Request Choice Env))
    (h : ∀ e ∈ (backend auth row).trace ops, Unchanged e ∧ Reserved auth m e) :
    Bounded auth m ((backend auth row).run ops).shared := by
  have hI : Roomy auth row m ((backend auth row).run ops) := by
    refine (backend auth row).invariant_forall (P := fun e => Unchanged e ∧ Reserved auth m e)
      (I := fun _ s => Roomy auth row m s) (roomy_init hm) (fun tr s a hc hI => ?_) ops h
    obtain ⟨hu, hr⟩ := hc
    exact Roomy.step (Tasks.event_cases s a) hu hr hI
  exact hI.bounded

/-- A room for two. -/
def smallRow : RoomRow := { quietRow with maxUsers := some 2 }

/-- Three joins up to the read of the row, and then to the end. -/
def crowding : List (Move Unit Request Choice Env) :=
  [.start () (.joinRoom "ann"), .start () (.joinRoom "bob"), .start () (.joinRoom "cat"), .exec () 0 ⟨0, 0⟩,
    .exec () 1 ⟨0, 0⟩, .exec () 2 ⟨0, 0⟩, .deliver () 0, .deliver () 0, .deliver () 0] ++
  answer () 0 ++ answer () 0 ++ answer () 0 ++ .enter () :: answer () 0 ++ .enter () :: answer () 1 ++
  .enter () :: answer () 2 ++ answer () 0 ++ answer () 0 ++ answer () 0

/-- Three joins that read the row before any of them has written its participant exceed a limit of two. -/
theorem capacity_exceeded :
    ¬∀ (auth : String → AuthedSocketData) (row : RoomRow) (m : ℕ) (ops : List (Move Unit Request Choice Env)),
        row.maxUsers = some m → (∀ e ∈ (backend auth row).trace ops, Unchanged e) →
        Bounded auth m ((backend auth row).run ops).shared := by
  intro h
  have hb := h namesake smallRow 2 crowding rfl (by decide +kernel)
  exact absurd hb.active (by decide +kernel)

/-- The joins come one after the other, and the third is refused. -/
theorem capacity_holds_queued :
    Bounded namesake 2 ((backend namesake smallRow).run
      (joining () 0 "ann" ++ joining () 0 "bob" ++ .start () (.joinRoom "cat") :: answer () 0)).shared :=
  capacity_holds rfl _ (by decide +kernel)

end SyncGateway
end WatchParty
