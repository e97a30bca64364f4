import WatchParty.Gateway.Controller
import WatchParty.Gateway.Occupied

/-!
# Succession on one instance

Who controls a room without guest control, on one instance. A leave compares user ids and takes its candidate from an
answer of `fetchSockets`; the creator takes the control back when a join of theirs completes. The right person is in
control at every quiescent state as long as every leave uses a current answer, a tab that the creator closes is not
followed by a promotion over their other tabs, and a controller does not leave an empty room to be entered by another
user (`Orderly`).

- `Steered` is the invariant, `Steered.step` the step lemma;
- `right_controller` is the result, `two_tabs` a run in which a tab of the creator's closes.
-/

namespace WatchParty
namespace SyncGateway

/-- A user has a socket in the room. -/
def Connected (auth : String → AuthedSocketData) (w : World) (userId : String) : Prop :=
  ∃ id ∈ w.sockets, (auth id).userId = userId

instance (auth : String → AuthedSocketData) (w : World) (userId : String) : Decidable (Connected auth w userId) :=
  inferInstanceAs (Decidable (∃ id ∈ w.sockets, _))

section Events

variable {I : Type} (auth : String → AuthedSocketData) (row : RoomRow)

/-- The leave that an event decides, and the sockets it was told of. -/
def departed? (e : Event I) : Option (I × String × List String) :=
  match e.pre.replied e.act with
  | some (i, ⟨.leaveFetch id, sockets⟩) => some (i, id, sockets)
  | _ => none

/-- The join that an event takes out of the gate. -/
def hydrated? (e : Event I) : Option String :=
  match e.pre.replied e.act with
  | some (_, ⟨.joinInit id _, _⟩) => some id
  | _ => none

/-- The socket that an event takes out of the room without a leave. -/
def dropped? (e : Event I) : Option String :=
  match e.pre.executed e.act with
  | some (_, .dropped id) => some id
  | _ => none

/-- A leave of a controller is decided. -/
def controllerLeft (e : Event I) : Bool :=
  match departed? e with
  | some (i, id, _) =>
    decide ((auth id).userId = row.creatorId) || decide ((e.pre.node i).loc.controller = some (auth id).userId)
  | none => false

/-- A controller has left, and the creator has not been in the room since. -/
def orphaned (tr : List (Event I)) : Bool :=
  tr.foldl (fun b e => !decide (Connected auth e.post.shared row.creatorId) && (b || controllerLeft auth row e)) false

theorem orphaned_snoc (tr : List (Event I)) (e : Event I) :
    orphaned auth row (tr ++ [e]) = true ↔
      ¬Connected auth e.post.shared row.creatorId ∧ (orphaned auth row tr = true ∨ controllerLeft auth row e = true) := by
  simp [orphaned]

end Events

variable (auth : String → AuthedSocketData) (row : RoomRow)

/-- What an event may do after `tr`: a leave is told of the sockets that are in the room; a tab that the creator closes
promotes nobody while the creator has another; the creator's join ends while its socket is there; a socket of the room
is closed by a leave; nobody is let into a released room that a controller has left before the creator is back; guests
are not given the control. -/
structure Orderly (tr : List (Event Unit)) (e : Event Unit) : Prop where
  current : ∀ c ∈ departed? e, c.2.2 = e.pre.shared.sockets
  tabs : ∀ c ∈ departed? e, (auth c.2.1).userId = row.creatorId → Connected auth e.pre.shared row.creatorId →
    candidate auth c.2.2 = some row.creatorId
  present : ∀ id ∈ hydrated? e, (auth id).userId = row.creatorId → id ∈ e.pre.shared.sockets
  leaves : ∀ id ∈ dropped? e, id ∉ e.pre.shared.sockets
  entered : (e.pre.node ()).loc.roomMeta.isNone → (e.post.node ()).loc.roomMeta.isSome → orphaned auth row tr = false
  guestless : patched? e ≠ some true

instance (tr : List (Event Unit)) (e : Event Unit) : Decidable (Orderly auth row tr e) :=
  decidable_of_iff
    ((∀ c ∈ departed? e, c.2.2 = e.pre.shared.sockets) ∧
      (∀ c ∈ departed? e, (auth c.2.1).userId = row.creatorId → Connected auth e.pre.shared row.creatorId →
        candidate auth c.2.2 = some row.creatorId) ∧
      (∀ id ∈ hydrated? e, (auth id).userId = row.creatorId → id ∈ e.pre.shared.sockets) ∧
      (∀ id ∈ dropped? e, id ∉ e.pre.shared.sockets) ∧
      ((e.pre.node ()).loc.roomMeta.isNone → (e.post.node ()).loc.roomMeta.isSome → orphaned auth row tr = false) ∧
      patched? e ≠ some true)
    ⟨fun ⟨h1, h2, h3, h4, h5, h6⟩ => ⟨h1, h2, h3, h4, h5, h6⟩, fun h =>
      ⟨h.current, h.tabs, h.present, h.leaves, h.entered, h.guestless⟩⟩

/-- No handler is under way. -/
def Quiescent (s : State Unit) : Prop := (s.node ()).tasks = [] ∧ (s.node ()).queue = []

/-- The instance lets the user control. -/
def Admitted (s : State Unit) (userId : String) : Prop :=
  ∃ m ∈ (s.node ()).loc.roomMeta, TimelineService.allowedToControl m userId = true

instance (s : State Unit) (userId : String) : Decidable (Admitted s userId) :=
  inferInstanceAs (Decidable (∃ m ∈ (s.node ()).loc.roomMeta, _))

/-- The right person is in control of an occupied room: nobody but the creator when the creator is there, and exactly
one connected user besides the creator when a controller has left since the creator was there. -/
def RightController (tr : List (Event Unit)) (s : State Unit) : Prop :=
  Quiescent s → s.shared.sockets ≠ [] →
    (Connected auth s.shared row.creatorId → ∀ u, Admitted s u → u = row.creatorId) ∧
    (orphaned auth row tr = true →
      ∃ u, u ≠ row.creatorId ∧ Admitted s u ∧ Connected auth s.shared u ∧
        ∀ v, v ≠ row.creatorId → Admitted s v → v = u)

/-! ## What is still to come -/

/-- The socket whose leave is still to be decided, at a task. -/
def leaving : Pending Reply → Option String
  | ⟨.leaveSocket id, some _⟩ => some id
  | ⟨.leaveFetch id, _⟩ => some id
  | _ => none

/-- The socket whose join is still to take the control back, at a task. -/
def rejoining : Pending Reply → Option String
  | ⟨.joinSocket id _, some _⟩ => some id
  | ⟨.joinInit id _, _⟩ => some id
  | _ => none

def Leaving (d : Desk Local Gated Reply) (userId : String) : Prop :=
  ∃ t ∈ d.tasks, ∃ id, leaving t = some id ∧ (auth id).userId = userId

def Rejoining (d : Desk Local Gated Reply) (id : String) : Prop :=
  (∃ t ∈ d.tasks, rejoining t = some id) ∨ ∃ room, .ensure id room ∈ d.queue

/-- A release is on its way to the settings. -/
def Releasing (d : Desk Local Gated Reply) : Prop :=
  (∃ id, .release id ∈ d.queue) ∨ ∃ t ∈ d.tasks, ∃ id, t.point = .releaseGet id

variable {auth row}

section Steps

variable {I : Type} [DecidableEq I] {s s' : State I} {m : Move I Request Choice Env} {o : Shown I Emit} {j : I}

theorem Leaving.step {u : String} (hs : Tasks.Step (system auth row) s m o s') (h : Leaving auth (s.node j) u) :
    Leaving auth (s'.node j) u ∨ ∃ id sockets, s.replied m = some (j, ⟨.leaveFetch id, sockets⟩) ∧ (auth id).userId = u := by
  obtain ⟨t, ht, id, hl, hu⟩ := h
  rcases Tasks.tasks_keep hs ht with ht | ⟨a, x, -, rfl, -, ht⟩ | ⟨d, a, r, hr, rfl, -, hd⟩
  · exact Or.inl ⟨t, ht, id, hl, hu⟩
  · cases a with
    | leaveFetch id' => exact Or.inl ⟨_, ht, id, hl, hu⟩
    | _ => cases hl
  · cases a with
    | leaveSocket id' =>
      cases hl
      refine Or.inl ⟨⟨.leaveFetch id, none⟩, ?_, id, rfl, hu⟩
      rw [hd]
      exact Desk.mem_tasks_await rfl
    | leaveFetch id' =>
      cases hl
      exact Or.inr ⟨id, r, hr, hu⟩
    | _ => cases hl

theorem Rejoining.step {id : String} (hs : Tasks.Step (system auth row) s m o s') (h : Rejoining (s.node j) id) :
    Rejoining (s'.node j) id ∨ ∃ room tl, s.replied m = some (j, ⟨.joinInit id room, tl⟩) := by
  rcases h with ⟨t, ht, hl⟩ | ⟨room, hq⟩
  · rcases Tasks.tasks_keep hs ht with ht | ⟨a, x, -, rfl, -, ht⟩ | ⟨d, a, r, hr, rfl, -, hd⟩
    · exact Or.inl (Or.inl ⟨t, ht, hl⟩)
    · cases a with
      | joinInit id' room => exact Or.inl (Or.inl ⟨_, ht, hl⟩)
      | _ => cases hl
    · cases a with
      | joinSocket id' room =>
        cases hl
        exact Or.inl (Or.inr ⟨room, by rw [hd]; exact Desk.mem_queue_queued rfl⟩)
      | joinInit id' room =>
        cases hl
        exact Or.inr ⟨room, r, hr⟩
      | _ => cases hl
  · rcases Tasks.queue_keep hs hq with hq | ⟨d, -, -, hd⟩
    · exact Or.inl (Or.inr ⟨room, hq⟩)
    · exact Or.inl (Or.inl ⟨⟨.joinInit id room, none⟩, by rw [hd]; exact Desk.mem_tasks_await rfl, rfl⟩)

theorem Releasing.step (hs : Tasks.Step (system auth row) s m o s') (h : Releasing (s.node j)) :
    Releasing (s'.node j) ∨ (s'.node j).loc.roomMeta = none := by
  rcases h with ⟨id, hq⟩ | ⟨t, ht, id, hp⟩
  · rcases Tasks.queue_keep hs hq with hq | ⟨d, -, -, hd⟩
    · exact Or.inl (Or.inl ⟨id, hq⟩)
    · exact Or.inl (Or.inr ⟨⟨.releaseGet id, none⟩, by rw [hd]; exact Desk.mem_tasks_await rfl, id, rfl⟩)
  · rcases Tasks.tasks_keep hs ht with ht | ⟨a, x, -, rfl, -, ht⟩ | ⟨d, a, r, hr, rfl, -, hd⟩
    · exact Or.inl (Or.inr ⟨t, ht, id, hp⟩)
    · exact Or.inl (Or.inr ⟨_, ht, id, hp⟩)
    · right
      obtain rfl : a = _ := hp
      rw [hd, Desk.after_loc]
      rfl

/-- An empty answer puts a release in the queue. -/
theorem releasing_of_empty {id : String} (hs : Tasks.Step (system auth row) s m o s')
    (hr : s.replied m = some (j, ⟨.leaveFetch id, []⟩)) : Releasing (s'.node j) := by
  obtain ⟨d, hd, -, -, -⟩ := Tasks.replied_step hs hr
  refine Or.inl ⟨id, ?_⟩
  rw [hd]
  exact Desk.mem_queue_queued rfl

end Steps

/-! ## The invariant -/

variable (auth row) in
/-- What a run keeps. -/
structure Steered (tr : List (Event Unit)) (s : State Unit) : Prop where
  guestless : Guestless row s
  tracked : Tracked tr s
  occupied : Occupied auth row tr s
  connected : ∀ u, (s.node ()).loc.controller = some u →
    Connected auth s.shared u ∨ Leaving auth (s.node ()) u ∨ Releasing (s.node ())
  reclaim : ∀ id ∈ s.shared.sockets, (auth id).userId = row.creatorId →
    (s.node ()).loc.controller = none ∨ Rejoining (s.node ()) id
  orphan : orphaned auth row tr = true →
    (s.node ()).loc.controller ≠ none ∨ Releasing (s.node ()) ∨ (s.node ()).loc.roomMeta = none
  away : orphaned auth row tr = true → ¬Connected auth s.shared row.creatorId

section Step

variable {tr : List (Event Unit)} {e : Event Unit}

theorem departed_of {id : String} {sockets : List String} {j : Unit}
    (h : e.pre.replied e.act = some (j, ⟨.leaveFetch id, sockets⟩)) : departed? e = some (j, id, sockets) := by
  simp only [departed?, h]

theorem Orderly.vacant (ho : Orderly auth row tr e) : Vacant e := by
  intro id h
  unfold emptied? at h
  split at h
  · rename_i j id' hr
    exact (ho.current _ (departed_of hr)).symm
  · cases h

/-- A snapshot that is used is current. -/
theorem Orderly.snapshot (ho : Orderly auth row tr e) {id : String} {sockets : List String} {j : Unit}
    (h : e.pre.replied e.act = some (j, ⟨.leaveFetch id, sockets⟩)) : sockets = e.pre.shared.sockets :=
  ho.current _ (departed_of h)

/-- The candidate of a snapshot that is used is connected after it. -/
theorem Orderly.connected_candidate (ho : Orderly auth row tr e)
    (hs : Tasks.Step (system auth row) e.pre e.act e.out e.post) {id c : String} {sockets : List String} {j : Unit}
    (h : e.pre.replied e.act = some (j, ⟨.leaveFetch id, sockets⟩)) (hc : candidate auth sockets = some c) :
    Connected auth e.post.shared c := by
  obtain ⟨d, -, -, -, hsh⟩ := Tasks.replied_step hs h
  rw [hsh, Connected, ← ho.snapshot h]
  exact candidate_mem hc

/-- A user whose socket is taken out of the room is leaving. -/
theorem Connected.step {u : String} (ho : Orderly auth row tr e)
    (hs : Tasks.Step (system auth row) e.pre e.act e.out e.post) (h : Connected auth e.pre.shared u) :
    Connected auth e.post.shared u ∨ Leaving auth (e.post.node ()) u := by
  obtain ⟨id, hid, hu⟩ := h
  rcases sockets_step hs hid with h | ⟨j, a, hx, ha⟩
  · exact Or.inl ⟨id, h, hu⟩
  · cases a with
    | dropped id' =>
      cases ha
      exact absurd hid (ho.leaves id (by simp only [dropped?, hx]; rfl))
    | leaveSocket id' =>
      cases ha
      obtain ⟨x, -, ht⟩ := Tasks.executed_step hs hx
      exact Or.inr ⟨_, ht, id, rfl, hu⟩
    | _ => cases ha

/-- What a leave of a controller that is told of sockets leaves: the candidate is in control, or it is the user that
departed, and nothing has changed. -/
theorem Steered.departure (hI : Steered auth row tr e.pre) (hrow : row.allowGuestControl = false)
    (hs : Tasks.Step (system auth row) e.pre e.act e.out e.post) {id c : String} {sockets : List String}
    (h : e.pre.replied e.act = some ((), ⟨.leaveFetch id, sockets⟩)) (hne : sockets ≠ [])
    (hc : candidate auth sockets = some c) {m : RoomMeta} (hm : (e.pre.node ()).loc.roomMeta = some m)
    (hctl : (auth id).userId = row.creatorId ∨ (e.pre.node ()).loc.controller = some (auth id).userId) :
    (e.post.node ()).loc.controller = some c ∨
      c = (auth id).userId ∧ (e.post.node ()).loc.controller = (e.pre.node ()).loc.controller := by
  obtain ⟨d, hd, -, -, -⟩ := Tasks.replied_step hs h
  obtain ⟨hcr, hg⟩ := hI.guestless.settings hm
  have hloc : (e.post.node ()).loc =
      (TimelineService.succession (auth id).userId (candidate auth sockets) (e.pre.node ()).loc).2 := by
    rw [hd, Desk.after_loc]
    simp only [system, resume, if_neg hne, await]
  rw [controller_of_meta hm] at hctl
  by_cases hcu : c = (auth id).userId
  · refine Or.inr ⟨hcu, ?_⟩
    rw [hloc]
    rcases TimelineService.succession_cases (auth id).userId (candidate auth sockets) (e.pre.node ()).loc with
      he | ⟨m', c', -, hc', -, -, hne', -⟩
    · rw [he]
    · rw [hc] at hc'
      cases hc'
      exact absurd hcu hne'
  · left
    rw [hloc, hc, TimelineService.succession_promotes hm (hg.trans hrow) (hctl.imp_left fun h => h.trans hcr.symm) hcu]
    rfl

theorem Steered.connected_step (hI : Steered auth row tr e.pre) (hrow : row.allowGuestControl = false)
    (ho : Orderly auth row tr e) (hs : Tasks.Step (system auth row) e.pre e.act e.out e.post) (u : String)
    (hu : (e.post.node ()).loc.controller = some u) :
    Connected auth e.post.shared u ∨ Leaving auth (e.post.node ()) u ∨ Releasing (e.post.node ()) := by
  rcases controller_cases hs hI.guestless () with he | ⟨id, room, tl, -, -, -, hnone, -⟩ | ⟨id, r, -, hnone⟩ |
    ⟨id, sockets, c, hr, -, hc, -, -, hpc, -⟩
  · rw [he] at hu
    rcases hI.connected u hu with h | h | h
    · exact (h.step ho hs).imp_right Or.inl
    · rcases h.step hs with h | ⟨id, sockets, hr, hid⟩
      · exact Or.inr (Or.inl h)
      · by_cases hne : sockets = []
        · subst hne
          exact Or.inr (Or.inr (releasing_of_empty hs hr))
        · obtain ⟨c, hc⟩ : ∃ c, candidate auth _ = some c := candidate_isSome hne
          obtain ⟨m, hm⟩ : ∃ m, (e.pre.node ()).loc.roomMeta = some m := by
            cases hm : (e.pre.node ()).loc.roomMeta with
            | none => rw [controller_of_none hm] at hu; cases hu
            | some m => exact ⟨m, rfl⟩
          left
          have hcu : c = u := by
            rcases hI.departure hrow hs hr hne hc hm (Or.inr (hid.symm ▸ hu)) with h | ⟨h, -⟩
            · rw [he, hu] at h
              exact (Option.some.inj h).symm
            · exact h.trans hid
          exact hcu ▸ ho.connected_candidate hs hr hc
    · rcases h.step hs with h | h
      · exact Or.inr (Or.inr h)
      · rw [he.symm, controller_of_none h] at hu
        cases hu
  · rw [hnone] at hu
    cases hu
  · rw [controller_of_none hnone] at hu
    cases hu
  · rw [hpc] at hu
    cases hu
    exact Or.inl (ho.connected_candidate hs hr hc)

theorem Steered.reclaim_step (hI : Steered auth row tr e.pre) (ho : Orderly auth row tr e)
    (hs : Tasks.Step (system auth row) e.pre e.act e.out e.post) {id : String} (hid : id ∈ e.post.shared.sockets)
    (hu : (auth id).userId = row.creatorId) :
    (e.post.node ()).loc.controller = none ∨ Rejoining (e.post.node ()) id := by
  rcases sockets_from hs hid with hid | ⟨⟨j, room, hx⟩, -⟩
  · rcases hI.reclaim id hid hu with hnone | h
    · rcases controller_cases hs hI.guestless () with he | ⟨_, _, _, -, -, -, h, -⟩ | ⟨_, _, -, h⟩ |
        ⟨id', sockets, c, hr, -, hc, hne, hctl, -, -⟩
      · exact Or.inl (he.trans hnone)
      · exact Or.inl h
      · exact Or.inl (controller_of_none h)
      · -- a tab of the creator's closes: the candidate is the creator again
        rw [hnone] at hctl
        have hcr : (auth id').userId = row.creatorId := hctl.resolve_right (nomatch ·)
        have hcand := ho.tabs _ (departed_of hr) hcr ⟨id, hid, hu⟩
        rw [hc] at hcand
        exact absurd ((Option.some.inj hcand).trans hcr.symm) hne
    · rcases h.step hs with h | ⟨room, tl, hr⟩
      · exact Or.inr h
      · left
        obtain ⟨d, hd, -, -, -⟩ := Tasks.replied_step hs hr
        have hloc : (e.post.node ()).loc = (TimelineService.reclaim (auth id).userId (e.pre.node ()).loc).2 := by
          rw [hd, Desk.after_loc]
          rfl
        rw [hloc]
        rcases TimelineService.reclaim_cases (auth id).userId (e.pre.node ()).loc with ⟨he, hm⟩ | ⟨m, -, -, -, he⟩
        · rw [he]
          cases hmeta : (e.pre.node ()).loc.roomMeta with
          | none => exact controller_of_none hmeta
          | some m =>
            rw [controller_of_meta hmeta]
            exact hm m hmeta (hu.trans (hI.guestless.settings hmeta).1.symm)
        · rw [he]
          rfl
  · obtain ⟨x, -, ht⟩ := Tasks.executed_step hs hx
    exact Or.inr (Or.inl ⟨_, ht, rfl⟩)

theorem Steered.orphan_step (hI : Steered auth row tr e.pre) (hrow : row.allowGuestControl = false)
    (ho : Orderly auth row tr e) (hs : Tasks.Step (system auth row) e.pre e.act e.out e.post)
    (h : orphaned auth row (tr ++ [e]) = true) :
    (e.post.node ()).loc.controller ≠ none ∨ Releasing (e.post.node ()) ∨ (e.post.node ()).loc.roomMeta = none := by
  obtain ⟨haway, h | h⟩ := (orphaned_snoc auth row tr e).mp h
  · rcases hI.orphan h with hc | hr | hm
    · rcases controller_cases hs hI.guestless () with he | ⟨id, room, tl, hr, hu, -⟩ | ⟨id, r, -, hm⟩ |
        ⟨id, sockets, c, -, -, -, -, -, hpc, -⟩
      · exact Or.inl (he ▸ hc)
      · have hid : id ∈ e.pre.shared.sockets := ho.present id (by simp only [hydrated?, hr]; rfl) hu
        exact absurd ⟨id, hid, hu⟩ (hI.away h)
      · exact Or.inr (Or.inr hm)
      · rw [hpc]
        exact Or.inl fun h => by cases h
    · exact Or.inr (hr.step hs)
    · right; right
      cases hm' : (e.post.node ()).loc.roomMeta with
      | none => rfl
      | some m =>
        have := ho.entered (by rw [hm]; rfl) (by rw [hm']; rfl)
        rw [h] at this
        cases this
  · unfold controllerLeft at h
    split at h
    · rename_i j id sockets hd
      have hr : e.pre.replied e.act = some ((), ⟨.leaveFetch id, sockets⟩) := by
        unfold departed? at hd
        split at hd
        · rename_i hr
          cases hd
          exact hr
        · cases hd
      have hctl : (auth id).userId = row.creatorId ∨ (e.pre.node ()).loc.controller = some (auth id).userId := by
        simpa using h
      by_cases hne : sockets = []
      · subst hne
        exact Or.inr (Or.inl (releasing_of_empty hs hr))
      · obtain ⟨c, hc⟩ : ∃ c, candidate auth _ = some c := candidate_isSome hne
        cases hm : (e.pre.node ()).loc.roomMeta with
        | none =>
          right; right
          obtain ⟨d, hd', -, -, -⟩ := Tasks.replied_step hs hr
          rw [hd', Desk.after_loc]
          simp only [system, resume, if_neg hne, await]
          rcases TimelineService.succession_cases (auth id).userId (candidate auth sockets) (e.pre.node ()).loc with
            he | ⟨m, -, hm', -⟩
          · rw [he]
            exact hm
          · rw [hm] at hm'
            cases hm'
        | some m =>
          left
          rcases hI.departure hrow hs hr hne hc hm hctl with hpc | ⟨hcu, he⟩
          · rw [hpc]
            exact fun h => by cases h
          · rw [he]
            rcases hctl with hcr | hctl
            · exact absurd (hcr ▸ hcu ▸ ho.connected_candidate hs hr hc) haway
            · rw [hctl]
              exact fun h => by cases h
    · cases h

/-- **One orderly step keeps the right person in control.** -/
theorem Steered.step (hrow : row.allowGuestControl = false) (ho : Orderly auth row tr e)
    (hs : Tasks.Step (system auth row) e.pre e.act e.out e.post) (hI : Steered auth row tr e.pre) :
    Steered auth row (tr ++ [e]) e.post where
  guestless := hI.guestless.step hs hrow ho.guestless
  tracked := hI.tracked.step hs
  occupied := hI.occupied.step hs ho.vacant
  connected := hI.connected_step hrow ho hs
  reclaim _ := hI.reclaim_step ho hs
  orphan := hI.orphan_step hrow ho hs
  away h := ((orphaned_snoc auth row tr e).mp h).1

end Step

theorem steered_init : Steered auth row [] (backend auth row).init where
  guestless := guestless_init
  tracked := tracked_init
  occupied := occupied_init
  connected _ h := nomatch h
  reclaim _ h := absurd h List.not_mem_nil
  orphan h := nomatch h
  away h := nomatch h

theorem steered (hrow : row.allowGuestControl = false) (ops : List (Move Unit Request Choice Env)) :
    Machine.Always (Orderly auth row) ((backend auth row).trace ops) →
      Steered auth row ((backend auth row).trace ops) ((backend auth row).run ops) :=
  Machine.invariant_always (backend auth row) steered_init
    (fun _ _ _ ho hI => Steered.step hrow ho (Tasks.event_cases _ _) hI) ops

/-- Who is admitted besides the creator is the promoted controller. -/
theorem Steered.admitted {tr : List (Event Unit)} {s : State Unit} (hI : Steered auth row tr s)
    (hrow : row.allowGuestControl = false) {u : String} (hu : u ≠ row.creatorId) :
    Admitted s u ↔ (s.node ()).loc.controller = some u := by
  constructor
  · rintro ⟨m, hm, ha⟩
    obtain ⟨hcr, hg⟩ := hI.guestless.settings hm
    rw [controller_of_meta hm]
    simpa [TimelineService.allowedToControl, hg, hrow, hcr, hu] using ha
  · intro hc
    obtain ⟨m, hm, hc⟩ := Option.bind_eq_some_iff.mp hc
    exact ⟨m, hm, by simp [TimelineService.allowedToControl, hc]⟩

/-- **The right person is in control** at every quiescent state of an orderly run. -/
theorem right_controller (hrow : row.allowGuestControl = false) (ops : List (Move Unit Request Choice Env))
    (h : Machine.Always (Orderly auth row) ((backend auth row).trace ops)) :
    RightController auth row ((backend auth row).trace ops) ((backend auth row).run ops) := by
  have hI := steered hrow ops h
  rintro ⟨htasks, hqueue⟩ hne
  have hquiet : ¬Releasing (((backend auth row).run ops).node ()) := by
    rintro (⟨id, hq⟩ | ⟨t, ht, -⟩)
    · rw [hqueue] at hq
      cases hq
    · rw [htasks] at ht
      cases ht
  refine ⟨fun ⟨id, hid, hu⟩ u ha => ?_, fun horphan => ?_⟩
  · by_contra hne'
    have hc := (hI.admitted hrow hne').mp ha
    rcases hI.reclaim id hid hu with hnone | ⟨t, ht, -⟩ | ⟨room, hq⟩
    · rw [hnone] at hc
      cases hc
    · rw [htasks] at ht
      cases ht
    · rw [hqueue] at hq
      cases hq
  · -- some socket is connected, so its join is complete, and the settings are there
    obtain ⟨id, hid⟩ := List.exists_mem_of_ne_nil _ hne
    have hjoined : Joined ((backend auth row).trace ops) id := by
      rcases hI.tracked.begun id hid with ⟨j, t, ht, -⟩ | ⟨j, room, hq⟩ | hj
      · rw [show (((backend auth row).run ops).node j).tasks = [] from htasks] at ht
        cases ht
      · rw [show (((backend auth row).run ops).node j).queue = [] from hqueue] at hq
        cases hq
      · exact hj
    have hstay : ¬Left ((backend auth row).trace ops) id := by
      intro hl
      rcases hI.tracked.left id hl with ⟨j, t, ht, -⟩ | hg
      · rw [show (((backend auth row).run ops).node j).tasks = [] from htasks] at ht
        cases ht
      · exact hI.tracked.gone id hg hid
    have hthere := (hI.occupied.settled id hstay (Or.inr hjoined)).there
    rcases hI.orphan horphan with hc | hr | hm
    · obtain ⟨u, hu⟩ := Option.ne_none_iff_exists'.mp hc
      have hconn : Connected auth ((backend auth row).run ops).shared u := by
        rcases hI.connected u hu with h | ⟨t, ht, -⟩ | hr
        · exact h
        · rw [htasks] at ht
          cases ht
        · exact absurd hr hquiet
      have hcr : u ≠ row.creatorId := fun h => hI.away horphan (h ▸ hconn)
      refine ⟨u, hcr, (hI.admitted hrow hcr).mpr hu, hconn, fun v hv ha => ?_⟩
      rw [(hI.admitted hrow hv).mp ha] at hu
      exact Option.some.inj hu
    · exact absurd hr hquiet
    · rw [hm] at hthere
      cases hthere

/-- Two tabs of the creator's, and a guest who joined between them. -/
def twoTabs (id : String) : AuthedSocketData :=
  if id = "tab1" then ⟨"creator", 0⟩ else if id = "tab2" then ⟨"creator", 2⟩ else ⟨id, 1⟩

/-- The creator closes one of two tabs, and the guest is promoted. -/
theorem two_tabs :
    ¬∀ (auth : String → AuthedSocketData) (row : RoomRow) (ops : List (Move Unit Request Choice Env)),
        row.allowGuestControl = false →
        RightController auth row ((backend auth row).trace ops) ((backend auth row).run ops) := by
  intro h
  have hright := h twoTabs quietRow
    (joining () 0 "tab1" ++ joining () 0 "guest" ++ joining () 0 "tab2" ++ departing () 0 "tab1") rfl
  have honly := (hright ⟨by decide +kernel, by decide +kernel⟩ (by decide +kernel)).1 (by decide +kernel) "guest"
    (by decide +kernel)
  exact absurd honly (by decide)

/-- The creator leaves for good, and the guest is promoted. -/
theorem right_controller_left :
    RightController namesake quietRow
      ((backend namesake quietRow).trace (joining () 0 "creator" ++ joining () 0 "guest" ++ departing () 0 "creator"))
      ((backend namesake quietRow).run (joining () 0 "creator" ++ joining () 0 "guest" ++ departing () 0 "creator")) :=
  right_controller rfl _ (by decide +kernel)

end SyncGateway
end WatchParty
