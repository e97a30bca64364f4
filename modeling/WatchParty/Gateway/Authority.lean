import Mathlib.Data.Fintype.Basic
import WatchParty.Gateway.Controller

/-!
# Authority across instances

A `room:controller` event goes to the sockets of the room on every instance; the authority that it announces is
recorded in the map of one instance. So the event and the instances agree as long as the promoted user is connected to
the instance that announced the promotion and the displaced user is recorded nowhere else (`Placed`).

- `Agreed` says what an event means; `Recorded` is the invariant, `Recorded.step` the step lemma;
- `authority_agrees` is the result, `promoted_elsewhere` a run on two instances in which the promoted user is refused.
-/

namespace WatchParty
namespace SyncGateway

/-- A `room:controller` event: the instance, and the user whom it promoted or displaced. -/
inductive Announcement (I : Type)
  | succession (i : I) (userId : String)
  | reclaim (i : I) (userId : String)
  deriving DecidableEq

variable {I : Type}

/-- The instance that promoted somebody, and whom. -/
def Announcement.promotion : Announcement I → Option (I × String)
  | .succession i userId => some (i, userId)
  | .reclaim _ _ => none

/-- The instance that displaced somebody, and whom. -/
def Announcement.displacement : Announcement I → Option (I × String)
  | .succession _ _ => none
  | .reclaim i userId => some (i, userId)

/-- What an event announces. -/
def announced? (e : Event I) : Option (Announcement I) :=
  match e.out with
  | some (i, [.controller userId .succession]) => some (.succession i userId)
  | some (i, [.controller _ .reclaim]) => (e.pre.node i).loc.controller.map (.reclaim i)
  | _ => none

/-- The instance that promoted somebody, and whom, when nothing has been announced since. -/
def promoted? (tr : List (Event I)) : Option (I × String) :=
  (tr.filterMap announced?).getLast?.bind Announcement.promotion

/-- The user was displaced, and has not been promoted since. -/
def displaced (tr : List (Event I)) (userId : String) : Bool :=
  tr.foldl
    (fun b e =>
      match announced? e with
      | some (.succession _ u) => b && decide (u ≠ userId)
      | some (.reclaim _ u) => b || decide (u = userId)
      | none => b)
    false

variable (auth : String → AuthedSocketData) (row : RoomRow)

/-- The user has a joined socket on an instance. -/
def Present (s : State I) (j : I) (userId : String) : Prop := ∃ id ∈ (s.node j).loc.members, (auth id).userId = userId

instance (s : State I) (j : I) (userId : String) : Decidable (Present auth s j userId) :=
  inferInstanceAs (Decidable (∃ id ∈ (s.node j).loc.members, _))

/-- An instance lets the user control. -/
def AdmittedAt (s : State I) (j : I) (userId : String) : Prop :=
  ∃ m ∈ (s.node j).loc.roomMeta, TimelineService.allowedToControl m userId = true

instance (s : State I) (j : I) (userId : String) : Decidable (AdmittedAt s j userId) :=
  inferInstanceAs (Decidable (∃ m ∈ (s.node j).loc.roomMeta, _))

/-- The instances agree with what was announced: the user whom the last event promoted is admitted wherever they have a
joined socket, and a displaced user is admitted nowhere. -/
def Agreed (tr : List (Event I)) (s : State I) : Prop :=
  (∀ p ∈ promoted? tr, ∀ j, Present auth s j p.2 → AdmittedAt s j p.2) ∧
    ∀ u, displaced tr u = true → ∀ j, ¬AdmittedAt s j u

/-- The socket whose `client.join` an event answers. -/
def joinedRoom? (e : Event I) : Option (I × String) :=
  match e.pre.replied e.act with
  | some (j, ⟨.joinSocket id _, _⟩) => some (j, id)
  | _ => none

/-- The instance whose settings an event drops. -/
def released? (e : Event I) : Option I :=
  match e.pre.replied e.act with
  | some (j, ⟨.releaseGet _, _⟩) => some j
  | _ => none

/-- What an event may do after `tr`: a user is promoted by the one instance where they have joined sockets; until the next
announcement they join there only, while it has them recorded, and it does not drop the settings under them; who is
displaced is recorded nowhere else and is not the creator; guests are not given the control. -/
structure Placed (tr : List (Event I)) (e : Event I) : Prop where
  promoted : ∀ p ∈ (announced? e).bind Announcement.promotion, ∀ j, j ≠ p.1 → ¬Present auth e.pre j p.2
  joins : ∀ p ∈ promoted? tr, ∀ c ∈ joinedRoom? e, (auth c.2).userId = p.2 →
    c.1 = p.1 ∧ (e.pre.node p.1).loc.controller = some p.2
  keeps : ∀ p ∈ promoted? tr, released? e = some p.1 → ¬Present auth e.pre p.1 p.2
  displaced : ∀ p ∈ (announced? e).bind Announcement.displacement,
    p.2 ≠ row.creatorId ∧ ∀ j, j ≠ p.1 → (e.pre.node j).loc.controller ≠ some p.2
  guestless : patched? e ≠ some true

instance [Fintype I] [DecidableEq I] (tr : List (Event I)) (e : Event I) : Decidable (Placed auth row tr e) :=
  decidable_of_iff
    ((∀ p ∈ (announced? e).bind Announcement.promotion, ∀ j, j ≠ p.1 → ¬Present auth e.pre j p.2) ∧
      (∀ p ∈ promoted? tr, ∀ c ∈ joinedRoom? e, (auth c.2).userId = p.2 →
        c.1 = p.1 ∧ (e.pre.node p.1).loc.controller = some p.2) ∧
      (∀ p ∈ promoted? tr, released? e = some p.1 → ¬Present auth e.pre p.1 p.2) ∧
      (∀ p ∈ (announced? e).bind Announcement.displacement,
        p.2 ≠ row.creatorId ∧ ∀ j, j ≠ p.1 → (e.pre.node j).loc.controller ≠ some p.2) ∧
      patched? e ≠ some true)
    ⟨fun ⟨h1, h2, h3, h4, h5⟩ => ⟨h1, h2, h3, h4, h5⟩, fun h =>
      ⟨h.promoted, h.joins, h.keeps, h.displaced, h.guestless⟩⟩

/-! ## What is recorded -/

/-- A promotion is the last announcement after an event that announces it, or that announces nothing. -/
theorem promoted_snoc {tr : List (Event I)} {e : Event I} {p : I × String} (h : promoted? (tr ++ [e]) = some p) :
    announced? e = some (.succession p.1 p.2) ∨ announced? e = none ∧ promoted? tr = some p := by
  unfold promoted? at h ⊢
  cases ha : announced? e with
  | none => exact Or.inr ⟨rfl, by simpa [ha] using h⟩
  | some a =>
    left
    simp only [List.filterMap_append, List.filterMap_cons, ha, List.filterMap_nil, List.getLast?_concat,
      Option.bind_some] at h
    cases a with
    | succession i u =>
      cases h
      rfl
    | reclaim i u => cases h

/-- A user who counts as displaced has just been displaced, or was before and has not just been promoted. -/
theorem displaced_snoc {tr : List (Event I)} {e : Event I} {u : String} (h : displaced (tr ++ [e]) u = true) :
    (∃ i, announced? e = some (.reclaim i u)) ∨
      displaced tr u = true ∧ ∀ i, announced? e ≠ some (.succession i u) := by
  simp only [displaced, List.foldl_append, List.foldl_cons, List.foldl_nil] at h ⊢
  split at h
  · rename_i j v ha
    rw [Bool.and_eq_true, decide_eq_true_eq] at h
    refine Or.inr ⟨h.1, fun i hi => ?_⟩
    rw [ha] at hi
    cases hi
    exact h.2 rfl
  · rename_i j v ha
    rw [Bool.or_eq_true, decide_eq_true_eq] at h
    rcases h with h | rfl
    · exact Or.inr ⟨h, fun i hi => by rw [ha] at hi; cases hi⟩
    · exact Or.inl ⟨j, ha⟩
  · rename_i ha
    exact Or.inr ⟨h, fun i hi => by rw [ha] at hi; cases hi⟩

section Steps

variable {auth} {row} [DecidableEq I]

theorem start_members {l : Local} {id : String} (r : Request) (h : id ∈ (start auth r l).loc.members) :
    id ∈ l.members := by
  cases r with
  | elsewhere id' => exact (List.mem_filter.mp h).1
  | control id' now req =>
    simp only [start] at h
    repeat' split at h
    · simpa [done] using h
    · simpa [await] using h
    · exact h
  | _ =>
    simp only [start] at h
    repeat' split at h
    all_goals exact h

theorem resume_members {l : Local} {a : Await} (r : Reply a) {id : String} (h : id ∈ (resume auth a r l).loc.members) :
    id ∈ l.members ∨ ∃ room, a = .joinSocket id room := by
  cases a with
  | joinSocket id' room =>
    simp only [resume, gated] at h
    split at h
    · exact Or.inl h
    · rcases List.mem_append.mp h with h | h
      · exact Or.inl h
      · rw [List.mem_singleton.mp h]
        exact Or.inr ⟨room, rfl⟩
  | joinInit id' room =>
    simp only [resume, await, TimelineService.reclaim_members] at h
    exact Or.inl h
  | leaveSocket id' => exact Or.inl (List.mem_filter.mp h).1
  | leaveFetch id' =>
    simp only [resume] at h
    split at h
    · exact Or.inl h
    · simp only [await, TimelineService.succession_members] at h
      exact Or.inl h
  | _ =>
    simp only [resume] at h
    repeat' split at h
    all_goals exact Or.inl h

/-- A member of an instance was one before, or its `client.join` has just been answered. -/
theorem members_cases {s s' : State I} {m : Move I Request Choice Env} {o : Shown I Emit} {j : I} {id : String}
    (hs : Tasks.Step (system auth row) s m o s') (h : id ∈ (s'.node j).loc.members) :
    id ∈ (s.node j).loc.members ∨ ∃ room, s.replied m = some (j, ⟨.joinSocket id room, ()⟩) := by
  rcases Tasks.loc_cases hs j with he | ⟨d, u, hu, he⟩
  · rw [he] at h
    exact Or.inl h
  · rw [he] at h
    cases hu with
    | start r hm => exact Or.inl (start_members r h)
    | enter q rest hm hq hfree =>
      cases q with
      | ensure id' room =>
        simp only [system, enter, await, TimelineService.ensureMeta_members] at h
        exact Or.inl h
      | release id' => exact Or.inl h
    | resume pre post a r hm hc =>
      rcases resume_members r h with h | ⟨room, rfl⟩
      · exact Or.inl h
      · exact Or.inr ⟨room, hm⟩

/-- A handler announces a controller when a join takes the control back or a leave promotes somebody. -/
theorem resume_announces {l : Local} {a : Await} (r : Reply a) {c : String} {reason : ControllerReason}
    (h : (resume auth a r l).sent = [.controller c reason]) :
    (∃ id room, a = .joinInit id room ∧ reason = .reclaim ∧ (resume auth a r l).loc.controller = none) ∨
    ∃ id, a = .leaveFetch id ∧ reason = .succession ∧ (resume auth a r l).loc.controller = some c := by
  cases a with
  | joinInit id room =>
    refine Or.inl ⟨id, room, rfl, ?_⟩
    simp only [resume, await] at h ⊢
    rcases TimelineService.reclaim_cases (auth id).userId l with ⟨he, -⟩ | ⟨m, -, -, -, he⟩
    · rw [he] at h
      cases h
    · rw [he] at h ⊢
      cases h
      exact ⟨rfl, rfl⟩
  | leaveFetch id =>
    refine Or.inr ⟨id, rfl, ?_⟩
    simp only [resume] at h ⊢
    split at h
    · cases h
    · rename_i hr
      rw [if_neg hr]
      simp only [await] at h ⊢
      rcases TimelineService.succession_cases (auth id).userId (candidate auth r) l with
        he | ⟨m, c', -, -, -, -, -, he⟩
      · rw [he] at h
        cases h
      · rw [he] at h ⊢
        cases h
        exact ⟨rfl, rfl⟩
  | _ =>
    simp only [resume] at h
    repeat' split at h
    all_goals cases h

theorem start_announces {l : Local} (r : Request) (c : String) (reason : ControllerReason) :
    (start auth r l).sent ≠ [.controller c reason] := by
  intro h
  cases r
  all_goals
    simp only [start] at h
    repeat' split at h
    all_goals cases h

/-- What is announced is recorded at the instance that announces it. -/
theorem sent_announces {e : Event I} (hs : Tasks.Step (system auth row) e.pre e.act e.out e.post) {i : I} {c : String}
    {reason : ControllerReason} (h : e.out = some (i, [.controller c reason])) :
    (∃ id room tl, e.pre.replied e.act = some (i, ⟨.joinInit id room, tl⟩) ∧ reason = .reclaim ∧
      (e.post.node i).loc.controller = none) ∨
    ∃ id sockets, e.pre.replied e.act = some (i, ⟨.leaveFetch id, sockets⟩) ∧ reason = .succession ∧
      (e.post.node i).loc.controller = some c := by
  obtain ⟨d, u, hb, hsent, hd⟩ := Tasks.sent_cases hs h
  have hloc : (e.post.node i).loc = u.loc := by rw [hd, Desk.after_loc]
  rw [hloc]
  cases hb with
  | start r hm => exact absurd hsent.symm (start_announces r c reason)
  | enter q rest hm hq hfree => cases q <;> cases hsent
  | resume pre post a r hm hc =>
    rcases resume_announces r hsent.symm with ⟨id, room, rfl, hr, hl⟩ | ⟨id, rfl, hr, hl⟩
    · exact Or.inl ⟨id, room, r, hm, hr, hl⟩
    · exact Or.inr ⟨id, r, hm, hr, hl⟩

/-- A promotion is recorded by the leave that announces it. -/
theorem succession_announced {e : Event I} (hs : Tasks.Step (system auth row) e.pre e.act e.out e.post) {i : I}
    {u : String} (h : announced? e = some (.succession i u)) :
    (∃ id sockets, e.pre.replied e.act = some (i, ⟨.leaveFetch id, sockets⟩)) ∧
      (e.post.node i).loc.controller = some u := by
  unfold announced? at h
  split at h
  · rename_i j c ho
    cases h
    rcases sent_announces hs ho with ⟨_, _, _, -, hr, -⟩ | ⟨id, sockets, hm, -, hl⟩
    · cases hr
    · exact ⟨⟨id, sockets, hm⟩, hl⟩
  · obtain ⟨_, -, h⟩ := Option.map_eq_some_iff.mp h
    cases h
  · cases h

/-- A displacement is recorded by the join that announces it. -/
theorem reclaim_announced {e : Event I} (hs : Tasks.Step (system auth row) e.pre e.act e.out e.post) {i : I}
    {u : String} (h : announced? e = some (.reclaim i u)) :
    (∃ id room tl, e.pre.replied e.act = some (i, ⟨.joinInit id room, tl⟩)) ∧
      (e.post.node i).loc.controller = none := by
  unfold announced? at h
  split at h
  · cases h
  · rename_i j c ho
    obtain ⟨_, -, h⟩ := Option.map_eq_some_iff.mp h
    cases h
    rcases sent_announces hs ho with ⟨id, room, tl, hm, -, hl⟩ | ⟨_, _, -, hr, -⟩
    · exact ⟨⟨id, room, tl, hm⟩, hl⟩
    · cases hr
  · cases h

/-- An instance whose controller changes to a user announces it. -/
theorem controller_announced {e : Event I} (hs : Tasks.Step (system auth row) e.pre e.act e.out e.post)
    (hg : Guestless row e.pre) {j : I} {u : String} (h : (e.post.node j).loc.controller = some u) :
    (e.pre.node j).loc.controller = some u ∨ announced? e = some (.succession j u) := by
  rcases controller_cases hs hg j with he | ⟨_, _, _, -, -, -, hn, -⟩ | ⟨_, _, -, hn⟩ | ⟨_, _, c, -, -, -, -, -, hc, ho⟩
  · exact Or.inl (he ▸ h)
  · rw [hn] at h
    cases h
  · rw [controller_of_none hn] at h
    cases h
  · rw [hc] at h
    cases h
    exact Or.inr (by simp only [announced?, ho])

/-! ## The invariant -/

variable (auth row) in
/-- What a run keeps. -/
structure Recorded (tr : List (Event I)) (s : State I) : Prop where
  guestless : Guestless row s
  elsewhere : ∀ p ∈ promoted? tr, ∀ j, j ≠ p.1 → ¬Present auth s j p.2
  promoted : ∀ p ∈ promoted? tr, Present auth s p.1 p.2 → (s.node p.1).loc.controller = some p.2
  displaced : ∀ u, displaced tr u = true → u ≠ row.creatorId ∧ ∀ j, (s.node j).loc.controller ≠ some u

variable {tr : List (Event I)} {e : Event I}

/-- A user who is present was present before, or their `client.join` has just been answered. -/
theorem present_step {j : I} {u : String} (hs : Tasks.Step (system auth row) e.pre e.act e.out e.post)
    (h : Present auth e.post j u) :
    Present auth e.pre j u ∨
      ∃ id room, e.pre.replied e.act = some (j, ⟨.joinSocket id room, ()⟩) ∧ (auth id).userId = u := by
  obtain ⟨id, hid, hu⟩ := h
  rcases members_cases hs hid with hid | ⟨room, hr⟩
  · exact Or.inl ⟨id, hid, hu⟩
  · exact Or.inr ⟨id, room, hr, hu⟩

theorem Recorded.elsewhere_step (hp : Placed auth row tr e)
    (hs : Tasks.Step (system auth row) e.pre e.act e.out e.post) (hI : Recorded auth row tr e.pre) {p : I × String}
    (h : promoted? (tr ++ [e]) = some p) {j : I} (hj : j ≠ p.1) : ¬Present auth e.post j p.2 := by
  intro hpres
  rcases promoted_snoc h with ha | ⟨-, hold⟩
  · obtain ⟨⟨id', sockets, hr⟩, -⟩ := succession_announced hs ha
    rcases present_step hs hpres with hpres | ⟨id, room, hr', -⟩
    · exact hp.promoted p (by rw [ha]; rfl) j hj hpres
    · rw [hr] at hr'
      cases hr'
  · rcases present_step hs hpres with hpres | ⟨id, room, hr, hu⟩
    · exact hI.elsewhere p hold j hj hpres
    · exact hj (hp.joins p hold (j, id) (by simp only [joinedRoom?, hr]; rfl) hu).1

theorem Recorded.promoted_step (hp : Placed auth row tr e)
    (hs : Tasks.Step (system auth row) e.pre e.act e.out e.post) (hI : Recorded auth row tr e.pre) {p : I × String}
    (h : promoted? (tr ++ [e]) = some p) (hpres : Present auth e.post p.1 p.2) :
    (e.post.node p.1).loc.controller = some p.2 := by
  rcases promoted_snoc h with ha | ⟨hn, hold⟩
  · exact (succession_announced hs ha).2
  · have hpre : (e.pre.node p.1).loc.controller = some p.2 := by
      rcases present_step hs hpres with hpres | ⟨id, room, hr, hu⟩
      · exact hI.promoted p hold hpres
      · exact (hp.joins p hold (p.1, id) (by simp only [joinedRoom?, hr]; rfl) hu).2
    rcases controller_cases hs hI.guestless p.1 with he | ⟨_, _, _, -, -, -, -, ho⟩ | ⟨id, r, hr, -⟩ |
      ⟨_, _, c, -, -, -, -, -, -, ho⟩
    · exact he.trans hpre
    · simp only [announced?, ho, hpre] at hn
      cases hn
    · rcases present_step hs hpres with hpres | ⟨id', room, hr', -⟩
      · exact absurd hpres (hp.keeps p hold (by simp only [released?, hr]))
      · rw [hr] at hr'
        cases hr'
    · simp only [announced?, ho] at hn
      cases hn

theorem Recorded.displaced_step (hp : Placed auth row tr e)
    (hs : Tasks.Step (system auth row) e.pre e.act e.out e.post) (hI : Recorded auth row tr e.pre) {u : String}
    (h : SyncGateway.displaced (tr ++ [e]) u = true) :
    u ≠ row.creatorId ∧ ∀ j, (e.post.node j).loc.controller ≠ some u := by
  rcases displaced_snoc h with ⟨i, ha⟩ | ⟨hold, hn⟩
  · obtain ⟨hu, hj⟩ := hp.displaced (i, u) (by rw [ha]; rfl)
    refine ⟨hu, fun j hc => ?_⟩
    by_cases hji : j = i
    · subst hji
      rw [(reclaim_announced hs ha).2] at hc
      cases hc
    · rcases controller_announced hs hI.guestless hc with hc | ha'
      · exact hj j hji hc
      · rw [ha] at ha'
        cases ha'
  · obtain ⟨hu, hj⟩ := hI.displaced u hold
    refine ⟨hu, fun j hc => ?_⟩
    rcases controller_announced hs hI.guestless hc with hc | ha
    · exact hj j hc
    · exact hn j ha

theorem Recorded.step (hrow : row.allowGuestControl = false) (hp : Placed auth row tr e)
    (hs : Tasks.Step (system auth row) e.pre e.act e.out e.post) (hI : Recorded auth row tr e.pre) :
    Recorded auth row (tr ++ [e]) e.post where
  guestless := hI.guestless.step hs hrow hp.guestless
  elsewhere _ h _ hj := hI.elsewhere_step hp hs h hj
  promoted _ h := hI.promoted_step hp hs h
  displaced _ h := hI.displaced_step hp hs h

theorem recorded_init : Recorded auth row [] (backend (I := I) auth row).init where
  guestless := guestless_init
  elsewhere _ h := nomatch h
  promoted _ h := nomatch h
  displaced _ h := nomatch h

/-- **Authority agrees across instances** in every run without guest control in which promotions and displacements
concern the instance that announces them. -/
theorem authority_agrees (hrow : row.allowGuestControl = false) (ops : List (Move I Request Choice Env))
    (h : Machine.Always (Placed auth row) ((backend auth row).trace ops)) :
    Agreed auth ((backend auth row).trace ops) ((backend auth row).run ops) := by
  have hI : Recorded auth row ((backend auth row).trace ops) ((backend auth row).run ops) :=
    Machine.invariant_always (backend auth row) recorded_init
      (fun _ _ _ hp hI => Recorded.step hrow hp (Tasks.event_cases _ _) hI) ops h
  refine ⟨fun p hp j hpres => ?_, fun u hd j ha => ?_⟩
  · by_cases hj : j = p.1
    · subst hj
      obtain ⟨m, hm, hc⟩ := Option.bind_eq_some_iff.mp (hI.promoted p hp hpres)
      exact ⟨m, hm, by simp [TimelineService.allowedToControl, hc]⟩
    · exact absurd hpres (hI.elsewhere p hp j hj)
  · obtain ⟨m, hm, ha⟩ := ha
    obtain ⟨hu, hc⟩ := hI.displaced u hd
    obtain ⟨hcr, hg⟩ := hI.guestless.settings hm
    refine hc j ?_
    rw [controller_of_meta hm]
    simpa [TimelineService.allowedToControl, hg, hrow, hcr, hu] using ha

end Steps

/-- The creator leaves one instance; the guest, who is promoted there, is connected to the other one. -/
theorem promoted_elsewhere :
    ¬∀ (auth : String → AuthedSocketData) (row : RoomRow) (ops : List (Move Bool Request Choice Env)),
        row.allowGuestControl = false →
        Agreed auth ((backend auth row).trace ops) ((backend auth row).run ops) := by
  intro h
  have hagreed := h namesake quietRow (joining true 0 "creator" ++ joining false 0 "guest" ++ departing true 0 "creator")
    rfl
  have hadmitted := hagreed.1 (true, "guest") (by decide +kernel) false (by decide +kernel)
  exact absurd hadmitted (by decide +kernel)

/-- The creator's second socket; the others are named as their users. -/
def comesBack (id : String) : AuthedSocketData := if id = "again" then ⟨"creator", 3⟩ else ⟨id, 0⟩

/-- The guest is connected to the instance that promotes them, and the creator comes back to it. -/
theorem authority_agrees_reclaimed :
    let ops := joining true 0 "creator" ++ joining true 0 "guest" ++ joining false 0 "other" ++
      departing true 0 "creator" ++ joining true 0 "again"
    Agreed comesBack ((backend comesBack quietRow).trace ops) ((backend comesBack quietRow).run ops) :=
  authority_agrees rfl _ (by decide +kernel)

end SyncGateway
end WatchParty
