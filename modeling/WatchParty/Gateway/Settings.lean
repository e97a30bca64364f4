import Mathlib.Data.Fintype.Basic
import WatchParty.Gateway.Handlers

/-!
# The settings of a live room

`TimelineService` copies the settings of a room when an instance first touches it, and a join carries the row that it
read. A PATCH writes the row only. So a control is decided by the settings in force as long as no PATCH changes
`allowGuestControl` while a copy is held somewhere.

- `copies` are the copies that an instance holds; `Steady` is the condition on an event;
- `Current` is the invariant, `Current.step` the step lemma;
- `settings_govern` is the result, `settings_ignored` a run in which a returned PATCH changes nothing.
-/

namespace WatchParty

/-- What a row says of who may control. -/
structure Settings where
  creatorId : String
  allowGuestControl : Bool
  deriving DecidableEq, Repr

def RoomRow.settings (row : RoomRow) : Settings := ⟨row.creatorId, row.allowGuestControl⟩

def RoomMeta.settings (m : RoomMeta) : Settings := ⟨m.creatorId, m.allowGuestControl⟩

/-- The settings with which an instance decides. -/
def Local.settings (l : Local) : Option Settings := l.roomMeta.map RoomMeta.settings

/-- The settings after a PATCH. -/
def Settings.patched (p : Settings) (b : Option Bool) : Settings :=
  { p with allowGuestControl := b.getD p.allowGuestControl }

namespace TimelineService

variable (socketId userId : String) (now : ℚ) (candidate : Option String) (l : Local)

@[simp] theorem admission_settings : (admission socketId userId now l).2.settings = l.settings := by
  rw [Local.settings, admission_roomMeta, Local.settings]

@[simp] theorem succession_settings : (succession userId candidate l).2.settings = l.settings := by
  unfold succession
  split
  · rename_i m c hm
    split
    · rfl
    · split
      · split
        · rfl
        · simp [Local.settings, hm, RoomMeta.settings]
      · rfl
  · rfl

@[simp] theorem reclaim_settings : (reclaim userId l).2.settings = l.settings := by
  unfold reclaim
  split
  · rfl
  · rename_i m hm
    split
    · simp [Local.settings, hm, RoomMeta.settings]
    · rfl

/-- The settings are copied from the row only where there are none. -/
theorem ensureMeta_settings (room : RoomRow) :
    (ensureMeta room l).settings = some (l.settings.getD room.settings) := by
  unfold ensureMeta
  cases h : l.roomMeta with
  | none => simp [Local.settings, h, RoomMeta.settings, RoomRow.settings]
  | some m => simp [Local.settings, h]

end TimelineService

namespace SyncGateway

variable {I : Type}

/-- The row that a handler has read and will hand to `ensureRoom`. -/
def carried : Pending Reply → Option RoomRow
  | ⟨.joinRow _, some (some (room, _))⟩ => some room
  | ⟨.joinSocket _ room, _⟩ => some room
  | _ => none

def Gated.carried : Gated → Option RoomRow
  | .ensure _ room => some room
  | .release _ => none

/-- The copies of the settings that an instance and its handlers hold. -/
def copies (d : Desk Local Gated Reply) : List Settings :=
  d.loc.settings.toList ++ (d.tasks.filterMap carried).map RoomRow.settings ++
    (d.queue.filterMap Gated.carried).map RoomRow.settings

/-- What the write of a PATCH sets `allowGuestControl` to. -/
def Await.patch : Await → Option Bool
  | .patchUpdate data => data.allowGuestControl
  | _ => none

/-- What an event sets `allowGuestControl` to, if it executes such a write. -/
def patched? (e : Event I) : Option Bool := (e.pre.executed e.act).bind fun c => c.2.patch

/-- The value that the last PATCH wrote. -/
def written (tr : List (Event I)) : Option Bool := (tr.filterMap patched?).getLast?

/-- What the PATCH that an event answers has set `allowGuestControl` to. -/
def returned? (e : Event I) : Option Bool :=
  match e.out with
  | some (_, [.updated data]) => data.allowGuestControl
  | _ => none

/-- The control that an event decides: its instance, its socket and the clock of the instance. -/
def decided? (e : Event I) : Option (I × String × ℚ) :=
  match e.act with
  | .start i (.control id now _) => if id ∈ (e.pre.node i).loc.members then some (i, id, now) else none
  | _ => none

variable (auth : String → AuthedSocketData) (row : RoomRow)

/-- The control that the event `e` decides after `tr` is decided by the settings in force: where its sender is neither
the creator nor the promoted controller, it is admitted, the rate limit aside, exactly when the last PATCH, which has
returned, allowed guests. -/
def Governed (tr : List (Event I)) (e : Event I) : Prop :=
  ∀ i id now, decided? e = some (i, id, now) → ∀ b, written tr = some b → (∃ e' ∈ tr, returned? e' = some b) →
    (auth id).userId ≠ row.creatorId →
    (e.pre.node i).loc.roomMeta.bind RoomMeta.activeController ≠ some (auth id).userId →
    ((TimelineService.admission id (auth id).userId now (e.pre.node i).loc).1 = none ↔
      b = true ∧ (TimelineService.takeToken id now (e.pre.node i).loc).1 = true)

/-- No PATCH changes `allowGuestControl` while an instance or a join holds a copy of the settings. -/
def Patient (e : Event I) : Prop :=
  ∀ b ∈ patched? e, e.pre.shared.row.map RoomRow.allowGuestControl = some b ∨ ∀ i, copies (e.pre.node i) = []

/-- And a control is decided where the settings are. -/
def Steady (e : Event I) : Prop := Patient e ∧ ∀ c ∈ decided? e, (e.pre.node c.1).loc.roomMeta.isSome

instance [Fintype I] (e : Event I) : Decidable (Patient e) := inferInstanceAs (Decidable (∀ b ∈ patched? e, _))

instance [Fintype I] (e : Event I) : Decidable (Steady e) := inferInstanceAs (Decidable (_ ∧ _))

/-! ## The copies agree with the row -/

/-- Every copy that a node holds is of these settings. -/
abbrev Holds (p : Settings) (d : Desk Local Gated Reply) : Prop :=
  d.Meets (fun l => ∀ q ∈ l.settings, q = p) (fun t => ∀ r ∈ carried t, r.settings = p)
    fun q => ∀ r ∈ q.carried, r.settings = p

theorem holds_of_copies {d : Desk Local Gated Reply} (h : copies d = []) (p : Settings) : Holds p d := by
  simp only [copies, List.append_eq_nil_iff, List.map_eq_nil_iff, Option.toList_eq_nil_iff,
    List.filterMap_eq_nil_iff] at h
  obtain ⟨⟨hl, ht⟩, hq⟩ := h
  refine ⟨fun q hq => ?_, fun t h r hr => ?_, fun q h r hr => ?_⟩
  · rw [hl] at hq
    cases hq
  · rw [ht t h] at hr
    cases hr
  · rw [hq q h] at hr
    cases hr

section Stretches

variable {auth} {p : Settings} {l : Local}

theorem start_settings (r : Request) : (start auth r l).loc.settings = l.settings := by
  cases r with
  | control id now req =>
    simp only [start]
    repeat' split
    · exact TimelineService.admission_settings id _ now l
    · exact TimelineService.admission_settings id _ now l
    · rfl
  | _ =>
    simp only [start]
    repeat' split
    all_goals rfl

theorem start_carried (r : Request) (a : Await) (h : (start auth r l).next = .await a) : carried ⟨a, none⟩ = none := by
  cases r
  all_goals
    simp only [start] at h
    repeat' split at h
    all_goals cases h
    all_goals rfl

theorem start_not_queued (r : Request) (q : Gated) : (start auth r l).next ≠ .queue q := by
  intro h
  cases r
  all_goals
    simp only [start] at h
    repeat' split at h
    all_goals cases h

theorem holds_start (r : Request) (hl : ∀ q ∈ l.settings, q = p) :
    (start auth r l).Meets (fun l => ∀ q ∈ l.settings, q = p) (fun t => ∀ r ∈ carried t, r.settings = p)
      fun q => ∀ r ∈ q.carried, r.settings = p := by
  refine ⟨?_, fun a h => ?_, fun q h => ?_⟩
  · rw [start_settings]
    exact hl
  · rw [start_carried r a h]
    exact fun r hr => nomatch hr
  · exact absurd h (start_not_queued r q)

/-- Only a release drops the settings of an instance. -/
theorem resume_settings (a : Await) (r : Reply a) (h : ∀ id, a ≠ .releaseGet id) :
    (resume auth a r l).loc.settings = l.settings := by
  cases a with
  | releaseGet id => exact absurd rfl (h id)
  | joinInit id room => exact TimelineService.reclaim_settings _ l
  | leaveFetch id =>
    simp only [resume]
    split
    · rfl
    · exact TimelineService.succession_settings _ _ l
  | _ =>
    simp only [resume]
    repeat' split
    all_goals rfl

/-- A row is carried on only by the handler that has it. -/
theorem resume_carried (a b : Await) (r : Reply a) (h : (resume auth a r l).next = .await b) :
    carried ⟨b, none⟩ = none ∨ carried ⟨b, none⟩ = carried ⟨a, some r⟩ := by
  cases a with
  | joinRow id =>
    cases r with
    | none => exact nomatch h
    | some found =>
      simp only [resume] at h
      split at h
      · exact nomatch h
      · split at h
        · exact nomatch h
        · cases h
          exact Or.inr rfl
  | _ =>
    simp only [resume] at h
    repeat' split at h
    all_goals cases h
    all_goals exact Or.inl rfl

theorem resume_queued (a : Await) (r : Reply a) (q : Gated) (h : (resume auth a r l).next = .queue q) :
    q.carried = none ∨ q.carried = carried ⟨a, some r⟩ := by
  cases a with
  | joinSocket id room =>
    cases h
    exact Or.inr rfl
  | leaveFetch id =>
    simp only [resume] at h
    split at h
    all_goals cases h
    exact Or.inl rfl
  | _ =>
    simp only [resume] at h
    repeat' split at h
    all_goals cases h

theorem holds_resume (a : Await) (r : Reply a) (hl : ∀ q ∈ l.settings, q = p)
    (hr : ∀ room ∈ carried ⟨a, some r⟩, room.settings = p) :
    (resume auth a r l).Meets (fun l => ∀ q ∈ l.settings, q = p) (fun t => ∀ r ∈ carried t, r.settings = p)
      fun q => ∀ r ∈ q.carried, r.settings = p where
  loc := by
    by_cases h : ∃ id, a = .releaseGet id
    · obtain ⟨id, rfl⟩ := h
      exact fun q hq => nomatch hq
    · rw [resume_settings a r fun id hid => h ⟨id, hid⟩]
      exact hl
  await b h := by
    rcases resume_carried a b r h with hc | hc
    · rw [hc]
      exact fun r hr => nomatch hr
    · rw [hc]
      exact hr
  queue q h := by
    rcases resume_queued a r q h with hc | hc
    · rw [hc]
      exact fun r hr => nomatch hr
    · rw [hc]
      exact hr

theorem holds_enter (q : Gated) (hl : ∀ q ∈ l.settings, q = p) (hq : ∀ r ∈ q.carried, r.settings = p) :
    (enter q l).Meets (fun l => ∀ q ∈ l.settings, q = p) (fun t => ∀ r ∈ carried t, r.settings = p)
      fun q => ∀ r ∈ q.carried, r.settings = p := by
  cases q with
  | ensure id room =>
    refine ⟨?_, fun a h => ?_, fun q h => nomatch h⟩
    · intro q h
      rw [enter, await, TimelineService.ensureMeta_settings] at h
      cases h
      cases hs : l.settings with
      | none => exact hq room rfl
      | some q => exact hl q hs
    · cases h
      exact fun r hr => nomatch hr
  | release id =>
    refine ⟨hl, fun a h => ?_, fun q h => nomatch h⟩
    cases h
    exact fun r hr => nomatch hr

end Stretches

/-! ## Runs -/

section Runs

variable {auth} {row}

/-- Only the write of a PATCH changes the settings of the row. -/
theorem exec_settings (a : Await) (x : Choice) (w : World) :
    (exec auth a x w).2.row.map RoomRow.settings = (w.row.map RoomRow.settings).map (·.patched a.patch) := by
  cases a with
  | patchUpdate data =>
    simp only [exec, Option.map_map]
    rfl
  | releasePersist | flushUpdate =>
    simp only [exec, Option.map_map]
    rfl
  | _ => cases h : w.row <;> simp [exec, h, Settings.patched, Await.patch]

theorem written_snoc (tr : List (Event I)) (e : Event I) :
    written (tr ++ [e]) = (patched? e).or (written tr) := by
  cases h : patched? e with
  | none => simp [written, h]
  | some b => simp [written, h]

/-- What a run keeps: the row has the value that the last PATCH wrote, and every copy agrees with the row. -/
def Current (row : RoomRow) (tr : List (Event I)) (s : State I) : Prop :=
  ∃ p, s.shared.row.map RoomRow.settings = some p ∧ p.creatorId = row.creatorId ∧
    (∀ b ∈ written tr, p.allowGuestControl = b) ∧ ∀ i, Holds p (s.node i)

variable [DecidableEq I]

/-- A step changes the settings of the row as the PATCH says whose write it executes. -/
theorem row_step {s s' : State I} {m : Move I Request Choice Env} {o : Shown I Emit}
    (hs : Tasks.Step (system auth row) s m o s') :
    s'.shared.row.map RoomRow.settings =
      (s.shared.row.map RoomRow.settings).map (·.patched ((s.executed m).bind fun c => c.2.patch)) := by
  have hkeep : ∀ q : Option Settings, q = q.map (·.patched none) := fun q => by cases q <;> rfl
  rcases Tasks.shared_cases _ hs with ⟨i, a, x, hx, h⟩ | ⟨e, rfl, h⟩ | ⟨hx, h⟩
  · rw [h, hx]
    exact exec_settings a x s.shared
  · rw [h]
    cases e <;> exact hkeep _
  · rw [h, hx]
    exact hkeep _

/-- The reply to a read of the row carries its settings. -/
theorem exec_carried {p : Settings} {a : Await} (x : Choice) {w : World}
    (hw : w.row.map RoomRow.settings = some p) (h : ∀ r ∈ carried ⟨a, none⟩, r.settings = p) :
    ∀ r ∈ carried ⟨a, some (exec auth a x w).1⟩, r.settings = p := by
  cases a with
  | joinRow id =>
    obtain ⟨r, hr, rfl⟩ := Option.map_eq_some_iff.mp hw
    rintro r' h'
    simp only [exec, hr, Option.map_some, carried, Option.mem_some_iff] at h'
    rw [h']
  | _ => exact h

/-- The copies that a step leaves are of the settings that it leaves in the row. -/
theorem holds_step {e : Event I} {p : Settings} (hs : Tasks.Step (system auth row) e.pre e.act e.out e.post)
    (hp : e.pre.shared.row.map RoomRow.settings = some p) (h : ∀ i, Holds (p.patched (patched? e)) (e.pre.node i)) :
    ∀ i, Holds (p.patched (patched? e)) (e.post.node i) := by
  refine Tasks.meets_step hs h (fun i r _ hl => holds_start r hl) (fun i n x a _ hx ha => ?_)
    (fun i a r _ hl hr => holds_resume a r hl hr) fun i q _ hl hq => holds_enter q hl hq
  cases ha' : a.patch with
  | none =>
    have hn : patched? e = none := by simp only [patched?, hx, Option.bind_some, ha']
    rw [hn] at ha ⊢
    exact exec_carried x hp ha
  | some b =>
    cases a with
    | patchUpdate data => exact ha
    | _ => cases ha'

theorem Current.step {tr : List (Event I)} {e : Event I} (hs : Tasks.Step (system auth row) e.pre e.act e.out e.post)
    (hc : Patient e) (hI : Current row tr e.pre) : Current row (tr ++ [e]) e.post := by
  obtain ⟨p, hp, hcreator, hwritten, hcopies⟩ := hI
  have hrow : e.post.shared.row.map RoomRow.settings = some (p.patched (patched? e)) := by
    rw [row_step hs, hp]
    rfl
  refine ⟨_, hrow, hcreator, fun b hb => ?_, ?_⟩
  · rw [written_snoc] at hb
    cases h : patched? e with
    | none =>
      rw [h] at hb
      exact hwritten b hb
    | some b' =>
      rw [h] at hb
      cases hb
      rfl
  · -- where the value changes there is no copy, and every copy is of the new settings
    have hnew : ∀ i, Holds (p.patched (patched? e)) (e.pre.node i) := by
      cases h : patched? e with
      | none => exact hcopies
      | some b =>
        rcases hc b h with hb | hb
        · obtain ⟨r, hr, rfl⟩ := Option.map_eq_some_iff.mp hp
          rw [hr] at hb
          cases hb
          exact hcopies
        · exact fun i => holds_of_copies (hb i) _
    exact holds_step hs hp hnew

theorem current_init : Current row [] (backend (I := I) auth row).init :=
  ⟨row.settings, rfl, rfl, fun _ h => absurd h (Option.not_mem_none _),
    fun _ => ⟨fun _ h => absurd h (Option.not_mem_none _), fun _ h => absurd h List.not_mem_nil,
      fun _ h => absurd h List.not_mem_nil⟩⟩

/-- **A run without such a PATCH keeps every copy current.** -/
theorem current (ops : List (Move I Request Choice Env)) :
    (∀ e ∈ (backend auth row).trace ops, Patient e) →
      Current row ((backend auth row).trace ops) ((backend auth row).run ops) :=
  (backend auth row).invariant_forall current_init
    (fun _ _ _ hc hI => Current.step (Tasks.event_cases _ _) hc hI) ops

/-- Where no PATCH lets guests control, the row and the copies stay as they were. -/
def Guestless (row : RoomRow) (s : State I) : Prop :=
  s.shared.row.map RoomRow.settings = some row.settings ∧ ∀ i, Holds row.settings (s.node i)

theorem Guestless.step {e : Event I} (hs : Tasks.Step (system auth row) e.pre e.act e.out e.post)
    (hrow : row.allowGuestControl = false) (hc : patched? e ≠ some true) (hI : Guestless row e.pre) :
    Guestless row e.post := by
  have hsame : row.settings.patched (patched? e) = row.settings := by
    cases h : patched? e with
    | none => rfl
    | some b =>
      cases b with
      | true => exact absurd h hc
      | false => simp [Settings.patched, RoomRow.settings, hrow]
  have hcopies := holds_step hs hI.1 (by rw [hsame]; exact hI.2)
  rw [hsame] at hcopies
  refine ⟨?_, hcopies⟩
  rw [row_step hs, hI.1]
  exact congrArg some hsame

theorem guestless_init : Guestless row (backend (I := I) auth row).init :=
  ⟨rfl, fun _ => ⟨fun _ h => absurd h (Option.not_mem_none _), fun _ h => absurd h List.not_mem_nil,
    fun _ h => absurd h List.not_mem_nil⟩⟩

/-- Where the copy of an instance agrees, a sender who is neither creator nor promoted is admitted, the rate limit aside,
exactly when guests may control. -/
theorem admission_guest {p : Settings} {l : Local} {id userId : String} {now : ℚ} (hs : l.settings = some p)
    (hcreator : userId ≠ p.creatorId) (hactive : l.roomMeta.bind RoomMeta.activeController ≠ some userId) :
    (TimelineService.admission id userId now l).1 = none ↔
      p.allowGuestControl = true ∧ (TimelineService.takeToken id now l).1 = true := by
  obtain ⟨m, hm, rfl⟩ := Option.map_eq_some_iff.mp hs
  have hallowed : TimelineService.allowedToControl m userId = m.allowGuestControl := by
    rw [hm, Option.bind_some] at hactive
    simp [TimelineService.allowedToControl, hactive, show userId ≠ m.creatorId from hcreator]
  rw [TimelineService.admission_eq_none]
  constructor
  · rintro ⟨m', hm', ha, ht⟩
    rw [hm] at hm'
    cases hm'
    exact ⟨hallowed.symm.trans ha, ht⟩
  · rintro ⟨ha, ht⟩
    exact ⟨m, hm, hallowed.trans ha, ht⟩

/-- **Room settings govern the live room** in every run in which no PATCH changes `allowGuestControl` while a copy of the
settings is held, and in which controls are decided where the settings are. -/
theorem settings_govern (ops : List (Move I Request Choice Env))
    (h : ∀ e ∈ (backend auth row).trace ops, Steady e) (tr tr' : List (Event I)) (e : Event I)
    (htr : (backend auth row).trace ops = tr ++ e :: tr') : Governed auth row tr e := by
  rintro i id now hd b hb - hcreator hactive
  obtain ⟨as, m, bs, rfl, rfl, rfl, -⟩ := (backend auth row).trace_split htr
  rw [htr, List.forall_mem_append, List.forall_mem_cons] at h
  obtain ⟨p, -, hpc, hpb, hcopies⟩ := current as fun e he => (h.1 e he).1
  obtain ⟨m, hm⟩ := Option.isSome_iff_exists.mp (h.2.1.2 _ hd)
  have hs : (((backend auth row).run as).node i).loc.settings = some m.settings :=
    congrArg (Option.map RoomMeta.settings) hm
  have hp : m.settings = p := (hcopies i).loc _ hs
  rw [← hpb b hb, ← hp]
  refine admission_guest hs ?_ hactive
  rw [hp, hpc]
  exact hcreator

end Runs

/-- A PATCH that allows guests and returns while a guest is in the room leaves the guest refused. -/
theorem settings_ignored :
    ¬∀ (auth : String → AuthedSocketData) (row : RoomRow) (ops : List (Move Unit Request Choice Env))
        (tr tr' : List (Event Unit)) (e : Event Unit),
        (backend auth row).trace ops = tr ++ e :: tr' → Governed auth row tr e := by
  intro h
  have hg := h namesake quietRow _ _ [] _
    ((backend namesake quietRow).trace_snoc
      (joining () 0 "guest" ++ patching () "creator" ⟨none, some true, none⟩)
      (.start () (.control "guest" 0 ⟨.play, 0, "guest", none, none, none, none⟩)))
  have hall := hg () "guest" 0 (by decide) true (by decide) (by decide) (by decide) (by decide)
  exact absurd (hall.mpr ⟨rfl, by decide +kernel⟩) (by decide)

/-- The PATCH returns before anybody joins. -/
theorem settings_govern_first :
    let ops := patching () "creator" ⟨none, some true, none⟩ ++ joining () 0 "guest"
    let c : Move Unit Request Choice Env := .start () (.control "guest" 0 ⟨.play, 0, "guest", none, none, none, none⟩)
    Governed namesake quietRow ((backend namesake quietRow).trace ops)
      ((backend namesake quietRow).event ((backend namesake quietRow).run ops) c) := by
  intro ops c
  exact settings_govern (ops ++ [c]) (by decide) _ [] _ ((backend namesake quietRow).trace_snoc ops c)

end SyncGateway
end WatchParty
