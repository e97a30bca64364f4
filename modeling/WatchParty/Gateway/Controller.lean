import WatchParty.Gateway.Stages

/-!
# The promoted controller

How `activeController` changes on an instance: a leave promotes somebody, the creator's join takes the control back, a
release forgets it.

- `succession_cases`, `reclaim_cases`: everything the two functions can do;
- `controller_cases`: everything a step can do to the controller of an instance.
-/

namespace WatchParty

/-- The promoted controller that an instance has recorded. -/
def Local.controller (l : Local) : Option String := l.roomMeta.bind RoomMeta.activeController

namespace TimelineService

variable {userId : String} {candidate : Option String} {l : Local} {m : RoomMeta}

/-- A departure that promotes somebody. -/
theorem succession_promotes {c : String} (hm : l.roomMeta = some m) (hg : m.allowGuestControl = false)
    (hc : userId = m.creatorId ∨ m.activeController = some userId) (hne : c ≠ userId) :
    succession userId (some c) l =
      (some c, { l with roomMeta := some { m with activeController := some c } }) := by
  simp only [succession, hm, hg]
  rw [if_neg Bool.false_ne_true, if_pos hc, if_neg hne]

/-- A departure promotes nobody, or a user other than the one that departed, who had the control. -/
theorem succession_cases (userId : String) (candidate : Option String) (l : Local) :
    succession userId candidate l = (none, l) ∨
    ∃ m c, l.roomMeta = some m ∧ candidate = some c ∧ m.allowGuestControl = false ∧
      (userId = m.creatorId ∨ m.activeController = some userId) ∧ c ≠ userId ∧
      succession userId candidate l = (some c, { l with roomMeta := some { m with activeController := some c } }) := by
  cases hm : l.roomMeta with
  | none => exact Or.inl (by simp [succession, hm])
  | some m =>
    cases candidate with
    | none => exact Or.inl (by simp [succession, hm])
    | some c =>
      by_cases hg : m.allowGuestControl = true
      · exact Or.inl (by simp [succession, hm, hg])
      · by_cases hc : userId = m.creatorId ∨ m.activeController = some userId
        · by_cases hne : c = userId
          · exact Or.inl (by simp [succession, hm, hne])
          · have hg' : m.allowGuestControl = false := by simpa using hg
            exact Or.inr ⟨m, c, rfl, rfl, hg', hc, hne, succession_promotes hm hg' hc hne⟩
        · exact Or.inl (by simp [succession, hm, hc])

/-- A join changes nothing, or it is the creator's and takes the control back. -/
theorem reclaim_cases (userId : String) (l : Local) :
    (reclaim userId l = (none, l) ∧ ∀ m, l.roomMeta = some m → userId = m.creatorId → m.activeController = none) ∨
    ∃ m, l.roomMeta = some m ∧ userId = m.creatorId ∧ m.activeController ≠ none ∧
      reclaim userId l = (some userId, { l with roomMeta := some { m with activeController := none } }) := by
  cases hm : l.roomMeta with
  | none => exact Or.inl ⟨by simp [reclaim, hm], nofun⟩
  | some m =>
    by_cases hc : userId = m.creatorId ∧ m.activeController ≠ none
    · refine Or.inr ⟨m, rfl, hc.1, hc.2, ?_⟩
      simp only [reclaim, hm]
      rw [if_pos hc]
    · refine Or.inl ⟨?_, fun m' hm' hu => ?_⟩
      · simp only [reclaim, hm]
        rw [if_neg hc]
      · cases hm'
        exact not_not.mp fun hne => hc ⟨hu, hne⟩

end TimelineService

namespace SyncGateway

variable {I : Type} {auth : String → AuthedSocketData} {row : RoomRow}

/-- Who is a candidate has a socket in the room. -/
theorem candidate_mem {sockets : List String} {c : String} (h : candidate auth sockets = some c) :
    ∃ id ∈ sockets, (auth id).userId = c := by
  obtain ⟨id, hid, rfl⟩ := Option.map_eq_some_iff.mp h
  exact ⟨id, List.argmin_mem hid, rfl⟩

/-- Where there is a socket, there is a candidate. -/
theorem candidate_isSome {sockets : List String} (h : sockets ≠ []) : ∃ c, candidate auth sockets = some c := by
  cases hm : sockets.argmin fun id => (auth id).connectedAt with
  | none => exact absurd (List.argmin_eq_none.mp hm) h
  | some id => exact ⟨(auth id).userId, by rw [candidate, hm]; rfl⟩

/-- An instance decides with the settings of the row. -/
theorem Guestless.settings {s : State I} (h : Guestless row s) {j : I} {m : RoomMeta}
    (hm : (s.node j).loc.roomMeta = some m) :
    m.creatorId = row.creatorId ∧ m.allowGuestControl = row.allowGuestControl := by
  have hs : m.settings = row.settings := (h.2 j).loc _ (by rw [Local.settings, hm]; rfl)
  exact ⟨congrArg Settings.creatorId hs, congrArg Settings.allowGuestControl hs⟩

theorem controller_of_meta {l : Local} {m : RoomMeta} (hm : l.roomMeta = some m) :
    l.controller = m.activeController := by
  rw [Local.controller, hm]
  rfl

theorem controller_of_none {l : Local} (hm : l.roomMeta = none) : l.controller = none := by
  rw [Local.controller, hm]
  rfl

/-- A request leaves the settings and the controller alone. -/
theorem start_roomMeta {l : Local} (r : Request) : (start auth r l).loc.roomMeta = l.roomMeta := by
  cases r with
  | control id now req =>
    simp only [start]
    repeat' split
    · exact TimelineService.admission_roomMeta id _ now l
    · exact TimelineService.admission_roomMeta id _ now l
    · rfl
  | _ =>
    simp only [start]
    repeat' split
    all_goals rfl

/-- The replies after which a handler changes the settings or the controller. -/
def Await.turning : Await → Bool
  | .joinInit _ _ => true
  | .leaveFetch _ => true
  | .releaseGet _ => true
  | _ => false

theorem resume_roomMeta {l : Local} {a : Await} (r : Reply a) (ha : a.turning = false) :
    (resume auth a r l).loc.roomMeta = l.roomMeta := by
  cases a with
  | joinInit | leaveFetch | releaseGet => cases ha
  | _ =>
    simp only [resume]
    repeat' split
    all_goals rfl

/-- A handler that is let in records no controller where none was. -/
theorem enter_controller {l : Local} (q : Gated) : (enter q l).loc.controller = l.controller := by
  cases q with
  | release id => rfl
  | ensure id room =>
    simp only [enter, await, TimelineService.ensureMeta]
    cases hm : l.roomMeta with
    | none => exact (controller_of_none hm).symm
    | some m => rfl

variable [DecidableEq I] {s s' : State I} {m : Move I Request Choice Env} {o : Shown I Emit} {j : I}

/-- **What a step does to the controller of an instance**: nothing; the creator's join takes the control back; a release
forgets it; or the leave of a controller promotes the candidate of its snapshot. -/
theorem controller_cases (hs : Tasks.Step (system auth row) s m o s') (hg : Guestless row s) (j : I) :
    (s'.node j).loc.controller = (s.node j).loc.controller ∨
    (∃ id room tl, s.replied m = some (j, ⟨.joinInit id room, tl⟩) ∧ (auth id).userId = row.creatorId ∧
      (s.node j).loc.controller ≠ none ∧ (s'.node j).loc.controller = none ∧
      o = some (j, [.controller row.creatorId .reclaim])) ∨
    (∃ id r, s.replied m = some (j, ⟨.releaseGet id, r⟩) ∧ (s'.node j).loc.roomMeta = none) ∨
    ∃ id sockets c, s.replied m = some (j, ⟨.leaveFetch id, sockets⟩) ∧ sockets ≠ [] ∧
      candidate auth sockets = some c ∧ c ≠ (auth id).userId ∧
      ((auth id).userId = row.creatorId ∨ (s.node j).loc.controller = some (auth id).userId) ∧
      (s'.node j).loc.controller = some c ∧ o = some (j, [.controller c .succession]) := by
  rcases Tasks.node_cases hs j with h | ⟨a, x, pre, post, -, -, -, h⟩ | ⟨d, u, hb, ho, -, h⟩
  · exact Or.inl (by rw [h])
  · exact Or.inl (by rw [h])
  · have hloc : (s'.node j).loc = u.loc := by rw [h, Desk.after_loc]
    cases hb with
    | start r hm =>
      left
      rw [hloc, Local.controller]
      exact congrArg (Option.bind · RoomMeta.activeController) (start_roomMeta r)
    | enter q rest hm hq hfree =>
      left
      rw [hloc]
      exact enter_controller q
    | resume pre post a r hm hc =>
      cases ha : a.turning with
      | false =>
        left
        rw [hloc, Local.controller]
        exact congrArg (Option.bind · RoomMeta.activeController) (resume_roomMeta r ha)
      | true =>
        cases a with
        | joinInit id room =>
          rcases TimelineService.reclaim_cases (auth id).userId (s.node j).loc with ⟨he, -⟩ | ⟨mt, hmt, hu, hact, he⟩
          · left
            rw [hloc]
            simp only [system, resume, await, he]
          · have hcr := (hg.settings hmt).1
            refine Or.inr (Or.inl ⟨id, room, r, hm, hu.trans hcr, ?_, ?_, ?_⟩)
            · rw [controller_of_meta hmt]
              exact hact
            · rw [hloc]
              simp only [system, resume, await, he]
              rfl
            · rw [ho]
              simp only [system, resume, await, he, announce]
              rw [hu.trans hcr]
        | leaveFetch id =>
          by_cases hr : r = []
          · left
            rw [hloc]
            simp only [system, resume, if_pos hr, gated]
          · rcases TimelineService.succession_cases (auth id).userId (candidate auth r) (s.node j).loc with
              he | ⟨mt, c, hmt, hcand, -, hctl, hne, he⟩
            · left
              rw [hloc]
              simp only [system, resume, if_neg hr, await, he]
            · refine Or.inr (Or.inr (Or.inr ⟨id, r, c, hm, hr, hcand, hne, ?_, ?_, ?_⟩))
              · rw [controller_of_meta hmt, ← (hg.settings hmt).1]
                exact hctl
              · rw [hloc]
                simp only [system, resume, if_neg hr, await, he]
                rfl
              · rw [ho]
                simp only [system, resume, if_neg hr, await, he, announce]
        | releaseGet id =>
          refine Or.inr (Or.inr (Or.inl ⟨id, r, hm, ?_⟩))
          rw [hloc]
          rfl
        | _ => cases ha

end SyncGateway
end WatchParty
