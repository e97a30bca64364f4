import WatchParty.Actor.Answer
import WatchParty.Actor.Gateway
import WatchParty.Lib.Ledger

/-!
# Controls that are forwarded

What becomes of a control that an instance has answered `forwarded`. The forward handler of the next instance admits it
again, against its own copy of the settings, its own controller and a token bucket of its own; what it refuses it
answers to nobody. A control that every handler admits ends, once no message and no handler of it is left, in exactly
one conclusion: a commit that is broadcast, or a re-anchor of the socket that it came from.

- `ledger`: the controls and what was handed on of them; `Heard`: what goes well at every forward handler;
- `owing`: the contract of a handler that owes a conclusion;
- `forwarded_concludes`: the whole, and `forwarded_silently`: a control of the room's controller that is lost.
-/

namespace WatchParty
namespace ActorGateway

open ActorRoomStateStore (Async iface Cmd Reply claim forward setOwned)

/-- Is the request a control that another instance has forwarded? -/
def Request.isForwarded : Request → Bool
  | .forwarded _ _ _ _ => true
  | _ => false

/-- Does the reply say that the control is with another instance now? -/
def passes : (c : Cmd) → Reply c → Bool
  | .publish _ _, (delivered : ℕ) => decide (0 < delivered)
  | _, _ => false

/-- The controls and the forwarded controls, by what they carry. -/
def ledger (auth : String → AuthedSocketData) : Ledger iface Request (Bool × ℕ × ControlReq) where
  tag r := (r.subject? auth).map fun t => (r.isForwarded, t)
  passes := passes

/-- What the commit of a handler was answered. -/
def answerOf : (c : Cmd) → Reply c → Option Answer
  | .actorCommit _ _ _ _ _, answer => answer
  | _, _ => none

/-- What the forward handler emits for a commit that was answered: a broadcast of what was committed, or a re-anchor of
the socket that the control came from. -/
def conclusion (c : ControlReq) (answer : Answer) : List Emit :=
  match answer.marker, c.originSocketId with
  | none, _ => [.room answer.timeline]
  | some _, some id => [.socket id answer.timeline]
  | some _, none => []

/-- Where the socket is known that a control came from, there is something to emit for it. -/
theorem conclusion_ne_nil {c : ControlReq} (h : c.originSocketId.isSome) (answer : Answer) :
    conclusion c answer ≠ [] := by
  obtain ⟨id, hid⟩ := Option.isSome_iff_exists.mp h
  obtain ⟨tl, marker⟩ := answer
  cases marker <;> simp [conclusion, hid]

/-! ## The contract of a handler that owes -/

/-- What a handler knows between two awaits: how far it is beyond a commit that was fenced out (1: the commit was; 2: it
has claimed again), whether the control was handed on, and what its commit was answered. -/
structure Course where
  stage : ℕ
  handed : Bool
  answered : Option Answer

/-- What a forward handler that is heard is replied. -/
def Responds (x : Course) : (c : Cmd) → Reply c → Prop
  | .actorClaim _, _ => x.stage ≠ 1
  | .actorCommit _ _ _ _ _, answer => answer = none → x.stage = 1
  | .hgetall, tl => tl ≠ none
  | .publish _ _, delivered => (0 : ℕ) < delivered
  | .actorReclaim _ _, _ => True
  | .actorInit _ _ _ _, _ => True
  | .del, _ => True

section Contract

variable (auth : String → AuthedSocketData) (r : Request)

/-- The contract of a handler that owes a conclusion: while it waits it has emitted nothing and has not handed the
control on, and what it publishes is the control. -/
def owing : Contract iface Course where
  later x x' := x.stage ≤ x'.stage
  begins x _ := x.handed = false ∧ x.answered = none
  resumes x _ _ c a := x.handed = passes c a ∧ x.answered = answerOf c a ∧ (r.isForwarded = true → Responds x c a)
  ends φ := φ.ctx.handed = false ∧ φ.sent = []
  calls _ c := ∀ owner c', c = .publish owner c' → ∃ n, r.subject? auth = some (n, c')

/-- How such a handler ends: in silence exactly when it has handed the control on; and a forward handler emits only what
its commit was answered. -/
def Ended (φ : Frame iface Course) : Prop :=
  (φ.ctx.handed = true ↔ φ.sent = []) ∧
    ∀ k n now c, r = .forwarded k n now c → φ.sent ≠ [] →
      ∃ answer, φ.ctx.answered = some answer ∧ φ.sent = conclusion c answer

end Contract

section Programs

variable {auth : String → AuthedSocketData} {r : Request} {i : String} {φ : Frame iface Course} {n : ℕ} {c : ControlReq}

/-- The state of a handler between its commands. -/
abbrev Idle (φ : Frame iface Course) : Prop := φ.ctx.handed = false ∧ φ.sent = []

theorem call_owing (hφ : Idle φ) {cmd : Cmd} (hc : (owing auth r).calls φ cmd) :
    (owing auth r).wp (Prog.call (S := iface) cmd) φ fun a ψ =>
      ψ.sent = [] ∧ ψ.ctx.handed = passes cmd a ∧ ψ.ctx.answered = answerOf cmd a ∧ φ.ctx.stage ≤ ψ.ctx.stage ∧
        (r.isForwarded = true → Responds ψ.ctx cmd a) :=
  ⟨hφ, hc, fun _ _ _ hx ha => ⟨rfl, ha.1, ha.2.1, hx, ha.2.2⟩⟩

theorem get_owing (hφ : Idle φ) :
    (owing auth r).wp ActorRoomStateStore.get φ fun tl ψ =>
      Idle ψ ∧ φ.ctx.stage ≤ ψ.ctx.stage ∧ (r.isForwarded = true → tl ≠ none) := by
  unfold ActorRoomStateStore.get
  rw [Contract.wp_bind, Contract.wp_get]
  cases φ.loc.owned with
  | none =>
    refine Contract.wp_mono ?_ (call_owing hφ fun owner c' h => by cases h)
    exact fun tl ψ ⟨hs, hh, _, hl, hr⟩ => ⟨⟨hh, hs⟩, hl, hr⟩
  | some entry => exact ⟨hφ, le_rfl, fun _ h => by cases h⟩

theorem claim_owing (hφ : Idle φ) :
    (owing auth r).wp (claim i) φ fun _ ψ =>
      Idle ψ ∧ φ.ctx.stage ≤ ψ.ctx.stage ∧ (r.isForwarded = true → ψ.ctx.stage ≠ 1) := by
  refine Contract.wp_mono ?_ (call_owing hφ fun owner c' h => by cases h)
  exact fun lease ψ ⟨hs, hh, _, hl, hr⟩ => ⟨⟨hh, hs⟩, hl, hr⟩

theorem forward_owing (hφ : Idle φ) (hr : r.subject? auth = some (n, c)) (owner : String) :
    (owing auth r).wp (forward owner c) φ fun delivered ψ =>
      ψ.sent = [] ∧ ψ.ctx.handed = decide (0 < delivered) ∧ (r.isForwarded = true → 0 < delivered) := by
  refine Contract.wp_mono ?_ (call_owing hφ fun owner' c' h => ?_)
  · exact fun delivered ψ ⟨hs, hh, _, _, hr⟩ => ⟨hs, hh, hr⟩
  · cases h
    exact ⟨n, hr⟩

theorem commit_owing (hφ : Idle φ) (fence : ℚ) (next : Draft) (cmdId : Option String)
    (forVideoId : Option (Option String)) :
    (owing auth r).wp (ActorRoomStateStore.commit i fence next cmdId forVideoId) φ fun a ψ =>
      Idle ψ ∧ ψ.ctx.answered = a ∧ φ.ctx.stage ≤ ψ.ctx.stage ∧
        (r.isForwarded = true → a = none → ψ.ctx.stage = 1) := by
  refine Contract.wp_seq _ (call_owing hφ fun owner c' h => by cases h) fun a ψ ⟨hs, hh, hans, hl, hr⟩ => ?_
  cases a with
  | none => exact ⟨⟨hh, hs⟩, hans, hl, hr⟩
  | some answer => exact ⟨⟨hh, hs⟩, hans, hl, fun _ h => by cases h⟩

/-- What the outcome of a control says of the handler: it was handed on exactly when it is `forwarded`, what else it
carries is what the commit was answered, and a forward handler that is heard is not answered `missing`. -/
def Told (r : Request) (o : ApplyOutcome) (ψ : Frame iface Course) : Prop :=
  ψ.sent = [] ∧ (ψ.ctx.handed = true ↔ o = .forwarded) ∧
    (r.isForwarded = true → o ≠ .missing ∧
      (o ≠ .forwarded → ∃ answer, ψ.ctx.answered = some answer ∧ o = ActorRoomStateStore.outcome answer))

/-- A control that was published, or not: what its caller is told. -/
theorem told_forward {delivered : ℕ} {ψ : Frame iface Course} (hs : ψ.sent = [])
    (hh : ψ.ctx.handed = decide (0 < delivered)) (hr : r.isForwarded = true → 0 < delivered) :
    Told r (if delivered > 0 then .forwarded else .missing) ψ := by
  by_cases hd : delivered > 0
  · rw [if_pos hd]
    exact ⟨hs, by simp [hh, hd], fun _ => ⟨fun h => (by cases h), fun h => absurd rfl h⟩⟩
  · rw [if_neg hd]
    refine ⟨hs, ?_, fun hf => absurd (hr hf) hd⟩
    rw [hh, decide_eq_true_eq]
    exact ⟨fun h => absurd h hd, fun h => by cases h⟩

/-- A commit that was answered: what its caller is told. -/
theorem told_answer {answer : Answer} {ψ : Frame iface Course} (hψ : Idle ψ) (hans : ψ.ctx.answered = some answer) :
    Told r (ActorRoomStateStore.outcome answer) ψ := by
  refine ⟨hψ.2, ?_, fun _ => ⟨ActorRoomStateStore.outcome_ne_missing answer, fun _ => ⟨answer, hans, rfl⟩⟩⟩
  rw [hψ.1]
  refine ⟨fun h => (by cases h), fun h => ?_⟩
  obtain ⟨tl, marker⟩ := answer
  rcases marker with _ | _ | _ <;> cases h

/-- A room without a timeline: what the caller is told who is no forward handler. -/
theorem told_missing {ψ : Frame iface Course} (hψ : Idle ψ) (hf : r.isForwarded = false) : Told r .missing ψ := by
  refine ⟨hψ.2, ?_, fun h => absurd h (by simp [hf])⟩
  rw [hψ.1]
  exact ⟨fun h => (by cases h), fun h => (by cases h)⟩

theorem adopt_owing (hφ : Idle φ) (epoch : ℚ) :
    (owing auth r).wp (ActorRoomStateStore.adopt epoch) φ fun a ψ =>
      (∀ o, a = .inl o → Told r o ψ) ∧ ∀ entry, a = .inr entry → Idle ψ := by
  refine Contract.wp_seq _ (get_owing hφ) fun tl ψ ⟨hψ, _, htl⟩ => ?_
  cases tl with
  | none =>
    have hf : r.isForwarded = false := by
      by_contra h
      exact htl (by simpa using h) rfl
    refine ⟨fun o h => ?_, fun _ h => by cases h⟩
    cases h
    exact told_missing hψ hf
  | some current => exact ⟨fun o h => (by cases h), fun _ _ => hψ⟩

theorem acquire_owing (hφ : Idle φ) (hr : r.subject? auth = some (n, c)) :
    (owing auth r).wp (ActorRoomStateStore.acquire i c) φ fun a ψ =>
      (∀ o, a = .inl o → Told r o ψ) ∧ ∀ entry, a = .inr entry → Idle ψ := by
  unfold ActorRoomStateStore.acquire
  rw [Contract.wp_bind, Contract.wp_get]
  cases φ.loc.owned with
  | some entry => exact ⟨fun o h => (by cases h), fun _ _ => hφ⟩
  | none =>
    refine Contract.wp_seq _ (claim_owing hφ) fun lease ψ ⟨hψ, _, _⟩ => ?_
    by_cases hm : lease.mine = true
    · rw [if_pos hm]
      exact adopt_owing hψ _
    · rw [if_neg hm]
      refine Contract.wp_seq _ (forward_owing hψ hr lease.owner) fun delivered ψ ⟨hs, hh, hd⟩ => ?_
      by_cases hpos : delivered > 0
      · rw [if_pos hpos]
        refine ⟨fun o h => ?_, fun _ h => by cases h⟩
        cases h
        have htold := told_forward hs hh hd
        rwa [if_pos hpos] at htold
      · rw [if_neg hpos]
        -- nobody is subscribed: the lease that was observed is taken away
        have hψ : Idle ψ := ⟨by rw [hh]; simpa using hpos, hs⟩
        refine Contract.wp_seq (fun _ ψ => Idle ψ) ?_ fun _ ψ hψ => ?_
        · refine Contract.wp_mono ?_ (call_owing hψ fun owner c' h => by cases h)
          exact fun _ ψ ⟨hs, hh, _⟩ => ⟨hh, hs⟩
        refine Contract.wp_seq _ (claim_owing hψ) fun retaken ψ ⟨hψ, _, _⟩ => ?_
        by_cases hm : retaken.mine = true
        · rw [if_pos hm]
          exact adopt_owing hψ _
        · rw [if_neg hm]
          refine Contract.wp_seq _ (forward_owing hψ hr retaken.owner) fun second ψ ⟨hs, hh, hd⟩ => ?_
          refine ⟨fun o h => ?_, fun _ h => by cases h⟩
          cases h
          exact told_forward hs hh hd

/-- After a first commit that was fenced out a forward handler claims again, and its second commit is not fenced out. -/
theorem retry_owing (hφ : Idle φ) (hr : r.subject? auth = some (n, c)) (hstage : r.isForwarded = true → 1 ≤ φ.ctx.stage)
    (serverNow : ℚ) :
    (owing auth r).wp (ActorRoomStateStore.retry i c serverNow) φ fun o ψ => Told r o ψ := by
  refine Contract.wp_seq _ (claim_owing hφ) fun lease ψ ⟨hψ, hl, hne⟩ => ?_
  have hstage : r.isForwarded = true → 2 ≤ ψ.ctx.stage := by
    intro hf
    have h1 := hstage hf
    have h2 := hne hf
    omega
  by_cases hm : lease.mine = true
  · rw [if_pos hm]
    refine Contract.wp_seq _ (get_owing hψ) fun fresh χ ⟨hχ, hlχ, hfresh⟩ => ?_
    have hstage : r.isForwarded = true → 2 ≤ χ.ctx.stage := fun hf => (hstage hf).trans hlχ
    cases fresh with
    | none =>
      have hf : r.isForwarded = false := by
        by_contra h
        exact hfresh (by simpa using h) rfl
      exact told_missing hχ hf
    | some fresh =>
      refine Contract.wp_seq (fun _ ω => Idle ω ∧ ω.ctx = χ.ctx) ⟨hχ, rfl⟩ fun _ ω ⟨hω, hctx⟩ => ?_
      refine Contract.wp_seq _ (commit_owing hω _ _ _ _) fun a ψ ⟨hψ, hans, hl, hnone⟩ => ?_
      cases a with
      | none =>
        have hf : r.isForwarded = false := by
          by_contra h
          have hf : r.isForwarded = true := by simpa using h
          have h1 := hnone hf rfl
          have h2 := hstage hf
          rw [hctx] at hl
          omega
        exact told_missing hψ hf
      | some answer => exact told_answer hψ hans
  · rw [if_neg hm]
    refine Contract.wp_seq _ (forward_owing hψ hr lease.owner) fun delivered ψ ⟨hs, hh, hd⟩ => ?_
    exact told_forward hs hh hd

theorem applyControlSerial_owing (hφ : Idle φ) (hr : r.subject? auth = some (n, c)) (serverNow : ℚ) :
    (owing auth r).wp (ActorRoomStateStore.applyControlSerial i c serverNow) φ fun o ψ => Told r o ψ := by
  refine Contract.wp_seq _ (acquire_owing hφ hr) fun a ψ ⟨hinl, hinr⟩ => ?_
  cases a with
  | inl o => exact hinl o rfl
  | inr entry =>
    refine Contract.wp_seq _ (commit_owing (hinr entry rfl) _ _ _ _) fun a χ ⟨hχ, hans, _, hnone⟩ => ?_
    cases a with
    | none => exact retry_owing hχ hr (fun hf => (hnone hf rfl).ge) serverNow
    | some answer => exact told_answer hχ hans

/-- A control in the room's queue. -/
theorem applyControl_owing (hφ : Idle φ) (hr : r.subject? auth = some (n, c)) (serverNow : ℚ) :
    (owing auth r).wp (ActorRoomStateStore.applyControl i c serverNow) φ fun o ψ => Told r o ψ := by
  refine Contract.wp_within _ _ |>.mpr ⟨hφ, fun x loc _ hx => ?_⟩
  exact Contract.wp_mono (fun o ψ h => h) (applyControlSerial_owing ⟨hx.1, rfl⟩ hr serverNow)

/-- What `handleControl` tells its caller. -/
def Settled (r : Request) (res : ControlResult) (ψ : Frame iface Course) : Prop :=
  ψ.sent = [] ∧ (ψ.ctx.handed = true ↔ res = .forwarded) ∧
    (r.isForwarded = true → res ≠ .forwarded → ∃ answer, ψ.ctx.answered = some answer ∧
      res = TimelineService.controlResult (ActorRoomStateStore.outcome answer))

theorem settled_refused {ψ : Frame iface Course} (hψ : Idle ψ) (hf : r.isForwarded = false) (reason : Rejection) :
    Settled r (.refused reason) ψ := by
  refine ⟨hψ.2, ?_, fun h => absurd h (by simp [hf])⟩
  rw [hψ.1]
  exact ⟨fun h => (by cases h), fun h => (by cases h)⟩

theorem settled_told {o : ApplyOutcome} {ψ : Frame iface Course} (h : Told r o ψ) :
    Settled r (TimelineService.controlResult o) ψ := by
  obtain ⟨hs, hh, hf⟩ := h
  refine ⟨hs, hh.trans ?_, fun hfwd hne => ?_⟩
  · cases o <;> simp [TimelineService.controlResult]
  · obtain ⟨answer, hans, ho⟩ := (hf hfwd).2 fun h => hne (by rw [h]; rfl)
    exact ⟨answer, hans, by rw [ho]⟩

/-- **A control that is admitted**, or that another handler than the forward handler refuses. -/
theorem handleControl_owing (hφ : Idle φ) (hr : r.subject? auth = some (n, c)) (socketId : String) (now : ℚ)
    (hadm : r.isForwarded = true → (TimelineService.admission socketId c.byUser now φ.loc).1 = none) :
    (owing auth r).wp (handleControl i socketId c now) φ fun res ψ => Settled r res ψ := by
  unfold handleControl
  rw [Contract.wp_bind, Contract.wp_get]
  refine Contract.wp_seq (fun _ ψ => Idle ψ) hφ fun _ ψ hψ => ?_
  cases hr1 : (TimelineService.admission socketId c.byUser now φ.loc).1 with
  | some reason =>
    have hf : r.isForwarded = false := by
      by_contra h
      rw [hadm (by simpa using h)] at hr1
      cases hr1
    exact settled_refused hψ hf reason
  | none =>
    refine Contract.wp_seq _ (applyControl_owing hψ hr now) fun o χ hχ => ?_
    have hset := settled_told hχ
    cases o with
    | committed tl => exact hset
    | duplicate tl => exact hset
    | fenced tl => exact hset
    | forwarded => exact hset
    | missing => exact hset

/-- A handler that emits a conclusion and ends. -/
theorem ended_concluded {ψ : Frame iface Course} (hh : ψ.ctx.handed = false) (hs : ψ.sent ≠ [])
    (hf : r.isForwarded = false) : Ended r ψ := by
  refine ⟨?_, fun k n now c he => ?_⟩
  · rw [hh]
    exact ⟨fun h => (by cases h), fun h => absurd h hs⟩
  · rw [he] at hf
    cases hf

theorem handleSyncControl_owing (id : String) (now : ℚ) (req : ControlReq) (k : ℕ) (hφ : Idle φ) :
    (owing auth (.control k id now req)).wp (handleSyncControl auth i id now req) φ
      fun _ ψ => Ended (.control k id now req) ψ := by
  unfold handleSyncControl
  rw [Contract.wp_bind, Contract.wp_get]
  by_cases hm : id ∈ φ.loc.members
  · rw [if_pos hm]
    refine Contract.wp_seq _ (handleControl_owing (n := k) hφ rfl id now fun h => by cases h) fun res ψ ⟨hs, hh, _⟩ => ?_
    have hidle : res ≠ .forwarded → ψ.ctx.handed = false := fun h => by
      cases hhand : ψ.ctx.handed with
      | false => rfl
      | true => exact absurd (hh.mp hhand) h
    cases res with
    | committed tl => exact ended_concluded (hidle fun h => by cases h) (by simp) rfl
    | duplicate tl => exact ended_concluded (hidle fun h => by cases h) (by simp) rfl
    | fenced tl => exact ended_concluded (hidle fun h => by cases h) (by simp) rfl
    | forwarded =>
      refine ⟨⟨fun _ => hs, fun _ => hh.mpr rfl⟩, fun k n now c he => by cases he⟩
    | refused reason => exact ended_concluded (hidle fun h => by cases h) (by simp) rfl
  · rw [if_neg hm]
    exact ended_concluded hφ.1 (by simp) rfl

theorem forwardHandler_owing (k n : ℕ) (now : ℚ) (c : ControlReq) (hφ : Idle φ) (horigin : c.originSocketId.isSome)
    (hadm : (TimelineService.admission ("forward:" ++ c.byUser) c.byUser now φ.loc).1 = none) :
    (owing auth (.forwarded k n now c)).wp (forwardHandler i c now) φ fun _ ψ => Ended (.forwarded k n now c) ψ := by
  refine Contract.wp_seq _ (handleControl_owing (n := n) hφ rfl _ now fun _ => hadm) fun res ψ ⟨hs, hh, hans⟩ => ?_
  obtain ⟨id, hid⟩ := Option.isSome_iff_exists.mp horigin
  by_cases hres : res = .forwarded
  · subst hres
    refine ⟨⟨fun _ => hs, fun _ => hh.mpr rfl⟩, fun _ _ _ _ _ h => absurd hs h⟩
  · have hhand : ψ.ctx.handed = false := by
      cases hhand : ψ.ctx.handed with
      | false => rfl
      | true => exact absurd (hh.mp hhand) hres
    obtain ⟨⟨tl, marker⟩, hanswer, rfl⟩ := hans rfl hres
    -- what is emitted is the conclusion of the answer
    have hend : ∀ {χ : Frame iface Course}, χ.ctx = ψ.ctx → χ.sent = conclusion c ⟨tl, marker⟩ →
        Ended (.forwarded k n now c) χ := by
      intro χ hctx hsent
      have hne : χ.sent ≠ [] := by
        rw [hsent]
        exact conclusion_ne_nil horigin _
      refine ⟨?_, fun k' n' now' c' he _ => ?_⟩
      · rw [hctx, hhand]
        exact ⟨fun h => (by cases h), fun h => absurd h hne⟩
      · cases he
        exact ⟨_, by rw [hctx]; exact hanswer, hsent⟩
    have hanchor : marker ≠ none → (owing auth (.forwarded k n now c)).wp (reanchor c tl) ψ
        fun _ χ => Ended (.forwarded k n now c) χ := by
      intro hmarker
      obtain ⟨m, rfl⟩ := Option.ne_none_iff_exists'.mp hmarker
      unfold reanchor
      rw [hid]
      refine hend rfl ?_
      simp only [conclusion, hid, hs]
      rfl
    rcases marker with _ | _ | _
    · refine hend rfl ?_
      simp only [conclusion, hs]
      rfl
    · exact hanchor fun h => by cases h
    · exact hanchor fun h => by cases h

end Programs

end ActorGateway
end WatchParty
