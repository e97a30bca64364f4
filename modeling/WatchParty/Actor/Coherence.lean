import WatchParty.Actor.Log
import WatchParty.Actor.Runs

/-!
# What an owner commits from

An instance commits from its own copy of the timeline. While it holds the lease under which the stored timeline was
written, the copy should be that timeline; the author aside, which a reply may lack.

- `live`: the timeline that the copy of an instance must be, if any;
- `cohering`: the contract of the programs; its context is the live timeline as far as it is known;
- `system_cohering`: every program of the store keeps it.
-/

namespace WatchParty
namespace ActorRoomStateStore

/-- The stored timeline, when it was written under the lease that instance `i` holds. -/
def live (i : String) (σ : Room) : Option Timeline :=
  match σ.leaseNow, σ.loadTl with
  | some lease, some w => if lease.owner = i ∧ w.storeEpoch = lease.epoch then some (plain w.toTimeline) else none
  | _, _ => none

theorem live_eq_some {i : String} {σ : Room} {l : Timeline} :
    live i σ = some l ↔ ∃ w, σ.leaseNow = some ⟨i, w.storeEpoch⟩ ∧ σ.loadTl = some w ∧ l = plain w.toTimeline := by
  unfold live
  cases hl : σ.leaseNow with
  | none => simp
  | some lease =>
    cases hw : σ.loadTl with
    | none => simp
    | some w =>
      obtain ⟨owner, epoch⟩ := lease
      simp only [Option.some.injEq, Option.ite_none_right_eq_some, Lease.mk.injEq]
      constructor
      · rintro ⟨⟨rfl, rfl⟩, rfl⟩
        exact ⟨w, ⟨rfl, rfl⟩, rfl, rfl⟩
      · rintro ⟨_, ⟨rfl, rfl⟩, rfl, rfl⟩
        exact ⟨⟨rfl, rfl⟩, rfl⟩

/-- What is stored under the instance's lease is live. -/
theorem live_of_stored {i : String} {σ : Room} {w : TlHash} (hl : σ.leaseNow = some ⟨i, w.storeEpoch⟩)
    (hw : σ.loadTl = some w) : live i σ = some (plain w.toTimeline) := live_eq_some.mpr ⟨w, hl, hw, rfl⟩

/-- A command that writes no hash makes nothing live, when no lease is minted under an epoch that was written under. -/
theorem live_keep {σ σ' : Room} {op : ActorPlane.Op} {out : ActorPlane.Out} (hs : ActorPlane.Step σ op out σ')
    (hN : ActorPlane.Newest σ)
    (hmint : ∀ i, op = .claim i → σ.leaseNow = none → ∀ w ∈ σ.saves, w.storeEpoch ≠ σ.now)
    (hsaves : σ'.saves = σ.saves) {i : String} {l : Timeline} (h : live i σ' = some l) : live i σ = some l := by
  obtain ⟨w, hl, hw, rfl⟩ := live_eq_some.mp h
  cases hs with
  | mint j hn =>
    rw [ActorPlane.granted_leaseNow, Option.some.injEq, Lease.mk.injEq] at hl
    exact absurd hl.2.symm (hmint j rfl hn w (List.mem_of_getLast? (hN w hw)))
  | renew j lease hlease ho =>
    rw [ActorPlane.granted_leaseNow] at hl
    exact live_of_stored (hlease.trans hl) hw
  | foreign j lease hlease ho => exact h
  | revoke owner fence n hh => cases hl
  | birth j fence videoId mediaTime trim new hh hn hnew => simp at hsaves
  | commit j fence next cmdId forVideoId trim new hh hok hnew => simp at hsaves
  | clear => cases hl
  | tick d =>
    have hle : σ.now ≤ (σ.tick d).now := Nat.le_add_right _ _
    exact live_of_stored (Expiring.get_of_le hl hle) (Expiring.get_of_le hw hle)
  | keep op out hout hop hlout => exact h

/-- A command that writes a hash makes it live for the instance that holds the lease, and nothing for others. -/
theorem live_write {σ σ' : Room} {op : ActorPlane.Op} {out : ActorPlane.Out} (hs : ActorPlane.Step σ op out σ')
    (hsaves : σ'.saves ≠ σ.saves) : ∃ lease, op.caller = some lease ∧ σ.leaseNow = some lease ∧
      ∀ i l, live i σ' = some l → i = lease.owner ∧ l.storeEpoch = lease.epoch := by
  rcases ActorPlane.write_step hs with hsame | ⟨lease, new, hcaller, hlease, hlease', -, hepoch, -, hload⟩
  · exact absurd hsame hsaves
  · refine ⟨lease, hcaller, hlease, fun i l h => ?_⟩
    obtain ⟨w, hl, hw, rfl⟩ := live_eq_some.mp h
    rw [hlease'] at hl
    rw [hload] at hw
    cases hl
    cases hw
    exact ⟨rfl, rfl⟩

/-- The timeline is the live one. -/
def Agrees (x : Option Timeline) (tl : Timeline) : Prop := ∀ l, x = some l → plain tl = l

/-- The instance's copy, if it has one, is the live timeline. -/
def Faithful (x : Option Timeline) (owned : Option Owned) : Prop := ∀ entry, owned = some entry → Agrees x entry.timeline

theorem faithful_none (x : Option Timeline) : Faithful x none := fun _ h => by cases h

/-- To follow a timeline it does not matter who committed it. -/
theorem follows_plain {next : Draft} {tl : Timeline} : Follows next (plain tl) ↔ Follows next tl := by
  constructor
  · intro h
    cases h with
    | play hr hv hp => exact .play hr hv hp
    | pause hr hv hp => exact .pause hr hv hp
    | seek hr hv hp => exact .seek hr hv hp
    | setVideo hr hp hm => exact .setVideo hr hp hm
    | snapshot hr hv hp hm => exact .snapshot hr hv hp hm
  · intro h
    cases h with
    | play hr hv hp => exact .play hr hv hp
    | pause hr hv hp => exact .pause hr hv hp
    | seek hr hv hp => exact .seek hr hv hp
    | setVideo hr hp hm => exact .setVideo hr hp hm
    | snapshot hr hv hp hm => exact .snapshot hr hv hp hm

theorem Agrees.follows {x : Option Timeline} {tl : Timeline} {next : Draft} (h : Agrees x tl) (hf : Follows next tl) :
    ∀ l, x = some l → Follows next l := fun l hl => h l hl ▸ follows_plain.mpr hf

/-- What a call commits: a snapshot of a playing timeline, or its own control of some timeline. -/
def Computed (r : ℕ × Call) (next : Draft) : Prop :=
  match r.2 with
  | .applySnapshot serverNow => ∃ tl, tl.isPlaying = true ∧ next = snapshot tl serverNow
  | .applyControl req serverNow =>
    ∃ tl, next = WatchParty.applyControl tl req.intent req.mediaTime serverNow req.byUser req.videoId
  | _ => False

/-- Only `applySnapshot` computes snapshots, at its own instant. -/
theorem Computed.snapshot {r : ℕ × Call} {next : Draft} (h : Computed r next) (hr : next.reason = .snapshot) :
    ∃ n serverNow, r = (n, .applySnapshot serverNow) ∧ next.stampedAt = serverNow := by
  obtain ⟨n, call⟩ := r
  cases call with
  | applySnapshot serverNow =>
    obtain ⟨tl, -, rfl⟩ := h
    exact ⟨n, serverNow, rfl, rfl⟩
  | applyControl req serverNow =>
    obtain ⟨tl, rfl⟩ := h
    rcases req with ⟨_ | _ | _ | _⟩ <;> cases hr
  | get => exact absurd h not_false
  | init videoId mediaTime serverNow => exact absurd h not_false
  | clear => exact absurd h not_false
  | renewAll => exact absurd h not_false

/-- A computed draft follows what it was computed from. -/
theorem Computed.follows {r : ℕ × Call} {next : Draft} (h : Computed r next) : ∃ tl, Follows next tl := by
  obtain ⟨n, call⟩ := r
  cases call with
  | applySnapshot serverNow =>
    obtain ⟨tl, -, rfl⟩ := h
    exact ⟨tl, follows_snapshot tl serverNow⟩
  | applyControl req serverNow =>
    obtain ⟨tl, rfl⟩ := h
    exact ⟨tl, follows_applyControl tl _ _ _ _ _⟩
  | get => exact absurd h not_false
  | init videoId mediaTime serverNow => exact absurd h not_false
  | clear => exact absurd h not_false
  | renewAll => exact absurd h not_false

/-- How a segment may go on after a reply: with a faithful copy, and with a live timeline in the reply of a command
that makes one. A commit replaces the copy. -/
def Resumes (x : Option Timeline) (owned : Option Owned) (held : List Lane) : (c : Cmd) → Reply c → Prop
  | .actorCommit _ _ _ _ _, a => ∀ answer, a = some answer → Agrees x answer.timeline
  | .actorInit _ _ _ _, a => Faithful x owned ∧ ∀ tl, a = some tl → Agrees x tl
  | .hgetall, a => Faithful x owned ∧ (Lane.queue ∈ held → ∀ tl, a = some tl → Agrees x tl)
  | .actorClaim _, _ => Faithful x owned
  | .actorReclaim _ _, _ => Faithful x owned
  | .del, _ => Faithful x owned
  | .publish _ _, _ => Faithful x owned

/-- What a call of instance `i` may send: a commit only in the queue, with a draft that follows the live timeline. -/
def Sends (i : String) (r : ℕ × Call) (x : Option Timeline) (held : List Lane) : Cmd → Prop
  | .actorCommit j _ next _ _ => j = i ∧ Lane.queue ∈ held ∧ Computed r next ∧ ∀ l, x = some l → Follows next l
  | .actorInit j _ _ _ => j = i
  | _ => True

/-- The contract of call `r` of instance `i`. -/
def cohering (i : String) (r : ℕ × Call) : Contract iface (Option Timeline) where
  later _ _ := True
  begins x loc := Faithful x loc.owned
  resumes x loc held c a := Resumes x loc.owned held c a
  ends φ := Faithful φ.ctx φ.loc.owned
  calls φ c := Sends i r φ.ctx φ.held c

section Programs

variable {i : String} {r : ℕ × Call} {φ : Frame iface (Option Timeline)}

theorem call_cohering (hφ : (cohering i r).ends φ) {c : Cmd} (hc : Sends i r φ.ctx φ.held c) :
    (cohering i r).wp (Prog.call (S := iface) c) φ
      fun a ψ => ψ.held = φ.held ∧ Resumes ψ.ctx ψ.loc.owned ψ.held c a :=
  ⟨hφ, hc, fun _ _ _ _ ha => ⟨rfl, ha⟩⟩

theorem claim_cohering (hφ : (cohering i r).ends φ) :
    (cohering i r).wp (claim i) φ fun _ ψ => (cohering i r).ends ψ ∧ ψ.held = φ.held := by
  refine Contract.wp_mono (fun a ψ h => ?_) (call_cohering hφ (c := .actorClaim i) trivial)
  exact ⟨h.2, h.1⟩

theorem forward_cohering (hφ : (cohering i r).ends φ) (j : String) (req : ControlReq) :
    (cohering i r).wp (forward j req) φ fun _ ψ => (cohering i r).ends ψ ∧ ψ.held = φ.held := by
  refine Contract.wp_mono (fun a ψ h => ?_) (call_cohering hφ (c := .publish j req) trivial)
  exact ⟨h.2, h.1⟩

/-- In the queue, what is read is the live timeline. -/
theorem get_cohering (hφ : (cohering i r).ends φ) :
    (cohering i r).wp get φ fun tl ψ => (cohering i r).ends ψ ∧ ψ.held = φ.held ∧
      (Lane.queue ∈ φ.held → ∀ t, tl = some t → Agrees ψ.ctx t) := by
  unfold get
  rw [Contract.wp_bind, Contract.wp_get]
  cases ho : φ.loc.owned with
  | none =>
    refine Contract.wp_mono (fun a ψ h => ?_) (call_cohering hφ (c := .hgetall) trivial)
    obtain ⟨hheld, hfaithful, hlive⟩ := h
    exact ⟨hfaithful, hheld, fun hq => hlive (hheld.symm ▸ hq)⟩
  | some entry =>
    refine ⟨hφ, rfl, fun _ t ht => ?_⟩
    cases ht
    exact hφ entry ho

theorem setOwned_cohering {entry : Option Owned} (he : Faithful φ.ctx entry) :
    (cohering i r).wp (setOwned entry) φ
      fun _ ψ => (cohering i r).ends ψ ∧ ψ.held = φ.held ∧ ψ.ctx = φ.ctx := ⟨he, rfl, rfl⟩

theorem commit_cohering (hφ : (cohering i r).ends φ) (hq : Lane.queue ∈ φ.held) {next : Draft} {tl : Timeline}
    (hnext : Computed r next) (htl : Agrees φ.ctx tl) (hf : Follows next tl) (fence : ℚ) (cmdId : Option String)
    (forVideoId : Option (Option String)) :
    (cohering i r).wp (commit i fence next cmdId forVideoId) φ
      fun _ ψ => (cohering i r).ends ψ ∧ ψ.held = φ.held := by
  have hc : Sends i r φ.ctx φ.held (.actorCommit i fence next cmdId forVideoId) :=
    ⟨rfl, hq, hnext, htl.follows hf⟩
  refine Contract.wp_seq _ (call_cohering hφ hc) fun a ψ ⟨hheld, ha⟩ => ?_
  cases a with
  | none => exact ⟨faithful_none _, hheld⟩
  | some answer =>
    refine ⟨fun entry he => ?_, hheld⟩
    obtain ⟨old, -, rfl⟩ := Option.map_eq_some_iff.mp he
    exact ha answer rfl

theorem adopt_cohering (hφ : (cohering i r).ends φ) (hq : Lane.queue ∈ φ.held) (epoch : ℚ) :
    (cohering i r).wp (adopt epoch) φ fun a ψ => (cohering i r).ends ψ ∧ ψ.held = φ.held ∧
      ∀ entry, a = .inr entry → Agrees ψ.ctx entry.timeline := by
  refine Contract.wp_seq _ (get_cohering hφ) fun tl ψ ⟨hψ, hheld, htl⟩ => ?_
  cases tl with
  | none => exact ⟨hψ, hheld, fun entry h => by cases h⟩
  | some current =>
    have hlive : Agrees ψ.ctx current := htl hq current rfl
    refine ⟨fun entry h => ?_, hheld, fun entry h => ?_⟩
    · cases h
      exact hlive
    · cases h
      exact hlive

theorem acquire_cohering (hφ : (cohering i r).ends φ) (hq : Lane.queue ∈ φ.held) (req : ControlReq) :
    (cohering i r).wp (acquire i req) φ fun a ψ => (cohering i r).ends ψ ∧ Lane.queue ∈ ψ.held ∧
      ∀ entry, a = .inr entry → Agrees ψ.ctx entry.timeline := by
  have hadopt : ∀ {ψ : Frame iface (Option Timeline)} {epoch : ℚ}, (cohering i r).ends ψ → ψ.held = φ.held →
      (cohering i r).wp (adopt epoch) ψ fun a χ => (cohering i r).ends χ ∧ Lane.queue ∈ χ.held ∧
        ∀ entry, a = .inr entry → Agrees χ.ctx entry.timeline := by
    intro ψ epoch hψ hheld
    have hψq : Lane.queue ∈ ψ.held := hheld.symm ▸ hq
    exact Contract.wp_mono (fun a χ h => ⟨h.1, h.2.1.symm ▸ hψq, h.2.2⟩) (adopt_cohering hψ hψq _)
  unfold acquire
  rw [Contract.wp_bind, Contract.wp_get]
  cases ho : φ.loc.owned with
  | some entry =>
    refine ⟨hφ, hq, fun e h => ?_⟩
    cases h
    exact hφ entry ho
  | none =>
    refine Contract.wp_seq _ (claim_cohering hφ) fun lease ψ ⟨hψ, hh⟩ => ?_
    by_cases hm : lease.mine = true
    · rw [if_pos hm]
      exact hadopt hψ hh
    · rw [if_neg hm]
      refine Contract.wp_seq _ (forward_cohering hψ _ _) fun delivered ψ' ⟨hψ', hh'⟩ => ?_
      have hq' : Lane.queue ∈ ψ'.held := (hh'.trans hh).symm ▸ hq
      by_cases hd : delivered > 0
      · rw [if_pos hd]
        exact ⟨hψ', hq', fun entry h => by cases h⟩
      · rw [if_neg hd]
        refine Contract.wp_seq _ (call_cohering hψ' (c := .actorReclaim _ _) trivial) fun _ χ ⟨hhχ, hχ⟩ => ?_
        refine Contract.wp_seq _ (claim_cohering hχ) fun retaken χ' ⟨hχ', hhχ'⟩ => ?_
        have hheld : χ'.held = φ.held := hhχ'.trans (hhχ.trans (hh'.trans hh))
        by_cases hr : retaken.mine = true
        · rw [if_pos hr]
          exact hadopt hχ' hheld
        · rw [if_neg hr]
          refine Contract.wp_seq _ (forward_cohering hχ' _ _) fun second ω ⟨hω, hhω⟩ => ?_
          exact ⟨hω, (hhω.trans hheld).symm ▸ hq, fun entry h => by cases h⟩

theorem retry_cohering (hφ : (cohering i r).ends φ) (hq : Lane.queue ∈ φ.held) {n : ℕ} {req : ControlReq}
    {serverNow : ℚ} (hr : r = (n, .applyControl req serverNow)) :
    (cohering i r).wp (retry i req serverNow) φ fun _ ψ => (cohering i r).ends ψ := by
  refine Contract.wp_seq _ (claim_cohering hφ) fun nowLease ψ ⟨hψ, hh⟩ => ?_
  have hψq : Lane.queue ∈ ψ.held := hh.symm ▸ hq
  by_cases hm : nowLease.mine = true
  · rw [if_pos hm]
    refine Contract.wp_seq _ (get_cohering hψ) fun fresh χ ⟨hχ, hhχ, hlive⟩ => ?_
    cases fresh with
    | none => exact hχ
    | some fresh =>
      have hfresh : Agrees χ.ctx fresh := hlive hψq fresh rfl
      have hcopy : Faithful χ.ctx (some ⟨nowLease.epoch, fresh⟩) := fun entry h => by
        cases h
        exact hfresh
      refine Contract.wp_seq _ (setOwned_cohering hcopy) fun _ ω ⟨hω, hhω, hctx⟩ => ?_
      have hωq : Lane.queue ∈ ω.held := (hhω.trans hhχ).symm ▸ hψq
      have hnext : Computed r (WatchParty.applyControl fresh req.intent req.mediaTime serverNow req.byUser
          req.videoId) := by
        rw [hr]
        exact ⟨fresh, rfl⟩
      refine Contract.wp_seq _ (commit_cohering hω hωq hnext (hctx.symm ▸ hfresh) (follows_applyControl _ _ _ _ _ _)
        _ _ _) fun a ψ ⟨hψ, _⟩ => ?_
      cases a with
      | none => exact hψ
      | some answer => exact hψ
  · rw [if_neg hm]
    exact Contract.wp_seq _ (forward_cohering hψ _ _) fun _ χ ⟨hχ, _⟩ => hχ

theorem applyControlSerial_cohering (hφ : (cohering i r).ends φ) (hq : Lane.queue ∈ φ.held) {n : ℕ}
    {req : ControlReq} {serverNow : ℚ} (hr : r = (n, .applyControl req serverNow)) :
    (cohering i r).wp (applyControlSerial i req serverNow) φ fun _ ψ => (cohering i r).ends ψ := by
  refine Contract.wp_seq _ (acquire_cohering hφ hq req) fun a ψ ⟨hψ, hψq, hentry⟩ => ?_
  cases a with
  | inl o => exact hψ
  | inr entry =>
    have hnext : Computed r (WatchParty.applyControl entry.timeline req.intent req.mediaTime serverNow req.byUser
        req.videoId) := by
      rw [hr]
      exact ⟨entry.timeline, rfl⟩
    refine Contract.wp_seq _ (commit_cohering hψ hψq hnext (hentry entry rfl) (follows_applyControl _ _ _ _ _ _)
      _ _ _) fun a χ ⟨hχ, hh⟩ => ?_
    cases a with
    | none => exact retry_cohering hχ (hh.symm ▸ hψq) hr
    | some answer => exact hχ

theorem applySnapshotSerial_cohering (hφ : (cohering i r).ends φ) (hq : Lane.queue ∈ φ.held) {n : ℕ} {serverNow : ℚ}
    (hr : r = (n, .applySnapshot serverNow)) :
    (cohering i r).wp (applySnapshotSerial i serverNow) φ fun _ ψ => (cohering i r).ends ψ := by
  unfold applySnapshotSerial
  rw [Contract.wp_bind, Contract.wp_get]
  cases ho : φ.loc.owned with
  | none => exact hφ
  | some entry =>
    show (cohering i r).wp (if entry.timeline.isPlaying = true then _ else _) φ _
    by_cases hp : entry.timeline.isPlaying = true
    · rw [if_pos hp]
      have hnext : Computed r (snapshot entry.timeline serverNow) := by
        rw [hr]
        exact ⟨entry.timeline, hp, rfl⟩
      exact Contract.wp_seq _ (commit_cohering hφ hq hnext (hφ entry ho) (follows_snapshot _ _) _ _ _)
        fun a ψ ⟨hψ, _⟩ => hψ
    · rw [if_neg hp]
      exact hφ

theorem fallback_cohering (hφ : (cohering i r).ends φ) (epoch : ℚ) (videoId : Option String) (mediaTime serverNow : ℚ) :
    (cohering i r).wp (fallback epoch videoId mediaTime serverNow) φ fun _ ψ => (cohering i r).ends ψ := by
  refine Contract.wp_seq _ (get_cohering hφ) fun tl ψ ⟨hψ, _⟩ => ?_
  cases tl with
  | none => exact hψ
  | some tl => exact hψ

theorem init_cohering (hφ : (cohering i r).ends φ) (videoId : Option String) (mediaTime serverNow : ℚ) :
    (cohering i r).wp (init i videoId mediaTime serverNow) φ fun _ ψ => (cohering i r).ends ψ := by
  refine Contract.wp_seq _ (get_cohering hφ) fun tl ψ ⟨hψ, _⟩ => ?_
  cases tl with
  | some existing => exact hψ
  | none =>
    refine Contract.wp_seq _ (claim_cohering hψ) fun lease ψ ⟨hψ, _⟩ => ?_
    by_cases hm : lease.mine = true
    · rw [if_pos hm]
      refine Contract.wp_seq _ (call_cohering hψ (c := .actorInit i lease.epoch videoId mediaTime) rfl)
        fun created ψ ⟨_, hψ, hcr⟩ => ?_
      cases created with
      | none => exact fallback_cohering hψ _ _ _ _
      | some created =>
        intro entry h
        cases h
        exact hcr created rfl
    · rw [if_neg hm]
      refine Contract.wp_seq _ (get_cohering hψ) fun found ψ ⟨hψ, _⟩ => ?_
      cases found with
      | some tl => exact hψ
      | none => exact fallback_cohering hψ _ _ _ _

theorem renewAll_cohering (hφ : (cohering i r).ends φ) :
    (cohering i r).wp (renewAll i) φ fun _ ψ => (cohering i r).ends ψ := by
  unfold renewAll
  rw [Contract.wp_bind, Contract.wp_get]
  cases φ.loc.owned with
  | none => exact hφ
  | some entry =>
    refine Contract.wp_seq _ (claim_cohering hφ) fun lease ψ ⟨hψ, _⟩ => ?_
    cases lease.mine with
    | true => exact hψ
    | false => exact faithful_none _

/-- A call returns. -/
theorem emit_cohering (hφ : (cohering i r).ends φ) (e : Emit) :
    (cohering i r).wp (Prog.emit (S := iface) e) φ fun _ ψ => (cohering i r).ends ψ := hφ

end Programs

theorem resumes_unknown (loc : Local) (held : List Lane) (c : Cmd) (a : Reply c) : Resumes none loc.owned held c a := by
  have hagrees : ∀ tl, Agrees none tl := fun tl l h => by cases h
  have hfaithful : Faithful none loc.owned := fun entry _ => hagrees _
  cases c with
  | actorCommit j fence next cmdId forVideoId => exact fun answer _ => hagrees _
  | actorInit j fence videoId mediaTime => exact ⟨hfaithful, fun tl _ => hagrees tl⟩
  | hgetall => exact ⟨hfaithful, fun _ tl _ => hagrees tl⟩
  | actorClaim j => exact hfaithful
  | actorReclaim owner fence => exact hfaithful
  | del => exact hfaithful
  | publish j req => exact hfaithful

/-- **The programs keep the contract.** -/
theorem system_cohering : system.Keeps cohering where
  program i r x loc hx := by
    have hφ : (cohering i r).ends ⟨x, [], [], loc⟩ := hx
    obtain ⟨n, c⟩ := r
    cases c with
    | get => exact Contract.wp_seq _ (get_cohering hφ) fun tl ψ ⟨hψ, _⟩ => emit_cohering hψ _
    | applyControl req serverNow =>
      refine Contract.wp_seq (fun _ ψ => (cohering i (n, .applyControl req serverNow)).ends ψ) ?_
        fun o ψ hψ => emit_cohering hψ _
      refine Contract.wp_within _ _ |>.mpr ⟨hφ, fun x loc _ hb => ?_⟩
      have hturn : (cohering i (n, .applyControl req serverNow)).ends ⟨x, [Lane.queue], [], loc⟩ := hb
      exact Contract.wp_mono (fun o ψ h => h) (applyControlSerial_cohering hturn List.mem_cons_self rfl)
    | applySnapshot serverNow =>
      refine Contract.wp_seq (fun _ ψ => (cohering i (n, .applySnapshot serverNow)).ends ψ) ?_
        fun o ψ hψ => emit_cohering hψ _
      refine Contract.wp_within _ _ |>.mpr ⟨hφ, fun x loc _ hb => ?_⟩
      have hturn : (cohering i (n, .applySnapshot serverNow)).ends ⟨x, [Lane.queue], [], loc⟩ := hb
      exact Contract.wp_mono (fun o ψ h => h) (applySnapshotSerial_cohering hturn List.mem_cons_self rfl)
    | init videoId mediaTime serverNow =>
      exact Contract.wp_seq _ (init_cohering hφ videoId mediaTime serverNow) fun tl ψ hψ => emit_cohering hψ _
    | clear =>
      refine Contract.wp_seq (fun _ ψ => (cohering i (n, .clear)).ends ψ) ?_ fun _ ψ hψ => emit_cohering hψ _
      refine Contract.wp_seq _ (setOwned_cohering (faithful_none _)) fun _ ψ ⟨hψ, _⟩ => ?_
      exact Contract.wp_mono (fun _ _ h => h.2) (call_cohering hψ (c := .del) trivial)
    | renewAll => exact Contract.wp_seq _ (renewAll_cohering hφ) fun _ ψ hψ => emit_cohering hψ _
  starts _ _ _ := ⟨none, fun _ _ _ h => by cases h⟩
  begins _ _ _ _ := ⟨none, trivial, fun _ _ _ h => by cases h⟩
  resumes _ _ _ loc held c a := ⟨none, trivial, resumes_unknown loc held c a⟩

end ActorRoomStateStore
end WatchParty
