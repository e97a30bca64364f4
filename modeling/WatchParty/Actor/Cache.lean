import WatchParty.Actor.Snapshot

/-!
# What an owner keeps

A copy carries the fence that it was made under. It has to be the stored timeline only as long as the instance holds
that lease, and a reply that was executed before a lease was minted says nothing of what is stored under it. So the
programs are followed with the epochs that were minted when the last reply was executed.

- `Cache.View`: what is stored under the lease of an instance, and the epochs that are known;
- `Cache.caching`: the contract of the programs;
- `Cache.system_caching`: every program of the store keeps it.
-/

namespace WatchParty
namespace ActorRoomStateStore
namespace Cache

/-- The epoch of the lease that instance `i` holds, and the timeline that is stored. -/
def stored (i : String) (σ : Room) : Option (ℚ × Timeline) :=
  match σ.leaseNow, σ.loadTl with
  | some lease, some w => if lease.owner = i then some (lease.epoch, w.toTimeline) else none
  | _, _ => none

theorem stored_eq_some {i : String} {σ : Room} {fence : ℚ} {l : Timeline} :
    stored i σ = some (fence, l) ↔ σ.leaseNow = some ⟨i, fence⟩ ∧ ∃ w, σ.loadTl = some w ∧ l = w.toTimeline := by
  unfold stored
  cases hl : σ.leaseNow with
  | none => simp
  | some lease =>
    cases hw : σ.loadTl with
    | none => simp
    | some w =>
      obtain ⟨owner, epoch⟩ := lease
      simp only [Option.some.injEq, Option.ite_none_right_eq_some, Prod.mk.injEq, Lease.mk.injEq]
      constructor
      · rintro ⟨rfl, rfl, rfl⟩
        exact ⟨⟨rfl, rfl⟩, w, rfl, rfl⟩
      · rintro ⟨⟨rfl, rfl⟩, _, rfl, rfl⟩
        exact ⟨rfl, rfl, rfl⟩

/-- What is stored under the lease of an instance, if it is known, and the epochs that were minted. -/
structure View where
  stored : Option (ℚ × Timeline)
  epochs : Set ℚ

namespace View

/-- The timeline is the stored one, as long as the instance holds the lease `fence`. -/
def Is (x : View) (fence : ℚ) (tl : Timeline) : Prop := ∀ l, x.stored = some (fence, l) → tl = l

/-- The timeline is the stored one, whichever known lease the instance holds. -/
def Valid (x : View) (tl : Timeline) : Prop := ∀ fence ∈ x.epochs, x.Is fence tl

/-- The entry's fence is known, and its timeline is the stored one under it. -/
def Backs (x : View) (entry : Owned) : Prop := entry.fence ∈ x.epochs ∧ x.Is entry.fence entry.timeline

/-- The instance's copy, if it has one, is backed. -/
def Copy (x : View) (owned : Option Owned) : Prop := ∀ entry, owned = some entry → x.Backs entry

/-- A copy that is found may be stamped with `epoch`. -/
def Restamps (x : View) (owned : Option Owned) (epoch : ℚ) : Prop :=
  epoch ∈ x.epochs ∧ ∀ entry, owned = some entry → x.Is epoch entry.timeline

theorem copy_none (x : View) : x.Copy none := fun _ h => by cases h

theorem Valid.backs {x : View} {fence : ℚ} {tl : Timeline} (h : x.Valid tl) (hf : fence ∈ x.epochs) :
    x.Backs ⟨fence, tl⟩ := ⟨hf, h fence hf⟩

theorem copy_some {x : View} {entry : Owned} (h : x.Backs entry) : x.Copy (some entry) := fun _ he => by
  cases he
  exact h

/-- Where nothing is known to be stored, every timeline is. -/
theorem is_unknown (epochs : Set ℚ) (fence : ℚ) (tl : Timeline) : (⟨none, epochs⟩ : View).Is fence tl :=
  fun _ h => by cases h

end View

/-- What call `r` commits onto `l`. -/
def Derived (r : ℕ × Call) (next : Draft) (l : Timeline) : Prop :=
  match r.2 with
  | .applyControl req serverNow =>
    next = WatchParty.applyControl l req.intent req.mediaTime serverNow req.byUser req.videoId
  | .applySnapshot serverNow => next = snapshot l serverNow
  | _ => False

/-- How a segment may go on after a reply: with a copy that is backed, with a known epoch after a claim, and with a
stored timeline in the reply of a command that makes copies. A commit replaces the copy. -/
def Resumes (x : View) (owned : Option Owned) (held : List Lane) : (c : Cmd) → Reply c → Prop
  | .actorClaim _, lease => x.Copy owned ∧
      (lease.mine = true → lease.epoch ∈ x.epochs ∧ (Lane.queue ∈ held → x.Restamps owned lease.epoch))
  | .actorInit _ _ _ _, a => x.Copy owned ∧ ∀ tl, a = some tl → x.Valid tl
  | .hgetall, a => x.Copy owned ∧ (Lane.queue ∈ held → ∀ tl, a = some tl → x.Valid tl)
  | .actorCommit _ _ _ _ _, a => (∀ entry, owned = some entry → entry.fence ∈ x.epochs) ∧
      ∀ answer, a = some answer → x.Valid answer.timeline
  | .actorReclaim _ _, _ => x.Copy owned
  | .del, _ => x.Copy owned
  | .publish _ _, _ => x.Copy owned

/-- What a call of instance `i` may send: a commit only in the queue, under a known fence, with a draft that is derived
from what is stored under it. -/
def Sends (i : String) (r : ℕ × Call) (x : View) (held : List Lane) : Cmd → Prop
  | .actorCommit j fence next _ _ => j = i ∧ Lane.queue ∈ held ∧ fence ∈ x.epochs ∧
      ∀ l, x.stored = some (fence, l) → Derived r next l
  | .actorInit j _ _ _ => j = i
  | _ => True

/-- The contract of call `r` of instance `i`. -/
def caching (i : String) (r : ℕ × Call) : Contract iface View where
  later x x' := x.epochs ⊆ x'.epochs
  begins x loc := x.Copy loc.owned
  resumes x loc held c a := Resumes x loc.owned held c a
  ends φ := φ.ctx.Copy φ.loc.owned
  calls φ c := Sends i r φ.ctx φ.held c

section Programs

variable {i : String} {r : ℕ × Call} {φ : Frame iface View}

theorem call_caching (hφ : (caching i r).ends φ) {c : Cmd} (hc : Sends i r φ.ctx φ.held c) :
    (caching i r).wp (Prog.call (S := iface) c) φ fun a ψ =>
      ψ.held = φ.held ∧ φ.ctx.epochs ⊆ ψ.ctx.epochs ∧ Resumes ψ.ctx ψ.loc.owned ψ.held c a :=
  ⟨hφ, hc, fun _ _ _ hx ha => ⟨rfl, hx, ha⟩⟩

theorem claim_caching (hφ : (caching i r).ends φ) :
    (caching i r).wp (claim i) φ fun lease ψ => (caching i r).ends ψ ∧ ψ.held = φ.held ∧
      (lease.mine = true → lease.epoch ∈ ψ.ctx.epochs ∧
        (Lane.queue ∈ φ.held → ψ.ctx.Restamps ψ.loc.owned lease.epoch)) := by
  refine Contract.wp_mono (fun lease ψ h => ?_) (call_caching hφ (c := .actorClaim i) trivial)
  obtain ⟨hheld, -, hψ, hmine⟩ := h
  exact ⟨hψ, hheld, fun hm => ⟨(hmine hm).1, fun hq => (hmine hm).2 (hheld.symm ▸ hq)⟩⟩

theorem forward_caching (hφ : (caching i r).ends φ) (j : String) (req : ControlReq) :
    (caching i r).wp (forward j req) φ fun _ ψ => (caching i r).ends ψ ∧ ψ.held = φ.held := by
  refine Contract.wp_mono (fun a ψ h => ?_) (call_caching hφ (c := .publish j req) trivial)
  exact ⟨h.2.2, h.1⟩

theorem get_caching (hφ : (caching i r).ends φ) :
    (caching i r).wp get φ fun _ ψ => (caching i r).ends ψ ∧ ψ.held = φ.held := by
  unfold get
  rw [Contract.wp_bind, Contract.wp_get]
  cases ho : φ.loc.owned with
  | none =>
    refine Contract.wp_mono (fun a ψ h => ?_) (call_caching hφ (c := .hgetall) trivial)
    exact ⟨h.2.2.1, h.1⟩
  | some entry => exact ⟨hφ, rfl⟩

/-- In the queue, what is read under a claimed lease is the stored timeline. -/
theorem get_claimed (hφ : (caching i r).ends φ) (hq : Lane.queue ∈ φ.held) {epoch : ℚ}
    (hr : φ.ctx.Restamps φ.loc.owned epoch) :
    (caching i r).wp get φ fun tl ψ => (caching i r).ends ψ ∧ ψ.held = φ.held ∧
      ∀ t, tl = some t → ψ.ctx.Backs ⟨epoch, t⟩ := by
  unfold get
  rw [Contract.wp_bind, Contract.wp_get]
  cases ho : φ.loc.owned with
  | none =>
    refine Contract.wp_mono (fun a ψ h => ?_) (call_caching hφ (c := .hgetall) trivial)
    obtain ⟨hheld, hlater, hψ, htl⟩ := h
    exact ⟨hψ, hheld, fun t ht => (htl (hheld.symm ▸ hq) t ht).backs (hlater hr.1)⟩
  | some entry =>
    refine ⟨hφ, rfl, fun t ht => ⟨hr.1, ?_⟩⟩
    cases ht
    exact hr.2 entry ho

theorem setOwned_caching {entry : Option Owned} (he : φ.ctx.Copy entry) :
    (caching i r).wp (setOwned entry) φ
      fun _ ψ => (caching i r).ends ψ ∧ ψ.held = φ.held ∧ ψ.ctx = φ.ctx := ⟨he, rfl, rfl⟩

/-- A commit from an entry that is backed. -/
theorem commit_caching (hφ : (caching i r).ends φ) (hq : Lane.queue ∈ φ.held) {entry : Owned}
    (he : φ.ctx.Backs entry) {next : Draft} (hnext : Derived r next entry.timeline) (cmdId : Option String)
    (forVideoId : Option (Option String)) :
    (caching i r).wp (commit i entry.fence next cmdId forVideoId) φ
      fun _ ψ => (caching i r).ends ψ ∧ ψ.held = φ.held := by
  have hc : Sends i r φ.ctx φ.held (.actorCommit i entry.fence next cmdId forVideoId) :=
    ⟨rfl, hq, he.1, fun l hl => he.2 l hl ▸ hnext⟩
  refine Contract.wp_seq _ (call_caching hφ hc) fun a ψ ⟨hheld, _, hfences, hanswer⟩ => ?_
  cases a with
  | none => exact ⟨View.copy_none _, hheld⟩
  | some answer =>
    refine ⟨fun new hnew => ?_, hheld⟩
    obtain ⟨old, hold, rfl⟩ := Option.map_eq_some_iff.mp hnew
    exact (hanswer answer rfl).backs (hfences old hold)

theorem adopt_caching (hφ : (caching i r).ends φ) (hq : Lane.queue ∈ φ.held) {epoch : ℚ}
    (hr : φ.ctx.Restamps φ.loc.owned epoch) :
    (caching i r).wp (adopt epoch) φ fun a ψ => (caching i r).ends ψ ∧ ψ.held = φ.held ∧
      ∀ entry, a = .inr entry → ψ.ctx.Backs entry := by
  refine Contract.wp_seq _ (get_claimed hφ hq hr) fun tl ψ ⟨hψ, hheld, htl⟩ => ?_
  cases tl with
  | none => exact ⟨hψ, hheld, fun entry h => by cases h⟩
  | some current =>
    have hbacked : ψ.ctx.Backs ⟨epoch, current⟩ := htl current rfl
    refine ⟨View.copy_some hbacked, hheld, fun entry h => ?_⟩
    cases h
    exact hbacked

theorem acquire_caching (hφ : (caching i r).ends φ) (hq : Lane.queue ∈ φ.held) (req : ControlReq) :
    (caching i r).wp (acquire i req) φ fun a ψ => (caching i r).ends ψ ∧ Lane.queue ∈ ψ.held ∧
      ∀ entry, a = .inr entry → ψ.ctx.Backs entry := by
  have hadopt : ∀ {ψ : Frame iface View} {epoch : ℚ}, (caching i r).ends ψ → ψ.held = φ.held →
      ψ.ctx.Restamps ψ.loc.owned epoch →
      (caching i r).wp (adopt epoch) ψ fun a χ => (caching i r).ends χ ∧ Lane.queue ∈ χ.held ∧
        ∀ entry, a = .inr entry → χ.ctx.Backs entry := by
    intro ψ epoch hψ hheld hr
    have hψq : Lane.queue ∈ ψ.held := hheld.symm ▸ hq
    exact Contract.wp_mono (fun a χ h => ⟨h.1, h.2.1.symm ▸ hψq, h.2.2⟩) (adopt_caching hψ hψq hr)
  unfold acquire
  rw [Contract.wp_bind, Contract.wp_get]
  cases ho : φ.loc.owned with
  | some entry =>
    refine ⟨hφ, hq, fun e h => ?_⟩
    cases h
    exact hφ entry ho
  | none =>
    refine Contract.wp_seq _ (claim_caching hφ) fun lease ψ ⟨hψ, hh, hmine⟩ => ?_
    by_cases hm : lease.mine = true
    · rw [if_pos hm]
      exact hadopt hψ hh ((hmine hm).2 hq)
    · rw [if_neg hm]
      refine Contract.wp_seq _ (forward_caching hψ _ _) fun delivered ψ' ⟨hψ', hh'⟩ => ?_
      have hq' : Lane.queue ∈ ψ'.held := (hh'.trans hh).symm ▸ hq
      by_cases hd : delivered > 0
      · rw [if_pos hd]
        exact ⟨hψ', hq', fun entry h => by cases h⟩
      · rw [if_neg hd]
        refine Contract.wp_seq _ (call_caching hψ' (c := .actorReclaim _ _) trivial) fun _ χ ⟨hhχ, _, hχ⟩ => ?_
        have hqχ : Lane.queue ∈ χ.held := hhχ.symm ▸ hq'
        refine Contract.wp_seq _ (claim_caching hχ) fun retaken χ' ⟨hχ', hhχ', hmine'⟩ => ?_
        have hheld : χ'.held = φ.held := hhχ'.trans (hhχ.trans (hh'.trans hh))
        by_cases hr : retaken.mine = true
        · rw [if_pos hr]
          exact hadopt hχ' hheld ((hmine' hr).2 hqχ)
        · rw [if_neg hr]
          refine Contract.wp_seq _ (forward_caching hχ' _ _) fun second ω ⟨hω, hhω⟩ => ?_
          exact ⟨hω, (hhω.trans hheld).symm ▸ hq, fun entry h => by cases h⟩

theorem retry_caching (hφ : (caching i r).ends φ) (hq : Lane.queue ∈ φ.held) {n : ℕ} {req : ControlReq}
    {serverNow : ℚ} (hr : r = (n, .applyControl req serverNow)) :
    (caching i r).wp (retry i req serverNow) φ fun _ ψ => (caching i r).ends ψ := by
  refine Contract.wp_seq _ (claim_caching hφ) fun nowLease ψ ⟨hψ, hh, hmine⟩ => ?_
  have hψq : Lane.queue ∈ ψ.held := hh.symm ▸ hq
  by_cases hm : nowLease.mine = true
  · rw [if_pos hm]
    refine Contract.wp_seq _ (get_claimed hψ hψq ((hmine hm).2 hq)) fun fresh χ ⟨hχ, hhχ, hbacked⟩ => ?_
    cases fresh with
    | none => exact hχ
    | some fresh =>
      refine Contract.wp_seq _ (setOwned_caching (View.copy_some (hbacked fresh rfl))) fun _ ω ⟨hω, hhω, hctx⟩ => ?_
      have hωq : Lane.queue ∈ ω.held := (hhω.trans hhχ).symm ▸ hψq
      have hentry : ω.ctx.Backs ⟨nowLease.epoch, fresh⟩ := hctx.symm ▸ hbacked fresh rfl
      have hnext : Derived r (WatchParty.applyControl fresh req.intent req.mediaTime serverNow req.byUser
          req.videoId) fresh := by
        rw [hr]
        rfl
      refine Contract.wp_seq _ (commit_caching hω hωq hentry hnext _ _) fun a ψ ⟨hψ, _⟩ => ?_
      cases a with
      | none => exact hψ
      | some answer => exact hψ
  · rw [if_neg hm]
    exact Contract.wp_seq _ (forward_caching hψ _ _) fun _ χ ⟨hχ, _⟩ => hχ

theorem applyControlSerial_caching (hφ : (caching i r).ends φ) (hq : Lane.queue ∈ φ.held) {n : ℕ}
    {req : ControlReq} {serverNow : ℚ} (hr : r = (n, .applyControl req serverNow)) :
    (caching i r).wp (applyControlSerial i req serverNow) φ fun _ ψ => (caching i r).ends ψ := by
  refine Contract.wp_seq _ (acquire_caching hφ hq req) fun a ψ ⟨hψ, hψq, hentry⟩ => ?_
  cases a with
  | inl o => exact hψ
  | inr entry =>
    have hnext : Derived r (WatchParty.applyControl entry.timeline req.intent req.mediaTime serverNow req.byUser
        req.videoId) entry.timeline := by
      rw [hr]
      rfl
    refine Contract.wp_seq _ (commit_caching hψ hψq (hentry entry rfl) hnext _ _) fun a χ ⟨hχ, hh⟩ => ?_
    cases a with
    | none => exact retry_caching hχ (hh.symm ▸ hψq) hr
    | some answer => exact hχ

theorem applySnapshotSerial_caching (hφ : (caching i r).ends φ) (hq : Lane.queue ∈ φ.held) {n : ℕ} {serverNow : ℚ}
    (hr : r = (n, .applySnapshot serverNow)) :
    (caching i r).wp (applySnapshotSerial i serverNow) φ fun _ ψ => (caching i r).ends ψ := by
  unfold applySnapshotSerial
  rw [Contract.wp_bind, Contract.wp_get]
  cases ho : φ.loc.owned with
  | none => exact hφ
  | some entry =>
    show (caching i r).wp (if entry.timeline.isPlaying = true then _ else _) φ _
    by_cases hp : entry.timeline.isPlaying = true
    · rw [if_pos hp]
      have hnext : Derived r (snapshot entry.timeline serverNow) entry.timeline := by
        rw [hr]
        rfl
      exact Contract.wp_seq _ (commit_caching hφ hq (hφ entry ho) hnext _ _) fun a ψ ⟨hψ, _⟩ => hψ
    · rw [if_neg hp]
      exact hφ

theorem fallback_caching (hφ : (caching i r).ends φ) (epoch : ℚ) (videoId : Option String) (mediaTime serverNow : ℚ) :
    (caching i r).wp (fallback epoch videoId mediaTime serverNow) φ fun _ ψ => (caching i r).ends ψ := by
  refine Contract.wp_seq _ (get_caching hφ) fun tl ψ ⟨hψ, _⟩ => ?_
  cases tl with
  | none => exact hψ
  | some tl => exact hψ

theorem init_caching (hφ : (caching i r).ends φ) (videoId : Option String) (mediaTime serverNow : ℚ) :
    (caching i r).wp (init i videoId mediaTime serverNow) φ fun _ ψ => (caching i r).ends ψ := by
  refine Contract.wp_seq _ (get_caching hφ) fun tl ψ ⟨hψ, _⟩ => ?_
  cases tl with
  | some existing => exact hψ
  | none =>
    refine Contract.wp_seq _ (claim_caching hψ) fun lease ψ ⟨hψ, _, hmine⟩ => ?_
    by_cases hm : lease.mine = true
    · rw [if_pos hm]
      refine Contract.wp_seq _ (call_caching hψ (c := .actorInit i lease.epoch videoId mediaTime) rfl)
        fun created χ ⟨_, hlater, hχ, hvalid⟩ => ?_
      cases created with
      | none => exact fallback_caching hχ _ _ _ _
      | some created => exact View.copy_some ((hvalid created rfl).backs (hlater (hmine hm).1))
    · rw [if_neg hm]
      refine Contract.wp_seq _ (get_caching hψ) fun found ψ ⟨hψ, _⟩ => ?_
      cases found with
      | some tl => exact hψ
      | none => exact fallback_caching hψ _ _ _ _

theorem renewAll_caching (hφ : (caching i r).ends φ) :
    (caching i r).wp (renewAll i) φ fun _ ψ => (caching i r).ends ψ := by
  unfold renewAll
  rw [Contract.wp_bind, Contract.wp_get]
  cases φ.loc.owned with
  | none => exact hφ
  | some entry =>
    refine Contract.wp_seq _ (claim_caching hφ) fun lease ψ ⟨hψ, _⟩ => ?_
    cases lease.mine with
    | true => exact hψ
    | false => exact View.copy_none _

/-- A call returns. -/
theorem emit_caching (hφ : (caching i r).ends φ) (e : Emit) :
    (caching i r).wp (Prog.emit (S := iface) e) φ fun _ ψ => (caching i r).ends ψ := hφ

end Programs

/-- Nothing is known of what is stored, and any epoch may have been minted. -/
def View.blank : View := ⟨none, Set.univ⟩

theorem View.blank_copy (owned : Option Owned) : View.blank.Copy owned :=
  fun _ _ => ⟨Set.mem_univ _, View.is_unknown _ _ _⟩

theorem View.blank_valid (tl : Timeline) : View.blank.Valid tl := fun _ _ => View.is_unknown _ _ _

theorem resumes_blank (owned : Option Owned) (held : List Lane) (c : Cmd) (a : Reply c) :
    Resumes View.blank owned held c a := by
  have hcopy := View.blank_copy owned
  cases c with
  | actorClaim j =>
    exact ⟨hcopy, fun _ => ⟨Set.mem_univ _, fun _ => ⟨Set.mem_univ _, fun _ _ => View.is_unknown _ _ _⟩⟩⟩
  | actorCommit j fence next cmdId forVideoId => exact ⟨fun _ _ => Set.mem_univ _, fun _ _ => View.blank_valid _⟩
  | actorInit j fence videoId mediaTime => exact ⟨hcopy, fun _ _ => View.blank_valid _⟩
  | hgetall => exact ⟨hcopy, fun _ _ _ => View.blank_valid _⟩
  | actorReclaim owner fence => exact hcopy
  | del => exact hcopy
  | publish j req => exact hcopy

/-- **The programs keep the contract.** -/
theorem system_caching : system.Keeps caching where
  program i r x loc hx := by
    have hφ : (caching i r).ends ⟨x, [], [], loc⟩ := hx
    obtain ⟨n, c⟩ := r
    cases c with
    | get => exact Contract.wp_seq _ (get_caching hφ) fun tl ψ ⟨hψ, _⟩ => emit_caching hψ _
    | applyControl req serverNow =>
      refine Contract.wp_seq (fun _ ψ => (caching i (n, .applyControl req serverNow)).ends ψ) ?_
        fun o ψ hψ => emit_caching hψ _
      refine Contract.wp_within _ _ |>.mpr ⟨hφ, fun x loc _ hb => ?_⟩
      have hturn : (caching i (n, .applyControl req serverNow)).ends ⟨x, [Lane.queue], [], loc⟩ := hb
      exact Contract.wp_mono (fun o ψ h => h) (applyControlSerial_caching hturn List.mem_cons_self rfl)
    | applySnapshot serverNow =>
      refine Contract.wp_seq (fun _ ψ => (caching i (n, .applySnapshot serverNow)).ends ψ) ?_
        fun o ψ hψ => emit_caching hψ _
      refine Contract.wp_within _ _ |>.mpr ⟨hφ, fun x loc _ hb => ?_⟩
      have hturn : (caching i (n, .applySnapshot serverNow)).ends ⟨x, [Lane.queue], [], loc⟩ := hb
      exact Contract.wp_mono (fun o ψ h => h) (applySnapshotSerial_caching hturn List.mem_cons_self rfl)
    | init videoId mediaTime serverNow =>
      exact Contract.wp_seq _ (init_caching hφ videoId mediaTime serverNow) fun tl ψ hψ => emit_caching hψ _
    | clear =>
      refine Contract.wp_seq (fun _ ψ => (caching i (n, .clear)).ends ψ) ?_ fun _ ψ hψ => emit_caching hψ _
      refine Contract.wp_seq _ (setOwned_caching (View.copy_none _)) fun _ ψ ⟨hψ, _⟩ => ?_
      exact Contract.wp_mono (fun _ _ h => h.2.2) (call_caching hψ (c := .del) trivial)
    | renewAll => exact Contract.wp_seq _ (renewAll_caching hφ) fun _ ψ hψ => emit_caching hψ _
  starts _ _ loc := ⟨View.blank, View.blank_copy loc.owned⟩
  begins _ _ _ loc := ⟨View.blank, Set.subset_univ _, View.blank_copy loc.owned⟩
  resumes _ _ _ loc held c a := ⟨View.blank, Set.subset_univ _, resumes_blank loc.owned held c a⟩

end Cache
end ActorRoomStateStore
end WatchParty
