import WatchParty.Actor.Runs

/-!
# Clearing a room on the actor plane

`clear` deletes the keys of the room, and of the instances' copies only the caller's. When no instance holds a copy
of the timeline as the keys are deleted, none returns or commits one until the next `init`, and what that stores is
its own paused timeline.

- `Copy` and `NoCopies`: where an instance may have the timeline;
- `clearing`: the contract of the programs while the room is cleared (`Blank` is what they may return);
- `Cleared.step`: one step of a cleared room.
-/

namespace WatchParty
namespace ActorRoomStateStore

/-- The command carries a copy of a timeline: it is a commit, or its reply has one. -/
def Copy (f : Flight iface (ℕ × Call)) : Prop :=
  f.cmd.isCommit = true ∨ ∃ r, f.reply = some r ∧ (carried f.cmd r).isSome = true

/-- No instance holds a copy of the timeline. -/
structure NoCopies (s : State) : Prop where
  owned : ∀ i, (s.node i).loc.owned = none
  flights : ∀ i, ∀ f ∈ (s.node i).conn, ¬Copy f

/-- What a call may return of a cleared room: nothing stored, no control applied, and `init`'s own projection. -/
def Blank : Call → Result → Prop
  | .get, res => res = .timeline none
  | .applyControl _ _, res => res = .outcome .missing ∨ res = .outcome .forwarded
  | .applySnapshot _, res => res = .timeline none
  | .init videoId mediaTime serverNow, res =>
    ∃ epoch, res = .timeline (some (projected epoch videoId mediaTime serverNow))
  | .clear, _ => True
  | .renewAll, _ => True

/-! ## The programs while the room is cleared -/

/-- The contract of call `r`, which shows nothing but what it returns; the context tells whether the room is
cleared. -/
def clearing (r : ℕ × Call) : Contract iface Bool where
  later _ _ := True
  begins cleared loc := cleared = true → loc.owned = none
  resumes cleared loc _ c a := cleared = true → loc.owned = none ∧ carried c a = none
  ends φ := (φ.ctx = true → φ.loc.owned = none) ∧
    ∀ e ∈ φ.sent, ∃ res, e = Emit.returned r.1 r.2 res ∧ (φ.ctx = true → Blank r.2 res)
  calls φ c :=
    match c with
    | .actorInit _ _ videoId mediaTime => ∃ serverNow, r.2 = .init videoId mediaTime serverNow
    | .actorCommit _ _ _ _ _ => φ.ctx = false
    | _ => True

section Programs

variable {r : ℕ × Call} {φ : Frame iface Bool}

theorem clearing_resumed {cleared : Bool} {loc : Local} {held : List Lane} {c : Cmd} {a : Reply c}
    (h : (clearing r).resumes cleared loc held c a) :
    (clearing r).ends ⟨cleared, held, [], loc⟩ ∧ (cleared = true → carried c a = none) :=
  ⟨⟨fun hc => (h hc).1, fun _ he => absurd he List.not_mem_nil⟩, fun hc => (h hc).2⟩

theorem clearing_begun {cleared : Bool} {loc : Local} {held : List Lane} (h : (clearing r).begins cleared loc) :
    (clearing r).ends ⟨cleared, held, [], loc⟩ :=
  ⟨h, fun _ he => absurd he List.not_mem_nil⟩

/-- A command that carries no copy may always be sent. -/
theorem call_clearing (hφ : (clearing r).ends φ) {c : Cmd} (hc : (clearing r).calls φ c) :
    (clearing r).wp (Prog.call (S := iface) c) φ
      fun a ψ => (clearing r).ends ψ ∧ (ψ.ctx = true → carried c a = none) :=
  ⟨hφ, hc, fun _ _ _ _ ha => clearing_resumed ha⟩

theorem get_clearing (hφ : (clearing r).ends φ) :
    (clearing r).wp get φ fun tl ψ => (clearing r).ends ψ ∧ (ψ.ctx = true → tl = none) := by
  unfold get
  rw [Contract.wp_bind, Contract.wp_get]
  cases ho : φ.loc.owned with
  | none => exact call_clearing hφ trivial
  | some entry =>
    refine ⟨hφ, fun hc => ?_⟩
    have hnone := hφ.1 hc
    rw [ho] at hnone
    cases hnone

/-- A copy is put back only where none is needed. -/
theorem setOwned_clearing (hφ : (clearing r).ends φ) {entry : Option Owned} (he : φ.ctx = true → entry = none) :
    (clearing r).wp (setOwned entry) φ fun _ ψ => (clearing r).ends ψ ∧ ψ.ctx = φ.ctx :=
  ⟨⟨he, hφ.2⟩, rfl⟩

theorem commit_clearing (hφ : (clearing r).ends φ) (hc : φ.ctx = false) (instanceId : String) (fence : ℚ)
    (next : Draft) (cmdId : Option String) (forVideoId : Option (Option String)) :
    (clearing r).wp (commit instanceId fence next cmdId forVideoId) φ
      fun a ψ => (clearing r).ends ψ ∧ (ψ.ctx = true → a = none) := by
  refine Contract.wp_seq _ (call_clearing hφ hc) fun a ψ ⟨hψ, ha⟩ => ?_
  cases a with
  | none => exact ⟨⟨fun _ => rfl, hψ.2⟩, fun _ => rfl⟩
  | some answer =>
    have hfalse : ψ.ctx ≠ true := fun hc => by cases ha hc
    exact ⟨⟨fun hc => absurd hc hfalse, hψ.2⟩, fun hc => absurd hc hfalse⟩

theorem adopt_clearing (hφ : (clearing r).ends φ) (epoch : ℚ) :
    (clearing r).wp (adopt epoch) φ fun a ψ => (clearing r).ends ψ ∧ (ψ.ctx = true → a = .inl .missing) := by
  refine Contract.wp_seq _ (get_clearing hφ) fun tl ψ ⟨hψ, htl⟩ => ?_
  cases tl with
  | none => exact ⟨hψ, fun _ => rfl⟩
  | some current =>
    have hfalse : ψ.ctx ≠ true := fun hc => by cases htl hc
    exact ⟨⟨fun hc => absurd hc hfalse, hψ.2⟩, fun hc => absurd hc hfalse⟩

/-- What is known of a control that is not applied here. -/
def Away (o : ApplyOutcome) : Prop := o = .missing ∨ o = .forwarded

theorem away_of_delivered (n : ℕ) : Away (if n > 0 then .forwarded else .missing) := by
  split
  · exact Or.inr rfl
  · exact Or.inl rfl

theorem acquire_clearing (hφ : (clearing r).ends φ) (instanceId : String) (req : ControlReq) :
    (clearing r).wp (acquire instanceId req) φ
      fun a ψ => (clearing r).ends ψ ∧ (ψ.ctx = true → ∃ o, a = .inl o ∧ Away o) := by
  have hadopt : ∀ {ψ : Frame iface Bool} {epoch : ℚ}, (clearing r).ends ψ → (clearing r).wp (adopt epoch) ψ
      fun a χ => (clearing r).ends χ ∧ (χ.ctx = true → ∃ o, a = .inl o ∧ Away o) := fun hψ =>
    Contract.wp_mono (fun a χ h => ⟨h.1, fun hc => ⟨_, h.2 hc, Or.inl rfl⟩⟩) (adopt_clearing hψ _)
  unfold acquire
  rw [Contract.wp_bind, Contract.wp_get]
  cases ho : φ.loc.owned with
  | some entry =>
    have hfalse : φ.ctx ≠ true := fun hc => by rw [hφ.1 hc] at ho; cases ho
    exact ⟨hφ, fun hc => absurd hc hfalse⟩
  | none =>
    refine Contract.wp_seq _ (call_clearing hφ trivial) fun lease ψ ⟨hψ, _⟩ => ?_
    by_cases hm : lease.mine = true
    · rw [if_pos hm]
      exact hadopt hψ
    · rw [if_neg hm]
      refine Contract.wp_seq _ (call_clearing hψ trivial) fun delivered ψ ⟨hψ, _⟩ => ?_
      by_cases hd : delivered > 0
      · rw [if_pos hd]
        exact ⟨hψ, fun _ => ⟨_, rfl, Or.inr rfl⟩⟩
      · rw [if_neg hd]
        refine Contract.wp_seq _ (call_clearing hψ trivial) fun _ ψ ⟨hψ, _⟩ => ?_
        refine Contract.wp_seq _ (call_clearing hψ trivial) fun retaken ψ ⟨hψ, _⟩ => ?_
        by_cases hr : retaken.mine = true
        · rw [if_pos hr]
          exact hadopt hψ
        · rw [if_neg hr]
          refine Contract.wp_seq _ (call_clearing hψ trivial) fun second ψ ⟨hψ, _⟩ => ?_
          exact ⟨hψ, fun _ => ⟨_, rfl, away_of_delivered second⟩⟩

theorem retry_clearing (hφ : (clearing r).ends φ) (instanceId : String) (req : ControlReq) (serverNow : ℚ) :
    (clearing r).wp (retry instanceId req serverNow) φ
      fun o ψ => (clearing r).ends ψ ∧ (ψ.ctx = true → Away o) := by
  refine Contract.wp_seq _ (call_clearing hφ trivial) fun nowLease ψ ⟨hψ, _⟩ => ?_
  by_cases hm : nowLease.mine = true
  · rw [if_pos hm]
    refine Contract.wp_seq _ (get_clearing hψ) fun fresh ψ ⟨hψ, hfresh⟩ => ?_
    cases fresh with
    | none => exact ⟨hψ, fun _ => Or.inl rfl⟩
    | some fresh =>
      have hfalse : ψ.ctx ≠ true := fun hc => by cases hfresh hc
      refine Contract.wp_seq _ (setOwned_clearing hψ fun hc => absurd hc hfalse) fun _ χ ⟨hχ, hctx⟩ => ?_
      have hχf : χ.ctx = false := by simpa [hctx] using hfalse
      refine Contract.wp_seq _ (commit_clearing hχ hχf _ _ _ _ _) fun a ψ ⟨hψ, ha⟩ => ?_
      cases a with
      | none => exact ⟨hψ, fun _ => Or.inl rfl⟩
      | some answer => exact ⟨hψ, fun hc => by cases ha hc⟩
  · rw [if_neg hm]
    refine Contract.wp_seq _ (call_clearing hψ trivial) fun delivered ψ ⟨hψ, _⟩ => ?_
    exact ⟨hψ, fun _ => away_of_delivered delivered⟩

theorem applyControlSerial_clearing (hφ : (clearing r).ends φ) (instanceId : String) (req : ControlReq)
    (serverNow : ℚ) : (clearing r).wp (applyControlSerial instanceId req serverNow) φ
      fun o ψ => (clearing r).ends ψ ∧ (ψ.ctx = true → Away o) := by
  refine Contract.wp_seq _ (acquire_clearing hφ instanceId req) fun a ψ ⟨hψ, ha⟩ => ?_
  cases a with
  | inl o =>
    refine ⟨hψ, fun hc => ?_⟩
    obtain ⟨o', he, ho⟩ := ha hc
    cases he
    exact ho
  | inr entry =>
    have hψf : ψ.ctx = false := by
      cases hc : ψ.ctx with
      | false => rfl
      | true => obtain ⟨o, he, -⟩ := ha hc; cases he
    refine Contract.wp_seq _ (commit_clearing hψ hψf _ _ _ _ _) fun a χ ⟨hχ, hans⟩ => ?_
    cases a with
    | none => exact retry_clearing hχ _ _ _
    | some answer => exact ⟨hχ, fun hc => by cases hans hc⟩

theorem applySnapshotSerial_clearing (hφ : (clearing r).ends φ) (instanceId : String) (serverNow : ℚ) :
    (clearing r).wp (applySnapshotSerial instanceId serverNow) φ
      fun tl ψ => (clearing r).ends ψ ∧ (ψ.ctx = true → tl = none) := by
  unfold applySnapshotSerial
  rw [Contract.wp_bind, Contract.wp_get]
  cases ho : φ.loc.owned with
  | none => exact ⟨hφ, fun _ => rfl⟩
  | some entry =>
    have hφf : φ.ctx = false := by
      cases hc : φ.ctx with
      | false => rfl
      | true => rw [hφ.1 hc] at ho; cases ho
    show (clearing r).wp (if entry.timeline.isPlaying = true then _ else _) φ _
    by_cases hp : entry.timeline.isPlaying = true
    · rw [if_pos hp]
      refine Contract.wp_seq _ (commit_clearing hφ hφf _ _ _ _ _) fun a ψ ⟨hψ, ha⟩ => ?_
      refine ⟨hψ, fun hc => ?_⟩
      rw [ha hc]
      rfl
    · rw [if_neg hp]
      exact ⟨hφ, fun _ => rfl⟩

theorem fallback_clearing (hφ : (clearing r).ends φ) (epoch : ℚ) (videoId : Option String) (mediaTime serverNow : ℚ) :
    (clearing r).wp (fallback epoch videoId mediaTime serverNow) φ fun tl ψ => (clearing r).ends ψ ∧
      (ψ.ctx = true → ∃ epoch, tl = projected epoch videoId mediaTime serverNow) := by
  refine Contract.wp_seq _ (get_clearing hφ) fun tl ψ ⟨hψ, htl⟩ => ?_
  cases tl with
  | none => exact ⟨hψ, fun _ => ⟨epoch, rfl⟩⟩
  | some tl => exact ⟨hψ, fun hc => by cases htl hc⟩

theorem init_clearing {n : ℕ} {videoId : Option String} {mediaTime serverNow : ℚ} {φ : Frame iface Bool}
    (hφ : (clearing (n, .init videoId mediaTime serverNow)).ends φ) (instanceId : String) :
    (clearing (n, .init videoId mediaTime serverNow)).wp (init instanceId videoId mediaTime serverNow) φ
      fun tl ψ => (clearing (n, .init videoId mediaTime serverNow)).ends ψ ∧
        (ψ.ctx = true → ∃ epoch, tl = projected epoch videoId mediaTime serverNow) := by
  refine Contract.wp_seq _ (get_clearing hφ) fun tl ψ ⟨hψ, htl⟩ => ?_
  cases tl with
  | some existing => exact ⟨hψ, fun hc => by cases htl hc⟩
  | none =>
    refine Contract.wp_seq _ (call_clearing hψ trivial) fun lease ψ ⟨hψ, _⟩ => ?_
    by_cases hm : lease.mine = true
    · rw [if_pos hm]
      refine Contract.wp_seq _ (call_clearing hψ ⟨serverNow, rfl⟩) fun created ψ ⟨hψ, hcr⟩ => ?_
      cases created with
      | none => exact fallback_clearing hψ _ _ _ _
      | some created =>
        have hfalse : ψ.ctx ≠ true := fun hc => by cases hcr hc
        exact ⟨⟨fun hc => absurd hc hfalse, hψ.2⟩, fun hc => absurd hc hfalse⟩
    · rw [if_neg hm]
      refine Contract.wp_seq _ (get_clearing hψ) fun after ψ ⟨hψ, haf⟩ => ?_
      cases after with
      | some tl => exact ⟨hψ, fun hc => by cases haf hc⟩
      | none => exact fallback_clearing hψ _ _ _ _

theorem renewAll_clearing (hφ : (clearing r).ends φ) (instanceId : String) :
    (clearing r).wp (renewAll instanceId) φ fun _ ψ => (clearing r).ends ψ := by
  unfold renewAll
  rw [Contract.wp_bind, Contract.wp_get]
  cases φ.loc.owned with
  | none => exact hφ
  | some entry =>
    refine Contract.wp_seq _ (call_clearing hφ trivial) fun lease ψ ⟨hψ, _⟩ => ?_
    split
    · exact ⟨fun _ => rfl, hψ.2⟩
    · exact hψ

/-- A call returns, of a cleared room what it may. -/
theorem emit_clearing (hφ : (clearing r).ends φ) {res : Result} (he : φ.ctx = true → Blank r.2 res) :
    (clearing r).wp (Prog.emit (S := iface) (Emit.returned r.1 r.2 res)) φ fun _ ψ => (clearing r).ends ψ := by
  refine ⟨hφ.1, fun e he' => ?_⟩
  rcases List.mem_append.mp he' with he' | he'
  · exact hφ.2 e he'
  · exact ⟨res, List.mem_singleton.mp he', he⟩

end Programs

/-- **The programs keep the contract.** -/
theorem system_clearing : system.Keeps fun _ r => clearing r where
  program i r x loc hx := by
    have hφ : (clearing r).ends ⟨x, [], [], loc⟩ := clearing_begun hx
    obtain ⟨n, c⟩ := r
    cases c with
    | get =>
      refine Contract.wp_seq _ (get_clearing hφ) fun tl ψ ⟨hψ, htl⟩ => ?_
      exact emit_clearing hψ fun hc => by rw [htl hc]; rfl
    | applyControl req serverNow =>
      refine Contract.wp_seq (fun o ψ => (clearing (n, .applyControl req serverNow)).ends ψ ∧ (ψ.ctx = true → Away o)) ?_ fun o ψ ⟨hψ, ho⟩ => ?_
      · refine Contract.wp_within _ _ |>.mpr ⟨hφ, fun x loc _ hb => ?_⟩
        exact Contract.wp_mono (fun o ψ h => h) (applyControlSerial_clearing (clearing_begun hb) i req serverNow)
      · refine emit_clearing hψ fun hc => ?_
        exact (ho hc).imp (congrArg Result.outcome) (congrArg Result.outcome)
    | applySnapshot serverNow =>
      refine Contract.wp_seq (fun tl ψ => (clearing (n, .applySnapshot serverNow)).ends ψ ∧ (ψ.ctx = true → tl = none)) ?_
        fun tl ψ ⟨hψ, htl⟩ => ?_
      · refine Contract.wp_within _ _ |>.mpr ⟨hφ, fun x loc _ hb => ?_⟩
        exact Contract.wp_mono (fun o ψ h => h) (applySnapshotSerial_clearing (clearing_begun hb) i serverNow)
      · exact emit_clearing hψ fun hc => by rw [htl hc]; rfl
    | init videoId mediaTime serverNow =>
      refine Contract.wp_seq _ (init_clearing hφ i) fun tl ψ ⟨hψ, htl⟩ => ?_
      refine emit_clearing hψ fun hc => ?_
      obtain ⟨epoch, rfl⟩ := htl hc
      exact ⟨epoch, rfl⟩
    | clear =>
      refine Contract.wp_seq (fun _ ψ => (clearing (n, .clear)).ends ψ) ?_ fun _ ψ hψ => emit_clearing hψ fun _ => trivial
      refine Contract.wp_seq _ (setOwned_clearing hφ fun _ => rfl) fun _ ψ ⟨hψ, _⟩ => ?_
      exact Contract.wp_mono (fun _ _ h => h.1) (call_clearing hψ trivial)
    | renewAll =>
      refine Contract.wp_seq _ (renewAll_clearing hφ i) fun _ ψ hψ => emit_clearing hψ fun _ => trivial
  starts _ _ _ := ⟨false, fun h => by cases h⟩
  begins _ _ _ _ := ⟨false, trivial, fun h => by cases h⟩
  resumes _ _ _ _ _ _ _ := ⟨false, trivial, fun h => by cases h⟩

/-! ## A cleared room -/

/-- The command created a timeline, where there was none. -/
def created : (c : Cmd) → Reply c → Bool
  | .actorInit _ _ _ _, r => r.isSome
  | .actorClaim _, _ => false
  | .actorReclaim _ _, _ => false
  | .actorCommit _ _ _ _ _, _ => false
  | .hgetall, _ => false
  | .del, _ => false
  | .publish _ _, _ => false

/-- The event is the birth of the next incarnation. -/
def births (e : Event) : Bool :=
  match e.out with
  | .executed _ _ c r => created c r
  | _ => false

/-- The keys hold no timeline and no instance has a copy of one. -/
structure Cleared (s : State) : Prop where
  gone : s.shared.room.loadTl = none
  copies : NoCopies s

/-- A command that is no commit finds no timeline, and leaves none unless it creates one. -/
theorem exec_cleared {c : Cmd} (hc : c.isCommit = false) (trim : ℕ) {k : Redis} (h : k.room.loadTl = none) :
    created c (exec c trim k).1 = true ∨ (exec c trim k).2.room.loadTl = none ∧ carried c (exec c trim k).1 = none ∧
      (exec c trim k).2.room.saves = k.room.saves := by
  cases c with
  | actorClaim i =>
    refine Or.inr ⟨?_, rfl, ?_⟩
    · rcases Lua.actorClaim_cases i LEASE_TTL_MS k.room with ⟨-, he⟩ | ⟨lease, -, -, he⟩ | ⟨lease, -, -, he⟩ <;>
        simp only [exec, he] <;> exact h
    · rcases Lua.actorClaim_cases i LEASE_TTL_MS k.room with ⟨-, he⟩ | ⟨lease, -, -, he⟩ | ⟨lease, -, -, he⟩ <;>
        simp only [exec, he]
  | actorReclaim owner fence =>
    refine Or.inr ⟨?_, rfl, ?_⟩
    · rcases Lua.actorReclaim_cases owner fence k.room with ⟨-, he⟩ | ⟨-, he⟩ <;> simp only [exec, he] <;> exact h
    · rcases Lua.actorReclaim_cases owner fence k.room with ⟨-, he⟩ | ⟨-, he⟩ <;> simp only [exec, he]
  | actorInit i fence videoId mediaTime =>
    rcases Lua.actorInit_cases (initArgs i fence videoId mediaTime) trim k.room with
      ⟨-, he⟩ | ⟨-, ⟨c, hc, -⟩ | ⟨-, he⟩⟩
    · refine Or.inr ?_
      simp only [exec, he]
      exact ⟨h, rfl, trivial⟩
    · rw [h] at hc
      cases hc
    · refine Or.inl ?_
      simp only [exec, he]
      rfl
  | actorCommit i fence next cmdId forVideoId => cases hc
  | hgetall => exact Or.inr ⟨h, by simp only [exec, h]; rfl, rfl⟩
  | del => exact Or.inr ⟨rfl, rfl, rfl⟩
  | publish i req => exact Or.inr ⟨h, rfl, rfl⟩

/-- What a segment leaves of a node without copies, and what it shows. -/
theorem resumed_cleared {r : ℕ × Call} {held : List Lane} {n n' : Node iface (ℕ × Call)} {es : List Emit}
    (h : Resumed (clearing r) r true held n es n') (hn : ∀ f ∈ n.conn, ¬Copy f) :
    n'.loc.owned = none ∧ (∀ f ∈ n'.conn, ¬Copy f) ∧ ∀ e ∈ es, ∃ k c res, e = Emit.returned k c res ∧ Blank c res := by
  obtain ⟨held', hloc, hsent⟩ := h.ends
  refine ⟨hloc rfl, fun f hf => ?_, fun e he => ?_⟩
  · rcases h.conn with hc | ⟨g, hc, -, hreply, -, hcall⟩
    · exact hn f (hc ▸ hf)
    · rw [hc] at hf
      rcases List.mem_append.mp hf with hf | hf
      · exact hn f hf
      · rw [List.mem_singleton.mp hf]
        rintro (hcommit | ⟨r, hr, -⟩)
        · cases hg : g.cmd with
          | actorCommit => rw [hg] at hcall; cases hcall
          | _ => rw [hg] at hcommit; cases hcommit
        · rw [hreply] at hr
          cases hr
  · obtain ⟨res, he, hb⟩ := hsent e he
    exact ⟨_, _, res, he, hb rfl⟩

/-- What an event of a cleared room may show. -/
def Silent (e : Event) : Prop :=
  e.post.shared.room.saves = e.pre.shared.room.saves ∧
    ∀ m ∈ shown e, ∃ n c res, m = Emit.returned n c res ∧ Blank c res

/-- **One step of a cleared room.** It creates the next incarnation, or the room stays cleared and nothing of the old
timeline is returned or committed. -/
theorem Cleared.step {e : Event} (hs : System.Step system e.pre e.act e.out e.post)
    (hok : ∀ i, (e.pre.node i).OK clearing) (hI : Cleared e.pre) :
    births e = true ∨ Cleared e.post ∧ Silent e := by
  obtain ⟨s, a, o, s'⟩ := e
  simp only at hs hok hI
  -- a node changes, and nothing else
  have hput : ∀ {j : String} {n : Node iface (ℕ × Call)}, n.loc.owned = none → (∀ f ∈ n.conn, ¬Copy f) →
      Cleared (s.put j n) := by
    intro j n hn hf
    refine ⟨hI.gone, fun i => ?_, fun i => ?_⟩
    · rw [Cluster.put_node]
      split
      · exact hn
      · exact hI.copies.owned i
    · rw [Cluster.put_node]
      split
      · exact hf
      · exact hI.copies.flights i
  have hseg : ∀ {j : String} {r : ℕ × Call} {held : List Lane} {n n' : Node iface (ℕ × Call)} {es : List Emit},
      Resumed (clearing r) r true held n es n' → (∀ f ∈ n.conn, ¬Copy f) →
      Cleared (s.put j n') ∧ Silent ⟨s, a, .sent j es, s.put j n'⟩ := by
    intro j r held n n' es hR hn
    obtain ⟨hloc, hconn, hes⟩ := resumed_cleared hR hn
    exact ⟨hput hloc hconn, rfl, hes⟩
  have hquiet : ∀ {s' : State}, Cleared s' → s'.shared.room.saves = s.shared.room.saves →
      Cleared s' ∧ Silent ⟨s, a, .nothing, s'⟩ := fun hc hsaves => ⟨hc, hsaves, fun _ hm => absurd hm List.not_mem_nil⟩
  cases hs with
  | start j r n es h =>
    exact Or.inr (hseg (system_clearing.start h fun _ => hI.copies.owned j) (hI.copies.flights j))
  | exec j trim pre post f hc hpre hf r k hr =>
    have hmem : ∀ g ∈ pre ++ f :: post, ¬Copy g := hc ▸ hI.copies.flights j
    have hcommit : f.cmd.isCommit = false := by
      have hn := hmem f (List.mem_append_right _ List.mem_cons_self)
      simpa using fun h => hn (Or.inl h)
    have hx := exec_cleared hcommit trim hI.gone
    rw [show exec f.cmd trim s.shared = (r, k) from hr] at hx
    rcases hx with hx | ⟨hgone, hcar, hsaves⟩
    · exact Or.inl hx
    · refine Or.inr ⟨⟨hgone, fun i => ?_, fun i => ?_⟩, hsaves, fun _ hm => absurd hm List.not_mem_nil⟩
      · rw [Cluster.put_node]
        split
        · exact hI.copies.owned j
        · exact hI.copies.owned i
      · rw [Cluster.put_node]
        split
        · intro g hg
          rcases List.mem_append.mp hg with hg | hg
          · exact hmem g (List.mem_append_left _ hg)
          · rcases List.mem_cons.mp hg with rfl | hg
            · rintro (h | ⟨r', hr', h⟩)
              · rw [Flight.answer_cmd, hcommit] at h
                cases h
              · cases hr'
                have hnone : carried f.cmd r = none := hcar
                have hsome : (carried f.cmd r).isSome = true := h
                rw [hnone] at hsome
                cases hsome
            · exact hmem g (List.mem_append_right _ (List.mem_cons_of_mem _ hg))
        · exact hI.copies.flights i
  | deliver j f rest hc r hf n es h =>
    have hmem : ∀ g ∈ f :: rest, ¬Copy g := hc ▸ hI.copies.flights j
    have hfs := (hok j).flights
    rw [hc] at hfs
    obtain ⟨x₀, hf₀⟩ := hfs f List.mem_cons_self
    have hcar : carried f.cmd r = none := by
      have hn := hmem f List.mem_cons_self
      simpa using fun h => hn (Or.inr ⟨r, hf, h⟩)
    exact Or.inr (hseg (hf₀.deliver h trivial fun _ => ⟨hI.copies.owned j, hcar⟩)
      fun g hg => hmem g (List.mem_cons_of_mem _ hg))
  | grant j pre post y hw hfree n es h =>
    have hys := (hok j).waiters
    rw [hw] at hys
    obtain ⟨x₀, hy₀⟩ := hys y (List.mem_append_right _ List.mem_cons_self)
    exact Or.inr (hseg (hy₀.grant h trivial fun _ => hI.copies.owned j) (hI.copies.flights j))
  | reconnect j =>
    refine Or.inr (hquiet (hput (hI.copies.owned j) fun g hg => ?_) rfl)
    obtain ⟨f, hf, rfl⟩ := List.mem_map.mp hg
    rintro (h | ⟨r, hr, -⟩)
    · exact hI.copies.flights j f hf (Or.inl h)
    · cases hr
  | reject j => exact Or.inr (hquiet (hput (hI.copies.owned j) fun g hg => absurd hg List.not_mem_nil) rfl)
  | restart j => exact Or.inr (hquiet (hput rfl fun g hg => absurd hg List.not_mem_nil) rfl)
  | env e =>
    refine Or.inr (hquiet ⟨?_, hI.copies.owned, hI.copies.flights⟩ ?_)
    · cases e with
      | tick d => exact Expiring.get_eq_none_of_le hI.gone (Nat.le_add_right _ _)
      | subscription i up => exact hI.gone
    · cases e <;> rfl
  | idle a => exact Or.inr (hquiet hI rfl)

end ActorRoomStateStore
end WatchParty
