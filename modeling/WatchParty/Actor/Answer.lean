import WatchParty.Actor.Clear

/-!
# Clear and re-init on the actor plane

What `clear` promises, and when: a room that is cleared while no instance holds a copy of its timeline shows nothing
of it until the next `init`, and then the paused timeline that this `init` was given; and a control that is called
while the room has a timeline is not answered `missing`, as long as the timeline stays, forwards reach their owner and
the lease of an instance that is applying a control is not taken from it.

- `answering`: the contract of such a control; its context is the epoch under which it knows to hold the lease;
- `Answers.step`: one step of a calm run;
- `clear_clears`: the whole, and `stale_copy`: a room that is cleared under a copy.
-/

namespace WatchParty
namespace ActorRoomStateStore

/-! ## A control that is answered -/

/-- What a calm room replies to an instance that knows to hold the lease under the epoch `x`. -/
def Responds (x : Option ℚ) : (c : Cmd) → Reply c → Prop
  | .actorClaim _, lease => lease.mine = true → x = some lease.epoch
  | .actorCommit _ fence _ _ _, answer => answer = none → x ≠ some fence
  | .hgetall, tl => tl ≠ none
  | .publish _ _, n => (0 : ℕ) < n
  | .actorReclaim _ _, _ => True
  | .actorInit _ _ _ _, _ => True
  | .del, _ => True

/-- The command names the instance that sends it. -/
def OwnName (instanceId : String) : Cmd → Prop
  | .actorClaim j => j = instanceId
  | .actorCommit j _ _ _ _ => j = instanceId
  | _ => True

/-- The contract of a call that is not answered `missing`. -/
def answering (instanceId : String) (r : ℕ × Call) : Contract iface (Option ℚ) where
  later x x' := ∀ epoch, x = some epoch → x' = some epoch
  begins _ _ := True
  resumes x _ _ c a := Responds x c a
  ends φ := ∀ e ∈ φ.sent, ∀ res, e = Emit.returned r.1 r.2 res → res ≠ .outcome .missing
  calls _ c := OwnName instanceId c

section Programs

variable {i : String} {r : ℕ × Call} {φ : Frame iface (Option ℚ)}

theorem call_answering (hφ : (answering i r).ends φ) {c : Cmd} (hc : OwnName i c) :
    (answering i r).wp (Prog.call (S := iface) c) φ fun a ψ =>
      (answering i r).ends ψ ∧ (answering i r).later φ.ctx ψ.ctx ∧ Responds ψ.ctx c a :=
  ⟨hφ, hc, fun _ _ _ hx ha => ⟨fun _ he => absurd he List.not_mem_nil, hx, ha⟩⟩

theorem get_answering (hφ : (answering i r).ends φ) :
    (answering i r).wp get φ fun tl ψ =>
      (answering i r).ends ψ ∧ (answering i r).later φ.ctx ψ.ctx ∧ tl ≠ none := by
  unfold get
  rw [Contract.wp_bind, Contract.wp_get]
  cases φ.loc.owned with
  | none => exact call_answering hφ trivial
  | some entry => exact ⟨hφ, fun _ h => h, fun h => by cases h⟩

theorem commit_answering (hφ : (answering i r).ends φ) (fence : ℚ) (next : Draft) (cmdId : Option String)
    (forVideoId : Option (Option String)) :
    (answering i r).wp (commit i fence next cmdId forVideoId) φ fun a ψ =>
      (answering i r).ends ψ ∧ (answering i r).later φ.ctx ψ.ctx ∧ (a = none → ψ.ctx ≠ some fence) := by
  refine Contract.wp_seq _ (call_answering hφ rfl) fun a ψ ⟨hψ, hl, ha⟩ => ?_
  cases a with
  | none => exact ⟨hψ, hl, fun _ => ha rfl⟩
  | some answer => exact ⟨hψ, hl, fun h => by cases h⟩

theorem adopt_answering (hφ : (answering i r).ends φ) (epoch : ℚ) :
    (answering i r).wp (adopt epoch) φ fun a ψ => (answering i r).ends ψ ∧ ∀ o, a = .inl o → o ≠ .missing := by
  refine Contract.wp_seq _ (get_answering hφ) fun tl ψ ⟨hψ, _, htl⟩ => ?_
  cases tl with
  | none => exact absurd rfl htl
  | some current => exact ⟨hψ, fun o h => by cases h⟩

theorem acquire_answering (hφ : (answering i r).ends φ) (req : ControlReq) :
    (answering i r).wp (acquire i req) φ fun a ψ => (answering i r).ends ψ ∧ ∀ o, a = .inl o → o ≠ .missing := by
  unfold acquire
  rw [Contract.wp_bind, Contract.wp_get]
  cases φ.loc.owned with
  | some entry => exact ⟨hφ, fun o h => by cases h⟩
  | none =>
    refine Contract.wp_seq _ (call_answering hφ rfl) fun lease ψ ⟨hψ, _, _⟩ => ?_
    by_cases hm : lease.mine = true
    · rw [if_pos hm]
      exact adopt_answering hψ _
    · rw [if_neg hm]
      refine Contract.wp_seq _ (call_answering hψ trivial) fun delivered ψ ⟨hψ, _, hd⟩ => ?_
      rw [if_pos (show delivered > 0 from hd)]
      exact ⟨hψ, fun o h => by cases h; exact fun h => by cases h⟩

theorem outcome_ne_missing (answer : Answer) : outcome answer ≠ .missing := by
  obtain ⟨tl, marker⟩ := answer
  rcases marker with _ | _ | _ <;> exact fun h => by cases h

/-- After a first commit that was fenced out the lease that is claimed next is held until the second commit. -/
theorem retry_answering (hφ : (answering i r).ends φ) (req : ControlReq) (serverNow : ℚ) :
    (answering i r).wp (retry i req serverNow) φ fun o ψ => (answering i r).ends ψ ∧ o ≠ .missing := by
  refine Contract.wp_seq _ (call_answering hφ rfl) fun nowLease ψ ⟨hψ, _, hlease⟩ => ?_
  by_cases hm : nowLease.mine = true
  · rw [if_pos hm]
    refine Contract.wp_seq _ (get_answering hψ) fun fresh χ ⟨hχ, hl, hfresh⟩ => ?_
    have hheld : χ.ctx = some nowLease.epoch := hl _ (hlease hm)
    cases fresh with
    | none => exact absurd rfl hfresh
    | some fresh =>
      refine Contract.wp_seq (fun _ ω => (answering i r).ends ω ∧ ω.ctx = χ.ctx) ⟨hχ, rfl⟩
        fun _ ω ⟨hω, hctx⟩ => ?_
      refine Contract.wp_seq _ (commit_answering hω _ _ _ _) fun a ψ ⟨hψ, hl, ha⟩ => ?_
      cases a with
      | none => exact absurd (hl _ (hctx.trans hheld)) (ha rfl)
      | some answer => exact ⟨hψ, outcome_ne_missing answer⟩
  · rw [if_neg hm]
    refine Contract.wp_seq _ (call_answering hψ trivial) fun delivered ψ ⟨hψ, _, hd⟩ => ?_
    rw [if_pos (show delivered > 0 from hd)]
    exact ⟨hψ, fun h => by cases h⟩

theorem applyControlSerial_answering (hφ : (answering i r).ends φ) (req : ControlReq) (serverNow : ℚ) :
    (answering i r).wp (applyControlSerial i req serverNow) φ
      fun o ψ => (answering i r).ends ψ ∧ o ≠ .missing := by
  refine Contract.wp_seq _ (acquire_answering hφ req) fun a ψ ⟨hψ, ha⟩ => ?_
  cases a with
  | inl o => exact ⟨hψ, ha o rfl⟩
  | inr entry =>
    refine Contract.wp_seq _ (commit_answering hψ _ _ _ _) fun a χ ⟨hχ, _, _⟩ => ?_
    cases a with
    | none => exact retry_answering hχ req serverNow
    | some answer => exact ⟨hχ, outcome_ne_missing answer⟩

/-- **A control keeps the contract.** -/
theorem applyControl_answering (i : String) (n : ℕ) (req : ControlReq) (serverNow : ℚ) (x : Option ℚ) (loc : Local) :
    (answering i (n, .applyControl req serverNow)).wp (system.program i (n, .applyControl req serverNow))
      ⟨x, [], [], loc⟩ fun _ φ => (answering i (n, .applyControl req serverNow)).ends φ := by
  refine Contract.wp_seq (fun o ψ => (answering i (n, .applyControl req serverNow)).ends ψ ∧ o ≠ .missing) ?_
    fun o ψ ⟨hψ, ho⟩ => ?_
  · refine Contract.wp_within _ _ |>.mpr ⟨fun _ he => absurd he List.not_mem_nil, fun x loc _ _ => ?_⟩
    exact Contract.wp_mono (fun o ψ h => h)
      (applyControlSerial_answering (fun _ he => absurd he List.not_mem_nil) req serverNow)
  · intro e he res hres
    rcases List.mem_append.mp he with he | he
    · exact hψ e he res hres
    · rw [List.mem_singleton.mp he] at hres
      cases hres
      exact fun h => ho (Result.outcome.inj h)

end Programs

/-! ## Calm runs -/

/-- A call of the instance waits. -/
def Pending (i : String) (r : ℕ × Call) (s : State) : Prop :=
  (∃ f ∈ (s.node i).conn, f.req = r) ∨ ∃ y ∈ (s.node i).waiting, y.req = r

/-- A calm event, for call `r` of instance `i`: the room has a timeline, a forward that executes finds a subscriber,
and while the call waits the lease of the instance stays. -/
structure Calm (i : String) (r : ℕ × Call) (e : Event) : Prop where
  stored : e.pre.shared.room.loadTl ≠ none
  subscribed : ∀ j req owner c a, e.out = .executed j req (.publish owner c) a → e.pre.shared.subscribed owner = true
  leased : Pending i r e.pre → ∀ lease, e.pre.shared.room.leaseNow = some lease → lease.owner = i →
    e.post.shared.room.leaseNow = some lease

/-- What is known of a reply that was executed since the context `x`. -/
def Replied (i : String) (lease : Option Lease) (x : Option ℚ) : (c : Cmd) → Reply c → Prop
  | .actorClaim _, view => view.mine = true → lease = some ⟨i, view.epoch⟩
  | .actorCommit _ fence _ _ _, answer => answer = none → x ≠ some fence
  | .hgetall, tl => tl ≠ none
  | .publish _ _, n => (0 : ℕ) < n
  | .actorReclaim _ _, _ => True
  | .actorInit _ _ _ _, _ => True
  | .del, _ => True

/-- The instance holds the lease under the epoch that it knows. -/
def Leased (i : String) (lease : Option Lease) (x : Option ℚ) : Prop := ∀ epoch, x = some epoch → lease = some ⟨i, epoch⟩

/-- What a calm run keeps of the programs of call `r` on a node of instance `i`. -/
structure Answers (i : String) (r : ℕ × Call) (lease : Option Lease) (n : Node iface (ℕ × Call)) : Prop where
  flights : ∀ f ∈ n.conn, f.req = r → ∃ x, f.OK (answering i r) x ∧ Leased i lease x ∧ OwnName i f.cmd ∧
    ∀ a, f.reply = some a → Replied i lease x f.cmd a
  waiters : ∀ y ∈ n.waiting, y.req = r → ∃ x, y.OK (answering i r) x ∧ Leased i lease x

/-- A reply that was executed tells the program that waits for it a context that it may run in. -/
theorem Replied.responds {i : String} {lease : Option Lease} {x : Option ℚ} {c : Cmd} {a : Reply c}
    (hx : Leased i lease x) (ha : Replied i lease x c a) :
    ∃ x', (∀ epoch, x = some epoch → x' = some epoch) ∧ Responds x' c a ∧ Leased i lease x' := by
  cases c with
  | actorClaim j =>
    by_cases hm : a.mine = true
    · have hl := ha hm
      refine ⟨some a.epoch, fun epoch he => ?_, fun _ => rfl, fun epoch he => ?_⟩
      · have := hl.symm.trans (hx epoch he)
        cases this
        rfl
      · cases he
        exact hl
    · exact ⟨x, fun _ h => h, fun h => absurd h hm, hx⟩
  | actorCommit j fence next cmdId forVideoId => exact ⟨x, fun _ h => h, ha, hx⟩
  | hgetall => exact ⟨x, fun _ h => h, ha, hx⟩
  | publish owner c => exact ⟨x, fun _ h => h, ha, hx⟩
  | actorReclaim owner fence => exact ⟨x, fun _ h => h, trivial, hx⟩
  | actorInit j fence videoId mediaTime => exact ⟨x, fun _ h => h, trivial, hx⟩
  | del => exact ⟨x, fun _ h => h, trivial, hx⟩

/-- What is known of a reply stays known while the instance keeps its lease. -/
theorem Replied.leased {i : String} {lease lease' : Option Lease} {x : Option ℚ} {c : Cmd} {a : Reply c}
    (ha : Replied i lease x c a) (h : ∀ l, lease = some l → l.owner = i → lease' = some l) : Replied i lease' x c a := by
  cases c with
  | actorClaim j => exact fun hm => h _ (ha hm) rfl
  | actorCommit j fence next cmdId forVideoId => exact ha
  | hgetall => exact ha
  | publish owner c => exact ha
  | actorReclaim owner fence => trivial
  | actorInit j fence videoId mediaTime => trivial
  | del => trivial

/-- A command of the call that executes in a calm room. -/
theorem exec_replied {i : String} {x : Option ℚ} {c : Cmd} (hown : OwnName i c) (trim : ℕ) {k : Redis}
    (hx : Leased i k.room.leaseNow x) (hstored : k.room.loadTl ≠ none)
    (hsub : ∀ owner req, c = .publish owner req → k.subscribed owner = true) :
    Replied i (exec c trim k).2.room.leaseNow x c (exec c trim k).1 := by
  cases c with
  | actorClaim j =>
    cases hown
    intro hm
    rcases Lua.actorClaim_cases i LEASE_TTL_MS k.room with ⟨-, he⟩ | ⟨lease, -, ho, he⟩ | ⟨lease, -, -, he⟩
    · simp only [exec, he]
      exact Expiring.get_put_self LEASE_TTL_MS_pos _
    · simp only [exec, he]
      rw [← ho]
      exact Expiring.get_put_self LEASE_TTL_MS_pos _
    · simp only [exec, he] at hm
      cases hm
  | actorCommit j fence next cmdId forVideoId =>
    cases hown
    rintro hnone rfl
    have hh : Lua.Holds i fence k.room := hx fence rfl
    rcases Lua.actorCommit_cases (commitArgs i fence next cmdId forVideoId) trim k.room with
      ⟨hn, -⟩ | ⟨-, ⟨c, -, -, he⟩ | ⟨c, -, -, -, he⟩ | ⟨-, he⟩⟩
    · exact hn hh
    all_goals
      simp only [exec, he] at hnone
      cases hnone
  | hgetall =>
    intro h
    exact hstored (Option.map_eq_none_iff.mp h)
  | publish owner req =>
    show 0 < (if k.subscribed owner then 1 else 0)
    rw [if_pos (hsub owner req rfl)]
    exact Nat.one_pos
  | actorReclaim owner fence => trivial
  | actorInit j fence videoId mediaTime => trivial
  | del => trivial

section Segments

variable {i : String} {r : ℕ × Call} {lease : Option Lease} {n n' : Node iface (ℕ × Call)} {es : List Emit}
  {held : List Lane}

/-- Nothing that is shown is an answer `missing` to the call. -/
def Answered (r : ℕ × Call) (es : List Emit) : Prop :=
  ∀ e ∈ es, ∀ res, e = Emit.returned r.1 r.2 res → res ≠ .outcome .missing

/-- A segment of the call. -/
theorem Answers.own {x : Option ℚ} (hR : Resumed (answering i r) r x held n es n') (hx : Leased i lease x)
    (hn : Answers i r lease n) : Answers i r lease n' ∧ Answered r es := by
  refine ⟨?_, hR.ends.elim fun _ h => h⟩
  cases hR with
  | ended loc held' h => exact ⟨hn.flights, hn.waiters⟩
  | asked loc f hreq hreply hheld h hcall hok =>
    refine ⟨fun g hg => ?_, hn.waiters⟩
    rcases List.mem_append.mp hg with hg | hg
    · exact hn.flights g hg
    · rw [List.mem_singleton.mp hg]
      exact fun _ => ⟨x, hok, hx, hcall, fun a ha => by rw [hreply] at ha; cases ha⟩
  | waits loc y hreq hheld h hok =>
    refine ⟨hn.flights, fun z hz => ?_⟩
    rcases List.mem_append.mp hz with hz | hz
    · exact hn.waiters z hz
    · rw [List.mem_singleton.mp hz]
      exact fun _ => ⟨x, hok, hx⟩

/-- A segment of another call. -/
theorem Answers.other {r' : ℕ × Call} (hr : r' ≠ r) (hR : Resumed (clearing r') r' false held n es n')
    (hn : Answers i r lease n) : Answers i r lease n' ∧ Answered r es := by
  constructor
  · cases hR with
    | ended loc held' h => exact ⟨hn.flights, hn.waiters⟩
    | asked loc f hreq hreply hheld h hcall hok =>
      refine ⟨fun g hg hgr => ?_, hn.waiters⟩
      rcases List.mem_append.mp hg with hg | hg
      · exact hn.flights g hg hgr
      · rw [List.mem_singleton.mp hg, hreq] at hgr
        exact absurd hgr hr
    | waits loc y hreq hheld h hok =>
      refine ⟨hn.flights, fun z hz hzr => ?_⟩
      rcases List.mem_append.mp hz with hz | hz
      · exact hn.waiters z hz hzr
      · rw [List.mem_singleton.mp hz, hreq] at hzr
        exact absurd hzr hr
  · intro e he res hres
    obtain ⟨-, hsent⟩ := hR.ends.choose_spec
    obtain ⟨res', he', -⟩ := hsent e he
    rw [he'] at hres
    obtain ⟨hn, hc, -⟩ := Emit.returned.inj hres
    exact absurd (Prod.ext hn hc) hr

/-- The lease of the instance stays while the call waits. -/
theorem Answers.leased {lease' : Option Lease} (hn : Answers i r lease n)
    (h : ((∃ f ∈ n.conn, f.req = r) ∨ ∃ y ∈ n.waiting, y.req = r) →
      ∀ l, lease = some l → l.owner = i → lease' = some l) : Answers i r lease' n := by
  refine ⟨fun f hf hr => ?_, fun y hy hr => ?_⟩
  · obtain ⟨x, hok, hx, hown, ha⟩ := hn.flights f hf hr
    have hkeep := h (Or.inl ⟨f, hf, hr⟩)
    exact ⟨x, hok, fun epoch he => hkeep _ (hx epoch he) rfl, hown, fun a hfa => (ha a hfa).leased hkeep⟩
  · obtain ⟨x, hok, hx⟩ := hn.waiters y hy hr
    exact ⟨x, hok, fun epoch he => h (Or.inr ⟨y, hy, hr⟩) _ (hx epoch he) rfl⟩

end Segments

/-- The call is a control. -/
def IsControl (r : ℕ × Call) : Prop := ∃ n req serverNow, r = (n, .applyControl req serverNow)

/-- **One step of a calm run** answers the control, if it does, with something else than `missing`. -/
theorem Answers.step {i : String} {r : ℕ × Call} (hr : IsControl r) {e : Event}
    (hs : System.Step system e.pre e.act e.out e.post) (hok : ∀ j, (e.pre.node j).OK clearing) (hc : Calm i r e)
    (hI : Answers i r e.pre.shared.room.leaseNow (e.pre.node i)) :
    Answers i r e.post.shared.room.leaseNow (e.post.node i) ∧ ∀ es, e.out = .sent i es → Answered r es := by
  obtain ⟨s, a, o, s'⟩ := e
  obtain ⟨hstored, hsub, hleased⟩ := hc
  simp only at hs hok hstored hsub hleased hI ⊢
  -- a segment of a node, which leaves the store alone
  have hseg : ∀ {j : String} {n n' : Node iface (ℕ × Call)} {es : List Emit},
      (j = i → Answers i r s.shared.room.leaseNow n' ∧ Answered r es) →
      Answers i r (s.put j n').shared.room.leaseNow ((s.put j n').node i) ∧
        ∀ es', (Obs.sent j es : Obs iface String (ℕ × Call)) = .sent i es' → Answered r es' := by
    intro j n n' es h
    rw [Cluster.put_shared, Cluster.put_node]
    split
    · rename_i hij
      exact ⟨(h hij.symm).1, fun es' he => by cases he; exact (h rfl).2⟩
    · rename_i hij
      exact ⟨hI, fun es' he => by cases he; exact absurd rfl hij⟩
  cases hs with
  | start j r' n es h =>
    refine hseg (n := s.node j) fun hj => ?_
    subst hj
    by_cases hrr : r' = r
    · subst hrr
      obtain ⟨n, req, serverNow, rfl⟩ := hr
      exact Answers.own (x := none) (Node.resumed h (applyControl_answering j n req serverNow none _))
        (fun epoch he => by cases he) hI
    · exact hI.other hrr (system_clearing.start h fun hc => by cases hc)
  | exec j trim pre post f hc hpre hf a k hx =>
    refine ⟨?_, fun es he => by cases he⟩
    have hkeep : Answers i r k.room.leaseNow (s.node i) := hI.leased hleased
    rw [Cluster.put_shared, Cluster.put_node]
    split
    · rename_i hij
      subst hij
      refine ⟨fun g hg hgr => ?_, hkeep.waiters⟩
      rcases List.mem_append.mp hg with hg | hg
      · exact hkeep.flights g (hc ▸ List.mem_append_left _ hg) hgr
      rcases List.mem_cons.mp hg with rfl | hg
      · have hmem : f ∈ (s.node i).conn := hc ▸ List.mem_append_right _ List.mem_cons_self
        obtain ⟨x, hf₀, hx₀, hown, -⟩ := hI.flights f hmem hgr
        have hx' : Leased i k.room.leaseNow x := fun epoch he =>
          hleased (Or.inl ⟨f, hmem, hgr⟩) _ (hx₀ epoch he) rfl
        refine ⟨x, hf₀, hx', hown, fun a' ha' => ?_⟩
        cases ha'
        obtain ⟨req, held, cmd, reply, rest⟩ := f
        have hrep := exec_replied hown trim hx₀ hstored fun owner c he => by
          cases he
          exact hsub i req owner c a rfl
        rw [show exec cmd trim s.shared = (a, k) from hx] at hrep
        exact hrep
      · exact hkeep.flights g (hc ▸ List.mem_append_right _ (List.mem_cons_of_mem _ hg)) hgr
    · exact hkeep
  | deliver j f rest hc a hf n es h =>
    refine hseg (n := s.node j) fun hj => ?_
    subst hj
    have hrest : Answers j r s.shared.room.leaseNow { s.node j with conn := rest } :=
      ⟨fun g hg => hI.flights g (hc ▸ List.mem_cons_of_mem _ hg), hI.waiters⟩
    have hmem : f ∈ (s.node j).conn := hc ▸ List.mem_cons_self
    by_cases hrr : f.req = r
    · obtain ⟨x, hf₀, hx, -, ha⟩ := hI.flights f hmem hrr
      obtain ⟨x', hl, hresp, hx'⟩ := (ha a hf).responds hx
      rw [← hrr] at hf₀ hrest ⊢
      exact Answers.own (hf₀.deliver h hl hresp) hx' hrest
    · obtain ⟨x, hf₀⟩ := (hok j).flights f hmem
      exact hrest.other hrr (hf₀.deliver (x := false) h trivial fun hc => by cases hc)
  | grant j pre post y hw hfree n es h =>
    refine hseg (n := s.node j) fun hj => ?_
    subst hj
    have hsub' : ∀ z ∈ pre ++ post, z ∈ (s.node j).waiting := by
      intro z hz
      rw [hw]
      rcases List.mem_append.mp hz with hz | hz
      · exact List.mem_append_left _ hz
      · exact List.mem_append_right _ (List.mem_cons_of_mem _ hz)
    have hrest : Answers j r s.shared.room.leaseNow { s.node j with waiting := pre ++ post } :=
      ⟨hI.flights, fun z hz => hI.waiters z (hsub' z hz)⟩
    have hmem : y ∈ (s.node j).waiting := hw ▸ List.mem_append_right _ List.mem_cons_self
    by_cases hrr : y.req = r
    · obtain ⟨x, hy₀, hx⟩ := hI.waiters y hmem hrr
      rw [← hrr] at hy₀ hrest ⊢
      exact Answers.own (hy₀.grant h (fun _ h => h) trivial) hx hrest
    · obtain ⟨x, hy₀⟩ := (hok j).waiters y hmem
      exact hrest.other hrr (hy₀.grant (x := false) h trivial fun hc => by cases hc)
  | reconnect j =>
    refine ⟨?_, fun es he => by cases he⟩
    rw [Cluster.put_shared, Cluster.put_node]
    split
    · rename_i hij
      subst hij
      refine ⟨fun g hg hgr => ?_, hI.waiters⟩
      obtain ⟨f, hf, rfl⟩ := List.mem_map.mp hg
      obtain ⟨x, hf₀, hx, hown, -⟩ := hI.flights f hf hgr
      exact ⟨x, hf₀, hx, hown, fun a ha => by cases ha⟩
    · exact hI
  | reject j =>
    refine ⟨?_, fun es he => by cases he⟩
    rw [Cluster.put_shared, Cluster.put_node]
    split
    · rename_i hij
      subst hij
      exact ⟨fun g hg => absurd hg List.not_mem_nil, hI.waiters⟩
    · exact hI
  | restart j =>
    refine ⟨?_, fun es he => by cases he⟩
    rw [Cluster.put_shared, Cluster.put_node]
    split
    · exact ⟨fun g hg => absurd hg List.not_mem_nil, fun y hy => absurd hy List.not_mem_nil⟩
    · exact hI
  | env e => exact ⟨hI.leased hleased, fun es he => by cases he⟩
  | idle a => exact ⟨hI, fun es he => by cases he⟩

end ActorRoomStateStore
end WatchParty
