import WatchParty.Actor.Forward

/-!
# Every forwarded control is concluded

Runs of the gateway on the actor plane in which no message is lost and no instance crashes: what becomes of the controls
that were answered `forwarded`.

- `Alive`: nothing is lost; `Heard`: what goes well at every forward handler;
- `Awaiting`, `Queued`, `Owes`: what a node keeps of the handlers that owe a conclusion;
- `Books`: the invariant; `forwarded_concludes`: what follows, and `forwarded_silently`: a control of the room's
  controller that is lost.
-/

namespace WatchParty
namespace ActorGateway

open ActorRoomStateStore (iface Cmd Reply)
open Ledger (Advanced tally)

/-! ## Runs in which nothing is lost -/

/-- The instance whose forward channel an executed command publishes on. -/
def published? (e : Event) : Option String :=
  match e.out with
  | .executed _ _ (.publish owner _) _ => some owner
  | _ => none

/-- No message is lost and nothing crashes: no instance loses its connection or restarts, whoever is published to is
subscribed, and a forward handler is called with a control that was forwarded to its instance. -/
structure Alive (tr : List Event) (e : Event) : Prop where
  steady : Ledger.steady e.act = true
  subscribed : ∀ owner ∈ published? e, e.pre.shared.subscribed owner = true
  delivered : ∀ m ∈ opened? e, m ∈ inFlight tr

instance (tr : List Event) (e : Event) : Decidable (Alive tr e) :=
  decidable_of_iff (Ledger.steady e.act = true ∧ (∀ owner ∈ published? e, e.pre.shared.subscribed owner = true) ∧
    ∀ m ∈ opened? e, m ∈ inFlight tr) ⟨fun ⟨h₁, h₂, h₃⟩ => ⟨h₁, h₂, h₃⟩, fun ⟨h₁, h₂, h₃⟩ => ⟨h₁, h₂, h₃⟩⟩

/-- The instance at which a forwarded control arrives, when it does, and the control. -/
def arrives? (e : Event) : Option (String × ℚ × ControlReq) :=
  match e.act with
  | .start i (.forwarded _ _ now c) => some (i, now, c)
  | _ => none

/-- The event reads the timeline for a forward handler. -/
def reads (e : Event) : Bool :=
  match e.out with
  | .executed _ r .hgetall _ => r.isForwarded
  | _ => false

/-- The handler whose commit an event executes, and the lease under which it commits. -/
def commits? (e : Event) : Option ((String × Request) × Lease) :=
  match e.out with
  | .executed i r (.actorCommit j fence _ _ _) _ => some ((i, r), ⟨j, fence⟩)
  | _ => none

/-- A commit of the handler was executed before. -/
def CommittedBefore (tr : List Event) (i : String) (r : Request) : Prop :=
  ∃ e ∈ tr, (commits? e).map Prod.fst = some (i, r)

instance (tr : List Event) (i : String) (r : Request) : Decidable (CommittedBefore tr i r) :=
  inferInstanceAs (Decidable (∃ e ∈ tr, (commits? e).map Prod.fst = some (i, r)))

/-- What goes well at every forward handler: the instance has settings that allow the sender and a token for it when
the control arrives; the room has a timeline when the handler reads it; and when the handler commits a second time, since
its first commit was fenced out, it holds the lease that it has claimed again. -/
structure Heard (tr : List Event) (e : Event) : Prop where
  admitted : ∀ p ∈ arrives? e,
    (TimelineService.admission ("forward:" ++ p.2.2.byUser) p.2.2.byUser p.2.1 (e.pre.node p.1).loc).1 = none
  stored : reads e = true → e.pre.shared.room.loadTl ≠ none
  held : ∀ p ∈ commits? e, p.1.2.isForwarded = true → CommittedBefore tr p.1.1 p.1.2 →
    e.pre.shared.room.leaseNow = some p.2

instance (tr : List Event) (e : Event) : Decidable (Heard tr e) :=
  decidable_of_iff ((∀ p ∈ arrives? e,
      (TimelineService.admission ("forward:" ++ p.2.2.byUser) p.2.2.byUser p.2.1 (e.pre.node p.1).loc).1 = none) ∧
    (reads e = true → e.pre.shared.room.loadTl ≠ none) ∧
    ∀ p ∈ commits? e, p.1.2.isForwarded = true → CommittedBefore tr p.1.1 p.1.2 →
      e.pre.shared.room.leaseNow = some p.2)
    ⟨fun ⟨h₁, h₂, h₃⟩ => ⟨h₁, h₂, h₃⟩, fun ⟨h₁, h₂, h₃⟩ => ⟨h₁, h₂, h₃⟩⟩

/-- What the commit was answered whose reply an event delivers. -/
def answered? (e : Event) : Option Answer :=
  match e.act with
  | .deliver i => (e.pre.node i).conn.head?.bind fun f => f.reply.bind (answerOf f.cmd)
  | _ => none

/-! ## What a node keeps -/

/-- What is known of a reply to a forward handler that was executed. -/
def Replied (tr : List Event) (i : String) (r : Request) (x : Course) : (c : Cmd) → Reply c → Prop
  | .actorCommit _ _ _ _ _, answer => CommittedBefore tr i r ∧ (answer = none → x.stage = 0)
  | .hgetall, tl => tl ≠ none
  | .publish _ _, delivered => (0 : ℕ) < delivered
  | .actorClaim _, _ => True
  | .actorReclaim _ _, _ => True
  | .actorInit _ _ _ _, _ => True
  | .del, _ => True

section Nodes

variable (auth : String → AuthedSocketData) (tr : List Event) (i : String)

/-- A handler that owes a conclusion for `c` and awaits a reply since the course `x`. -/
structure Awaiting (f : Flight iface Request) (c : ControlReq) (x : Course) : Prop where
  origin : c.originSocketId.isSome
  ok : (owing auth f.req).Awaits x f.held f.cmd f.rest fun _ φ => Ended f.req φ
  stage : f.req.isForwarded = true → 1 ≤ x.stage → CommittedBefore tr i f.req
  payload : ∀ owner c', f.cmd = .publish owner c' → c' = c
  replied : f.req.isForwarded = true → ∀ a, f.reply = some a → Replied tr i f.req x f.cmd a

/-- A handler that owes a conclusion for `c` and waits for its turn since the course `x`. -/
structure Queued (y : Waiter iface Request) (c : ControlReq) (x : Course) : Prop where
  origin : c.originSocketId.isSome
  ok : (owing auth y.req).Waits x y.held y.lane y.rest fun _ φ => Ended y.req φ
  stage : y.req.isForwarded = true → 1 ≤ x.stage → CommittedBefore tr i y.req

/-- The handlers of a node that owe a conclusion. -/
structure Owes (n : Node iface Request) : Prop where
  flights : ∀ f ∈ n.conn, ∀ m c, f.req.subject? auth = some (m, c) → ∃ x, Awaiting auth tr i f c x
  waiters : ∀ y ∈ n.waiting, ∀ m c, y.req.subject? auth = some (m, c) → ∃ x, Queued auth tr i y c x

end Nodes

section Step

variable {auth : String → AuthedSocketData} {tr : List Event} {i : String} {r : Request} {m : ℕ} {c : ControlReq}
  {n n' : Node iface Request} {es : List Emit} {x : Course}

theorem CommittedBefore.snoc (h : CommittedBefore tr i r) (e : Event) : CommittedBefore (tr ++ [e]) i r := by
  obtain ⟨e', he', hout⟩ := h
  exact ⟨e', List.mem_append_left _ he', hout⟩

theorem Replied.snoc {cmd : Cmd} {a : Reply cmd} (h : Replied tr i r x cmd a) (e : Event) :
    Replied (tr ++ [e]) i r x cmd a := by
  cases cmd with
  | actorCommit j fence next cmdId forVideoId => exact ⟨h.1.snoc e, h.2⟩
  | hgetall => exact h
  | publish owner c => exact h
  | actorClaim j => trivial
  | actorReclaim owner fence => trivial
  | actorInit j fence videoId mediaTime => trivial
  | del => trivial

theorem Owes.snoc (h : Owes auth tr i n) (e : Event) : Owes auth (tr ++ [e]) i n := by
  constructor
  · intro f hf m c hr
    obtain ⟨x, hx⟩ := h.flights f hf m c hr
    exact ⟨x, hx.origin, hx.ok, fun hfwd hs => (hx.stage hfwd hs).snoc e, hx.payload,
      fun hfwd a ha => (hx.replied hfwd a ha).snoc e⟩
  · intro y hy m c hr
    obtain ⟨x, hx⟩ := h.waiters y hy m c hr
    exact ⟨x, hx.origin, hx.ok, fun hfwd hs => (hx.stage hfwd hs).snoc e⟩

/-- A node that has lost handlers. -/
theorem Owes.subset (h : Owes auth tr i n) (hc : n'.conn ⊆ n.conn) (hw : n'.waiting ⊆ n.waiting) :
    Owes auth tr i n' := ⟨fun f hf => h.flights f (hc hf), fun y hy => h.waiters y (hw hy)⟩

/-- A segment of a handler that owes a conclusion. -/
theorem Owes.advanced (h : Owes auth tr i n) (hr : r.subject? auth = some (m, c)) (horigin : c.originSocketId.isSome)
    (hstage : r.isForwarded = true → 1 ≤ x.stage → CommittedBefore tr i r)
    (ha : Advanced (owing auth r) (Ended r) r x n es n') : Owes auth tr i n' := by
  cases ha with
  | ended loc held he => exact ⟨h.flights, h.waiters⟩
  | asked loc f hreq hreply hends hcall hok =>
    subst hreq
    refine ⟨fun g hg m' c' hr' => ?_, h.waiters⟩
    rcases List.mem_append.mp hg with hg | hg
    · exact h.flights g hg m' c' hr'
    · rw [List.mem_singleton.mp hg] at hr' ⊢
      rw [hr] at hr'
      cases hr'
      refine ⟨x, horigin, hok, hstage, fun owner c' he => ?_, fun _ a ha => ?_⟩
      · obtain ⟨m', hm⟩ := hcall owner c' he
        rw [hr] at hm
        cases hm
        rfl
      · rw [hreply] at ha
        cases ha
  | waits loc y hreq hends hok =>
    subst hreq
    refine ⟨h.flights, fun z hz m' c' hr' => ?_⟩
    rcases List.mem_append.mp hz with hz | hz
    · exact h.waiters z hz m' c' hr'
    · rw [List.mem_singleton.mp hz] at hr' ⊢
      rw [hr] at hr'
      cases hr'
      exact ⟨x, horigin, hok, hstage⟩

/-- A segment of another handler. -/
theorem Owes.other {held : List Lane} {p : Prog iface Unit} (h : Owes auth tr i n) (hr : r.subject? auth = none)
    (hn : n.resume r held p = (n', es)) : Owes auth tr i n' := by
  cases Node.resumed_free hn with
  | ended loc held' he => exact ⟨h.flights, h.waiters⟩
  | asked loc f hreq hreply hheld hends hcall hok =>
    refine ⟨fun g hg m c hr' => ?_, h.waiters⟩
    rcases List.mem_append.mp hg with hg | hg
    · exact h.flights g hg m c hr'
    · rw [List.mem_singleton.mp hg, hreq, hr] at hr'
      cases hr'
  | waits loc y hreq hheld hends hok =>
    refine ⟨h.flights, fun z hz m c hr' => ?_⟩
    rcases List.mem_append.mp hz with hz | hz
    · exact h.waiters z hz m c hr'
    · rw [List.mem_singleton.mp hz, hreq, hr] at hr'
      cases hr'

/-- What a forward handler emits in a segment is the conclusion of what its commit was answered. -/
theorem concluded_of_advanced {k : ℕ} {now : ℚ} (ha : Advanced (owing auth (.forwarded k m now c))
    (Ended (.forwarded k m now c)) (.forwarded k m now c) x n es n') (hes : es ≠ []) :
    ∃ answer, x.answered = some answer ∧ es = conclusion c answer := by
  cases ha with
  | ended loc held he => exact he.2 k m now c rfl hes
  | asked loc f hreq hreply hends hcall hok => exact absurd hends.2 hes
  | waits loc y hreq hends hok => exact absurd hends.2 hes

/-- A handler that begins. -/
theorem program_owing (hr : r.subject? auth = some (m, c)) (horigin : c.originSocketId.isSome) (loc : Local)
    (hadm : ∀ k n now c, r = .forwarded k n now c →
      (TimelineService.admission ("forward:" ++ c.byUser) c.byUser now loc).1 = none) :
    (owing auth r).wp (program auth i r) ⟨⟨0, false, none⟩, [], [], loc⟩ fun _ φ => Ended r φ := by
  cases r with
  | control k id now req => exact handleSyncControl_owing id now req k ⟨rfl, rfl⟩
  | forwarded k n now c' =>
    cases hr
    exact forwardHandler_owing k m now c ⟨rfl, rfl⟩ horigin (hadm k m now c rfl)
  | joined id room now => cases hr
  | left id => cases hr
  | departed id sockets => cases hr
  | elsewhere id => cases hr
  | sweep now => cases hr
  | persistTimer => cases hr
  | renewAll => cases hr

/-- The course of a handler after a reply. -/
theorem Awaiting.course {f : Flight iface Request} (h : Awaiting auth tr i f c x) {a : Reply f.cmd}
    (ha : f.reply = some a) :
    ∃ x', x.stage ≤ x'.stage ∧ x'.handed = passes f.cmd a ∧ x'.answered = answerOf f.cmd a ∧
      (f.req.isForwarded = true → Responds x' f.cmd a ∧ (1 ≤ x'.stage → CommittedBefore tr i f.req)) := by
  by_cases hf : f.req.isForwarded = true
  · have hrep := h.replied hf a ha
    have hstage := h.stage hf
    obtain ⟨req, held, cmd, reply, rest⟩ := f
    cases cmd with
    | actorClaim j =>
      by_cases h1 : x.stage = 1
      · refine ⟨⟨2, false, none⟩, by simp [h1], rfl, rfl, fun _ => ⟨by simp [Responds], fun _ => hstage h1.ge⟩⟩
      · exact ⟨⟨x.stage, false, none⟩, le_rfl, rfl, rfl, fun _ => ⟨h1, hstage⟩⟩
    | actorCommit j fence next cmdId forVideoId =>
      obtain ⟨hbefore, hnone⟩ := hrep
      cases a with
      | none => exact ⟨⟨1, false, none⟩, by simp [hnone rfl], rfl, rfl, fun _ => ⟨fun _ => rfl, fun _ => hbefore⟩⟩
      | some answer =>
        exact ⟨⟨x.stage, false, some answer⟩, le_rfl, rfl, rfl, fun _ => ⟨fun h => (by cases h), hstage⟩⟩
    | hgetall => exact ⟨⟨x.stage, false, none⟩, le_rfl, rfl, rfl, fun _ => ⟨hrep, hstage⟩⟩
    | publish owner c => exact ⟨⟨x.stage, passes _ a, none⟩, le_rfl, rfl, rfl, fun _ => ⟨hrep, hstage⟩⟩
    | actorReclaim owner fence => exact ⟨⟨x.stage, false, none⟩, le_rfl, rfl, rfl, fun _ => ⟨trivial, hstage⟩⟩
    | actorInit j fence videoId mediaTime =>
      exact ⟨⟨x.stage, false, none⟩, le_rfl, rfl, rfl, fun _ => ⟨trivial, hstage⟩⟩
    | del => exact ⟨⟨x.stage, false, none⟩, le_rfl, rfl, rfl, fun _ => ⟨trivial, hstage⟩⟩
  · exact ⟨⟨x.stage, passes f.cmd a, answerOf f.cmd a⟩, le_rfl, rfl, rfl, fun h => absurd h hf⟩

end Step

/-! ## One step -/

section Run

variable {auth : String → AuthedSocketData} {tr : List Event} {s s' : State} {a : Action} {o : Obs iface String Request}

/-- The handler of a request that arrives. -/
theorem advanced_start {j : String} {r : Request} {n : Node iface Request} {es : List Emit} {m : ℕ} {c : ControlReq}
    (hm : ∀ m ∈ inFlight tr, m.payload.originSocketId.isSome) (ha : Alive tr ⟨s, .start j r, o, s'⟩)
    (hh : Heard tr ⟨s, .start j r, o, s'⟩) (hr : r.subject? auth = some (m, c))
    (h : (s.node j).resume r [] (program auth j r) = (n, es)) :
    c.originSocketId.isSome ∧ Advanced (owing auth r) (Ended r) r ⟨0, false, none⟩ (s.node j) es n := by
  have horigin : c.originSocketId.isSome := by
    cases r with
    | control k id now req =>
      cases hr
      rfl
    | forwarded k n now c' =>
      cases hr
      exact hm _ (ha.delivered ⟨j, m, c⟩ rfl)
    | _ => cases hr
  refine ⟨horigin, Advanced.of_wp h (program_owing hr horigin _ fun k n now c he => ?_)⟩
  subst he
  exact hh.admitted (j, now, c) rfl

/-- A handler that is replied to. -/
theorem advanced_deliver {j : String} {f : Flight iface Request} {r : Reply f.cmd} {n₀ n : Node iface Request}
    {es : List Emit} {c : ControlReq} {x : Course} (hx : Awaiting auth tr j f c x) (hr : f.reply = some r)
    (h : n₀.resume f.req f.held (f.rest r) = (n, es)) :
    ∃ x', x'.handed = passes f.cmd r ∧ x'.answered = answerOf f.cmd r ∧
      (f.req.isForwarded = true → 1 ≤ x'.stage → CommittedBefore tr j f.req) ∧
      Advanced (owing auth f.req) (Ended f.req) f.req x' n₀ es n := by
  obtain ⟨x', hl, hhand, hans, hf⟩ := hx.course hr
  exact ⟨x', hhand, hans, fun hfwd => (hf hfwd).2,
    Advanced.of_wp h (hx.ok x' n₀.loc r hl ⟨hhand, hans, fun hfwd => (hf hfwd).1⟩)⟩

/-- A handler that is given its turn. -/
theorem advanced_grant {j : String} {y : Waiter iface Request} {n₀ n : Node iface Request} {es : List Emit}
    {c : ControlReq} {x : Course} (hx : Queued auth tr j y c x)
    (h : n₀.resume y.req (y.lane :: y.held) y.rest = (n, es)) :
    Advanced (owing auth y.req) (Ended y.req) y.req ⟨x.stage, false, none⟩ n₀ es n :=
  Advanced.of_wp h (hx.ok ⟨x.stage, false, none⟩ n₀.loc le_rfl ⟨rfl, rfl⟩)

/-- A request whose tag is known is for a control. -/
theorem subject_of_tag {r : Request} (h : ((ledger auth).tag r).isSome) : ∃ m c, r.subject? auth = some (m, c) := by
  obtain ⟨t, ht⟩ := Option.isSome_iff_exists.mp h
  obtain ⟨⟨m, c⟩, hr, -⟩ := Option.map_eq_some_iff.mp ht
  exact ⟨m, c, hr⟩

/-- A handler that owes a conclusion settles. -/
theorem settling_of_advanced {r : Request} {x : Course} {n n' : Node iface Request} {es : List Emit}
    (h : Advanced (owing auth r) (Ended r) r x n es n') : Ledger.Settling x.handed n r es n' :=
  h.settling Course.handed (fun _ h => h) (fun _ h => h.1)

/-- **Every segment of a handler that owes settles.** -/
theorem settles (hI : ∀ i, Owes auth tr i (s.node i)) (hm : ∀ m ∈ inFlight tr, m.payload.originSocketId.isSome)
    (ha : Alive tr ((system auth).machine.event s a)) (hh : Heard tr ((system auth).machine.event s a)) :
    (ledger auth).Settles (system auth) s a where
  start j r n es he h ht := by
    subst he
    obtain ⟨m, c, hr⟩ := subject_of_tag ht
    exact settling_of_advanced (advanced_start hm ha hh hr h).2
  deliver j f rest r n es he hc hf h ht := by
    obtain ⟨m, c, hr⟩ := subject_of_tag ht
    obtain ⟨x, hx⟩ := (hI j).flights f (hc ▸ List.mem_cons_self) m c hr
    obtain ⟨x', hhand, -, -, hadv⟩ := advanced_deliver hx hf h
    rw [show (ledger auth).passes f.cmd r = x'.handed from hhand.symm]
    exact settling_of_advanced hadv
  grant j y pre post n es hw h ht := by
    obtain ⟨m, c, hr⟩ := subject_of_tag ht
    obtain ⟨x, hx⟩ := (hI j).waiters y (hw ▸ List.mem_append_right _ List.mem_cons_self) m c hr
    exact settling_of_advanced (advanced_grant hx h)

/-- A reply that a forward handler that is heard is given. -/
theorem exec_replied {j : String} {f : Flight iface Request} {c : ControlReq} {x : Course} {trim : ℕ}
    {r : Reply f.cmd} {k : Redis} (hx : Awaiting auth tr j f c x) (hfwd : f.req.isForwarded = true)
    (hk : ActorRoomStateStore.exec f.cmd trim s.shared = (r, k))
    (ha : Alive tr ⟨s, a, .executed j f.req f.cmd r, s'⟩) (hh : Heard tr ⟨s, a, .executed j f.req f.cmd r, s'⟩) :
    Replied (tr ++ [⟨s, a, .executed j f.req f.cmd r, s'⟩]) j f.req x f.cmd r := by
  have hstage := hx.stage hfwd
  obtain ⟨req, held, cmd, reply, rest⟩ := f
  cases cmd with
  | actorCommit i fence next cmdId forVideoId =>
    refine ⟨⟨_, List.mem_append_right _ (List.mem_singleton_self _), rfl⟩, ?_⟩
    rintro rfl
    by_contra hne
    have hholds := hh.held ((j, req), ⟨i, fence⟩) rfl hfwd (hstage (Nat.one_le_iff_ne_zero.mpr hne))
    have hr : (Lua.actorCommit (ActorRoomStateStore.commitArgs i fence next cmdId forVideoId) trim s.shared.room).1 =
        none := congrArg Prod.fst hk
    rcases Lua.actorCommit_cases (ActorRoomStateStore.commitArgs i fence next cmdId forVideoId) trim s.shared.room with
      ⟨hn, -⟩ | ⟨-, ⟨c, -, -, he⟩ | ⟨c, -, -, -, he⟩ | ⟨-, he⟩⟩
    · exact hn hholds
    all_goals
      rw [he] at hr
      cases hr
  | hgetall =>
    intro hnone
    have hr : s.shared.room.loadTl.map TlHash.toTimeline = none := (congrArg Prod.fst hk).trans hnone
    exact hh.stored hfwd (Option.map_eq_none_iff.mp hr)
  | publish owner c' =>
    have hr : (if s.shared.subscribed owner then 1 else 0 : ℕ) = r := congrArg Prod.fst hk
    rw [if_pos (ha.subscribed owner rfl)] at hr
    exact hr ▸ Nat.one_pos
  | actorClaim i => trivial
  | actorReclaim owner fence => trivial
  | actorInit i fence videoId mediaTime => trivial
  | del => trivial

/-- **One step leaves what owes owing.** -/
theorem Owes.step (hs : System.Step (system auth) s a o s') (hI : ∀ i, Owes auth tr i (s.node i))
    (hm : ∀ m ∈ inFlight tr, m.payload.originSocketId.isSome) (ha : Alive tr ⟨s, a, o, s'⟩)
    (hh : Heard tr ⟨s, a, o, s'⟩) (i : String) : Owes auth (tr ++ [⟨s, a, o, s'⟩]) i (s'.node i) := by
  have hput : ∀ {j : String} {n : Node iface Request} {k : Redis} {e : Event}, Owes auth (tr ++ [e]) j n →
      Owes auth (tr ++ [e]) i (({ s with shared := k }.put j n).node i) := by
    intro j n k e hn
    rw [Cluster.put_node]
    split
    · rename_i hij
      subst hij
      exact hn
    · exact (hI i).snoc e
  cases hs with
  | start j r n es h =>
    refine hput (k := s.shared) (Owes.snoc ?_ _)
    cases hr : r.subject? auth with
    | none => exact (hI j).other hr h
    | some t =>
      obtain ⟨m, c⟩ := t
      obtain ⟨horigin, hadv⟩ := advanced_start hm ha hh hr h
      exact (hI j).advanced hr horigin (fun _ h => absurd h (by decide)) hadv
  | exec j trim pre post f hc hpre hf r k hk =>
    refine hput ⟨fun g hg m c hr => ?_, ((hI j).snoc _).waiters⟩
    have hold := fun e => ((hI j).snoc e).flights
    rcases List.mem_append.mp hg with hg | hg
    · exact hold _ g (hc ▸ List.mem_append_left _ hg) m c hr
    rcases List.mem_cons.mp hg with rfl | hg
    · obtain ⟨x, hx⟩ := (hI j).flights f (hc ▸ List.mem_append_right _ List.mem_cons_self) m c hr
      refine ⟨x, hx.origin, hx.ok, fun hfwd hs => (hx.stage hfwd hs).snoc _, hx.payload, fun hfwd a' ha' => ?_⟩
      cases ha'
      exact exec_replied hx hfwd hk ha hh
    · exact hold _ g (hc ▸ List.mem_append_right _ (List.mem_cons_of_mem _ hg)) m c hr
  | deliver j f rest hc r hf n es h =>
    refine hput (k := s.shared) (Owes.snoc ?_ _)
    have hrest : Owes auth tr j { s.node j with conn := rest } :=
      (hI j).subset (by rw [hc]; exact List.subset_cons_self f rest) (List.Subset.refl _)
    cases hr : f.req.subject? auth with
    | none => exact hrest.other hr h
    | some t =>
      obtain ⟨m, c⟩ := t
      obtain ⟨x, hx⟩ := (hI j).flights f (hc ▸ List.mem_cons_self) m c hr
      obtain ⟨x', -, -, hstage, hadv⟩ := advanced_deliver hx hf h
      exact hrest.advanced hr hx.origin hstage hadv
  | grant j pre post y hw hfree n es h =>
    refine hput (k := s.shared) (Owes.snoc ?_ _)
    have hrest : Owes auth tr j { s.node j with waiting := pre ++ post } := by
      refine (hI j).subset (List.Subset.refl _) ?_
      rw [hw]
      exact List.append_subset.mpr ⟨List.subset_append_left _ _,
        List.subset_append_of_subset_right _ (List.subset_cons_self _ _)⟩
    cases hr : y.req.subject? auth with
    | none => exact hrest.other hr h
    | some t =>
      obtain ⟨m, c⟩ := t
      obtain ⟨x, hx⟩ := (hI j).waiters y (hw ▸ List.mem_append_right _ List.mem_cons_self) m c hr
      exact hrest.advanced (x := ⟨x.stage, false, none⟩) hr hx.origin hx.stage (advanced_grant hx h)
  | reconnect j => exact absurd ha.steady Bool.false_ne_true
  | reject j => exact absurd ha.steady Bool.false_ne_true
  | restart j => exact absurd ha.steady Bool.false_ne_true
  | env e => exact (hI i).snoc _
  | idle a => exact (hI i).snoc _

/-! ## The messages -/

/-- Is the message for this control? -/
def Message.About (n : ℕ) (c : ControlReq) (m : Message) : Prop := m.number = n ∧ m.payload = c

instance (n : ℕ) (c : ControlReq) (m : Message) : Decidable (m.About n c) :=
  inferInstanceAs (Decidable (m.number = n ∧ m.payload = c))

/-- How many messages about a control are under way. -/
def underWay (n : ℕ) (c : ControlReq) (tr : List Event) : ℕ := (inFlight tr).countP fun m => decide (m.About n c)

theorem underWay_posted {n : ℕ} {c : ControlReq} {e : Event} (h : opened? e = none) :
    underWay n c (tr ++ [e]) = underWay n c tr + if ∃ m, posted? e = some m ∧ m.About n c then 1 else 0 := by
  unfold underWay
  rw [inFlight_snoc, delivered, h, List.countP_append, Nat.add_left_cancel_iff]
  cases hp : posted? e with
  | none => simp
  | some m => simp [List.countP_cons]

theorem underWay_opened {n : ℕ} {c : ControlReq} {e : Event} {m : Message} (h : opened? e = some m)
    (hm : m ∈ inFlight tr) :
    underWay n c (tr ++ [e]) + (if m.About n c then 1 else 0) = underWay n c tr := by
  unfold underWay
  rw [inFlight_snoc, delivered, h, (List.perm_cons_erase hm).countP_eq, List.countP_cons]
  simp

section Publish

variable (req : Request) (owner : String) (j : String) (delivered : ℕ)

theorem posted_publish (c : ControlReq) :
    posted? ⟨s, a, .executed j req (.publish owner c) delivered, s'⟩ =
      if 0 < delivered then req.number?.map fun n => ⟨owner, n, c⟩ else none := rfl

theorem handed_publish (c : ControlReq) :
    (ledger auth).handed? ⟨s, a, .executed j req (.publish owner c) delivered, s'⟩ =
      if 0 < delivered then ((ledger auth).tag req).map fun t => (j, t) else none := by
  show (if decide (0 < delivered) = true then _ else _) = _
  simp only [decide_eq_true_eq]

/-- A control that is published: the message is about what the handler hands on. -/
theorem posted_publish_iff {c' : ControlReq} (h : ∀ m c, req.subject? auth = some (m, c) → c' = c) (n : ℕ)
    (c : ControlReq) :
    (∃ m, posted? ⟨s, a, .executed j req (.publish owner c') delivered, s'⟩ = some m ∧ m.About n c) ↔
      ∃ b, ((ledger auth).handed? ⟨s, a, .executed j req (.publish owner c') delivered, s'⟩).map Prod.snd =
        some (b, n, c) := by
  have hsub : req.number? = (req.subject? auth).map Prod.fst := by cases req <;> rfl
  rw [posted_publish, handed_publish, hsub]
  split
  · cases hr : req.subject? auth with
    | none => simp [ledger, hr]
    | some t =>
      obtain ⟨m, c''⟩ := t
      obtain rfl := h m c'' hr
      simp [ledger, hr, Message.About]
  · simp

end Publish

/-- A message is posted about a control exactly when a handler hands it on. -/
theorem posted_iff (hs : System.Step (system auth) s a o s') (hI : ∀ i, Owes auth tr i (s.node i)) (n : ℕ)
    (c : ControlReq) : (∃ m, posted? ⟨s, a, o, s'⟩ = some m ∧ m.About n c) ↔
      ∃ b, ((ledger auth).handed? ⟨s, a, o, s'⟩).map Prod.snd = some (b, n, c) := by
  cases hs with
  | exec j trim pre post f hc hpre hf r k hk =>
    have howes := (hI j).flights f (hc ▸ List.mem_append_right _ List.mem_cons_self)
    obtain ⟨req, held, cmd, reply, rest⟩ := f
    cases cmd with
    | publish owner c' =>
      refine posted_publish_iff req owner j r (fun m c'' hr => ?_) n c
      obtain ⟨x, hx⟩ := howes m c'' hr
      exact hx.payload owner c' rfl
    | _ => simp [posted?, Ledger.handed?, ledger, passes]
  | _ => simp [posted?, Ledger.handed?]

variable (auth) in
/-- A message is opened about a control exactly when a forward handler begins. -/
theorem opened_iff (e : Event) (n : ℕ) (c : ControlReq) : (∃ m, opened? e = some m ∧ m.About n c) ↔
    ((ledger auth).begun? e).map Prod.snd = some (true, n, c) := by
  obtain ⟨s, a, o, s'⟩ := e
  cases a with
  | start i r => cases r <;> simp [opened?, Ledger.begun?, ledger, Request.subject?, Request.isForwarded, Message.About]
  | _ => simp [opened?, Ledger.begun?]

/-! ## The books -/

variable (auth) in
/-- How many controls `n` with this payload were begun, how often one was answered `forwarded`, and how many conclusions
forward handlers have emitted for it. -/
def controls (tr : List Event) (n : ℕ) (c : ControlReq) : ℕ := tally ((ledger auth).begun tr) (false, n, c)

variable (auth) in
def forwards (tr : List Event) (n : ℕ) (c : ControlReq) : ℕ := tally ((ledger auth).handed tr) (false, n, c)

variable (auth) in
def conclusions (tr : List Event) (n : ℕ) (c : ControlReq) : ℕ :=
  tally ((ledger auth).concluded tr) (true, n, c)

variable (auth) in
/-- Nothing of a control is under way: no instance runs a forward handler for it, and no message is in flight. -/
def Finished (tr : List Event) (s : State) (n : ℕ) (c : ControlReq) : Prop :=
  (∀ i, (ledger auth).holding (s.node i) (true, n, c) = 0) ∧ underWay n c tr = 0

variable (auth) in
/-- The event emits, for a forwarded control, what its commit was answered. -/
def Concludes (e : Event) : Prop :=
  ∀ i n c, (ledger auth).concluded? e = some (i, true, n, c) →
    ∃ answer, answered? e = some answer ∧ e.out = .sent i (conclusion c answer)

variable (auth) in
/-- What holds in runs in which nothing is lost and every forward handler is heard. -/
structure Books (tr : List Event) (s : State) : Prop where
  owes : ∀ i, Owes auth tr i (s.node i)
  origin : ∀ m ∈ inFlight tr, m.payload.originSocketId.isSome
  accounted : (ledger auth).Accounted tr s
  posted : ∀ n c, forwards auth tr n c + tally ((ledger auth).handed tr) (true, n, c) =
    underWay n c tr + tally ((ledger auth).begun tr) (true, n, c)
  concluded : ∀ e ∈ tr, Concludes auth e

/-- Every conclusion of a forward handler is what its commit was answered. -/
theorem concludes_step (hI : ∀ i, Owes auth tr i (s.node i)) (hm : ∀ m ∈ inFlight tr, m.payload.originSocketId.isSome)
    (ha : Alive tr ((system auth).machine.event s a)) (hh : Heard tr ((system auth).machine.event s a)) :
    Concludes auth ((system auth).machine.event s a) := by
  intro i n c h
  -- the request whose segment the event runs is a forwarded control
  have hsubject : ∀ {j : String} {r : Request} {es : List Emit},
      Ledger.ran? ((system auth).machine.event s a) = some (j, r) →
      ((system auth).machine.event s a).out = .sent j es →
      j = i ∧ (∃ k now, r = .forwarded k n now c) ∧ es ≠ [] := by
    intro j r es hran hout
    obtain ⟨hj, ht, hes⟩ := ((ledger auth).concluded_iff hran hout).mp h
    refine ⟨hj, ?_, hes⟩
    cases r with
    | forwarded k n' now c' =>
      cases ht
      exact ⟨k, now, rfl⟩
    | _ => cases ht
  have hunsent : ((system auth).machine.event s a).out = .nothing ∨
      (∃ j r cmd reply, ((system auth).machine.event s a).out = .executed j r cmd reply) →
      ∀ j es, ((system auth).machine.event s a).out ≠ .sent j es := by
    rintro (hout | ⟨j, r, cmd, reply, hout⟩) j' es hs <;> rw [hout] at hs <;> cases hs
  cases a with
  | start j r =>
    obtain ⟨n', es, hr⟩ : ∃ n' es, (s.node j).resume r [] (program auth j r) = (n', es) := ⟨_, _, rfl⟩
    have hout : ((system auth).machine.event s (.start j r)).out = .sent j es := by
      show Obs.sent j ((s.node j).resume r [] (program auth j r)).2 = _
      rw [hr]
    obtain ⟨rfl, ⟨k, now, rfl⟩, hes⟩ := hsubject rfl hout
    obtain ⟨_, hadv⟩ := advanced_start hm ha hh rfl hr
    obtain ⟨answer, hans, -⟩ := concluded_of_advanced hadv hes
    cases hans
  | exec j trim =>
    rcases Ledger.exec_step (system auth) s j trim with he | ⟨pre, post, f, r, k, hc, hf, he⟩
    · rw [(ledger auth).concluded_of_unsent (hunsent (Or.inl (congrArg Prod.snd he)))] at h
      cases h
    · rw [(ledger auth).concluded_of_unsent (hunsent (Or.inr ⟨j, f.req, f.cmd, r, congrArg Prod.snd he⟩))] at h
      cases h
  | deliver j =>
    rcases Ledger.deliver_step (system auth) s j with he | ⟨f, rest, r, n', es, hc, hf, hr, he⟩
    · rw [(ledger auth).concluded_of_unsent (hunsent (Or.inl (congrArg Prod.snd he)))] at h
      cases h
    · have hran : Ledger.ran? ((system auth).machine.event s (.deliver j)) = some (j, f.req) := by
        simp only [Ledger.ran?, Machine.event_act, Machine.event_pre, hc, List.head?_cons, Option.map_some]
      obtain ⟨rfl, ⟨k, now, hfwd⟩, hes⟩ := hsubject hran (congrArg Prod.snd he)
      obtain ⟨x, hx⟩ := (hI j).flights f (hc ▸ List.mem_cons_self) n c (by rw [hfwd]; rfl)
      obtain ⟨x', -, hans, -, hadv⟩ := advanced_deliver hx hf hr
      rw [hfwd] at hadv
      obtain ⟨answer, hanswer, hconc⟩ := concluded_of_advanced hadv hes
      refine ⟨answer, ?_, (congrArg Prod.snd he).trans (by rw [hconc])⟩
      simp only [answered?, Machine.event_act, Machine.event_pre, hc, List.head?_cons, Option.bind_some, hf]
      exact hans.symm.trans hanswer
  | grant j l =>
    rcases Ledger.grant_step (system auth) s j l with he | ⟨pre, y, post, n', es, hd, hw, hr, he⟩
    · rw [(ledger auth).concluded_of_unsent (hunsent (Or.inl (congrArg Prod.snd he)))] at h
      cases h
    · have hran : Ledger.ran? ((system auth).machine.event s (.grant j l)) = some (j, y.req) := by
        simp only [Ledger.ran?, Machine.event_act, Machine.event_pre, hd, List.head?_cons, Option.map_some]
      obtain ⟨rfl, ⟨k, now, hfwd⟩, hes⟩ := hsubject hran (congrArg Prod.snd he)
      obtain ⟨x, hx⟩ := (hI j).waiters y (hw ▸ List.mem_append_right _ List.mem_cons_self) n c (by rw [hfwd]; rfl)
      have hadv := advanced_grant hx hr
      rw [hfwd] at hadv
      obtain ⟨answer, hanswer, -⟩ := concluded_of_advanced hadv hes
      cases hanswer
  | reconnect j => cases h
  | reject j => cases h
  | restart j => cases h
  | env e => cases h

theorem books_init : Books auth [] (system auth).init where
  owes _ := ⟨fun _ h => absurd h List.not_mem_nil, fun _ h => absurd h List.not_mem_nil⟩
  origin _ h := absurd h List.not_mem_nil
  accounted := Ledger.Accounted.init _ _
  posted _ _ := rfl
  concluded _ h := absurd h List.not_mem_nil

/-- What is posted says where its control came from. -/
theorem origin_step (hs : System.Step (system auth) s a o s') (hI : ∀ i, Owes auth tr i (s.node i))
    (hm : ∀ m ∈ inFlight tr, m.payload.originSocketId.isSome) :
    ∀ m ∈ inFlight (tr ++ [⟨s, a, o, s'⟩]), m.payload.originSocketId.isSome := by
  intro m hmem
  rw [inFlight_snoc, delivered] at hmem
  split at hmem
  · exact hm m (List.mem_of_mem_erase hmem)
  · rcases List.mem_append.mp hmem with hmem | hmem
    · exact hm m hmem
    · rw [Option.mem_toList] at hmem
      obtain ⟨b, hb⟩ := (posted_iff hs hI m.number m.payload).mp ⟨m, hmem, rfl, rfl⟩
      cases hs with
      | exec j trim pre post f hc hpre hf r k hk =>
        simp only [Ledger.handed?] at hb
        split at hb
        · obtain ⟨p, hp, ht⟩ := Option.map_eq_some_iff.mp hb
          obtain ⟨t, htag, rfl⟩ := Option.map_eq_some_iff.mp hp
          cases ht
          obtain ⟨t', hsub, ht'⟩ := Option.map_eq_some_iff.mp htag
          cases ht'
          obtain ⟨x, hx⟩ := (hI j).flights f (hc ▸ List.mem_append_right _ List.mem_cons_self) _ _ hsub
          exact hx.origin
        · cases hb
      | _ => cases hb

/-- Every message that is posted is opened, or under way. -/
theorem posted_step (hs : System.Step (system auth) s a o s') (hI : ∀ i, Owes auth tr i (s.node i))
    (ha : Alive tr ⟨s, a, o, s'⟩) (n : ℕ) (c : ControlReq)
    (h : forwards auth tr n c + tally ((ledger auth).handed tr) (true, n, c) =
      underWay n c tr + tally ((ledger auth).begun tr) (true, n, c)) :
    forwards auth (tr ++ [⟨s, a, o, s'⟩]) n c +
        tally ((ledger auth).handed (tr ++ [⟨s, a, o, s'⟩])) (true, n, c) =
      underWay n c (tr ++ [⟨s, a, o, s'⟩]) +
        tally ((ledger auth).begun (tr ++ [⟨s, a, o, s'⟩])) (true, n, c) := by
  have hposted := posted_iff hs hI n c
  have hopened := opened_iff auth ⟨s, a, o, s'⟩ n c
  unfold forwards Ledger.handed Ledger.begun at h ⊢
  rw [Ledger.tally_snoc, Ledger.tally_snoc, Ledger.tally_snoc]
  cases ho : opened? ⟨s, a, o, s'⟩ with
  | none =>
    rw [ho] at hopened
    have hb : ¬((ledger auth).begun? ⟨s, a, o, s'⟩).map Prod.snd = some (true, n, c) := by
      rw [← hopened]
      simp
    rw [underWay_posted ho, if_neg hb]
    by_cases hp : ∃ m, posted? ⟨s, a, o, s'⟩ = some m ∧ m.About n c
    · obtain ⟨b, hb⟩ := hposted.mp hp
      rw [if_pos hp, hb]
      cases b <;> simp <;> omega
    · have hnone : ∀ b, ((ledger auth).handed? ⟨s, a, o, s'⟩).map Prod.snd ≠ some (b, n, c) :=
        fun b hb => hp (hposted.mpr ⟨b, hb⟩)
      rw [if_neg hp, if_neg (hnone false), if_neg (hnone true)]
      omega
  | some m =>
    have hhanded : (ledger auth).handed? ⟨s, a, o, s'⟩ = none := by
      cases hs with
      | exec j trim pre post f hc hpre hf r k hk => cases ho
      | _ => rfl
    have hway := underWay_opened (n := n) (c := c) ho (ha.delivered m ho)
    rw [ho] at hopened
    rw [hhanded]
    by_cases hm : m.About n c
    · rw [if_pos (hopened.mp ⟨m, rfl, hm⟩)]
      rw [if_pos hm] at hway
      simp only [Option.map_none, reduceCtorEq, if_false]
      omega
    · have hb : ¬((ledger auth).begun? ⟨s, a, o, s'⟩).map Prod.snd = some (true, n, c) := by
        intro hb
        obtain ⟨m', hm', hab⟩ := hopened.mpr hb
        cases hm'
        exact hm hab
      rw [if_neg hb]
      rw [if_neg hm] at hway
      simp only [Option.map_none, reduceCtorEq, if_false]
      omega

/-- **The books stay balanced.** -/
theorem Books.step (h : Books auth tr s) (ha : Alive tr ((system auth).machine.event s a))
    (hh : Heard tr ((system auth).machine.event s a)) :
    Books auth (tr ++ [(system auth).machine.event s a]) ((system auth).machine.event s a).post where
  owes i := Owes.step ((system auth).step_cases s a) h.owes h.origin ha hh i
  origin := origin_step ((system auth).step_cases s a) h.owes h.origin
  accounted := h.accounted.step _ ha.steady (settles h.owes h.origin ha hh)
  posted n c := posted_step ((system auth).step_cases s a) h.owes ha n c (h.posted n c)
  concluded e he := by
    rcases List.mem_append.mp he with he | he
    · exact h.concluded e he
    · rw [List.mem_singleton.mp he]
      exact concludes_step h.owes h.origin ha hh

end Run

/-- **No forwarded control is discarded.** In every run in which nothing is lost and every forward handler is heard,
- what a forward handler emits for a control is what its commit was answered: the broadcast of what was committed, or a
  re-anchor of the socket that the control came from;
- a control is answered `forwarded` at most once, and has at most one conclusion for it; and once nothing of the control
  is under way, it has that conclusion. -/
theorem forwarded_concludes (auth : String → AuthedSocketData) (as : List Action)
    (h : Machine.Always (fun tr e => Alive tr e ∧ Heard tr e) ((system auth).machine.trace as)) :
    (∀ e ∈ (system auth).machine.trace as, Concludes auth e) ∧
    ∀ n c, forwards auth ((system auth).machine.trace as) n c ≤ controls auth ((system auth).machine.trace as) n c ∧
      conclusions auth ((system auth).machine.trace as) n c ≤ forwards auth ((system auth).machine.trace as) n c ∧
      (Finished auth ((system auth).machine.trace as) ((system auth).machine.run as) n c →
        conclusions auth ((system auth).machine.trace as) n c =
          forwards auth ((system auth).machine.trace as) n c) := by
  have hbooks : Books auth ((system auth).machine.trace as) ((system auth).machine.run as) :=
    Machine.invariant_always (I := Books auth) (system auth).machine books_init
      (fun tr s a hc hI => hI.step hc.1 hc.2) as h
  refine ⟨hbooks.concluded, fun n c => ?_⟩
  have hcontrol := hbooks.accounted.tally_le _ (false, n, c)
  have hforward := hbooks.accounted.tally_le _ (true, n, c)
  have hposted := hbooks.posted n c
  unfold controls conclusions
  unfold forwards at hposted ⊢
  refine ⟨by omega, by omega, fun hfin => ?_⟩
  have heq := hbooks.accounted.tally_eq _ hfin.1
  have hway := hfin.2
  omega

/-! ## Two instances -/

/-- The sockets of these runs: a guest, who was connected first, an early guest, and the creator. -/
def guests (id : String) : AuthedSocketData := ⟨id, if id = "guest" then 0 else if id = "early" then 1 else 2⟩

/-- The store executes the next command of an instance, which receives the reply. -/
def served (i : String) : List Action := [.exec i 0, .deliver i]

/-- The early guest joins on instance `b`, which creates the room and owns it; the creator and the guest join on `a`. -/
def twoInstances : List Action :=
  [.env (.subscription "a" true), .env (.subscription "b" true)] ++
  (.start "b" (.joined "early" SyncGateway.quietRow 0) :: .grant "b" .gate :: served "b" ++ served "b" ++ served "b") ++
  (.start "a" (.joined "creator" SyncGateway.quietRow 0) :: .grant "a" .gate :: served "a") ++
  (.start "a" (.joined "guest" SyncGateway.quietRow 0) :: .grant "a" .gate :: served "a")

def play : ControlReq :=
  { intent := .play, mediaTime := 0, byUser := "", cmdId := none, originSocketId := none, videoId := none,
    forVideoId := none }

/-- A socket of instance `a` sends a control, which `a` forwards. -/
def forwardedBy (id : String) : List Action :=
  .start "a" (.control 1 id 0 play) :: .grant "a" .queue :: served "a" ++ served "a"

/-- The creator's control: `b` admits it and commits. -/
def creatorPlays : List Action :=
  twoInstances ++ forwardedBy "creator" ++
    .start "b" (.forwarded 1 1 0 (payload guests "creator" play)) :: .grant "b" .queue :: served "b"

/-- The creator leaves, and `a` makes the guest the controller; the guest's control is refused by `b`, which knows
nothing of it. -/
def guestPlays : List Action :=
  twoInstances ++ [.start "a" (.left "creator"), .start "a" (.departed "creator" ["early", "guest"])] ++
    forwardedBy "guest" ++ [.start "b" (.forwarded 1 1 0 (payload guests "guest" play))]

/-- Where only these instances serve the room, nothing is under way on any other. -/
theorem holding_elsewhere {auth : String → AuthedSocketData} {as : List Action} (instances : List String)
    (h : ∀ a ∈ as, ∀ i ∈ a.node?, i ∈ instances) {t : Bool × ℕ × ControlReq}
    (hn : ∀ i ∈ instances, (ledger auth).holding (((system auth).machine.run as).node i) t = 0) (i : String) :
    (ledger auth).holding (((system auth).machine.run as).node i) t = 0 := by
  by_cases hi : i ∈ instances
  · exact hn i hi
  · rw [System.run_node_of_ne _ fun a ha hnode => hi (h a ha i hnode)]
    rfl

/-- The creator's control was forwarded once, and has its conclusion. -/
theorem forwarded_concludes_admitted :
    forwards guests ((system guests).machine.trace creatorPlays) 1 (payload guests "creator" play) = 1 ∧
      conclusions guests ((system guests).machine.trace creatorPlays) 1 (payload guests "creator" play) = 1 := by
  have hone : forwards guests ((system guests).machine.trace creatorPlays) 1 (payload guests "creator" play) = 1 := by
    decide +kernel
  refine ⟨hone, ?_⟩
  rw [((forwarded_concludes guests creatorPlays (by decide +kernel)).2 1 (payload guests "creator" play)).2.2 ?_, hone]
  exact ⟨holding_elsewhere ["a", "b"] (by decide +kernel) (by decide +kernel), by decide +kernel⟩

/-- **A control of the room's controller is lost**: `a` has answered `forwarded`, `b` refuses it as `not-controller`, and
nobody is told. -/
theorem forwarded_silently :
    ¬∀ (auth : String → AuthedSocketData) (as : List Action),
      Machine.Always Alive ((system auth).machine.trace as) → ∀ n c,
        Finished auth ((system auth).machine.trace as) ((system auth).machine.run as) n c →
        conclusions auth ((system auth).machine.trace as) n c = forwards auth ((system auth).machine.trace as) n c := by
  intro h
  have hlost := h guests guestPlays (by decide +kernel) 1 (payload guests "guest" play)
    ⟨holding_elsewhere ["a", "b"] (by decide +kernel) (by decide +kernel), by decide +kernel⟩
  have hnone : conclusions guests ((system guests).machine.trace guestPlays) 1 (payload guests "guest" play) = 0 := by
    decide +kernel
  have hone : forwards guests ((system guests).machine.trace guestPlays) 1 (payload guests "guest" play) = 1 := by
    decide +kernel
  rw [hnone, hone] at hlost
  cases hlost

end ActorGateway
end WatchParty
