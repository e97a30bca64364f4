import Mathlib.Order.Filter.Finite
import WatchParty.Formal.SyncActor
import WatchParty.Lib.Fanout

/-!
# Clients and controls of room actors get there

The liveness of `formal/SyncActor.tla`. Epochs and controls are bounded, so from some point on there are no claims, no
controls are admitted and none is committed (`quiet`); the owner of that time is alive again and again, and what it owes
is done by the fairness of the sweep, of deliveries and of the queue.

- `converges`: each client comes to hold what is committed;
- `progresses`: a control leaves the queue, by way of the owner where it was addressed to another;
- `actor_live`: the liveness of the specification.
-/

open Filter

namespace WatchParty
namespace SyncActor

open SyncTimeline (Version Msg fan)

variable {I C : Type}

section Properties

/-- `Convergence`. -/
def Convergence (σ : ℕ → State I C) : Prop :=
  ∀ᶠ n in atTop, ∀ c,
    ((σ n).applied c).epoch = (σ n).committed.epoch ∧ ((σ n).applied c).seq = (σ n).committed.seq

/-- `Behind`. -/
def Behind (a b : Version) : Prop := a.epoch < b.epoch ∨ a.epoch = b.epoch ∧ a.seq < b.seq

/-- `Versions`. -/
def Versions (k : Constants) : Set Version := {v | v.epoch ∈ Set.Icc 1 k.MaxEpoch ∧ v.seq ∈ Set.Icc 1 k.MaxSeq}

/-- `NoClientStrandedBehind`. -/
def NoClientStrandedBehind (k : Constants) (σ : ℕ → State I C) : Prop :=
  ∀ c, ∀ v ∈ Versions k, Temporal.LeadsTo (fun s : State I C => s.committed = v) (fun s => ¬Behind (s.applied c) v) σ

/-- `EveryForwardedControlProgresses`. -/
def EveryForwardedControlProgresses (k : Constants) (σ : ℕ → State I C) : Prop :=
  ∀ id ∈ Set.Icc 1 k.MaxCtl,
    Temporal.LeadsTo (fun s : State I C => ∃ m ∈ s.pending, m.id = id) (fun s => ∀ m ∈ s.pending, m.id ≠ id) σ

end Properties

variable [DecidableEq I] [DecidableEq C] {k : Constants}

/-! ## When nothing more is admitted -/

omit [DecidableEq I] [DecidableEq C] in
/-- Claims, controls to admit and controls to commit that are left. -/
noncomputable def left (k : Constants) (s : State I C) : ℕ :=
  k.MaxEpoch - s.lease.epoch + 2 * (k.MaxSeq - s.admitted) + s.pending.ncard

omit [DecidableEq I] [DecidableEq C] in
/-- A step that claims, admits and commits nothing: at most it passes a control on to the owner. -/
structure Quiet (s t : State I C) : Prop where
  lease : t.lease = s.lease
  committed : t.committed = s.committed
  pending : t.pending = s.pending ∨ ∃ m ∈ s.pending, ∃ o, s.lease.owner = some o ∧ o ≠ m.addressee ∧
    t.pending = s.pending \ {m} ∪ {⟨o, m.id⟩}

omit [DecidableEq I] [DecidableEq C] in
theorem Quiet.refl (s : State I C) : Quiet s s := ⟨rfl, rfl, Or.inl rfl⟩

/-- Every other step leaves less to do. -/
theorem Step.left {s t : State I C} (h : Step k s t) (hc : Controls k s) :
    Quiet s t ∧ left k t = left k s ∨ left k t < left k s := by
  cases h with
  | claim i hi hf he =>
    refine Or.inr ?_
    simp only [SyncActor.left, State.claimed]
    omega
  | commit i ho ha =>
    refine Or.inr ?_
    simp only [SyncActor.left, State.committedBy]
    omega
  | dequeue m hm ho =>
    refine Or.inr ?_
    have hfewer := ncard_dequeue hc hm
    simp only [SyncActor.left, State.committedBy]
    omega
  | forward o id ho hid hnew ha =>
    refine Or.inr ?_
    have hmore := ncard_forward hc (m := ⟨o, id⟩) hnew
    simp only [SyncActor.left]
    omega
  | retarget m o hm ho hne =>
    refine Or.inl ⟨⟨rfl, rfl, Or.inr ⟨m, hm, o, ho, hne, rfl⟩⟩, ?_⟩
    simp only [SyncActor.left, ncard_retarget hc hm o]
  | _ => exact Or.inl ⟨⟨rfl, rfl, Or.inl rfl⟩, rfl⟩

section Runs

variable {σ : ℕ → State I C}

/-- From some point on nothing is claimed, admitted or committed. -/
theorem quiet (h : Temporal.Behaviour (spec I C k) σ) : ∃ N, ∀ n, N ≤ n → Quiet (σ n) (σ (n + 1)) := by
  have hstep : ∀ n, Quiet (σ n) (σ (n + 1)) ∧ left k (σ (n + 1)) = left k (σ n) ∨
      left k (σ (n + 1)) < left k (σ n) := by
    intro n
    rcases h.next n with hn | hn
    · exact (next_cases (k := k) hn).left (controls (h.reachable n))
    · rw [hn]
      exact Or.inl ⟨Quiet.refl _, rfl⟩
  obtain ⟨N, -, hN⟩ := Temporal.settles (σ := σ) (left k) (N := 0) fun n _ =>
    (hstep n).elim (fun he => he.2.le) le_of_lt
  refine ⟨N, fun n hn => ((hstep n).resolve_right fun hlt => ?_).1⟩
  rw [hN n hn, hN (n + 1) (by omega)] at hlt
  exact lt_irrefl _ hlt

omit [DecidableEq I] [DecidableEq C] in
/-- What is owned and committed stands still. -/
theorem Quiet.still {N : ℕ} (h : ∀ n, N ≤ n → Quiet (σ n) (σ (n + 1))) {n : ℕ} (hn : N ≤ n) :
    (σ n).lease = (σ N).lease ∧ (σ n).committed = (σ N).committed := by
  induction n, hn using Nat.le_induction with
  | base => exact ⟨rfl, rfl⟩
  | succ n hn ih => exact ⟨(h n hn).lease.trans ih.1, (h n hn).committed.trans ih.2⟩

/-! ## The owner -/

/-- A room that was ever claimed, and one that controls were forwarded in, has an owner. -/
theorem owned {s : State I C} (h : (spec I C k).Reachable s) (hs : 0 < s.lease.epoch ∨ s.pending.Nonempty) :
    ∃ o, s.lease.owner = some o := by
  refine h.invariant (I := fun s => 0 < s.lease.epoch ∨ s.pending.Nonempty → ∃ o, s.lease.owner = some o) ?_
    (fun s t hn hI => ?_) hs
  · rintro s rfl (h | ⟨m, hm⟩)
    · exact absurd h (lt_irrefl 0)
    · exact absurd hm (Set.notMem_empty m)
  · cases next_cases (k := k) hn with
    | claim i hi hf he => exact fun _ => ⟨i, rfl⟩
    | forward o id ho hid hnew ha => exact fun _ => ⟨o, ho⟩
    | dequeue m hm ho => exact fun _ => ⟨m.addressee, ho.2⟩
    | retarget m o hm ho hne => exact fun _ => ⟨o, ho⟩
    | _ => exact hI

omit [DecidableEq I] [DecidableEq C] in
/-- An instance that is revived whenever it stays down is up again and again. -/
theorem up_again {i : I} (hf : Temporal.WF (Revive i) σ) : ∃ᶠ n in atTop, i ∉ (σ n).crashed := by
  refine hf.recurs (P := fun s => i ∉ s.crashed) (Eventually.of_forall fun n => ?_) fun n hn => ?_
  · by_cases hi : i ∈ (σ n).crashed
    · refine Or.inl ⟨_, ⟨hi, rfl⟩, fun heq => ?_⟩
      rw [← heq] at hi
      exact hi.2 rfl
    · exact Or.inr hi
  · obtain ⟨⟨-, heq⟩, -⟩ := hn
    rw [heq]
    exact fun hin => hin.2 rfl

/-! ## Clients -/

omit [DecidableEq I] [DecidableEq C] in
/-- Something is in flight for each client again and again, where an owner of something committed is up again and
again. -/
theorem supplied (hf : Temporal.SF Sweep σ) {N : ℕ} {o : I}
    (ho : ∀ n, N ≤ n → (σ n).lease.owner = some o ∧ 0 < (σ n).committed.epoch)
    (hup : ∃ᶠ n in atTop, o ∉ (σ n).crashed) (c : C) : ∃ᶠ n in atTop, (inFlight c (σ n)).Nonempty := by
  refine hf.recurs (P := fun s => (inFlight c s).Nonempty) ?_ fun n hn => ?_
  · refine (hup.and_eventually (eventually_ge_atTop N)).mono fun n hn => ?_
    by_cases hne : (inFlight c (σ n)).Nonempty
    · exact Or.inr hne
    · refine Or.inl ⟨_, ⟨⟨o, hn.1, (ho n hn.2).1⟩, (ho n hn.2).2, rfl⟩, fun heq => hne ?_⟩
      refine ⟨⟨(σ n).committed, c⟩, ?_, rfl⟩
      rw [← heq]
      exact Or.inr rfl
  · obtain ⟨⟨-, -, hs⟩, -⟩ := hn
    rw [hs]
    exact ⟨⟨(σ n).committed, c⟩, Or.inr rfl, rfl⟩

omit [DecidableEq I] in
/-- A delivery to a client takes a message for it out of the network, and the client holds no less than it after. -/
theorem deliverTo_cases {c : C} {s t : State I C} (h : DeliverTo c s t) :
    ∃ m ∈ inFlight c s, m ∉ inFlight c t ∧ m.toVersion ≤ t.applied c := by
  obtain ⟨m, rfl, hm, ⟨hlt, rfl⟩ | ⟨hge, rfl⟩⟩ := h
  · exact ⟨m, ⟨hm, rfl⟩, fun hin => hin.1.2 rfl, (Function.update_self m.dst m.toVersion s.applied).ge⟩
  · exact ⟨m, ⟨hm, rfl⟩, fun hin => hin.1.2 rfl, not_lt.mp hge⟩

omit [DecidableEq I] in
/-- Each client is delivered something again and again, where something is in flight for it again and again. -/
theorem delivered {c : C} (hf : Temporal.SF (DeliverTo c) σ) (hs : ∃ᶠ n in atTop, (inFlight c (σ n)).Nonempty) :
    ∃ᶠ n in atTop, DeliverTo c (σ n) (σ (n + 1)) := by
  refine (hf (hs.mono fun n hn => ?_)).mono fun n hn => hn.1
  obtain ⟨m, hm, rfl⟩ := hn
  have hmove : ∀ t : State I C, t.network = (σ n).network \ {m} → t ≠ σ n := by
    intro t ht heq
    rw [heq] at ht
    exact (ht ▸ hm).2 rfl
  by_cases hlt : (σ n).applied m.dst < m.toVersion
  · exact ⟨_, ⟨m, rfl, hm, Or.inl ⟨hlt, rfl⟩⟩, hmove _ rfl⟩
  · exact ⟨_, ⟨m, rfl, hm, Or.inr ⟨hlt, rfl⟩⟩, hmove _ rfl⟩

/-- While what is committed stands still only that is sent. -/
theorem Step.sent {s t : State I C} (h : Step k s t) (ht : t.committed = s.committed) {c : C} {m : Msg C}
    (hm : m ∈ inFlight c t) : m ∈ inFlight c s ∨ m.toVersion = s.committed := by
  have hfan : ∀ v : Version, v = s.committed → m ∈ s.network ∪ fan v → m ∈ inFlight c s ∨ m.toVersion = s.committed := by
    rintro v rfl (hin | hin)
    · exact Or.inl ⟨hin, hm.2⟩
    · exact Or.inr hin
  cases h with
  | commit i ho ha => exact hfan _ ht hm.1
  | dequeue x hx ho => exact hfan _ ht hm.1
  | sweep he => exact hfan _ rfl hm.1
  | receive x hx hlt => exact Or.inl ⟨hm.1.1, hm.2⟩
  | lose x hx => exact Or.inl ⟨hm.1.1, hm.2⟩
  | _ => exact Or.inl hm

/-- **Each client converges** on what is committed. -/
theorem converges (h : Spec k σ) (c : C) : ∀ᶠ n in atTop, (σ n).applied c = (σ n).committed := by
  obtain ⟨hσ, hsweep, -, hdeliver, hrevive, -⟩ := h
  obtain ⟨N, hN⟩ := quiet hσ
  have hstill := fun n (hn : N ≤ n) => (Quiet.still hN hn).2
  have hordered := fun n => ordered (hσ.reachable n)
  rcases Nat.eq_zero_or_pos (σ N).committed.epoch with hzero | hpos
  · -- nothing was ever committed: there is nothing older to hold
    refine eventually_atTop.mpr ⟨N, fun n hn => le_antisymm ((hordered n).held c) ?_⟩
    rw [hstill n hn, Version.le_iff, hzero, (hordered N).blank hzero]
    exact (Nat.eq_zero_or_pos _).symm.imp id fun h => ⟨h.symm, Nat.zero_le _⟩
  · obtain ⟨o, ho⟩ := owned (hσ.reachable N) (Or.inl (hpos.trans_le (hordered N).fenced))
    have hheld : ∀ᶠ n in atTop, (σ n).applied c = (σ N).committed := by
      have hsupplied := supplied hsweep (fun n hn => ⟨(Quiet.still hN hn).1 ▸ ho, hstill n hn ▸ hpos⟩)
        (up_again (hrevive o)) c
      refine Temporal.receives (inFlight c) Msg.toVersion (fun s => s.applied c)
        ((hordered N).finite c) (fun n hn m hm => ?_) (fun n hn => ?_) (fun n hn hd => ?_)
        (delivered (hdeliver c) hsupplied)
      · rcases hσ.next n with hstep | hstep
        · rw [← hstill n hn]
          exact (next_cases (k := k) hstep).sent (hN n hn).committed hm
        · rw [hstep] at hm
          exact Or.inl hm
      · rcases hσ.next n with hstep | hstep
        · refine ((next_cases (k := k) hstep).applied c).imp id ?_
          rintro ⟨m, hm, hgone, -, heq⟩
          exact ⟨m, hm, hgone, heq⟩
        · rw [hstep]
          exact Or.inl rfl
      · obtain ⟨m, hm, hgone, hle⟩ := deliverTo_cases hd
        refine ⟨m, hm, hgone, fun hcur => le_antisymm ?_ (hcur ▸ hle)⟩
        rw [← hstill (n + 1) (by omega)]
        exact (hordered (n + 1)).held c
    filter_upwards [hheld, eventually_ge_atTop N] with n hn hge
    rw [hn, hstill n hge]

/-! ## Controls -/

omit [DecidableEq I] [DecidableEq C] in
/-- A control that waits goes on waiting, or is passed on to the owner. -/
theorem Quiet.keeps {s t : State I C} (h : Quiet s t) {x : Ctl I} (hx : x ∈ s.pending) :
    x ∈ t.pending ∨ ∃ o, s.lease.owner = some o ∧ o ≠ x.addressee ∧ ⟨o, x.id⟩ ∈ t.pending := by
  rcases h.pending with heq | ⟨m, -, o, ho, hne, heq⟩
  · exact Or.inl (heq ▸ hx)
  · rw [heq]
    by_cases hxm : x = m
    · subst hxm
      exact Or.inr ⟨o, ho, hne, Or.inr rfl⟩
    · exact Or.inl (Or.inl ⟨hx, hxm⟩)

section Waiting

variable {M id : ℕ} {o : I}

/-- A control that waits for ever reaches the owner. -/
theorem reaches_owner (h : Spec k σ) (hid : id ∈ Set.Icc 1 k.MaxCtl) (hM : ∀ n, M ≤ n → Quiet (σ n) (σ (n + 1)))
    (ho : ∀ n, M ≤ n → (σ n).lease.owner = some o) (hx : ∃ x ∈ (σ M).pending, x.id = id) :
    ∃ n, M ≤ n ∧ ⟨o, id⟩ ∈ (σ n).pending := by
  by_contra hnever
  push Not at hnever
  obtain ⟨-, -, -, -, hrevive, hdequeue⟩ := h
  obtain ⟨x, hx, rfl⟩ := hx
  have hstays : ∀ n, M ≤ n → x ∈ (σ n).pending := by
    intro n hn
    induction n, hn using Nat.le_induction with
    | base => exact hx
    | succ n hn ih =>
      rcases (hM n hn).keeps ih with hin | ⟨o', ho', -, hin⟩
      · exact hin
      · obtain rfl : o = o' := Option.some.inj ((ho n hn).symm.trans ho')
        exact absurd hin (hnever (n + 1) (by omega))
  have hother : o ≠ x.addressee := by
    rintro rfl
    exact hnever M le_rfl hx
  have hnot : ∀ n, M ≤ n → ¬(σ n).Owns x.addressee := fun n hn howns =>
    hother (Option.some.inj ((ho n hn).symm.trans howns.2))
  -- its addressee is up again and again, and could pass it on
  have htaken := hdequeue x.addressee x.id hid <|
    ((up_again (hrevive x.addressee)).and_eventually (eventually_ge_atTop M)).mono fun n hn => by
      refine ⟨{ σ n with pending := (σ n).pending \ {x} ∪ {⟨o, x.id⟩} },
        ⟨hn.1, x, hstays n hn.2, rfl, rfl, Or.inr ⟨hnot n hn.2, o, ho n hn.2, hother, rfl⟩⟩, fun heq => ?_⟩
      refine hnever n hn.2 ?_
      rw [← heq]
      exact Or.inr rfl
  obtain ⟨n, hn, ⟨-, m, -, hmid, hmto, hcase⟩, -⟩ := frequently_atTop.mp htaken M
  rcases hcase with ⟨howns, -⟩ | ⟨-, o', ho', -, heq⟩
  · exact hnot n hn howns
  · obtain rfl : o = o' := Option.some.inj ((ho n hn).symm.trans ho')
    refine hnever (n + 1) (by omega) ?_
    rw [heq, ← hmid]
    exact Or.inr rfl

/-- None waits for ever at the owner. -/
theorem owner_commits (h : Spec k σ) (hid : id ∈ Set.Icc 1 k.MaxCtl) (hM : ∀ n, M ≤ n → Quiet (σ n) (σ (n + 1)))
    (ho : ∀ n, M ≤ n → (σ n).lease.owner = some o) : ⟨o, id⟩ ∉ (σ M).pending := by
  intro hx
  obtain ⟨hσ, -, -, -, hrevive, hdequeue⟩ := h
  have hstays : ∀ n, M ≤ n → (⟨o, id⟩ : Ctl I) ∈ (σ n).pending := by
    intro n hn
    induction n, hn using Nat.le_induction with
    | base => exact hx
    | succ n hn ih =>
      rcases (hM n hn).keeps ih with hin | ⟨o', ho', hne, -⟩
      · exact hin
      · exact absurd (Option.some.inj (ho'.symm.trans (ho n hn))) hne
  have howns : ∀ n, M ≤ n → (σ n).Owns o := fun n hn => ⟨((leases (hσ.reachable n)).owner o (ho n hn)).1, ho n hn⟩
  have htaken := hdequeue o id hid <|
    ((up_again (hrevive o)).and_eventually (eventually_ge_atTop M)).mono fun n hn => by
      refine ⟨{ (σ n).committedBy o with pending := (σ n).pending \ {⟨o, id⟩} },
        ⟨hn.1, ⟨o, id⟩, hstays n hn.2, rfl, rfl, Or.inl ⟨howns n hn.2, rfl⟩⟩, fun heq => ?_⟩
      have hin := hstays n hn.2
      rw [← heq] at hin
      exact hin.2 rfl
  obtain ⟨n, hn, ⟨-, m, -, -, -, hcase⟩, -⟩ := frequently_atTop.mp htaken M
  rcases hcase with ⟨-, heq⟩ | ⟨hno, -⟩
  · have hlt := (ordered (hσ.reachable n)).lt_next (howns n hn)
    have hstill := (hM n hn).committed
    rw [heq] at hstill
    exact hlt.ne' hstill
  · exact hno (howns n hn)

end Waiting

/-- **Each forwarded control leaves the queue.** -/
theorem progresses (h : Spec k σ) : EveryForwardedControlProgresses k σ := by
  intro id hid n hn
  by_contra hno
  push Not at hno
  obtain ⟨N, hN⟩ := quiet h.1
  have hwaits := hno (max n N) (le_max_left _ _)
  obtain ⟨o, ho⟩ := owned (h.1.reachable (max n N)) (Or.inr (hwaits.imp fun _ hx => hx.1))
  have hquiet : ∀ j, max n N ≤ j → Quiet (σ j) (σ (j + 1)) := fun j hj => hN j ((le_max_right _ _).trans hj)
  have howner : ∀ j, max n N ≤ j → (σ j).lease.owner = some o := fun j hj => (Quiet.still hquiet hj).1 ▸ ho
  obtain ⟨K, hK, hin⟩ := reaches_owner h hid hquiet howner hwaits
  exact owner_commits h hid (fun j hj => hquiet j (hK.trans hj)) (fun j hj => howner j (hK.trans hj)) hin

omit [DecidableEq I] [DecidableEq C] in
theorem not_behind {a b : Version} (h : b ≤ a) : ¬Behind a b := fun hb => (Version.lt_iff.mpr hb).not_ge h

/-- **The actor is live.** In every fair run the clients converge on what is committed, none is stranded behind a version
that was committed, and every forwarded control leaves the queue. -/
theorem actor_live [Finite C] (k : Constants) {σ : ℕ → State I C} (h : Spec k σ) :
    Convergence σ ∧ NoClientStrandedBehind k σ ∧ EveryForwardedControlProgresses k σ := by
  refine ⟨?_, fun c v _ n hn => ?_, progresses h⟩
  · refine (eventually_all.mpr fun c => converges h c).mono fun n hn c => ?_
    rw [hn c]
    exact ⟨rfl, rfl⟩
  · have hmono : Monotone fun n => (σ n).committed := monotone_nat_of_le_succ fun n =>
      (committed_next h.1 n).elim (fun heq => heq.ge) fun hlt => hlt.2.le
    obtain ⟨m, hm, hge⟩ := ((converges h c).and (eventually_ge_atTop n)).exists
    exact ⟨m, hge, not_behind (hm ▸ hn ▸ hmono hge)⟩

end Runs

/-! ## Fair behaviours -/

/-- The fair actions: the sweep, the claims of one instance, deliveries, revivals and the queues. -/
def fair (k : Constants) (i₀ : I) : Option (Option (C ⊕ I ⊕ I × Set.Icc 1 k.MaxCtl)) → Temporal.Action (State I C)
  | none => Sweep
  | some none => Claim k i₀
  | some (some (.inl c)) => DeliverTo c
  | some (some (.inr (.inl i))) => Revive i
  | some (some (.inr (.inr ⟨i, id⟩))) => OwnerDequeueCtl i id

/-- Every reachable state is in a fair behaviour. -/
theorem exists_spec [Countable I] [Countable C] (i₀ : I) {s : State I C} (h : (spec I C k).Reachable s) :
    ∃ (σ : ℕ → State I C) (n : ℕ), Spec k σ ∧ σ n = s := by
  have hsub : ∀ j s t, fair (C := C) k i₀ j s t → (spec I C k).Next s t := by
    rintro (_ | _ | c | i | ⟨i, id⟩) s t h
    · exact Or.inr (Or.inr h)
    · exact Or.inl ⟨i₀, Or.inl h⟩
    · obtain ⟨m, -, h⟩ := h
      exact Or.inr (Or.inl ⟨m, Or.inl h⟩)
    · exact Or.inl ⟨i, Or.inr (Or.inr (Or.inr (Or.inl h)))⟩
    · exact Or.inl ⟨i, Or.inr (Or.inr (Or.inr (Or.inr (Or.inr ⟨id, id.2, h⟩))))⟩
  obtain ⟨σ, n, hσ, hn, -, hf, -⟩ := Temporal.exists_fair hsub h (Or.inr rfl)
  exact ⟨σ, n, ⟨hσ, hf none, ⟨i₀, (hf (some none)).wf⟩, fun c => hf (some (some (.inl c))),
    fun i => (hf (some (some (.inr (.inl i))))).wf,
    fun i id hid => hf (some (some (.inr (.inr ⟨i, id, hid⟩))))⟩, hn⟩

theorem actor_live_forwarded : ∃ σ : ℕ → State (Fin 2) (Fin 2), (∃ n, σ n = forwarded) ∧
    Convergence σ ∧ EveryForwardedControlProgresses shipped σ := by
  obtain ⟨σ, n, hσ, hn⟩ := exists_spec 0 forwarded_reachable
  have hlive := actor_live shipped hσ
  exact ⟨σ, ⟨n, hn⟩, hlive.1, hlive.2.2⟩

end SyncActor
end WatchParty
