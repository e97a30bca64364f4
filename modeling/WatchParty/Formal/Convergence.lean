import Mathlib.Order.Filter.Finite
import WatchParty.Formal.SyncTimeline
import WatchParty.Lib.Fanout

/-!
# Clients converge on the store

The liveness of `formal/SyncTimeline.tla`. Commits and flushes are bounded, so the store stands still from some point on,
and the sweep and the fairness of deliveries bring each client a message again and again.

- `store_settles` and `delivered`: the store stands still, and each client is delivered something again and again;
- `converges`: each client comes to hold what the store holds, while the store's epoch is not dead to it (`Live`);
- `convergence_iff`: clients converge under every rule but the one that keeps dead epochs, where a client that was
  dragged back holds the store's epoch for dead for ever.
-/

open Filter

namespace WatchParty
namespace SyncTimeline

variable {C : Type} [DecidableEq C] {k : Constants}

/-- `Convergence`. -/
def Convergence {C : Type} (σ : ℕ → State C) : Prop :=
  ∀ᶠ n in atTop, ∀ c, ((σ n).applied c).epoch = (σ n).storeEpoch ∧ ((σ n).applied c).seq = (σ n).storeSeq

/-- The store stands still from some point on. -/
theorem store_settles {σ : ℕ → State C} (h : Temporal.Behaviour (spec C k) σ) :
    ∃ N, ∀ n, N ≤ n → (σ n).store = (σ N).store := by
  have hstep : ∀ n, (σ (n + 1)).store = (σ n).store ∨ left k (σ (n + 1)) < left k (σ n) := by
    intro n
    rcases h.next n with hn | hn
    · exact (next_cases (k := k) hn).left
    · rw [hn]
      exact Or.inl rfl
  have hleft : ∀ s t : State C, t.store = s.store → left k t = left k s := by
    intro s t hst
    rw [left, left, show t.storeEpoch = s.storeEpoch from congrArg Version.epoch hst,
      show t.storeSeq = s.storeSeq from congrArg Version.seq hst]
  obtain ⟨N, -, hN⟩ := Temporal.settles (σ := σ) (left k) (N := 0) fun n _ =>
    (hstep n).elim (fun he => (hleft _ _ he).le) le_of_lt
  refine ⟨N, fun n hn => ?_⟩
  induction n, hn using Nat.le_induction with
  | base => rfl
  | succ n hn ih =>
    refine ((hstep n).resolve_right fun hlt => ?_).trans ih
    rw [hN n hn, hN (n + 1) (by omega)] at hlt
    exact lt_irrefl _ hlt

/-- While the store stands still only its version is sent. -/
theorem Step.sent {s t : State C} (h : Step k s t) (ht : t.store = s.store) {c : C} {m : Msg C}
    (hm : m ∈ inFlight c t) : m ∈ inFlight c s ∨ m.toVersion = s.store := by
  cases h with
  | emit v hle hv =>
    rcases hm.1 with hin | hin
    · exact Or.inl ⟨hin, hm.2⟩
    · exact Or.inr ((show m.toVersion = v from hin).trans ht)
  | apply x hx ha => exact Or.inl ⟨hm.1.1, hm.2⟩
  | lose x hx => exact Or.inl ⟨hm.1.1, hm.2⟩

/-- A delivery to a client takes a message for it out of the network, and applies it where the rule accepts it. -/
theorem deliverTo_cases {c : C} {s t : State C} (h : DeliverTo k c s t) :
    ∃ m ∈ inFlight c s, m ∉ inFlight c t ∧
      (Accept k.ClientRule s m ∧ t.applied c = m.toVersion ∨ ¬Accept k.ClientRule s m ∧ t.applied c = s.applied c) := by
  obtain ⟨m, rfl, hm, ⟨ha, rfl⟩ | ⟨ha, rfl⟩⟩ := h
  · exact ⟨m, ⟨hm, rfl⟩, fun hin => hin.1.2 rfl, Or.inl ⟨ha, Function.update_self _ _ _⟩⟩
  · exact ⟨m, ⟨hm, rfl⟩, fun hin => hin.1.2 rfl, Or.inr ⟨ha, rfl⟩⟩

omit [DecidableEq C] in
/-- Something is in flight for each client again and again. -/
theorem supplied {σ : ℕ → State C} (hf : Temporal.WF Sweep σ) (c : C) : ∃ᶠ n in atTop, (inFlight c (σ n)).Nonempty := by
  refine hf.recurs (P := fun s => (inFlight c s).Nonempty) (Eventually.of_forall fun n => ?_) fun n hn => ?_
  · by_cases hne : (inFlight c (σ n)).Nonempty
    · exact Or.inr hne
    · refine Or.inl ⟨{ σ n with network := (σ n).network ∪ fan (σ n).store }, rfl, fun heq => hne ?_⟩
      refine ⟨⟨(σ n).store, c⟩, ?_, rfl⟩
      rw [← heq]
      exact Or.inr rfl
  · obtain ⟨hs, -⟩ := hn
    rw [hs]
    exact ⟨⟨(σ n).store, c⟩, Or.inr rfl, rfl⟩

/-- Each client is delivered something again and again. -/
theorem delivered {σ : ℕ → State C} (hf : Fairness k σ) (c : C) : ∃ᶠ n in atTop, DeliverTo k c (σ n) (σ (n + 1)) := by
  refine (hf.2 c ((supplied hf.1 c).mono fun n hn => ?_)).mono fun n hn => hn.1
  obtain ⟨m, hm, rfl⟩ := hn
  have hmove : ∀ t : State C, t.network = (σ n).network \ {m} → t ≠ σ n := by
    intro t ht heq
    rw [heq] at ht
    exact (ht ▸ hm).2 rfl
  by_cases ha : Accept k.ClientRule (σ n) m
  · exact ⟨_, ⟨m, rfl, hm, Or.inl ⟨ha, rfl⟩⟩, hmove _ rfl⟩
  · exact ⟨_, ⟨m, rfl, hm, Or.inr ⟨ha, rfl⟩⟩, hmove _ rfl⟩

/-- The store's epoch is not dead to any client. -/
def Live (k : Constants) (s : State C) : Prop := k.ClientRule ≠ .deadepochs ∨ ∀ c, s.storeEpoch ∉ s.deadEpochs c

/-- Without a second epoch only the epoch before the first is dead. -/
theorem live {s : State C} (hk : k.ClientRule ≠ .deadepochs ∨ k.MaxEpoch < 2) (h : (spec C k).Reachable s) :
    Live k s := by
  refine hk.imp id fun he c hdead => ?_
  suffices hzero : ∀ c, ∀ e ∈ s.deadEpochs c, e = 0 by
    rw [storeEpoch_one he h] at hdead
    exact Nat.one_ne_zero (hzero c 1 hdead)
  refine h.invariant_from (I := fun s => ∀ c, ∀ e ∈ s.deadEpochs c, e = 0) ?_ fun s t hs hn hI => ?_
  · rintro s rfl c e hin
    exact absurd hin (Set.notMem_empty e)
  · cases next_cases (k := k) hn with
    | apply m hm ha =>
      intro c e hin
      simp only [buried] at hin
      split at hin
      · rename_i hne
        rcases eq_or_ne c m.dst with rfl | hc
        · rw [Function.update_self] at hin
          rcases hin with hin | rfl
          · exact hI _ e hin
          · -- the client was at no epoch: it is not past the store's, and not at that of the message
            have hheld := Version.le_iff.mp ((sound hs).held m.dst)
            have hsent := (sound hs).sent m hm
            have hle := Version.le_iff.mp hsent.2
            have hone := storeEpoch_one he hs
            simp only [State.store] at hheld hle
            have hmsg := hsent.1
            have := hne.2
            omega
        · rw [Function.update_of_ne hc] at hin
          exact hI c e hin
      · exact hI c e hin
    | _ => exact hI

omit [DecidableEq C] in
/-- A client that does not accept the store's version has it. -/
theorem Live.accepts {s : State C} (h : Live k s) (hs : Sound s) {m : Msg C} (hm : m.toVersion = s.store)
    (ha : ¬Accept k.ClientRule s m) : s.applied m.dst = s.store := by
  have hnaive : ¬AcceptNaive (s.applied m.dst) m.toVersion → s.store ≤ s.applied m.dst := by
    intro hno
    rw [AcceptNaive, hm, not_or, not_not] at hno
    exact Version.le_iff.mpr (Or.inr ⟨hno.2, not_lt.mp fun hlt => hno.1 ⟨hno.2, hlt⟩⟩)
  refine le_antisymm (hs.held _) ?_
  cases hr : k.ClientRule with
  | naive =>
    rw [hr] at ha
    exact hnaive ha
  | deadepochs =>
    rw [hr] at ha
    refine hnaive fun hn => ha ⟨?_, hn⟩
    rw [hm]
    exact h.resolve_left (fun hne => hne hr) m.dst
  | ordered =>
    rw [hr] at ha
    rw [← hm]
    exact not_lt.mp fun hlt => ha ((Version.lt_iff.mp hlt).imp id fun h => ⟨h.1.symm, h.2⟩)

/-- **Each client converges.** -/
theorem converges {σ : ℕ → State C} (h : Spec k σ) (hk : k.ClientRule ≠ .deadepochs ∨ k.MaxEpoch < 2) (c : C) :
    ∀ᶠ n in atTop, (σ n).applied c = (σ n).store := by
  obtain ⟨hσ, hf⟩ := h
  obtain ⟨N, hN⟩ := store_settles hσ
  have hsound := fun n => sound (hσ.reachable n)
  have hheld : ∀ᶠ n in atTop, (σ n).applied c = (σ N).store := by
    refine Temporal.receives (inFlight c) Msg.toVersion (fun s => s.applied c)
      ((hsound N).finite c) (fun n hn m hm => ?_) (fun n hn => ?_) (fun n hn hd => ?_) (delivered hf c)
    · rcases hσ.next n with hstep | hstep
      · rw [← hN n hn]
        exact (next_cases (k := k) hstep).sent ((hN (n + 1) (by omega)).trans (hN n hn).symm) hm
      · rw [hstep] at hm
        exact Or.inl hm
    · rcases hσ.next n with hstep | hstep
      · refine ((next_cases (k := k) hstep).applied c).imp id ?_
        rintro ⟨m, hm, hd, hgone, -, heq⟩
        exact ⟨m, ⟨hm, hd⟩, fun hin => hgone hin.1, heq⟩
      · rw [hstep]
        exact Or.inl rfl
    · obtain ⟨m, hm, hgone, ⟨-, heq⟩ | ⟨hno, heq⟩⟩ := deliverTo_cases hd
      · exact ⟨m, hm, hgone, heq.trans⟩
      · refine ⟨m, hm, hgone, fun hcur => ?_⟩
        rw [heq, ← hN n hn, ← hm.2]
        exact (live hk (hσ.reachable n)).accepts (hsound n) (hcur.trans (hN n hn).symm) hno
  filter_upwards [hheld, eventually_ge_atTop N] with n hn hge
  rw [hn, hN n hge]

/-! ## Where a client is lost -/

/-- The client is not at the store's epoch, which is dead to it. -/
structure Lost (c : C) (s : State C) : Prop where
  at_other : (s.applied c).epoch ≠ s.storeEpoch
  dead : s.storeEpoch ∈ s.deadEpochs c

theorem Lost.deliver {c : C} {s t : State C} (hk : k.ClientRule = .deadepochs) {m : Msg C} (h : Deliver k m s t)
    (hl : Lost c s) : Lost c t := by
  obtain ⟨hm, ⟨ha, rfl⟩ | ⟨-, rfl⟩⟩ := h
  · have hburied : s.storeEpoch ∈ buried k.ClientRule s m c := by
      unfold buried
      split
      · rcases eq_or_ne c m.dst with rfl | hne
        · rw [Function.update_self]
          exact Or.inl hl.dead
        · rw [Function.update_of_ne hne]
          exact hl.dead
      · exact hl.dead
    refine ⟨?_, hburied⟩
    rcases eq_or_ne c m.dst with rfl | hne
    · rw [hk] at ha
      simp only [Function.update_self]
      exact fun heq => ha.1 (heq ▸ hl.dead)
    · simp only [Function.update_of_ne hne]
      exact hl.at_other
  · exact ⟨hl.at_other, hl.dead⟩

/-- **Which rule converges.** Every client comes to hold what the store holds, in every fair behaviour, under the naive
and the ordered rule; and only where there is no client or no second epoch under the rule of dead epochs. -/
theorem convergence_iff [Finite C] (k : Constants) :
    (∀ σ : ℕ → State C, Spec k σ → Convergence σ) ↔
      k.ClientRule ≠ .deadepochs ∨ IsEmpty C ∨ k.MaxEpoch < 2 := by
  constructor
  · intro hall
    by_contra hno
    push Not at hno
    obtain ⟨hk, ⟨c⟩, he⟩ := hno
    have hreach : (spec C k).Reachable (told k c) := (flushed_reachable he).reach (.single (flushed_told k c))
    obtain ⟨σ, N, hσ, -, ht, hmoves⟩ := exists_spec hreach (told_dragged (by rw [hk]; decide) c)
    -- the store stays at the epoch that is dead to the client
    have hlost : ∀ n, N + 1 ≤ n → Lost c (σ n) := by
      intro n hn
      induction n, hn using Nat.le_induction with
      | base =>
        rw [ht]
        refine ⟨?_, dragged_dead hk c⟩
        rw [show (dragged k c).applied c = ⟨1, 0⟩ from Function.update_self _ _ _]
        exact (Nat.succ_ne_self 1).symm
      | succ n hn ih =>
        rcases hmoves n hn with heq | hsweep | ⟨d, m, -, hd⟩
        · rw [heq]
          exact ih
        · rw [hsweep]
          exact ⟨ih.at_other, ih.dead⟩
        · exact ih.deliver hk hd
    obtain ⟨M, hM⟩ := eventually_atTop.mp (hall σ hσ)
    exact (hlost (max M (N + 1)) (le_max_right _ _)).at_other (hM _ (le_max_left _ _) c).1
  · intro hk σ h
    rcases hk with hk | hC | he
    · exact (eventually_all.mpr fun c => converges h (Or.inl hk) c).mono fun n hn c => by rw [hn c]; exact ⟨rfl, rfl⟩
    · exact Eventually.of_forall fun n c => (hC.false c).elim
    · exact (eventually_all.mpr fun c => converges h (Or.inr he) c).mono fun n hn c => by rw [hn c]; exact ⟨rfl, rfl⟩

theorem convergence_iff_shipped : 1 < shipped.MaxEpoch ∧
    ∀ σ : ℕ → State (Fin 2), Spec shipped σ → Convergence σ :=
  ⟨by decide, (convergence_iff shipped).mpr (Or.inl (by decide))⟩

end SyncTimeline
end WatchParty
