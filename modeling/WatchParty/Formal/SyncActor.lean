import Mathlib.Data.Nat.Count
import Mathlib.Data.Set.Card
import WatchParty.Formal.SyncTimeline

/-!
# The specification of single-owner room actors

`formal/SyncActor.tla`: one room, instances that claim it under a lease with a fresh epoch, an owner that commits under its
epoch as a fence, instances that forward controls to it, crashes and zombies, and clients that apply by the ordered rule
over a fan-out that drops and reorders. The instances, the clients and the bounds are parameters.

- `Next`, an action for each of the specification, and `Fairness`;
- `Step`: the ways a step can go; what each invariant needs of it is read off it;
- `Leases`, `Ordered`, `Controls`: the invariants of the lease, of what is committed and received, and of what was
  forwarded;
- `actor_safe`: the safety of the specification, and that no control is lost or committed twice.
-/

namespace WatchParty
namespace SyncActor

open SyncTimeline (Version Msg fan)

/-- `[owner, epoch]`. -/
@[ext] structure Lease (I : Type) where
  owner : Option I
  epoch : ℕ

/-- `[to, id]`, a forwarded control and its addressee. -/
@[ext] structure Ctl (I : Type) where
  addressee : I
  id : ℕ

/-- `CONSTANTS` other than the instances and the clients, which are types. -/
structure Constants where
  MaxSeq : ℕ
  MaxEpoch : ℕ
  MaxCtl : ℕ

/-- `VARIABLES`. -/
structure State (I C : Type) where
  lease : Lease I
  ownerView : I → ℕ
  committed : Version
  network : Set (Msg C)
  applied : C → Version
  crashed : Set I
  admitted : ℕ
  pending : Set (Ctl I)

variable {I C : Type}

def initial : State I C :=
  { lease := ⟨none, 0⟩, ownerView := fun _ => 0, committed := ⟨0, 0⟩, network := ∅, applied := fun _ => ⟨0, 0⟩,
    crashed := ∅, admitted := 0, pending := ∅ }

/-! ## The actions -/

namespace State

variable [DecidableEq I] (s : State I C)

omit [DecidableEq I] in
/-- The instance holds the current fence and the lease. -/
def Owns (i : I) : Prop := s.ownerView i = s.lease.epoch ∧ s.lease.owner = some i

omit [DecidableEq I] in
/-- `LeaseFree`. -/
def LeaseFree : Prop := s.lease.owner = none ∨ ∃ o ∈ s.crashed, s.lease.owner = some o

/-- The lease under a fresh epoch. -/
def claimed (i : I) : State I C :=
  { s with lease := ⟨some i, s.lease.epoch + 1⟩, ownerView := Function.update s.ownerView i (s.lease.epoch + 1) }

omit [DecidableEq I] in
/-- The version an instance commits next. -/
def nextVersion (i : I) : Version :=
  ⟨s.ownerView i, if s.committed.epoch = s.ownerView i then s.committed.seq + 1 else 1⟩

omit [DecidableEq I] in
/-- A commit, and its broadcast. -/
def committedBy (i : I) : State I C :=
  { s with committed := s.nextVersion i, network := s.network ∪ fan (s.nextVersion i) }

end State

variable [DecidableEq I] [DecidableEq C] (k : Constants)

omit [DecidableEq I] [DecidableEq C] in
def Init (s : State I C) : Prop := s = initial

omit [DecidableEq C] in
/-- A live instance claims a free lease. -/
def Claim (i : I) (s t : State I C) : Prop :=
  i ∉ s.crashed ∧ s.LeaseFree ∧ s.lease.epoch < k.MaxEpoch ∧ t = s.claimed i

omit [DecidableEq C] in
/-- An instance that believes it owns the room commits under its fence, or learns that it lost. -/
def Commit (i : I) (s t : State I C) : Prop :=
  i ∉ s.crashed ∧ s.ownerView i > 0 ∧ s.admitted < k.MaxSeq ∧
  (s.Owns i ∧ t = { s.committedBy i with admitted := s.admitted + 1 } ∨
   ¬s.Owns i ∧ t = { s with ownerView := Function.update s.ownerView i 0 })

omit [DecidableEq I] [DecidableEq C] in
def Crash (i : I) (s t : State I C) : Prop := i ∉ s.crashed ∧ t = { s with crashed := s.crashed ∪ {i} }

omit [DecidableEq I] [DecidableEq C] in
def Revive (i : I) (s t : State I C) : Prop := i ∈ s.crashed ∧ t = { s with crashed := s.crashed \ {i} }

omit [DecidableEq C] in
/-- A non-owner forwards a control to the owner, or claims the room where the owner is gone. -/
def Forward (i : I) (s t : State I C) : Prop :=
  i ∉ s.crashed ∧ s.admitted < k.MaxSeq ∧ ∃ o, s.lease.owner = some o ∧ o ≠ i ∧
  ∃ id ∈ Set.Icc 1 k.MaxCtl, (∀ m ∈ s.pending, m.id ≠ id) ∧
  (o ∉ s.crashed ∧ t = { s with pending := s.pending ∪ {⟨o, id⟩}, admitted := s.admitted + 1 } ∨
   o ∈ s.crashed ∧ s.lease.epoch < k.MaxEpoch ∧ t = s.claimed i)

omit [DecidableEq I] [DecidableEq C] in
/-- The addressee of a control commits it, or passes it on to the owner. -/
def OwnerDequeueCtl (i : I) (id : ℕ) (s t : State I C) : Prop :=
  i ∉ s.crashed ∧ ∃ m ∈ s.pending, m.id = id ∧ m.addressee = i ∧
  (s.Owns i ∧ t = { s.committedBy i with pending := s.pending \ {m} } ∨
   ¬s.Owns i ∧ ∃ o, s.lease.owner = some o ∧ o ≠ i ∧ t = { s with pending := s.pending \ {m} ∪ {⟨o, m.id⟩} })

omit [DecidableEq I] in
/-- Clients apply by the ordered rule. -/
def Deliver (m : Msg C) (s t : State I C) : Prop :=
  m ∈ s.network ∧
  (s.applied m.dst < m.toVersion ∧
      t = { s with network := s.network \ {m}, applied := Function.update s.applied m.dst m.toVersion } ∨
   ¬s.applied m.dst < m.toVersion ∧ t = { s with network := s.network \ {m} })

omit [DecidableEq I] [DecidableEq C] in
def Drop (m : Msg C) (s t : State I C) : Prop := m ∈ s.network ∧ t = { s with network := s.network \ {m} }

omit [DecidableEq I] [DecidableEq C] in
/-- The sweep re-fans the committed state, run by the current owner only. -/
def Sweep (s t : State I C) : Prop :=
  (∃ o ∉ s.crashed, s.lease.owner = some o) ∧ s.committed.epoch > 0 ∧
  t = { s with network := s.network ∪ fan s.committed }

def Next (s t : State I C) : Prop :=
  (∃ i, Claim k i s t ∨ Commit k i s t ∨ Crash i s t ∨ Revive i s t ∨ Forward k i s t ∨
    ∃ id ∈ Set.Icc 1 k.MaxCtl, OwnerDequeueCtl i id s t) ∨
  (∃ m, Deliver m s t ∨ Drop m s t) ∨ Sweep s t

/-- `Init ∧ □[Next]_vars`. -/
def spec (I C : Type) [DecidableEq I] [DecidableEq C] (k : Constants) : Temporal.Spec (State I C) := ⟨Init, Next k⟩

omit [DecidableEq I] in
/-- `\E m \in network : m.dst = c /\ Deliver(m)`. -/
def DeliverTo (c : C) (s t : State I C) : Prop := ∃ m, m.dst = c ∧ Deliver m s t

def Fairness (σ : ℕ → State I C) : Prop :=
  Temporal.SF Sweep σ ∧ (∃ i, Temporal.WF (Claim k i) σ) ∧ (∀ c, Temporal.SF (DeliverTo c) σ) ∧
  (∀ i, Temporal.WF (Revive i) σ) ∧ ∀ i, ∀ id ∈ Set.Icc 1 k.MaxCtl, Temporal.SF (OwnerDequeueCtl i id) σ

/-- `Spec`. -/
def Spec (σ : ℕ → State I C) : Prop := Temporal.Behaviour (spec I C k) σ ∧ Fairness k σ

/-! ## What a step can do -/

variable {k}

/-- The ways a step can go. -/
inductive Step (k : Constants) (s : State I C) : State I C → Prop
  | claim (i : I) (hi : i ∉ s.crashed) (hf : s.LeaseFree) (he : s.lease.epoch < k.MaxEpoch) : Step k s (s.claimed i)
  | commit (i : I) (ho : s.Owns i) (ha : s.admitted < k.MaxSeq) :
      Step k s { s.committedBy i with admitted := s.admitted + 1 }
  | deposed (i : I) (ho : ¬s.Owns i) : Step k s { s with ownerView := Function.update s.ownerView i 0 }
  | crash (i : I) (hi : i ∉ s.crashed) : Step k s { s with crashed := s.crashed ∪ {i} }
  | revive (i : I) (hi : i ∈ s.crashed) : Step k s { s with crashed := s.crashed \ {i} }
  | forward (o : I) (id : ℕ) (ho : s.lease.owner = some o) (hid : id ∈ Set.Icc 1 k.MaxCtl)
      (hnew : ∀ m ∈ s.pending, m.id ≠ id) (ha : s.admitted < k.MaxSeq) :
      Step k s { s with pending := s.pending ∪ {⟨o, id⟩}, admitted := s.admitted + 1 }
  | dequeue (m : Ctl I) (hm : m ∈ s.pending) (ho : s.Owns m.addressee) :
      Step k s { s.committedBy m.addressee with pending := s.pending \ {m} }
  | retarget (m : Ctl I) (o : I) (hm : m ∈ s.pending) (ho : s.lease.owner = some o) (hne : o ≠ m.addressee) :
      Step k s { s with pending := s.pending \ {m} ∪ {⟨o, m.id⟩} }
  | receive (m : Msg C) (hm : m ∈ s.network) (hlt : s.applied m.dst < m.toVersion) :
      Step k s { s with network := s.network \ {m}, applied := Function.update s.applied m.dst m.toVersion }
  | lose (m : Msg C) (hm : m ∈ s.network) : Step k s { s with network := s.network \ {m} }
  | sweep (he : s.committed.epoch > 0) : Step k s { s with network := s.network ∪ fan s.committed }

theorem next_cases {s t : State I C} (h : Next k s t) : Step k s t := by
  rcases h with ⟨i, h⟩ | ⟨m, h⟩ | ⟨-, he, rfl⟩
  · rcases h with ⟨hi, hf, he, rfl⟩ | ⟨-, -, ha, ⟨ho, rfl⟩ | ⟨ho, rfl⟩⟩ | ⟨hi, rfl⟩ | ⟨hi, rfl⟩ |
      ⟨hi, ha, o, ho, -, id, hid, hnew, ⟨-, rfl⟩ | ⟨hc, he, rfl⟩⟩ |
      ⟨id, -, -, m, hm, -, rfl, ⟨ho, rfl⟩ | ⟨-, o, ho, hne, rfl⟩⟩
    · exact .claim i hi hf he
    · exact .commit i ho ha
    · exact .deposed i ho
    · exact .crash i hi
    · exact .revive i hi
    · exact .forward o id ho hid hnew ha
    · exact .claim i hi (Or.inr ⟨o, hc, ho⟩) he
    · exact .dequeue m hm ho
    · exact .retarget m o hm ho hne
  · rcases h with ⟨hm, ⟨hlt, rfl⟩ | ⟨-, rfl⟩⟩ | ⟨hm, rfl⟩
    · exact .receive m hm hlt
    · exact .lose m hm
    · exact .lose m hm
  · exact .sweep he

/-! ## The lease -/

omit [DecidableEq I] [DecidableEq C] in
/-- Whoever holds the current fence is the owner, and the owner holds it. -/
structure Leases (k : Constants) (s : State I C) : Prop where
  bounded : s.lease.epoch ≤ k.MaxEpoch
  views : ∀ i, s.ownerView i ≤ s.lease.epoch
  fence : ∀ i, s.ownerView i = s.lease.epoch → 0 < s.lease.epoch → s.lease.owner = some i
  owner : ∀ i, s.lease.owner = some i → s.ownerView i = s.lease.epoch ∧ 0 < s.lease.epoch

theorem Leases.step {s t : State I C} (hI : Leases k s) (h : Step k s t) : Leases k t := by
  cases h with
  | claim i hi hf he =>
    refine ⟨he, fun j => ?_, fun j hj _ => ?_, fun j hj => ?_⟩
    · rcases eq_or_ne j i with rfl | hne
      · exact (Function.update_self ..).le
      · simp only [State.claimed, Function.update_of_ne hne]
        exact (hI.views j).trans (Nat.le_succ _)
    · rcases eq_or_ne j i with rfl | hne
      · rfl
      · simp only [State.claimed, Function.update_of_ne hne] at hj
        have := hI.views j
        omega
    · obtain rfl : i = j := Option.some.inj hj
      exact ⟨Function.update_self .., Nat.succ_pos _⟩
  | deposed i ho =>
    have hnot : s.ownerView i = s.lease.epoch → s.lease.owner ≠ some i := fun hv hs => ho ⟨hv, hs⟩
    refine ⟨hI.bounded, fun j => ?_, fun j hj hpos => ?_, fun j hj => ?_⟩
    · rcases eq_or_ne j i with rfl | hne
      · simp only [Function.update_self]
        exact Nat.zero_le _
      · simp only [Function.update_of_ne hne]
        exact hI.views j
    · rcases eq_or_ne j i with rfl | hne
      · simp only [Function.update_self] at hj hpos
        omega
      · simp only [Function.update_of_ne hne] at hj
        exact hI.fence j hj hpos
    · rcases eq_or_ne j i with rfl | hne
      · exact absurd hj (hnot (hI.owner j hj).1)
      · simp only [Function.update_of_ne hne]
        exact hI.owner j hj
  | _ => exact ⟨hI.bounded, hI.views, hI.fence, hI.owner⟩

theorem leases {s : State I C} (h : (spec I C k).Reachable s) : Leases k s := by
  refine h.invariant (I := Leases k) ?_ fun s t hn hI => hI.step (next_cases (k := k) hn)
  rintro s rfl
  exact ⟨Nat.zero_le _, fun _ => le_rfl, fun _ _ h => absurd h (lt_irrefl 0), fun _ h => by cases h⟩

/-! ## Versions -/

omit [DecidableEq I] [DecidableEq C] in
/-- What is in flight for a client. -/
def inFlight (c : C) (s : State I C) : Set (Msg C) := {m | m ∈ s.network ∧ m.dst = c}

omit [DecidableEq I] [DecidableEq C] in
/-- Nothing newer than what is committed is in flight or applied, and nothing is committed past the lease. -/
structure Ordered (s : State I C) : Prop where
  fenced : s.committed.epoch ≤ s.lease.epoch
  blank : s.committed.epoch = 0 → s.committed.seq = 0
  sent : ∀ m ∈ s.network, m.toVersion ≤ s.committed
  held : ∀ c, s.applied c ≤ s.committed
  finite : ∀ c, (inFlight c s).Finite

omit [DecidableEq I] [DecidableEq C] in
theorem Ordered.inFlight_sdiff {s : State I C} (h : Ordered s) (m : Msg C) (c : C) :
    {x | x ∈ s.network \ {m} ∧ x.dst = c}.Finite := (h.finite c).subset fun _ hx => ⟨hx.1.1, hx.2⟩

omit [DecidableEq I] [DecidableEq C] in
theorem Ordered.inFlight_fan {s : State I C} (h : Ordered s) (v : Version) (c : C) :
    {x | x ∈ s.network ∪ fan v ∧ x.dst = c}.Finite := by
  refine ((h.finite c).union (Set.finite_singleton (⟨v, c⟩ : Msg C))).subset ?_
  rw [← SyncTimeline.inFlight_fan]
  rintro m ⟨hm | hm, hd⟩
  · exact Or.inl ⟨hm, hd⟩
  · exact Or.inr ⟨hm, hd⟩

omit [DecidableEq I] [DecidableEq C] in
/-- What the owner commits is newer than all that was committed. -/
theorem Ordered.lt_next {s : State I C} (h : Ordered s) {i : I} (ho : s.Owns i) :
    s.committed < s.nextVersion i := by
  refine Version.lt_iff.mpr ?_
  have hfence := h.fenced
  rw [← ho.1] at hfence
  rcases Nat.lt_or_eq_of_le hfence with hlt | heq
  · exact Or.inl hlt
  · refine Or.inr ⟨heq, ?_⟩
    simp only [State.nextVersion, if_pos heq]
    exact Nat.lt_succ_self _

omit [DecidableEq I] [DecidableEq C] in
/-- A commit by the owner keeps versions in order. -/
theorem Ordered.commit {s : State I C} (hI : Ordered s) (hl : Leases k s) {i : I} (ho : s.Owns i) (a : ℕ)
    (p : Set (Ctl I)) : Ordered { s.committedBy i with admitted := a, pending := p } := by
  have hlt := hI.lt_next ho
  have hpos := (hl.owner i ho.2).2
  refine ⟨ho.1.le, fun hzero => ?_, ?_, fun c => (hI.held c).trans hlt.le, hI.inFlight_fan _⟩
  · have hview : s.ownerView i = 0 := hzero
    rw [ho.1] at hview
    omega
  · rintro m (hm | hm)
    · exact (hI.sent m hm).trans hlt.le
    · exact le_of_eq hm

theorem Ordered.step {s t : State I C} (hI : Ordered s) (h : Step k s t) (hl : Leases k s) : Ordered t := by
  cases h with
  | claim i hi hf he => exact ⟨hI.fenced.trans (Nat.le_succ _), hI.blank, hI.sent, hI.held, hI.finite⟩
  | commit i ho ha => exact hI.commit hl ho _ _
  | dequeue m hm ho => exact hI.commit hl ho _ _
  | receive m hm hlt =>
    refine ⟨hI.fenced, hI.blank, fun x hx => hI.sent x hx.1, fun c => ?_, hI.inFlight_sdiff m⟩
    rcases eq_or_ne c m.dst with rfl | hne
    · simp only [Function.update_self]
      exact hI.sent m hm
    · simp only [Function.update_of_ne hne]
      exact hI.held c
  | lose m hm => exact ⟨hI.fenced, hI.blank, fun x hx => hI.sent x hx.1, hI.held, hI.inFlight_sdiff m⟩
  | sweep he =>
    refine ⟨hI.fenced, hI.blank, ?_, hI.held, hI.inFlight_fan _⟩
    rintro m (hm | hm)
    · exact hI.sent m hm
    · exact le_of_eq hm
  | _ => exact ⟨hI.fenced, hI.blank, hI.sent, hI.held, hI.finite⟩

theorem ordered {s : State I C} (h : (spec I C k).Reachable s) : Ordered s := by
  refine h.invariant_from (I := Ordered) ?_ fun s t hs hn hI => hI.step (next_cases (k := k) hn) (leases hs)
  rintro s rfl
  exact ⟨le_rfl, fun _ => rfl, fun m hm => absurd hm (Set.notMem_empty m), fun _ => le_rfl,
    fun c => Set.finite_empty.subset fun m hm => hm.1⟩

/-! ## Forwarded controls -/

omit [DecidableEq I] [DecidableEq C] in
/-- Forwarded controls have ids of their own, and every one that waits or was committed in this epoch was admitted. -/
structure Controls (k : Constants) (s : State I C) : Prop where
  ids : ∀ m ∈ s.pending, m.id ∈ Set.Icc 1 k.MaxCtl
  unique : Set.InjOn Ctl.id s.pending
  counted : s.committed.seq + s.pending.ncard ≤ s.admitted
  admitted : s.admitted ≤ k.MaxSeq
  sent : ∀ m ∈ s.network, m.seq ≤ k.MaxSeq
  held : ∀ c, (s.applied c).seq ≤ k.MaxSeq

omit [DecidableEq I] [DecidableEq C] in
/-- Only finitely many wait. -/
theorem Controls.finite {s : State I C} (h : Controls k s) : s.pending.Finite :=
  Set.Finite.of_finite_image ((Set.finite_Icc 1 k.MaxCtl).subset (Set.image_subset_iff.mpr h.ids)) h.unique

omit [DecidableEq I] [DecidableEq C] in
/-- A control under an id that none has. -/
theorem ncard_forward {s : State I C} (h : Controls k s) {m : Ctl I} (hnew : ∀ x ∈ s.pending, x.id ≠ m.id) :
    (s.pending ∪ {m}).ncard = s.pending.ncard + 1 := by
  rw [Set.union_singleton]
  exact Set.ncard_insert_of_notMem (fun hin => hnew m hin rfl) h.finite

omit [DecidableEq I] [DecidableEq C] in
theorem ncard_dequeue {s : State I C} (h : Controls k s) {m : Ctl I} (hm : m ∈ s.pending) :
    (s.pending \ {m}).ncard + 1 = s.pending.ncard := Set.ncard_sdiff_singleton_add_one hm h.finite

omit [DecidableEq I] [DecidableEq C] in
/-- After a control has left no other has its id. -/
theorem Controls.left {s : State I C} (h : Controls k s) {m x : Ctl I} (hm : m ∈ s.pending)
    (hx : x ∈ s.pending \ {m}) : x.id ≠ m.id := fun heq => hx.2 (h.unique hx.1 hm heq)

omit [DecidableEq I] [DecidableEq C] in
theorem ncard_retarget {s : State I C} (h : Controls k s) {m : Ctl I} (hm : m ∈ s.pending) (o : I) :
    (s.pending \ {m} ∪ {⟨o, m.id⟩}).ncard = s.pending.ncard := by
  have hnew : (⟨o, m.id⟩ : Ctl I) ∉ s.pending \ {m} := fun hin => h.left hm hin rfl
  rw [Set.union_singleton, Set.ncard_insert_of_notMem hnew (h.finite.subset Set.sdiff_subset), ncard_dequeue h hm]

omit [DecidableEq I] [DecidableEq C] in
theorem nextVersion_seq (s : State I C) (i : I) : (s.nextVersion i).seq ≤ s.committed.seq + 1 := by
  simp only [State.nextVersion]
  split <;> omega

omit [DecidableEq I] [DecidableEq C] in
/-- A commit within the bound on controls. -/
theorem Controls.commit {s : State I C} (hI : Controls k s) (i : I) {a : ℕ} {p : Set (Ctl I)} (hp : p ⊆ s.pending)
    (hcount : (s.nextVersion i).seq + p.ncard ≤ a) (ha : a ≤ k.MaxSeq) :
    Controls k { s.committedBy i with admitted := a, pending := p } := by
  refine ⟨fun m hm => hI.ids m (hp hm), hI.unique.mono hp, hcount, ha, ?_, hI.held⟩
  rintro m (hm | hm)
  · exact hI.sent m hm
  · rw [show m.toVersion = s.nextVersion i from hm]
    exact (Nat.le_add_right _ _).trans (hcount.trans ha)

theorem Controls.step {s t : State I C} (hI : Controls k s) (h : Step k s t) : Controls k t := by
  cases h with
  | commit i ho ha =>
    have hcount : (s.nextVersion i).seq + s.pending.ncard ≤ s.admitted + 1 := by
      have hseq := nextVersion_seq s i
      have hcounted := hI.counted
      omega
    exact hI.commit i subset_rfl hcount ha
  | dequeue m hm ho =>
    have hcount : (s.nextVersion m.addressee).seq + (s.pending \ {m}).ncard ≤ s.admitted := by
      have hseq := nextVersion_seq s m.addressee
      have hcounted := hI.counted
      have hleft := ncard_dequeue hI hm
      omega
    exact hI.commit m.addressee Set.sdiff_subset hcount hI.admitted
  | forward o id ho hid hnew ha =>
    refine ⟨?_, ?_, ?_, ha, hI.sent, hI.held⟩
    · rintro m (hm | rfl)
      · exact hI.ids m hm
      · exact hid
    · rw [Set.union_singleton, Set.injOn_insert fun hin => hnew _ hin rfl]
      exact ⟨hI.unique, fun ⟨m, hm, heq⟩ => hnew m hm heq⟩
    · rw [ncard_forward hI (m := ⟨o, id⟩) hnew]
      have hcount := hI.counted
      simp only
      omega
  | retarget m o hm ho hne =>
    refine ⟨?_, ?_, ?_, hI.admitted, hI.sent, hI.held⟩
    · rintro x (hx | rfl)
      · exact hI.ids x hx.1
      · exact hI.ids m hm
    · change Set.InjOn Ctl.id (s.pending \ {m} ∪ {⟨o, m.id⟩})
      have hnew : (⟨o, m.id⟩ : Ctl I) ∉ s.pending \ {m} := fun hin => hI.left hm hin rfl
      rw [Set.union_singleton, Set.injOn_insert hnew]
      exact ⟨hI.unique.mono Set.sdiff_subset, fun ⟨x, hx, heq⟩ => hI.left hm hx heq⟩
    · rw [ncard_retarget hI hm o]
      exact hI.counted
  | receive m hm hlt =>
    refine ⟨hI.ids, hI.unique, hI.counted, hI.admitted, fun x hx => hI.sent x hx.1, fun c => ?_⟩
    rcases eq_or_ne c m.dst with rfl | hne
    · simp only [Function.update_self]
      exact hI.sent m hm
    · simp only [Function.update_of_ne hne]
      exact hI.held c
  | lose m hm => exact ⟨hI.ids, hI.unique, hI.counted, hI.admitted, fun x hx => hI.sent x hx.1, hI.held⟩
  | sweep he =>
    refine ⟨hI.ids, hI.unique, hI.counted, hI.admitted, ?_, hI.held⟩
    rintro m (hm | hm)
    · exact hI.sent m hm
    · rw [show m.toVersion = s.committed from hm]
      exact (Nat.le_add_right _ _).trans (hI.counted.trans hI.admitted)
  | _ => exact ⟨hI.ids, hI.unique, hI.counted, hI.admitted, hI.sent, hI.held⟩

theorem controls {s : State I C} (h : (spec I C k).Reachable s) : Controls k s := by
  refine h.invariant (I := Controls k) ?_ fun s t hn hI => hI.step (next_cases (k := k) hn)
  rintro s rfl
  refine ⟨fun m hm => absurd hm (Set.notMem_empty m), Set.injOn_empty _, ?_, Nat.zero_le _,
    fun m hm => absurd hm (Set.notMem_empty m), fun _ => Nat.zero_le _⟩
  exact (congrArg (0 + ·) (Set.ncard_empty (Ctl I))).le

/-! ## Safety -/

section Properties

omit [DecidableEq I] [DecidableEq C]

/-- `AtMostOneCurrentOwner`. -/
def AtMostOneCurrentOwner (s : State I C) : Prop :=
  {i | s.ownerView i = s.lease.epoch ∧ s.lease.epoch > 0}.encard ≤ 1

/-- `NoStaleFenceWrite`. -/
def NoStaleFenceWrite (σ : ℕ → State I C) : Prop :=
  ∀ n, (σ (n + 1)).committed ≠ (σ n).committed → (σ (n + 1)).committed.epoch = (σ (n + 1)).lease.epoch

/-- `CommitMonotone`. -/
def CommitMonotone (σ : ℕ → State I C) : Prop :=
  ∀ n, (σ (n + 1)).committed.epoch = (σ n).committed.epoch → (σ (n + 1)).committed.seq ≥ (σ n).committed.seq

/-- `ClientNoRegress`. -/
def ClientNoRegress (σ : ℕ → State I C) : Prop :=
  ∀ n c, ((σ (n + 1)).applied c).epoch > ((σ n).applied c).epoch ∨
    ((σ (n + 1)).applied c).epoch = ((σ n).applied c).epoch ∧ ((σ (n + 1)).applied c).seq ≥ ((σ n).applied c).seq

/-- `TypeOK`. -/
structure TypeOK (k : Constants) (s : State I C) : Prop where
  lease : s.lease.epoch ≤ k.MaxEpoch
  committed : s.committed.epoch ≤ k.MaxEpoch ∧ s.committed.seq ≤ k.MaxSeq
  admitted : s.admitted ≤ k.MaxSeq
  ownerView : ∀ i, s.ownerView i ≤ k.MaxEpoch
  applied : ∀ c, (s.applied c).epoch ≤ k.MaxEpoch ∧ (s.applied c).seq ≤ k.MaxSeq
  pending : ∀ m ∈ s.pending, m.id ∈ Set.Icc 1 k.MaxCtl
  network : ∀ m ∈ s.network, m.epoch ≤ k.MaxEpoch ∧ m.seq ≤ k.MaxSeq

end Properties

theorem typeOK {s : State I C} (h : (spec I C k).Reachable s) : TypeOK k s := by
  have hl := leases h
  have hv := ordered h
  have hc := controls h
  have hcommitted := hv.fenced.trans hl.bounded
  have hbelow : ∀ v : Version, v ≤ s.committed → v.epoch ≤ k.MaxEpoch := fun v hle =>
    ((Version.le_iff.mp hle).elim le_of_lt fun h => h.1.le).trans hcommitted
  exact ⟨hl.bounded, ⟨hcommitted, (Nat.le_add_right _ _).trans (hc.counted.trans hc.admitted)⟩, hc.admitted,
    fun i => (hl.views i).trans hl.bounded, fun c => ⟨hbelow _ (hv.held c), hc.held c⟩, hc.ids,
    fun m hm => ⟨hbelow _ (hv.sent m hm), hc.sent m hm⟩⟩

/-- Every commit is under the lease and newer than all before it; a step that does not commit leaves what is committed. -/
theorem Step.committed {s t : State I C} (h : Step k s t) (hv : Ordered s) :
    t.committed = s.committed ∨ t.committed.epoch = t.lease.epoch ∧ s.committed < t.committed := by
  cases h with
  | commit i ho ha => exact Or.inr ⟨ho.1, hv.lt_next ho⟩
  | dequeue m hm ho => exact Or.inr ⟨ho.1, hv.lt_next ho⟩
  | _ => exact Or.inl rfl

/-- What a client applies changes by what is newer. -/
theorem Step.applied {s t : State I C} (h : Step k s t) (c : C) :
    t.applied c = s.applied c ∨
    ∃ m ∈ inFlight c s, m ∉ inFlight c t ∧ s.applied c < m.toVersion ∧ t.applied c = m.toVersion := by
  cases h with
  | receive m hm hlt =>
    rcases eq_or_ne c m.dst with rfl | hne
    · exact Or.inr ⟨m, ⟨hm, rfl⟩, fun hin => hin.1.2 rfl, hlt, Function.update_self _ _ _⟩
    · exact Or.inl (Function.update_of_ne hne _ _)
  | _ => exact Or.inl rfl

/-- A step commits a control that was admitted with it, or one that waited; admits one that waits; or does neither. -/
theorem Step.conserves {s t : State I C} (h : Step k s t) (hv : Ordered s) (hc : Controls k s) :
    t.committed = s.committed ∧ t.pending.ncard + s.admitted = s.pending.ncard + t.admitted ∨
    t.committed ≠ s.committed ∧ t.pending.ncard + s.admitted + 1 = s.pending.ncard + t.admitted := by
  cases h with
  | commit i ho ha => exact Or.inr ⟨(hv.lt_next ho).ne', rfl⟩
  | dequeue m hm ho =>
    refine Or.inr ⟨(hv.lt_next ho).ne', ?_⟩
    have hleft := ncard_dequeue hc hm
    change (s.pending \ {m}).ncard + s.admitted + 1 = s.pending.ncard + s.admitted
    omega
  | forward o id ho hid hnew ha =>
    refine Or.inl ⟨rfl, ?_⟩
    have hmore := ncard_forward hc (m := ⟨o, id⟩) hnew
    change (s.pending ∪ {⟨o, id⟩}).ncard + s.admitted = s.pending.ncard + (s.admitted + 1)
    omega
  | retarget m o hm ho hne => exact Or.inl ⟨rfl, congrArg (· + s.admitted) (ncard_retarget hc hm o)⟩
  | _ => exact Or.inl ⟨rfl, rfl⟩

section Runs

variable {σ : ℕ → State I C}

/-- What a step does to what is committed. -/
theorem committed_next (h : Temporal.Behaviour (spec I C k) σ) (n : ℕ) :
    (σ (n + 1)).committed = (σ n).committed ∨
    (σ (n + 1)).committed.epoch = (σ (n + 1)).lease.epoch ∧ (σ n).committed < (σ (n + 1)).committed := by
  rcases h.next n with hn | hn
  · exact (next_cases (k := k) hn).committed (ordered (h.reachable n))
  · rw [hn]
    exact Or.inl rfl

theorem commitMonotone (h : Temporal.Behaviour (spec I C k) σ) : CommitMonotone σ := by
  intro n he
  rcases committed_next h n with heq | ⟨-, hlt⟩
  · rw [heq]
  · rcases Version.lt_iff.mp hlt with hlt | ⟨-, hlt⟩
    · omega
    · exact hlt.le

theorem clientNoRegress (h : Temporal.Behaviour (spec I C k) σ) : ClientNoRegress σ := by
  intro n c
  rcases h.next n with hn | hn
  · rcases (next_cases (k := k) hn).applied c with heq | ⟨m, -, -, hlt, heq⟩
    · rw [heq]
      exact Or.inr ⟨rfl, le_rfl⟩
    · rw [heq]
      exact (Version.lt_iff.mp hlt).imp id fun h => ⟨h.1.symm, h.2.le⟩
  · rw [hn]
    exact Or.inr ⟨rfl, le_rfl⟩

/-- Every control that was admitted waits or was committed, once. -/
theorem conserved (h : Temporal.Behaviour (spec I C k) σ) (n : ℕ) :
    Nat.count (fun m => (σ (m + 1)).committed ≠ (σ m).committed) n + (σ n).pending.ncard = (σ n).admitted := by
  induction n with
  | zero =>
    have hinit : σ 0 = initial := h.init
    rw [hinit]
    exact (congrArg (0 + ·) (Set.ncard_empty (Ctl I)))
  | succ n ih =>
    rw [Nat.count_succ]
    rcases h.next n with hn | hn
    · rcases (next_cases (k := k) hn).conserves (ordered (h.reachable n)) (controls (h.reachable n)) with
        ⟨heq, hcount⟩ | ⟨hne, hcount⟩
      · rw [if_neg (not_not.mpr heq)]
        omega
      · rw [if_pos hne]
        omega
    · rw [hn, if_neg (not_not.mpr rfl)]
      omega

end Runs

/-- **One owner, and nothing lost.** In every run at most one instance holds the current fence, nothing is committed under
any other, neither what is committed nor what a client holds goes back, and of the controls that were admitted every one
was committed once or waits. -/
theorem actor_safe (k : Constants) {σ : ℕ → State I C} (h : Temporal.Behaviour (spec I C k) σ) :
    (∀ n, TypeOK k (σ n)) ∧ (∀ n, AtMostOneCurrentOwner (σ n)) ∧ NoStaleFenceWrite σ ∧ CommitMonotone σ ∧
    ClientNoRegress σ ∧
    ∀ n, Nat.count (fun m => (σ (m + 1)).committed ≠ (σ m).committed) n + (σ n).pending.ncard = (σ n).admitted := by
  refine ⟨fun n => typeOK (h.reachable n), fun n => ?_, fun n hne => ?_, commitMonotone h, clientNoRegress h,
    conserved h⟩
  · refine Set.encard_le_one_iff.mpr fun i j hi hj => ?_
    have hfence := (leases (h.reachable n)).fence
    exact Option.some.inj ((hfence i hi.1 hi.2).symm.trans (hfence j hj.1 hj.2))
  · exact ((committed_next h n).resolve_left hne).1

/-- Two instances and two clients. -/
def shipped : Constants := ⟨3, 2, 2⟩

/-- An instance claimed the room, and another forwarded it a control. -/
def forwarded : State (Fin 2) (Fin 2) :=
  { initial.claimed 0 with pending := (initial : State (Fin 2) (Fin 2)).pending ∪ {⟨0, 1⟩}, admitted := 1 }

theorem forwarded_reachable : (spec (Fin 2) (Fin 2) shipped).Reachable forwarded := by
  have hclaim : Next shipped (initial : State (Fin 2) (Fin 2)) (initial.claimed 0) :=
    Or.inl ⟨0, Or.inl ⟨Set.notMem_empty _, Or.inl rfl, by decide, rfl⟩⟩
  have hforward : Next shipped (initial.claimed 0 : State (Fin 2) (Fin 2)) forwarded := by
    refine Or.inl ⟨1, Or.inr (Or.inr (Or.inr (Or.inr (Or.inl ⟨Set.notMem_empty _, by decide, 0, rfl, by decide, 1,
      ⟨le_rfl, by decide⟩, fun m hm => absurd hm (Set.notMem_empty m), Or.inl ⟨Set.notMem_empty _, rfl⟩⟩))))⟩
  exact ⟨initial, rfl, (Relation.ReflTransGen.single hclaim).tail hforward⟩

theorem actor_safe_forwarded : ∃ σ : ℕ → State (Fin 2) (Fin 2), (∃ n, σ n = forwarded) ∧ NoStaleFenceWrite σ := by
  obtain ⟨σ, N, hσ, hN⟩ := Temporal.exists_behaviour (p := spec (Fin 2) (Fin 2) shipped) rfl
    (show Relation.ReflTransGen (Next shipped) initial forwarded by
      obtain ⟨s, rfl, h⟩ := forwarded_reachable
      exact h)
  exact ⟨σ, ⟨N, hN N le_rfl⟩, (actor_safe shipped hσ).2.2.1⟩

end SyncActor
end WatchParty
