import Mathlib.Data.Prod.Lex
import Mathlib.Data.Set.Finite.Basic
import Mathlib.Logic.Function.Basic
import WatchParty.Lib.Fairness

/-!
# The specification of state distribution

`formal/SyncTimeline.tla`: one store that commits timelines and loses them, a fan-out that drops and reorders, and
clients that apply what they receive by one of three rules. Media positions and real time are left out of the
specification; the clients and the bounds are its parameters.

- `Version`, ordered epoch first, and `Msg`, an in-flight broadcast;
- `Next`, an action for each of the specification, and `Fairness`;
- `Next.cases`: what a step does to the store, to the broadcasts in flight and to the clients.
-/

namespace WatchParty
namespace SyncTimeline

/-- `[epoch, seq]`. -/
@[ext] structure Version where
  epoch : ℕ
  seq : ℕ
  deriving DecidableEq, Repr

/-- Versions compare epoch first, then by `seq`. -/
def Version.key (v : Version) : ℕ ×ₗ ℕ := toLex (v.epoch, v.seq)

theorem Version.key_injective : Function.Injective Version.key := fun _ _ h =>
  Version.ext (congrArg (fun k => (ofLex k).1) h) (congrArg (fun k => (ofLex k).2) h)

instance : LinearOrder Version := LinearOrder.lift' Version.key Version.key_injective

theorem Version.lt_iff {a b : Version} : a < b ↔ a.epoch < b.epoch ∨ a.epoch = b.epoch ∧ a.seq < b.seq :=
  Prod.Lex.lt_iff

theorem Version.le_iff {a b : Version} : a ≤ b ↔ a.epoch < b.epoch ∨ a.epoch = b.epoch ∧ a.seq ≤ b.seq :=
  Prod.Lex.le_iff

/-- `[dst, epoch, seq]`. -/
@[ext] structure Msg (C : Type) extends Version where
  dst : C

/-- `{ [dst |-> c, epoch |-> v.epoch, seq |-> v.seq] : c \in Clients }`. -/
def fan {C : Type} (v : Version) : Set (Msg C) := {m | m.toVersion = v}

/-- `ClientRule`. -/
inductive ClientRule
  | naive | deadepochs | ordered
  deriving DecidableEq, Repr

/-- `CONSTANTS` other than the clients, which are a type. -/
structure Constants where
  MaxSeq : ℕ
  MaxEpoch : ℕ
  ClientRule : ClientRule

/-- `VARIABLES`. -/
@[ext] structure State (C : Type) where
  storeEpoch : ℕ
  storeSeq : ℕ
  network : Set (Msg C)
  applied : C → Version
  deadEpochs : C → Set ℕ

def NoTimeline : Version := ⟨0, 0⟩

variable {C : Type}

/-- The version that is committed. -/
def State.store (s : State C) : Version := ⟨s.storeEpoch, s.storeSeq⟩

def Init (s : State C) : Prop :=
  s = { storeEpoch := 1, storeSeq := 0, network := ∅, applied := fun _ => NoTimeline, deadEpochs := fun _ => ∅ }

/-- An instance commits a mutation. -/
def Commit (k : Constants) (s t : State C) : Prop :=
  s.storeSeq < k.MaxSeq ∧
  t = { s with storeSeq := s.storeSeq + 1, network := s.network ∪ fan ⟨s.storeEpoch, s.storeSeq + 1⟩ }

/-- Store loss and rehydration under a fresh epoch. -/
def Flush (k : Constants) (s t : State C) : Prop :=
  s.storeEpoch < k.MaxEpoch ∧
  t = { s with storeEpoch := s.storeEpoch + 1, storeSeq := 1, network := s.network ∪ fan ⟨s.storeEpoch + 1, 1⟩ }

def AcceptNaive (applied v : Version) : Prop := v.epoch = applied.epoch ∧ v.seq > applied.seq ∨ v.epoch ≠ applied.epoch

def AcceptDead (dead : Set ℕ) (applied v : Version) : Prop := v.epoch ∉ dead ∧ AcceptNaive applied v

def AcceptOrdered (applied v : Version) : Prop :=
  v.epoch > applied.epoch ∨ v.epoch = applied.epoch ∧ v.seq > applied.seq

/-- The rule by which the destination of a message accepts it. -/
def Accept (rule : ClientRule) (s : State C) (m : Msg C) : Prop :=
  match rule with
  | .naive => AcceptNaive (s.applied m.dst) m.toVersion
  | .deadepochs => AcceptDead (s.deadEpochs m.dst) (s.applied m.dst) m.toVersion
  | .ordered => AcceptOrdered (s.applied m.dst) m.toVersion

variable [DecidableEq C]

/-- The epochs that are dead to a client after a message, where the rule keeps them. -/
def buried (rule : ClientRule) (s : State C) (m : Msg C) : C → Set ℕ :=
  if rule = .deadepochs ∧ m.epoch ≠ (s.applied m.dst).epoch then
    Function.update s.deadEpochs m.dst (s.deadEpochs m.dst ∪ {(s.applied m.dst).epoch})
  else s.deadEpochs

/-- Any message in flight may arrive; the rule decides whether it is applied. -/
def Deliver (k : Constants) (m : Msg C) (s t : State C) : Prop :=
  m ∈ s.network ∧
  (Accept k.ClientRule s m ∧
      t = { s with network := s.network \ {m}, applied := Function.update s.applied m.dst m.toVersion,
                   deadEpochs := buried k.ClientRule s m } ∨
   ¬Accept k.ClientRule s m ∧ t = { s with network := s.network \ {m} })

omit [DecidableEq C] in
/-- Pub/sub loss. -/
def Drop (m : Msg C) (s t : State C) : Prop := m ∈ s.network ∧ t = { s with network := s.network \ {m} }

omit [DecidableEq C] in
/-- The snapshot sweep re-broadcasts the committed state. -/
def Sweep (s t : State C) : Prop := t = { s with network := s.network ∪ fan s.store }

def Next (k : Constants) (s t : State C) : Prop :=
  Commit k s t ∨ Flush k s t ∨ (∃ m, Deliver k m s t) ∨ (∃ m, Drop m s t) ∨ Sweep s t

/-- `Init ∧ □[Next]_vars`. -/
def spec (C : Type) [DecidableEq C] (k : Constants) : Temporal.Spec (State C) := ⟨Init, Next k⟩

/-- `\E m \in network : m.dst = c /\ Deliver(m)`. -/
def DeliverTo (k : Constants) (c : C) (s t : State C) : Prop := ∃ m, m.dst = c ∧ Deliver k m s t

/-- Sweeps are weakly fair, deliveries to each client strongly. -/
def Fairness (k : Constants) (σ : ℕ → State C) : Prop :=
  Temporal.WF Sweep σ ∧ ∀ c, Temporal.SF (DeliverTo k c) σ

/-- `Spec`. -/
def Spec (k : Constants) (σ : ℕ → State C) : Prop := Temporal.Behaviour (spec C k) σ ∧ Fairness k σ

/-! ## What a step can do -/

/-- The ways a step can go: the store is broadcast, after it grew or as it stands, or a message leaves the network, and
is applied or not. -/
inductive Step (k : Constants) (s : State C) : State C → Prop
  | emit (v : Version) (hle : s.store ≤ v)
      (hv : v = s.store ∨ s.storeSeq < k.MaxSeq ∧ v = ⟨s.storeEpoch, s.storeSeq + 1⟩ ∨
        s.storeEpoch < k.MaxEpoch ∧ v = ⟨s.storeEpoch + 1, 1⟩) :
      Step k s { s with storeEpoch := v.epoch, storeSeq := v.seq, network := s.network ∪ fan v }
  | apply (m : Msg C) (hm : m ∈ s.network) (ha : Accept k.ClientRule s m) :
      Step k s { s with network := s.network \ {m}, applied := Function.update s.applied m.dst m.toVersion,
                        deadEpochs := buried k.ClientRule s m }
  | lose (m : Msg C) (hm : m ∈ s.network) : Step k s { s with network := s.network \ {m} }

theorem next_cases {k : Constants} {s t : State C} (h : Next k s t) : Step k s t := by
  rcases h with ⟨hlt, rfl⟩ | ⟨hlt, rfl⟩ | ⟨m, hm, ⟨ha, rfl⟩ | ⟨-, rfl⟩⟩ | ⟨m, hm, rfl⟩ | rfl
  · exact .emit ⟨s.storeEpoch, s.storeSeq + 1⟩ (Version.le_iff.mpr (Or.inr ⟨rfl, Nat.le_succ _⟩))
      (Or.inr (Or.inl ⟨hlt, rfl⟩))
  · exact .emit ⟨s.storeEpoch + 1, 1⟩ (Version.le_iff.mpr (Or.inl (Nat.lt_succ_self _))) (Or.inr (Or.inr ⟨hlt, rfl⟩))
  · exact .apply m hm ha
  · exact .lose m hm
  · exact .lose m hm
  · exact .emit s.store le_rfl (Or.inl rfl)

/-- The rank of what is left of the bounds. -/
def left (k : Constants) (s : State C) : ℕ ×ₗ ℕ := toLex (k.MaxEpoch - s.storeEpoch, k.MaxSeq - s.storeSeq)

/-- A step changes the store only at the expense of what is left of the bounds. -/
theorem Step.left {k : Constants} {s t : State C} (h : Step k s t) :
    t.store = s.store ∨ left k t < left k s := by
  cases h with
  | emit v hle hv =>
    rcases hv with rfl | ⟨hlt, rfl⟩ | ⟨hlt, rfl⟩
    · exact Or.inl rfl
    · exact Or.inr (Prod.Lex.lt_iff.mpr (Or.inr ⟨rfl, Nat.sub_succ_lt_self _ _ hlt⟩))
    · exact Or.inr (Prod.Lex.lt_iff.mpr (Or.inl (Nat.sub_succ_lt_self _ _ hlt)))
  | _ => exact Or.inl rfl

/-! ## What every behaviour keeps -/

omit [DecidableEq C] in
/-- What is in flight for a client. -/
def inFlight (c : C) (s : State C) : Set (Msg C) := {m | m ∈ s.network ∧ m.dst = c}

omit [DecidableEq C] in
theorem inFlight_fan (c : C) (v : Version) : {m : Msg C | m ∈ fan v ∧ m.dst = c} = {⟨v, c⟩} := by
  ext m
  constructor
  · rintro ⟨hv, hd⟩
    obtain ⟨u, d⟩ := m
    simp only [fan, Set.mem_ofPred_eq] at hv hd
    rw [hv, hd]
    rfl
  · rintro rfl
    exact ⟨rfl, rfl⟩

omit [DecidableEq C] in
/-- The store and nothing newer is in flight or applied, and finitely much is in flight for a client. -/
structure Sound (s : State C) : Prop where
  pos : 1 ≤ s.storeEpoch
  sent : ∀ m ∈ s.network, 1 ≤ m.epoch ∧ m.toVersion ≤ s.store
  held : ∀ c, s.applied c ≤ s.store
  finite : ∀ c, (inFlight c s).Finite

omit [DecidableEq C] in
theorem sound_init {s : State C} (h : Init s) : Sound s := by
  subst h
  refine ⟨le_rfl, fun m hm => absurd hm (Set.notMem_empty m), fun c => ?_, fun c => ?_⟩
  · exact Version.le_iff.mpr (Or.inl Nat.one_pos)
  · exact Set.finite_empty.subset fun m hm => hm.1

omit [DecidableEq C] in
theorem Sound.inFlight_sdiff {s : State C} (h : Sound s) (m : Msg C) (c : C) :
    {x | x ∈ s.network \ {m} ∧ x.dst = c}.Finite := (h.finite c).subset fun _ hx => ⟨hx.1.1, hx.2⟩

theorem Sound.step {k : Constants} {s t : State C} (h : Step k s t) (hI : Sound s) : Sound t := by
  cases h with
  | emit v hle hv =>
    refine ⟨?_, ?_, fun c => (hI.held c).trans hle, fun c => ?_⟩
    · exact hI.pos.trans ((Version.le_iff.mp hle).elim le_of_lt fun h => h.1.le)
    · rintro m (hm | hm)
      · exact ⟨(hI.sent m hm).1, (hI.sent m hm).2.trans hle⟩
      · rw [show m.toVersion = v from hm]
        exact ⟨hI.pos.trans ((Version.le_iff.mp hle).elim le_of_lt fun h => h.1.le), le_rfl⟩
    · refine ((hI.finite c).union (Set.finite_singleton (⟨v, c⟩ : Msg C))).subset ?_
      rw [← inFlight_fan]
      rintro m ⟨hm | hm, hd⟩
      · exact Or.inl ⟨hm, hd⟩
      · exact Or.inr ⟨hm, hd⟩
  | apply m hm ha =>
    refine ⟨hI.pos, fun x hx => hI.sent x hx.1, fun c => ?_, hI.inFlight_sdiff m⟩
    rcases eq_or_ne c m.dst with rfl | hne
    · simp only [Function.update_self]
      exact (hI.sent m hm).2
    · simp only [Function.update_of_ne hne]
      exact hI.held c
  | lose m hm => exact ⟨hI.pos, fun x hx => hI.sent x hx.1, hI.held, hI.inFlight_sdiff m⟩

theorem sound {k : Constants} {s : State C} (h : (spec C k).Reachable s) : Sound s :=
  h.invariant (fun _ => sound_init) fun _ _ hn hI => hI.step (next_cases (k := k) hn)

/-- Without a second epoch the store stays in the first. -/
theorem storeEpoch_one {k : Constants} (he : k.MaxEpoch < 2) {s : State C} (h : (spec C k).Reachable s) :
    s.storeEpoch = 1 := by
  refine h.invariant (I := fun s => s.storeEpoch = 1) (fun s hs => by rw [hs]) fun s t hn hone => ?_
  cases next_cases (k := k) hn with
  | emit v hle hv =>
    rcases hv with rfl | ⟨-, rfl⟩ | ⟨hlt, -⟩
    · exact hone
    · exact hone
    · omega
  | _ => exact hone

/-! ## Safety -/

omit [DecidableEq C] in
/-- `TypeOK`. -/
def TypeOK (k : Constants) (s : State C) : Prop :=
  s.storeEpoch ∈ Set.Icc 1 k.MaxEpoch ∧ s.storeSeq ∈ Set.Icc 0 k.MaxSeq ∧
  ∀ c, (s.applied c).epoch ∈ Set.Icc 0 k.MaxEpoch ∧ (s.applied c).seq ∈ Set.Icc 0 k.MaxSeq

omit [DecidableEq C] in
/-- `NoSeqRegression`. -/
def NoSeqRegression (σ : ℕ → State C) : Prop :=
  ∀ n c, ((σ (n + 1)).applied c).epoch = ((σ n).applied c).epoch →
    ((σ (n + 1)).applied c).seq ≥ ((σ n).applied c).seq

omit [DecidableEq C] in
/-- `NoEpochRegression`. -/
def NoEpochRegression (σ : ℕ → State C) : Prop :=
  ∀ n c, ((σ n).applied c).epoch = (σ n).storeEpoch → ((σ (n + 1)).applied c).epoch ≥ ((σ n).applied c).epoch

omit [DecidableEq C] in
/-- The sequence numbers that the bounds allow. -/
structure Bounded (k : Constants) (s : State C) : Prop where
  epoch : s.storeEpoch ≤ k.MaxEpoch
  seq : s.storeSeq ≤ k.MaxSeq
  sent : ∀ m ∈ s.network, m.seq ≤ k.MaxSeq
  held : ∀ c, (s.applied c).seq ≤ k.MaxSeq

theorem Bounded.step {k : Constants} (hseq : 1 ≤ k.MaxSeq) {s t : State C} (h : Step k s t) (hI : Bounded k s) :
    Bounded k t := by
  cases h with
  | emit v hle hv =>
    have hv' : v.epoch ≤ k.MaxEpoch ∧ v.seq ≤ k.MaxSeq := by
      rcases hv with rfl | ⟨hlt, rfl⟩ | ⟨hlt, rfl⟩
      · exact ⟨hI.epoch, hI.seq⟩
      · exact ⟨hI.epoch, hlt⟩
      · exact ⟨hlt, hseq⟩
    refine ⟨hv'.1, hv'.2, ?_, hI.held⟩
    rintro m (hm | hm)
    · exact hI.sent m hm
    · rw [show m.toVersion = v from hm]
      exact hv'.2
  | apply m hm ha =>
    refine ⟨hI.epoch, hI.seq, fun x hx => hI.sent x hx.1, fun c => ?_⟩
    rcases eq_or_ne c m.dst with rfl | hne
    · simp only [Function.update_self]
      exact hI.sent m hm
    · simp only [Function.update_of_ne hne]
      exact hI.held c
  | lose m hm => exact ⟨hI.epoch, hI.seq, fun x hx => hI.sent x hx.1, hI.held⟩

/-- Type sanity, of every rule. -/
theorem typeOK {k : Constants} (hseq : 1 ≤ k.MaxSeq) (hepoch : 1 ≤ k.MaxEpoch) {s : State C}
    (h : (spec C k).Reachable s) : TypeOK k s := by
  have hb : Bounded k s := by
    refine h.invariant (I := Bounded k) ?_ fun _ _ hn => Bounded.step hseq (next_cases hn)
    rintro s rfl
    exact ⟨hepoch, Nat.zero_le _, fun m hm => absurd hm (Set.notMem_empty m), fun _ => Nat.zero_le _⟩
  have hs := sound h
  refine ⟨⟨hs.pos, hb.epoch⟩, ⟨Nat.zero_le _, hb.seq⟩, fun c => ⟨⟨Nat.zero_le _, ?_⟩, Nat.zero_le _, hb.held c⟩⟩
  exact ((Version.le_iff.mp (hs.held c)).elim le_of_lt fun h => h.1.le).trans hb.epoch

/-- What a client applies changes by what its rule accepts. -/
theorem Step.applied {k : Constants} {s t : State C} (h : Step k s t) (c : C) :
    t.applied c = s.applied c ∨
    ∃ m ∈ s.network, m.dst = c ∧ m ∉ t.network ∧ Accept k.ClientRule s m ∧ t.applied c = m.toVersion := by
  cases h with
  | apply m hm ha =>
    rcases eq_or_ne c m.dst with rfl | hne
    · exact Or.inr ⟨m, hm, rfl, fun hin => hin.2 rfl, ha, Function.update_self _ _ _⟩
    · exact Or.inl (Function.update_of_ne hne _ _)
  | _ => exact Or.inl rfl

omit [DecidableEq C] in
/-- No rule goes back within an epoch. -/
theorem Accept.seq {rule : ClientRule} {s : State C} {m : Msg C} (h : Accept rule s m)
    (he : m.epoch = (s.applied m.dst).epoch) : m.seq > (s.applied m.dst).seq := by
  cases rule with
  | naive => exact (h.resolve_right fun hne => hne he).2
  | deadepochs => exact (h.2.resolve_right fun hne => hne he).2
  | ordered => exact (h.resolve_left fun hlt => absurd he hlt.ne').2

/-- No sequence regression, of every rule. -/
theorem noSeqRegression {k : Constants} {σ : ℕ → State C} (h : Temporal.Behaviour (spec C k) σ) :
    NoSeqRegression σ := by
  intro n c
  refine h.invariant_step (I := fun _ => True)
    (A := fun s t => (t.applied c).epoch = (s.applied c).epoch → (t.applied c).seq ≥ (s.applied c).seq)
    (fun _ _ => trivial) (fun _ _ _ _ => trivial) (fun s t _ hn => ?_) (fun _ _ => le_rfl) n
  rcases (next_cases hn).applied c with he | ⟨m, hm, rfl, -, ha, he⟩
  · rw [he]
    exact fun _ => le_rfl
  · rw [he]
    exact fun hep => (ha.seq hep).le

/-- Under the ordered rule no client goes back at all. -/
theorem ordered_mono {k : Constants} (hk : k.ClientRule = .ordered) {σ : ℕ → State C}
    (h : Temporal.Behaviour (spec C k) σ) (n : ℕ) (c : C) : (σ n).applied c ≤ (σ (n + 1)).applied c := by
  refine h.invariant_step (I := fun _ => True) (A := fun s t => s.applied c ≤ t.applied c) (fun _ _ => trivial)
    (fun _ _ _ _ => trivial) (fun s t _ hn => ?_) (fun _ => le_rfl) n
  rcases (next_cases hn).applied c with he | ⟨m, hm, rfl, -, ha, he⟩
  · rw [he]
  · rw [he]
    rw [hk] at ha
    exact (Version.lt_iff.mpr (ha.imp id fun h => ⟨h.1.symm, h.2⟩)).le

/-! ## What a rule without an order lets through -/

omit [DecidableEq C] in
/-- The store was broadcast, lost and rehydrated, and nothing has arrived. -/
def flushed : State C :=
  ⟨2, 1, ∅ ∪ fan ⟨1, 0⟩ ∪ fan ⟨2, 1⟩, fun _ => NoTimeline, fun _ => ∅⟩

/-- A client was told of the new epoch. -/
def told (k : Constants) (c : C) : State C :=
  let s : State C := flushed
  { s with network := s.network \ {⟨⟨2, 1⟩, c⟩}, applied := Function.update s.applied c ⟨2, 1⟩,
           deadEpochs := buried k.ClientRule s ⟨⟨2, 1⟩, c⟩ }

/-- After it, of the old one. -/
def dragged (k : Constants) (c : C) : State C :=
  let s : State C := told k c
  { s with network := s.network \ {⟨⟨1, 0⟩, c⟩}, applied := Function.update s.applied c ⟨1, 0⟩,
           deadEpochs := buried k.ClientRule s ⟨⟨1, 0⟩, c⟩ }

theorem told_applied (k : Constants) (c : C) : (told k c).applied c = ⟨2, 1⟩ := Function.update_self _ _ _

theorem flushed_reachable {k : Constants} (he : 2 ≤ k.MaxEpoch) :
    (spec C k).Reachable (flushed : State C) := by
  have hswept : Next k (⟨1, 0, ∅, fun _ => NoTimeline, fun _ => ∅⟩ : State C)
      ⟨1, 0, ∅ ∪ fan ⟨1, 0⟩, fun _ => NoTimeline, fun _ => ∅⟩ := Or.inr (Or.inr (Or.inr (Or.inr rfl)))
  exact ⟨_, rfl, (Relation.ReflTransGen.single hswept).tail (Or.inr (Or.inl ⟨he, rfl⟩))⟩

/-- The new epoch is accepted under every rule. -/
theorem flushed_told (k : Constants) (c : C) : Next k flushed (told k c) := by
  refine Or.inr (Or.inr (Or.inl ⟨⟨⟨2, 1⟩, c⟩, Or.inr rfl, Or.inl ⟨?_, rfl⟩⟩))
  cases hr : k.ClientRule with
  | naive => exact Or.inr (Nat.succ_ne_zero 1)
  | deadepochs => exact ⟨Set.notMem_empty _, Or.inr (Nat.succ_ne_zero 1)⟩
  | ordered => exact Or.inl (Nat.succ_pos 1)

/-- The old epoch is accepted too, where epochs have no order: the client has not been there. -/
theorem told_dragged {k : Constants} (hk : k.ClientRule ≠ .ordered) (c : C) : Next k (told k c) (dragged k c) := by
  have hmem : (⟨⟨1, 0⟩, c⟩ : Msg C) ∈ (told k c).network :=
    ⟨Or.inl (Or.inr rfl), fun h => Nat.succ_ne_self 1 (congrArg (fun m : Msg C => m.epoch) h).symm⟩
  have hne : 1 ≠ ((told k c).applied c).epoch := by
    rw [told_applied]
    decide
  refine Or.inr (Or.inr (Or.inl ⟨_, hmem, Or.inl ⟨?_, rfl⟩⟩))
  cases hr : k.ClientRule with
  | naive => exact Or.inr hne
  | deadepochs =>
    refine ⟨?_, Or.inr hne⟩
    change 1 ∉ buried k.ClientRule flushed ⟨⟨2, 1⟩, c⟩ c
    rw [hr, buried, if_pos ⟨rfl, Nat.succ_ne_zero 1⟩, Function.update_self]
    rintro (h | h)
    · exact Set.notMem_empty _ h
    · exact Nat.succ_ne_zero 0 h
  | ordered => exact absurd hr hk

/-- A client that was dragged back holds the epoch that the store is in for dead, where it keeps dead epochs. -/
theorem dragged_dead {k : Constants} (hk : k.ClientRule = .deadepochs) (c : C) : 2 ∈ (dragged k c).deadEpochs c := by
  change 2 ∈ buried k.ClientRule (told k c) ⟨⟨1, 0⟩, c⟩ c
  have hne : 1 ≠ ((told k c).applied c).epoch := by
    rw [told_applied]
    decide
  rw [hk, buried, if_pos ⟨rfl, hne⟩, Function.update_self]
  exact Or.inr (congrArg Version.epoch (told_applied k c)).symm

/-- The fair actions: the sweep, and the deliveries to each client. -/
def fair (k : Constants) : Option C → Temporal.Action (State C)
  | none => Sweep
  | some c => DeliverTo k c

/-- Every step from a reachable state is in a fair behaviour, in which only sweeps and deliveries follow. -/
theorem exists_spec [Countable C] {k : Constants} {s t : State C} (h : (spec C k).Reachable s) (ht : Next k s t) :
    ∃ (σ : ℕ → State C) (N : ℕ), Spec k σ ∧ σ N = s ∧ σ (N + 1) = t ∧
      ∀ n, N < n → σ (n + 1) = σ n ∨ Sweep (σ n) (σ (n + 1)) ∨ ∃ c, DeliverTo k c (σ n) (σ (n + 1)) := by
  have hsub : ∀ i s t, fair (C := C) k i s t → (spec C k).Next s t := by
    rintro (_ | c) s t h
    · exact Or.inr (Or.inr (Or.inr (Or.inr h)))
    · obtain ⟨m, -, h⟩ := h
      exact Or.inr (Or.inr (Or.inl ⟨m, h⟩))
  obtain ⟨σ, N, hσ, hs, ht, hf, hmoves⟩ := Temporal.exists_fair hsub h (Or.inl ht)
  refine ⟨σ, N, ⟨hσ, (hf none).wf, fun c => hf (some c)⟩, hs, ht, fun n hn => ?_⟩
  rcases hmoves n hn with h | ⟨_ | c, h⟩
  · exact Or.inl h
  · exact Or.inr (Or.inl h)
  · exact Or.inr (Or.inr ⟨c, h⟩)

/-- **Which rule is safe.** Under every rule types hold and no client goes back within an epoch. That no client goes back
from the store's epoch holds of every fair behaviour under the ordered rule, and only where there is no client or no
second epoch under the other two. -/
theorem safe_iff [Countable C] (k : Constants) :
    (1 ≤ k.MaxSeq → 1 ≤ k.MaxEpoch → ∀ σ : ℕ → State C, Spec k σ → ∀ n, TypeOK k (σ n)) ∧
    (∀ σ : ℕ → State C, Spec k σ → NoSeqRegression σ) ∧
    ((∀ σ : ℕ → State C, Spec k σ → NoEpochRegression σ) ↔
      k.ClientRule = .ordered ∨ IsEmpty C ∨ k.MaxEpoch < 2) := by
  refine ⟨fun hseq hepoch σ h n => typeOK hseq hepoch (h.1.reachable n), fun σ h => noSeqRegression h.1, ?_, ?_⟩
  · intro hsafe
    by_contra hno
    push Not at hno
    obtain ⟨hk, hc, he⟩ := hno
    obtain ⟨c⟩ := hc
    have hreach : (spec C k).Reachable (told k c) := (flushed_reachable he).reach (.single (flushed_told k c))
    obtain ⟨σ, N, hσ, hs, ht, -⟩ := exists_spec hreach (told_dragged hk c)
    have hback := hsafe σ hσ N c (by rw [hs, told_applied]; rfl)
    rw [hs, ht, told_applied, show (dragged k c).applied c = ⟨1, 0⟩ from Function.update_self _ _ _] at hback
    exact absurd hback (by decide)
  · rintro (hk | hC | he) σ h n c hat
    · exact (Version.le_iff.mp (ordered_mono hk h.1 n c)).elim le_of_lt fun h => h.1.le
    · exact (hC.false c).elim
    · have hreach := h.1.reachable n
      rw [hat, storeEpoch_one he hreach]
      rcases h.1.next n with hn | hn
      · rcases (next_cases (k := k) hn).applied c with heq | ⟨m, hm, -, -, -, heq⟩
        · rw [heq, hat, storeEpoch_one he hreach]
        · rw [heq]
          exact ((sound hreach).sent m hm).1
      · rw [hn, hat, storeEpoch_one he hreach]

/-- The configuration of the ordered rule. -/
def shipped : Constants := ⟨3, 2, .ordered⟩

theorem safe_iff_shipped : 1 < shipped.MaxEpoch ∧
    ∀ σ : ℕ → State (Fin 2), Spec shipped σ → NoEpochRegression σ :=
  ⟨by decide, (safe_iff shipped).2.2.mpr (Or.inl rfl)⟩

end SyncTimeline
end WatchParty
