import Mathlib.Data.Countable.Basic
import Mathlib.Data.Countable.Defs
import WatchParty.Formal.SyncExactlyOnce

/-!
# When commands apply exactly once

The properties of `formal/SyncExactlyOnce.tla` and exactly the constants under which they hold, over every fair
behaviour with any commands, positions and bounds.

- `at_most_once_iff`: no command applies twice exactly where a record outlives every copy;
- `replay_iff`: the log rebuilds the store exactly where the sweep's snapshots are logged;
- `exactly_once_iff`: every issued command is applied once and acknowledged exactly where, besides, the retry window
  does not close.
-/

open Filter Relation

namespace WatchParty
namespace SyncExactlyOnce

variable {C P : Type} [DecidableEq C] [AddMonoidWithOne P] {k : Constants P}

/-! ## The properties -/

section Properties

omit [DecidableEq C]

/-- `TypeOK`. -/
structure TypeOK (k : Constants P) (s : State C P) : Prop where
  now : s.now ≤ k.MaxTime
  posOf : ∀ c, s.posOf c ∈ k.Positions ∪ {0}
  sends : ∀ c, s.sends c ≤ k.MaxSends
  chan : ∀ c, s.chan c ≤ k.MaxSends
  issuedAt : ∀ c, s.issuedAt c ≤ k.MaxTime
  evictAt : ∀ c, s.evictAt c ≤ k.MaxTime + k.Ttl
  applyCount : ∀ c, s.applyCount c ≤ k.MaxSends
  anchor : s.store.anchor ≤ k.MaxTime
  log : s.log.length ≤ s.store.seq

/-- `AtMostOnce`. -/
def AtMostOnce (s : State C P) : Prop := ∀ c, s.applyCount c ≤ 1

/-- `TransitionContract`. -/
def TransitionContract (s : State C P) : Prop := ContractHoldsFrom InitStore s.log

/-- `ReplayReconstructs`. -/
def ReplayReconstructs (s : State C P) : Prop := ReplayFrom InitStore s.log = s.store

/-- `AckedWasApplied`. -/
def AckedWasApplied (s : State C P) : Prop := ∀ c ∈ s.acked, s.applyCount c ≥ 1

/-- `EventuallyExactlyOnce`. -/
def EventuallyExactlyOnce (σ : ℕ → State C P) : Prop :=
  ∀ c, Temporal.LeadsTo (fun s => s.intentOf c ≠ none) (fun s => s.applyCount c = 1 ∧ c ∈ s.acked) σ

end Properties

/-! ## Runs -/

theorem next_dup {c : C} {s t : State C P} (h : NetworkDup k c s t) : Next k s t :=
  Or.inr (Or.inr ⟨c, Or.inr (Or.inr (Or.inl h))⟩)

theorem next_deliver {c : C} {s t : State C P} (h : Deliver k c s t) : Next k s t :=
  Or.inr (Or.inr ⟨c, Or.inr (Or.inr (Or.inr (Or.inl h)))⟩)

theorem next_ack {c : C} {s t : State C P} (h : Ack c s t) : Next k s t :=
  Or.inr (Or.inr ⟨c, Or.inr (Or.inr (Or.inr (Or.inr (Or.inl h))))⟩)

theorem next_evict {c : C} {s t : State C P} (h : Evict c s t) : Next k s t :=
  Or.inr (Or.inr ⟨c, Or.inr (Or.inr (Or.inr (Or.inr (Or.inr h))))⟩)

/-- The fair actions: the delivery and the acknowledgement of each command. -/
def fair (k : Constants P) : C ⊕ C → Temporal.Action (State C P)
  | .inl c => Deliver k c
  | .inr c => Ack c

/-- Every reachable state is in a fair behaviour, in which only deliveries and acknowledgements follow. -/
theorem exists_spec [Countable C] {s : State C P} (h : (spec C k).Reachable s) :
    ∃ (σ : ℕ → State C P) (N : ℕ), Spec k σ ∧ σ N = s ∧
      ∀ n, N ≤ n → σ (n + 1) = σ n ∨ ∃ c, Deliver k c (σ n) (σ (n + 1)) ∨ Ack c (σ n) (σ (n + 1)) := by
  have hsub : ∀ i s t, fair (C := C) k i s t → (spec C k).Next s t := by
    rintro (c | c) s t h
    · exact next_deliver h
    · exact next_ack h
  obtain ⟨σ, N, hσ, hs, ht, hf, hmoves⟩ := Temporal.exists_fair hsub h (Or.inr rfl)
  refine ⟨σ, N, ⟨hσ, fun c => ⟨(hf (.inl c)).wf, (hf (.inr c)).wf⟩⟩, hs, fun n hn => ?_⟩
  rcases Nat.eq_or_lt_of_le hn with rfl | hlt
  · exact Or.inl (ht.trans hs.symm)
  · rcases hmoves n hlt with h | ⟨c | c, h⟩
    · exact Or.inl h
    · exact Or.inr ⟨c, Or.inl h⟩
    · exact Or.inr ⟨c, Or.inr h⟩

/-- Time can pass up to its bound. -/
theorem ticks (s : State C P) {d : ℕ} (hd : s.now + d ≤ k.MaxTime) :
    ReflTransGen (Next k) s { s with now := s.now + d } := by
  induction d with
  | zero => exact .refl
  | succ d ih => exact (ih (by omega)).tail (Or.inl ⟨by simp only; omega, rfl⟩)

/-- One copy of a command is on its way. -/
theorem issue_reachable {c : C} {p : P} (hp : p ∈ k.Positions) (hs : 1 ≤ k.MaxSends) :
    (spec C k).Reachable (initial.issued c .play p) :=
  ⟨initial, rfl, .single (Or.inr (Or.inr ⟨c, Or.inl ⟨rfl, hs, .play, p, hp, rfl⟩⟩))⟩

/-- What holds in every fair behaviour holds in every reachable state. -/
theorem spec_iff [Countable C] {I : State C P → Prop} :
    (∀ σ : ℕ → State C P, Spec k σ → ∀ n, I (σ n)) ↔ ∀ s, (spec C k).Reachable s → I s := by
  refine ⟨fun h s hs => ?_, fun h σ hσ n => h _ (hσ.1.reachable n)⟩
  obtain ⟨σ, N, hσ, hN, -⟩ := exists_spec hs
  rw [← hN]
  exact h σ hσ N

/-! ## At most once -/

/-- A record outlives every copy of its command, or there is but one. -/
def Guarded (k : Constants P) : Prop :=
  k.MaxSends ≤ 1 ∨ k.DedupOn = true ∧ (k.RetryWindow < k.Ttl ∨ k.MaxTime < k.Ttl)

/-- A command whose record has expired is out of its window. -/
theorem Cmd.Kept.once {v w : Cmd P} (hI : v.Kept k) (hd : k.DedupOn = true)
    (ht : k.RetryWindow < k.Ttl ∨ k.MaxTime < k.Ttl) (h : Cmd.Step k v w) (hv : v.applyCount ≤ 1) :
    w.applyCount ≤ 1 := by
  cases h with
  | apply hc hw hno =>
    have hnot : ¬v.remembered := fun hr => hno ⟨hd, hr⟩
    have hfirst : ¬v.applyCount ≥ 1 := by
      intro hone
      have hexpired := (hI.forgotten hone).resolve_left hnot
      have hlives := hI.outlives hone
      have hclock := hI.clock
      omega
    simp only
    omega
  | _ => exact hv

theorem once (hk : Guarded k) {s : State C P} (h : (spec C k).Reachable s) : AtMostOnce s := by
  rcases hk with hs | ⟨hd, ht⟩
  · intro c
    have hcopies := (kept h c).copies
    have hbound := (kept h c).bounded
    simp only [State.view] at hcopies hbound
    omega
  · refine h.invariant_from (I := AtMostOnce) ?_ fun s t hs hn hI c => ?_
    · rintro s rfl c
      exact Nat.zero_le 1
    · exact (kept hs c).once hd ht (view_step hn c) (hI c)

/-- Two copies of a command are on their way. -/
def copied (c : C) (p : P) : State C P := (initial.issued c .play p).sent c

/-- One of them was applied. -/
def halfway (k : Constants P) (c : C) (p : P) : State C P := (copied c p).delivered c k.Ttl

theorem halfway_reachable {c : C} {p : P} (hp : p ∈ k.Positions) (hs : 2 ≤ k.MaxSends) :
    (spec C k).Reachable (halfway k c p) := by
  have hdup : Next k (initial.issued c .play p) (copied c p) := by
    refine next_dup ⟨?_, Nat.zero_le _, ?_, rfl⟩
    · simp [State.issued, State.sent, initial]
    · simp only [State.issued, State.sent, initial, Function.update_self]
      omega
  have hdeliver : Next k (copied c p) (halfway k c p) := by
    refine next_deliver ⟨?_, Nat.zero_le _, Or.inr ⟨fun h => Set.notMem_empty c h.2, rfl⟩⟩
    simp [copied, State.issued, State.sent, initial]
  exact (issue_reachable hp (by omega)).reach (.tail (.single hdup) hdeliver)

/-- What is so of the command then. -/
theorem halfway_view (c : C) (p : P) : (halfway k c p).view c =
    ⟨0, some .play, p, 2, 1, False, 0, True, k.Ttl, 1⟩ := by
  simp [State.view, halfway, copied, State.delivered, State.taken, State.issued, State.sent, initial]

/-- The second copy, after the record has expired. -/
theorem expired_reachable {c : C} {p : P} (hp : p ∈ k.Positions) (hs : 2 ≤ k.MaxSends) (ht : k.Ttl ≤ k.MaxTime) :
    (spec C k).Reachable { halfway k c p with now := k.Ttl, dedup := (halfway k c p).dedup \ {c} } := by
  have hlate := ticks (k := k) (halfway k c p) (d := k.Ttl) ((Nat.zero_add _).le.trans ht)
  rw [show (halfway k c p).now + k.Ttl = k.Ttl from Nat.zero_add _] at hlate
  refine (halfway_reachable hp hs).reach (hlate.tail (next_evict ⟨Or.inr rfl, ?_, rfl⟩))
  exact (congrArg Cmd.evictAt (halfway_view c p)).le

/-- Where records are not kept, or a record can expire within the window, a command applies twice. -/
theorem exists_twice {c : C} {p : P} (hp : p ∈ k.Positions) (hk : ¬Guarded k) :
    ∃ s, (spec C k).Reachable s ∧ s.applyCount c = 2 ∧ s.intentOf c ≠ none := by
  rw [Guarded, not_or, not_le, not_and] at hk
  obtain ⟨hs, hd⟩ := hk
  have hview := halfway_view (k := k) c p
  have hchan : (halfway k c p).chan c = 1 := congrArg Cmd.chan hview
  have hissued : (halfway k c p).issuedAt c = 0 := congrArg Cmd.issuedAt hview
  have hcount : (halfway k c p).applyCount c = 1 := congrArg Cmd.applyCount hview
  have hintent : (halfway k c p).intentOf c ≠ none := by
    rw [show (halfway k c p).intentOf c = some .play from congrArg Cmd.intent hview]
    exact Option.some_ne_none _
  have htwice : ∀ s : State C P, s.applyCount c = 1 → (s.delivered c k.Ttl).applyCount c = 2 := by
    intro s h
    simp [State.delivered, h]
  cases hdedup : k.DedupOn with
  | false =>
    refine ⟨_, (halfway_reachable hp hs).reach (.single (next_deliver ⟨hchan.ge, Nat.zero_le _, Or.inr
      ⟨fun h => ?_, rfl⟩⟩)), htwice _ hcount, hintent⟩
    rw [hdedup] at h
    cases h.1
  | true =>
    have ht := hd hdedup
    push Not at ht
    refine ⟨_, (expired_reachable hp hs ht.2).reach (.single (next_deliver ⟨hchan.ge, ?_, Or.inr
      ⟨fun h => h.2.2 rfl, rfl⟩⟩)), htwice _ hcount, hintent⟩
    simp only [hissued]
    omega

/-- No command can be issued. -/
def Idle (C : Type) (k : Constants P) : Prop := IsEmpty C ∨ k.Positions = ∅ ∨ k.MaxSends = 0

omit [DecidableEq C] [AddMonoidWithOne P] in
theorem not_idle : ¬Idle C k ↔ Nonempty C ∧ k.Positions.Nonempty ∧ 1 ≤ k.MaxSends := by
  rw [Idle, not_or, not_or, not_isEmpty_iff, Set.nonempty_iff_ne_empty, Nat.one_le_iff_ne_zero]

/-- Then none is. -/
theorem Idle.unissued (hk : Idle C k) {s : State C P} (h : (spec C k).Reachable s) (c : C) : s.intentOf c = none := by
  refine h.invariant (I := fun s => ∀ c, s.intentOf c = none) ?_ (fun s t hn hI c => ?_) c
  · rintro s rfl c
    rfl
  · have hstep := view_step (k := k) hn c
    have hsame : (s.view c).intent = none := hI c
    change (t.view c).intent = none
    generalize t.view c = w at hstep
    cases hstep with
    | issue i p hp hi hs =>
      rcases hk with hC | hpos | hmax
      · exact (hC.false c).elim
      · rw [hpos] at hp
        exact absurd hp (Set.notMem_empty p)
      · omega
    | _ => exact hsame

/-- **Exactly when no command applies twice.** Where a command can be issued at all: exactly where ids are recorded and a
record outlives the retry window or the whole run, or no command has a second copy. Types and the bookkeeping of
acknowledgements hold always. -/
theorem at_most_once_iff [Countable C] (k : Constants P) :
    ((∀ σ : ℕ → State C P, Spec k σ → ∀ n, AtMostOnce (σ n)) ↔ Idle C k ∨ Guarded k) ∧
    (∀ σ : ℕ → State C P, Spec k σ → ∀ n, AckedWasApplied (σ n)) := by
  refine ⟨spec_iff.trans ⟨fun h => ?_, fun hk s hs => ?_⟩, spec_iff.mpr fun s hs c hc => (kept hs c).acked hc⟩
  · by_contra hno
    rw [not_or, not_idle] at hno
    obtain ⟨⟨⟨c⟩, ⟨p, hp⟩, -⟩, hk⟩ := hno
    obtain ⟨s, hs, h2, -⟩ := exists_twice (c := c) hp hk
    have hone := h s hs c
    omega
  · rcases hk with hk | hk
    · intro c
      have hnone := ((kept hs c).unissued (hk.unissued hs c)).2
      simp only [State.view] at hnone
      omega
    · exact once hk hs

/-- The configuration that is checked for safety. -/
def shipped : Constants ℕ := ⟨{0, 1}, 3, 2, true, 2, 1, true⟩

/-- The configuration that is checked for liveness. -/
def live : Constants ℕ := ⟨{0, 1}, 2, 2, true, 3, 2, true⟩

theorem at_most_once_iff_shipped :
    Guarded shipped ∧ ∀ σ : ℕ → State (Fin 2) ℕ, Spec shipped σ → ∀ n, AtMostOnce (σ n) :=
  ⟨Or.inr ⟨rfl, Or.inl (by decide)⟩,
    (at_most_once_iff shipped).1.mpr (Or.inr (Or.inr ⟨rfl, Or.inl (by decide)⟩))⟩

/-! ## Replay -/

/-- What a step does to the store and the log: nothing, or it commits and logs a command, or it commits a snapshot that
may be logged. -/
inductive Commits (k : Constants P) (s t : State C P) : Prop
  | nothing (hs : t.store = s.store) (hl : t.log = s.log)
      (hn : t.now = s.now ∨ s.now < k.MaxTime ∧ t.now = s.now + 1)
  | command (c : C) (hc : s.chan c ≥ 1) (hs : t.store = Apply s.store (s.intentOf c) (s.posOf c) s.now)
      (hl : t.log = s.log ++ [.cmd c (s.intentOf c) (s.posOf c) s.now]) (hn : t.now = s.now)
  | snapshot (hp : s.store.playing = true) (ha : s.store.anchor ≠ s.now) (hs : t.store = Snap s.store s.now)
      (hl : t.log = if k.LogSnapshots then s.log ++ [.snap s.now] else s.log) (hn : t.now = s.now)

theorem commits_step {s t : State C P} (h : Next k s t) : Commits k s t := by
  rcases h with ⟨ht, rfl⟩ | ⟨hp, ha, rfl⟩ | ⟨c, h⟩
  · exact .nothing rfl rfl (Or.inr ⟨ht, rfl⟩)
  · exact .snapshot hp ha rfl rfl rfl
  · rcases h with ⟨-, -, i, p, -, rfl⟩ | ⟨-, -, -, -, rfl⟩ | ⟨-, -, -, rfl⟩ | ⟨hc, -, ⟨-, rfl⟩ | ⟨-, rfl⟩⟩ |
      ⟨-, -, rfl⟩ | ⟨-, -, rfl⟩
    case inr.inr.inr.inl.inr => exact .command c hc rfl rfl rfl
    all_goals exact .nothing rfl rfl (Or.inl rfl)

/-- The clock is within its bound, the store's anchor is in the past, and the log is no longer than the store's count. -/
theorem clocked {s : State C P} (h : (spec C k).Reachable s) :
    s.now ≤ k.MaxTime ∧ s.store.anchor ≤ s.now ∧ s.log.length ≤ s.store.seq := by
  refine h.invariant (I := fun s => s.now ≤ k.MaxTime ∧ s.store.anchor ≤ s.now ∧ s.log.length ≤ s.store.seq) ?_
    fun s t hn hI => ?_
  · rintro s rfl
    exact ⟨Nat.zero_le _, le_rfl, le_rfl⟩
  · cases commits_step (k := k) hn with
    | nothing hs hl hn =>
      rw [hs, hl]
      exact ⟨by omega, by omega, hI.2.2⟩
    | command c hc hs hl hn =>
      rw [hs, hl, hn, Apply_anchor, Apply_seq, List.length_append, List.length_singleton]
      exact ⟨hI.1, le_rfl, Nat.succ_le_succ hI.2.2⟩
    | snapshot hp ha hs hl hn =>
      rw [hs, hl, hn]
      refine ⟨hI.1, le_rfl, ?_⟩
      split
      · rw [List.length_append, List.length_singleton]
        exact Nat.succ_le_succ hI.2.2
      · exact hI.2.2.trans (Nat.le_succ _)

/-- Types hold in every reachable state. -/
theorem typeOK {s : State C P} (h : (spec C k).Reachable s) : TypeOK k s := by
  obtain ⟨hclock, hanchor, hlog⟩ := clocked h
  have hkept := kept h
  refine ⟨hclock, fun c => (hkept c).position, fun c => (hkept c).bounded, fun c => ?_, fun c => ?_, fun c => ?_,
    fun c => ?_, hanchor.trans hclock, hlog⟩ <;>
    have hcopies := (hkept c).copies <;> have hbound := (hkept c).bounded <;> have hissued := (hkept c).issued <;>
    have hexpiry := (hkept c).expiry <;> simp only [State.view] at hcopies hbound hissued hexpiry <;> omega

/-- A log that has every commit rebuilds the store. -/
theorem replays (hk : k.LogSnapshots = true) {s : State C P} (h : (spec C k).Reachable s) : ReplayReconstructs s := by
  refine h.invariant (I := ReplayReconstructs) ?_ fun s t hn hI => ?_
  · rintro s rfl
    rfl
  · rw [ReplayReconstructs] at hI ⊢
    cases commits_step (k := k) hn with
    | nothing hs hl => rw [hs, hl, hI]
    | command c hc hs hl => rw [hs, hl, ReplayFrom_snoc, hI, ApplyEntry]
    | snapshot hp ha hs hl => rw [hs, hl, hk, if_pos rfl, ReplayFrom_snoc, hI, ApplyEntry]

/-- So does one without snapshots, where none is taken. -/
theorem replays_unswept (hk : Idle C k ∨ k.MaxTime = 0) {s : State C P} (h : (spec C k).Reachable s) :
    ReplayReconstructs s := by
  have hstill : ∀ s : State C P, (spec C k).Reachable s → s.store.playing = true → s.store.anchor = s.now := by
    intro s hs hplay
    rcases hk with hk | hk
    · have hfirst : s.store = InitStore := by
        refine hs.invariant_from (I := fun s => s.store = InitStore) (by rintro s rfl; rfl) fun s t hr hn hI => ?_
        cases commits_step (k := k) hn with
        | nothing hs => rw [hs, hI]
        | command c hc =>
          have hnone := ((kept hr c).unissued (hk.unissued hr c)).1
          simp only [State.view] at hnone
          omega
        | snapshot hp =>
          rw [hI] at hp
          cases hp
      rw [hfirst] at hplay
      cases hplay
    · have := clocked hs
      omega
  refine h.invariant_from (I := ReplayReconstructs) ?_ fun s t hr hn hI => ?_
  · rintro s rfl
    rfl
  · rw [ReplayReconstructs] at hI ⊢
    cases commits_step (k := k) hn with
    | nothing hs hl => rw [hs, hl, hI]
    | command c hc hs hl => rw [hs, hl, ReplayFrom_snoc, hI, ApplyEntry]
    | snapshot hp ha => exact absurd (hstill s hr hp) ha

/-- A command has played the room. -/
def played (k : Constants P) (c : C) (p : P) : State C P := (initial.issued c .play p).delivered c k.Ttl

theorem played_reachable {c : C} {p : P} (hp : p ∈ k.Positions) (hs : 1 ≤ k.MaxSends) :
    (spec C k).Reachable (played k c p) := by
  refine (issue_reachable hp hs).reach (.single (next_deliver ⟨?_, Nat.zero_le _, Or.inr
    ⟨fun h => Set.notMem_empty c h.2, rfl⟩⟩))
  simp [State.issued, State.sent, initial]

theorem played_store (c : C) (p : P) : (played k c p).store = ⟨1, true, p, 0⟩ := by
  simp [played, State.delivered, State.taken, State.issued, State.sent, initial, Apply, InitStore]

/-- Time passes then, and the sweep re-anchors the room off the record. -/
theorem exists_unlogged {c : C} {p : P} (hp : p ∈ k.Positions) (hs : 1 ≤ k.MaxSends) (hlog : ¬k.LogSnapshots = true)
    (htime : ¬k.MaxTime = 0) : ∃ s : State C P, (spec C k).Reachable s ∧ ¬ReplayReconstructs s := by
  have htick : Next k (played k c p) { played k c p with now := 1 } := Or.inl ⟨Nat.pos_of_ne_zero htime, rfl⟩
  have hsweep : Next k { played k c p with now := 1 } (State.swept { played k c p with now := 1 } k.LogSnapshots) := by
    refine Or.inr (Or.inl ⟨?_, ?_, rfl⟩)
    · simp only [played_store]
    · simp only [played_store]
      exact Nat.zero_ne_one
  refine ⟨_, (played_reachable hp hs).reach ((ReflTransGen.single htick).tail hsweep), fun hreplay => ?_⟩
  have hseq := congrArg Store.seq hreplay
  rw [ReplayFrom_seq] at hseq
  simp [State.swept, hlog, Snap, played, State.delivered, State.taken, State.issued, State.sent, initial,
    InitStore] at hseq

/-- **Exactly when the log rebuilds the store.** Exactly where snapshots are logged, or no snapshot is ever taken. Every
logged transition meets the contract of its intent, and types hold, always. -/
theorem replay_iff [Countable C] (k : Constants P) :
    ((∀ σ : ℕ → State C P, Spec k σ → ∀ n, ReplayReconstructs (σ n)) ↔
      k.LogSnapshots = true ∨ Idle C k ∨ k.MaxTime = 0) ∧
    (∀ σ : ℕ → State C P, Spec k σ → ∀ n, TransitionContract (σ n) ∧ TypeOK k (σ n)) := by
  refine ⟨spec_iff.trans ⟨fun h => ?_, fun hk s hs => ?_⟩, fun σ hσ n => ⟨contractHoldsFrom _ _, ?_⟩⟩
  · by_contra hno
    rw [not_or, not_or, not_idle] at hno
    obtain ⟨hlog, ⟨⟨c⟩, ⟨p, hp⟩, hs⟩, htime⟩ := hno
    obtain ⟨s, hs, hreplay⟩ := exists_unlogged (c := c) hp hs hlog htime
    exact hreplay (h s hs)
  · rcases hk with hk | hk
    · exact replays hk hs
    · exact replays_unswept hk hs
  · exact typeOK (hσ.1.reachable n)

theorem replay_iff_shipped :
    shipped.LogSnapshots = true ∧ ∀ σ : ℕ → State (Fin 2) ℕ, Spec shipped σ → ∀ n, ReplayReconstructs (σ n) :=
  ⟨rfl, (replay_iff shipped).1.mpr (Or.inl rfl)⟩

/-! ## Exactly once -/

/-- A step of a behaviour is, to one command, one of its own or none. -/
theorem view_next {σ : ℕ → State C P} (h : Temporal.Behaviour (spec C k) σ) (n : ℕ) (c : C) :
    Cmd.Step k ((σ n).view c) ((σ (n + 1)).view c) := by
  rcases h.next n with hn | hn
  · exact view_step hn c
  · rw [hn]
    exact .still

/-- A copy that is on its way stays there until the command is applied. -/
theorem Cmd.Kept.waits {v w : Cmd P} (hI : v.Kept k) (h : Cmd.Step k v w) (hc : v.chan ≥ 1) (h0 : v.applyCount = 0) :
    w.chan ≥ 1 ∧ w.applyCount = 0 ∨ w.applyCount ≥ 1 := by
  cases h with
  | issue | send => exact Or.inl ⟨Nat.le_add_left 1 _, h0⟩
  | drop _ hd =>
    have := hI.recorded hd.2
    omega
  | apply => exact Or.inr (Nat.le_add_left 1 _)
  | _ => exact Or.inl ⟨hc, h0⟩

omit [AddMonoidWithOne P] in
/-- A command that was applied stays so. -/
theorem Cmd.Step.applied {v w : Cmd P} (h : Cmd.Step k v w) : v.applyCount ≤ w.applyCount := by
  cases h with
  | apply => exact Nat.le_succ _
  | _ => exact le_rfl

/-- An issued command is applied, while its window does not close. -/
theorem applied_eventually (hw : k.MaxTime ≤ k.RetryWindow) {σ : ℕ → State C P} (h : Spec k σ) (c : C) :
    Temporal.LeadsTo (fun s => s.intentOf c ≠ none) (fun s => s.applyCount c ≥ 1) σ := by
  obtain ⟨hσ, hf⟩ := h
  have hkept := fun n => kept (hσ.reachable n) c
  have hopen : Temporal.LeadsTo (fun s => s.chan c ≥ 1 ∧ s.applyCount c = 0) (fun s => s.applyCount c ≥ 1) σ := by
    refine Temporal.leadsTo_of_wf (hf c).1 (fun n hp => ?_) (fun n hp hstep => ?_) fun n hp => ?_
    · exact (hkept n).waits (view_next hσ n c) hp.1 hp.2
    · rcases hstep.1.2.2 with ⟨hd, -⟩ | ⟨-, heq⟩
      · have hrec := (hkept n).recorded hd.2
        simp only [State.view] at hrec
        omega
      · rw [heq]
        simp [State.delivered]
    · have hnot : ¬(k.DedupOn = true ∧ c ∈ (σ n).dedup) := by
        intro hd
        have hrec := (hkept n).recorded hd.2
        simp only [State.view] at hrec
        omega
      have hclock := (hkept n).clock
      simp only [State.view] at hclock
      refine ⟨(σ n).delivered c k.Ttl, ⟨hp.1, by omega, Or.inr ⟨hnot, rfl⟩⟩, fun heq => ?_⟩
      have hcount := congrArg (fun s => s.applyCount c) heq
      simp [State.delivered] at hcount
  intro n hn
  rcases (hkept n).alive hn with hc | hc
  · rcases Nat.eq_zero_or_pos ((σ n).applyCount c) with h0 | hpos
    · exact hopen n ⟨hc, h0⟩
    · exact ⟨n, le_rfl, hpos⟩
  · exact ⟨n, le_rfl, hc⟩

/-- An applied command is acknowledged. -/
theorem acked_eventually {σ : ℕ → State C P} (h : Spec k σ) (c : C) :
    Temporal.LeadsTo (fun s => s.applyCount c ≥ 1) (fun s => c ∈ s.acked) σ := by
  obtain ⟨hσ, hf⟩ := h
  have hopen : Temporal.LeadsTo (fun s => s.applyCount c ≥ 1 ∧ c ∉ s.acked) (fun s => c ∈ s.acked) σ := by
    refine Temporal.leadsTo_of_wf (hf c).2 (fun n hp => ?_) (fun n hp hstep => ?_) fun n hp => ?_
    · by_cases ha : c ∈ (σ (n + 1)).acked
      · exact Or.inr ha
      · exact Or.inl ⟨le_trans hp.1 (view_next hσ n c).applied, ha⟩
    · obtain ⟨⟨-, -, heq⟩, -⟩ := hstep
      rw [heq]
      exact Or.inr rfl
    · refine ⟨{ σ n with acked := (σ n).acked ∪ {c} }, ⟨hp.1, hp.2, rfl⟩, fun heq => hp.2 ?_⟩
      rw [← heq]
      exact Or.inr rfl
  intro n hn
  by_cases ha : c ∈ (σ n).acked
  · exact ⟨n, le_rfl, ha⟩
  · exact hopen n ⟨hn, ha⟩

omit [AddMonoidWithOne P] in
/-- The window of a command has closed over it. -/
theorem closed_stays {c : C} {s t : State C P} {d : C} (h : Deliver k d s t ∨ Ack d s t)
    (hc : s.applyCount c = 0 ∧ s.issuedAt c + k.RetryWindow < s.now) :
    t.applyCount c = 0 ∧ t.issuedAt c + k.RetryWindow < t.now := by
  rcases h with ⟨-, hw, ⟨-, rfl⟩ | ⟨-, rfl⟩⟩ | ⟨-, -, rfl⟩
  · exact hc
  · have hne : c ≠ d := by
      rintro rfl
      omega
    simp only [State.delivered, State.taken, Function.update_of_ne hne]
    exact hc
  · exact hc

/-- **Exactly when commands apply exactly once.** Every command that is issued comes to be applied once and acknowledged,
in every fair behaviour, exactly where no command can be issued, or the retry window does not close within the run and
no record expires in it, or no command has a second copy. -/
theorem exactly_once_iff [Countable C] (k : Constants P) :
    (∀ σ : ℕ → State C P, Spec k σ → EventuallyExactlyOnce σ) ↔
      Idle C k ∨ k.MaxTime ≤ k.RetryWindow ∧ (k.MaxSends ≤ 1 ∨ k.DedupOn = true ∧ k.MaxTime < k.Ttl) := by
  constructor
  · intro hall
    by_contra hno
    rw [not_or, not_idle] at hno
    obtain ⟨⟨⟨c⟩, ⟨p, hp⟩, hs⟩, hno⟩ := hno
    by_cases hw : k.MaxTime ≤ k.RetryWindow
    · -- a command that was applied twice is not undone
      have hguard : ¬Guarded k := fun hg => hno ⟨hw, hg.imp id fun hd => ⟨hd.1, by omega⟩⟩
      obtain ⟨s, hreach, h2, hissued⟩ := exists_twice (c := c) hp hguard
      obtain ⟨σ, N, hσ, hN, -⟩ := exists_spec hreach
      obtain ⟨m, hm, hone, -⟩ := hall σ hσ c N (by rw [hN]; exact hissued)
      have htwice : ∀ n, N ≤ n → 2 ≤ (σ n).applyCount c := by
        intro n hn
        induction n, hn using Nat.le_induction with
        | base => rw [hN, h2]
        | succ n _ ih => exact ih.trans (view_next hσ.1 n c).applied
      have := htwice m hm
      omega
    · -- a command that is issued first and delivered too late is not applied
      have hlate := ticks (k := k) (initial.issued c .play p) (d := k.RetryWindow + 1)
        ((Nat.zero_add _).le.trans (by omega))
      obtain ⟨σ, N, hσ, hN, hmoves⟩ := exists_spec ((issue_reachable (c := c) hp hs).reach hlate)
      have hclosed : ∀ n, N ≤ n → (σ n).applyCount c = 0 ∧ (σ n).issuedAt c + k.RetryWindow < (σ n).now := by
        intro n hn
        induction n, hn using Nat.le_induction with
        | base =>
          rw [hN]
          simp [State.issued, State.sent, initial]
        | succ n hn ih =>
          rcases hmoves n hn with heq | ⟨d, hd⟩
          · rw [heq]
            exact ih
          · exact closed_stays hd ih
      obtain ⟨m, hm, hone, -⟩ := hall σ hσ c N (by rw [hN]; simp [State.issued, State.sent])
      have := (hclosed m hm).1
      omega
  · rintro (hk | ⟨hw, hk⟩) σ h c
    · exact fun n hn => absurd (hk.unissued (h.1.reachable n) c) hn
    · have hguard : Guarded k := hk.imp id fun hd => ⟨hd.1, Or.inr hd.2⟩
      intro n hn
      obtain ⟨m, hnm, hm⟩ := ((applied_eventually hw h c).trans (acked_eventually h c)) n hn
      have hone := once hguard (h.1.reachable m) c
      have happlied := (kept (h.1.reachable m) c).acked hm
      simp only [State.view] at happlied
      exact ⟨m, hnm, by omega, hm⟩

theorem exactly_once_iff_live :
    live.MaxTime < live.Ttl ∧ ∀ σ : ℕ → State (Fin 2) ℕ, Spec live σ → EventuallyExactlyOnce σ :=
  ⟨by decide, (exactly_once_iff live).mpr (Or.inr ⟨by decide, Or.inr ⟨rfl, by decide⟩⟩)⟩

end SyncExactlyOnce
end WatchParty
