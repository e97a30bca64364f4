import Mathlib.Data.Set.Basic
import Mathlib.Logic.Function.Basic
import WatchParty.Lib.Fairness

/-!
# The specification of switching videos

`formal/SyncSetVideo.tla`: commands that carry a position and the video their sender saw, commands that switch the video,
a network that repeats and reorders both, and a store that refuses a position for a video that is not the current one.
The commands of both kinds, the videos and the bound on copies are parameters.

- `Next`, an action for each of the specification, and `Fairness`;
- `Cmd.Kept`: what is so of one command in every reachable state;
- `noCross` and `honest`: no command reaches another video, and the answer "duplicate" is honest, under the switches or
  the bounds that make it so.
-/

open Relation

namespace WatchParty
namespace SyncSetVideo

/-- `CONSTANTS` other than the commands, `SeekCmds` and `SetVideoCmds`, and the videos, which are types. -/
structure Constants (V : Type) where
  InitVideo : V
  MaxSends : ℕ
  FencingOn : Bool
  EarlyRecord : Bool

/-- `VARIABLES`; `NoVideo` is `none`. -/
structure State (A B V : Type) where
  roomVideo : Option V
  seq : ℕ
  fenceOf : A → Option V
  targetOf : B → Option V
  sends : A ⊕ B → ℕ
  chan : A ⊕ B → ℕ
  dedup : Set (A ⊕ B)
  applyCount : A ⊕ B → ℕ
  dupAnswered : Set (A ⊕ B)
  fencedAnswered : Set (A ⊕ B)
  misapplied : Set A
  acked : Set (A ⊕ B)

variable {A B V : Type}

def initial (k : Constants V) : State A B V :=
  { roomVideo := some k.InitVideo, seq := 0, fenceOf := fun _ => none, targetOf := fun _ => none, sends := fun _ => 0,
    chan := fun _ => 0, dedup := ∅, applyCount := fun _ => 0, dupAnswered := ∅, fencedAnswered := ∅, misapplied := ∅,
    acked := ∅ }

/-! ## The actions -/

namespace State

/-- `Issued`. -/
def Issued (s : State A B V) : A ⊕ B → Prop
  | .inl a => s.fenceOf a ≠ none
  | .inr b => s.targetOf b ≠ none

variable [DecidableEq A] [DecidableEq B] (s : State A B V)

/-- One more copy of a command is in the channel. -/
def sent (c : A ⊕ B) : State A B V :=
  { s with sends := Function.update s.sends c (s.sends c + 1), chan := Function.update s.chan c (s.chan c + 1) }

/-- A copy is taken out of the channel. -/
def taken (c : A ⊕ B) : State A B V := { s with chan := Function.update s.chan c (s.chan c - 1) }

/-- A command is committed and recorded. -/
def recorded (c : A ⊕ B) : State A B V :=
  { s.taken c with
    seq := s.seq + 1
    applyCount := Function.update s.applyCount c (s.applyCount c + 1)
    dedup := s.dedup ∪ {c} }

/-- A position is applied, to whatever video is there. -/
def positioned (a : A) : State A B V :=
  { s.recorded (.inl a) with misapplied := s.misapplied ∪ {x | x = a ∧ s.fenceOf a ≠ s.roomVideo} }

/-- The video is switched. -/
def switched (b : B) : State A B V := { s.recorded (.inr b) with roomVideo := s.targetOf b }

/-- The commit of a command. -/
def applied : A ⊕ B → State A B V
  | .inl a => s.positioned a
  | .inr b => s.switched b

/-- A stale observed video is answered, and recorded too early under the wrong order. -/
def refused (a : A) (early : Bool) : State A B V :=
  { s.taken (.inl a) with
    fencedAnswered := s.fencedAnswered ∪ {.inl a}
    dedup := if early then s.dedup ∪ {.inl a} else s.dedup }

end State

variable [DecidableEq A] [DecidableEq B] (k : Constants V)

omit [DecidableEq A] [DecidableEq B] in
def Init (s : State A B V) : Prop := s = initial k

/-- Mint a position command: it carries the video its minter observes now. -/
def IssueSeek (a : A) (s t : State A B V) : Prop :=
  ¬s.Issued (.inl a) ∧ s.sends (.inl a) < k.MaxSends ∧
  t = { s.sent (.inl a) with fenceOf := Function.update s.fenceOf a s.roomVideo }

/-- Mint a set-video: any target, including the current video. -/
def IssueSetVideo (b : B) (s t : State A B V) : Prop :=
  ¬s.Issued (.inr b) ∧ s.sends (.inr b) < k.MaxSends ∧
  ∃ v : V, t = { s.sent (.inr b) with targetOf := Function.update s.targetOf b (some v) }

/-- Unanswered command, client sends the same id again. -/
def Retry (c : A ⊕ B) (s t : State A B V) : Prop :=
  s.Issued c ∧ c ∉ s.acked ∧ s.sends c < k.MaxSends ∧ t = s.sent c

/-- The fence refuses a command. -/
def Fenced {A B V : Type} (k : Constants V) (s : State A B V) : A ⊕ B → Prop
  | .inl a => k.FencingOn = true ∧ s.fenceOf a ≠ s.roomVideo
  | .inr _ => False

/-- The store's apply script: dedup lookup, fence check, commit and record, in one step. -/
def Deliver (c : A ⊕ B) (s t : State A B V) : Prop :=
  s.chan c ≥ 1 ∧
  (c ∈ s.dedup ∧ t = { s.taken c with dupAnswered := s.dupAnswered ∪ {c} } ∨
   c ∉ s.dedup ∧ Fenced k s c ∧ (∃ a, c = .inl a ∧ t = s.refused a k.EarlyRecord) ∨
   c ∉ s.dedup ∧ ¬Fenced k s c ∧ t = s.applied c)

omit [DecidableEq A] [DecidableEq B] in
/-- The client observes a definitive answer and stops retrying. -/
def Ack (c : A ⊕ B) (s t : State A B V) : Prop :=
  c ∉ s.acked ∧ (s.applyCount c ≥ 1 ∨ c ∈ s.dupAnswered ∨ c ∈ s.fencedAnswered) ∧
  t = { s with acked := s.acked ∪ {c} }

def Next (s t : State A B V) : Prop :=
  (∃ a, IssueSeek k a s t) ∨ (∃ b, IssueSetVideo k b s t) ∨ ∃ c, Retry k c s t ∨ Deliver k c s t ∨ Ack c s t

/-- `Init ∧ □[Next]_vars`. -/
def spec (A B : Type) {V : Type} [DecidableEq A] [DecidableEq B] (k : Constants V) : Temporal.Spec (State A B V) :=
  ⟨Init k, Next k⟩

def Fairness (σ : ℕ → State A B V) : Prop := ∀ c, Temporal.WF (Deliver k c) σ ∧ Temporal.WF (Ack c) σ

/-- `Spec`. -/
def Spec (σ : ℕ → State A B V) : Prop := Temporal.Behaviour (spec A B k) σ ∧ Fairness k σ

/-! ## One command -/

/-- What the state says of one command. -/
@[ext] structure Cmd where
  issued : Prop
  sends : ℕ
  chan : ℕ
  recorded : Prop
  applyCount : ℕ
  dup : Prop
  fenced : Prop
  acked : Prop

omit [DecidableEq A] [DecidableEq B] in
def State.view (s : State A B V) (c : A ⊕ B) : Cmd :=
  ⟨s.Issued c, s.sends c, s.chan c, c ∈ s.dedup, s.applyCount c, c ∈ s.dupAnswered, c ∈ s.fencedAnswered, c ∈ s.acked⟩

/-- The steps of one command. -/
inductive Cmd.Step (k : Constants V) (v : Cmd) : Cmd → Prop
  | still : Step k v v
  | issue (hi : ¬v.issued) (hs : v.sends < k.MaxSends) :
      Step k v { v with issued := True, sends := v.sends + 1, chan := v.chan + 1 }
  | send (hi : v.issued) (hs : v.sends < k.MaxSends) : Step k v { v with sends := v.sends + 1, chan := v.chan + 1 }
  | duplicate (hc : v.chan ≥ 1) (hd : v.recorded) : Step k v { v with chan := v.chan - 1, dup := True }
  | refuse (hc : v.chan ≥ 1) (hd : ¬v.recorded) (hf : k.FencingOn = true) :
      Step k v { v with chan := v.chan - 1, fenced := True, recorded := k.EarlyRecord = true }
  | apply (hc : v.chan ≥ 1) (hd : ¬v.recorded) :
      Step k v { v with chan := v.chan - 1, applyCount := v.applyCount + 1, recorded := True }
  | ack (h : v.applyCount ≥ 1 ∨ v.dup ∨ v.fenced) : Step k v { v with acked := True }

section View

variable {k} {s t : State A B V} {c d : A ⊕ B}

theorem view_sent_self : (s.sent c).view c = { s.view c with sends := s.sends c + 1, chan := s.chan c + 1 } := by
  cases c <;> simp [State.view, State.sent, State.Issued]

theorem view_sent_of_ne (h : c ≠ d) : (s.sent d).view c = s.view c := by
  cases c <;> simp [State.view, State.sent, State.Issued, Function.update_of_ne h]

theorem view_duplicate_self : State.view { s.taken c with dupAnswered := s.dupAnswered ∪ {c} } c =
    { s.view c with chan := s.chan c - 1, dup := True } := by
  cases c <;> simp [State.view, State.taken, State.Issued]

theorem view_duplicate_of_ne (h : c ≠ d) :
    State.view { s.taken d with dupAnswered := s.dupAnswered ∪ {d} } c = s.view c := by
  cases c <;> simp [State.view, State.taken, State.Issued, h]

theorem view_refused_self {a : A} {early : Bool} (h : Sum.inl a ∉ s.dedup) : (s.refused a early).view (.inl a) =
    { s.view (.inl a) with chan := s.chan (.inl a) - 1, fenced := True, recorded := early = true } := by
  cases early <;> simp [State.view, State.refused, State.taken, State.Issued, h]

theorem view_refused_of_ne {a : A} {early : Bool} (h : c ≠ .inl a) : (s.refused a early).view c = s.view c := by
  cases early <;> cases c <;> simp [State.view, State.refused, State.taken, State.Issued, h]

theorem view_applied_self : (s.applied c).view c =
    { s.view c with chan := s.chan c - 1, applyCount := s.applyCount c + 1, recorded := True } := by
  cases c <;> simp [State.view, State.applied, State.positioned, State.switched, State.recorded, State.taken,
    State.Issued]

theorem view_applied_of_ne (h : c ≠ d) : (s.applied d).view c = s.view c := by
  cases c <;> cases d <;> simp [State.view, State.applied, State.positioned, State.switched, State.recorded,
    State.taken, State.Issued, h]

omit [DecidableEq A] [DecidableEq B] in
theorem view_acked_self : State.view { s with acked := s.acked ∪ {c} } c = { s.view c with acked := True } := by
  cases c <;> simp [State.view, State.Issued]

omit [DecidableEq A] [DecidableEq B] in
theorem view_acked_of_ne (h : c ≠ d) : State.view { s with acked := s.acked ∪ {d} } c = s.view c := by
  cases c <;> simp [State.view, State.Issued, h]

/-- A step is, to one command, one of its own or none. -/
theorem view_step (hv : s.roomVideo ≠ none) (h : Next k s t) (c : A ⊕ B) : Cmd.Step k (s.view c) (t.view c) := by
  rcases h with ⟨a, hi, hs, rfl⟩ | ⟨b, hi, hs, v, rfl⟩ | ⟨d, h⟩
  · rcases eq_or_ne c (.inl a) with rfl | hne
    · have hview : State.view { s.sent (.inl a) with fenceOf := Function.update s.fenceOf a s.roomVideo } (.inl a) =
          { s.view (.inl a) with issued := True, sends := s.sends (.inl a) + 1, chan := s.chan (.inl a) + 1 } := by
        simp [State.view, State.sent, State.Issued, hv]
      rw [hview]
      exact .issue hi hs
    · have hview : State.view { s.sent (.inl a) with fenceOf := Function.update s.fenceOf a s.roomVideo } c =
          s.view c := by
        rcases c with x | b
        · have hx : x ≠ a := fun h => hne (congrArg Sum.inl h)
          simp [State.view, State.sent, State.Issued, hx]
        · simp [State.view, State.sent, State.Issued]
      rw [hview]
      exact .still
  · rcases eq_or_ne c (.inr b) with rfl | hne
    · have hview : State.view { s.sent (.inr b) with targetOf := Function.update s.targetOf b (some v) } (.inr b) =
          { s.view (.inr b) with issued := True, sends := s.sends (.inr b) + 1, chan := s.chan (.inr b) + 1 } := by
        simp [State.view, State.sent, State.Issued]
      rw [hview]
      exact .issue hi hs
    · have hview : State.view { s.sent (.inr b) with targetOf := Function.update s.targetOf b (some v) } c =
          s.view c := by
        rcases c with a | x
        · simp [State.view, State.sent, State.Issued]
        · have hx : x ≠ b := fun h => hne (congrArg Sum.inr h)
          simp [State.view, State.sent, State.Issued, hx]
      rw [hview]
      exact .still
  · rcases h with ⟨hi, -, hs, rfl⟩ | ⟨hc, ⟨hd, rfl⟩ | ⟨hd, hf, a, rfl, rfl⟩ | ⟨hd, -, rfl⟩⟩ | ⟨-, ha, rfl⟩
    · rcases eq_or_ne c d with rfl | hne
      · rw [view_sent_self]
        exact .send hi hs
      · rw [view_sent_of_ne hne]
        exact .still
    · rcases eq_or_ne c d with rfl | hne
      · rw [view_duplicate_self]
        exact .duplicate hc hd
      · rw [view_duplicate_of_ne hne]
        exact .still
    · rcases eq_or_ne c (.inl a) with rfl | hne
      · rw [view_refused_self hd]
        exact .refuse hc hd hf.1
      · rw [view_refused_of_ne hne]
        exact .still
    · rcases eq_or_ne c d with rfl | hne
      · rw [view_applied_self]
        exact .apply hc hd
      · rw [view_applied_of_ne hne]
        exact .still
    · rcases eq_or_ne c d with rfl | hne
      · rw [view_acked_self]
        exact .ack ha
      · rw [view_acked_of_ne hne]
        exact .still

end View

/-! ## What every behaviour keeps -/

/-- What is so of one command: only issued commands are in flight, an id that is recorded was delivered and one that was
answered "duplicate" twice, and what was recorded was applied, or refused under the wrong order. -/
structure Cmd.Kept (k : Constants V) (v : Cmd) : Prop where
  unissued : ¬v.issued → v.chan = 0
  copies : v.applyCount + v.chan ≤ v.sends
  bounded : v.sends ≤ k.MaxSends
  spent : v.recorded → v.chan + 1 ≤ v.sends
  twice : v.dup → v.chan + 2 ≤ v.sends
  known : v.dup → v.recorded
  counted : v.applyCount ≥ 1 → v.recorded
  once : v.applyCount ≤ 1
  honest : v.recorded → v.applyCount ≥ 1 ∨ v.fenced ∧ k.FencingOn = true ∧ k.EarlyRecord = true
  awaited : v.issued → v.chan ≥ 1 ∨ v.applyCount ≥ 1 ∨ v.dup ∨ v.fenced

theorem Cmd.Kept.step {k : Constants V} {v w : Cmd} (hI : v.Kept k) (h : Cmd.Step k v w) : w.Kept k := by
  obtain ⟨hun, hcopies, hbound, hspent, htwice, hknown, hcounted, honce, hhonest, hawaited⟩ := hI
  cases h with
  | still => exact ⟨hun, hcopies, hbound, hspent, htwice, hknown, hcounted, honce, hhonest, hawaited⟩
  | issue hi hs =>
    refine ⟨fun h => absurd trivial h, ?_, hs, fun h => ?_, fun h => ?_, hknown, hcounted, honce, hhonest,
      fun _ => Or.inl (Nat.le_add_left 1 _)⟩
    · exact (Nat.add_assoc ..).ge.trans (Nat.succ_le_succ hcopies)
    · have := hspent h
      simp only
      omega
    · have := htwice h
      simp only
      omega
  | send hi hs =>
    refine ⟨fun h => absurd hi h, ?_, hs, fun h => ?_, fun h => ?_, hknown, hcounted, honce, hhonest,
      fun _ => Or.inl (Nat.le_add_left 1 _)⟩
    · exact (Nat.add_assoc ..).ge.trans (Nat.succ_le_succ hcopies)
    · have := hspent h
      simp only
      omega
    · have := htwice h
      simp only
      omega
  | duplicate hc hd =>
    refine ⟨fun h => ?_, ?_, hbound, fun h => ?_, fun _ => ?_, fun _ => hd, hcounted, honce, hhonest,
      fun _ => Or.inr (Or.inr (Or.inl trivial))⟩
    · rw [hun h]
    · simp only
      omega
    · have := hspent h
      simp only
      omega
    · have := hspent hd
      simp only
      omega
  | refuse hc hd hf =>
    refine ⟨fun h => ?_, ?_, hbound, fun _ => ?_, fun h => absurd (hknown h) hd, fun h => absurd (hknown h) hd,
      fun h => absurd (hcounted h) hd, honce, fun h => Or.inr ⟨trivial, hf, h⟩,
      fun _ => Or.inr (Or.inr (Or.inr trivial))⟩
    · rw [hun h]
    · simp only
      omega
    · simp only
      omega
  | apply hc hd =>
    have hzero : v.applyCount = 0 := by
      by_contra hne
      exact hd (hcounted (Nat.pos_of_ne_zero hne))
    refine ⟨fun h => ?_, ?_, hbound, fun _ => ?_, fun h => absurd (hknown h) hd, fun _ => trivial, fun _ => trivial,
      ?_, fun _ => Or.inl (Nat.le_add_left 1 _), fun _ => Or.inr (Or.inl (Nat.le_add_left 1 _))⟩
    · rw [hun h]
    · simp only
      omega
    · simp only
      omega
    · simp only
      omega
  | ack h => exact ⟨hun, hcopies, hbound, hspent, htwice, hknown, hcounted, honce, hhonest, hawaited⟩

section Steps

variable {k} {s : State A B V}

/-- The room shows a video, and every command keeps what is so of it. -/
theorem kept (h : (spec A B k).Reachable s) : s.roomVideo ≠ none ∧ ∀ c, (s.view c).Kept k := by
  refine h.invariant (I := fun s => s.roomVideo ≠ none ∧ ∀ c, (s.view c).Kept k) ?_ fun s t hn hI => ?_
  · rintro s rfl
    refine ⟨Option.some_ne_none _, fun c => ⟨fun _ => rfl, le_rfl, Nat.zero_le _, fun h => absurd h (Set.notMem_empty c),
      fun h => absurd h (Set.notMem_empty c), fun h => absurd h (Set.notMem_empty c),
      fun h => absurd h (Nat.not_succ_le_zero 0), Nat.zero_le _, fun h => absurd h (Set.notMem_empty c), fun h => ?_⟩⟩
    cases c <;> exact absurd rfl h
  · refine ⟨?_, fun c => (hI.2 c).step (view_step hI.1 hn c)⟩
    rcases hn with ⟨a, -, -, rfl⟩ | ⟨b, -, -, v, rfl⟩ | ⟨c, ⟨-, -, -, rfl⟩ | ⟨hc, ⟨-, rfl⟩ | ⟨-, -, a, rfl, rfl⟩ |
      ⟨-, -, rfl⟩⟩ | ⟨-, -, rfl⟩⟩
    case inr.inr.inr.inl.inr.inr =>
      rcases c with a | b
      · exact hI.1
      · -- the target of a delivered switch was set when it was issued
        by_contra hnone
        have hzero := (hI.2 (.inr b)).unissued fun hi => hi hnone
        simp only [State.view] at hzero
        omega
    all_goals exact hI.1

/-! ## The properties -/

section Properties

omit [DecidableEq A] [DecidableEq B]

/-- `TypeOK`. -/
structure TypeOK (k : Constants V) (s : State A B V) : Prop where
  roomVideo : s.roomVideo ≠ none
  sends : ∀ c, s.sends c ≤ k.MaxSends
  chan : ∀ c, s.chan c ≤ k.MaxSends
  applyCount : ∀ c, s.applyCount c ≤ k.MaxSends

/-- `NoCrossVideoApply`. -/
def NoCrossVideoApply (s : State A B V) : Prop := s.misapplied = ∅

/-- `AtMostOnce`. -/
def AtMostOnce (s : State A B V) : Prop := ∀ c, s.applyCount c ≤ 1

/-- `DupAnswerImpliesApplied`. -/
def DupAnswerImpliesApplied (s : State A B V) : Prop := ∀ c ∈ s.dupAnswered, s.applyCount c ≥ 1

/-- `EventuallyAnswered`. -/
def EventuallyAnswered (σ : ℕ → State A B V) : Prop :=
  ∀ c, Temporal.LeadsTo (fun s => s.Issued c) (fun s => c ∈ s.acked) σ

/-- No position command can be overtaken by a switch to another video. -/
def Unswitchable (A B : Type) {V : Type} (k : Constants V) : Prop :=
  IsEmpty A ∨ IsEmpty B ∨ Subsingleton V ∨ k.MaxSends = 0

end Properties

theorem typeOK (h : (spec A B k).Reachable s) : TypeOK k s := by
  obtain ⟨hv, hkept⟩ := kept h
  refine ⟨hv, fun c => (hkept c).bounded, fun c => ?_, fun c => ?_⟩ <;> have hcopies := (hkept c).copies <;>
    have hbound := (hkept c).bounded <;> simp only [State.view] at hcopies hbound <;> omega

/-- What was observed is still shown then. -/
theorem Unswitchable.current (hk : Unswitchable A B k) (h : (spec A B k).Reachable s) (a : A) :
    s.fenceOf a = none ∨ s.fenceOf a = s.roomVideo := by
  refine h.invariant_from (I := fun s => ∀ a, s.fenceOf a = none ∨ s.fenceOf a = s.roomVideo) ?_
    (fun s t hs hn hI => ?_) a
  · rintro s rfl a
    exact Or.inl rfl
  · have ht := hs.reach (.single hn)
    rcases hn with ⟨x, -, -, rfl⟩ | ⟨b, -, -, v, rfl⟩ | ⟨c, ⟨-, -, -, rfl⟩ | ⟨hc, ⟨-, rfl⟩ | ⟨-, -, x, rfl, rfl⟩ |
      ⟨-, -, rfl⟩⟩ | ⟨-, -, rfl⟩⟩
    case inr.inr.inr.inl.inr.inr =>
      rcases c with x | b
      · exact hI
      · rcases hk with hA | hB | hV | hmax
        · exact fun a => (hA.false a).elim
        · exact (hB.false b).elim
        · intro a
          obtain ⟨v, hv⟩ := Option.ne_none_iff_exists'.mp (kept ht).1
          refine (hI a).imp id fun heq => ?_
          obtain ⟨u, hu⟩ := Option.ne_none_iff_exists'.mp (kept hs).1
          rw [hv, Subsingleton.elim v u, ← hu]
          exact heq
        · have hcopies := ((kept hs).2 (.inr b)).copies
          have hbound := ((kept hs).2 (.inr b)).bounded
          simp only [State.view] at hcopies hbound
          omega
    case inl =>
      intro a
      rcases eq_or_ne a x with rfl | hne
      · exact Or.inr (Function.update_self _ _ _)
      · simp only [Function.update_of_ne hne]
        exact hI a
    all_goals exact hI

/-- A position command that goes through the fence is for the video that is shown. -/
theorem fenced_current (hk : k.FencingOn = true ∨ Unswitchable A B k) (h : (spec A B k).Reachable s) {a : A}
    (hc : s.chan (.inl a) ≥ 1) (hf : ¬Fenced k s (.inl a)) : s.fenceOf a = s.roomVideo := by
  rcases hk with hk | hk
  · by_contra hne
    exact hf ⟨hk, hne⟩
  · refine (hk.current h a).resolve_left fun hnone => ?_
    have hzero := ((kept h).2 (.inl a)).unissued fun hi => hi hnone
    simp only [State.view] at hzero
    omega

theorem noCross (hk : k.FencingOn = true ∨ Unswitchable A B k) (h : (spec A B k).Reachable s) :
    NoCrossVideoApply s := by
  refine h.invariant_from (I := NoCrossVideoApply) ?_ fun s t hs hn hI => ?_
  · rintro s rfl
    rfl
  · rcases hn with ⟨x, -, -, rfl⟩ | ⟨b, -, -, v, rfl⟩ | ⟨c, ⟨-, -, -, rfl⟩ | ⟨hc, ⟨-, rfl⟩ | ⟨-, -, x, rfl, rfl⟩ |
      ⟨-, hf, rfl⟩⟩ | ⟨-, -, rfl⟩⟩
    case inr.inr.inr.inl.inr.inr =>
      rcases c with a | b
      · have hcurrent := fenced_current hk hs hc hf
        rw [NoCrossVideoApply] at hI ⊢
        simp only [State.applied, State.positioned, hI, Set.empty_union]
        exact Set.eq_empty_iff_forall_notMem.mpr fun x hx => hx.2 hcurrent
      · exact hI
    all_goals exact hI

/-- The answer "duplicate" is honest, where the fence does not burn an id, or burns none that is sent again. -/
theorem honest (hk : ¬(k.FencingOn = true ∧ k.EarlyRecord = true) ∨ Unswitchable A B k ∨ k.MaxSends ≤ 1)
    (h : (spec A B k).Reachable s) : DupAnswerImpliesApplied s := by
  intro c hd
  have hkept := (kept h).2 c
  refine (hkept.honest (hkept.known hd)).resolve_right fun hburnt => ?_
  rcases hk with hk | hk | hk
  · exact hk hburnt.2
  · -- nothing is ever refused
    have hnone : s.fencedAnswered = ∅ := by
      refine h.invariant_from (I := fun s => s.fencedAnswered = ∅) (by rintro s rfl; rfl) fun s t hs hn hI => ?_
      rcases hn with ⟨x, -, -, rfl⟩ | ⟨b, -, -, v, rfl⟩ | ⟨c, ⟨-, -, -, rfl⟩ | ⟨hc, ⟨-, rfl⟩ | ⟨-, hf, x, rfl, rfl⟩ |
        ⟨-, -, rfl⟩⟩ | ⟨-, -, rfl⟩⟩
      case inr.inr.inr.inl.inr.inl =>
        rcases hk.current hs x with hnone | heq
        · have hzero := ((kept hs).2 (.inl x)).unissued fun hi => hi hnone
          simp only [State.view] at hzero
          omega
        · exact absurd heq hf.2
      case inr.inr.inr.inl.inr.inr => rcases c with a | b <;> exact hI
      all_goals exact hI
    have hin := hburnt.1
    simp only [State.view, hnone] at hin
    exact Set.notMem_empty c hin
  · have htwice := hkept.twice hd
    have hbound := hkept.bounded
    omega

end Steps

end SyncSetVideo
end WatchParty
