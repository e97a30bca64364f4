import Mathlib.Data.Countable.Basic
import WatchParty.Formal.SyncSetVideo

/-!
# When a position reaches another video

The properties of `formal/SyncSetVideo.tla` and exactly the constants under which they hold, over every fair behaviour.

- `overtaken`: a position command was minted, and the video switched before it arrives;
- `cross_video_iff` and `honest_iff`: what the fence is for, and what the order of the dedup record is for;
- `answered`: every issued command is answered, whatever the switches.
-/

open Filter Relation

namespace WatchParty
namespace SyncSetVideo

variable {A B V : Type} [DecidableEq A] [DecidableEq B] {k : Constants V}

/-! ## Runs -/

theorem next_retry {c : A ⊕ B} {s t : State A B V} (h : Retry k c s t) : Next k s t :=
  Or.inr (Or.inr ⟨c, Or.inl h⟩)

theorem next_deliver {c : A ⊕ B} {s t : State A B V} (h : Deliver k c s t) : Next k s t :=
  Or.inr (Or.inr ⟨c, Or.inr (Or.inl h)⟩)

theorem next_ack {c : A ⊕ B} {s t : State A B V} (h : Ack c s t) : Next k s t :=
  Or.inr (Or.inr ⟨c, Or.inr (Or.inr h)⟩)

/-- The fair actions: the delivery and the acknowledgement of each command. -/
def fair (k : Constants V) : (A ⊕ B) ⊕ (A ⊕ B) → Temporal.Action (State A B V)
  | .inl c => Deliver k c
  | .inr c => Ack c

/-- Every reachable state is in a fair behaviour. -/
theorem exists_spec [Countable A] [Countable B] {s : State A B V} (h : (spec A B k).Reachable s) :
    ∃ (σ : ℕ → State A B V) (N : ℕ), Spec k σ ∧ σ N = s := by
  have hsub : ∀ i s t, fair (A := A) (B := B) k i s t → (spec A B k).Next s t := by
    rintro (c | c) s t h
    · exact next_deliver h
    · exact next_ack h
  obtain ⟨σ, N, hσ, hN, -, hf, -⟩ := Temporal.exists_fair hsub h (Or.inr rfl)
  exact ⟨σ, N, ⟨hσ, fun c => ⟨(hf (.inl c)).wf, (hf (.inr c)).wf⟩⟩, hN⟩

/-- What holds in every fair behaviour holds in every reachable state. -/
theorem spec_iff [Countable A] [Countable B] {I : State A B V → Prop} :
    (∀ σ : ℕ → State A B V, Spec k σ → ∀ n, I (σ n)) ↔ ∀ s, (spec A B k).Reachable s → I s := by
  refine ⟨fun h s hs => ?_, fun h σ hσ n => h _ (hσ.1.reachable n)⟩
  obtain ⟨σ, N, hσ, hN⟩ := exists_spec hs
  rw [← hN]
  exact h σ hσ N

/-- A position command and a switch are on their way. -/
def minted (k : Constants V) (a : A) (b : B) (v : V) : State A B V :=
  let s : State A B V := { (initial k).sent (.inl a) with fenceOf := Function.update (fun _ => none) a (some k.InitVideo) }
  { s.sent (.inr b) with targetOf := Function.update s.targetOf b (some v) }

/-- The switch arrives first. -/
def overtaken (k : Constants V) (a : A) (b : B) (v : V) : State A B V := (minted k a b v).switched b

theorem overtaken_reachable (hs : 1 ≤ k.MaxSends) (a : A) (b : B) (v : V) :
    (spec A B k).Reachable (overtaken k a b v) := by
  have hseek : Next k (initial k : State A B V)
      { (initial k).sent (.inl a) with fenceOf := Function.update (fun _ => none) a (some k.InitVideo) } :=
    Or.inl ⟨a, fun h => h rfl, hs, rfl⟩
  have hswitch : Next k { (initial k : State A B V).sent (.inl a) with
      fenceOf := Function.update (fun _ => none) a (some k.InitVideo) } (minted k a b v) :=
    Or.inr (Or.inl ⟨b, fun h => h rfl, hs, v, rfl⟩)
  have hdeliver : Next k (minted k a b v) (overtaken k a b v) := by
    refine next_deliver (c := .inr b) ⟨?_, Or.inr (Or.inr ⟨Set.notMem_empty _, fun h => h, rfl⟩)⟩
    simp [minted, State.sent, initial]
  exact ⟨_, rfl, ((ReflTransGen.single hseek).tail hswitch).tail hdeliver⟩

/-- The position command is still on its way, for the video that is gone. -/
theorem overtaken_view (a : A) (b : B) (v : V) :
    (overtaken k a b v).view (.inl a) = ⟨True, 1, 1, False, 0, False, False, False⟩ ∧
    (overtaken k a b v).fenceOf a = some k.InitVideo ∧ (overtaken k a b v).roomVideo = some v := by
  simp [State.view, State.Issued, overtaken, minted, State.switched, State.recorded, State.taken, State.sent, initial]

/-! ## The fence -/

omit [DecidableEq A] [DecidableEq B] in
theorem not_unswitchable : ¬Unswitchable A B k ↔ Nonempty A ∧ Nonempty B ∧ Nontrivial V ∧ 1 ≤ k.MaxSends := by
  rw [Unswitchable, not_or, not_or, not_or, not_isEmpty_iff, not_isEmpty_iff, not_subsingleton_iff_nontrivial,
    Nat.one_le_iff_ne_zero]

/-- **Exactly when no position reaches another video.** Exactly where the fence is on, or no position command can be
overtaken by a switch to another video. Types hold and no command applies twice always. -/
theorem cross_video_iff [Countable A] [Countable B] (k : Constants V) :
    ((∀ σ : ℕ → State A B V, Spec k σ → ∀ n, NoCrossVideoApply (σ n)) ↔
      k.FencingOn = true ∨ Unswitchable A B k) ∧
    (∀ σ : ℕ → State A B V, Spec k σ → ∀ n, AtMostOnce (σ n) ∧ TypeOK k (σ n)) := by
  refine ⟨spec_iff.trans ⟨fun h => ?_, fun hk s hs => noCross hk hs⟩, fun σ hσ n => ⟨fun c => ?_, ?_⟩⟩
  · by_contra hno
    rw [not_or, not_unswitchable] at hno
    obtain ⟨hf, ⟨a⟩, ⟨b⟩, hV, hs⟩ := hno
    obtain ⟨v, hv⟩ := exists_ne k.InitVideo
    obtain ⟨hview, hfence, hroom⟩ := overtaken_view (k := k) a b v
    have hnew : Sum.inl a ∉ (overtaken k a b v).dedup := fun h => (congrArg Cmd.recorded hview).mp h
    have hchan : (overtaken k a b v).chan (.inl a) = 1 := congrArg Cmd.chan hview
    have hdeliver : Next k (overtaken k a b v) ((overtaken k a b v).applied (.inl a)) :=
      next_deliver ⟨hchan.ge, Or.inr (Or.inr ⟨hnew, fun h => hf h.1, rfl⟩)⟩
    have hcross := h _ ((overtaken_reachable hs a b v).reach (.single hdeliver))
    refine Set.notMem_empty a (hcross ▸ Or.inr ⟨rfl, ?_⟩)
    rw [hfence, hroom]
    exact fun heq => hv (Option.some.inj heq).symm
  · exact ((kept (hσ.1.reachable n)).2 c).once
  · exact typeOK (hσ.1.reachable n)

/-- The shipped configuration. -/
def shipped : Constants Bool := ⟨false, 2, true, false⟩

theorem cross_video_iff_shipped : shipped.FencingOn = true ∧
    ∀ σ : ℕ → State (Fin 1) (Fin 2) Bool, Spec shipped σ → ∀ n, NoCrossVideoApply (σ n) :=
  ⟨rfl, (cross_video_iff shipped).1.mpr (Or.inl rfl)⟩

/-- The fence refuses the command and its id is burnt; it is sent again and answered "duplicate". -/
theorem exists_burnt (hf : k.FencingOn = true) (he : k.EarlyRecord = true) (hs : 2 ≤ k.MaxSends) (a : A) (b : B) {v : V}
    (hv : v ≠ k.InitVideo) : ∃ s : State A B V, (spec A B k).Reachable s ∧ ¬DupAnswerImpliesApplied s := by
  obtain ⟨hview, hfence, hroom⟩ := overtaken_view (k := k) a b v
  have hnew : Sum.inl a ∉ (overtaken k a b v).dedup := fun h => (congrArg Cmd.recorded hview).mp h
  have hchan : (overtaken k a b v).chan (.inl a) = 1 := congrArg Cmd.chan hview
  have hstale : Fenced k (overtaken k a b v) (.inl a) := by
    refine ⟨hf, ?_⟩
    rw [hfence, hroom]
    exact fun heq => hv (Option.some.inj heq).symm
  let burnt : State A B V := (overtaken k a b v).refused a k.EarlyRecord
  have hburnt : burnt.view (.inl a) = ⟨True, 1, 0, True, 0, False, True, False⟩ := by
    rw [view_refused_self hnew, hview, hchan, he]
    simp
  have hrefuse : Next k (overtaken k a b v) burnt :=
    next_deliver (c := .inl a) ⟨hchan.ge, Or.inr (Or.inl ⟨hnew, hstale, a, rfl, rfl⟩)⟩
  have hsends : burnt.sends (.inl a) = 1 := congrArg Cmd.sends hburnt
  have hissued : burnt.Issued (.inl a) := (congrArg Cmd.issued hburnt).mpr trivial
  have hunacked : Sum.inl a ∉ burnt.acked := fun h => (congrArg Cmd.acked hburnt).mp h
  have hretry : Next k burnt (burnt.sent (.inl a)) := next_retry ⟨hissued, hunacked, by omega, rfl⟩
  have hagain : (burnt.sent (.inl a)).view (.inl a) = ⟨True, 2, 1, True, 0, False, True, False⟩ := by
    rw [view_sent_self, hburnt, hsends, show burnt.chan (.inl a) = 0 from congrArg Cmd.chan hburnt]
  have hchan' : (burnt.sent (.inl a)).chan (.inl a) = 1 := congrArg Cmd.chan hagain
  have hdup : Next k (burnt.sent (.inl a)) { (burnt.sent (.inl a)).taken (.inl a) with
      dupAnswered := (burnt.sent (.inl a)).dupAnswered ∪ {.inl a} } :=
    next_deliver (c := .inl a) ⟨hchan'.ge, Or.inl ⟨(congrArg Cmd.recorded hagain).mpr trivial, rfl⟩⟩
  refine ⟨_, (overtaken_reachable (by omega) a b v).reach (((ReflTransGen.single hrefuse).tail hretry).tail hdup),
    fun hhonest => ?_⟩
  have hcount : burnt.applyCount (.inl a) = 0 := congrArg Cmd.applyCount hburnt
  exact Nat.not_succ_le_zero 0 (hcount ▸ hhonest (.inl a) (Or.inr rfl))

/-- **Exactly when "duplicate" is honest.** Exactly where a command is not recorded before the fence is checked, or the
fence refuses none, or none is sent twice. -/
theorem honest_iff [Countable A] [Countable B] (k : Constants V) :
    (∀ σ : ℕ → State A B V, Spec k σ → ∀ n, DupAnswerImpliesApplied (σ n)) ↔
      ¬(k.FencingOn = true ∧ k.EarlyRecord = true) ∨ Unswitchable A B k ∨ k.MaxSends ≤ 1 := by
  refine spec_iff.trans ⟨fun h => ?_, fun hk s hs => honest hk hs⟩
  by_contra hno
  rw [not_or, not_or, not_unswitchable, not_not, not_le] at hno
  obtain ⟨⟨hf, he⟩, ⟨⟨a⟩, ⟨b⟩, hV, -⟩, h2⟩ := hno
  obtain ⟨v, hv⟩ := exists_ne k.InitVideo
  obtain ⟨s, hs, hlie⟩ := exists_burnt hf he h2 a b hv
  exact hlie (h s hs)

theorem honest_iff_shipped : shipped.EarlyRecord = false ∧
    ∀ σ : ℕ → State (Fin 1) (Fin 2) Bool, Spec shipped σ → ∀ n, DupAnswerImpliesApplied (σ n) :=
  ⟨rfl, (honest_iff shipped).mpr (Or.inl fun h => Bool.noConfusion h.2)⟩

/-! ## Every command is answered -/

/-- A step of a behaviour is, to one command, one of its own or none. -/
theorem view_next {σ : ℕ → State A B V} (h : Temporal.Behaviour (spec A B k) σ) (n : ℕ) (c : A ⊕ B) :
    Cmd.Step k ((σ n).view c) ((σ (n + 1)).view c) := by
  rcases h.next n with hn | hn
  · exact view_step (kept (h.reachable n)).1 hn c
  · rw [hn]
    exact .still

/-- A command that the store has answered. -/
def Cmd.Answered (v : Cmd) : Prop := v.applyCount ≥ 1 ∨ v.dup ∨ v.fenced

/-- An answer is not taken back. -/
theorem Cmd.Answered.step {v w : Cmd} (h : v.Answered) (hs : Cmd.Step k v w) : w.Answered := by
  cases hs with
  | duplicate => exact Or.inr (Or.inl trivial)
  | refuse => exact Or.inr (Or.inr trivial)
  | apply => exact Or.inl (Nat.le_add_left 1 _)
  | _ => exact h

/-- A copy that is on its way stays there until the command is answered. -/
theorem Cmd.Step.waits {v w : Cmd} (h : Cmd.Step k v w) (hc : v.chan ≥ 1) : w.chan ≥ 1 ∨ w.Answered := by
  cases h with
  | issue | send => exact Or.inl (Nat.le_add_left 1 _)
  | duplicate => exact Or.inr (Or.inr (Or.inl trivial))
  | refuse => exact Or.inr (Or.inr (Or.inr trivial))
  | apply => exact Or.inr (Or.inl (Nat.le_add_left 1 _))
  | _ => exact Or.inl hc

/-- A delivery answers the command. -/
theorem deliver_answers {c : A ⊕ B} {s t : State A B V} (h : Deliver k c s t) : (t.view c).Answered := by
  rcases h with ⟨-, ⟨-, rfl⟩ | ⟨hd, -, a, rfl, rfl⟩ | ⟨-, -, rfl⟩⟩
  · rw [view_duplicate_self]
    exact Or.inr (Or.inl trivial)
  · rw [view_refused_self hd]
    exact Or.inr (Or.inr trivial)
  · rw [view_applied_self]
    exact Or.inl (Nat.le_add_left 1 _)

/-- A command with a copy on its way can be delivered. -/
theorem exists_deliver {c : A ⊕ B} {s : State A B V} (hc : s.chan c ≥ 1) :
    Temporal.Enabled (Temporal.Proper (Deliver k c)) s := by
  have hmoves : ∀ t : State A B V, (t.view c).chan = s.chan c - 1 → t ≠ s := by
    rintro t ht rfl
    simp only [State.view] at ht
    omega
  by_cases hd : c ∈ s.dedup
  · refine ⟨_, ⟨hc, Or.inl ⟨hd, rfl⟩⟩, hmoves _ ?_⟩
    rw [view_duplicate_self]
  · by_cases hf : Fenced k s c
    · rcases c with a | b
      · refine ⟨_, ⟨hc, Or.inr (Or.inl ⟨hd, hf, a, rfl, rfl⟩)⟩, hmoves _ ?_⟩
        rw [view_refused_self hd]
      · exact hf.elim
    · refine ⟨_, ⟨hc, Or.inr (Or.inr ⟨hd, hf, rfl⟩)⟩, hmoves _ ?_⟩
      rw [view_applied_self]

/-- **Every issued command is answered.** Whatever the switches, the fence refuses and does not strand. -/
theorem answered (k : Constants V) {σ : ℕ → State A B V} (h : Spec k σ) : EventuallyAnswered σ := by
  obtain ⟨hσ, hf⟩ := h
  intro c
  have hdelivered : Temporal.LeadsTo (fun s => s.chan c ≥ 1) (fun s => (s.view c).Answered) σ :=
    Temporal.leadsTo_of_wf (hf c).1 (fun n hc => (view_next hσ n c).waits hc)
      (fun n _ hstep => deliver_answers hstep.1) fun n hc => exists_deliver hc
  have hacked : Temporal.LeadsTo (fun s => (s.view c).Answered ∧ c ∉ s.acked) (fun s => c ∈ s.acked) σ := by
    refine Temporal.leadsTo_of_wf (hf c).2 (fun n hp => ?_) (fun n hp hstep => ?_) fun n hp => ?_
    · by_cases ha : c ∈ (σ (n + 1)).acked
      · exact Or.inr ha
      · exact Or.inl ⟨hp.1.step (view_next hσ n c), ha⟩
    · obtain ⟨⟨-, -, heq⟩, -⟩ := hstep
      rw [heq]
      exact Or.inr rfl
    · refine ⟨{ σ n with acked := (σ n).acked ∪ {c} }, ⟨hp.2, hp.1, rfl⟩, fun heq => hp.2 ?_⟩
      rw [← heq]
      exact Or.inr rfl
  have hclosed : Temporal.LeadsTo (fun s => (s.view c).Answered) (fun s => c ∈ s.acked) σ := by
    intro n ha
    by_cases hin : c ∈ (σ n).acked
    · exact ⟨n, le_rfl, hin⟩
    · exact hacked n ⟨ha, hin⟩
  intro n hi
  rcases ((kept (hσ.reachable n)).2 c).awaited hi with hc | ha
  · exact (hdelivered.trans hclosed) n hc
  · exact hclosed n ha

/-- A position command that was overtaken is answered too. -/
theorem answered_overtaken : ∃ (σ : ℕ → State (Fin 1) (Fin 2) Bool) (N : ℕ), Spec shipped σ ∧
    σ N = overtaken shipped 0 0 true ∧ EventuallyAnswered σ := by
  obtain ⟨σ, N, hσ, hN⟩ := exists_spec (overtaken_reachable (k := shipped) (by decide) (0 : Fin 1) (0 : Fin 2) true)
  exact ⟨σ, N, hσ, hN, answered shipped hσ⟩

end SyncSetVideo
end WatchParty
