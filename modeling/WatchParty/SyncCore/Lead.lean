import WatchParty.SyncCore.Seeks

/-!
# What the seek lead is learned from

The lead of the reactive controller over whole runs. Every call comes with the place of its timeline in the order of the
store, which the controller does not look at; a log says which commits are snapshots, that is, restamp the timeline that
they find.

- `SameCommand`: two places in one epoch with nothing but snapshots between them;
- `Settles` is the reading that ends the settling of a seek, and the only one that moves the lead (`settles_of_moved`);
- `Armed`: an armed target is the one of the last seek;
- `lead_learned` is the result, and `quiet_own` says that it applies where no command lands on a settling seek.
-/

namespace WatchParty
namespace SyncCore

open Arith

/-- The place of a timeline in the order of the store. -/
structure Anchor where
  storeEpoch : String
  seq : ℕ

/-- A call with the place of the timeline that it passes. -/
structure Anchored (α : Type) where
  call : Control α
  anchor : Anchor

section Commands

variable (snapshots : String → ℕ → Prop)

/-- The timelines of two places are of one command: what was committed between them are snapshots. -/
def SameCommand (a b : Anchor) : Prop :=
  a.storeEpoch = b.storeEpoch ∧ ∀ n, min a.seq b.seq < n → n ≤ max a.seq b.seq → snapshots a.storeEpoch n

variable {snapshots}

theorem SameCommand.refl (a : Anchor) : SameCommand snapshots a a := by
  refine ⟨rfl, fun n hlo hhi => ?_⟩
  simp only [min_self, max_self] at hlo hhi
  omega

theorem SameCommand.trans {a b c : Anchor} (h : SameCommand snapshots a b) (h' : SameCommand snapshots b c) :
    SameCommand snapshots a c := by
  refine ⟨h.1.trans h'.1, fun n hlo hhi => ?_⟩
  by_cases hn : min a.seq b.seq < n ∧ n ≤ max a.seq b.seq
  · exact h.2 n hn.1 hn.2
  · rw [h.1]
    refine h'.2 n ?_ ?_ <;> omega

end Commands

namespace DriftController

/-! ## One evaluation -/

section Steps

variable {α : Type} [Arith α]

/-- The reading that ends the settling of a seek: the cooldown is over, and the drift is in the deadband for the last of
the times that are asked for, or out of it when the next seek is due. -/
def Settles (c : DriftController α) (input : ControllerInput α) : Prop :=
  c.state = .SEEKING ∧ c.seekTargetS ≠ none ∧
    ∃ tl, input.timeline = some tl ∧ tl.isPlaying = true ∧ input.playerState = .playing ∧
      ¬c.seekWithin input.tLocal c.tuning.seekCooldownMs = true ∧
      let drift := (c.measure (input.playerTime - projectMediaTime tl input.serverNow)).lastDrift
      (Arith.abs drift ≤ c.tuning.deadbandS ∧ c.stableEvals + 1 ≥ c.tuning.postSeekStableEvals ∨
        ¬Arith.abs drift ≤ c.tuning.deadbandS ∧ ¬c.seekWithin input.tLocal c.tuning.seekSpacingMs = true)

/-- What an evaluation does to the lead and to the armed target: it keeps both, it disarms the target, it arms the one of
its seek, or it ends the settling of a seek. -/
inductive Learned (c : DriftController α) (input : ControllerInput α) :
    ControllerAction α × DriftController α → Prop
  | keep (act : ControllerAction α) (c' : DriftController α) (lead : c'.seekLead = c.seekLead)
      (target : c'.seekTargetS = c.seekTargetS) (still : c'.state = .SEEKING → c.state = .SEEKING)
      (silent : ∀ toMediaTime, act = .seek toMediaTime → c'.state ≠ .SEEKING) : Learned c input (act, c')
  | disarm (act : ControllerAction α) (c' : DriftController α) (lead : c'.seekLead = c.seekLead)
      (target : c'.seekTargetS = none) : Learned c input (act, c')
  | seek (tl : RoomTimeline α) (room : input.timeline = some tl) (c' : DriftController α)
      (lead : c'.seekLead = c.seekLead) : Learned c input (c'.issueSeek input tl)
  | settle (settles : c.Settles input) (residual : α) (c' : DriftController α)
      (lead : c'.seekLead =
        Arith.min c.tuning.seekLeadMaxS (Arith.max (lit 0) (c.seekLead - residual * lit 0.5)))
      (locked : c'.state ≠ .SEEKING) : Learned c input (.none, c')
  | miss (tl : RoomTimeline α) (room : input.timeline = some tl) (settles : c.Settles input) (residual : α)
      (c' : DriftController α)
      (lead : c'.seekLead =
        Arith.min c.tuning.seekLeadMaxS (Arith.max (lit 0) (c.seekLead - residual * lit 0.5))) :
      Learned c input (c'.issueSeek input tl)

theorem learned_evaluate (c : DriftController α) (input : ControllerInput α) : Learned c input (c.evaluate input) := by
  have he := evaluated c input
  generalize c.evaluate input = r at he
  cases he with
  | idle | pause | unloaded => exact .keep _ _ rfl rfl id (fun _ he => absurd he (by simp))
  | stalled | buffering =>
    refine .keep _ _ rfl rfl (fun h => ?_) (fun _ he => absurd he (by simp))
    by_cases hs : c.state = .SEEKING
    · exact hs
    · simp [hs] at h
  | reconcile => exact .keep _ _ rfl rfl (fun h => by cases h) (fun _ _ h => by cases h)
  | hold => exact .keep _ _ rfl rfl (fun h => by cases h) (fun _ he => absurd he (by simp))
  | start => exact .disarm _ _ rfl rfl
  | reading tl room awake playing player way =>
    have hseeking : (c.measure (input.playerTime - projectMediaTime tl input.serverNow)).state = .SEEKING →
        c.state = .SEEKING := by
      intro h
      by_cases hb : c.state = .BUFFERING
      · simp [measure, hb] at h
      · simpa [measure, hb] using h
    cases way with
    | cooling | settling | waiting | outOfBand => exact .keep _ _ rfl rfl hseeking (fun _ he => absurd he (by simp))
    | regained => exact .keep _ _ rfl rfl (fun h => by cases h) (fun _ he => absurd he (by simp))
    | inBand steady | tolerated steady =>
      refine .keep _ _ rfl rfl (fun h => ?_) (fun _ he => absurd he (by simp))
      dsimp only at h
      split at h
      · cases h
      · exact hseeking h
    | nudge => exact .keep _ _ rfl rfl (fun h => by cases h) (fun _ he => absurd he (by simp))
    | reaim => exact .keep _ _ rfl rfl hseeking (fun _ he => absurd he (by simp))
    | gross | stuck | seek => exact .seek tl room _ rfl
    | settled seeking cooled inside enough =>
      rcases learnLead_cases
          ({ c.measure (input.playerTime - projectMediaTime tl input.serverNow) with
              stableEvals := c.stableEvals + 1 } : DriftController α)
          (c.measure (input.playerTime - projectMediaTime tl input.serverNow)).lastDrift with
        ⟨hnone, h⟩ | ⟨target, hsome, h⟩
      · have hlead := congrArg seekLead h
        have htarget := congrArg seekTargetS h
        exact .keep _ _ hlead htarget (fun h => by cases h) (fun _ he => absurd he (by simp))
      · have hlead := congrArg seekLead h
        have hne : c.seekTargetS ≠ none := fun hn => Option.some_ne_none target (hsome.symm.trans hn)
        have hsettles : c.Settles input :=
          ⟨hseeking seeking, hne, tl, room, playing, player, cooled, Or.inl ⟨inside, enough⟩⟩
        exact .settle hsettles _ _ hlead (by simp)
    | missed seeking cooled outside spaced =>
      rcases learnLead_cases
          ({ c.measure (input.playerTime - projectMediaTime tl input.serverNow) with
              stableEvals := 0 } : DriftController α)
          (c.measure (input.playerTime - projectMediaTime tl input.serverNow)).lastDrift with
        ⟨hnone, h⟩ | ⟨target, hsome, h⟩
      · have hlead := congrArg seekLead h
        exact .seek tl room _ hlead
      · have hlead := congrArg seekLead h
        have hne : c.seekTargetS ≠ none := fun hn => Option.some_ne_none target (hsome.symm.trans hn)
        have hsettles : c.Settles input :=
          ⟨hseeking seeking, hne, tl, room, playing, player, cooled, Or.inr ⟨outside, spaced⟩⟩
        exact .miss tl room hsettles _ _ hlead

end Steps

/-! ## Runs -/

/-- A step of a run. -/
abbrev AnchoredEvent (α : Type) := Machine.Event (DriftController α) (Anchored α) (Option (ControllerAction α))

section Trace

variable {α : Type}

/-- The event is a seek. -/
def seeks (e : AnchoredEvent α) : Bool :=
  match e.out with
  | some (.seek _) => true
  | _ => false

/-- The event passes a timeline. -/
def shows (e : AnchoredEvent α) : Bool := e.act.call.input?.any fun input => input.timeline.isSome

/-- The last event of a kind. -/
def latest (p : AnchoredEvent α → Bool) (tr : List (AnchoredEvent α)) : Option (AnchoredEvent α) := tr.reverse.find? p

@[simp] theorem latest_snoc (p : AnchoredEvent α → Bool) (tr : List (AnchoredEvent α)) (e : AnchoredEvent α) :
    latest p (tr ++ [e]) = if p e = true then some e else latest p tr := by
  unfold latest
  rw [List.reverse_append, List.reverse_singleton, List.singleton_append, List.find?_cons]
  cases p e <;> rfl

theorem latest_mem {p : AnchoredEvent α → Bool} {tr : List (AnchoredEvent α)} {e : AnchoredEvent α}
    (h : latest p tr = some e) : e ∈ tr :=
  List.mem_reverse.mp (List.mem_of_find?_eq_some h)

variable (snapshots : String → ℕ → Prop)

/-- The timeline of the event is of the command that the last seek was issued for. -/
def Lands (tr : List (AnchoredEvent α)) (e : AnchoredEvent α) : Prop :=
  ∃ s, latest seeks tr = some s ∧ SameCommand snapshots s.act.anchor e.act.anchor

/-- The event is an evaluation under an armed target, which is the target of the last seek, and its timeline is of the
command that this seek was issued for. -/
def OwnSeek (tr : List (AnchoredEvent α)) (e : AnchoredEvent α) : Prop :=
  (∃ input, e.act.call = .evaluate input) ∧
    ∃ s, latest seeks tr = some s ∧ e.pre.seekTargetS ≠ none ∧ s.post.seekTargetS = e.pre.seekTargetS ∧
      SameCommand snapshots s.act.anchor e.act.anchor

/-- No command lands on a settling seek: a timeline that is passed under an armed target is of the command of the one
that was passed last. -/
def Quiet (tr : List (AnchoredEvent α)) (e : AnchoredEvent α) : Prop :=
  e.pre.state = .SEEKING → e.pre.seekTargetS ≠ none → shows e = true →
    ∀ b, latest shows tr = some b → SameCommand snapshots b.act.anchor e.act.anchor

end Trace

section Runs

variable {α : Type} [Field α] [LinearOrder α]

attribute [local instance] Arith.exact

/-- A controller and the calls on it, with the places of their timelines. -/
def anchored (tuning : ControllerTuning α) : Machine (DriftController α) (Anchored α) (Option (ControllerAction α)) where
  init := .new tuning
  step c k := c.control k.call

/-- The lead is within its bounds, and in SEEKING an armed target is the one of the last seek. -/
structure Armed (tuning : ControllerTuning α) (tr : List (AnchoredEvent α)) (c : DriftController α) : Prop where
  tuned : c.tuning = tuning
  lower : 0 ≤ c.seekLead
  upper : c.seekLead ≤ tuning.seekLeadMaxS
  target : c.state = .SEEKING → c.seekTargetS ≠ none →
    ∃ s, latest seeks tr = some s ∧ s.post.seekTargetS = c.seekTargetS

/-- A learned lead is within its bounds. -/
theorem learned_bounds {lo hi x : α} (h : lo ≤ hi) : lo ≤ Min.min hi (Max.max lo x) ∧ Min.min hi (Max.max lo x) ≤ hi :=
  ⟨le_min h (le_max_left _ _), min_le_left _ _⟩

/-- **One call.** -/
theorem armed_control {tuning : ControllerTuning α} {tr : List (AnchoredEvent α)} {c : DriftController α}
    (h : Armed tuning tr c) (k : Anchored α) :
    Armed tuning (tr ++ [⟨c, k, (c.control k.call).2, (c.control k.call).1⟩]) (c.control k.call).1 := by
  have htuned : (c.control k.call).1.tuning = tuning := (control_tuning c k.call).trans h.tuned
  obtain ⟨k, anchor⟩ := k
  cases k with
  | suspend => exact ⟨htuned, h.lower, h.upper, fun hs => by cases hs⟩
  | resume => exact ⟨htuned, h.lower, h.upper, fun hs => by cases hs⟩
  | evaluate input =>
    have hl := learned_evaluate c input
    have hbounds : ∀ {c' : DriftController α} {residual : α}, c'.seekLead =
        Arith.min c.tuning.seekLeadMaxS (Arith.max (lit 0) (c.seekLead - residual * lit 0.5)) →
        0 ≤ c'.seekLead ∧ c'.seekLead ≤ tuning.seekLeadMaxS := by
      intro c' residual hc'
      have h0 : (lit 0 : α) = 0 := Rat.cast_zero
      rw [hc', h.tuned, h0]
      exact learned_bounds (h.lower.trans h.upper)
    show Armed tuning (tr ++ [⟨c, ⟨.evaluate input, anchor⟩, some (c.evaluate input).1, (c.evaluate input).2⟩])
      (c.evaluate input).2
    change (c.evaluate input).2.tuning = tuning at htuned
    generalize c.evaluate input = r at hl htuned
    cases hl with
    | keep act c' lead target still silent =>
      refine ⟨htuned, lead ▸ h.lower, lead ▸ h.upper, fun hs hn => ?_⟩
      have hquiet : seeks (⟨c, ⟨.evaluate input, anchor⟩, some act, c'⟩ : AnchoredEvent α) = false := by
        unfold seeks
        cases act with
        | seek toMediaTime => exact absurd hs (silent toMediaTime rfl)
        | _ => rfl
      rw [latest_snoc, hquiet, if_neg Bool.false_ne_true, target]
      exact h.target (still hs) (target ▸ hn)
    | disarm act c' lead target => exact ⟨htuned, lead ▸ h.lower, lead ▸ h.upper, fun _ hn => absurd target hn⟩
    | seek tl room c' lead =>
      refine ⟨htuned, ?_, ?_, fun hs hn => ⟨_, by rw [latest_snoc]; exact if_pos rfl, rfl⟩⟩
      · exact h.lower.trans_eq lead.symm
      · exact lead.trans_le h.upper
    | settle settles residual c' lead locked =>
      exact ⟨htuned, (hbounds lead).1, (hbounds lead).2, fun hs => absurd hs locked⟩
    | miss tl room settles residual c' lead =>
      refine ⟨htuned, ?_, ?_, fun hs hn => ⟨_, by rw [latest_snoc]; exact if_pos rfl, rfl⟩⟩
      · exact (hbounds lead).1
      · exact (hbounds lead).2

theorem armed_run {tuning : ControllerTuning α} (hlead : 0 ≤ tuning.seekLeadS ∧ tuning.seekLeadS ≤ tuning.seekLeadMaxS)
    (calls : List (Anchored α)) : Armed tuning ((anchored tuning).trace calls) ((anchored tuning).run calls) :=
  (anchored tuning).invariant (I := Armed tuning) ⟨rfl, hlead.1, hlead.2, fun hs => by cases hs⟩
    (fun _ _ k h => armed_control h k) calls

/-- Only the end of the settling of a seek moves the lead. -/
theorem settles_of_moved {c : DriftController α} {k : Control α} (h : (c.control k).1.seekLead ≠ c.seekLead) :
    ∃ input, k = .evaluate input ∧ c.Settles input := by
  cases k with
  | suspend => exact absurd rfl h
  | resume => exact absurd rfl h
  | evaluate input =>
    refine ⟨input, rfl, ?_⟩
    have hl := learned_evaluate c input
    change (c.evaluate input).2.seekLead ≠ c.seekLead at h
    generalize c.evaluate input = r at hl h
    cases hl with
    | keep act c' lead target still silent => exact absurd lead h
    | disarm act c' lead target => exact absurd lead h
    | seek tl room c' lead => exact absurd lead h
    | settle settles residual c' lead locked => exact settles
    | miss tl room settles residual c' lead => exact settles

/-- **The lead is learned from its own seek.** It stays within its bounds; and where every reading that ends the settling
of a seek is of the command that the seek was issued for, only such a reading moves it. -/
theorem lead_learned {tuning : ControllerTuning α}
    (hlead : 0 ≤ tuning.seekLeadS ∧ tuning.seekLeadS ≤ tuning.seekLeadMaxS) (snapshots : String → ℕ → Prop)
    (calls : List (Anchored α))
    (hown : Machine.Always (fun tr e => ∀ input, e.act.call = .evaluate input → e.pre.Settles input →
      Lands snapshots tr e) ((anchored tuning).trace calls)) :
    (∀ p, p <+: calls →
        0 ≤ ((anchored tuning).run p).seekLead ∧ ((anchored tuning).run p).seekLead ≤ tuning.seekLeadMaxS) ∧
      Machine.Always (fun tr e => e.post.seekLead ≠ e.pre.seekLead → OwnSeek snapshots tr e)
        ((anchored tuning).trace calls) := by
  refine ⟨fun p _ => ⟨(armed_run hlead p).lower, (armed_run hlead p).upper⟩, ?_⟩
  induction calls using List.reverseRecOn with
  | nil => exact fun n hn => absurd hn (Nat.not_lt_zero n)
  | append_singleton calls k ih =>
    rw [Machine.trace_snoc, Machine.always_snoc] at hown ⊢
    refine ⟨ih hown.1, fun hmoved => ?_⟩
    obtain ⟨input, hk, hsettles⟩ := settles_of_moved hmoved
    obtain ⟨s, hs, hsame⟩ := hown.2 input hk hsettles
    obtain ⟨s', hs', htarget⟩ := (armed_run hlead calls).target hsettles.1 hsettles.2.1
    obtain rfl : s = s' := Option.some.inj (hs.symm.trans hs')
    exact ⟨⟨input, hk⟩, s, hs, hsettles.2.1, htarget, hsame⟩

/-- In SEEKING, under an armed target, the timeline that was passed last is of the command of the seek. -/
def Current (snapshots : String → ℕ → Prop) (tr : List (AnchoredEvent α)) (c : DriftController α) : Prop :=
  c.state = .SEEKING → c.seekTargetS ≠ none →
    ∃ s b, latest seeks tr = some s ∧ latest shows tr = some b ∧ SameCommand snapshots s.act.anchor b.act.anchor

theorem current_control {snapshots : String → ℕ → Prop} {tr : List (AnchoredEvent α)} {c : DriftController α}
    (h : Current snapshots tr c) (k : Anchored α)
    (hq : Quiet snapshots tr ⟨c, k, (c.control k.call).2, (c.control k.call).1⟩) :
    Current snapshots (tr ++ [⟨c, k, (c.control k.call).2, (c.control k.call).1⟩]) (c.control k.call).1 := by
  obtain ⟨k, anchor⟩ := k
  cases k with
  | suspend => exact fun hs => by cases hs
  | resume => exact fun hs => by cases hs
  | evaluate input =>
    have hl := learned_evaluate c input
    change Quiet snapshots tr ⟨c, ⟨.evaluate input, anchor⟩, some (c.evaluate input).1, (c.evaluate input).2⟩ at hq
    show Current snapshots (tr ++ [⟨c, ⟨.evaluate input, anchor⟩, some (c.evaluate input).1, (c.evaluate input).2⟩])
      (c.evaluate input).2
    generalize c.evaluate input = r at hl hq
    have hsought : ∀ tl, input.timeline = some tl → ∀ c' : DriftController α,
        Current snapshots (tr ++ [⟨c, ⟨.evaluate input, anchor⟩, some (c'.issueSeek input tl).1,
          (c'.issueSeek input tl).2⟩]) (c'.issueSeek input tl).2 := by
      intro tl room c' _ _
      have hshow : shows (⟨c, ⟨.evaluate input, anchor⟩, some (c'.issueSeek input tl).1,
          (c'.issueSeek input tl).2⟩ : AnchoredEvent α) = true := by
        simp [shows, Control.input?, room]
      exact ⟨_, _, by rw [latest_snoc]; exact if_pos rfl, by rw [latest_snoc]; exact if_pos hshow, .refl _⟩
    cases hl with
    | keep act c' lead target still silent =>
      intro hs hn
      obtain ⟨s, b, hsl, hbl, hsame⟩ := h (still hs) (target ▸ hn)
      have hquiet : seeks (⟨c, ⟨.evaluate input, anchor⟩, some act, c'⟩ : AnchoredEvent α) = false := by
        unfold seeks
        cases act with
        | seek toMediaTime => exact absurd hs (silent toMediaTime rfl)
        | _ => rfl
      rw [latest_snoc, latest_snoc, hquiet, if_neg Bool.false_ne_true]
      by_cases hshow : shows (⟨c, ⟨.evaluate input, anchor⟩, some act, c'⟩ : AnchoredEvent α) = true
      · exact ⟨s, _, hsl, if_pos hshow, hsame.trans (hq (still hs) (target ▸ hn) hshow b hbl)⟩
      · exact ⟨s, b, hsl, (if_neg hshow).trans hbl, hsame⟩
    | disarm act c' lead target => exact fun _ hn => absurd target hn
    | seek tl room c' lead => exact hsought tl room c'
    | settle settles residual c' lead locked => exact fun hs => absurd hs locked
    | miss tl room settles residual c' lead => exact hsought tl room c'

/-- Where no command lands on a settling seek, every reading that ends the settling is of the command of the seek. -/
theorem quiet_own {tuning : ControllerTuning α} {snapshots : String → ℕ → Prop} {calls : List (Anchored α)}
    (hq : Machine.Always (Quiet snapshots) ((anchored tuning).trace calls)) :
    Machine.Always (fun tr e => ∀ input, e.act.call = .evaluate input → e.pre.Settles input →
      Lands snapshots tr e) ((anchored tuning).trace calls) := by
  induction calls using List.reverseRecOn with
  | nil => exact fun n hn => absurd hn (Nat.not_lt_zero n)
  | append_singleton calls k ih =>
    rw [Machine.trace_snoc, Machine.always_snoc] at hq ⊢
    refine ⟨ih hq.1, fun input hk hsettles => ?_⟩
    have hcurrent : Current snapshots ((anchored tuning).trace calls) ((anchored tuning).run calls) :=
      (anchored tuning).invariant_always (I := Current snapshots) (fun hs => by cases hs)
        (fun _ _ k hq h => current_control h k hq) calls hq.1
    obtain ⟨s, b, hs, hb, hsame⟩ := hcurrent hsettles.1 hsettles.2.1
    refine ⟨s, hs, hsame.trans (hq.2 hsettles.1 hsettles.2.1 ?_ b hb)⟩
    obtain ⟨tl, room, -⟩ := hsettles.2.2
    change k.call = .evaluate input at hk
    simp [shows, hk, Control.input?, room]

/-- A player that stays a tenth of a second behind a room in which no command lands. -/
def settled : List (Anchored ℚ) :=
  [⟨.evaluate ⟨10000, 10000, 5, .playing, some ⟨true, 0, 0, 1⟩, false⟩, "1", 1⟩,
    ⟨.evaluate ⟨12000, 12000, 119 / 10, .playing, some ⟨true, 0, 0, 1⟩, false⟩, "1", 1⟩,
    ⟨.evaluate ⟨12250, 12250, 243 / 20, .playing, some ⟨true, 0, 0, 1⟩, false⟩, "1", 1⟩]

theorem lead_learned_settled :
    OwnSeek (fun _ _ => False) (((anchored (DEFAULT_CONTROLLER_TUNING : ControllerTuning ℚ)).trace settled).take 2)
      ((anchored (DEFAULT_CONTROLLER_TUNING : ControllerTuning ℚ)).event
        ((anchored DEFAULT_CONTROLLER_TUNING).run (settled.take 2))
        ⟨.evaluate ⟨12250, 12250, 243 / 20, .playing, some ⟨true, 0, 0, 1⟩, false⟩, "1", 1⟩) := by
  have hplace : ∀ e ∈ (anchored (DEFAULT_CONTROLLER_TUNING : ControllerTuning ℚ)).trace settled,
      e.act.anchor = ⟨"1", 1⟩ := by
    intro e he
    obtain ⟨before, k, hk, rfl⟩ := (anchored DEFAULT_CONTROLLER_TUNING).mem_trace he
    have hmem : k ∈ settled := hk.subset (by simp)
    simp only [settled, List.mem_cons, List.not_mem_nil, or_false] at hmem
    rcases hmem with rfl | rfl | rfl <;> rfl
  refine (lead_learned ⟨by decide +kernel, by decide +kernel⟩ _ settled (quiet_own fun n hn _ _ _ b hb => ?_)).2 2
    (by decide) (by decide +kernel)
  rw [hplace b (List.mem_of_mem_take (latest_mem hb)), hplace _ (List.getElem_mem hn)]
  exact .refl _

/-- A room-wide seek lands while a player is settling: the next reading is taken for the miss of the player's own seek, and
the lead is learned from it. -/
theorem lead_poisoned :
    ¬∀ (snapshots : String → ℕ → Prop) (calls : List (Anchored ℚ)),
      Machine.Always (fun tr e => e.post.seekLead ≠ e.pre.seekLead → OwnSeek snapshots tr e)
        ((anchored (DEFAULT_CONTROLLER_TUNING : ControllerTuning ℚ)).trace calls) := by
  intro h
  have hown := h (fun _ _ => False)
    [⟨.evaluate ⟨10000, 10000, 5, .playing, some ⟨true, 0, 0, 1⟩, false⟩, "1", 1⟩,
      ⟨.evaluate ⟨13000, 13000, 13, .playing, some ⟨true, 600, 12900, 1⟩, false⟩, "1", 2⟩] 1 (by decide)
    (by decide +kernel)
  obtain ⟨-, s, hs, -, -, hsame⟩ := hown
  have hmem := List.mem_singleton.mp (latest_mem hs)
  rw [hmem] at hsame
  exact hsame.2 2 (by decide) (by decide)

end Runs

end DriftController
end SyncCore
end WatchParty
