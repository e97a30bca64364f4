import Mathlib
import WatchParty.Lib.Arith

/-!
# The reactive drift controller

`DriftController` of `shared/sync-core/drift-controller.ts` over any number format: a state machine that answers every
reading of a player with one action. The controller that compares the player with the room is split at the lines of
`evaluate`: the reconciliation of the player's lifecycle first, then the drift logic of a playing player.

- `DriftController.evaluate`, `suspend`, `resume`, `getStatus`;
- `evaluate_cases`: when it starts the player or pauses it, and that it sets no rate where fractional rates are off;
- `evaluate_blind_iff`: in which lifecycles it stays locked and silent without having looked at the drift.
-/

namespace WatchParty
namespace SyncCore

open Arith

inductive PlayerLifecycle
  | unstarted | playing | paused | buffering | ended | cued
  deriving DecidableEq, Repr

/-- The fields of a timeline that a controller reads. -/
structure RoomTimeline (α : Type) where
  isPlaying : Bool
  mediaTime : α
  stampedAt : α
  rate : α

structure ControllerInput (α : Type) where
  tLocal : α
  serverNow : α
  playerTime : α
  playerState : PlayerLifecycle
  timeline : Option (RoomTimeline α)
  fractionalRateOK : Bool

inductive ControllerAction (α : Type)
  | none
  | seek (toMediaTime : α)
  | setRate (rate : α)
  | clearRate
  | play
  | pause
  deriving DecidableEq

inductive ControllerState
  | LOCKED | NUDGING | SEEKING | BUFFERING | PAUSED_SYNC | SUSPENDED
  deriving DecidableEq, Repr

structure ControllerTuning (α : Type) where
  deadbandS : α
  seekThresholdS : α
  sustainEvals : ℕ
  instantSeekS : α
  seekSpacingMs : α
  seekCooldownMs : α
  postSeekStableEvals : ℕ
  seekLeadS : α
  seekLeadMaxS : α
  rateZoneMaxS : α
  nudgeRate : α
  nudgeExitS : α
  nudgeStuckMs : α
  pausedReconcileS : α

/-- The controller. A `lastSeekAt` of `none` is `-Infinity`: any spacing has passed since. -/
structure DriftController (α : Type) where
  tuning : ControllerTuning α
  state : ControllerState
  driftWindow : List α
  outOfBandCount : ℕ
  lastSeekAt : Option α
  seekTargetS : Option α
  stableEvals : ℕ
  nudgeSince : Option α
  rateApplied : Bool
  nudgeSign : SignType
  seekLead : α
  seeksIssued : ℕ
  nudgesIssued : ℕ
  lastDrift : α

structure ControllerStatus (α : Type) where
  state : ControllerState
  lastDriftS : α
  seekLeadS : α
  seeksIssued : ℕ
  nudgesIssued : ℕ

variable {α : Type} [Arith α]

def DEFAULT_CONTROLLER_TUNING : ControllerTuning α where
  deadbandS := lit 0.12
  seekThresholdS := lit 0.15
  sustainEvals := 2
  instantSeekS := lit 2.5
  seekSpacingMs := lit 3000
  seekCooldownMs := lit 1500
  postSeekStableEvals := 2
  seekLeadS := lit 0.3
  seekLeadMaxS := lit 1.2
  rateZoneMaxS := lit 0.6
  nudgeRate := lit 0.05
  nudgeExitS := lit 0.06
  nudgeStuckMs := lit 15000
  pausedReconcileS := lit 0.25

/-- The media position of the room at a server instant. -/
def projectMediaTime (tl : RoomTimeline α) (serverNow : α) : α :=
  if !tl.isPlaying then tl.mediaTime
  else tl.mediaTime + ((serverNow - tl.stampedAt) / lit 1000) * tl.rate

namespace DriftController

def new (tuning : ControllerTuning α) : DriftController α where
  tuning := tuning
  state := .LOCKED
  driftWindow := []
  outOfBandCount := 0
  lastSeekAt := none
  seekTargetS := none
  stableEvals := 0
  nudgeSince := none
  rateApplied := false
  nudgeSign := 0
  seekLead := tuning.seekLeadS
  seeksIssued := 0
  nudgesIssued := 0
  lastDrift := lit 0

/-- Stand down; the caller restores the rate of the player. -/
def suspend (c : DriftController α) : DriftController α :=
  { c with
    state := .SUSPENDED, driftWindow := [], outOfBandCount := 0, rateApplied := false, nudgeSign := 0,
    nudgeSince := none, seekTargetS := none, stableEvals := 0 }

def resume (c : DriftController α) : DriftController α :=
  { c with state := .LOCKED, driftWindow := [], outOfBandCount := c.tuning.sustainEvals }

def getStatus (c : DriftController α) : ControllerStatus α where
  state := c.state
  lastDriftS := c.lastDrift
  seekLeadS := c.seekLead
  seeksIssued := c.seeksIssued
  nudgesIssued := c.nudgesIssued

/-- `input.tLocal - this.lastSeekAt < ms`. -/
def seekWithin (c : DriftController α) (tLocal ms : α) : Bool :=
  match c.lastSeekAt with
  | none => false
  | some at' => decide (tLocal - at' < ms)

/-- `input.tLocal - this.lastSeekAt > ms`. -/
def seekBeyond (c : DriftController α) (tLocal ms : α) : Bool :=
  match c.lastSeekAt with
  | none => true
  | some at' => decide (tLocal - at' > ms)

def issueSeek (c : DriftController α) (input : ControllerInput α) (tl : RoomTimeline α) :
    ControllerAction α × DriftController α :=
  let lead := if tl.isPlaying then c.seekLead else lit 0
  let target := projectMediaTime tl input.serverNow + lead
  (.seek (Arith.max (lit 0) target),
   { c with
     state := .SEEKING, lastSeekAt := some input.tLocal, stableEvals := 0, outOfBandCount := 0, driftWindow := [],
     seeksIssued := c.seeksIssued + 1, rateApplied := false, nudgeSign := 0, seekTargetS := some target })

/-- The lead is learned from the residual of a corrective seek, not from that of a start. -/
def learnLead (c : DriftController α) (residual : α) : DriftController α :=
  match c.seekTargetS with
  | none => c
  | some _ =>
    { c with
      seekLead := Arith.min c.tuning.seekLeadMaxS (Arith.max (lit 0) (c.seekLead - residual * lit 0.5)),
      seekTargetS := none }

/-- The player is buffering: the settling after a seek is part of the seek. -/
def whileBuffering (c : DriftController α) : ControllerAction α × DriftController α :=
  let c := if c.state ≠ .SEEKING then { c with state := .BUFFERING } else c
  if c.rateApplied then (.clearRate, { c with rateApplied := false, nudgeSign := 0, nudgeSince := none })
  else (.none, c)

/-- The room is paused. -/
def whilePaused (c : DriftController α) (input : ControllerInput α) (tl : RoomTimeline α) :
    ControllerAction α × DriftController α :=
  if input.playerState = .playing then (.pause, c)
  else
    let c := { c with state := .PAUSED_SYNC }
    let err := Arith.abs (input.playerTime - tl.mediaTime)
    if err > c.tuning.pausedReconcileS ∧ c.seekBeyond input.tLocal c.tuning.seekSpacingMs = true then
      (.seek tl.mediaTime, { c with lastSeekAt := some input.tLocal, seeksIssued := c.seeksIssued + 1 })
    else (.none, c)

/-- The room is playing and the player is not started: the start is measured as a seek, but not learned from. -/
def commandStart (c : DriftController α) (input : ControllerInput α) : ControllerAction α × DriftController α :=
  (.play, { c with state := .SEEKING, lastSeekAt := some input.tLocal, seekTargetS := none, stableEvals := 0,
                   driftWindow := [] })

/-- The middle one of the last readings. -/
def median (window : List α) : α :=
  let sorted := window.insertionSort fun a b => ¬a - b > lit 0
  sorted.getD (sorted.length / 2) (lit 0)

/-- After a seek: the drift is ignored until it has cooled down and is stable. -/
def settle (c : DriftController α) (input : ControllerInput α) (tl : RoomTimeline α) (drift : α) :
    ControllerAction α × DriftController α :=
  if c.seekWithin input.tLocal c.tuning.seekCooldownMs then (.none, c)
  else if Arith.abs drift ≤ c.tuning.deadbandS then
    let c := { c with stableEvals := c.stableEvals + 1 }
    if c.stableEvals ≥ c.tuning.postSeekStableEvals then
      (.none, { c.learnLead drift with state := .LOCKED, stableEvals := 0 })
    else (.none, c)
  else
    let c := { c with stableEvals := 0 }
    if c.seekWithin input.tLocal c.tuning.seekSpacingMs then (.none, c)
    else (c.learnLead drift).issueSeek input tl

def nudge (c : DriftController α) (wantSign : SignType) : ControllerAction α × DriftController α :=
  (.setRate (if wantSign = 1 then lit 1 - c.tuning.nudgeRate else lit 1 + c.tuning.nudgeRate),
   { c with nudgesIssued := c.nudgesIssued + 1 })

/-- Rate mode: the probe said that fractional rates stick and the error is small. -/
def rateMode (c : DriftController α) (input : ControllerInput α) (tl : RoomTimeline α) (drift : α) :
    ControllerAction α × DriftController α :=
  let wantSign : SignType := if drift > lit 0 then 1 else -1
  if c.state ≠ .NUDGING then
    { c with state := .NUDGING, nudgeSince := some input.tLocal, rateApplied := true, nudgeSign := wantSign }.nudge
      wantSign
  else if wantSign ≠ c.nudgeSign then
    { c with nudgeSign := wantSign, nudgeSince := some input.tLocal }.nudge wantSign
  else
    match c.nudgeSince with
    | none => (.none, c)
    | some since =>
      if input.tLocal - since > c.tuning.nudgeStuckMs then
        { c with nudgeSince := none, rateApplied := false, nudgeSign := 0 }.issueSeek input tl
      else (.none, c)

/-- The drift is in the deadband. -/
def inBand (c : DriftController α) (absDrift : α) : ControllerAction α × DriftController α :=
  let c := { c with outOfBandCount := 0 }
  if c.state = .NUDGING ∧ absDrift ≤ c.tuning.nudgeExitS then
    (.clearRate, { c with state := .LOCKED, nudgeSince := none, rateApplied := false, nudgeSign := 0 })
  else if c.state ≠ .NUDGING then (.none, { c with state := .LOCKED })
  else (.none, c)

/-- The drift is out of the deadband. -/
def outOfBand (c : DriftController α) (input : ControllerInput α) (tl : RoomTimeline α) (drift : α)
    (wasBuffering : Bool) : ControllerAction α × DriftController α :=
  let absDrift := Arith.abs drift
  let c := { c with outOfBandCount := c.outOfBandCount + 1 }
  if c.outOfBandCount < c.tuning.sustainEvals ∧ wasBuffering = false then (.none, c)
  else if input.fractionalRateOK = true ∧ absDrift ≤ c.tuning.rateZoneMaxS then c.rateMode input tl drift
  else if absDrift ≥ c.tuning.seekThresholdS ∨ wasBuffering = true then
    if c.seekWithin input.tLocal c.tuning.seekSpacingMs then (.none, c) else c.issueSeek input tl
  else if c.state ≠ .NUDGING then (.none, { c with state := .LOCKED })
  else (.none, c)

/-- A reading of the playing player: leaving BUFFERING, and the median of the last three drifts. -/
def measure (c : DriftController α) (rawDrift : α) : DriftController α :=
  let pushed := c.driftWindow ++ [rawDrift]
  let driftWindow := if pushed.length > 3 then pushed.tail else pushed
  { c with
    state := if c.state = .BUFFERING then .LOCKED else c.state, driftWindow := driftWindow,
    lastDrift := median driftWindow }

/-- The correction of a measured drift. -/
def correct (c : DriftController α) (input : ControllerInput α) (tl : RoomTimeline α) (rawDrift : α)
    (wasBuffering : Bool) : ControllerAction α × DriftController α :=
  let drift := c.lastDrift
  if c.state = .SEEKING then c.settle input tl drift
  else if Arith.abs rawDrift > c.tuning.instantSeekS then c.issueSeek input tl
  else if Arith.abs drift ≤ c.tuning.deadbandS then c.inBand (Arith.abs drift)
  else c.outOfBand input tl drift wasBuffering

/-- Room and player are playing. -/
def whilePlaying (c : DriftController α) (input : ControllerInput α) (tl : RoomTimeline α) :
    ControllerAction α × DriftController α :=
  let rawDrift := input.playerTime - projectMediaTime tl input.serverNow
  (c.measure rawDrift).correct input tl rawDrift (decide (c.state = .BUFFERING))

def evaluate (c : DriftController α) (input : ControllerInput α) : ControllerAction α × DriftController α :=
  match input.timeline with
  | none => (.none, c)
  | some tl =>
    if c.state = .SUSPENDED then (.none, c)
    else if input.playerState = .buffering then c.whileBuffering
    else if !tl.isPlaying then c.whilePaused input tl
    else if input.playerState = .paused ∨ input.playerState = .cued then c.commandStart input
    else if input.playerState ≠ .playing then (.none, c)
    else c.whilePlaying input tl

/-! ## Answers -/

/-- An answer that leaves the play state and the rate of the player to others. -/
def Corrects : ControllerAction α → Prop
  | .none => True
  | .seek _ => True
  | .setRate _ => False
  | .clearRate => False
  | .play => False
  | .pause => False

/-- No nudge is applied. -/
def Unnudged (c : DriftController α) : Prop := c.state ≠ .NUDGING ∧ c.rateApplied = false

/-- The answer only corrects, and no nudge is applied after it. -/
def Calm (r : ControllerAction α × DriftController α) : Prop := Corrects r.1 ∧ r.2.Unnudged

theorem new_unnudged (tuning : ControllerTuning α) : (new tuning).Unnudged := ⟨by simp [new], rfl⟩

omit [Arith α] in
theorem suspend_unnudged (c : DriftController α) : c.suspend.Unnudged := ⟨by simp [suspend], rfl⟩

omit [Arith α] in
theorem resume_unnudged {c : DriftController α} (h : c.Unnudged) : c.resume.Unnudged := ⟨by simp [resume], h.2⟩

theorem issueSeek_calm (c : DriftController α) (input : ControllerInput α) (tl : RoomTimeline α) :
    Calm (c.issueSeek input tl) := ⟨trivial, by simp [issueSeek], rfl⟩

theorem learnLead_rateApplied (c : DriftController α) (residual : α) :
    (c.learnLead residual).rateApplied = c.rateApplied := by
  unfold learnLead
  split <;> rfl

omit [Arith α] in
theorem whileBuffering_calm {c : DriftController α} (h : c.Unnudged) : Calm c.whileBuffering := by
  unfold whileBuffering
  dsimp only
  split
  · rw [if_neg (by simp [h.2])]
    exact ⟨trivial, by simp, h.2⟩
  · rw [if_neg (by simp [h.2])]
    exact ⟨trivial, h⟩

theorem settle_calm {c : DriftController α} (input : ControllerInput α) (tl : RoomTimeline α) (drift : α)
    (h : c.Unnudged) : Calm (c.settle input tl drift) := by
  unfold settle
  dsimp only
  split
  · exact ⟨trivial, h⟩
  · split
    · split
      · exact ⟨trivial, by simp, (learnLead_rateApplied ..).trans h.2⟩
      · exact ⟨trivial, h⟩
    · split
      · exact ⟨trivial, h⟩
      · exact issueSeek_calm ..

theorem inBand_calm {c : DriftController α} (absDrift : α) (h : c.Unnudged) : Calm (c.inBand absDrift) := by
  unfold inBand
  dsimp only
  rw [if_neg fun hn => h.1 hn.1, if_pos h.1]
  exact ⟨trivial, by simp, h.2⟩

/-- Rate mode is the only source of a nudge. -/
theorem outOfBand_calm {c : DriftController α} {input : ControllerInput α} (tl : RoomTimeline α) (drift : α)
    (wasBuffering : Bool) (hr : input.fractionalRateOK = false) (h : c.Unnudged) :
    Calm (c.outOfBand input tl drift wasBuffering) := by
  unfold outOfBand
  dsimp only
  split
  · exact ⟨trivial, h⟩
  · rw [if_neg (by simp [hr])]
    split
    · split
      · exact ⟨trivial, h⟩
      · exact issueSeek_calm ..
    · rw [if_pos h.1]
      exact ⟨trivial, by simp, h.2⟩

theorem measure_unnudged {c : DriftController α} (rawDrift : α) (h : c.Unnudged) : (c.measure rawDrift).Unnudged := by
  refine ⟨?_, h.2⟩
  show (if c.state = .BUFFERING then ControllerState.LOCKED else c.state) ≠ .NUDGING
  split
  · simp
  · exact h.1

theorem correct_calm {c : DriftController α} {input : ControllerInput α} (tl : RoomTimeline α) (rawDrift : α)
    (wasBuffering : Bool) (hr : input.fractionalRateOK = false) (h : c.Unnudged) :
    Calm (c.correct input tl rawDrift wasBuffering) := by
  unfold correct
  dsimp only
  split
  · exact settle_calm _ _ _ h
  · split
    · exact issueSeek_calm ..
    · split
      · exact inBand_calm _ h
      · exact outOfBand_calm tl _ _ hr h

/-- The room is playing and the player waits to be started. -/
def Starts (c : DriftController α) (input : ControllerInput α) : Prop :=
  c.state ≠ .SUSPENDED ∧ (∃ tl, input.timeline = some tl ∧ tl.isPlaying = true) ∧
    (input.playerState = .paused ∨ input.playerState = .cued)

theorem evaluate_starts {c : DriftController α} (input : ControllerInput α) (h : c.Starts input) :
    c.evaluate input = c.commandStart input := by
  obtain ⟨hs, ⟨tl, ht, hp⟩, hw⟩ := h
  have hb : input.playerState ≠ .buffering := by
    rcases hw with hw | hw <;> rw [hw] <;> decide
  unfold evaluate
  rw [ht]
  simp only [if_neg hs, if_neg hb, hp, Bool.not_true, Bool.false_eq_true, if_false, if_pos hw]

/-- What a reading is answered with where fractional rates are off: a player is paused only while it plays, started only
while it waits to be, and no rate is set or cleared. -/
theorem evaluate_cases {c : DriftController α} (input : ControllerInput α) (hr : input.fractionalRateOK = false)
    (h : c.Unnudged) :
    (c.evaluate input).2.Unnudged ∧
      (Corrects (c.evaluate input).1 ∨ ((c.evaluate input).1 = .pause ∧ input.playerState = .playing) ∨
        ((c.evaluate input).1 = .play ∧ c.Starts input)) := by
  unfold evaluate
  cases ht : input.timeline with
  | none => exact ⟨h, .inl trivial⟩
  | some tl =>
    dsimp only
    split
    · exact ⟨h, .inl trivial⟩
    · rename_i hs
      split
      · exact (whileBuffering_calm h).symm.imp id .inl
      · split
        · unfold whilePaused
          dsimp only
          split
          · exact ⟨h, .inr (.inl ⟨rfl, by assumption⟩)⟩
          · split <;> exact ⟨⟨by simp, h.2⟩, .inl trivial⟩
        · rename_i hp
          split
          · exact ⟨⟨by simp [commandStart], h.2⟩, .inr (.inr ⟨rfl, hs, ⟨tl, ht, by simpa using hp⟩, by assumption⟩)⟩
          · split
            · exact ⟨h, .inl trivial⟩
            · exact (correct_calm tl _ _ hr (measure_unnudged _ h)).symm.imp id .inl

/-- The controller is locked and sees neither a playing player nor a lifecycle that it reconciles: there is no timeline,
or the room is playing and the player has not loaded its video or has come to its end. -/
def Blind (c : DriftController α) (input : ControllerInput α) : Prop :=
  c.state = .LOCKED ∧
    (input.timeline = none ∨
      (∃ tl, input.timeline = some tl ∧ tl.isPlaying = true) ∧
        (input.playerState = .unstarted ∨ input.playerState = .ended))

/-- Without a playing player the controller stays silent and locked exactly when it is blind, and then it has looked at
nothing. -/
theorem evaluate_blind_iff (c : DriftController α) (input : ControllerInput α)
    (h : input.timeline = none ∨ input.playerState ≠ .playing) :
    ((c.evaluate input).1 = .none ∧ (c.evaluate input).2.state = .LOCKED) ↔ c.Blind input := by
  constructor
  · rintro ⟨ha, hl⟩
    unfold evaluate at ha hl
    cases ht : input.timeline with
    | none =>
      rw [ht] at hl
      exact ⟨hl, .inl ht⟩
    | some tl =>
      have hn : input.playerState ≠ .playing := h.resolve_left (by simp [ht])
      simp only [ht] at ha hl
      split at hl
      · rename_i hs
        rw [hs] at hl
        cases hl
      · rename_i hs
        rw [if_neg hs] at ha
        split at hl
        · -- buffering leaves the controller seeking or buffering
          unfold whileBuffering at hl
          dsimp only at hl
          split at hl <;> split at hl <;> simp_all
        · rename_i hb
          rw [if_neg hb] at ha
          split at hl
          · unfold whilePaused at hl
            dsimp only at hl
            rw [if_neg hn] at hl
            split at hl <;> cases hl
          · rename_i hp
            rw [if_neg hp] at ha
            split at hl
            · cases hl
            · rename_i hw
              rw [if_neg hw, if_pos hn] at ha
              refine ⟨hl, .inr ⟨⟨tl, ht, by simpa using hp⟩, ?_⟩⟩
              cases hps : input.playerState <;> simp_all
  · rintro ⟨hl, ht | ⟨⟨tl, ht, hp⟩, hps⟩⟩
    · simp [evaluate, ht, hl]
    · rcases hps with hps | hps <;> simp [evaluate, ht, hl, hp, hps]

end DriftController
end SyncCore
end WatchParty
