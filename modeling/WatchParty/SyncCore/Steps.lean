import WatchParty.Lib.Machine
import WatchParty.SyncCore.Drift

/-!
# One evaluation of the reactive controller

What an evaluation can do, said once: one constructor for each way through `evaluate`, with the guards that lead there.

- `Corrected` are the ways of the drift logic, `Evaluated` those of a whole evaluation;
- `Controls` is what is called on a controller, `controlled` the machine.
-/

namespace WatchParty
namespace SyncCore

open Arith

variable {α : Type} [Arith α]

namespace DriftController

/-- What a correction does to the controller that has taken the reading. -/
inductive Corrected (m : DriftController α) (input : ControllerInput α) (tl : RoomTimeline α) (raw : α)
    (wasBuffering : Bool) : ControllerAction α × DriftController α → Prop
  | cooling (seeking : m.state = .SEEKING)
      (early : m.seekWithin input.tLocal m.tuning.seekCooldownMs = true) :
      Corrected m input tl raw wasBuffering (.none, m)
  | settling (seeking : m.state = .SEEKING)
      (cooled : ¬m.seekWithin input.tLocal m.tuning.seekCooldownMs = true)
      (inside : Arith.abs m.lastDrift ≤ m.tuning.deadbandS)
      (few : ¬m.stableEvals + 1 ≥ m.tuning.postSeekStableEvals) :
      Corrected m input tl raw wasBuffering (.none, { m with stableEvals := m.stableEvals + 1 })
  | settled (seeking : m.state = .SEEKING)
      (cooled : ¬m.seekWithin input.tLocal m.tuning.seekCooldownMs = true)
      (inside : Arith.abs m.lastDrift ≤ m.tuning.deadbandS)
      (enough : m.stableEvals + 1 ≥ m.tuning.postSeekStableEvals) :
      Corrected m input tl raw wasBuffering
        (.none, { ({ m with stableEvals := m.stableEvals + 1 } : DriftController α).learnLead m.lastDrift with
                    state := .LOCKED, stableEvals := 0 })
  | waiting (seeking : m.state = .SEEKING)
      (outside : ¬Arith.abs m.lastDrift ≤ m.tuning.deadbandS)
      (early : m.seekWithin input.tLocal m.tuning.seekSpacingMs = true) :
      Corrected m input tl raw wasBuffering (.none, { m with stableEvals := 0 })
  | missed (seeking : m.state = .SEEKING)
      (cooled : ¬m.seekWithin input.tLocal m.tuning.seekCooldownMs = true)
      (outside : ¬Arith.abs m.lastDrift ≤ m.tuning.deadbandS)
      (spaced : ¬m.seekWithin input.tLocal m.tuning.seekSpacingMs = true) :
      Corrected m input tl raw wasBuffering
        ((({ m with stableEvals := 0 } : DriftController α).learnLead m.lastDrift).issueSeek input tl)
  | gross (steady : m.state ≠ .SEEKING) (far : Arith.abs raw > m.tuning.instantSeekS) :
      Corrected m input tl raw wasBuffering (m.issueSeek input tl)
  | regained (nudging : m.state = .NUDGING) (near : ¬Arith.abs raw > m.tuning.instantSeekS) :
      Corrected m input tl raw wasBuffering
        (.clearRate, { m with outOfBandCount := 0, state := .LOCKED, nudgeSince := none, rateApplied := false,
                              nudgeSign := 0 })
  | inBand (steady : m.state ≠ .SEEKING) (near : ¬Arith.abs raw > m.tuning.instantSeekS) :
      Corrected m input tl raw wasBuffering
        (.none, { m with outOfBandCount := 0, state := if m.state ≠ .NUDGING then .LOCKED else m.state })
  | outOfBand (steady : m.state ≠ .SEEKING) (near : ¬Arith.abs raw > m.tuning.instantSeekS) :
      Corrected m input tl raw wasBuffering (.none, { m with outOfBandCount := m.outOfBandCount + 1 })
  | tolerated (steady : m.state ≠ .SEEKING) (near : ¬Arith.abs raw > m.tuning.instantSeekS) :
      Corrected m input tl raw wasBuffering
        (.none, { m with outOfBandCount := m.outOfBandCount + 1,
                         state := if m.state ≠ .NUDGING then .LOCKED else m.state })
  | nudge (wantSign : SignType) (steady : m.state ≠ .SEEKING) (idle : m.state ≠ .NUDGING)
      (sign : wantSign = 1 ∨ wantSign = -1) :
      Corrected m input tl raw wasBuffering
        (({ m with outOfBandCount := m.outOfBandCount + 1, state := .NUDGING, nudgeSince := some input.tLocal,
                   rateApplied := true, nudgeSign := wantSign } : DriftController α).nudge wantSign)
  | reaim (wantSign : SignType) (nudging : m.state = .NUDGING) (sign : wantSign = 1 ∨ wantSign = -1) :
      Corrected m input tl raw wasBuffering
        (({ m with outOfBandCount := m.outOfBandCount + 1, nudgeSign := wantSign,
                   nudgeSince := some input.tLocal } : DriftController α).nudge wantSign)
  | stuck (since : α) (nudging : m.state = .NUDGING) (nudged : m.nudgeSince = some since)
      (long : input.tLocal - since > m.tuning.nudgeStuckMs) :
      Corrected m input tl raw wasBuffering
        (({ m with outOfBandCount := m.outOfBandCount + 1, nudgeSince := none, rateApplied := false,
                   nudgeSign := 0 } : DriftController α).issueSeek input tl)
  | seek (steady : m.state ≠ .SEEKING) (spaced : ¬m.seekWithin input.tLocal m.tuning.seekSpacingMs = true) :
      Corrected m input tl raw wasBuffering
        (({ m with outOfBandCount := m.outOfBandCount + 1 } : DriftController α).issueSeek input tl)

section Ways

variable {m : DriftController α} {input : ControllerInput α} {tl : RoomTimeline α} {raw : α} {wasBuffering : Bool}

theorem corrected_settle (seeking : m.state = .SEEKING) :
    m.Corrected input tl raw wasBuffering (m.settle input tl m.lastDrift) := by
  unfold settle
  dsimp only
  split
  · exact .cooling seeking (by assumption)
  · rename_i cooled
    split
    · rename_i inside
      split
      · exact .settled seeking cooled inside (by assumption)
      · exact .settling seeking cooled inside (by assumption)
    · rename_i outside
      split
      · exact .waiting seeking outside (by assumption)
      · exact .missed seeking cooled outside (by assumption)

theorem corrected_inBand (steady : m.state ≠ .SEEKING) (near : ¬Arith.abs raw > m.tuning.instantSeekS) :
    m.Corrected input tl raw wasBuffering (m.inBand (Arith.abs m.lastDrift)) := by
  have hb : m.Corrected input tl raw wasBuffering _ := .inBand steady near
  unfold DriftController.inBand
  dsimp only
  split
  · rename_i h
    exact .regained h.1 near
  · split
    · rename_i idle
      rwa [if_pos idle] at hb
    · rename_i nudging
      rwa [if_neg nudging] at hb

theorem corrected_rateMode (steady : m.state ≠ .SEEKING) (near : ¬Arith.abs raw > m.tuning.instantSeekS) :
    m.Corrected input tl raw wasBuffering
      (({ m with outOfBandCount := m.outOfBandCount + 1 } : DriftController α).rateMode input tl m.lastDrift) := by
  unfold rateMode
  dsimp only
  have sign : ((if m.lastDrift > lit 0 then 1 else -1 : SignType) = 1) ∨
      (if m.lastDrift > lit 0 then 1 else -1 : SignType) = -1 := by
    split
    · exact .inl rfl
    · exact .inr rfl
  generalize (if m.lastDrift > lit 0 then 1 else -1 : SignType) = wantSign at sign ⊢
  split
  · rename_i idle
    exact .nudge wantSign steady idle sign
  · rename_i nudging
    have nudging := not_not.mp nudging
    split
    · exact .reaim wantSign nudging sign
    · split
      · exact .outOfBand steady near
      · split
        · exact .stuck _ nudging (by assumption) (by assumption)
        · exact .outOfBand steady near

theorem corrected_outOfBand (steady : m.state ≠ .SEEKING) (near : ¬Arith.abs raw > m.tuning.instantSeekS) :
    m.Corrected input tl raw wasBuffering (m.outOfBand input tl m.lastDrift wasBuffering) := by
  have ht : m.Corrected input tl raw wasBuffering _ := .tolerated steady near
  unfold DriftController.outOfBand
  dsimp only
  split
  · exact .outOfBand steady near
  · split
    · exact corrected_rateMode steady near
    · split
      · split
        · exact .outOfBand steady near
        · exact .seek steady (by assumption)
      · split
        · rename_i idle
          rwa [if_pos idle] at ht
        · rename_i nudging
          rwa [if_neg nudging] at ht

/-- **The ways of the drift logic.** -/
theorem corrected (m : DriftController α) (input : ControllerInput α) (tl : RoomTimeline α) (raw : α)
    (wasBuffering : Bool) : m.Corrected input tl raw wasBuffering (m.correct input tl raw wasBuffering) := by
  unfold correct
  dsimp only
  split
  · exact corrected_settle (by assumption)
  · rename_i steady
    split
    · exact .gross steady (by assumption)
    · rename_i near
      split
      · exact corrected_inBand steady near
      · exact corrected_outOfBand steady near

end Ways

/-- What an evaluation does. -/
inductive Evaluated (c : DriftController α) (input : ControllerInput α) : ControllerAction α × DriftController α → Prop
  | idle (away : input.timeline = none ∨ c.state = .SUSPENDED) : Evaluated c input (.none, c)
  | stalled (tl : RoomTimeline α) (room : input.timeline = some tl) (awake : c.state ≠ .SUSPENDED)
      (player : input.playerState = .buffering) (applied : c.rateApplied = true) :
      Evaluated c input
        (.clearRate, { c with state := if c.state ≠ .SEEKING then .BUFFERING else c.state, rateApplied := false,
                              nudgeSign := 0, nudgeSince := none })
  | buffering (tl : RoomTimeline α) (room : input.timeline = some tl) (awake : c.state ≠ .SUSPENDED)
      (player : input.playerState = .buffering) (unapplied : ¬c.rateApplied = true) :
      Evaluated c input (.none, { c with state := if c.state ≠ .SEEKING then .BUFFERING else c.state })
  | pause (tl : RoomTimeline α) (room : input.timeline = some tl) (paused : tl.isPlaying = false)
      (player : input.playerState = .playing) : Evaluated c input (.pause, c)
  | reconcile (tl : RoomTimeline α) (room : input.timeline = some tl) (awake : c.state ≠ .SUSPENDED)
      (paused : tl.isPlaying = false) (buffered : input.playerState ≠ .buffering)
      (still : input.playerState ≠ .playing)
      (off : Arith.abs (input.playerTime - tl.mediaTime) > c.tuning.pausedReconcileS)
      (spaced : c.seekBeyond input.tLocal c.tuning.seekSpacingMs = true) :
      Evaluated c input
        (.seek tl.mediaTime, { c with state := .PAUSED_SYNC, lastSeekAt := some input.tLocal,
                                      seeksIssued := c.seeksIssued + 1 })
  | hold (tl : RoomTimeline α) (room : input.timeline = some tl) (awake : c.state ≠ .SUSPENDED)
      (paused : tl.isPlaying = false) (buffered : input.playerState ≠ .buffering)
      (still : input.playerState ≠ .playing)
      (rest : ¬(Arith.abs (input.playerTime - tl.mediaTime) > c.tuning.pausedReconcileS ∧
        c.seekBeyond input.tLocal c.tuning.seekSpacingMs = true)) :
      Evaluated c input (.none, { c with state := .PAUSED_SYNC })
  | start (starts : c.Starts input) : Evaluated c input (c.commandStart input)
  | unloaded (tl : RoomTimeline α) (room : input.timeline = some tl) (playing : tl.isPlaying = true)
      (player : input.playerState = .unstarted ∨ input.playerState = .ended) : Evaluated c input (.none, c)
  | reading (tl : RoomTimeline α) (room : input.timeline = some tl) (awake : c.state ≠ .SUSPENDED)
      (playing : tl.isPlaying = true) (player : input.playerState = .playing)
      {r : ControllerAction α × DriftController α}
      (way : (c.measure (input.playerTime - projectMediaTime tl input.serverNow)).Corrected input tl
        (input.playerTime - projectMediaTime tl input.serverNow) (decide (c.state = .BUFFERING)) r) :
      Evaluated c input r

omit [Arith α] in
theorem whileBuffering_eq (c : DriftController α) :
    c.whileBuffering =
      if c.rateApplied = true then
        (.clearRate, { c with state := if c.state ≠ .SEEKING then .BUFFERING else c.state, rateApplied := false,
                              nudgeSign := 0, nudgeSince := none })
      else (.none, { c with state := if c.state ≠ .SEEKING then .BUFFERING else c.state }) := by
  unfold whileBuffering
  by_cases hs : c.state = .SEEKING
  · cases c
    cases hs
    simp
  · simp [hs]

/-- **The ways of an evaluation.** -/
theorem evaluated (c : DriftController α) (input : ControllerInput α) : c.Evaluated input (c.evaluate input) := by
  unfold evaluate
  split
  · exact .idle (.inl (by assumption))
  · rename_i tl room
    split
    · exact .idle (.inr (by assumption))
    · rename_i awake
      split
      · rename_i player
        rw [whileBuffering_eq]
        split
        · exact .stalled tl room awake player (by assumption)
        · exact .buffering tl room awake player (by assumption)
      · rename_i buffered
        split
        · rename_i paused
          have paused : tl.isPlaying = false := by simpa using paused
          unfold whilePaused
          split
          · exact .pause tl room paused (by assumption)
          · rename_i still
            dsimp only
            split
            · rename_i h
              exact .reconcile tl room awake paused buffered still h.1 h.2
            · exact .hold tl room awake paused buffered still (by assumption)
        · rename_i playing
          have playing : tl.isPlaying = true := by simpa using playing
          split
          · exact .start ⟨awake, ⟨tl, room, playing⟩, by assumption⟩
          · rename_i waits
            split
            · rename_i off
              refine .unloaded tl room playing ?_
              cases hps : input.playerState <;> simp_all
            · rename_i player
              exact .reading tl room awake playing (not_not.mp player) (corrected ..)

/-! ## Calls -/

end DriftController

/-- What is called on a reactive controller. -/
inductive Control (α : Type)
  | evaluate (input : ControllerInput α)
  | suspend
  | resume

/-- The input of an evaluation. -/
def Control.input? : Control α → Option (ControllerInput α)
  | .evaluate input => some input
  | .suspend => none
  | .resume => none

namespace DriftController

def control (c : DriftController α) : Control α → DriftController α × Option (ControllerAction α)
  | .evaluate input => ((c.evaluate input).2, some (c.evaluate input).1)
  | .suspend => (c.suspend, none)
  | .resume => (c.resume, none)

/-- A controller and the calls on it. -/
def controlled (tuning : ControllerTuning α) : Machine (DriftController α) (Control α) (Option (ControllerAction α)) where
  init := .new tuning
  step := control

end DriftController
end SyncCore
end WatchParty
