import WatchParty.Lib.Machine
import WatchParty.SyncCore.Drift

/-!
# The clock-discipline servo

`DisciplineController` of `shared/sync-core/discipline-controller.ts` over any number format: a servo around a reactive
controller whose seek threshold is the edge of the servo's zone and whose rate mode is off. A run is any list of calls.

- `DisciplineController.evaluate`: the reactive answer first, then `standDown` or the servo regime (`steady`);
- `Evaluated`, `evaluated`: what one evaluation does to the servo, by the answer that it gives;
- `evaluate_off_play`: without a playing player the servo learns nothing and sets no rate, except where the reactive
  controller is blind; a stand-down drops its integral.
-/

namespace WatchParty
namespace SyncCore

open Arith

structure ServoTuning (α : Type) where
  kp : α
  ki : α
  forgetting : α
  clampSpan : α
  commandHysteresis : α
  servoZoneS : α
  integralClampS : α

structure ServoStatus (α : Type) extends ControllerStatus α where
  servoActive : Bool
  bHatPpm : α
  commandedRate : α

structure DisciplineController (α : Type) where
  servo : ServoTuning α
  reactive : DriftController α
  integral : α
  bHat : α
  rlsP : α
  lastDrift : Option α
  lastT : Option α
  appliedRate : α
  lastCommand : α
  servoActive : Bool

variable {α : Type} [Arith α]

def DEFAULT_SERVO_TUNING : ServoTuning α where
  kp := lit 0.3
  ki := lit 0.05
  forgetting := lit 0.98
  clampSpan := lit 0.05
  commandHysteresis := lit 0.005
  servoZoneS := lit 0.6
  integralClampS := lit 2

namespace DisciplineController

def new (servo : ServoTuning α) (reactiveTuning : ControllerTuning α) : DisciplineController α where
  servo := servo
  reactive := .new { reactiveTuning with seekThresholdS := servo.servoZoneS }
  integral := lit 0
  bHat := lit 0
  rlsP := lit 1
  lastDrift := none
  lastT := none
  appliedRate := lit 1
  lastCommand := lit 1
  servoActive := false

/-- The estimate of the player's skew survives resets on purpose. -/
def resetServo (c : DisciplineController α) : DisciplineController α :=
  { c with integral := lit 0, lastDrift := none, lastT := none, servoActive := false, appliedRate := lit 1,
           lastCommand := lit 1 }

def suspend (c : DisciplineController α) : DisciplineController α :=
  { c with reactive := c.reactive.suspend }.resetServo

def resume (c : DisciplineController α) : DisciplineController α := { c with reactive := c.reactive.resume }

def getStatus (c : DisciplineController α) : ServoStatus α where
  toControllerStatus := c.reactive.getStatus
  servoActive := c.servoActive
  bHatPpm := c.bHat * lit 1e6
  commandedRate := c.lastCommand

/-- The engine reports what the player applied. -/
def onRateApplied (c : DisciplineController α) (applied : α) : DisciplineController α :=
  { c with appliedRate := applied }

/-- The interval since the last reading of the servo, where it is one to learn from: its length and the drift at its
start. -/
def interval (c : DisciplineController α) (t : α) : Option (α × α) :=
  match c.lastT, c.lastDrift with
  | some lastT, some lastDrift =>
    let dt := t - lastT
    if dt > lit 0 ∧ dt < lit 2 then some (dt, lastDrift) else none
  | _, _ => none

/-- The skew that was observed over an interval, corrected for the rate that is believed to have been applied in it. -/
def measuredB (c : DisciplineController α) (drift dt lastDrift : α) : α :=
  (drift - lastDrift) / dt - (c.appliedRate - lit 1)

/-- Scalar RLS with forgetting, and the integral, which is frozen while the last command was clamped. -/
def learn (c : DisciplineController α) (drift t : α) : DisciplineController α :=
  match c.interval t with
  | none => c
  | some (dt, lastDrift) =>
    let g := c.rlsP / (c.servo.forgetting + c.rlsP)
    let clamped := decide (Arith.abs (c.lastCommand - lit 1) ≥ c.servo.clampSpan - lit 1e-9)
    { c with
      bHat := c.bHat + g * (c.measuredB drift dt lastDrift - c.bHat)
      rlsP := (lit 1 - g) * (c.rlsP / c.servo.forgetting)
      integral :=
        if clamped then c.integral
        else Arith.max (-c.servo.integralClampS) (Arith.min c.servo.integralClampS (c.integral + drift * dt)) }

/-- The command of the servo. -/
def command (c : DisciplineController α) (drift : α) : α :=
  let r := lit 1 - c.servo.kp * drift - c.servo.ki * c.integral - c.bHat
  Arith.max (lit 1 - c.servo.clampSpan) (Arith.min (lit 1 + c.servo.clampSpan) r)

/-- The servo regime, on the drift that the reactive controller saw last. -/
def steady (c : DisciplineController α) (tLocal : α) : ControllerAction α × DisciplineController α :=
  let drift := c.reactive.getStatus.lastDriftS
  if Arith.abs drift > c.servo.servoZoneS then (.none, c)
  else
    let t := tLocal / lit 1000
    let c : DisciplineController α := { c.learn drift t with lastT := some t, lastDrift := some drift }
    let r := c.command drift
    let c : DisciplineController α := { c with lastCommand := r, servoActive := true }
    if Arith.abs (r - c.appliedRate) < c.servo.commandHysteresis then (.none, c)
    else (.setRate r, { c with appliedRate := r })

/-- The reactive controller acts or is not locked. -/
def standDown (c : DisciplineController α) (playerState : PlayerLifecycle) (act : ControllerAction α) :
    ControllerAction α × DisciplineController α :=
  if c.servoActive = true ∧ playerState ≠ .playing then
    let c := { c.resetServo with appliedRate := lit 1 }
    match act with
    | .none => (.clearRate, c)
    | _ => (act, c)
  else (act, c)

def evaluate (c : DisciplineController α) (input : ControllerInput α) :
    ControllerAction α × DisciplineController α :=
  let (act, reactive) := c.reactive.evaluate { input with fractionalRateOK := false }
  let c := { c with reactive := reactive }
  match act with
  | .seek toMediaTime => (.seek toMediaTime, c.resetServo)
  | .none =>
    if reactive.getStatus.state ≠ .LOCKED then c.standDown input.playerState .none else c.steady input.tLocal
  | act => c.standDown input.playerState act

/-! ## One evaluation -/

/-- The reactive answer: its rate mode is off. -/
def react (c : DisciplineController α) (input : ControllerInput α) : ControllerAction α × DriftController α :=
  c.reactive.evaluate { input with fractionalRateOK := false }

theorem evaluate_eq (c : DisciplineController α) (input : ControllerInput α) :
    c.evaluate input =
      match (c.react input).1 with
      | .seek toMediaTime => (.seek toMediaTime, { c with reactive := (c.react input).2 }.resetServo)
      | .none =>
        if (c.react input).2.getStatus.state ≠ .LOCKED then
          { c with reactive := (c.react input).2 }.standDown input.playerState .none
        else { c with reactive := (c.react input).2 }.steady input.tLocal
      | act => { c with reactive := (c.react input).2 }.standDown input.playerState act := rfl

/-- What one evaluation does to the servo, by the answer that it gives. -/
inductive Evaluated (c : DisciplineController α) (input : ControllerInput α) :
    ControllerAction α × DisciplineController α → Prop
  | seek (toMediaTime : α) :
      Evaluated c input (.seek toMediaTime, { c with reactive := (c.react input).2 }.resetServo)
  | clear (active : c.servoActive = true) (off : input.playerState ≠ .playing) :
      Evaluated c input (.clearRate, { c with reactive := (c.react input).2 }.resetServo)
  | start (active : c.servoActive = true) (starts : c.reactive.Starts input) :
      Evaluated c input (.play, { c with reactive := (c.react input).2 }.resetServo)
  | pass (act : ControllerAction α)
      (kind : act = .none ∨ act = .pause ∨ act = .play ∧ c.servoActive = false) :
      Evaluated c input (act, { c with reactive := (c.react input).2 })
  | steady (silent : (c.react input).1 = .none) (locked : (c.react input).2.state = .LOCKED) :
      Evaluated c input ({ c with reactive := (c.react input).2 }.steady input.tLocal)

omit [Arith α] in
theorem starts_off_play {c : DriftController α} {input : ControllerInput α} (h : c.Starts input) :
    input.playerState ≠ .playing := by
  rcases h.2.2 with h | h <;> rw [h] <;> decide

theorem evaluated {c : DisciplineController α} (h : c.reactive.Unnudged) (input : ControllerInput α) :
    c.Evaluated input (c.evaluate input) := by
  obtain ⟨-, hk⟩ := DriftController.evaluate_cases { input with fractionalRateOK := false } rfl h
  change DriftController.Corrects (c.react input).1 ∨ ((c.react input).1 = .pause ∧ input.playerState = .playing) ∨
    ((c.react input).1 = .play ∧ c.reactive.Starts input) at hk
  rw [evaluate_eq]
  cases ha : (c.react input).1 with
  | none =>
    dsimp only
    split
    · unfold standDown
      split
      · rename_i hd
        exact .clear hd.1 hd.2
      · exact .pass .none (.inl rfl)
    · rename_i hl
      exact .steady ha (not_not.mp hl)
  | seek toMediaTime => exact .seek toMediaTime
  | setRate rate => simp [ha, DriftController.Corrects] at hk
  | clearRate => simp [ha, DriftController.Corrects] at hk
  | play =>
    have hs : c.reactive.Starts input := by simpa [ha, DriftController.Corrects] using hk
    dsimp only
    unfold standDown
    split
    · rename_i hd
      exact .start hd.1 hs
    · rename_i hd
      exact .pass .play (.inr (.inr ⟨rfl, by simpa [starts_off_play hs] using hd⟩))
  | pause =>
    have hp : input.playerState = .playing := by simpa [ha, DriftController.Corrects] using hk
    dsimp only
    unfold standDown
    rw [if_neg fun hd => hd.2 hp]
    exact .pass .pause (.inr (.inl rfl))

/-- An active servo that the reactive controller starts the player over is reset. -/
theorem evaluate_starts {c : DisciplineController α} {input : ControllerInput α} (active : c.servoActive = true)
    (starts : c.reactive.Starts input) :
    c.evaluate input = (.play, { c with reactive := (c.react input).2 }.resetServo) := by
  have ha : (c.react input).1 = .play :=
    congrArg Prod.fst (DriftController.evaluate_starts { input with fractionalRateOK := false } starts)
  rw [evaluate_eq, ha]
  exact if_pos ⟨active, starts_off_play starts⟩

@[simp] theorem learn_reactive (c : DisciplineController α) (drift t : α) :
    (c.learn drift t).reactive = c.reactive := by
  unfold learn
  split <;> rfl

@[simp] theorem learn_appliedRate (c : DisciplineController α) (drift t : α) :
    (c.learn drift t).appliedRate = c.appliedRate := by
  unfold learn
  split <;> rfl

@[simp] theorem steady_reactive (c : DisciplineController α) (tLocal : α) :
    (c.steady tLocal).2.reactive = c.reactive := by
  unfold steady
  dsimp only
  split
  · rfl
  · split <;> exact learn_reactive ..

/-- The servo regime keeps the rate that it believes in, or sets the one that it believes in from then on. -/
theorem steady_rate (c : DisciplineController α) (tLocal : α) :
    ((c.steady tLocal).1 = .none ∧ (c.steady tLocal).2.appliedRate = c.appliedRate) ∨
      ∃ r, (c.steady tLocal).1 = .setRate r ∧ (c.steady tLocal).2.appliedRate = r := by
  unfold steady
  dsimp only
  split
  · exact .inl ⟨rfl, rfl⟩
  · split
    · exact .inl ⟨rfl, learn_appliedRate ..⟩
    · exact .inr ⟨_, rfl, rfl⟩

/-- The evaluation takes a reading: it runs the servo regime, and the drift is in its zone. -/
def Reads (c : DisciplineController α) (input : ControllerInput α) : Prop :=
  (c.react input).1 = .none ∧ (c.react input).2.state = .LOCKED ∧
    ¬Arith.abs (c.react input).2.lastDrift > c.servo.servoZoneS

/-- Between two readings the servo keeps its belief, or forgets that there was one. -/
theorem evaluate_unread {c : DisciplineController α} (h : c.reactive.Unnudged) {input : ControllerInput α}
    (hr : ¬c.Reads input) :
    (c.evaluate input).2.lastT = none ∨
      (c.evaluate input).2.lastT = c.lastT ∧ (c.evaluate input).2.appliedRate = c.appliedRate ∧
        ((c.evaluate input).1 = .none ∨ (c.evaluate input).1 = .pause ∨ (c.evaluate input).1 = .play) := by
  have he := evaluated h input
  generalize c.evaluate input = r at he
  cases he with
  | seek toMediaTime => exact .inl rfl
  | clear active off => exact .inl rfl
  | start active starts => exact .inl rfl
  | pass act kind => exact .inr ⟨rfl, rfl, kind.imp id (.imp id And.left)⟩
  | steady silent locked =>
    have hz : Arith.abs (c.react input).2.lastDrift > c.servo.servoZoneS :=
      not_not.mp fun hz => hr ⟨silent, locked, hz⟩
    have hs : { c with reactive := (c.react input).2 }.steady input.tLocal =
        (.none, { c with reactive := (c.react input).2 }) := if_pos hz
    rw [hs]
    exact .inr ⟨rfl, rfl, .inl rfl⟩

/-- The reactive controller after one evaluation. -/
theorem evaluate_reactive {c : DisciplineController α} (h : c.reactive.Unnudged) (input : ControllerInput α) :
    (c.evaluate input).2.reactive = (c.react input).2 := by
  generalize hr : c.evaluate input = r
  have he := evaluated h input
  rw [hr] at he
  cases he with
  | seek | clear | start | pass => rfl
  | steady => exact steady_reactive ..

/-! ## Runs -/

/-- What is called on the controller. -/
inductive Call (α : Type)
  | evaluate (input : ControllerInput α)
  | suspend
  | resume
  | onRateApplied (applied : α)

def step (c : DisciplineController α) : Call α → DisciplineController α × Option (ControllerAction α)
  | .evaluate input => ((c.evaluate input).2, some (c.evaluate input).1)
  | .suspend => (c.suspend, none)
  | .resume => (c.resume, none)
  | .onRateApplied applied => (c.onRateApplied applied, none)

/-- A controller and the calls on it. -/
def machine (servo : ServoTuning α) (reactiveTuning : ControllerTuning α) :
    Machine (DisciplineController α) (Call α) (Option (ControllerAction α)) where
  init := .new servo reactiveTuning
  step := step

theorem evaluate_unnudged {c : DisciplineController α} (h : c.reactive.Unnudged) (input : ControllerInput α) :
    (c.evaluate input).2.reactive.Unnudged := by
  rw [evaluate_reactive h]
  exact (DriftController.evaluate_cases { input with fractionalRateOK := false } rfl h).1

/-- The rate mode of the reactive controller is never entered. -/
theorem run_unnudged (servo : ServoTuning α) (reactiveTuning : ControllerTuning α) (calls : List (Call α)) :
    ((machine servo reactiveTuning).run calls).reactive.Unnudged := by
  refine (machine servo reactiveTuning).invariant_state (I := fun c => c.reactive.Unnudged)
    (DriftController.new_unnudged _) ?_ calls
  intro c call h
  cases call with
  | evaluate input => exact evaluate_unnudged h input
  | suspend => exact DriftController.suspend_unnudged _
  | resume => exact DriftController.resume_unnudged h
  | onRateApplied applied => exact h

/-! ## Learning -/

/-- A blind evaluation runs the servo regime on the drift of an earlier reading. -/
theorem evaluate_blind {c : DisciplineController α} {input : ControllerInput α} (h : c.reactive.Blind input)
    (hoff : input.timeline = none ∨ input.playerState ≠ .playing) :
    c.evaluate input = { c with reactive := (c.react input).2 }.steady input.tLocal := by
  obtain ⟨ha, hl⟩ :=
    (DriftController.evaluate_blind_iff c.reactive { input with fractionalRateOK := false } hoff).mpr h
  have ha' : (c.react input).1 = .none := ha
  have hl' : (c.react input).2.getStatus.state = .LOCKED := hl
  rw [evaluate_eq, ha']
  exact if_neg (not_not.mpr hl')

/-- **Learning only while playing.** In every run, an evaluation without a timeline or without a playing player sets no
rate and leaves what the servo learned, unless the reactive controller is blind. The integral is left too, or dropped by
a stand-down or a seek. -/
theorem evaluate_off_play (servo : ServoTuning α) (reactiveTuning : ControllerTuning α) (calls : List (Call α))
    (input : ControllerInput α) (hoff : input.timeline = none ∨ input.playerState ≠ .playing)
    (hsees : ¬((machine servo reactiveTuning).run calls).reactive.Blind input) :
    let c := (machine servo reactiveTuning).run calls
    let r := c.evaluate input
    r.2.bHat = c.bHat ∧ r.2.rlsP = c.rlsP ∧ (∀ rate, r.1 ≠ .setRate rate) ∧
      (r.2.integral = c.integral ∨
        r.2.integral = lit 0 ∧ r.2.servoActive = false ∧
          ((∃ toMediaTime, r.1 = .seek toMediaTime) ∨ c.servoActive = true ∧ (r.1 = .clearRate ∨ r.1 = .play))) := by
  have hu := run_unnudged servo reactiveTuning calls
  generalize (machine servo reactiveTuning).run calls = c at hu hsees
  dsimp only
  generalize hr : c.evaluate input = r
  have he := evaluated hu input
  rw [hr] at he
  cases he with
  | seek toMediaTime => exact ⟨rfl, rfl, nofun, .inr ⟨rfl, rfl, .inl ⟨_, rfl⟩⟩⟩
  | clear active off => exact ⟨rfl, rfl, nofun, .inr ⟨rfl, rfl, .inr ⟨active, .inl rfl⟩⟩⟩
  | start active starts => exact ⟨rfl, rfl, nofun, .inr ⟨rfl, rfl, .inr ⟨active, .inr rfl⟩⟩⟩
  | pass act kind =>
    refine ⟨rfl, rfl, ?_, .inl rfl⟩
    rintro rate rfl
    simp at kind
  | steady silent locked =>
    exact absurd ((DriftController.evaluate_blind_iff c.reactive
      { input with fractionalRateOK := false } hoff).mp ⟨silent, locked⟩) hsees

/-- A reading at `tLocal` of a player that is `drift` seconds ahead of a playing room. -/
def reading (tLocal drift : Float) (playerState : PlayerLifecycle) : ControllerInput Float where
  tLocal := tLocal
  serverNow := tLocal
  playerTime := tLocal / 1000 + drift
  playerState := playerState
  timeline := some ⟨true, 0, 0, 1⟩
  fractionalRateOK := true

/-- Two readings a second apart of a player that is a tenth of a second ahead. -/
def twoReadings : List (Call Float) := [.evaluate (reading 1000 0.1 .playing), .evaluate (reading 2000 0.1 .playing)]

theorem evaluate_off_play_buffering :
    let c := (machine DEFAULT_SERVO_TUNING DEFAULT_CONTROLLER_TUNING).run twoReadings
    let r := c.evaluate (reading 2250 0.1 .buffering)
    r.2.bHat = c.bHat ∧ r.2.rlsP = c.rlsP ∧ (∀ rate, r.1 ≠ .setRate rate) ∧
      (r.2.integral = c.integral ∨
        r.2.integral = lit 0 ∧ r.2.servoActive = false ∧
          ((∃ toMediaTime, r.1 = .seek toMediaTime) ∨ c.servoActive = true ∧ (r.1 = .clearRate ∨ r.1 = .play))) :=
  evaluate_off_play DEFAULT_SERVO_TUNING DEFAULT_CONTROLLER_TUNING twoReadings (reading 2250 0.1 .buffering)
    (.inr (by decide)) (by rintro ⟨-, h | ⟨-, h | h⟩⟩ <;> cases h)

/-- The stand-down of a buffering player drops an integral that is not zero. -/
theorem integral_dropped :
    ¬∀ (calls : List (Call Float)) (input : ControllerInput Float),
      (input.timeline = none ∨ input.playerState ≠ .playing) →
        let c := (machine DEFAULT_SERVO_TUNING DEFAULT_CONTROLLER_TUNING).run calls
        let r := c.evaluate input
        r.2.integral = c.integral ∧ r.2.bHat = c.bHat ∧ r.2.rlsP = c.rlsP ∧ ∀ rate, r.1 ≠ .setRate rate := by
  intro h
  obtain ⟨hi, -⟩ := h twoReadings (reading 2250 0.1 .buffering) (.inr (by decide))
  revert hi
  decide +kernel

end DisciplineController
end SyncCore
end WatchParty
