import WatchParty.Lib.LeastSquares
import WatchParty.SyncCore.Discipline

/-!
# What the servo estimates, integrates and commands

In exact arithmetic, over every run of the calls on a `DisciplineController`.

- `measured?` is the drift rate that an evaluation accepts, if it does;
- `learn_estimate`: learning is one step of recursive least squares with forgetting;
- `least_squares`: the estimate is the weighted mean of what was accepted, and the integral and the commands are bounded.
-/

namespace WatchParty
namespace SyncCore

open Arith

namespace DisciplineController

section Measurements

variable {α : Type} [Arith α]

/-- The drift rate that an evaluation measures and accepts. -/
def measured? (c : DisciplineController α) (input : ControllerInput α) : Option α :=
  match (c.react input).1 with
  | .none =>
    if (c.react input).2.state = .LOCKED ∧ ¬Arith.abs (c.react input).2.lastDrift > c.servo.servoZoneS then
      (c.interval (input.tLocal / lit 1000)).map fun q => c.measuredB (c.react input).2.lastDrift q.1 q.2
    else none
  | _ => none

abbrev Event (α : Type) := Machine.Event (DisciplineController α) (Call α) (Option (ControllerAction α))

/-- What the event measures and accepts. -/
def accepted (e : Event α) : Option α :=
  match e.act with
  | .evaluate input => e.pre.measured? input
  | _ => none

/-- The accepted measurements of a run, in their order. -/
def measurements (tr : List (Event α)) : List α := tr.filterMap accepted

end Measurements

section Exact

variable {α : Type} [Field α] [LinearOrder α] [IsStrictOrderedRing α]

attribute [local instance] Arith.exact

/-- What the servo has learned. -/
def learned (c : DisciplineController α) : LeastSquares.Estimate α := ⟨c.bHat, c.rlsP⟩

omit [IsStrictOrderedRing α] in
/-- Learning from an accepted interval is one step of the estimator. -/
theorem learn_estimate (c : DisciplineController α) (drift t : α) :
    (c.learn drift t).learned =
      match (c.interval t).map fun q => c.measuredB drift q.1 q.2 with
      | none => c.learned
      | some m => LeastSquares.update c.servo.forgetting c.learned m := by
  have h1 : (lit 1 : α) = 1 := Rat.cast_one
  unfold learn
  cases h : c.interval t with
  | none => simp
  | some q =>
    obtain ⟨dt, lastDrift⟩ := q
    simp only [Option.map_some, learned, LeastSquares.update, LeastSquares.gain, h1]

/-- The bounds of the integral and of the last command. -/
structure Bounded (servo : ServoTuning α) (c : DisciplineController α) : Prop where
  tuned : c.servo = servo
  integral : |c.integral| ≤ servo.integralClampS

omit [IsStrictOrderedRing α] in
theorem clamp_bounds {lo hi x : α} (h : lo ≤ hi) : lo ≤ Max.max lo (Min.min hi x) ∧ Max.max lo (Min.min hi x) ≤ hi :=
  ⟨le_max_left _ _, max_le h (min_le_left _ _)⟩

theorem learn_integral {servo : ServoTuning α} {c : DisciplineController α} (h : c.Bounded servo)
    (hs : 0 ≤ servo.integralClampS) (drift t : α) : (c.learn drift t).Bounded servo := by
  unfold learn
  split
  · exact h
  · refine ⟨h.tuned, ?_⟩
    dsimp only
    split
    · exact h.integral
    · rw [h.tuned]
      exact abs_le.mpr (clamp_bounds (by linarith))

/-- A command is within the span. -/
theorem command_bounds (c : DisciplineController α) (hs : 0 ≤ c.servo.clampSpan) (drift : α) :
    1 - c.servo.clampSpan ≤ c.command drift ∧ c.command drift ≤ 1 + c.servo.clampSpan := by
  have h1 : (lit 1 : α) = 1 := Rat.cast_one
  unfold command
  rw [h1]
  exact clamp_bounds (by linarith)

omit [IsStrictOrderedRing α] in
theorem standDown_learned (c : DisciplineController α) (playerState : PlayerLifecycle) (act : ControllerAction α) :
    (c.standDown playerState act).2.learned = c.learned := by
  unfold standDown
  split
  · dsimp only
    split <;> rfl
  · rfl

omit [IsStrictOrderedRing α] in
theorem steady_learned (c : DisciplineController α) (tLocal : α) :
    (c.steady tLocal).2.learned =
      if Arith.abs c.reactive.lastDrift > c.servo.servoZoneS then c.learned
      else (c.learn c.reactive.lastDrift (tLocal / lit 1000)).learned := by
  unfold steady
  dsimp only [DriftController.getStatus]
  by_cases hz : Arith.abs c.reactive.lastDrift > c.servo.servoZoneS
  · rw [if_pos hz, if_pos hz]
  · rw [if_neg hz, if_neg hz]
    split <;> rfl

omit [IsStrictOrderedRing α] in
/-- **One evaluation** learns what it accepts, and nothing else. -/
theorem evaluate_learned (c : DisciplineController α) (input : ControllerInput α) :
    (c.evaluate input).2.learned =
      match c.measured? input with
      | none => c.learned
      | some m => LeastSquares.update c.servo.forgetting c.learned m := by
  rw [evaluate_eq]
  unfold measured?
  cases ha : (c.react input).1 with
  | seek toMediaTime => rfl
  | setRate rate => exact standDown_learned ..
  | clearRate => exact standDown_learned ..
  | play => exact standDown_learned ..
  | pause => exact standDown_learned ..
  | none =>
    dsimp only
    by_cases hl : (c.react input).2.state = .LOCKED
    · rw [if_neg (show ¬(c.react input).2.getStatus.state ≠ .LOCKED from not_not.mpr hl), steady_learned]
      by_cases hz : Arith.abs (c.react input).2.lastDrift > c.servo.servoZoneS
      · rw [if_pos hz, if_neg fun h => h.2 hz]
        rfl
      · rw [if_neg hz, if_pos ⟨hl, hz⟩]
        exact learn_estimate _ _ _
    · rw [if_pos (show (c.react input).2.getStatus.state ≠ .LOCKED from hl), if_neg fun h => hl h.1]
      exact standDown_learned ..

/-- The integral stays within its clamp, and what is commanded is within the span. -/
theorem steady_bounded {servo : ServoTuning α} (hi : 0 ≤ servo.integralClampS) (hs : 0 ≤ servo.clampSpan)
    {c : DisciplineController α} (h : c.Bounded servo) (tLocal : α) :
    (c.steady tLocal).2.Bounded servo ∧
      ∀ r, (c.steady tLocal).1 = .setRate r → 1 - servo.clampSpan ≤ r ∧ r ≤ 1 + servo.clampSpan := by
  have hlearned := learn_integral h hi c.reactive.lastDrift (tLocal / lit 1000)
  unfold steady
  dsimp only [DriftController.getStatus]
  split
  · exact ⟨h, nofun⟩
  · split
    · exact ⟨⟨hlearned.tuned, hlearned.integral⟩, nofun⟩
    · refine ⟨⟨hlearned.tuned, hlearned.integral⟩, fun r hr => ?_⟩
      obtain rfl := ControllerAction.setRate.inj hr
      have hbounds := command_bounds
        { c.learn c.reactive.lastDrift (tLocal / lit 1000) with
          lastT := some (tLocal / lit 1000), lastDrift := some c.reactive.lastDrift }
        (hs.trans_eq (congrArg ServoTuning.clampSpan hlearned.tuned.symm)) c.reactive.lastDrift
      rw [← hlearned.tuned]
      exact hbounds

theorem resetServo_bounded {servo : ServoTuning α} (hi : 0 ≤ servo.integralClampS) {c : DisciplineController α}
    (h : c.servo = servo) : c.resetServo.Bounded servo := by
  have h0 : (lit 0 : α) = 0 := Rat.cast_zero
  refine ⟨h, ?_⟩
  simp only [resetServo, h0, abs_zero]
  exact hi

theorem evaluate_bounded {servo : ServoTuning α} (hi : 0 ≤ servo.integralClampS) (hs : 0 ≤ servo.clampSpan)
    {c : DisciplineController α} (hu : c.reactive.Unnudged) (h : c.Bounded servo) (input : ControllerInput α) :
    (c.evaluate input).2.Bounded servo ∧
      ∀ r, (c.evaluate input).1 = .setRate r → 1 - servo.clampSpan ≤ r ∧ r ≤ 1 + servo.clampSpan := by
  have he := evaluated hu input
  generalize c.evaluate input = r at he
  have hsame : ({ c with reactive := (c.react input).2 } : DisciplineController α).Bounded servo := ⟨h.tuned, h.integral⟩
  cases he with
  | seek toMediaTime => exact ⟨resetServo_bounded hi h.tuned, nofun⟩
  | clear active off => exact ⟨resetServo_bounded hi h.tuned, nofun⟩
  | start active starts => exact ⟨resetServo_bounded hi h.tuned, nofun⟩
  | pass act kind =>
    refine ⟨hsame, ?_⟩
    rintro r rfl
    simp at kind
  | steady silent locked => exact steady_bounded hi hs hsame input.tLocal

/-! ## Runs -/

/-- What is known of the servo after the events of a run. -/
structure Tracks (servo : ServoTuning α) (tr : List (Event α)) (c : DisciplineController α) : Prop where
  estimate : c.learned = LeastSquares.estimate servo.forgetting (measurements tr)
  bounded : c.Bounded servo
  unnudged : c.reactive.Unnudged
  commands : ∀ e ∈ tr, ∀ r, e.out = some (.setRate r) → 1 - servo.clampSpan ≤ r ∧ r ≤ 1 + servo.clampSpan

omit [IsStrictOrderedRing α] in
theorem measurements_snoc (tr : List (Event α)) (e : Event α) :
    measurements (tr ++ [e]) = measurements tr ++ (accepted e).toList := by
  unfold measurements
  rw [List.filterMap_append]
  congr 1

/-- **One call.** -/
theorem tracks_step {servo : ServoTuning α} (hi : 0 ≤ servo.integralClampS) (hs : 0 ≤ servo.clampSpan)
    {tr : List (Event α)} {c : DisciplineController α} (h : Tracks servo tr c) (k : Call α) :
    Tracks servo (tr ++ [⟨c, k, (c.step k).2, (c.step k).1⟩]) (c.step k).1 := by
  have hquiet : ∀ c' : DisciplineController α, c'.learned = c.learned → c'.Bounded servo → c'.reactive.Unnudged →
      accepted ⟨c, k, none, c'⟩ = none → Tracks servo (tr ++ [⟨c, k, none, c'⟩]) c' := by
    intro c' hl hb hu ha
    refine ⟨?_, hb, hu, fun e he r hr => ?_⟩
    · rw [measurements_snoc, ha, Option.toList_none, List.append_nil, hl]
      exact h.estimate
    · rcases List.mem_append.mp he with he | he
      · exact h.commands e he r hr
      · rw [List.mem_singleton.mp he] at hr
        cases hr
  cases k with
  | suspend =>
    exact hquiet c.suspend rfl (resetServo_bounded hi h.bounded.tuned) (DriftController.suspend_unnudged _) rfl
  | resume =>
    exact hquiet c.resume rfl ⟨h.bounded.tuned, h.bounded.integral⟩ (DriftController.resume_unnudged h.unnudged) rfl
  | onRateApplied applied =>
    exact hquiet (c.onRateApplied applied) rfl ⟨h.bounded.tuned, h.bounded.integral⟩ h.unnudged rfl
  | evaluate input =>
    obtain ⟨hb, hr⟩ := evaluate_bounded hi hs h.unnudged h.bounded input
    refine ⟨?_, hb, evaluate_unnudged h.unnudged input, fun e he r hout => ?_⟩
    · rw [measurements_snoc]
      show (c.evaluate input).2.learned = LeastSquares.estimate servo.forgetting
        (measurements tr ++ (c.measured? input).toList)
      rw [evaluate_learned]
      cases c.measured? input with
      | none =>
        rw [Option.toList_none, List.append_nil]
        exact h.estimate
      | some m =>
        rw [Option.toList_some, LeastSquares.estimate_snoc, ← h.estimate, h.bounded.tuned]
    · rcases List.mem_append.mp he with he | he
      · exact h.commands e he r hout
      · rw [List.mem_singleton.mp he] at hout
        exact hr r (Option.some.inj hout)

/-- **The servo's estimator is weighted least squares.** After every run, the estimate is the sum of the accepted
measurements, each weighted by the forgetting of all that came after it, over the sum of the weights; `rlsP` is the
reciprocal of that sum; the integral is within its clamp; and every commanded rate is within the span. -/
theorem least_squares {servo : ServoTuning α} (reactiveTuning : ControllerTuning α) (hf : 0 < servo.forgetting)
    (hi : 0 ≤ servo.integralClampS) (hs : 0 ≤ servo.clampSpan) (calls : List (Call α)) :
    let c := (machine servo reactiveTuning).run calls
    let ms := measurements ((machine servo reactiveTuning).trace calls)
    c.bHat = LeastSquares.weighted servo.forgetting ms / LeastSquares.weight servo.forgetting ms.length ∧
      c.rlsP = 1 / LeastSquares.weight servo.forgetting ms.length ∧
      (0 < c.rlsP ∧ c.rlsP ≤ 1) ∧
      c.bHat ∈ convexHull α (insert 0 {m | m ∈ ms}) ∧
      |c.integral| ≤ servo.integralClampS ∧
      ∀ e ∈ (machine servo reactiveTuning).trace calls, ∀ r, e.out = some (.setRate r) →
        1 - servo.clampSpan ≤ r ∧ r ≤ 1 + servo.clampSpan := by
  have h0 : (lit 0 : α) = 0 := Rat.cast_zero
  have h1 : (lit 1 : α) = 1 := Rat.cast_one
  have htracks :
      Tracks servo ((machine servo reactiveTuning).trace calls) ((machine servo reactiveTuning).run calls) := by
    refine (machine servo reactiveTuning).invariant (I := Tracks servo) ?_ (fun _ _ k h => tracks_step hi hs h k) calls
    refine ⟨?_, ⟨rfl, ?_⟩, DriftController.new_unnudged _, fun e he => absurd he List.not_mem_nil⟩
    · simp [machine, new, learned, measurements, LeastSquares.estimate, LeastSquares.initial, h0, h1]
    · simpa [machine, new, h0] using hi
  obtain ⟨hpos, hle⟩ := LeastSquares.estimate_covariance hf (measurements ((machine servo reactiveTuning).trace calls))
  have hhull := LeastSquares.estimate_hull hf (measurements ((machine servo reactiveTuning).trace calls))
  have heq := LeastSquares.estimate_eq hf (measurements ((machine servo reactiveTuning).trace calls))
  rw [← htracks.estimate] at hpos hle hhull heq
  exact ⟨congrArg LeastSquares.Estimate.value heq, congrArg LeastSquares.Estimate.covariance heq, ⟨hpos, hle⟩, hhull,
    htracks.bounded.integral, htracks.commands⟩

/-- A player that gains a hundredth of a second on a room in a quarter of one. -/
def gaining : List (Call ℚ) :=
  [.evaluate ⟨10000, 10000, 10, .playing, some ⟨true, 0, 0, 1⟩, false⟩,
    .evaluate ⟨10250, 10250, 1026 / 100, .playing, some ⟨true, 0, 0, 1⟩, false⟩]

theorem least_squares_gaining :
    ((machine (DEFAULT_SERVO_TUNING : ServoTuning ℚ) DEFAULT_CONTROLLER_TUNING).run gaining).bHat =
        LeastSquares.weighted (98 / 100) [1 / 25] / LeastSquares.weight (98 / 100) 1 ∧
      |((machine (DEFAULT_SERVO_TUNING : ServoTuning ℚ) DEFAULT_CONTROLLER_TUNING).run gaining).integral| ≤ 2 := by
  have hm : measurements ((machine (DEFAULT_SERVO_TUNING : ServoTuning ℚ) DEFAULT_CONTROLLER_TUNING).trace gaining) =
      [1 / 25] := by decide +kernel
  obtain ⟨hb, -, -, -, hi, -⟩ := @least_squares ℚ _ _ _ DEFAULT_SERVO_TUNING DEFAULT_CONTROLLER_TUNING
    (by decide +kernel) (by decide +kernel) (by decide +kernel) gaining
  have hf : (DEFAULT_SERVO_TUNING : ServoTuning ℚ).forgetting = 98 / 100 := by decide +kernel
  have hc : (DEFAULT_SERVO_TUNING : ServoTuning ℚ).integralClampS = 2 := by decide +kernel
  rw [hm, hf] at hb
  rw [hc] at hi
  exact ⟨hb, hi⟩

end Exact

end DisciplineController
end SyncCore
end WatchParty
