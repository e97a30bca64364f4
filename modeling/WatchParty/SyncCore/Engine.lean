import WatchParty.SyncCore.Discipline

/-!
# The engine as the executor of the servo

The part of `SyncEngine.ts` that drives a player: the control tick with `execute`, the user's switch, the visibility of
the tab, reconnects and the rate probe, over any number format. The player applies exactly the rates that it is given;
what it was told is logged, newest call first, and its rate is the one it was told last. The clock estimator, the
player's readings and the timelines that `isNewer` lets through are inputs.

- `machine` is the engine with its player;
- `Believes`: the servo's `appliedRate` is the rate of the player;
- `StartsAtRate` is the tick that breaks it, and the only one (`believes_step_iff`, `believes_iff`);
- `measured_at_rate`: what the servo measures it measures at the rate that the player had since its last reading.
-/

namespace WatchParty
namespace SyncCore

open Arith

/-- What a player is told. -/
inductive PlayerCall (α : Type)
  | setRate (rate : α)
  | seekTo (mediaTime : α)
  | play
  | pause
  deriving DecidableEq

/-- `DriftController | DisciplineController`. -/
inductive Controller (α : Type)
  | drift (c : DriftController α)
  | discipline (c : DisciplineController α)

/-- `attached`: the adapter of the player is there. `player`: what the player was told, newest first. -/
structure SyncEngine (α : Type) where
  controller : Controller α
  timeline : Option (RoomTimeline α)
  attached : Bool
  fractionalRateOK : Bool
  enabled : Bool
  hidden : Bool
  needsGesture : Bool
  playAttempts : ℕ
  player : List (PlayerCall α)

/-- What the control tick reads: the clock and its estimate, and the player. -/
structure Reading (α : Type) where
  tLocal : α
  serverNow : α
  playerTime : α
  lifecycle : PlayerLifecycle

variable {α : Type} [Arith α]

/-- The rate of a player: the one it was told last, 1 from the start. -/
def rateOf : List (PlayerCall α) → α
  | [] => lit 1
  | .setRate rate :: _ => rate
  | _ :: calls => rateOf calls

@[simp] theorem rateOf_setRate (rate : α) (calls : List (PlayerCall α)) : rateOf (.setRate rate :: calls) = rate := rfl
@[simp] theorem rateOf_seekTo (m : α) (calls : List (PlayerCall α)) : rateOf (.seekTo m :: calls) = rateOf calls := rfl
@[simp] theorem rateOf_play (calls : List (PlayerCall α)) : rateOf (.play :: calls) = rateOf calls := rfl
@[simp] theorem rateOf_pause (calls : List (PlayerCall α)) : rateOf (.pause :: calls) = rateOf calls := rfl

namespace Controller

def evaluate (c : Controller α) (input : ControllerInput α) : ControllerAction α × Controller α :=
  match c with
  | drift c => ((c.evaluate input).1, drift (c.evaluate input).2)
  | discipline c => ((c.evaluate input).1, discipline (c.evaluate input).2)

def suspend : Controller α → Controller α
  | drift c => drift c.suspend
  | discipline c => discipline c.suspend

def resume : Controller α → Controller α
  | drift c => drift c.resume
  | discipline c => discipline c.resume

/-- The report of the applied rate, to a `DisciplineController` only. -/
def onRateApplied (c : Controller α) (applied : α) : Controller α :=
  match c with
  | drift c => drift c
  | discipline c => discipline (c.onRateApplied applied)

end Controller

namespace SyncEngine

/-- The servo is the default; `?controller=R` selects the reactive controller. -/
def new (reactive : Bool) : SyncEngine α where
  controller :=
    if reactive then .drift (.new DEFAULT_CONTROLLER_TUNING)
    else .discipline (.new DEFAULT_SERVO_TUNING DEFAULT_CONTROLLER_TUNING)
  timeline := none
  attached := false
  fractionalRateOK := false
  enabled := true
  hidden := false
  needsGesture := false
  playAttempts := 0
  player := []

/-- The player is told something. -/
def tell (e : SyncEngine α) (call : PlayerCall α) : SyncEngine α := { e with player := call :: e.player }

/-- `adapter.setRate`: the rate in effect afterwards, and the player. -/
def setRate (e : SyncEngine α) (rate : α) : α × SyncEngine α :=
  (rateOf (e.tell (.setRate rate)).player, e.tell (.setRate rate))

/-- Return the player to rate 1 and keep the controller's belief in sync. -/
def restoreRate (e : SyncEngine α) : SyncEngine α :=
  let (applied, e) := e.setRate (lit 1)
  { e with controller := e.controller.onRateApplied applied }

/-- The replacement inherits the stand-down of the controller that it replaces. -/
def fallBackToSeekFirst (e : SyncEngine α) : SyncEngine α :=
  match e.controller with
  | .drift _ => e
  | .discipline _ =>
    let e := if e.attached then (e.setRate (lit 1)).2 else e
    let c := DriftController.new DEFAULT_CONTROLLER_TUNING
    { e with controller := .drift (if e.enabled = false ∨ e.hidden = true then c.suspend else c) }

def GESTURE_CHIP_THRESHOLD : ℕ := 3

def execute (e : SyncEngine α) : ControllerAction α → SyncEngine α
  | .seek toMediaTime => e.restoreRate.tell (.seekTo toMediaTime)
  | .play =>
    let e := { e with playAttempts := e.playAttempts + 1 }
    if e.playAttempts > GESTURE_CHIP_THRESHOLD then { e with needsGesture := true } else e.tell .play
  | .pause => e.tell .pause
  | .setRate rate =>
    let (applied, e) := e.setRate rate
    let e := { e with controller := e.controller.onRateApplied applied }
    if Arith.abs (applied - rate) > lit 0.001 then { e with fractionalRateOK := false }.fallBackToSeekFirst else e
  | .clearRate => e.restoreRate
  | .none => e

/-- What the controller is given at a tick. -/
def input (e : SyncEngine α) (r : Reading α) : ControllerInput α where
  tLocal := r.tLocal
  serverNow := r.serverNow
  playerTime := r.playerTime
  playerState := r.lifecycle
  timeline := e.timeline
  fractionalRateOK := e.fractionalRateOK

/-- The control tick, `none` while the clock has no estimate. -/
def tick (e : SyncEngine α) : Option (Reading α) → SyncEngine α
  | none => e
  | some r =>
    if e.attached then
      let (action, controller) := e.controller.evaluate (e.input r)
      let e := { e with controller := controller }.execute action
      if r.lifecycle = .playing then { e with playAttempts := 0, needsGesture := false } else e
    else e

def setEnabled (e : SyncEngine α) (enabled : Bool) : SyncEngine α :=
  let e := { e with enabled := enabled }
  if enabled then { e with controller := e.controller.resume }
  else
    let e := { e with controller := e.controller.suspend }
    if e.attached then e.restoreRate else e

def onVisibility (e : SyncEngine α) (hidden : Bool) : SyncEngine α :=
  let e := { e with hidden := hidden }
  if hidden then
    let e := { e with controller := e.controller.suspend }
    if e.attached then e.restoreRate else e
  else if e.enabled then { e with controller := e.controller.resume }
  else e

def onReconnect (e : SyncEngine α) : SyncEngine α :=
  if e.enabled then { e with controller := e.controller.resume } else e

/-- The rate probe of the player that is attached. -/
def probed (e : SyncEngine α) (ok : Bool) : SyncEngine α :=
  let e := { e with fractionalRateOK := ok }
  if ok then e else e.fallBackToSeekFirst

def resumeFromGesture (e : SyncEngine α) : SyncEngine α :=
  let e := { e with needsGesture := false, playAttempts := 0 }
  if e.attached then e.tell .play else e

end SyncEngine

/-- What happens to an engine. A timeline is one that `isNewer` accepted. -/
inductive Input (α : Type)
  | attachAdapter
  | probed (ok : Bool)
  | timeline (tl : RoomTimeline α)
  | tick (reading : Option (Reading α))
  | setEnabled (enabled : Bool)
  | onVisibility (hidden : Bool)
  | onReconnect
  | resumeFromGesture

namespace SyncEngine

def step (e : SyncEngine α) : Input α → SyncEngine α
  | .attachAdapter => { e with attached := true }
  | .probed ok => e.probed ok
  | .timeline tl => { e with timeline := some tl }
  | .tick reading => e.tick reading
  | .setEnabled enabled => e.setEnabled enabled
  | .onVisibility hidden => e.onVisibility hidden
  | .onReconnect => e.onReconnect
  | .resumeFromGesture => e.resumeFromGesture

/-- An engine and its player. -/
def machine (reactive : Bool) : Machine (SyncEngine α) (Input α) Unit where
  init := .new reactive
  step e i := (e.step i, ())

/-! ## The executor -/

/-- The servo's belief is the rate of the player. -/
def Believes (e : SyncEngine α) : Prop :=
  match e.controller with
  | .drift _ => True
  | .discipline c => c.appliedRate = rateOf e.player

instance [DecidableEq α] (e : SyncEngine α) : Decidable e.Believes :=
  match h : e.controller with
  | .drift _ => decidable_of_iff True (by simp [Believes, h])
  | .discipline c => decidable_of_iff (c.appliedRate = rateOf e.player) (by simp [Believes, h])

theorem believes_drift {e : SyncEngine α} {c : DriftController α} (h : e.controller = .drift c) : e.Believes := by
  unfold Believes
  rw [h]
  trivial

theorem believes_discipline {e : SyncEngine α} {c : DisciplineController α} (h : e.controller = .discipline c) :
    e.Believes ↔ c.appliedRate = rateOf e.player := by
  unfold Believes
  rw [h]

/-- Belief is about the controller and the player only. -/
theorem believes_congr {e e' : SyncEngine α} (hc : e'.controller = e.controller)
    (hp : rateOf e'.player = rateOf e.player) : e'.Believes ↔ e.Believes := by
  unfold Believes
  rw [hc, hp]

@[simp] theorem restoreRate_player (e : SyncEngine α) : e.restoreRate.player = .setRate (lit 1) :: e.player := rfl

@[simp] theorem restoreRate_controller (e : SyncEngine α) :
    e.restoreRate.controller = e.controller.onRateApplied (lit 1) := rfl

theorem believes_restoreRate (e : SyncEngine α) : e.restoreRate.Believes := by
  cases h : e.controller with
  | drift c => exact believes_drift (c := c) (by simp [h, Controller.onRateApplied])
  | discipline c =>
    have hc : e.restoreRate.controller = .discipline (c.onRateApplied (lit 1)) := by simp [h, Controller.onRateApplied]
    exact (believes_discipline hc).mpr rfl

theorem fallBackToSeekFirst_controller (e : SyncEngine α) : ∃ c, e.fallBackToSeekFirst.controller = .drift c := by
  unfold fallBackToSeekFirst
  split
  · rename_i h
    exact ⟨_, h⟩
  · exact ⟨_, rfl⟩

/-- After a fallback there is no servo. -/
theorem fallBackToSeekFirst_ne (e : SyncEngine α) (c : DisciplineController α) :
    e.fallBackToSeekFirst.controller ≠ .discipline c := by
  obtain ⟨d, hd⟩ := fallBackToSeekFirst_controller e
  rw [hd]
  simp

theorem believes_fallBackToSeekFirst (e : SyncEngine α) : e.fallBackToSeekFirst.Believes :=
  believes_drift (fallBackToSeekFirst_controller e).choose_spec

/-- An answer that no rate goes with. -/
def KeepsRate : ControllerAction α → Prop
  | .none => True
  | .play => True
  | .pause => True
  | .seek _ => False
  | .setRate _ => False
  | .clearRate => False

theorem execute_keepsRate (e : SyncEngine α) (act : ControllerAction α) (h : KeepsRate act) :
    (e.execute act).controller = e.controller ∧ rateOf (e.execute act).player = rateOf e.player := by
  cases act with
  | none => exact ⟨rfl, rfl⟩
  | pause => exact ⟨rfl, rfl⟩
  | play =>
    unfold execute
    dsimp only
    split <;> exact ⟨rfl, rfl⟩
  | seek | setRate | clearRate => cases h

/-- Every rate that the executor sets it reports. -/
theorem believes_execute (e : SyncEngine α) {act : ControllerAction α} (h : ¬KeepsRate act) :
    (e.execute act).Believes := by
  cases act with
  | none => exact absurd trivial h
  | play => exact absurd trivial h
  | pause => exact absurd trivial h
  | seek toMediaTime => exact (believes_congr (e := e.restoreRate) rfl rfl).mpr (believes_restoreRate e)
  | clearRate => exact believes_restoreRate e
  | setRate rate =>
    unfold execute
    dsimp only
    split
    · exact believes_fallBackToSeekFirst _
    · cases hc : e.controller with
      | drift c => exact believes_drift (c := c) (by simp [setRate, tell, hc, Controller.onRateApplied])
      | discipline c =>
        refine (believes_discipline (c := c.onRateApplied rate) ?_).mpr rfl
        simp [setRate, tell, hc, Controller.onRateApplied]

/-- The executor changes nothing of a servo but its belief. -/
theorem execute_discipline {e : SyncEngine α} {act : ControllerAction α} {c' : DisciplineController α}
    (h : (e.execute act).controller = .discipline c') :
    ∃ c applied, e.controller = .discipline c ∧ c' = c.onRateApplied applied := by
  have hrep : ∀ {k : Controller α} {applied : α}, k.onRateApplied applied = .discipline c' →
      ∃ c applied, k = .discipline c ∧ c' = c.onRateApplied applied := by
    intro k applied hk
    cases k with
    | drift c => cases hk
    | discipline c =>
      cases hk
      exact ⟨c, applied, rfl, rfl⟩
  cases act with
  | none => exact ⟨c', c'.appliedRate, h, rfl⟩
  | pause => exact ⟨c', c'.appliedRate, h, rfl⟩
  | play => exact ⟨c', c'.appliedRate, (execute_keepsRate e .play trivial).1.symm.trans h, rfl⟩
  | seek toMediaTime => exact hrep h
  | clearRate => exact hrep h
  | setRate rate =>
    unfold execute at h
    dsimp only at h
    split at h
    · exact absurd h (fallBackToSeekFirst_ne _ _)
    · exact hrep h

/-! ## Belief -/

/-- A detached player was told nothing, and the reactive part of a servo nudges nothing. -/
structure Sound (e : SyncEngine α) : Prop where
  detached : e.attached = false → e.player = []
  unnudged : ∀ c, e.controller = .discipline c → c.reactive.Unnudged

/-- A tick that finds the room playing and the player waiting to be started, while the servo is active and its rate is
on the player. -/
def StartsAtRate (e : SyncEngine α) : Input α → Prop
  | .tick (some r) =>
    e.attached = true ∧ rateOf e.player ≠ lit 1 ∧
      ∃ c, e.controller = .discipline c ∧ c.servoActive = true ∧ c.reactive.Starts (e.input r)
  | _ => False

/-- The controller and the player at the end of a tick. -/
theorem tick_attached {e : SyncEngine α} (ha : e.attached = true) (r : Reading α) :
    let res := e.controller.evaluate (e.input r)
    let done := { e with controller := res.2 }.execute res.1
    (e.tick (some r)).controller = done.controller ∧ (e.tick (some r)).player = done.player ∧
      (e.tick (some r)).attached = done.attached := by
  show _ ∧ _
  unfold tick
  dsimp only
  rw [if_pos ha]
  split <;> exact ⟨rfl, rfl, rfl⟩

theorem tick_detached {e : SyncEngine α} (ha : ¬e.attached = true) (r : Reading α) : e.tick (some r) = e :=
  if_neg ha

theorem believes_kept (e : SyncEngine α) (c : DisciplineController α) (act : ControllerAction α) (h : KeepsRate act) :
    ({ e with controller := .discipline c }.execute act).Believes ↔ c.appliedRate = rateOf e.player := by
  obtain ⟨hc, hp⟩ := execute_keepsRate { e with controller := .discipline c } act h
  rw [believes_congr hc hp]
  exact believes_discipline rfl

/-- **One tick.** An engine that believed the truth believes it after a tick unless the tick starts the player over an
active servo whose rate is on it. -/
theorem believes_tick_iff {e : SyncEngine α} (hs : e.Sound) (hb : e.Believes) (r : Reading α) :
    (e.tick (some r)).Believes ↔ ¬e.StartsAtRate (.tick (some r)) := by
  by_cases ha : e.attached = true
  swap
  · rw [tick_detached ha]
    exact iff_of_true hb fun h => ha h.1
  obtain ⟨hc, hp, -⟩ := tick_attached ha r
  rw [believes_congr hc (congrArg rateOf hp)]
  cases hk : e.controller with
  | drift d =>
    refine iff_of_true ?_ (fun ⟨_, _, c, h, _⟩ => by rw [hk] at h; cases h)
    simp only [Controller.evaluate]
    by_cases hkeep : KeepsRate (d.evaluate (e.input r)).1
    · exact believes_drift (execute_keepsRate _ _ hkeep).1
    · exact believes_execute _ hkeep
  | discipline c =>
    have hb' : c.appliedRate = rateOf e.player := (believes_discipline hk).mp hb
    simp only [Controller.evaluate]
    by_cases hst : c.servoActive = true ∧ c.reactive.Starts (e.input r)
    · rw [DisciplineController.evaluate_starts hst.1 hst.2, believes_kept e _ .play trivial]
      constructor
      · rintro h ⟨-, hne, -⟩
        exact hne h.symm
      · intro h
        by_contra hne
        exact h ⟨ha, fun h' => hne h'.symm, c, hk, hst.1, hst.2⟩
    · refine iff_of_true ?_ ?_
      · have he := DisciplineController.evaluated (hs.unnudged c hk) (e.input r)
        generalize c.evaluate (e.input r) = res at he
        cases he with
        | seek toMediaTime => exact believes_execute _ id
        | clear active off => exact believes_execute _ id
        | start active starts => exact absurd ⟨active, starts⟩ hst
        | pass act kind =>
          have hkeep : KeepsRate act := by rcases kind with rfl | rfl | ⟨rfl, -⟩ <;> trivial
          exact (believes_kept e _ _ hkeep).mpr hb'
        | steady silent locked =>
          rcases DisciplineController.steady_rate { c with reactive := (c.react (e.input r)).2 } r.tLocal with
            ⟨h1, h2⟩ | ⟨rate, h1, -⟩
          · show (execute _ (DisciplineController.steady _ r.tLocal).1).Believes
            rw [h1]
            exact (believes_kept e _ .none trivial).mpr (h2.trans hb')
          · show (execute _ (DisciplineController.steady _ r.tLocal).1).Believes
            rw [h1]
            exact believes_execute _ id
      · rintro ⟨-, -, c', hc', hact, hstarts⟩
        rw [hk] at hc'
        cases hc'
        exact hst ⟨hact, hstarts⟩

/-- A stand-down resets the servo and restores the rate of an attached player. -/
theorem believes_suspend {e : SyncEngine α} (hs : e.Sound) :
    (if e.attached then { e with controller := e.controller.suspend }.restoreRate
      else { e with controller := e.controller.suspend }).Believes := by
  split
  · exact believes_restoreRate _
  · rename_i ha
    cases hk : e.controller with
    | drift d => exact believes_drift (c := d.suspend) (by simp [Controller.suspend])
    | discipline c =>
      refine (believes_discipline (c := c.suspend) (by simp [Controller.suspend])).mpr ?_
      show lit 1 = rateOf e.player
      rw [hs.detached (by simpa using ha)]
      rfl

theorem believes_resume {e : SyncEngine α} (hb : e.Believes) :
    { e with controller := e.controller.resume }.Believes := by
  cases hk : e.controller with
  | drift d => exact believes_drift (c := d.resume) (by simp [Controller.resume])
  | discipline c =>
    exact (believes_discipline (c := c.resume) (by simp [Controller.resume])).mpr ((believes_discipline hk).mp hb)

theorem believes_step_iff {e : SyncEngine α} (hs : e.Sound) (hb : e.Believes) (i : Input α) :
    (e.step i).Believes ↔ ¬e.StartsAtRate i := by
  cases i with
  | tick r =>
    cases r with
    | none => exact iff_of_true hb id
    | some r => exact believes_tick_iff hs hb r
  | attachAdapter => exact iff_of_true hb id
  | timeline tl => exact iff_of_true hb id
  | probed ok =>
    refine iff_of_true ?_ id
    show (e.probed ok).Believes
    unfold probed
    dsimp only
    split
    · exact hb
    · exact believes_fallBackToSeekFirst _
  | setEnabled enabled =>
    refine iff_of_true ?_ id
    show (e.setEnabled enabled).Believes
    unfold setEnabled
    dsimp only
    split
    · exact believes_resume (e := { e with enabled := enabled }) hb
    · exact believes_suspend (e := { e with enabled := enabled }) ⟨hs.detached, hs.unnudged⟩
  | onVisibility hidden =>
    refine iff_of_true ?_ id
    show (e.onVisibility hidden).Believes
    unfold onVisibility
    dsimp only
    split
    · exact believes_suspend (e := { e with hidden := hidden }) ⟨hs.detached, hs.unnudged⟩
    · split
      · exact believes_resume (e := { e with hidden := hidden }) hb
      · exact hb
  | onReconnect =>
    refine iff_of_true ?_ id
    show e.onReconnect.Believes
    unfold onReconnect
    split
    · exact believes_resume hb
    · exact hb
  | resumeFromGesture =>
    refine iff_of_true ?_ id
    show (e.resumeFromGesture).Believes
    unfold resumeFromGesture
    dsimp only
    split <;> exact hb

/-! ## Soundness -/

theorem execute_attached (e : SyncEngine α) (act : ControllerAction α) : (e.execute act).attached = e.attached := by
  have hf : ∀ e : SyncEngine α, e.fallBackToSeekFirst.attached = e.attached := by
    intro e
    unfold fallBackToSeekFirst
    split
    · rfl
    · dsimp only
      split <;> rfl
  cases act with
  | none | pause | seek | clearRate => rfl
  | play =>
    unfold execute
    dsimp only
    split <;> rfl
  | setRate rate =>
    unfold execute
    dsimp only
    split
    · exact hf _
    · rfl

/-- The servo after a tick is the one that was evaluated, up to its belief. -/
theorem tick_discipline {e : SyncEngine α} (ha : e.attached = true) {r : Reading α} {c' : DisciplineController α}
    (h : (e.tick (some r)).controller = .discipline c') :
    ∃ c applied, e.controller = .discipline c ∧ c' = (c.evaluate (e.input r)).2.onRateApplied applied := by
  rw [(tick_attached ha r).1] at h
  obtain ⟨c₁, applied, hc₁, rfl⟩ := execute_discipline h
  cases hk : e.controller with
  | drift d =>
    rw [hk] at hc₁
    cases hc₁
  | discipline c =>
    rw [hk] at hc₁
    cases hc₁
    exact ⟨c, applied, rfl, rfl⟩

theorem sound_tick {e : SyncEngine α} (hs : e.Sound) (r : Reading α) : (e.tick (some r)).Sound := by
  by_cases ha : e.attached = true
  swap
  · rwa [tick_detached ha]
  constructor
  · intro h
    rw [(tick_attached ha r).2.2, execute_attached] at h
    exact absurd (ha.symm.trans h) (by simp)
  · intro c' hc'
    obtain ⟨c, applied, hc, rfl⟩ := tick_discipline ha hc'
    exact DisciplineController.evaluate_unnudged (hs.unnudged c hc) _

theorem sound_suspend {e : SyncEngine α} (hs : e.Sound) :
    (if e.attached then { e with controller := e.controller.suspend }.restoreRate
      else { e with controller := e.controller.suspend }).Sound := by
  split
  · rename_i ha
    refine ⟨fun h => absurd (ha.symm.trans h) (by simp), fun c' hc' => ?_⟩
    cases hk : e.controller with
    | drift d => simp [hk, Controller.suspend, Controller.onRateApplied] at hc'
    | discipline c =>
      simp only [restoreRate_controller, hk, Controller.suspend, Controller.onRateApplied,
        Controller.discipline.injEq] at hc'
      subst hc'
      exact DriftController.suspend_unnudged _
  · refine ⟨hs.detached, fun c' hc' => ?_⟩
    cases hk : e.controller with
    | drift d => simp [hk, Controller.suspend] at hc'
    | discipline c =>
      simp only [hk, Controller.suspend, Controller.discipline.injEq] at hc'
      subst hc'
      exact DriftController.suspend_unnudged _

omit [Arith α] in
theorem sound_resume {e : SyncEngine α} (hs : e.Sound) : { e with controller := e.controller.resume }.Sound := by
  refine ⟨hs.detached, fun c' hc' => ?_⟩
  cases hk : e.controller with
  | drift d => simp [hk, Controller.resume] at hc'
  | discipline c =>
    simp only [hk, Controller.resume, Controller.discipline.injEq] at hc'
    subst hc'
    exact DriftController.resume_unnudged (hs.unnudged c hk)

theorem sound_fallBackToSeekFirst {e : SyncEngine α} (hs : e.Sound) : e.fallBackToSeekFirst.Sound := by
  refine ⟨?_, fun c' hc' => absurd hc' (fallBackToSeekFirst_ne e c')⟩
  unfold fallBackToSeekFirst
  split
  · exact hs.detached
  · dsimp only
    split
    · rename_i ha
      exact fun h => absurd (ha.symm.trans h) (by simp)
    · exact hs.detached

theorem sound_step {e : SyncEngine α} (hs : e.Sound) (i : Input α) : (e.step i).Sound := by
  cases i with
  | tick r =>
    cases r with
    | none => exact hs
    | some r => exact sound_tick hs r
  | attachAdapter => exact ⟨nofun, hs.unnudged⟩
  | timeline tl => exact ⟨hs.detached, hs.unnudged⟩
  | probed ok =>
    have hs' : { e with fractionalRateOK := ok }.Sound := ⟨hs.detached, hs.unnudged⟩
    show (e.probed ok).Sound
    unfold probed
    dsimp only
    split
    · exact hs'
    · exact sound_fallBackToSeekFirst hs'
  | setEnabled enabled =>
    have hs' : { e with enabled := enabled }.Sound := ⟨hs.detached, hs.unnudged⟩
    show (e.setEnabled enabled).Sound
    unfold setEnabled
    dsimp only
    split
    · exact sound_resume hs'
    · exact sound_suspend hs'
  | onVisibility hidden =>
    have hs' : { e with hidden := hidden }.Sound := ⟨hs.detached, hs.unnudged⟩
    show (e.onVisibility hidden).Sound
    unfold onVisibility
    dsimp only
    split
    · exact sound_suspend hs'
    · split
      · exact sound_resume hs'
      · exact hs'
  | onReconnect =>
    show e.onReconnect.Sound
    unfold onReconnect
    split
    · exact sound_resume hs
    · exact hs
  | resumeFromGesture =>
    show e.resumeFromGesture.Sound
    unfold resumeFromGesture
    dsimp only
    split
    · rename_i ha
      exact ⟨fun h => absurd (ha.symm.trans h) (by simp), hs.unnudged⟩
    · exact ⟨hs.detached, hs.unnudged⟩

theorem run_snoc (reactive : Bool) (inputs : List (Input α)) (i : Input α) :
    (machine reactive).run (inputs ++ [i]) = ((machine reactive).run inputs).step i :=
  (machine reactive).run_snoc inputs i

theorem run_sound (reactive : Bool) (inputs : List (Input α)) : ((machine reactive).run inputs).Sound := by
  refine (machine reactive).invariant_state (I := Sound) ⟨fun _ => rfl, fun c hc => ?_⟩ (fun e i => (sound_step · i))
    inputs
  cases reactive with
  | true => cases hc
  | false =>
    cases hc
    exact DriftController.new_unnudged _

theorem init_believes (reactive : Bool) : (machine (α := α) reactive).init.Believes := by
  cases reactive with
  | true => trivial
  | false => exact rfl

/-- **When the belief is true.** The servo believes in the rate of the player in every state of a run exactly when no
tick of the run starts the player over an active servo whose rate is on it. -/
theorem believes_iff (reactive : Bool) (inputs : List (Input α)) :
    (∀ p, p <+: inputs → ((machine reactive).run p).Believes) ↔
      ∀ ev ∈ (machine reactive).trace inputs, ¬ev.pre.StartsAtRate ev.act :=
  (machine reactive).holds_iff (fun p _ => run_sound reactive p) (init_believes reactive)
    fun _ i hs hb => believes_step_iff hs hb i

/-! ## What is measured -/

/-- A tick at which the servo takes a reading. -/
def TakesReading (e : SyncEngine α) : Input α → Prop
  | .tick (some r) => e.attached = true ∧ ∃ c, e.controller = .discipline c ∧ c.Reads (e.input r)
  | _ => False

theorem suspend_forgets {e : SyncEngine α} {c' : DisciplineController α}
    (h : (if e.attached then { e with controller := e.controller.suspend }.restoreRate
      else { e with controller := e.controller.suspend }).controller = .discipline c') : c'.lastT = none := by
  cases hk : e.controller with
  | drift d => split at h <;> simp [hk, Controller.suspend, Controller.onRateApplied] at h
  | discipline c =>
    split at h <;> simp only [restoreRate_controller, hk, Controller.suspend, Controller.onRateApplied,
      Controller.discipline.injEq] at h <;> subst h <;> rfl

/-- The servo of a later state, where its last reading is the one that it had. -/
def SameReading (e : SyncEngine α) (c' : DisciplineController α) : Prop :=
  ∃ c, e.controller = .discipline c ∧ c'.lastT = c.lastT ∧ c'.appliedRate = c.appliedRate

omit [Arith α] in
theorem resume_sameReading {e : SyncEngine α} {c' : DisciplineController α}
    (h : e.controller.resume = .discipline c') : e.SameReading c' := by
  cases hk : e.controller with
  | drift d => simp [hk, Controller.resume] at h
  | discipline c =>
    simp only [hk, Controller.resume, Controller.discipline.injEq] at h
    subst h
    exact ⟨c, hk, rfl, rfl⟩

theorem tick_sameReading {e : SyncEngine α} (hs : e.Sound) {r : Reading α} (hr : ¬e.TakesReading (.tick (some r)))
    {c' : DisciplineController α} (h : (e.tick (some r)).controller = .discipline c') :
    c'.lastT = none ∨ e.SameReading c' := by
  by_cases ha : e.attached = true
  swap
  · rw [tick_detached ha] at h
    exact .inr ⟨c', h, rfl, rfl⟩
  obtain ⟨c, applied, hc, rfl⟩ := tick_discipline ha h
  have hread : ¬c.Reads (e.input r) := fun hread => hr ⟨ha, c, hc, hread⟩
  rcases DisciplineController.evaluate_unread (hs.unnudged c hc) hread with hn | ⟨ht, hb, hact⟩
  · exact .inl hn
  · have hkeep : KeepsRate (e.controller.evaluate (e.input r)).1 := by
      rw [hc]
      show KeepsRate (c.evaluate (e.input r)).1
      rcases hact with hact | hact | hact <;> rw [hact] <;> trivial
    rw [(tick_attached ha r).1, (execute_keepsRate _ _ hkeep).1, hc] at h
    exact .inr ⟨c, hc, ht, (congrArg DisciplineController.appliedRate (Controller.discipline.inj h)).symm.trans hb⟩

/-- What happens without a reading keeps the belief of the servo until it forgets its last one. -/
theorem step_sameReading {e : SyncEngine α} (hs : e.Sound) {i : Input α} (hr : ¬e.TakesReading i)
    {c' : DisciplineController α} (h : (e.step i).controller = .discipline c') :
    c'.lastT = none ∨ e.SameReading c' := by
  cases i with
  | tick r =>
    cases r with
    | none => exact .inr ⟨c', h, rfl, rfl⟩
    | some r => exact tick_sameReading hs hr h
  | attachAdapter => exact .inr ⟨c', h, rfl, rfl⟩
  | timeline tl => exact .inr ⟨c', h, rfl, rfl⟩
  | probed ok =>
    change (e.probed ok).controller = _ at h
    unfold probed at h
    dsimp only at h
    split at h
    · exact .inr ⟨c', h, rfl, rfl⟩
    · exact absurd h (fallBackToSeekFirst_ne _ _)
  | setEnabled enabled =>
    change (e.setEnabled enabled).controller = _ at h
    unfold setEnabled at h
    dsimp only at h
    split at h
    · exact .inr (resume_sameReading h)
    · exact .inl (suspend_forgets (e := { e with enabled := enabled }) h)
  | onVisibility hidden =>
    change (e.onVisibility hidden).controller = _ at h
    unfold onVisibility at h
    dsimp only at h
    split at h
    · exact .inl (suspend_forgets (e := { e with hidden := hidden }) h)
    · split at h
      · exact .inr (resume_sameReading h)
      · exact .inr ⟨c', h, rfl, rfl⟩
  | onReconnect =>
    change e.onReconnect.controller = _ at h
    unfold onReconnect at h
    split at h
    · exact .inr (resume_sameReading h)
    · exact .inr ⟨c', h, rfl, rfl⟩
  | resumeFromGesture =>
    change e.resumeFromGesture.controller = _ at h
    unfold resumeFromGesture at h
    dsimp only at h
    split at h <;> exact .inr ⟨c', h, rfl, rfl⟩

/-- Where the belief stays true, the player has had the believed rate ever since the last reading. -/
theorem rate_since_reading (reactive : Bool) (before during : List (Input α))
    (hb : ∀ p, p <+: before ++ during → ((machine reactive).run p).Believes)
    (hr : ∀ ev ∈ (machine reactive).traceFrom ((machine reactive).run before) during, ¬ev.pre.TakesReading ev.act) :
    ∀ c, ((machine reactive).run (before ++ during)).controller = .discipline c → c.lastT ≠ none →
      ∀ p, p <+: during → rateOf ((machine reactive).run (before ++ p)).player = c.appliedRate := by
  induction during using List.reverseRecOn with
  | nil =>
    intro c hc _ p hp
    rw [List.prefix_nil.mp hp]
    exact ((believes_discipline hc).mp (hb _ List.prefix_rfl)).symm
  | append_singleton during i ih =>
    intro c' hc' ht p hp
    rw [Machine.traceFrom_snoc, ← Machine.run_append] at hr
    rcases List.prefix_concat_iff.mp hp with rfl | hp
    · exact ((believes_discipline hc').mp (hb _ List.prefix_rfl)).symm
    · rw [← List.append_assoc, run_snoc] at hc'
      rcases step_sameReading (run_sound reactive _) (Machine.last_of_snoc hr) hc' with hn | ⟨c, hc, hlt, happ⟩
      · exact absurd hn ht
      · rw [happ]
        refine ih (fun p hp => hb p (hp.trans ?_)) (Machine.forall_mem_of_snoc hr) c hc (hlt ▸ ht) p hp
        rw [← List.append_assoc]
        exact List.prefix_append ..

/-- **The servo's belief.** In every state of a run the servo believes in the rate of the player exactly when no tick of
the run starts the player over an active servo whose rate is on it; and in such a run what the servo measures is
corrected for the rate that the player has had in every state since the last reading. -/
theorem belief_true (reactive : Bool) (inputs : List (Input α)) :
    ((∀ p, p <+: inputs → ((machine reactive).run p).Believes) ↔
        ∀ ev ∈ (machine reactive).trace inputs, ¬ev.pre.StartsAtRate ev.act) ∧
      ((∀ ev ∈ (machine reactive).trace inputs, ¬ev.pre.StartsAtRate ev.act) →
        ∀ before during, before ++ during = inputs →
          (∀ ev ∈ (machine reactive).traceFrom ((machine reactive).run before) during, ¬ev.pre.TakesReading ev.act) →
          ∀ c, ((machine reactive).run inputs).controller = .discipline c → c.lastT ≠ none →
            ∀ p, p <+: during → ∀ drift dt lastDrift, c.measuredB drift dt lastDrift =
              (drift - lastDrift) / dt - (rateOf ((machine reactive).run (before ++ p)).player - lit 1)) := by
  refine ⟨believes_iff reactive inputs, ?_⟩
  rintro h before during rfl hr c hc ht p hp drift dt lastDrift
  rw [rate_since_reading reactive before during ((believes_iff reactive _).mpr h) hr c hc ht p hp]
  rfl

/-- The player is paused while it runs at the rate of the servo, and the room is playing. -/
theorem belief_lost :
    ¬∀ (inputs : List (Input Float)) (p : List (Input Float)), p <+: inputs → ((machine false).run p).Believes := by
  intro h
  have hb := h [.attachAdapter, .probed true, .timeline ⟨true, 0, 0, 1⟩, .tick (some ⟨1000, 1000, 1.1, .playing⟩),
    .tick (some ⟨1250, 1250, 1.3, .paused⟩)] _ List.prefix_rfl
  revert hb
  decide +kernel

end SyncEngine
end SyncCore
end WatchParty
