import WatchParty.SyncCore.Engine
import WatchParty.SyncCore.Steps

/-!
# The nudge of the reactive controller

The reactive controller with `SyncEngine.execute` as its executor, over any number format and any tuning: an evaluation
whose answer is executed, a stand-down after which the caller restores the rate, and a resumption.

- `driven` is the machine; `rateAfter` is what an executed answer does to the rate of the player;
- `Owned`: outside of NUDGING the player's rate is 1, and within it is the one of `nudgeSign`;
- `Forgets` is the step that leaves a nudge behind: a commanded start, a paused room that is in place, a resumption;
- `nudge_owned_iff` is the result.
-/

namespace WatchParty
namespace SyncCore

open Arith

variable {α : Type} [Arith α]

/-! ## The executor -/

/-- The rate of the player after an answer was executed. -/
def rateAfter (act : ControllerAction α) (rate : α) : α :=
  match act with
  | .none => rate
  | .seek _ => lit 1
  | .setRate rate' => rate'
  | .clearRate => lit 1
  | .play => rate
  | .pause => rate

namespace SyncEngine

/-- One call on the controller of an engine. -/
def drive (e : SyncEngine α) : Control α → SyncEngine α
  | .evaluate input =>
    let (action, controller) := e.controller.evaluate input
    { e with controller := controller }.execute action
  | .suspend => { e with controller := e.controller.suspend }.restoreRate
  | .resume => { e with controller := e.controller.resume }

/-- An engine with a reactive controller and a player. -/
def driven (tuning : ControllerTuning α) : Machine (SyncEngine α) (Control α) Unit where
  init := { new true with controller := .drift (.new tuning), attached := true }
  step e k := (e.drive k, ())

theorem execute_drift {e : SyncEngine α} {c : DriftController α} (h : e.controller = .drift c)
    (act : ControllerAction α) :
    (e.execute act).controller = .drift c ∧ rateOf (e.execute act).player = rateAfter act (rateOf e.player) := by
  cases act with
  | none => exact ⟨h, rfl⟩
  | pause => exact ⟨h, rfl⟩
  | seek toMediaTime => exact ⟨by simp [execute, tell, h, Controller.onRateApplied], rfl⟩
  | clearRate => exact ⟨by simp [execute, h, Controller.onRateApplied], rfl⟩
  | play =>
    obtain ⟨hc, hr⟩ := execute_keepsRate e .play trivial
    exact ⟨hc.trans h, hr⟩
  | setRate rate =>
    unfold execute
    dsimp only
    split
    · -- a fallback keeps a reactive controller and its player
      simp [fallBackToSeekFirst, setRate, tell, h, Controller.onRateApplied, rateAfter]
    · simp [setRate, tell, h, Controller.onRateApplied, rateAfter]

end SyncEngine

/-! ## The nudge -/

namespace DriftController

/-- The rate of the player is the controller's: 1 outside of NUDGING, and within the one of `nudgeSign`. -/
structure Owns (c : DriftController α) (rate : α) : Prop where
  unnudged : c.state ≠ .NUDGING → rate = lit 1
  nudged : c.state = .NUDGING →
    (c.nudgeSign = 1 ∧ rate = lit 1 - c.tuning.nudgeRate) ∨ (c.nudgeSign = -1 ∧ rate = lit 1 + c.tuning.nudgeRate)

instance [DecidableEq α] (c : DriftController α) (rate : α) : Decidable (c.Owns rate) :=
  decidable_of_iff
    ((c.state ≠ .NUDGING → rate = lit 1) ∧
      (c.state = .NUDGING → (c.nudgeSign = 1 ∧ rate = lit 1 - c.tuning.nudgeRate) ∨
        (c.nudgeSign = -1 ∧ rate = lit 1 + c.tuning.nudgeRate)))
    ⟨fun h => ⟨h.1, h.2⟩, fun h => ⟨h.unnudged, h.nudged⟩⟩

/-- A nudge is marked as applied. -/
def Marked (c : DriftController α) : Prop := c.state = .NUDGING → c.rateApplied = true

/-- The room is paused, the player rests, and no seek to the room's position is due. -/
def Rests (c : DriftController α) (input : ControllerInput α) : Prop :=
  ∃ tl, input.timeline = some tl ∧ tl.isPlaying = false ∧ input.playerState ≠ .buffering ∧
    input.playerState ≠ .playing ∧
    ¬(Arith.abs (input.playerTime - tl.mediaTime) > c.tuning.pausedReconcileS ∧
      c.seekBeyond input.tLocal c.tuning.seekSpacingMs = true)

/-- A call that leaves NUDGING and the player at the rate of the nudge. -/
def Forgets (c : DriftController α) (rate : α) : Control α → Prop
  | .evaluate input => c.state = .NUDGING ∧ rate ≠ lit 1 ∧ (c.Starts input ∨ c.Rests input)
  | .suspend => False
  | .resume => c.state = .NUDGING ∧ rate ≠ lit 1

theorem Owns.of_ne {c : DriftController α} (h : c.state ≠ .NUDGING) : c.Owns (lit 1) :=
  ⟨fun _ => rfl, fun hn => absurd hn h⟩

/-- A controller in the same state with the same nudge. -/
theorem Owns.congr {c c' : DriftController α} {rate : α} (h : c.Owns rate) (hs : c'.state = c.state)
    (hn : c'.nudgeSign = c.nudgeSign) (ht : c'.tuning = c.tuning) : c'.Owns rate := by
  refine ⟨fun h' => h.unnudged (by rwa [← hs]), fun h' => ?_⟩
  rw [hn, ht]
  exact h.nudged (by rwa [← hs])

/-- Where the nudge is left behind, the rate is not 1. -/
theorem owns_left_iff {c c' : DriftController α} {rate : α} (h : c.Owns rate) (hs : c'.state ≠ .NUDGING) :
    c'.Owns rate ↔ ¬(c.state = .NUDGING ∧ rate ≠ lit 1) := by
  constructor
  · rintro h' ⟨-, hr⟩
    exact hr (h'.unnudged hs)
  · intro hn
    have hr : rate = lit 1 := by
      by_cases hc : c.state = .NUDGING
      · by_contra hr
        exact hn ⟨hc, hr⟩
      · exact h.unnudged hc
    rw [hr]
    exact .of_ne hs

omit [Arith α] in
theorem starts_of_none {c : DriftController α} {input : ControllerInput α} (h : input.timeline = none) :
    ¬c.Starts input := by
  rintro ⟨-, ⟨tl, ht, -⟩, -⟩
  rw [h] at ht
  cases ht

omit [Arith α] in
theorem starts_of_paused {c : DriftController α} {input : ControllerInput α} {tl : RoomTimeline α}
    (h : input.timeline = some tl) (paused : tl.isPlaying = false) : ¬c.Starts input := by
  rintro ⟨-, ⟨tl', ht, hp⟩, -⟩
  rw [h] at ht
  cases ht
  rw [paused] at hp
  cases hp

theorem rests_of_none {c : DriftController α} {input : ControllerInput α} (h : input.timeline = none) :
    ¬c.Rests input := by
  rintro ⟨tl, ht, -⟩
  rw [h] at ht
  cases ht

theorem rests_of_playing {c : DriftController α} {input : ControllerInput α} {tl : RoomTimeline α}
    (h : input.timeline = some tl) (playing : tl.isPlaying = true) : ¬c.Rests input := by
  rintro ⟨tl', ht, hp, -⟩
  rw [h] at ht
  cases ht
  rw [playing] at hp
  cases hp

omit [Arith α] in
/-- A stalled player is not nudged. -/
theorem buffering_ne (c : DriftController α) :
    (if c.state ≠ .SEEKING then ControllerState.BUFFERING else c.state) ≠ .NUDGING := by
  by_cases hs : c.state = .SEEKING <;> simp [hs]

@[simp] theorem issueSeek_state (c : DriftController α) (input : ControllerInput α) (tl : RoomTimeline α) :
    (c.issueSeek input tl).2.state = .SEEKING := rfl

@[simp] theorem issueSeek_rateAfter (c : DriftController α) (input : ControllerInput α) (tl : RoomTimeline α)
    (rate : α) : rateAfter (c.issueSeek input tl).1 rate = lit 1 := rfl

@[simp] theorem learnLead_state (c : DriftController α) (residual : α) : (c.learnLead residual).state = c.state := by
  unfold learnLead
  split <;> rfl

/-- A seek restores the rate. -/
theorem owns_issueSeek (c : DriftController α) (input : ControllerInput α) (tl : RoomTimeline α) (rate : α) :
    (c.issueSeek input tl).2.Owns (rateAfter (c.issueSeek input tl).1 rate) := .of_ne (by simp)

/-- A nudge sets the rate of its sign. -/
theorem owns_nudge {c : DriftController α} {wantSign : SignType} (rate : α) (h : c.nudgeSign = wantSign)
    (hs : c.state = .NUDGING) (sign : wantSign = 1 ∨ wantSign = -1) :
    (c.nudge wantSign).2.Owns (rateAfter (c.nudge wantSign).1 rate) := by
  refine ⟨fun hn => absurd hs hn, fun _ => ?_⟩
  rcases sign with rfl | rfl
  · exact .inl ⟨h, rfl⟩
  · exact .inr ⟨h, rfl⟩

/-- A reading that counts only, or locks a controller that does not nudge. -/
theorem Owns.counted {m c : DriftController α} {rate : α} (h : m.Owns rate) (hn : c.nudgeSign = m.nudgeSign)
    (ht : c.tuning = m.tuning) (hs : c.state = if m.state ≠ .NUDGING then .LOCKED else m.state) : c.Owns rate := by
  by_cases hm : m.state = .NUDGING
  · exact h.congr (by simp [hs, hm]) hn ht
  · rw [if_pos hm] at hs
    rw [h.unnudged hm]
    exact .of_ne (by simp [hs])

/-- The drift logic leaves no nudge behind. -/
theorem owns_corrected {m : DriftController α} {input : ControllerInput α} {tl : RoomTimeline α} {raw rate : α}
    {wasBuffering : Bool} {r : ControllerAction α × DriftController α} (h : m.Owns rate)
    (hr : m.Corrected input tl raw wasBuffering r) : r.2.Owns (rateAfter r.1 rate) := by
  cases hr with
  | cooling | settling | waiting | outOfBand => exact h.congr rfl rfl rfl
  | settled seeking cooled inside enough =>
    rw [show rate = lit 1 from h.unnudged (by simp [seeking])]
    exact .of_ne (by simp)
  | missed | gross | stuck | seek => exact owns_issueSeek ..
  | regained nudging near => exact .of_ne (by simp)
  | inBand | tolerated => exact h.counted rfl rfl rfl
  | nudge wantSign steady idle sign => exact owns_nudge rate rfl rfl sign
  | reaim wantSign nudging sign => exact owns_nudge rate rfl nudging sign

/-- A reading before it is corrected. -/
theorem owns_measure {c : DriftController α} {rate : α} (h : c.Owns rate) (raw : α) : (c.measure raw).Owns rate := by
  by_cases hb : c.state = .BUFFERING
  · rw [h.unnudged (by simp [hb])]
    exact .of_ne (by simp [measure, hb])
  · exact h.congr (by simp [measure, hb]) rfl rfl

/-- **One evaluation**: the player's rate stays the controller's exactly when the evaluation does not leave a nudge
behind. -/
theorem owns_evaluate_iff {c : DriftController α} {rate : α} (h : c.Owns rate) (hm : c.Marked)
    (input : ControllerInput α) :
    (c.evaluate input).2.Owns (rateAfter (c.evaluate input).1 rate) ↔ ¬c.Forgets rate (.evaluate input) := by
  have he := evaluated c input
  generalize c.evaluate input = r at he
  have keeps : r.2.Owns (rateAfter r.1 rate) → (c.state = .NUDGING → ¬c.Starts input ∧ ¬c.Rests input) →
      (r.2.Owns (rateAfter r.1 rate) ↔ ¬c.Forgets rate (.evaluate input)) := by
    intro ho hn
    refine iff_of_true ho ?_
    rintro ⟨hs, -, hf | hf⟩
    · exact (hn hs).1 hf
    · exact (hn hs).2 hf
  have left : (c.Starts input ∨ c.Rests input) → r.2.state ≠ .NUDGING → rateAfter r.1 rate = rate →
      (r.2.Owns (rateAfter r.1 rate) ↔ ¬c.Forgets rate (.evaluate input)) := by
    intro hf hs hr
    rw [hr, owns_left_iff h hs]
    constructor
    · exact fun hn hf => hn ⟨hf.1, hf.2.1⟩
    · exact fun hn hl => hn ⟨hl.1, hl.2, hf⟩
  cases he with
  | idle away =>
    refine keeps h fun hs => ?_
    rcases away with ht | hs'
    · exact ⟨starts_of_none ht, rests_of_none ht⟩
    · rw [hs] at hs'
      cases hs'
  | stalled tl room awake player applied =>
    refine keeps (.of_ne (buffering_ne c)) fun _ => ⟨fun hf => ?_, fun hf => hf.choose_spec.2.2.1 player⟩
    simpa [player] using hf.2.2
  | buffering tl room awake player unapplied =>
    -- the mark would have cleared the rate of a nudge
    have hn : c.state ≠ .NUDGING := fun hn => unapplied (hm hn)
    have ho : ({ c with state := if c.state ≠ .SEEKING then .BUFFERING else c.state } : DriftController α).Owns rate := by
      rw [h.unnudged hn]
      exact .of_ne (buffering_ne c)
    exact keeps ho fun hn' => absurd hn' hn
  | pause tl room paused player =>
    refine keeps h fun _ => ⟨fun hf => ?_, fun hf => hf.choose_spec.2.2.2.1 player⟩
    simpa [player] using hf.2.2
  | reconcile tl room awake paused buffered still off spaced =>
    refine keeps (.of_ne (by simp)) fun _ => ⟨starts_of_paused room paused, fun ⟨tl', ht, hp⟩ => ?_⟩
    rw [room] at ht
    cases ht
    exact hp.2.2.2 ⟨off, spaced⟩
  | hold tl room awake paused buffered still rest =>
    exact left (.inr ⟨tl, room, paused, buffered, still, rest⟩) (by simp) rfl
  | start starts => exact left (.inl starts) (by simp [commandStart]) rfl
  | unloaded tl room playing player =>
    refine keeps h fun _ => ⟨fun hf => ?_, rests_of_playing room playing⟩
    rcases player with player | player <;> simpa [player] using hf.2.2
  | reading tl room awake playing player way =>
    refine keeps (owns_corrected (owns_measure h _) way) fun _ => ⟨fun hf => ?_, rests_of_playing room playing⟩
    simpa [player] using hf.2.2

/-! ## The mark -/

omit [Arith α] in
theorem marked_of_ne {c : DriftController α} (h : c.state ≠ .NUDGING) : c.Marked := fun hn => absurd hn h

/-- A nudge is marked from the start, and whatever takes the mark away leaves NUDGING. -/
theorem marked_corrected {m : DriftController α} {input : ControllerInput α} {tl : RoomTimeline α} {raw : α}
    {wasBuffering : Bool} {r : ControllerAction α × DriftController α} (h : m.Marked)
    (hr : m.Corrected input tl raw wasBuffering r) : r.2.Marked := by
  cases hr with
  | cooling | settling | waiting | outOfBand => exact h
  | settled | regained => exact marked_of_ne (by simp)
  | missed | gross | stuck | seek => exact marked_of_ne (by simp)
  | inBand steady near | tolerated steady near =>
    by_cases hm : m.state = .NUDGING
    · exact fun _ => h hm
    · exact marked_of_ne (by simp [hm])
  | nudge wantSign steady idle sign => exact fun _ => rfl
  | reaim wantSign nudging sign => exact h

theorem marked_control {c : DriftController α} (h : c.Marked) (k : Control α) : (c.control k).1.Marked := by
  cases k with
  | suspend => exact marked_of_ne (by simp [control, suspend])
  | resume => exact marked_of_ne (by simp [control, resume])
  | evaluate input =>
    have he := evaluated c input
    show (c.evaluate input).2.Marked
    generalize c.evaluate input = r at he
    cases he with
    | idle | pause | unloaded => exact h
    | stalled | buffering => exact marked_of_ne (buffering_ne c)
    | reconcile | hold => exact marked_of_ne (by simp)
    | start => exact marked_of_ne (by simp [commandStart])
    | reading tl room awake playing player way =>
      have hm : (c.measure (input.playerTime - projectMediaTime tl input.serverNow)).Marked := by
        by_cases hb : c.state = .BUFFERING
        · exact marked_of_ne (by simp [measure, hb])
        · intro hn
          exact h (by simpa [measure, hb] using hn)
      exact marked_corrected hm way

end DriftController

/-! ## Runs -/

namespace SyncEngine

/-- The controller of the engine is reactive, and the player's rate is its own. -/
def Owned (e : SyncEngine α) : Prop := ∃ c, e.controller = .drift c ∧ c.Owns (rateOf e.player)

instance [DecidableEq α] (e : SyncEngine α) : Decidable e.Owned :=
  match h : e.controller with
  | .drift c => decidable_of_iff (c.Owns (rateOf e.player)) (by simp [Owned, h])
  | .discipline _ => .isFalse (by simp [Owned, h])

/-- A call on the engine's controller that leaves a nudge behind. -/
def Forgets (e : SyncEngine α) (k : Control α) : Prop :=
  ∃ c, e.controller = .drift c ∧ c.Forgets (rateOf e.player) k

/-- What a call does to the controller and to the rate of the player. -/
theorem drive_drift {e : SyncEngine α} {c : DriftController α} (h : e.controller = .drift c) (k : Control α) :
    (e.drive k).controller = .drift (c.control k).1 ∧
      rateOf (e.drive k).player = match k with
        | .evaluate input => rateAfter (c.evaluate input).1 (rateOf e.player)
        | .suspend => lit 1
        | .resume => rateOf e.player := by
  cases k with
  | evaluate input =>
    have hd : e.drive (.evaluate input) =
        { e with controller := .drift (c.evaluate input).2 }.execute (c.evaluate input).1 := by
      simp [drive, h, Controller.evaluate]
    rw [hd]
    exact execute_drift (e := { e with controller := .drift (c.evaluate input).2 }) rfl _
  | suspend => exact ⟨by simp [drive, h, Controller.suspend, Controller.onRateApplied, DriftController.control], rfl⟩
  | resume => exact ⟨by simp [drive, h, Controller.resume, DriftController.control], rfl⟩

/-- **One call.** -/
theorem owned_drive_iff {e : SyncEngine α} (hm : ∃ c, e.controller = .drift c ∧ c.Marked) (ho : e.Owned)
    (k : Control α) : (e.drive k).Owned ↔ ¬e.Forgets k := by
  obtain ⟨c, hc, ho⟩ := ho
  obtain ⟨c', hc', hm⟩ := hm
  obtain rfl : c = c' := by simpa [hc] using hc'
  obtain ⟨hk, hr⟩ := drive_drift hc k
  have howned : (e.drive k).Owned ↔ (c.control k).1.Owns (rateOf (e.drive k).player) := by
    constructor
    · rintro ⟨d, hd, hown⟩
      obtain rfl : (c.control k).1 = d := by simpa [hk] using hd
      exact hown
    · exact fun hown => ⟨_, hk, hown⟩
  have hforgets : e.Forgets k ↔ c.Forgets (rateOf e.player) k := by
    constructor
    · rintro ⟨d, hd, hf⟩
      obtain rfl : c = d := by simpa [hc] using hd
      exact hf
    · exact fun hf => ⟨c, hc, hf⟩
  rw [howned, hforgets, hr]
  cases k with
  | evaluate input => exact DriftController.owns_evaluate_iff ho hm input
  | suspend => exact iff_of_true (.of_ne (by simp [DriftController.control, DriftController.suspend])) id
  | resume => exact DriftController.owns_left_iff ho (by simp [DriftController.control, DriftController.resume])

theorem driven_marked (tuning : ControllerTuning α) (calls : List (Control α)) :
    ∃ c, ((driven tuning).run calls).controller = .drift c ∧ c.Marked := by
  refine (driven tuning).invariant_state (I := fun e => ∃ c, e.controller = .drift c ∧ c.Marked) ?_ ?_ calls
  · exact ⟨_, rfl, DriftController.marked_of_ne (by simp [DriftController.new])⟩
  · rintro e k ⟨c, hc, hm⟩
    exact ⟨_, (drive_drift hc k).1, DriftController.marked_control hm k⟩

/-- **The controller owns its nudge** in every state of a run exactly when no call of the run leaves a nudge behind: a
commanded start, a paused room that is in place, or a resumption, in NUDGING. -/
theorem nudge_owned_iff (tuning : ControllerTuning α) (calls : List (Control α)) :
    (∀ p, p <+: calls → ((driven tuning).run p).Owned) ↔
      ∀ ev ∈ (driven tuning).trace calls, ¬ev.pre.Forgets ev.act := by
  have h0 : (driven tuning).init.Owned := ⟨.new tuning, rfl, .of_ne (DriftController.new_unnudged tuning).1⟩
  exact (driven tuning).holds_iff (fun p _ => driven_marked tuning p) h0 fun _ k hm ho => owned_drive_iff hm ho k

/-- The player is paused by hand while it is slowed down, started again and found in place: the controller is locked and
the player stays slow. -/
theorem nudge_left :
    ¬∀ (calls p : List (Control Float)), p <+: calls → ((driven DEFAULT_CONTROLLER_TUNING).run p).Owned := by
  intro h
  have ho := h [.evaluate ⟨1000, 1000, 1.2, .playing, some ⟨true, 0, 0, 1⟩, true⟩,
    .evaluate ⟨1250, 1250, 1.45, .playing, some ⟨true, 0, 0, 1⟩, true⟩,
    .evaluate ⟨1500, 1500, 1.5, .paused, some ⟨true, 0, 0, 1⟩, true⟩,
    .evaluate ⟨3250, 3250, 3.25, .playing, some ⟨true, 0, 0, 1⟩, true⟩,
    .evaluate ⟨3500, 3500, 3.5, .playing, some ⟨true, 0, 0, 1⟩, true⟩] _ List.prefix_rfl
  revert ho
  decide +kernel

end SyncEngine
end SyncCore
end WatchParty
