import WatchParty.SyncCore.Steps

/-!
# When the reactive controller seeks

In exact arithmetic, over whole runs of evaluations, stand-downs and resumptions.

- `Seen` dates the last seek or commanded start, and a nudge after it; one call keeps it (`seen_control`);
- `no_seek_storm`: a seek that is not for a gross drift comes no sooner than `seekSpacingMs` after the last seek or
  commanded start, and every target is a media position.
-/

namespace WatchParty
namespace SyncCore

open Arith

/-- The local time of a call. -/
def Control.tLocal? {α : Type} (k : Control α) : Option α := k.input?.map ControllerInput.tLocal

namespace DriftController

/-- A step of a run. -/
abbrev Event (α : Type) := Machine.Event (DriftController α) (Control α) (Option (ControllerAction α))

/-! ## What an evaluation dates -/

section Dates

variable {α : Type} [Arith α]

/-- A seek, or a commanded start. -/
def IsMove : ControllerAction α → Prop
  | .seek _ => True
  | .play => True
  | .none => False
  | .setRate _ => False
  | .clearRate => False
  | .pause => False

/-- A seek and a commanded start are dated. Without one the date stays, SEEKING is not entered, and a nudge is an earlier
one or begins now. -/
structure Dated (c : DriftController α) (tLocal : α) (r : ControllerAction α × DriftController α) : Prop where
  moved : IsMove r.1 → r.2.lastSeekAt = some tLocal ∧ r.2.state ≠ .NUDGING
  kept : ¬IsMove r.1 → r.2.lastSeekAt = c.lastSeekAt ∧ (r.2.state = .SEEKING → c.state = .SEEKING)
  nudged : r.2.state = .NUDGING → c.state = .NUDGING ∧ r.2.nudgeSince = c.nudgeSince ∨ r.2.nudgeSince = some tLocal

omit [Arith α] in
/-- What changes neither the date nor the nudge. -/
theorem Dated.of_keeps {c c' : DriftController α} {tLocal : α} {act : ControllerAction α} (hact : ¬IsMove act)
    (hl : c'.lastSeekAt = c.lastSeekAt) (hn : c'.nudgeSince = c.nudgeSince)
    (hs : c'.state = c.state ∨ c'.state ≠ .SEEKING ∧ c'.state ≠ .NUDGING) : Dated c tLocal (act, c') := by
  refine ⟨fun h => absurd h hact, fun _ => ⟨hl, fun h => ?_⟩, fun h => Or.inl ⟨?_, hn⟩⟩
  · rcases hs with hs | hs
    · exact hs.symm.trans h
    · exact absurd h hs.1
  · rcases hs with hs | hs
    · exact hs.symm.trans h
    · exact absurd h hs.2

theorem dated_issueSeek (c c' : DriftController α) (input : ControllerInput α) (tl : RoomTimeline α) :
    Dated c input.tLocal (c'.issueSeek input tl) :=
  ⟨fun _ => ⟨rfl, by simp [issueSeek]⟩, fun h => absurd trivial h, fun h => by simp [issueSeek] at h⟩

theorem learnLead_cases (c : DriftController α) (residual : α) :
    c.seekTargetS = none ∧ c.learnLead residual = c ∨
      ∃ target, c.seekTargetS = some target ∧ c.learnLead residual =
        { c with
          seekLead := Arith.min c.tuning.seekLeadMaxS (Arith.max (lit 0) (c.seekLead - residual * lit 0.5)),
          seekTargetS := none } := by
  unfold learnLead
  cases h : c.seekTargetS with
  | none => exact Or.inl ⟨rfl, rfl⟩
  | some target => exact Or.inr ⟨target, rfl, rfl⟩

theorem dated_corrected {m : DriftController α} {input : ControllerInput α} {tl : RoomTimeline α} {raw : α}
    {wasBuffering : Bool} {r : ControllerAction α × DriftController α}
    (hr : m.Corrected input tl raw wasBuffering r) : Dated m input.tLocal r := by
  cases hr with
  | cooling | settling | waiting | outOfBand => exact .of_keeps id rfl rfl (Or.inl rfl)
  | settled seeking cooled inside enough =>
    refine .of_keeps id ?_ ?_ (Or.inr (by simp))
    · rcases learnLead_cases { m with stableEvals := m.stableEvals + 1 } m.lastDrift with ⟨-, h⟩ | ⟨-, -, h⟩ <;> rw [h]
    · rcases learnLead_cases { m with stableEvals := m.stableEvals + 1 } m.lastDrift with ⟨-, h⟩ | ⟨-, -, h⟩ <;> rw [h]
  | missed | gross | stuck | seek => exact dated_issueSeek ..
  | regained nudging near =>
    exact ⟨fun h => absurd h id, fun _ => ⟨rfl, fun h => by simp at h⟩, fun h => by simp at h⟩
  | inBand steady near | tolerated steady near =>
    by_cases hm : m.state = .NUDGING
    · exact .of_keeps id rfl rfl (Or.inl (by simp [hm]))
    · exact .of_keeps id rfl rfl (Or.inr (by simp [hm]))
  | nudge wantSign steady idle sign =>
    exact ⟨fun h => absurd h id, fun _ => ⟨rfl, fun h => by cases h⟩, fun _ => Or.inr rfl⟩
  | reaim wantSign nudging sign =>
    exact ⟨fun h => absurd h id, fun _ => ⟨rfl, fun h => h⟩, fun _ => Or.inr rfl⟩

/-- **What one evaluation dates.** -/
theorem dated_evaluate (c : DriftController α) (input : ControllerInput α) :
    Dated c input.tLocal (c.evaluate input) := by
  have he := evaluated c input
  generalize c.evaluate input = r at he
  cases he with
  | idle | pause | unloaded => exact .of_keeps id rfl rfl (Or.inl rfl)
  | hold => exact .of_keeps id rfl rfl (Or.inr (by simp))
  | reconcile | start => exact ⟨fun _ => ⟨rfl, by simp [commandStart]⟩, fun h => absurd trivial h, fun h => by cases h⟩
  | stalled =>
    refine ⟨fun h => absurd h id, fun _ => ⟨rfl, fun h => ?_⟩, fun h => ?_⟩
    · by_cases hs : c.state = .SEEKING
      · exact hs
      · simp [hs] at h
    · by_cases hs : c.state = .SEEKING <;> simp [hs] at h
  | buffering =>
    by_cases hs : c.state = .SEEKING
    · exact .of_keeps id rfl rfl (Or.inl (by simp [hs]))
    · exact .of_keeps id rfl rfl (Or.inr (by simp [hs]))
  | reading tl room awake playing player way =>
    have hd := dated_corrected way
    by_cases hb : c.state = .BUFFERING
    · refine ⟨hd.moved, fun h => ?_, fun h => ?_⟩
      · obtain ⟨hl, hs⟩ := hd.kept h
        exact ⟨hl, fun h => by simpa [measure, hb] using hs h⟩
      · rcases hd.nudged h with ⟨h, -⟩ | h
        · simp [measure, hb] at h
        · exact Or.inr h
    · have hm : (c.measure (input.playerTime - projectMediaTime tl input.serverNow)).state = c.state := by
        simp [measure, hb]
      refine ⟨hd.moved, fun h => ?_, fun h => ?_⟩
      · obtain ⟨hl, hs⟩ := hd.kept h
        exact ⟨hl, fun h => hm.symm.trans (hs h)⟩
      · exact (hd.nudged h).imp (fun h => ⟨hm.symm.trans h.1, h.2⟩) id

end Dates

/-! ## Spacing -/

section Spacing

variable {α : Type} [Field α] [LinearOrder α] [IsStrictOrderedRing α]

attribute [local instance] Arith.exact

theorem le_of_seekWithin {c : DriftController α} {tLocal ms at' : α} (h : ¬c.seekWithin tLocal ms = true)
    (hl : c.lastSeekAt = some at') : at' + ms ≤ tLocal := by
  simp only [seekWithin, hl, decide_eq_true_eq, not_lt] at h
  linarith

theorem le_of_seekBeyond {c : DriftController α} {tLocal ms at' : α} (h : c.seekBeyond tLocal ms = true)
    (hl : c.lastSeekAt = some at') : at' + ms ≤ tLocal := by
  simp only [seekBeyond, hl, decide_eq_true_eq, gt_iff_lt] at h
  linarith

/-- The room is playing and the drift of the reading is beyond what a single reading is sought for. -/
def Gross (instantSeekS : α) (input : ControllerInput α) : Prop :=
  ∃ tl, input.timeline = some tl ∧ tl.isPlaying = true ∧
    |input.playerTime - projectMediaTime tl input.serverNow| > instantSeekS

/-- A nudge was begun no sooner than the last seek or start. -/
def Later (c : DriftController α) : Prop :=
  c.state = .NUDGING → ∀ since, c.nudgeSince = some since → ∀ at', c.lastSeekAt = some at' → at' ≤ since

theorem spaced_corrected {m : DriftController α} {input : ControllerInput α} {tl : RoomTimeline α} {raw at' : α}
    {wasBuffering : Bool} {r : ControllerAction α × DriftController α}
    (hr : m.Corrected input tl raw wasBuffering r) (htune : m.tuning.seekSpacingMs ≤ m.tuning.nudgeStuckMs)
    (hlater : m.Later) (hseek : ∃ target, r.1 = .seek target)
    (hnear : m.state = .SEEKING ∨ ¬|raw| > m.tuning.instantSeekS) (hl : m.lastSeekAt = some at') :
    at' + m.tuning.seekSpacingMs ≤ input.tLocal := by
  obtain ⟨target, hseek⟩ := hseek
  cases hr with
  | cooling | settling | settled | waiting | regained | inBand | outOfBand | tolerated => cases hseek
  | nudge | reaim => cases hseek
  | missed seeking cooled outside spaced => exact le_of_seekWithin spaced hl
  | seek steady spaced => exact le_of_seekWithin spaced hl
  | gross steady far =>
    rcases hnear with hs | hn
    · exact absurd hs steady
    · exact absurd far hn
  | stuck since nudging nudged long =>
    have hle := hlater nudging since nudged at' hl
    linarith

/-- **One seek** that is not for a gross drift comes no sooner than the spacing allows. -/
theorem spaced_evaluate {c : DriftController α} {input : ControllerInput α} {at' : α}
    (htune : c.tuning.seekSpacingMs ≤ c.tuning.nudgeStuckMs) (hlater : c.Later)
    (hseek : ∃ target, (c.evaluate input).1 = .seek target)
    (hnear : c.state = .SEEKING ∨ ¬Gross c.tuning.instantSeekS input)
    (hl : c.lastSeekAt = some at') : at' + c.tuning.seekSpacingMs ≤ input.tLocal := by
  have he := evaluated c input
  generalize c.evaluate input = r at he hseek
  cases he with
  | idle | pause | hold | unloaded | start | stalled | buffering => simp [commandStart] at hseek
  | reconcile tl room awake paused buffered still off spaced => exact le_of_seekBeyond spaced hl
  | reading tl room awake playing player way =>
    have hs : (c.measure (input.playerTime - projectMediaTime tl input.serverNow)).state =
        if c.state = .BUFFERING then .LOCKED else c.state := rfl
    by_cases hb : c.state = .BUFFERING
    · rw [if_pos hb] at hs
      have hm : ¬|input.playerTime - projectMediaTime tl input.serverNow| > c.tuning.instantSeekS := by
        rcases hnear with hs | hn
        · rw [hb] at hs
          cases hs
        · exact fun h => hn ⟨tl, room, playing, h⟩
      have hlater' : (c.measure (input.playerTime - projectMediaTime tl input.serverNow)).Later := by
        intro h
        rw [hs] at h
        cases h
      have hspaced := spaced_corrected way htune hlater' hseek (Or.inr hm) hl
      exact hspaced
    · rw [if_neg hb] at hs
      have hlater' : (c.measure (input.playerTime - projectMediaTime tl input.serverNow)).Later :=
        fun h => hlater (hs.symm.trans h)
      have hspaced := spaced_corrected way htune hlater' hseek
        (hnear.imp hs.trans fun hn h => hn ⟨tl, room, playing, h⟩) hl
      exact hspaced

omit [IsStrictOrderedRing α] in
/-- A seek goes to a media position. -/
theorem seek_nonneg {c : DriftController α} {input : ControllerInput α} {target : α}
    (hpos : ∀ tl, input.timeline = some tl → 0 ≤ tl.mediaTime) (hseek : (c.evaluate input).1 = .seek target) :
    0 ≤ target := by
  have hissue : ∀ (c' : DriftController α) (tl : RoomTimeline α), (c'.issueSeek input tl).1 = .seek target →
      0 ≤ target := by
    intro c' tl h
    have h0 : (lit 0 : α) = 0 := Rat.cast_zero
    rw [← ControllerAction.seek.inj h, h0]
    exact le_max_left _ _
  have he := evaluated c input
  generalize c.evaluate input = r at he hseek
  cases he with
  | idle | pause | hold | unloaded | start | stalled | buffering => simp [commandStart] at hseek
  | reconcile tl room awake paused buffered still off spaced =>
    rw [← ControllerAction.seek.inj hseek]
    exact hpos tl room
  | reading tl room awake playing player way =>
    cases way with
    | cooling | settling | settled | waiting | regained | inBand | outOfBand | tolerated => cases hseek
    | nudge | reaim => cases hseek
    | missed | gross | stuck | seek => exact hissue _ _ hseek

end Spacing

/-! ## Runs -/

section Runs

variable {α : Type} [Field α] [LinearOrder α]

attribute [local instance] Arith.exact

/-- The event is a seek or a commanded start. -/
def Moves (e : Event α) : Prop := ∃ act, e.out = some act ∧ IsMove act

/-- What the controller has dated: the last seek or start, and a nudge no sooner. -/
structure Seen (tr : List (Event α)) (c : DriftController α) : Prop where
  last : ∀ e ∈ tr, Moves e → ∀ t, e.act.tLocal? = some t → ∃ at', c.lastSeekAt = some at' ∧ t ≤ at'
  past : ∀ at', c.lastSeekAt = some at' → ∃ e ∈ tr, e.act.tLocal? = some at'
  later : c.Later

theorem control_tuning (c : DriftController α) (k : Control α) : (c.control k).1.tuning = c.tuning := by
  have hlearn : ∀ (m : DriftController α) (residual : α), (m.learnLead residual).tuning = m.tuning := by
    intro m residual
    rcases learnLead_cases m residual with ⟨-, h⟩ | ⟨-, -, h⟩ <;> rw [h]
  cases k with
  | suspend | resume => rfl
  | evaluate input =>
    have he := evaluated c input
    show (c.evaluate input).2.tuning = c.tuning
    generalize c.evaluate input = r at he
    cases he with
    | idle | stalled | buffering | pause | reconcile | hold | start | unloaded => rfl
    | reading tl room awake playing player way =>
      cases way with
      | settled | missed => exact hlearn _ _
      | _ => rfl

/-- The tuning that a controller is built with is the one that it keeps. -/
theorem run_tuning (tuning : ControllerTuning α) (calls : List (Control α)) :
    ((controlled tuning).run calls).tuning = tuning :=
  (controlled tuning).invariant_state (I := fun c => c.tuning = tuning) rfl
    (fun c k h => (control_tuning c k).trans h) calls

/-- **One call.** -/
theorem seen_control {tr : List (Event α)} {c : DriftController α} (hs : Seen tr c) (k : Control α)
    (htime : ∀ t, k.tLocal? = some t → ∀ e ∈ tr, ∀ t', e.act.tLocal? = some t' → t' ≤ t) :
    Seen (tr ++ [⟨c, k, (c.control k).2, (c.control k).1⟩]) (c.control k).1 := by
  have hold : ∀ c' : DriftController α, c'.lastSeekAt = c.lastSeekAt → c'.state ≠ .NUDGING →
      Seen (tr ++ [⟨c, k, none, c'⟩]) c' := by
    intro c' hl hn
    refine ⟨fun e he hm t ht => ?_, fun at' ha => ?_, fun h => absurd h hn⟩
    · rcases List.mem_append.mp he with he | he
      · rw [hl]
        exact hs.last e he hm t ht
      · obtain ⟨act, hout, -⟩ := hm
        rw [List.mem_singleton.mp he] at hout
        cases hout
    · obtain ⟨e, he, ht⟩ := hs.past at' (hl ▸ ha)
      exact ⟨e, List.mem_append_left _ he, ht⟩
  cases k with
  | suspend => exact hold c.suspend rfl (by simp [suspend])
  | resume => exact hold c.resume rfl (by simp [resume])
  | evaluate input =>
    have hd := dated_evaluate c input
    by_cases hm : IsMove (c.evaluate input).1
    · obtain ⟨hl, hn⟩ := hd.moved hm
      refine ⟨fun e he hm t ht => ⟨input.tLocal, hl, ?_⟩, fun at' ha => ?_, fun h => absurd h hn⟩
      · rcases List.mem_append.mp he with he | he
        · exact htime input.tLocal rfl e he t ht
        · rw [List.mem_singleton.mp he] at ht
          exact (Option.some.inj ht).ge
      · refine ⟨_, List.mem_append_right _ (List.mem_singleton_self _), ?_⟩
        rw [← ha]
        exact hl.symm
    · obtain ⟨hl, -⟩ := hd.kept hm
      refine ⟨fun e he hm' t ht => ?_, fun at' ha => ?_, fun hn since hsince at' ha => ?_⟩
      · rcases List.mem_append.mp he with he | he
        · obtain ⟨at', ha, hle⟩ := hs.last e he hm' t ht
          exact ⟨at', hl.trans ha, hle⟩
        · obtain ⟨act, hout, hact⟩ := hm'
          rw [List.mem_singleton.mp he] at hout
          cases hout
          exact absurd hact hm
      · obtain ⟨e, he, ht⟩ := hs.past at' (hl.symm.trans ha)
        exact ⟨e, List.mem_append_left _ he, ht⟩
      · have ha' : c.lastSeekAt = some at' := hl.symm.trans ha
        rcases hd.nudged hn with ⟨hn, hsame⟩ | hnow
        · exact hs.later hn since (hsame.symm.trans hsince) at' ha'
        · -- the nudge begins now, and the last seek or start is an event of the past
          obtain ⟨e, he, ht⟩ := hs.past at' ha'
          rw [show since = input.tLocal from Option.some.inj (hsince.symm.trans hnow)]
          exact htime input.tLocal rfl e he at' ht

/-- The calls are made at local times that do not go back. -/
def Ordered (calls : List (Control α)) : Prop := (calls.filterMap Control.tLocal?).Pairwise (· ≤ ·)

theorem Ordered.snoc {calls : List (Control α)} {k : Control α} (h : Ordered (calls ++ [k])) :
    Ordered calls ∧ ∀ t, k.tLocal? = some t → ∀ k' ∈ calls, ∀ t', k'.tLocal? = some t' → t' ≤ t := by
  unfold Ordered at h
  rw [List.filterMap_append, List.pairwise_append] at h
  refine ⟨h.1, fun t ht k' hk' t' ht' => h.2.2 t' ?_ t ?_⟩
  · exact List.mem_filterMap.mpr ⟨k', hk', ht'⟩
  · exact List.mem_filterMap.mpr ⟨k, List.mem_singleton_self _, ht⟩

theorem mem_trace_act {tuning : ControllerTuning α} {calls : List (Control α)} {e : Event α}
    (h : e ∈ (controlled tuning).trace calls) : e.act ∈ calls := by
  obtain ⟨before, k, ⟨after, rfl⟩, rfl⟩ := (controlled tuning).mem_trace h
  simp

theorem seen_run (tuning : ControllerTuning α) {calls : List (Control α)} (ho : Ordered calls) :
    Seen ((controlled tuning).trace calls) ((controlled tuning).run calls) := by
  induction calls using List.reverseRecOn with
  | nil => exact ⟨fun e he => absurd he List.not_mem_nil, fun _ h => (by cases h), fun h => by cases h⟩
  | append_singleton calls k ih =>
    obtain ⟨ho, htime⟩ := ho.snoc
    rw [Machine.trace_snoc, Machine.run_snoc]
    exact seen_control (ih ho) k fun t ht e he t' ht' => htime t ht e.act (mem_trace_act he) t' ht'

/-- SEEKING begins with a seek or a commanded start. -/
theorem moves_of_seeking {c : DriftController α} {k : Control α} (h : (c.control k).1.state = .SEEKING)
    (hn : c.state ≠ .SEEKING) : ∃ act, (c.control k).2 = some act ∧ IsMove act := by
  cases k with
  | suspend | resume => cases h
  | evaluate input =>
    refine ⟨_, rfl, ?_⟩
    by_contra hm
    exact hn (((dated_evaluate c input).kept hm).2 h)

variable [IsStrictOrderedRing α]

/-- **No seek storms.** With the default tuning and local times that do not go back, every seek goes to a media position;
one that is not for a gross drift of a playing room comes at least `seekSpacingMs` after every earlier seek and commanded
start; and none comes in SEEKING before `seekSpacingMs` have passed since it began. -/
theorem no_seek_storm {calls : List (Control α)} (ho : Ordered calls)
    (hpos : ∀ input, Control.evaluate input ∈ calls → ∀ tl, input.timeline = some tl → 0 ≤ tl.mediaTime)
    {tr tr' : List (Event α)} {e : Event α}
    (htr : (controlled DEFAULT_CONTROLLER_TUNING).trace calls = tr ++ e :: tr') {input : ControllerInput α}
    {target : α} (hact : e.act = .evaluate input) (hseek : e.out = some (.seek target)) :
    0 ≤ target ∧
      (¬Gross (DEFAULT_CONTROLLER_TUNING : ControllerTuning α).instantSeekS input →
        ∀ b ∈ tr, Moves b → ∀ t, b.act.tLocal? = some t →
          t + (DEFAULT_CONTROLLER_TUNING : ControllerTuning α).seekSpacingMs ≤ input.tLocal) ∧
      (e.pre.state = .SEEKING → ∀ b ∈ tr, b.pre.state ≠ .SEEKING → b.post.state = .SEEKING →
        ∀ t, b.act.tLocal? = some t →
          t + (DEFAULT_CONTROLLER_TUNING : ControllerTuning α).seekSpacingMs ≤ input.tLocal) := by
  obtain ⟨before, k, after, rfl, rfl, rfl, rfl⟩ := Machine.trace_split _ htr
  obtain rfl : k = .evaluate input := hact
  have hbefore : Ordered before := by
    have h := ho
    unfold Ordered at h
    rw [List.filterMap_append, List.pairwise_append] at h
    exact h.1
  have hs := seen_run DEFAULT_CONTROLLER_TUNING hbefore
  have htune := run_tuning DEFAULT_CONTROLLER_TUNING before
  have hsought : (((controlled DEFAULT_CONTROLLER_TUNING).run before).evaluate input).1 = .seek target :=
    Option.some.inj hseek
  have hstuck : (DEFAULT_CONTROLLER_TUNING : ControllerTuning α).seekSpacingMs ≤
      (DEFAULT_CONTROLLER_TUNING : ControllerTuning α).nudgeStuckMs := by
    have hle : ((3000 : ℚ) : α) ≤ ((15000 : ℚ) : α) := Rat.cast_le.mpr (by norm_num)
    exact hle
  have hspaced : ((controlled DEFAULT_CONTROLLER_TUNING).run before).state = .SEEKING ∨
      ¬Gross (DEFAULT_CONTROLLER_TUNING : ControllerTuning α).instantSeekS input →
      ∀ b ∈ (controlled DEFAULT_CONTROLLER_TUNING).trace before, Moves b → ∀ t, b.act.tLocal? = some t →
        t + (DEFAULT_CONTROLLER_TUNING : ControllerTuning α).seekSpacingMs ≤ input.tLocal := by
    intro hnear b hb hm t ht
    obtain ⟨at', ha, hle⟩ := hs.last b hb hm t ht
    have hat := spaced_evaluate (by rw [htune]; exact hstuck) hs.later ⟨target, hsought⟩ (by rw [htune]; exact hnear) ha
    rw [htune] at hat
    linarith
  refine ⟨seek_nonneg (hpos input (by simp)) hsought, fun hn => hspaced (Or.inr hn), fun hk b hb hbp hbs => ?_⟩
  obtain ⟨as, k, -, rfl⟩ := (controlled DEFAULT_CONTROLLER_TUNING).mem_trace hb
  exact hspaced (Or.inl hk) _ hb (moves_of_seeking hbs hbp)

/-- A player that stays a second behind a room. -/
def behind (t : ℚ) : ControllerInput ℚ := ⟨t, t, t / 1000 - 1, .playing, some ⟨true, 0, 0, 1⟩, false⟩

theorem no_seek_storm_behind :
    0 ≤ (281 / 20 : ℚ) ∧ 10250 + (DEFAULT_CONTROLLER_TUNING : ControllerTuning ℚ).seekSpacingMs ≤ (13250 : ℚ) := by
  let m := controlled (DEFAULT_CONTROLLER_TUNING : ControllerTuning ℚ)
  let first : Event ℚ := m.event m.init (.evaluate (behind 10000))
  let second : Event ℚ := m.event first.post (.evaluate (behind 10250))
  let third : Event ℚ := m.event second.post (.evaluate (behind 13250))
  have hordered : Ordered [Control.evaluate (behind 10000), .evaluate (behind 10250), .evaluate (behind 13250)] := by
    show List.Pairwise _ [(10000 : ℚ), 10250, 13250]
    norm_num
  have hpos : ∀ input, Control.evaluate input ∈ [Control.evaluate (behind 10000), .evaluate (behind 10250),
      .evaluate (behind 13250)] → ∀ tl, input.timeline = some tl → 0 ≤ tl.mediaTime := by
    intro input hin tl ht
    simp only [List.mem_cons, Control.evaluate.injEq, List.not_mem_nil, or_false] at hin
    rcases hin with rfl | rfl | rfl <;> cases ht <;> exact le_rfl
  have htr : m.trace [.evaluate (behind 10000), .evaluate (behind 10250), .evaluate (behind 13250)] =
      [first, second] ++ third :: [] := rfl
  have hact : third.act = .evaluate (behind 13250) := rfl
  have hseek : third.out = some (.seek (281 / 20)) := by decide +kernel
  have hstorm := no_seek_storm hordered hpos htr hact hseek
  refine ⟨hstorm.1, hstorm.2.1 ?_ _ (List.mem_cons_of_mem _ (List.mem_singleton_self _)) ?_ 10250 rfl⟩
  · rintro ⟨tl, ht, -, hfar⟩
    cases ht
    revert hfar
    decide +kernel
  · exact ⟨.seek (211 / 20), by decide +kernel, trivial⟩

end Runs

end DriftController
end SyncCore
end WatchParty
