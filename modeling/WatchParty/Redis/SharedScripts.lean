import WatchParty.Redis.Room

/-!
# The scripts of the shared-script plane

`init.lua`, `apply_control.lua` and `apply_snapshot.lua`: one atomic step each on the keys of a room. `trim` is what
the store drops of the log beyond its bound. For each script there is one lemma that says everything it can do
(`init_cases`, `applyControl_cases`, `applySnapshot_cases`).
-/

namespace WatchParty
namespace Lua

/-- The time to live of a room's timeline and log. -/
def keyTtlMs : ℕ := 86400000

/-- `init.lua`: create the timeline if there is none. -/
def init (videoId : String) (mediaTime : ℚ) (trim : ℕ) (σ : Room) : Answer × Room :=
  match σ.loadTl with
  | some existing => (encode existing none, σ)
  | none =>
    let tl : TlHash :=
      { seq := 0, storeEpoch := σ.now, videoId := videoId, isPlaying := false, mediaTime := mediaTime,
        stampedAt := σ.now, reason := .join, byUser := "", lastSweepWindow := some (-1) }
    (encode tl none, (σ.saveTl tl keyTtlMs).logTl tl "" trim keyTtlMs)

/-- `ARGV` of `apply_control.lua`; `videoId` and `forVideoId` encode null as the empty text. -/
structure ControlArgs where
  intent : ControlIntent
  mediaTime : ℚ
  byUser : String
  cmdId : String
  dedupTtlMs : ℕ
  videoId : String
  fenced : Bool
  forVideoId : String

/-- The hash a control commits over `tl`. -/
def controlled (a : ControlArgs) (now : ℕ) (tl : TlHash) : TlHash :=
  let tl : TlHash := { tl with seq := tl.seq + 1, stampedAt := now, byUser := a.byUser, reason := a.intent.reason,
                               lastSweepWindow := some (tl.lastSweepWindow.getD (-1)) }
  match a.intent with
  | .play => { tl with isPlaying := true, mediaTime := a.mediaTime }
  | .pause => { tl with isPlaying := false, mediaTime := a.mediaTime }
  | .setVideo => { tl with videoId := a.videoId, isPlaying := false, mediaTime := 0 }
  | .seek => { tl with mediaTime := a.mediaTime }

/-- `apply_control.lua`: dup lookup, video fence, dedup record, commit, in this order. `none` is "room missing". -/
def applyControl (a : ControlArgs) (trim : ℕ) (σ : Room) : Option Answer × Room :=
  match σ.loadTl with
  | none => (none, σ)
  | some tl =>
    if a.cmdId ≠ "" ∧ (σ.getCmd a.cmdId).isSome then (some (encode tl (some .dup)), σ)
    else if a.fenced = true ∧ a.intent ≠ .setVideo ∧ tl.videoId ≠ a.forVideoId then
      (some (encode tl (some .fenced)), σ)
    else
      let σ := if a.cmdId ≠ "" then σ.setCmd a.cmdId (tl.seq + 1) a.dedupTtlMs else σ
      let tl := controlled a σ.now tl
      (some (encode tl none), (σ.saveTl tl keyTtlMs).logTl tl a.cmdId trim keyTtlMs)

/-- The hash a sweep commits over `tl`. -/
def swept (now : ℕ) (window : ℤ) (tl : TlHash) : TlHash :=
  { tl with seq := tl.seq + 1, mediaTime := tl.mediaTime + (now - tl.stampedAt) / 1000, stampedAt := now,
            lastSweepWindow := some window, reason := .snapshot, byUser := "" }

/-- `apply_snapshot.lua`: re-anchor a playing timeline, once per aligned window of `period` milliseconds. -/
def applySnapshot (period : ℕ) (trim : ℕ) (σ : Room) : Option Answer × Room :=
  match σ.loadTl with
  | none => (none, σ)
  | some tl =>
    if tl.isPlaying ≠ true then (some (encode tl none), σ)
    else
      let window : ℤ := σ.now / period
      if tl.lastSweepWindow = some window then (none, σ)
      else
        let tl := swept σ.now window tl
        (some (encode tl none), (σ.saveTl tl keyTtlMs).logTl tl "" trim keyTtlMs)

/-! ## What the scripts can do -/

theorem keyTtlMs_pos : 0 < keyTtlMs := by decide

/-- The state after a commit of `tl` for command `cmdId`. -/
def committed (tl : TlHash) (cmdId : String) (trim : ℕ) (σ : Room) : Room :=
  (σ.saveTl tl keyTtlMs).logTl tl cmdId trim keyTtlMs

section Committed

variable (tl : TlHash) (cmdId : String) (trim : ℕ) (σ : Room)

@[simp] theorem committed_now : (committed tl cmdId trim σ).now = σ.now := rfl
@[simp] theorem committed_cmd : (committed tl cmdId trim σ).cmd = σ.cmd := rfl
@[simp] theorem committed_lease : (committed tl cmdId trim σ).lease = σ.lease := rfl
@[simp] theorem committed_saves : (committed tl cmdId trim σ).saves = σ.saves ++ [tl] := rfl
@[simp] theorem committed_tl : (committed tl cmdId trim σ).tl = Expiring.put σ.now keyTtlMs tl := rfl

@[simp] theorem committed_loadTl : (committed tl cmdId trim σ).loadTl = some tl :=
  σ.loadTl_saveTl tl keyTtlMs keyTtlMs_pos

@[simp] theorem committed_entries :
    (committed tl cmdId trim σ).entries = Room.retained (σ.entries ++ [tl.toEntry cmdId]) trim :=
  (σ.saveTl tl keyTtlMs).entries_logTl tl cmdId trim keyTtlMs keyTtlMs_pos

end Committed

/-- The birth of an incarnation at `now`. -/
def born (videoId : String) (mediaTime : ℚ) (now : ℕ) : TlHash :=
  { seq := 0, storeEpoch := now, videoId := videoId, isPlaying := false, mediaTime := mediaTime, stampedAt := now,
    reason := .join, byUser := "", lastSweepWindow := some (-1) }

/-- `init.lua` answers the stored timeline, or creates one. -/
theorem init_cases (videoId : String) (mediaTime : ℚ) (trim : ℕ) (σ : Room) :
    (∃ tl, σ.loadTl = some tl ∧ init videoId mediaTime trim σ = (encode tl none, σ)) ∨
    (σ.loadTl = none ∧ init videoId mediaTime trim σ =
      (encode (born videoId mediaTime σ.now) none, committed (born videoId mediaTime σ.now) "" trim σ)) := by
  cases h : σ.loadTl with
  | some tl => exact Or.inl ⟨tl, rfl, by simp only [init, h]⟩
  | none => exact Or.inr ⟨rfl, by simp only [init, h]; rfl⟩

/-- The fence of a control refuses the stored video. -/
def FencedOut (a : ControlArgs) (tl : TlHash) : Prop :=
  a.fenced = true ∧ a.intent ≠ .setVideo ∧ tl.videoId ≠ a.forVideoId

/-- The command of a control has a live dedup record. -/
def Recorded (a : ControlArgs) (σ : Room) : Prop := a.cmdId ≠ "" ∧ (σ.getCmd a.cmdId).isSome

/-- The dedup record of a control that commits over `tl`. -/
def record (a : ControlArgs) (tl : TlHash) (σ : Room) : Room :=
  if a.cmdId ≠ "" then σ.setCmd a.cmdId (tl.seq + 1) a.dedupTtlMs else σ

section ApplyControl

variable {a : ControlArgs} {trim : ℕ} {σ : Room} {tl : TlHash}

theorem applyControl_dup (h : σ.loadTl = some tl) (hr : Recorded a σ) :
    applyControl a trim σ = (some (encode tl (some .dup)), σ) := by
  simp only [applyControl, h]
  exact if_pos hr

theorem applyControl_fenced (h : σ.loadTl = some tl) (hr : ¬Recorded a σ) (hf : FencedOut a tl) :
    applyControl a trim σ = (some (encode tl (some .fenced)), σ) := by
  simp only [applyControl, h]
  exact (if_neg hr).trans (if_pos hf)

theorem applyControl_committed (h : σ.loadTl = some tl) (hr : ¬Recorded a σ) (hf : ¬FencedOut a tl) :
    applyControl a trim σ = (some (encode (controlled a σ.now tl) none),
      committed (controlled a σ.now tl) a.cmdId trim (record a tl σ)) := by
  simp only [applyControl, h]
  refine (if_neg hr).trans ((if_neg hf).trans ?_)
  unfold record
  split <;> rfl

end ApplyControl

/-- `apply_control.lua` misses the room, answers a recorded command, refuses a stale fence or commits. -/
theorem applyControl_cases (a : ControlArgs) (trim : ℕ) (σ : Room) :
    (σ.loadTl = none ∧ applyControl a trim σ = (none, σ)) ∨
    (∃ tl, σ.loadTl = some tl ∧
      ((Recorded a σ ∧ applyControl a trim σ = (some (encode tl (some .dup)), σ)) ∨
       (¬Recorded a σ ∧ FencedOut a tl ∧ applyControl a trim σ = (some (encode tl (some .fenced)), σ)) ∨
       (¬Recorded a σ ∧ ¬FencedOut a tl ∧ applyControl a trim σ =
          (some (encode (controlled a σ.now tl) none),
            committed (controlled a σ.now tl) a.cmdId trim (record a tl σ))))) := by
  cases h : σ.loadTl with
  | none => exact Or.inl ⟨rfl, by simp only [applyControl, h]⟩
  | some tl =>
    refine Or.inr ⟨tl, rfl, ?_⟩
    by_cases hr : Recorded a σ
    · exact Or.inl ⟨hr, applyControl_dup h hr⟩
    · by_cases hf : FencedOut a tl
      · exact Or.inr (Or.inl ⟨hr, hf, applyControl_fenced h hr hf⟩)
      · exact Or.inr (Or.inr ⟨hr, hf, applyControl_committed h hr hf⟩)

/-- `apply_snapshot.lua` misses the room, answers a paused timeline, skips a swept window or commits. -/
theorem applySnapshot_cases (period trim : ℕ) (σ : Room) :
    (σ.loadTl = none ∧ applySnapshot period trim σ = (none, σ)) ∨
    (∃ tl, σ.loadTl = some tl ∧
      ((tl.isPlaying = false ∧ applySnapshot period trim σ = (some (encode tl none), σ)) ∨
       (tl.isPlaying = true ∧ tl.lastSweepWindow = some ((σ.now : ℤ) / period) ∧
          applySnapshot period trim σ = (none, σ)) ∨
       (tl.isPlaying = true ∧ tl.lastSweepWindow ≠ some ((σ.now : ℤ) / period) ∧ applySnapshot period trim σ =
          (some (encode (swept σ.now (σ.now / period) tl) none),
            committed (swept σ.now (σ.now / period) tl) "" trim σ)))) := by
  cases h : σ.loadTl with
  | none => exact Or.inl ⟨rfl, by simp only [applySnapshot, h]⟩
  | some tl =>
    refine Or.inr ⟨tl, rfl, ?_⟩
    simp only [applySnapshot, h]
    cases hp : tl.isPlaying with
    | false => exact Or.inl ⟨rfl, by simp⟩
    | true =>
      by_cases hw : tl.lastSweepWindow = some ((σ.now : ℤ) / period)
      · exact Or.inr (Or.inl ⟨rfl, hw, by simp [hw]⟩)
      · exact Or.inr (Or.inr ⟨rfl, hw, by simp [hw, committed]⟩)

@[simp] theorem record_now (a : ControlArgs) (tl : TlHash) (σ : Room) : (record a tl σ).now = σ.now := by
  unfold record; split <;> rfl

@[simp] theorem record_saves (a : ControlArgs) (tl : TlHash) (σ : Room) : (record a tl σ).saves = σ.saves := by
  unfold record; split <;> rfl

@[simp] theorem record_entries (a : ControlArgs) (tl : TlHash) (σ : Room) :
    (record a tl σ).entries = σ.entries := by
  unfold record; split <;> rfl

@[simp] theorem record_tl (a : ControlArgs) (tl : TlHash) (σ : Room) : (record a tl σ).tl = σ.tl := by
  unfold record; split <;> rfl

end Lua
end WatchParty
