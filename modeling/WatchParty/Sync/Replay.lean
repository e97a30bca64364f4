import Mathlib.Data.List.Chain
import WatchParty.Sync.Timeline

/-!
# The replay contract

`shared/sync-core/replay.ts`: the append-only log of a room as a transition relation. `checkTransition` decides
whether a committed post-state may follow another, `checkChain` checks every consecutive pair of a log and
`entryMatchesLive` compares the newest entry with the live state. In exact arithmetic every number is finite, so
`differs` is the tolerance alone.

- A log has no violation iff every consecutive pair is legal (`checkChain_iff`), and then neither has any suffix of it
  (`checkChain_suffix`).
-/

namespace WatchParty

/-- One committed transition: the full post-state, and the command it came from. -/
structure LogEntry where
  seq : ℕ
  storeEpoch : ℚ
  videoId : Option String
  isPlaying : Bool
  mediaTime : ℚ
  stampedAt : ℚ
  reason : Reason
  byUser : Option String
  cmdId : Option String
  deriving DecidableEq, Repr

/-- A reason as the wire spells it. -/
def Reason.text : Reason → String
  | .play => "play"
  | .pause => "pause"
  | .seek => "seek"
  | .setVideo => "set-video"
  | .join => "join"
  | .snapshot => "snapshot"
  | .succession => "succession"

/-- What `checkTransition` complains about. -/
inductive Violation
  | notContiguous (prev next : ℕ)
  | stampedAtRegressed (prev next : ℚ)
  | setVideoPlaying
  | setVideoMediaTime (mediaTime : ℚ)
  | videoIdChanged (prev next : Option String)
  | playNotPlaying
  | pausePlaying
  | seekFlipped
  | snapshotFlipped
  | snapshotMoved (expected logged : ℚ)
  | unknownReason (reason : Reason)
  deriving DecidableEq, Repr

/-- A video id as a text shows it. -/
def orNull (videoId : Option String) : String := videoId.getD "null"

/-- The text of a complaint; `num` is the number formatting of the platform. -/
def Violation.text (num : ℚ → String) : Violation → String
  | .notContiguous prev next => s!"seq {prev} -> {next}: not contiguous"
  | .stampedAtRegressed prev next => s!"stampedAt regressed {num prev} -> {num next}"
  | .setVideoPlaying => "set-video committed a playing state"
  | .setVideoMediaTime m => s!"set-video committed mediaTime {num m}, not 0"
  | .videoIdChanged prev next => s!"videoId changed mid-epoch ({orNull prev} -> {orNull next})"
  | .playNotPlaying => "play committed a non-playing state"
  | .pausePlaying => "pause committed a playing state"
  | .seekFlipped => "seek flipped isPlaying"
  | .snapshotFlipped => "snapshot flipped isPlaying"
  | .snapshotMoved expected logged =>
    s!"snapshot moved the projection: expected {num expected}, logged {num logged}"
  | .unknownReason reason => s!"unknown transition reason '{reason.text}'"

/-- Slack for the snapshot projection. -/
def EPS : ℚ := 1 / 1000000

def differs (a b : ℚ) : Bool := decide (|a - b| > EPS)

def toTimeline (e : LogEntry) : Timeline :=
  { storeEpoch := e.storeEpoch, videoId := e.videoId, isPlaying := e.isPlaying, mediaTime := e.mediaTime,
    stampedAt := e.stampedAt, reason := e.reason, byUser := e.byUser, seq := e.seq }

/-- The legal-transition contract between two consecutive entries. Entries of different epochs are not chained: an
epoch is anchored by its birth entry. -/
def checkTransition (prev next : LogEntry) : Option Violation :=
  if next.storeEpoch ≠ prev.storeEpoch then none
  else if next.seq ≠ prev.seq + 1 then some (.notContiguous prev.seq next.seq)
  else if next.stampedAt < prev.stampedAt then some (.stampedAtRegressed prev.stampedAt next.stampedAt)
  else if next.reason = .setVideo then
    if next.isPlaying then some .setVideoPlaying
    else if differs next.mediaTime 0 then some (.setVideoMediaTime next.mediaTime)
    else none
  else if next.videoId ≠ prev.videoId then some (.videoIdChanged prev.videoId next.videoId)
  else match next.reason with
    | .play => if !next.isPlaying then some .playNotPlaying else none
    | .pause => if next.isPlaying then some .pausePlaying else none
    | .seek => if next.isPlaying ≠ prev.isPlaying then some .seekFlipped else none
    | .snapshot =>
      if next.isPlaying ≠ prev.isPlaying then some .snapshotFlipped
      else
        let projected := projectMediaTime (toTimeline prev) next.stampedAt
        if differs next.mediaTime projected then some (.snapshotMoved projected next.mediaTime) else none
    | reason => some (.unknownReason reason)

/-- A violation with the place of the entry it is about. -/
structure ChainViolation where
  entry : ℕ
  seq : ℕ
  violation : Violation
  deriving DecidableEq, Repr

def ChainViolation.text (num : ℚ → String) (v : ChainViolation) : String :=
  s!"entry {v.entry} (seq {v.seq}): {v.violation.text num}"

/-- The violations of consecutive pairs, the second entry of the first pair being entry `i`. -/
def chainViolations : ℕ → List LogEntry → List ChainViolation
  | i, prev :: next :: rest =>
    (checkTransition prev next).toList.map (⟨i, next.seq, ·⟩) ++ chainViolations (i + 1) (next :: rest)
  | _, _ => []

structure ChainReport where
  checked : ℕ
  violations : List ChainViolation

/-- Validate every consecutive pair in stream order. -/
def checkChain (entries : List LogEntry) : ChainReport :=
  { checked := entries.length - 1, violations := chainViolations 1 entries }

/-- How the newest entry disagrees with the live state. -/
inductive Mismatch
  | epoch (log live : ℚ)
  | seq (log live : ℕ)
  | isPlaying (log live : Bool)
  | mediaTime (log live : ℚ)
  | reason (log live : Reason)
  | stampedAt (log live : ℚ)
  | videoId (log live : Option String)
  deriving DecidableEq, Repr

def Mismatch.text (num : ℚ → String) : Mismatch → String
  | .epoch log live => s!"epoch: log {num log} vs live {num live}"
  | .seq log live => s!"seq: log {log} vs live {live}"
  | .isPlaying log live => s!"isPlaying: log {log} vs live {live}"
  | .mediaTime log live => s!"mediaTime: log {num log} vs live {num live}"
  | .reason log live => s!"reason: log {log.text} vs live {live.text}"
  | .stampedAt log live => s!"stampedAt: log {num log} vs live {num live}"
  | .videoId log live => s!"videoId: log {orNull log} vs live {orNull live}"

/-- The newest retained entry must be the live state. -/
def entryMatchesLive (last : LogEntry) (live : Timeline) : Option Mismatch :=
  if last.storeEpoch ≠ live.storeEpoch then some (.epoch last.storeEpoch live.storeEpoch)
  else if last.seq ≠ live.seq then some (.seq last.seq live.seq)
  else if last.isPlaying ≠ live.isPlaying then some (.isPlaying last.isPlaying live.isPlaying)
  else if differs last.mediaTime live.mediaTime then some (.mediaTime last.mediaTime live.mediaTime)
  else if last.reason ≠ live.reason then some (.reason last.reason live.reason)
  else if last.stampedAt ≠ live.stampedAt then some (.stampedAt last.stampedAt live.stampedAt)
  else if last.videoId ≠ live.videoId then some (.videoId last.videoId live.videoId)
  else none

/-! ## Tolerance -/

theorem differs_self (a : ℚ) : differs a a = false := by simp [differs, EPS]

/-! ## Chains -/

/-- `next` may follow `prev`. -/
def Legal (prev next : LogEntry) : Prop := checkTransition prev next = none

theorem chainViolations_eq_nil : ∀ (i : ℕ) (l : List LogEntry), chainViolations i l = [] ↔ l.IsChain Legal
  | _, [] => by simp [chainViolations]
  | _, [_] => by simp [chainViolations]
  | i, prev :: next :: rest => by
    rw [List.isChain_cons_cons, ← chainViolations_eq_nil (i + 1) (next :: rest), chainViolations,
      List.append_eq_nil_iff, List.map_eq_nil_iff, Option.toList_eq_nil_iff, Legal]

/-- **A log has no violation iff every consecutive pair is legal.** -/
theorem checkChain_iff {l : List LogEntry} : (checkChain l).violations = [] ↔ l.IsChain Legal :=
  chainViolations_eq_nil 1 l

/-- A suffix of a log without violations has none. -/
theorem checkChain_suffix {l l' : List LogEntry} (h : (checkChain l).violations = []) (hs : l' <:+ l) :
    (checkChain l').violations = [] :=
  checkChain_iff.mpr ((checkChain_iff.mp h).suffix hs)

/-- A log grows legally when the new entry may follow the newest one. -/
theorem isChain_snoc {l : List LogEntry} {e : LogEntry} (h : l.IsChain Legal) (he : ∀ p ∈ l.getLast?, Legal p e) :
    (l ++ [e]).IsChain Legal := by
  refine h.append (List.isChain_singleton e) fun p hp q hq => ?_
  rw [List.head?_cons, Option.mem_some_iff] at hq
  exact hq ▸ he p hp

/-! ## Legal transitions -/

section Legal

variable {prev next : LogEntry}

/-- Entries of different epochs may follow each other. -/
theorem legal_of_epoch (h : next.storeEpoch ≠ prev.storeEpoch) : Legal prev next := by
  simp [Legal, checkTransition, h]

/-- What a control does to a state it follows. -/
def Controlled (intent : ControlIntent) (prev next : LogEntry) : Prop :=
  match intent with
  | .play => next.videoId = prev.videoId ∧ next.isPlaying = true
  | .pause => next.videoId = prev.videoId ∧ next.isPlaying = false
  | .seek => next.videoId = prev.videoId ∧ next.isPlaying = prev.isPlaying
  | .setVideo => next.isPlaying = false ∧ next.mediaTime = 0

/-- The next `seq`, no earlier stamp and the effect of the intent make a legal control. -/
theorem legal_of_controlled (intent : ControlIntent) (hq : next.seq = prev.seq + 1)
    (hs : prev.stampedAt ≤ next.stampedAt) (hr : next.reason = intent.reason) (h : Controlled intent prev next) :
    Legal prev next := by
  unfold Legal checkTransition
  cases intent with
  | play => simp [hq, hs.not_gt, hr, ControlIntent.reason, h.1, h.2]
  | pause => simp [hq, hs.not_gt, hr, ControlIntent.reason, h.1, h.2]
  | seek => simp [hq, hs.not_gt, hr, ControlIntent.reason, h.1, h.2]
  | setVideo => simp [hq, hs.not_gt, hr, ControlIntent.reason, h.1, h.2, differs_self]

/-- The next `seq`, no earlier stamp and a projection that has not moved make a legal snapshot. -/
theorem legal_of_snapshot (hq : next.seq = prev.seq + 1) (hs : prev.stampedAt ≤ next.stampedAt)
    (hr : next.reason = .snapshot) (hv : next.videoId = prev.videoId) (hp : next.isPlaying = prev.isPlaying)
    (hm : next.mediaTime = projectMediaTime (toTimeline prev) next.stampedAt) : Legal prev next := by
  unfold Legal checkTransition
  simp [hq, hs.not_gt, hr, hv, hp, hm, differs_self]

/-- An entry with the state of the live timeline matches it. -/
theorem entryMatchesLive_self {last : LogEntry} {live : Timeline} (h : toTimeline last = live) :
    entryMatchesLive last live = none := by
  subst h
  simp [entryMatchesLive, toTimeline, differs_self]

end Legal

end WatchParty
