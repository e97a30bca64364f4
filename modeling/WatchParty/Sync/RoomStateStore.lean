import WatchParty.Sync.Timeline

/-!
# The store interface

`sync/room-state.store.ts`: what every room state store is asked and how it answers, and the two periods all stores
share.
-/

namespace WatchParty

/-- The repair-sweep period. -/
def SWEEP_INTERVAL_MS : ℕ := 10000

/-- The period into which snapshots are bucketed. -/
def SWEEP_DEDUP_PERIOD_MS : ℕ := SWEEP_INTERVAL_MS

/-- How long a store remembers an applied command. -/
def CMD_DEDUP_TTL_MS : ℕ := 15 * 60000

/-- The arguments of `applyControl` besides the room and the instance's clock. In `videoId` and `forVideoId` the outer
`none` is an absent option, the inner one the null of the wire. -/
structure ControlReq where
  intent : ControlIntent
  mediaTime : ℚ
  byUser : String
  cmdId : Option String
  originSocketId : Option String
  videoId : Option (Option String)
  forVideoId : Option (Option String)
  deriving DecidableEq, Repr

/-- The outcome of a control application. -/
inductive ApplyOutcome
  | committed (timeline : Timeline)
  | duplicate (timeline : Timeline)
  | fenced (timeline : Timeline)
  | forwarded
  | missing
  deriving DecidableEq, Repr

/-- The timeline an outcome carries. -/
def ApplyOutcome.timeline : ApplyOutcome → Option Timeline
  | .committed tl => some tl
  | .duplicate tl => some tl
  | .fenced tl => some tl
  | .forwarded => none
  | .missing => none

end WatchParty
