import Mathlib.Algebra.Order.Floor.Defs
import Mathlib.Data.Rat.Floor
import WatchParty.Lib.Expiring
import WatchParty.Sync.Replay

/-!
# The keys of one room

The Redis keys of one room as the scripts see them: the timeline hash `room:X:tl`, the dedup records
`room:X:cmd:<cmdId>`, the log `room:X:log` and the lease `room:X:lease`, with the time to live of each, and the clock
that `TIME` reads in milliseconds. Hash fields are kept typed; a video or user id stays the text that is stored, where
the empty text encodes null. Number texts denote the numbers they were written from.

The shared helpers of `lua/common.lua` (`loadTl`, `saveTl`, `logTl`, `encode`) are here because the actor scripts
inline the same ones.
-/

namespace WatchParty

/-- The null encoding of stored texts. -/
def nullOf (s : String) : Option String := if s = "" then none else some s

/-- A nullable text as it is stored. -/
def textOf (s : Option String) : String := s.getD ""

@[simp] theorem nullOf_empty : nullOf "" = none := rfl
@[simp] theorem textOf_none : textOf none = "" := rfl
@[simp] theorem textOf_some (s : String) : textOf (some s) = s := rfl

theorem nullOf_of_ne {s : String} (h : s ≠ "") : nullOf s = some s := if_neg h

/-- The empty text is never read back. -/
theorem nullOf_ne_empty (s : String) : nullOf s ≠ some "" := by
  unfold nullOf
  split
  · exact fun h => nomatch h
  · rename_i h
    exact fun h' => h (Option.some.inj h')

@[simp] theorem textOf_nullOf (s : String) : textOf (nullOf s) = s := by
  by_cases h : s = ""
  · rw [h]
    rfl
  · rw [nullOf_of_ne h]
    rfl

/-- Where an id is null or not empty, its text names it. -/
theorem nullOf_eq_iff {s : String} {v : Option String} (hv : v ≠ some "") : nullOf s = v ↔ s = textOf v := by
  cases v with
  | none => simp [nullOf, textOf]
  | some x =>
    have hx : x ≠ "" := fun h => hv (by rw [h])
    by_cases hs : s = ""
    · subst hs
      simp [textOf, Ne.symm hx]
    · rw [nullOf_of_ne hs, Option.some_inj]
      rfl

theorem nullOf_textOf {v : Option String} (hv : v ≠ some "") : nullOf (textOf v) = v := (nullOf_eq_iff hv).mpr rfl

/-- The fields of `room:X:tl`. `lastSweepWindow` is absent from a hash the actor scripts created. -/
structure TlHash where
  seq : ℕ
  storeEpoch : ℚ
  videoId : String
  isPlaying : Bool
  mediaTime : ℚ
  stampedAt : ℚ
  reason : Reason
  byUser : String
  lastSweepWindow : Option ℤ
  deriving DecidableEq, Repr

/-- The hash as a timeline: `RedisRoomStateStore.get`, `ActorRoomStateStore.fromHash`. -/
def TlHash.toTimeline (h : TlHash) : Timeline :=
  { storeEpoch := h.storeEpoch, videoId := nullOf h.videoId, isPlaying := h.isPlaying, mediaTime := h.mediaTime,
    stampedAt := h.stampedAt, reason := h.reason, byUser := nullOf h.byUser, seq := h.seq }

/-- A stream entry as the replay checker reads it back. -/
def TlHash.toEntry (h : TlHash) (cmdId : String) : LogEntry :=
  { seq := h.seq, storeEpoch := h.storeEpoch, videoId := nullOf h.videoId, isPlaying := h.isPlaying,
    mediaTime := h.mediaTime, stampedAt := h.stampedAt, reason := h.reason, byUser := nullOf h.byUser,
    cmdId := nullOf cmdId }

/-- The fields of `room:X:lease`; the epoch is the decimal of the instant of the claim. -/
structure Lease where
  owner : String
  epoch : ℚ
  deriving DecidableEq, Repr

/-- The keys of one room. `saves` is a ghost: every hash ever stored under `room:X:tl`, oldest first. -/
structure Room where
  now : ℕ
  tl : Expiring TlHash
  cmd : String → Expiring ℕ
  log : Expiring (List LogEntry)
  lease : Expiring Lease
  saves : List TlHash

/-- No key is set and the clock has not started. -/
def Room.empty : Room := { now := 0, tl := none, cmd := fun _ => none, log := none, lease := none, saves := [] }

namespace Room

/-- Time passes. -/
def tick (d : ℕ) (σ : Room) : Room := { σ with now := σ.now + d }

def loadTl (σ : Room) : Option TlHash := σ.tl.get σ.now

def saveTl (σ : Room) (tl : TlHash) (ttl : ℕ) : Room :=
  { σ with tl := Expiring.put σ.now ttl tl, saves := σ.saves ++ [tl] }

/-- The entries the log retains. -/
def entries (σ : Room) : List LogEntry := (σ.log.get σ.now).getD []

/-- `MAXLEN ~ 1024`: how far beyond the bound an entry is dropped is up to the store, here `trim`. -/
def retained (log : List LogEntry) (trim : ℕ) : List LogEntry := log.drop (min trim (log.length - 1024))

def logTl (σ : Room) (tl : TlHash) (cmdId : String) (trim ttl : ℕ) : Room :=
  { σ with log := Expiring.put σ.now ttl (retained (σ.entries ++ [tl.toEntry cmdId]) trim) }

/-- `GET` of a dedup record. -/
def getCmd (σ : Room) (cmdId : String) : Option ℕ := (σ.cmd cmdId).get σ.now

/-- `SET … PX` of a dedup record. -/
def setCmd (σ : Room) (cmdId : String) (seq ttl : ℕ) : Room :=
  { σ with cmd := Function.update σ.cmd cmdId (Expiring.put σ.now ttl seq) }

/-- The lease that is held now. -/
def leaseNow (σ : Room) : Option Lease := σ.lease.get σ.now

end Room

/-- Why a script answered without committing. -/
inductive Marker
  | dup | fenced
  deriving DecidableEq, Repr

/-- A script's JSON answer: a timeline and, when nothing was committed for a command, the marker. -/
structure Answer where
  timeline : Timeline
  marker : Option Marker
  deriving DecidableEq, Repr

def encode (tl : TlHash) (marker : Option Marker) : Answer := ⟨tl.toTimeline, marker⟩

/-! ## Reads after writes -/

namespace Room

variable (σ : Room) (tl : TlHash) (cmdId : String) (trim ttl seq d : ℕ)

@[simp] theorem tick_saves : (σ.tick d).saves = σ.saves := rfl
@[simp] theorem tick_now : (σ.tick d).now = σ.now + d := rfl
@[simp] theorem saveTl_now : (σ.saveTl tl ttl).now = σ.now := rfl
@[simp] theorem saveTl_tl : (σ.saveTl tl ttl).tl = Expiring.put σ.now ttl tl := rfl
@[simp] theorem saveTl_saves : (σ.saveTl tl ttl).saves = σ.saves ++ [tl] := rfl
@[simp] theorem saveTl_log : (σ.saveTl tl ttl).log = σ.log := rfl
@[simp] theorem saveTl_cmd : (σ.saveTl tl ttl).cmd = σ.cmd := rfl
@[simp] theorem saveTl_lease : (σ.saveTl tl ttl).lease = σ.lease := rfl
@[simp] theorem saveTl_entries : (σ.saveTl tl ttl).entries = σ.entries := rfl
@[simp] theorem logTl_now : (σ.logTl tl cmdId trim ttl).now = σ.now := rfl
@[simp] theorem logTl_tl : (σ.logTl tl cmdId trim ttl).tl = σ.tl := rfl
@[simp] theorem logTl_saves : (σ.logTl tl cmdId trim ttl).saves = σ.saves := rfl
@[simp] theorem logTl_cmd : (σ.logTl tl cmdId trim ttl).cmd = σ.cmd := rfl
@[simp] theorem logTl_lease : (σ.logTl tl cmdId trim ttl).lease = σ.lease := rfl
@[simp] theorem setCmd_now : (σ.setCmd cmdId seq ttl).now = σ.now := rfl
@[simp] theorem setCmd_tl : (σ.setCmd cmdId seq ttl).tl = σ.tl := rfl
@[simp] theorem setCmd_saves : (σ.setCmd cmdId seq ttl).saves = σ.saves := rfl
@[simp] theorem setCmd_log : (σ.setCmd cmdId seq ttl).log = σ.log := rfl
@[simp] theorem setCmd_lease : (σ.setCmd cmdId seq ttl).lease = σ.lease := rfl
@[simp] theorem setCmd_entries : (σ.setCmd cmdId seq ttl).entries = σ.entries := rfl

theorem loadTl_saveTl (h : 0 < ttl) : (σ.saveTl tl ttl).loadTl = some tl := Expiring.get_put_self h tl

theorem entries_logTl (h : 0 < ttl) :
    (σ.logTl tl cmdId trim ttl).entries = retained (σ.entries ++ [tl.toEntry cmdId]) trim := by
  simp only [entries, logTl]
  rw [Expiring.get_put_self h, Option.getD_some]

/-- What is retained of a log is a suffix of it. -/
theorem retained_suffix (log : List LogEntry) : retained log trim <:+ log := List.drop_suffix _ _

/-- The newest entry is always retained. -/
theorem getLast?_retained_snoc (log : List LogEntry) (e : LogEntry) :
    (retained (log ++ [e]) trim).getLast? = some e := by
  have hlen : ¬(log ++ [e]).length ≤ min trim ((log ++ [e]).length - 1024) := by
    rw [List.length_append, List.length_singleton]
    omega
  rw [retained, List.getLast?_drop, if_neg hlen, List.getLast?_concat]

end Room

end WatchParty
