import WatchParty.Redis.Room

/-!
# The scripts of the actor plane

`actor_claim.lua`, `actor_init.lua`, `actor_commit.lua` and `actor_reclaim.lua`: one atomic step each on the keys of a
room. `trim` is what the store drops of the log beyond its bound. For each script there is one lemma that says
everything it can do (`actorClaim_cases`, `actorInit_cases`, `actorCommit_cases`, `actorReclaim_cases`).
-/

namespace WatchParty
namespace Lua

/-- What `actor_claim.lua` answers: the lease, and whether it is the caller's. -/
structure LeaseView extends Lease where
  mine : Bool
  deriving DecidableEq, Repr

/-- `actor_claim.lua`: claim a free lease, renew one's own, or see whose it is. A fresh claim mints its epoch from the
clock; a renewal keeps it. -/
def actorClaim (instanceId : String) (ttlMs : ℕ) (σ : Room) : LeaseView × Room :=
  match σ.leaseNow with
  | none =>
    let lease : Lease := { owner := instanceId, epoch := σ.now }
    (⟨lease, true⟩, { σ with lease := Expiring.put σ.now ttlMs lease })
  | some lease =>
    if lease.owner = instanceId then (⟨lease, true⟩, { σ with lease := Expiring.put σ.now ttlMs lease })
    else (⟨lease, false⟩, σ)

/-- `actor_reclaim.lua`: delete exactly the lease that was observed. -/
def actorReclaim (observedOwner : String) (observedFence : ℚ) (σ : Room) : ℕ × Room :=
  match σ.leaseNow with
  | none => (1, σ)
  | some lease =>
    if lease.owner = observedOwner ∧ lease.epoch = observedFence then (1, { σ with lease := none }) else (0, σ)

/-- The lease that is held is exactly this one. -/
def Holds (instanceId : String) (fence : ℚ) (σ : Room) : Prop := σ.leaseNow = some ⟨instanceId, fence⟩

instance (instanceId : String) (fence : ℚ) (σ : Room) : Decidable (Holds instanceId fence σ) :=
  inferInstanceAs (Decidable (σ.leaseNow = some ⟨instanceId, fence⟩))

/-- `ARGV` of `actor_init.lua`. -/
structure ActorInitArgs where
  instanceId : String
  fence : ℚ
  mediaTime : ℚ
  videoId : String
  ttlMs : ℕ

/-- The hash that `actor_init.lua` creates. -/
def actorBorn (a : ActorInitArgs) (now : ℕ) : TlHash :=
  { seq := 0, storeEpoch := a.fence, videoId := a.videoId, isPlaying := false, mediaTime := a.mediaTime,
    stampedAt := now, reason := .join, byUser := "", lastSweepWindow := none }

/-- `actor_init.lua`: create the timeline if there is none, under the caller's fence. A timeline that is found is
answered without its `by`. `none` is "fenced out". -/
def actorInit (a : ActorInitArgs) (trim : ℕ) (σ : Room) : Option Timeline × Room :=
  if Holds a.instanceId a.fence σ then
    match σ.loadTl with
    | some c => (some { c.toTimeline with byUser := none }, σ)
    | none =>
      let tl := actorBorn a σ.now
      (some tl.toTimeline, (σ.saveTl tl a.ttlMs).logTl tl "" trim a.ttlMs)
  else (none, σ)

/-- `ARGV` of `actor_commit.lua`; `videoId` and `forVideoId` encode null as the empty text. -/
structure ActorCommitArgs where
  instanceId : String
  fence : ℚ
  isPlaying : Bool
  mediaTime : ℚ
  reason : Reason
  byUser : String
  videoId : String
  ttlMs : ℕ
  cmdId : String
  dedupTtlMs : ℕ
  videoFenced : Bool
  forVideoId : String

/-- The next `seq`: it restarts at 1 when the fence advances, and when there is no timeline. -/
def nextSeq (fence : ℚ) (cur : Option TlHash) : ℕ :=
  match cur with
  | none => 1
  | some c => if c.storeEpoch = fence then c.seq + 1 else 1

/-- The hash that `actor_commit.lua` leaves; `HSET` keeps a field it does not set. -/
def actorCommitted (a : ActorCommitArgs) (now : ℕ) (cur : Option TlHash) : TlHash :=
  { seq := nextSeq a.fence cur, storeEpoch := a.fence, videoId := a.videoId, isPlaying := a.isPlaying,
    mediaTime := a.mediaTime, stampedAt := now, reason := a.reason, byUser := a.byUser,
    lastSweepWindow := cur.bind TlHash.lastSweepWindow }

/-- `actor_commit.lua`: fence, dup lookup, video fence, dedup record, commit, in this order. Neither the lookup nor
the video fence nor the record is made when there is no timeline. `none` is "fenced out". -/
def actorCommit (a : ActorCommitArgs) (trim : ℕ) (σ : Room) : Option Answer × Room :=
  if Holds a.instanceId a.fence σ then
    let cur := σ.loadTl
    let tl := actorCommitted a σ.now cur
    match cur with
    | some c =>
      if a.cmdId ≠ "" ∧ (σ.getCmd a.cmdId).isSome then (some (encode c (some .dup)), σ)
      else if a.videoFenced = true ∧ c.videoId ≠ a.forVideoId then (some (encode c (some .fenced)), σ)
      else
        let σ := if a.cmdId ≠ "" then σ.setCmd a.cmdId (nextSeq a.fence cur) a.dedupTtlMs else σ
        (some (encode tl none), (σ.saveTl tl a.ttlMs).logTl tl a.cmdId trim a.ttlMs)
    | none => (some (encode tl none), (σ.saveTl tl a.ttlMs).logTl tl a.cmdId trim a.ttlMs)
  else (none, σ)

/-! ## What the scripts can do -/

/-- `actor_claim.lua` mints a lease, renews the caller's, or shows another's. -/
theorem actorClaim_cases (instanceId : String) (ttlMs : ℕ) (σ : Room) :
    (σ.leaseNow = none ∧ actorClaim instanceId ttlMs σ =
      (⟨⟨instanceId, σ.now⟩, true⟩, { σ with lease := Expiring.put σ.now ttlMs ⟨instanceId, σ.now⟩ })) ∨
    (∃ lease, σ.leaseNow = some lease ∧ lease.owner = instanceId ∧
      actorClaim instanceId ttlMs σ = (⟨lease, true⟩, { σ with lease := Expiring.put σ.now ttlMs lease })) ∨
    (∃ lease, σ.leaseNow = some lease ∧ lease.owner ≠ instanceId ∧
      actorClaim instanceId ttlMs σ = (⟨lease, false⟩, σ)) := by
  cases h : σ.leaseNow with
  | none => exact Or.inl ⟨rfl, by simp only [actorClaim, h]⟩
  | some lease =>
    by_cases ho : lease.owner = instanceId
    · exact Or.inr (Or.inl ⟨lease, rfl, ho, by simp only [actorClaim, h, ho, if_true]⟩)
    · exact Or.inr (Or.inr ⟨lease, rfl, ho, by simp only [actorClaim, h, ho, if_false]⟩)

/-- `actor_reclaim.lua` deletes the observed lease, or does nothing. -/
theorem actorReclaim_cases (owner : String) (fence : ℚ) (σ : Room) :
    (Holds owner fence σ ∧ (actorReclaim owner fence σ).2 = { σ with lease := none }) ∨
    (¬Holds owner fence σ ∧ (actorReclaim owner fence σ).2 = σ) := by
  unfold Holds
  cases h : σ.leaseNow with
  | none => exact Or.inr ⟨by simp, by simp only [actorReclaim, h]⟩
  | some lease =>
    by_cases ho : lease.owner = owner ∧ lease.epoch = fence
    · refine Or.inl ⟨?_, by simp only [actorReclaim, h, if_pos ho]⟩
      obtain ⟨rfl, rfl⟩ := ho
      rfl
    · refine Or.inr ⟨fun he => ho ?_, by simp only [actorReclaim, h, if_neg ho]⟩
      cases he
      exact ⟨rfl, rfl⟩

/-- The state after a commit of `tl` for command `cmdId`. -/
def stored (tl : TlHash) (cmdId : String) (trim ttl : ℕ) (σ : Room) : Room :=
  (σ.saveTl tl ttl).logTl tl cmdId trim ttl

section Stored

variable (tl : TlHash) (cmdId : String) (trim ttl : ℕ) (σ : Room)

@[simp] theorem stored_now : (stored tl cmdId trim ttl σ).now = σ.now := rfl
@[simp] theorem stored_cmd : (stored tl cmdId trim ttl σ).cmd = σ.cmd := rfl
@[simp] theorem stored_lease : (stored tl cmdId trim ttl σ).lease = σ.lease := rfl
@[simp] theorem stored_leaseNow : (stored tl cmdId trim ttl σ).leaseNow = σ.leaseNow := rfl
@[simp] theorem stored_saves : (stored tl cmdId trim ttl σ).saves = σ.saves ++ [tl] := rfl
@[simp] theorem stored_tl : (stored tl cmdId trim ttl σ).tl = Expiring.put σ.now ttl tl := rfl

theorem stored_loadTl (h : 0 < ttl) : (stored tl cmdId trim ttl σ).loadTl = some tl := σ.loadTl_saveTl tl ttl h

theorem stored_log : (stored tl cmdId trim ttl σ).log =
    Expiring.put σ.now ttl (Room.retained (σ.entries ++ [tl.toEntry cmdId]) trim) := rfl

end Stored

/-- `actor_init.lua` is fenced out, finds a timeline or creates one. -/
theorem actorInit_cases (a : ActorInitArgs) (trim : ℕ) (σ : Room) :
    (¬Holds a.instanceId a.fence σ ∧ actorInit a trim σ = (none, σ)) ∨
    (Holds a.instanceId a.fence σ ∧
      ((∃ c, σ.loadTl = some c ∧ actorInit a trim σ = (some { c.toTimeline with byUser := none }, σ)) ∨
       (σ.loadTl = none ∧ actorInit a trim σ =
          (some (actorBorn a σ.now).toTimeline, stored (actorBorn a σ.now) "" trim a.ttlMs σ)))) := by
  by_cases hh : Holds a.instanceId a.fence σ
  · refine Or.inr ⟨hh, ?_⟩
    cases h : σ.loadTl with
    | some c => exact Or.inl ⟨c, rfl, by simp only [actorInit, if_pos hh, h]⟩
    | none => exact Or.inr ⟨rfl, by simp only [actorInit, if_pos hh, h]; rfl⟩
  · exact Or.inl ⟨hh, by simp only [actorInit, if_neg hh]⟩

/-- The dedup record of a commit that finds a timeline. -/
def actorRecord (a : ActorCommitArgs) (cur : Option TlHash) (σ : Room) : Room :=
  if a.cmdId ≠ "" ∧ cur.isSome then σ.setCmd a.cmdId (nextSeq a.fence cur) a.dedupTtlMs else σ

section Record

variable (a : ActorCommitArgs) (cur : Option TlHash) (σ : Room)

@[simp] theorem actorRecord_now : (actorRecord a cur σ).now = σ.now := by unfold actorRecord; split <;> rfl
@[simp] theorem actorRecord_tl : (actorRecord a cur σ).tl = σ.tl := by unfold actorRecord; split <;> rfl
@[simp] theorem actorRecord_lease : (actorRecord a cur σ).lease = σ.lease := by unfold actorRecord; split <;> rfl
@[simp] theorem actorRecord_saves : (actorRecord a cur σ).saves = σ.saves := by unfold actorRecord; split <;> rfl
@[simp] theorem actorRecord_entries : (actorRecord a cur σ).entries = σ.entries := by
  unfold actorRecord; split <;> rfl
@[simp] theorem actorRecord_leaseNow : (actorRecord a cur σ).leaseNow = σ.leaseNow := by
  unfold actorRecord; split <;> rfl

end Record

/-- The command of a commit has a live dedup record. -/
def ActorRecorded (a : ActorCommitArgs) (σ : Room) : Prop := a.cmdId ≠ "" ∧ (σ.getCmd a.cmdId).isSome

/-- The video fence of a commit refuses the stored video. -/
def ActorFencedOut (a : ActorCommitArgs) (c : TlHash) : Prop := a.videoFenced = true ∧ c.videoId ≠ a.forVideoId

section ActorCommit

variable {a : ActorCommitArgs} {trim : ℕ} {σ : Room} {c : TlHash}

theorem actorCommit_dup (hh : Holds a.instanceId a.fence σ) (h : σ.loadTl = some c) (hr : ActorRecorded a σ) :
    actorCommit a trim σ = (some (encode c (some .dup)), σ) := by
  simp only [actorCommit, if_pos hh, h]
  exact if_pos hr

theorem actorCommit_fenced (hh : Holds a.instanceId a.fence σ) (h : σ.loadTl = some c) (hr : ¬ActorRecorded a σ)
    (hf : ActorFencedOut a c) : actorCommit a trim σ = (some (encode c (some .fenced)), σ) := by
  simp only [actorCommit, if_pos hh, h]
  exact (if_neg hr).trans (if_pos hf)

theorem actorCommit_committed (trim : ℕ) (hh : Holds a.instanceId a.fence σ)
    (hok : ∀ c, σ.loadTl = some c → ¬ActorRecorded a σ ∧ ¬ActorFencedOut a c) :
    actorCommit a trim σ = (some (encode (actorCommitted a σ.now σ.loadTl) none),
      stored (actorCommitted a σ.now σ.loadTl) a.cmdId trim a.ttlMs (actorRecord a σ.loadTl σ)) := by
  simp only [actorCommit, if_pos hh]
  cases h : σ.loadTl with
  | none => simp [actorRecord, stored]
  | some c =>
    obtain ⟨hr, hf⟩ := hok c h
    refine (if_neg hr).trans ((if_neg hf).trans ?_)
    unfold actorRecord stored
    simp only [Option.isSome_some, and_true]

end ActorCommit

/-- `actor_commit.lua` is fenced out, answers a recorded command, refuses a stale video or commits. -/
theorem actorCommit_cases (a : ActorCommitArgs) (trim : ℕ) (σ : Room) :
    (¬Holds a.instanceId a.fence σ ∧ actorCommit a trim σ = (none, σ)) ∨
    (Holds a.instanceId a.fence σ ∧
      ((∃ c, σ.loadTl = some c ∧ ActorRecorded a σ ∧ actorCommit a trim σ = (some (encode c (some .dup)), σ)) ∨
       (∃ c, σ.loadTl = some c ∧ ¬ActorRecorded a σ ∧ ActorFencedOut a c ∧
          actorCommit a trim σ = (some (encode c (some .fenced)), σ)) ∨
       ((∀ c, σ.loadTl = some c → ¬ActorRecorded a σ ∧ ¬ActorFencedOut a c) ∧ actorCommit a trim σ =
          (some (encode (actorCommitted a σ.now σ.loadTl) none),
            stored (actorCommitted a σ.now σ.loadTl) a.cmdId trim a.ttlMs (actorRecord a σ.loadTl σ))))) := by
  by_cases hh : Holds a.instanceId a.fence σ
  · refine Or.inr ⟨hh, ?_⟩
    cases h : σ.loadTl with
    | none =>
      have hok : ∀ c, σ.loadTl = some c → ¬ActorRecorded a σ ∧ ¬ActorFencedOut a c := fun c hc => by
        rw [h] at hc
        cases hc
      exact Or.inr (Or.inr ⟨h ▸ hok, h ▸ actorCommit_committed trim hh hok⟩)
    | some c =>
      by_cases hr : ActorRecorded a σ
      · exact Or.inl ⟨c, rfl, hr, actorCommit_dup hh h hr⟩
      · by_cases hf : ActorFencedOut a c
        · exact Or.inr (Or.inl ⟨c, rfl, hr, hf, actorCommit_fenced hh h hr hf⟩)
        · have hok : ∀ c, σ.loadTl = some c → ¬ActorRecorded a σ ∧ ¬ActorFencedOut a c := fun c' hc' => by
            rw [h] at hc'
            cases hc'
            exact ⟨hr, hf⟩
          exact Or.inr (Or.inr ⟨h ▸ hok, h ▸ actorCommit_committed trim hh hok⟩)
  · exact Or.inl ⟨hh, by simp only [actorCommit, if_neg hh]⟩

end Lua
end WatchParty
