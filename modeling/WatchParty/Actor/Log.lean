import WatchParty.Actor.Order

/-!
# The log on the actor plane

The log of a room is written with its timeline, but not deleted with it: a `clear` leaves it, and then a new lease
brings a new epoch. So the newest entry of the lease's own epoch, if there is one, is the stored hash, and a log stays
a legal chain as long as every commit over a hash of its own epoch follows that hash.

- `Follows`: what the draft of a commit owes to the timeline it is computed from;
- `Chained` is the invariant, `Chained.step` the step lemma.
-/

namespace WatchParty

/-! ## Drafts that follow a timeline -/

/-- The draft follows the timeline: the effect of its intent on the state, or an unmoved projection. Videos are
compared as they are stored. -/
inductive Follows (next : Draft) (tl : Timeline) : Prop
  | play (hr : next.reason = .play) (hv : textOf next.videoId = textOf tl.videoId) (hp : next.isPlaying = true)
  | pause (hr : next.reason = .pause) (hv : textOf next.videoId = textOf tl.videoId) (hp : next.isPlaying = false)
  | seek (hr : next.reason = .seek) (hv : textOf next.videoId = textOf tl.videoId)
      (hp : next.isPlaying = tl.isPlaying)
  | setVideo (hr : next.reason = .setVideo) (hp : next.isPlaying = false) (hm : next.mediaTime = 0)
  | snapshot (hr : next.reason = .snapshot) (hv : textOf next.videoId = textOf tl.videoId)
      (hp : next.isPlaying = tl.isPlaying) (hm : next.mediaTime = projectMediaTime tl next.stampedAt)

theorem follows_applyControl (tl : Timeline) (intent : ControlIntent) (mediaTime serverNow : ℚ) (byUser : String)
    (videoId : Option (Option String)) :
    Follows (applyControl tl intent mediaTime serverNow byUser videoId) tl := by
  cases intent with
  | play => exact .play rfl rfl rfl
  | pause => exact .pause rfl rfl rfl
  | seek => exact .seek rfl rfl rfl
  | setVideo => exact .setVideo rfl rfl rfl

theorem follows_snapshot (tl : Timeline) (serverNow : ℚ) : Follows (snapshot tl serverNow) tl :=
  .snapshot rfl rfl rfl rfl

namespace ActorPlane

open ActorRoomStateStore

/-- The hash that a commit of the store leaves. -/
abbrev committedHash (instanceId : String) (fence : ℚ) (next : Draft) (cmdId : Option String)
    (forVideoId : Option (Option String)) (σ : Room) : TlHash :=
  Lua.actorCommitted (commitArgs instanceId fence next cmdId forVideoId) σ.now σ.loadTl

section Committed

variable (instanceId : String) (fence : ℚ) {next : Draft} (cmdId : Option String)
  (forVideoId : Option (Option String)) {σ : Room} (hs : next.reason = .snapshot → next.stampedAt = σ.now)

include hs

/-- A draft that followed some timeline follows its own commit, when a snapshot was committed at its own instant: a
commit may be executed twice. -/
theorem follows_committed {tl : Timeline} (h : Follows next tl) :
    Follows next (committedHash instanceId fence next cmdId forVideoId σ).toTimeline := by
  have hv : textOf next.videoId = textOf (nullOf (textOf next.videoId)) := (textOf_nullOf _).symm
  cases h with
  | play hr _ hp => exact .play hr hv hp
  | pause hr _ hp => exact .pause hr hv hp
  | seek hr _ _ => exact .seek hr hv rfl
  | setVideo hr hp hm => exact .setVideo hr hp hm
  | snapshot hr _ _ _ =>
    refine .snapshot hr hv rfl ?_
    rw [projectMediaTime, hs hr]
    show next.mediaTime = if !next.isPlaying then next.mediaTime
      else next.mediaTime + (((σ.now : ℚ) - (σ.now : ℚ)) / 1000) * rate
    rw [sub_self, zero_div, zero_mul, add_zero, ite_self]

/-- A commit whose draft follows the stored hash of its own epoch follows it legally. -/
theorem legal_committed {w : TlHash} (h : Follows next w.toTimeline) (hload : σ.loadTl = some w)
    (hepoch : w.storeEpoch = fence) (hstamp : w.stampedAt ≤ σ.now) (c c' : String) :
    Legal (w.toEntry c) ((committedHash instanceId fence next cmdId forVideoId σ).toEntry c') := by
  have hseq : Lua.nextSeq fence σ.loadTl = w.seq + 1 := by rw [hload, Lua.nextSeq, if_pos hepoch]
  have hvideo : textOf next.videoId = textOf (nullOf w.videoId) → nullOf (textOf next.videoId) = nullOf w.videoId := by
    intro hv
    rw [hv, textOf_nullOf]
  cases h with
  | play hr hv hp => exact legal_of_controlled .play hseq hstamp hr ⟨hvideo hv, hp⟩
  | pause hr hv hp => exact legal_of_controlled .pause hseq hstamp hr ⟨hvideo hv, hp⟩
  | seek hr hv hp => exact legal_of_controlled .seek hseq hstamp hr ⟨hvideo hv, hp⟩
  | setVideo hr hp hm => exact legal_of_controlled .setVideo hseq hstamp hr ⟨hp, hm⟩
  | snapshot hr hv hp hm =>
    rw [hs hr] at hm
    exact legal_of_snapshot hseq hstamp hr (hvideo hv) hp hm

end Committed

/-- A commit that writes leaves its hash. -/
theorem committed_of_step {σ σ' : Room} {i : String} {fence : ℚ} {next : Draft} {cmdId : Option String}
    {forVideoId : Option (Option String)} {trim : ℕ} {out : Out}
    (hs : Step σ (.commit i fence next cmdId forVideoId trim) out σ') (hsaves : σ'.saves ≠ σ.saves) :
    σ'.loadTl = some (committedHash i fence next cmdId forVideoId σ) := by
  cases hs with
  | commit _ _ _ _ _ _ new hh hok hnew =>
    rw [Lua.stored_loadTl _ _ _ _ _ KEY_TTL_MS_pos, hnew]
  | keep op out hout hop hl => exact absurd rfl hsaves

/-! ## The invariant -/

/-- What a run keeps of the log. -/
structure Chained (σ : Room) : Prop where
  chain : ∀ s, σ.log = some s → s.val.IsChain Legal
  epochs : ∀ s, σ.log = some s → ∀ e ∈ s.val, ∃ w ∈ σ.saves, e.storeEpoch = w.storeEpoch
  newest : ∀ lease, σ.leaseNow = some lease → ∀ s, σ.log = some s → ∀ p ∈ s.val.getLast?,
    p.storeEpoch = lease.epoch → ∃ w c, σ.tl = some ⟨w, s.expiresAt⟩ ∧ p = w.toEntry c
  stamped : ∀ s, σ.tl = some s → s.val.stampedAt ≤ σ.now

theorem chained_init : Chained Room.empty where
  chain _ h := by cases h
  epochs _ h := by cases h
  newest _ h := by cases h
  stamped _ h := by cases h

/-- The retained entries are what the log key holds, while it has not expired. -/
theorem entries_cases (σ : Room) : σ.entries = [] ∨ ∃ s, σ.log = some s ∧ σ.now < s.expiresAt ∧ σ.entries = s.val := by
  unfold Room.entries
  cases h : σ.log.get σ.now with
  | none => exact Or.inl rfl
  | some l =>
    obtain ⟨s, hs, hlt, rfl⟩ := Expiring.get_eq_some.mp h
    exact Or.inr ⟨s, hs, hlt, rfl⟩

theorem Chained.entries_chain {σ : Room} (hI : Chained σ) : σ.entries.IsChain Legal := by
  rcases entries_cases σ with h | ⟨s, hs, -, h⟩
  · rw [h]
    exact List.isChain_nil
  · rw [h]
    exact hI.chain s hs

/-- The newest entry of the lease's own epoch is the stored hash. -/
theorem Chained.entries_newest {σ : Room} (hI : Chained σ) {lease : Lease} (h : σ.leaseNow = some lease)
    {p : LogEntry} (hp : p ∈ σ.entries.getLast?) (he : p.storeEpoch = lease.epoch) :
    ∃ w c, σ.loadTl = some w ∧ p = w.toEntry c := by
  rcases entries_cases σ with hnil | ⟨s, hs, hlt, hval⟩
  · rw [hnil] at hp
    cases hp
  · rw [hval] at hp
    obtain ⟨w, c, htl, hw⟩ := hI.newest lease h s hs p hp he
    exact ⟨w, c, Expiring.get_eq_some.mpr ⟨_, htl, hlt, rfl⟩, hw⟩

theorem Chained.stamped_le {σ : Room} (hI : Chained σ) {w : TlHash} (h : σ.loadTl = some w) : w.stampedAt ≤ σ.now := by
  obtain ⟨s, hs, -, rfl⟩ := Expiring.get_eq_some.mp h
  exact hI.stamped s hs

/-- A step that writes neither the timeline nor the log and brings no lease of an epoch that was written under. -/
theorem Chained.keep {σ σ' : Room} (hI : Chained σ) (hlog : σ'.log = σ.log) (hsaves : σ'.saves = σ.saves)
    (hnow : σ.now ≤ σ'.now) (hstamp : ∀ s, σ'.tl = some s → σ.tl = some s)
    (hlease : ∀ lease, σ'.leaseNow = some lease →
      (σ.leaseNow = some lease ∧ σ'.tl = σ.tl) ∨ ∀ w ∈ σ.saves, w.storeEpoch ≠ lease.epoch) : Chained σ' where
  chain := hlog ▸ hI.chain
  epochs := by
    rw [hlog, hsaves]
    exact hI.epochs
  newest lease h s hs p hp he := by
    rw [hlog] at hs
    rcases hlease lease h with ⟨hl, htl⟩ | hfresh
    · rw [htl]
      exact hI.newest lease hl s hs p hp he
    · obtain ⟨w, hw, hwe⟩ := hI.epochs s hs p (List.mem_of_getLast? hp)
      exact absurd (hwe.symm.trans he) (hfresh w hw)
  stamped s h := (hI.stamped s (hstamp s h)).trans (Nat.cast_le.mpr hnow)

/-- A write under the lease, over a newest entry that it may follow. -/
theorem Chained.write {σ σ₀ : Room} (hI : Chained σ) (new : TlHash) (cmdId : String) (trim : ℕ)
    (hnow : σ₀.now = σ.now) (hent : σ₀.entries = σ.entries) (hsaves : σ₀.saves = σ.saves)
    (hlegal : ∀ p ∈ σ.entries.getLast?, Legal p (new.toEntry cmdId)) (hstamp : new.stampedAt = σ.now) :
    Chained (Lua.stored new cmdId trim KEY_TTL_MS σ₀) := by
  have hlog : (Lua.stored new cmdId trim KEY_TTL_MS σ₀).log =
      some ⟨Room.retained (σ.entries ++ [new.toEntry cmdId]) trim, σ.now + KEY_TTL_MS⟩ := by
    rw [Lua.stored_log, hent, hnow]
    rfl
  constructor
  · intro s h
    rw [hlog] at h
    cases h
    exact (isChain_snoc hI.entries_chain hlegal).suffix (Room.retained_suffix _ _)
  · intro s h
    rw [hlog] at h
    cases h
    intro e he
    rw [Lua.stored_saves, hsaves]
    rcases List.mem_append.mp ((Room.retained_suffix _ _).subset he) with he | he
    · rcases entries_cases σ with hnil | ⟨s, hs, -, hval⟩
      · rw [hnil] at he
        cases he
      · obtain ⟨w, hw, hwe⟩ := hI.epochs s hs e (hval ▸ he)
        exact ⟨w, List.mem_append_left _ hw, hwe⟩
    · rw [List.mem_singleton.mp he]
      exact ⟨new, List.mem_append_right _ (List.mem_singleton_self _), rfl⟩
  · intro lease _ s h p hp _
    rw [hlog] at h
    cases h
    rw [Room.getLast?_retained_snoc, Option.mem_some_iff] at hp
    rw [Lua.stored_tl, hnow]
    exact ⟨new, cmdId, rfl, hp.symm⟩
  · intro s h
    rw [Lua.stored_tl] at h
    cases h
    rw [Lua.stored_now, hnow]
    exact hstamp.le

/-- A commit over a hash of its own epoch has a draft that follows that hash, and a snapshot is committed at the
instant that it was projected to. -/
def FollowsStored (σ : Room) : Op → Prop
  | .commit _ fence next _ _ _ => (next.reason = .snapshot → next.stampedAt = σ.now) ∧
      ∀ s, σ.loadTl = some s → s.storeEpoch = fence → Follows next s.toTimeline
  | _ => True

/-- **One command keeps the chain.** -/
theorem Chained.step {σ σ' : Room} {op : Op} {out : Out} (hs : Step σ op out σ') (hI : Chained σ)
    (hmint : ∀ i, op = .claim i → σ.leaseNow = none → ∀ w ∈ σ.saves, w.storeEpoch ≠ σ.now)
    (hfollows : σ'.saves ≠ σ.saves → FollowsStored σ op) : Chained σ' := by
  cases hs with
  | mint i h =>
    refine hI.keep rfl rfl le_rfl (fun s h => h) fun lease hl => Or.inr ?_
    rw [granted_leaseNow] at hl
    cases hl
    exact hmint i rfl h
  | renew i lease h ho =>
    refine hI.keep rfl rfl le_rfl (fun s h => h) fun l hl => Or.inl ⟨?_, rfl⟩
    rw [granted_leaseNow] at hl
    cases hl
    exact h
  | foreign i lease h ho => exact hI
  | revoke owner fence n hh =>
    refine hI.keep rfl rfl le_rfl (fun s h => h) fun l hl => ?_
    rw [revoked_leaseNow] at hl
    cases hl
  | birth i fence videoId mediaTime trim new hh h hnew =>
    subst hnew
    refine hI.write _ "" trim rfl rfl rfl (fun p hp => ?_) rfl
    refine legal_of_epoch fun he => ?_
    obtain ⟨w, c, hw, -⟩ := hI.entries_newest hh hp he.symm
    rw [h] at hw
    cases hw
  | commit i fence next cmdId forVideoId trim new hh hok hnew =>
    subst hnew
    have hwrites : (Lua.stored (committedHash i fence next cmdId forVideoId σ) (textOf cmdId) trim KEY_TTL_MS
        (Lua.actorRecord (commitArgs i fence next cmdId forVideoId) σ.loadTl σ)).saves ≠ σ.saves := by
      rw [Lua.stored_saves, Lua.actorRecord_saves]
      simp
    obtain ⟨hsnap, hfol⟩ := hfollows hwrites
    refine hI.write _ (textOf cmdId) trim (Lua.actorRecord_now _ _ _) (Lua.actorRecord_entries _ _ _)
      (Lua.actorRecord_saves _ _ _) (fun p hp => ?_) rfl
    by_cases he : p.storeEpoch = fence
    · obtain ⟨w, c, hw, rfl⟩ := hI.entries_newest hh hp he
      exact legal_committed i fence cmdId forVideoId hsnap (hfol w hw he) hw he (hI.stamped_le hw) c _
    · exact legal_of_epoch fun h => he h.symm
  | clear => exact hI.keep rfl rfl le_rfl (fun s h => by cases h) fun l hl => by cases hl
  | tick d =>
    refine hI.keep rfl rfl (Nat.le_add_right _ _) (fun s h => h) fun l hl => Or.inl ⟨?_, rfl⟩
    exact Expiring.get_of_le hl (Nat.le_add_right _ _)
  | keep op out hout hop hl => exact hI

/-- Every retained suffix of a chained log has no violation. -/
theorem Chained.no_violation {σ : Room} (hI : Chained σ) {l : List LogEntry} (hl : l <:+ σ.entries) :
    (checkChain l).violations = [] := checkChain_iff.mpr (hI.entries_chain.suffix hl)

end ActorPlane
end WatchParty
