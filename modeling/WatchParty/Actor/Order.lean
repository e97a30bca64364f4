import WatchParty.Actor.Fence

/-!
# Versions on the actor plane

The timeline key and the lease have different lifetimes: commits refresh the key, renewals refresh only the lease. A
write that finds no timeline under the fence of the previous write starts `seq` again, and clients that hold the
previous write drop it. That is the only way in which the order of writes fails.

- `Restarts` says when a write starts `seq` again;
- `writes_increase_iff`: a write is newer than the previous one exactly when it does not;
- `day_old_room`: a room that was left paused for a day under an owner that kept renewing its lease.
-/

namespace WatchParty
namespace ActorPlane

/-- The command is a commit. -/
def Op.isCommit : Op → Bool
  | .commit _ _ _ _ _ _ => true
  | _ => false

/-- A writing command that finds no timeline, under the fence of the previous write `w`. The commit that directly
follows the birth of a timeline is no restart: it starts at 1 after 0. -/
def Restarts (w : TlHash) (e : Event) : Prop :=
  e.pre.loadTl = none ∧ e.act.caller.map Lease.epoch = some w.storeEpoch ∧ ¬(w.seq = 0 ∧ e.act.isCommit = true)

/-- The stored hash is the newest write. -/
def Newest (σ : Room) : Prop := ∀ tl, σ.loadTl = some tl → σ.saves.getLast? = some tl

/-- **One command keeps the stored hash the newest write.** -/
theorem Newest.step {σ σ' : Room} {op : Op} {out : Out} (hs : Step σ op out σ') (hI : Newest σ) : Newest σ' := by
  intro tl h
  rcases write_step hs with hsame | ⟨lease, new, -, -, -, -, -, hsaves, hload⟩
  · rw [hsame]
    cases hs with
    | mint i hn => exact hI tl h
    | renew i lease hl ho => exact hI tl h
    | foreign i lease hl ho => exact hI tl h
    | revoke owner fence n hh => exact hI tl h
    | keep op out hout hop hl => exact hI tl h
    | clear => cases h
    | tick d => exact hI tl (Expiring.get_of_le h (Nat.le_add_right _ _))
    | birth i fence videoId mediaTime trim new hh hl hnew => simp at hsame
    | commit i fence next cmdId forVideoId trim new hh hok hnew => simp at hsame
  · rw [hsaves, List.getLast?_concat, ← h, hload]

theorem newest_init : Newest Room.empty := fun _ h => by cases h

/-- The stored hash is the newest write, in every run. -/
theorem newest (ops : List Op) : Newest (machine.run ops) :=
  machine.invariant_state (I := Newest) newest_init (fun σ op hI => hI.step (step_cases σ op)) ops

/-- The `seq` of a write: 0 for a birth, which finds nothing, and the next one for a commit. -/
theorem write_seq {σ σ' : Room} {op : Op} {out : Out} {new : TlHash} (hs : Step σ op out σ')
    (hw : σ'.saves = σ.saves ++ [new]) :
    (op.isCommit = false ∧ σ.loadTl = none ∧ new.seq = 0) ∨
    (op.isCommit = true ∧ new.seq = Lua.nextSeq new.storeEpoch σ.loadTl) := by
  cases hs with
  | birth i fence videoId mediaTime trim born hh h hnew =>
    rw [Lua.stored_saves, List.append_cancel_left_eq, List.cons.injEq] at hw
    rw [← hw.1, hnew]
    exact Or.inl ⟨rfl, h, rfl⟩
  | commit i fence next cmdId forVideoId trim committed hh hok hnew =>
    rw [Lua.stored_saves, Lua.actorRecord_saves, List.append_cancel_left_eq, List.cons.injEq] at hw
    rw [← hw.1, hnew]
    exact Or.inr ⟨rfl, rfl⟩
  | mint i hn => simp at hw
  | renew i lease hl ho => simp at hw
  | foreign i lease hl ho => simp at hw
  | revoke owner fence n hh => simp [revoked] at hw
  | keep op out hout hop hl => simp at hw
  | clear => simp at hw
  | tick d => simp at hw

/-- **A write is newer than the previous one exactly when it is no restart.** -/
theorem newer_iff {tr : List Event} {e : Event} (hs : Step e.pre e.act e.out e.post) (hF : Fenced tr e.pre)
    (hN : Newest e.pre) {w new : TlHash} (hw : e.pre.saves.getLast? = some w) (hnew : e.post.saves = e.pre.saves ++ [new]) :
    w.toTimeline.version < new.toTimeline.version ↔ ¬Restarts w e := by
  have hcaller : e.act.caller.map Lease.epoch = some new.storeEpoch ∧ w.storeEpoch ≤ new.storeEpoch := by
    rcases write_step hs with hsame | ⟨lease, new', hc, hpre, -, -, he, hsaves, -⟩
    · rw [hsame] at hnew
      simp at hnew
    · rw [hsaves, List.append_cancel_left_eq, List.cons.injEq] at hnew
      rw [hc, ← hnew.1, he]
      exact ⟨rfl, hF.le_held hpre w (List.mem_of_getLast? hw)⟩
  obtain ⟨hc, hle⟩ := hcaller
  have hrestart : Restarts w e ↔
      e.pre.loadTl = none ∧ new.storeEpoch = w.storeEpoch ∧ ¬(w.seq = 0 ∧ e.act.isCommit = true) := by
    rw [Restarts, hc, Option.some_inj]
  rw [version_lt_iff, hrestart]
  show w.storeEpoch < new.storeEpoch ∨ w.storeEpoch = new.storeEpoch ∧ w.seq < new.seq ↔ _
  rcases hle.lt_or_eq with hlt | heq
  · constructor
    · rintro - ⟨-, h, -⟩
      exact hlt.ne h.symm
    · intro _
      exact Or.inl hlt
  · have hirr : ¬w.storeEpoch < new.storeEpoch := heq.not_lt
    cases hl : e.pre.loadTl with
    | some c =>
      -- the key holds the previous write, so the commit counts on from it
      have hcw : c = w := Option.some.inj ((hN c hl).symm.trans hw)
      rcases write_seq hs hnew with ⟨-, hnone, -⟩ | ⟨-, hseq⟩
      · rw [hl] at hnone
        cases hnone
      · rw [hl, Lua.nextSeq, hcw, if_pos heq] at hseq
        constructor
        · rintro - ⟨h, -⟩
          cases h
        · intro _
          exact Or.inr ⟨heq, by omega⟩
    | none =>
      rcases write_seq hs hnew with ⟨hcommit, -, hseq⟩ | ⟨hcommit, hseq⟩
      · constructor
        · rintro (h | ⟨-, h⟩)
          · exact absurd h hirr
          · omega
        · intro h
          exact absurd ⟨rfl, heq.symm, fun h' => by rw [hcommit] at h'; cases h'.2⟩ h
      · rw [hl, Lua.nextSeq] at hseq
        constructor
        · rintro (h | ⟨-, h⟩)
          · exact absurd h hirr
          · rintro ⟨-, -, hne⟩
            exact hne ⟨by omega, hcommit⟩
        · intro h
          refine Or.inr ⟨heq, ?_⟩
          by_contra hge
          exact h ⟨rfl, heq.symm, fun h' => by omega⟩

/-- No write of the run restarts `seq`. -/
def NoRestart (tr : List Event) : Prop :=
  ∀ e ∈ tr, ∀ w new, e.pre.saves.getLast? = some w → e.post.saves = e.pre.saves ++ [new] → ¬Restarts w e

/-- Where no write restarts, every write is newer than all before it. -/
theorem writes_chain (ops : List Op) (h : NoRestart (machine.trace ops)) :
    (machine.run ops).saves.IsChain fun w new => w.toTimeline.version < new.toTimeline.version := by
  refine (machine.invariant_under (C := NoRestart)
    (I := fun tr σ => Fenced tr σ ∧ Newest σ ∧
      σ.saves.IsChain fun w new => w.toTimeline.version < new.toTimeline.version)
    (fun _ _ hC => Machine.forall_mem_of_snoc hC) ⟨fenced_init, newest_init, List.isChain_nil⟩ ?_ ops h).2.2
  rintro tr σ op hC ⟨hF, hN, hchain⟩
  have hs := event_cases σ op
  refine ⟨hF.step hs, hN.step hs, ?_⟩
  show (machine.event σ op).post.saves.IsChain _
  rcases write_step hs with hsame | ⟨lease, new, -, -, -, -, -, hsaves, -⟩
  · rw [hsame]
    exact hchain
  · rw [hsaves]
    refine hchain.append (List.isChain_singleton new) fun w hw x hx => ?_
    rw [List.head?_cons, Option.mem_some_iff] at hx
    subst hx
    have hno := hC _ (List.mem_append_right _ (List.mem_singleton_self _)) w new hw hsaves
    exact (newer_iff hs hF hN hw hsaves).mpr hno

/-- **The order of writes.** In every run of the actor plane a write is newer, for a client that holds the previous
write, exactly when it is no restart; and in a run without restarts every write is newer than all before it. -/
theorem writes_increase_iff (ops : List Op) :
    (∀ e ∈ machine.trace ops, ∀ w new, e.pre.saves.getLast? = some w → e.post.saves = e.pre.saves ++ [new] →
      (isNewer new.toTimeline (some w.toTimeline) = true ↔ ¬Restarts w e)) ∧
    (NoRestart (machine.trace ops) →
      (machine.run ops).saves.Pairwise fun w new => isNewer new.toTimeline (some w.toTimeline) = true) := by
  constructor
  · intro e he w new hw hnew
    obtain ⟨bs, a, -, rfl⟩ := machine.mem_trace he
    rw [isNewer_iff]
    exact newer_iff (event_cases _ _) (fenced bs) (newest bs) hw hnew
  · intro h
    have hchain := writes_chain ops h
    have htrans : IsTrans TlHash fun w new => w.toTimeline.version < new.toTimeline.version :=
      ⟨fun _ _ _ h1 h2 => h1.trans h2⟩
    exact (List.isChain_iff_pairwise.mp hchain).imp fun h => isNewer_iff.mpr h

/-! ## A room left paused for a day -/

/-- An owner that holds the lease renews it. -/
theorem step_claim_of_held {σ : Room} {instanceId : String} {epoch : ℚ} (h : σ.leaseNow = some ⟨instanceId, epoch⟩) :
    (machine.step σ (.claim instanceId)).1 = granted ⟨instanceId, epoch⟩ σ := by
  show (Lua.actorClaim instanceId ActorRoomStateStore.LEASE_TTL_MS σ).2 = _
  rcases Lua.actorClaim_cases instanceId ActorRoomStateStore.LEASE_TTL_MS σ with
    ⟨hn, -⟩ | ⟨lease, hl, -, he⟩ | ⟨lease, hl, ho, -⟩
  · rw [h] at hn
    cases hn
  · rw [h] at hl
    cases hl
    rw [he]
    rfl
  · rw [h] at hl
    cases hl
    exact absurd rfl ho

/-- An owner that holds the lease and finds no timeline commits `seq` 1. -/
theorem step_commit_of_missing {σ : Room} {instanceId : String} {epoch : ℚ} (next : Draft) (trim : ℕ)
    (h : σ.leaseNow = some ⟨instanceId, epoch⟩) (hl : σ.loadTl = none) :
    ∃ new : TlHash, (machine.step σ (.commit instanceId epoch next none none trim)).1.saves = σ.saves ++ [new] ∧
      new.seq = 1 ∧ new.storeEpoch = epoch := by
  have hh : Lua.Holds instanceId epoch σ := h
  rcases Lua.actorCommit_cases (ActorRoomStateStore.commitArgs instanceId epoch next none none) trim σ with
    ⟨hn, -⟩ | ⟨-, ⟨c, hc, -⟩ | ⟨c, hc, -⟩ | ⟨-, he⟩⟩
  · exact absurd hh hn
  · rw [hl] at hc
    cases hc
  · rw [hl] at hc
    cases hc
  · refine ⟨Lua.actorCommitted (ActorRoomStateStore.commitArgs instanceId epoch next none none) σ.now σ.loadTl, ?_, ?_,
      rfl⟩
    · simp only [machine, step]
      rw [he]
      simp
    · rw [hl]
      rfl

/-- An owner renews its lease `n` times. -/
def renewals (instanceId : String) (n : ℕ) : List Op :=
  (List.replicate n [.tick ActorRoomStateStore.RENEW_MS, .claim instanceId]).flatten

/-- Renewals keep the lease and let time pass; nothing else changes. -/
theorem run_renewals (instanceId : String) (epoch : ℚ) : ∀ (n : ℕ) (σ : Room),
    machine.runFrom (granted ⟨instanceId, epoch⟩ σ) (renewals instanceId n) =
      granted ⟨instanceId, epoch⟩ (σ.tick (n * ActorRoomStateStore.RENEW_MS))
  | 0, σ => by simp [renewals, Machine.runFrom, Room.tick]
  | n + 1, σ => by
    have hlive : ((granted ⟨instanceId, epoch⟩ σ).tick ActorRoomStateStore.RENEW_MS).leaseNow =
        some ⟨instanceId, epoch⟩ := by
      have hlt : σ.now + ActorRoomStateStore.RENEW_MS < σ.now + ActorRoomStateStore.LEASE_TTL_MS := by
        simp only [ActorRoomStateStore.RENEW_MS, ActorRoomStateStore.LEASE_TTL_MS]
        omega
      exact Expiring.get_eq_some.mpr ⟨_, rfl, hlt, rfl⟩
    have hsplit : renewals instanceId (n + 1) =
        .tick ActorRoomStateStore.RENEW_MS :: .claim instanceId :: renewals instanceId n := by
      simp [renewals, List.replicate_succ]
    have htime : (σ.tick ActorRoomStateStore.RENEW_MS).tick (n * ActorRoomStateStore.RENEW_MS) =
        σ.tick ((n + 1) * ActorRoomStateStore.RENEW_MS) := by
      simp only [Room.tick, Nat.add_assoc, Nat.succ_mul, Nat.add_comm (n * _)]
    rw [hsplit, Machine.runFrom_cons, Machine.runFrom_cons]
    show machine.runFrom (machine.step ((granted ⟨instanceId, epoch⟩ σ).tick ActorRoomStateStore.RENEW_MS)
      (.claim instanceId)).1 (renewals instanceId n) = _
    rw [step_claim_of_held hlive, ← htime]
    exact run_renewals instanceId epoch n (σ.tick ActorRoomStateStore.RENEW_MS)

/-- A pause at 1 s and a seek to 2 s, as the owner's store commits them. -/
def pauseAt1 : Draft := ⟨0, none, false, 1, 0, .pause, some "u"⟩
def seekTo2 : Draft := ⟨0, none, false, 2, 0, .seek, some "u"⟩

/-- The owner creates the room and pauses it at 1 s. -/
def pausedRoom : List Op := [.claim "a", .init "a" 0 none 0 0, .commit "a" 0 pauseAt1 none none 0]

/-- The two hashes of the paused room. -/
def pausedHashes : List TlHash :=
  [⟨0, 0, "", false, 0, 0, .join, "", none⟩, ⟨1, 0, "", false, 1, 0, .pause, "u", none⟩]

theorem pausedRoom_lease : (machine.run pausedRoom).leaseNow = some ⟨"a", 0⟩ := by decide
theorem pausedRoom_saves : (machine.run pausedRoom).saves = pausedHashes := by decide
theorem pausedRoom_tl :
    (machine.run pausedRoom).tl.map Stored.expiresAt = some ActorRoomStateStore.KEY_TTL_MS := by decide

/-- The paused room under `n` renewals, and then the owner's next commit. -/
def idleRoom (n : ℕ) : List Op := pausedRoom ++ (.claim "a" :: renewals "a" n) ++ [.commit "a" 0 seekTo2 none none 0]

/-- Once the renewals have outlasted the timeline key, the next commit has the version of the previous one. -/
theorem idleRoom_saves {n : ℕ} (hn : ActorRoomStateStore.KEY_TTL_MS ≤ n * ActorRoomStateStore.RENEW_MS) :
    ∃ sought : TlHash, (machine.run (idleRoom n)).saves = pausedHashes ++ [sought] ∧
      sought.seq = 1 ∧ sought.storeEpoch = 0 := by
  have hrun : machine.run (pausedRoom ++ (.claim "a" :: renewals "a" n)) =
      granted ⟨"a", 0⟩ ((machine.run pausedRoom).tick (n * ActorRoomStateStore.RENEW_MS)) := by
    rw [Machine.run_append, Machine.runFrom_cons, step_claim_of_held pausedRoom_lease, run_renewals]
  have hgone : ((machine.run pausedRoom).tick (n * ActorRoomStateStore.RENEW_MS)).loadTl = none := by
    cases h : ((machine.run pausedRoom).tick (n * ActorRoomStateStore.RENEW_MS)).loadTl with
    | none => rfl
    | some tl =>
      obtain ⟨s, hs, hlt, -⟩ := Expiring.get_eq_some.mp h
      have hexp := pausedRoom_tl
      rw [show (machine.run pausedRoom).tl = some s from hs, Option.map_some, Option.some_inj] at hexp
      rw [Room.tick_now, hexp] at hlt
      omega
  rw [idleRoom, Machine.run_snoc, hrun]
  obtain ⟨sought, hsaves, hseq, hepoch⟩ :=
    step_commit_of_missing seekTo2 0 (granted_leaseNow ⟨"a", 0⟩ _) ((granted_loadTl _ _).trans hgone)
  exact ⟨sought, hsaves.trans (congrArg (· ++ [sought]) pausedRoom_saves), hseq, hepoch⟩

/-- **After a day the next commit starts `seq` again**, and clients that hold the previous commit drop it. -/
theorem day_old_room :
    ¬∀ ops, (machine.run ops).saves.Pairwise fun w new => isNewer new.toTimeline (some w.toTimeline) = true := by
  intro h
  obtain ⟨sought, hsaves, hseq, hepoch⟩ := idleRoom_saves (n := 28800) (by decide)
  have hday := h (idleRoom 28800)
  rw [hsaves] at hday
  have hnewer := (List.pairwise_cons.mp (List.pairwise_cons.mp hday).2).1 sought (List.mem_singleton_self _)
  rw [isNewer_iff, version_lt_iff] at hnewer
  simp only [TlHash.toTimeline, hseq, hepoch] at hnewer
  simp at hnewer

end ActorPlane
end WatchParty
