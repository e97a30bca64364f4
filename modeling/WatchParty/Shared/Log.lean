import WatchParty.Shared.Order

/-!
# The log on the shared-script plane

Over every run the log of a room is a chain of legal transitions, its newest entry is the live timeline, and
duplicate and refused deliveries append nothing.

- `Logged` is the invariant, `Logged.step` the step lemma, `logged` the run lemma.
-/

namespace WatchParty
namespace Plane

/-- What a run keeps of the log. The timeline and the log are written together, so they expire together. -/
structure Logged (tr : List Event) (σ : Room) : Prop where
  chain : ∀ s, σ.log = some s → s.val.IsChain Legal
  newest : ∀ s, σ.tl = some s → ∃ l c, σ.log = some ⟨l, s.expiresAt⟩ ∧ l.getLast? = some (s.val.toEntry c)
  epochs : ∀ s, σ.log = some s → ∀ e ∈ s.val, ∃ n ∈ mints tr, e.storeEpoch = n
  stamped : ∀ s, σ.tl = some s → s.val.stampedAt ≤ σ.now

theorem logged_init : Logged [] Room.empty where
  chain _ h := by cases h
  newest _ h := by cases h
  epochs _ h := by cases h
  stamped _ h := by cases h

/-- The entries a log retains are legally chained. -/
theorem Logged.entries_chain {tr : List Event} {σ : Room} (hI : Logged tr σ) : σ.entries.IsChain Legal := by
  unfold Room.entries
  cases h : σ.log.get σ.now with
  | none => exact List.isChain_nil
  | some l =>
    obtain ⟨s, hs, -, rfl⟩ := Expiring.get_eq_some.mp h
    exact hI.chain s hs

/-- The epochs of the retained entries were minted. -/
theorem Logged.entries_epochs {tr : List Event} {σ : Room} (hI : Logged tr σ) :
    ∀ e ∈ σ.entries, ∃ n ∈ mints tr, e.storeEpoch = n := by
  unfold Room.entries
  cases h : σ.log.get σ.now with
  | none => exact fun e he => absurd he List.not_mem_nil
  | some l =>
    obtain ⟨s, hs, -, rfl⟩ := Expiring.get_eq_some.mp h
    exact hI.epochs s hs

/-- The newest entry is the stored hash. -/
theorem Logged.entries_newest {tr : List Event} {σ : Room} (hI : Logged tr σ) {tl : TlHash}
    (h : σ.loadTl = some tl) : ∃ c, σ.entries.getLast? = some (tl.toEntry c) := by
  obtain ⟨s, hs, hlt, rfl⟩ := Expiring.get_eq_some.mp h
  obtain ⟨l, c, hl, hlast⟩ := hI.newest s hs
  refine ⟨c, ?_⟩
  rw [Room.entries, Expiring.get_eq_some.mpr ⟨_, hl, hlt, rfl⟩]
  exact hlast

/-- The stored hash was stamped in the past. -/
theorem Logged.stamped_le {tr : List Event} {σ : Room} (hI : Logged tr σ) {tl : TlHash} (h : σ.loadTl = some tl) :
    tl.stampedAt ≤ σ.now := by
  obtain ⟨s, hs, -, rfl⟩ := Expiring.get_eq_some.mp h
  exact hI.stamped s hs

/-- An event that writes neither the timeline nor the log. -/
theorem Logged.keep {tr : List Event} {σ σ' : Room} (hI : Logged tr σ) (e : Event) (hm : mint e = none)
    (hl : σ'.log = σ.log) (htl : ∀ s, σ'.tl = some s → σ.tl = some s) (hnow : σ.now ≤ σ'.now) :
    Logged (tr ++ [e]) σ' where
  chain := hl ▸ hI.chain
  newest s h := hl ▸ hI.newest s (htl s h)
  epochs := by rw [hl, mints_snoc, hm, Option.toList_none, List.append_nil]; exact hI.epochs
  stamped s h := (hI.stamped s (htl s h)).trans (Nat.cast_le.mpr hnow)

/-- An event that commits a hash which may follow the newest entry. -/
theorem Logged.commit {tr : List Event} {σ σ₀ : Room} (hI : Logged tr σ) (e : Event) (new : TlHash)
    (cmdId : String) (trim : ℕ) (hnow : σ₀.now = σ.now) (hent : σ₀.entries = σ.entries)
    (hlegal : ∀ p ∈ σ.entries.getLast?, Legal p (new.toEntry cmdId)) (hstamp : new.stampedAt = σ.now)
    (hepoch : ∃ n ∈ mints (tr ++ [e]), new.storeEpoch = n) :
    Logged (tr ++ [e]) (Lua.committed new cmdId trim σ₀) := by
  have hlog : (Lua.committed new cmdId trim σ₀).log =
      some ⟨Room.retained (σ.entries ++ [new.toEntry cmdId]) trim, σ.now + Lua.keyTtlMs⟩ := by
    simp only [Lua.committed, Room.logTl, Room.saveTl_entries, hent, Room.saveTl_now, hnow]
    rfl
  refine ⟨fun s h => ?_, fun s h => ?_, fun s h => ?_, fun s h => ?_⟩
  · rw [hlog] at h
    cases h
    exact (isChain_snoc hI.entries_chain hlegal).suffix (Room.retained_suffix _ _)
  · rw [Lua.committed_tl, hnow] at h
    cases h
    exact ⟨_, cmdId, hlog, Room.getLast?_retained_snoc _ _ _⟩
  · rw [hlog] at h
    cases h
    intro x hx
    rcases List.mem_append.mp ((Room.retained_suffix _ _).subset hx) with hx | hx
    · obtain ⟨n, hn, he⟩ := hI.entries_epochs x hx
      exact ⟨n, by rw [mints_snoc]; exact List.mem_append_left _ hn, he⟩
    · rw [List.mem_singleton.mp hx]
      exact hepoch
  · rw [Lua.committed_tl] at h
    cases h
    rw [Lua.committed_now, hnow]
    exact hstamp.le

/-- A control that commits over a hash follows it legally. -/
theorem legal_controlled (a : Lua.ControlArgs) {now : ℕ} {tl : TlHash} (h : tl.stampedAt ≤ now) (c c' : String) :
    Legal (tl.toEntry c) ((Lua.controlled a now tl).toEntry c') := by
  refine legal_of_controlled a.intent ?_ ?_ ?_ ?_
  · exact controlled_seq a now tl
  · refine h.trans_eq ?_
    unfold Lua.controlled
    cases a.intent <;> rfl
  · unfold Lua.controlled
    cases h : a.intent <;> rfl
  · unfold Lua.controlled
    cases h : a.intent with
    | play => exact ⟨rfl, rfl⟩
    | pause => exact ⟨rfl, rfl⟩
    | seek => exact ⟨rfl, rfl⟩
    | setVideo => exact ⟨rfl, rfl⟩

/-- A sweep that commits over a playing hash follows it legally. -/
theorem legal_swept {now : ℕ} {tl : TlHash} (hp : tl.isPlaying = true) (h : tl.stampedAt ≤ now) (window : ℤ)
    (c c' : String) : Legal (tl.toEntry c) ((Lua.swept now window tl).toEntry c') := by
  refine legal_of_snapshot rfl h rfl rfl rfl ?_
  rw [projectMediaTime_playing (by exact hp)]
  rfl

/-- **One operation keeps the log.** -/
theorem Logged.step {tr : List Event} {e : Event} (hs : Step e.pre e.act e.out e.post)
    (hmint : (mints (tr ++ [e])).Nodup) (hI : Logged tr e.pre) : Logged (tr ++ [e]) e.post := by
  obtain ⟨pre, act, out, post⟩ := e
  simp only at hs hI ⊢
  have hold : ∀ {tl new : TlHash} (e : Event), pre.loadTl = some tl → new.storeEpoch = tl.storeEpoch →
      ∃ n ∈ mints (tr ++ [e]), new.storeEpoch = n := by
    intro tl new e h he
    obtain ⟨c, hlast⟩ := hI.entries_newest h
    obtain ⟨n, hn, hep⟩ := hI.entries_epochs _ (List.mem_of_getLast? hlast)
    exact ⟨n, by rw [mints_snoc]; exact List.mem_append_left _ hn, he.trans hep⟩
  have hnext : ∀ {tl : TlHash} {y : LogEntry}, pre.loadTl = some tl → (∀ c, Legal (tl.toEntry c) y) →
      ∀ p ∈ pre.entries.getLast?, Legal p y := by
    intro tl y h hy p hp
    obtain ⟨c, hlast⟩ := hI.entries_newest h
    rw [hlast, Option.mem_some_iff] at hp
    exact hp ▸ hy c
  cases hs with
  | control req trim tl new h hr hf hnew =>
    subst hnew
    exact hI.commit _ _ _ _ (by simp) (by simp) (hnext h fun c => legal_controlled _ (hI.stamped_le h) c _)
      (by unfold Lua.controlled; cases (RedisRoomStateStore.controlArgs req).intent <;> rfl)
      (hold _ h (controlled_storeEpoch _ _ _))
  | snapshot trim tl new h hp window hnew =>
    subst hnew
    exact hI.commit _ _ _ _ rfl rfl (hnext h fun c => legal_swept hp (hI.stamped_le h) window c _) rfl
      (hold _ h rfl)
  | birth videoId mediaTime trim new h hnew =>
    have hm : ∀ out post, mint ⟨pre, .init videoId mediaTime trim, out, post⟩ = some pre.now := by
      intro out post
      simp only [mint, h]
    rw [mints_snoc, hm, Option.toList_some] at hmint
    subst hnew
    refine hI.commit _ _ _ _ rfl rfl (fun p hp => ?_) rfl ⟨pre.now, ?_, rfl⟩
    · obtain ⟨n, hn, hep⟩ := hI.entries_epochs p (List.mem_of_getLast? hp)
      refine legal_of_epoch fun heq => ?_
      have hnow : n = pre.now := Nat.cast_injective (R := ℚ) (hep.symm.trans heq.symm)
      exact (List.nodup_append.mp hmint).2.2 n hn _ (List.mem_singleton_self _) hnow
    · rw [mints_snoc, hm]
      simp
  | clear => exact hI.keep _ rfl rfl (fun s h => by cases h) le_rfl
  | tick d => exact hI.keep _ rfl rfl (fun s h => h) (Nat.le_add_right _ _)
  | read tl h => exact hI.keep _ rfl rfl (fun s h => h) le_rfl
  | missing req trim h => exact hI.keep _ rfl rfl (fun s h => h) le_rfl
  | duplicate req trim tl h hr => exact hI.keep _ rfl rfl (fun s h => h) le_rfl
  | fenced req trim tl h hr hf => exact hI.keep _ rfl rfl (fun s h => h) le_rfl
  | idle trim tl h => exact hI.keep _ rfl rfl (fun s h => h) le_rfl
  | found videoId mediaTime trim tl h =>
    exact hI.keep _ (mint_eq_none (by simp [h])) rfl (fun s h => h) le_rfl

/-- **The log is a legal chain that ends in the live timeline, in every run.** -/
theorem logged (ops : List Op) : (mints (machine.trace ops)).Nodup → Logged (machine.trace ops) (machine.run ops) :=
  machine.invariant_under (C := fun tr => (mints tr).Nodup) nodup_mints_of_snoc logged_init
    (fun _ _ _ hc hI => hI.step (event_cases _ _) hc) ops

/-- Every retained suffix of the log has no violation. -/
theorem Logged.no_violation {tr : List Event} {σ : Room} (hI : Logged tr σ) {l : List LogEntry}
    (hl : l <:+ σ.entries) : (checkChain l).violations = [] := checkChain_iff.mpr (hI.entries_chain.suffix hl)

/-- The newest entry matches the live timeline. -/
theorem Logged.matches_live {tr : List Event} {σ : Room} (hI : Logged tr σ) {live : Timeline}
    (h : RedisRoomStateStore.get σ = some live) :
    ∃ last, σ.entries.getLast? = some last ∧ entryMatchesLive last live = none := by
  obtain ⟨tl, htl, rfl⟩ := Option.map_eq_some_iff.mp h
  obtain ⟨c, hlast⟩ := hI.entries_newest htl
  exact ⟨_, hlast, entryMatchesLive_self rfl⟩

/-- The event answers a control without committing it: its command is a duplicate, or its fence is stale. -/
def Refused (e : Event) : Prop := ∃ tl, e.out = .outcome (.duplicate tl) ∨ e.out = .outcome (.fenced tl)

/-- A refused delivery leaves every key as it was. -/
theorem post_of_refused {σ : Room} {op : Op} (h : Refused (machine.event σ op)) : (machine.event σ op).post = σ := by
  obtain ⟨tl, h⟩ := h
  have hc := event_cases σ op
  generalize (machine.event σ op).post = post at *
  rcases h with h | h
  · rw [h] at hc
    cases hc
    rfl
  · rw [h] at hc
    cases hc
    rfl

end Plane
end WatchParty
