import WatchParty.Memory.Store
import WatchParty.Shared.Log

/-!
# The log of the in-memory store, and the replay contract

The in-memory store keeps the same contract as the shared-script plane, over every run whose clock does not go back
and whose incarnations are created at distinct instants. `replay_contract` states it of both.
-/

namespace WatchParty
namespace InMemoryRoomStateStore

/-- What a run keeps of the log. -/
structure Logged (tr : List Event) (m : MemoryRoom) : Prop where
  chain : m.log.IsChain Legal
  newest : ∀ tl, m.room = some tl → ∃ last, m.log.getLast? = some last ∧ toTimeline last = tl
  epochs : ∀ e ∈ m.log, e.storeEpoch ∈ mints tr
  stamped : ∀ tl, m.room = some tl → tl.stampedAt ∈ clock tr

theorem logged_init : Logged [] empty where
  chain := List.isChain_nil
  newest _ h := by cases h
  epochs _ h := absurd h List.not_mem_nil
  stamped _ h := by cases h

/-- The clock does not go back and incarnations are created at distinct instants. -/
def Timed (tr : List Event) : Prop := (clock tr).Pairwise (· ≤ ·) ∧ (mints tr).Nodup

theorem timed_of_snoc (tr : List Event) (e : Event) (h : Timed (tr ++ [e])) : Timed tr := by
  rw [Timed, clock_snoc, mints_snoc] at h
  exact ⟨(List.pairwise_append.mp h.1).1, (List.nodup_append.mp h.2).1⟩

/-- The live timeline was stamped no later than the present call reads its clock. -/
theorem Logged.stamped_le {tr : List Event} {m : MemoryRoom} {e : Event} (hI : Logged tr m) (ht : Timed (tr ++ [e]))
    {tl : Timeline} (h : m.room = some tl) {now : ℚ} (hnow : e.act.serverNow = some now) : tl.stampedAt ≤ now := by
  have hp := ht.1
  rw [clock_snoc, hnow] at hp
  exact (List.pairwise_append.mp hp).2.2 _ (hI.stamped tl h) now (List.mem_singleton_self _)

/-- A call that commits a timeline which may follow the live one. -/
theorem Logged.commit {tr : List Event} {m m₀ : MemoryRoom} (hI : Logged tr m) (e : Event) (next : Timeline)
    (cmdId : Option String) (hlog : m₀.log = m.log) (hlegal : ∀ p ∈ m.log.getLast?, Legal p (entryOf next cmdId))
    (hepoch : next.storeEpoch ∈ mints (tr ++ [e])) (hnow : e.act.serverNow = some next.stampedAt) :
    Logged (tr ++ [e]) (set next cmdId m₀) := by
  obtain ⟨old, hold, hset⟩ := set_log next cmdId m₀
  rw [hlog] at hold
  refine ⟨?_, fun tl h => ?_, fun x hx => ?_, fun tl h => ?_⟩
  · rw [hset]
    refine isChain_snoc (hI.chain.suffix hold) fun p hp => hlegal p ?_
    obtain ⟨dropped, hd⟩ := hold
    rw [← hd, List.getLast?_append, Option.mem_def.mp hp]
    rfl
  · rw [set_room] at h
    cases h
    exact ⟨_, by rw [hset, List.getLast?_concat], rfl⟩
  · rw [hset] at hx
    rcases List.mem_append.mp hx with hx | hx
    · rw [mints_snoc]
      exact List.mem_append_left _ (hI.epochs x (hold.subset hx))
    · rw [List.mem_singleton.mp hx]
      exact hepoch
  · rw [set_room] at h
    cases h
    rw [clock_snoc, hnow]
    exact List.mem_append_right _ (List.mem_singleton_self _)

/-- The live timeline is of a minted epoch. -/
theorem Logged.minted {tr : List Event} {m : MemoryRoom} (hI : Logged tr m) {tl : Timeline} (h : m.room = some tl)
    (e : Event) : tl.storeEpoch ∈ mints (tr ++ [e]) := by
  obtain ⟨last, hlast, rfl⟩ := hI.newest tl h
  rw [mints_snoc]
  exact List.mem_append_left _ (hI.epochs last (List.mem_of_getLast? hlast))

/-- What may follow the live timeline may follow the newest entry. -/
theorem Logged.follows {tr : List Event} {m : MemoryRoom} (hI : Logged tr m) {tl : Timeline} (h : m.room = some tl)
    {y : LogEntry} (hy : ∀ x, toTimeline x = tl → Legal x y) : ∀ p ∈ m.log.getLast?, Legal p y := by
  intro p hp
  obtain ⟨last, hlast, hlt⟩ := hI.newest tl h
  rw [hlast, Option.mem_some_iff] at hp
  exact hp ▸ hy last hlt

/-- A control restamped in the next `seq` follows the timeline it was applied to. -/
theorem legal_applyControl {x : LogEntry} (intent : ControlIntent) (mediaTime serverNow : ℚ) (byUser : String)
    (videoId : Option (Option String)) (cmdId : Option String) (h : x.stampedAt ≤ serverNow) :
    Legal x (entryOf { WatchParty.applyControl (toTimeline x) intent mediaTime serverNow byUser videoId with
      seq := x.seq + 1 } cmdId) := by
  cases intent with
  | play => exact legal_of_controlled .play rfl h rfl ⟨rfl, rfl⟩
  | pause => exact legal_of_controlled .pause rfl h rfl ⟨rfl, rfl⟩
  | seek => exact legal_of_controlled .seek rfl h rfl ⟨rfl, rfl⟩
  | setVideo => exact legal_of_controlled .setVideo rfl h rfl ⟨rfl, rfl⟩

/-- **One call keeps the log.** -/
theorem Logged.step {tr : List Event} {e : Event} (hs : Step e.pre e.act e.out e.post) (ht : Timed (tr ++ [e]))
    (hI : Logged tr e.pre) : Logged (tr ++ [e]) e.post := by
  obtain ⟨pre, act, out, post⟩ := e
  simp only at hs hI ⊢
  cases hs with
  | keep _ _ _ hroom hlog hi =>
    have hm : mint ⟨pre, act, out, post⟩ = none := by
      unfold mint
      split
      · rename_i v t now hact hnone
        exact absurd hnone (hi v t now hact)
      · rfl
    refine ⟨hlog ▸ hI.chain, fun tl h => hlog ▸ hI.newest tl (hroom ▸ h), ?_, fun tl h => ?_⟩
    · rw [hlog, mints_snoc, hm, Option.toList_none, List.append_nil]
      exact hI.epochs
    · rw [clock_snoc]
      exact List.mem_append_left _ (hI.stamped tl (hroom ▸ h))
  | control req serverNow prev next m₀ h hlog hnext =>
    have hle := hI.stamped_le ht h rfl
    subst hnext
    refine hI.commit _ _ _ hlog (hI.follows h fun x hx => ?_) ?_ ?_
    · subst hx
      exact legal_applyControl _ _ _ _ _ _ hle
    · cases hi : req.intent <;> exact hI.minted h _
    · cases hi : req.intent <;> rfl
  | snapshot serverNow prev next h hnext =>
    have hle := hI.stamped_le ht h rfl
    subst hnext
    refine hI.commit _ _ _ rfl (hI.follows h fun x hx => ?_) (hI.minted h _) rfl
    subst hx
    exact legal_of_snapshot rfl hle rfl rfl rfl rfl
  | birth videoId mediaTime serverNow new h hnew =>
    have hm : ∀ out post, mint ⟨pre, .init videoId mediaTime serverNow, out, post⟩ = some serverNow := by
      intro out post
      simp only [mint, h]
    have hd := ht.2
    rw [mints_snoc, hm, Option.toList_some] at hd
    refine hI.commit _ _ _ rfl (fun p hp => legal_of_epoch fun heq => ?_) ?_ (by rw [hnew.2]; rfl)
    · have hin := hI.epochs p (List.mem_of_getLast? hp)
      rw [← heq] at hin
      exact (List.nodup_append.mp hd).2.2 _ hin _ (List.mem_singleton_self _) hnew.1
    · rw [mints_snoc, hm, hnew.1]
      simp
  | clear =>
    exact ⟨List.isChain_nil, (fun _ h => by cases h), fun x hx => absurd hx List.not_mem_nil, (fun _ h => by cases h)⟩

/-- **The log is a legal chain that ends in the live timeline, in every run.** -/
theorem logged (ops : List Op) : Timed (machine.trace ops) → Logged (machine.trace ops) (machine.run ops) :=
  machine.invariant_under (C := Timed) timed_of_snoc logged_init (fun _ _ _ hc hI => hI.step (step_cases _ _) hc) ops

/-- Every retained suffix of the log has no violation. -/
theorem Logged.no_violation {tr : List Event} {m : MemoryRoom} (hI : Logged tr m) {l : List LogEntry}
    (hl : l <:+ getLog m) : (checkChain l).violations = [] := checkChain_iff.mpr (hI.chain.suffix hl)

/-- The newest entry matches the live timeline. -/
theorem Logged.matches_live {tr : List Event} {m : MemoryRoom} (hI : Logged tr m) {live : Timeline}
    (h : get m = some live) : ∃ last, (getLog m).getLast? = some last ∧ entryMatchesLive last live = none := by
  obtain ⟨last, hlast, ht⟩ := hI.newest live h
  exact ⟨last, hlast, entryMatchesLive_self ht⟩

/-- The event answers a control without committing it. -/
def Refused (e : Event) : Prop := ∃ tl, e.out = .outcome (.duplicate tl) ∨ e.out = .outcome (.fenced tl)

/-- A refused delivery appends nothing and keeps the timeline. -/
theorem frame_of_refused {m : MemoryRoom} {op : Op} (h : Refused (machine.event m op)) :
    getLog (machine.event m op).post = getLog m ∧ get (machine.event m op).post = get m := by
  obtain ⟨tl, h⟩ := h
  have hc : Step m op (machine.event m op).out (machine.event m op).post := step_cases m op
  generalize (machine.event m op).post = post at *
  rcases h with h | h
  · rw [h] at hc
    cases hc with
    | keep _ _ _ hroom hlog _ => exact ⟨hlog, hroom⟩
  · rw [h] at hc
    cases hc with
    | keep _ _ _ hroom hlog _ => exact ⟨hlog, hroom⟩

end InMemoryRoomStateStore

/-- **The replay contract.** In every run of the shared-script plane, and in every run of the in-memory store,
`checkChain` reports no violation on any retained suffix of the log, the newest entry matches the live timeline
whenever there is one, and duplicate and refused deliveries append nothing. -/
theorem replay_contract (ops : List Plane.Op) (hmint : (Plane.mints (Plane.machine.trace ops)).Nodup)
    (calls : List InMemoryRoomStateStore.Op)
    (hclock : (InMemoryRoomStateStore.clock (InMemoryRoomStateStore.machine.trace calls)).Pairwise (· ≤ ·))
    (hmint' : (InMemoryRoomStateStore.mints (InMemoryRoomStateStore.machine.trace calls)).Nodup) :
    ((∀ l, l <:+ (Plane.machine.run ops).entries → (checkChain l).violations = []) ∧
      (∀ live, RedisRoomStateStore.get (Plane.machine.run ops) = some live →
        ∃ last, (Plane.machine.run ops).entries.getLast? = some last ∧ entryMatchesLive last live = none) ∧
      ∀ e ∈ Plane.machine.trace ops, Plane.Refused e → e.post.entries = e.pre.entries) ∧
    (∀ l, l <:+ InMemoryRoomStateStore.getLog (InMemoryRoomStateStore.machine.run calls) →
        (checkChain l).violations = []) ∧
      (∀ live, InMemoryRoomStateStore.get (InMemoryRoomStateStore.machine.run calls) = some live →
        ∃ last, (InMemoryRoomStateStore.getLog (InMemoryRoomStateStore.machine.run calls)).getLast? = some last ∧
          entryMatchesLive last live = none) ∧
      ∀ e ∈ InMemoryRoomStateStore.machine.trace calls, InMemoryRoomStateStore.Refused e →
        InMemoryRoomStateStore.getLog e.post = InMemoryRoomStateStore.getLog e.pre := by
  have hP := Plane.logged ops hmint
  have hM := InMemoryRoomStateStore.logged calls ⟨hclock, hmint'⟩
  refine ⟨⟨fun l hl => hP.no_violation hl, fun live h => hP.matches_live h, fun e he hr => ?_⟩,
    fun l hl => hM.no_violation hl, fun live h => hM.matches_live h, fun e he hr => ?_⟩
  · obtain ⟨bs, a, -, rfl⟩ := Plane.machine.mem_trace he
    exact congrArg Room.entries (Plane.post_of_refused hr)
  · obtain ⟨bs, a, -, rfl⟩ := InMemoryRoomStateStore.machine.mem_trace he
    exact (InMemoryRoomStateStore.frame_of_refused hr).1

/-- A room that is created, played, swept, cleared and created again, on either store. -/
theorem replay_contract_reinit :
    (∀ l, l <:+ (Plane.machine.run [.init none 0 0, .tick 7, .applyControl ⟨.play, 1, "u", some "c", none, none, none⟩ 0,
      .tick 9000, .applySnapshot 0, .clear, .tick 1, .init none 9 0]).entries → (checkChain l).violations = []) ∧
    ∀ l, l <:+ InMemoryRoomStateStore.getLog (InMemoryRoomStateStore.machine.run [.init none 0 0,
      .applyControl ⟨.play, 1, "u", some "c", none, none, none⟩ 7, .applySnapshot 9007, .clear, .init none 9 9008]) →
      (checkChain l).violations = [] :=
  have h := replay_contract _ (by decide) _ (by decide) (by decide)
  ⟨h.1.1, h.2.1⟩

end WatchParty
