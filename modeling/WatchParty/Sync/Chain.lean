import WatchParty.Sync.Queues

/-!
# How the promises of an operation advance

What keeps `Chained` when one operation comes to its next stage.

- `Chained.advance` is the rule where `next` stays as it is;
- `Chained.settle_next` is the one where `next` is settled, which wakes who is chained to it.
-/

namespace WatchParty
namespace Queues

variable {E V : Type} {s s' : State E V} {stage : ℕ → Stage E V} {k : ℕ} {key : Key} {st : Stage E V}

/-! ## One operation advances -/

/-- The other operations are as before. -/
theorem Local.frame (h : Local s k key st)
    (hcells : ∀ p : PromiseId, p.number = k → s'.promises.cells p = s.promises.cells p) (hphase : s'.phase k = s.phase k) : Local s' k key st := by
  constructor
  · rw [hcells (.guard k) rfl]
    exact h.guard
  · rw [hcells (.tail k) rfl]
    exact h.tail
  · rw [hcells (.result k) rfl, hphase]
    exact h.run

/-- A promise of the operation other than `next` is changed alone. -/
theorem own_update {cells : PromiseId → Promises.Cell Handler (Except E V)} {cell : Promises.Cell Handler (Except E V)}
    {p q : PromiseId} (hq : q.number = k) (hne : q ≠ .next k) (hp : p.number ≠ k ∨ p = .next k) :
    Function.update cells q cell p = cells p := by
  apply Function.update_of_ne
  rintro rfl
  rcases hp with hp | hp
  · exact hp hq
  · exact hne hp

/-- The jobs of all operations but one. -/
def Others (s : State E V) (stage : ℕ → Stage E V) (k : ℕ) (job : Job E V) : Prop :=
  ∃ k' key', k' ≠ k ∧ s.keys[k']? = some key' ∧ (stage k').job? key' k' = some job

theorem Others.owner_ne {job : Job E V} (h : Others s stage k job) : owner job ≠ k := by
  obtain ⟨k', key', hne, -, hjob⟩ := h
  rw [Stage.owner_eq hjob]
  exact hne

/-- The jobs when one operation's stage has changed. -/
theorem others_update {job : Job E V} (hk : s.keys[k]? = some key) :
    (∃ k' key', s.keys[k']? = some key' ∧ (Function.update stage k st k').job? key' k' = some job) ↔
      Others s stage k job ∨ st.job? key k = some job := by
  constructor
  · rintro ⟨k', key', hkey, hjob⟩
    by_cases hne : k' = k
    · subst hne
      obtain rfl := Option.some.inj (hkey.symm.trans hk)
      rw [Function.update_self] at hjob
      exact Or.inr hjob
    · rw [Function.update_of_ne hne] at hjob
      exact Or.inl ⟨k', key', hne, hkey, hjob⟩
  · rintro (⟨k', key', hne, hkey, hjob⟩ | hjob)
    · exact ⟨k', key', hkey, by rwa [Function.update_of_ne hne]⟩
    · exact ⟨k, key, hk, by rwa [Function.update_self]⟩

/-- **One operation advances**, and `next` stays as it is. -/
theorem Chained.advance (h : Chained s stage) (st : Stage E V) (hk : s.keys[k]? = some key) (hkeys : s'.keys = s.keys)
    (hheads : Heads s'.heads s'.keys fun j => (Function.update stage k st j).isReleased)
    (hnodup : s'.promises.jobs.Nodup)
    (hjobs : ∀ job, job ∈ s'.promises.jobs ↔ Others s stage k job ∨ st.job? key k = some job)
    (hcells : ∀ p : PromiseId, p.number ≠ k ∨ p = .next k → s'.promises.cells p = s.promises.cells p)
    (hphase : ∀ j, j ≠ k → s'.phase j = s.phase j) (hown : Local s' k key st)
    (hfree : (stage k).isChained = false) (hfree' : st.isChained = false) (hout : st.outcome? = (stage k).outcome?) :
    Chained s' (Function.update stage k st) := by
  have hlt : k < s.keys.length := (List.getElem?_eq_some_iff.mp hk).1
  have houtcome : ∀ j, (Function.update stage k st j).outcome? = (stage j).outcome? := by
    intro j
    by_cases hj : j = k
    · subst hj
      rw [Function.update_self, hout]
    · rw [Function.update_of_ne hj]
  have hchained : ∀ j i, Function.update stage k st j = .chained i ↔ stage j = .chained i := by
    intro j i
    by_cases hj : j = k
    · subst hj
      rw [Function.update_self]
      constructor
      · intro he
        rw [he] at hfree'
        cases hfree'
      · intro he
        rw [he] at hfree
        cases hfree
    · rw [Function.update_of_ne hj]
  constructor
  · exact hnodup
  · intro job
    rw [hkeys, others_update hk]
    exact hjobs job
  · intro j key' hj
    rw [hkeys] at hj
    by_cases hjk : j = k
    · subst hjk
      obtain rfl := Option.some.inj (hj.symm.trans hk)
      rw [Function.update_self]
      exact hown
    · rw [Function.update_of_ne hjk]
      exact (h.own j key' hj).frame (fun p hp => hcells p (Or.inl (hp ▸ hjk))) (hphase j hjk)
  · intro j hj
    have hnext := h.next j (hkeys ▸ hj)
    have hcell : s'.promises.cells (.next j) = s.promises.cells (.next j) := by
      by_cases hjk : j = k
      · exact hcells _ (Or.inr (hjk ▸ rfl))
      · exact hcells _ (Or.inl hjk)
    unfold Next at hnext ⊢
    rw [houtcome, hcell, hkeys]
    simp only [hchained]
    exact hnext
  · intro p hp
    rw [hkeys] at hp
    have hne : p.number ≠ k := by omega
    rw [hcells p (Or.inl hne)]
    exact h.fresh p hp
  · intro j hj
    rw [hkeys] at hj
    rw [hphase j (by omega)]
    exact h.unborn j hj
  · exact hheads
  · intro i j key' hij hi hj
    rw [hkeys] at hi hj
    rw [houtcome]
    refine (h.serial i j key' hij hi hj).imp_right fun hc => ?_
    cases hst : stage j with
    | chained x => rw [(hchained j x).mpr hst]; rfl
    | _ => rw [hst] at hc; cases hc
  · intro j i key' hc hj
    rw [hkeys] at hj ⊢
    rw [houtcome]
    exact h.chained j i key' ((hchained j i).mp hc) hj

/-- No operation falls back. -/
def Kept (stage stage' : ℕ → Stage E V) : Prop := ∀ j, (stage j).rank ≤ (stage' j).rank

theorem kept_update (h : (stage k).rank ≤ st.rank) : Kept stage (Function.update stage k st) := by
  intro j
  by_cases hj : j = k
  · subst hj
    rwa [Function.update_self]
  · rw [Function.update_of_ne hj]

/-- No operation falls back, and one advances. -/
def Progress (stage stage' : ℕ → Stage E V) (k : ℕ) : Prop := Kept stage stage' ∧ (stage k).rank < (stage' k).rank

theorem progress_update (h : (stage k).rank < st.rank) : Progress stage (Function.update stage k st) k :=
  ⟨kept_update h.le, by rwa [Function.update_self]⟩

/-- What is left when the job of an operation is taken out are the jobs of the others. -/
theorem Chained.taken (h : Chained s stage) (hk : s.keys[k]? = some key) {job : Job E V}
    (hjob : (stage k).job? key k = some job) (j : Job E V) :
    j ∈ s.promises.jobs ∧ j ≠ job ↔ Others s stage k j := by
  rw [h.jobs]
  constructor
  · rintro ⟨⟨k', key', hkey, hj⟩, hne⟩
    refine ⟨k', key', ?_, hkey, hj⟩
    rintro rfl
    obtain rfl := Option.some.inj (hkey.symm.trans hk)
    exact hne (Option.some.inj (hj.symm.trans hjob))
  · rintro ⟨k', key', hne, hkey, hj⟩
    refine ⟨⟨k', key', hkey, hj⟩, ?_⟩
    rintro rfl
    exact hne ((Stage.owner_eq hj).symm.trans (Stage.owner_eq hjob))

/-- The maps do not change with a stage that does not release. -/
theorem Chained.heads_update (h : Chained s stage) (hr : st.isReleased = (stage k).isReleased) :
    Heads s.heads s.keys fun j => (Function.update stage k st j).isReleased := by
  have hsame : (fun j => (Function.update stage k st j).isReleased) = fun j => (stage j).isReleased := by
    funext j
    by_cases hj : j = k
    · subst hj
      rw [Function.update_self, hr]
    · rw [Function.update_of_ne hj]
  rw [hsame]
  exact h.heads

/-! ## An operation settles -/

namespace Stage

variable {r : Except E V} {j : ℕ}

theorem wake_of_ne (h : st ≠ .chained k) : st.wake k r = st := by
  cases st with
  | chained j =>
    have hj : j ≠ k := fun he => h (congrArg chained he)
    exact if_neg hj
  | guarded | ready | adopting | adopted | forwarding | tailing | releasing | released => rfl

theorem wake_self : (chained k : Stage E V).wake k r = .guarded r := if_pos rfl

theorem wake_outcome : (st.wake k r).outcome? = st.outcome? := by
  by_cases h : st = .chained k
  · subst h
    rw [wake_self]
    rfl
  · rw [wake_of_ne h]

theorem wake_released : (st.wake k r).isReleased = st.isReleased := by
  by_cases h : st = .chained k
  · subst h
    rw [wake_self]
    rfl
  · rw [wake_of_ne h]

theorem wake_chained : st.wake k r = .chained j ↔ st = .chained j ∧ j ≠ k := by
  by_cases h : st = .chained k
  · subst h
    rw [wake_self]
    constructor
    · intro he
      cases he
    · rintro ⟨he, hne⟩
      exact absurd (Stage.chained.inj he).symm hne
  · rw [wake_of_ne h]
    constructor
    · intro he
      exact ⟨he, fun hjk => h (he.trans (congrArg chained hjk))⟩
    · exact And.left

end Stage

/-- Who was chained to an operation that settled is guarded by its result. -/
theorem Local.wake {r : Except E V} (h : Local s k key st) (j : ℕ) : Local s k key (st.wake j r) := by
  by_cases hst : st = .chained j
  · subst hst
    rw [Stage.wake_self]
    exact ⟨h.guard, h.tail, h.run⟩
  · rw [Stage.wake_of_ne hst]
    exact h

/-- The stages after `next` of an operation is settled. -/
def settled (stage : ℕ → Stage E V) (k : ℕ) (r : Except E V) (j : ℕ) : Stage E V :=
  if j = k then .tailing r else (stage j).wake k r

section Settles

variable {r : Except E V} {j : ℕ}

@[simp] theorem settled_self : settled stage k r k = .tailing r := if_pos rfl

theorem settled_other (h : j ≠ k) : settled stage k r j = (stage j).wake k r := if_neg h

theorem progress_settled (h : (stage k).rank < 6) : Progress stage (settled stage k r) k := by
  refine ⟨fun j => ?_, by rw [settled_self]; exact h⟩
  by_cases hj : j = k
  · subst hj
    rw [settled_self]
    exact h.le
  · rw [settled_other hj]
    by_cases hst : stage j = .chained k
    · rw [hst, Stage.wake_self]
      exact Nat.zero_le _
    · rw [Stage.wake_of_ne hst]

theorem settled_chained {i : ℕ} (hfree : (stage k).isChained = false) :
    settled stage k r j = .chained i ↔ stage j = .chained i ∧ i ≠ k := by
  by_cases hj : j = k
  · subst hj
    rw [settled_self]
    constructor
    · intro he
      cases he
    · rintro ⟨he, -⟩
      rw [he] at hfree
      cases hfree
  · rw [settled_other hj, Stage.wake_chained]

theorem settled_outcome (h : (stage j).outcome?.isSome = true) (hk : (stage k).outcome? = none) :
    (settled stage k r j).outcome? = (stage j).outcome? := by
  have hj : j ≠ k := by
    rintro rfl
    rw [hk] at h
    cases h
  rw [settled_other hj, Stage.wake_outcome]

/-- The jobs when `next` of an operation is settled. -/
theorem settled_jobs (hk : s.keys[k]? = some key) (hfree : (stage k).isChained = false)
    {handlers : List Handler}
    (hhandlers : ∀ x, x ∈ handlers ↔
      x = .swallow (.tail k) ∨ ∃ k' < s.keys.length, stage k' = .chained k ∧ x = .swallow (.guard k')) (job : Job E V) :
    (Others s stage k job ∨ job ∈ handlers.map fun x => .react x r) ↔
      ∃ k' key', s.keys[k']? = some key' ∧ (settled stage k r k').job? key' k' = some job := by
  constructor
  · rintro (⟨k', key', hne, hkey, hjob⟩ | hmem)
    · refine ⟨k', key', hkey, ?_⟩
      have hnot : stage k' ≠ .chained k := fun he => by
        rw [he] at hjob
        cases hjob
      rwa [settled_other hne, Stage.wake_of_ne hnot]
    · obtain ⟨x, hx, rfl⟩ := List.mem_map.mp hmem
      rcases (hhandlers x).mp hx with rfl | ⟨k', hlt, hst, rfl⟩
      · exact ⟨k, key, hk, by rw [settled_self]; rfl⟩
      · have hne : k' ≠ k := by
          rintro rfl
          rw [hst] at hfree
          cases hfree
        refine ⟨k', s.keys[k'], List.getElem?_eq_getElem hlt, ?_⟩
        rw [settled_other hne, hst, Stage.wake_self]
        rfl
  · rintro ⟨k', key', hkey, hjob⟩
    by_cases hne : k' = k
    · subst hne
      rw [settled_self] at hjob
      obtain rfl := Option.some.inj hjob
      exact Or.inr (List.mem_map.mpr ⟨_, (hhandlers _).mpr (Or.inl rfl), rfl⟩)
    · rw [settled_other hne] at hjob
      by_cases hst : stage k' = .chained k
      · rw [hst, Stage.wake_self] at hjob
        obtain rfl := Option.some.inj hjob
        have hlt := (List.getElem?_eq_some_iff.mp hkey).1
        exact Or.inr (List.mem_map.mpr ⟨_, (hhandlers _).mpr (Or.inr ⟨k', hlt, hst, rfl⟩), rfl⟩)
      · rw [Stage.wake_of_ne hst] at hjob
        exact Or.inl ⟨k', key', hne, hkey, hjob⟩

/-- **`next` of an operation is settled** by its job, with the result of the operation. -/
theorem Chained.settle_next (h : Chained s stage) (hk : s.keys[k]? = some key) (hkeys : s'.keys = s.keys)
    (hheads : s'.heads = s.heads) {promises : Promises PromiseId Handler (Except E V)}
    (hcells : promises.cells = s.promises.cells) (hnodup : promises.jobs.Nodup)
    (hjobs : ∀ job, job ∈ promises.jobs ↔ Others s stage k job) (hs : s'.promises = promises.settle (.next k) r)
    (hphase : ∀ j, j ≠ k → s'.phase j = s.phase j) (hended : s'.phase k = .ended r)
    (hfree : (stage k).isChained = false) (hopen : (stage k).outcome? = none)
    (htail : (stage k).untailed = true) : Chained s' (settled stage k r) := by
  have hlt : k < s.keys.length := (List.getElem?_eq_some_iff.mp hk).1
  have hnext := h.next k hlt
  unfold Next at hnext
  rw [hopen] at hnext
  obtain ⟨handlers, hcell, hdistinct, hhandlers⟩ := hnext
  have hsettle : s'.promises = ⟨Function.update s.promises.cells (.next k) (.settled r),
      promises.jobs ++ handlers.map fun x => .react x r⟩ := by
    rw [hs, Promises.settle_pending (by rw [hcells]; exact hcell), hcells]
  have hsame : ∀ p, p ≠ .next k → s'.promises.cells p = s.promises.cells p := by
    intro p hp
    rw [hsettle]
    exact Function.update_of_ne hp _ _
  constructor
  · rw [hsettle]
    refine List.nodup_append.mpr ⟨hnodup, hdistinct.map fun x y he => (Promises.Job.react.inj he).1, ?_⟩
    rintro job hjob job' hjob' rfl
    rw [hjobs] at hjob
    obtain ⟨x, hx, rfl⟩ := List.mem_map.mp hjob'
    rcases (hhandlers x).mp hx with rfl | ⟨k', -, hst, rfl⟩
    · exact hjob.owner_ne rfl
    · obtain ⟨k'', key'', -, -, hj⟩ := hjob
      obtain rfl : k' = k'' := Stage.owner_eq hj
      rw [hst] at hj
      cases hj
  · intro job
    rw [hsettle, hkeys, ← settled_jobs hk hfree hhandlers, List.mem_append, hjobs]
  · intro j key' hj
    rw [hkeys] at hj
    by_cases hjk : j = k
    · subst hjk
      obtain rfl := Option.some.inj (hj.symm.trans hk)
      rw [settled_self]
      refine ⟨by rintro ⟨⟩, fun _ => ?_, hended⟩
      rw [hsame _ (by simp)]
      exact (h.own j key' hk).tail htail
    · rw [settled_other hjk]
      refine ((h.own j key' hj).frame (fun p hp => hsame p ?_) (hphase j hjk)).wake k
      rintro rfl
      exact hjk hp.symm
  · intro j hj
    rw [hkeys] at hj
    unfold Next
    by_cases hjk : j = k
    · subst hjk
      rw [settled_self, hsettle]
      exact Function.update_self ..
    · have hold := h.next j hj
      unfold Next at hold
      rw [settled_other hjk, Stage.wake_outcome, hsame _ (fun he => hjk (PromiseId.next.inj he)), hkeys]
      simp only [settled_chained hfree]
      split
      · rename_i hout
        rw [hout] at hold
        exact hold
      · rename_i hout
        rw [hout] at hold
        obtain ⟨hs, hc, hn, hm⟩ := hold
        refine ⟨hs, hc, hn, fun x => (hm x).trans (or_congr_right ?_)⟩
        constructor
        · rintro ⟨k', hk', hst, rfl⟩
          exact ⟨k', hk', ⟨hst, hjk⟩, rfl⟩
        · rintro ⟨k', hk', ⟨hst, -⟩, rfl⟩
          exact ⟨k', hk', hst, rfl⟩
  · intro p hp
    rw [hkeys] at hp
    rw [hsame p]
    · exact h.fresh p hp
    · rintro rfl
      exact absurd hlt (not_lt.mpr hp)
  · intro j hj
    rw [hkeys] at hj
    rw [hphase j (by omega)]
    exact h.unborn j hj
  · rw [hheads, hkeys]
    have hrel : (fun j => (settled stage k r j).isReleased) = fun j => (stage j).isReleased := by
      funext j
      by_cases hj : j = k
      · subst hj
        rw [settled_self]
        cases hst : stage j <;> first | rfl | (rw [hst] at hopen; cases hopen)
      · rw [settled_other hj, Stage.wake_released]
    rw [hrel]
    exact h.heads
  · intro i j key' hij hi hj
    rw [hkeys] at hi hj
    have hkeep : ∀ x, (stage x).outcome?.isSome = true → (settled stage k r x).outcome?.isSome = true := by
      intro x hx
      rwa [settled_outcome hx hopen]
    by_cases hst : stage j = .chained k
    · -- The operations before the one that is woken are `k`, which is settled now, and those before `k`.
      obtain ⟨hkj, hkey, -, hbetween⟩ := h.chained j k key' hst hj
      rcases lt_trichotomy i k with hik | rfl | hik
      · rcases h.serial i k key' hik hi hkey with hi' | hc
        · exact Or.inl (hkeep i hi')
        · rw [hfree] at hc
          cases hc
      · exact Or.inl (by rw [settled_self]; rfl)
      · exact absurd hi (hbetween i hik hij)
    · rcases h.serial i j key' hij hi hj with hi' | hc
      · exact Or.inl (hkeep i hi')
      · right
        cases hx : stage j with
        | chained x =>
          have hxk : x ≠ k := fun he => hst (hx.trans (congrArg Stage.chained he))
          rw [(settled_chained hfree).mpr ⟨hx, hxk⟩]
          rfl
        | _ => rw [hx] at hc; cases hc
  · intro j i key' hc hj
    rw [hkeys] at hj ⊢
    obtain ⟨hst, hik⟩ := (settled_chained hfree).mp hc
    obtain ⟨hlt', hkey, hout, hbetween⟩ := h.chained j i key' hst hj
    refine ⟨hlt', hkey, ?_, hbetween⟩
    rw [settled_other hik, Stage.wake_outcome]
    exact hout

end Settles

end Queues
end WatchParty
