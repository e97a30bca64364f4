import Mathlib.Algebra.Order.BigOperators.Group.Finset
import WatchParty.Sync.Submissions

/-!
# The queues serialise

- each job keeps `Chained` and brings an operation to a later stage (`Chained.ran`), and so does the end of an operation;
- `run_chained` says it of every run, and bounds the jobs by the stages;
- `queues_serialise` reads the result off the invariant.
-/

namespace WatchParty
namespace Queues

variable {E V : Type} {undefined : V} {s s' : State E V} {stage : ℕ → Stage E V} {k : ℕ} {key : Key} {st : Stage E V}

/-! ## A job -/

section Jobs

variable {promises : Promises PromiseId Handler (Except E V)}

/-- A job of the operation is added to those of the others. -/
theorem others_append (st : Stage E V) (key : Key) (hn : promises.jobs.Nodup)
    (hjobs : ∀ job, job ∈ promises.jobs ↔ Others s stage k job) {job : Job E V} (hst : st.job? key k = some job) :
    (promises.jobs ++ [job]).Nodup ∧
      ∀ j, j ∈ promises.jobs ++ [job] ↔ Others s stage k j ∨ st.job? key k = some j := by
  constructor
  · refine List.nodup_append.mpr ⟨hn, List.nodup_singleton _, ?_⟩
    rintro j hj j' hj' rfl
    obtain rfl := List.mem_singleton.mp hj'
    exact ((hjobs j).mp hj).owner_ne (Stage.owner_eq hst)
  · intro j
    rw [List.mem_append, List.mem_singleton, hjobs, hst, Option.some.injEq, eq_comm (a := j)]

/-- The guard is settled: the operation is due to start. -/
theorem Chained.run_guarded (h : Chained s stage) (hk : s.keys[k]? = some key)
    (hcells : promises.cells = s.promises.cells) (hn : promises.jobs.Nodup) (hjobs : ∀ job, job ∈ promises.jobs ↔ Others s stage k job) {r : Except E V}
    (hst : stage k = .guarded r) (v : V) :
    Chained { s with promises := promises.settle (.guard k) (.ok v) } (Function.update stage k (.ready v)) := by
  have hown := h.own k key hk
  rw [hst] at hown
  have hguard : promises.cells (.guard k) = .pending [.op k] := by
    rw [hcells]
    exact hown.guard rfl
  rw [Promises.settle_pending hguard, hcells]
  obtain ⟨hnodup, hmem⟩ := others_append (.ready v) key hn hjobs rfl
  refine h.advance _ hk rfl (h.heads_update (by rw [hst]; rfl)) hnodup hmem (fun p hp => ?_) (fun _ _ => rfl) ?_
    (by rw [hst]; rfl) rfl (by rw [hst]; rfl)
  · exact own_update rfl (by rintro ⟨⟩) hp
  · refine ⟨by rintro ⟨⟩, fun _ => ?_, ?_⟩
    · simpa using hown.tail rfl
    · have hrun := hown.run
      exact ⟨hrun.1, by simpa using hrun.2⟩

/-- The operation starts. -/
theorem Chained.run_ready (h : Chained s stage) (hk : s.keys[k]? = some key)
    (hcells : promises.cells = s.promises.cells) (hn : promises.jobs.Nodup) (hjobs : ∀ job, job ∈ promises.jobs ↔ Others s stage k job) {v : V}
    (hst : stage k = .ready v) :
    Chained { s with promises := promises.enqueue (.call (.adopt k)), phase := Function.update s.phase k .running }
      (Function.update stage k .adopting) := by
  have hown := h.own k key hk
  rw [hst] at hown
  obtain ⟨hnodup, hmem⟩ := others_append .adopting key hn hjobs rfl
  refine h.advance _ hk rfl (h.heads_update (by rw [hst]; rfl)) hnodup hmem (fun p _ => congrFun hcells p)
    (fun j hj => Function.update_of_ne hj _ _) ?_ (by rw [hst]; rfl) rfl (by rw [hst]; rfl)
  refine ⟨by rintro ⟨⟩, fun _ => ?_, Or.inl ⟨Function.update_self .., ?_⟩⟩
  · exact (congrFun hcells _).trans (hown.tail rfl)
  · exact (congrFun hcells _).trans hown.run.2

/-- `next` adopts the promise that the operation returned: it follows it, or is to be settled as it is. -/
theorem Chained.run_adopting (h : Chained s stage) (hk : s.keys[k]? = some key)
    (hcells : promises.cells = s.promises.cells) (hn : promises.jobs.Nodup)
    (hjobs : ∀ job, job ∈ promises.jobs ↔ Others s stage k job) (hst : stage k = .adopting) :
    ∃ stage', Chained { s with promises := promises.react (.result k) (.forward k) } stage' ∧
      Progress stage stage' k := by
  have hown := h.own k key hk
  rw [hst] at hown
  rcases hown.run with ⟨hphase, hresult⟩ | ⟨r, hphase, hresult⟩
  · rw [← hcells] at hresult
    rw [Promises.react_pending hresult, hcells]
    refine ⟨_, h.advance .adopted hk rfl (h.heads_update (by rw [hst]; rfl)) hn (fun job => ?_) (fun p hp => ?_)
      (fun _ _ => rfl) ?_ (by rw [hst]; rfl) rfl (by rw [hst]; rfl),
      progress_update (by rw [hst]; exact Nat.lt_succ_self 3)⟩
    · rw [hjobs]
      simp [Stage.job?]
    · exact own_update rfl (by rintro ⟨⟩) hp
    · refine ⟨by rintro ⟨⟩, fun _ => ?_, hphase, ?_⟩
      · simpa using hown.tail rfl
      · exact Function.update_self ..
  · rw [← hcells] at hresult
    rw [Promises.react_settled hresult]
    obtain ⟨hnodup, hmem⟩ := others_append (.forwarding r) key hn hjobs rfl
    refine ⟨_, h.advance (.forwarding r) hk rfl (h.heads_update (by rw [hst]; rfl)) hnodup hmem
      (fun p _ => congrFun hcells p) (fun _ _ => rfl) ⟨by rintro ⟨⟩, fun _ => ?_, hphase⟩ (by rw [hst]; rfl) rfl
      (by rw [hst]; rfl), progress_update (by rw [hst]; exact show 3 < 5 by decide)⟩
    exact (congrFun hcells _).trans (hown.tail rfl)

/-- The tail is settled: the finaliser is due. -/
theorem Chained.run_tailing (h : Chained s stage) (hk : s.keys[k]? = some key)
    (hcells : promises.cells = s.promises.cells) (hn : promises.jobs.Nodup) (hjobs : ∀ job, job ∈ promises.jobs ↔ Others s stage k job) {r : Except E V}
    (hst : stage k = .tailing r) (r' : Except E V) :
    Chained { s with promises := promises.settle (.tail k) r' } (Function.update stage k (.releasing r r')) := by
  have hown := h.own k key hk
  rw [hst] at hown
  have htail : promises.cells (.tail k) = .pending [.release key k] := by
    rw [hcells]
    exact hown.tail rfl
  rw [Promises.settle_pending htail, hcells]
  obtain ⟨hnodup, hmem⟩ := others_append (.releasing r r') key hn hjobs rfl
  refine h.advance _ hk rfl (h.heads_update (by rw [hst]; rfl)) hnodup hmem (fun p hp => ?_) (fun _ _ => rfl)
    ⟨by rintro ⟨⟩, by rintro ⟨⟩, hown.run⟩ (by rw [hst]; rfl) rfl (by rw [hst]; rfl)
  exact own_update rfl (by rintro ⟨⟩) hp

/-- The finaliser runs: the map forgets the operation, if it still has it. -/
theorem Chained.run_releasing (h : Chained s stage) (undefined : V) (hk : s.keys[k]? = some key)
    (hcells : promises.cells = s.promises.cells) (hn : promises.jobs.Nodup)
    (hjobs : ∀ job, job ∈ promises.jobs ↔ Others s stage k job) {r r' : Except E V} (hst : stage k = .releasing r r') :
    Chained (runJob undefined (.react (.release key k) r') none { s with promises := promises })
      (Function.update stage k (.released r)) := by
  have hjob : runJob undefined (.react (.release key k) r') none { s with promises := promises } =
      { s with
        promises := promises
        heads := (if s.heads key = some (.next k) then Function.update s.heads key none else s.heads) } := by
    by_cases hhead : s.heads key = some (.next k)
    · simp [runJob, hhead]
    · simp [runJob, hhead]
  rw [hjob]
  have hown := h.own k key hk
  rw [hst] at hown
  refine h.advance _ hk rfl ?_ hn (fun job => ?_) (fun p _ => congrFun hcells p) (fun _ _ => rfl)
    ⟨by rintro ⟨⟩, by rintro ⟨⟩, hown.run⟩ (by rw [hst]; rfl) rfl (by rw [hst]; rfl)
  · constructor
    · intro key' p hp
      dsimp only at hp
      have hp' : s.heads key' = some p ∧ ¬(key' = key ∧ p = .next k) := by
        split at hp
        · by_cases hkey : key' = key
          · subst hkey
            rw [Function.update_self] at hp
            cases hp
          · rw [Function.update_of_ne hkey] at hp
            exact ⟨hp, fun he => hkey he.1⟩
        · rename_i hne
          refine ⟨hp, ?_⟩
          rintro ⟨rfl, rfl⟩
          exact hne hp
      obtain ⟨l, rfl, hl, hlast, hrel⟩ := h.heads.last key' p hp'.1
      have hlk : l ≠ k := by
        rintro rfl
        exact hp'.2 ⟨Option.some.inj (hl.symm.trans hk), rfl⟩
      exact ⟨l, rfl, hl, hlast, by rwa [Function.update_of_ne hlk]⟩
    · intro l key' hl hlast hrel
      have hlk : l ≠ k := by
        rintro rfl
        rw [Function.update_self] at hrel
        cases hrel
      rw [Function.update_of_ne hlk] at hrel
      have hkept := h.heads.kept l key' hl hlast hrel
      dsimp only
      split
      · rename_i hhead
        have hkey : key' ≠ key := by
          rintro rfl
          rw [hkept] at hhead
          exact hlk (PromiseId.next.inj (Option.some.inj hhead))
        rwa [Function.update_of_ne hkey]
      · exact hkept
  · rw [hjobs]
    simp [Stage.job?]

end Jobs

theorem step_job {i : ℕ} {job : Job E V} {promises : Promises PromiseId Handler (Except E V)}
    (ht : s.promises.take? i = some (job, promises)) (thrown : Option E) :
    step undefined s (.job i thrown) = (runJob undefined job thrown { s with promises := promises }, ()) := by
  simp [step, ht]

theorem step_idle {i : ℕ} (ht : s.promises.take? i = none) (thrown : Option E) :
    step undefined s (.job i thrown) = (s, ()) := by
  simp [step, ht]

/-- **A job** keeps the invariant, and an operation advances. -/
theorem Chained.ran (h : Chained s stage) (undefined : V) {i : ℕ} {job : Job E V}
    {promises : Promises PromiseId Handler (Except E V)} (ht : s.promises.take? i = some (job, promises)) (thrown : Option E) :
    ∃ stage', Chained (runJob undefined job thrown { s with promises := promises }) stage' ∧
      ∃ k < s.keys.length, Progress stage stage' k := by
  obtain ⟨hmem, hcells, hn, hrest⟩ := Promises.take?_eq_some h.nodup ht
  obtain ⟨k, key, hk, hjob⟩ := (h.jobs job).mp hmem
  have hlt : k < s.keys.length := (List.getElem?_eq_some_iff.mp hk).1
  have hjobs : ∀ j, j ∈ promises.jobs ↔ Others s stage k j := fun j => (hrest j).trans (h.taken hk hjob j)
  have hown := h.own k key hk
  cases hst : stage k with
  | chained | adopted | released => rw [hst] at hjob; cases hjob
  | guarded r =>
    rw [hst] at hjob
    obtain rfl := Option.some.inj hjob
    have hup : ∀ v : V, Progress stage (Function.update stage k (.ready v)) k := fun v =>
      progress_update (by rw [hst]; exact Nat.one_lt_two)
    cases r with
    | ok v => exact ⟨_, h.run_guarded hk hcells hn hjobs hst v, k, hlt, hup v⟩
    | error e => exact ⟨_, h.run_guarded hk hcells hn hjobs hst undefined, k, hlt, hup undefined⟩
  | ready v =>
    rw [hst] at hjob
    obtain rfl := Option.some.inj hjob
    cases thrown with
    | none =>
      exact ⟨_, h.run_ready hk hcells hn hjobs hst, k, hlt, progress_update (by rw [hst]; exact Nat.lt_succ_self 2)⟩
    | some e =>
      refine ⟨settled stage k (.error e), ?_, k, hlt, progress_settled (by rw [hst]; exact show 2 < 6 by decide)⟩
      exact h.settle_next hk rfl rfl hcells hn hjobs rfl (fun j hj => Function.update_of_ne hj _ _)
        (Function.update_self ..) (by rw [hst]; rfl) (by rw [hst]; rfl) (by rw [hst]; rfl)
  | adopting =>
    rw [hst] at hjob
    obtain rfl := Option.some.inj hjob
    obtain ⟨stage', h', hup⟩ := h.run_adopting hk hcells hn hjobs hst
    exact ⟨stage', h', k, hlt, hup⟩
  | forwarding r =>
    rw [hst] at hjob hown
    obtain rfl := Option.some.inj hjob
    refine ⟨settled stage k r, ?_, k, hlt, progress_settled (by rw [hst]; exact Nat.lt_succ_self 5)⟩
    exact h.settle_next hk rfl rfl hcells hn hjobs rfl (fun _ _ => rfl) hown.run (by rw [hst]; rfl)
      (by rw [hst]; rfl) (by rw [hst]; rfl)
  | tailing r =>
    rw [hst] at hjob
    obtain rfl := Option.some.inj hjob
    exact ⟨_, h.run_tailing hk hcells hn hjobs hst _, k, hlt, progress_update (by rw [hst]; exact Nat.lt_succ_self 6)⟩
  | releasing r r' =>
    rw [hst] at hjob
    obtain rfl := Option.some.inj hjob
    exact ⟨_, h.run_releasing undefined hk hcells hn hjobs hst, k, hlt,
      progress_update (by rw [hst]; exact Nat.lt_succ_self 7)⟩

/-- **An operation ends.** -/
theorem Chained.finished (h : Chained s stage) (k : ℕ) (r : Except E V) :
    ∃ stage', Chained (finish k r s) stage' ∧ Kept stage stage' := by
  unfold finish
  cases hphase : s.phase k with
  | waiting => exact ⟨stage, h, fun _ => le_rfl⟩
  | ended r => exact ⟨stage, h, fun _ => le_rfl⟩
  | running =>
    dsimp only
    have hlt : k < s.keys.length := by
      by_contra hlt
      rw [h.unborn k (not_lt.mp hlt)] at hphase
      cases hphase
    have hk : s.keys[k]? = some s.keys[k] := List.getElem?_eq_getElem hlt
    generalize s.keys[k] = key at hk
    have hown := h.own k key hk
    have hrun := hown.run
    rw [hphase] at hrun
    have hall : ∀ job, job ∈ s.promises.jobs ↔ Others s stage k job ∨ (stage k).job? key k = some job := by
      intro job
      rw [h.jobs, ← others_update hk, Function.update_eq_self]
    cases hst : stage k with
    | adopting =>
      rw [hst] at hrun hown
      have hresult : s.promises.cells (.result k) = .pending [] := by
        rcases hrun with ⟨-, hresult⟩ | ⟨r, hp, -⟩
        · exact hresult
        · cases hp
      rw [Promises.settle_pending hresult, List.map_nil, List.append_nil]
      refine ⟨_, h.advance .adopting hk rfl (h.heads_update (by rw [hst])) h.nodup (fun job => ?_)
        (fun p hp => ?_) (fun j hj => Function.update_of_ne hj _ _) ?_ (by rw [hst]; rfl) rfl (by rw [hst]),
        kept_update (by rw [hst])⟩
      · rw [hall, hst]
      · exact own_update rfl (by rintro ⟨⟩) hp
      · refine ⟨by rintro ⟨⟩, fun _ => ?_, Or.inr ⟨r, Function.update_self .., Function.update_self ..⟩⟩
        simpa using hown.tail rfl
    | adopted =>
      rw [hst] at hrun hown
      rw [Promises.settle_pending hrun.2]
      have hothers : ∀ job, job ∈ s.promises.jobs ↔ Others s stage k job := by
        intro job
        rw [hall, hst]
        simp [Stage.job?]
      obtain ⟨hnodup, hmem⟩ := others_append (.forwarding r) key h.nodup hothers rfl
      refine ⟨_, h.advance (.forwarding r) hk rfl (h.heads_update (by rw [hst]; rfl)) hnodup hmem
        (fun p hp => ?_) (fun j hj => Function.update_of_ne hj _ _) ⟨by rintro ⟨⟩, fun _ => ?_, Function.update_self ..⟩
        (by rw [hst]; rfl) rfl (by rw [hst]; rfl), kept_update (by rw [hst]; exact Nat.le_succ 4)⟩
      · exact own_update rfl (by rintro ⟨⟩) hp
      · simpa using hown.tail rfl
    | chained j => rw [hst] at hrun; cases hrun.1
    | guarded r => rw [hst] at hrun; cases hrun.1
    | ready v => rw [hst] at hrun; cases hrun.1
    | forwarding r => rw [hst] at hrun; cases hrun
    | tailing r => rw [hst] at hrun; cases hrun
    | releasing r r' => rw [hst] at hrun; cases hrun
    | released r => rw [hst] at hrun; cases hrun

/-! ## Runs -/

/-- A step takes a job out. -/
def took (e : Machine.Event (State E V) (Act E V) Unit) : Bool :=
  match e.act with
  | .job i _ => (e.pre.promises.take? i).isSome
  | _ => false

/-- How far the operations have come in all. -/
def work (stage : ℕ → Stage E V) (n : ℕ) : ℕ := ∑ k ∈ Finset.range n, (stage k).rank

theorem work_le (stage : ℕ → Stage E V) (n : ℕ) : work stage n ≤ 8 * n := by
  have hrank : ∀ k ∈ Finset.range n, (stage k).rank ≤ 8 := fun k _ => (stage k).rank_le
  calc work stage n ≤ (Finset.range n).card • 8 := Finset.sum_le_card_nsmul _ _ 8 hrank
    _ = 8 * n := by rw [Finset.card_range, nsmul_eq_mul, Nat.cast_id, mul_comm]

theorem Progress.work_lt {stage stage' : ℕ → Stage E V} {n : ℕ} (h : Progress stage stage' k) (hk : k < n) :
    work stage n < work stage' n :=
  Finset.sum_lt_sum (fun j _ => h.1 j) ⟨k, Finset.mem_range.mpr hk, h.2⟩

theorem chain_keys (undefined : V) (key : Key) (s : State E V) : (chain undefined key s).keys = s.keys ++ [key] := rfl

theorem finish_keys (k : ℕ) (r : Except E V) (s : State E V) : (finish k r s).keys = s.keys := by
  unfold finish
  split <;> rfl

theorem runJob_keys (undefined : V) (job : Job E V) (thrown : Option E) (s : State E V) :
    (runJob undefined job thrown s).keys = s.keys := by
  unfold runJob
  split
  · rfl
  · rfl
  · split <;> rfl
  · split <;> rfl
  · rfl
  · rfl
  · rfl

/-- A submission does not undo what was done. -/
theorem Chained.submitted_work (h : Chained s stage) (undefined : V) (key : Key) :
    ∃ stage', Chained (chain undefined key s) stage' ∧
      work stage s.keys.length ≤ work stage' (chain undefined key s).keys.length := by
  obtain ⟨stage', h', hsame⟩ := h.submitted undefined key
  refine ⟨stage', h', ?_⟩
  rw [chain_keys, List.length_append, List.length_singleton]
  calc work stage s.keys.length = work stage' s.keys.length :=
        Finset.sum_congr rfl fun j hj => by rw [hsame j (Finset.mem_range.mp hj)]
    _ ≤ work stage' (s.keys.length + 1) := by
        rw [work, work, Finset.sum_range_succ]
        exact Nat.le_add_right _ _

/-- **A step** keeps the invariant, and a job that is taken out is work done. -/
theorem Chained.stepped (h : Chained s stage) (undefined : V) (act : Act E V) :
    ∃ stage', Chained (step undefined s act).1 stage' ∧
      work stage s.keys.length + (if took ((machine undefined).event s act) then 1 else 0) ≤
        work stage' (step undefined s act).1.keys.length := by
  cases act with
  | gated roomCode => exact h.submitted_work undefined (.gate, roomCode)
  | enqueue roomCode => exact h.submitted_work undefined (.queue, roomCode)
  | finish k r =>
    obtain ⟨stage', h', hkept⟩ := h.finished k r
    refine ⟨stage', h', ?_⟩
    change work stage s.keys.length ≤ work stage' (finish k r s).keys.length
    rw [finish_keys]
    exact Finset.sum_le_sum fun j _ => hkept j
  | job i thrown =>
    cases ht : s.promises.take? i with
    | none =>
      have hidle : took ((machine undefined).event s (.job i thrown)) = false := by simp [took, ht]
      rw [step_idle ht, hidle]
      exact ⟨stage, h, le_rfl⟩
    | some taken =>
      have htook : took ((machine undefined).event s (.job i thrown)) = true := by simp [took, ht]
      obtain ⟨stage', h', k, hk, hup⟩ := h.ran undefined ht thrown
      rw [step_job ht, htook]
      refine ⟨stage', h', ?_⟩
      rw [runJob_keys]
      exact hup.work_lt hk

/-- **Every run.** -/
theorem run_chained (undefined : V) (acts : List (Act E V)) :
    ∃ stage, Chained ((machine undefined).run acts) stage ∧
      ((machine undefined).trace acts).countP took ≤ work stage ((machine undefined).run acts).keys.length := by
  refine (machine undefined).invariant
    (I := fun tr s => ∃ stage, Chained s stage ∧ tr.countP took ≤ work stage s.keys.length) ?_ ?_ acts
  · refine ⟨fun _ => .adopted, ⟨List.nodup_nil, fun job => ?_, ?_, ?_, fun _ _ => rfl, fun _ _ => rfl, ⟨?_, ?_⟩, ?_, ?_⟩,
      Nat.zero_le _⟩
    · simp [machine, State.empty, Promises.empty]
    · intro k key hk
      cases hk
    · intro k hk
      cases hk
    · intro key p hp
      cases hp
    · intro k key hk
      cases hk
    · intro j k key _ hj
      cases hj
    · intro k j key hc
      cases hc
  · rintro tr s act ⟨stage, h, hcount⟩
    obtain ⟨stage', h', hwork⟩ := h.stepped undefined act
    refine ⟨stage', h', ?_⟩
    rw [List.countP_append, List.countP_singleton]
    exact (Nat.add_le_add_right hcount _).trans hwork

/-- An operation that has done something comes after operations that have ended. -/
theorem Chained.ended_before (h : Chained s stage) {j : ℕ} (hjk : j < k) (hj : s.keys[j]? = some key)
    (hk : s.keys[k]? = some key) (hphase : s.phase k ≠ .waiting) : ∃ r, s.phase j = .ended r := by
  rcases h.serial j k key hjk hj hk with hout | hc
  · obtain ⟨r, hr⟩ := Option.isSome_iff_exists.mp hout
    have hrun := (h.own j key hj).run
    cases hst : stage j with
    | tailing r | releasing r r' | released r =>
      rw [hst] at hrun
      exact ⟨_, hrun⟩
    | chained | guarded | ready | adopting | adopted | forwarding =>
      rw [hst] at hr
      cases hr
  · have hrun := (h.own k key hk).run
    cases hst : stage k with
    | chained i =>
      rw [hst] at hrun
      exact absurd hrun.1 hphase
    | _ => rw [hst] at hc; cases hc

/-- The promise of an operation is settled with what the operation ended with. -/
theorem Chained.settled_own (h : Chained s stage) {r : Except E V} (hk : k < s.keys.length)
    (hr : s.promises.cells (.next k) = .settled r) : s.phase k = .ended r := by
  have hnext := h.next k hk
  have hrun := (h.own k _ (List.getElem?_eq_getElem hk)).run
  unfold Next at hnext
  cases hst : stage k with
  | tailing r' | releasing r' r'' | released r' =>
    rw [hst] at hnext hrun
    obtain rfl := Promises.Cell.settled.inj (hr.symm.trans hnext)
    exact hrun
  | chained | guarded | ready | adopting | adopted | forwarding =>
    rw [hst] at hnext
    obtain ⟨handlers, hp, -⟩ := hnext
    rw [hr] at hp
    cases hp

/-- Where no job is due, the promises of an operation wait, or they are done with. -/
theorem Chained.idle (h : Chained s stage) (hidle : s.promises.jobs = []) (hk : s.keys[k]? = some key) :
    (∃ j, stage k = .chained j) ∨ stage k = .adopted ∨ ∃ r, stage k = .released r := by
  have hnone : (stage k).job? key k = none := by
    cases hj : (stage k).job? key k with
    | none => rfl
    | some job =>
      have hmem := (h.jobs job).mpr ⟨k, key, hk, hj⟩
      rw [hidle] at hmem
      cases hmem
  cases hst : stage k with
  | chained j => exact Or.inl ⟨j, rfl⟩
  | adopted => exact Or.inr (Or.inl rfl)
  | released r => exact Or.inr (Or.inr ⟨r, rfl⟩)
  | guarded | ready | adopting | forwarding | tailing | releasing =>
    rw [hst] at hnone
    cases hnone

/-- **Who waits, waits for its own room**: where no job is due, an operation waits only while an earlier one of its room
runs. -/
theorem Chained.waits (h : Chained s stage) (hidle : s.promises.jobs = []) (hk : s.keys[k]? = some key)
    (hphase : s.phase k = .waiting) : ∃ j < k, s.keys[j]? = some key ∧ s.phase j = .running := by
  induction k using Nat.strong_induction_on with
  | _ k ih =>
    have hrun := (h.own k key hk).run
    rcases h.idle hidle hk with ⟨j, hst⟩ | hst | ⟨r, hst⟩
    · obtain ⟨hjk, hj, hout, -⟩ := h.chained k j key hst hk
      have hrunj := (h.own j key hj).run
      rcases h.idle hidle hj with ⟨i, hstj⟩ | hstj | ⟨r, hstj⟩
      · rw [hstj] at hrunj
        obtain ⟨i, hij, hi, hp⟩ := ih j hjk hj hrunj.1
        exact ⟨i, hij.trans hjk, hi, hp⟩
      · rw [hstj] at hrunj
        exact ⟨j, hjk, hj, hrunj.1⟩
      · rw [hstj] at hout
        cases hout
    · rw [hst, hphase] at hrun
      cases hrun.1
    · rw [hst, hphase] at hrun
      cases hrun

/-- **Quiescence**: where no job is due and no operation of a room runs, the room has no entry, and its operations have
ended and have settled their own promises. -/
theorem Chained.quiet (h : Chained s stage) (hidle : s.promises.jobs = [])
    (hquiet : ∀ k, s.keys[k]? = some key → s.phase k ≠ .running) :
    s.heads key = none ∧
      ∀ k, s.keys[k]? = some key → ∃ r, s.phase k = .ended r ∧ s.promises.cells (.next k) = .settled r := by
  have hreleased : ∀ k, s.keys[k]? = some key → ∃ r, stage k = .released r := by
    intro k hk
    have hrun := (h.own k key hk).run
    rcases h.idle hidle hk with ⟨j, hst⟩ | hst | hst
    · rw [hst] at hrun
      obtain ⟨i, -, hi, hp⟩ := h.waits hidle hk hrun.1
      exact absurd hp (hquiet i hi)
    · rw [hst] at hrun
      exact absurd hrun.1 (hquiet k hk)
    · exact hst
  constructor
  · cases hhead : s.heads key with
    | none => rfl
    | some p =>
      obtain ⟨k, -, hk, -, hrel⟩ := h.heads.last key p hhead
      obtain ⟨r, hst⟩ := hreleased k hk
      rw [hst] at hrel
      cases hrel
  · intro k hk
    obtain ⟨r, hst⟩ := hreleased k hk
    have hrun := (h.own k key hk).run
    have hnext := h.next k (List.getElem?_eq_some_iff.mp hk).1
    unfold Next at hnext
    rw [hst] at hrun hnext
    exact ⟨r, hrun, hnext⟩

/-- What an operation may do next: it starts, or throws at once; a running one ends. -/
inductive Phase.Steps {R : Type} : Phase R → Phase R → Prop
  | stays (p : Phase R) : Steps p p
  | starts : Steps .waiting .running
  | throws (r : R) : Steps .waiting (.ended r)
  | ends (r : R) : Steps .running (.ended r)

/-- **An operation runs once.** -/
theorem Chained.steps (h : Chained s stage) (act : Act E V) (k : ℕ) :
    (s.phase k).Steps (((machine undefined).step s act).1.phase k) := by
  cases act with
  | gated roomCode => exact .stays _
  | enqueue roomCode => exact .stays _
  | finish j r =>
    change (s.phase k).Steps ((finish j r s).phase k)
    unfold finish
    cases hphase : s.phase j with
    | waiting => exact .stays _
    | ended r => exact .stays _
    | running =>
      by_cases hk : k = j
      · subst hk
        rw [hphase]
        simp only [Function.update_self]
        exact .ends r
      · simp only [Function.update_of_ne hk]
        exact .stays _
  | job i thrown =>
    change (s.phase k).Steps ((step undefined s (.job i thrown)).1.phase k)
    cases ht : s.promises.take? i with
    | none =>
      rw [step_idle ht]
      exact .stays _
    | some taken =>
      obtain ⟨job, promises⟩ := taken
      rw [step_job ht]
      obtain ⟨hmem, -⟩ := Promises.take?_eq_some h.nodup ht
      obtain ⟨j, key, hj, hjob⟩ := (h.jobs job).mp hmem
      have hrun := (h.own j key hj).run
      cases hst : stage j with
      | chained | adopted | released => rw [hst] at hjob; cases hjob
      | guarded | adopting | forwarding | tailing =>
        rw [hst] at hjob
        obtain rfl := Option.some.inj hjob
        exact .stays _
      | releasing r r' =>
        rw [hst] at hjob
        obtain rfl := Option.some.inj hjob
        dsimp only [runJob]
        split <;> exact .stays _
      | ready v =>
        rw [hst] at hjob hrun
        obtain rfl := Option.some.inj hjob
        cases thrown with
        | none =>
          by_cases hk : k = j
          · subst hk
            rw [hrun.1]
            simp only [runJob, Function.update_self]
            exact .starts
          · simp only [runJob, Function.update_of_ne hk]
            exact .stays _
        | some e =>
          by_cases hk : k = j
          · subst hk
            rw [hrun.1]
            simp only [runJob, Function.update_self]
            exact .throws _
          · simp only [runJob, Function.update_of_ne hk]
            exact .stays _

/-- **The queues serialise.** In every run of submissions, jobs and ends of operations, in whatever order the jobs are
taken: an operation runs once, and only when the earlier ones of its room have ended; at most eight jobs are taken out for
each; its promise is settled with what it ended with itself; where no job is due, an operation waits only while an earlier
one of its own room runs; and when a room's last operation has ended too, all of them have settled and the map has no entry
for the room. -/
theorem queues_serialise (undefined : V) (acts : List (Act E V)) :
    let s := (machine undefined).run acts
    (∀ e ∈ (machine undefined).trace acts, ∀ k, (e.pre.phase k).Steps (e.post.phase k)) ∧
      ((machine undefined).trace acts).countP took ≤ 8 * s.keys.length ∧
      (∀ j k key, j < k → s.keys[j]? = some key → s.keys[k]? = some key → s.phase k ≠ .waiting →
        ∃ r, s.phase j = .ended r) ∧
      (∀ k < s.keys.length, ∀ r, s.promises.cells (.next k) = .settled r → s.phase k = .ended r) ∧
      (s.promises.jobs = [] → ∀ k key, s.keys[k]? = some key → s.phase k = .waiting →
        ∃ j < k, s.keys[j]? = some key ∧ s.phase j = .running) ∧
      (s.promises.jobs = [] → ∀ key, (∀ k, s.keys[k]? = some key → s.phase k ≠ .running) →
        s.heads key = none ∧
          ∀ k, s.keys[k]? = some key → ∃ r, s.phase k = .ended r ∧ s.promises.cells (.next k) = .settled r) := by
  obtain ⟨stage, h, hcount⟩ := run_chained undefined acts
  refine ⟨fun e he k => ?_, hcount.trans (work_le stage _), fun j k key hjk hj hk hp => h.ended_before hjk hj hk hp,
    fun k hk r hr => h.settled_own hk hr,
    fun hidle k key hk hp => h.waits hidle hk hp, fun hidle key hquiet => h.quiet hidle hquiet⟩
  obtain ⟨before, act, -, rfl⟩ := (machine undefined).mem_trace he
  obtain ⟨stage', h', -⟩ := run_chained undefined before
  exact h'.steps act k

/-- Two operations of a room, of which the first rejects. -/
def rejectedFirst : List (Act String Unit) :=
  [.gated "a", .gated "a", .job 0 none, .job 0 none, .job 0 none, .finish 0 (.error "e"), .job 0 none, .job 0 none,
    .job 0 none, .job 0 none, .job 0 none, .job 0 none, .finish 1 (.ok ()), .job 0 none, .job 0 none, .job 0 none]

theorem queues_serialise_rejected :
    let s := (machine ()).run rejectedFirst
    s.heads (.gate, "a") = none ∧ s.promises.cells (.next 0) = .settled (.error "e") ∧
      s.promises.cells (.next 1) = .settled (.ok ()) := by
  have h := (queues_serialise () rejectedFirst).2.2.2.2.2 rfl (.gate, "a") fun k hk hp => by
    match k with
    | 0 => cases hp
    | 1 => cases hp
    | k + 2 => cases hk
  exact ⟨h.1, rfl, rfl⟩

end Queues
end WatchParty
