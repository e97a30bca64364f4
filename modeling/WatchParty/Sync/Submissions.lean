import WatchParty.Sync.Chain

/-!
# Submissions to the queues

A submission keeps `Chained`. The new operation is chained to the last one of its room while that has not settled, and is
guarded by a result at once otherwise; `Chained.submitted` has the cases of what the map holds.
-/

namespace WatchParty
namespace Queues

variable {E V : Type} {undefined : V} {s s' : State E V} {stage : ℕ → Stage E V} {k : ℕ} {key : Key} {st : Stage E V}

/-! ## A submission -/

theorem keys_snoc {keys : List Key} {key key' : Key} {j : ℕ} :
    (keys ++ [key])[j]? = some key' ↔ keys[j]? = some key' ∨ j = keys.length ∧ key = key' := by
  rcases lt_trichotomy j keys.length with hlt | rfl | hgt
  · rw [List.getElem?_append_left hlt]
    simp [hlt.ne]
  · simp
  · rw [List.getElem?_append_right hgt.le, List.getElem?_eq_none (by simp; omega)]
    have hnone : keys[j]? = none := List.getElem?_eq_none hgt.le
    simp [hnone, hgt.ne']

/-- The last operation of a room. -/
theorem exists_last {keys : List Key} {k : ℕ} {key : Key} (hk : keys[k]? = some key) :
    ∃ l, k ≤ l ∧ keys[l]? = some key ∧ ∀ l' > l, keys[l']? ≠ some key := by
  have hlt : ∀ {l}, keys[l]? = some key → l ≤ keys.length := fun h => (List.getElem?_eq_some_iff.mp h).1.le
  refine ⟨Nat.findGreatest (fun l => keys[l]? = some key) keys.length, Nat.le_findGreatest (hlt hk) hk,
    Nat.findGreatest_spec (P := fun l => keys[l]? = some key) (hlt hk) hk, fun l' hl' he => ?_⟩
  exact Nat.findGreatest_is_greatest hl' (hlt he) he

theorem Heads.submit {heads : Key → Option PromiseId} {keys : List Key}
    (h : Heads heads keys fun j => (stage j).isReleased) (key : Key) (hst : st.isReleased = false) :
    Heads (Function.update heads key (some (.next keys.length))) (keys ++ [key])
      fun j => (Function.update stage keys.length st j).isReleased := by
  have hbound : ∀ {j key'}, keys[j]? = some key' → j < keys.length := fun h => (List.getElem?_eq_some_iff.mp h).1
  constructor
  · intro key' p hp
    by_cases hkey : key' = key
    · subst hkey
      rw [Function.update_self] at hp
      obtain rfl := Option.some.inj hp
      refine ⟨keys.length, rfl, keys_snoc.mpr (Or.inr ⟨rfl, rfl⟩), fun k' hk' he => ?_, ?_⟩
      rotate_left
      · rw [Function.update_self, hst]
      rcases keys_snoc.mp he with he | ⟨rfl, -⟩
      · exact absurd (hbound he) (not_lt.mpr (le_of_lt hk'))
      · exact lt_irrefl _ hk'
    · rw [Function.update_of_ne hkey] at hp
      obtain ⟨k, rfl, hk, hlast, hrel⟩ := h.last key' p hp
      refine ⟨k, rfl, keys_snoc.mpr (Or.inl hk), fun k' hk' he => ?_, ?_⟩
      · rcases keys_snoc.mp he with he | ⟨-, rfl⟩
        · exact hlast k' hk' he
        · exact hkey rfl
      · rw [Function.update_of_ne (hbound hk).ne]
        exact hrel
  · intro k key' hk hlast hrel
    rcases keys_snoc.mp hk with hk | ⟨rfl, rfl⟩
    · have hkey : key' ≠ key := fun he => hlast keys.length (hbound hk) (keys_snoc.mpr (Or.inr ⟨rfl, he.symm⟩))
      rw [Function.update_of_ne (hbound hk).ne] at hrel
      rw [Function.update_of_ne hkey]
      exact h.kept k key' hk (fun k' hk' he => hlast k' hk' (keys_snoc.mpr (Or.inl he))) hrel
    · exact Function.update_self ..

/-- **A submission**, which is chained to an operation or guarded by a result. -/
theorem Chained.submit (h : Chained s stage) (hkeys : s'.keys = s.keys ++ [key])
    (hheads : s'.heads = Function.update s.heads key (some (.next s.keys.length))) (hphase : s'.phase = s.phase)
    (hnodup : s'.promises.jobs.Nodup)
    (hjobs : ∀ job, job ∈ s'.promises.jobs ↔ job ∈ s.promises.jobs ∨ st.job? key s.keys.length = some job)
    (hold : ∀ p : PromiseId, p.number < s.keys.length → (∀ j, p ≠ .next j) → s'.promises.cells p = s.promises.cells p)
    (hnew : ∀ p : PromiseId, s.keys.length < p.number → s'.promises.cells p = .pending [])
    (hown : Local s' s.keys.length key st) (hrel : st.isReleased = false)
    (hnext : ∀ j < s.keys.length + 1, Next s' (Function.update stage s.keys.length st) j)
    (hserial : ∀ j, s.keys[j]? = some key → (stage j).outcome?.isSome = true ∨ st.isChained = true)
    (hchained : ∀ j, st = .chained j → j < s.keys.length ∧ s.keys[j]? = some key ∧ (stage j).outcome? = none ∧
      ∀ i, j < i → s.keys[i]? ≠ some key) : Chained s' (Function.update stage s.keys.length st) := by
  have hbound : ∀ {j key'}, s.keys[j]? = some key' → j < s.keys.length := fun h => (List.getElem?_eq_some_iff.mp h).1
  have hother : ∀ {j key'}, s.keys[j]? = some key' → Function.update stage s.keys.length st j = stage j :=
    fun hj => Function.update_of_ne (hbound hj).ne _ _
  constructor
  · exact hnodup
  · intro job
    rw [hjobs, h.jobs, hkeys]
    constructor
    · rintro (⟨j, key', hj, hjob⟩ | hjob)
      · exact ⟨j, key', keys_snoc.mpr (Or.inl hj), by rwa [hother hj]⟩
      · exact ⟨s.keys.length, key, keys_snoc.mpr (Or.inr ⟨rfl, rfl⟩), by rwa [Function.update_self]⟩
    · rintro ⟨j, key', hj, hjob⟩
      rcases keys_snoc.mp hj with hj | ⟨rfl, rfl⟩
      · rw [hother hj] at hjob
        exact Or.inl ⟨j, key', hj, hjob⟩
      · rw [Function.update_self] at hjob
        exact Or.inr hjob
  · intro j key' hj
    rw [hkeys] at hj
    rcases keys_snoc.mp hj with hj | ⟨rfl, rfl⟩
    · have hlt := hbound hj
      have hown' := h.own j key' hj
      rw [hother hj]
      constructor
      · rw [hold (.guard j) hlt (by simp)]
        exact hown'.guard
      · rw [hold (.tail j) hlt (by simp)]
        exact hown'.tail
      · rw [hold (.result j) hlt (by simp), hphase]
        exact hown'.run
    · rw [Function.update_self]
      exact hown
  · intro j hj
    rw [hkeys, List.length_append, List.length_singleton] at hj
    exact hnext j hj
  · intro p hp
    rw [hkeys, List.length_append, List.length_singleton] at hp
    exact hnew p (by omega)
  · intro j hj
    rw [hkeys, List.length_append, List.length_singleton] at hj
    rw [hphase]
    exact h.unborn j (by omega)
  · rw [hheads, hkeys]
    exact h.heads.submit key hrel
  · intro i j key' hij hi hj
    rw [hkeys] at hi hj
    rcases keys_snoc.mp hj with hj | ⟨rfl, rfl⟩
    · rcases keys_snoc.mp hi with hi | ⟨rfl, -⟩
      · rw [hother hi, hother hj]
        exact h.serial i j key' hij hi hj
      · exact absurd (hbound hj) (by omega)
    · rcases keys_snoc.mp hi with hi | ⟨rfl, -⟩
      · rw [hother hi, Function.update_self]
        exact hserial i hi
      · exact absurd hij (lt_irrefl _)
  · intro j i key' hc hj
    rw [hkeys] at hj ⊢
    rcases keys_snoc.mp hj with hj | ⟨rfl, rfl⟩
    · rw [hother hj] at hc
      obtain ⟨hlt, hi, hout, hbetween⟩ := h.chained j i key' hc hj
      refine ⟨hlt, keys_snoc.mpr (Or.inl hi), by rwa [hother hi], fun x hix hxj he => ?_⟩
      rcases keys_snoc.mp he with he | ⟨rfl, -⟩
      · exact hbetween x hix hxj he
      · exact absurd (hbound hj) (by omega)
    · rw [Function.update_self] at hc
      obtain ⟨hlt, hi, hout, hbetween⟩ := hchained i hc
      refine ⟨hlt, keys_snoc.mpr (Or.inl hi), by rwa [hother hi], fun x hix hxj he => ?_⟩
      rcases keys_snoc.mp he with he | ⟨rfl, -⟩
      · exact hbetween x hix he
      · exact lt_irrefl _ hxj

/-- `prior`, with its reaction. -/
def prior (undefined : V) (key : Key) (s : State E V) : Promises PromiseId Handler (Except E V) :=
  (if s.heads key = none then s.promises.settle (.resolved s.keys.length) (.ok undefined) else s.promises).react
    ((s.heads key).getD (.resolved s.keys.length)) (.swallow (.guard s.keys.length))

/-- The cells of a new operation. -/
def newCells (key : Key) (k : ℕ) (cells : PromiseId → Promises.Cell Handler (Except E V)) :
    PromiseId → Promises.Cell Handler (Except E V) :=
  Function.update (Function.update (Function.update cells (.guard k) (.pending [.op k]))
    (.next k) (.pending [.swallow (.tail k)])) (.tail k) (.pending [.release key k])

theorem chain_eq (hfresh : ∀ p : PromiseId, p.number = s.keys.length → p ≠ .resolved s.keys.length →
      (prior undefined key s).cells p = .pending []) :
    chain undefined key s =
      { promises := ⟨newCells key s.keys.length (prior undefined key s).cells, (prior undefined key s).jobs⟩
        heads := Function.update s.heads key (some (.next s.keys.length))
        keys := s.keys ++ [key]
        phase := s.phase } := by
  have hguard := hfresh (.guard s.keys.length) rfl (by simp)
  have hnext := hfresh (.next s.keys.length) rfl (by simp)
  have htail := hfresh (.tail s.keys.length) rfl (by simp)
  have hpromises : (chain undefined key s).promises =
      ⟨newCells key s.keys.length (prior undefined key s).cells, (prior undefined key s).jobs⟩ := by
    change (((prior undefined key s).react (.guard s.keys.length) (.op s.keys.length)).react (.next s.keys.length)
      (.swallow (.tail s.keys.length))).react (.tail s.keys.length) (.release key s.keys.length) = _
    simp [Promises.react, hguard, hnext, htail, newCells]
  rw [← hpromises]
  rfl

section NewCells

variable {cells : PromiseId → Promises.Cell Handler (Except E V)}

theorem newCells_other {p : PromiseId} (h : p.number ≠ k) : newCells key k cells p = cells p := by
  unfold newCells
  rw [Function.update_of_ne, Function.update_of_ne, Function.update_of_ne]
  · rintro rfl
    exact h rfl
  · rintro rfl
    exact h rfl
  · rintro rfl
    exact h rfl

@[simp] theorem newCells_next : newCells key k cells (.next k) = .pending [.swallow (.tail k)] := by
  simp [newCells]

/-- A new operation is chained or guarded. -/
theorem newCells_local (hcells : s'.promises.cells = newCells key k cells) (hresult : cells (.result k) = .pending [])
    (hphase : s'.phase k = .waiting) (hst : (∃ j, st = .chained j) ∨ ∃ r, st = .guarded r) : Local s' k key st := by
  constructor
  · intro _
    rw [hcells]
    simp [newCells]
  · intro _
    rw [hcells]
    simp [newCells]
  · have hwait : s'.phase k = .waiting ∧ s'.promises.cells (.result k) = .pending [] := by
      rw [hcells]
      exact ⟨hphase, by simpa [newCells] using hresult⟩
    rcases hst with ⟨j, rfl⟩ | ⟨r, rfl⟩
    · exact hwait
    · exact hwait

end NewCells

/-- Nobody is chained to a new operation. -/
theorem Chained.next_new (h : Chained s stage) (hkeys : s'.keys = s.keys ++ [key])
    (hcell : s'.promises.cells (.next s.keys.length) = .pending [.swallow (.tail s.keys.length)])
    (hout : st.outcome? = none) (hst : st ≠ .chained s.keys.length) :
    Next s' (Function.update stage s.keys.length st) s.keys.length := by
  unfold Next
  rw [Function.update_self, hout]
  refine ⟨_, hcell, List.nodup_singleton _, fun x => ?_⟩
  rw [List.mem_singleton]
  refine ⟨Or.inl, ?_⟩
  rintro (hx | ⟨k', hk', hc, -⟩)
  · exact hx
  · rw [hkeys, List.length_append, List.length_singleton] at hk'
    by_cases hne : k' = s.keys.length
    · rw [hne, Function.update_self] at hc
      exact absurd hc hst
    · rw [Function.update_of_ne hne] at hc
      have hlt : k' < s.keys.length := by omega
      have hback := (h.chained k' _ _ hc (List.getElem?_eq_getElem hlt)).1
      omega

/-- Who is chained to an earlier operation is as before, if the new one is not chained to it. -/
theorem Chained.next_old {j : ℕ} (h : Chained s stage) (hkeys : s'.keys = s.keys ++ [key]) (hj : j < s.keys.length)
    (hcell : s'.promises.cells (.next j) = s.promises.cells (.next j)) (hst : st ≠ .chained j) :
    Next s' (Function.update stage s.keys.length st) j := by
  have hnext := h.next j hj
  unfold Next at hnext ⊢
  rw [Function.update_of_ne hj.ne, hcell]
  cases hout : (stage j).outcome? with
  | some r =>
    rw [hout] at hnext
    exact hnext
  | none =>
    rw [hout] at hnext
    obtain ⟨handlers, hp, hn, hm⟩ := hnext
    refine ⟨handlers, hp, hn, fun x => (hm x).trans (or_congr_right ?_)⟩
    rw [hkeys, List.length_append, List.length_singleton]
    constructor
    · rintro ⟨k', hk', hc, rfl⟩
      exact ⟨k', by omega, by rwa [Function.update_of_ne hk'.ne], rfl⟩
    · rintro ⟨k', hk', hc, rfl⟩
      by_cases hne : k' = s.keys.length
      · rw [hne, Function.update_self] at hc
        exact absurd hc hst
      · rw [Function.update_of_ne hne] at hc
        exact ⟨k', by omega, hc, rfl⟩

/-- **A submission after operations that have settled.** -/
theorem Chained.chain_guarded (h : Chained s stage) {r : Except E V}
    (hcells : ∀ p, p ≠ .resolved s.keys.length → (prior undefined key s).cells p = s.promises.cells p)
    (hjobs : (prior undefined key s).jobs = s.promises.jobs ++ [.react (.swallow (.guard s.keys.length)) r])
    (hsettled : ∀ j, s.keys[j]? = some key → (stage j).outcome?.isSome = true) :
    Chained (chain undefined key s) (Function.update stage s.keys.length (.guarded r)) := by
  have hfresh : ∀ p : PromiseId, s.keys.length ≤ p.number → p ≠ .resolved s.keys.length →
      (prior undefined key s).cells p = .pending [] := fun p hp hne => (hcells p hne).trans (h.fresh p hp)
  have hchain := chain_eq fun p hp hne => hfresh p hp.ge hne
  have hold : ∀ p : PromiseId, p.number < s.keys.length →
      (chain undefined key s).promises.cells p = s.promises.cells p := by
    intro p hp
    rw [hchain]
    dsimp only
    rw [newCells_other hp.ne, hcells]
    rintro rfl
    exact lt_irrefl _ hp
  have hout : (Stage.guarded r : Stage E V).job? key s.keys.length =
      some (.react (.swallow (.guard s.keys.length)) r) := rfl
  apply h.submit
  · rw [hchain]
  · rw [hchain]
  · rw [hchain]
  · rw [hchain]
    dsimp only
    rw [hjobs]
    refine List.nodup_append.mpr ⟨h.nodup, List.nodup_singleton _, ?_⟩
    rintro job hjob job' hjob' rfl
    obtain rfl := List.mem_singleton.mp hjob'
    obtain ⟨j, key', hj, hjob⟩ := (h.jobs _).mp hjob
    have howner : s.keys.length = j := Stage.owner_eq hjob
    exact absurd (List.getElem?_eq_some_iff.mp hj).1 (by omega)
  · intro job
    rw [hchain, hout]
    dsimp only
    rw [hjobs, List.mem_append, List.mem_singleton, Option.some.injEq, eq_comm (a := job)]
  · exact fun p hp _ => hold p hp
  · intro p hp
    rw [hchain]
    dsimp only
    rw [newCells_other hp.ne']
    refine hfresh p hp.le ?_
    rintro rfl
    exact lt_irrefl _ hp
  · rw [hchain]
    exact newCells_local rfl (hfresh _ le_rfl (by simp)) (h.unborn _ le_rfl) (Or.inr ⟨r, rfl⟩)
  · rfl
  · intro j hj
    rcases Nat.lt_succ_iff_lt_or_eq.mp hj with hj | rfl
    · exact h.next_old (by rw [hchain]) hj (hold _ hj) (by rintro ⟨⟩)
    · refine h.next_new (by rw [hchain]) ?_ rfl (by rintro ⟨⟩)
      rw [hchain]
      dsimp only
      exact newCells_next
  · exact fun j hj => Or.inl (hsettled j hj)
  · rintro j ⟨⟩

/-- **A submission after an operation that has not settled.** -/
theorem Chained.chain_chained (h : Chained s stage) {j : ℕ} (hj : s.keys[j]? = some key)
    (hlast : ∀ i > j, s.keys[i]? ≠ some key) (hopen : (stage j).outcome? = none)
    (hhead : s.heads key = some (.next j)) :
    Chained (chain undefined key s) (Function.update stage s.keys.length (.chained j)) := by
  have hlt : j < s.keys.length := (List.getElem?_eq_some_iff.mp hj).1
  have hnext := h.next j hlt
  unfold Next at hnext
  rw [hopen] at hnext
  obtain ⟨handlers, hcell, hdistinct, hhandlers⟩ := hnext
  have hprior : prior undefined key s =
      ⟨Function.update s.promises.cells (.next j) (.pending (handlers ++ [.swallow (.guard s.keys.length)])),
        s.promises.jobs⟩ := by
    unfold prior
    rw [hhead, if_neg (by simp), Option.getD_some, Promises.react_pending hcell]
  have hsame : ∀ p, p ≠ .next j → (prior undefined key s).cells p = s.promises.cells p := by
    intro p hp
    rw [hprior]
    exact Function.update_of_ne hp _ _
  have hfresh : ∀ p : PromiseId, s.keys.length ≤ p.number → (prior undefined key s).cells p = .pending [] := by
    intro p hp
    rw [hsame p]
    · exact h.fresh p hp
    · rintro rfl
      exact absurd hlt (not_lt.mpr hp)
  have hchain := chain_eq fun p hp _ => hfresh p hp.ge
  have hold : ∀ p : PromiseId, p.number < s.keys.length → p ≠ .next j →
      (chain undefined key s).promises.cells p = s.promises.cells p := by
    intro p hp hne
    rw [hchain]
    dsimp only
    rw [newCells_other hp.ne, hsame p hne]
  apply h.submit
  · rw [hchain]
  · rw [hchain]
  · rw [hchain]
  · rw [hchain, hprior]
    exact h.nodup
  · intro job
    rw [hchain, hprior]
    simp [Stage.job?]
  · exact fun p hp hne => hold p hp (hne j)
  · intro p hp
    rw [hchain]
    dsimp only
    rw [newCells_other hp.ne']
    exact hfresh p hp.le
  · rw [hchain]
    exact newCells_local rfl (hfresh _ le_rfl) (h.unborn _ le_rfl) (Or.inl ⟨j, rfl⟩)
  · rfl
  · intro i hi
    rcases Nat.lt_succ_iff_lt_or_eq.mp hi with hi | rfl
    · by_cases hij : i = j
      · subst hij
        unfold Next
        rw [Function.update_of_ne hlt.ne, hopen]
        refine ⟨handlers ++ [.swallow (.guard s.keys.length)], ?_, ?_, fun x => ?_⟩
        · rw [hchain]
          dsimp only
          rw [newCells_other (show (PromiseId.next i).number ≠ s.keys.length from hlt.ne), hprior]
          exact Function.update_self ..
        · refine List.nodup_append.mpr ⟨hdistinct, List.nodup_singleton _, ?_⟩
          rintro x hx y hy rfl
          obtain rfl := List.mem_singleton.mp hy
          rcases (hhandlers _).mp hx with he | ⟨k', hk', -, he⟩
          · cases he
          · cases he
            exact lt_irrefl _ hk'
        · have hlen : (chain undefined key s).keys.length = s.keys.length + 1 := by rw [hchain]; simp
          rw [List.mem_append, List.mem_singleton, hhandlers, hlen, or_assoc]
          refine or_congr_right ?_
          constructor
          · rintro (⟨k', hk', hc, rfl⟩ | rfl)
            · exact ⟨k', by omega, by rwa [Function.update_of_ne hk'.ne], rfl⟩
            · exact ⟨s.keys.length, by omega, by rw [Function.update_self], rfl⟩
          · rintro ⟨k', hk', hc, rfl⟩
            by_cases hne : k' = s.keys.length
            · exact Or.inr (by rw [hne])
            · rw [Function.update_of_ne hne] at hc
              exact Or.inl ⟨k', by omega, hc, rfl⟩
      · exact h.next_old (by rw [hchain]) hi (hold _ hi (fun he => hij (PromiseId.next.inj he)))
          fun he => hij (Stage.chained.inj he).symm
    · refine h.next_new (by rw [hchain]) ?_ rfl fun he => hlt.ne (Stage.chained.inj he)
      rw [hchain]
      dsimp only
      exact newCells_next
  · exact fun i _ => Or.inr rfl
  · intro i hi
    obtain rfl := Stage.chained.inj hi
    exact ⟨hlt, hj, hopen, hlast⟩

/-- **A submission** keeps the invariant and the stages that the operations are at. -/
theorem Chained.submitted (h : Chained s stage) (undefined : V) (key : Key) :
    ∃ stage', Chained (chain undefined key s) stage' ∧ ∀ j < s.keys.length, stage' j = stage j := by
  have hsame : ∀ st, ∀ j < s.keys.length, Function.update stage s.keys.length st j = stage j :=
    fun st j hj => Function.update_of_ne hj.ne st stage
  have houtcome : ∀ j, (stage j).isReleased = true → (stage j).outcome?.isSome = true ∧ (stage j).isChained = false := by
    intro j hj
    cases hst : stage j with
    | released r => exact ⟨rfl, rfl⟩
    | _ => rw [hst] at hj; cases hj
  cases hhead : s.heads key with
  | none =>
    have hprior : prior undefined key s =
        ⟨Function.update s.promises.cells (.resolved s.keys.length) (.settled (.ok undefined)),
          s.promises.jobs ++ [.react (.swallow (.guard s.keys.length)) (.ok undefined)]⟩ := by
      unfold prior
      rw [hhead, if_pos rfl, Option.getD_none, Promises.settle_pending (h.fresh _ le_rfl),
        Promises.react_settled (Function.update_self ..)]
      simp [Promises.enqueue]
    refine ⟨_, h.chain_guarded (fun p hp => ?_) (by rw [hprior]) fun j hj => ?_, hsame _⟩
    · rw [hprior]
      exact Function.update_of_ne hp _ _
    · -- The last operation of the room is released, and the others come before it.
      obtain ⟨l, hjl, hl, hlast⟩ := exists_last hj
      have hrel : (stage l).isReleased = true := by
        by_contra hrel
        have hkept := h.heads.kept l key hl hlast (by simpa using hrel)
        rw [hhead] at hkept
        cases hkept
      obtain ⟨hout, hfree⟩ := houtcome l hrel
      rcases hjl.lt_or_eq with hlt | rfl
      · refine (h.serial j l key hlt hj hl).resolve_right fun hc => ?_
        rw [hfree] at hc
        cases hc
      · exact hout
  | some p =>
    obtain ⟨j, rfl, hj, hlast, -⟩ := h.heads.last key p hhead
    cases hout : (stage j).outcome? with
    | none => exact ⟨_, h.chain_chained hj hlast hout hhead, hsame _⟩
    | some r =>
      have hcell := h.next j (List.getElem?_eq_some_iff.mp hj).1
      unfold Next at hcell
      rw [hout] at hcell
      have hprior : prior undefined key s = s.promises.enqueue (.react (.swallow (.guard s.keys.length)) r) := by
        unfold prior
        rw [hhead, if_neg (by simp), Option.getD_some, Promises.react_settled hcell]
      refine ⟨_, h.chain_guarded (fun p _ => by rw [hprior]; rfl) (by rw [hprior]; rfl) fun i hi => ?_, hsame _⟩
      rcases lt_trichotomy i j with hij | rfl | hij
      · refine (h.serial i j key hij hi hj).resolve_right fun hc => ?_
        cases hst : stage j with
        | chained x => rw [hst] at hout; cases hout
        | _ => rw [hst] at hc; cases hc
      · rw [hout]
        rfl
      · exact absurd hi (hlast i hij)

end Queues
end WatchParty
