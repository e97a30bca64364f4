import WatchParty.Actor.Plane

/-!
# The fence

Over every run of the actor plane, a script writes only under the lease that is held at that step, the epochs of the
leases and the fences of the writes never decrease, and a compare-and-delete of a lease that was observed deletes no
lease that was claimed since.

- `lease_step` and `write_step`: what one command does to the lease, and to the timeline;
- `Fenced` is the invariant, `Fenced.step` the step lemma, `fenced` the run lemma;
- `reclaim_stale` follows one observed lease through the rest of a run;
- `single_fenced_writer`: the whole.
-/

namespace WatchParty
namespace ActorPlane

/-- The lease an event minted. -/
def minted (e : Event) : Option Lease :=
  match e.act, e.pre.leaseNow with
  | .claim instanceId, none => some ⟨instanceId, e.pre.now⟩
  | _, _ => none

/-- The lease an event ended, by deleting it or by letting it expire. -/
def removed (e : Event) : Option Lease := if e.post.leaseNow = none then e.pre.leaseNow else none

/-- The leases held after each event. -/
def leases (tr : List Event) : List Lease := tr.filterMap fun e => e.post.leaseNow

@[simp] theorem leases_snoc (tr : List Event) (e : Event) :
    leases (tr ++ [e]) = leases tr ++ e.post.leaseNow.toList := by
  cases h : e.post.leaseNow <;> simp [leases, h]

/-! ## What one command does to the lease and to the timeline -/

/-- A command mints a lease where there is none, leaves the lease, or ends it. -/
theorem lease_step {σ σ' : Room} {op : Op} {out : Out} (hs : Step σ op out σ') :
    σ.now ≤ σ'.now ∧
    ((∃ i, op = .claim i ∧ σ.leaseNow = none ∧ σ'.leaseNow = some ⟨i, σ.now⟩ ∧ σ'.now = σ.now) ∨
      (σ'.leaseNow = σ.leaseNow ∧ minted ⟨σ, op, out, σ'⟩ = none) ∨
      (σ'.leaseNow = none ∧ minted ⟨σ, op, out, σ'⟩ = none)) := by
  cases hs with
  | mint i h => exact ⟨le_rfl, Or.inl ⟨i, rfl, h, granted_leaseNow _ _, rfl⟩⟩
  | renew i lease h ho =>
    refine ⟨le_rfl, Or.inr (Or.inl ⟨?_, ?_⟩)⟩
    · rw [granted_leaseNow, h]
    · simp only [minted, h]
  | foreign i lease h ho => exact ⟨le_rfl, Or.inr (Or.inl ⟨rfl, by simp only [minted, h]⟩)⟩
  | revoke owner fence n hh => exact ⟨le_rfl, Or.inr (Or.inr ⟨rfl, rfl⟩)⟩
  | birth i fence videoId mediaTime trim new hh h hnew => exact ⟨le_rfl, Or.inr (Or.inl ⟨rfl, rfl⟩)⟩
  | commit i fence next cmdId forVideoId trim new hh hok hnew =>
    refine ⟨?_, Or.inr (Or.inl ⟨?_, rfl⟩)⟩
    · rw [Lua.stored_now, Lua.actorRecord_now]
    · rw [Lua.stored_leaseNow, Lua.actorRecord_leaseNow]
  | clear => exact ⟨le_rfl, Or.inr (Or.inr ⟨rfl, rfl⟩)⟩
  | tick d =>
    refine ⟨Nat.le_add_right _ _, ?_⟩
    cases h : (σ.tick d).leaseNow with
    | none => exact Or.inr (Or.inr ⟨rfl, rfl⟩)
    | some lease =>
      have hle : σ.leaseNow = some lease := Expiring.get_of_le h (Nat.le_add_right _ _)
      exact Or.inr (Or.inl ⟨hle.symm, rfl⟩)
  | keep op out hout hop hl =>
    refine ⟨le_rfl, Or.inr (Or.inl ⟨rfl, ?_⟩)⟩
    unfold minted
    split
    · rename_i i hact _
      exact absurd hact (hop i)
    · rfl

/-- A command writes no timeline, or one under the lease it believes it holds, which is the one held. -/
theorem write_step {σ σ' : Room} {op : Op} {out : Out} (hs : Step σ op out σ') :
    σ'.saves = σ.saves ∨
    ∃ lease new, op.caller = some lease ∧ σ.leaseNow = some lease ∧ σ'.leaseNow = some lease ∧ σ'.now = σ.now ∧
      new.storeEpoch = lease.epoch ∧ σ'.saves = σ.saves ++ [new] ∧ σ'.loadTl = some new := by
  cases hs with
  | birth i fence videoId mediaTime trim new hh h hnew =>
    subst hnew
    exact Or.inr ⟨⟨i, fence⟩, Lua.actorBorn _ σ.now, rfl, hh, hh, rfl, rfl, rfl,
      Lua.stored_loadTl _ _ _ _ _ ActorRoomStateStore.KEY_TTL_MS_pos⟩
  | commit i fence next cmdId forVideoId trim new hh hok hnew =>
    refine Or.inr ⟨⟨i, fence⟩, new, rfl, hh, ?_, ?_, ?_, ?_, ?_⟩
    · rw [Lua.stored_leaseNow, Lua.actorRecord_leaseNow]
      exact hh
    · rw [Lua.stored_now, Lua.actorRecord_now]
    · rw [hnew]
      rfl
    · rw [Lua.stored_saves, Lua.actorRecord_saves]
    · exact Lua.stored_loadTl _ _ _ _ _ ActorRoomStateStore.KEY_TTL_MS_pos
  | mint i h => exact Or.inl rfl
  | renew i lease h ho => exact Or.inl rfl
  | foreign i lease h ho => exact Or.inl rfl
  | revoke owner fence n hh => exact Or.inl rfl
  | clear => exact Or.inl rfl
  | tick d => exact Or.inl rfl
  | keep op out hout hop hl => exact Or.inl rfl

/-! ## The invariant -/

/-- What a run keeps: the epochs of the leases never decrease, none is in the future, and every hash was written under
one of the leases, with fences that never decrease. -/
structure Fenced (tr : List Event) (σ : Room) : Prop where
  rising : (leases tr).Pairwise fun l l' => l.epoch ≤ l'.epoch
  past : ∀ l ∈ leases tr, l.epoch ≤ σ.now
  below : ∀ l ∈ leases tr, ∀ l', σ.leaseNow = some l' → l.epoch ≤ l'.epoch
  current : ∀ l, σ.leaseNow = some l → l ∈ leases tr
  under : ∀ h ∈ σ.saves, ∃ l ∈ leases tr, h.storeEpoch = l.epoch
  fences : (σ.saves.map TlHash.storeEpoch).Pairwise (· ≤ ·)

theorem fenced_init : Fenced [] Room.empty := by
  constructor
  · exact List.Pairwise.nil
  · intro l h; cases h
  · intro l h; cases h
  · intro l h; cases h
  · intro h hh; cases hh
  · exact List.Pairwise.nil

/-- Every fence written so far is at most the epoch of the lease that is held. -/
theorem Fenced.le_held {tr : List Event} {σ : Room} (hI : Fenced tr σ) {lease : Lease} (h : σ.leaseNow = some lease) :
    ∀ w ∈ σ.saves, w.storeEpoch ≤ lease.epoch := by
  intro w hw
  obtain ⟨l, hl, he⟩ := hI.under w hw
  rw [he]
  exact hI.below l hl lease h

/-- A lease that is held after an event is not older than any lease before, and was not minted in the future. -/
theorem Fenced.held_after {tr : List Event} {e : Event} (hs : Step e.pre e.act e.out e.post) (hI : Fenced tr e.pre)
    {lease : Lease} (h : e.post.leaseNow = some lease) :
    lease.epoch ≤ e.post.now ∧ ∀ l ∈ leases tr, l.epoch ≤ lease.epoch := by
  obtain ⟨hnow, ⟨i, -, -, hm, hsame⟩ | ⟨hk, -⟩ | ⟨hn, -⟩⟩ := lease_step hs
  · rw [hm] at h
    cases h
    refine ⟨Nat.cast_le.mpr hnow, fun l hl => ?_⟩
    exact hI.past l hl
  · rw [hk] at h
    refine ⟨(hI.past lease (hI.current lease h)).trans (Nat.cast_le.mpr hnow), fun l hl => ?_⟩
    exact hI.below l hl lease h
  · rw [hn] at h
    cases h

/-- **One command keeps the fence.** -/
theorem Fenced.step {tr : List Event} {e : Event} (hs : Step e.pre e.act e.out e.post) (hI : Fenced tr e.pre) :
    Fenced (tr ++ [e]) e.post := by
  have hnow := (lease_step hs).1
  have hheld : ∀ {l}, e.post.leaseNow = some l → l.epoch ≤ e.post.now ∧ ∀ l' ∈ leases tr, l'.epoch ≤ l.epoch :=
    fun h => hI.held_after hs h
  have hmem : ∀ l ∈ leases (tr ++ [e]), l ∈ leases tr ∨ e.post.leaseNow = some l := by
    intro l hl
    rw [leases_snoc] at hl
    rcases List.mem_append.mp hl with hl | hl
    · exact Or.inl hl
    · exact Or.inr (by simpa using hl)
  have hold : ∀ l ∈ leases tr, l ∈ leases (tr ++ [e]) := by
    intro l hl
    rw [leases_snoc]
    exact List.mem_append_left _ hl
  have hnew : ∀ l, e.post.leaseNow = some l → l ∈ leases (tr ++ [e]) := by
    intro l hl
    rw [leases_snoc, hl]
    simp
  constructor
  · rw [leases_snoc]
    refine List.pairwise_append.mpr ⟨hI.rising, ?_, fun l hl l' hl' => ?_⟩
    · cases e.post.leaseNow <;> simp
    · exact (hheld (by simpa using hl')).2 l hl
  · intro l hl
    rcases hmem l hl with hl | hl
    · exact (hI.past l hl).trans (Nat.cast_le.mpr hnow)
    · exact (hheld hl).1
  · intro l hl l' hl'
    rcases hmem l hl with hl | hl
    · exact (hheld hl').2 l hl
    · rw [hl] at hl'
      cases hl'
      exact le_rfl
  · exact hnew
  · intro w hw
    rcases write_step hs with hsame | ⟨lease, new, -, hpre, hpost, -, he, hsaves, -⟩
    · rw [hsame] at hw
      obtain ⟨l, hl, hle⟩ := hI.under w hw
      exact ⟨l, hold l hl, hle⟩
    · rw [hsaves] at hw
      rcases List.mem_append.mp hw with hw | hw
      · obtain ⟨l, hl, hle⟩ := hI.under w hw
        exact ⟨l, hold l hl, hle⟩
      · rw [List.mem_singleton.mp hw]
        exact ⟨lease, hnew lease hpost, he⟩
  · rcases write_step hs with hsame | ⟨lease, new, -, hpre, hpost, -, he, hsaves, -⟩
    · rw [hsame]
      exact hI.fences
    · rw [hsaves, List.map_append]
      refine List.pairwise_append.mpr ⟨hI.fences, List.pairwise_singleton _ _, fun a ha b hb => ?_⟩
      obtain ⟨w, hw, rfl⟩ := List.mem_map.mp ha
      rw [List.mem_singleton.mp hb, he]
      exact hI.le_held hpre w hw

/-- **The fence holds in every run.** -/
theorem fenced (ops : List Op) : Fenced (machine.trace ops) (machine.run ops) :=
  machine.invariant fenced_init (fun _ _ _ hI => hI.step (event_cases _ _)) ops

/-! ## An observed lease -/

/-- No lease is ended and minted again for the same owner within one millisecond. -/
def NoQuickReturn (tr : List Event) : Prop :=
  tr.Pairwise fun r g => ∀ l ∈ removed r, ∀ l' ∈ minted g, l.owner = l'.owner → r.pre.now ≠ g.pre.now

/-- What is known of a lease `l` observed at instant `t`, after the events `tr` since: while it is held nothing was
minted, and when it is not held either time has passed or one of the events ended it at `t`. -/
structure Observed (l : Lease) (t : ℕ) (tr : List Event) (σ : Room) : Prop where
  since : t ≤ σ.now
  kept : σ.leaseNow = some l → ∀ g ∈ tr, minted g = none
  ended : σ.leaseNow = some l ∨ t < σ.now ∨ ∃ r ∈ tr, removed r = some l ∧ r.pre.now = t

/-- **One command keeps what is known of an observed lease.** -/
theorem Observed.step {l : Lease} {t : ℕ} {tr : List Event} {e : Event} (hs : Step e.pre e.act e.out e.post)
    (hl : l.epoch ≤ t) (hq : NoQuickReturn (tr ++ [e])) (hI : Observed l t tr e.pre) :
    Observed l t (tr ++ [e]) e.post := by
  obtain ⟨hnow, hcases⟩ := lease_step hs
  have hmono : (t < e.pre.now ∨ ∃ r ∈ tr, removed r = some l ∧ r.pre.now = t) →
      (t < e.post.now ∨ ∃ r ∈ tr ++ [e], removed r = some l ∧ r.pre.now = t) := by
    rintro (h | ⟨r, hr, h⟩)
    · exact Or.inl (h.trans_le hnow)
    · exact Or.inr ⟨r, List.mem_append_left _ hr, h⟩
  have hsnoc : minted e = none → (∀ g ∈ tr, minted g = none) → ∀ g ∈ tr ++ [e], minted g = none := by
    intro hm h g hg
    rcases List.mem_append.mp hg with hg | hg
    · exact h g hg
    · rw [List.mem_singleton.mp hg, hm]
  refine ⟨hI.since.trans hnow, ?_, ?_⟩
  · intro hpost
    rcases hcases with ⟨i, hact, hnone, hm, -⟩ | ⟨hk, hm⟩ | ⟨hn, -⟩
    · -- the observed lease was ended and minted again within the millisecond in which it was observed
      exfalso
      rw [hm] at hpost
      cases hpost
      have ht : e.pre.now = t := le_antisymm (Nat.cast_le.mp hl) hI.since
      rcases hI.ended with h | h | ⟨r, hr, hrem, hrt⟩
      · rw [hnone] at h
        cases h
      · omega
      · have hmint : minted e = some ⟨i, e.pre.now⟩ := by simp only [minted, hact, hnone]
        have hne := (List.pairwise_append.mp hq).2.2 r hr e (List.mem_singleton_self _)
        exact hne _ hrem _ hmint rfl (hrt.trans ht.symm)
    · exact hsnoc hm (hI.kept (hk ▸ hpost))
    · rw [hn] at hpost
      cases hpost
  · rcases hcases with ⟨i, hact, hnone, hm, -⟩ | ⟨hk, -⟩ | ⟨hn, -⟩
    · refine Or.inr (hmono (hI.ended.resolve_left ?_))
      rw [hnone]
      exact fun h => by cases h
    · rw [hk]
      exact hI.ended.imp_right hmono
    · rcases hI.ended with h | h
      · rcases hI.since.lt_or_eq with hlt | heq
        · exact Or.inr (Or.inl (hlt.trans_le hnow))
        · refine Or.inr (Or.inr ⟨e, List.mem_append_right _ (List.mem_singleton_self _), ?_, heq.symm⟩)
          rw [removed, if_pos hn, h]
      · exact Or.inr (hmono h)

theorem noQuickReturn_of_snoc (tr : List Event) (e : Event) (h : NoQuickReturn (tr ++ [e])) : NoQuickReturn tr :=
  (List.pairwise_append.mp h).1

/-- What is known of an observed lease, over the rest of a run. -/
theorem observed {σ : Room} {l : Lease} (h : σ.leaseNow = some l) (hl : l.epoch ≤ σ.now) (ops : List Op) :
    NoQuickReturn (machine.traceFrom σ ops) → Observed l σ.now (machine.traceFrom σ ops) (machine.runFrom σ ops) :=
  machine.invariant_from (C := NoQuickReturn) σ noQuickReturn_of_snoc
    ⟨le_rfl, fun _ _ hg => absurd hg List.not_mem_nil, Or.inl h⟩
    (fun _ _ _ hc hI => hI.step (event_cases _ _) hl hc) ops

/-- A claim answers the lease that is held when it is done. -/
theorem view_of_claim {σ σ' : Room} {op : Op} {view : Lua.LeaseView} (hs : Step σ op (.lease view) σ') :
    σ'.leaseNow = some view.toLease := by
  cases hs with
  | mint i h => exact granted_leaseNow _ _
  | renew i lease h ho => exact granted_leaseNow _ _
  | foreign i lease h ho => exact h
  | keep op out hout hop hl => exact absurd rfl (hl view)

/-- A compare-and-delete that changes the lease found exactly the one it compares with. -/
theorem held_of_reclaim {σ σ' : Room} {owner : String} {fence : ℚ} {out : Out}
    (hs : Step σ (.reclaim owner fence) out σ') (hne : σ'.leaseNow ≠ σ.leaseNow) :
    σ.leaseNow = some ⟨owner, fence⟩ := by
  cases hs with
  | revoke _ _ n hh => exact hh
  | keep op out hout hop hl => exact absurd rfl hne

/-- A writing command changes the keys only under the lease it believes it holds. -/
theorem held_of_write {σ σ' : Room} {op : Op} {out : Out} {lease : Lease} (hs : Step σ op out σ')
    (hc : op.caller = some lease) (hne : σ' ≠ σ) : σ.leaseNow = some lease := by
  cases hs with
  | birth i fence videoId mediaTime trim new hh h hnew => cases hc; exact hh
  | commit i fence next cmdId forVideoId trim new hh hok hnew => cases hc; exact hh
  | keep op out hout hop hl => exact absurd rfl hne
  | mint i h => cases hc
  | renew i lease h ho => cases hc
  | foreign i lease h ho => cases hc
  | revoke owner fence n hh => cases hc
  | clear => cases hc
  | tick d => cases hc

/-- **Single fenced writer.** In every run of the actor plane in which no lease is ended and minted again for the same
owner within one millisecond,
- an init or commit script changes the keys only when the lease held at that step is the caller's, at its fence;
- the epochs of successive leases, and the fences of successive writes, never decrease;
- a compare-and-delete of a lease that a claim answered deletes a lease only if none was minted since. -/
theorem single_fenced_writer (ops : List Op) (hq : NoQuickReturn (machine.trace ops)) :
    (∀ e ∈ machine.trace ops, ∀ lease, e.act.caller = some lease → e.post ≠ e.pre → e.pre.leaseNow = some lease) ∧
    (leases (machine.trace ops)).Pairwise (fun l l' => l.epoch ≤ l'.epoch) ∧
    ((machine.run ops).saves.map TlHash.storeEpoch).Pairwise (· ≤ ·) ∧
    ∀ tr v since r rest view, machine.trace ops = tr ++ v :: (since ++ r :: rest) → v.out = .lease view →
      r.act = .reclaim view.owner view.epoch → r.post.leaseNow ≠ r.pre.leaseNow → ∀ g ∈ since, minted g = none := by
  refine ⟨fun e he lease hc hne => ?_, (fenced ops).rising, (fenced ops).fences, ?_⟩
  · obtain ⟨bs, a, -, rfl⟩ := machine.mem_trace he
    exact held_of_write (event_cases _ _) hc hne
  · intro tr v since r rest view htr hv hr hne
    rw [htr] at hq
    obtain ⟨as, b, bs, rfl, rfl, rfl, hrest⟩ := machine.trace_split htr
    obtain ⟨as', b', bs', rfl, rfl, rfl, -⟩ := machine.traceFrom_split hrest.symm
    have hheld := view_of_claim (hv ▸ event_cases (machine.run as) b)
    have hepoch := ((fenced as).held_after (event_cases (machine.run as) b) hheld).1
    have hq' := (List.pairwise_append.mp (List.pairwise_cons.mp (List.pairwise_append.mp hq).2.1).2).1
    have hpre := held_of_reclaim (hr ▸ event_cases _ b') hne
    exact (observed hheld hepoch as' hq').kept hpre

/-- An owner whose lease expires, a new owner, and a late compare-and-delete of the old lease. -/
theorem single_fenced_writer_handoff :
    let ops : List Op := [.claim "a", .init "a" 0 none 0 0, .tick 10000, .claim "b", .reclaim "a" 0,
      .commit "b" 10000 ⟨10000, none, true, 3, 10000, .play, some "u"⟩ (some "c") none 0]
    ((machine.run ops).saves.map TlHash.storeEpoch).Pairwise (· ≤ ·) :=
  (single_fenced_writer _ (by unfold NoQuickReturn; decide)).2.2.1

end ActorPlane
end WatchParty
