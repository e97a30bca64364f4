import WatchParty.Auth.Snapshot

/-!
# The revocation mirror in Redis

Every instance writes its own revocations to the mirror one by one, and from time to time rebuilds the whole mirror from
what it has read of the database. What holds of the mirror when the rebuilds and the writes do not cross, and a run in
which they do.

- `mirrored` is the revocation that a step writes to the mirror; `MirrorKept`: no later state of a run has lost one;
- `Ordered` is the condition on a step: what it rebuilds from, writes or lowers;
- `mirror_kept` is the result, `mirror_unrevoked` the run in which a rebuild comes too late.
-/

namespace WatchParty
namespace Auth

/-- Is the revocation among these tokens and versions? -/
def Revocation.In (tokens : Finset String) (versions : String → Option ℕ) : Revocation → Prop
  | .token jti => jti ∈ tokens
  | .user userId version => version ≤ level versions userId

instance (tokens : Finset String) (versions : String → Option ℕ) (rev : Revocation) :
    Decidable (rev.In tokens versions) :=
  match rev with
  | .token jti => inferInstanceAs (Decidable (jti ∈ tokens))
  | .user userId version => inferInstanceAs (Decidable (version ≤ level versions userId))

/-- Two versions of one user are in this order. -/
def Revocation.Below : Revocation → Revocation → Prop
  | .user userId' version', .user userId version => userId' = userId → version' ≤ version
  | _, _ => True

instance (rev rev' : Revocation) : Decidable (rev.Below rev') :=
  match rev, rev' with
  | .user userId' version', .user userId version => inferInstanceAs (Decidable (userId' = userId → version' ≤ version))
  | .token _, _ | .user _ _, .token _ => inferInstanceAs (Decidable True)

section Mirror

variable (expires : String → ℕ) {I : Type}

/-- Some instance has a clock by which the token has not expired. -/
def Alive (s : State I) : Revocation → Prop
  | .token jti => ∃ i, (s.node i).loc.clock < expires jti
  | .user _ _ => True

instance [Fintype I] (s : State I) (rev : Revocation) : Decidable (Alive expires s rev) :=
  match rev with
  | .token jti => inferInstanceAs (Decidable (∃ i, (s.node i).loc.clock < expires jti))
  | .user _ _ => inferInstanceAs (Decidable True)

/-- The revocation that a command writes to the mirror. -/
def writes (p : Point) (x : Choice) : Option Revocation :=
  if x = .fails then none
  else
    match p with
    | .sadd jti _ => some (.token jti)
    | .hset userId version _ => some (.user userId version)
    | _ => none

/-- The revocation that a step writes to the mirror. -/
def mirrored (e : Event I) : Option Revocation :=
  match e.act, e.pre.executed e.act with
  | .exec _ _ x, some (_, p) => writes p x
  | _, _ => none

/-- The rebuild of the mirror that a task has still to execute. -/
def rebuildOf (t : Pending Reply) : Option (Finset String × (String → Option ℕ)) :=
  match t with
  | ⟨.rebuild tokens versions, none⟩ => some (tokens, versions)
  | _ => none

/-- **No revocation is lost from the mirror.** Once a step of the run has written it there, the mirror has it, or a
higher version, until the token has expired. -/
def MirrorKept [DecidableEq I] (lifetime : ℤ) (ops : List (Action I)) : Prop :=
  ∀ e ∈ (machine I lifetime).trace ops, ∀ rev ∈ mirrored e, Alive expires ((machine I lifetime).run ops) rev →
    rev.In ((machine I lifetime).run ops).shared.jti ((machine I lifetime).run ops).shared.userver

instance [Fintype I] [DecidableEq I] (lifetime : ℤ) (ops : List (Action I)) :
    Decidable (MirrorKept expires lifetime ops) := by
  unfold MirrorKept
  infer_instance

/-- What a step must not do after the events `tr`: write a revocation that a rebuild which is still to be executed lacks,
or a version below one that has been written; or merge a reload that has not read, and whose instance has not heard of
since, a revocation that has been written and has not expired. -/
structure Ordered (tr : List (Event I)) (e : Event I) : Prop where
  write : ∀ rev ∈ mirrored e, Alive expires e.pre rev → ∀ i, ∀ t ∈ (e.pre.node i).tasks, ∀ q ∈ rebuildOf t, rev.In q.1 q.2
  rising : ∀ rev ∈ mirrored e, ∀ rev' ∈ tr.filterMap mirrored, rev'.Below rev
  merge : ∀ q ∈ e.pre.replied e.act, ∀ tokens ∈ tokensOf ⟨q.2.1, some q.2.2⟩, ∀ users ∈ usersOf ⟨q.2.1, some q.2.2⟩,
    ∀ rev ∈ tr.filterMap mirrored, Alive expires e.pre rev →
      rev.In tokens users ∨
        rev.In (e.pre.node q.1).loc.revocations.pendingTokens (e.pre.node q.1).loc.revocations.pendingVersions

instance [Fintype I] (tr : List (Event I)) (e : Event I) : Decidable (Ordered expires tr e) :=
  decidable_of_iff
    ((∀ rev ∈ mirrored e, Alive expires e.pre rev → ∀ i, ∀ t ∈ (e.pre.node i).tasks, ∀ q ∈ rebuildOf t, rev.In q.1 q.2) ∧
      (∀ rev ∈ mirrored e, ∀ rev' ∈ tr.filterMap mirrored, rev'.Below rev) ∧
      ∀ q ∈ e.pre.replied e.act, ∀ tokens ∈ tokensOf ⟨q.2.1, some q.2.2⟩, ∀ users ∈ usersOf ⟨q.2.1, some q.2.2⟩,
        ∀ rev ∈ tr.filterMap mirrored, Alive expires e.pre rev →
          rev.In tokens users ∨
            rev.In (e.pre.node q.1).loc.revocations.pendingTokens (e.pre.node q.1).loc.revocations.pendingVersions)
    ⟨fun ⟨h1, h2, h3⟩ => ⟨h1, h2, h3⟩, fun h => ⟨h.write, h.rising, h.merge⟩⟩

/-- What a run keeps: the mirror has every revocation that has been written to it and has not expired, and so has every
rebuild that is still to be executed. -/
structure Mirrored (tr : List (Event I)) (s : State I) : Prop where
  mirror : ∀ rev ∈ tr.filterMap mirrored, Alive expires s rev → rev.In s.shared.jti s.shared.userver
  rebuild : ∀ rev ∈ tr.filterMap mirrored, Alive expires s rev → ∀ i, ∀ t ∈ (s.node i).tasks, ∀ q ∈ rebuildOf t,
    rev.In q.1 q.2

end Mirror

section Steps

variable {expires : String → ℕ} {I : Type} [DecidableEq I] {lifetime : ℤ} {s s' : State I} {a : Action I} {o : Output I}

/-- What has been merged is what was read and what is pending. -/
theorem in_install {tokens : Finset String} {users : String → Option ℕ} {r : Revocations} {rev : Revocation}
    (h : rev.In tokens users ∨ rev.In r.pendingTokens r.pendingVersions) :
    rev.In (r.install tokens users).revokedTokens (r.install tokens users).userVersions := by
  cases rev with
  | token jti => exact Finset.mem_union.mpr h
  | user userId version =>
    have hl := level_mergeVersions users r.pendingVersions userId
    rcases h with h | h
    · exact (le_trans h le_sup_left).trans_eq hl.symm
    · exact (le_trans h le_sup_right).trans_eq hl.symm

/-- A clock only goes forward. -/
theorem clock_step (hs : Step lifetime s a o s') (i : I) : (s.node i).loc.clock ≤ (s'.node i).loc.clock := by
  rcases Tasks.loc_cases hs i with h | ⟨d, t, hb, h⟩
  · rw [h]
  · rw [h]
    obtain ⟨x, told, hran⟩ := ran_of_begins hb
    exact hran.clock

theorem alive_step (hs : Step lifetime s a o s') {rev : Revocation} (h : Alive expires s' rev) :
    Alive expires s rev := by
  cases rev with
  | token jti =>
    obtain ⟨i, hi⟩ := h
    exact ⟨i, (clock_step hs i).trans_lt hi⟩
  | user userId version => exact trivial

/-- A rebuild that is to be executed was there, or a reload merges what it has read. -/
theorem rebuild_from (hs : Step lifetime s a o s') {i : I} {t : Pending Reply} (ht : t ∈ (s'.node i).tasks)
    {q : Finset String × (String → Option ℕ)} (hq : rebuildOf t = some q) :
    t ∈ (s.node i).tasks ∨ ∃ p r tokens users, s.replied a = some (i, ⟨p, r⟩) ∧ tokensOf ⟨p, some r⟩ = some tokens ∧
      usersOf ⟨p, some r⟩ = some users ∧ q.1 = ((s.node i).loc.revocations.install tokens users).revokedTokens ∧
      q.2 = ((s.node i).loc.revocations.install tokens users).userVersions := by
  rcases Tasks.mem_tasks hs ht with h | ⟨p, x, -, -, rfl, -⟩ | ⟨d, u, p, hb, hnext, rfl, -⟩
  · exact Or.inl h
  · unfold rebuildOf at hq
    split at hq
    · rename_i heq
      cases heq
    · cases hq
  · right
    unfold rebuildOf at hq
    split at hq
    · rename_i tokens versions heq
      cases heq
      cases hq
      obtain ⟨x, told, hran⟩ := ran_of_begins hb
      have he := hran.effect
      rw [hnext] at he
      generalize u.loc.revocations = r' at he
      cases he with
      | keep ht hn => cases hn
      | remember rev hrev ht hn => cases hn
      | read y p ht hy hp htokens husers hread => exact absurd ⟨htokens.symm, husers.symm⟩ hread
      | install y tokens users hy hrel htokens husers =>
        rcases hran.origin with ⟨-, -, hx, -, -⟩ | ⟨p, r, hr, hx, -, -⟩
        · rw [hy] at hx
          cases hx
        · rw [hy] at hx
          cases hx
          exact ⟨p, r, tokens, users, hr, htokens, husers, rfl, rfl⟩
    · cases hq

theorem increment_mirror {s : Store} {userId : String} {r : ℕ × Store} (h : s.increment userId = some r) :
    r.2.jti = s.jti ∧ r.2.userver = s.userver := by
  unfold Store.increment at h
  cases hu : s.user userId with
  | none =>
    rw [hu] at h
    cases h
  | some u =>
    rw [hu] at h
    cases h
    exact ⟨rfl, rfl⟩

/-- What a command does to the mirror: it writes a revocation, replaces the mirror, or leaves it. -/
theorem exec_mirror (p : Point) (x : Choice) (s : Store) :
    (∃ rev, writes p x = some rev ∧ rev.In (exec p x s).2.jti (exec p x s).2.userver ∧
      ∀ rev' : Revocation, rev'.In s.jti s.userver → rev'.Below rev → rev'.In (exec p x s).2.jti (exec p x s).2.userver) ∨
    (writes p x = none ∧ ∃ q, rebuildOf ⟨p, none⟩ = some q ∧ (exec p x s).2.jti = q.1 ∧ (exec p x s).2.userver = q.2) ∨
    (writes p x = none ∧ (exec p x s).2.jti = s.jti ∧ (exec p x s).2.userver = s.userver) := by
  by_cases hx : x = .fails
  · refine Or.inr (Or.inr ⟨if_pos hx, ?_⟩)
    cases p <;> simp only [exec, if_pos hx, and_self]
  · cases p with
    | sadd jti c =>
      refine Or.inl ⟨.token jti, if_neg hx, ?_, fun rev' h _ => ?_⟩
      · simp [exec, hx, Revocation.In]
      · cases rev' with
        | token jti' => simpa [exec, hx, Revocation.In] using Or.inr h
        | user userId version => simpa [exec, hx, Revocation.In] using h
    | hset userId version c =>
      refine Or.inl ⟨.user userId version, if_neg hx, ?_, fun rev' h hb => ?_⟩
      · simp [exec, hx, Revocation.In, level]
      · cases rev' with
        | token jti => simpa [exec, hx, Revocation.In] using h
        | user userId' version' =>
          by_cases hu : userId' = userId
          · simpa [exec, hx, Revocation.In, level, hu] using hb hu
          · simpa [exec, hx, Revocation.In, level, hu] using h
    | rebuild tokens versions =>
      exact Or.inr (Or.inl ⟨if_neg hx, _, rfl, by simp [exec, hx], by simp [exec, hx]⟩)
    | upsert row | create jti k =>
      refine Or.inr (Or.inr ⟨if_neg hx, ?_⟩)
      simp only [exec, if_neg hx]
      repeat' split
      all_goals exact ⟨rfl, rfl⟩
    | increment userId =>
      refine Or.inr (Or.inr ⟨if_neg hx, ?_⟩)
      simp only [exec, if_neg hx]
      split
      · exact ⟨rfl, rfl⟩
      · rename_i hi
        exact increment_mirror hi
    | deleteMany cutoff =>
      refine Or.inr (Or.inr ⟨if_neg hx, ?_⟩)
      simp only [exec, if_neg hx, and_self]
    | _ => exact Or.inr (Or.inr ⟨if_neg hx, rfl, rfl⟩)

theorem env_mirror (e : Env) (s : Store) : (env e s).jti = s.jti ∧ (env e s).userver = s.userver := by
  cases e with
  | register userId username =>
    simp only [env]
    split <;> exact ⟨rfl, rfl⟩
  | bump userId =>
    simp only [env]
    cases hi : s.increment userId with
    | none => exact ⟨rfl, rfl⟩
    | some r => exact increment_mirror hi

/-- A step executes a command on the mirror, or leaves it. -/
theorem mirror_cases (hs : Step lifetime s a o s') :
    (∃ i p x, ⟨p, none⟩ ∈ (s.node i).tasks ∧ s'.shared = (exec p x s.shared).2 ∧ mirrored ⟨s, a, o, s'⟩ = writes p x) ∨
    (mirrored ⟨s, a, o, s'⟩ = none ∧ s'.shared.jti = s.shared.jti ∧ s'.shared.userver = s.shared.userver) := by
  rcases (service lifetime).shared_cases hs with ⟨i, p, -, hx, -⟩ | ⟨e, rfl, hk⟩ | ⟨hx, hk⟩
  · obtain ⟨n, x, rfl⟩ := Office.executed_act hx
    refine Or.inl ⟨i, p, x, Office.executed_mem hx, (Tasks.exec_step hs hx).1, ?_⟩
    simp only [mirrored, hx]
  · right
    rw [hk]
    exact ⟨rfl, env_mirror e s.shared⟩
  · right
    rw [hk]
    refine ⟨?_, rfl, rfl⟩
    simp only [mirrored, hx]

omit [DecidableEq I] in
theorem mem_mirrored {tr : List (Event I)} {e : Event I} {rev : Revocation} :
    rev ∈ (tr ++ [e]).filterMap mirrored ↔ rev ∈ tr.filterMap mirrored ∨ mirrored e = some rev := by
  simp [List.mem_append, List.filterMap_append, or_comm, eq_comm]

/-- **One step** loses nothing from the mirror. -/
theorem mirrored_step {tr : List (Event I)} (hs : Step lifetime s a o s') (hc : Ordered expires tr ⟨s, a, o, s'⟩)
    (hI : Mirrored expires tr s) : Mirrored expires (tr ++ [⟨s, a, o, s'⟩]) s' where
  mirror rev hrev halive := by
    have halive' := alive_step hs halive
    rcases mirror_cases hs with ⟨i, p, x, hp, hk, hm⟩ | ⟨hm, hjti, hver⟩
    · rw [hk]
      rcases mem_mirrored.mp hrev with hold | hnew
      · rcases exec_mirror p x s.shared with ⟨rev', hw, -, hkeep⟩ | ⟨-, q, hq, hj, hv⟩ | ⟨-, hj, hv⟩
        · exact hkeep rev (hI.mirror rev hold halive') (hc.rising rev' (hm.trans hw) rev hold)
        · rw [hj, hv]
          exact hI.rebuild rev hold halive' i _ hp q hq
        · rw [hj, hv]
          exact hI.mirror rev hold halive'
      · rw [hm] at hnew
        rcases exec_mirror p x s.shared with ⟨rev', hw, hin, -⟩ | ⟨hw, -⟩ | ⟨hw, -⟩
        · rw [hw] at hnew
          cases hnew
          exact hin
        · rw [hw] at hnew
          cases hnew
        · rw [hw] at hnew
          cases hnew
    · rw [hjti, hver]
      rcases mem_mirrored.mp hrev with hold | hnew
      · exact hI.mirror rev hold halive'
      · rw [hm] at hnew
        cases hnew
  rebuild rev hrev halive i t ht q hq := by
    have halive' := alive_step hs halive
    rcases rebuild_from hs ht hq with hin | ⟨p, r, tokens, users, hr, htokens, husers, hj, hv⟩
    · rcases mem_mirrored.mp hrev with hold | hnew
      · exact hI.rebuild rev hold halive' i t hin q hq
      · exact hc.write rev hnew halive' i t hin q hq
    · rcases mem_mirrored.mp hrev with hold | hnew
      · rw [hj, hv]
        exact in_install (hc.merge _ hr tokens htokens users husers rev hold halive')
      · cases a with
        | deliver k n => cases hnew
        | _ => cases hr

end Steps

/-- **The mirror never un-revokes** in a run whose steps are ordered: no rebuild is executed that lacks a revocation
written since it was merged, no reload is merged that has missed one, and no version is written below another. -/
theorem mirror_kept {I : Type} [DecidableEq I] (lifetime : ℤ) (expires : String → ℕ) (ops : List (Action I))
    (h : Machine.Always (Ordered expires) ((machine I lifetime).trace ops)) : MirrorKept expires lifetime ops := by
  have hI : Mirrored expires ((machine I lifetime).trace ops) ((machine I lifetime).run ops) :=
    (machine I lifetime).invariant_always (P := Ordered expires) (I := Mirrored expires)
      ⟨fun _ h => absurd h List.not_mem_nil, fun _ h => absurd h List.not_mem_nil⟩
      (fun tr s a hc hI => mirrored_step ((service lifetime).step_cases s a) hc hI) ops h
  intro e he rev hrev halive
  exact hI.mirror rev (List.mem_filterMap.mpr ⟨e, he, hrev⟩) halive

/-- An account, and a sign-out on one instance. -/
def signOut : List (Action Bool) :=
  [.start false (.revokeToken ⟨"t", "ann", 1000000⟩), .exec false 0 .done, .deliver false 0, .exec false 0 .done]

/-- A reload on the other instance, up to the rebuild of the mirror. -/
def reload : List (Action Bool) :=
  [.start true .refresh, .exec true 0 .done, .deliver true 0, .exec true 0 .done, .deliver true 0]

/-- The sign-out comes first, and then the rebuild. -/
def rebuiltAfter : List (Action Bool) :=
  .env (.register "ann" "ann") :: (signOut ++ reload ++ [.exec true 0 .done])

/-- The mirror keeps the token. -/
theorem mirror_kept_rebuilt : MirrorKept (fun _ => 1000000) 43200 rebuiltAfter :=
  mirror_kept 43200 (fun _ => 1000000) rebuiltAfter (by decide +kernel)

example : "t" ∈ ((machine Bool 43200).run rebuiltAfter).shared.jti := by decide +kernel

/-- A token is signed out, and written to the mirror, while another instance is about to rebuild the mirror from what it
has read before. -/
def rebuiltLate : List (Action Bool) :=
  .env (.register "ann" "ann") :: (reload ++ signOut ++ [.exec true 0 .done])

/-- The mirror loses the token. -/
theorem mirror_unrevoked :
    (∀ e ∈ (machine Bool 43200).trace rebuiltLate, Faithful (fun _ => 1000000) e) ∧
      ¬MirrorKept (fun _ => 1000000) 43200 rebuiltLate := by
  decide +kernel

end Auth
end WatchParty
