import WatchParty.Auth.Rotation

/-!
# Signing out

`logout` of `auth.controller.ts` behind `JwtAuthGuard`. It records the jti of its token in the row by which a refresh
claims the token, and is content to find the row there. What a sign-out comes to when no refresh has won the row, and the
run in which one has.

- `canActivate` is the guard, `logout` the handler up to `revokeToken`, which the system has from there on;
- `LogoutEnds`: after a sign-out and a reload, neither the token nor what refreshes lead to from it is accepted;
- `InTime` is the condition on a step; `logout_ends` the result, `logout_outlived` the run without it.
-/

namespace WatchParty
namespace Auth

/-- `JwtAuthGuard.canActivate`, of a token that is signed: the user, or why it is refused. -/
def canActivate (payload : SessionToken) (l : Instance) : Except String String :=
  if verify l.clock payload = true then
    match subjectOf payload.toTokenPayload with
    | none => .error "Token is missing a subject"
    | some sub =>
      match l.revocations.isRevoked payload.toTokenPayload with
      | some .token => .error "This session was signed out - sign in again"
      | some .user => .error "All sessions were signed out - sign in again"
      | none => .ok sub
  else .error "Token expired - sign in again"

/-- `logout`, up to `revokeToken`: the row of the token; none where it answers `revoked: false`. -/
def logout (payload : SessionToken) (l : Instance) : Except String (Option RevokedToken) :=
  (canActivate payload l).map fun _ =>
    match jtiOf payload.toTokenPayload, subjectOf payload.toTokenPayload with
    | some jti, some userId =>
      some { jti, userId, expiresAt := payload.exp.getD ((l.clock / 1000 : ℕ) + 43200) * 1000 }
    | _, _ => none

/-- Does an instance accept the token? -/
def accepts (payload : SessionToken) (l : Instance) : Bool := (canActivate payload l).isOk

/-- What is accepted has not expired, and the snapshot does not refuse it. -/
theorem accepts_iff {payload : SessionToken} {l : Instance} :
    accepts payload l = true ↔ verify l.clock payload = true ∧ (subjectOf payload.toTokenPayload).isSome = true ∧
      l.revocations.isRevoked payload.toTokenPayload = none := by
  unfold accepts canActivate
  split
  · rename_i hv
    split
    · rename_i hs
      simp [hs, Except.isOk, Except.toBool]
    · rename_i sub hs
      cases hr : l.revocations.isRevoked payload.toTokenPayload with
      | none => simp [hv, hs, Except.isOk, Except.toBool]
      | some why => cases why <;> simp [Except.isOk, Except.toBool]
  · rename_i hv
    simp [hv, Except.isOk, Except.toBool]

/-- The handshake of a socket lets in no token that the guard refuses. -/
theorem accepts_of_handshake {id : ℕ} {nsp : Namespace} {payload : SessionToken} {l : Instance} {k : Socket}
    (h : wsAuthMiddleware id nsp payload l.clock l.revocations = .ok k) : accepts payload l = true := by
  unfold wsAuthMiddleware at h
  split at h
  · rename_i hv
    split at h
    · cases h
    · rename_i sub hs
      split at h
      · cases h
      · rename_i hr
        exact accepts_iff.mpr ⟨hv, by rw [hs]; rfl, by simpa using hr⟩
  · cases h

/-- The row of a sign-out names the token and its expiry. -/
theorem logout_row {expires : String → ℕ} {payload : SessionToken} {l : Instance} {row : RevokedToken}
    (h : logout payload l = .ok (some row)) :
    payload.jti? = some row.jti ∧ (payload.Dated expires → row.Dated expires) := by
  unfold logout at h
  cases hc : canActivate payload l with
  | error why =>
    rw [hc] at h
    cases h
  | ok sub =>
    rw [hc] at h
    have h := Except.ok.inj h
    split at h
    · rename_i jti userId hj hu
      cases h
      refine ⟨hj, fun hd => ?_⟩
      obtain ⟨exp, hexp, hle⟩ := hd jti hj
      rw [RevokedToken.Dated, show payload.exp = some exp from hexp]
      exact hle
    · cases h

section Events

variable {I : Type}

/-- Does the event record the jti for a sign-out? -/
def records (jti : String) (e : Event I) : Bool :=
  match e.pre.executed e.act with
  | some (_, .upsert row) => row.jti = jti ∧ e.post.shared.revoked jti = true
  | _ => false

/-- Does a refresh win the jti? -/
def wins (jti : String) (e : Event I) : Bool :=
  match e.pre.executed e.act with
  | some (_, .create jti' _) => jti' = jti ∧ e.pre.shared.revoked jti = false ∧ e.post.shared.revoked jti = true
  | _ => false

/-- Does the event answer a sign-out of the jti with `revoked: true`? -/
def answers (jti : String) (e : Event I) : Bool :=
  match e.pre.replied e.act with
  | some (_, ⟨.publish ev .logout, _⟩) => ev = (Revocation.token jti).event
  | _ => false

variable [DecidableEq I]

/-- Does a reload of the instance begin? -/
def begins (i : I) (e : Event I) : Bool :=
  match e.act with
  | .start j .refresh => j = i ∧ (e.pre.node j).loc.revocations.inFlight = false
  | _ => false

/-- Does a reload of the instance replace the snapshot? -/
def installs (i : I) (e : Event I) : Bool :=
  match e.pre.replied e.act with
  | some (j, ⟨p, r⟩) => j = i ∧ (tokensOf ⟨p, some r⟩).isSome = true ∧ (usersOf ⟨p, some r⟩).isSome = true
  | none => false

/-- The first sign-out of the jti has been answered, and the instance has refreshed its snapshot since. -/
def refreshed (jti : String) (i : I) (tr : List (Event I)) : Bool :=
  (Machine.since (begins i) (Machine.since (answers jti) tr)).any (installs i)

/-- **Logout ends the session.** An instance that has refreshed its snapshot since the sign-out accepts neither the token
nor one that refreshes lead to from it. -/
def LogoutEnds (lifetime : ℤ) (jti : String) (payload : SessionToken) (ops : List (Action I)) : Prop :=
  ∀ i, refreshed jti i ((machine I lifetime).trace ops) = true → ∀ token,
    Relation.ReflTransGen (fun p q => (p, q) ∈ ((machine I lifetime).trace ops).filterMap successor) payload token →
      accepts token (((machine I lifetime).run ops).node i).loc = false

omit [DecidableEq I] in
/-- What a step must not do: record a sign-out of a token that a refresh has won, or let a refresh win a token that has
been signed out, when it has expired by every clock. -/
structure InTime (expires : String → ℕ) (jti : String) (tr : List (Event I)) (e : Event I) : Prop where
  record : records jti e = true → ∀ x ∈ tr, wins jti x = false
  win : wins jti e = true → ∀ x ∈ tr, records jti x = true → Alive expires e.pre (.token jti)

instance [Fintype I] (expires : String → ℕ) (jti : String) (tr : List (Event I)) (e : Event I) :
    Decidable (InTime expires jti tr e) :=
  decidable_of_iff ((records jti e = true → ∀ x ∈ tr, wins jti x = false) ∧
      (wins jti e = true → ∀ x ∈ tr, records jti x = true → Alive expires e.pre (.token jti)))
    ⟨fun ⟨h1, h2⟩ => ⟨h1, h2⟩, fun h => ⟨h.record, h.win⟩⟩

end Events

/-! ## Who signs out, and who rotates -/

/-- Has the handler recorded the jti for a sign-out? -/
def signing (jti : String) (t : Pending Reply) : Bool :=
  match t with
  | ⟨.upsert row, some true⟩ => row.jti = jti
  | ⟨.sadd jti' .logout, _⟩ => jti' = jti
  | ⟨.publish ev .logout, _⟩ => ev = (Revocation.token jti).event
  | _ => false

/-- What the events so far say of a handler: a refresh that holds the jti has won it, and a sign-out has recorded it. -/
structure Owed {I : Type} (jti : String) (tr : List (Event I)) (t : Pending Reply) : Prop where
  held : holds jti t = true → ∃ e ∈ tr, wins jti e = true
  signed : signing jti t = true → ∃ e ∈ tr, records jti e = true

section Steps

variable {expires : String → ℕ} {jti : String} {I : Type} [DecidableEq I] {lifetime : ℤ} {s s' : State I} {a : Action I}
  {o : Output I} {tr : List (Event I)}

omit [DecidableEq I] in
theorem Owed.mono {tr' : List (Event I)} {t : Pending Reply} (h : Owed jti tr t) (hs : tr ⊆ tr') : Owed jti tr' t where
  held ht := (h.held ht).imp fun _ he => ⟨hs he.1, he.2⟩
  signed ht := (h.signed ht).imp fun _ he => ⟨hs he.1, he.2⟩

/-- A handler that a request leaves has recorded nothing. -/
theorem start_signing (jti : String) {req : Request} {l : Instance} {p : Point} (h : (start req l).next = .await p) :
    signing jti ⟨p, none⟩ = false := by
  cases start_opens h <;> rfl

/-- A command makes a handler one that has recorded the jti only by its upsert, after which the row is there. -/
theorem exec_signing (jti : String) (p : Point) (x : Choice) (s : Store) :
    signing jti ⟨p, some (exec p x s).1⟩ = signing jti ⟨p, none⟩ ∨
      ∃ row, p = .upsert row ∧ (signing jti ⟨p, some (exec p x s).1⟩ = true →
        row.jti = jti ∧ (exec p x s).2.revoked jti = true) := by
  cases p with
  | upsert row =>
    refine Or.inr ⟨row, rfl, fun h => ?_⟩
    cases hr : (exec (.upsert row) x s).1 with
    | false =>
      rw [hr] at h
      cases h
    | true =>
      rw [hr] at h
      have hj : row.jti = jti := of_decide_eq_true h
      have hw : writtenBy ⟨.upsert row, some (exec (.upsert row) x s).1⟩ = some (.token row.jti) := by
        rw [hr]
        rfl
      have hc : Committed (fun _ => 1) 0 (exec (.upsert row) x s).2 (.token row.jti) := exec_written hw
      exact ⟨hj, hj ▸ hc Nat.one_pos⟩
  | sadd jti' c | publish ev c => exact Or.inl (by cases c <;> rfl)
  | _ => exact Or.inl rfl

/-- After a reply, a handler has recorded the jti only if it had before. -/
theorem resume_signing {p q : Point} {r : Reply p} {l : Instance} (hn : (resume lifetime p r l).next = .await q)
    (h : signing jti ⟨q, none⟩ = true) : signing jti ⟨p, some r⟩ = true := by
  cases resume_continues hn with
  | upsert row => exact h
  | sadd jti' c =>
    cases c with
    | logout =>
      have hj : (Revocation.token jti').event = (Revocation.token jti).event := of_decide_eq_true h
      exact decide_eq_true (Option.some.inj (RevocationEvent.token.inj hj))
    | _ => cases h
  | hset userId version c =>
    cases c with
    | logout =>
      have hj : (Revocation.user userId version).event = (Revocation.token jti).event := of_decide_eq_true h
      cases hj
    | _ => cases h
  | _ => cases h

/-- Only the creation of its row makes a handler hold a jti. -/
theorem holds_create {p : Point} {r : Reply p} (hold : holds jti ⟨p, none⟩ = false)
    (h : holds jti ⟨p, some r⟩ = true) : ∃ k, p = .create jti k := by
  cases p with
  | create jti' k =>
    cases r with
    | won => exact ⟨k, congrArg (Point.create · k) (of_decide_eq_true h)⟩
    | _ => cases h
  | sadd jti' c | hset userId version c | publish ev c => cases c <;> simp_all [holds]
  | _ => cases h

/-- **One step** leaves no handler that holds the jti, or has recorded it, without the event in which it did. -/
theorem owed_step (hs : Step lifetime s a o s') (ht : ∀ i, ∀ t ∈ (s.node i).tasks, Traced tr t)
    (hI : ∀ i, ∀ t ∈ (s.node i).tasks, Owed jti tr t) :
    ∀ i, ∀ t ∈ (s'.node i).tasks, Owed jti (tr ++ [⟨s, a, o, s'⟩]) t := by
  have hlast : (⟨s, a, o, s'⟩ : Event I) ∈ tr ++ [⟨s, a, o, s'⟩] := List.mem_append_right _ (List.mem_singleton_self _)
  intro i t htask
  rcases Tasks.mem_tasks hs htask with h | ⟨p, x, hx, hp, rfl, hk⟩ | ⟨d, u, p, hb, hn, rfl, -⟩
  · exact (hI i t h).mono (List.subset_append_left _ _)
  · have hI := (hI i _ hp).mono (List.subset_append_left tr [⟨s, a, o, s'⟩])
    have hk : s'.shared = (exec p x s.shared).2 := hk
    refine ⟨fun h => ?_, fun h => ?_⟩
    · rcases exec_holds jti p x s.shared with heq | ⟨hnone, habsent, hpresent⟩
      · exact hI.held (heq.symm.trans h)
      · obtain ⟨k, rfl⟩ := holds_create hnone h
        refine ⟨_, hlast, ?_⟩
        simp only [wins, hx, hk, habsent, hpresent, and_self, decide_true]
    · rcases exec_signing jti p x s.shared with heq | ⟨row, rfl, hrow⟩
      · exact hI.signed (heq.symm.trans h)
      · obtain ⟨hj, hpresent⟩ := hrow h
        refine ⟨_, hlast, ?_⟩
        simp only [records, hx, hk, hj, hpresent, and_self, decide_true]
  · cases hb with
    | start req hm =>
      have hnone := start_holds jti req (s.node i).loc
      rw [show (start req (s.node i).loc).next = .await p from hn] at hnone
      refine ⟨fun h => ?_, fun h => ?_⟩
      · rw [show holds jti ⟨p, none⟩ = false from hnone] at h
        cases h
      · rw [start_signing jti hn] at h
        cases h
    | resume pre post q r hm hc =>
      have hq : ⟨q, some r⟩ ∈ (s.node i).tasks := Office.replied_mem hm
      have hI := (hI i _ hq).mono (List.subset_append_left tr [⟨s, a, o, s'⟩])
      have hle := @resume_holds _ lifetime _ jti _ _ (s.node i).loc (ht i _ hq)
      rw [show (resume lifetime q r (s.node i).loc).next = .await p from hn] at hle
      refine ⟨fun h => hI.held ?_, fun h => hI.signed (resume_signing hn h)⟩
      rw [show (Option.any (fun p => holds jti ⟨p, none⟩) (Next.point? (.await p : Next Point Empty))) = true from h] at hle
      by_contra hne
      rw [Bool.not_eq_true] at hne
      rw [hne] at hle
      exact absurd ((Nat.le_add_right _ _).trans hle) (by decide)
    | enter q => exact nomatch q

/-- A successor is returned for a refresh that has won its token. -/
theorem minted_step (hs : Step lifetime s a o s') (ht : ∀ i, ∀ t ∈ (s.node i).tasks, Traced tr t)
    (hI : ∀ i, ∀ t ∈ (s.node i).tasks, Owed jti tr t) {q : SessionToken × SessionToken}
    (hq : successor ⟨s, a, o, s'⟩ = some q) (hj : succeeds jti q = true) : ∃ e ∈ tr, wins jti e = true := by
  obtain ⟨i, p, r, k, hr, hk, rfl⟩ := successor_from hs hq
  have hmem := Office.replied_mem hr
  have hle := @resume_holds _ lifetime _ jti _ _ (s.node i).loc (ht i _ hmem)
  rw [hk, Option.map_some, Option.any_some, hj] at hle
  refine (hI i _ hmem).held ?_
  by_contra hne
  rw [Bool.not_eq_true] at hne
  rw [hne] at hle
  exact absurd ((Nat.le_add_left _ _).trans hle) (by decide)

omit [DecidableEq I] in
/-- A sign-out is answered when it has recorded its token. -/
theorem answered_step (hI : ∀ i, ∀ t ∈ (s.node i).tasks, Owed jti tr t) (h : answers jti ⟨s, a, o, s'⟩ = true) :
    ∃ e ∈ tr, records jti e = true := by
  unfold answers at h
  split at h
  · rename_i i ev r hr
    exact (hI i _ (Office.replied_mem hr)).signed h
  · cases h

omit [DecidableEq I] in
theorem of_records {e : Event I} (h : records jti e = true) :
    (∃ i row, e.pre.executed e.act = some (i, .upsert row)) ∧ e.post.shared.revoked jti = true := by
  unfold records at h
  split at h
  · rename_i i row hx
    exact ⟨⟨i, row, hx⟩, (of_decide_eq_true h).2⟩
  · cases h

omit [DecidableEq I] in
theorem of_wins {e : Event I} (h : wins jti e = true) :
    (∃ i k, e.pre.executed e.act = some (i, .create jti k)) ∧ e.pre.shared.revoked jti = false := by
  unfold wins at h
  split at h
  · rename_i i jti' k hx
    obtain ⟨hj, hnone, -⟩ := of_decide_eq_true h
    exact ⟨⟨i, k, hj ▸ hx⟩, hnone⟩
  · cases h

/-- No refresh has won the jti, and its row is there for as long as some instance takes the token for valid. -/
structure Recorded (expires : String → ℕ) (jti : String) (tr : List (Event I)) (s : State I) : Prop where
  unclaimed : ∀ e ∈ tr, wins jti e = false
  row : Alive expires s (.token jti) → s.shared.revoked jti = true

/-- **One step** that is in time keeps a sign-out recorded, or records it. -/
theorem recorded_step (hs : Step lifetime s a o s') (hd : DeletesExpired expires ⟨s, a, o, s'⟩)
    (hc : InTime expires jti tr ⟨s, a, o, s'⟩) (hI : (∃ e ∈ tr, records jti e = true) → Recorded expires jti tr s)
    (h : ∃ e ∈ tr ++ [⟨s, a, o, s'⟩], records jti e = true) : Recorded expires jti (tr ++ [⟨s, a, o, s'⟩]) s' := by
  obtain ⟨x, hx, hrec⟩ := h
  rcases List.mem_append.mp hx with hx | hx
  · -- the row is still there, so no create wins it
    have hI := hI ⟨x, hx, hrec⟩
    refine ⟨List.forall_mem_append.mpr ⟨hI.unclaimed, List.forall_mem_singleton.mpr ?_⟩, fun halive => ?_⟩
    · by_contra hw
      rw [Bool.not_eq_false] at hw
      have hrow := hI.row (hc.win hw x hx hrec)
      rw [show s.shared.revoked jti = false from (of_wins hw).2] at hrow
      cases hrow
    · have halive := alive_step hs halive
      exact row_kept hs hd halive (hI.row halive)
  · cases List.mem_singleton.mp hx
    obtain ⟨⟨i, row, hup⟩, hpost⟩ := of_records hrec
    refine ⟨List.forall_mem_append.mpr ⟨hc.record hrec, List.forall_mem_singleton.mpr ?_⟩, fun _ => hpost⟩
    by_contra hw
    rw [Bool.not_eq_false] at hw
    obtain ⟨⟨j, k, hcreate⟩, -⟩ := of_wins hw
    rw [hup] at hcreate
    cases hcreate

end Steps

/-! ## What a reload reads -/

/-- A reload of the instance has begun since the first sign-out of the jti was answered. -/
def begun {I : Type} [DecidableEq I] (jti : String) (i : I) (tr : List (Event I)) : Bool :=
  (Machine.since (answers jti) tr).any (begins i)

section Reloads

variable {expires : String → ℕ} {jti : String} {I : Type} [DecidableEq I] {lifetime : ℤ} {s s' : State I} {a : Action I}
  {o : Output I} {tr : List (Event I)} {i : I}

/-- A step at which a reload begins finds none under way. -/
theorem quiet_of_begins (hI : AllKept expires s) (h : begins i ⟨s, a, o, s'⟩ = true) :
    a = .start i .refresh ∧ ∀ t ∈ (s.node i).tasks, tokensOf t = none := by
  unfold begins at h
  split at h
  · rename_i j ha
    obtain ⟨rfl, hf⟩ := of_decide_eq_true h
    refine ⟨ha, fun t ht => (reads_elsewhere ?_).1⟩
    have halone := (hI.2 j).alone
    rw [show (s.node j).loc.revocations.inFlight = false from hf] at halone
    simpa using List.countP_eq_zero.mp halone t ht
  · cases h

omit [DecidableEq I] in
/-- The tokens that a stretch leaves to a handler have been read by the task that it answers. -/
theorem tokens_from {d : Desk Instance Empty Reply} {u : Stretch} {p : Point} {tokens : Finset String}
    (hb : Tasks.Begins (service lifetime) s a i d u) (hn : u.next = .await p) (h : tokensOf ⟨p, none⟩ = some tokens) :
    ∃ t ∈ (s.node i).tasks, tokensOf t = some tokens := by
  obtain ⟨x, told, hran⟩ := ran_of_begins hb
  have he := hran.effect
  rw [hn] at he
  generalize u.loc.revocations = r' at he
  cases he with
  | keep ht hp =>
    rw [(reads_elsewhere (by simpa [Next.point?] using hp)).1] at h
    cases h
  | remember rev hrev ht hp =>
    rw [(reads_elsewhere (by simpa [Next.point?] using hp)).1] at h
    cases h
  | begin cutoff ht hf => cases h
  | read y p ht hy hp htokens husers hread => exact ⟨y, hran.mem.mpr (Or.inl ht), htokens.symm.trans h⟩
  | install y tokens' users ht hy htokens husers => cases h

omit [DecidableEq I] in
/-- As long as the token has not expired by the clock of the instance, what a reload has read there has its jti. -/
def Reads (expires : String → ℕ) (jti : String) (d : Desk Instance Empty Reply) : Prop :=
  d.loc.clock < expires jti → ∀ t ∈ d.tasks, ∀ tokens, tokensOf t = some tokens → jti ∈ tokens

/-- **One step** of a reload that has begun since the sign-out reads the jti. -/
theorem reading_step (hs : Step lifetime s a o s') (hk : AllKept expires s)
    (hrow : begun jti i tr = true → (s.node i).loc.clock < expires jti → s.shared.revoked jti = true)
    (hI : begun jti i tr = true → Reads expires jti (s.node i))
    (h : begun jti i (tr ++ [⟨s, a, o, s'⟩]) = true) : Reads expires jti (s'.node i) := by
  intro hlt t ht tokens htokens
  have hlt := (clock_step hs i).trans_lt hlt
  rw [begun, Machine.any_since_snoc, Bool.or_eq_true, Bool.and_eq_true] at h
  rcases h with h | ⟨-, h⟩
  · rcases Tasks.mem_tasks hs ht with hold | ⟨p, x, -, hp, rfl, -⟩ | ⟨d, u, p, hb, hn, rfl, -⟩
    · exact hI h hlt t hold tokens htokens
    · rcases exec_tokens p x s.shared with hsame | ⟨-, cutoff, hcut, hread⟩
      · exact hI h hlt _ hp tokens (hsame.trans htokens)
      · obtain rfl := Option.some.inj (hread.symm.trans htokens)
        exact (mem_tokens hk.1 (((hk.2 i).tasks _ hp).cutoff cutoff hcut) hlt).mpr (hrow h hlt)
    · obtain ⟨t, ht, htokens⟩ := tokens_from hb hn htokens
      exact hI h hlt t ht tokens htokens
  · obtain ⟨rfl, hquiet⟩ := quiet_of_begins hk h
    rcases Tasks.mem_tasks hs ht with hold | ⟨p, x, hx, -⟩ | ⟨d, u, p, hb, hn, rfl, -⟩
    · rw [hquiet t hold] at htokens
      cases htokens
    · cases hx
    · obtain ⟨t, ht, htokens⟩ := tokens_from hb hn htokens
      rw [hquiet t ht] at htokens
      cases htokens

omit [DecidableEq I] in
/-- A reload that has read both replaces the snapshot. -/
theorem resume_installs {p : Point} {r : Reply p} {tokens : Finset String} {users : String → Option ℕ}
    (htokens : tokensOf ⟨p, some r⟩ = some tokens) (husers : usersOf ⟨p, some r⟩ = some users) (l : Instance) :
    (resume lifetime p r l).loc.revocations = l.revocations.install tokens users := by
  cases p with
  | reload cutoff => cases r <;> simp_all [tokensOf, usersOf]
  | readUsers tokens' =>
    cases r <;> cases husers
    cases htokens
    rfl
  | readTokens cutoff users' =>
    cases r <;> cases htokens
    cases husers
    rfl
  | _ => cases htokens

/-- **One step** keeps the jti in a snapshot that has been refreshed since the sign-out. -/
theorem refreshed_step (hs : Step lifetime s a o s') (hf : Faithful expires ⟨s, a, o, s'⟩) (hk : AllKept expires s)
    (hread : begun jti i tr = true → Reads expires jti (s.node i))
    (hI : refreshed jti i tr = true → (s.node i).loc.clock < expires jti →
      jti ∈ (s.node i).loc.revocations.revokedTokens)
    (h : refreshed jti i (tr ++ [⟨s, a, o, s'⟩]) = true) (hlt : (s'.node i).loc.clock < expires jti) :
    jti ∈ (s'.node i).loc.revocations.revokedTokens := by
  have hlt' := (clock_step hs i).trans_lt hlt
  rw [refreshed, Machine.any_since_since_snoc, Machine.any_since_snoc, Bool.or_eq_true, Bool.and_eq_true,
    Bool.or_eq_true, Bool.and_eq_true] at h
  rcases h with h | ⟨h | ⟨-, h⟩, hi⟩
  · exact ((kept_step hs hf hk).2 i).token jti hlt (hI h hlt')
  · unfold installs at hi
    split at hi
    · rename_i j p r hr
      obtain ⟨rfl, htokens, husers⟩ := of_decide_eq_true hi
      obtain ⟨tokens, htokens⟩ := Option.isSome_iff_exists.mp htokens
      obtain ⟨users, husers⟩ := Option.isSome_iff_exists.mp husers
      obtain ⟨d, hnode, -⟩ := Tasks.replied_step hs hr
      rw [hnode, Desk.after_loc, show (service lifetime).resume = resume lifetime from rfl,
        resume_installs htokens husers]
      exact Finset.mem_union_left _ (hread h hlt' _ (Office.replied_mem hr) tokens htokens)
    · cases hi
  · obtain ⟨rfl, -⟩ := quiet_of_begins hk h
    cases hi

end Reloads

/-! ## Runs -/

section Runs

variable {expires : String → ℕ} {jti : String} {I : Type} [DecidableEq I] {lifetime : ℤ} {s s' : State I} {a : Action I}
  {o : Output I} {tr : List (Event I)}

/-- What a run keeps in which every step is in time. -/
structure SignedOff (expires : String → ℕ) (jti : String) (tr : List (Event I)) (s : State I) : Prop where
  kept : AllKept expires s
  traced : ∀ i, ∀ t ∈ (s.node i).tasks, Traced tr t
  owed : ∀ i, ∀ t ∈ (s.node i).tasks, Owed jti tr t
  minted : ∀ q ∈ tr.filterMap successor, succeeds jti q = true → ∃ e ∈ tr, wins jti e = true
  answered : tr.any (answers jti) = true → ∃ e ∈ tr, records jti e = true
  recorded : (∃ e ∈ tr, records jti e = true) → Recorded expires jti tr s
  reading : ∀ i, begun jti i tr = true → Reads expires jti (s.node i)
  refreshed : ∀ i, refreshed jti i tr = true → (s.node i).loc.clock < expires jti →
    jti ∈ (s.node i).loc.revocations.revokedTokens

theorem signedOff_init : SignedOff expires jti [] (machine I lifetime).init where
  kept := allKept_init
  traced _ _ h := absurd h List.not_mem_nil
  owed _ _ h := absurd h List.not_mem_nil
  minted _ h := absurd h List.not_mem_nil
  answered h := nomatch h
  recorded h := absurd h.choose_spec.1 List.not_mem_nil
  reading _ h := nomatch h
  refreshed _ h := nomatch h

/-- **One step** that is in time keeps a token signed off. -/
theorem signedOff_step (hs : Step lifetime s a o s') (hf : Faithful expires ⟨s, a, o, s'⟩)
    (hc : InTime expires jti tr ⟨s, a, o, s'⟩) (hI : SignedOff expires jti tr s) :
    SignedOff expires jti (tr ++ [⟨s, a, o, s'⟩]) s' where
  kept := (kept_step hs hf hI.kept).1
  traced := traced_step hs hI.traced
  owed := owed_step hs hI.traced hI.owed
  minted q hq hj := by
    have hwon : ∃ e ∈ tr, wins jti e = true := by
      rw [List.filterMap_append, List.mem_append] at hq
      rcases hq with hq | hq
      · exact hI.minted q hq hj
      · obtain ⟨e, he, hq⟩ := List.mem_filterMap.mp hq
        cases List.mem_singleton.mp he
        exact minted_step hs hI.traced hI.owed hq hj
    exact hwon.imp fun _ he => ⟨List.mem_append_left _ he.1, he.2⟩
  answered h := by
    have hrec : ∃ e ∈ tr, records jti e = true := by
      rw [List.any_append, Bool.or_eq_true] at h
      rcases h with h | h
      · exact hI.answered h
      · obtain ⟨e, he, h⟩ := List.any_eq_true.mp h
        cases List.mem_singleton.mp he
        exact answered_step hI.owed h
    exact hrec.imp fun _ he => ⟨List.mem_append_left _ he.1, he.2⟩
  recorded := recorded_step hs hf.deleted hc hI.recorded
  reading i := reading_step hs hI.kept
    (fun hb hlt => (hI.recorded (hI.answered (Machine.any_of_since hb))).row ⟨i, hlt⟩) (hI.reading i)
  refreshed i := refreshed_step hs hf hI.kept (hI.reading i) (hI.refreshed i)

end Runs

/-- **Logout ends the session** in a run in which no sign-out of the token is recorded once a refresh has won it, and no
refresh wins it, once it has been signed out, after it has expired by every clock. -/
theorem logout_ends {I : Type} [DecidableEq I] (lifetime : ℤ) (expires : String → ℕ) (jti : String)
    (payload : SessionToken) (ops : List (Action I)) (hjti : payload.jti? = some jti)
    (hexp : ∃ exp ∈ payload.exp, exp * 1000 ≤ (expires jti : ℤ))
    (hf : ∀ e ∈ (machine I lifetime).trace ops, Faithful expires e)
    (h : Machine.Always (InTime expires jti) ((machine I lifetime).trace ops)) : LogoutEnds lifetime jti payload ops := by
  have hI : SignedOff expires jti ((machine I lifetime).trace ops) ((machine I lifetime).run ops) := by
    refine (machine I lifetime).invariant_under
      (C := fun tr => (∀ e ∈ tr, Faithful expires e) ∧ Machine.Always (InTime expires jti) tr) ?_ signedOff_init ?_ ops
      ⟨hf, h⟩
    · exact fun tr e hc => ⟨Machine.forall_mem_of_snoc hc.1, (Machine.always_snoc.mp hc.2).1⟩
    · exact fun tr s a hc hI => signedOff_step ((service lifetime).step_cases s a) (Machine.last_of_snoc hc.1)
        (Machine.always_snoc.mp hc.2).2 hI
  intro i hi token hlead
  have hrec := hI.recorded (hI.answered (Machine.any_of_since (Machine.any_of_since hi)))
  -- no refresh has won the token, so it has no successor
  have hself : token = payload := by
    rcases hlead.cases_head with heq | ⟨q, hq, -⟩
    · exact heq.symm
    · obtain ⟨e, he, hwin⟩ := hI.minted _ hq (decide_eq_true hjti)
      rw [hrec.unclaimed e he] at hwin
      cases hwin
  subst hself
  by_contra ha
  rw [Bool.not_eq_false] at ha
  obtain ⟨hv, -, hnot⟩ := accepts_iff.mp ha
  obtain ⟨exp, hexp, hle⟩ := hexp
  have hlt : (((machine I lifetime).run ops).node i).loc.clock < expires jti := by
    rw [verify, show token.exp = some exp from hexp] at hv
    have hv := of_decide_eq_true hv
    omega
  have hheld := @isRevoked_of_held _ (.token jti) _ (hI.refreshed i hi hlt) hjti
  rw [hnot] at hheld
  cases hheld

/-- A token of an account, signed when the clocks start. -/
def session : SessionToken :=
  { sub := some (.str "ann"), jti := some (.str "t"), ver := some (.num ⟨false, 0, [], none⟩), sess := some 0,
    iat := some 0, exp := some 43200 }

/-- What a refresh of the token returns. -/
def heir : SessionToken := { session with jti := some (.str "u") }

/-- A reload of an instance. -/
def reloading (i : Bool) : List (Action Bool) :=
  [.start i .refresh, .exec i 0 .done, .deliver i 0, .exec i 0 .done, .deliver i 0, .exec i 0 .done, .deliver i 0]

/-- An account, and two instances that have loaded their snapshots. -/
def booted : List (Action Bool) := .env (.register "ann" "ann") :: (reloading false ++ reloading true)

/-- A sign-out on an instance. -/
def leaving (i : Bool) : List (Action Bool) := .start i (.revokeToken ⟨"t", "ann", 43200000⟩) :: claiming i

/-- A refresh of the token on an instance, up to the creation of the row. -/
def renewing (i : Bool) : List (Action Bool) :=
  [.start i (.refreshSession session "u"), .exec i 0 .done, .deliver i 0, .exec i 0 .done, .deliver i 0]

/-- A sign-out comes while a refresh is about to create the row, and then both instances reload. -/
def leftFirst : List (Action Bool) :=
  booted ++ renewing false ++ leaving true ++ claiming false ++ reloading false ++ reloading true

/-- No instance accepts the token any more. -/
theorem logout_ends_leftFirst : LogoutEnds 43200 "t" session leftFirst :=
  logout_ends 43200 (fun _ => 43200000) "t" session leftFirst rfl ⟨43200, rfl, by decide⟩ (by decide +kernel)
    (by decide +kernel)

example : ∀ i, refreshed "t" i ((machine Bool 43200).trace leftFirst) = true := by decide +kernel

/-- The same, but the row is created before the sign-out comes. -/
def leftSecond : List (Action Bool) :=
  booted ++ renewing false ++ [.exec false 0 .done] ++ leaving true ++ (claiming false).tail ++ reloading false ++
    reloading true

set_option maxRecDepth 20000 in
/-- The sign-out is answered with `revoked: true`, both instances reload, and both accept what the refresh returns. -/
theorem logout_outlived :
    ((∀ e ∈ (machine Bool 43200).trace leftSecond, Faithful (fun _ => 43200000) e) ∧
      (∃ e ∈ (machine Bool 43200).trace leftSecond, started e.act = some (true, .revokeToken ⟨"t", "ann", 43200000⟩) ∧
        logout session (e.pre.node true).loc = .ok (some ⟨"t", "ann", 43200000⟩)) ∧
      (∀ i, refreshed "t" i ((machine Bool 43200).trace leftSecond) = true) ∧
      (session, heir) ∈ ((machine Bool 43200).trace leftSecond).filterMap successor ∧
      ∀ i, accepts heir (((machine Bool 43200).run leftSecond).node i).loc = true) ∧
    ¬LogoutEnds 43200 "t" session leftSecond := by
  have hrefreshed : ∀ i, refreshed "t" i ((machine Bool 43200).trace leftSecond) = true := by decide +kernel
  have hheir : (session, heir) ∈ ((machine Bool 43200).trace leftSecond).filterMap successor :=
    List.mem_of_getElem? (i := 0) (by with_unfolding_all rfl)
  have haccepts : ∀ i, accepts heir (((machine Bool 43200).run leftSecond).node i).loc = true := by decide +kernel
  refine ⟨⟨by decide +kernel, ?_, hrefreshed, hheir, haccepts⟩, fun h => ?_⟩
  · exact ⟨_, List.mem_of_getElem? (i := 21) rfl, rfl, by decide +kernel⟩
  · have hnot := h true (hrefreshed true) heir (.single hheir)
    rw [haccepts true] at hnot
    cases hnot

end Auth
end WatchParty
