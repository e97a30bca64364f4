import Mathlib
import WatchParty.Auth.Effects
import WatchParty.Lib.Reload

/-!
# The revocation snapshot never un-revokes

What an instance has remembered after its write to the database it refuses until the token expires, over every
interleaving of its reloads with its own revocations, those of the other instances and the messages.

- `Aspect`: the snapshot of a token and that of a user, as views that the same effects act on;
- `Faithful` is what the database, the callers and the messages promise;
- `Kept` is the invariant of an instance, `kept_step` the step lemma, `snapshot_never_unrevokes` the result.
-/

namespace WatchParty
namespace Auth

/-- A view of the snapshot that is kept up by reloads: what is live and pending of it, what a reload has read of it, and
what a revocation adds to it. -/
structure Aspect (L : Type) [SemilatticeSup L] [OrderBot L] where
  B : Type
  live : Revocations → L
  pending : Revocations → L
  value : B → L
  reads : Pending Reply → Option B
  adds : Revocation → L
  live_remember (rev : Revocation) (r : Revocations) : live (rev.remember r) = live r ⊔ adds rev
  pending_remember (rev : Revocation) (r : Revocations) :
    pending (rev.remember r) = if r.refreshing then pending r ⊔ adds rev else pending r
  begin (r : Revocations) : live r.beginReload = live r ∧ pending r.beginReload = ⊥
  settle (r : Revocations) : live r.endReload = live r ∧ pending r.endReload = ⊥
  install {x : Pending Reply} {tokens : Finset String} {users : String → Option ℕ} (htokens : tokensOf x = some tokens)
    (husers : usersOf x = some users) (r : Revocations) :
    ∃ b, reads x = some b ∧ live (r.install tokens users) = value b ⊔ pending r ∧
      pending (r.install tokens users) = pending r
  congr {x y : Pending Reply} (htokens : tokensOf x = tokensOf y) (husers : usersOf x = usersOf y) : reads x = reads y
  unread {x : Pending Reply} (htokens : tokensOf x = none) (husers : usersOf x = none) : reads x = none

/-- The view, as a reload with what has been read. -/
def Aspect.view {L : Type} [SemilatticeSup L] [OrderBot L] (V : Aspect L) (r : Revocations) (q : Option V.B) :
    Reload L :=
  { live := V.live r, pending := V.pending r, marked := r.refreshing, read := q.map V.value }

/-- A task of a handler that is no reload has read nothing. -/
theorem reads_elsewhere {x : Pending Reply} (h : x.point.reloading = false) :
    tokensOf x = none ∧ usersOf x = none := by
  constructor
  · unfold tokensOf
    split <;> first | rfl | cases h
  · unfold usersOf
    split <;> first | rfl | cases h

/-! ## Tokens and versions -/

/-- The version of a user: absent is zero. -/
def level (versions : String → Option ℕ) (userId : String) : ℕ := (versions userId).getD 0

/-- Raising one user's version joins it to that user's level, and leaves the others alone. -/
theorem level_raise (versions : String → Option ℕ) (userId userId' : String) (version : ℕ) :
    level (Revocations.raise userId version versions) userId' =
      level versions userId' ⊔ (if userId' = userId then version else 0) := by
  unfold Revocations.raise level
  by_cases hu : userId' = userId
  · subst hu
    rw [if_pos rfl]
    split
    · rename_i hlt
      rw [Function.update_self, Option.getD_some]
      omega
    · omega
  · rw [if_neg hu]
    split
    · rw [Function.update_of_ne hu]
      omega
    · omega

/-- What is taken over is what was read, joined to what is pending. -/
theorem level_mergeVersions (users pending : String → Option ℕ) (userId : String) :
    level (Revocations.mergeVersions users pending) userId = level users userId ⊔ level pending userId := by
  simp only [level, Revocations.mergeVersions]
  cases pending userId with
  | none => exact (Nat.max_zero _).symm
  | some version => rfl

/-- What a revocation adds to the view of a token. -/
def Revocation.ofToken (jti : String) : Revocation → Prop
  | .token jti' => jti = jti'
  | .user _ _ => False

/-- What a revocation adds to the view of a user. -/
def Revocation.ofUser (userId : String) : Revocation → ℕ
  | .token _ => 0
  | .user userId' version => if userId = userId' then version else 0

/-- The snapshot of a token. -/
def Aspect.token (jti : String) : Aspect Prop where
  B := Finset String
  live r := jti ∈ r.revokedTokens
  pending r := jti ∈ r.pendingTokens
  value tokens := jti ∈ tokens
  reads := tokensOf
  adds := Revocation.ofToken jti
  live_remember rev r := by
    cases rev with
    | token jti' => simp [Revocation.remember, Revocations.rememberToken, Revocation.ofToken, or_comm]
    | user userId version => simp [Revocation.remember, Revocations.rememberVersion, Revocation.ofToken]
  pending_remember rev r := by
    cases rev with
    | token jti' =>
      cases hr : r.refreshing <;>
        simp [Revocation.remember, Revocations.rememberToken, Revocation.ofToken, hr, or_comm]
    | user userId version => simp [Revocation.remember, Revocations.rememberVersion, Revocation.ofToken]
  begin r := ⟨rfl, by simp [Revocations.beginReload]⟩
  settle r := ⟨rfl, by simp [Revocations.endReload]⟩
  install htokens _ r := ⟨_, htokens, by simp [Revocations.install], rfl⟩
  congr htokens _ := htokens
  unread htokens _ := htokens

/-- The snapshot of a user. -/
def Aspect.version (userId : String) : Aspect ℕ where
  B := String → Option ℕ
  live r := level r.userVersions userId
  pending r := level r.pendingVersions userId
  value users := level users userId
  reads := usersOf
  adds := Revocation.ofUser userId
  live_remember rev r := by
    cases rev with
    | token jti => simp [Revocation.remember, Revocations.rememberToken, Revocation.ofUser]
    | user userId' version => exact level_raise _ _ _ _
  pending_remember rev r := by
    cases rev with
    | token jti => simp [Revocation.remember, Revocations.rememberToken, Revocation.ofUser]
    | user userId' version =>
      cases hr : r.refreshing
      · simp [Revocation.remember, Revocations.rememberVersion, hr]
      · simp only [Revocation.remember, Revocations.rememberVersion, hr, if_true]
        exact level_raise _ _ _ _
  begin r := ⟨rfl, rfl⟩
  settle r := ⟨rfl, rfl⟩
  install _ husers r := ⟨_, husers, level_mergeVersions _ _ _, rfl⟩
  congr _ husers := husers
  unread _ husers := husers

namespace Aspect

variable {L : Type} [SemilatticeSup L] [OrderBot L] (V : Aspect L) {src : L} {r r' : Revocations}
  {x : Option (Pending Reply)} {told : Option Revocation} {n : Next Point Empty}

/-- The view is sound with what a task has read. -/
def SoundFor (src : L) (r : Revocations) (y : Pending Reply) : Prop := (V.view r (V.reads y)).Sound src

variable {V}

theorem soundFor_elsewhere {y : Pending Reply} (hy : y.point.reloading = false) :
    V.SoundFor src r y ↔ (V.view r none).Sound src := by
  obtain ⟨htokens, husers⟩ := reads_elsewhere hy
  rw [SoundFor, V.unread htokens husers]

theorem SoundFor.none {y : Pending Reply} (h : V.SoundFor src r y) : (V.view r none).Sound src :=
  .of_read_eq_none h.live h.pending rfl

theorem SoundFor.of_reads {y y' : Pending Reply} (h : V.SoundFor src r y) (he : V.reads y = V.reads y') :
    V.SoundFor src r y' := by
  rw [SoundFor, ← he]
  exact h

/-- A task that has read the source keeps the view sound. -/
theorem SoundFor.load {y : Pending Reply} {b : V.B} (hr : V.reads y = some b) (hb : V.value b = src)
    (hm : r.refreshing = true) (h : (V.view r Option.none).Sound src) : V.SoundFor src r y := by
  rw [SoundFor, hr]
  have hstep : Reload.Step src (V.view r Option.none) _ := .load hm
  have hload := (hstep.sound h).1
  rw [← hb] at hload ⊢
  exact hload

theorem view_remember (rev : Revocation) (q : Option V.B) :
    V.view (rev.remember r) q = (V.view r q).remember (V.adds rev) := by
  have hmark : (rev.remember r).refreshing = r.refreshing := by cases rev <;> rfl
  unfold view
  rw [hmark, V.live_remember, V.pending_remember]
  cases hr : r.refreshing <;> rfl

/-- **What an effect does to a view**: it stays sound, and nothing is taken back. -/
theorem sound_effect (he : Effect r x told r' n) (h : (V.view r none).Sound src)
    (hx : ∀ y, x = some y → V.SoundFor src r y) (htold : ∀ rev, told = some rev → V.adds rev ≤ src) :
    (V.view r' none).Sound src ∧ V.live r ≤ V.live r' := by
  cases he with
  | keep ht hn => exact ⟨h, le_rfl⟩
  | remember rev hrev ht hn =>
    rw [view_remember, V.live_remember]
    exact ⟨((Reload.Step.remember _ (htold rev hrev)).sound h).1, le_sup_left⟩
  | begin cutoff ht hf =>
    obtain ⟨hlive, hpending⟩ := V.begin r
    exact ⟨.of_read_eq_none (hlive.trans_le h.live) (hpending.trans_le bot_le) rfl, hlive.ge⟩
  | read y p ht hy hp htokens husers hread => exact ⟨h, le_rfl⟩
  | install y tokens users ht hy htokens husers =>
    obtain ⟨b, hb, hlive, hpending⟩ := V.install htokens husers r
    have hs := hx y ht
    rw [SoundFor, hb] at hs
    obtain ⟨-, hle, hcover⟩ := hs.read _ rfl
    rw [hlive]
    refine ⟨.of_read_eq_none ?_ (hpending.trans_le h.pending) rfl, hcover⟩
    exact hlive.trans_le (sup_le hle h.pending)
  | settle y ht hy =>
    obtain ⟨hlive, hpending⟩ := V.settle r
    exact ⟨.of_read_eq_none (hlive.trans_le h.live) (hpending.trans_le bot_le) rfl, hlive.ge⟩

/-- A task that the stretch does not answer keeps the view sound, when no reload ends or begins beside it. -/
theorem soundFor_effect (he : Effect r x told r' n) {y : Pending Reply} (hy : V.SoundFor src r y)
    (hnone : (V.view r' Option.none).Sound src) (htold : ∀ rev, told = some rev → V.adds rev ≤ src)
    (hlone : r.inFlight = false ∨ x.any (·.point.reloading) = true → y.point.reloading = false) :
    V.SoundFor src r' y := by
  cases he with
  | keep ht hn => exact hy
  | remember rev hrev ht hn =>
    rw [SoundFor, view_remember]
    exact ((Reload.Step.remember _ (htold rev hrev)).sound hy).1
  | begin cutoff ht hf => exact (soundFor_elsewhere (hlone (Or.inl hf))).mpr hnone
  | read z p ht hz hp htokens husers hread =>
    exact (soundFor_elsewhere (hlone (Or.inr (by simp [ht, hz])))).mpr hnone
  | install z tokens users ht hz htokens husers =>
    exact (soundFor_elsewhere (hlone (Or.inr (by simp [ht, hz])))).mpr hnone
  | settle z ht hz => exact (soundFor_elsewhere (hlone (Or.inr (by simp [ht, hz])))).mpr hnone

/-- The handler that a stretch leaves keeps the view sound. -/
theorem soundFor_next {p : Point} (he : Effect r x told r' (.await p)) (hx : ∀ y, x = some y → V.SoundFor src r y)
    (hnone : (V.view r' Option.none).Sound src) : V.SoundFor src r' ⟨p, Option.none⟩ := by
  cases he with
  | keep ht hn => exact (soundFor_elsewhere (by simpa [Next.point?] using hn)).mpr hnone
  | remember rev hrev ht hn => exact (soundFor_elsewhere (by simpa [Next.point?] using hn)).mpr hnone
  | begin cutoff ht hf =>
    rw [SoundFor, V.unread rfl rfl]
    exact hnone
  | read y p ht hy hp htokens husers hread =>
    rw [SoundFor, V.congr htokens husers]
    exact hx y ht
  | install y tokens users ht hy htokens husers =>
    rw [SoundFor, V.unread rfl rfl]
    exact hnone

end Aspect

/-! ## What the database, the callers and the messages promise -/

section Promises

variable (expires : String → ℕ)

/-- The version of a user in the database. -/
def Store.version (s : Store) (userId : String) : ℕ := level (fun userId => (s.user userId).map User.tokenVersion) userId

/-- The database has the revocation, unless the clock has passed the expiry of the token. -/
def Committed (clock : ℕ) (s : Store) : Revocation → Prop
  | .token jti => clock < expires jti → s.revoked jti = true
  | .user userId version => version ≤ s.version userId

/-- A token carries its expiry. -/
def SessionToken.Dated (payload : SessionToken) : Prop :=
  ∀ jti ∈ jtiOf payload.toTokenPayload, ∃ exp ∈ payload.exp, expires jti ≤ exp * 1000

/-- A row is kept for as long as its token can be used. -/
def RevokedToken.Dated (row : RevokedToken) : Prop := (expires row.jti : ℤ) ≤ row.expiresAt

def Request.Dated : Request → Prop
  | .revokeToken row => row.Dated expires
  | .refreshSession payload _ => payload.Dated expires
  | _ => True

instance (payload : SessionToken) : Decidable (payload.Dated expires) :=
  inferInstanceAs (Decidable (∀ jti ∈ jtiOf payload.toTokenPayload, ∃ exp ∈ payload.exp, expires jti ≤ exp * 1000))

instance (row : RevokedToken) : Decidable (row.Dated expires) :=
  inferInstanceAs (Decidable ((expires row.jti : ℤ) ≤ row.expiresAt))

instance (req : Request) : Decidable (req.Dated expires) := by
  unfold Request.Dated
  split <;> infer_instance

instance (clock : ℕ) (s : Store) (rev : Revocation) : Decidable (Committed expires clock s rev) :=
  match rev with
  | .token jti => inferInstanceAs (Decidable (clock < expires jti → s.revoked jti = true))
  | .user userId version => inferInstanceAs (Decidable (version ≤ s.version userId))

/-- The request that an action brings. -/
def started {I : Type} : Action I → Option (I × Request)
  | .start i req => some (i, req)
  | _ => none

/-- The moment up to which `deleteMany` deletes. -/
def Point.deletes? : Point → Option ℕ
  | .deleteMany cutoff => some cutoff
  | _ => none

/-- A row is deleted only when its token has expired by every clock. -/
def DeletesExpired {I : Type} (e : Event I) : Prop :=
  ∀ q ∈ e.pre.executed e.act, ∀ cutoff ∈ q.2.deletes?, ∀ row ∈ e.pre.shared.revokedToken, row.expiresAt < cutoff →
    ∀ k, expires row.jti ≤ (e.pre.node k).loc.clock

instance {I : Type} [Fintype I] (e : Event I) : Decidable (DeletesExpired expires e) :=
  inferInstanceAs (Decidable (∀ q ∈ e.pre.executed e.act, ∀ cutoff ∈ q.2.deletes?, ∀ row ∈ e.pre.shared.revokedToken,
    row.expiresAt < cutoff → ∀ k, expires row.jti ≤ (e.pre.node k).loc.clock))

/-- A call names the expiry of its token; what a message or `noteVersionBumped` tells is committed; and rows are deleted
only after the expiry. -/
structure Faithful {I : Type} (e : Event I) : Prop where
  dated : ∀ q ∈ started e.act, q.2.Dated expires
  told : ∀ q ∈ started e.act, ∀ rev ∈ q.2.told, Committed expires (e.pre.node q.1).loc.clock e.pre.shared rev
  deleted : DeletesExpired expires e

instance {I : Type} [Fintype I] (e : Event I) : Decidable (Faithful expires e) :=
  decidable_of_iff ((∀ q ∈ started e.act, q.2.Dated expires) ∧
      (∀ q ∈ started e.act, ∀ rev ∈ q.2.told, Committed expires (e.pre.node q.1).loc.clock e.pre.shared rev) ∧
      DeletesExpired expires e)
    ⟨fun ⟨h1, h2, h3⟩ => ⟨h1, h2, h3⟩, fun h => ⟨h.dated, h.told, h.deleted⟩⟩

end Promises

/-! ## The database -/

section Database

variable {expires : String → ℕ} {clock clock' : ℕ} {s s' : Store}

/-- The database loses no revocation of a token that has not expired, and lowers no version. -/
structure Store.Grows (expires : String → ℕ) (clock : ℕ) (s s' : Store) : Prop where
  revoked : ∀ jti, clock < expires jti → s.revoked jti = true → s'.revoked jti = true
  version : ∀ userId, s.version userId ≤ s'.version userId

theorem Store.Grows.refl (s : Store) : s.Grows expires clock s := ⟨fun _ _ h => h, fun _ => le_rfl⟩

theorem Committed.mono {rev : Revocation} (h : Committed expires clock s rev) (hg : s.Grows expires clock s') :
    Committed expires clock s' rev := by
  cases rev with
  | token jti => exact fun hlt => hg.revoked jti hlt (h hlt)
  | user userId version => exact le_trans h (hg.version userId)

theorem Committed.later {rev : Revocation} (h : Committed expires clock s rev) (hle : clock ≤ clock') :
    Committed expires clock' s rev := by
  cases rev with
  | token jti => exact fun hlt => h (hle.trans_lt hlt)
  | user userId version => exact h

theorem version_update (s : Store) (userId userId' : String) (u : User) :
    ({ s with user := Function.update s.user userId (some u) } : Store).version userId' =
      if userId' = userId then u.tokenVersion else s.version userId' := by
  unfold Store.version level
  by_cases h : userId' = userId
  · subst h
    simp
  · simp [h]

theorem increment_version {userId : String} {r : ℕ × Store} (h : s.increment userId = some r) :
    r.2.version userId = r.1 ∧ (∀ userId', s.version userId' ≤ r.2.version userId') ∧
      r.2.revokedToken = s.revokedToken := by
  unfold Store.increment at h
  cases hu : s.user userId with
  | none =>
    rw [hu] at h
    cases h
  | some u =>
    rw [hu] at h
    cases h
    refine ⟨by rw [version_update, if_pos rfl], fun userId' => ?_, rfl⟩
    rw [version_update]
    split
    · rename_i he
      subst he
      simp [Store.version, level, hu]
    · exact le_rfl

/-- Adding a row loses nothing. -/
theorem grows_cons (row : RevokedToken) :
    s.Grows expires clock { s with revokedToken := row :: s.revokedToken } := by
  refine ⟨fun jti _ h => ?_, fun _ => le_rfl⟩
  simp only [Store.revoked, List.any_cons, Bool.or_eq_true] at h ⊢
  exact Or.inr h

/-- Only `deleteMany` takes anything from the database. -/
theorem grows_exec (p : Point) (x : Choice)
    (h : ∀ cutoff, p = .deleteMany cutoff → ∀ row ∈ s.revokedToken, row.expiresAt < cutoff → expires row.jti ≤ clock) :
    s.Grows expires clock (exec p x s).2 := by
  cases p with
  | upsert row =>
    simp only [exec]
    repeat' split
    all_goals first | exact .refl s | exact grows_cons _
  | create jti k =>
    simp only [exec]
    repeat' split
    all_goals first | exact .refl s | exact grows_cons _
  | increment userId =>
    simp only [exec]
    split
    · exact .refl s
    · split
      · exact .refl s
      · rename_i version s' hi
        obtain ⟨-, hle, hrows⟩ := increment_version hi
        exact ⟨fun jti _ hr => by rwa [Store.revoked, hrows], hle⟩
  | deleteMany cutoff =>
    simp only [exec]
    split
    · exact .refl s
    · refine ⟨fun jti hlt hr => ?_, fun _ => le_rfl⟩
      simp only [Store.revoked, List.any_eq_true, decide_eq_true_eq] at hr ⊢
      obtain ⟨row, hrow, rfl⟩ := hr
      refine ⟨row, List.mem_filter.mpr ⟨hrow, ?_⟩, rfl⟩
      by_contra hc
      simp only [decide_eq_true_eq, not_not] at hc
      exact absurd (h cutoff rfl row hrow hc) (by omega)
  | sadd jti c | hset userId version c | rebuild tokens users =>
    simp only [exec]
    split <;> exact ⟨fun _ _ h => h, fun _ => le_rfl⟩
  | _ => exact .refl s

theorem grows_env (e : Env) : s.Grows expires clock (env e s) := by
  cases e with
  | register userId username =>
    simp only [env]
    split
    · exact .refl s
    · rename_i hnone
      refine ⟨fun _ _ h => h, fun userId' => ?_⟩
      rw [version_update]
      split
      · rename_i he
        subst he
        cases hu : s.user userId' with
        | none => simp [Store.version, level, hu]
        | some u => simp [hu] at hnone
      · exact le_rfl
  | bump userId =>
    simp only [env]
    cases hi : s.increment userId with
    | none => exact .refl s
    | some r =>
      obtain ⟨-, hle, hrows⟩ := increment_version hi
      exact ⟨fun jti _ hr => by simpa [Store.revoked, hrows] using hr, hle⟩

/-- The rows of the database are dated. -/
def Store.Dated (expires : String → ℕ) (s : Store) : Prop := ∀ row ∈ s.revokedToken, row.Dated expires

/-- What a reload reads is what the database has, of tokens that have not expired. -/
theorem mem_tokens {cutoff : ℕ} {jti : String} (hd : s.Dated expires) (hle : cutoff ≤ clock)
    (hlt : clock < expires jti) :
    jti ∈ s.tokens cutoff ↔ s.revoked jti = true := by
  simp only [Store.tokens, Store.revoked, List.mem_toFinset, List.mem_map, List.mem_filter, List.any_eq_true,
    decide_eq_true_eq]
  constructor
  · rintro ⟨row, ⟨hrow, -⟩, rfl⟩
    exact ⟨row, hrow, rfl⟩
  · rintro ⟨row, hrow, rfl⟩
    have := hd row hrow
    unfold RevokedToken.Dated at this
    exact ⟨row, ⟨hrow, by omega⟩, rfl⟩

theorem level_versions (userId : String) : level s.versions userId = s.version userId := by
  simp only [Store.version, Store.versions, level]
  cases s.user userId with
  | none => rfl
  | some u =>
    simp only [Option.bind_some, Option.map_some]
    split
    · rfl
    · rename_i h
      exact (Nat.eq_zero_of_not_pos h).symm

end Database

/-! ## What a command is answered -/

/-- What a reply says was written is in the database. -/
theorem exec_written {expires : String → ℕ} {clock : ℕ} {p : Point} {x : Choice} {s : Store} {rev : Revocation}
    (h : writtenBy ⟨p, some (exec p x s).1⟩ = some rev) : Committed expires clock (exec p x s).2 rev := by
  have hcons : ∀ row : RevokedToken,
      ({ s with revokedToken := row :: s.revokedToken } : Store).revoked row.jti = true := by
    intro row
    simp [Store.revoked]
  cases p with
  | upsert row =>
    by_cases hx : x = .fails
    · simp [exec, hx, writtenBy] at h
    · by_cases hr : s.revoked row.jti = true
      · simp only [exec, if_neg hx, if_pos hr, writtenBy, Option.some.injEq] at h ⊢
        exact h ▸ fun _ => hr
      · by_cases hu : (s.user row.userId).isSome = true
        · simp only [exec, if_neg hx, if_neg hr, if_pos hu, writtenBy, Option.some.injEq] at h ⊢
          exact h ▸ fun _ => hcons row
        · simp [exec, hx, hr, hu, writtenBy] at h
  | create jti k =>
    by_cases hx : x = .fails
    · simp [exec, hx, writtenBy] at h
    · by_cases hr : s.revoked jti = true
      · simp only [exec, if_neg hx, if_pos hr, writtenBy, Option.some.injEq] at h ⊢
        exact h ▸ fun _ => hr
      · by_cases hu : (s.user k.userId).isSome = true
        · simp only [exec, if_neg hx, if_neg hr, if_pos hu, writtenBy, Option.some.injEq] at h ⊢
          exact h ▸ fun _ => hcons (k.row jti)
        · simp [exec, hx, hr, hu, writtenBy] at h
  | increment userId =>
    by_cases hx : x = .fails
    · simp [exec, hx, writtenBy] at h
    · cases hi : s.increment userId with
      | none => simp [exec, hx, hi, writtenBy] at h
      | some r =>
        simp only [exec, if_neg hx, hi, writtenBy, Option.some.injEq] at h ⊢
        obtain ⟨hv, -, -⟩ := increment_version hi
        exact h ▸ hv.ge
  | _ => cases h

/-- The moment from which a reload reads. -/
def Point.cutoff? : Point → Option ℕ
  | .reload cutoff => some cutoff
  | .readTokens cutoff _ => some cutoff
  | _ => none

/-- What a command leaves of the tokens that a reload has read. -/
theorem exec_tokens (p : Point) (x : Choice) (s : Store) :
    tokensOf ⟨p, none⟩ = tokensOf ⟨p, some (exec p x s).1⟩ ∨
      p.reloading = true ∧ ∃ cutoff, p.cutoff? = some cutoff ∧
        tokensOf ⟨p, some (exec p x s).1⟩ = some (s.tokens cutoff) := by
  cases p with
  | reload cutoff =>
    cases x with
    | done => exact Or.inr ⟨rfl, cutoff, rfl, rfl⟩
    | usersFirst => exact Or.inl rfl
    | fails => exact Or.inl rfl
  | readTokens cutoff users =>
    cases x with
    | fails => exact Or.inl rfl
    | _ => exact Or.inr ⟨rfl, cutoff, rfl, rfl⟩
  | _ => exact Or.inl rfl

/-- What a command leaves of the versions that a reload has read. -/
theorem exec_users (p : Point) (x : Choice) (s : Store) :
    usersOf ⟨p, none⟩ = usersOf ⟨p, some (exec p x s).1⟩ ∨
      p.reloading = true ∧ usersOf ⟨p, some (exec p x s).1⟩ = some s.versions := by
  cases p with
  | reload cutoff =>
    cases x with
    | usersFirst => exact Or.inr ⟨rfl, rfl⟩
    | _ => exact Or.inl rfl
  | readUsers tokens =>
    cases x with
    | fails => exact Or.inl rfl
    | _ => exact Or.inr ⟨rfl, rfl⟩
  | _ => exact Or.inl rfl

/-! ## The invariant of an instance -/

section Invariant

variable (expires : String → ℕ)

/-- What a handler writes to the database is dated, and so is what it may write later. -/
def Point.Dated : Point → Prop
  | .upsert row => row.Dated expires
  | .create jti k => (k.row jti).Dated expires
  | .findUser o => o.payload.Dated expires
  | .findUnique jti k => jtiOf k.payload.toTokenPayload = some jti ∧ k.payload.Dated expires
  | _ => True

/-- What holds of a task: it is dated, what it has written is in the database, and what it has read covers the
snapshot. -/
structure TaskKept (s : Store) (l : Instance) (t : Pending Reply) : Prop where
  dated : t.point.Dated expires
  cutoff : ∀ cutoff, t.point.cutoff? = some cutoff → cutoff ≤ l.clock
  written : ∀ rev, writtenBy t = some rev → Committed expires l.clock s rev
  token : ∀ jti, l.clock < expires jti → (Aspect.token jti).SoundFor (s.revoked jti = true) l.revocations t
  version : ∀ userId, (Aspect.version userId).SoundFor (s.version userId) l.revocations t

/-- What holds of an instance: it has one reload, if any, and the database covers its snapshot. -/
structure Kept (s : Store) (d : Desk Instance Empty Reply) : Prop where
  flag : d.loc.revocations.refreshing = d.loc.revocations.inFlight
  alone : d.tasks.countP (·.point.reloading) = d.loc.revocations.inFlight.toNat
  token : ∀ jti, d.loc.clock < expires jti →
    ((Aspect.token jti).view d.loc.revocations none).Sound (s.revoked jti = true)
  version : ∀ userId, ((Aspect.version userId).view d.loc.revocations none).Sound (s.version userId)
  tasks : ∀ t ∈ d.tasks, TaskKept expires s d.loc t

/-- What becomes of a snapshot: nothing is taken back of a token that has not expired, or of a user. -/
structure Later (l l' : Instance) : Prop where
  clock : l.clock ≤ l'.clock
  token : ∀ jti, l'.clock < expires jti → jti ∈ l.revocations.revokedTokens → jti ∈ l'.revocations.revokedTokens
  version : ∀ userId, level l.revocations.userVersions userId ≤ level l'.revocations.userVersions userId

variable {expires} {s s' : Store} {l l' : Instance} {d : Desk Instance Empty Reply} {t : Pending Reply}

theorem Later.refl (l : Instance) : Later expires l l := ⟨le_rfl, fun _ _ h => h, fun _ => le_rfl⟩

theorem Later.trans {l'' : Instance} (h : Later expires l l') (h' : Later expires l' l'') : Later expires l l'' :=
  ⟨h.clock.trans h'.clock, fun jti hlt hj => h'.token jti hlt (h.token jti (h'.clock.trans_lt hlt) hj),
    fun userId => (h.version userId).trans (h'.version userId)⟩

theorem Later.held {rev : Revocation} (h : Later expires l l') (hr : Revocation.Held l.revocations rev)
    (hlt : ∀ jti, rev = .token jti → l'.clock < expires jti) : Revocation.Held l'.revocations rev := by
  cases rev with
  | token jti => exact h.token jti (hlt jti rfl) hr
  | user userId version => exact le_trans hr (h.version userId)

theorem TaskKept.mono (h : TaskKept expires s l t) (hg : s.Grows expires l.clock s') : TaskKept expires s' l t where
  dated := h.dated
  cutoff := h.cutoff
  written rev hrev := (h.written rev hrev).mono hg
  token jti hlt := (h.token jti hlt).mono (hg.revoked jti hlt)
  version userId := (h.version userId).mono (hg.version userId)

theorem Kept.mono (h : Kept expires s d) (hg : s.Grows expires d.loc.clock s') : Kept expires s' d where
  flag := h.flag
  alone := h.alone
  token jti hlt := (h.token jti hlt).mono (hg.revoked jti hlt)
  version userId := (h.version userId).mono (hg.version userId)
  tasks t ht := (h.tasks t ht).mono hg

/-- A reload that is under way is marked. -/
theorem Kept.marked (h : Kept expires s d) (ht : t ∈ d.tasks) (hr : t.point.reloading = true) :
    d.loc.revocations.refreshing = true := by
  have hpos : 0 < d.tasks.countP (·.point.reloading) := List.countP_pos_iff.mpr ⟨t, ht, hr⟩
  rw [h.alone] at hpos
  rw [h.flag]
  by_contra hf
  rw [Bool.not_eq_true] at hf
  rw [hf] at hpos
  exact absurd hpos (lt_irrefl 0)

/-- A command that is executed keeps what holds of its task. -/
theorem TaskKept.exec {p : Point} (h : TaskKept expires s l ⟨p, none⟩) (hd : s.Dated expires) (x : Choice)
    (hg : s.Grows expires l.clock (exec p x s).2) (hm : p.reloading = true → l.revocations.refreshing = true) :
    TaskKept expires (exec p x s).2 l ⟨p, some (exec p x s).1⟩ where
  dated := h.dated
  cutoff := h.cutoff
  written rev hrev := exec_written hrev
  token jti hlt := by
    refine Reload.Sound.mono ?_ (hg.revoked jti hlt)
    rcases exec_tokens p x s with hr | ⟨hp, cutoff, hc, hr⟩
    · exact (h.token jti hlt).of_reads hr
    · exact Aspect.SoundFor.load (V := .token jti) hr (propext (mem_tokens hd (h.cutoff cutoff hc) hlt)) (hm hp)
        (h.token jti hlt).none
  version userId := by
    refine Reload.Sound.mono ?_ (hg.version userId)
    rcases exec_users p x s with hr | ⟨hp, hr⟩
    · exact (h.version userId).of_reads hr
    · exact Aspect.SoundFor.load (V := .version userId) hr (level_versions userId) (hm hp) (h.version userId).none

/-- A command that a request sends is dated, and a reload reads from the present on. -/
theorem start_point {req : Request} {p : Point} (hd : req.Dated expires) (h : (start req l).next = .await p) :
    p.Dated expires ∧ ∀ cutoff, p.cutoff? = some cutoff → cutoff ≤ l.clock := by
  cases start_opens h with
  | upsert row => exact ⟨hd, fun _ hc => by cases hc⟩
  | reload hf => exact ⟨trivial, fun cutoff hc => (Option.some.inj hc).ge⟩
  | findUser payload uuid userId nowS start hnow hstart hage => exact ⟨hd, fun _ hc => by cases hc⟩
  | _ => exact ⟨trivial, fun _ hc => by cases hc⟩

/-- A command that a stretch sends after a reply is dated, and a reload keeps the moment from which it reads. -/
theorem resume_point {lifetime : ℤ} {p q : Point} {r : Reply p} (hd : p.Dated expires)
    (h : (resume lifetime p r l).next = .await q) :
    q.Dated expires ∧ ∀ cutoff, q.cutoff? = some cutoff → p.cutoff? = some cutoff := by
  cases resume_continues h with
  | users cutoff users => exact ⟨trivial, fun _ hc => hc⟩
  | findUser k jti hj => exact ⟨⟨hj, hd⟩, fun _ hc => by cases hc⟩
  | findUnique jti k =>
    obtain ⟨hj, hk⟩ := hd
    obtain ⟨exp, hexp, hle⟩ := hk jti hj
    have hexp : k.payload.exp = some exp := hexp
    refine ⟨?_, fun _ hc => by cases hc⟩
    simpa [Point.Dated, RevokedToken.Dated, Rotation.row, hexp] using hle
  | _ => exact ⟨trivial, fun _ hc => by cases hc⟩

theorem ofToken_le {rev : Revocation} (h : Committed expires l.clock s rev) {jti : String} (hlt : l.clock < expires jti) :
    rev.ofToken jti ≤ (s.revoked jti = true) := by
  cases rev with
  | token jti' =>
    rintro rfl
    exact h hlt
  | user userId version => exact nofun

theorem ofUser_le {rev : Revocation} (h : Committed expires l.clock s rev) (userId : String) :
    rev.ofUser userId ≤ s.version userId := by
  cases rev with
  | token jti => exact Nat.zero_le _
  | user userId' version =>
    simp only [Revocation.ofUser]
    split
    · rename_i he
      exact he ▸ h
    · exact Nat.zero_le _

end Invariant

section Steps

variable {expires : String → ℕ} {I : Type} {lifetime : ℤ} {s : State I} {a : Action I} {j : I}
  {d : Desk Instance Empty Reply} {t : Stretch} {x : Option (Pending Reply)} {told : Option Revocation}

/-- The tasks that a stretch finds besides its own are no reloads, where it begins or ends one. -/
theorem Ran.lone (h : Ran lifetime s a j d t x told) (hk : Kept expires s.shared (s.node j))
    (hr : (s.node j).loc.revocations.inFlight = false ∨ x.any (·.point.reloading) = true) {y : Pending Reply}
    (hy : y ∈ d.tasks) : y.point.reloading = false := by
  have hcount := hk.alone
  rw [h.tasks.countP_eq, List.countP_append] at hcount
  have hzero : d.tasks.countP (·.point.reloading) = 0 := by
    rcases hr with hr | hr
    · rw [hr] at hcount
      exact Nat.eq_zero_of_add_eq_zero_left hcount
    · cases x with
      | none => cases hr
      | some z =>
        have hle := Bool.toNat_le (s.node j).loc.revocations.inFlight
        have hz : z.point.reloading = true := hr
        simp only [Option.toList_some, List.countP_singleton, hz, if_true] at hcount
        omega
  have := List.countP_eq_zero.mp hzero y hy
  simpa using this

/-- A stretch keeps the account of the reloads. -/
theorem Ran.alone (h : Ran lifetime s a j d t x told) (hk : Kept expires s.shared (s.node j)) :
    t.loc.revocations.refreshing = t.loc.revocations.inFlight ∧
      (d.after t).tasks.countP (·.point.reloading) = t.loc.revocations.inFlight.toNat := by
  have hflag := hk.flag
  have hcount := hk.alone
  rw [h.tasks.countP_eq, List.countP_append] at hcount
  rw [Desk.countP_after]
  have he := h.effect
  generalize t.loc.revocations = r' at he ⊢
  generalize t.next = n at he ⊢
  cases he with
  | keep ht hn =>
    rw [hn]
    refine ⟨hflag, ?_⟩
    cases x <;> simp_all
  | remember rev hrev ht hn =>
    rw [hn]
    have hsame : (rev.remember (s.node j).loc.revocations).refreshing = (s.node j).loc.revocations.refreshing ∧
        (rev.remember (s.node j).loc.revocations).inFlight = (s.node j).loc.revocations.inFlight := by
      cases rev <;> exact ⟨rfl, rfl⟩
    rw [hsame.1, hsame.2]
    refine ⟨hflag, ?_⟩
    cases x <;> simp_all
  | begin cutoff ht hf =>
    subst ht
    rw [hf] at hcount
    refine ⟨rfl, ?_⟩
    rw [Option.toList_none, List.countP_nil, Nat.zero_add] at hcount
    rw [hcount]
    rfl
  | read y p ht hy hp htokens husers hread =>
    subst ht
    refine ⟨hflag, ?_⟩
    simp only [Option.toList_some, List.countP_singleton, hy, if_true] at hcount
    simp only [Next.point?, Option.any_some, hp, Bool.toNat_true]
    omega
  | install y tokens users ht hy htokens husers =>
    subst ht
    refine ⟨hflag, ?_⟩
    simp only [Option.toList_some, List.countP_singleton, hy, if_true] at hcount
    exact (Nat.add_comm _ _).trans hcount
  | settle y ht hy =>
    subst ht
    refine ⟨rfl, ?_⟩
    have hle := Bool.toNat_le (s.node j).loc.revocations.inFlight
    simp only [Option.toList_some, List.countP_singleton, hy, if_true] at hcount
    simp only [Next.point?, Option.any_none, Bool.toNat_false, Revocations.endReload]
    omega

/-- What a stretch is told of is committed. -/
theorem Ran.committed (h : Ran lifetime s a j d t x told) (hk : Kept expires s.shared (s.node j))
    (hf : ∀ req rev, a = .start j req → req.told = some rev → Committed expires (s.node j).loc.clock s.shared rev)
    {rev : Revocation} (hrev : told = some rev) : Committed expires (s.node j).loc.clock s.shared rev := by
  rcases h.origin with ⟨req, ha, -, rfl, -⟩ | ⟨p, r, -, hx, rfl, -⟩
  · exact hf req rev ha hrev
  · exact (hk.tasks _ (h.mem.mpr (Or.inl hx))).written rev hrev

/-- The command that a stretch sends. -/
theorem Ran.point (h : Ran lifetime s a j d t x told) (hk : Kept expires s.shared (s.node j))
    (hd : ∀ req, a = .start j req → req.Dated expires) {p : Point} (hp : t.next = .await p) :
    p.Dated expires ∧ ∀ cutoff, p.cutoff? = some cutoff → cutoff ≤ (s.node j).loc.clock := by
  rcases h.origin with ⟨req, ha, -, -, rfl⟩ | ⟨q, r, -, hx, -, rfl⟩
  · exact start_point (hd req ha) hp
  · have hq := hk.tasks _ (h.mem.mpr (Or.inl hx))
    obtain ⟨hdated, hcut⟩ := resume_point hq.dated hp
    exact ⟨hdated, fun cutoff hc => hq.cutoff cutoff (hcut cutoff hc)⟩

theorem writtenBy_sent (p : Point) : writtenBy ⟨p, none⟩ = none := by
  cases p <;> rfl

/-- **One stretch** keeps what holds of an instance and takes nothing back. -/
theorem Ran.kept (h : Ran lifetime s a j d t x told) (hk : Kept expires s.shared (s.node j))
    (hd : ∀ req, a = .start j req → req.Dated expires)
    (hf : ∀ req rev, a = .start j req → req.told = some rev → Committed expires (s.node j).loc.clock s.shared rev) :
    Kept expires s.shared (d.after t) ∧ Later expires (s.node j).loc t.loc := by
  have hcomm := fun (rev : Revocation) (hrev : told = some rev) => h.committed hk hf hrev
  have hmem : ∀ y, x = some y → y ∈ (s.node j).tasks := fun y hy => h.mem.mpr (Or.inl hy)
  have htoken := fun jti (hlt : t.loc.clock < expires jti) =>
    Aspect.sound_effect (V := .token jti) h.effect (hk.token jti (h.clock.trans_lt hlt))
      (fun y hy => (hk.tasks y (hmem y hy)).token jti (h.clock.trans_lt hlt))
      (fun rev hrev => ofToken_le (hcomm rev hrev) (h.clock.trans_lt hlt))
  have hversion := fun userId =>
    Aspect.sound_effect (V := .version userId) h.effect (hk.version userId)
      (fun y hy => (hk.tasks y (hmem y hy)).version userId) (fun rev hrev => ofUser_le (hcomm rev hrev) userId)
  obtain ⟨hflag, halone⟩ := h.alone hk
  refine ⟨⟨?_, ?_, fun jti hlt => ?_, fun userId => ?_, fun y hy => ?_⟩,
    ⟨h.clock, fun jti hlt => (htoken jti hlt).2, fun userId => (hversion userId).2⟩⟩
  · rw [Desk.after_loc]
    exact hflag
  · rw [Desk.after_loc]
    exact halone
  · rw [Desk.after_loc] at hlt ⊢
    exact (htoken jti hlt).1
  · rw [Desk.after_loc]
    exact (hversion userId).1
  · rw [Desk.after_loc]
    rcases Desk.mem_tasks_after hy with hy | ⟨p, hp, rfl⟩
    · have hyk := hk.tasks y (h.mem.mpr (Or.inr hy))
      exact ⟨hyk.dated, fun cutoff hc => (hyk.cutoff cutoff hc).trans h.clock,
        fun rev hrev => (hyk.written rev hrev).later h.clock,
        fun jti hlt => Aspect.soundFor_effect h.effect (hyk.token jti (h.clock.trans_lt hlt)) (htoken jti hlt).1
          (fun rev hrev => ofToken_le (hcomm rev hrev) (h.clock.trans_lt hlt)) fun hr => h.lone hk hr hy,
        fun userId => Aspect.soundFor_effect h.effect (hyk.version userId) (hversion userId).1
          (fun rev hrev => ofUser_le (hcomm rev hrev) userId) fun hr => h.lone hk hr hy⟩
    · obtain ⟨hdated, hcut⟩ := h.point hk hd hp
      have he := h.effect
      rw [hp] at he
      refine ⟨hdated, fun cutoff hc => (hcut cutoff hc).trans h.clock, fun rev hrev => ?_, fun jti hlt => ?_,
        fun userId => ?_⟩
      · rw [writtenBy_sent] at hrev
        cases hrev
      · exact Aspect.soundFor_next he (fun y hy => (hk.tasks y (hmem y hy)).token jti (h.clock.trans_lt hlt))
          (htoken jti hlt).1
      · exact Aspect.soundFor_next he (fun y hy => (hk.tasks y (hmem y hy)).version userId) (hversion userId).1

variable [DecidableEq I] {o : Output I} {s' : State I}

/-- What is deleted has expired, so the database loses nothing that an instance may need. -/
theorem grows_step (hs : Step lifetime s a o s') (hd : DeletesExpired expires ⟨s, a, o, s'⟩) (i : I) :
    s.shared.Grows expires (s.node i).loc.clock s'.shared := by
  rcases (service lifetime).shared_cases hs with ⟨k, p, x, hx, hk⟩ | ⟨e, -, hk⟩ | ⟨-, hk⟩
  · rw [hk]
    refine grows_exec p x fun cutoff hp row hrow hlt => ?_
    subst hp
    exact hd (k, .deleteMany cutoff) hx cutoff rfl row hrow hlt i
  · rw [hk]
    exact grows_env e
  · rw [hk]
    exact .refl _

/-- A command that is dated enters dated rows only. -/
theorem dated_exec {s : Store} (h : s.Dated expires) {p : Point} (hp : p.Dated expires) (x : Choice) :
    (exec p x s).2.Dated expires := by
  cases p with
  | upsert row =>
    simp only [exec]
    repeat' split
    all_goals first | exact h | exact List.forall_mem_cons.mpr ⟨hp, h⟩
  | create jti k =>
    simp only [exec]
    repeat' split
    all_goals first | exact h | exact List.forall_mem_cons.mpr ⟨hp, h⟩
  | increment userId =>
    simp only [exec]
    split
    · exact h
    · split
      · exact h
      · rename_i version s' hi
        obtain ⟨-, -, hrows⟩ := increment_version hi
        intro row hrow
        rw [hrows] at hrow
        exact h row hrow
  | deleteMany cutoff =>
    simp only [exec]
    split
    · exact h
    · exact fun row hrow => h row (List.mem_filter.mp hrow).1
  | sadd jti c | hset userId version c | rebuild tokens users =>
    simp only [exec]
    split <;> exact h
  | _ => exact h

theorem dated_env {s : Store} (h : s.Dated expires) (e : Env) : (env e s).Dated expires := by
  cases e with
  | register userId username =>
    simp only [env]
    split <;> exact h
  | bump userId =>
    simp only [env]
    cases hi : s.increment userId with
    | none => exact h
    | some r =>
      obtain ⟨-, -, hrows⟩ := increment_version hi
      intro row hrow
      exact h row (hrows ▸ hrow)

/-- What holds of the system. -/
def AllKept (expires : String → ℕ) (s : State I) : Prop := s.shared.Dated expires ∧ ∀ i, Kept expires s.shared (s.node i)

/-- **One step** keeps what holds of every instance and takes nothing back. -/
theorem kept_step (hs : Step lifetime s a o s') (hf : Faithful expires ⟨s, a, o, s'⟩) (hI : AllKept expires s) :
    AllKept expires s' ∧ ∀ i, Later expires (s.node i).loc (s'.node i).loc := by
  obtain ⟨hrows, hk⟩ := hI
  have hgrow := grows_step hs hf.deleted
  have hnode : ∀ i, Kept expires s'.shared (s'.node i) ∧ Later expires (s.node i).loc (s'.node i).loc := by
    intro i
    rcases Tasks.node_cases hs i with h | ⟨p, x, pre, post, hx, hsh, hc, h⟩ | ⟨d, t, hb, -, hsh, h⟩
    · rw [h]
      exact ⟨(hk i).mono (hgrow i), .refl _⟩
    · have hp : (⟨p, none⟩ : Pending Reply) ∈ (s.node i).tasks := by
        rw [hc]
        exact List.mem_append_right _ List.mem_cons_self
      have hexec := ((hk i).tasks _ hp).exec hrows x (hsh ▸ hgrow i) fun hr => (hk i).marked hp hr
      rw [h, hsh]
      have hg := hgrow i
      rw [hsh] at hg
      have hm := (hk i).mono hg
      refine ⟨⟨hm.flag, ?_, hm.token, hm.version, ?_⟩, .refl _⟩
      · have := hm.alone
        rw [hc] at this
        simpa [List.countP_append, List.countP_cons] using this
      · have ht := hm.tasks
        rw [hc, List.forall_mem_append, List.forall_mem_cons] at ht
        rw [List.forall_mem_append, List.forall_mem_cons]
        exact ⟨ht.1, hexec, ht.2.2⟩
    · obtain ⟨x, told, hran⟩ := ran_of_begins hb
      have hstart : ∀ req, a = .start i req → (i, req) ∈ started a := by
        rintro req rfl
        rfl
      have hkept := hran.kept (hk i) (fun req ha => hf.dated _ (hstart req ha)) fun req rev ha hr =>
        hf.told _ (hstart req ha) rev hr
      rw [h, hsh, Desk.after_loc]
      exact hkept
  refine ⟨⟨?_, fun i => (hnode i).1⟩, fun i => (hnode i).2⟩
  rcases (service lifetime).shared_cases hs with ⟨k, p, x, hx, hsh⟩ | ⟨e, -, hsh⟩ | ⟨-, hsh⟩
  · rw [hsh]
    exact dated_exec hrows ((hk k).tasks _ (Office.executed_mem hx)).dated x
  · rw [hsh]
    exact dated_env hrows e
  · rw [hsh]
    exact hrows

end Steps

/-! ## Runs -/

section Runs

variable {expires : String → ℕ} {I : Type} [DecidableEq I] {lifetime : ℤ} {ops as bs : List (Action I)}

theorem allKept_init : AllKept expires (machine I lifetime).init := by
  refine ⟨fun row hrow => absurd hrow List.not_mem_nil, fun i => ⟨rfl, rfl, fun jti _ => ?_, fun userId => ?_,
    fun t ht => absurd ht List.not_mem_nil⟩⟩
  · exact .of_read_eq_none (fun h => absurd h (Finset.notMem_empty _)) (fun h => absurd h (Finset.notMem_empty _)) rfl
  · exact .of_read_eq_none le_rfl le_rfl rfl

theorem allKept_run (h : ∀ e ∈ (machine I lifetime).trace ops, Faithful expires e) :
    AllKept expires ((machine I lifetime).run ops) :=
  (machine I lifetime).invariant_forall (I := fun _ s => AllKept expires s) allKept_init
    (fun _ _ _ hc hI => (kept_step ((service lifetime).step_cases _ _) hc hI).1) ops h

/-- A longer run takes nothing back. -/
theorem later_run (h : ∀ e ∈ (machine I lifetime).trace (as ++ bs), Faithful expires e) (i : I) :
    Later expires (((machine I lifetime).run as).node i).loc (((machine I lifetime).run (as ++ bs)).node i).loc := by
  induction bs using List.reverseRecOn with
  | nil =>
    rw [List.append_nil]
    exact .refl _
  | append_singleton bs b ih =>
    rw [← List.append_assoc] at h ⊢
    rw [Machine.trace_snoc] at h
    rw [Machine.run_snoc]
    have hpre := Machine.forall_mem_of_snoc h
    exact (ih hpre).trans ((kept_step ((service lifetime).step_cases _ _) (Machine.last_of_snoc h)
      (allKept_run hpre)).2 i)

/-- The revocation that an instance remembers in a step, once it has been written to the database. -/
def remembered (e : Event I) : Option (I × Revocation) :=
  match started e.act, e.pre.replied e.act with
  | some (i, req), _ => req.told.map fun rev => (i, rev)
  | none, some (i, ⟨p, r⟩) => (writtenBy ⟨p, some r⟩).map fun rev => (i, rev)
  | none, none => none

theorem held_remember (rev : Revocation) (r : Revocations) : rev.Held (rev.remember r) := by
  cases rev with
  | token jti => exact Finset.mem_insert_self _ _
  | user userId version =>
    have hl := level_raise r.userVersions userId userId version
    rw [if_pos rfl] at hl
    exact le_sup_right.trans_eq hl.symm

theorem start_told {req : Request} {rev : Revocation} (h : req.told = some rev) (l : Instance) :
    (start req l).loc.revocations = rev.remember l.revocations := by
  cases req with
  | noteVersionBumped userId version =>
    cases h
    rfl
  | message ev =>
    have h : ev.revocation? = some rev := h
    simp only [start, applyEvent, h]
    rfl
  | _ => cases h

theorem resume_written {p : Point} {r : Reply p} {rev : Revocation} (h : writtenBy ⟨p, some r⟩ = some rev)
    (l : Instance) : (resume lifetime p r l).loc.revocations = rev.remember l.revocations := by
  cases p with
  | upsert row =>
    cases r <;> cases h
    rfl
  | create jti k =>
    cases r <;> cases h <;> rfl
  | increment userId =>
    cases r <;> cases h
    rfl
  | _ => cases h

theorem held_after {n d : Desk Instance Empty Reply} {t : Stretch} {rev : Revocation} {r : Revocations}
    (hn : n = d.after t) (ht : t.loc.revocations = rev.remember r) : rev.Held n.loc.revocations := by
  rw [hn, Desk.after_loc, ht]
  exact held_remember rev r

/-- What is remembered is held. -/
theorem held_remembered {s : State I} {a : Action I} {i : I} {rev : Revocation}
    (h : remembered ((machine I lifetime).event s a) = some (i, rev)) :
    rev.Held (((machine I lifetime).step s a).1.node i).loc.revocations := by
  have hs := (service lifetime).step_cases s a
  cases a with
  | start k req =>
    obtain ⟨rev', hrev, he⟩ := Option.map_eq_some_iff.mp (show req.told.map _ = _ from h)
    cases he
    obtain ⟨hnode, -⟩ := Tasks.started hs
    exact held_after hnode (start_told hrev _)
  | deliver k n =>
    cases hr : s.replied (.deliver k n : Action I) with
    | none =>
      simp only [remembered, started, Machine.event_act, Machine.event_pre, hr] at h
      cases h
    | some q =>
      obtain ⟨k', p, r⟩ := q
      simp only [remembered, started, Machine.event_act, Machine.event_pre, hr] at h
      obtain ⟨rev', hrev, he⟩ := Option.map_eq_some_iff.mp h
      cases he
      obtain ⟨d, hnode, -, -, -⟩ := Tasks.replied_step hs hr
      exact held_after hnode (resume_written hrev _)
  | _ => cases h

end Runs

/-- **The snapshot never un-revokes.** For every interleaving of the reloads, the revocations and the messages, on any
number of instances: what an instance has remembered after its write to the database it refuses ever after, a token
until it expires, and no user's version decreases. -/
theorem snapshot_never_unrevokes {I : Type} [DecidableEq I] (lifetime : ℤ) (expires : String → ℕ) (ops : List (Action I))
    (h : ∀ e ∈ (machine I lifetime).trace ops, Faithful expires e) :
    (∀ e ∈ (machine I lifetime).trace ops, ∀ i rev payload, remembered e = some (i, rev) → rev.Names payload →
      (∀ jti, rev = .token jti → (((machine I lifetime).run ops).node i).loc.clock < expires jti) →
        ((((machine I lifetime).run ops).node i).loc.revocations.isRevoked payload).isSome = true) ∧
    ∀ as i userId, as <+: ops →
      level (((machine I lifetime).run as).node i).loc.revocations.userVersions userId ≤
        level (((machine I lifetime).run ops).node i).loc.revocations.userVersions userId := by
  constructor
  · intro e he i rev payload hrem hname hlt
    obtain ⟨as, a, ⟨bs, rfl⟩, rfl⟩ := Machine.mem_trace _ he
    have hheld := held_remembered hrem
    have hl := later_run h i
    rw [Machine.run_snoc] at hl
    exact isRevoked_of_held (hl.held hheld hlt) hname
  · rintro as i userId ⟨bs, rfl⟩
    exact (later_run h i).version userId

/-- A user signs out everywhere, while a reload that has read the database before is under way. -/
def signedOut : List (Action Unit) :=
  [.env (.register "ann" "ann"), .start () .refresh, .exec () 0 .usersFirst, .start () (.revokeAllForUser "ann"),
    .exec () 1 .done, .deliver () 1, .deliver () 0, .exec () 1 .done, .deliver () 1]

/-- The reload keeps the version. -/
theorem snapshot_never_unrevokes_signedOut :
    ((((machine Unit 43200).run signedOut).node ()).loc.revocations.isRevoked
      ⟨some (.str "ann"), none, none⟩).isSome = true :=
  (snapshot_never_unrevokes 43200 (fun _ => 0) signedOut (by decide +kernel)).1
    ((machine Unit 43200).event ((machine Unit 43200).run (signedOut.take 5)) (.deliver () 1))
    (List.mem_of_getElem? (i := 5) rfl) () (.user "ann" 1) _ rfl ⟨by decide, 0, rfl, by decide⟩ nofun

end Auth
end WatchParty
