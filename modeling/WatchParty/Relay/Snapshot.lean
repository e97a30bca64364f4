import Mathlib
import WatchParty.Lib.Machine
import WatchParty.Lib.Reload

/-!
# The revocation snapshot of the rust relay

`refresh_snapshot`, `remember_jti`, `remember_version` and `revoked` of `relay-rs/src/main.rs`, with the part of
`apply_revocation_message` that calls them, over the mirror that the backend keeps in Redis. A critical section under a
live lock is one step, and so is each store to `refreshing`, each clearing of a pending buffer and each read of the
mirror, which may fail. One refresh runs at a time.

- `State.refresh` is what one step of the refresh does; `Faithful` is what the mirror promises;
- `jtiView`, `versionView`: the snapshot of one token or one user is a `Reload`;
- `Kept` is the invariant, `Kept.step` the step lemma, `never_unrevokes` the result.
-/

namespace WatchParty
namespace Relay

/-- The identity of an accepted token. -/
structure Identity where
  sub : String
  jti : Option String
  ver : ℤ
  exp : ℤ
  ver_nonneg : 0 ≤ ver

/-- The digits of a decimal. -/
def digits (cs : List Char) : Option ℕ :=
  if cs ≠ [] ∧ cs.all Char.isDigit then some (cs.foldl (fun n c => 10 * n + (c.toNat - '0'.toNat)) 0) else none

/-- `str::parse::<i64>`. -/
def parseI64 (s : String) : Option ℤ :=
  match s.toList with
  | '-' :: cs => (digits cs).bind fun n => if n ≤ 2 ^ 63 then some (-n) else none
  | '+' :: cs => (digits cs).bind fun n => if n < 2 ^ 63 then some n else none
  | cs => (digits cs).bind fun n => if n < 2 ^ 63 then some n else none

/-- `revoked:jti` and `revoked:userver` in Redis. -/
structure Mirror where
  jti : Finset String
  userver : String → Option String

/-- The version that the mirror holds for a user. -/
def Mirror.version (m : Mirror) (user : String) : Option ℤ := (m.userver user).bind parseI64

/-- Where `refresh_snapshot` is: what it has done last, and what it has read and not yet taken over. A read that failed
leaves nothing. -/
inductive Refresh
  | idle
  | flagged
  | clearedJti
  | clearedVersions
  | readJti (jtis : Option (Finset String))
  | readPairs (jtis : Option (Finset String)) (pairs : Option (String → Option String))
  | replacedJti (pairs : Option (String → Option String))
  | replacedVersions
  | unflagged
  | unflaggedJti

/-- The `Server`, as far as revocation reads it. -/
structure Snapshot where
  revoked_jti : Finset String
  user_versions : String → Option ℤ
  refreshing : Bool
  pending_jti : Finset String
  pending_versions : String → Option ℤ
  refresh : Refresh

def Snapshot.empty : Snapshot :=
  { revoked_jti := ∅, user_versions := fun _ => none, refreshing := false, pending_jti := ∅,
    pending_versions := fun _ => none, refresh := .idle }

namespace Snapshot

def revoked (s : Snapshot) (id : Identity) : Bool :=
  (match id.jti with
   | some jti => decide (jti ∈ s.revoked_jti)
   | none => false) ||
  match s.user_versions id.sub with
  | some v => decide (id.ver < v)
  | none => false

/-- `remember_jti`, under the live lock. -/
def remember_jti (jti : String) (s : Snapshot) : Snapshot :=
  { s with revoked_jti := insert jti s.revoked_jti,
           pending_jti := if s.refreshing then insert jti s.pending_jti else s.pending_jti }

/-- A version is entered where it is higher than what is there. -/
def raise (user : String) (v : ℤ) (versions : String → Option ℤ) : String → Option ℤ :=
  if v > (versions user).getD 0 then Function.update versions user (some v) else versions

/-- `remember_version`, under the live lock. -/
def remember_version (user : String) (v : ℤ) (s : Snapshot) : Snapshot :=
  { s with user_versions := raise user v s.user_versions,
           pending_versions := if s.refreshing then raise user v s.pending_versions else s.pending_versions }

/-- What was read, with every pending version that is higher. -/
def merged (pairs : String → Option String) (pending : String → Option ℤ) (user : String) : Option ℤ :=
  let next := (pairs user).bind parseI64
  match pending user with
  | none => next
  | some v => some (max (next.getD 0) v)

/-- The next step of `refresh_snapshot`, which starts with the timer. `ok` says whether a read succeeds. -/
def refresh_snapshot (m : Mirror) (ok : Bool) (s : Snapshot) : Snapshot :=
  match s.refresh with
  | .idle => { s with refreshing := true, refresh := .flagged }
  | .flagged => { s with pending_jti := ∅, refresh := .clearedJti }
  | .clearedJti => { s with pending_versions := fun _ => none, refresh := .clearedVersions }
  | .clearedVersions => { s with refresh := .readJti (if ok then some m.jti else none) }
  | .readJti jtis => { s with refresh := .readPairs jtis (if ok then some m.userver else none) }
  | .readPairs jtis pairs =>
    match jtis with
    | some jtis => { s with revoked_jti := jtis ∪ s.pending_jti, refresh := .replacedJti pairs }
    | none => { s with refresh := .replacedJti pairs }
  | .replacedJti pairs =>
    match pairs with
    | some pairs => { s with user_versions := merged pairs s.pending_versions, refresh := .replacedVersions }
    | none => { s with refresh := .replacedVersions }
  | .replacedVersions => { s with refreshing := false, refresh := .unflagged }
  | .unflagged => { s with pending_jti := ∅, refresh := .unflaggedJti }
  | .unflaggedJti => { s with pending_versions := fun _ => none, refresh := .idle }

end Snapshot

/-- A message of the revocation channel. -/
inductive RevocationEvent
  | token (jti : Option String)
  | user (user_id : Option String) (version : Option ℤ)
  | other

/-- What `apply_revocation_message` does to the snapshot. -/
def apply_revocation_message (ev : RevocationEvent) (s : Snapshot) : Snapshot :=
  match ev with
  | .token (some jti) => s.remember_jti jti
  | .user (some uid) (some v) => if v > 0 then s.remember_version uid v else s
  | _ => s

/-- The relay and the mirror. -/
structure State where
  snap : Snapshot
  mirror : Mirror

/-- A message is delivered, the refresh takes a step, or the mirror changes. -/
inductive Action
  | message (ev : RevocationEvent)
  | refresh (ok : Bool)
  | mirror (m : Mirror)

def step (s : State) : Action → State × Unit
  | .message ev => ({ s with snap := apply_revocation_message ev s.snap }, ())
  | .refresh ok => ({ s with snap := s.snap.refresh_snapshot s.mirror ok }, ())
  | .mirror m => ({ s with mirror := m }, ())

/-- The relay, from its start. -/
def machine : Machine State Action Unit := ⟨⟨Snapshot.empty, ⟨∅, fun _ => none⟩⟩, step⟩

abbrev Event := Machine.Event State Action Unit

/-- The mirror loses no token and lowers no version. -/
structure Mirror.Grows (m m' : Mirror) : Prop where
  jti : m.jti ⊆ m'.jti
  version : ∀ user v, m.version user = some v → ∃ v', v ≤ v' ∧ m'.version user = some v'

/-- The mirror holds a revocation when its message is delivered, and only grows. -/
def Faithful (e : Event) : Prop :=
  match e.act with
  | .message (.token (some jti)) => jti ∈ e.pre.mirror.jti
  | .message (.user (some user) (some v)) => ∃ v', v ≤ v' ∧ e.pre.mirror.version user = some v'
  | .message _ => True
  | .refresh _ => True
  | .mirror m => e.pre.mirror.Grows m

/-! ## The snapshot of one token and of one user -/

/-- The tokens that the refresh has read and not yet taken over. -/
def Refresh.jtis : Refresh → Option (Finset String)
  | .readJti jtis => jtis
  | .readPairs jtis _ => jtis
  | _ => none

/-- The versions that the refresh has read and not yet taken over. -/
def Refresh.pairs : Refresh → Option (String → Option String)
  | .readPairs _ pairs => pairs
  | .replacedJti pairs => pairs
  | _ => none

/-- Is the flag set there? -/
def Refresh.flag : Refresh → Bool
  | .idle => false
  | .unflagged => false
  | .unflaggedJti => false
  | _ => true

/-- The version of a user: absent is below every version. -/
def level : Option ℤ → WithBot ℤ
  | none => ⊥
  | some v => v

theorem level_le_some {a : Option ℤ} {v : ℤ} (h : 0 < v) : level a ≤ v ↔ a.getD 0 ≤ v := by
  cases a with
  | none => simp [level, h.le]
  | some w => simp [level]

def jtiView (jti : String) (s : Snapshot) : Reload Prop :=
  { live := jti ∈ s.revoked_jti, pending := jti ∈ s.pending_jti, marked := s.refreshing,
    read := s.refresh.jtis.map (jti ∈ ·) }

def versionView (user : String) (s : Snapshot) : Reload (WithBot ℤ) :=
  { live := level (s.user_versions user), pending := level (s.pending_versions user), marked := s.refreshing,
    read := s.refresh.pairs.map fun pairs => level ((pairs user).bind parseI64) }

/-- A pending version is a version that was raised from nothing. -/
def Raised (versions : String → Option ℤ) : Prop := ∀ user v, versions user = some v → 0 < v

theorem raised_raise {versions : String → Option ℤ} (h : Raised versions) (user : String) (v : ℤ) :
    Raised (Snapshot.raise user v versions) := by
  intro user' v' hv
  unfold Snapshot.raise at hv
  split at hv
  · rename_i hlt
    by_cases hu : user' = user
    · subst hu
      rw [Function.update_self] at hv
      cases hv
      cases hc : versions user' with
      | none => simpa [hc] using hlt
      | some w =>
        have hw := h user' w hc
        rw [hc] at hlt
        exact hw.trans hlt
    · rw [Function.update_of_ne hu] at hv
      exact h user' v' hv
  · exact h user' v' hv

/-- Raising one user's version joins it to that user's level, and leaves the others alone. -/
theorem level_raise (versions : String → Option ℤ) (user user' : String) {v : ℤ} (hv : 0 < v) :
    level (Snapshot.raise user v versions user') =
      level (versions user') ⊔ (if user' = user then (v : WithBot ℤ) else ⊥) := by
  unfold Snapshot.raise
  by_cases hu : user' = user
  · subst hu
    rw [if_pos rfl]
    by_cases hlt : v > (versions user').getD 0
    · rw [if_pos hlt, Function.update_self, sup_eq_right.mpr ((level_le_some hv).mpr hlt.le)]
      rfl
    · rw [if_neg hlt]
      rw [gt_iff_lt, not_lt] at hlt
      cases hc : versions user' with
      | none =>
        rw [hc] at hlt
        exact absurd hv hlt.not_gt
      | some w =>
        rw [hc] at hlt
        exact (sup_eq_left.mpr (WithBot.coe_le_coe.mpr hlt)).symm
  · rw [if_neg hu, sup_bot_eq]
    split
    · rw [Function.update_of_ne hu]
    · rfl

/-- What is taken over is what was read, joined to what is pending. -/
theorem level_merged {pairs : String → Option String} {pending : String → Option ℤ} (h : Raised pending)
    (user : String) :
    level (Snapshot.merged pairs pending user) = level ((pairs user).bind parseI64) ⊔ level (pending user) := by
  unfold Snapshot.merged
  cases hp : pending user with
  | none => exact (sup_bot_eq _).symm
  | some v =>
    have hv := h user v hp
    cases (pairs user).bind parseI64 with
    | none =>
      simp only [Option.getD_none, max_eq_right hv.le]
      exact (bot_sup_eq _).symm
    | some w => exact WithBot.coe_max w v

/-! ## Runs -/

/-- What a run keeps: the flag is set where the refresh has set it, pending versions are positive, and the snapshot of
every token and of every user is sound. -/
structure Kept (s : State) : Prop where
  flag : s.snap.refreshing = s.snap.refresh.flag
  raised : Raised s.snap.pending_versions
  jti : ∀ jti, (jtiView jti s.snap).Sound (jti ∈ s.mirror.jti)
  version : ∀ user, (versionView user s.snap).Sound (level (s.mirror.version user))

theorem kept_init : Kept machine.init where
  flag := rfl
  raised _ _ h := nomatch h
  jti _ := .of_read_eq_none (fun h => absurd h (Finset.notMem_empty _)) (fun h => absurd h (Finset.notMem_empty _)) rfl
  version _ := .of_read_eq_none le_rfl le_rfl rfl

theorem Mirror.Grows.level {m m' : Mirror} (h : m.Grows m') (user : String) :
    level (m.version user) ≤ level (m'.version user) := by
  cases hv : m.version user with
  | none => exact bot_le
  | some v =>
    obtain ⟨v', hle, hv'⟩ := h.version user v hv
    rw [hv']
    exact WithBot.coe_le_coe.mpr hle

section Refreshes

variable (s : Snapshot) (m : Mirror) (ok : Bool)

/-- What a step of the refresh is to the snapshot of a token. -/
theorem refresh_jti (hf : s.refreshing = s.refresh.flag) (jti : String) :
    Reload.Step (jti ∈ m.jti) (jtiView jti s) (jtiView jti (s.refresh_snapshot m ok)) := by
  cases hr : s.refresh with
  | idle =>
    have h : jtiView jti (s.refresh_snapshot m ok) = (jtiView jti s).mark := by
      simp [jtiView, Snapshot.refresh_snapshot, hr, Refresh.jtis, Reload.mark]
    rw [h]
    exact .mark
  | flagged | unflagged =>
    have h : jtiView jti (s.refresh_snapshot m ok) = (jtiView jti s).clear := by
      simp [jtiView, Snapshot.refresh_snapshot, hr, Refresh.jtis, Reload.clear]
    rw [h]
    exact .clear (by simp [jtiView, hr, Refresh.jtis])
  | clearedJti | readJti | replacedJti | unflaggedJti =>
    have h : jtiView jti (s.refresh_snapshot m ok) = jtiView jti s := by
      simp only [jtiView, Snapshot.refresh_snapshot, hr]
      try split
      all_goals rfl
    rw [h]
    exact .idle
  | clearedVersions =>
    cases ok with
    | true =>
      have h : jtiView jti (s.refresh_snapshot m true) = (jtiView jti s).load (jti ∈ m.jti) := by
        simp [jtiView, Snapshot.refresh_snapshot, hr, Refresh.jtis, Reload.load]
      rw [h]
      exact .load (by rw [jtiView, hf, hr]; rfl)
    | false =>
      have h : jtiView jti (s.refresh_snapshot m false) = jtiView jti s := by
        simp [jtiView, Snapshot.refresh_snapshot, hr, Refresh.jtis]
      rw [h]
      exact .idle
  | readPairs jtis pairs =>
    have h : jtiView jti (s.refresh_snapshot m ok) = (jtiView jti s).install := by
      cases jtis with
      | none => simp [jtiView, Snapshot.refresh_snapshot, hr, Refresh.jtis, Reload.install]
      | some jtis => simp [jtiView, Snapshot.refresh_snapshot, hr, Refresh.jtis, Reload.install]
    rw [h]
    exact .install
  | replacedVersions =>
    have h : jtiView jti (s.refresh_snapshot m ok) = (jtiView jti s).unmark := by
      simp [jtiView, Snapshot.refresh_snapshot, hr, Refresh.jtis, Reload.unmark]
    rw [h]
    exact .unmark (by simp [jtiView, hr, Refresh.jtis])

/-- What a step of the refresh is to the snapshot of a user. -/
theorem refresh_version (hf : s.refreshing = s.refresh.flag) (hp : Raised s.pending_versions) (user : String) :
    Reload.Step (level (m.version user)) (versionView user s) (versionView user (s.refresh_snapshot m ok)) := by
  cases hr : s.refresh with
  | idle =>
    have h : versionView user (s.refresh_snapshot m ok) = (versionView user s).mark := by
      simp [versionView, Snapshot.refresh_snapshot, hr, Refresh.pairs, Reload.mark]
    rw [h]
    exact .mark
  | clearedJti | unflaggedJti =>
    have h : versionView user (s.refresh_snapshot m ok) = (versionView user s).clear := by
      simp [versionView, Snapshot.refresh_snapshot, hr, Refresh.pairs, Reload.clear, level]
    rw [h]
    exact .clear (by simp [versionView, hr, Refresh.pairs])
  | flagged | clearedVersions | readPairs | unflagged =>
    have h : versionView user (s.refresh_snapshot m ok) = versionView user s := by
      simp only [versionView, Snapshot.refresh_snapshot, hr]
      try split
      all_goals rfl
    rw [h]
    exact .idle
  | readJti jtis =>
    cases ok with
    | true =>
      have h : versionView user (s.refresh_snapshot m true) = (versionView user s).load (level (m.version user)) := by
        simp [versionView, Snapshot.refresh_snapshot, hr, Refresh.pairs, Reload.load, Mirror.version]
      rw [h]
      exact .load (by rw [versionView, hf, hr]; rfl)
    | false =>
      have h : versionView user (s.refresh_snapshot m false) = versionView user s := by
        simp [versionView, Snapshot.refresh_snapshot, hr, Refresh.pairs]
      rw [h]
      exact .idle
  | replacedJti pairs =>
    have h : versionView user (s.refresh_snapshot m ok) = (versionView user s).install := by
      cases pairs with
      | none => simp [versionView, Snapshot.refresh_snapshot, hr, Refresh.pairs, Reload.install]
      | some pairs =>
        simp [versionView, Snapshot.refresh_snapshot, hr, Refresh.pairs, Reload.install, level_merged hp]
    rw [h]
    exact .install
  | replacedVersions =>
    have h : versionView user (s.refresh_snapshot m ok) = (versionView user s).unmark := by
      simp [versionView, Snapshot.refresh_snapshot, hr, Refresh.pairs, Reload.unmark]
    rw [h]
    exact .unmark (by simp [versionView, hr, Refresh.pairs])

end Refreshes

/-- What a message is to the snapshot of a token. -/
theorem message_jti (s : Snapshot) (m : Mirror) (ev : RevocationEvent) (jti : String)
    (h : ∀ j, ev = .token (some j) → j ∈ m.jti) :
    Reload.Step (jti ∈ m.jti) (jtiView jti s) (jtiView jti (apply_revocation_message ev s)) := by
  unfold apply_revocation_message
  split
  · rename_i j
    have hv : jtiView jti (s.remember_jti j) = (jtiView jti s).remember (jti = j) := by
      cases hr : s.refreshing <;> simp [jtiView, Snapshot.remember_jti, Reload.remember, hr, or_comm]
    rw [hv]
    exact .remember _ fun hj => hj ▸ h j rfl
  · split <;> exact .idle
  · exact .idle

/-- What a message is to the snapshot of a user. -/
theorem message_version (s : Snapshot) (m : Mirror) (ev : RevocationEvent) (user : String)
    (h : ∀ u v, ev = .user (some u) (some v) → ∃ v', v ≤ v' ∧ m.version u = some v') :
    Reload.Step (level (m.version user)) (versionView user s) (versionView user (apply_revocation_message ev s)) := by
  unfold apply_revocation_message
  split
  · exact .idle
  · rename_i u v
    split
    · rename_i hv
      have hview : versionView user (s.remember_version u v) =
          (versionView user s).remember (if user = u then (v : WithBot ℤ) else ⊥) := by
        cases hr : s.refreshing <;>
          simp [versionView, Snapshot.remember_version, Reload.remember, hr, level_raise _ _ _ hv]
      rw [hview]
      refine .remember _ ?_
      split
      · rename_i hu
        obtain ⟨v', hle, hv'⟩ := h u v rfl
        rw [hu, hv']
        exact WithBot.coe_le_coe.mpr hle
      · exact bot_le
    · exact .idle
  · exact .idle

/-- What becomes of the snapshot of every token and every user: nothing is taken back. -/
structure Later (s s' : Snapshot) : Prop where
  jti : s.revoked_jti ⊆ s'.revoked_jti
  version : ∀ user, level (s.user_versions user) ≤ level (s'.user_versions user)

theorem Later.refl (s : Snapshot) : Later s s := ⟨fun _ h => h, fun _ => le_rfl⟩

theorem Later.trans {s s' s'' : Snapshot} (h : Later s s') (h' : Later s' s'') : Later s s'' :=
  ⟨h.jti.trans h'.jti, fun user => (h.version user).trans (h'.version user)⟩

/-- What a message makes the snapshot refuse stays in it. -/
theorem message_remembered (ev : RevocationEvent) (s : Snapshot) :
    (∀ j, ev = .token (some j) → j ∈ (apply_revocation_message ev s).revoked_jti) ∧
      ∀ u v, ev = .user (some u) (some v) → 0 < v →
        (v : WithBot ℤ) ≤ level ((apply_revocation_message ev s).user_versions u) := by
  constructor
  · rintro j rfl
    exact Finset.mem_insert_self _ _
  · rintro u v rfl hv
    simp only [apply_revocation_message, gt_iff_lt, hv, if_true, Snapshot.remember_version]
    rw [level_raise _ _ _ hv, if_pos rfl]
    exact le_sup_right

/-- **One step** keeps every snapshot sound and takes nothing back. -/
theorem Kept.step {s : State} {a : Action} (hf : Faithful (machine.event s a)) (hI : Kept s) :
    Kept (step s a).1 ∧ Later s.snap (step s a).1.snap := by
  cases a with
  | message ev =>
    have hj := fun jti => (message_jti s.snap s.mirror ev jti fun j h => by subst h; exact hf).sound (hI.jti jti)
    have hv := fun user => (message_version s.snap s.mirror ev user fun u v h => by subst h; exact hf).sound
      (hI.version user)
    refine ⟨⟨?_, ?_, fun jti => (hj jti).1, fun user => (hv user).1⟩, fun jti => (hj jti).2, fun user => (hv user).2⟩
    · simp only [Relay.step, apply_revocation_message]
      repeat' split
      all_goals exact hI.flag
    · simp only [Relay.step, apply_revocation_message]
      split
      · exact hI.raised
      · split
        · simp only [Snapshot.remember_version]
          split
          · exact raised_raise hI.raised _ _
          · exact hI.raised
        · exact hI.raised
      · exact hI.raised
  | refresh ok =>
    have hj := fun jti => (refresh_jti s.snap s.mirror ok hI.flag jti).sound (hI.jti jti)
    have hv := fun user => (refresh_version s.snap s.mirror ok hI.flag hI.raised user).sound (hI.version user)
    refine ⟨⟨?_, ?_, fun jti => (hj jti).1, fun user => (hv user).1⟩, fun jti => (hj jti).2, fun user => (hv user).2⟩
    · have hflag := hI.flag
      simp only [Relay.step, Snapshot.refresh_snapshot]
      split
      all_goals
        rename_i hr
        rw [hr] at hflag
        repeat' split
        all_goals first | rfl | exact hflag
    · simp only [Relay.step, Snapshot.refresh_snapshot]
      repeat' split
      all_goals first | exact hI.raised | exact fun _ _ h => nomatch h
  | mirror m =>
    exact ⟨⟨hI.flag, hI.raised, fun jti => (hI.jti jti).mono fun h => hf.jti h,
      fun user => (hI.version user).mono (hf.level user)⟩, .refl _⟩

section Runs

variable {ops as bs : List Action}

theorem kept_run (h : ∀ e ∈ machine.trace ops, Faithful e) : Kept (machine.run ops) :=
  machine.invariant_forall (I := fun _ s => Kept s) kept_init (fun _ _ _ hc hI => (hI.step hc).1) ops h

/-- A longer run takes nothing back. -/
theorem later_run (h : ∀ e ∈ machine.trace (as ++ bs), Faithful e) :
    Later (machine.run as).snap (machine.run (as ++ bs)).snap := by
  induction bs using List.reverseRecOn with
  | nil =>
    rw [List.append_nil]
    exact .refl _
  | append_singleton bs b ih =>
    rw [← List.append_assoc] at h ⊢
    rw [Machine.trace_snoc] at h
    rw [Machine.run_snoc]
    have hpre := Machine.forall_mem_of_snoc h
    exact (ih hpre).trans ((kept_run hpre).step (Machine.last_of_snoc h)).2

/-- What a message makes the snapshot refuse is in it after every run that the message is in. -/
theorem remembered_run {ev : RevocationEvent} (h : ∀ e ∈ machine.trace ops, Faithful e) (hev : .message ev ∈ ops) :
    (∀ j, ev = .token (some j) → j ∈ (machine.run ops).snap.revoked_jti) ∧
      ∀ u v, ev = .user (some u) (some v) → 0 < v →
        (v : WithBot ℤ) ≤ level ((machine.run ops).snap.user_versions u) := by
  obtain ⟨as, bs, rfl⟩ := List.append_of_mem hev
  rw [List.append_cons] at h ⊢
  have hl := later_run h
  rw [Machine.run_snoc] at hl
  have hm := message_remembered ev (machine.run as).snap
  exact ⟨fun j hj => hl.jti (hm.1 j hj), fun u v hu hv => (hm.2 u v hu hv).trans (hl.version u)⟩

end Runs

/-- **The snapshot never un-revokes.** For every interleaving of messages with the steps of the refresh, over a mirror
that only grows and holds a revocation when its message is delivered: a token or a version that a message has named is
refused ever after, and no user's stored version decreases. -/
theorem never_unrevokes (ops : List Action) (h : ∀ e ∈ machine.trace ops, Faithful e) :
    (∀ jti (id : Identity), .message (.token (some jti)) ∈ ops → id.jti = some jti →
      (machine.run ops).snap.revoked id = true) ∧
    (∀ user v (id : Identity), .message (.user (some user) (some v)) ∈ ops → id.sub = user → id.ver < v →
      (machine.run ops).snap.revoked id = true) ∧
    ∀ as user, as <+: ops →
      level ((machine.run as).snap.user_versions user) ≤ level ((machine.run ops).snap.user_versions user) := by
  refine ⟨fun jti id hev hid => ?_, fun user v id hev hsub hver => ?_, fun as user hpre => ?_⟩
  · have hmem := (remembered_run h hev).1 jti rfl
    simp [Snapshot.revoked, hid, hmem]
  · have hle := (remembered_run h hev).2 user v rfl (id.ver_nonneg.trans_lt hver)
    cases hv : (machine.run ops).snap.user_versions user with
    | none =>
      rw [hv] at hle
      exact absurd hle (WithBot.not_coe_le_bot v)
    | some w =>
      rw [hv] at hle
      have hlt : id.ver < w := hver.trans_le (WithBot.coe_le_coe.mp hle)
      simp [Snapshot.revoked, hsub, hv, hlt]
  · obtain ⟨bs, rfl⟩ := hpre
    exact (later_run h).version user

/-- A token is revoked and a user signed out everywhere, and then the snapshot is refreshed. -/
def refreshed : List Action :=
  [.mirror ⟨{"t"}, fun user => if user = "ann" then some "3" else none⟩, .message (.token (some "t")),
    .message (.user (some "ann") (some 2))] ++ List.replicate 10 (.refresh true)

/-- The refresh needs nothing of the mirror. -/
theorem refresh_faithful (n : ℕ) :
    ∀ s, ∀ e ∈ machine.traceFrom s (List.replicate n (.refresh true)), Faithful e := by
  induction n with
  | zero => exact fun s e he => nomatch he
  | succ n ih =>
    intro s
    rw [List.replicate_succ]
    exact List.forall_mem_cons.mpr ⟨trivial, ih _⟩

/-- The refresh keeps refusing the token. -/
theorem never_unrevokes_refreshed :
    (machine.run refreshed).snap.revoked ⟨"bob", some "t", 0, 0, le_rfl⟩ = true := by
  refine (never_unrevokes refreshed ?_).1 "t" _ (by simp [refreshed]) rfl
  refine List.forall_mem_cons.mpr ⟨⟨Finset.empty_subset _, fun _ _ h => nomatch h⟩,
    List.forall_mem_cons.mpr ⟨Finset.mem_singleton_self "t", List.forall_mem_cons.mpr ⟨⟨3, by decide, by decide⟩, ?_⟩⟩⟩
  exact refresh_faithful 10 _

end Relay
end WatchParty
