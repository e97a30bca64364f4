import WatchParty.Account.Google
import WatchParty.Account.Versions

/-!
# What a raised version fences

Log-outs everywhere and changes of the password raise the version of an account, so that the tokens from before are
refused. A login and a refresh issue a token of the version that they have looked at. The claim of a guest, the flows
that link and the flow that re-authenticates go on with whatever version there is at their end.

- `Point.authorisation`: the event that has authorised a handler; `Machine.after` is what has happened since;
- `late`: a query of a handler that does not look at the version, where it has been raised since the authorisation;
- `Guarded` is the invariant: no version that was raised since the authorisation is one that a handler can issue;
- `bump_fences`: in a run without late queries every raised version fences what was authorised before it.
-/

namespace WatchParty
namespace Account

section Events

variable {I : Type}

/-- The bearer token of a request. -/
def Request.bearer? : Request → Option Token
  | .claim bearer _ _ _ _ => some bearer
  | .linkStart bearer _ _ => some bearer
  | .reauthStart bearer _ => some bearer
  | .setPassword bearer _ _ _ => some bearer
  | .logoutAll bearer => some bearer
  | .refresh bearer _ => some bearer
  | _ => none

/-- Where a request brings a token or a sealed state, has an instance issued it before? -/
def genuine (tr : List (Event I)) (e : Event I) : Bool :=
  authentic tr e && match e.act with
    | .start _ req => req.bearer?.all fun token => tr.any fun x => decide (token ∈ issued x)
    | _ => true

/-- Does the event execute the query whose answer the password of this login is checked against? -/
def checksPassword (jti : String) (e : Event I) : Bool :=
  match e.pre.executed e.act with
  | some (_, .login _ _ draws) => draws.jti = jti
  | _ => false

/-- Does the call arrive that brings this token and draws this id? -/
def bears (bearer : Token) (jti : String) (e : Event I) : Bool :=
  match e.act with
  | .start _ (.claim bearer' _ _ _ draws) => bearer' = bearer ∧ draws.jti = jti
  | .start _ (.refresh bearer' draws) => bearer' = bearer ∧ draws.jti = jti
  | _ => false

/-- Does the call arrive that starts the flow of this state, of this user? -/
def startsFlow (state : String) (userId : Option String) (e : Event I) : Bool :=
  match e.act with
  | .start _ (.linkStart bearer _ draws) => draws.state = state ∧ some bearer.sub = userId
  | .start _ (.reauthStart bearer draws) => draws.state = state ∧ some bearer.sub = userId
  | _ => false

/-- What authorises a handler: the check of a password, or a bearer token. -/
def Point.authorisation : Point → Option (Event I → Bool)
  | .login _ _ draws => some (checksPassword draws.jti)
  | .claim k => some (bears k.bearer k.draws.jti)
  | .claimTaken k => some (bears k.bearer k.draws.jti)
  | .claimUpdate k _ => some (bears k.bearer k.draws.jti)
  | .refresh k => some (bears k.bearer k.draws.jti)
  | .refreshJti k _ => some (bears k.bearer k.draws.jti)
  | .refreshClaim k _ => some (bears k.bearer k.draws.jti)
  | .linkStart k => some (startsFlow k.draws.state (some k.bearer.sub))
  | .linkMethod k => some (startsFlow k.draws.state (some k.bearer.sub))
  | .linkVerify k => some (startsFlow k.draws.state (some k.bearer.sub))
  | .reauthStart k => some (startsFlow k.draws.state (some k.bearer.sub))
  | .reauthOwner _ k => some (startsFlow k.sealed.state k.sealed.linkUserId)
  | .mintElevatedToken _ k => some (startsFlow k.sealed.state k.sealed.linkUserId)
  | .fullFind _ k => some (startsFlow k.sealed.state k.sealed.linkUserId)
  | .fullLink _ k => some (startsFlow k.sealed.state k.sealed.linkUserId)
  | .fullCreate _ k => some (startsFlow k.sealed.state k.sealed.linkUserId)
  | .fullOwner _ k => some (startsFlow k.sealed.state k.sealed.linkUserId)
  | .guestFind _ k => some (startsFlow k.sealed.state k.sealed.linkUserId)
  | .guestLink _ k => some (startsFlow k.sealed.state k.sealed.linkUserId)
  | .guestEmail _ k => some (startsFlow k.sealed.state k.sealed.linkUserId)
  | .guestUpdate _ _ _ k => some (startsFlow k.sealed.state k.sealed.linkUserId)
  | _ => none

/-- The handler whose answer an event brings, or whose query it executes. -/
def handler? (e : Event I) : Option Point :=
  ((e.pre.replied e.act).map fun q => q.2.1).or ((e.pre.executed e.act).map Prod.snd)

/-- The users whom an event gives a provider row. -/
def attached (e : Event I) : List String :=
  (e.post.shared.oauthAccount.filter fun a => a ∉ e.pre.shared.oauthAccount).map OAuthAccount.userId

/-- **What raised versions fence.** A token that is issued, or a provider row that is attached, is of a handler that has
been authorised, and no version that was raised since then is the token's, or else the row is not attached; nor does an
event raise a version to that of a token from before. Versions are raised by log-outs everywhere and by changes of the
password. -/
structure Fenced (tr : List (Event I)) (e : Event I) : Prop where
  authorised : ∀ q ∈ (handler? e).bind Point.authorisation, issued e ≠ [] ∨ attached e ≠ [] → tr.any q = true
  tokens : ∀ q ∈ (handler? e).bind Point.authorisation, ∀ token ∈ issued e, ∀ b ∈ Machine.after q tr,
    ∀ v ∈ raised token.sub b, token.ver < v
  links : ∀ q ∈ (handler? e).bind Point.authorisation, ∀ id ∈ attached e, ∀ b ∈ Machine.after q tr, raised id b = none
  earlier : ∀ x ∈ tr, ∀ token ∈ issued x, ∀ v ∈ raised token.sub e, token.ver < v
  raises : ∀ id, ∀ v ∈ raised id e, ∃ p, handler? e = some p ∧
    (p = .logoutAll id ∨ ∃ k hash, p = .setPasswordUpdate k hash ∧ k.bearer.sub = id)

/-- Does the code go on with the row that is answered here, whatever its version? -/
def Point.unchecked : Point → Bool
  | .claimUpdate _ _ => true
  | .mintElevatedToken _ _ => true
  | .fullFind _ _ => true
  | .fullCreate _ _ => true
  | .guestUpdate _ _ _ _ => true
  | _ => false

/-- Is a query answered that the code goes on with, of a user whose version was raised since the authorisation? -/
def late (C : Config) (tr : List (Event I)) (e : Event I) : Bool :=
  match e.pre.executed e.act, e.act with
  | some (_, p), .exec _ _ x =>
    p.unchecked && p.authorisation.any fun q => (p.query.row? (p.query.run C.lower x e.pre.shared).1).any fun u =>
      (Machine.after q tr).any fun b => (raised u.id b).isSome
  | _, _ => false

/-- The user whom a handler can issue a token of, and a version that this token does not exceed. -/
def capped? (t : Pending Reply) : Option (String × ℕ) :=
  match t with
  | ⟨.refresh k, none⟩ => some (k.bearer.sub, k.bearer.ver)
  | ⟨.refresh k, some r⟩ => ((r : Option (Option User)).bind id).map fun u => (u.id, k.bearer.ver)
  | t => (held? t).map fun u => (u.id, u.tokenVersion)

/-- What the events so far say of a handler: it has been authorised, and what it can issue is not above the version of
its user, and below every version that was raised since the authorisation. -/
structure Guarded (tr : List (Event I)) (d : Database) (t : Pending Reply) : Prop where
  called : (∀ username password draws, t ≠ ⟨.login username password draws, none⟩) →
    ∀ q ∈ t.point.authorisation, tr.any q = true
  current : ∀ c ∈ capped? t, ∃ v, d.version c.1 = some v ∧ c.2 ≤ v
  fenced : ∀ c ∈ capped? t, ∀ q ∈ t.point.authorisation, ∀ b ∈ Machine.after q tr, ∀ v ∈ raised c.1 b, c.2 < v

/-- **The invariant**. -/
structure Versioned (tr : List (Event I)) (s : State I) : Prop where
  issued : ∀ e ∈ tr, ∀ token ∈ issued e, ∃ v, s.shared.version token.sub = some v ∧ token.ver ≤ v
  started : ∀ e ∈ tr, ∀ sealed, .started sealed ∈ responses e → sealed.linkUserId ≠ none →
    tr.any (startsFlow sealed.state sealed.linkUserId) = true
  tasks : ∀ i, ∀ t ∈ (s.node i).tasks, Guarded tr s.shared t

/-- Where a handler holds a row, it can issue a token of it. -/
theorem capped_of_held {t : Pending Reply} {u : User} (h : held? t = some u) :
    capped? t = some (u.id, u.tokenVersion) := by
  have hnot : ∀ k r, t ≠ ⟨.refresh k, r⟩ := by
    rintro k (_ | r) rfl
    · cases h
    · cases h
  obtain ⟨p, r⟩ := t
  cases p with
  | refresh k => exact absurd rfl (hnot k r)
  | _ => exact congrArg (Option.map fun u : User => (u.id, u.tokenVersion)) h

/-- A handler of something else. -/
theorem Guarded.other {tr : List (Event I)} {d : Database} {t : Pending Reply} (hc : capped? t = none)
    (ha : (t.point.authorisation : Option (Event I → Bool)) = none) : Guarded tr d t where
  called _ q hq := by
    rw [ha] at hq
    cases hq
  current c hcap := by
    rw [hc] at hcap
    cases hcap
  fenced c hcap := by
    rw [hc] at hcap
    cases hcap

/-- A handler that goes on. -/
theorem Guarded.next {tr : List (Event I)} {d : Database} {p q : Point} {r : Reply p} (h : Guarded tr d ⟨p, some r⟩)
    (ha : (q.authorisation : Option (Event I → Bool)) = p.authorisation)
    (hc : ∀ c ∈ capped? ⟨q, none⟩, ∃ n, (c.1, n) ∈ capped? ⟨p, some r⟩ ∧ c.2 ≤ n) : Guarded tr d ⟨q, none⟩ where
  called _ x hx := by
    rw [ha] at hx
    exact h.called (fun _ _ _ he => by cases he) x hx
  current c hcap := by
    obtain ⟨n, hn, hle⟩ := hc c hcap
    obtain ⟨v, hv, hnv⟩ := h.current _ hn
    exact ⟨v, hv, hle.trans hnv⟩
  fenced c hcap x hx b hb v hv := by
    obtain ⟨n, hn, hle⟩ := hc c hcap
    rw [ha] at hx
    exact hle.trans_lt (h.fenced _ hn x hx b hb v hv)

end Events

/-! ## Steps -/

section Steps

variable {I : Type} [DecidableEq I] {C : Config} {s s' : State I} {a : Action I} {o : Output I} {tr : List (Event I)}

/-- A handler that a step leaves as it is. -/
theorem Guarded.mono {t : Pending Reply} (h : Guarded tr s.shared t) (hs : Step C s a o s') :
    Guarded (tr ++ [⟨s, a, o, s'⟩]) s'.shared t where
  called hne q hq := by
    rw [List.any_append, h.called hne q hq, Bool.true_or]
  current c hc := by
    obtain ⟨v, hv, hle⟩ := h.current c hc
    obtain ⟨w, hw, hvw⟩ := version_step hs hv
    exact ⟨w, hw, hle.trans hvw⟩
  fenced c hc q hq b hb v hv := by
    rw [Machine.after_snoc] at hb
    split at hb
    · cases hb
    · rcases List.mem_append.mp hb with hb | hb
      · exact h.fenced c hc q hq b hb v hv
      · cases List.mem_singleton.mp hb
        obtain ⟨-, u, hu, hlt⟩ := raised_iff.mp hv
        obtain ⟨w, hw, hle⟩ := h.current c hc
        rw [show s.shared.version c.1 = some u from hu] at hw
        cases hw
        exact hle.trans_lt hlt

omit [DecidableEq I] in
/-- What the answer to a query leaves of a handler. -/
theorem guarded_resume {p q : Point} {r : Reply p} {d : Database} (hc : Continues C p r q)
    (ht : Guarded tr d ⟨p, some r⟩) : Guarded tr d ⟨q, none⟩ := by
  cases hc with
  | refresh k user hv =>
    refine ht.next rfl fun c hcap => ?_
    cases hcap
    exact ⟨k.bearer.ver, rfl, hv⟩
  | fullFind userId k user | fullLink user k | fullCreate user k err | refreshJti k user =>
    refine ht.next rfl fun c hcap => ?_
    cases hcap
    exact ⟨user.tokenVersion, rfl, le_rfl⟩
  | _ => exact ht.next rfl fun c hcap => by cases hcap

/-- The query that the code goes on with raises no version. -/
theorem not_bumps {p : Point} (hp : p.unchecked = true) (id : String) : p.query.bumps id = false := by
  cases p with
  | claimUpdate k hash | mintElevatedToken userId k | fullFind userId k | fullCreate user k => rfl
  | guestUpdate userId attempt username k => rfl
  | _ => cases hp

omit [DecidableEq I] in
/-- Where a query is not late, no version of the row that it is answered was raised since the authorisation. -/
theorem not_late {i : I} {n : ℕ} {x : Choice} {p : Point}
    (hx : s.executed (.exec i n x : Action I) = some (i, p)) (hp : p.unchecked = true)
    (hl : late C tr (⟨s, .exec i n x, o, s'⟩ : Event I) = false) {u : User}
    (hu : p.query.row? (p.query.run C.lower x s.shared).1 = some u) :
    ∀ q ∈ p.authorisation, ∀ b ∈ Machine.after q tr, raised u.id b = none := by
  intro q hq b hb
  by_contra hne
  have hany : (Machine.after q tr).any (fun b => (raised u.id b).isSome) = true :=
    List.any_eq_true.mpr ⟨b, hb, Option.isSome_iff_ne_none.mpr hne⟩
  have hq : p.authorisation = some q := hq
  simp [late, hx, hp, hq, hu, hany] at hl

/-- The same, with the query itself. -/
theorem not_late_snoc {i : I} {n : ℕ} {x : Choice} {p : Point} (hs : Step C s (.exec i n x) o s')
    (hx : s.executed (.exec i n x : Action I) = some (i, p)) (hp : p.unchecked = true)
    (hl : late C tr (⟨s, .exec i n x, o, s'⟩ : Event I) = false) {u : User}
    (hu : p.query.row? (p.query.run C.lower x s.shared).1 = some u) :
    ∀ q ∈ p.authorisation, ∀ b ∈ Machine.after q (tr ++ [⟨s, .exec i n x, o, s'⟩]), raised u.id b = none := by
  intro q hq b hb
  rw [Machine.after_snoc] at hb
  split at hb
  · cases hb
  · rcases List.mem_append.mp hb with hb | hb
    · exact not_late hx hp hl hu q hq b hb
    · cases List.mem_singleton.mp hb
      by_contra hne
      obtain ⟨v, hv⟩ := Option.ne_none_iff_exists'.mp hne
      obtain ⟨j, p', hx', hbump⟩ := raised_step hs hv
      rw [hx] at hx'
      cases hx'
      rw [not_bumps hp] at hbump
      cases hbump

/-- What the execution of a query leaves of its handler. -/
theorem guarded_exec {i : I} {n : ℕ} {x : Choice} {p : Point} (hs : Step C s (.exec i n x) o s')
    (hx : s.executed (.exec i n x : Action I) = some (i, p)) (ht : Guarded tr s.shared ⟨p, none⟩)
    (hl : late C tr (⟨s, .exec i n x, o, s'⟩ : Event I) = false) :
    Guarded (tr ++ [⟨s, .exec i n x, o, s'⟩]) s'.shared ⟨p, some (p.query.run C.lower x s.shared).1⟩ := by
  have hmono := ht.mono hs
  -- the row that is answered has its version in the database
  have hrow : ∀ u, p.query.row? (p.query.run C.lower x s.shared).1 = some u →
      s'.shared.version u.id = some u.tokenVersion := by
    intro u hu
    rw [(Tasks.exec_step hs hx).1]
    exact version_of_find (row_run C.lower p.query x s.shared hu)
  have hlate : p.unchecked = true → ∀ u, p.query.row? (p.query.run C.lower x s.shared).1 = some u →
      ∀ q ∈ p.authorisation, ∀ b ∈ Machine.after q (tr ++ [⟨s, .exec i n x, o, s'⟩]), raised u.id b = none :=
    fun hp u hu => not_late_snoc hs hx hp hl hu
  cases p with
  | login username password draws =>
    have hcheck : checksPassword draws.jti (⟨s, .exec i n x, o, s'⟩ : Event I) = true := by
      simp [checksPassword, hx]
    refine ⟨fun _ q hq => ?_, fun c hc => ?_, fun c hc q hq b hb => ?_⟩
    · cases hq
      rw [List.any_append, List.any_cons, hcheck, Bool.true_or, Bool.or_true]
    · obtain ⟨u, hu, rfl⟩ := Option.map_eq_some_iff.mp hc
      exact ⟨u.tokenVersion, hrow u hu, le_rfl⟩
    · cases hq
      rw [Machine.after_snoc, if_pos hcheck] at hb
      cases hb
  | refresh k =>
    refine ⟨fun _ => hmono.called (fun _ _ _ he => by cases he), fun c hc => ?_, fun c hc => ?_⟩
    all_goals
      obtain ⟨u, hu, rfl⟩ := Option.map_eq_some_iff.mp hc
      rw [show u.id = k.bearer.sub from (Database.findUser_iff.mp (read_row hu)).2]
    · exact hmono.current (k.bearer.sub, k.bearer.ver) rfl
    · exact hmono.fenced (k.bearer.sub, k.bearer.ver) rfl
  | fullLink user k | fullCreate user k | fullOwner user k | refreshJti k user | refreshClaim k user =>
    exact ⟨fun _ => hmono.called (fun _ _ _ he => by cases he), hmono.current, hmono.fenced⟩
  | claimUpdate k hash | mintElevatedToken userId k | fullFind userId k | guestUpdate userId attempt username k =>
    refine ⟨fun _ => hmono.called (fun _ _ _ he => by cases he), fun c hc => ?_, fun c hc q hq b hb v hv => ?_⟩
    all_goals obtain ⟨u, hu, rfl⟩ := Option.map_eq_some_iff.mp hc
    · exact ⟨u.tokenVersion, hrow u hu, le_rfl⟩
    · rw [hlate rfl u hu q hq b hb] at hv
      cases hv
  | registerCreate row draws | guest attempt row draws | setPasswordUpdate k hash | signIn k | signInWinner k =>
    refine ⟨fun _ q hq => (by cases hq), fun c hc => ?_, fun c hc q hq => by cases hq⟩
    obtain ⟨u, hu, rfl⟩ := Option.map_eq_some_iff.mp hc
    exact ⟨u.tokenVersion, hrow u hu, le_rfl⟩
  | signInCreate attempt row k =>
    refine ⟨fun _ q hq => (by cases hq), fun c hc => ?_, fun c hc q hq => by cases hq⟩
    obtain ⟨u, hu, rfl⟩ := Option.map_eq_some_iff.mp hc
    exact ⟨u.tokenVersion, hrow u hu, le_rfl⟩
  | _ =>
    exact ⟨fun _ => hmono.called (fun _ _ _ he => by cases he), fun c hc => (by cases hc), fun c hc => by cases hc⟩

/-- What a request leaves of its handler. -/
theorem guarded_start {i : I} {req : Request} {p : Point} (hs : Step C s (.start i req) o s')
    (hg : genuine tr (⟨s, .start i req, o, s'⟩ : Event I) = true) (hI : Versioned tr s)
    (hn : (start C req (s.node i).loc).next = .await p) :
    Guarded (tr ++ [⟨s, .start i req, o, s'⟩]) s'.shared ⟨p, none⟩ := by
  have hcall : ∀ {q : Event I → Bool}, q ⟨s, .start i req, o, s'⟩ = true →
      (tr ++ [(⟨s, .start i req, o, s'⟩ : Event I)]).any q = true := by
    intro q hq
    rw [List.any_append, List.any_cons, hq, Bool.true_or, Bool.or_true]
  obtain ⟨hauth, hbearer⟩ := Bool.and_eq_true_iff.mp hg
  -- the flow of a callback was started before
  have hflow : ∀ sealed identity draws userId, req = .callback sealed identity draws → sealed.target = some userId →
      ∀ p : Point, p.authorisation = some (startsFlow (I := I) sealed.state sealed.linkUserId) →
      capped? ⟨p, none⟩ = none → Guarded (tr ++ [⟨s, .start i req, o, s'⟩]) s'.shared ⟨p, none⟩ := by
    rintro sealed identity draws userId rfl ht p ha hc
    have hnone : ∀ c, c ∉ capped? ⟨p, none⟩ := fun c hcap => by
      rw [hc] at hcap
      cases hcap
    refine ⟨fun _ q hq => ?_, fun c hcap => absurd hcap (hnone c), fun c hcap => absurd hcap (hnone c)⟩
    rw [ha] at hq
    cases hq
    obtain ⟨e, he, hout⟩ := List.any_eq_true.mp hauth
    obtain ⟨⟨j, sent⟩, ho, hsent⟩ := (Option.any_eq_true _ _).mp hout
    obtain ⟨y, hy, hsealed⟩ := List.any_eq_true.mp hsent
    cases y with
    | started sealed' =>
      obtain rfl : sealed' = sealed := of_decide_eq_true hsealed
      obtain ⟨hid, -⟩ := Option.filter_eq_some_iff.mp ht
      have hmem : .started sealed' ∈ responses e := by
        rw [responses, ho]
        exact hy
      rw [List.any_append, hI.started e he sealed' hmem (by rw [hid]; exact Option.some_ne_none userId), Bool.true_or]
    | _ => cases hsealed
  cases start_opens hn with
  | register | guest | signIn | setPassword | logoutAll => exact .other rfl rfl
  | login username password draws =>
    exact ⟨fun hne => absurd rfl (hne _ _ _), fun c hc => (by cases hc), fun c hc => by cases hc⟩
  | claim bearer username email password username' email' draws =>
    refine ⟨fun _ q hq => ?_, fun c hc => (by cases hc), fun c hc => by cases hc⟩
    cases hq
    exact hcall (by simp [bears])
  | linkStart bearer password draws | reauthStart bearer draws =>
    refine ⟨fun _ q hq => ?_, fun c hc => (by cases hc), fun c hc => by cases hc⟩
    cases hq
    exact hcall (by simp [startsFlow])
  | reauthOwner sealed identity draws userId ht => exact hflow sealed identity draws userId rfl ht _ rfl rfl
  | fullFind sealed identity draws userId ht => exact hflow sealed identity draws userId rfl ht _ rfl rfl
  | guestFind sealed identity draws userId ht => exact hflow sealed identity draws userId rfl ht _ rfl rfl
  | refresh bearer draws start he =>
    have hbears : bears bearer draws.jti (⟨s, .start i (.refresh bearer draws), o, s'⟩ : Event I) = true := by
      simp [bears]
    refine ⟨fun _ q hq => ?_, fun c hc => ?_, fun c hc q hq b hb => ?_⟩
    · cases hq
      exact hcall hbears
    · cases hc
      obtain ⟨e, he, hmem⟩ := List.any_eq_true.mp hbearer
      obtain ⟨v, hv, hle⟩ := hI.issued e he bearer (of_decide_eq_true hmem)
      obtain ⟨w, hw, hvw⟩ := version_step hs hv
      exact ⟨w, hw, hle.trans hvw⟩
    · cases hq
      rw [Machine.after_snoc, if_pos hbears] at hb
      cases hb

/-- Whom a flow is started for that a step answers. -/
theorem started_flow (hs : Step C s a o s') (hI : Versioned tr s) {sealed : OAuthState}
    (hmem : .started sealed ∈ responses (⟨s, a, o, s'⟩ : Event I)) (hid : sealed.linkUserId ≠ none) :
    tr.any (startsFlow sealed.state sealed.linkUserId) = true := by
  cases o with
  | none => cases hmem
  | some out =>
    obtain ⟨i, sent⟩ := out
    obtain ⟨d, u, hb, hsent, -⟩ := Tasks.sent_cases hs rfl
    have hmem : .started sealed ∈ u.sent := hsent ▸ hmem
    cases hb with
    | start req hm =>
      rcases start_answers (C := C) hmem with hx | ⟨draws, -, hx⟩
      · cases hx
      · cases hx
        exact absurd rfl hid
    | resume pre post p r hm hc =>
      have hcalled := (hI.tasks i _ (Office.replied_mem hm)).called fun _ _ _ he => by cases he
      have hmem : Response.started sealed ∈ (resume C p r (s.node i).loc).sent := hmem
      cases resume_answers hmem with
      | refuses p r x hx => cases hx
      | linkGuest k row hm | linkFull k user hv | reauth k row hm => exact hcalled _ rfl
    | enter q rest hm hq hfree => exact nomatch q

/-- A token that a step issues is not above the version of its user, and below every version that was raised since the
authorisation of its handler. -/
theorem issued_guarded (hs : Step C s a o s') (hI : Versioned tr s) {token : Token}
    (h : token ∈ issued (⟨s, a, o, s'⟩ : Event I)) :
    ∃ p, handler? (⟨s, a, o, s'⟩ : Event I) = some p ∧ (∃ v, s.shared.version token.sub = some v ∧ token.ver ≤ v) ∧
      ∀ q ∈ p.authorisation, tr.any q = true ∧
        ∀ b ∈ Machine.after q tr, ∀ v ∈ raised token.sub b, token.ver < v := by
  obtain ⟨i, p, r, hr, u, hu, hsub, hver⟩ := issued_step hs h
  have ht := hI.tasks i _ (Office.replied_mem hr)
  have hcap := capped_of_held hu
  rw [hsub, hver]
  refine ⟨p, by simp [handler?, hr], ht.current _ hcap, fun q hq => ⟨?_, ht.fenced _ hcap q hq⟩⟩
  exact ht.called (fun _ _ _ he => by cases he) q hq

/-- A provider row that a step attaches is attached by a query. -/
theorem attached_step (hs : Step C s a o s') {id : String} (h : id ∈ attached (⟨s, a, o, s'⟩ : Event I)) :
    ∃ i n x p, a = .exec i n x ∧ s.executed a = some (i, p) ∧ p.query.link? ≠ none ∧
      ∃ u, p.query.row? (p.query.run C.lower x s.shared).1 = some u ∧ id = u.id := by
  obtain ⟨b, hfilter, rfl⟩ := List.mem_map.mp h
  obtain ⟨hmem, hfresh⟩ := List.mem_filter.mp hfilter
  have hb : b ∈ s'.shared.oauthAccount := hmem
  have hnew : b ∉ s.shared.oauthAccount := of_decide_eq_true hfresh
  cases hx : s.executed a with
  | none =>
    rcases accounts_shared hs with ⟨i, p, r, hx', -⟩ | ⟨-, hk⟩
    · rw [hx] at hx'
      cases hx'
    · rw [hk] at hb
      exact absurd hb hnew
  | some q =>
    obtain ⟨i, p⟩ := q
    obtain ⟨n, x, rfl⟩ := Office.executed_act hx
    rw [(Tasks.exec_step hs hx).1] at hb
    obtain ⟨hlink, u, hu, hid⟩ := (Query.wrote_run C.lower p.query x s.shared).attached hb hnew
    exact ⟨i, n, x, p, rfl, rfl, hlink, u, hu, hid⟩

omit [DecidableEq I] in
/-- A handler that has been authorised attaches a row without looking at the version. -/
theorem unchecked_of_link {p : Point} {q : Event I → Bool} (hl : p.query.link? ≠ none) (hq : q ∈ p.authorisation) :
    p.unchecked = true ∧ ∀ username password draws, p ≠ .login username password draws := by
  cases p with
  | fullCreate user k => exact ⟨rfl, fun _ _ _ he => by cases he⟩
  | guestUpdate userId attempt username k => exact ⟨rfl, fun _ _ _ he => by cases he⟩
  | signInCreate attempt row k => cases hq
  | _ => exact absurd rfl hl

omit [DecidableEq I] in
theorem handler_executed {i : I} {p : Point} (hx : s.executed a = some (i, p)) :
    handler? (⟨s, a, o, s'⟩ : Event I) = some p := by
  obtain ⟨n, x, rfl⟩ := Office.executed_act hx
  simp [handler?, hx, Office.replied]

/-- **One step** keeps the invariant, where what it brings was issued before and its query is not late. -/
theorem versioned_step (hs : Step C s a o s') (hg : genuine tr (⟨s, a, o, s'⟩ : Event I) = true)
    (hl : late C tr (⟨s, a, o, s'⟩ : Event I) = false) (hI : Versioned tr s) :
    Versioned (tr ++ [⟨s, a, o, s'⟩]) s' where
  issued e he token htoken := by
    have hbefore : ∃ v, s.shared.version token.sub = some v ∧ token.ver ≤ v := by
      rcases List.mem_append.mp he with he | he
      · exact hI.issued e he token htoken
      · cases List.mem_singleton.mp he
        obtain ⟨p, -, hcurrent, -⟩ := issued_guarded hs hI htoken
        exact hcurrent
    obtain ⟨v, hv, hle⟩ := hbefore
    obtain ⟨w, hw, hvw⟩ := version_step hs hv
    exact ⟨w, hw, hle.trans hvw⟩
  started e he sealed hmem hid := by
    rw [List.any_append]
    rcases List.mem_append.mp he with he | he
    · rw [hI.started e he sealed hmem hid, Bool.true_or]
    · cases List.mem_singleton.mp he
      rw [started_flow hs hI hmem hid, Bool.true_or]
  tasks j t ht := by
    cases a with
    | exec i n x =>
      rcases Tasks.mem_tasks_exec hs ht with h | ⟨p, hx, rfl, hp, rfl⟩
      · exact (hI.tasks j t h).mono hs
      · exact guarded_exec hs hx (hI.tasks i _ hp) hl
    | start i req =>
      rcases Tasks.mem_tasks hs ht with h | ⟨p, x, hx, -⟩ | ⟨d, u, p, hb, hn, rfl, -⟩
      · exact (hI.tasks j t h).mono hs
      · cases hx
      · cases hb with
        | start req' hm =>
          cases hm
          exact guarded_start hs hg hI hn
        | resume pre post q r hm hc => cases hm
        | enter q rest hm hq hfree => exact nomatch q
    | _ =>
      rcases Tasks.mem_tasks hs ht with h | ⟨p, x, hx, -⟩ | ⟨d, u, p, hb, hn, rfl, -⟩
      · exact (hI.tasks j t h).mono hs
      · cases hx
      · cases hb with
        | start req' hm => cases hm
        | resume pre post q r hm hc =>
          have hn : (resume C q r (s.node j).loc).next = .await p := hn
          exact (guarded_resume (resume_continues hn) (hI.tasks j _ (Office.replied_mem hm))).mono hs
        | enter q rest hm hq hfree => exact nomatch q

/-- **One step** is fenced, where its query is not late. -/
theorem fenced_step (hs : Step C s a o s') (hl : late C tr (⟨s, a, o, s'⟩ : Event I) = false) (hI : Versioned tr s) :
    Fenced tr (⟨s, a, o, s'⟩ : Event I) where
  authorised q hauth h := by
    obtain ⟨p, hp, hq⟩ := Option.bind_eq_some_iff.mp hauth
    rcases h with h | h
    · obtain ⟨token, htoken⟩ := List.exists_mem_of_ne_nil _ h
      obtain ⟨p', hp', -, hguard⟩ := issued_guarded hs hI htoken
      rw [hp] at hp'
      cases hp'
      exact (hguard q hq).1
    · obtain ⟨id, hid⟩ := List.exists_mem_of_ne_nil _ h
      obtain ⟨i, n, x, p', rfl, hx, hlink, -⟩ := attached_step hs hid
      rw [handler_executed hx] at hp
      cases hp
      refine (hI.tasks i _ (Office.executed_mem hx)).called (fun _ _ _ he => ?_) q hq
      cases he
      exact absurd rfl hlink
  tokens q hauth token htoken := by
    obtain ⟨p, hp, hq⟩ := Option.bind_eq_some_iff.mp hauth
    obtain ⟨p', hp', -, hguard⟩ := issued_guarded hs hI htoken
    rw [hp] at hp'
    cases hp'
    exact (hguard q hq).2
  links q hauth id hid := by
    obtain ⟨p, hp, hq⟩ := Option.bind_eq_some_iff.mp hauth
    obtain ⟨i, n, x, p', rfl, hx, hlink, u, hu, rfl⟩ := attached_step hs hid
    rw [handler_executed hx] at hp
    cases hp
    exact not_late hx (unchecked_of_link hlink hq).1 hl hu q hq
  earlier x hx token htoken v hv := by
    obtain ⟨w, hw, hle⟩ := hI.issued x hx token htoken
    obtain ⟨-, u, hu, hlt⟩ := raised_iff.mp hv
    rw [show s.shared.version token.sub = some u from hu] at hw
    cases hw
    exact hle.trans_lt hlt
  raises id v hv := by
    obtain ⟨i, p, hx, hbump⟩ := raised_step hs hv
    refine ⟨p, handler_executed hx, ?_⟩
    cases p with
    | logoutAll userId => exact Or.inl (by rw [of_decide_eq_true hbump])
    | setPasswordUpdate k hash => exact Or.inr ⟨k, hash, rfl, of_decide_eq_true hbump⟩
    | _ => cases hbump

end Steps

/-! ## The result -/

section Runs

variable {I : Type} [DecidableEq I]

/-- **A raised version fences what was authorised before it**, in every run in which no query is late. -/
theorem bump_fences (C : Config) (ops : List (Action I))
    (h : Machine.Always (fun tr e => genuine tr e = true ∧ late C tr e = false) ((machine I C).trace ops)) :
    Machine.Always Fenced ((machine I C).trace ops) := by
  refine (Machine.invariant_always (I := fun tr s => Versioned tr s ∧ Machine.Always Fenced tr) (machine I C)
    ⟨⟨?_, ?_, ?_⟩, ?_⟩ ?_ ops h).2
  · exact fun e he => absurd he List.not_mem_nil
  · exact fun e he => absurd he List.not_mem_nil
  · exact fun i t ht => absurd ht List.not_mem_nil
  · exact fun n hn => absurd hn (Nat.not_lt_zero n)
  · rintro tr s a ⟨hg, hl⟩ ⟨hI, hall⟩
    have hs : Step C s a _ _ := Tasks.step_cases (accounts C) s a
    exact ⟨versioned_step hs hg hl hI, Machine.always_snoc.mpr ⟨hall, fenced_step hs hl hI⟩⟩

end Runs

/-- A login whose password is checked before a log-out everywhere, and answered after it. -/
def loggedIn : List (Action Unit) :=
  signedUp ++ [.start () (.login "ann" "password" (drawing "")), .exec () 0 .done, .start () (.logoutAll annToken),
    .exec () 1 .done, .deliver () 1, .deliver () 0]

/-- Its token is of the version from before. -/
theorem bump_fences_login : Machine.Always Fenced ((machine Unit plain).trace loggedIn) :=
  bump_fences plain loggedIn (by decide +kernel)

/-- A link that is started before a log-out everywhere, and completed after it. -/
def outlived : List (Action Unit) :=
  signedUp ++ linking "s" ++ calling (.logoutAll annToken) 1 ++ linked "s" "g"

/-- It attaches the row, and its token is of the version from after. -/
theorem link_outlives : Machine.Always (fun tr e => genuine tr e = true) ((machine Unit plain).trace outlived) ∧
    ¬Machine.Always Fenced ((machine Unit plain).trace outlived) := by
  refine ⟨by decide +kernel, fun h => ?_⟩
  exact absurd (h 21 (by decide +kernel)).tokens (by decide +kernel)

end Account
end WatchParty
