import WatchParty.Auth.Snapshot

/-!
# Revocations and the live sockets of an instance

A socket is checked at its handshake, and closed when a revocation that names its token is announced on its instance.
The periodic sweep looks at nothing but expiry. What this comes to after a tick of the sweep, and the run in which a
reload brings a revocation that nobody announces.

- `refuses` is what a snapshot says of a token; `announcing` is the revocation that a handler has still to announce;
- `Reaches`: once a revocation is held and a tick is complete, no socket has a token that it names;
- `Quiet` is the condition on a step; `revocation_reaches` the result, `revocation_unheard` the run without it.
-/

namespace WatchParty
namespace Auth

/-- Do these tokens and versions refuse the token? -/
def refuses (tokens : Finset String) (versions : String → Option ℕ) (payload : TokenPayload) : Bool :=
  (jtiOf payload).any (· ∈ tokens) ||
    (subjectOf payload).any fun sub => (versionOf payload).any (· < level versions sub)

def Revocations.refuses (r : Revocations) (payload : TokenPayload) : Bool :=
  Auth.refuses r.revokedTokens r.userVersions payload

theorem refuses_iff {tokens : Finset String} {versions : String → Option ℕ} {payload : TokenPayload} :
    refuses tokens versions payload = true ↔ (∃ jti ∈ tokens, jtiOf payload = some jti) ∨
      ∃ sub v, subjectOf payload = some sub ∧ versionOf payload = some v ∧ v < level versions sub := by
  simp only [refuses, Bool.or_eq_true, Option.any_eq_true, decide_eq_true_eq]
  constructor
  · rintro (⟨jti, hj, hm⟩ | ⟨sub, hs, v, hv, hlt⟩)
    · exact Or.inl ⟨jti, hm, hj⟩
    · exact Or.inr ⟨sub, v, hs, hv, hlt⟩
  · rintro (⟨jti, hm, hj⟩ | ⟨sub, v, hs, hv, hlt⟩)
    · exact Or.inl ⟨jti, hj, hm⟩
    · exact Or.inr ⟨sub, hs, v, hv, hlt⟩

/-- What a revocation that is held names is refused. -/
theorem refuses_of_held {r : Revocations} {rev : Revocation} {payload : TokenPayload} (hh : rev.Held r)
    (hn : rev.Names payload) : r.refuses payload = true := by
  refine refuses_iff.mpr ?_
  cases rev with
  | token jti => exact Or.inl ⟨jti, hh, hn⟩
  | user userId version =>
    obtain ⟨hsub, v, hv, hlt⟩ := hn
    exact Or.inr ⟨userId, v, hsub, hv, lt_of_lt_of_le hlt hh⟩

/-- What is refused once a revocation is remembered was refused, or the revocation names it. -/
theorem refuses_remember {r : Revocations} {rev : Revocation} {payload : TokenPayload}
    (h : (rev.remember r).refuses payload = true) : r.refuses payload = true ∨ rev.Names payload := by
  rcases refuses_iff.mp h with ⟨jti, hm, hj⟩ | ⟨sub, v, hs, hv, hlt⟩
  · cases rev with
    | token jti' =>
      rcases Finset.mem_insert.mp hm with rfl | hm
      · exact Or.inr hj
      · exact Or.inl (refuses_iff.mpr (Or.inl ⟨jti, hm, hj⟩))
    | user userId version => exact Or.inl (refuses_iff.mpr (Or.inl ⟨jti, hm, hj⟩))
  · cases rev with
    | token jti => exact Or.inl (refuses_iff.mpr (Or.inr ⟨sub, v, hs, hv, hlt⟩))
    | user userId version =>
      have hl := level_raise r.userVersions userId sub version
      rw [show level (Revocation.remember (.user userId version) r).userVersions sub = _ from hl] at hlt
      rcases lt_sup_iff.mp hlt with hlt | hlt
      · exact Or.inl (refuses_iff.mpr (Or.inr ⟨sub, v, hs, hv, hlt⟩))
      · split at hlt
        · rename_i he
          exact Or.inr ⟨he ▸ hs, v, hv, hlt⟩
        · exact absurd hlt (Nat.not_lt_zero v)

/-- What is refused once a reload has merged it has read, or what is pending refuses. -/
theorem refuses_install {r : Revocations} {tokens : Finset String} {users : String → Option ℕ} {payload : TokenPayload}
    (h : (r.install tokens users).refuses payload = true) :
    refuses tokens users payload = true ∨ refuses r.pendingTokens r.pendingVersions payload = true := by
  rcases refuses_iff.mp h with ⟨jti, hm, hj⟩ | ⟨sub, v, hs, hv, hlt⟩
  · rcases Finset.mem_union.mp hm with hm | hm
    · exact Or.inl (refuses_iff.mpr (Or.inl ⟨jti, hm, hj⟩))
    · exact Or.inr (refuses_iff.mpr (Or.inl ⟨jti, hm, hj⟩))
  · rw [show level (r.install tokens users).userVersions sub = _ from level_mergeVersions _ _ _] at hlt
    rcases lt_sup_iff.mp hlt with hlt | hlt
    · exact Or.inl (refuses_iff.mpr (Or.inr ⟨sub, v, hs, hv, hlt⟩))
    · exact Or.inr (refuses_iff.mpr (Or.inr ⟨sub, v, hs, hv, hlt⟩))

/-- A snapshot that lets a token in does not refuse it. -/
theorem refuses_of_isRevoked {r : Revocations} {payload : TokenPayload}
    (h : (r.isRevoked payload).isSome = false) : r.refuses payload = false := by
  by_contra hr
  rw [Bool.not_eq_false] at hr
  rcases refuses_iff.mp hr with ⟨jti, hm, hj⟩ | ⟨sub, v, hs, hv, hlt⟩
  · have hrev : Revocation.Held r (.token jti) := hm
    rw [isRevoked_of_held hrev hj] at h
    cases h
  · have hrev : Revocation.Held r (.user sub (level r.userVersions sub)) := le_rfl
    rw [isRevoked_of_held hrev ⟨hs, v, hv, hlt⟩] at h
    cases h

/-! ## What a stretch does to the sockets -/

/-- What a socket carries is what the token of its handshake says. -/
structure Socket.Sound (k : Socket) : Prop where
  userId : subjectOf k.payload = some k.data.userId
  jti : jtiOf k.payload = k.data.jti
  version : versionOf k.payload = some k.data.tokenVersion

theorem Socket.sound_iff {k : Socket} :
    k.Sound ↔ subjectOf k.payload = some k.data.userId ∧ jtiOf k.payload = k.data.jti ∧
      versionOf k.payload = some k.data.tokenVersion :=
  ⟨fun h => ⟨h.userId, h.jti, h.version⟩, fun ⟨h1, h2, h3⟩ => ⟨h1, h2, h3⟩⟩

/-- Nobody has evicted the socket. -/
def Socket.Alive (k : Socket) : Prop := k.phase ≠ .closing

instance (k : Socket) : Decidable k.Alive := inferInstanceAs (Decidable (k.phase ≠ .closing))

/-- The socket was there with the same token, and has got no further from its end. -/
def Socket.Was (k' : Socket) (sockets : List Socket) : Prop :=
  ∃ k ∈ sockets, k.id = k'.id ∧ k.payload = k'.payload ∧ k.data = k'.data ∧ (k'.Alive → k.Alive) ∧
    (k'.phase = .opening → k.phase = .opening)

/-- Every socket was there. -/
def Back (sockets sockets' : List Socket) : Prop := ∀ k' ∈ sockets', k'.Was sockets

theorem Back.refl (sockets : List Socket) : Back sockets sockets := fun k hk => ⟨k, hk, rfl, rfl, rfl, id, id⟩

/-- A socket that is alive after an eviction was not registered, or there was no reason. -/
theorem alive_evictAll {reason : AuthedSocketData → Option Reason} {sockets : List Socket} {k' : Socket}
    (h : k' ∈ (evictAll reason sockets).1) (ha : k'.Alive) :
    k' ∈ sockets ∧ ¬(k'.registered = true ∧ (reason k'.data).isSome = true) := by
  obtain ⟨k, hk, rfl⟩ := List.mem_map.mp h
  split at ha
  · exact absurd rfl ha
  · rename_i hn
    rw [if_neg hn]
    exact ⟨hk, hn⟩

theorem back_evictAll (reason : AuthedSocketData → Option Reason) (sockets : List Socket) :
    Back sockets (evictAll reason sockets).1 := by
  intro k' hk'
  by_cases ha : k'.Alive
  · exact ⟨k', (alive_evictAll hk' ha).1, rfl, rfl, rfl, id, id⟩
  · obtain ⟨k, hk, rfl⟩ := List.mem_map.mp hk'
    refine ⟨k, hk, ?_, ?_, ?_, fun h => absurd h ha, fun h => absurd (by rw [Socket.Alive, h]; nofun) ha⟩
    all_goals split <;> rfl

/-- A socket whose token a revocation names is evicted when the revocation is announced. -/
theorem evictionReason_of_names {rev : Revocation} {k : Socket} (hs : k.Sound) (hn : rev.Names k.payload) :
    (evictionReason rev.event k.data).isSome = true := by
  cases rev with
  | token jti =>
    have hj : jtiOf k.payload = some jti := hn
    have hdata : k.data.jti = some jti := hs.jti.symm.trans hj
    simp [Revocation.event, evictionReason, (nonempty_ne hj).2, hdata]
  | user userId version =>
    obtain ⟨hsub, v, hv, hlt⟩ := hn
    have hu : k.data.userId = userId := Option.some.inj (hs.userId.symm.trans hsub)
    have ht : k.data.tokenVersion = v := Option.some.inj (hs.version.symm.trans hv)
    simp [Revocation.event, evictionReason, (nonempty_ne hsub).2, hu, ht, hlt]

theorem event_of_revocation {ev : RevocationEvent} {rev : Revocation} (h : ev.revocation? = some rev) :
    ev = rev.event := by
  unfold RevocationEvent.revocation? at h
  split at h
  · split at h
    · cases h
    · cases h
      rfl
  · split at h
    · cases h
    · rename_i userId version _
      obtain ⟨v, hv, h⟩ := Option.bind_eq_some_iff.mp h
      split at h
      · cases h
        rw [natural_eq_some.mp hv]
        rfl
      · cases h
  · cases h

/-- What a handshake lets in is sound, and not refused. -/
theorem sound_handshake {id : ℕ} {nsp : Namespace} {payload : SessionToken} {clock : ℕ} {r : Revocations} {k : Socket}
    (h : wsAuthMiddleware id nsp payload clock r = .ok k) :
    k.Sound ∧ k.payload = payload.toTokenPayload ∧ k.id = id ∧ r.refuses k.payload = false ∧
      verify clock payload = true := by
  unfold wsAuthMiddleware at h
  split at h
  · rename_i hv
    split at h
    · cases h
    · rename_i sub hsub
      split at h
      · cases h
      · rename_i hr
        rw [Bool.not_eq_true] at hr
        cases h
        refine ⟨⟨hsub, rfl, ?_⟩, rfl, rfl, refuses_of_isRevoked hr, hv⟩
        cases hver : versionOf payload.toTokenPayload with
        | some v => rfl
        | none =>
          unfold Revocations.isRevoked at hr
          split at hr
          · cases hr
          · split at hr
            · cases hr
            · simp [hsub, hver] at hr
  · cases h

/-- The revocation that a handler has still to announce. -/
def announcing (t : Pending Reply) : Option Revocation :=
  match t.point with
  | .sadd jti _ => some (.token jti)
  | .hset userId version _ => some (.user userId version)
  | _ => none

/-- The revocation that a request announces to the sockets. -/
def Request.announces : Request → Option Revocation
  | .message ev => ev.revocation?
  | _ => none

/-- Whom a request leaves: the sockets that were there, and one that it lets in. -/
theorem start_sockets (req : Request) (l : Instance) {k' : Socket} (hk : k' ∈ (start req l).loc.sockets) :
    k'.Was l.sockets ∨
    ∃ nsp payload, req = .handshake k'.id nsp payload ∧
      wsAuthMiddleware k'.id nsp payload l.clock l.revocations = .ok k' ∧
      (start req l).loc.revocations = l.revocations := by
  cases req with
  | message ev =>
    simp only [start, applyEvent] at hk
    split at hk
    · exact Or.inl (Back.refl _ k' hk)
    · exact Or.inl (back_evictAll _ _ k' hk)
  | refresh =>
    simp only [start] at hk
    split at hk <;> exact Or.inl (Back.refl _ k' hk)
  | refreshSession payload uuid =>
    simp only [start, refreshSession] at hk
    repeat' split at hk
    all_goals exact Or.inl (Back.refl _ k' hk)
  | handshake id nsp payload =>
    simp only [start] at hk ⊢
    split at hk
    · exact Or.inl (Back.refl _ k' hk)
    · rename_i k hw
      rcases List.mem_append.mp hk with hk | hk
      · exact Or.inl (Back.refl _ k' hk)
      · rw [List.mem_singleton] at hk
        subst hk
        obtain ⟨-, -, rfl, -, -⟩ := sound_handshake hw
        exact Or.inr ⟨nsp, payload, rfl, hw, rfl⟩
  | register id =>
    obtain ⟨k, hmem, rfl⟩ := List.mem_map.mp hk
    refine Or.inl ⟨k, hmem, ?_⟩
    split
    · rename_i hp
      refine ⟨rfl, rfl, rfl, fun _ => by simp [Socket.Alive, hp.2], fun h => by cases h⟩
    · exact ⟨rfl, rfl, rfl, fun h => h, fun h => h⟩
  | close id => exact Or.inl (Back.refl _ k' (List.mem_filter.mp hk).1)
  | expirySweep => exact Or.inl (back_evictAll _ _ k' hk)
  | _ => exact Or.inl (Back.refl _ k' hk)

theorem resume_sockets (lifetime : ℤ) (p : Point) (r : Reply p) (l : Instance) :
    Back l.sockets (resume lifetime p r l).loc.sockets := by
  cases p with
  | sadd jti c | hset userId version c => exact back_evictAll _ _
  | publish ev c =>
    simp only [resume, answer_loc]
    exact .refl _
  | findUser o =>
    rcases r with _ | _ | user
    · exact .refl _
    · exact .refl _
    · simp only [resume, checkVersion_loc]
      exact .refl _
  | findUnique jti k => rcases r with _ | _ | _ <;> exact .refl _
  | rebuild tokens users | deleteMany cutoff => exact .refl _
  | _ => cases r <;> exact .refl _

/-! ## What a run keeps -/

section Heard

/-- What holds of an instance: its sockets are sound, and one that is alive with a token that the snapshot refuses is
named by a revocation that has still to be announced. -/
structure Heard (d : Desk Instance Empty Reply) : Prop where
  sound : ∀ k ∈ d.loc.sockets, k.Sound
  heard : ∀ k ∈ d.loc.sockets, k.Alive → d.loc.revocations.refuses k.payload = true →
    ∃ t ∈ d.tasks, ∃ rev ∈ announcing t, rev.Names k.payload

/-- The revocation that a step announces to the sockets of an instance. -/
def announced {I : Type} (e : Event I) : Option (I × Revocation) :=
  match started e.act, e.pre.replied e.act with
  | some (i, req), _ => req.announces.map fun rev => (i, rev)
  | none, some (i, ⟨p, r⟩) => (announcing ⟨p, some r⟩).map fun rev => (i, rev)
  | none, none => none

/-- The token that a step finds revoked by somebody else when it wants to revoke it. -/
def takenBy {I : Type} (e : Event I) : Option (I × String) :=
  match e.pre.replied e.act with
  | some (i, ⟨.create jti _, .taken⟩) => some (i, jti)
  | _ => none

/-- Is the request a tick of the sweep? -/
def Request.isSweep : Request → Bool
  | .expirySweep => true
  | _ => false

/-- What a step must not do: announce a revocation while a socket that it names has passed its handshake and is
not registered; bring a revocation that is not announced, by a reload or by a create that finds the row taken, while a socket
that it names is alive; or run the sweep while a revocation that names such a socket has still to be announced. -/
structure Quiet {I : Type} (e : Event I) : Prop where
  announced : ∀ q ∈ announced e, ∀ k ∈ (e.pre.node q.1).loc.sockets, k.phase = .opening → ¬q.2.Names k.payload
  taken : ∀ q ∈ takenBy e, ∀ k ∈ (e.pre.node q.1).loc.sockets, k.Alive → (Revocation.token q.2).Names k.payload →
    (e.pre.node q.1).loc.revocations.refuses k.payload = true
  merged : ∀ q ∈ e.pre.replied e.act, ∀ tokens ∈ tokensOf ⟨q.2.1, some q.2.2⟩, ∀ users ∈ usersOf ⟨q.2.1, some q.2.2⟩,
    ∀ k ∈ (e.pre.node q.1).loc.sockets, k.Alive →
      refuses tokens users k.payload = true ∨ refuses (e.pre.node q.1).loc.revocations.pendingTokens
        (e.pre.node q.1).loc.revocations.pendingVersions k.payload = true →
      (e.pre.node q.1).loc.revocations.refuses k.payload = true
  sweep : ∀ q ∈ started e.act, q.2.isSweep = true → ∀ t ∈ (e.pre.node q.1).tasks, ∀ rev ∈ announcing t,
    ∀ k ∈ (e.pre.node q.1).loc.sockets, rev.Names k.payload → ¬k.Alive

instance {I : Type} (e : Event I) : Decidable (Quiet e) :=
  decidable_of_iff
    ((∀ q ∈ announced e, ∀ k ∈ (e.pre.node q.1).loc.sockets, k.phase = .opening → ¬q.2.Names k.payload) ∧
      (∀ q ∈ takenBy e, ∀ k ∈ (e.pre.node q.1).loc.sockets, k.Alive → (Revocation.token q.2).Names k.payload →
        (e.pre.node q.1).loc.revocations.refuses k.payload = true) ∧
      (∀ q ∈ e.pre.replied e.act, ∀ tokens ∈ tokensOf ⟨q.2.1, some q.2.2⟩, ∀ users ∈ usersOf ⟨q.2.1, some q.2.2⟩,
        ∀ k ∈ (e.pre.node q.1).loc.sockets, k.Alive →
          refuses tokens users k.payload = true ∨ refuses (e.pre.node q.1).loc.revocations.pendingTokens
            (e.pre.node q.1).loc.revocations.pendingVersions k.payload = true →
          (e.pre.node q.1).loc.revocations.refuses k.payload = true) ∧
      ∀ q ∈ started e.act, q.2.isSweep = true → ∀ t ∈ (e.pre.node q.1).tasks, ∀ rev ∈ announcing t,
        ∀ k ∈ (e.pre.node q.1).loc.sockets, rev.Names k.payload → ¬k.Alive)
    ⟨fun ⟨h1, h2, h3, h4⟩ => ⟨h1, h2, h3, h4⟩, fun h => ⟨h.announced, h.taken, h.merged, h.sweep⟩⟩

variable {I : Type} {lifetime : ℤ} {s : State I} {a : Action I} {j : I} {d : Desk Instance Empty Reply}
  {t : Stretch} {x : Option (Pending Reply)} {told : Option Revocation}

/-- Where the sockets that a stretch leaves come from. -/
theorem Ran.sockets (h : Ran lifetime s a j d t x told) {k' : Socket} (hk : k' ∈ t.loc.sockets) :
    k'.Was (s.node j).loc.sockets ∨
    ∃ nsp payload, a = .start j (.handshake k'.id nsp payload) ∧
      wsAuthMiddleware k'.id nsp payload (s.node j).loc.clock (s.node j).loc.revocations = .ok k' ∧
      t.loc.revocations = (s.node j).loc.revocations := by
  rcases h.origin with ⟨req, rfl, -, -, rfl⟩ | ⟨p, r, -, -, -, rfl⟩
  · rcases start_sockets req _ hk with h | ⟨nsp, payload, rfl, h⟩
    · exact Or.inl h
    · exact Or.inr ⟨nsp, payload, rfl, h⟩
  · exact Or.inl (resume_sockets lifetime p r _ k' hk)

theorem Ran.sound (h : Ran lifetime s a j d t x told) (hI : Heard (s.node j)) {k' : Socket} (hk : k' ∈ t.loc.sockets) :
    k'.Sound := by
  rcases h.sockets hk with ⟨k, hmem, -, hp, hd, -⟩ | ⟨nsp, payload, -, hw, -⟩
  · have hs := hI.sound k hmem
    rw [Socket.sound_iff, ← hp, ← hd]
    exact Socket.sound_iff.mp hs
  · exact (sound_handshake hw).1

/-- A stretch that announces a revocation leaves no socket that it names alive, but one that is not registered. -/
theorem Ran.announces (h : Ran lifetime s a j d t x told) (hI : Heard (s.node j)) {rev : Revocation}
    (hn : (∃ req, a = .start j req ∧ req.announces = some rev) ∨ ∃ y, x = some y ∧ announcing y = some rev)
    {k' : Socket} (hk : k' ∈ t.loc.sockets) (ha : k'.Alive) (hname : rev.Names k'.payload) :
    k' ∈ (s.node j).loc.sockets ∧ k'.phase = .opening := by
  have hsound := h.sound hI hk
  have hev : ∀ {sockets : List Socket}, k' ∈ (evictRevoked rev.event sockets).1 →
      k' ∈ sockets ∧ k'.phase = .opening := by
    intro sockets hk'
    obtain ⟨hmem, hnot⟩ := alive_evictAll hk' ha
    refine ⟨hmem, ?_⟩
    by_contra hne
    exact hnot ⟨by simpa [Socket.registered] using hne, evictionReason_of_names hsound hname⟩
  rcases hn with ⟨req, rfl, hreq⟩ | ⟨y, hy, hrev⟩
  · rcases h.origin with ⟨req', he, -, -, rfl⟩ | ⟨p, r, hr, -⟩
    · cases he
      cases req with
      | message ev =>
        have hreq : ev.revocation? = some rev := hreq
        simp only [start, applyEvent, hreq] at hk
        rw [event_of_revocation hreq] at hk
        exact hev hk
      | _ => cases hreq
    · cases hr
  · rcases h.origin with ⟨req, -, hx, -, -⟩ | ⟨p, r, -, hx, -, rfl⟩
    · rw [hy] at hx
      cases hx
    · rw [hy] at hx
      cases hx
      cases p with
      | sadd jti c | hset userId version c =>
        cases hrev
        exact hev hk
      | _ => cases hrev

/-- What is remembered is announced, now or later, except what somebody else had revoked. -/
theorem Ran.told_next (h : Ran lifetime s a j d t x told) {rev : Revocation} (hrev : told = some rev) :
    (∃ p, t.next = .await p ∧ announcing ⟨p, none⟩ = some rev) ∨
    (∃ req, a = .start j req ∧ req.announces = some rev) ∨
    ∃ jti k, s.replied a = some (j, ⟨.create jti k, .taken⟩) ∧ rev = .token jti := by
  rcases h.origin with ⟨req, ha, -, rfl, rfl⟩ | ⟨p, r, hr, -, rfl, rfl⟩
  · cases req with
    | noteVersionBumped userId version =>
      cases hrev
      exact Or.inl ⟨_, rfl, rfl⟩
    | message ev => exact Or.inr (Or.inl ⟨_, ha, hrev⟩)
    | _ => cases hrev
  · cases p with
    | upsert row =>
      cases r <;> cases hrev
      exact Or.inl ⟨_, rfl, rfl⟩
    | create jti k =>
      cases r <;> cases hrev
      · exact Or.inl ⟨_, rfl, rfl⟩
      · exact Or.inr (Or.inr ⟨jti, k, hr, rfl⟩)
    | increment userId =>
      cases r <;> cases hrev
      exact Or.inl ⟨_, rfl, rfl⟩
    | _ => cases hrev

theorem announced_start {o : Output I} {s' : State I} {req : Request} {rev : Revocation} (ha : a = .start j req)
    (hr : req.announces = some rev) : announced ⟨s, a, o, s'⟩ = some (j, rev) := by
  subst ha
  simp [announced, started, hr]

theorem announced_replied {o : Output I} {s' : State I} {p : Point} {r : Reply p} {rev : Revocation}
    (hr : s.replied a = some (j, ⟨p, r⟩)) (hrev : announcing ⟨p, some r⟩ = some rev) :
    announced ⟨s, a, o, s'⟩ = some (j, rev) := by
  cases a with
  | deliver i n => simp [announced, started, hr, hrev]
  | _ => cases hr

/-- **One stretch** that is quiet keeps what holds of the sockets. -/
theorem Ran.heard (h : Ran lifetime s a j d t x told) (hI : Heard (s.node j)) {o : Output I} {s' : State I}
    (hq : Quiet ⟨s, a, o, s'⟩) : Heard (d.after t) := by
  refine ⟨fun k' hk' => ?_, fun k' hk' ha hr => ?_⟩
  · rw [Desk.after_loc] at hk'
    exact h.sound hI hk'
  rw [Desk.after_loc] at hk' hr
  -- a revocation that is announced in this stretch names no socket that is still alive
  have hquiet : ∀ rev : Revocation, rev.Names k'.payload →
      ¬((∃ req, a = .start j req ∧ req.announces = some rev) ∨ ∃ y, x = some y ∧ announcing y = some rev) := by
    intro rev hname hann
    obtain ⟨hmem, hopen⟩ := h.announces hI hann hk' ha hname
    have hin : (j, rev) ∈ announced ⟨s, a, o, s'⟩ := by
      rcases hann with ⟨req, hreq, hrev⟩ | ⟨y, hy, hrev⟩
      · exact announced_start hreq hrev
      · rcases h.origin with ⟨-, -, hx, -, -⟩ | ⟨p, r, hrep, hx, -, -⟩
        · rw [hy] at hx
          cases hx
        · rw [hy] at hx
          cases hx
          exact announced_replied hrep hrev
    exact hq.announced _ hin k' hmem hopen hname
  rcases h.sockets hk' with ⟨k, hmem, -, hp, -, halive, -⟩ | ⟨nsp, payload, -, hw, hrev⟩
  · -- what was refused before has somebody who will announce it
    have hold : (s.node j).loc.revocations.refuses k.payload = true →
        ∃ t' ∈ (d.after t).tasks, ∃ rev ∈ announcing t', rev.Names k'.payload := by
      intro href
      obtain ⟨t₀, ht₀, rev, hrev, hname⟩ := hI.heard k hmem (halive ha) href
      rw [hp] at hname
      rcases h.mem.mp ht₀ with hx | hd
      · exact absurd (Or.inr ⟨t₀, hx, hrev⟩) (hquiet rev hname)
      · refine ⟨t₀, ?_, rev, hrev, hname⟩
        unfold Desk.after
        split
        · exact hd
        · exact List.mem_append_left _ hd
        · exact hd
    have he := h.effect
    rw [← hp] at hr
    generalize hr' : t.loc.revocations = r' at he hr
    generalize hn : t.next = n at he
    cases he with
    | keep _ _ => exact hold hr
    | read _ _ _ _ _ _ _ _ => exact hold hr
    | begin _ _ _ => exact hold hr
    | settle _ _ _ => exact hold hr
    | remember rev hrev _ _ =>
      rcases refuses_remember hr with hr | hname
      · exact hold hr
      · rcases h.told_next hrev with ⟨p, hp', hann⟩ | hreq | ⟨jti, c, hrep, rfl⟩
        · exact ⟨⟨p, none⟩, Desk.mem_tasks_await hp', rev, hann, hp ▸ hname⟩
        · exact absurd (Or.inl hreq) (hquiet rev (hp ▸ hname))
        · refine hold (hq.taken (j, jti) ?_ k hmem (halive ha) hname)
          simp [takenBy, hrep]
    | install y tokens users hy _ htokens husers =>
      rcases h.origin with ⟨-, -, hx, -, -⟩ | ⟨p, r, hrep, hx, -, -⟩
      · rw [hy] at hx
        cases hx
      · rw [hy] at hx
        cases hx
        exact hold (hq.merged _ hrep tokens htokens users husers k hmem (halive ha) (refuses_install hr))
  · obtain ⟨-, -, -, hno, -⟩ := sound_handshake hw
    rw [hrev, hno] at hr
    cases hr

end Heard

section Runs

variable {expires : String → ℕ} {I : Type} [DecidableEq I] {lifetime : ℤ} {s s' : State I} {a : Action I} {o : Output I}
  {ops as bs : List (Action I)}

/-- **One step** that is quiet keeps what holds of every instance. -/
theorem heard_step (hs : Step lifetime s a o s') (hq : Quiet ⟨s, a, o, s'⟩) (hI : ∀ i, Heard (s.node i)) (i : I) :
    Heard (s'.node i) := by
  rcases Tasks.node_cases hs i with h | ⟨p, x, pre, post, -, -, hc, h⟩ | ⟨d, t, hb, -, -, h⟩
  · rw [h]
    exact hI i
  · rw [h]
    refine ⟨(hI i).sound, fun k hk ha hr => ?_⟩
    obtain ⟨t, ht, rev, hrev, hname⟩ := (hI i).heard k hk ha hr
    rw [hc, List.mem_append, List.mem_cons] at ht
    rcases ht with ht | rfl | ht
    · exact ⟨t, List.mem_append_left _ ht, rev, hrev, hname⟩
    · exact ⟨_, List.mem_append_right _ List.mem_cons_self, rev, hrev, hname⟩
    · exact ⟨t, List.mem_append_right _ (List.mem_cons_of_mem _ ht), rev, hrev, hname⟩
  · rw [h]
    obtain ⟨x, told, hran⟩ := ran_of_begins hb
    exact hran.heard (hI i) hq

theorem heard_run (h : ∀ e ∈ (machine I lifetime).trace ops, Quiet e) :
    ∀ i, Heard (((machine I lifetime).run ops).node i) :=
  (machine I lifetime).invariant_forall (I := fun _ s => ∀ i, Heard (s.node i))
    (fun _ => ⟨fun _ hk => absurd hk List.not_mem_nil, fun _ hk => absurd hk List.not_mem_nil⟩)
    (fun _ s a hc hI => heard_step ((service lifetime).step_cases s a) hc hI) ops h

/-- Where the sockets of an instance come from. -/
theorem sockets_step (hs : Step lifetime s a o s') {i : I} {k' : Socket} (hk : k' ∈ (s'.node i).loc.sockets) :
    k'.Was (s.node i).loc.sockets ∨
    ∃ nsp payload, a = .start i (.handshake k'.id nsp payload) ∧
      wsAuthMiddleware k'.id nsp payload (s.node i).loc.clock (s.node i).loc.revocations = .ok k' := by
  rcases Tasks.loc_cases hs i with h | ⟨d, t, hb, h⟩
  · rw [h] at hk
    exact Or.inl (Back.refl _ k' hk)
  · rw [h] at hk
    obtain ⟨x, told, hran⟩ := ran_of_begins hb
    rcases hran.sockets hk with hwas | ⟨nsp, payload, ha, hw, -⟩
    · exact Or.inl hwas
    · exact Or.inr ⟨nsp, payload, ha, hw⟩

/-- A socket that is closed is not there any more. -/
theorem closed_step (hs : Step lifetime s a o s') {i : I} {k' : Socket} (hk : k' ∈ (s'.node i).loc.sockets) :
    a ≠ .start i (.close k'.id) := by
  rintro rfl
  have hnode := (Tasks.started hs).1
  rw [hnode, Desk.after_loc] at hk
  have := (List.mem_filter.mp hk).2
  simp at this

/-- A token that is presented expires no later than the token of its jti. -/
def Request.Presented (expires : String → ℕ) : Request → Prop
  | .handshake _ _ payload => ∀ jti ∈ jtiOf payload.toTokenPayload, ∃ exp ∈ payload.exp, exp * 1000 ≤ (expires jti : ℤ)
  | _ => True

instance (expires : String → ℕ) (req : Request) : Decidable (req.Presented expires) := by
  unfold Request.Presented
  split <;> infer_instance

/-- The tokens that are presented expire as their jti says. -/
def Presented (expires : String → ℕ) (e : Event I) : Prop := ∀ q ∈ started e.act, q.2.Presented expires

omit [DecidableEq I] in
instance (expires : String → ℕ) (e : Event I) : Decidable (Presented expires e) :=
  inferInstanceAs (Decidable (∀ q ∈ started e.act, q.2.Presented expires))

omit [DecidableEq I] in
/-- A handshake lets no token in that a revocation names which is held, or whose token has expired. -/
theorem not_names_handshake {rev : Revocation} {i : I} {nsp : Namespace} {payload : SessionToken} {k : Socket}
    {id : ℕ} (hp : Presented expires ⟨s, .start i (.handshake id nsp payload), o, s'⟩)
    (hw : wsAuthMiddleware id nsp payload (s.node i).loc.clock (s.node i).loc.revocations = .ok k)
    (hheld : (∀ jti, rev = .token jti → (s.node i).loc.clock < expires jti) →
      rev.Held (s.node i).loc.revocations) : ¬rev.Names k.payload := by
  obtain ⟨-, hpay, -, hno, hv⟩ := sound_handshake hw
  intro hname
  by_cases hlt : ∀ jti, rev = .token jti → (s.node i).loc.clock < expires jti
  · rw [refuses_of_held (hheld hlt) hname] at hno
    cases hno
  · push Not at hlt
    obtain ⟨jti, rfl, hle⟩ := hlt
    have hjti : jtiOf payload.toTokenPayload = some jti := hpay ▸ hname
    obtain ⟨exp, hexp, hdate⟩ := hp (i, .handshake id nsp payload) rfl jti hjti
    have hexp : payload.exp = some exp := hexp
    simp only [verify, hexp, decide_eq_true_eq] at hv
    omega

/-- **Revocation reaches the sockets of an instance.** Once a revocation is held and a tick of the sweep is complete, so
that every socket that is evicted by its end has been closed, no socket has a token that the revocation names. -/
def Reaches (lifetime : ℤ) (ops : List (Action I)) : Prop :=
  ∀ as bs i (rev : Revocation), ops = as ++ .start i .expirySweep :: bs →
    rev.Held (((machine I lifetime).run as).node i).loc.revocations →
    (∀ k ∈ (((machine I lifetime).run (as ++ [.start i .expirySweep])).node i).loc.sockets, ¬k.Alive →
      .start i (.close k.id) ∈ bs) →
    ∀ k ∈ (((machine I lifetime).run ops).node i).loc.sockets, ¬rev.Names k.payload

/-- After a tick only sockets that were evicted by then have a token that the revocation names, and they are closed. -/
theorem remaining_run {i : I} {rev : Revocation} {n : List (Action I)}
    (hf : ∀ e ∈ (machine I lifetime).trace (as ++ n ++ bs), Faithful expires e)
    (hp : ∀ e ∈ (machine I lifetime).trace (as ++ n ++ bs), Presented expires e)
    (hheld : rev.Held (((machine I lifetime).run as).node i).loc.revocations)
    (h0 : ∀ k ∈ (((machine I lifetime).run (as ++ n)).node i).loc.sockets, rev.Names k.payload → ¬k.Alive) :
    ∀ k ∈ (((machine I lifetime).run (as ++ n ++ bs)).node i).loc.sockets, rev.Names k.payload →
      ¬k.Alive ∧ (∃ k₀ ∈ (((machine I lifetime).run (as ++ n)).node i).loc.sockets, k₀.id = k.id ∧ ¬k₀.Alive) ∧
        .start i (.close k.id) ∉ bs := by
  induction bs using List.reverseRecOn with
  | nil =>
    rw [List.append_nil]
    exact fun k hk hname => ⟨h0 k hk hname, ⟨k, hk, rfl, h0 k hk hname⟩, List.not_mem_nil⟩
  | append_singleton bs b ih =>
    rw [← List.append_assoc] at hf hp ⊢
    rw [Machine.trace_snoc] at hf hp
    rw [Machine.run_snoc]
    have hpre := Machine.forall_mem_of_snoc hf
    intro k hk hname
    have hs := (service lifetime).step_cases ((machine I lifetime).run (as ++ n ++ bs)) b
    have hlater : Later expires (((machine I lifetime).run as).node i).loc
        (((machine I lifetime).run (as ++ n ++ bs)).node i).loc := by
      rw [List.append_assoc] at hpre ⊢
      exact later_run hpre i
    rcases sockets_step hs hk with ⟨k₁, hmem, hid, hpay, -, ha, -⟩ | ⟨nsp, payload, rfl, hw⟩
    · obtain ⟨hdead, ⟨k₀, hk₀, hid₀, hdead₀⟩, hnot⟩ :=
        ih hpre (Machine.forall_mem_of_snoc hp) k₁ hmem (hpay ▸ hname)
      refine ⟨fun h => hdead (ha h), ⟨k₀, hk₀, hid₀.trans hid, hdead₀⟩, ?_⟩
      rw [List.mem_append, List.mem_singleton, not_or, ← hid]
      exact ⟨hnot, fun h => closed_step hs hk (hid ▸ h.symm)⟩
    · exact absurd hname (not_names_handshake (Machine.last_of_snoc hp) hw (hlater.held hheld))

end Runs

/-- **Revocation reaches live sockets** in a run whose steps are quiet, for any number of instances and any loss or
delay of messages. -/
theorem revocation_reaches {I : Type} [DecidableEq I] (lifetime : ℤ) (expires : String → ℕ) (ops : List (Action I))
    (hf : ∀ e ∈ (machine I lifetime).trace ops, Faithful expires e)
    (hp : ∀ e ∈ (machine I lifetime).trace ops, Presented expires e)
    (hq : ∀ e ∈ (machine I lifetime).trace ops, Quiet e) : Reaches lifetime ops := by
  rintro as bs i rev rfl hheld hclosed k hk hname
  have hsplit : as ++ .start i .expirySweep :: bs = as ++ [.start i .expirySweep] ++ bs := by simp
  rw [hsplit] at hf hp hq hk
  have hq' : ∀ e ∈ (machine I lifetime).trace (as ++ [.start i .expirySweep]), Quiet e := by
    rw [Machine.trace_append] at hq
    exact fun e he => hq e (List.mem_append_left _ he)
  rw [Machine.trace_snoc] at hq'
  have htick : ∀ k ∈ (((machine I lifetime).run (as ++ [.start i .expirySweep])).node i).loc.sockets,
      rev.Names k.payload → ¬k.Alive := by
    intro k' hk' hname' ha'
    rw [Machine.run_snoc] at hk'
    have hstep := (service lifetime).step_cases ((machine I lifetime).run as) (.start i .expirySweep)
    rcases sockets_step hstep hk' with ⟨k₁, hmem, -, hpay, -, ha, -⟩ | ⟨nsp, payload, he, -⟩
    · rw [← hpay] at hname'
      obtain ⟨t, ht, rev', hrev', hn⟩ := (heard_run (Machine.forall_mem_of_snoc hq') i).heard k₁ hmem (ha ha')
        (refuses_of_held hheld hname')
      exact (Machine.last_of_snoc hq').sweep _ rfl rfl t ht rev' hrev' k₁ hmem hn (ha ha')
    · cases he
  obtain ⟨-, ⟨k₀, hk₀, hid, hdead⟩, hnot⟩ := remaining_run hf hp hheld htick k hk hname
  exact hnot (hid ▸ hclosed k₀ hk₀ hdead)

/-- An account with two sessions, each with a socket on the instance `true`, whose snapshot is loaded. -/
def connected : List (Action Bool) :=
  [.env (.register "ann" "ann"), .start true .refresh, .exec true 0 .done, .deliver true 0, .exec true 0 .done,
    .deliver true 0, .exec true 0 .done, .deliver true 0,
    .start true (.handshake 1 .main ⟨⟨some (.str "ann"), some (.str "t"), none⟩, none, none, some 1000⟩),
    .start true (.register 1),
    .start true (.handshake 2 .voice ⟨⟨some (.str "ann"), some (.str "u"), none⟩, none, none, some 1000⟩),
    .start true (.register 2)]

/-- One session is signed out on that instance, and the sweep runs. -/
def signedOutHere : List (Action Bool) :=
  connected ++ [.start true (.revokeToken ⟨"t", "ann", 1000000⟩), .exec true 0 .done, .deliver true 0,
    .exec true 0 .done, .deliver true 0]

/-- The socket of the session is closed. -/
theorem revocation_reaches_here :
    (((machine Bool 43200).run (signedOutHere ++ .start true .expirySweep :: [.start true (.close 1)])).node
      true).loc.sockets.filter (fun k => (Revocation.token "t").Names k.payload) = [] := by
  have hone : ∀ k ∈ (((machine Bool 43200).run (signedOutHere ++ [.start true .expirySweep])).node true).loc.sockets,
      ¬k.Alive → k.id = 1 := by decide +kernel
  have hreach : Reaches 43200 (signedOutHere ++ .start true .expirySweep :: [.start true (.close 1)]) :=
    revocation_reaches 43200 (fun _ => 1000000) _ (by decide +kernel) (by decide +kernel) (by decide +kernel)
  have hnone := hreach signedOutHere [.start true (.close 1)] true (.token "t") rfl (by decide +kernel)
    fun k hk hdead => by
      rw [hone k hk hdead]
      exact List.mem_singleton_self _
  rw [List.filter_eq_nil_iff]
  intro k hk
  simpa using hnone k hk

/-- The session is signed out on the other instance, whose message is lost; a reload brings the revocation. -/
def signedOutElsewhere : List (Action Bool) :=
  connected ++ [.start false (.revokeToken ⟨"t", "ann", 1000000⟩), .exec false 0 .done, .start true .refresh,
    .exec true 0 .done, .deliver true 0, .exec true 0 .done, .deliver true 0]

/-- The socket of the session stays open, although its token is refused. -/
theorem revocation_unheard :
    (∀ e ∈ (machine Bool 43200).trace (signedOutElsewhere ++ [.start true .expirySweep]),
      Faithful (fun _ => 1000000) e ∧ Presented (fun _ => 1000000) e) ∧
      ¬Reaches 43200 (signedOutElsewhere ++ [.start true .expirySweep]) := by
  have halive : ∀ k ∈ (((machine Bool 43200).run (signedOutElsewhere ++ [.start true .expirySweep])).node
      true).loc.sockets, k.Alive := by decide +kernel
  refine ⟨by decide +kernel, fun h => ?_⟩
  have hnone := h signedOutElsewhere [] true (.token "t") rfl (by decide +kernel)
    fun k hk hdead => absurd (halive k hk) hdead
  exact absurd hnone (by decide +kernel)

end Auth
end WatchParty
