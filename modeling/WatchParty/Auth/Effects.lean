import WatchParty.Auth.Service

/-!
# What a stretch does to the revocation snapshot

- `Effect` lists everything a stretch can do to the snapshot, with where its handler comes from and goes to;
  `start_effect` and `resume_effect` say that every stretch does one of these;
- `Ran` is a stretch that a step runs, with the task that it answers and the tasks that it finds besides.
-/

namespace WatchParty
namespace Auth

/-- Is the handler a reload? -/
def Point.reloading : Point → Bool
  | .reload _ => true
  | .readUsers _ => true
  | .readTokens _ _ => true
  | .rebuild _ _ => true
  | _ => false

/-- The tokens that a reload has read. -/
def tokensOf (t : Pending Reply) : Option (Finset String) :=
  match t with
  | ⟨.reload _, some (.tokens tokens)⟩ => some tokens
  | ⟨.readUsers tokens, _⟩ => some tokens
  | ⟨.readTokens _ _, some (some tokens)⟩ => some tokens
  | _ => none

/-- The versions that a reload has read. -/
def usersOf (t : Pending Reply) : Option (String → Option ℕ) :=
  match t with
  | ⟨.reload _, some (.users users)⟩ => some users
  | ⟨.readTokens _ users, _⟩ => some users
  | ⟨.readUsers _, some (some users)⟩ => some users
  | _ => none

/-- The revocation that a handler has written to the database, or found there, and has yet to remember. -/
def writtenBy (t : Pending Reply) : Option Revocation :=
  match t with
  | ⟨.upsert row, some true⟩ => some (.token row.jti)
  | ⟨.create jti _, some .won⟩ => some (.token jti)
  | ⟨.create jti _, some .taken⟩ => some (.token jti)
  | ⟨.increment userId, some (some version)⟩ => some (.user userId version)
  | _ => none

/-- The revocation that a request tells of. -/
def Request.told : Request → Option Revocation
  | .noteVersionBumped userId version => some (.user userId version)
  | .message ev => ev.revocation?
  | _ => none

/-- What a stretch does to the snapshot, where `t` is the task that it answers, `told` what it is told of, and `n` where
the handler is afterwards. -/
inductive Effect (r : Revocations) (t : Option (Pending Reply)) (told : Option Revocation) :
    Revocations → Next Point Empty → Prop
  | keep {n : Next Point Empty} (ht : t.any (·.point.reloading) = false) (hn : n.point?.any Point.reloading = false) :
      Effect r t told r n
  | remember {n : Next Point Empty} (rev : Revocation) (hrev : told = some rev)
      (ht : t.any (·.point.reloading) = false) (hn : n.point?.any Point.reloading = false) :
      Effect r t told (rev.remember r) n
  | begin (cutoff : ℕ) (ht : t = none) (hf : r.inFlight = false) :
      Effect r t told r.beginReload (.await (.reload cutoff))
  | read (x : Pending Reply) (p : Point) (ht : t = some x) (hx : x.point.reloading = true) (hp : p.reloading = true)
      (htokens : tokensOf ⟨p, none⟩ = tokensOf x) (husers : usersOf ⟨p, none⟩ = usersOf x)
      (hread : ¬(tokensOf x = none ∧ usersOf x = none)) : Effect r t told r (.await p)
  | install (x : Pending Reply) (tokens : Finset String) (users : String → Option ℕ) (ht : t = some x)
      (hx : x.point.reloading = true) (htokens : tokensOf x = some tokens) (husers : usersOf x = some users) :
      Effect r t told (r.install tokens users)
        (.await (.rebuild (r.install tokens users).revokedTokens (r.install tokens users).userVersions))
  | settle (x : Pending Reply) (ht : t = some x) (hx : x.point.reloading = true) :
      Effect r t told r.endReload .done

@[simp] theorem notify_revocations (ev : RevocationEvent) (l : Instance) :
    (notify ev l).1.revocations = l.revocations := rfl

@[simp] theorem notify_clock (ev : RevocationEvent) (l : Instance) : (notify ev l).1.clock = l.clock := rfl

@[simp] theorem answer_loc (lifetime : ℤ) (c : Caller) (l : Instance) : (answer lifetime c l).loc = l := by
  cases c <;> rfl

@[simp] theorem answer_next (lifetime : ℤ) (c : Caller) (l : Instance) : (answer lifetime c l).next = .done := by
  cases c <;> rfl

theorem refreshSession_effect (payload : SessionToken) (uuid : String) (l : Instance) (told : Option Revocation) :
    Effect l.revocations none told (refreshSession payload uuid l).loc.revocations
      (refreshSession payload uuid l).next := by
  unfold refreshSession
  split
  · exact .keep rfl rfl
  · dsimp only
    split <;> exact .keep rfl rfl

theorem applyEvent_effect (ev : RevocationEvent) (l : Instance) :
    Effect l.revocations none ev.revocation? (applyEvent ev l).loc.revocations (applyEvent ev l).next := by
  unfold applyEvent
  split
  · exact .keep rfl rfl
  · rename_i rev hrev
    exact .remember rev hrev rfl rfl

/-- **What a request does to the snapshot.** -/
theorem start_effect (req : Request) (l : Instance) :
    Effect l.revocations none req.told (start req l).loc.revocations (start req l).next := by
  cases req with
  | noteVersionBumped userId version => exact .remember (.user userId version) rfl rfl rfl
  | refresh =>
    simp only [start]
    split
    · exact .keep rfl rfl
    · rename_i hf
      exact .begin _ rfl (by simpa using hf)
  | message ev => exact applyEvent_effect ev l
  | refreshSession payload uuid => exact refreshSession_effect payload uuid l _
  | handshake id nsp payload =>
    simp only [start]
    split <;> exact .keep rfl rfl
  | _ => exact .keep rfl rfl

theorem checkVersion_effect (lifetime : ℤ) (k : Rotation) (l : Instance) (x : Pending Reply)
    (hx : x.point.reloading = false) (told : Option Revocation) :
    Effect l.revocations (some x) told (checkVersion lifetime k l).loc.revocations
      (checkVersion lifetime k l).next := by
  unfold checkVersion
  split
  · split
    · rw [answer_loc, answer_next]
      exact .keep hx rfl
    · exact .keep hx rfl
  · exact .keep hx rfl

/-- **What a reply does to the snapshot.** -/
theorem resume_effect (lifetime : ℤ) (p : Point) (x : Reply p) (l : Instance) :
    Effect l.revocations (some ⟨p, some x⟩) (writtenBy ⟨p, some x⟩) (resume lifetime p x l).loc.revocations
      (resume lifetime p x l).next := by
  cases p with
  | upsert row =>
    cases x with
    | true => exact .remember (.token row.jti) rfl rfl rfl
    | false => exact .keep rfl rfl
  | create jti k =>
    cases x with
    | won => exact .remember (.token jti) rfl rfl rfl
    | taken => exact .remember (.token jti) rfl rfl rfl
    | threw => exact .keep rfl rfl
  | increment userId =>
    cases x with
    | none => exact .keep rfl rfl
    | some version => exact .remember (.user userId version) rfl rfl rfl
  | sadd jti c => exact .keep rfl rfl
  | hset userId version c => exact .keep rfl rfl
  | publish ev c =>
    simp only [resume, answer_loc, answer_next]
    exact .keep rfl rfl
  | reload cutoff =>
    cases x with
    | tokens tokens => exact .read _ _ rfl rfl rfl rfl rfl fun h => nomatch h.1
    | users users => exact .read _ _ rfl rfl rfl rfl rfl fun h => nomatch h.2
    | threw => exact .settle _ rfl rfl
  | readUsers tokens =>
    cases x with
    | none => exact .settle _ rfl rfl
    | some users => exact .install _ tokens users rfl rfl rfl rfl
  | readTokens cutoff users =>
    cases x with
    | none => exact .settle _ rfl rfl
    | some tokens => exact .install _ tokens users rfl rfl rfl rfl
  | rebuild tokens users => exact .settle _ rfl rfl
  | deleteMany cutoff => exact .keep rfl rfl
  | findUser o =>
    cases x with
    | none => exact .keep rfl rfl
    | some user =>
      cases user with
      | none => exact .keep rfl rfl
      | some user => exact checkVersion_effect lifetime _ l _ rfl _
  | findUnique jti k =>
    cases x with
    | none => exact .keep rfl rfl
    | some revoked =>
      cases revoked with
      | true => exact .keep rfl rfl
      | false => exact .keep rfl rfl

/-! ## What a handler awaits -/

/-- What a request awaits. -/
inductive Opens (l : Instance) : Request → Point → Prop
  | upsert (row : RevokedToken) : Opens l (.revokeToken row) (.upsert row)
  | increment (userId : String) : Opens l (.revokeAllForUser userId) (.increment userId)
  | hset (userId : String) (version : ℕ) : Opens l (.noteVersionBumped userId version) (.hset userId version .bumped)
  | reload (hf : l.revocations.inFlight = false) : Opens l .refresh (.reload l.clock)
  | deleteMany : Opens l .sweep (.deleteMany l.clock)
  | findUser (payload : SessionToken) (uuid userId : String) (nowS start : ℤ) (hnow : nowS = (l.clock / 1000 : ℕ))
      (hstart : start = sessionStart payload nowS) (hage : nowS - start ≤ SESSION_MAX_S) :
      Opens l (.refreshSession payload uuid) (.findUser { payload, uuid, userId, nowS, start })

/-- What a handler awaits after a reply. -/
inductive Continues : (p : Point) → Reply p → Point → Prop
  | upsert (row : RevokedToken) : Continues (.upsert row) true (.sadd row.jti .logout)
  | won (jti : String) (k : Rotation) : Continues (.create jti k) .won (.sadd jti (.rotation k))
  | increment (userId : String) (version : ℕ) :
      Continues (.increment userId) (some version) (.hset userId version (.logoutAll version))
  | sadd (jti : String) (c : Caller) : Continues (.sadd jti c) () (.publish (Revocation.token jti).event c)
  | hset (userId : String) (version : ℕ) (c : Caller) :
      Continues (.hset userId version c) () (.publish (Revocation.user userId version).event c)
  | tokens (cutoff : ℕ) (tokens : Finset String) : Continues (.reload cutoff) (.tokens tokens) (.readUsers tokens)
  | users (cutoff : ℕ) (users : String → Option ℕ) :
      Continues (.reload cutoff) (.users users) (.readTokens cutoff users)
  | readUsers (tokens tokens' : Finset String) (users users' : String → Option ℕ) :
      Continues (.readUsers tokens) (some users) (.rebuild tokens' users')
  | readTokens (cutoff : ℕ) (tokens tokens' : Finset String) (users users' : String → Option ℕ) :
      Continues (.readTokens cutoff users) (some tokens) (.rebuild tokens' users')
  | findUser (k : Rotation) (jti : String) (hj : jtiOf k.payload.toTokenPayload = some jti) :
      Continues (.findUser k.toOpening) (some (some k.user)) (.findUnique jti k)
  | findUnique (jti : String) (k : Rotation) : Continues (.findUnique jti k) (some false) (.create jti k)

theorem start_opens {req : Request} {l : Instance} {p : Point} (h : (start req l).next = .await p) :
    Opens l req p := by
  cases req with
  | revokeToken row =>
    cases h
    exact .upsert row
  | revokeAllForUser userId =>
    cases h
    exact .increment userId
  | noteVersionBumped userId version =>
    cases h
    exact .hset userId version
  | refresh =>
    simp only [start] at h
    split at h
    · cases h
    · rename_i hf
      cases h
      exact .reload (by simpa using hf)
  | sweep =>
    cases h
    exact .deleteMany
  | message ev =>
    simp only [start, applyEvent] at h
    split at h <;> cases h
  | refreshSession payload uuid =>
    simp only [start, refreshSession] at h
    split at h
    · cases h
    · split at h
      · cases h
      · rename_i hage
        cases h
        exact .findUser payload uuid _ _ _ rfl rfl (not_lt.mp hage)
  | handshake id nsp payload =>
    simp only [start] at h
    split at h <;> cases h
  | _ => cases h

theorem resume_continues {lifetime : ℤ} {p q : Point} {r : Reply p} {l : Instance}
    (h : (resume lifetime p r l).next = .await q) : Continues p r q := by
  cases p with
  | upsert row =>
    cases r <;> cases h
    exact .upsert row
  | create jti k =>
    cases r <;> cases h
    exact .won jti k
  | increment userId =>
    cases r <;> cases h
    exact .increment userId _
  | sadd jti c =>
    cases h
    exact .sadd jti c
  | hset userId version c =>
    cases h
    exact .hset userId version c
  | publish ev c =>
    simp only [resume, answer_next] at h
    cases h
  | reload cutoff =>
    cases r <;> cases h
    · exact .tokens cutoff _
    · exact .users cutoff _
  | readUsers tokens =>
    cases r <;> cases h
    exact .readUsers tokens _ _ _
  | readTokens cutoff users =>
    cases r <;> cases h
    exact .readTokens cutoff _ _ users _
  | findUser o =>
    rcases r with _ | _ | user
    · cases h
    · cases h
    · simp only [resume, checkVersion] at h
      split at h
      · split at h
        · rw [answer_next] at h
          cases h
        · rename_i jti hj
          cases h
          exact .findUser ⟨o, user⟩ jti hj
      · cases h
  | findUnique jti k =>
    rcases r with _ | _ | _ <;> cases h
    exact .findUnique jti k
  | rebuild tokens users | deleteMany cutoff => cases h

/-! ## Stretches -/

/-- The clock of an instance only goes forward. -/
theorem start_clock (req : Request) (l : Instance) : l.clock ≤ (start req l).loc.clock := by
  cases req with
  | clock t => exact le_max_left _ _
  | refresh =>
    simp only [start]
    split <;> exact le_rfl
  | message ev =>
    simp only [start, applyEvent]
    split <;> exact le_rfl
  | refreshSession payload uuid =>
    simp only [start, refreshSession]
    split
    · exact le_rfl
    · split <;> exact le_rfl
  | handshake id nsp payload =>
    simp only [start]
    split <;> exact le_rfl
  | _ => exact le_rfl

@[simp] theorem checkVersion_loc (lifetime : ℤ) (k : Rotation) (l : Instance) :
    (checkVersion lifetime k l).loc = l := by
  unfold checkVersion
  split
  · split
    · exact answer_loc _ _ _
    · rfl
  · rfl

@[simp] theorem resume_clock (lifetime : ℤ) (p : Point) (x : Reply p) (l : Instance) :
    (resume lifetime p x l).loc.clock = l.clock := by
  cases p with
  | publish ev c => simp only [resume, answer_loc]
  | findUser o =>
    rcases x with _ | _ | user
    · rfl
    · rfl
    · exact congrArg Instance.clock (checkVersion_loc lifetime _ l)
  | findUnique jti k => rcases x with _ | _ | _ <;> rfl
  | sadd jti c | hset userId version c | rebuild tokens users | deleteMany cutoff => rfl
  | _ => cases x <;> rfl

variable {I : Type} {lifetime : ℤ} {s : State I} {a : Action I} {j : I}

/-- The stretch that a step runs at a node: which task it answers, what it is told of, and what it does. -/
structure Ran (lifetime : ℤ) (s : State I) (a : Action I) (j : I) (d : Desk Instance Empty Reply) (t : Stretch)
    (x : Option (Pending Reply)) (told : Option Revocation) : Prop where
  effect : Effect (s.node j).loc.revocations x told t.loc.revocations t.next
  clock : (s.node j).loc.clock ≤ t.loc.clock
  loc : d.loc = (s.node j).loc
  tasks : (s.node j).tasks.Perm (x.toList ++ d.tasks)
  origin : (∃ req, a = .start j req ∧ x = none ∧ told = req.told ∧ t = start req (s.node j).loc) ∨
    ∃ p r, s.replied a = some (j, ⟨p, r⟩) ∧ x = some ⟨p, some r⟩ ∧ told = writtenBy ⟨p, some r⟩ ∧
      t = resume lifetime p r (s.node j).loc

/-- **Every stretch is one of these.** -/
theorem ran_of_begins {d : Desk Instance Empty Reply} {t : Stretch}
    (hb : Tasks.Begins (service lifetime) s a j d t) : ∃ x told, Ran lifetime s a j d t x told := by
  cases hb with
  | start req hm =>
    exact ⟨none, req.told, start_effect req _, start_clock req _, rfl, .refl _, Or.inl ⟨req, hm, rfl, rfl, rfl⟩⟩
  | resume pre post p r hm hc =>
    refine ⟨some ⟨p, some r⟩, writtenBy ⟨p, some r⟩, resume_effect lifetime p r _, (resume_clock lifetime p r _).ge,
      rfl, ?_, Or.inr ⟨p, r, hm, rfl, rfl, rfl⟩⟩
    rw [hc]
    exact List.perm_middle
  | enter q => exact nomatch q

theorem Ran.mem {d : Desk Instance Empty Reply} {t : Stretch} {x : Option (Pending Reply)} {told : Option Revocation}
    (h : Ran lifetime s a j d t x told) {y : Pending Reply} :
    y ∈ (s.node j).tasks ↔ x = some y ∨ y ∈ d.tasks := by
  rw [h.tasks.mem_iff, List.mem_append, Option.mem_toList]

end Auth
end WatchParty
