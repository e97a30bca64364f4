import WatchParty.Auth.Revocation
import WatchParty.Lib.Tasks

/-!
# The revocation service, the session refresh and the sockets of all instances

`revocation.service.ts`, `refreshSession` and `issueToken` of `auth.service.ts`, and the sockets of `ws-auth.ts` and
`socket-eviction.ts`, on any number of instances over one database and one Redis. A handler awaits one command at a
time; the two queries that a reload sends together are executed in either order. A Redis command that fails changes
nothing, which is also what an instance without Redis does. Each instance has its own clock.

- `Store` is the database and the mirror; `Point` is where a handler awaits, `exec` what its command does;
- `start` and `resume` are the stretches of the handlers;
- `service` is the system, and `State`, `Step`, `Event` its states, steps and events.
-/

namespace WatchParty
namespace Auth

/-- A row of `RevokedToken`. -/
structure RevokedToken where
  jti : String
  userId : String
  expiresAt : ℤ
  deriving DecidableEq

structure User where
  username : String
  tokenVersion : ℕ

/-- The database, and the mirror in Redis. -/
structure Store where
  revokedToken : List RevokedToken
  user : String → Option User
  jti : Finset String
  userver : String → Option ℕ

namespace Store

def empty : Store := ⟨[], fun _ => none, ∅, fun _ => none⟩

/-- `revokedToken.findUnique`. -/
def revoked (jti : String) (s : Store) : Bool := s.revokedToken.any (·.jti = jti)

/-- The tokens that a reload reads: those that have not expired by `cutoff`. -/
def tokens (cutoff : ℕ) (s : Store) : Finset String :=
  ((s.revokedToken.filter fun row => (cutoff : ℤ) < row.expiresAt).map RevokedToken.jti).toFinset

/-- The versions that a reload reads: those above zero. -/
def versions (s : Store) (userId : String) : Option ℕ :=
  (s.user userId).bind fun u => if 0 < u.tokenVersion then some u.tokenVersion else none

/-- A version is incremented. -/
def increment (userId : String) (s : Store) : Option (ℕ × Store) :=
  (s.user userId).map fun u =>
    (u.tokenVersion + 1,
     { s with user := Function.update s.user userId (some { u with tokenVersion := u.tokenVersion + 1 }) })

end Store

/-- `session.sess ?? session.iat ?? now`. -/
def sessionStart (payload : SessionToken) (nowS : ℤ) : ℤ := (payload.sess.or payload.iat).getD nowS

def SESSION_MAX_S : ℤ := 30 * 24 * 3600

/-- A call of `refreshSession`: the token, the `jti` that `randomUUID` will draw, and what the call has read. -/
structure Opening where
  payload : SessionToken
  uuid : String
  userId : String
  nowS : ℤ
  start : ℤ

/-- The same once the user has been read. -/
structure Rotation extends Opening where
  user : User

/-- The row by which a rotation claims its token. -/
def Rotation.row (k : Rotation) (jti : String) : RevokedToken :=
  { jti, userId := k.userId, expiresAt := k.payload.exp.getD (k.nowS + 43200) * 1000 }

/-- Who waits for a revocation to be mirrored and announced. -/
inductive Caller
  | logout
  | logoutAll (version : ℕ)
  | bumped
  | rotation (k : Rotation)

/-- Where a handler awaits. -/
inductive Point
  | upsert (row : RevokedToken)
  | create (jti : String) (k : Rotation)
  | increment (userId : String)
  | sadd (jti : String) (c : Caller)
  | hset (userId : String) (version : ℕ) (c : Caller)
  | publish (ev : RevocationEvent) (c : Caller)
  | reload (cutoff : ℕ)
  | readUsers (tokens : Finset String)
  | readTokens (cutoff : ℕ) (users : String → Option ℕ)
  | rebuild (tokens : Finset String) (users : String → Option ℕ)
  | deleteMany (cutoff : ℕ)
  | findUser (o : Opening)
  | findUnique (jti : String) (k : Rotation)

/-- What a create is answered. -/
inductive Created
  | won
  | taken
  | threw
  deriving DecidableEq

/-- The first answer to the two queries of a reload. -/
inductive Read
  | tokens (tokens : Finset String)
  | users (users : String → Option ℕ)
  | threw

/-- The reply at each point; none where the database throws. -/
def Reply : Point → Type
  | .upsert _ => Bool
  | .create _ _ => Created
  | .increment _ => Option ℕ
  | .reload _ => Read
  | .readUsers _ => Option (String → Option ℕ)
  | .readTokens _ _ => Option (Finset String)
  | .deleteMany _ => Option ℕ
  | .findUser _ => Option (Option User)
  | .findUnique _ _ => Option Bool
  | _ => Unit

/-- Does a command fail, and which query of a reload is executed first? -/
inductive Choice
  | done
  | usersFirst
  | fails
  deriving DecidableEq

/-- What a command does. -/
def exec : (p : Point) → Choice → Store → Reply p × Store
  | .upsert row, x, s =>
    if x = .fails then (false, s)
    else if s.revoked row.jti then (true, s)
    else if (s.user row.userId).isSome then (true, { s with revokedToken := row :: s.revokedToken })
    else (false, s)
  | .create jti k, x, s =>
    if x = .fails then (.threw, s)
    else if s.revoked jti then (.taken, s)
    else if (s.user k.userId).isSome then (.won, { s with revokedToken := k.row jti :: s.revokedToken })
    else (.threw, s)
  | .increment userId, x, s =>
    if x = .fails then (none, s)
    else
      match s.increment userId with
      | none => (none, s)
      | some (version, s') => (some version, s')
  | .sadd jti _, x, s => ((), if x = .fails then s else { s with jti := insert jti s.jti })
  | .hset userId version _, x, s =>
    ((), if x = .fails then s else { s with userver := Function.update s.userver userId (some version) })
  | .publish _ _, _, s => ((), s)
  | .reload cutoff, x, s =>
    (match x with
     | .done => .tokens (s.tokens cutoff)
     | .usersFirst => .users s.versions
     | .fails => .threw, s)
  | .readUsers _, x, s => (if x = .fails then none else some s.versions, s)
  | .readTokens cutoff _, x, s => (if x = .fails then none else some (s.tokens cutoff), s)
  | .rebuild tokens users, x, s => ((), if x = .fails then s else { s with jti := tokens, userver := users })
  | .deleteMany cutoff, x, s =>
    if x = .fails then (none, s)
    else
      (some (s.revokedToken.countP fun row => row.expiresAt < (cutoff : ℤ)),
       { s with revokedToken := s.revokedToken.filter fun row => ¬row.expiresAt < (cutoff : ℤ) })
  | .findUser o, x, s => (if x = .fails then none else some (s.user o.userId), s)
  | .findUnique jti _, x, s => (if x = .fails then none else some (s.revoked jti), s)

/-- The memory of an instance. -/
structure Instance where
  revocations : Revocations
  sockets : List Socket
  clock : ℕ

def Instance.empty : Instance := ⟨.empty, [], 0⟩

/-- What is answered to a caller, and what is told to a socket. -/
inductive Response
  | revoked
  | version (version : ℕ)
  | refreshed (payload token : SessionToken)
  | unauthorized (message : String)
  | failed
  | swept (count : ℕ)
  | sessionEnded (socket : ℕ) (reason : Reason)

/-- What arrives at an instance: a call, a message, a timer, or an event of a socket. -/
inductive Request
  | clock (t : ℕ)
  | revokeToken (row : RevokedToken)
  | revokeAllForUser (userId : String)
  | noteVersionBumped (userId : String) (version : ℕ)
  | refresh
  | message (ev : RevocationEvent)
  | sweep
  | refreshSession (payload : SessionToken) (uuid : String)
  | handshake (id : ℕ) (nsp : Namespace) (payload : SessionToken)
  | register (id : ℕ)
  | close (id : ℕ)
  | expirySweep

abbrev Stretch := Turn Instance Response Point Empty

/-- A handler that ends. -/
def ends (l : Instance) (sent : List Response) : Stretch := ⟨l, sent, .done⟩

/-- A handler that awaits. -/
def awaits (l : Instance) (p : Point) : Stretch := ⟨l, [], .await p⟩

def Instance.remember (rev : Revocation) (l : Instance) : Instance :=
  { l with revocations := rev.remember l.revocations }

/-- The handlers of `onEvent`. -/
def notify (ev : RevocationEvent) (l : Instance) : Instance × List Response :=
  let evicted := evictRevoked ev l.sockets
  ({ l with sockets := evicted.1 }, evicted.2.map fun e => .sessionEnded e.1 e.2)

def announce (rev : Revocation) (c : Caller) (l : Instance) : Stretch :=
  let notified := notify rev.event l
  ⟨notified.1, notified.2, .await (.publish rev.event c)⟩

/-- `issueToken`: `jwt.sign` adds when the token is issued and when it expires. -/
def issueToken (lifetime : ℤ) (k : Rotation) (l : Instance) : SessionToken :=
  let nowS : ℤ := (l.clock / 1000 : ℕ)
  { sub := some (.str k.userId), jti := some (.str k.uuid), ver := some (.num ⟨false, k.user.tokenVersion, [], none⟩),
    sess := some k.start, iat := some nowS, exp := some (nowS + lifetime) }

/-- What follows when a revocation has been announced. -/
def answer (lifetime : ℤ) (c : Caller) (l : Instance) : Stretch :=
  match c with
  | .logout => ends l [.revoked]
  | .logoutAll version => ends l [.version version]
  | .bumped => ends l []
  | .rotation k => ends l [.refreshed k.payload (issueToken lifetime k l)]

def applyEvent (ev : RevocationEvent) (l : Instance) : Stretch :=
  match ev.revocation? with
  | none => ends l []
  | some rev =>
    let notified := notify ev (l.remember rev)
    ends notified.1 notified.2

def refreshSession (payload : SessionToken) (uuid : String) (l : Instance) : Stretch :=
  match subjectOf payload.toTokenPayload with
  | none => ends l [.unauthorized "No such session"]
  | some userId =>
    let nowS : ℤ := (l.clock / 1000 : ℕ)
    let start := sessionStart payload nowS
    if nowS - start > SESSION_MAX_S then
      ends l [.unauthorized "This session has reached its age limit - sign in again"]
    else awaits l (.findUser { payload, uuid, userId, nowS, start })

/-- The first stretch of each handler. -/
def start (r : Request) (l : Instance) : Stretch :=
  match r with
  | .clock t => ends { l with clock := max l.clock t } []
  | .revokeToken row => awaits l (.upsert row)
  | .revokeAllForUser userId => awaits l (.increment userId)
  | .noteVersionBumped userId version =>
    awaits (l.remember (.user userId version)) (.hset userId version .bumped)
  | .refresh =>
    if l.revocations.inFlight then ends l []
    else awaits { l with revocations := l.revocations.beginReload } (.reload l.clock)
  | .message ev => applyEvent ev l
  | .sweep => awaits l (.deleteMany l.clock)
  | .refreshSession payload uuid => refreshSession payload uuid l
  | .handshake id nsp payload =>
    match wsAuthMiddleware id nsp payload l.clock l.revocations with
    | .error message => ends l [.unauthorized message]
    | .ok k => ends { l with sockets := l.sockets ++ [k] } []
  | .register id =>
    ends
      { l with
        sockets := l.sockets.map fun k => if k.id = id ∧ k.phase = .opening then { k with phase := .opened } else k }
      []
  | .close id => ends { l with sockets := l.sockets.filter fun k => ¬k.id = id } []
  | .expirySweep =>
    let evicted := expirySweep l.clock l.sockets
    ends { l with sockets := evicted.1 } (evicted.2.map fun e => .sessionEnded e.1 e.2)

/-- The end of a reload. -/
def settle (l : Instance) : Stretch := ends { l with revocations := l.revocations.endReload } []

/-- The snapshot is replaced, and the mirror rebuilt to match it. -/
def replace (tokens : Finset String) (users : String → Option ℕ) (l : Instance) : Stretch :=
  let r := l.revocations.install tokens users
  awaits { l with revocations := r } (.rebuild r.revokedTokens r.userVersions)

/-- `refreshSession` once the user is there: a stale version is refused, then the jti is looked up. -/
def checkVersion (lifetime : ℤ) (k : Rotation) (l : Instance) : Stretch :=
  if (versionOf k.payload.toTokenPayload).any (k.user.tokenVersion ≤ ·) then
    match jtiOf k.payload.toTokenPayload with
    | none => answer lifetime (.rotation k) l
    | some jti => awaits l (.findUnique jti k)
  else ends l [.unauthorized "This session was signed out"]

/-- The stretch that follows a reply. -/
def resume (lifetime : ℤ) : (p : Point) → Reply p → Instance → Stretch
  | .upsert row, r, l =>
    match r with
    | true => awaits (l.remember (.token row.jti)) (.sadd row.jti .logout)
    | false => ends l [.failed]
  | .create jti k, r, l =>
    match r with
    | .won => awaits (l.remember (.token jti)) (.sadd jti (.rotation k))
    | .taken => ends (l.remember (.token jti)) [.unauthorized "This session was just refreshed elsewhere - reload"]
    | .threw => ends l [.failed]
  | .increment userId, r, l =>
    match r with
    | none => ends l [.failed]
    | some version => awaits (l.remember (.user userId version)) (.hset userId version (.logoutAll version))
  | .sadd jti c, _, l => announce (.token jti) c l
  | .hset userId version c, _, l => announce (.user userId version) c l
  | .publish _ c, _, l => answer lifetime c l
  | .reload cutoff, r, l =>
    match r with
    | .tokens tokens => awaits l (.readUsers tokens)
    | .users users => awaits l (.readTokens cutoff users)
    | .threw => settle l
  | .readUsers tokens, r, l =>
    match r with
    | none => settle l
    | some users => replace tokens users l
  | .readTokens _ users, r, l =>
    match r with
    | none => settle l
    | some tokens => replace tokens users l
  | .rebuild _ _, _, l => settle l
  | .deleteMany _, r, l => ends l [match r with | none => .swept 0 | some count => .swept count]
  | .findUser o, r, l =>
    match r with
    | none => ends l [.failed]
    | some none => ends l [.unauthorized "No such session"]
    | some (some user) => checkVersion lifetime { toOpening := o, user } l
  | .findUnique jti k, r, l =>
    match r with
    | none => ends l [.failed]
    | some true => ends l [.unauthorized "This session was signed out"]
    | some false => awaits l (.create jti k)

/-- What else happens to the database: an account is made, or another write increments a version. -/
inductive Env
  | register (userId username : String)
  | bump (userId : String)

def env : Env → Store → Store
  | .register userId username, s =>
    if (s.user userId).isSome then s
    else { s with user := Function.update s.user userId (some ⟨username, 0⟩) }
  | .bump userId, s => ((s.increment userId).map Prod.snd).getD s

/-- The system. -/
def service (lifetime : ℤ) : Tasks Instance Response Point Empty Request Store Choice Env Reply where
  loc := .empty
  shared := .empty
  start := start
  resume := resume lifetime
  enter q := nomatch q
  exec := exec
  inside _ := false
  env := env

abbrev State (I : Type) := Office I Store Instance Empty Reply
abbrev Action (I : Type) := Move I Request Choice Env
abbrev Output (I : Type) := Shown I Response
abbrev Event (I : Type) := Machine.Event (State I) (Action I) (Output I)

/-- Its runs. -/
abbrev machine (I : Type) [DecidableEq I] (lifetime : ℤ) : Machine (State I) (Action I) (Output I) :=
  (service lifetime).machine

abbrev Step {I : Type} [DecidableEq I] (lifetime : ℤ) (s : State I) (a : Action I) (o : Output I)
    (s' : State I) : Prop :=
  Tasks.Step (service lifetime) s a o s'

end Auth
end WatchParty
