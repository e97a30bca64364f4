import WatchParty.Account.Credentials
import WatchParty.Account.Database
import WatchParty.Lib.Tasks

/-!
# The account handlers of all instances

`auth.service.ts` and the handlers of `auth.controller.ts` that sign in, convert, link and re-authenticate, on any number
of instances over one database. A handler awaits one query at a time. What it awaits besides touches nothing that another
handler sees: bcrypt, the exchange with Google, and the announcement of a version, so these take no step of their own.

- what arrives with a bearer token has passed the guard; a callback arrives with the state that its cookie carries, and
  with what Google says of the person;
- `Point` is where a handler awaits, `Point.query` its query; `start` and `resume` are the stretches of the handlers;
- `accounts` is the system, and `State`, `Step`, `Event` its states, steps and events.
-/

namespace WatchParty
namespace Account

/-- The platform, and for how many seconds a token is valid. -/
structure Config extends Platform where
  lifetime : ℕ

/-- What a call draws at random, once for each attempt where it makes several. -/
structure Draws where
  jti : String
  state : String
  salt : String
  id : ℕ → String
  address : ℕ → String
  number : ℕ → ℕ

/-- A token. One that re-authenticates carries no session. -/
structure Token where
  sub : String
  name : String
  jti : String
  ver : ℕ
  sess : Option ℕ
  elev : Bool
  iat : ℕ
  exp : ℕ
  deriving DecidableEq

/-- What a flow through Google is for; a sign-in where there is no purpose. -/
inductive Purpose
  | linkGuest
  | linkFull
  | reauth
  deriving DecidableEq

/-- What is sealed in the cookie. -/
structure OAuthState where
  state : String
  linkUserId : Option String
  purpose : Option Purpose
  expiresAt : ℕ
  deriving DecidableEq

structure GoogleIdentity where
  subject : String
  email : String
  name : Option String

/-- The memory of an instance. -/
structure Instance where
  clock : ℕ

/-- How a call fails. -/
inductive Failure
  | badRequest (message : String)
  | unauthorized (message : String)
  | forbidden (code : Option String) (message : String)
  | conflict (code : Option String) (message : String)
  | google (code : String)
  | database
  deriving DecidableEq

inductive Response
  | session (user : User) (token : Token)
  | elevated (token : Token)
  | version (version : ℕ)
  | started (sealed : OAuthState)
  | failed (f : Failure)
  | redirected (error : String)

/-- What arrives at an instance. -/
inductive Request
  | clock (t : ℕ)
  | register (username email password : String) (draws : Draws)
  | login (username password : String) (draws : Draws)
  | guest (draws : Draws)
  | claim (bearer : Token) (username email password : String) (draws : Draws)
  | linkStart (bearer : Token) (password : String) (draws : Draws)
  | reauthStart (bearer : Token) (draws : Draws)
  | googleStart (draws : Draws)
  | callback (sealed : OAuthState) (identity : GoogleIdentity) (draws : Draws)
  | setPassword (bearer : Token) (currentPassword newPassword : String) (draws : Draws)
  | logoutAll (bearer : Token)
  | refresh (bearer : Token) (draws : Draws)

/-- A call of `claimGuestAccount`, with what has been checked. -/
structure Claim where
  bearer : Token
  username : String
  email : String
  password : String
  draws : Draws

/-- A call of `linkStart` or `reauthStart`. -/
structure Start where
  bearer : Token
  password : String
  draws : Draws

/-- A call of `setPassword`. -/
structure Change where
  bearer : Token
  currentPassword : String
  newPassword : String
  draws : Draws

/-- A callback: its state, what Google says, and the address in lower case. -/
structure Callback where
  sealed : OAuthState
  identity : GoogleIdentity
  email : String
  draws : Draws

/-- A call of `refreshSession`, with when the session began. -/
structure Renewal where
  bearer : Token
  start : ℕ
  draws : Draws

/-- Where a handler awaits. -/
inductive Point
  | register (username email password : String) (draws : Draws)
  | registerCreate (row : User) (draws : Draws)
  | login (username password : String) (draws : Draws)
  | guest (attempt : ℕ) (row : User) (draws : Draws)
  | claim (k : Claim)
  | claimTaken (k : Claim)
  | claimUpdate (k : Claim) (hash : String)
  | linkStart (k : Start)
  | linkMethod (k : Start)
  | linkVerify (k : Start)
  | reauthStart (k : Start)
  | setPassword (k : Change)
  | setPasswordVerify (k : Change)
  | setPasswordUpdate (k : Change) (hash : String)
  | logoutAll (userId : String)
  | reauthOwner (userId : String) (k : Callback)
  | mintElevatedToken (userId : String) (k : Callback)
  | fullFind (userId : String) (k : Callback)
  | fullLink (user : User) (k : Callback)
  | fullCreate (user : User) (k : Callback)
  | fullOwner (user : User) (k : Callback)
  | guestFind (userId : String) (k : Callback)
  | guestLink (userId : String) (k : Callback)
  | guestEmail (userId : String) (k : Callback)
  | guestUpdate (userId : String) (attempt : ℕ) (username : String) (k : Callback)
  | signIn (k : Callback)
  | signInEmail (k : Callback)
  | signInCreate (attempt : ℕ) (row : User) (k : Callback)
  | signInWinner (k : Callback)
  | refresh (k : Renewal)
  | refreshJti (k : Renewal) (user : User)
  | refreshClaim (k : Renewal) (user : User)

/-- The query that a handler awaits. -/
def Point.query : Point → Query
  | .register username email _ _ => .findTaken username email none
  | .registerCreate row _ => .create row none
  | .login username _ _ => .findByUsername username
  | .guest _ row _ => .create row none
  | .claim k => .findUser k.bearer.sub
  | .claimTaken k => .findTaken k.username k.email (some k.bearer.sub)
  | .claimUpdate k hash => .convert k.bearer.sub k.username k.email (some hash) none
  | .linkStart k => .hasGoogleLink k.bearer.sub
  | .linkMethod k => .credentials k.bearer.sub
  | .linkVerify k => .findUser k.bearer.sub
  | .reauthStart k => .credentials k.bearer.sub
  | .setPassword k => .credentials k.bearer.sub
  | .setPasswordVerify k => .findUser k.bearer.sub
  | .setPasswordUpdate k hash => .setPassword k.bearer.sub hash
  | .logoutAll userId => .increment userId
  | .reauthOwner _ k => .owner k.identity.subject
  | .mintElevatedToken userId _ => .findUser userId
  | .fullFind userId _ => .findUser userId
  | .fullLink _ k => .owner k.identity.subject
  | .fullCreate user k => .createLink k.identity.subject user.id
  | .fullOwner _ k => .owner k.identity.subject
  | .guestFind userId _ => .findUser userId
  | .guestLink _ k => .owner k.identity.subject
  | .guestEmail userId k => .findByEmail k.email userId
  | .guestUpdate userId _ username k => .convert userId username k.email none (some k.identity.subject)
  | .signIn k => .linked k.identity.subject
  | .signInEmail k => .findByEmailInsensitive k.email
  | .signInCreate _ row k => .create row (some k.identity.subject)
  | .signInWinner k => .linked k.identity.subject
  | .refresh k => .findUser k.bearer.sub
  | .refreshJti k _ => .findJti k.bearer.jti
  | .refreshClaim k user => .createJti k.bearer.jti user.id

abbrev Reply (p : Point) : Type := p.query.Answer

abbrev Stretch := Turn Instance Response Point Empty

def ends (l : Instance) (r : Response) : Stretch := ⟨l, [r], .done⟩

def awaits (l : Instance) (p : Point) : Stretch := ⟨l, [], .await p⟩

def fails (l : Instance) (f : Failure) : Stretch := ends l (.failed f)

/-- The code that a callback redirects with when it fails: that of a link, that of the provider, or `exchange`. -/
def callbackError : Failure → String
  | .forbidden (some code) _ => if "link_".toList.isPrefixOf code.toList then code else "exchange"
  | .conflict (some code) _ => if "link_".toList.isPrefixOf code.toList then code else "exchange"
  | .google code => code
  | _ => "exchange"

def redirects (l : Instance) (f : Failure) : Stretch := ends l (.redirected (callbackError f))

def USERNAME_ATTEMPTS : ℕ := 8

def FLOW_TTL_MS : ℕ := 10 * 60 * 1000

def SESSION_MAX_S : ℕ := 30 * 24 * 3600

/-- The seconds of a clock. -/
def Instance.nowS (l : Instance) : ℕ := l.clock / 1000

def issueToken (C : Config) (user : User) (sessionStart : Option ℕ) (draws : Draws) (l : Instance) : Token :=
  { sub := user.id, name := user.username, jti := draws.jti, ver := user.tokenVersion,
    sess := some (sessionStart.getD l.nowS), elev := false, iat := l.nowS, exp := l.nowS + C.lifetime }

/-- The person is signed in. -/
def signedIn (C : Config) (user : User) (draws : Draws) (l : Instance) : Stretch :=
  ends l (.session user (issueToken C user none draws l))

/-- How an account re-authenticates. -/
inductive Method
  | password
  | google
  deriving DecidableEq

def reauthMethodFor : Option (User × Bool) → Option Method
  | none => none
  | some (user, linked) =>
    if user.password.any (· ≠ "") then some .password else if linked then some .google else none

/-- `verifyPassword`, once the row has been read. -/
def verifies (C : Config) (password : String) (user : Option User) : Bool :=
  (user.bind User.password).any fun hash => hash ≠ "" && C.compare password hash

def sealState (userId : Option String) (purpose : Option Purpose) (draws : Draws) (l : Instance) : Stretch :=
  ends l (.started ⟨draws.state, userId, purpose, l.clock + FLOW_TTL_MS⟩)

/-- The row of an account that is opened with a password. -/
def registered (C : Config) (username email password : String) (draws : Draws) : User :=
  { id := draws.id 0, username, email, password := some (C.hash password draws.salt), isGuest := false,
    tokenVersion := 0 }

/-- The row of a guest, at the given attempt. -/
def guestRow (attempt : ℕ) (draws : Draws) : User :=
  { id := draws.id attempt, username := usernameCandidates "guest" draws.number attempt,
    email := draws.address attempt ++ "@guest.invalid", password := none, isGuest := true, tokenVersion := 0 }

/-- The name that a person who comes from Google is given, at the given attempt. -/
def Callback.username (C : Config) (attempt : ℕ) (k : Callback) : String :=
  usernameCandidates (usernameBase C.toPlatform k.identity.name k.email) k.draws.number attempt

/-- The row of an account that is opened through Google, at the given attempt. -/
def googleUser (C : Config) (attempt : ℕ) (k : Callback) : User :=
  { id := k.draws.id attempt, username := k.username C attempt, email := k.email, password := none, isGuest := false,
    tokenVersion := 0 }

def mintElevatedToken (user : User) (draws : Draws) (l : Instance) : Stretch :=
  ends l
    (.elevated
      { sub := user.id, name := user.username, jti := draws.jti, ver := user.tokenVersion, sess := none, elev := true,
        iat := l.nowS, exp := l.nowS + 300 })

/-- `setPassword` of the service. -/
def changePassword (C : Config) (k : Change) (l : Instance) : Stretch :=
  if units k.newPassword < 8 then fails l (.badRequest "Passwords are at least 8 characters")
  else awaits l (.setPasswordUpdate k (C.hash k.newPassword k.draws.salt))

def providerTaken : Failure :=
  .conflict (some "link_provider_taken") "That Google account is already signed in here - sign in with it instead"

def emailTaken : Failure :=
  .conflict (some "link_email_taken") "An account with that email already exists - sign in with it instead"

def alreadyLinked : Failure := .conflict (some "link_provider_taken") "This account already signs in with Google"

def noSession : Failure := .unauthorized "No such session"

/-- `callback`, once Google has said who the person is: what is done was sealed when the flow was started. -/
def callback (C : Config) (sealed : OAuthState) (identity : GoogleIdentity) (draws : Draws) (l : Instance) : Stretch :=
  let k : Callback := { sealed, identity, email := C.toLowerCase (trim identity.email), draws }
  if sealed.expiresAt ≤ l.clock then redirects l (.google "state")
  else
    match sealed.linkUserId.filter (· ≠ "") with
    | none => awaits l (.signIn k)
    | some userId =>
      match sealed.purpose with
      | some .reauth => awaits l (.reauthOwner userId k)
      | some .linkFull => awaits l (.fullFind userId k)
      | _ => awaits l (.guestFind userId k)

/-- The first stretch of each handler. -/
def start (C : Config) : Request → Instance → Stretch
  | .clock t, l => ⟨{ clock := max l.clock t }, [], .done⟩
  | .register username email password draws, l =>
    match credentialsOrThrow C.toPlatform username email password with
    | .error message => fails l (.badRequest message)
    | .ok (username, email) => awaits l (.register username email password draws)
  | .login username password draws, l => awaits l (.login username password draws)
  | .guest draws, l => awaits l (.guest 0 (guestRow 0 draws) draws)
  | .claim bearer username email password draws, l =>
    match credentialsOrThrow C.toPlatform username email password with
    | .error message => fails l (.badRequest message)
    | .ok (username, email) => awaits l (.claim { bearer, username, email, password, draws })
  | .linkStart bearer password draws, l => awaits l (.linkStart { bearer, password, draws })
  | .reauthStart bearer draws, l => awaits l (.reauthStart { bearer, password := "", draws })
  | .googleStart draws, l => sealState none none draws l
  | .callback sealed identity draws, l => callback C sealed identity draws l
  | .setPassword bearer currentPassword newPassword draws, l =>
    awaits l (.setPassword { bearer, currentPassword, newPassword, draws })
  | .logoutAll bearer, l => awaits l (.logoutAll bearer.sub)
  | .refresh bearer draws, l =>
    if bearer.elev then fails l (.unauthorized "Re-auth tokens cannot be refreshed")
    else
      let start := bearer.sess.getD bearer.iat
      if SESSION_MAX_S < l.nowS - start then
        fails l (.unauthorized "This session has reached its age limit - sign in again")
      else awaits l (.refresh { bearer, start, draws })

/-- The stretch that follows a reply. -/
def resume (C : Config) : (p : Point) → Reply p → Instance → Stretch
  | .register username email password draws, r, l =>
    match (r : Option Bool) with
    | none => fails l .database
    | some true => fails l (.conflict none "User already exists")
    | some false => awaits l (.registerCreate (registered C username email password draws) draws)
  | .registerCreate _ draws, r, l =>
    match (r : Except WriteError User) with
    | .ok user => signedIn C user draws l
    | .error _ => fails l .database
  | .login _ password draws, r, l =>
    match (r : Option (Option User)) with
    | none => fails l .database
    | some none => fails l (.unauthorized "Invalid credentials")
    | some (some user) =>
      if verifies C password (some user) then signedIn C user draws l
      else fails l (.unauthorized "Invalid credentials")
  | .guest attempt _ draws, r, l =>
    match (r : Except WriteError User) with
    | .ok user => signedIn C user draws l
    | .error err =>
      if isUniqueViolation err .username then
        if attempt + 1 < USERNAME_ATTEMPTS then awaits l (.guest (attempt + 1) (guestRow (attempt + 1) draws) draws)
        else fails l (.conflict none "Could not allocate a guest name")
      else fails l .database
  | .claim k, r, l =>
    match (r : Option (Option User)) with
    | none => fails l .database
    | some none => fails l noSession
    | some (some user) =>
      if user.isGuest then awaits l (.claimTaken k)
      else fails l (.forbidden none "This session is already a full account")
  | .claimTaken k, r, l =>
    match (r : Option Bool) with
    | none => fails l .database
    | some true => fails l (.conflict none "That name or email is taken")
    | some false => awaits l (.claimUpdate k (C.hash k.password k.draws.salt))
  | .claimUpdate k _, r, l =>
    match (r : Except WriteError User) with
    | .ok user => signedIn C user k.draws l
    | .error err =>
      if isUniqueViolation err .username || isUniqueViolation err .email then
        fails l (.conflict none "That name or email is taken")
      else fails l .database
  | .linkStart k, r, l =>
    match (r : Option Bool) with
    | none => fails l .database
    | some true => fails l alreadyLinked
    | some false => awaits l (.linkMethod k)
  | .linkMethod k, r, l =>
    match (r : Option (Option (User × Bool))) with
    | none => fails l .database
    | some row =>
      match reauthMethodFor row with
      | some .password => awaits l (.linkVerify k)
      | some .google => fails l alreadyLinked
      | none => sealState (some k.bearer.sub) (some .linkGuest) k.draws l
  | .linkVerify k, r, l =>
    match (r : Option (Option User)) with
    | none => fails l .database
    | some user =>
      if verifies C k.password user then sealState (some k.bearer.sub) (some .linkFull) k.draws l
      else fails l (.unauthorized "Current password required to link a sign-in method")
  | .reauthStart k, r, l =>
    match (r : Option (Option (User × Bool))) with
    | none => fails l .database
    | some row =>
      match reauthMethodFor row with
      | some .google => sealState (some k.bearer.sub) (some .reauth) k.draws l
      | _ => fails l (.conflict (some "reauth_wrong_method") "This account re-authenticates with its password")
  | .setPassword k, r, l =>
    match (r : Option (Option (User × Bool))) with
    | none => fails l .database
    | some row =>
      match reauthMethodFor row with
      | some .password => awaits l (.setPasswordVerify k)
      | some .google =>
        if k.bearer.elev then changePassword C k l
        else fails l (.unauthorized "Confirm with Google first - this account has no password to verify")
      | none => fails l (.unauthorized "No re-authentication method available")
  | .setPasswordVerify k, r, l =>
    match (r : Option (Option User)) with
    | none => fails l .database
    | some user =>
      if verifies C k.currentPassword user then changePassword C k l
      else fails l (.unauthorized "Current password is wrong")
  | .setPasswordUpdate k _, r, l =>
    match (r : Except WriteError User) with
    | .ok user => signedIn C user k.draws l
    | .error err => if isNotFound err then fails l noSession else fails l .database
  | .logoutAll _, r, l =>
    match (r : Except WriteError User) with
    | .ok user => ends l (.version user.tokenVersion)
    | .error _ => fails l .database
  | .reauthOwner userId k, r, l =>
    match (r : Option (Option String)) with
    | none => redirects l .database
    | some owned =>
      if owned = some userId then awaits l (.mintElevatedToken userId k) else ends l (.redirected "reauth_mismatch")
  | .mintElevatedToken _ k, r, l =>
    match (r : Option (Option User)) with
    | none => redirects l .database
    | some none => redirects l noSession
    | some (some user) => mintElevatedToken user k.draws l
  | .fullFind _ k, r, l =>
    match (r : Option (Option User)) with
    | none => redirects l .database
    | some none => redirects l noSession
    | some (some user) => awaits l (.fullLink user k)
  | .fullLink user k, r, l =>
    match (r : Option (Option String)) with
    | none => redirects l .database
    | some none => awaits l (.fullCreate user k)
    | some (some owner) => if owner = user.id then signedIn C user k.draws l else redirects l providerTaken
  | .fullCreate user k, r, l =>
    match (r : Except WriteError User) with
    | .ok _ => signedIn C user k.draws l
    | .error err =>
      if isUniqueViolation err .providerAccountId then awaits l (.fullOwner user k) else redirects l .database
  | .fullOwner user k, r, l =>
    match (r : Option (Option String)) with
    | none => redirects l .database
    | some owner => if owner = some user.id then signedIn C user k.draws l else redirects l providerTaken
  | .guestFind userId k, r, l =>
    match (r : Option (Option User)) with
    | none => redirects l .database
    | some none => redirects l noSession
    | some (some user) =>
      if user.isGuest then awaits l (.guestLink userId k)
      else redirects l (.forbidden (some "link_not_guest") "This session is already a full account")
  | .guestLink userId k, r, l =>
    match (r : Option (Option String)) with
    | none => redirects l .database
    | some owner =>
      if owner.all (· = userId) then awaits l (.guestEmail userId k) else redirects l providerTaken
  | .guestEmail userId k, r, l =>
    match (r : Option Bool) with
    | none => redirects l .database
    | some true => redirects l emailTaken
    | some false => awaits l (.guestUpdate userId 0 (k.username C 0) k)
  | .guestUpdate userId attempt _ k, r, l =>
    match (r : Except WriteError User) with
    | .ok user => signedIn C user k.draws l
    | .error err =>
      if isUniqueViolation err .username then
        if attempt + 1 < USERNAME_ATTEMPTS then
          awaits l (.guestUpdate userId (attempt + 1) (k.username C (attempt + 1)) k)
        else redirects l (.conflict none "Could not allocate a name")
      else if isUniqueViolation err .providerAccountId then redirects l providerTaken
      else if isUniqueViolation err .email then redirects l emailTaken
      else redirects l .database
  | .signIn k, r, l =>
    match (r : Option (Option User)) with
    | none => redirects l .database
    | some none => awaits l (.signInEmail k)
    | some (some user) => signedIn C user k.draws l
  | .signInEmail k, r, l =>
    match (r : Option Bool) with
    | none => redirects l .database
    | some true => redirects l (.google "email_taken")
    | some false => awaits l (.signInCreate 0 (googleUser C 0 k) k)
  | .signInCreate attempt _ k, r, l =>
    match (r : Except WriteError User) with
    | .ok user => signedIn C user k.draws l
    | .error err =>
      if isUniqueViolation err .providerAccountId then awaits l (.signInWinner k)
      else if isUniqueViolation err .username then
        if attempt + 1 < USERNAME_ATTEMPTS then
          awaits l (.signInCreate (attempt + 1) (googleUser C (attempt + 1) k) k)
        else redirects l (.conflict none "Could not allocate a username")
      else if isUniqueViolation err .email then redirects l (.google "email_taken")
      else redirects l .database
  | .signInWinner k, r, l =>
    match (r : Option (Option User)) with
    | some (some user) => signedIn C user k.draws l
    | _ => redirects l .database
  | .refresh k, r, l =>
    match (r : Option (Option User)) with
    | none => fails l .database
    | some none => fails l noSession
    | some (some user) =>
      if k.bearer.ver < user.tokenVersion then fails l (.unauthorized "This session was signed out")
      else awaits l (.refreshJti k user)
  | .refreshJti k user, r, l =>
    match (r : Option Bool) with
    | none => fails l .database
    | some true => fails l (.unauthorized "This session was signed out")
    | some false => awaits l (.refreshClaim k user)
  | .refreshClaim k user, r, l =>
    match (r : Except WriteError User) with
    | .ok _ => ends l (.session user (issueToken C user (some k.start) k.draws l))
    | .error err =>
      if isUniqueViolation err .jti then
        fails l (.unauthorized "This session was just refreshed elsewhere - reload")
      else fails l .database

/-- The system. -/
def accounts (C : Config) : Tasks Instance Response Point Empty Request Database Choice Empty Reply where
  loc := ⟨0⟩
  shared := .empty
  start := start C
  resume := resume C
  enter q := nomatch q
  exec p := p.query.run C.lower
  inside _ := false
  env e := nomatch e

abbrev State (I : Type) := Office I Database Instance Empty Reply
abbrev Action (I : Type) := Move I Request Choice Empty
abbrev Output (I : Type) := Shown I Response
abbrev Event (I : Type) := Machine.Event (State I) (Action I) (Output I)

/-- Its runs. -/
abbrev machine (I : Type) [DecidableEq I] (C : Config) : Machine (State I) (Action I) (Output I) :=
  (accounts C).machine

abbrev Step {I : Type} [DecidableEq I] (C : Config) (s : State I) (a : Action I) (o : Output I) (s' : State I) :
    Prop :=
  Tasks.Step (accounts C) s a o s'

end Account
end WatchParty
