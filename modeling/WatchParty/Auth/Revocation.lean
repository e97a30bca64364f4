import Mathlib.Data.Finset.Lattice.Basic
import WatchParty.Auth.Token

/-!
# The revocation snapshot and the live sockets of an instance

The memory of `revocation.service.ts` and the sockets that `ws-auth.ts` and `socket-eviction.ts` look after, with the
stretches of these files that do not await.

- `Revocations` is the snapshot with its pending buffers; `isRevoked`, `rememberToken`, `rememberVersion`, `install`;
- `Socket` is a connection of either namespace; `wsAuthMiddleware`, `evictRevoked`, `expirySweep`;
- `Revocation` is what a revocation names: one token, or every token of a user below a version.
-/

namespace WatchParty
namespace Auth

/-- A token, with the claims about its session. -/
structure SessionToken extends TokenPayload where
  sess : Option ℤ
  iat : Option ℤ
  exp : Option ℤ

/-- What `RevocationService` keeps in memory. -/
structure Revocations where
  revokedTokens : Finset String
  userVersions : String → Option ℕ
  loaded : Bool
  pendingTokens : Finset String
  pendingVersions : String → Option ℕ
  refreshing : Bool
  inFlight : Bool

def Revocations.empty : Revocations :=
  { revokedTokens := ∅, userVersions := fun _ => none, loaded := false, pendingTokens := ∅,
    pendingVersions := fun _ => none, refreshing := false, inFlight := false }

/-- Why a token is refused. -/
inductive Refusal
  | token
  | user
  deriving DecidableEq

namespace Revocations

def isRevoked (payload : TokenPayload) (r : Revocations) : Option Refusal :=
  if r.loaded = false then some .user
  else if (jtiOf payload).any (· ∈ r.revokedTokens) then some .token
  else
    match subjectOf payload with
    | none => none
    | some sub =>
      match versionOf payload with
      | none => some .user
      | some claimed => if claimed < (r.userVersions sub).getD 0 then some .user else none

def rememberToken (jti : String) (r : Revocations) : Revocations :=
  { r with revokedTokens := insert jti r.revokedTokens,
           pendingTokens := if r.refreshing then insert jti r.pendingTokens else r.pendingTokens }

/-- A version is entered where it is higher than what is there. -/
def raise (userId : String) (version : ℕ) (versions : String → Option ℕ) : String → Option ℕ :=
  if version > (versions userId).getD 0 then Function.update versions userId (some version) else versions

def rememberVersion (userId : String) (version : ℕ) (r : Revocations) : Revocations :=
  { r with userVersions := raise userId version r.userVersions,
           pendingVersions := if r.refreshing then raise userId version r.pendingVersions else r.pendingVersions }

/-- `reload`, up to its reads. -/
def beginReload (r : Revocations) : Revocations :=
  { r with inFlight := true, refreshing := true, pendingTokens := ∅, pendingVersions := fun _ => none }

/-- What was read, with every pending version that is higher. -/
def mergeVersions (users pending : String → Option ℕ) (userId : String) : Option ℕ :=
  match pending userId with
  | none => users userId
  | some version => some (max ((users userId).getD 0) version)

/-- The snapshot is replaced by what was read and what is pending. -/
def install (tokens : Finset String) (users : String → Option ℕ) (r : Revocations) : Revocations :=
  { r with revokedTokens := tokens ∪ r.pendingTokens, userVersions := mergeVersions users r.pendingVersions,
           loaded := true }

/-- The end of `reload`, and of the promise that callers join. -/
def endReload (r : Revocations) : Revocations :=
  { r with inFlight := false, refreshing := false, pendingTokens := ∅, pendingVersions := fun _ => none }

end Revocations

/-- A revocation, as it is announced and as it is received. A member that is missing or of another type is none. -/
inductive RevocationEvent
  | token (jti : Option String)
  | user (userId : Option String) (version : Option ℚ)
  | other
  deriving DecidableEq

/-- What a revocation names: one token, or every token of a user below a version. -/
inductive Revocation
  | token (jti : String)
  | user (userId : String) (version : ℕ)
  deriving DecidableEq

namespace Revocation

/-- The event by which the revocation is announced. -/
def event : Revocation → RevocationEvent
  | .token jti => .token (some jti)
  | .user userId version => .user (some userId) (some version)

/-- The snapshot that has been told of the revocation. -/
def remember : Revocation → Revocations → Revocations
  | .token jti, r => r.rememberToken jti
  | .user userId version, r => r.rememberVersion userId version

/-- Does the revocation name the token? -/
def Names : Revocation → TokenPayload → Prop
  | .token jti, payload => jtiOf payload = some jti
  | .user userId version, payload => subjectOf payload = some userId ∧ ∃ v, versionOf payload = some v ∧ v < version

/-- Has the snapshot the revocation, or a higher one of the same user? -/
def Held (r : Revocations) : Revocation → Prop
  | .token jti => jti ∈ r.revokedTokens
  | .user userId version => version ≤ (r.userVersions userId).getD 0

instance (rev : Revocation) (payload : TokenPayload) : Decidable (rev.Names payload) := by
  cases rev with
  | token jti => exact inferInstanceAs (Decidable (jtiOf payload = some jti))
  | user userId version =>
    exact decidable_of_iff (subjectOf payload = some userId ∧ (versionOf payload).any (· < version) = true)
      (by simp [Names, Option.any_eq_true])

instance (r : Revocations) (rev : Revocation) : Decidable (Held r rev) := by
  cases rev with
  | token jti => exact inferInstanceAs (Decidable (jti ∈ r.revokedTokens))
  | user userId version => exact inferInstanceAs (Decidable (version ≤ (r.userVersions userId).getD 0))

end Revocation

/-- The revocation of an event that `applyEvent` does not ignore. -/
def RevocationEvent.revocation? : RevocationEvent → Option Revocation
  | .token (some jti) => if jti = "" then none else some (.token jti)
  | .user (some userId) (some version) =>
    if userId = "" then none else (natural version).bind fun v => if 0 < v then some (.user userId v) else none
  | _ => none

/-- A snapshot that has been loaded refuses what a revocation it holds names. -/
theorem isRevoked_of_held {r : Revocations} {rev : Revocation} {payload : TokenPayload}
    (hh : Revocation.Held r rev) (hn : rev.Names payload) : (r.isRevoked payload).isSome = true := by
  unfold Revocations.isRevoked
  split
  · rfl
  · split
    · rfl
    · rename_i hjti
      cases rev with
      | token jti =>
        have hj : jtiOf payload = some jti := hn
        have hh : jti ∈ r.revokedTokens := hh
        rw [hj] at hjti
        exact absurd (by simpa using hh) hjti
      | user userId version =>
        obtain ⟨hsub, v, hv, hlt⟩ := hn
        have hh : version ≤ (r.userVersions userId).getD 0 := hh
        simp only [hsub, hv]
        rw [if_pos (by omega)]
        rfl

/-! ## Sockets -/

/-- The namespaces. -/
inductive Namespace
  | main
  | voice
  deriving DecidableEq

/-- What `wsAuthMiddleware` puts on a socket; without an expiry it never expires. -/
structure AuthedSocketData where
  userId : String
  jti : Option String
  tokenVersion : ℕ
  expiresAt : Option ℤ

/-- A socket that has passed the middleware is registered in its namespace a moment later; one that is evicted is
disconnected a moment later. -/
inductive Phase
  | opening
  | opened
  | closing
  deriving DecidableEq

/-- A connection, with the token of its handshake. -/
structure Socket where
  id : ℕ
  nsp : Namespace
  payload : TokenPayload
  data : AuthedSocketData
  phase : Phase

/-- Is the socket in the map of its namespace? -/
def Socket.registered (k : Socket) : Bool := k.phase ≠ .opening

/-- `jwt.verify`, of a token that is signed. -/
def verify (clock : ℕ) (payload : SessionToken) : Bool :=
  match payload.exp with
  | none => true
  | some exp => decide ((clock / 1000 : ℕ) < exp)

/-- What the middleware makes of a handshake. -/
def wsAuthMiddleware (id : ℕ) (nsp : Namespace) (payload : SessionToken) (clock : ℕ) (r : Revocations) :
    Except String Socket :=
  if verify clock payload = true then
    match subjectOf payload.toTokenPayload with
    | none => .error "unauthorized: token has no subject"
    | some sub =>
      if (r.isRevoked payload.toTokenPayload).isSome then .error "unauthorized: token revoked"
      else
        .ok { id, nsp, payload := payload.toTokenPayload, phase := .opening,
               data := { userId := sub, jti := jtiOf payload.toTokenPayload,
                         tokenVersion := (versionOf payload.toTokenPayload).getD 0,
                         expiresAt := payload.exp.map (· * 1000) } }
  else .error "unauthorized: invalid token"

/-- The reasons for which a session ends. -/
inductive Reason
  | expired
  | revoked
  | allRevoked
  deriving DecidableEq

/-- `evict`. -/
def evict (k : Socket) : Socket := { k with phase := .closing }

/-- Why `evictRevoked` evicts a socket. -/
def evictionReason (ev : RevocationEvent) (data : AuthedSocketData) : Option Reason :=
  match ev with
  | .token (some jti) => if jti ≠ "" ∧ data.jti = some jti then some .revoked else none
  | .user (some userId) version =>
    if userId ≠ "" ∧ data.userId = userId ∧ (data.tokenVersion : ℚ) < version.getD 0 then some .allRevoked else none
  | _ => none

/-- Why the sweep evicts a socket. -/
def expiryReason (clock : ℕ) (data : AuthedSocketData) : Option Reason :=
  if data.expiresAt.any (· ≤ (clock : ℤ)) then some .expired else none

/-- Every registered socket for which there is a reason is evicted, and told why. -/
def evictAll (reason : AuthedSocketData → Option Reason) (sockets : List Socket) : List Socket × List (ℕ × Reason) :=
  (sockets.map fun k => if k.registered ∧ (reason k.data).isSome then evict k else k,
   sockets.filterMap fun k => if k.registered then (reason k.data).map fun r => (k.id, r) else none)

def evictRevoked (ev : RevocationEvent) (sockets : List Socket) : List Socket × List (ℕ × Reason) :=
  evictAll (evictionReason ev) sockets

/-- One tick of `startExpirySweep`. -/
def expirySweep (clock : ℕ) (sockets : List Socket) : List Socket × List (ℕ × Reason) :=
  evictAll (expiryReason clock) sockets

end Auth
end WatchParty
