import WatchParty.Account.Service

/-!
# What the account handlers do

- `Opens` lists what a request can await first, `Continues` what a handler can await after a reply; `start_opens` and
  `resume_continues` say that there is nothing else;
- `Answers` lists what a handler can answer after a reply, `resume_answers` says that there is nothing else, and
  `start_answers` what is answered at once;
- `accounts_shared`: a step executes one query, or leaves the database.
-/

namespace WatchParty
namespace Account

/-- The callback of a state, with what Google says. -/
def callbackOf (C : Config) (sealed : OAuthState) (identity : GoogleIdentity) (draws : Draws) : Callback :=
  { sealed, identity, email := C.toLowerCase (trim identity.email), draws }

/-- The account that a flow acts on. -/
def OAuthState.target (sealed : OAuthState) : Option String := sealed.linkUserId.filter (· ≠ "")

/-- What a request awaits. -/
inductive Opens (C : Config) (l : Instance) : Request → Point → Prop
  | register (username email password username' email' : String) (draws : Draws) :
      Opens C l (.register username email password draws) (.register username' email' password draws)
  | login (username password : String) (draws : Draws) :
      Opens C l (.login username password draws) (.login username password draws)
  | guest (draws : Draws) : Opens C l (.guest draws) (.guest 0 (guestRow 0 draws) draws)
  | claim (bearer : Token) (username email password username' email' : String) (draws : Draws) :
      Opens C l (.claim bearer username email password draws)
        (.claim ⟨bearer, username', email', password, draws⟩)
  | linkStart (bearer : Token) (password : String) (draws : Draws) :
      Opens C l (.linkStart bearer password draws) (.linkStart ⟨bearer, password, draws⟩)
  | reauthStart (bearer : Token) (draws : Draws) :
      Opens C l (.reauthStart bearer draws) (.reauthStart ⟨bearer, "", draws⟩)
  | signIn (sealed : OAuthState) (identity : GoogleIdentity) (draws : Draws) (ht : sealed.target = none) :
      Opens C l (.callback sealed identity draws) (.signIn (callbackOf C sealed identity draws))
  | reauthOwner (sealed : OAuthState) (identity : GoogleIdentity) (draws : Draws) (userId : String)
      (ht : sealed.target = some userId) (hp : sealed.purpose = some .reauth) :
      Opens C l (.callback sealed identity draws) (.reauthOwner userId (callbackOf C sealed identity draws))
  | fullFind (sealed : OAuthState) (identity : GoogleIdentity) (draws : Draws) (userId : String)
      (ht : sealed.target = some userId) (hp : sealed.purpose = some .linkFull) :
      Opens C l (.callback sealed identity draws) (.fullFind userId (callbackOf C sealed identity draws))
  | guestFind (sealed : OAuthState) (identity : GoogleIdentity) (draws : Draws) (userId : String)
      (ht : sealed.target = some userId) :
      Opens C l (.callback sealed identity draws) (.guestFind userId (callbackOf C sealed identity draws))
  | setPassword (bearer : Token) (currentPassword newPassword : String) (draws : Draws) :
      Opens C l (.setPassword bearer currentPassword newPassword draws)
        (.setPassword ⟨bearer, currentPassword, newPassword, draws⟩)
  | logoutAll (bearer : Token) : Opens C l (.logoutAll bearer) (.logoutAll bearer.sub)
  | refresh (bearer : Token) (draws : Draws) (start : ℕ) (he : bearer.elev = false) :
      Opens C l (.refresh bearer draws) (.refresh ⟨bearer, start, draws⟩)

/-- What a handler awaits after a reply. -/
inductive Continues (C : Config) : (p : Point) → Reply p → Point → Prop
  | register (username email password : String) (draws : Draws) :
      Continues C (.register username email password draws) (some false : Option Bool)
        (.registerCreate (registered C username email password draws) draws)
  | guest (attempt : ℕ) (row : User) (draws : Draws) (err : WriteError) :
      Continues C (.guest attempt row draws) (Except.error err : Except WriteError User)
        (.guest (attempt + 1) (guestRow (attempt + 1) draws) draws)
  | claim (k : Claim) (user : User) (hg : user.isGuest = true) :
      Continues C (.claim k) (some (some user) : Option (Option User)) (.claimTaken k)
  | claimTaken (k : Claim) :
      Continues C (.claimTaken k) (some false : Option Bool) (.claimUpdate k (C.hash k.password k.draws.salt))
  | linkStart (k : Start) : Continues C (.linkStart k) (some false : Option Bool) (.linkMethod k)
  | linkMethod (k : Start) (row : Option (User × Bool)) (hm : reauthMethodFor row = some .password) :
      Continues C (.linkMethod k) (some row : Option (Option (User × Bool))) (.linkVerify k)
  | setPassword (k : Change) (row : Option (User × Bool)) (hm : reauthMethodFor row = some .password) :
      Continues C (.setPassword k) (some row : Option (Option (User × Bool))) (.setPasswordVerify k)
  | elevated (k : Change) (row : Option (User × Bool)) (hm : reauthMethodFor row = some .google)
      (he : k.bearer.elev = true) :
      Continues C (.setPassword k) (some row : Option (Option (User × Bool)))
        (.setPasswordUpdate k (C.hash k.newPassword k.draws.salt))
  | setPasswordVerify (k : Change) (user : Option User) (hv : verifies C k.currentPassword user = true) :
      Continues C (.setPasswordVerify k) (some user : Option (Option User))
        (.setPasswordUpdate k (C.hash k.newPassword k.draws.salt))
  | reauthOwner (userId : String) (k : Callback) :
      Continues C (.reauthOwner userId k) (some (some userId) : Option (Option String)) (.mintElevatedToken userId k)
  | fullFind (userId : String) (k : Callback) (user : User) :
      Continues C (.fullFind userId k) (some (some user) : Option (Option User)) (.fullLink user k)
  | fullLink (user : User) (k : Callback) :
      Continues C (.fullLink user k) (some none : Option (Option String)) (.fullCreate user k)
  | fullCreate (user : User) (k : Callback) (err : WriteError) :
      Continues C (.fullCreate user k) (Except.error err : Except WriteError User) (.fullOwner user k)
  | guestFind (userId : String) (k : Callback) (user : User) (hg : user.isGuest = true) :
      Continues C (.guestFind userId k) (some (some user) : Option (Option User)) (.guestLink userId k)
  | guestLink (userId : String) (k : Callback) (owner : Option String) :
      Continues C (.guestLink userId k) (some owner : Option (Option String)) (.guestEmail userId k)
  | guestEmail (userId : String) (k : Callback) :
      Continues C (.guestEmail userId k) (some false : Option Bool) (.guestUpdate userId 0 (k.username C 0) k)
  | guestUpdate (userId : String) (attempt : ℕ) (username : String) (k : Callback) (err : WriteError) :
      Continues C (.guestUpdate userId attempt username k) (Except.error err : Except WriteError User)
        (.guestUpdate userId (attempt + 1) (k.username C (attempt + 1)) k)
  | signIn (k : Callback) : Continues C (.signIn k) (some none : Option (Option User)) (.signInEmail k)
  | signInEmail (k : Callback) :
      Continues C (.signInEmail k) (some false : Option Bool) (.signInCreate 0 (googleUser C 0 k) k)
  | signInCreate (attempt : ℕ) (row : User) (k : Callback) (err : WriteError) :
      Continues C (.signInCreate attempt row k) (Except.error err : Except WriteError User)
        (.signInCreate (attempt + 1) (googleUser C (attempt + 1) k) k)
  | signInWinner (attempt : ℕ) (row : User) (k : Callback) (err : WriteError) :
      Continues C (.signInCreate attempt row k) (Except.error err : Except WriteError User) (.signInWinner k)
  | refresh (k : Renewal) (user : User) (hv : user.tokenVersion ≤ k.bearer.ver) :
      Continues C (.refresh k) (some (some user) : Option (Option User)) (.refreshJti k user)
  | refreshJti (k : Renewal) (user : User) :
      Continues C (.refreshJti k user) (some false : Option Bool) (.refreshClaim k user)

/-- A response that refuses. -/
def Response.refuses : Response → Bool
  | .failed _ => true
  | .redirected _ => true
  | _ => false

/-- What a handler answers after a reply. -/
inductive Answers (C : Config) (l : Instance) : (p : Point) → Reply p → Response → Prop
  | refuses (p : Point) (r : Reply p) (x : Response) (hx : x.refuses = true) : Answers C l p r x
  | registerCreate (row : User) (draws : Draws) (user : User) :
      Answers C l (.registerCreate row draws) (Except.ok user : Except WriteError User)
        (.session user (issueToken C user none draws l))
  | login (username password : String) (draws : Draws) (user : User) (hv : verifies C password (some user) = true) :
      Answers C l (.login username password draws) (some (some user) : Option (Option User))
        (.session user (issueToken C user none draws l))
  | guest (attempt : ℕ) (row : User) (draws : Draws) (user : User) :
      Answers C l (.guest attempt row draws) (Except.ok user : Except WriteError User)
        (.session user (issueToken C user none draws l))
  | claimUpdate (k : Claim) (hash : String) (user : User) :
      Answers C l (.claimUpdate k hash) (Except.ok user : Except WriteError User)
        (.session user (issueToken C user none k.draws l))
  | linkGuest (k : Start) (row : Option (User × Bool)) (hm : reauthMethodFor row = none) :
      Answers C l (.linkMethod k) (some row : Option (Option (User × Bool)))
        (.started ⟨k.draws.state, some k.bearer.sub, some .linkGuest, l.clock + FLOW_TTL_MS⟩)
  | linkFull (k : Start) (user : Option User) (hv : verifies C k.password user = true) :
      Answers C l (.linkVerify k) (some user : Option (Option User))
        (.started ⟨k.draws.state, some k.bearer.sub, some .linkFull, l.clock + FLOW_TTL_MS⟩)
  | reauth (k : Start) (row : Option (User × Bool)) (hm : reauthMethodFor row = some .google) :
      Answers C l (.reauthStart k) (some row : Option (Option (User × Bool)))
        (.started ⟨k.draws.state, some k.bearer.sub, some .reauth, l.clock + FLOW_TTL_MS⟩)
  | setPasswordUpdate (k : Change) (hash : String) (user : User) :
      Answers C l (.setPasswordUpdate k hash) (Except.ok user : Except WriteError User)
        (.session user (issueToken C user none k.draws l))
  | logoutAll (userId : String) (user : User) :
      Answers C l (.logoutAll userId) (Except.ok user : Except WriteError User) (.version user.tokenVersion)
  | mintElevatedToken (userId : String) (k : Callback) (user : User) :
      Answers C l (.mintElevatedToken userId k) (some (some user) : Option (Option User))
        (.elevated
          { sub := user.id, name := user.username, jti := k.draws.jti, ver := user.tokenVersion, sess := none,
            elev := true, iat := l.nowS, exp := l.nowS + 300 })
  | fullLink (user : User) (k : Callback) :
      Answers C l (.fullLink user k) (some (some user.id) : Option (Option String))
        (.session user (issueToken C user none k.draws l))
  | fullCreate (user : User) (k : Callback) (v : User) :
      Answers C l (.fullCreate user k) (Except.ok v : Except WriteError User)
        (.session user (issueToken C user none k.draws l))
  | fullOwner (user : User) (k : Callback) :
      Answers C l (.fullOwner user k) (some (some user.id) : Option (Option String))
        (.session user (issueToken C user none k.draws l))
  | guestUpdate (userId : String) (attempt : ℕ) (username : String) (k : Callback) (user : User) :
      Answers C l (.guestUpdate userId attempt username k) (Except.ok user : Except WriteError User)
        (.session user (issueToken C user none k.draws l))
  | signIn (k : Callback) (user : User) :
      Answers C l (.signIn k) (some (some user) : Option (Option User))
        (.session user (issueToken C user none k.draws l))
  | signInCreate (attempt : ℕ) (row : User) (k : Callback) (user : User) :
      Answers C l (.signInCreate attempt row k) (Except.ok user : Except WriteError User)
        (.session user (issueToken C user none k.draws l))
  | signInWinner (k : Callback) (user : User) :
      Answers C l (.signInWinner k) (some (some user) : Option (Option User))
        (.session user (issueToken C user none k.draws l))
  | refreshClaim (k : Renewal) (user v : User) :
      Answers C l (.refreshClaim k user) (Except.ok v : Except WriteError User)
        (.session user (issueToken C user (some k.start) k.draws l))

section Stretches

variable {C : Config} {l : Instance}

theorem callback_opens {sealed : OAuthState} {identity : GoogleIdentity} {draws : Draws} {p : Point}
    (h : (callback C sealed identity draws l).next = .await p) : Opens C l (.callback sealed identity draws) p := by
  unfold callback at h
  dsimp only at h
  split at h
  · cases h
  · split at h
    · rename_i ht
      cases h
      exact .signIn sealed identity draws ht
    · rename_i userId ht
      split at h
      · rename_i hp
        cases h
        exact .reauthOwner sealed identity draws userId ht hp
      · rename_i hp
        cases h
        exact .fullFind sealed identity draws userId ht hp
      · cases h
        exact .guestFind sealed identity draws userId ht

theorem start_opens {req : Request} {p : Point} (h : (start C req l).next = .await p) : Opens C l req p := by
  cases req with
  | clock t | googleStart draws => cases h
  | register username email password draws =>
    simp only [start] at h
    split at h
    · cases h
    · cases h
      exact .register ..
  | login username password draws =>
    cases h
    exact .login ..
  | guest draws =>
    cases h
    exact .guest ..
  | claim bearer username email password draws =>
    simp only [start] at h
    split at h
    · cases h
    · cases h
      exact .claim ..
  | linkStart bearer password draws =>
    cases h
    exact .linkStart ..
  | reauthStart bearer draws =>
    cases h
    exact .reauthStart ..
  | callback sealed identity draws => exact callback_opens h
  | setPassword bearer currentPassword newPassword draws =>
    cases h
    exact .setPassword ..
  | logoutAll bearer =>
    cases h
    exact .logoutAll ..
  | refresh bearer draws =>
    simp only [start] at h
    split at h
    · cases h
    · rename_i he
      split at h
      · cases h
      · cases h
        exact .refresh bearer draws _ (by simpa using he)

theorem changePassword_next {k : Change} {q : Point} (h : (changePassword C k l).next = .await q) :
    q = .setPasswordUpdate k (C.hash k.newPassword k.draws.salt) := by
  unfold changePassword at h
  split at h
  · cases h
  · cases h
    rfl

theorem resume_continues {p q : Point} {r : Reply p} (h : (resume C p r l).next = .await q) : Continues C p r q := by
  cases p with
  | register username email password draws =>
    rcases r with _ | _ | _ <;> cases h
    exact .register ..
  | guest attempt row draws =>
    rcases r with err | user
    · simp only [resume] at h
      split at h
      · split at h
        · cases h
          exact .guest ..
        · cases h
      · cases h
    · cases h
  | claim k =>
    rcases r with _ | _ | user
    · cases h
    · cases h
    · simp only [resume] at h
      split at h
      · rename_i hg
        cases h
        exact .claim k user hg
      · cases h
  | claimTaken k =>
    rcases r with _ | _ | _ <;> cases h
    exact .claimTaken k
  | claimUpdate k hash =>
    rcases r with err | user
    · simp only [resume] at h
      split at h <;> cases h
    · cases h
  | linkStart k =>
    rcases r with _ | _ | _ <;> cases h
    exact .linkStart k
  | linkMethod k =>
    rcases r with _ | row
    · cases h
    · simp only [resume] at h
      split at h
      · rename_i hm
        cases h
        exact .linkMethod k row hm
      · cases h
      · cases h
  | linkVerify k =>
    rcases r with _ | user
    · cases h
    · simp only [resume] at h
      split at h <;> cases h
  | reauthStart k =>
    rcases r with _ | row
    · cases h
    · simp only [resume] at h
      split at h <;> cases h
  | setPassword k =>
    rcases r with _ | row
    · cases h
    · simp only [resume] at h
      split at h
      · rename_i hm
        cases h
        exact .setPassword k row hm
      · rename_i hm
        split at h
        · rename_i he
          rw [changePassword_next h]
          exact .elevated k row hm he
        · cases h
      · cases h
  | setPasswordVerify k =>
    rcases r with _ | user
    · cases h
    · simp only [resume] at h
      split at h
      · rename_i hv
        rw [changePassword_next h]
        exact .setPasswordVerify k user hv
      · cases h
  | setPasswordUpdate k hash =>
    rcases r with err | user
    · simp only [resume] at h
      split at h <;> cases h
    · cases h
  | login username password draws =>
    rcases r with _ | _ | user
    · cases h
    · cases h
    · simp only [resume] at h
      split at h <;> cases h
  | reauthOwner userId k =>
    rcases r with _ | owned
    · cases h
    · simp only [resume] at h
      split at h
      · rename_i ho
        cases h
        rw [ho]
        exact .reauthOwner userId k
      · cases h
  | fullFind userId k =>
    rcases r with _ | _ | user <;> cases h
    exact .fullFind userId k user
  | fullLink user k =>
    rcases r with _ | _ | owner
    · cases h
    · cases h
      exact .fullLink user k
    · simp only [resume] at h
      split at h <;> cases h
  | fullCreate user k =>
    rcases r with err | v
    · simp only [resume] at h
      split at h
      · cases h
        exact .fullCreate user k err
      · cases h
    · cases h
  | fullOwner user k =>
    rcases r with _ | owner
    · cases h
    · simp only [resume] at h
      split at h <;> cases h
  | guestFind userId k =>
    rcases r with _ | _ | user
    · cases h
    · cases h
    · simp only [resume] at h
      split at h
      · rename_i hg
        cases h
        exact .guestFind userId k user hg
      · cases h
  | guestLink userId k =>
    rcases r with _ | owner
    · cases h
    · simp only [resume] at h
      split at h
      · cases h
        exact .guestLink userId k owner
      · cases h
  | guestEmail userId k =>
    rcases r with _ | _ | _ <;> cases h
    exact .guestEmail userId k
  | guestUpdate userId attempt username k =>
    rcases r with err | user
    · simp only [resume] at h
      split at h
      · split at h
        · cases h
          exact .guestUpdate ..
        · cases h
      · repeat' split at h
        all_goals cases h
    · cases h
  | signIn k =>
    rcases r with _ | _ | user <;> cases h
    exact .signIn k
  | signInEmail k =>
    rcases r with _ | _ | _ <;> cases h
    exact .signInEmail k
  | signInCreate attempt row k =>
    rcases r with err | user
    · simp only [resume] at h
      split at h
      · cases h
        exact .signInWinner attempt row k err
      · split at h
        · split at h
          · cases h
            exact .signInCreate attempt row k err
          · cases h
        · split at h <;> cases h
    · cases h
  | refresh k =>
    rcases r with _ | _ | user
    · cases h
    · cases h
    · simp only [resume] at h
      split at h
      · cases h
      · rename_i hv
        cases h
        exact .refresh k user (not_lt.mp hv)
  | refreshJti k user =>
    rcases r with _ | _ | _ <;> cases h
    exact .refreshJti k user
  | refreshClaim k user =>
    rcases r with err | v
    · simp only [resume] at h
      split at h <;> cases h
    · cases h
  | mintElevatedToken userId k | signInWinner k => rcases r with _ | _ | user <;> cases h
  | registerCreate row draws | logoutAll userId => rcases r with err | user <;> cases h

/-- What a request answers at once: it refuses, or starts a sign-in through Google. -/
theorem start_answers {req : Request} {x : Response} (h : x ∈ (start C req l).sent) :
    x.refuses = true ∨ ∃ draws, req = .googleStart draws ∧ x = .started ⟨draws.state, none, none, l.clock + FLOW_TTL_MS⟩ := by
  cases req with
  | googleStart draws => exact Or.inr ⟨draws, rfl, List.mem_singleton.mp h⟩
  | register username email password draws | claim bearer username email password draws =>
    simp only [start] at h
    split at h
    · cases List.mem_singleton.mp h
      exact Or.inl rfl
    · cases h
  | callback sealed identity draws =>
    simp only [start, callback] at h
    split at h
    · cases List.mem_singleton.mp h
      exact Or.inl rfl
    · repeat' split at h
      all_goals cases h
  | refresh bearer draws =>
    simp only [start] at h
    split at h
    · cases List.mem_singleton.mp h
      exact Or.inl rfl
    · split at h
      · cases List.mem_singleton.mp h
        exact Or.inl rfl
      · cases h
  | _ => cases h

theorem changePassword_answers {k : Change} {x : Response} (h : x ∈ (changePassword C k l).sent) : x.refuses = true := by
  unfold changePassword at h
  split at h
  · cases List.mem_singleton.mp h
    rfl
  · cases h

/-- A stretch that does nothing but refuse. -/
theorem refuses_of_mem {p : Point} {r : Reply p} {x y : Response} (hy : y.refuses = true) (h : x ∈ [y]) :
    Answers C l p r x := by
  rw [List.mem_singleton.mp h]
  exact .refuses p r y hy

theorem resume_answers {p : Point} {r : Reply p} {x : Response} (h : x ∈ (resume C p r l).sent) : Answers C l p r x := by
  cases p with
  | register username email password draws =>
    rcases r with _ | _ | _
    · exact refuses_of_mem rfl h
    · cases h
    · exact refuses_of_mem rfl h
  | registerCreate row draws =>
    rcases r with err | user
    · exact refuses_of_mem rfl h
    · rw [List.mem_singleton.mp h]
      exact .registerCreate row draws user
  | login username password draws =>
    rcases r with _ | _ | user
    · exact refuses_of_mem rfl h
    · exact refuses_of_mem rfl h
    · simp only [resume] at h
      split at h
      · rename_i hv
        rw [List.mem_singleton.mp h]
        exact .login username password draws user hv
      · exact refuses_of_mem rfl h
  | guest attempt row draws =>
    rcases r with err | user
    · simp only [resume] at h
      split at h
      · split at h
        · cases h
        · exact refuses_of_mem rfl h
      · exact refuses_of_mem rfl h
    · rw [List.mem_singleton.mp h]
      exact .guest attempt row draws user
  | claim k =>
    rcases r with _ | _ | user
    · exact refuses_of_mem rfl h
    · exact refuses_of_mem rfl h
    · simp only [resume] at h
      split at h
      · cases h
      · exact refuses_of_mem rfl h
  | claimTaken k | linkStart k | guestEmail userId k | signInEmail k | refreshJti k user =>
    rcases r with _ | _ | _
    · exact refuses_of_mem rfl h
    · cases h
    · exact refuses_of_mem rfl h
  | claimUpdate k hash =>
    rcases r with err | user
    · simp only [resume] at h
      split at h <;> exact refuses_of_mem rfl h
    · rw [List.mem_singleton.mp h]
      exact .claimUpdate k hash user
  | linkMethod k =>
    rcases r with _ | row
    · exact refuses_of_mem rfl h
    · simp only [resume] at h
      split at h
      · cases h
      · exact refuses_of_mem rfl h
      · rename_i hm
        rw [List.mem_singleton.mp h]
        exact .linkGuest k row hm
  | linkVerify k =>
    rcases r with _ | user
    · exact refuses_of_mem rfl h
    · simp only [resume] at h
      split at h
      · rename_i hv
        rw [List.mem_singleton.mp h]
        exact .linkFull k user hv
      · exact refuses_of_mem rfl h
  | reauthStart k =>
    rcases r with _ | row
    · exact refuses_of_mem rfl h
    · simp only [resume] at h
      split at h
      · rename_i hm
        rw [List.mem_singleton.mp h]
        exact .reauth k row hm
      · exact refuses_of_mem rfl h
  | setPassword k =>
    rcases r with _ | row
    · exact refuses_of_mem rfl h
    · simp only [resume] at h
      split at h
      · cases h
      · split at h
        · exact .refuses _ _ _ (changePassword_answers h)
        · exact refuses_of_mem rfl h
      · exact refuses_of_mem rfl h
  | setPasswordVerify k =>
    rcases r with _ | user
    · exact refuses_of_mem rfl h
    · simp only [resume] at h
      split at h
      · exact .refuses _ _ _ (changePassword_answers h)
      · exact refuses_of_mem rfl h
  | setPasswordUpdate k hash =>
    rcases r with err | user
    · simp only [resume] at h
      split at h <;> exact refuses_of_mem rfl h
    · rw [List.mem_singleton.mp h]
      exact .setPasswordUpdate k hash user
  | logoutAll userId =>
    rcases r with err | user
    · exact refuses_of_mem rfl h
    · rw [List.mem_singleton.mp h]
      exact .logoutAll userId user
  | reauthOwner userId k =>
    rcases r with _ | owned
    · exact refuses_of_mem rfl h
    · simp only [resume] at h
      split at h
      · cases h
      · exact refuses_of_mem rfl h
  | mintElevatedToken userId k =>
    rcases r with _ | _ | user
    · exact refuses_of_mem rfl h
    · exact refuses_of_mem rfl h
    · rw [List.mem_singleton.mp h]
      exact .mintElevatedToken userId k user
  | fullFind userId k =>
    rcases r with _ | _ | user
    · exact refuses_of_mem rfl h
    · exact refuses_of_mem rfl h
    · cases h
  | fullLink user k =>
    rcases r with _ | _ | owner
    · exact refuses_of_mem rfl h
    · cases h
    · simp only [resume] at h
      split at h
      · rename_i ho
        rw [List.mem_singleton.mp h, ho]
        exact .fullLink user k
      · exact refuses_of_mem rfl h
  | fullCreate user k =>
    rcases r with err | v
    · simp only [resume] at h
      split at h
      · cases h
      · exact refuses_of_mem rfl h
    · rw [List.mem_singleton.mp h]
      exact .fullCreate user k v
  | fullOwner user k =>
    rcases r with _ | owner
    · exact refuses_of_mem rfl h
    · simp only [resume] at h
      split at h
      · rename_i ho
        rw [List.mem_singleton.mp h, ho]
        exact .fullOwner user k
      · exact refuses_of_mem rfl h
  | guestFind userId k =>
    rcases r with _ | _ | user
    · exact refuses_of_mem rfl h
    · exact refuses_of_mem rfl h
    · simp only [resume] at h
      split at h
      · cases h
      · exact refuses_of_mem rfl h
  | guestLink userId k =>
    rcases r with _ | owner
    · exact refuses_of_mem rfl h
    · simp only [resume] at h
      split at h
      · cases h
      · exact refuses_of_mem rfl h
  | guestUpdate userId attempt username k =>
    rcases r with err | user
    · simp only [resume] at h
      split at h
      · split at h
        · cases h
        · exact refuses_of_mem rfl h
      · repeat' split at h
        all_goals exact refuses_of_mem rfl h
    · rw [List.mem_singleton.mp h]
      exact .guestUpdate userId attempt username k user
  | signIn k =>
    rcases r with _ | _ | user
    · exact refuses_of_mem rfl h
    · cases h
    · rw [List.mem_singleton.mp h]
      exact .signIn k user
  | signInCreate attempt row k =>
    rcases r with err | user
    · simp only [resume] at h
      split at h
      · cases h
      · split at h
        · split at h
          · cases h
          · exact refuses_of_mem rfl h
        · split at h <;> exact refuses_of_mem rfl h
    · rw [List.mem_singleton.mp h]
      exact .signInCreate attempt row k user
  | signInWinner k =>
    rcases r with _ | _ | user
    · exact refuses_of_mem rfl h
    · exact refuses_of_mem rfl h
    · rw [List.mem_singleton.mp h]
      exact .signInWinner k user
  | refresh k =>
    rcases r with _ | _ | user
    · exact refuses_of_mem rfl h
    · exact refuses_of_mem rfl h
    · simp only [resume] at h
      split at h
      · exact refuses_of_mem rfl h
      · cases h
  | refreshClaim k user =>
    rcases r with err | v
    · simp only [resume] at h
      split at h <;> exact refuses_of_mem rfl h
    · rw [List.mem_singleton.mp h]
      exact .refreshClaim k user v

end Stretches

section Steps

variable {I : Type} [DecidableEq I] {C : Config} {s s' : State I} {a : Action I} {o : Output I}

/-- A step executes one query, or leaves the database. -/
theorem accounts_shared (hs : Step C s a o s') :
    (∃ i p r, s.executed a = some (i, p) ∧ Wrote s.shared p.query r s'.shared) ∨
      s.executed a = none ∧ s'.shared = s.shared := by
  rcases Tasks.shared_cases (accounts C) hs with ⟨i, p, x, hx, hk⟩ | ⟨e, -, -⟩ | h
  · refine Or.inl ⟨i, p, (p.query.run C.lower x s.shared).1, hx, ?_⟩
    rw [hk]
    exact Query.wrote_run C.lower p.query x s.shared
  · exact nomatch e
  · exact Or.inr h

end Steps

end Account
end WatchParty
