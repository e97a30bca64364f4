import Mathlib.Data.List.Basic
import Mathlib.Data.List.Pairwise

/-!
# The accounts in the database

The tables `User`, `OAuthAccount` and `RevokedToken` of `schema.prisma` with their unique constraints, and the queries of
`auth.service.ts` on them. A write that would break a constraint changes nothing and names one that it would break.

- `Database` carries the constraints as fields, so every write has to keep them;
- `Database.put` is the one write to a user's row, with a provider row beside it or without;
- `findUser_put` and `owner_put` say what every later read sees of it.
-/

namespace WatchParty
namespace Account

structure User where
  id : String
  username : String
  email : String
  password : Option String
  isGuest : Bool
  tokenVersion : ℕ
  deriving DecidableEq

structure OAuthAccount where
  provider : String
  providerAccountId : String
  userId : String
  deriving DecidableEq

def GOOGLE : String := "google"

/-- The row that links a Google subject to a user. -/
def googleRow (subject userId : String) : OAuthAccount := ⟨GOOGLE, subject, userId⟩

/-- Is it the row of the Google subject? -/
def OAuthAccount.links (subject : String) (a : OAuthAccount) : Bool :=
  a.provider = GOOGLE ∧ a.providerAccountId = subject

/-- Two rows that the constraints of `User` let stand together. -/
structure User.Apart (u v : User) : Prop where
  id : u.id ≠ v.id
  username : u.username ≠ v.username
  email : u.email ≠ v.email

theorem User.Apart.symm {u v : User} (h : u.Apart v) : v.Apart u := ⟨h.id.symm, h.username.symm, h.email.symm⟩

instance : Std.Symm User.Apart := ⟨fun _ _ h => h.symm⟩

/-- Two rows that the constraint of `OAuthAccount` lets stand together. -/
def OAuthAccount.Apart (a b : OAuthAccount) : Prop :=
  ¬(a.provider = b.provider ∧ a.providerAccountId = b.providerAccountId)

theorem OAuthAccount.Apart.symm {a b : OAuthAccount} (h : a.Apart b) : b.Apart a :=
  fun hb => h ⟨hb.1.symm, hb.2.symm⟩

instance : Std.Symm OAuthAccount.Apart := ⟨fun _ _ h => h.symm⟩

/-- The tables. Every provider row belongs to a user. -/
structure Database where
  user : List User
  oauthAccount : List OAuthAccount
  revokedToken : List String
  users : user.Pairwise User.Apart
  accounts : oauthAccount.Pairwise OAuthAccount.Apart
  owned : ∀ a ∈ oauthAccount, ∃ u ∈ user, u.id = a.userId

/-- A constraint that a write breaks. -/
inductive Constraint
  | id
  | username
  | email
  | providerAccountId
  | jti
  deriving DecidableEq

/-- Why a write fails: it breaks a constraint (`P2002`), there is no such row (`P2025`), or something else. -/
inductive WriteError
  | unique (c : Constraint)
  | notFound
  | other
  deriving DecidableEq

def isUniqueViolation (err : WriteError) (c : Constraint) : Bool := err = .unique c

def isNotFound (err : WriteError) : Bool := err = .notFound

namespace Database

def empty : Database := ⟨[], [], [], .nil, .nil, fun _ h => absurd h List.not_mem_nil⟩

variable (d : Database)

/-! ## What is read -/

/-- `user.findUnique` by the id. -/
def findUser (id : String) : Option User := d.user.find? (·.id = id)

/-- `oAuthAccount.findUnique`: the user that a Google subject is linked to. -/
def owner (subject : String) : Option String := (d.oauthAccount.find? (·.links subject)).map OAuthAccount.userId

/-- The same with the user's row. -/
def linked (subject : String) : Option User := (d.owner subject).bind d.findUser

/-- The rows that link a user to Google. -/
def googleRows (userId : String) : List OAuthAccount :=
  d.oauthAccount.filter fun a => a.provider = GOOGLE ∧ a.userId = userId

/-- The other users. -/
def others (id : String) : List User := d.user.filter (·.id ≠ id)

variable {d}

/-- Two rows with one id are one row. -/
theorem eq_of_id {u v : User} (hu : u ∈ d.user) (hv : v ∈ d.user) (h : u.id = v.id) : u = v := by
  by_contra hne
  exact (d.users.forall hu hv hne).id h

theorem findUser_iff {id : String} {u : User} : d.findUser id = some u ↔ u ∈ d.user ∧ u.id = id := by
  constructor
  · intro h
    exact ⟨List.mem_of_find?_eq_some h, by simpa using List.find?_some h⟩
  · rintro ⟨hu, rfl⟩
    cases hf : d.findUser u.id with
    | none =>
      have hnone := List.find?_eq_none.mp hf u hu
      simp at hnone
    | some v =>
      have hid : v.id = u.id := by simpa using List.find?_some hf
      rw [eq_of_id (List.mem_of_find?_eq_some hf) hu hid]

theorem links_iff {subject : String} {a : OAuthAccount} :
    a.links subject = true ↔ a = googleRow subject a.userId := by
  obtain ⟨provider, account, userId⟩ := a
  simp [OAuthAccount.links, googleRow]

/-- A subject is linked to a user exactly when the row is there. -/
theorem owner_iff {subject id : String} : d.owner subject = some id ↔ googleRow subject id ∈ d.oauthAccount := by
  constructor
  · intro h
    obtain ⟨a, ha, rfl⟩ := Option.map_eq_some_iff.mp h
    rw [← links_iff.mp (List.find?_some ha)]
    exact List.mem_of_find?_eq_some ha
  · intro h
    cases hf : d.oauthAccount.find? (·.links subject) with
    | none =>
      have hnone := List.find?_eq_none.mp hf _ h
      simp [OAuthAccount.links, googleRow] at hnone
    | some a =>
      have hrow := links_iff.mp (List.find?_some hf)
      have heq : a = googleRow subject id := by
        by_contra hne
        refine d.accounts.forall (List.mem_of_find?_eq_some hf) h hne ⟨?_, ?_⟩ <;> rw [hrow] <;> rfl
      rw [owner, hf, heq]
      rfl

theorem mem_others {id : String} {u : User} : u ∈ d.others id ↔ u ∈ d.user ∧ u.id ≠ id := by
  simp [others]

/-! ## What is written -/

variable (d)

/-- The constraints that the row of a user would break among the other users, and those of a new link. -/
def clash (row : User) (link : Option String) : List Constraint :=
  (if (d.others row.id).any (·.username = row.username) then [.username] else []) ++
    (if (d.others row.id).any (·.email = row.email) then [.email] else []) ++
    if link.any fun subject => (d.owner subject).isSome then [.providerAccountId] else []

variable {d}

theorem clash_eq_nil {row : User} {link : Option String} :
    d.clash row link = [] ↔ (∀ u ∈ d.others row.id, u.username ≠ row.username ∧ u.email ≠ row.email) ∧
      ∀ subject, link = some subject → d.owner subject = none := by
  unfold clash
  constructor
  · intro h
    simp only [List.append_eq_nil_iff] at h
    obtain ⟨⟨hname, hmail⟩, hlink⟩ := h
    refine ⟨fun u hu => ⟨fun he => ?_, fun he => ?_⟩, fun subject hs => ?_⟩
    · rw [if_pos (List.any_eq_true.mpr ⟨u, hu, decide_eq_true he⟩)] at hname
      cases hname
    · rw [if_pos (List.any_eq_true.mpr ⟨u, hu, decide_eq_true he⟩)] at hmail
      cases hmail
    · subst hs
      by_contra hne
      rw [if_pos (by simpa [Option.isSome_iff_ne_none] using hne)] at hlink
      cases hlink
  · rintro ⟨hrow, hlink⟩
    rw [if_neg, if_neg, if_neg]
    · rfl
    · cases link with
      | none => simp
      | some subject => simp [hlink subject rfl]
    · intro h
      obtain ⟨u, hu, he⟩ := List.any_eq_true.mp h
      exact (hrow u hu).2 (of_decide_eq_true he)
    · intro h
      obtain ⟨u, hu, he⟩ := List.any_eq_true.mp h
      exact (hrow u hu).1 (of_decide_eq_true he)

variable (d)

/-- The row of a user is inserted, or replaces what is there, together with the row of a new link. -/
def put (row : User) (link : Option String) (h : d.clash row link = []) : Database where
  user := row :: d.others row.id
  oauthAccount := (link.map (googleRow · row.id)).toList ++ d.oauthAccount
  revokedToken := d.revokedToken
  users := by
    obtain ⟨hrow, -⟩ := clash_eq_nil.mp h
    refine List.pairwise_cons.mpr ⟨fun u hu => ?_, d.users.filter _⟩
    exact ⟨(mem_others.mp hu).2.symm, (hrow u hu).1.symm, (hrow u hu).2.symm⟩
  accounts := by
    obtain ⟨-, hlink⟩ := clash_eq_nil.mp h
    cases link with
    | none => exact d.accounts
    | some subject =>
      refine List.pairwise_cons.mpr ⟨fun a ha heq => ?_, d.accounts⟩
      have hl : a.links subject = true := by simp [OAuthAccount.links, ← heq.1, ← heq.2, googleRow]
      have ho := owner_iff.mpr (links_iff.mp hl ▸ ha)
      rw [hlink subject rfl] at ho
      cases ho
  owned a ha := by
    have hkeep : ∀ b ∈ d.oauthAccount, ∃ u ∈ row :: d.others row.id, u.id = b.userId := by
      intro b hb
      obtain ⟨u, hu, hid⟩ := d.owned b hb
      by_cases hrow : u.id = row.id
      · exact ⟨row, List.mem_cons_self, hrow.symm.trans hid⟩
      · exact ⟨u, List.mem_cons_of_mem _ (mem_others.mpr ⟨hu, hrow⟩), hid⟩
    rcases List.mem_append.mp ha with ha | ha
    · obtain ⟨subject, -, rfl⟩ := Option.map_eq_some_iff.mp (Option.mem_toList.mp ha)
      exact ⟨row, List.mem_cons_self, rfl⟩
    · exact hkeep a ha

/-- The row of a token is added. -/
def revoke (jti : String) : Database := { d with revokedToken := jti :: d.revokedToken }

variable {d}

section Put

variable {row : User} {link : Option String} (h : d.clash row link = [])

theorem mem_user_put {u : User} : u ∈ (d.put row link h).user ↔ u = row ∨ u ∈ d.user ∧ u.id ≠ row.id := by
  rw [put, List.mem_cons, mem_others]

theorem findUser_put (id : String) :
    (d.put row link h).findUser id = if id = row.id then some row else d.findUser id := by
  split
  · rename_i hid
    exact findUser_iff.mpr ⟨(mem_user_put h).mpr (Or.inl rfl), hid.symm⟩
  · rename_i hid
    refine Option.ext fun u => ?_
    rw [findUser_iff, findUser_iff, mem_user_put h]
    constructor
    · rintro ⟨rfl | hu, rfl⟩
      · exact absurd rfl hid
      · exact ⟨hu.1, rfl⟩
    · rintro ⟨hu, rfl⟩
      exact ⟨Or.inr ⟨hu, hid⟩, rfl⟩

theorem mem_oauthAccount_put {a : OAuthAccount} :
    a ∈ (d.put row link h).oauthAccount ↔ (∃ subject, link = some subject ∧ a = googleRow subject row.id) ∨
      a ∈ d.oauthAccount := by
  rw [put, List.mem_append, Option.mem_toList, Option.map_eq_some_iff]
  exact or_congr_left (exists_congr fun subject => and_congr_right fun _ => eq_comm)

theorem owner_put (subject : String) :
    (d.put row link h).owner subject = if link = some subject then some row.id else d.owner subject := by
  split
  · rename_i hl
    exact owner_iff.mpr ((mem_oauthAccount_put h).mpr (Or.inl ⟨subject, hl, rfl⟩))
  · rename_i hl
    refine Option.ext fun id => ?_
    rw [owner_iff, owner_iff, mem_oauthAccount_put h]
    constructor
    · rintro (⟨subject', hl', he⟩ | ha)
      · obtain rfl := congrArg OAuthAccount.providerAccountId he
        exact absurd hl' hl
      · exact ha
    · exact Or.inr

/-- What is linked stays linked. -/
theorem owner_put_of_some {subject id : String} (ho : d.owner subject = some id) :
    (d.put row link h).owner subject = some id := by
  rw [owner_put, if_neg, ho]
  intro hl
  rw [(clash_eq_nil.mp h).2 subject hl] at ho
  cases ho

theorem googleRows_put (userId : String) :
    (d.put row link h).googleRows userId =
      (if row.id = userId then (link.map (googleRow · row.id)).toList else []) ++ d.googleRows userId := by
  unfold googleRows put
  rw [List.filter_append]
  congr 1
  cases link with
  | none => simp
  | some subject => by_cases hid : row.id = userId <;> simp [googleRow, hid]

end Put

/-- The row of a user that is there, with its name and address, breaks no constraint. -/
theorem clash_self {u row : User} (hu : d.findUser u.id = some u) (hid : row.id = u.id)
    (hname : row.username = u.username) (hmail : row.email = u.email) : d.clash row none = [] := by
  refine clash_eq_nil.mpr ⟨fun v hv => ?_, fun _ h => by cases h⟩
  rw [hid] at hv
  obtain ⟨hv, hne⟩ := mem_others.mp hv
  have hapart := d.users.forall hv (findUser_iff.mp hu).1 fun he => hne (he ▸ rfl)
  exact ⟨hname ▸ hapart.username, hmail ▸ hapart.email⟩

/-- A link of a user that is there breaks no other constraint. -/
theorem clash_link {u : User} (hu : d.findUser u.id = some u) {subject : String} (hs : d.owner subject = none) :
    d.clash u (some subject) = [] := by
  obtain ⟨hrow, -⟩ := clash_eq_nil.mp (clash_self hu rfl rfl rfl)
  exact clash_eq_nil.mpr ⟨hrow, fun _ h => Option.some.inj h ▸ hs⟩

end Database

/-- The constraint that an error names: any of those that the write would break, whichever is looked at first. -/
def named (first : Option Constraint) (clash : List Constraint) : WriteError :=
  match (clash.find? fun c => some c = first).or clash.head? with
  | some c => .unique c
  | none => .other

/-- The row that a guest is converted into. -/
def User.converted (username email : String) (password : Option String) (u : User) : User :=
  { u with username, email, password := password.or u.password, isGuest := false }

def User.incremented (u : User) : User := { u with tokenVersion := u.tokenVersion + 1 }

@[simp] theorem User.converted_id (username email : String) (password : Option String) (u : User) :
    (u.converted username email password).id = u.id := rfl

@[simp] theorem User.converted_tokenVersion (username email : String) (password : Option String) (u : User) :
    (u.converted username email password).tokenVersion = u.tokenVersion := rfl

@[simp] theorem User.incremented_id (u : User) : u.incremented.id = u.id := rfl

/-! ## The queries -/

/-- A query of `auth.service.ts`. -/
inductive Query
  | findTaken (username email : String) (but : Option String)
  | findUser (id : String)
  | findByUsername (username : String)
  | findByEmail (email : String) (but : String)
  | findByEmailInsensitive (email : String)
  | credentials (id : String)
  | hasGoogleLink (id : String)
  | owner (subject : String)
  | linked (subject : String)
  | create (row : User) (link : Option String)
  | convert (id username email : String) (password link : Option String)
  | createLink (subject userId : String)
  | setPassword (id hash : String)
  | increment (id : String)
  | findJti (jti : String)
  | createJti (jti userId : String)

/-- What a query is answered; a read that fails is answered with none. -/
def Query.Answer : Query → Type
  | .findTaken _ _ _ => Option Bool
  | .findUser _ => Option (Option User)
  | .findByUsername _ => Option (Option User)
  | .findByEmail _ _ => Option Bool
  | .findByEmailInsensitive _ => Option Bool
  | .credentials _ => Option (Option (User × Bool))
  | .hasGoogleLink _ => Option Bool
  | .owner _ => Option (Option String)
  | .linked _ => Option (Option User)
  | .findJti _ => Option Bool
  | _ => Except WriteError User

/-- Does a query fail, and which constraint does the database look at first? -/
inductive Choice
  | done
  | fails
  | first (c : Constraint)
  deriving DecidableEq

def Choice.first? : Choice → Option Constraint
  | .first c => some c
  | _ => none

namespace Database

variable (d : Database)

/-- A read that may fail. -/
def read {A : Type} (x : Choice) (a : A) : Option A × Database := (if x = .fails then none else some a, d)

/-- The row of a user is written, unless this breaks a constraint. -/
def write (row : User) (link : Option String) (x : Choice) : Except WriteError User × Database :=
  if x = .fails then (.error .other, d)
  else if h : d.clash row link = [] then (.ok row, d.put row link h)
  else (.error (named x.first? (d.clash row link)), d)

/-- A write to a row of `User`, where there is one. -/
def update (id : String) (change : User → Option User) (link : Option String) (missing : WriteError) (x : Choice) :
    Except WriteError User × Database :=
  match (d.findUser id).bind change with
  | some row => d.write row link x
  | none => (.error (if x = .fails then .other else missing), d)

end Database

/-- What a query does. `lower` is the lower case that the database compares by. -/
def Query.run (lower : String → String) : (q : Query) → Choice → Database → q.Answer × Database
  | .findTaken username email but, x, d =>
    d.read x (d.user.any fun u => (u.username = username ∨ u.email = email) ∧ but ≠ some u.id)
  | .findUser id, x, d => d.read x (d.findUser id)
  | .findByUsername username, x, d => d.read x (d.user.find? (·.username = username))
  | .findByEmail email but, x, d => d.read x (d.user.any fun u => u.email = email ∧ u.id ≠ but)
  | .findByEmailInsensitive email, x, d => d.read x (d.user.any fun u => lower u.email = lower email)
  | .credentials id, x, d =>
    d.read x ((d.findUser id).map fun u => (u, d.oauthAccount.any (·.userId = id)))
  | .hasGoogleLink id, x, d => d.read x !(d.googleRows id).isEmpty
  | .owner subject, x, d => d.read x (d.owner subject)
  | .linked subject, x, d => d.read x (d.linked subject)
  | .create row link, x, d =>
    if x ≠ .fails ∧ (d.findUser row.id).isSome then (.error (.unique .id), d) else d.write row link x
  | .convert id username email password link, x, d =>
    d.update id (fun u => if u.isGuest then some (u.converted username email password) else none) link .notFound x
  | .createLink subject userId, x, d => d.update userId some (some subject) .other x
  | .setPassword id hash, x, d =>
    d.update id (fun u => some { u.incremented with password := some hash }) none .notFound x
  | .increment id, x, d => d.update id (fun u => some u.incremented) none .notFound x
  | .findJti jti, x, d => d.read x (decide (jti ∈ d.revokedToken))
  | .createJti jti userId, x, d =>
    if x = .fails then (.error .other, d)
    else if jti ∈ d.revokedToken then (.error (.unique .jti), d)
    else
      match d.findUser userId with
      | some u => (.ok u, d.revoke jti)
      | none => (.error .other, d)

/-- Is it the answer of a write that was done? -/
def Query.wrote : (q : Query) → q.Answer → Bool
  | .create _ _, a => a.isOk
  | .convert _ _ _ _ _, a => a.isOk
  | .createLink _ _, a => a.isOk
  | .setPassword _ _, a => a.isOk
  | .increment _, a => a.isOk
  | .createJti _ _, a => a.isOk
  | _, _ => false

/-- What a query does to the database: nothing, or what it is for. -/
inductive Wrote (d : Database) : (q : Query) → q.Answer → Database → Prop
  | keep (q : Query) (a : q.Answer) (ha : q.wrote a = false) : Wrote d q a d
  | create (row : User) (link : Option String) (hnew : d.findUser row.id = none) (h : d.clash row link = []) :
      Wrote d (.create row link) (Except.ok row) (d.put row link h)
  | convert (u : User) (username email : String) (password link : Option String) (hu : d.findUser u.id = some u)
      (hg : u.isGuest = true) (h : d.clash (u.converted username email password) link = []) :
      Wrote d (.convert u.id username email password link) (Except.ok (u.converted username email password))
        (d.put (u.converted username email password) link h)
  | createLink (u : User) (subject : String) (hu : d.findUser u.id = some u) (h : d.clash u (some subject) = []) :
      Wrote d (.createLink subject u.id) (Except.ok u) (d.put u (some subject) h)
  | setPassword (u : User) (hash : String) (hu : d.findUser u.id = some u)
      (h : d.clash { u.incremented with password := some hash } none = []) :
      Wrote d (.setPassword u.id hash) (Except.ok { u.incremented with password := some hash })
        (d.put { u.incremented with password := some hash } none h)
  | increment (u : User) (hu : d.findUser u.id = some u) (h : d.clash u.incremented none = []) :
      Wrote d (.increment u.id) (Except.ok u.incremented) (d.put u.incremented none h)
  | createJti (u : User) (jti : String) : Wrote d (.createJti jti u.id) (Except.ok u) (d.revoke jti)

section Run

variable {d : Database} {x : Choice}

theorem write_cases (row : User) (link : Option String) :
    (∃ h : d.clash row link = [], d.write row link x = (.ok row, d.put row link h)) ∨
      ∃ err, d.write row link x = (.error err, d) := by
  unfold Database.write
  split
  · exact Or.inr ⟨_, rfl⟩
  · split
    · rename_i h
      exact Or.inl ⟨h, rfl⟩
    · exact Or.inr ⟨_, rfl⟩

theorem update_cases (id : String) (change : User → Option User) (link : Option String) (missing : WriteError) :
    (∃ u row, d.findUser id = some u ∧ change u = some row ∧ ∃ h : d.clash row link = [],
      d.update id change link missing x = (.ok row, d.put row link h)) ∨
      ∃ err, d.update id change link missing x = (.error err, d) := by
  unfold Database.update
  split
  · rename_i row hrow
    obtain ⟨u, hu, hc⟩ := Option.bind_eq_some_iff.mp hrow
    rcases write_cases (x := x) row link with ⟨h, he⟩ | he
    · exact Or.inl ⟨u, row, hu, hc, h, he⟩
    · exact Or.inr he
  · exact Or.inr ⟨_, rfl⟩

variable {lower : String → String}

theorem wrote_of {q : Query} {a : q.Answer} {d' : Database} (he : q.run lower x d = (a, d')) (hw : Wrote d q a d') :
    Wrote d q (q.run lower x d).1 (q.run lower x d).2 := by
  rw [he]
  exact hw

/-- **Every query does one of these.** -/
theorem Query.wrote_run (lower : String → String) (q : Query) (x : Choice) (d : Database) :
    Wrote d q (q.run lower x d).1 (q.run lower x d).2 := by
  cases q with
  | create row link =>
    by_cases hc : x ≠ .fails ∧ (d.findUser row.id).isSome = true
    · exact wrote_of (if_pos hc) (.keep (.create row link) _ rfl)
    · rcases write_cases (d := d) (x := x) row link with ⟨h, he⟩ | ⟨err, he⟩
      · refine wrote_of ((if_neg hc).trans he) (.create row link ?_ h)
        by_contra hne
        have hx : x = .fails := by
          by_contra hx
          exact hc ⟨hx, Option.isSome_iff_ne_none.mpr hne⟩
        rw [Database.write, if_pos hx] at he
        cases he
      · exact wrote_of ((if_neg hc).trans he) (.keep (.create row link) _ rfl)
  | convert id username email password link =>
    rcases update_cases (d := d) (x := x) id
      (fun u => if u.isGuest then some (u.converted username email password) else none) link .notFound with
      ⟨u, row, hu, hc, h, he⟩ | ⟨err, he⟩
    · obtain rfl := (Database.findUser_iff.mp hu).2
      split at hc
      · rename_i hg
        cases hc
        exact wrote_of he (.convert u username email password link hu hg h)
      · cases hc
    · exact wrote_of he (.keep (.convert id username email password link) _ rfl)
  | createLink subject userId =>
    rcases update_cases (d := d) (x := x) userId some (some subject) .other with ⟨u, row, hu, hc, h, he⟩ | ⟨err, he⟩
    · obtain rfl := (Database.findUser_iff.mp hu).2
      cases hc
      exact wrote_of he (.createLink u subject hu h)
    · exact wrote_of he (.keep (.createLink subject userId) _ rfl)
  | setPassword id hash =>
    rcases update_cases (d := d) (x := x) id (fun u => some { u.incremented with password := some hash }) none
      .notFound with ⟨u, row, hu, hc, h, he⟩ | ⟨err, he⟩
    · obtain rfl := (Database.findUser_iff.mp hu).2
      cases hc
      exact wrote_of he (.setPassword u hash hu h)
    · exact wrote_of he (.keep (.setPassword id hash) _ rfl)
  | increment id =>
    rcases update_cases (d := d) (x := x) id (fun u => some u.incremented) none .notFound with
      ⟨u, row, hu, hc, h, he⟩ | ⟨err, he⟩
    · obtain rfl := (Database.findUser_iff.mp hu).2
      cases hc
      exact wrote_of he (.increment u hu h)
    · exact wrote_of he (.keep (.increment id) _ rfl)
  | createJti jti userId =>
    by_cases hx : x = .fails
    · exact wrote_of (if_pos hx) (.keep (.createJti jti userId) _ rfl)
    · by_cases hj : jti ∈ d.revokedToken
      · exact wrote_of ((if_neg hx).trans (if_pos hj)) (.keep (.createJti jti userId) _ rfl)
      · cases hu : d.findUser userId with
        | none =>
          refine wrote_of ?_ (.keep (.createJti jti userId) (.error .other) rfl)
          simp [Query.run, hx, hj, hu]
        | some u =>
          obtain rfl := (Database.findUser_iff.mp hu).2
          refine wrote_of ?_ (.createJti u jti)
          simp [Query.run, hx, hj, hu]
  | _ => exact .keep _ _ rfl

end Run

end Account
end WatchParty
