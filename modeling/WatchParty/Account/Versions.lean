import WatchParty.Account.Linking

/-!
# The versions of the accounts

A token carries the version of its account, and is refused once the account's version is above it.

- `Wrote.version`: a query leaves the version of a user, or raises it by one where it is to;
- `row_run`: the row that a query answers is in the database that it leaves;
- `version_step`: over a step a version only rises;
- `issued_step`: a token that is issued is of a row that its handler has read.
-/

namespace WatchParty
namespace Account

/-- The version of a user. -/
def Database.version (id : String) (d : Database) : Option ℕ := (d.findUser id).map User.tokenVersion

/-- The row of a user in an answer. -/
def Query.row? : (q : Query) → q.Answer → Option User
  | .findUser _, a => (a : Option (Option User)).bind id
  | .findByUsername _, a => (a : Option (Option User)).bind id
  | .linked _, a => (a : Option (Option User)).bind id
  | .create _ _, a => (a : Except WriteError User).toOption
  | .convert _ _ _ _ _, a => (a : Except WriteError User).toOption
  | .createLink _ _, a => (a : Except WriteError User).toOption
  | .setPassword _ _, a => (a : Except WriteError User).toOption
  | .increment _, a => (a : Except WriteError User).toOption
  | _, _ => none

/-- Does the query raise the version of this user? -/
def Query.bumps (id : String) (q : Query) : Bool :=
  match q with
  | .setPassword id' _ => id' = id
  | .increment id' => id' = id
  | _ => false

/-- The Google subject that a query links. -/
def Query.link? : Query → Option String
  | .create _ link => link
  | .convert _ _ _ _ link => link
  | .createLink subject _ => some subject
  | _ => none

section Queries

variable {d d' : Database} {q : Query} {a : q.Answer}

theorem version_of_find {id : String} {u : User} (h : d.findUser id = some u) : d.version id = some u.tokenVersion := by
  rw [Database.version, h, Option.map_some]

/-- **What becomes of a version**: it stays, or there was no such user, or the query is to raise it. -/
theorem Wrote.version (hw : Wrote d q a d') (id : String) :
    d'.version id = d.version id ∨ d.version id = none ∨
      q.bumps id = true ∧ ∃ v, d.version id = some v ∧ d'.version id = some (v + 1) := by
  cases hw with
  | keep q a ha => exact Or.inl rfl
  | createJti w jti => exact Or.inl rfl
  | create row link hnew h =>
    by_cases hid : id = row.id
    · refine Or.inr (Or.inl ?_)
      rw [Database.version, hid, hnew]
      rfl
    · left
      rw [Database.version, Database.findUser_put, if_neg hid]
      rfl
  | convert w username email password link hw hg h =>
    left
    rw [Database.version, Database.findUser_put]
    split
    · rename_i hid
      rw [version_of_find (hid ▸ hw : d.findUser id = some w)]
      rfl
    · rfl
  | createLink w subject hw h =>
    left
    rw [Database.version, Database.findUser_put]
    split
    · rename_i hid
      rw [version_of_find (hid ▸ hw : d.findUser id = some w)]
      rfl
    · rfl
  | setPassword w hash hw h | increment w hw h =>
    by_cases hid : id = w.id
    · refine Or.inr (Or.inr ⟨decide_eq_true hid.symm, w.tokenVersion, ?_, ?_⟩)
      · exact version_of_find (hid ▸ hw)
      · exact version_of_find ((Database.findUser_put h id).trans (if_pos hid))
    · exact Or.inl (congrArg (Option.map User.tokenVersion) ((Database.findUser_put h id).trans (if_neg hid)))

/-- A version only rises. -/
theorem Wrote.version_le (hw : Wrote d q a d') {id : String} {v : ℕ} (h : d.version id = some v) :
    ∃ w, d'.version id = some w ∧ v ≤ w := by
  rcases hw.version id with he | hnone | ⟨-, w, hv, hv'⟩
  · exact ⟨v, he.trans h, le_rfl⟩
  · rw [h] at hnone
    cases hnone
  · rw [h] at hv
    cases hv
    exact ⟨v + 1, hv', Nat.le_succ v⟩

/-- The row that a write answers is there. -/
theorem Wrote.row (hw : Wrote d q a d') (ha : q.wrote a = true) {u : User} (hu : q.row? a = some u) :
    d'.findUser u.id = some u := by
  cases hw with
  | keep q a hkeep =>
    rw [hkeep] at ha
    cases ha
  | createJti w jti => cases hu
  | _ =>
    cases hu
    exact (Database.findUser_put _ _).trans (if_pos rfl)

/-- An answer with a row is the answer of a write that was done. -/
theorem isOk_of_row {a : Except WriteError User} {u : User} (h : a.toOption = some u) : a.isOk = true := by
  cases a with
  | error err => cases h
  | ok v => rfl

/-- What a read that answers a row has found. -/
theorem read_row {x : Choice} {found : Option User} {u : User}
    (h : (d.read x found).1.bind id = some u) : found = some u := by
  unfold Database.read at h
  dsimp only at h
  split at h
  · cases h
  · exact h

/-- **The row that a query answers is in the database that it leaves.** -/
theorem row_run (lower : String → String) (q : Query) (x : Choice) (d : Database) {u : User}
    (hu : q.row? (q.run lower x d).1 = some u) : (q.run lower x d).2.findUser u.id = some u := by
  cases q with
  | findUser id =>
    have hfind : d.findUser id = some u := read_row hu
    obtain ⟨hmem, -⟩ := Database.findUser_iff.mp hfind
    exact Database.findUser_iff.mpr ⟨hmem, rfl⟩
  | findByUsername username =>
    have hfind : d.user.find? (·.username = username) = some u := read_row hu
    exact Database.findUser_iff.mpr ⟨List.mem_of_find?_eq_some hfind, rfl⟩
  | linked subject =>
    have hfind : d.linked subject = some u := read_row hu
    exact (linked_iff.mp hfind).2
  | create row link => exact (Query.wrote_run lower (.create row link) x d).row (isOk_of_row hu) hu
  | convert id username email password link =>
    exact (Query.wrote_run lower (.convert id username email password link) x d).row (isOk_of_row hu) hu
  | createLink subject userId => exact (Query.wrote_run lower (.createLink subject userId) x d).row (isOk_of_row hu) hu
  | setPassword id hash => exact (Query.wrote_run lower (.setPassword id hash) x d).row (isOk_of_row hu) hu
  | increment id => exact (Query.wrote_run lower (.increment id) x d).row (isOk_of_row hu) hu
  | _ => cases hu

/-- A provider row that is new belongs to the user whose row is answered. -/
theorem Wrote.attached (hw : Wrote d q a d') {b : OAuthAccount} (hb : b ∈ d'.oauthAccount) (hnew : b ∉ d.oauthAccount) :
    q.link? ≠ none ∧ ∃ u, q.row? a = some u ∧ b.userId = u.id := by
  cases hw with
  | keep q a ha => exact absurd hb hnew
  | createJti w jti => exact absurd hb hnew
  | create row link hrow h =>
    obtain ⟨subject, rfl, rfl⟩ := ((Database.mem_oauthAccount_put h).mp hb).resolve_right hnew
    exact ⟨Option.some_ne_none subject, row, rfl, rfl⟩
  | convert w username email password link hw hg h =>
    obtain ⟨subject, rfl, rfl⟩ := ((Database.mem_oauthAccount_put h).mp hb).resolve_right hnew
    exact ⟨Option.some_ne_none subject, _, rfl, rfl⟩
  | createLink w subject hw h =>
    obtain ⟨subject', -, rfl⟩ := ((Database.mem_oauthAccount_put h).mp hb).resolve_right hnew
    exact ⟨Option.some_ne_none subject, w, rfl, rfl⟩
  | setPassword w hash hw h | increment w hw h =>
    obtain ⟨subject, hs, -⟩ := ((Database.mem_oauthAccount_put h).mp hb).resolve_right hnew
    cases hs

end Queries

/-! ## Steps -/

section Events

variable {I : Type}

/-- The version that an event raises that of a user to. -/
def raised (id : String) (e : Event I) : Option ℕ :=
  match e.pre.shared.version id, e.post.shared.version id with
  | some v, some w => if v < w then some w else none
  | _, _ => none

theorem raised_iff {id : String} {e : Event I} {w : ℕ} :
    raised id e = some w ↔ e.post.shared.version id = some w ∧ ∃ v, e.pre.shared.version id = some v ∧ v < w := by
  unfold raised
  constructor
  · intro h
    split at h
    · rename_i v w' hv hw
      split at h
      · cases h
        exact ⟨hw, v, hv, ‹_›⟩
      · cases h
    · cases h
  · rintro ⟨hw, v, hv, hlt⟩
    simp [hv, hw, hlt]

/-- A token that a response carries. -/
def Response.token? : Response → Option Token
  | .session _ token => some token
  | .elevated token => some token
  | _ => none

/-- What an event answers. -/
def responses (e : Event I) : List Response := (e.out.map Prod.snd).getD []

/-- The tokens that an event issues. -/
def issued (e : Event I) : List Token := (responses e).filterMap Response.token?

/-- Does a handler that awaits here issue a token of the row that is answered? -/
def Point.issues : Point → Bool
  | .registerCreate _ _ => true
  | .login _ _ _ => true
  | .guest _ _ _ => true
  | .claimUpdate _ _ => true
  | .setPasswordUpdate _ _ => true
  | .mintElevatedToken _ _ => true
  | .fullFind _ _ => true
  | .guestUpdate _ _ _ _ => true
  | .signIn _ => true
  | .signInCreate _ _ _ => true
  | .signInWinner _ => true
  | _ => false

/-- The row that a handler has read and issues a token of. -/
def held? (t : Pending Reply) : Option User :=
  match t with
  | ⟨.fullLink user _, _⟩ => some user
  | ⟨.fullCreate user _, _⟩ => some user
  | ⟨.fullOwner user _, _⟩ => some user
  | ⟨.refreshJti _ user, _⟩ => some user
  | ⟨.refreshClaim _ user, _⟩ => some user
  | ⟨p, some r⟩ => if p.issues then p.query.row? r else none
  | ⟨_, none⟩ => none

/-- What an answer issues is of the row that its handler holds. -/
theorem Answers.token {C : Config} {l : Instance} {p : Point} {r : Reply p} {x : Response} {token : Token}
    (h : Answers C l p r x) (hx : x.token? = some token) :
    ∃ u, held? ⟨p, some r⟩ = some u ∧ token.sub = u.id ∧ token.ver = u.tokenVersion := by
  cases h with
  | refuses p r x hrefuses =>
    cases x with
    | failed f | redirected error => cases hx
    | _ => cases hrefuses
  | linkGuest | linkFull | reauth | logoutAll => cases hx
  | _ =>
    cases hx
    exact ⟨_, rfl, rfl, rfl⟩

end Events

section Steps

variable {I : Type} [DecidableEq I] {C : Config} {s s' : State I} {a : Action I} {o : Output I}

/-- **One step** lowers no version. -/
theorem version_step (hs : Step C s a o s') {id : String} {v : ℕ} (h : s.shared.version id = some v) :
    ∃ w, s'.shared.version id = some w ∧ v ≤ w := by
  rcases accounts_shared hs with ⟨i, p, r, -, hw⟩ | ⟨-, hk⟩
  · exact hw.version_le h
  · rw [hk]
    exact ⟨v, h, le_rfl⟩

/-- A version is raised by a query that is to raise it. -/
theorem raised_step (hs : Step C s a o s') {id : String} {w : ℕ} (h : raised id (⟨s, a, o, s'⟩ : Event I) = some w) :
    ∃ i p, s.executed a = some (i, p) ∧ p.query.bumps id = true := by
  obtain ⟨hpost, v, hpre, hlt⟩ := raised_iff.mp h
  have hpost : s'.shared.version id = some w := hpost
  have hpre : s.shared.version id = some v := hpre
  rcases accounts_shared hs with ⟨i, p, r, hx, hw⟩ | ⟨-, hk⟩
  · refine ⟨i, p, hx, ?_⟩
    rcases hw.version id with he | hnone | ⟨hq, -⟩
    · rw [hpost, hpre] at he
      exact absurd (Option.some.inj he) hlt.ne'
    · rw [hpre] at hnone
      cases hnone
    · exact hq
  · rw [hk, hpre] at hpost
    exact absurd (Option.some.inj hpost) hlt.ne

/-- **What one step issues** is of the row that the handler it answers holds. -/
theorem issued_step (hs : Step C s a o s') {token : Token} (h : token ∈ issued (⟨s, a, o, s'⟩ : Event I)) :
    ∃ i p r, s.replied a = some (i, ⟨p, r⟩) ∧
      ∃ u, held? ⟨p, some r⟩ = some u ∧ token.sub = u.id ∧ token.ver = u.tokenVersion := by
  obtain ⟨x, hx, htoken⟩ := List.mem_filterMap.mp h
  cases o with
  | none => cases hx
  | some out =>
    obtain ⟨i, sent⟩ := out
    have hx : x ∈ sent := hx
    obtain ⟨d, u, hb, rfl, -⟩ := Tasks.sent_cases hs rfl
    cases hb with
    | start req hm =>
      rcases start_answers (C := C) hx with hrefuses | ⟨draws, -, rfl⟩
      · cases x with
        | failed f | redirected error => cases htoken
        | _ => cases hrefuses
      · cases htoken
    | resume pre post p r hm hc => exact ⟨i, p, r, hm, (resume_answers hx).token htoken⟩
    | enter q rest hm hq hfree => exact nomatch q

end Steps

end Account
end WatchParty
