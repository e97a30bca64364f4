import WatchParty.Account.Linking

/-!
# One Google identity per account

`linkStart` refuses an account that has a Google row, and `linkGoogleToFull` adds the row ten minutes later without
looking again. Over every interleaving on any number of instances, where a callback's state was sealed before.

- `Proper`: a guest has no password and no provider row, so only an account can be linked as one;
- `Kept` is the invariant: the database is proper, and whom a handler or a sealed state takes for an account is one;
- `one_google_identity`: no user has two Google rows exactly as long as no callback adds a row to one that has some.
-/

namespace WatchParty
namespace Account

/-- A guest has no password and no provider row. -/
def Database.Proper (d : Database) : Prop :=
  ∀ u ∈ d.user, u.isGuest = true → u.password = none ∧ ∀ a ∈ d.oauthAccount, a.userId ≠ u.id

/-- No user has two Google rows. -/
def Database.Single (d : Database) : Prop := ∀ userId, (d.googleRows userId).length ≤ 1

/-- A row that is inserted: a guest has no password and comes without a link. -/
def User.Fresh (row : User) (link : Option String) : Prop := row.isGuest = true → row.password = none ∧ link = none

section Queries

variable {d d' : Database} {q : Query} {a : q.Answer} {row : User} {link : Option String} {id : String}

theorem Database.Proper.put (hd : d.Proper) (h : d.clash row link = [])
    (hrow : row.isGuest = true → row.password = none ∧ link = none ∧ ∀ a ∈ d.oauthAccount, a.userId ≠ row.id) :
    (d.put row link h).Proper := by
  intro u hu hg
  rcases (Database.mem_user_put h).mp hu with rfl | ⟨hu, hne⟩
  · obtain ⟨hpass, rfl, hrows⟩ := hrow hg
    refine ⟨hpass, fun a ha => ?_⟩
    rcases (Database.mem_oauthAccount_put h).mp ha with ⟨subject, hs, -⟩ | ha
    · cases hs
    · exact hrows a ha
  · obtain ⟨hpass, hrows⟩ := hd u hu hg
    refine ⟨hpass, fun a ha => ?_⟩
    rcases (Database.mem_oauthAccount_put h).mp ha with ⟨subject, -, rfl⟩ | ha
    · exact hne.symm
    · exact hrows a ha

theorem Database.Single.put (hd : d.Single) (h : d.clash row link = [])
    (hnew : link = none ∨ d.googleRows row.id = []) : (d.put row link h).Single := by
  intro userId
  rw [Database.googleRows_put]
  by_cases hid : row.id = userId
  · rw [if_pos hid]
    rcases hnew with rfl | hnone
    · exact hd userId
    · rw [← hid, hnone, List.append_nil]
      cases link with
      | none => exact Nat.zero_le 1
      | some subject => exact le_rfl
  · rw [if_neg hid]
    exact hd userId

/-- Somebody who is not there has no provider row. -/
theorem rows_of_absent (h : d.findUser id = none) : ∀ a ∈ d.oauthAccount, a.userId ≠ id := by
  rintro a ha rfl
  obtain ⟨u, hu, hid⟩ := d.owned a ha
  rw [Database.findUser_iff.mpr ⟨hu, hid⟩] at h
  cases h

theorem googleRows_eq_nil (h : ∀ a ∈ d.oauthAccount, a.userId ≠ id) : d.googleRows id = [] := by
  rw [Database.googleRows, List.filter_eq_nil_iff]
  intro a ha
  simp [h a ha]

/-- An account stays one. -/
theorem Wrote.full (hw : Wrote d q a d') (h : d.standing id = some false) : d'.standing id = some false := by
  rcases hw.standing id with he | hnone | ⟨-, hguest, -⟩
  · exact he.trans h
  · rw [h] at hnone
    cases hnone
  · rw [h] at hguest
    cases hguest

/-- The user of an account is no guest. -/
theorem not_guest {u : User} (hu : d.findUser u.id = some u) (h : d.standing u.id = some false) :
    u.isGuest = false := by
  rw [Database.standing, hu] at h
  exact Option.some.inj h

/-- Whoever has a way to re-authenticate is an account. -/
theorem full_of_method (hd : d.Proper) {x : Choice} {r : Option (User × Bool)} {lower : String → String}
    (h : ((Query.credentials id).run lower x d).1 = (some r : Option (Option (User × Bool))))
    (hm : reauthMethodFor r ≠ none) : d.standing id = some false := by
  have hread : (if x = .fails then none
      else some ((d.findUser id).map fun u => (u, d.oauthAccount.any (·.userId = id)))) =
        (some r : Option (Option (User × Bool))) := h
  split at hread
  · cases hread
  · obtain rfl := Option.some.inj hread
    rw [Database.standing]
    cases hu : d.findUser id with
    | none =>
      rw [hu] at hm
      exact absurd rfl hm
    | some u =>
      obtain ⟨hmem, hid⟩ := Database.findUser_iff.mp hu
      cases hg : u.isGuest with
      | false => rw [Option.map_some, hg]
      | true =>
        obtain ⟨hpass, hrows⟩ := hd u hmem hg
        have hnone : d.oauthAccount.any (·.userId = id) = false := by
          rw [List.any_eq_false]
          intro a ha
          simpa using fun he => hrows a ha (he.trans hid.symm)
        refine absurd ?_ hm
        simp [hu, reauthMethodFor, hpass, hnone]

/-- Who is to be an account where the query is executed. -/
def Query.account? : Query → Option String
  | .createLink _ userId => some userId
  | .setPassword id _ => some id
  | _ => none

theorem Database.Proper.wrote (hd : d.Proper) (hw : Wrote d q a d')
    (hfull : ∀ id ∈ q.account?, d.standing id = some false)
    (hfresh : ∀ row link, q = .create row link → row.Fresh link) : d'.Proper := by
  cases hw with
  | keep q a ha => exact hd
  | createJti u jti => exact hd
  | create row link hnew h =>
    refine hd.put h fun hg => ?_
    obtain ⟨hpass, hlink⟩ := hfresh row link rfl hg
    exact ⟨hpass, hlink, rows_of_absent hnew⟩
  | convert u username email password link hu hg h => exact hd.put h fun hg => by cases hg
  | createLink u subject hu h =>
    refine hd.put h fun hg => ?_
    rw [not_guest hu (hfull u.id rfl)] at hg
    cases hg
  | setPassword u hash hu h =>
    refine hd.put h fun hg => ?_
    have hg : u.isGuest = true := hg
    rw [not_guest hu (hfull u.id rfl)] at hg
    cases hg
  | increment u hu h =>
    obtain ⟨hmem, -⟩ := Database.findUser_iff.mp hu
    refine hd.put h fun hg => ?_
    obtain ⟨hpass, hrows⟩ := hd u hmem hg
    exact ⟨hpass, rfl, hrows⟩

/-- No write gives a user a second Google row but the link of an account that has one. -/
theorem Database.Single.wrote (hs : d.Single) (hd : d.Proper) (hw : Wrote d q a d')
    (hlink : ∀ subject id, q = .createLink subject id → d.owner subject = none → d.googleRows id = []) : d'.Single := by
  cases hw with
  | keep q a ha => exact hs
  | createJti u jti => exact hs
  | create row link hnew h => exact hs.put h (Or.inr (googleRows_eq_nil (rows_of_absent hnew)))
  | convert u username email password link hu hg h =>
    obtain ⟨hmem, -⟩ := Database.findUser_iff.mp hu
    exact hs.put h (Or.inr (googleRows_eq_nil (hd u hmem hg).2))
  | createLink u subject hu h =>
    exact hs.put h (Or.inr (hlink subject u.id rfl ((Database.clash_eq_nil.mp h).2 subject rfl)))
  | setPassword u hash hu h | increment u hu h => exact hs.put h (Or.inl rfl)

/-- A query that fails leaves the database. -/
theorem Query.run_fails (lower : String → String) (q : Query) (d : Database) : (q.run lower .fails d).2 = d := by
  have hupdate : ∀ id change link missing, (d.update id change link missing .fails).2 = d := by
    intro id change link missing
    unfold Database.update
    split <;> rfl
  cases q with
  | convert id username email password link | createLink subject userId | setPassword id hash | increment id =>
    exact hupdate ..
  | _ => rfl

/-- A link of an account that has a Google row gives it another. -/
theorem run_createLink {lower : String → String} {x : Choice} {subject : String} (hx : x ≠ .fails)
    (ho : d.owner subject = none) (hrows : d.googleRows id ≠ []) :
    ¬((Query.createLink subject id).run lower x d).2.Single := by
  obtain ⟨b, hb⟩ := List.exists_mem_of_ne_nil _ hrows
  obtain ⟨hb, hlinks⟩ := List.mem_filter.mp hb
  obtain ⟨u, hu, hid⟩ := d.owned b hb
  obtain rfl : u.id = id := hid.trans (of_decide_eq_true hlinks).2
  have hfind : d.findUser u.id = some u := Database.findUser_iff.mpr ⟨hu, rfl⟩
  have hclash := Database.clash_link hfind ho
  have hrun : ((Query.createLink subject u.id).run lower x d).2 = d.put u (some subject) hclash := by
    simp [Query.run, Database.update, Database.write, hfind, hx, hclash]
  intro hs
  have hone := hs u.id
  rw [hrun, Database.googleRows_put, if_pos rfl, List.length_append] at hone
  have hpos := List.length_pos_iff.mpr hrows
  have hsingle : ((some subject).map (googleRow · u.id)).toList.length = 1 := rfl
  omega

end Queries

/-! ## What a handler takes for an account -/

/-- Whom a handler has found to be an account. -/
def full? (t : Pending Reply) : Option String :=
  match t with
  | ⟨.setPassword k, some r⟩ =>
    ((r : Option (Option (User × Bool))).bind reauthMethodFor).map fun _ => k.bearer.sub
  | ⟨.setPasswordVerify k, _⟩ => some k.bearer.sub
  | ⟨.setPasswordUpdate k _, _⟩ => some k.bearer.sub
  | ⟨.linkMethod k, some r⟩ =>
    ((r : Option (Option (User × Bool))).bind reauthMethodFor).map fun _ => k.bearer.sub
  | ⟨.linkVerify k, _⟩ => some k.bearer.sub
  | ⟨.fullFind userId _, none⟩ => some userId
  | ⟨.fullFind _ _, some r⟩ => ((r : Option (Option User)).bind id).map User.id
  | ⟨.fullLink user _, _⟩ => some user.id
  | ⟨.fullCreate user _, _⟩ => some user.id
  | _ => none

/-- What a handler has found to be an account is one, and what it is to insert is fresh. -/
structure Vouched (d : Database) (t : Pending Reply) : Prop where
  full : ∀ id ∈ full? t, d.standing id = some false
  fresh : ∀ row link, t.point.query = .create row link → row.Fresh link

theorem Vouched.mono {d d' : Database} {t : Pending Reply} (h : Vouched d t)
    (hd : ∀ id, d.standing id = some false → d'.standing id = some false) : Vouched d' t :=
  ⟨fun id hid => hd id (h.full id hid), h.fresh⟩

/-- A handler of something else. -/
theorem Vouched.other {d : Database} {t : Pending Reply} (hf : full? t = none)
    (hq : ∀ row link, t.point.query ≠ .create row link) : Vouched d t where
  full id hid := by
    rw [hf] at hid
    cases hid
  fresh row link he := absurd he (hq row link)

/-- Who is to be an account is one when the query is executed. -/
theorem Vouched.account {d : Database} {p : Point} (h : Vouched d ⟨p, none⟩) :
    ∀ id ∈ p.query.account?, d.standing id = some false := by
  cases p with
  | setPasswordUpdate k hash | fullCreate user k => exact h.full
  | _ => exact fun id hid => by cases hid

variable {I : Type}

/-- Where a callback arrives, has an instance sealed its state before? -/
def authentic (tr : List (Event I)) (e : Event I) : Bool :=
  match e.act with
  | .start _ (.callback sealed _ _) =>
    tr.any fun e' => e'.out.any fun sent => sent.2.any fun r => match r with
      | .started sealed' => sealed' = sealed
      | _ => false
  | _ => true

/-- Does the event add a Google row to an account that has one? -/
def linksAgain (e : Event I) : Bool :=
  match e.pre.executed e.act, e.act with
  | some (_, .fullCreate user k), .exec _ _ x =>
    x ≠ .fails ∧ e.pre.shared.owner k.identity.subject = none ∧ e.pre.shared.googleRows user.id ≠ []
  | _, _ => false

/-- **The invariant**. -/
structure Kept (tr : List (Event I)) (s : State I) : Prop where
  proper : s.shared.Proper
  started : ∀ e ∈ tr, ∀ i sent sealed, e.out = some (i, sent) → .started sealed ∈ sent →
    sealed.purpose = some .linkFull → ∀ id, sealed.target = some id → s.shared.standing id = some false
  tasks : ∀ i, ∀ t ∈ (s.node i).tasks, Vouched s.shared t

section Steps

variable [DecidableEq I] {C : Config} {s s' : State I} {a : Action I} {o : Output I} {tr : List (Event I)}

/-- **One step** leaves every account one. -/
theorem standing_step (hs : Step C s a o s') {id : String} (h : s.shared.standing id = some false) :
    s'.shared.standing id = some false := by
  rcases accounts_shared hs with ⟨i, p, r, -, hw⟩ | ⟨-, hk⟩
  · exact hw.full h
  · rw [hk]
    exact h

/-- **One step** gives no guest a password or a row. -/
theorem proper_step (hs : Step C s a o s') (hI : Kept tr s) : s'.shared.Proper := by
  rcases accounts_shared hs with ⟨i, p, r, hx, hw⟩ | ⟨-, hk⟩
  · have ht := hI.tasks i _ (Office.executed_mem hx)
    exact hI.proper.wrote hw ht.account ht.fresh
  · rw [hk]
    exact hI.proper

omit [DecidableEq I] in
/-- What the execution of a query says of an account. -/
theorem vouched_exec (hd : s.shared.Proper) {p : Point} (ht : Vouched s.shared ⟨p, none⟩) (x : Choice) {r : Reply p}
    (hr : (p.query.run C.lower x s.shared).1 = r) : Vouched s.shared ⟨p, some r⟩ := by
  refine ⟨fun id hid => ?_, ht.fresh⟩
  cases p with
  | setPassword k | linkMethod k =>
    obtain ⟨m, hm, rfl⟩ := Option.map_eq_some_iff.mp hid
    obtain ⟨row, rfl, hrow⟩ := Option.bind_eq_some_iff.mp hm
    exact full_of_method hd hr (by rw [hrow]; exact Option.some_ne_none m)
  | fullFind userId k =>
    obtain ⟨u, hu, rfl⟩ := Option.map_eq_some_iff.mp hid
    obtain ⟨row, rfl, rfl⟩ := Option.bind_eq_some_iff.mp hu
    have hread : (if x = .fails then none else some (s.shared.findUser userId)) = some (some u) := hr
    split at hread
    · cases hread
    · obtain rfl := (Database.findUser_iff.mp (Option.some.inj hread)).2
      exact ht.full u.id rfl
  | setPasswordVerify k | setPasswordUpdate k hash | linkVerify k | fullLink user k | fullCreate user k =>
    exact ht.full id hid
  | _ => cases hid

omit [DecidableEq I] in
/-- What a request leaves. -/
theorem vouched_start {req : Request} {l : Instance} {p : Point} {d : Database} (hn : (start C req l).next = .await p)
    (hfull : ∀ sealed identity draws, req = .callback sealed identity draws → sealed.purpose = some .linkFull →
      ∀ id, sealed.target = some id → d.standing id = some false) : Vouched d ⟨p, none⟩ := by
  cases start_opens hn with
  | fullFind sealed identity draws userId ht hp =>
    refine ⟨fun id hid => ?_, fun row link he => by cases he⟩
    cases hid
    exact hfull sealed identity draws rfl hp userId ht
  | guest draws =>
    refine ⟨fun id hid => (by cases hid), fun row link he => ?_⟩
    cases he
    exact fun _ => ⟨rfl, rfl⟩
  | _ => exact .other rfl fun row link he => by cases he

omit [DecidableEq I] in
/-- What the answer to a query leaves. -/
theorem vouched_resume {p q : Point} {r : Reply p} {d : Database} (hc : Continues C p r q)
    (ht : Vouched d ⟨p, some r⟩) : Vouched d ⟨q, none⟩ := by
  cases hc with
  | linkMethod k row hm | setPassword k row hm | elevated k row hm he =>
    refine ⟨fun id hid => ?_, fun row link he => by cases he⟩
    cases hid
    exact ht.full k.bearer.sub (by simp [full?, hm])
  | setPasswordVerify k user hv | fullFind userId k user | fullLink user k =>
    exact ⟨ht.full, fun row link he => by cases he⟩
  | register username email password draws | signInEmail k | signInCreate attempt row k err =>
    refine ⟨fun id hid => (by cases hid), fun row link he => ?_⟩
    cases he
    exact fun hg => by cases hg
  | guest attempt row draws err =>
    refine ⟨fun id hid => (by cases hid), fun row link he => ?_⟩
    cases he
    exact fun _ => ⟨rfl, rfl⟩
  | _ => exact .other rfl fun row link he => by cases he

/-- Whom a link of an account is started for. -/
theorem started_step (hs : Step C s a o s') (hI : Kept tr s) {i : I} {sent : List Response} {sealed : OAuthState}
    (ho : o = some (i, sent)) (hmem : .started sealed ∈ sent) (hp : sealed.purpose = some .linkFull) {id : String}
    (ht : sealed.target = some id) : s.shared.standing id = some false := by
  obtain ⟨d, u, hb, rfl, -⟩ := Tasks.sent_cases hs ho
  cases hb with
  | start req hm =>
    rcases start_answers (C := C) hmem with hx | ⟨draws, -, hx⟩
    · cases hx
    · cases hx
      cases hp
  | resume pre post p r hm hc =>
    have htask := hI.tasks i _ (Office.replied_mem hm)
    have hmem : Response.started sealed ∈ (resume C p r (s.node i).loc).sent := hmem
    cases resume_answers hmem with
    | refuses p r x hx => cases hx
    | linkGuest k row hm | reauth k row hm => cases hp
    | linkFull k user hv =>
      obtain ⟨hid, -⟩ := Option.filter_eq_some_iff.mp ht
      cases hid
      exact htask.full k.bearer.sub rfl
  | enter q rest hm hq hfree => exact nomatch q

/-- **One step** keeps the invariant, where a callback brings a state that was sealed before. -/
theorem kept_step (hs : Step C s a o s') (hc : authentic tr (⟨s, a, o, s'⟩ : Event I) = true) (hI : Kept tr s) :
    Kept (tr ++ [⟨s, a, o, s'⟩]) s' where
  proper := proper_step hs hI
  started e he i sent sealed ho hmem hp id ht := by
    refine standing_step hs ?_
    rcases List.mem_append.mp he with he | he
    · exact hI.started e he i sent sealed ho hmem hp id ht
    · cases List.mem_singleton.mp he
      exact started_step hs hI ho hmem hp ht
  tasks i t htask := by
    rcases Tasks.mem_tasks hs htask with h | ⟨p, x, -, hp, rfl, hk⟩ | ⟨d, u, p, hb, hn, rfl, -⟩
    · exact (hI.tasks i t h).mono fun id => standing_step hs
    · exact (vouched_exec hI.proper (hI.tasks i _ hp) x rfl).mono fun id => standing_step hs
    · refine Vouched.mono (d := s.shared) ?_ fun id => standing_step hs
      cases hb with
      | start req hm =>
        have hn : (start C req (s.node i).loc).next = .await p := hn
        refine vouched_start hn fun sealed identity draws hreq hp id ht => ?_
        rw [hm, hreq] at hc
        obtain ⟨e, he, hout⟩ := List.any_eq_true.mp hc
        obtain ⟨⟨j, sent⟩, ho, hsent⟩ := (Option.any_eq_true _ _).mp hout
        obtain ⟨y, hy, hsealed⟩ := List.any_eq_true.mp hsent
        cases y with
        | started sealed' =>
          obtain rfl : sealed' = sealed := of_decide_eq_true hsealed
          exact hI.started e he j sent sealed' ho hy hp id ht
        | _ => cases hsealed
      | resume pre post q r hm hc =>
        have hn : (resume C q r (s.node i).loc).next = .await p := hn
        exact vouched_resume (resume_continues hn) (hI.tasks i _ (Office.replied_mem hm))
      | enter q rest hm hq hfree => exact nomatch q

/-- **One step** keeps the Google rows single exactly when it does not add one where there is one. -/
theorem google_step (hs : Step C s a o s') (hI : Kept tr s) (hone : s.shared.Single) :
    s'.shared.Single ↔ linksAgain (⟨s, a, o, s'⟩ : Event I) = false := by
  cases hx : s.executed a with
  | none =>
    refine iff_of_true ?_ (by simp [linksAgain, hx])
    rcases accounts_shared hs with ⟨i, p, r, hx', -⟩ | ⟨-, hk⟩
    · rw [hx] at hx'
      cases hx'
    · rw [hk]
      exact hone
  | some q =>
    obtain ⟨i, p⟩ := q
    obtain ⟨n, x, rfl⟩ := Office.executed_act hx
    have hk : s'.shared = (p.query.run C.lower x s.shared).2 := (Tasks.exec_step hs hx).1
    have hw := Query.wrote_run C.lower p.query x s.shared
    rw [hk]
    by_cases hl : linksAgain (⟨s, .exec i n x, o, s'⟩ : Event I) = true
    · refine iff_of_false ?_ (by simp [hl])
      cases p with
      | fullCreate user k =>
        have hagain : x ≠ .fails ∧ s.shared.owner k.identity.subject = none ∧ s.shared.googleRows user.id ≠ [] := by
          simpa [linksAgain, hx] using hl
        exact run_createLink hagain.1 hagain.2.1 hagain.2.2
      | _ => simp [linksAgain, hx] at hl
    · refine iff_of_true ?_ (by simpa using hl)
      by_cases hfail : x = .fails
      · rw [hfail, Query.run_fails]
        exact hone
      · refine hone.wrote hI.proper hw fun subject id hq ho => ?_
        cases p with
        | fullCreate user k =>
          obtain ⟨rfl, rfl⟩ := Query.createLink.inj hq
          by_contra hrows
          exact hl (by simp [linksAgain, hx, hfail, ho, hrows])
        | _ => cases hq

end Steps

/-! ## The result -/

section Runs

variable [DecidableEq I] {C : Config}

theorem kept_run (ops : List (Action I)) :
    Machine.Always (fun tr e => authentic tr e = true) ((machine I C).trace ops) →
      Kept ((machine I C).trace ops) ((machine I C).run ops) := by
  refine Machine.invariant_always (I := Kept) (machine I C) ⟨?_, ?_, ?_⟩ ?_ ops
  · exact fun u hu => absurd hu List.not_mem_nil
  · exact fun e he => absurd he List.not_mem_nil
  · exact fun i t ht => absurd ht List.not_mem_nil
  · exact fun tr s a hc hI => kept_step (Tasks.step_cases (accounts C) s a) hc hI

/-- **One Google identity per account**, as long as no callback links an account that has one. -/
theorem one_google_identity (C : Config) (ops : List (Action I))
    (h : Machine.Always (fun tr e => authentic tr e = true) ((machine I C).trace ops)) :
    (∀ as, as <+: ops → ((machine I C).run as).shared.Single) ↔
      ∀ e ∈ (machine I C).trace ops, linksAgain e = false := by
  have hkept : ∀ p, p <+: ops → ∃ tr, Kept tr ((machine I C).run p) := fun p hp => ⟨_, kept_run p (h.of_prefix hp)⟩
  have hiff := (machine I C).holds_iff (I := fun s => ∃ tr, Kept tr s) (J := fun s => s.shared.Single)
    (B := fun s a => linksAgain ((machine I C).event s a) = true) hkept (fun _ => Nat.zero_le 1) ?_
  · rw [hiff]
    exact forall₂_congr fun e _ => iff_of_eq (Bool.not_eq_true (linksAgain e))
  · rintro s a ⟨tr, hI⟩ hone
    exact (google_step (Tasks.step_cases (accounts C) s a) hI hone).trans (iff_of_eq (Bool.not_eq_true _).symm)

end Runs

/-- A platform that stores passwords as they are. -/
def plain : Config where
  toLowerCase := id
  lower := id
  normalize := id
  hash password _ := password
  compare password hash := password = hash
  lifetime := 604800

/-- What a call draws when its state is to be this. -/
def drawing (state : String) : Draws :=
  { jti := "j", state, salt := "", id := fun _ => "ann", address := fun _ => "", number := fun _ => 0 }

/-- A request at the one instance, and its queries. -/
def calling (request : Request) (queries : ℕ) : List (Action Unit) :=
  .start () request :: (List.replicate queries [.exec () 0 .done, .deliver () 0]).flatten

/-- The token that ann signs up with. -/
def annToken : Token :=
  { sub := "ann", name := "ann", jti := "j", ver := 0, sess := some 0, elev := false, iat := 0, exp := 604800 }

/-- The flow that ann starts with her password. -/
def linking (state : String) : List (Action Unit) := calling (.linkStart annToken "password" (drawing state)) 3

/-- The callback of that flow. -/
def linked (state subject : String) : List (Action Unit) :=
  calling (.callback ⟨state, some "ann", some .linkFull, 600000⟩ ⟨subject, "ann@x.org", none⟩ (drawing "")) 3

def signedUp : List (Action Unit) := calling (.register "ann" "ann@x.org" "password" (drawing "")) 2

/-- One link. -/
theorem one_google_identity_once :
    ((machine Unit plain).run (signedUp ++ linking "s" ++ linked "s" "g")).shared.Single :=
  (one_google_identity plain (signedUp ++ linking "s" ++ linked "s" "g") (by decide +kernel)).mpr (by decide +kernel) _
    List.prefix_rfl

/-- Two flows that are started before one of them is completed, each with another Google account. -/
def linkedTwice : List (Action Unit) :=
  signedUp ++ linking "s" ++ linking "t" ++ linked "s" "g" ++ linked "t" "h"

theorem linked_twice : Machine.Always (fun tr e => authentic tr e = true) ((machine Unit plain).trace linkedTwice) ∧
    ¬((machine Unit plain).run linkedTwice).shared.Single := by
  refine ⟨by decide +kernel, fun hone => ?_⟩
  have htwo : (((machine Unit plain).run linkedTwice).shared.googleRows "ann").length = 2 := by decide +kernel
  have hlen := hone "ann"
  omega

end Account
end WatchParty
