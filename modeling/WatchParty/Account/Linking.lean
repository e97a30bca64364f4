import WatchParty.Account.Effects

/-!
# Accounts and their Google identities

Every handler checks first and writes later, and draws another name where a name is taken. Over every interleaving on any
number of instances: whom a Google subject is linked to, whom a sign-in returns, and what becomes of a guest and of a
full account.

- `Wrote.owner_of_some`, `Wrote.full`, `Wrote.guest`: what a query leaves of a link, of a full account and of a guest;
- `Traced` is what the events so far say of a sign-in: it was called, and its subject was linked to nobody;
- `identity_stays` is the result.
-/

namespace WatchParty
namespace Account

/-- Is the user of this id a guest? None where there is no such user. -/
def Database.standing (id : String) (d : Database) : Option Bool := (d.findUser id).map User.isGuest

section Queries

variable {d d' : Database} {q : Query} {a : q.Answer}

/-- What is linked stays linked. -/
theorem Wrote.owner_of_some (hw : Wrote d q a d') {subject id : String} (h : d.owner subject = some id) :
    d'.owner subject = some id := by
  cases hw with
  | keep q a ha => exact h
  | createJti u jti => exact h
  | _ => exact Database.owner_put_of_some _ h

/-- Somebody to whom a subject is linked is there. -/
theorem linked_isSome {subject id : String} (h : d.owner subject = some id) :
    ∃ u, d.linked subject = some u ∧ u.id = id := by
  obtain ⟨u, hu, hid⟩ := d.owned _ (Database.owner_iff.mp h)
  refine ⟨u, ?_, hid⟩
  rw [Database.linked, h, Option.bind_some]
  exact Database.findUser_iff.mpr ⟨hu, hid⟩

theorem linked_iff {subject : String} {u : User} :
    d.linked subject = some u ↔ d.owner subject = some u.id ∧ d.findUser u.id = some u := by
  constructor
  · intro h
    obtain ⟨id, ho, hu⟩ := Option.bind_eq_some_iff.mp h
    obtain rfl := (Database.findUser_iff.mp hu).2
    exact ⟨ho, hu⟩
  · rintro ⟨ho, hu⟩
    rw [Database.linked, ho, Option.bind_some, hu]

/-- The row of a full account keeps its name, its address, its standing, and its password unless that is set. -/
theorem Wrote.kept_full (hw : Wrote d q a d') {u : User} (hu : d.findUser u.id = some u) (hg : u.isGuest = false) :
    ∃ v, d'.findUser u.id = some v ∧ v.username = u.username ∧ v.email = u.email ∧ v.isGuest = false ∧
      (v.password = u.password ∨ ∃ hash, q = .setPassword u.id hash) := by
  have hsame : ∃ v, d.findUser u.id = some v ∧ v.username = u.username ∧ v.email = u.email ∧ v.isGuest = false ∧
      (v.password = u.password ∨ ∃ hash, q = .setPassword u.id hash) := ⟨u, hu, rfl, rfl, hg, Or.inl rfl⟩
  cases hw with
  | keep q a ha => exact hsame
  | createJti w jti => exact hsame
  | create row link hnew h =>
    rw [Database.findUser_put, if_neg]
    · exact hsame
    · rintro he
      rw [← he, hu] at hnew
      cases hnew
  | convert w username email password link hw hwg h =>
    rw [Database.findUser_put, if_neg]
    · exact hsame
    · intro he
      rw [show u.id = w.id from he, hw] at hu
      rw [← Option.some.inj hu, hwg] at hg
      cases hg
  | createLink w subject hw h | increment w hw h =>
    rw [Database.findUser_put]
    split
    · rename_i he
      rw [show u.id = w.id from he, hw] at hu
      cases hu
      exact ⟨_, rfl, rfl, rfl, hg, Or.inl rfl⟩
    · exact hsame
  | setPassword w hash hw h =>
    rw [Database.findUser_put]
    split
    · rename_i he
      rw [show u.id = w.id from he, hw] at hu
      cases hu
      exact ⟨_, rfl, rfl, rfl, hg, Or.inr ⟨hash, rfl⟩⟩
    · exact hsame

/-- Does the query convert this user? -/
def Query.converts (id : String) (q : Query) : Bool :=
  match q with
  | .convert id' _ _ _ _ => id' = id
  | _ => false

/-- **What becomes of a user's standing**: it stays, or there was no such user, or a guest becomes a full account. -/
theorem Wrote.standing (hw : Wrote d q a d') (id : String) :
    d'.standing id = d.standing id ∨ d.standing id = none ∨
      q.converts id = true ∧ d.standing id = some true ∧ d'.standing id = some false := by
  cases hw with
  | keep q a ha => exact Or.inl rfl
  | createJti w jti => exact Or.inl rfl
  | create row link hnew h =>
    by_cases hid : id = row.id
    · refine Or.inr (Or.inl ?_)
      rw [Database.standing, hid, hnew]
      rfl
    · left
      rw [Database.standing, Database.findUser_put, if_neg hid]
      rfl
  | convert w username email password link hw hg h =>
    by_cases hid : id = w.id
    · refine Or.inr (Or.inr ⟨decide_eq_true hid.symm, ?_, ?_⟩)
      · rw [Database.standing, hid, hw, Option.map_some, hg]
      · rw [Database.standing, Database.findUser_put, User.converted_id, if_pos hid]
        rfl
    · left
      rw [Database.standing, Database.findUser_put, User.converted_id, if_neg hid]
      rfl
  | createLink w subject hw h =>
    left
    rw [Database.standing, Database.findUser_put]
    split
    · rename_i hid
      rw [Database.standing, hid, hw]
    · rfl
  | setPassword w hash hw h | increment w hw h =>
    left
    rw [Database.standing, Database.findUser_put]
    split
    · rename_i hid
      rw [Database.standing, show id = w.id from hid, hw]
      rfl
    · rfl

/-- What a lookup of a subject finds. -/
theorem run_linked {lower : String → String} {x : Choice} {subject : String} {r : Option (Option User)}
    (h : (Query.linked subject).run lower x d = (r, d')) : d' = d ∧ (r = none ∨ r = some (d.linked subject)) := by
  obtain ⟨rfl, rfl⟩ := Prod.mk.inj h
  refine ⟨rfl, ?_⟩
  split
  · exact Or.inl rfl
  · exact Or.inr rfl

/-- A new user is linked to the subject. -/
theorem run_create {lower : String → String} {x : Choice} {row u : User} {subject : String}
    (h : (Query.create row (some subject)).run lower x d = ((Except.ok u : Except WriteError User), d')) :
    d'.owner subject = some u.id := by
  have hw := Query.wrote_run lower (.create row (some subject)) x d
  rw [h] at hw
  cases hw with
  | keep q a ha => cases ha
  | create row link hnew hc => exact (Database.owner_put hc subject).trans (if_pos rfl)

end Queries

/-! ## Steps -/

section Events

variable {I : Type}

/-- The query that a step executes. -/
def executes (e : Event I) : Option Query := (e.pre.executed e.act).map fun q => q.2.query

/-- Is the event the update of a claim of this user? -/
def claims (id : String) (e : Event I) : Bool :=
  match e.pre.executed e.act with
  | some (_, .claimUpdate k _) => k.bearer.sub = id
  | _ => false

/-- Is the event the update by which this guest is linked? -/
def links (id : String) (e : Event I) : Bool :=
  match e.pre.executed e.act with
  | some (_, .guestUpdate userId _ _ _) => userId = id
  | _ => false

/-- Is the event the update that sets this user's password? -/
def setsPassword (id : String) (e : Event I) : Bool :=
  match e.pre.executed e.act with
  | some (_, .setPasswordUpdate k _) => k.bearer.sub = id
  | _ => false

/-- Does the event turn this guest into a full account? -/
def converts (id : String) (e : Event I) : Bool :=
  e.pre.shared.standing id = some true ∧ e.post.shared.standing id = some false

/-- Does the event find the user a guest? -/
def wasGuest (id : String) (e : Event I) : Bool := e.pre.shared.standing id = some true

/-- The event is the arrival of a callback. -/
def Calls (k : Callback) (e : Event I) : Prop := ∃ i, e.act = .start i (.callback k.sealed k.identity k.draws)

/-- Has the lookup of a sign-in failed? -/
def lookupFails (t : Pending Reply) : Bool :=
  match t with
  | ⟨.signIn _, some r⟩ => (r : Option (Option User)).isNone
  | _ => false

/-- The callback of a sign-in. -/
def Point.signIn? : Point → Option Callback
  | .signIn k => some k
  | .signInEmail k => some k
  | .signInCreate _ _ k => some k
  | .signInWinner k => some k
  | _ => none

/-- The sign-in whose lookup has found nobody. -/
def missed? (t : Pending Reply) : Option Callback :=
  match t with
  | ⟨.signIn k, some r⟩ =>
    match (r : Option (Option User)) with
    | some none => some k
    | _ => none
  | ⟨.signInEmail k, _⟩ => some k
  | ⟨.signInCreate _ _ k, _⟩ => some k
  | ⟨.signInWinner k, _⟩ => some k
  | _ => none

/-- The user that a sign-in has found or made. -/
def found? (t : Pending Reply) : Option (Callback × User) :=
  match t with
  | ⟨.signIn k, some r⟩ => ((r : Option (Option User)).bind id).map fun u => (k, u)
  | ⟨.signInWinner k, some r⟩ => ((r : Option (Option User)).bind id).map fun u => (k, u)
  | ⟨.signInCreate _ _ k, some r⟩ => (r : Except WriteError User).toOption.map fun u => (k, u)
  | _ => none

/-- What the events so far say of a handler: a sign-in has been called, where it has found nobody its subject was linked
to nobody when it was called, and where it has found somebody its subject is linked to that user. -/
structure Traced (tr : List (Event I)) (d : Database) (t : Pending Reply) : Prop where
  called : ∀ k ∈ t.point.signIn?, ∃ e ∈ tr, Calls k e
  missed : ∀ k ∈ missed? t, ∃ e ∈ tr, Calls k e ∧ e.pre.shared.owner k.identity.subject = none
  found : ∀ q ∈ found? t, d.owner q.1.identity.subject = some q.2.id

/-- A handler of something else. -/
theorem Traced.other {tr : List (Event I)} {d : Database} {t : Pending Reply} (h : t.point.signIn? = none) :
    Traced tr d t := by
  obtain ⟨p, r⟩ := t
  cases p with
  | signIn k | signInEmail k | signInCreate attempt row k | signInWinner k => cases h
  | _ => exact ⟨fun _ h => (by cases h), fun _ h => (by cases h), fun _ h => by cases h⟩

theorem Traced.mono {tr tr' : List (Event I)} {d d' : Database} {t : Pending Reply} (h : Traced tr d t) (hs : tr ⊆ tr')
    (hk : ∀ subject id, d.owner subject = some id → d'.owner subject = some id) : Traced tr' d' t where
  called k hk' := (h.called k hk').imp fun _ he => ⟨hs he.1, he.2⟩
  missed k hk' := (h.missed k hk').imp fun _ he => ⟨hs he.1, he.2⟩
  found q hq := hk _ _ (h.found q hq)

/-- Who was linked before an event is linked still, and every handler is traced. -/
structure Linked (tr : List (Event I)) (s : State I) : Prop where
  kept : ∀ e ∈ tr, ∀ subject id, e.pre.shared.owner subject = some id → s.shared.owner subject = some id
  traced : ∀ i, ∀ t ∈ (s.node i).tasks, Traced tr s.shared t

/-- Whoever is linked to nobody now was so when it was called. -/
theorem Linked.missed {tr : List (Event I)} {s : State I} (h : Linked tr s) {k : Callback}
    (hc : ∃ e ∈ tr, Calls k e) (ho : s.shared.owner k.identity.subject = none) :
    ∃ e ∈ tr, Calls k e ∧ e.pre.shared.owner k.identity.subject = none := by
  obtain ⟨e, he, hk⟩ := hc
  refine ⟨e, he, hk, ?_⟩
  cases hpre : e.pre.shared.owner k.identity.subject with
  | none => rfl
  | some id =>
    rw [h.kept e he _ id hpre] at ho
    cases ho

end Events

section Steps

variable {I : Type} [DecidableEq I] {C : Config} {s s' : State I} {a : Action I} {o : Output I} {tr : List (Event I)}

/-- **One step** moves no link. -/
theorem owner_step (hs : Step C s a o s') {subject id : String} (h : s.shared.owner subject = some id) :
    s'.shared.owner subject = some id := by
  rcases accounts_shared hs with ⟨i, p, r, -, hw⟩ | ⟨-, hk⟩
  · exact hw.owner_of_some h
  · rw [hk]
    exact h

omit [DecidableEq I] in
/-- What the execution of a query says of a sign-in. -/
theorem traced_exec (hI : Linked tr s) {p : Point} (ht : Traced tr s.shared ⟨p, none⟩) (x : Choice) {r : Reply p}
    {d : Database} (hr : p.query.run C.lower x s.shared = (r, d)) : Traced tr d ⟨p, some r⟩ := by
  cases p with
  | signIn k =>
    obtain ⟨rfl, hread⟩ := run_linked hr
    refine ⟨ht.called, fun k' hk => ?_, fun q hq => ?_⟩
    · rcases hread with rfl | rfl
      · cases hk
      · cases hl : s.shared.linked k.identity.subject with
        | none =>
          rw [hl] at hk
          cases hk
          refine hI.missed (ht.called k rfl) ?_
          cases ho : s.shared.owner k.identity.subject with
          | none => rfl
          | some id =>
            obtain ⟨u, hu, -⟩ := linked_isSome ho
            rw [hl] at hu
            cases hu
        | some u =>
          rw [hl] at hk
          cases hk
    · rcases hread with rfl | rfl
      · cases hq
      · cases hl : s.shared.linked k.identity.subject with
        | none =>
          rw [hl] at hq
          cases hq
        | some u =>
          rw [hl] at hq
          cases hq
          exact (linked_iff.mp hl).1
  | signInEmail k => exact ⟨ht.called, ht.missed, fun _ h => by cases h⟩
  | signInCreate attempt row k =>
    refine ⟨ht.called, ht.missed, fun q hq => ?_⟩
    rcases r with err | u
    · cases hq
    · cases hq
      exact run_create hr
  | signInWinner k =>
    obtain ⟨rfl, hread⟩ := run_linked hr
    refine ⟨ht.called, ht.missed, fun q hq => ?_⟩
    rcases hread with rfl | rfl
    · cases hq
    · cases hl : s.shared.linked k.identity.subject with
      | none =>
        rw [hl] at hq
        cases hq
      | some u =>
        rw [hl] at hq
        cases hq
        exact (linked_iff.mp hl).1
  | _ => exact .other rfl

omit [DecidableEq I] in
/-- What a request leaves of a sign-in. -/
theorem traced_start {req : Request} {l : Instance} {p : Point} {d : Database}
    (hn : (start C req l).next = .await p) (hc : ∀ k, req = .callback k.sealed k.identity k.draws → ∃ e ∈ tr, Calls k e) :
    Traced tr d ⟨p, none⟩ := by
  cases start_opens hn with
  | signIn sealed identity draws ht =>
    refine ⟨fun k hk => ?_, fun _ h => (by cases h), fun _ h => by cases h⟩
    cases hk
    exact hc _ rfl
  | _ => exact .other rfl

omit [DecidableEq I] in
/-- What the answer to a query leaves of a sign-in. -/
theorem traced_resume {p q : Point} {r : Reply p} {d : Database} (hc : Continues C p r q)
    (ht : Traced tr d ⟨p, some r⟩) : Traced tr d ⟨q, none⟩ := by
  cases hc with
  | signIn k | signInEmail k | signInCreate attempt row k err | signInWinner attempt row k err =>
    exact ⟨ht.called, ht.missed, fun _ h => by cases h⟩
  | _ => exact .other rfl

/-- **One step** keeps every link and leaves every handler traced. -/
theorem linked_step (hs : Step C s a o s') (hI : Linked tr s) : Linked (tr ++ [⟨s, a, o, s'⟩]) s' := by
  have hkeep : ∀ subject id, s.shared.owner subject = some id → s'.shared.owner subject = some id :=
    fun _ _ => owner_step hs
  have hmono : ∀ {t}, Traced tr s.shared t → Traced (tr ++ [⟨s, a, o, s'⟩]) s'.shared t :=
    fun h => h.mono (List.subset_append_left _ _) hkeep
  refine ⟨fun e he subject id ho => ?_, fun i t htask => ?_⟩
  · rcases List.mem_append.mp he with he | he
    · exact hkeep _ _ (hI.kept e he subject id ho)
    · cases List.mem_singleton.mp he
      exact hkeep _ _ ho
  · rcases Tasks.mem_tasks hs htask with h | ⟨p, x, -, hp, rfl, hk⟩ | ⟨d, u, p, hb, hn, rfl, -⟩
    · exact hmono (hI.traced i t h)
    · rw [hk]
      exact (traced_exec hI (hI.traced i _ hp) x rfl).mono (List.subset_append_left _ _) fun _ _ h => h
    · cases hb with
      | start req hm =>
        have hn : (start C req (s.node i).loc).next = .await p := hn
        refine traced_start hn fun k hk => ?_
        exact ⟨_, List.mem_append_right _ (List.mem_singleton_self _), i, hk ▸ hm⟩
      | resume pre post q r hm hc =>
        have hn : (resume C q r (s.node i).loc).next = .await p := hn
        exact hmono (traced_resume (resume_continues hn) (hI.traced i _ (Office.replied_mem hm)))
      | enter q rest hm hq hfree => exact nomatch q

/-! ## Sign-ins -/

/-- What a sign-in returns: the user that its subject is linked to, and nothing else; and it returns that user unless the
lookup failed, or the subject was linked to nobody when the sign-in was called. -/
structure SignsIn (tr : List (Event I)) (e : Event I) : Prop where
  owner : ∀ i p r k user token sent, e.pre.replied e.act = some (i, ⟨p, r⟩) → p.signIn? = some k →
    e.out = some (i, sent) → .session user token ∈ sent → e.pre.shared.owner k.identity.subject = some user.id
  returns : ∀ i p r k, e.pre.replied e.act = some (i, ⟨p, r⟩) → p.signIn? = some k →
    (∃ user token, e.out = some (i, [.session user token])) ∨ lookupFails ⟨p, some r⟩ = true ∨
      ∃ x ∈ tr, Calls k x ∧ x.pre.shared.owner k.identity.subject = none

/-- **One step** answers a sign-in with the user that the subject is linked to. -/
theorem signsIn_step (hs : Step C s a o s') (hI : Linked tr s) : SignsIn tr ⟨s, a, o, s'⟩ where
  owner i p r k user token sent hr hp ho hsent := by
    obtain ⟨d, -, -, hout, -⟩ := Tasks.replied_step hs hr
    have ht := hI.traced i _ (Office.replied_mem hr)
    rw [show o = some (i, sent) from ho] at hout
    cases hout
    cases resume_answers hsent with
    | refuses p r x hx => cases hx
    | signIn k' user | signInCreate attempt row k' user | signInWinner k' user =>
      cases hp
      exact ht.found (k, user) rfl
    | _ => cases hp
  returns i p r k hr hp := by
    obtain ⟨d, -, -, hout, -⟩ := Tasks.replied_step hs hr
    have ht := hI.traced i _ (Office.replied_mem hr)
    cases p with
    | signIn k' =>
      cases hp
      rcases r with _ | _ | user
      · exact Or.inr (Or.inl rfl)
      · exact Or.inr (Or.inr (ht.missed k rfl))
      · exact Or.inl ⟨user, _, hout⟩
    | signInEmail k' | signInCreate attempt row k' | signInWinner k' =>
      cases hp
      exact Or.inr (Or.inr (ht.missed k rfl))
    | _ => cases hp

/-! ## Conversions -/

omit [DecidableEq I] in
/-- A user has been converted once if it has been a guest and is none now, and never otherwise. -/
structure Once (id : String) (tr : List (Event I)) (d : Database) : Prop where
  count : tr.countP (converts id) = (decide (d.standing id = some false) && tr.any (wasGuest id)).toNat
  absent : d.standing id = none → tr.any (wasGuest id) = false

omit [DecidableEq I] in
theorem once_nil (id : String) (d : Database) : Once id ([] : List (Event I)) d := ⟨by simp, fun _ => rfl⟩

/-- **One step** converts no user a second time. -/
theorem once_step (hs : Step C s a o s') {id : String} (hI : Once id tr s.shared) :
    Once id (tr ++ [⟨s, a, o, s'⟩]) s'.shared := by
  have hcases : s'.shared.standing id = s.shared.standing id ∨ s.shared.standing id = none ∨
      s.shared.standing id = some true ∧ s'.shared.standing id = some false := by
    rcases accounts_shared hs with ⟨i, p, r, -, hw⟩ | ⟨-, hk⟩
    · exact (hw.standing id).imp_right (Or.imp_right And.right)
    · rw [hk]
      exact Or.inl rfl
  have hcount : (tr ++ [(⟨s, a, o, s'⟩ : Event I)]).countP (converts id) =
      tr.countP (converts id) + (converts id (⟨s, a, o, s'⟩ : Event I)).toNat := by
    rw [List.countP_append, List.countP_singleton]
    cases converts id (⟨s, a, o, s'⟩ : Event I) <;> rfl
  have hany : (tr ++ [(⟨s, a, o, s'⟩ : Event I)]).any (wasGuest id) =
      (tr.any (wasGuest id) || decide (s.shared.standing id = some true)) := by
    simp [wasGuest]
  have hconv : converts id (⟨s, a, o, s'⟩ : Event I) =
      (decide (s.shared.standing id = some true) && decide (s'.shared.standing id = some false)) :=
    Bool.decide_and _ _
  obtain ⟨hI, habsent⟩ := hI
  rcases hcases with heq | hnone | ⟨hguest, hfull⟩
  · refine ⟨?_, fun h => ?_⟩
    · rw [hcount, hany, hconv, hI, heq]
      rcases s.shared.standing id with _ | _ | _ <;> simp
    · rw [heq] at h
      rw [hany, habsent h, h]
      rfl
  · have hnever := habsent hnone
    refine ⟨?_, fun _ => ?_⟩
    · rw [hcount, hany, hconv, hI, hnever, hnone]
      simp
    · rw [hany, hnever, hnone]
      rfl
  · refine ⟨?_, fun h => ?_⟩
    · rw [hcount, hany, hconv, hI, hguest, hfull]
      simp
    · rw [hfull] at h
      cases h

/-- A guest is converted by the update of a claim or by the update that links it, and not by both. -/
theorem converts_step (hs : Step C s a o s') {id : String} (h : converts id (⟨s, a, o, s'⟩ : Event I) = true) :
    links id (⟨s, a, o, s'⟩ : Event I) = !claims id (⟨s, a, o, s'⟩ : Event I) := by
  obtain ⟨hguest, hfull⟩ := of_decide_eq_true h
  have hguest : s.shared.standing id = some true := hguest
  have hfull : s'.shared.standing id = some false := hfull
  rcases accounts_shared hs with ⟨i, p, r, hx, hw⟩ | ⟨-, hk⟩
  · have hq : p.query.converts id = true := by
      rcases hw.standing id with heq | hnone | ⟨hq, -⟩
      · rw [hfull, hguest] at heq
        cases heq
      · rw [hguest] at hnone
        cases hnone
      · exact hq
    cases p with
    | claimUpdate k hash => simp [links, claims, hx, of_decide_eq_true hq]
    | guestUpdate userId attempt username k => simp [links, claims, hx, of_decide_eq_true hq]
    | _ => cases hq
  · rw [hk, hguest] at hfull
    cases hfull

/-- **One step** leaves a full account its name, its address and its standing, and its password unless that is set. -/
theorem full_step (hs : Step C s a o s') {u : User} (hu : u ∈ s.shared.user) (hg : u.isGuest = false) :
    ∃ v ∈ s'.shared.user, v.id = u.id ∧ v.username = u.username ∧ v.email = u.email ∧ v.isGuest = false ∧
      (v.password = u.password ∨ setsPassword u.id (⟨s, a, o, s'⟩ : Event I) = true) := by
  rcases accounts_shared hs with ⟨i, p, r, hx, hw⟩ | ⟨-, hk⟩
  · obtain ⟨v, hv, hname, hmail, hfull, hpass⟩ := hw.kept_full (Database.findUser_iff.mpr ⟨hu, rfl⟩) hg
    obtain ⟨hmem, hid⟩ := Database.findUser_iff.mp hv
    refine ⟨v, hmem, hid, hname, hmail, hfull, hpass.imp_right ?_⟩
    rintro ⟨hash, hq⟩
    cases p with
    | setPasswordUpdate k hash' =>
      obtain ⟨hid', -⟩ := Query.setPassword.inj hq
      simp [setsPassword, hx, hid']
    | _ => cases hq
  · rw [hk]
    exact ⟨u, hu, rfl, rfl, rfl, hg, Or.inl rfl⟩

end Steps

/-! ## The result -/

/-- **What linking does to identities**, over a run. A Google subject has one row and stays with its user, a sign-in
returns that user, a full account keeps what it is, and a guest is converted once, by a claim or by a link. -/
structure IdentityStays {I : Type} [DecidableEq I] (C : Config) (ops : List (Action I)) : Prop where
  unique : ∀ x ∈ ((machine I C).run ops).shared.oauthAccount, ∀ y ∈ ((machine I C).run ops).shared.oauthAccount,
    x.provider = y.provider → x.providerAccountId = y.providerAccountId → x = y
  stays : ∀ as, as <+: ops → ∀ subject id, ((machine I C).run as).shared.owner subject = some id →
    ((machine I C).run ops).shared.owner subject = some id
  signIn : Machine.Always SignsIn ((machine I C).trace ops)
  full : ∀ e ∈ (machine I C).trace ops, ∀ u ∈ e.pre.shared.user, u.isGuest = false →
    ∃ v ∈ e.post.shared.user, v.id = u.id ∧ v.username = u.username ∧ v.email = u.email ∧ v.isGuest = false ∧
      (v.password = u.password ∨ setsPassword u.id e = true)
  once : ∀ id, ((machine I C).trace ops).countP (converts id) ≤ 1
  converted : ∀ id, (∃ e ∈ (machine I C).trace ops, wasGuest id e = true) →
    ((machine I C).run ops).shared.standing id = some false → ((machine I C).trace ops).countP (converts id) = 1
  either : ∀ e ∈ (machine I C).trace ops, ∀ id, converts id e = true → links id e = !claims id e

section Runs

variable {I : Type} [DecidableEq I] {C : Config}

theorem linked_run (ops : List (Action I)) :
    Linked ((machine I C).trace ops) ((machine I C).run ops) ∧ Machine.Always SignsIn ((machine I C).trace ops) := by
  refine (machine I C).invariant (I := fun tr s => Linked tr s ∧ Machine.Always SignsIn tr) ⟨⟨?_, ?_⟩, ?_⟩ ?_ ops
  · exact fun _ h => absurd h List.not_mem_nil
  · exact fun _ _ h => absurd h List.not_mem_nil
  · exact fun n h => absurd h (Nat.not_lt_zero n)
  · rintro tr s a ⟨hI, hall⟩
    have hs : Step C s a _ _ := Tasks.step_cases (accounts C) s a
    exact ⟨linked_step hs hI, Machine.always_snoc.mpr ⟨hall, signsIn_step hs hI⟩⟩

theorem once_run (id : String) (ops : List (Action I)) :
    Once id ((machine I C).trace ops) ((machine I C).run ops).shared :=
  (machine I C).invariant (I := fun tr s => Once id tr s.shared) (once_nil id _)
    (fun _ s a hI => once_step (Tasks.step_cases (accounts C) s a) hI) ops

theorem owner_run {as ops : List (Action I)} (h : as <+: ops) {subject id : String}
    (ho : ((machine I C).run as).shared.owner subject = some id) :
    ((machine I C).run ops).shared.owner subject = some id := by
  obtain ⟨bs, rfl⟩ := h
  induction bs using List.reverseRecOn with
  | nil => rwa [List.append_nil]
  | append_singleton bs b ih =>
    rw [← List.append_assoc, Machine.run_snoc]
    exact owner_step (Tasks.step_cases (accounts C) _ b) ih

/-- **Linking never moves an identity.** -/
theorem identity_stays (C : Config) (ops : List (Action I)) : IdentityStays C ops where
  unique x hx y hy hp ha := by
    by_contra hne
    exact ((machine I C).run ops).shared.accounts.forall hx hy hne ⟨hp, ha⟩
  stays as h subject id ho := owner_run h ho
  signIn := (linked_run ops).2
  full e he u hu hg := by
    obtain ⟨bs, b, -, rfl⟩ := (machine I C).mem_trace he
    exact full_step (Tasks.step_cases (accounts C) _ b) hu hg
  once id := by
    rw [(once_run id ops).count]
    exact Bool.toNat_le _
  converted id h hfull := by
    rw [(once_run id ops).count, hfull, List.any_eq_true.mpr h]
    rfl
  either e he id h := by
    obtain ⟨bs, b, -, rfl⟩ := (machine I C).mem_trace he
    exact converts_step (Tasks.step_cases (accounts C) _ b) h

end Runs

end Account
end WatchParty
