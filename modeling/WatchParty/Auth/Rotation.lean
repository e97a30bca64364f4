import Mathlib.Logic.Relation
import WatchParty.Auth.Mirror

/-!
# The rotation of a session

A refresh claims its token by creating the row of its jti, and only then mints a successor. Over every interleaving of
refreshes on any number of instances: who gets a successor, what it carries, and when it was asked for.

- `successor` is the token that a step returns, with the token that it succeeds;
- `Traced` is what the events so far say of a handler, `Single` how many handlers can still return a successor;
- `rotation_exclusive` is the result; `refreshed_late` the run in which the answer comes after the cap.
-/

namespace WatchParty
namespace Auth

/-- When the session of a token began. -/
def SessionToken.began (payload : SessionToken) : Option ℤ := payload.sess.or payload.iat

/-- The jti of a token. -/
def SessionToken.jti? (payload : SessionToken) : Option String := jtiOf payload.toTokenPayload

section Events

variable {I : Type}

/-- The token that a response succeeds, and its successor. -/
def Response.successor? : Response → Option (SessionToken × SessionToken)
  | .refreshed payload token => some (payload, token)
  | _ => none

/-- The successor that a step returns, with the token that it succeeds. -/
def successor (e : Event I) : Option (SessionToken × SessionToken) :=
  e.out.bind fun o => o.2.findSome? Response.successor?

/-- The event calls the refresh: it reads the clock, and the session is not too old. -/
def Calls (payload : SessionToken) (uuid : String) (e : Event I) : Prop :=
  ∃ i, e.act = .start i (.refreshSession payload uuid) ∧
    ((e.pre.node i).loc.clock / 1000 : ℕ) - sessionStart payload ((e.pre.node i).loc.clock / 1000 : ℕ) ≤ SESSION_MAX_S

/-- The event is the durable check of a refresh, and finds no row. -/
def Checks (jti : String) (payload : SessionToken) (uuid : String) (e : Event I) : Prop :=
  ∃ i k, e.pre.executed e.act = some (i, .findUnique jti k) ∧ k.payload = payload ∧ k.uuid = uuid ∧
    e.pre.shared.revoked jti = false

/-- What a handler has read of a refresh. -/
def Point.opening? : Point → Option Opening
  | .findUser o => some o
  | .findUnique _ k => some k.toOpening
  | .create _ k => some k.toOpening
  | .sadd _ (.rotation k) => some k.toOpening
  | .hset _ _ (.rotation k) => some k.toOpening
  | .publish _ (.rotation k) => some k.toOpening
  | _ => none

/-- The jti that a refresh looks up or claims. -/
def Point.claim? : Point → Option (String × Rotation)
  | .findUnique jti k => some (jti, k)
  | .create jti k => some (jti, k)
  | _ => none

/-- The refresh that has passed its durable check. -/
def passed? (t : Pending Reply) : Option Rotation :=
  match t with
  | ⟨.findUnique _ k, some (some false)⟩ => some k
  | ⟨.create _ k, _⟩ => some k
  | ⟨.sadd _ (.rotation k), _⟩ => some k
  | ⟨.hset _ _ (.rotation k), _⟩ => some k
  | ⟨.publish _ (.rotation k), _⟩ => some k
  | _ => none

/-- What the events so far say of a handler: it has been called, and has passed its durable check. -/
structure Traced (tr : List (Event I)) (t : Pending Reply) : Prop where
  start : ∀ o ∈ t.point.opening?, o.start = sessionStart o.payload o.nowS
  called : ∀ o ∈ t.point.opening?, ∃ e ∈ tr, Calls o.payload o.uuid e
  claim : ∀ q ∈ t.point.claim?, q.2.payload.jti? = some q.1
  checked : ∀ k ∈ passed? t, ∀ jti, k.payload.jti? = some jti → ∃ e ∈ tr, Checks jti k.payload k.uuid e

theorem Traced.mono {tr tr' : List (Event I)} {t : Pending Reply} (h : Traced tr t) (hs : tr ⊆ tr') : Traced tr' t where
  start := h.start
  called o ho := (h.called o ho).imp fun _ he => ⟨hs he.1, he.2⟩
  claim := h.claim
  checked k hk jti hj := (h.checked k hk jti hj).imp fun _ he => ⟨hs he.1, he.2⟩

/-- A handler of something else. -/
theorem Traced.other {tr : List (Event I)} {t : Pending Reply} (ho : t.point.opening? = none)
    (hc : t.point.claim? = none) (hp : passed? t = none) : Traced tr t where
  start o h := by
    rw [ho] at h
    cases h
  called o h := by
    rw [ho] at h
    cases h
  claim q h := by
    rw [hc] at h
    cases h
  checked k h := by
    rw [hp] at h
    cases h

end Events

section Steps

variable {expires : String → ℕ} {I : Type} [DecidableEq I] {lifetime : ℤ} {s s' : State I} {a : Action I} {o : Output I}
  {tr : List (Event I)}

omit [DecidableEq I] in
/-- A call is traced. -/
theorem start_traced {i : I} {req : Request} {p : Point} (h : (start req (s.node i).loc).next = .await p) :
    Traced (tr ++ [⟨s, .start i req, o, s'⟩]) ⟨p, none⟩ := by
  cases start_opens h with
  | findUser payload uuid userId nowS start hnow hstart hage =>
    refine ⟨?_, ?_, (fun _ h => by cases h), fun _ h => by cases h⟩
    · rintro o ⟨⟩
      exact hstart
    · rintro o ⟨⟩
      subst hnow hstart
      exact ⟨_, List.mem_append_right _ (List.mem_singleton_self _), i, rfl, hage⟩
  | _ => exact .other rfl rfl rfl

omit [DecidableEq I] in
/-- The execution of a command is traced: the durable check is what the handler has passed. -/
theorem exec_traced {i : I} {p : Point} (x : Choice) (hx : s.executed a = some (i, p))
    (h : Traced (tr ++ [⟨s, a, o, s'⟩]) ⟨p, none⟩) :
    Traced (tr ++ [⟨s, a, o, s'⟩]) ⟨p, some (exec p x s.shared).1⟩ := by
  refine ⟨h.start, h.called, h.claim, fun k hk jti hj => ?_⟩
  cases p with
  | findUnique jti' k' =>
    have hclaim : k'.payload.jti? = some jti' := h.claim (jti', k') rfl
    cases hr : (exec (.findUnique jti' k') x s.shared).1 with
    | none =>
      rw [hr] at hk
      cases hk
    | some revoked =>
      rw [hr] at hk
      cases revoked with
      | true => cases hk
      | false =>
        cases hk
        rw [hclaim] at hj
        cases hj
        refine ⟨_, List.mem_append_right _ (List.mem_singleton_self _), i, k, hx, rfl, rfl, ?_⟩
        have hr' : (if x = .fails then none else some (s.shared.revoked jti)) = some false := hr
        by_cases hx' : x = .fails
        · rw [if_pos hx'] at hr'
          cases hr'
        · rw [if_neg hx'] at hr'
          exact Option.some.inj hr'
  | create jti' k' => exact h.checked k hk jti hj
  | sadd jti' c | hset userId version c | publish ev c =>
    cases c with
    | rotation k' => exact h.checked k hk jti hj
    | _ => cases hk
  | _ => cases hk

omit [DecidableEq I] in
/-- A stretch after a reply is traced. -/
theorem resume_traced {p q : Point} {r : Reply p} {l : Instance} (h : Traced tr ⟨p, some r⟩)
    (hn : (resume lifetime p r l).next = .await q) : Traced tr ⟨q, none⟩ := by
  cases resume_continues hn with
  | won jti k => exact ⟨h.start, h.called, (fun _ h => by cases h), h.checked⟩
  | sadd jti c | hset userId version c =>
    cases c with
    | rotation k => exact ⟨h.start, h.called, (fun _ h => by cases h), h.checked⟩
    | _ => exact .other rfl rfl rfl
  | findUser k jti hj =>
    refine ⟨h.start, h.called, ?_, fun _ h => by cases h⟩
    rintro q ⟨⟩
    exact hj
  | findUnique jti k => exact ⟨h.start, h.called, h.claim, h.checked⟩
  | _ => exact .other rfl rfl rfl

/-- **One step** keeps every handler traced. -/
theorem traced_step (hs : Step lifetime s a o s') (hI : ∀ i, ∀ t ∈ (s.node i).tasks, Traced tr t) :
    ∀ i, ∀ t ∈ (s'.node i).tasks, Traced (tr ++ [⟨s, a, o, s'⟩]) t := by
  have hmeets := Tasks.meets_step (L := fun _ => True) (T := Traced (tr ++ [⟨s, a, o, s'⟩])) (P := fun _ => True) hs
    (fun i => ⟨trivial, fun t ht => (hI i t ht).mono (List.subset_append_left _ _), fun _ _ => trivial⟩)
    (fun i req ha _ => ⟨trivial, fun p hp => ha ▸ start_traced hp, fun _ _ => trivial⟩)
    (fun i n x p _ hx ht => exec_traced x hx ht)
    (fun i p r _ _ ht => ⟨trivial, fun q hq => resume_traced ht hq, fun _ _ => trivial⟩)
    (fun i q => nomatch q)
  exact fun i => (hmeets i).tasks

/-! ## What is returned -/

/-- Evicted sockets are told nothing of a refresh. -/
theorem notify_successor (ev : RevocationEvent) (l : Instance) :
    (notify ev l).2.findSome? Response.successor? = none := by
  rw [List.findSome?_eq_none_iff]
  intro r hr
  obtain ⟨e, -, rfl⟩ := List.mem_map.mp hr
  rfl

/-- A request is answered with no successor. -/
theorem start_successor (req : Request) (l : Instance) :
    (start req l).sent.findSome? Response.successor? = none := by
  cases req with
  | message ev =>
    simp only [start, applyEvent]
    split
    · rfl
    · exact notify_successor ev _
  | refresh =>
    simp only [start]
    split <;> rfl
  | refreshSession payload uuid =>
    simp only [start, refreshSession]
    split
    · rfl
    · split <;> rfl
  | handshake id nsp payload =>
    simp only [start]
    split <;> rfl
  | expirySweep =>
    rw [List.findSome?_eq_none_iff]
    intro r hr
    obtain ⟨e, -, rfl⟩ := List.mem_map.mp hr
    rfl
  | _ => rfl

/-- Is the successor of the token minted without a claim? -/
def Rotation.unclaimed (k : Rotation) : Bool :=
  (versionOf k.payload.toTokenPayload).any (k.user.tokenVersion ≤ ·) && k.payload.jti?.isNone

/-- The refresh that a reply completes: it has announced its claim, or its token has no jti. -/
def completed? (t : Pending Reply) : Option Rotation :=
  match t with
  | ⟨.publish _ (.rotation k), some _⟩ => some k
  | ⟨.findUser o, some (some (some user))⟩ => if Rotation.unclaimed ⟨o, user⟩ then some ⟨o, user⟩ else none
  | _ => none

theorem checkVersion_successor (k : Rotation) (l : Instance) :
    (checkVersion lifetime k l).sent.findSome? Response.successor? =
      (if k.unclaimed then some k else none).map fun k => (k.payload, issueToken lifetime k l) := by
  unfold checkVersion Rotation.unclaimed SessionToken.jti?
  split
  · rename_i hv
    rw [hv]
    split
    · rename_i hj
      rw [hj]
      rfl
    · rename_i jti hj
      rw [hj]
      rfl
  · rename_i hv
    rw [Bool.eq_false_iff.mpr hv]
    rfl

/-- A reply is answered with the successor of the token whose refresh it completes. -/
theorem resume_successor (p : Point) (r : Reply p) (l : Instance) :
    (resume lifetime p r l).sent.findSome? Response.successor? =
      (completed? ⟨p, some r⟩).map fun k => (k.payload, issueToken lifetime k l) := by
  cases p with
  | sadd jti c => exact notify_successor _ l
  | hset userId version c => exact notify_successor _ l
  | publish ev c => cases c <;> rfl
  | findUser o =>
    rcases r with _ | _ | user
    · rfl
    · rfl
    · exact checkVersion_successor _ l
  | findUnique jti k => rcases r with _ | _ | _ <;> rfl
  | rebuild tokens users => rfl
  | _ => cases r <;> rfl

/-- A successor that a step returns is that of a refresh that a reply completes. -/
theorem successor_from (hs : Step lifetime s a o s') {q : SessionToken × SessionToken}
    (hq : successor ⟨s, a, o, s'⟩ = some q) : ∃ i p r k, s.replied a = some (i, ⟨p, r⟩) ∧
      completed? ⟨p, some r⟩ = some k ∧ q = (k.payload, issueToken lifetime k (s.node i).loc) := by
  obtain ⟨⟨i, sent⟩, rfl, hsent⟩ := Option.bind_eq_some_iff.mp hq
  obtain ⟨d, u, hb, rfl, -⟩ := Tasks.sent_cases hs rfl
  cases hb with
  | start req hm =>
    have h := start_successor req (s.node i).loc
    rw [show (service lifetime).start = start from rfl] at hsent
    rw [h] at hsent
    cases hsent
  | resume pre post p r hm hc =>
    obtain ⟨k, hk, rfl⟩ := Option.map_eq_some_iff.mp ((resume_successor p r (s.node i).loc).symm.trans hsent)
    exact ⟨i, p, r, k, hm, hk, rfl⟩
  | enter q => exact nomatch q

/-- A refresh that is completed is at the point where it is, and has passed its durable check, or its token has no
jti. -/
theorem completed_cases {p : Point} {r : Reply p} {k : Rotation} (h : completed? ⟨p, some r⟩ = some k) :
    p.opening? = some k.toOpening ∧ (passed? ⟨p, some r⟩ = some k ∨ k.payload.jti? = none) := by
  unfold completed? at h
  split at h
  · rename_i heq
    cases heq
    cases h
    exact ⟨rfl, Or.inl rfl⟩
  · rename_i o user heq
    cases heq
    split at h
    · rename_i hu
      cases h
      refine ⟨rfl, Or.inr ?_⟩
      unfold Rotation.unclaimed at hu
      rw [Bool.and_eq_true] at hu
      exact Option.isNone_iff_eq_none.mp hu.2
    · cases h
  · cases h

/-! ## One handler that can still return a successor -/

/-- Has the handler claimed this jti? -/
def holds (jti : String) (t : Pending Reply) : Bool :=
  match t with
  | ⟨.create jti' _, some .won⟩ => jti' = jti
  | ⟨.sadd _ (.rotation k), _⟩ => k.payload.jti? = some jti
  | ⟨.hset _ _ (.rotation k), _⟩ => k.payload.jti? = some jti
  | ⟨.publish _ (.rotation k), _⟩ => k.payload.jti? = some jti
  | _ => false

/-- Is this the successor of a token with this jti? -/
def succeeds (jti : String) (q : SessionToken × SessionToken) : Bool := q.1.jti? = some jti

/-- A request claims nothing. -/
theorem start_holds (jti : String) (req : Request) (l : Instance) :
    ((start req l).next.point?.any fun p => holds jti ⟨p, none⟩) = false := by
  cases hn : (start req l).next with
  | await p => cases start_opens hn <;> rfl
  | _ => rfl

theorem checkVersion_holds (jti : String) (k : Rotation) (l : Instance) :
    ((checkVersion lifetime k l).next.point?.any fun p => holds jti ⟨p, none⟩) = false := by
  unfold checkVersion
  split
  · split
    · rw [answer_next]
      rfl
    · rfl
  · rfl

omit [DecidableEq I] in
/-- After a reply, a handler holds a jti or returns a successor only if it held the jti before. -/
theorem resume_holds (jti : String) {p : Point} {r : Reply p} (l : Instance) (ht : Traced tr ⟨p, some r⟩) :
    ((resume lifetime p r l).next.point?.any fun p => holds jti ⟨p, none⟩).toNat +
      (((completed? ⟨p, some r⟩).map fun k => (k.payload, issueToken lifetime k l)).any (succeeds jti)).toNat ≤
        (holds jti ⟨p, some r⟩).toNat := by
  cases p with
  | create jti' k =>
    have hclaim : k.payload.jti? = some jti' := ht.claim (jti', k) rfl
    cases r with
    | won =>
      simp only [resume, awaits, Next.point?, Option.any_some, holds, completed?, Option.map_none, Option.any_none,
        hclaim, Option.some.injEq, Bool.toNat_false, add_zero, le_refl]
    | taken => exact le_rfl
    | threw => exact le_rfl
  | sadd jti' c | hset userId version c => cases c <;> exact le_rfl
  | publish ev c =>
    simp only [resume, answer_next]
    cases c with
    | rotation k => exact (Nat.zero_add _).le
    | _ => exact le_rfl
  | findUser o =>
    rcases r with _ | _ | user
    · exact le_rfl
    · exact le_rfl
    · simp only [resume, checkVersion_holds, completed?]
      split
      · rename_i hu
        unfold Rotation.unclaimed at hu
        rw [Bool.and_eq_true] at hu
        have hj := Option.isNone_iff_eq_none.mp hu.2
        simp [succeeds, hj]
      · exact Nat.zero_le _
  | findUnique jti' k => rcases r with _ | _ | _ <;> exact le_rfl
  | _ => cases r <;> exact le_rfl

/-- A command makes a handler hold a jti only by creating its row, where there is none. -/
theorem exec_holds (jti : String) (p : Point) (x : Choice) (s : Store) :
    holds jti ⟨p, some (exec p x s).1⟩ = holds jti ⟨p, none⟩ ∨
      holds jti ⟨p, none⟩ = false ∧ s.revoked jti = false ∧ (exec p x s).2.revoked jti = true := by
  cases p with
  | create jti' k =>
    by_cases hj : jti' = jti
    · subst hj
      simp only [exec]
      split
      · exact Or.inl rfl
      · split
        · exact Or.inl rfl
        · rename_i hr
          split
          · exact Or.inr ⟨rfl, by simpa using hr, by simp [Store.revoked, Rotation.row]⟩
          · exact Or.inl rfl
    · left
      cases (exec (.create jti' k) x s).1 with
      | won => exact decide_eq_false hj
      | taken => rfl
      | threw => rfl
  | sadd jti' c | hset userId version c | publish ev c => exact Or.inl (by cases c <;> rfl)
  | _ => exact Or.inl rfl

/-- Of the handlers of all instances at most one holds a jti or has returned a successor, and none where the jti has no
row. -/
structure Single (jti : String) (tr : List (Event I)) (s : State I) : Prop where
  absent : s.shared.revoked jti = false →
    (∀ i, (s.node i).tasks.countP (holds jti) = 0) ∧ (tr.filterMap successor).countP (succeeds jti) = 0
  single : ∃ i, (∀ j, j ≠ i → (s.node j).tasks.countP (holds jti) = 0) ∧
    (s.node i).tasks.countP (holds jti) + (tr.filterMap successor).countP (succeeds jti) ≤ 1

omit [DecidableEq I] in
/-- How many successors have been returned after one more event. -/
theorem returned_snoc (jti : String) (e : Event I) :
    ((tr ++ [e]).filterMap successor).countP (succeeds jti) =
      (tr.filterMap successor).countP (succeeds jti) + ((successor e).any (succeeds jti)).toNat := by
  rw [List.filterMap_append, List.countP_append]
  cases hq : successor e with
  | none => simp [hq]
  | some q => cases hj : succeeds jti q <;> simp [hq, hj]

/-- What a step does to the handlers that hold a jti: one creates its row, where there was none; or there are no more
than before, and where a successor is returned there is one fewer. -/
theorem holders_step (jti : String) (hs : Step lifetime s a o s') (hI : ∀ i, ∀ t ∈ (s.node i).tasks, Traced tr t) :
    (∃ i, s.shared.revoked jti = false ∧ s'.shared.revoked jti = true ∧
      (∀ j, j ≠ i → (s'.node j).tasks.countP (holds jti) = (s.node j).tasks.countP (holds jti)) ∧
      (s'.node i).tasks.countP (holds jti) = (s.node i).tasks.countP (holds jti) + 1 ∧ successor ⟨s, a, o, s'⟩ = none) ∨
    (∀ j, (s'.node j).tasks.countP (holds jti) ≤ (s.node j).tasks.countP (holds jti)) ∧
      (successor ⟨s, a, o, s'⟩ = none ∨ ∃ i, (s'.node i).tasks.countP (holds jti) +
        ((successor ⟨s, a, o, s'⟩).any (succeeds jti)).toNat ≤ (s.node i).tasks.countP (holds jti)) := by
  have hput : ∀ {k : Store} {i : I} {d : Desk Instance Empty Reply},
      d.tasks.countP (holds jti) ≤ (s.node i).tasks.countP (holds jti) →
      ∀ j, (({ s with shared := k } : State I).put i d |>.node j).tasks.countP (holds jti) ≤
        (s.node j).tasks.countP (holds jti) :=
    fun hd => Office.forall_put (P := fun j d => d.tasks.countP (holds jti) ≤ (s.node j).tasks.countP (holds jti)) hd
      fun _ => le_rfl
  cases hs with
  | start i req =>
    refine Or.inr ⟨hput (k := s.shared) ?_, Or.inl (start_successor req _)⟩
    rw [Desk.countP_after, show (service lifetime).start = start from rfl, start_holds]
    exact le_rfl
  | exec i n x pre post p hn hc =>
    have hset : ∀ r, (pre ++ (⟨p, r⟩ : Pending Reply) :: post).countP (holds jti) =
        pre.countP (holds jti) + post.countP (holds jti) + (holds jti ⟨p, r⟩).toNat := by
      intro r
      cases hr : holds jti ⟨p, r⟩ <;> simp [hr, Nat.add_assoc]
    have hbefore := hset none
    rw [← hc] at hbefore
    rcases exec_holds jti p x s.shared with heq | ⟨hnone, habsent, hpresent⟩
    · refine Or.inr ⟨hput ?_, Or.inl rfl⟩
      exact (((hset _).trans (congrArg (_ + Bool.toNat ·) heq)).trans hbefore.symm).le
    · rw [hnone] at hbefore
      by_cases hyes : holds jti ⟨p, some (exec p x s.shared).1⟩ = true
      · refine Or.inl ⟨i, habsent, hpresent, fun j hj => by rw [Office.put_of_ne _ hj], ?_, rfl⟩
        rw [Office.put_self, hbefore]
        exact (hset _).trans (congrArg (_ + Bool.toNat ·) hyes)
      · refine Or.inr ⟨hput ?_, Or.inl rfl⟩
        rw [hbefore]
        exact ((hset _).trans (congrArg (_ + Bool.toNat ·) (Bool.eq_false_iff.mpr hyes))).le
  | deliver i n pre post p r hn hc =>
    have ht : Traced tr ⟨p, some r⟩ := hI i _ (by rw [hc]; exact List.mem_append_right _ List.mem_cons_self)
    have hholds : ((resume lifetime p r (s.node i).loc).next.point?.any fun p => holds jti ⟨p, none⟩).toNat + _ ≤ _ :=
      resume_holds jti (s.node i).loc ht
    have hsucc : successor ⟨s, .deliver i n, some (i, (resume lifetime p r (s.node i).loc).sent),
        s.put i (Desk.after { s.node i with tasks := pre ++ post } (resume lifetime p r (s.node i).loc))⟩ =
        (completed? ⟨p, some r⟩).map fun k => (k.payload, issueToken lifetime k (s.node i).loc) :=
      resume_successor p r _
    have hafter : (Desk.after { s.node i with tasks := pre ++ post } (resume lifetime p r (s.node i).loc)).tasks.countP
          (holds jti) +
        (((completed? ⟨p, some r⟩).map fun k => (k.payload, issueToken lifetime k (s.node i).loc)).any
          (succeeds jti)).toNat ≤ (s.node i).tasks.countP (holds jti) := by
      rw [Desk.countP_after, hc, List.countP_append, List.countP_append, List.countP_cons, Nat.add_assoc]
      have hbool : (if holds jti ⟨p, some r⟩ = true then 1 else 0) = (holds jti ⟨p, some r⟩).toNat := by
        cases holds jti ⟨p, some r⟩ <;> rfl
      omega
    refine Or.inr ⟨hput (k := s.shared) ?_, Or.inr ⟨i, ?_⟩⟩
    · exact (Nat.le_add_right _ _).trans hafter
    · rw [Office.put_self]
      exact hsucc ▸ hafter
  | enter i q => exact nomatch q
  | env e => exact Or.inr ⟨fun j => le_rfl, Or.inl rfl⟩
  | idle m hm hx hr => exact Or.inr ⟨fun j => le_rfl, Or.inl rfl⟩

/-- **One step** keeps a jti with one holder, as long as it does not delete the row. -/
theorem holders_kept {jti : String} (hs : Step lifetime s a o s') (hI : ∀ i, ∀ t ∈ (s.node i).tasks, Traced tr t)
    (hrow : s.shared.revoked jti = true → s'.shared.revoked jti = true) (h : Single jti tr s) :
    Single jti (tr ++ [⟨s, a, o, s'⟩]) s' := by
  obtain ⟨i₀, hother, hone⟩ := h.single
  rcases holders_step jti hs hI with ⟨i, habsent, hpresent, hsame, hi, hnone⟩ | ⟨hle, hret⟩
  · obtain ⟨hzero, hret⟩ := h.absent habsent
    refine ⟨fun hr => ?_, i, fun j hj => (hsame j hj).trans (hzero j), ?_⟩
    · rw [hpresent] at hr
      cases hr
    · rw [returned_snoc, hnone, hi, hzero, hret]
      exact le_rfl
  · have hnew : ∀ i, (s.node i).tasks.countP (holds jti) = 0 →
        (s'.node i).tasks.countP (holds jti) + ((successor ⟨s, a, o, s'⟩).any (succeeds jti)).toNat ≤
          (s.node i).tasks.countP (holds jti) → ((successor ⟨s, a, o, s'⟩).any (succeeds jti)).toNat = 0 := by
      intro i hz hi
      omega
    refine ⟨fun hr => ?_, i₀, fun j hj => Nat.eq_zero_of_le_zero ((hle j).trans (hother j hj).le), ?_⟩
    · have habsent : s.shared.revoked jti = false := by
        by_contra hn
        rw [hrow (by simpa using hn)] at hr
        cases hr
      obtain ⟨hzero, hback⟩ := h.absent habsent
      refine ⟨fun j => Nat.eq_zero_of_le_zero ((hle j).trans (hzero j).le), ?_⟩
      rw [returned_snoc, hback]
      rcases hret with hnone | ⟨i, hi⟩
      · rw [hnone]
        rfl
      · rw [hnew i (hzero i) hi]
    · rw [returned_snoc]
      rcases hret with hnone | ⟨i, hi⟩
      · rw [hnone]
        exact (Nat.add_le_add_right (hle i₀) _).trans hone
      · by_cases hi₀ : i = i₀
        · subst hi₀
          omega
        · rw [hnew i (hother i hi₀) hi]
          exact (Nat.add_le_add_right (hle i₀) _).trans hone

/-- A step keeps the row of a token that is valid by some clock. -/
theorem row_kept (hs : Step lifetime s a o s') (hd : DeletesExpired expires ⟨s, a, o, s'⟩) {jti : String}
    (halive : Alive expires s (.token jti)) (hrow : s.shared.revoked jti = true) : s'.shared.revoked jti = true := by
  obtain ⟨i, hi⟩ := halive
  exact (grows_step hs hd i).revoked jti hi hrow

end Steps

/-- What is said of a returned successor: its refresh was called, when the session was not too old, and its durable
check found no row. -/
def Proper {I : Type} (tr : List (Event I)) (q : SessionToken × SessionToken) : Prop :=
  ∃ uuid, q.2.jti = some (.str uuid) ∧ (∃ e ∈ tr, Calls q.1 uuid e) ∧
    ∀ jti ∈ q.1.jti?, ∃ e ∈ tr, Checks jti q.1 uuid e

section Runs

variable {expires : String → ℕ} {I : Type} [DecidableEq I] {lifetime : ℤ} {s s' : State I} {a : Action I} {o : Output I}
  {tr : List (Event I)}

/-- **A successor that a step returns** is proper, and carries the session start of its token. -/
theorem successor_proper (hs : Step lifetime s a o s') (hI : ∀ i, ∀ t ∈ (s.node i).tasks, Traced tr t)
    {q : SessionToken × SessionToken} (hq : successor ⟨s, a, o, s'⟩ = some q) :
    Proper tr q ∧ ∀ t, q.1.began = some t → q.2.began = some t := by
  obtain ⟨i, p, r, k, hr, hk, rfl⟩ := successor_from hs hq
  have ht := hI i _ (Office.replied_mem hr)
  obtain ⟨hopen, hpassed⟩ := completed_cases hk
  refine ⟨⟨k.uuid, rfl, ht.called k.toOpening hopen, fun jti hj => ?_⟩, fun t hbegan => ?_⟩
  · rcases hpassed with hpassed | hnone
    · exact ht.checked k hpassed jti hj
    · rw [hnone] at hj
      cases hj
  · have hstart : k.start = t := by
      rw [ht.start k.toOpening hopen, sessionStart, show k.payload.sess.or k.payload.iat = some t from hbegan]
      rfl
    rw [← hstart]
    rfl

/-- What a run keeps. -/
structure Rotated (tr : List (Event I)) (s : State I) : Prop where
  traced : ∀ i, ∀ t ∈ (s.node i).tasks, Traced tr t
  proper : Machine.Always (fun tr e => ∀ q ∈ successor e, Proper tr q) tr
  began : ∀ q ∈ tr.filterMap successor, ∀ t, q.1.began = some t → q.2.began = some t

theorem rotated_init (lifetime : ℤ) : Rotated [] (machine I lifetime).init where
  traced _ _ h := absurd h List.not_mem_nil
  proper _ h := absurd h (Nat.not_lt_zero _)
  began _ h := absurd h List.not_mem_nil

/-- **One step** returns only proper successors. -/
theorem rotated_step (hs : Step lifetime s a o s') (h : Rotated tr s) : Rotated (tr ++ [⟨s, a, o, s'⟩]) s' where
  traced := traced_step hs h.traced
  proper := Machine.always_snoc.mpr ⟨h.proper, fun _ hq => (successor_proper hs h.traced hq).1⟩
  began q hq := by
    rw [List.filterMap_append, List.mem_append] at hq
    rcases hq with hq | hq
    · exact h.began q hq
    · obtain ⟨e, he, hq⟩ := List.mem_filterMap.mp hq
      cases List.mem_singleton.mp he
      exact (successor_proper hs h.traced hq).2

/-- What holds of the rotations of a run: as long as a token with a jti is valid by the clock of some instance, at most
one refresh of it has returned a successor; every successor is that of a refresh whose durable check found no row, and
that was called within the age limit of the session; and every token that refreshes lead to carries the session start of
the root. -/
structure Exclusive (expires : String → ℕ) (lifetime : ℤ) (ops : List (Action I)) : Prop where
  once : ∀ jti, Alive expires ((machine I lifetime).run ops) (.token jti) →
    (((machine I lifetime).trace ops).filterMap successor).countP (succeeds jti) ≤ 1
  proper : Machine.Always (fun tr e => ∀ q ∈ successor e, Proper tr q) ((machine I lifetime).trace ops)
  began : ∀ root t, root.began = some t → ∀ token,
    Relation.ReflTransGen (fun p q => (p, q) ∈ ((machine I lifetime).trace ops).filterMap successor) root token →
      token.began = some t

end Runs

/-- **Session rotation is exclusive and bounded**, over any number of instances, where rows are deleted only after
expiry. -/
theorem rotation_exclusive {I : Type} [DecidableEq I] (lifetime : ℤ) (expires : String → ℕ) (ops : List (Action I))
    (h : ∀ e ∈ (machine I lifetime).trace ops, DeletesExpired expires e) : Exclusive expires lifetime ops := by
  have hrot : Rotated ((machine I lifetime).trace ops) ((machine I lifetime).run ops) :=
    (machine I lifetime).invariant (I := Rotated) (rotated_init lifetime)
      (fun tr s a hI => rotated_step ((service lifetime).step_cases s a) hI) ops
  refine ⟨fun jti halive => ?_, hrot.proper, fun root t hroot token hlead => ?_⟩
  · have hsingle := (machine I lifetime).invariant_forall (P := DeletesExpired expires)
      (I := fun tr s => Rotated tr s ∧ (Alive expires s (.token jti) → Single jti tr s))
      ⟨rotated_init lifetime, fun ⟨i, _⟩ => ⟨fun _ => ⟨fun _ => rfl, rfl⟩, i, fun _ _ => rfl, Nat.zero_le 1⟩⟩
      (fun tr s a hc ⟨hI, hS⟩ => by
        have hs := (service lifetime).step_cases s a
        refine ⟨rotated_step hs hI, fun halive => ?_⟩
        have halive' := alive_step hs halive
        exact holders_kept hs hI.traced (row_kept hs hc halive') (hS halive'))
      ops h
    obtain ⟨i, -, hone⟩ := (hsingle.2 halive).single
    omega
  · induction hlead with
    | refl => exact hroot
    | tail _ hstep ih => exact hrot.began _ hstep t ih

/-- A token whose session began at zero, and that is valid a little longer than the session may last. -/
def lastToken : SessionToken :=
  { sub := some (.str "ann"), jti := some (.str "t"), ver := some (.num ⟨false, 0, [], none⟩), sess := some 0,
    iat := some 2548900, exp := some 2592100 }

/-- A refresh of the token on an instance, up to the creation of the row. -/
def refreshing (i : Bool) (uuid : String) : List (Action Bool) :=
  [.start i (.refreshSession lastToken uuid), .exec i 0 .done, .deliver i 0, .exec i 0 .done, .deliver i 0]

/-- The creation of the row, and the rest of the refresh. -/
def claiming (i : Bool) : List (Action Bool) :=
  [.exec i 0 .done, .deliver i 0, .exec i 0 .done, .deliver i 0, .exec i 0 .done, .deliver i 0]

/-- An account, and the clocks of both instances when the session is as old as it may be. -/
def aged : List (Action Bool) :=
  [.env (.register "ann" "ann"), .start false (.clock 2592000000), .start true (.clock 2592000000)]

/-- Two refreshes of the token, of which one claims it. -/
def refreshedTwice : List (Action Bool) :=
  aged ++ refreshing false "u" ++ refreshing true "v" ++ claiming false ++ claiming true

/-- One of them returns a successor. -/
theorem rotation_exclusive_twice : Exclusive (fun _ => 2592100000) 43200 refreshedTwice :=
  rotation_exclusive 43200 (fun _ => 2592100000) refreshedTwice (by decide +kernel)

example : (((machine Bool 43200).trace refreshedTwice).filterMap successor).length = 1 := by decide +kernel

/-- The same, but the database is slow to execute the second claim: the token expires and its row is deleted before. -/
def refreshedLate : List (Action Bool) :=
  aged ++ refreshing false "u" ++ refreshing true "v" ++ claiming false ++
    [.start false (.clock 2592101000), .start true (.clock 2592101000), .start false .sweep, .exec false 0 .done] ++
    claiming true

/-- Both refreshes return a successor, the second when the session is older than it may be. -/
theorem refreshed_late :
    (∀ e ∈ (machine Bool 43200).trace refreshedLate, DeletesExpired (fun _ => 2592100000) e) ∧
      (((machine Bool 43200).trace refreshedLate).filterMap successor).countP (succeeds "t") = 2 ∧
      ∃ e ∈ (machine Bool 43200).trace refreshedLate, (successor e).any (·.1.began = some 0) ∧
        e.out.map Prod.fst = some true ∧ SESSION_MAX_S < ((e.pre.node true).loc.clock / 1000 : ℕ) - 0 := by
  decide +kernel

end Auth
end WatchParty
