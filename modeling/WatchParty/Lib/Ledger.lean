import Mathlib.Data.List.Count
import Mathlib.Data.List.Perm.Subperm
import WatchParty.Lib.Cluster

/-!
# Requests that are accounted for

Some requests of a cluster owe a conclusion: their program emits it as it ends, or hands the request over with a command
whose reply says so, and then ends in silence. A request is known by its tag. On every node, what was begun of a tag is
what is still held, and what was handed over, and what was concluded.

- `Ledger` says which requests owe, and which replies hand over; `begun`, `handed`, `concluded` are a trace's records;
- `Settling` is what a segment of such a program may leave;
- `Accounted.step` is the conservation law over one step, `tally_le` adds the nodes up.
-/

/-- Which requests owe a conclusion, under which tag, and which replies say that a request was handed over. -/
structure Ledger (S : Iface) (R T : Type) where
  tag : R → Option T
  passes : (c : S.Cmd) → S.Reply c → Bool

namespace Ledger

variable {S : Iface} {I K R X E T : Type} (L : Ledger S R T)

/-- The command of the flight was executed, and has handed the request over. -/
def passed (f : Flight S R) : Bool :=
  match f.reply with
  | none => false
  | some r => L.passes f.cmd r

variable [DecidableEq T]

/-- How many requests of a tag a node holds. -/
def holding (n : Node S R) (t : T) : ℕ :=
  n.conn.countP (fun f => decide (L.tag f.req = some t) && !L.passed f) +
    n.waiting.countP fun y => decide (L.tag y.req = some t)

variable [DecidableEq S.Lane]

/-- What a segment leaves of a request that owes: the program has ended, in silence exactly when the request had been
handed over, or it waits, and has emitted nothing. -/
inductive Settling (handed : Bool) (n : Node S R) (req : R) (es : List S.Emit) : Node S R → Prop
  | paid (n' : Node S R) (hc : n'.conn = n.conn) (hw : n'.waiting = n.waiting) (h : handed = true ↔ es = []) :
      Settling handed n req es n'
  | asked (n' : Node S R) (f : Flight S R) (hc : n'.conn = n.conn ++ [f]) (hw : n'.waiting = n.waiting)
      (hreq : f.req = req) (hreply : f.reply = none) (h : handed = false) (hes : es = []) :
      Settling handed n req es n'
  | waits (n' : Node S R) (y : Waiter S R) (hc : n'.conn = n.conn) (hw : n'.waiting = n.waiting ++ [y])
      (hreq : y.req = req) (h : handed = false) (hes : es = []) : Settling handed n req es n'

omit [DecidableEq S.Lane] in
/-- What the node holds after a segment of a request that owes: the request, unless it has been handed over or
concluded. -/
theorem Settling.holding {handed : Bool} {n n' : Node S R} {req : R} {es : List S.Emit} {t : T}
    (h : Settling handed n req es n') :
    L.holding n' t + (if L.tag req = some t ∧ (handed = true ∨ es ≠ []) then 1 else 0) =
      L.holding n t + if L.tag req = some t then 1 else 0 := by
  cases h with
  | paid hc hw h =>
    have hor : handed = true ∨ es ≠ [] := by
      by_cases hes : es = []
      · exact Or.inl (h.mpr hes)
      · exact Or.inr hes
    simp only [Ledger.holding, hc, hw, hor, and_true]
  | asked f hc hw hreq hreply hh hes =>
    subst hreq
    have hp : L.passed f = false := by rw [passed, hreply]
    simp only [Ledger.holding, hc, hw, hh, hes, List.countP_append, List.countP_singleton, hp]
    by_cases ht : L.tag f.req = some t
    · simp [ht]
      omega
    · simp [ht]
  | waits y hc hw hreq hh hes =>
    subst hreq
    simp only [Ledger.holding, hc, hw, hh, hes, List.countP_append, List.countP_singleton]
    by_cases ht : L.tag y.req = some t
    · simp [ht]
      omega
    · simp [ht]

/-- A segment of a request that owes nothing changes nothing. -/
theorem holding_resume {n n' : Node S R} {req : R} {held : List S.Lane} {p : Prog S Unit} {es : List S.Emit} {t : T}
    (h : n.resume req held p = (n', es)) (ht : L.tag req ≠ some t) : L.holding n' t = L.holding n t := by
  cases Node.resumed_free h with
  | ended loc held' h => rfl
  | asked loc f hreq hreply hheld h hcall hok =>
    have hf : L.tag f.req ≠ some t := hreq ▸ ht
    simp [Ledger.holding, List.countP_append, hf]
  | waits loc y hreq hheld h hok =>
    have hy : L.tag y.req ≠ some t := hreq ▸ ht
    simp [Ledger.holding, List.countP_append, hy]

/-! ## Programs that settle -/

section Settle

variable {C : Type} {Γ : Contract S C} {Q : Frame S C → Prop}

/-- What a segment of a program leaves that keeps the contract and ends in `Q`: it has ended there, or waits and will
end there. -/
inductive Advanced (Γ : Contract S C) (Q : Frame S C → Prop) (req : R) (x : C) (n : Node S R) (es : List S.Emit) :
    Node S R → Prop
  | ended (loc : S.Loc) (held : List S.Lane) (h : Q ⟨x, held, es, loc⟩) : Advanced Γ Q req x n es { n with loc := loc }
  | asked (loc : S.Loc) (f : Flight S R) (hreq : f.req = req) (hreply : f.reply = none) (h : Γ.ends ⟨x, f.held, es, loc⟩)
      (hcall : Γ.calls ⟨x, f.held, es, loc⟩ f.cmd) (hok : Γ.Awaits x f.held f.cmd f.rest fun _ φ => Q φ) :
      Advanced Γ Q req x n es { n with loc := loc, conn := n.conn ++ [f] }
  | waits (loc : S.Loc) (y : Waiter S R) (hreq : y.req = req) (h : Γ.ends ⟨x, y.held, es, loc⟩)
      (hok : Γ.Waits x y.held y.lane y.rest fun _ φ => Q φ) :
      Advanced Γ Q req x n es { n with loc := loc, waiting := n.waiting ++ [y] }

/-- **A segment of a program that will end in `Q`.** -/
theorem Advanced.of_wp {n n' : Node S R} {req : R} {x : C} {held : List S.Lane} {p : Prog S Unit} {es : List S.Emit}
    (h : n.resume req held p = (n', es)) (hp : Γ.wp p ⟨x, held, [], n.loc⟩ fun _ φ => Q φ) :
    Advanced Γ Q req x n es n' := by
  have hs := Contract.wp_segment p _ hp
  unfold Node.resume at h
  obtain ⟨rfl, rfl⟩ := Prod.mk.inj h
  simp only at hs ⊢
  generalize p.segment held n.loc = s at hs ⊢
  obtain ⟨loc, sent, held', stop⟩ := s
  obtain ⟨-, hs⟩ := hs
  cases stop with
  | ended a => exact .ended loc held' hs
  | asking c k => exact .asked loc ⟨req, held', c, none, k⟩ rfl rfl hs.1 hs.2.1 hs.2.2
  | waiting l k => exact .waits loc ⟨req, held', l, k⟩ rfl hs.1 hs.2

/-- A program that waits only while it has not handed its request over and has emitted nothing, and ends in silence
exactly when it has, settles. -/
theorem Advanced.settling {n n' : Node S R} {req : R} {x : C} {es : List S.Emit} (handed : C → Bool)
    (h : Advanced Γ Q req x n es n') (hends : ∀ φ, Γ.ends φ → handed φ.ctx = false ∧ φ.sent = [])
    (hQ : ∀ φ, Q φ → (handed φ.ctx = true ↔ φ.sent = [])) : Settling (handed x) n req es n' := by
  cases h with
  | ended loc held h => exact .paid _ rfl rfl (hQ _ h)
  | asked loc f hreq hreply h hcall hok => exact .asked _ f rfl rfl hreq hreply (hends _ h).1 (hends _ h).2
  | waits loc y hreq h hok => exact .waits _ y rfl rfl hreq (hends _ h).1 (hends _ h).2

end Settle

/-! ## The records of a trace -/

/-- An event of a cluster. -/
abbrev Event (S : Iface) (I K R X E : Type) := Machine.Event (Cluster S I K R) (Label S I R X E) (Obs S I R)

/-- The request whose segment an event runs, and its node. -/
def ran? (e : Event S I K R X E) : Option (I × R) :=
  match e.act with
  | .start i r => some (i, r)
  | .deliver i => (e.pre.node i).conn.head?.map fun f => (i, f.req)
  | .grant i l => ((e.pre.node i).waiting.dropWhile fun y => decide (y.lane ≠ l)).head?.map fun y => (i, y.req)
  | _ => none

/-- The request that an event begins. -/
def begun? (e : Event S I K R X E) : Option (I × T) :=
  match e.act with
  | .start i r => (L.tag r).map fun t => (i, t)
  | _ => none

/-- The request that the command that an event executes hands over. -/
def handed? (e : Event S I K R X E) : Option (I × T) :=
  match e.out with
  | .executed i req c r => if L.passes c r = true then (L.tag req).map fun t => (i, t) else none
  | _ => none

/-- The request that an event concludes. -/
def concluded? (e : Event S I K R X E) : Option (I × T) :=
  match e.out with
  | .sent _ (_ :: _) => (ran? e).bind fun p => (L.tag p.2).map fun t => (p.1, t)
  | _ => none

def begun (tr : List (Event S I K R X E)) : List (I × T) := tr.filterMap L.begun?
def handed (tr : List (Event S I K R X E)) : List (I × T) := tr.filterMap L.handed?
def concluded (tr : List (Event S I K R X E)) : List (I × T) := tr.filterMap L.concluded?

/-- How often a tag is in a record, on whatever nodes. -/
def tally (l : List (I × T)) (t : T) : ℕ := l.countP fun p => decide (p.2 = t)

/-- What is of a tag, by node. -/
theorem count_filter_tag [DecidableEq I] (l : List (I × T)) (t : T) (p : I × T) :
    (l.filter fun p => decide (p.2 = t)).count p = if p.2 = t then l.count p else 0 := by
  by_cases h : p.2 = t
  · rw [if_pos h, List.count_filter (by simpa using h)]
  · rw [if_neg h, List.count_eq_zero]
    exact fun hm => h (by simpa using (List.mem_filter.mp hm).2)

/-- Where a record has no more of a tag than another, on every node, it has no more over all. -/
theorem tally_le [DecidableEq I] {l l' : List (I × T)} {t : T} (h : ∀ i, l.count (i, t) ≤ l'.count (i, t)) :
    tally l t ≤ tally l' t := by
  unfold tally
  rw [List.countP_eq_length_filter, List.countP_eq_length_filter]
  refine (List.subperm_ext_iff.mpr fun p _ => ?_).length_le
  rw [count_filter_tag, count_filter_tag]
  obtain ⟨i, u⟩ := p
  by_cases hu : u = t
  · subst hu
    simpa using h i
  · simp [hu]

theorem tally_append (l l' : List (I × T)) (t : T) : tally (l ++ l') t = tally l t + tally l' t := List.countP_append

/-- How often a tag is in a record of a trace, one event later. -/
theorem tally_snoc {A : Type} (f : A → Option (I × T)) (tr : List A) (e : A) (t : T) :
    tally ((tr ++ [e]).filterMap f) t = tally (tr.filterMap f) t + if (f e).map Prod.snd = some t then 1 else 0 := by
  rw [List.filterMap_append, tally_append, Nat.add_left_cancel_iff]
  cases h : f e with
  | none => simp [h, tally]
  | some p => simp [h, tally, List.countP_cons]

/-! ## The law -/

section Law

variable [DecidableEq I] {sys : System S I K R X E} {s : Cluster S I K R} {a : Label S I R X E}

/-- A step that loses nothing: no node reconnects, rejects what it waits for or restarts. -/
def steady (a : Label S I R X E) : Bool :=
  match a with
  | .reconnect _ => false
  | .reject _ => false
  | .restart _ => false
  | _ => true

variable (sys s a) in
/-- What the segment of a step leaves, if it is of a request that owes. -/
structure Settles : Prop where
  start : ∀ j r n es, a = .start j r → (s.node j).resume r [] (sys.program j r) = (n, es) → (L.tag r).isSome →
    Settling false (s.node j) r es n
  deliver : ∀ j f rest r n es, a = .deliver j → (s.node j).conn = f :: rest → f.reply = some r →
    Node.resume { s.node j with conn := rest } f.req f.held (f.rest r) = (n, es) → (L.tag f.req).isSome →
    Settling (L.passes f.cmd r) { s.node j with conn := rest } f.req es n
  grant : ∀ j y pre post n es, (s.node j).waiting = pre ++ y :: post →
    Node.resume { s.node j with waiting := pre ++ post } y.req (y.lane :: y.held) y.rest = (n, es) →
    (L.tag y.req).isSome → Settling false { s.node j with waiting := pre ++ post } y.req es n

variable (sys s) in
/-- What a turn that is given does, with the program that has waited longest for it. -/
theorem grant_step (i : I) (l : S.Lane) :
    sys.step s (.grant i l) = (s, .nothing) ∨
    ∃ pre y post n es, (s.node i).waiting.dropWhile (fun y => decide (y.lane ≠ l)) = y :: post ∧
      (s.node i).waiting = pre ++ y :: post ∧
      Node.resume { s.node i with waiting := pre ++ post } y.req (y.lane :: y.held) y.rest = (n, es) ∧
      sys.step s (.grant i l) = (s.put i n, .sent i es) := by
  simp only [System.step]
  split
  · exact Or.inl rfl
  · rename_i y post hd
    obtain ⟨hw, -, hl⟩ := System.split_dropWhile hd
    have hy : y.lane = l := by simpa using hl
    subst hy
    split
    · exact Or.inl rfl
    · exact Or.inr ⟨_, y, post, _, _, hd, hw, rfl, rfl⟩

variable (sys s) in
/-- What the execution of a command does. -/
theorem exec_step (i : I) (x : X) :
    sys.step s (.exec i x) = (s, .nothing) ∨
    ∃ pre post f r k, (s.node i).conn = pre ++ f :: post ∧ f.reply = none ∧
      sys.step s (.exec i x) =
        ({ s with shared := k }.put i { s.node i with conn := pre ++ f.answer r :: post }, .executed i f.req f.cmd r) := by
  simp only [System.step]
  split
  · exact Or.inl rfl
  · rename_i f post hd
    obtain ⟨hc, -, hf⟩ := System.split_dropWhile hd
    exact Or.inr ⟨_, post, f, _, _, hc, by simpa using hf, rfl⟩

variable (sys s) in
/-- What the delivery of a reply does. -/
theorem deliver_step (i : I) :
    sys.step s (.deliver i) = (s, .nothing) ∨
    ∃ f rest r n es, (s.node i).conn = f :: rest ∧ f.reply = some r ∧
      Node.resume { s.node i with conn := rest } f.req f.held (f.rest r) = (n, es) ∧
      sys.step s (.deliver i) = (s.put i n, .sent i es) := by
  simp only [System.step]
  split
  · exact Or.inl rfl
  · rename_i f rest hc
    split
    · exact Or.inl rfl
    · rename_i r hf
      exact Or.inr ⟨f, rest, r, _, _, hc, hf, rfl, rfl⟩

/-- A segment of a request, on a node that does not hold it: what the node holds afterwards, and what is concluded. -/
theorem holding_segment {n n' : Node S R} {req : R} {held : List S.Lane} {p : Prog S Unit} {es : List S.Emit}
    {handed : Bool} {t : T} (h : n.resume req held p = (n', es))
    (hs : (L.tag req).isSome → Settling handed n req es n') :
    L.holding n' t + (if L.tag req = some t ∧ es ≠ [] then 1 else 0) =
      L.holding n t + if L.tag req = some t ∧ handed = false then 1 else 0 := by
  by_cases ht : L.tag req = some t
  · have hsettle := hs (by rw [ht]; rfl)
    have hhold := hsettle.holding L (t := t)
    have hsilent : handed = true → es = [] := by
      intro hh
      cases hsettle with
      | paid hc hw hp => exact hp.mp hh
      | asked f hc hw hreq hreply hf hes => exact hes
      | waits y hc hw hreq hf hes => exact hes
    cases handed with
    | true =>
      simp only [ht, hsilent rfl, true_and, ne_eq, not_true_eq_false, if_false, Bool.true_eq_false, true_or,
        and_self, if_true, Nat.add_right_cancel_iff] at hhold ⊢
      omega
    | false => simpa only [ht, true_and, Bool.false_eq_true, false_or, and_true, if_true] using hhold
  · rw [L.holding_resume h ht]
    simp only [ht, false_and, if_false]

omit [DecidableEq T] [DecidableEq I] in
/-- What an event that runs a segment concludes. -/
theorem concluded_iff {e : Event S I K R X E} {j i : I} {r : R} {es : List S.Emit} {t : T} (hran : ran? e = some (j, r))
    (hout : e.out = .sent j es) : L.concluded? e = some (i, t) ↔ j = i ∧ L.tag r = some t ∧ es ≠ [] := by
  simp only [concluded?, hout, hran]
  cases es with
  | nil => simp
  | cons b es =>
    simp only [Option.bind_some, Option.map_eq_some_iff, Prod.mk.injEq, ne_eq, reduceCtorEq, not_false_eq_true, and_true]
    exact ⟨fun ⟨_, h, hj, ht⟩ => ⟨hj, ht ▸ h⟩, fun ⟨hj, h⟩ => ⟨t, h, hj, rfl⟩⟩

omit [DecidableEq T] [DecidableEq I] in
/-- An event that emits nothing concludes nothing. -/
theorem concluded_of_unsent {e : Event S I K R X E} (h : ∀ j es, e.out ≠ .sent j es) : L.concluded? e = none := by
  unfold concluded?
  split
  · rename_i j b es he
    exact absurd he (h j (b :: es))
  · rfl

/-- The law for an event that runs a segment of `r` on the node `j`, which is `n₀` without the request. -/
theorem holding_ran {e : Event S I K R X E} {j : I} {r : R} {es : List S.Emit} {n₀ n' : Node S R} {handed : Bool} {t : T}
    (hran : ran? e = some (j, r)) (hout : e.out = .sent j es) (hpost : e.post = e.pre.put j n')
    (hseg : L.holding n' t + (if L.tag r = some t ∧ es ≠ [] then 1 else 0) =
      L.holding n₀ t + if L.tag r = some t ∧ handed = false then 1 else 0)
    (hpre : L.holding n₀ t + (if L.tag r = some t ∧ handed = false then 1 else 0) =
      L.holding (e.pre.node j) t + if L.begun? e = some (j, t) then 1 else 0)
    (hother : ∀ i, i ≠ j → L.begun? e ≠ some (i, t)) (i : I) :
    L.holding (e.post.node i) t + (if L.handed? e = some (i, t) then 1 else 0) +
        (if L.concluded? e = some (i, t) then 1 else 0) =
      L.holding (e.pre.node i) t + if L.begun? e = some (i, t) then 1 else 0 := by
  have hh : L.handed? e ≠ some (i, t) := by
    rw [handed?, hout]
    exact fun h => by cases h
  rw [if_neg hh, hpost, Cluster.put_node]
  by_cases hij : i = j
  · subst hij
    have hc : L.concluded? e = some (i, t) ↔ L.tag r = some t ∧ es ≠ [] := by
      rw [L.concluded_iff hran hout]
      exact and_iff_right rfl
    simp only [hc, if_true]
    exact hseg.trans hpre
  · have hc : L.concluded? e ≠ some (i, t) := fun h => hij ((L.concluded_iff hran hout).mp h).1.symm
    simp only [if_neg hij, if_neg hc, if_neg (hother i hij)]

omit [DecidableEq T] [DecidableEq I] [DecidableEq S.Lane] in
/-- An event that starts nothing begins nothing. -/
theorem begun_of_ne {e : Event S I K R X E} (h : ∀ i r, e.act ≠ .start i r) : L.begun? e = none := by
  unfold begun?
  split
  · rename_i i r ha
    exact absurd ha (h i r)
  · rfl

/-- The law for an event that shows nothing and leaves the nodes. -/
theorem holding_still {e : Event S I K R X E} (hact : ∀ i r, e.act ≠ .start i r) (hout : e.out = .nothing)
    (hpost : e.post.node = e.pre.node) (i : I) (t : T) :
    L.holding (e.post.node i) t + (if L.handed? e = some (i, t) then 1 else 0) +
        (if L.concluded? e = some (i, t) then 1 else 0) =
      L.holding (e.pre.node i) t + if L.begun? e = some (i, t) then 1 else 0 := by
  simp only [handed?, concluded?, L.begun_of_ne hact, hout, hpost, reduceCtorEq, if_false]

omit [DecidableEq S.Lane] in
/-- The law for the execution of a command: what hands the request over is not held any more. -/
theorem holding_exec {n : Node S R} {pre post : List (Flight S R)} {f : Flight S R} (hc : n.conn = pre ++ f :: post)
    (hf : f.reply = none) (r : S.Reply f.cmd) (t : T) :
    L.holding { n with conn := pre ++ f.answer r :: post } t +
        (if L.tag f.req = some t ∧ L.passes f.cmd r = true then 1 else 0) = L.holding n t := by
  have hp : L.passed f = false := by rw [passed, hf]
  have hp' : L.passed (f.answer r) = L.passes f.cmd r := rfl
  simp only [holding, hc, List.countP_append, List.countP_cons, hp, hp', Flight.answer_req]
  by_cases ht : L.tag f.req = some t
  · cases L.passes f.cmd r with
    | true =>
      simp [ht]
      omega
    | false => simp [ht]
  · simp [ht]

/-- **One step conserves what a node was asked**: what it held and what it begins is what it holds, hands over and
concludes. -/
theorem holding_step (ha : steady a = true) (hs : L.Settles sys s a) (i : I) (t : T) :
    L.holding ((sys.machine.event s a).post.node i) t +
        (if L.handed? (sys.machine.event s a) = some (i, t) then 1 else 0) +
        (if L.concluded? (sys.machine.event s a) = some (i, t) then 1 else 0) =
      L.holding ((sys.machine.event s a).pre.node i) t +
        if L.begun? (sys.machine.event s a) = some (i, t) then 1 else 0 := by
  cases a with
  | start j r =>
    obtain ⟨n, es, hr⟩ : ∃ n es, (s.node j).resume r [] (sys.program j r) = (n, es) := ⟨_, _, rfl⟩
    have hb : ∀ i, L.begun? (sys.machine.event s (.start j r)) = some (i, t) ↔ j = i ∧ L.tag r = some t := by
      intro i
      show (L.tag r).map (fun t => (j, t)) = some (i, t) ↔ _
      rw [Option.map_eq_some_iff]
      simp only [Prod.mk.injEq]
      exact ⟨fun ⟨_, h, hj, ht⟩ => ⟨hj, ht ▸ h⟩, fun ⟨hj, h⟩ => ⟨t, h, hj, rfl⟩⟩
    have hran : ran? (sys.machine.event s (.start j r)) = some (j, r) := rfl
    have hout : (sys.machine.event s (.start j r)).out = .sent j es := by
      show Obs.sent j ((s.node j).resume r [] (sys.program j r)).2 = _
      rw [hr]
    have hpost : (sys.machine.event s (.start j r)).post = s.put j n := by
      show s.put j ((s.node j).resume r [] (sys.program j r)).1 = _
      rw [hr]
    refine L.holding_ran hran hout hpost (L.holding_segment hr fun h => hs.start j r n es rfl hr h) ?_
      (fun i hij h => hij ((hb i).mp h).1.symm) i
    simp only [hb, true_and, and_true, Machine.event_pre]
  | exec j x =>
    rcases exec_step sys s j x with he | ⟨pre, post, f, r, k, hc, hf, he⟩
    · exact L.holding_still (fun _ _ h => by cases h) (congrArg Prod.snd he)
        (congrArg (fun p => Cluster.node p.1) he) i t
    · have hout : (sys.machine.event s (.exec j x)).out = .executed j f.req f.cmd r := congrArg Prod.snd he
      have hnode : (sys.machine.event s (.exec j x)).post.node i =
          if i = j then { s.node j with conn := pre ++ f.answer r :: post } else s.node i := by
        rw [show (sys.machine.event s (.exec j x)).post = _ from congrArg Prod.fst he, Cluster.put_node]
      have hconc : L.concluded? (sys.machine.event s (.exec j x)) = none := by simp only [concluded?, hout]
      have hb : L.begun? (sys.machine.event s (.exec j x)) = none := rfl
      have hh : L.handed? (sys.machine.event s (.exec j x)) = some (i, t) ↔
          j = i ∧ L.tag f.req = some t ∧ L.passes f.cmd r = true := by
        simp only [handed?, hout]
        cases L.passes f.cmd r with
        | false => simp
        | true =>
          simp only [if_true, Option.map_eq_some_iff, Prod.mk.injEq, and_true]
          exact ⟨fun ⟨_, h, hj, ht⟩ => ⟨hj, ht ▸ h⟩, fun ⟨hj, h⟩ => ⟨t, h, hj, rfl⟩⟩
      simp only [hnode, hb, hconc, hh, Machine.event_pre, reduceCtorEq, if_false, Nat.add_zero]
      by_cases hj : i = j
      · subst hj
        simpa only [if_true, true_and] using L.holding_exec hc hf r t
      · simp only [if_neg hj, Ne.symm hj, false_and, if_false, Nat.add_zero]
  | deliver j =>
    rcases deliver_step sys s j with he | ⟨f, rest, r, n, es, hc, hf, hn, he⟩
    · exact L.holding_still (fun _ _ h => by cases h) (congrArg Prod.snd he)
        (congrArg (fun p => Cluster.node p.1) he) i t
    · have hran : ran? (sys.machine.event s (.deliver j)) = some (j, f.req) := by
        simp only [ran?, Machine.event_act, Machine.event_pre, hc, List.head?_cons, Option.map_some]
      refine L.holding_ran hran (congrArg Prod.snd he) (congrArg Prod.fst he)
        (L.holding_segment hn fun h => hs.deliver j f rest r n es rfl hc hf hn h) ?_ (fun i hij h => by cases h) i
      have hb : L.begun? (sys.machine.event s (.deliver j)) = none := rfl
      have hp : L.passed f = L.passes f.cmd r := by rw [passed, hf]
      simp only [hb, holding, Machine.event_pre, hc, List.countP_cons, hp, reduceCtorEq, if_false]
      by_cases ht : L.tag f.req = some t
      · cases L.passes f.cmd r with
        | true => simp [ht]
        | false =>
          simp [ht]
          omega
      · simp [ht]
  | grant j l =>
    rcases grant_step sys s j l with he | ⟨pre, y, post, n, es, hd, hw, hn, he⟩
    · exact L.holding_still (fun _ _ h => by cases h) (congrArg Prod.snd he)
        (congrArg (fun p => Cluster.node p.1) he) i t
    · have hran : ran? (sys.machine.event s (.grant j l)) = some (j, y.req) := by
        simp only [ran?, Machine.event_act, Machine.event_pre, hd, List.head?_cons, Option.map_some]
      refine L.holding_ran hran (congrArg Prod.snd he) (congrArg Prod.fst he)
        (L.holding_segment hn fun h => hs.grant j y pre post n es hw hn h) ?_ (fun i hij h => by cases h) i
      have hb : L.begun? (sys.machine.event s (.grant j l)) = none := rfl
      simp only [hb, holding, Machine.event_pre, hw, List.countP_append, List.countP_cons, reduceCtorEq, if_false]
      by_cases ht : L.tag y.req = some t
      · simp [ht]
        omega
      · simp [ht]
  | reconnect j => cases ha
  | reject j => cases ha
  | restart j => cases ha
  | env e => exact L.holding_still (fun _ _ h => by cases h) rfl rfl i t

/-- A record of a trace, one event later. -/
theorem count_snoc {A B : Type} [BEq B] [LawfulBEq B] [DecidableEq B] (f : A → Option B) (tr : List A) (e : A) (b : B) :
    ((tr ++ [e]).filterMap f).count b = (tr.filterMap f).count b + if f e = some b then 1 else 0 := by
  rw [List.filterMap_append, List.count_append, Nat.add_left_cancel_iff]
  cases h : f e with
  | none => simp [h]
  | some b' =>
    by_cases hb : b' = b
    · simp [h, hb]
    · simp [h, hb]

/-- What a trace has begun of a tag on a node is what the node holds, has handed over and has concluded. -/
def Accounted (tr : List (Event S I K R X E)) (s : Cluster S I K R) : Prop :=
  ∀ i t, (L.begun tr).count (i, t) =
    L.holding (s.node i) t + (L.handed tr).count (i, t) + (L.concluded tr).count (i, t)

theorem Accounted.init (sys : System S I K R X E) : L.Accounted ([] : List (Event S I K R X E)) sys.init :=
  fun _ _ => rfl

/-- **The books stay balanced.** -/
theorem Accounted.step {tr : List (Event S I K R X E)} (h : L.Accounted tr s) (ha : steady a = true)
    (hs : L.Settles sys s a) : L.Accounted (tr ++ [sys.machine.event s a]) (sys.machine.event s a).post := by
  intro i t
  have hstep := L.holding_step ha hs i t
  have hpre := h i t
  unfold begun handed concluded at hpre ⊢
  rw [count_snoc, count_snoc, count_snoc, hpre]
  have hs : (sys.machine.event s a).pre = s := rfl
  rw [hs] at hstep
  omega

/-- Over all nodes, no more of a tag is handed over and concluded than was begun. -/
theorem Accounted.tally_le {tr : List (Event S I K R X E)} (h : L.Accounted tr s) (t : T) :
    tally (L.handed tr) t + tally (L.concluded tr) t ≤ tally (L.begun tr) t := by
  rw [← tally_append]
  refine Ledger.tally_le fun i => ?_
  rw [List.count_append, h i t]
  omega

/-- Where no node holds anything of a tag, what was begun of it was handed over or concluded. -/
theorem Accounted.tally_eq {tr : List (Event S I K R X E)} (h : L.Accounted tr s) {t : T}
    (hn : ∀ i, L.holding (s.node i) t = 0) :
    tally (L.begun tr) t = tally (L.handed tr) t + tally (L.concluded tr) t := by
  refine le_antisymm ?_ (h.tally_le L t)
  rw [← tally_append]
  refine Ledger.tally_le fun i => ?_
  rw [List.count_append, h i t, hn i]
  omega

end Law

end Ledger
