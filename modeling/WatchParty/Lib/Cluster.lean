import Mathlib.Data.List.Pairwise
import Mathlib.Data.List.Perm.Basic
import Mathlib.Data.List.TakeWhile
import Mathlib.Logic.Function.Basic
import WatchParty.Lib.Async
import WatchParty.Lib.Machine

/-!
# Clusters of nodes over a shared store

Nodes run asynchronous programs for requests. Each node sends its commands over one connection, which the store
executes in order, one at a time and atomically, and whose replies come back in order. A node that reconnects sends
its unanswered commands again, so a command whose reply was lost is executed again; a node that gives up rejects them,
which ends the programs that wait for them; a node that restarts forgets everything.

- `System.machine`: the runs, over any interleaving of any number of nodes;
- `System.step_cases`: everything one step can do;
- `System.ok_run`: when every program keeps its contract, so does every program that waits in a reachable state, and
  `resumed` says what its next segment does;
- `System.exclusive_run`: no two programs of a node are in one lane.
-/

section Cluster

variable (S : Iface) (I K R : Type)

/-- A command that was sent for a request: its reply once the store has executed it, and the program that waits. -/
structure Flight where
  req : R
  held : List S.Lane
  cmd : S.Cmd
  reply : Option (S.Reply cmd)
  rest : S.Reply cmd → Prog S Unit

/-- A program that waits for its turn in a lane. -/
structure Waiter where
  req : R
  held : List S.Lane
  lane : S.Lane
  rest : Prog S Unit

/-- A node: its local state, its connection (oldest command first) and the programs that wait for a lane. -/
structure Node where
  loc : S.Loc
  conn : List (Flight S R)
  waiting : List (Waiter S R)

structure Cluster where
  shared : K
  node : I → Node S R

/-- The programs of the nodes, the store's commands (which take a choice `X` of the store's own) and what else happens
to the store. -/
structure System (X E : Type) where
  loc : S.Loc
  shared : K
  exec : (c : S.Cmd) → X → K → S.Reply c × K
  program : I → R → Prog S Unit
  env : E → K → K

/-- One step: a request arrives, the store executes a node's next command, a node receives the reply to its oldest
command, a node gives a lane to the program that has waited longest for it, a node reconnects, rejects what it waits
for or restarts, or something else happens to the store. -/
inductive Label (X E : Type)
  | start (i : I) (r : R)
  | exec (i : I) (x : X)
  | deliver (i : I)
  | grant (i : I) (l : S.Lane)
  | reconnect (i : I)
  | reject (i : I)
  | restart (i : I)
  | env (e : E)

/-- What a step shows: what a node emitted, or what the store executed for it. -/
inductive Obs
  | sent (i : I) (es : List S.Emit)
  | executed (i : I) (req : R) (c : S.Cmd) (r : S.Reply c)
  | nothing

end Cluster

/-- The node at which a step happens. -/
def Label.node? {S : Iface} {I R X E : Type} : Label S I R X E → Option I
  | .start i _ => some i
  | .exec i _ => some i
  | .deliver i => some i
  | .grant i _ => some i
  | .reconnect i => some i
  | .reject i => some i
  | .restart i => some i
  | .env _ => none

/-- What a step emitted. -/
def Obs.emits {S : Iface} {I R : Type} : Obs S I R → List S.Emit
  | .sent _ es => es
  | .executed _ _ _ _ => []
  | .nothing => []

namespace Flight

variable {S : Iface} {R : Type}

/-- The store has executed the command. -/
def answer (f : Flight S R) (r : S.Reply f.cmd) : Flight S R := { f with reply := some r }

/-- The command is sent again. -/
def resend (f : Flight S R) : Flight S R := { f with reply := none }

@[simp] theorem answer_req (f : Flight S R) (r : S.Reply f.cmd) : (f.answer r).req = f.req := rfl
@[simp] theorem answer_held (f : Flight S R) (r : S.Reply f.cmd) : (f.answer r).held = f.held := rfl
@[simp] theorem answer_cmd (f : Flight S R) (r : S.Reply f.cmd) : (f.answer r).cmd = f.cmd := rfl
@[simp] theorem resend_req (f : Flight S R) : f.resend.req = f.req := rfl
@[simp] theorem resend_held (f : Flight S R) : f.resend.held = f.held := rfl
@[simp] theorem resend_cmd (f : Flight S R) : f.resend.cmd = f.cmd := rfl
@[simp] theorem resend_reply (f : Flight S R) : f.resend.reply = none := rfl

end Flight

variable {S : Iface} {I K R X E : Type}

namespace Cluster

variable [DecidableEq I]

def put (s : Cluster S I K R) (i : I) (n : Node S R) : Cluster S I K R :=
  { s with node := Function.update s.node i n }

@[simp] theorem put_shared (s : Cluster S I K R) (i : I) (n : Node S R) : (s.put i n).shared = s.shared := rfl

theorem put_node (s : Cluster S I K R) (i j : I) (n : Node S R) :
    (s.put i n).node j = if j = i then n else s.node j := by
  simp only [put, Function.update_apply]

@[simp] theorem put_node_self (s : Cluster S I K R) (i : I) (n : Node S R) : (s.put i n).node i = n := by
  rw [put_node, if_pos rfl]

theorem put_node_of_ne (s : Cluster S I K R) {i j : I} (h : j ≠ i) (n : Node S R) :
    (s.put i n).node j = s.node j := by
  rw [put_node, if_neg h]

end Cluster

variable [DecidableEq S.Lane]

namespace Node

/-- Does a waiting program hold the lane? -/
def holds (n : Node S R) (l : S.Lane) : Bool :=
  n.conn.any (fun f => decide (l ∈ f.held)) || n.waiting.any (fun y => decide (l ∈ y.held))

/-- The node after a program has run to where it waits or ends, and what it emitted. -/
def resume (n : Node S R) (req : R) (held : List S.Lane) (p : Prog S Unit) : Node S R × List S.Emit :=
  let s := p.segment held n.loc
  (match s.stop with
    | .ended _ => { n with loc := s.loc }
    | .asking c k => { n with loc := s.loc, conn := n.conn ++ [⟨req, s.held, c, none, k⟩] }
    | .waiting l k => { n with loc := s.loc, waiting := n.waiting ++ [⟨req, s.held, l, k⟩] }, s.sent)

end Node

/-! ## Programs that keep their contracts -/

section Contracts

variable {C : Type}

/-- The flight's program, which waits since the context `x₀`, keeps the contract from its reply on. -/
def Flight.OK (Γ : Contract S C) (x₀ : C) (f : Flight S R) : Prop :=
  Γ.Awaits x₀ f.held f.cmd f.rest fun _ φ => Γ.ends φ

/-- The waiter's program, which waits since the context `x₀`, keeps the contract from its turn on. -/
def Waiter.OK (Γ : Contract S C) (x₀ : C) (y : Waiter S R) : Prop :=
  Γ.Waits x₀ y.held y.lane y.rest fun _ φ => Γ.ends φ

/-- Every waiting program of the node keeps the contract of its request. -/
structure Node.OK (Γ : R → Contract S C) (n : Node S R) : Prop where
  flights : ∀ f ∈ n.conn, ∃ x₀, f.OK (Γ f.req) x₀
  waiters : ∀ y ∈ n.waiting, ∃ x₀, y.OK (Γ y.req) x₀

/-- What a segment for `req`, begun on `n` in context `x` under the lanes `held`, leaves and emits. -/
inductive Resumed (Γ : Contract S C) (req : R) (x : C) (held : List S.Lane) (n : Node S R) (es : List S.Emit) :
    Node S R → Prop
  | ended (loc : S.Loc) (held' : List S.Lane) (h : Γ.ends ⟨x, held', es, loc⟩) :
      Resumed Γ req x held n es { n with loc := loc }
  | asked (loc : S.Loc) (f : Flight S R) (hreq : f.req = req) (hreply : f.reply = none) (hheld : f.held ⊆ held)
      (h : Γ.ends ⟨x, f.held, es, loc⟩) (hcall : Γ.calls ⟨x, f.held, es, loc⟩ f.cmd) (hok : f.OK Γ x) :
      Resumed Γ req x held n es { n with loc := loc, conn := n.conn ++ [f] }
  | waits (loc : S.Loc) (y : Waiter S R) (hreq : y.req = req) (hheld : y.held ⊆ held)
      (h : Γ.ends ⟨x, y.held, es, loc⟩) (hok : y.OK Γ x) :
      Resumed Γ req x held n es { n with loc := loc, waiting := n.waiting ++ [y] }

variable {Γ : Contract S C} {req : R} {x : C} {held : List S.Lane} {n n' : Node S R} {es : List S.Emit}

/-- **A segment of a program that keeps its contract.** -/
theorem Node.resumed {p : Prog S Unit} (h : n.resume req held p = (n', es))
    (hp : Γ.wp p ⟨x, held, [], n.loc⟩ fun _ φ => Γ.ends φ) : Resumed Γ req x held n es n' := by
  have hs := Contract.wp_segment p _ hp
  unfold Node.resume at h
  obtain ⟨rfl, rfl⟩ := Prod.mk.inj h
  simp only at hs ⊢
  generalize p.segment held n.loc = s at hs ⊢
  obtain ⟨loc, sent, held', stop⟩ := s
  obtain ⟨hheld, hs⟩ := hs
  cases stop with
  | ended a => exact .ended loc held' hs
  | asking c k => exact .asked loc ⟨req, held', c, none, k⟩ rfl rfl hheld hs.1 hs.2.1 hs.2.2
  | waiting l k => exact .waits loc ⟨req, held', l, k⟩ rfl hheld hs.1 hs.2

/-- A segment ends as its contract says. -/
theorem Resumed.ends (h : Resumed Γ req x held n es n') : ∃ held', Γ.ends ⟨x, held', es, n'.loc⟩ := by
  cases h with
  | ended loc held' h => exact ⟨held', h⟩
  | asked loc f hreq hreply hheld h hcall hok => exact ⟨f.held, h⟩
  | waits loc y hreq hheld h hok => exact ⟨y.held, h⟩

/-- After a segment the connection is as it was, or has one more command that the contract allowed. -/
theorem Resumed.conn (h : Resumed Γ req x held n es n') :
    n'.conn = n.conn ∨ ∃ f : Flight S R, n'.conn = n.conn ++ [f] ∧ f.req = req ∧ f.reply = none ∧ f.held ⊆ held ∧
      Γ.calls ⟨x, f.held, es, n'.loc⟩ f.cmd := by
  cases h with
  | ended loc held' h => exact Or.inl rfl
  | asked loc f hreq hreply hheld h hcall hok => exact Or.inr ⟨f, rfl, hreq, hreply, hheld, hcall⟩
  | waits loc y hreq hheld h hok => exact Or.inl rfl

/-- A segment leaves programs that keep their contracts. -/
theorem Resumed.ok {Γ : R → Contract S C} (h : Resumed (Γ req) req x held n es n') (hn : n.OK Γ) : n'.OK Γ := by
  cases h with
  | ended loc held' h => exact ⟨hn.flights, hn.waiters⟩
  | asked loc f hreq hreply hheld h hcall hok =>
    refine ⟨fun g hg => ?_, hn.waiters⟩
    rcases List.mem_append.mp hg with hg | hg
    · exact hn.flights g hg
    · rw [List.mem_singleton.mp hg, hreq]
      exact ⟨x, hok⟩
  | waits loc y hreq hheld h hok =>
    refine ⟨hn.flights, fun z hz => ?_⟩
    rcases List.mem_append.mp hz with hz | hz
    · exact hn.waiters z hz
    · rw [List.mem_singleton.mp hz, hreq]
      exact ⟨x, hok⟩

/-- The segment of a reply that is delivered. -/
theorem Flight.OK.deliver {f : Flight S R} {x₀ : C} (hf : f.OK Γ x₀) {r : S.Reply f.cmd}
    (h : n.resume f.req f.held (f.rest r) = (n', es)) (hx₀ : Γ.later x₀ x)
    (hx : Γ.resumes x n.loc f.held f.cmd r) : Resumed Γ f.req x f.held n es n' :=
  Node.resumed h (hf x n.loc r hx₀ hx)

/-- The segment of a turn that is given. -/
theorem Waiter.OK.grant {y : Waiter S R} {x₀ : C} (hy : y.OK Γ x₀)
    (h : n.resume y.req (y.lane :: y.held) y.rest = (n', es)) (hx₀ : Γ.later x₀ x) (hx : Γ.begins x n.loc) :
    Resumed Γ y.req x (y.lane :: y.held) n es n' := Node.resumed h (hy x n.loc hx₀ hx)

namespace System

variable (sys : System S I K R X E)

/-- Every program keeps the contract of its request, and for every local state and reply there is a context in which
a segment may begin. -/
structure Keeps (Γ : I → R → Contract S C) : Prop where
  program : ∀ i r x loc, (Γ i r).begins x loc →
    (Γ i r).wp (sys.program i r) ⟨x, [], [], loc⟩ fun _ φ => (Γ i r).ends φ
  starts : ∀ i r loc, ∃ x, (Γ i r).begins x loc
  begins : ∀ i r x₀ loc, ∃ x, (Γ i r).later x₀ x ∧ (Γ i r).begins x loc
  resumes : ∀ i r x₀ loc held c a, ∃ x, (Γ i r).later x₀ x ∧ (Γ i r).resumes x loc held c a

variable {sys}

/-- The segment of a request that arrives. -/
theorem Keeps.start {Γ : I → R → Contract S C} (hk : sys.Keeps Γ) {i : I} {r : R} {n n' : Node S R}
    {es : List S.Emit} (h : n.resume r [] (sys.program i r) = (n', es)) {x : C} (hx : (Γ i r).begins x n.loc) :
    Resumed (Γ i r) r x [] n es n' := Node.resumed h (hk.program i r x n.loc hx)

end System

end Contracts

variable [DecidableEq I]

namespace System

variable (sys : System S I K R X E)

def idle : Node S R := ⟨sys.loc, [], []⟩

def init : Cluster S I K R := ⟨sys.shared, fun _ => sys.idle⟩

def step (s : Cluster S I K R) : Label S I R X E → Cluster S I K R × Obs S I R
  | .start i r =>
    let a := (s.node i).resume r [] (sys.program i r)
    (s.put i a.1, .sent i a.2)
  | .exec i x =>
    match (s.node i).conn.dropWhile (fun f => f.reply.isSome) with
    | [] => (s, .nothing)
    | f :: post =>
      let r := sys.exec f.cmd x s.shared
      let conn := (s.node i).conn.takeWhile (fun f => f.reply.isSome) ++ f.answer r.1 :: post
      ({ s with shared := r.2 }.put i { s.node i with conn := conn }, .executed i f.req f.cmd r.1)
  | .deliver i =>
    match (s.node i).conn with
    | [] => (s, .nothing)
    | f :: rest =>
      match f.reply with
      | none => (s, .nothing)
      | some r =>
        let a := { s.node i with conn := rest }.resume f.req f.held (f.rest r)
        (s.put i a.1, .sent i a.2)
  | .grant i l =>
    match (s.node i).waiting.dropWhile (fun y => decide (y.lane ≠ l)) with
    | [] => (s, .nothing)
    | y :: post =>
      if (s.node i).holds l then (s, .nothing)
      else
        let waiting := (s.node i).waiting.takeWhile (fun y => decide (y.lane ≠ l)) ++ post
        let a := { s.node i with waiting := waiting }.resume y.req (l :: y.held) y.rest
        (s.put i a.1, .sent i a.2)
  | .reconnect i => (s.put i { s.node i with conn := (s.node i).conn.map Flight.resend }, .nothing)
  | .reject i => (s.put i { s.node i with conn := [] }, .nothing)
  | .restart i => (s.put i sys.idle, .nothing)
  | .env e => ({ s with shared := sys.env e s.shared }, .nothing)

/-- The system. -/
def machine : Machine (Cluster S I K R) (Label S I R X E) (Obs S I R) := ⟨sys.init, sys.step⟩

/-! ## What one step does -/

/-- The ways a step can go. -/
inductive Step (s : Cluster S I K R) : Label S I R X E → Obs S I R → Cluster S I K R → Prop
  | start (i : I) (r : R) (n : Node S R) (es : List S.Emit)
      (h : (s.node i).resume r [] (sys.program i r) = (n, es)) : Step s (.start i r) (.sent i es) (s.put i n)
  | exec (i : I) (x : X) (pre post : List (Flight S R)) (f : Flight S R)
      (hc : (s.node i).conn = pre ++ f :: post) (hpre : ∀ g ∈ pre, g.reply.isSome = true) (hf : f.reply = none)
      (r : S.Reply f.cmd) (k : K) (hr : sys.exec f.cmd x s.shared = (r, k)) :
      Step s (.exec i x) (.executed i f.req f.cmd r)
        ({ s with shared := k }.put i { s.node i with conn := pre ++ f.answer r :: post })
  | deliver (i : I) (f : Flight S R) (rest : List (Flight S R)) (hc : (s.node i).conn = f :: rest) (r : S.Reply f.cmd)
      (hf : f.reply = some r) (n : Node S R) (es : List S.Emit)
      (h : Node.resume { s.node i with conn := rest } f.req f.held (f.rest r) = (n, es)) :
      Step s (.deliver i) (.sent i es) (s.put i n)
  | grant (i : I) (pre post : List (Waiter S R)) (y : Waiter S R) (hw : (s.node i).waiting = pre ++ y :: post)
      (hfree : (s.node i).holds y.lane = false) (n : Node S R) (es : List S.Emit)
      (h : Node.resume { s.node i with waiting := pre ++ post } y.req (y.lane :: y.held) y.rest = (n, es)) :
      Step s (.grant i y.lane) (.sent i es) (s.put i n)
  | reconnect (i : I) :
      Step s (.reconnect i) .nothing (s.put i { s.node i with conn := (s.node i).conn.map Flight.resend })
  | reject (i : I) : Step s (.reject i) .nothing (s.put i { s.node i with conn := [] })
  | restart (i : I) : Step s (.restart i) .nothing (s.put i sys.idle)
  | env (e : E) : Step s (.env e) .nothing { s with shared := sys.env e s.shared }
  | idle (a : Label S I R X E) : Step s a .nothing s

/-- A list split before the first element that fails a test. -/
theorem split_dropWhile {A : Type} {p : A → Bool} {l post : List A} {a : A} (h : l.dropWhile p = a :: post) :
    l = l.takeWhile p ++ a :: post ∧ (∀ b ∈ l.takeWhile p, p b = true) ∧ p a = false := by
  refine ⟨?_, fun b hb => List.mem_takeWhile_imp hb, ?_⟩
  · rw [← h, List.takeWhile_append_dropWhile]
  · have hne : l.dropWhile p ≠ [] := by rw [h]; exact List.cons_ne_nil _ _
    have := List.head_dropWhile_not p hne
    simpa only [h, List.head_cons] using this

/-- **Every step goes one of these ways.** -/
theorem step_cases (s : Cluster S I K R) (a : Label S I R X E) : Step sys s a (sys.step s a).2 (sys.step s a).1 := by
  cases a with
  | start i r => exact .start i r _ _ rfl
  | exec i x =>
    simp only [step]
    split
    · exact .idle _
    · rename_i f post h
      obtain ⟨hc, hpre, hf⟩ := split_dropWhile h
      exact .exec i x _ post f hc hpre (by simpa using hf) _ _ rfl
  | deliver i =>
    simp only [step]
    split
    · exact .idle _
    · rename_i f rest hc
      split
      · exact .idle _
      · rename_i r hf
        exact .deliver i f rest hc r hf _ _ rfl
  | grant i l =>
    simp only [step]
    split
    · exact .idle _
    · rename_i y post h
      obtain ⟨hw, -, hl⟩ := split_dropWhile h
      have hy : y.lane = l := by simpa using hl
      subst hy
      split
      · exact .idle _
      · rename_i hfree
        exact .grant i _ post y hw (by simpa using hfree) _ _ rfl
  | reconnect i => exact .reconnect i
  | reject i => exact .reject i
  | restart i => exact .restart i
  | env e => exact .env e

/-- An event of a run goes one of these ways. -/
theorem event_cases (s : Cluster S I K R) (a : Label S I R X E) :
    Step sys (sys.machine.event s a).pre (sys.machine.event s a).act (sys.machine.event s a).out
      (sys.machine.event s a).post := sys.step_cases s a

/-- One step leaves the other nodes. -/
theorem step_node_of_ne (s : Cluster S I K R) {a : Label S I R X E} {i : I} (h : a.node? ≠ some i) :
    (sys.step s a).1.node i = s.node i := by
  have hput : ∀ {j : I} {n : Node S R} {k : K}, j ≠ i → (({ s with shared := k }.put j n).node i) = s.node i :=
    fun hj => Cluster.put_node_of_ne _ hj.symm _
  have hs := sys.step_cases s a
  generalize (sys.step s a).2 = o at hs
  generalize (sys.step s a).1 = s' at hs
  cases hs with
  | start j r n es hn => exact hput (k := s.shared) fun hj => h (congrArg some hj)
  | exec j x pre post f hc hpre hf r k hr => exact hput fun hj => h (congrArg some hj)
  | deliver j f rest hc r hf n es hn => exact hput (k := s.shared) fun hj => h (congrArg some hj)
  | grant j pre post y hw hfree n es hn => exact hput (k := s.shared) fun hj => h (congrArg some hj)
  | reconnect j => exact hput (k := s.shared) fun hj => h (congrArg some hj)
  | reject j => exact hput (k := s.shared) fun hj => h (congrArg some hj)
  | restart j => exact hput (k := s.shared) fun hj => h (congrArg some hj)
  | env e => rfl
  | idle a => rfl

/-- A node at which nothing happens stays idle. -/
theorem run_node_of_ne {as : List (Label S I R X E)} {i : I} (h : ∀ a ∈ as, a.node? ≠ some i) :
    (sys.machine.run as).node i = sys.idle := by
  induction as using List.reverseRecOn with
  | nil => rfl
  | append_singleton as a ih =>
    rw [Machine.run_snoc]
    refine (sys.step_node_of_ne _ (h a (List.mem_append_right _ (List.mem_singleton_self a)))).trans ?_
    exact ih fun b hb => h b (List.mem_append_left _ hb)

/-- What was executed was the oldest command of its node that had not been. -/
theorem Step.executed {sys : System S I K R X E} {s s' : Cluster S I K R} {a : Label S I R X E} {o : Obs S I R}
    (hs : Step sys s a o s') {i : I} {req : R} {c : S.Cmd} {r : S.Reply c} (h : o = .executed i req c r) :
    ∃ x pre post held rest, (s.node i).conn = pre ++ ⟨req, held, c, none, rest⟩ :: post ∧
      sys.exec c x s.shared = (r, s'.shared) := by
  cases hs with
  | exec j x pre post f hc hpre hf r' k hr =>
    obtain ⟨req', held, cmd, reply, rest⟩ := f
    simp only at hf
    subst hf
    cases h
    exact ⟨x, pre, post, held, rest, hc, hr⟩
  | start => cases h
  | deliver => cases h
  | grant => cases h
  | reconnect => cases h
  | reject => cases h
  | restart => cases h
  | env => cases h
  | idle => cases h

/-! ## Contracts over runs -/

variable {sys} {C : Type}

/-- One step leaves programs that keep their contracts. -/
theorem Keeps.step {Γ : I → R → Contract S C} (hk : sys.Keeps Γ) {s s' : Cluster S I K R} {a : Label S I R X E}
    {o : Obs S I R} (hs : Step sys s a o s') (hI : ∀ i, (s.node i).OK (Γ i)) (i : I) : (s'.node i).OK (Γ i) := by
  have hput : ∀ {j : I} {n : Node S R} {k : K}, n.OK (Γ j) → (({ s with shared := k }.put j n).node i).OK (Γ i) := by
    intro j n k hn
    rw [Cluster.put_node]
    split
    · rename_i h
      subst h
      exact hn
    · exact hI i
  cases hs with
  | start j r n es h =>
    obtain ⟨x, hx⟩ := hk.starts j r (s.node j).loc
    exact hput ((hk.start h hx).ok (hI j))
  | exec j c pre post f hc hpre hf r k hr =>
    refine hput ⟨fun g hg => ?_, (hI j).waiters⟩
    have hold := (hI j).flights
    rw [hc] at hold
    rcases List.mem_append.mp hg with hg | hg
    · exact hold g (List.mem_append_left _ hg)
    · rcases List.mem_cons.mp hg with rfl | hg
      · exact hold f (List.mem_append_right _ List.mem_cons_self)
      · exact hold g (List.mem_append_right _ (List.mem_cons_of_mem _ hg))
  | deliver j f rest hc r hf n es h =>
    have hold := (hI j).flights
    rw [hc] at hold
    obtain ⟨x₀, hf₀⟩ := hold f List.mem_cons_self
    obtain ⟨x, hx₀, hx⟩ := hk.resumes j f.req x₀ (s.node j).loc f.held f.cmd r
    have hR := hf₀.deliver h hx₀ hx
    exact hput (hR.ok ⟨fun g hg => hold g (List.mem_cons_of_mem _ hg), (hI j).waiters⟩)
  | grant j pre post y hw hfree n es h =>
    have hold := (hI j).waiters
    rw [hw] at hold
    obtain ⟨x₀, hy₀⟩ := hold y (List.mem_append_right _ List.mem_cons_self)
    obtain ⟨x, hx₀, hx⟩ := hk.begins j y.req x₀ (s.node j).loc
    have hR := hy₀.grant h hx₀ hx
    refine hput (hR.ok ⟨(hI j).flights, fun z hz => hold z ?_⟩)
    rcases List.mem_append.mp hz with hz | hz
    · exact List.mem_append_left _ hz
    · exact List.mem_append_right _ (List.mem_cons_of_mem _ hz)
  | reconnect j =>
    refine hput ⟨fun g hg => ?_, (hI j).waiters⟩
    obtain ⟨f, hf, rfl⟩ := List.mem_map.mp hg
    exact (hI j).flights f hf
  | reject j => exact hput ⟨fun g hg => absurd hg List.not_mem_nil, (hI j).waiters⟩
  | restart j => exact hput ⟨fun g hg => absurd hg List.not_mem_nil, fun y hy => absurd hy List.not_mem_nil⟩
  | env e => exact hI i
  | idle a => exact hI i

end System

/-! ## Lanes -/

section Lanes

variable {S : Iface} {I K R X E : Type}

/-- The lanes that the waiting programs of a node hold, program by program. -/
def Node.lanes (n : Node S R) : List (List S.Lane) := n.conn.map Flight.held ++ n.waiting.map Waiter.held

/-- No two waiting programs of the node are in one lane. -/
def Node.Exclusive (n : Node S R) : Prop := n.lanes.Pairwise List.Disjoint

theorem Node.holds_eq_false [DecidableEq S.Lane] {n : Node S R} {l : S.Lane} :
    n.holds l = false ↔ ∀ h ∈ n.lanes, l ∉ h := by
  simp [Node.holds, Node.lanes, or_imp, forall_and]

theorem disjoint_symm {A : Type} {l l' : List A} (h : List.Disjoint l l') : List.Disjoint l' l :=
  fun _ h' hl => h hl h'

/-- While a command of a lane is under way, no other command of the node is in that lane. -/
theorem Node.Exclusive.alone {n : Node S R} (hn : n.Exclusive) {pre post : List (Flight S R)} {f : Flight S R}
    (hc : n.conn = pre ++ f :: post) {l : S.Lane} (hl : l ∈ f.held) : ∀ g ∈ pre ++ post, l ∉ g.held := by
  intro g hg hgl
  have hp := (List.pairwise_append.mp hn).1
  rw [hc, List.map_append, List.map_cons] at hp
  obtain ⟨-, hpost, hpre⟩ := List.pairwise_append.mp hp
  rcases List.mem_append.mp hg with hg | hg
  · exact hpre _ (List.mem_map_of_mem hg) _ List.mem_cons_self hgl hl
  · exact (List.pairwise_cons.mp hpost).1 _ (List.mem_map_of_mem hg) hl hgl

/-- A node that loses nothing but one program's lanes stays exclusive when that program waits again. -/
theorem Resumed.exclusive [DecidableEq S.Lane] {C : Type} {Γ : Contract S C} {req : R} {x : C} {held : List S.Lane}
    {n n' : Node S R} {es : List S.Emit} (h : Resumed Γ req x held n es n') (hn : n.Exclusive)
    (hd : ∀ h ∈ n.lanes, List.Disjoint held h) : n'.Exclusive := by
  have hnew : ∀ {new : List S.Lane}, new ⊆ held → (new :: n.lanes).Pairwise List.Disjoint := fun hsub =>
    List.pairwise_cons.mpr ⟨fun h hh l hl => hd h hh (hsub hl), hn⟩
  cases h with
  | ended loc held' h => exact hn
  | asked loc f hreq hreply hheld h hcall hok =>
    refine (List.Perm.pairwise_iff disjoint_symm ?_).mp (hnew hheld)
    simp only [Node.lanes, List.map_append, List.map_cons, List.map_nil, List.append_assoc, List.singleton_append]
    exact List.perm_middle.symm
  | waits loc y hreq hheld h hok =>
    refine (List.Perm.pairwise_iff disjoint_symm ?_).mp (hnew hheld)
    simp only [Node.lanes, List.map_append, List.map_cons, List.map_nil, ← List.append_assoc]
    exact (List.perm_append_singleton _ _).symm

variable [DecidableEq S.Lane] [DecidableEq I] {sys : System S I K R X E}

/-- A contract that asks nothing. -/
def Contract.free (S : Iface) : Contract S Unit :=
  ⟨fun _ _ => True, fun _ _ => True, fun _ _ _ _ _ => True, fun _ => True, fun _ _ => True⟩

theorem Node.resumed_free {n n' : Node S R} {req : R} {held : List S.Lane} {p : Prog S Unit} {es : List S.Emit}
    (h : n.resume req held p = (n', es)) : Resumed (Contract.free S) req () held n es n' :=
  Node.resumed h (Contract.wp_of_free (fun _ => trivial) (fun _ _ => trivial) (fun _ _ => trivial) p _)

namespace System

/-- One step keeps the lanes exclusive. -/
theorem exclusive_step {s s' : Cluster S I K R} {a : Label S I R X E} {o : Obs S I R} (hs : Step sys s a o s')
    (hI : ∀ i, (s.node i).Exclusive) (i : I) : (s'.node i).Exclusive := by
  have hput : ∀ {j : I} {n : Node S R} {k : K}, n.Exclusive → (({ s with shared := k }.put j n).node i).Exclusive := by
    intro j n k hn
    rw [Cluster.put_node]
    split
    · exact hn
    · exact hI i
  cases hs with
  | start j r n es h => exact hput ((Node.resumed_free h).exclusive (hI j) fun _ _ l hl => absurd hl List.not_mem_nil)
  | exec j c pre post f hc hpre hf r k hr =>
    refine hput ?_
    have hold := hI j
    unfold Node.Exclusive Node.lanes at hold ⊢
    rw [hc] at hold
    simpa only [List.map_append, List.map_cons, Flight.answer_held] using hold
  | deliver j f rest hc r hf n es h =>
    have hold := hI j
    unfold Node.Exclusive Node.lanes at hold
    rw [hc, List.map_cons, List.cons_append, List.pairwise_cons] at hold
    exact hput ((Node.resumed_free h).exclusive hold.2 hold.1)
  | grant j pre post y hw hfree n es h =>
    have hlanes : (s.node j).lanes.Perm (y.held :: Node.lanes { s.node j with waiting := pre ++ post }) := by
      simp only [Node.lanes, hw, List.map_append, List.map_cons, ← List.append_assoc]
      exact List.perm_middle
    have hold := (List.Perm.pairwise_iff disjoint_symm hlanes).mp (hI j)
    rw [List.pairwise_cons] at hold
    refine hput ((Node.resumed_free h).exclusive hold.2 fun h hh l hl hl' => ?_)
    rcases List.mem_cons.mp hl with rfl | hl
    · exact Node.holds_eq_false.mp hfree h (hlanes.mem_iff.mpr (List.mem_cons_of_mem _ hh)) hl'
    · exact hold.1 h hh hl hl'
  | reconnect j =>
    refine hput ?_
    have hold := hI j
    unfold Node.Exclusive Node.lanes at hold ⊢
    rw [List.map_map]
    exact hold
  | reject j =>
    refine hput ((hI j).sublist ?_)
    exact List.sublist_append_right _ _
  | restart j => exact hput List.Pairwise.nil
  | env e => exact hI i
  | idle a => exact hI i

/-- **No two programs of a node are ever in one lane.** -/
theorem exclusive_run (as : List (Label S I R X E)) : ∀ i, ((sys.machine.run as).node i).Exclusive :=
  sys.machine.invariant_state (I := fun s => ∀ i, (s.node i).Exclusive) (fun _ => List.Pairwise.nil)
    (fun s a hI => exclusive_step (sys.step_cases s a) hI) as

end System

end Lanes

/-! ## The order of execution -/

section Sequence

variable {S : Iface} {I K R X E : Type}

/-- The store has executed the commands of the connection in order. -/
def Node.Sequential (n : Node S R) : Prop := n.conn.Pairwise fun f g => f.reply = none → g.reply = none

/-- Behind a command that was not executed none was. -/
theorem Node.Sequential.behind {n : Node S R} (hn : n.Sequential) {pre post : List (Flight S R)} {f : Flight S R}
    (hc : n.conn = pre ++ f :: post) (hf : f.reply = none) : ∀ g ∈ post, g.reply = none := by
  intro g hg
  unfold Node.Sequential at hn
  rw [hc] at hn
  exact (List.pairwise_cons.mp (List.pairwise_append.mp hn).2.1).1 g hg hf

theorem Resumed.sequential [DecidableEq S.Lane] {C : Type} {Γ : Contract S C} {req : R} {x : C} {held : List S.Lane}
    {n n' : Node S R} {es : List S.Emit} (h : Resumed Γ req x held n es n') (hn : n.Sequential) : n'.Sequential := by
  unfold Node.Sequential at hn ⊢
  rcases h.conn with hc | ⟨f, hc, -, hreply, -, -⟩
  · rw [hc]
    exact hn
  · rw [hc]
    refine List.pairwise_append.mpr ⟨hn, List.pairwise_singleton _ _, fun g _ k hk _ => ?_⟩
    rw [List.mem_singleton.mp hk]
    exact hreply

variable [DecidableEq S.Lane] [DecidableEq I] {sys : System S I K R X E}

namespace System

/-- One step executes in order. -/
theorem sequential_step {s s' : Cluster S I K R} {a : Label S I R X E} {o : Obs S I R} (hs : Step sys s a o s')
    (hI : ∀ i, (s.node i).Sequential) (i : I) : (s'.node i).Sequential := by
  have hput : ∀ {j : I} {n : Node S R} {k : K}, n.Sequential → (({ s with shared := k }.put j n).node i).Sequential := by
    intro j n k hn
    rw [Cluster.put_node]
    split
    · exact hn
    · exact hI i
  cases hs with
  | start j r n es h => exact hput ((Node.resumed_free h).sequential (hI j))
  | exec j c pre post f hc hpre hf r k hr =>
    refine hput ?_
    have hold := hI j
    unfold Node.Sequential at hold ⊢
    rw [hc] at hold
    obtain ⟨hl, hr, hlr⟩ := List.pairwise_append.mp hold
    obtain ⟨-, hpost⟩ := List.pairwise_cons.mp hr
    refine List.pairwise_append.mpr ⟨hl, List.pairwise_cons.mpr ⟨?_, hpost⟩, ?_⟩
    · intro g _ h
      cases h
    · intro g hg k _ h
      have hsome := hpre g hg
      rw [h] at hsome
      cases hsome
  | deliver j f rest hc r hf n es h =>
    have hold := hI j
    unfold Node.Sequential at hold
    rw [hc, List.pairwise_cons] at hold
    exact hput ((Node.resumed_free h).sequential hold.2)
  | grant j pre post y hw hfree n es h => exact hput ((Node.resumed_free h).sequential (hI j))
  | reconnect j =>
    refine hput ?_
    unfold Node.Sequential
    exact List.pairwise_map.mpr (List.pairwise_of_forall fun f g _ => rfl)
  | reject j => exact hput List.Pairwise.nil
  | restart j => exact hput List.Pairwise.nil
  | env e => exact hI i
  | idle a => exact hI i

/-- **The commands of a connection are executed in order.** -/
theorem sequential_run (as : List (Label S I R X E)) : ∀ i, ((sys.machine.run as).node i).Sequential :=
  sys.machine.invariant_state (I := fun s => ∀ i, (s.node i).Sequential) (fun _ => List.Pairwise.nil)
    (fun s a hI => sequential_step (sys.step_cases s a) hI) as

end System

end Sequence
