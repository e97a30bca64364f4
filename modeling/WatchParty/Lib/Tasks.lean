import Mathlib.Data.List.Basic
import Mathlib.Logic.Function.Basic
import WatchParty.Lib.Machine

/-!
# Nodes whose commands complete in any order

A node runs handlers. A handler runs without interruption up to where it awaits the reply to a command, or its turn in
the node's one queue; between two of its stretches the other handlers of the node run. The commands that are under way
are executed on the shared state, each atomically, and answered in any order. The queue lets in the handler that has
waited longest, when no handler is inside.

- `Turn` is what a stretch leaves; a handler is given by its stretches (`start`, `resume`, `enter`);
- `Tasks.machine`: the runs of any number of nodes;
- `Tasks.step_cases`: everything one step can do;
- `Tasks.single_run`: no two handlers of a node are inside.
-/

/-- Where a handler is after a stretch: it has ended, awaits a reply at a point, or waits for its turn. -/
inductive Next (A Q : Type)
  | done
  | await (a : A)
  | queue (q : Q)
  deriving DecidableEq, Repr

/-- The point at which a handler awaits a reply. -/
def Next.point? {A Q : Type} : Next A Q → Option A
  | .done => none
  | .await a => some a
  | .queue _ => none

/-- The turn that a handler waits for. -/
def Next.queued? {A Q : Type} : Next A Q → Option Q
  | .done => none
  | .await _ => none
  | .queue q => some q

/-- What a stretch leaves: the memory of the node, what it emitted, and where the handler is. -/
structure Turn (Loc Emit A Q : Type) where
  loc : Loc
  sent : List Emit
  next : Next A Q
  deriving DecidableEq, Repr

/-- A handler that awaits a reply, and the reply once its command has been executed. -/
structure Pending {A : Type} (Reply : A → Type) where
  point : A
  reply : Option (Reply point)

/-- A node: its memory, the handlers that await replies, and those that wait for their turn, oldest first. -/
structure Desk (Loc Q : Type) {A : Type} (Reply : A → Type) where
  loc : Loc
  tasks : List (Pending Reply)
  queue : List Q

/-- The shared state and the nodes. -/
structure Office (I K Loc Q : Type) {A : Type} (Reply : A → Type) where
  shared : K
  node : I → Desk Loc Q Reply

/-- The handlers by their stretches, the commands at their points (which take a choice `X` of the shared state's own),
which points are inside the queue, and what else happens to the shared state. -/
structure Tasks (Loc Emit A Q R K X E : Type) (Reply : A → Type) where
  loc : Loc
  shared : K
  start : R → Loc → Turn Loc Emit A Q
  resume : (a : A) → Reply a → Loc → Turn Loc Emit A Q
  enter : Q → Loc → Turn Loc Emit A Q
  exec : (a : A) → X → K → Reply a × K
  inside : A → Bool
  env : E → K → K

/-- One step: a request arrives, the `n`-th task of a node is executed or answered, a node lets the next handler in,
or something else happens to the shared state. -/
inductive Move (I R X E : Type)
  | start (i : I) (r : R)
  | exec (i : I) (n : ℕ) (x : X)
  | deliver (i : I) (n : ℕ)
  | enter (i : I)
  | env (e : E)
  deriving DecidableEq, Repr

/-- What a step shows: what a node emitted, or nothing. -/
abbrev Shown (I Emit : Type) := Option (I × List Emit)

variable {I Loc Emit A Q R K X E : Type} {Reply : A → Type}

namespace Desk

/-- The node after a stretch. -/
def after (d : Desk Loc Q Reply) (t : Turn Loc Emit A Q) : Desk Loc Q Reply :=
  match t.next with
  | .done => { d with loc := t.loc }
  | .await a => { d with loc := t.loc, tasks := d.tasks ++ [⟨a, none⟩] }
  | .queue q => { d with loc := t.loc, queue := d.queue ++ [q] }

@[simp] theorem after_loc (d : Desk Loc Q Reply) (t : Turn Loc Emit A Q) : (d.after t).loc = t.loc := by
  unfold after
  split <;> rfl

/-- The queue that a stretch leaves. -/
theorem queue_after (d : Desk Loc Q Reply) (t : Turn Loc Emit A Q) :
    (d.after t).queue = d.queue ++ t.next.queued?.toList := by
  unfold after
  split <;> rename_i h <;> simp [h, Next.queued?]

/-- A task that a stretch leaves was there, or is the one that it left. -/
theorem mem_tasks_after {d : Desk Loc Q Reply} {t : Turn Loc Emit A Q} {x : Pending Reply} (h : x ∈ (d.after t).tasks) :
    x ∈ d.tasks ∨ ∃ a, t.next = .await a ∧ x = ⟨a, none⟩ := by
  unfold after at h
  split at h
  · exact Or.inl h
  · rename_i a ha
    rcases List.mem_append.mp h with h | h
    · exact Or.inl h
    · exact Or.inr ⟨a, ha, List.mem_singleton.mp h⟩
  · exact Or.inl h

/-- A stretch that is to await leaves a task. -/
theorem mem_tasks_await {d : Desk Loc Q Reply} {t : Turn Loc Emit A Q} {a : A} (h : t.next = .await a) :
    ⟨a, none⟩ ∈ (d.after t).tasks := by
  simp [after, h]

/-- A stretch that is to wait for its turn leaves itself in the queue. -/
theorem mem_queue_queued {d : Desk Loc Q Reply} {t : Turn Loc Emit A Q} {q : Q} (h : t.next = .queue q) :
    q ∈ (d.after t).queue := by
  simp [after, h]

/-- How many tasks of a kind a stretch leaves. -/
theorem countP_after (p : Pending Reply → Bool) (d : Desk Loc Q Reply) (t : Turn Loc Emit A Q) :
    (d.after t).tasks.countP p = d.tasks.countP p + (t.next.point?.any fun a => p ⟨a, none⟩).toNat := by
  unfold after
  split
  · rename_i h
    simp [h, Next.point?]
  · rename_i a h
    cases hp : p ⟨a, none⟩ <;> simp [h, Next.point?, hp]
  · rename_i h
    simp [h, Next.point?]

/-- A node whose memory, tasks and queue are as they should be. -/
structure Meets (L : Loc → Prop) (T : Pending Reply → Prop) (P : Q → Prop) (d : Desk Loc Q Reply) : Prop where
  loc : L d.loc
  tasks : ∀ t ∈ d.tasks, T t
  queue : ∀ q ∈ d.queue, P q

end Desk

/-- A stretch that leaves the memory, and the handler, as they should be. -/
structure Turn.Meets (L : Loc → Prop) (T : Pending Reply → Prop) (P : Q → Prop) (t : Turn Loc Emit A Q) : Prop where
  loc : L t.loc
  await : ∀ a, t.next = .await a → T ⟨a, none⟩
  queue : ∀ q, t.next = .queue q → P q

theorem Desk.Meets.after {L : Loc → Prop} {T : Pending Reply → Prop} {P : Q → Prop} {d : Desk Loc Q Reply}
    {t : Turn Loc Emit A Q} (htasks : ∀ t ∈ d.tasks, T t) (hqueue : ∀ q ∈ d.queue, P q) (ht : t.Meets L T P) :
    (d.after t).Meets L T P where
  loc := by
    rw [Desk.after_loc]
    exact ht.loc
  tasks x hx := by
    rcases Desk.mem_tasks_after hx with hx | ⟨a, ha, rfl⟩
    · exact htasks x hx
    · exact ht.await a ha
  queue q hq := by
    rw [Desk.queue_after, List.mem_append] at hq
    rcases hq with hq | hq
    · exact hqueue q hq
    · refine ht.queue q ?_
      cases hn : t.next <;> simp_all [Next.queued?]

namespace Office

variable [DecidableEq I]

def put (s : Office I K Loc Q Reply) (i : I) (d : Desk Loc Q Reply) : Office I K Loc Q Reply :=
  { s with node := Function.update s.node i d }

@[simp] theorem put_shared (s : Office I K Loc Q Reply) (i : I) (d : Desk Loc Q Reply) :
    (s.put i d).shared = s.shared := rfl

@[simp] theorem put_self (s : Office I K Loc Q Reply) (i : I) (d : Desk Loc Q Reply) : (s.put i d).node i = d := by
  simp [put]

theorem put_of_ne (s : Office I K Loc Q Reply) {i j : I} (h : j ≠ i) (d : Desk Loc Q Reply) :
    (s.put i d).node j = s.node j := by
  simp [put, h]

/-- What holds of the node that is put and held of the others holds of all. -/
theorem forall_put {P : I → Desk Loc Q Reply → Prop} {s : Office I K Loc Q Reply} {i : I} {d : Desk Loc Q Reply}
    (hd : P i d) (h : ∀ j, P j (s.node j)) (j : I) : P j ((s.put i d).node j) := by
  by_cases hj : j = i
  · subst hj
    rw [put_self]
    exact hd
  · rw [put_of_ne s hj]
    exact h j

/-- The node whose task a move executes, and the point of the task. -/
def executed (s : Office I K Loc Q Reply) : Move I R X E → Option (I × A)
  | .exec i n _ =>
    match (s.node i).tasks[n]? with
    | some ⟨a, none⟩ => some (i, a)
    | _ => none
  | _ => none

/-- The node whose task a move answers, and the task's point with the reply. -/
def replied (s : Office I K Loc Q Reply) : Move I R X E → Option (I × (a : A) × Reply a)
  | .deliver i n =>
    match (s.node i).tasks[n]? with
    | some ⟨a, some r⟩ => some (i, ⟨a, r⟩)
    | _ => none
  | _ => none

omit [DecidableEq I] in
theorem executed_mem {s : Office I K Loc Q Reply} {m : Move I R X E} {i : I} {a : A} (h : s.executed m = some (i, a)) :
    ⟨a, none⟩ ∈ (s.node i).tasks := by
  cases m with
  | exec j n x =>
    simp only [executed] at h
    split at h
    · rename_i b hb
      cases h
      exact List.mem_of_getElem? hb
    · cases h
  | _ => cases h

omit [DecidableEq I] in
/-- Only the execution of a task executes one. -/
theorem executed_act {s : Office I K Loc Q Reply} {m : Move I R X E} {i : I} {a : A} (h : s.executed m = some (i, a)) :
    ∃ n x, m = .exec i n x := by
  cases m with
  | exec j n x =>
    simp only [executed] at h
    split at h
    · cases h
      exact ⟨n, x, rfl⟩
    · cases h
  | _ => cases h

omit [DecidableEq I] in
theorem replied_mem {s : Office I K Loc Q Reply} {m : Move I R X E} {i : I} {a : A} {r : Reply a}
    (h : s.replied m = some (i, ⟨a, r⟩)) : ⟨a, some r⟩ ∈ (s.node i).tasks := by
  cases m with
  | deliver j n =>
    simp only [replied] at h
    split at h
    · rename_i b r hb
      cases h
      exact List.mem_of_getElem? hb
    · cases h
  | _ => cases h

end Office

namespace Tasks

variable [DecidableEq I] (sys : Tasks Loc Emit A Q R K X E Reply)

def init : Office I K Loc Q Reply := ⟨sys.shared, fun _ => ⟨sys.loc, [], []⟩⟩

/-- Is no handler of the node inside? -/
def free (d : Desk Loc Q Reply) : Bool := d.tasks.all fun t => !sys.inside t.point

def step (s : Office I K Loc Q Reply) : Move I R X E → Office I K Loc Q Reply × Shown I Emit
  | .start i r =>
    let t := sys.start r (s.node i).loc
    (s.put i ((s.node i).after t), some (i, t.sent))
  | .exec i n x =>
    match (s.node i).tasks[n]? with
    | some ⟨a, none⟩ =>
      let r := sys.exec a x s.shared
      ({ s with shared := r.2 }.put i { s.node i with tasks := (s.node i).tasks.set n ⟨a, some r.1⟩ }, none)
    | _ => (s, none)
  | .deliver i n =>
    match (s.node i).tasks[n]? with
    | some ⟨a, some r⟩ =>
      let t := sys.resume a r (s.node i).loc
      (s.put i (Desk.after { s.node i with tasks := (s.node i).tasks.eraseIdx n } t), some (i, t.sent))
    | _ => (s, none)
  | .enter i =>
    match (s.node i).queue with
    | [] => (s, none)
    | q :: rest =>
      if sys.free (s.node i) then
        let t := sys.enter q (s.node i).loc
        (s.put i (Desk.after { s.node i with queue := rest } t), some (i, t.sent))
      else (s, none)
  | .env e => ({ s with shared := sys.env e s.shared }, none)

/-- The system. -/
def machine : Machine (Office I K Loc Q Reply) (Move I R X E) (Shown I Emit) := ⟨sys.init, sys.step⟩

/-- The ways a step can go. -/
inductive Step (s : Office I K Loc Q Reply) :
    Move I R X E → Shown I Emit → Office I K Loc Q Reply → Prop
  | start (i : I) (r : R) :
      Step s (.start i r) (some (i, (sys.start r (s.node i).loc).sent))
        (s.put i ((s.node i).after (sys.start r (s.node i).loc)))
  | exec (i : I) (n : ℕ) (x : X) (pre post : List (Pending Reply)) (a : A)
      (hn : (s.node i).tasks[n]? = some ⟨a, none⟩) (hc : (s.node i).tasks = pre ++ ⟨a, none⟩ :: post) :
      Step s (.exec i n x) none
        ({ s with shared := (sys.exec a x s.shared).2 }.put i
          { s.node i with tasks := pre ++ (⟨a, some (sys.exec a x s.shared).1⟩ : Pending Reply) :: post })
  | deliver (i : I) (n : ℕ) (pre post : List (Pending Reply)) (a : A) (r : Reply a)
      (hn : (s.node i).tasks[n]? = some ⟨a, some r⟩) (hc : (s.node i).tasks = pre ++ ⟨a, some r⟩ :: post) :
      Step s (.deliver i n) (some (i, (sys.resume a r (s.node i).loc).sent))
        (s.put i (Desk.after { s.node i with tasks := pre ++ post } (sys.resume a r (s.node i).loc)))
  | enter (i : I) (q : Q) (rest : List Q) (hq : (s.node i).queue = q :: rest)
      (hfree : ∀ t ∈ (s.node i).tasks, sys.inside t.point = false) :
      Step s (.enter i) (some (i, (sys.enter q (s.node i).loc).sent))
        (s.put i (Desk.after { s.node i with queue := rest } (sys.enter q (s.node i).loc)))
  | env (e : E) : Step s (.env e) none { s with shared := sys.env e s.shared }
  | idle (m : Move I R X E) (hm : (∀ i r, m ≠ .start i r) ∧ ∀ e, m ≠ .env e) (hx : s.executed m = none)
      (hr : s.replied m = none) : Step s m none s

/-- The task at an index, between those before it and those after it. -/
theorem split_getElem? {B : Type} {l : List B} {n : ℕ} {b : B} (h : l[n]? = some b) :
    l = l.take n ++ b :: l.drop (n + 1) ∧ (∀ c, l.set n c = l.take n ++ c :: l.drop (n + 1)) ∧
      l.eraseIdx n = l.take n ++ l.drop (n + 1) := by
  obtain ⟨hn, hb⟩ := List.getElem?_eq_some_iff.mp h
  refine ⟨?_, fun c => ?_, List.eraseIdx_eq_take_drop_succ l n⟩
  · rw [← hb, List.getElem_cons_drop, List.take_append_drop]
  · rw [List.set_eq_take_append_cons_drop, if_pos hn]

/-- **Every step goes one of these ways.** -/
theorem step_cases (s : Office I K Loc Q Reply) (m : Move I R X E) : Step sys s m (sys.step s m).2 (sys.step s m).1 := by
  cases m with
  | start i r => exact .start i r
  | exec i n x =>
    simp only [step]
    split
    · rename_i a h
      obtain ⟨hc, hset, -⟩ := split_getElem? h
      rw [hset]
      exact .exec i n x _ _ a h hc
    · rename_i h
      refine .idle _ ⟨nofun, nofun⟩ ?_ rfl
      simp only [Office.executed]
  | deliver i n =>
    simp only [step]
    split
    · rename_i a r h
      obtain ⟨hc, -, herase⟩ := split_getElem? h
      rw [herase]
      exact .deliver i n _ _ a r h hc
    · rename_i h
      refine .idle _ ⟨nofun, nofun⟩ rfl ?_
      simp only [Office.replied]
  | enter i =>
    simp only [step]
    split
    · exact .idle _ ⟨nofun, nofun⟩ rfl rfl
    · rename_i q rest hq
      split
      · rename_i hfree
        refine .enter i q rest hq fun t ht => ?_
        simpa using List.all_eq_true.mp hfree t ht
      · exact .idle _ ⟨nofun, nofun⟩ rfl rfl
  | env e => exact .env e

/-- The shared state is changed by the execution of a command, by what happens besides, and by nothing else. -/
theorem shared_cases {s s' : Office I K Loc Q Reply} {m : Move I R X E} {o : Shown I Emit} (hs : Step sys s m o s') :
    (∃ i a x, s.executed m = some (i, a) ∧ s'.shared = (sys.exec a x s.shared).2) ∨
      (∃ e, m = .env e ∧ s'.shared = sys.env e s.shared) ∨ (s.executed m = none ∧ s'.shared = s.shared) := by
  cases hs with
  | start i r => exact Or.inr (Or.inr ⟨rfl, rfl⟩)
  | exec i n x pre post a hn hc => exact Or.inl ⟨i, a, x, by simp only [Office.executed, hn], rfl⟩
  | deliver i n pre post a r hn hc => exact Or.inr (Or.inr ⟨rfl, rfl⟩)
  | enter i q rest hq hfree => exact Or.inr (Or.inr ⟨rfl, rfl⟩)
  | env e => exact Or.inr (Or.inl ⟨e, rfl, rfl⟩)
  | idle m hm hx hr => exact Or.inr (Or.inr ⟨hx, rfl⟩)

/-! ## What a step changes at a node -/

/-- The stretch that a step runs at a node, and the node as the stretch finds it: without the task that is answered, or
without the handler that is let in. -/
inductive Begins (s : Office I K Loc Q Reply) (m : Move I R X E) (j : I) :
    Desk Loc Q Reply → Turn Loc Emit A Q → Prop
  | start (r : R) (hm : m = .start j r) : Begins s m j (s.node j) (sys.start r (s.node j).loc)
  | resume (pre post : List (Pending Reply)) (a : A) (r : Reply a) (hm : s.replied m = some (j, ⟨a, r⟩))
      (hc : (s.node j).tasks = pre ++ ⟨a, some r⟩ :: post) :
      Begins s m j { s.node j with tasks := pre ++ post } (sys.resume a r (s.node j).loc)
  | enter (q : Q) (rest : List Q) (hm : m = .enter j) (hq : (s.node j).queue = q :: rest)
      (hfree : ∀ t ∈ (s.node j).tasks, sys.inside t.point = false) :
      Begins s m j { s.node j with queue := rest } (sys.enter q (s.node j).loc)

section Inversion

variable {sys} {s s' : Office I K Loc Q Reply} {m : Move I R X E} {o : Shown I Emit} {j : I}

/-- A node is unchanged, or one of its tasks is executed, or a stretch runs at it. -/
theorem node_cases (hs : Step sys s m o s') (j : I) :
    s'.node j = s.node j ∨
    (∃ a x pre post, s.executed m = some (j, a) ∧ s'.shared = (sys.exec a x s.shared).2 ∧
      (s.node j).tasks = pre ++ ⟨a, none⟩ :: post ∧
      s'.node j = { s.node j with tasks := pre ++ (⟨a, some (sys.exec a x s.shared).1⟩ : Pending Reply) :: post }) ∨
    ∃ d t, Begins sys s m j d t ∧ o = some (j, t.sent) ∧ s'.shared = s.shared ∧ s'.node j = d.after t := by
  have hput : ∀ (k : K) (i : I) (d : Desk Loc Q Reply),
      j ≠ i → (({ s with shared := k } : Office I K Loc Q Reply).put i d).node j = s.node j :=
    fun k i d h => Office.put_of_ne _ h d
  cases hs with
  | start i r =>
    by_cases hj : j = i
    · subst hj
      exact Or.inr (Or.inr ⟨_, _, .start r rfl, rfl, rfl, Office.put_self _ _ _⟩)
    · exact Or.inl (hput s.shared i _ hj)
  | exec i n x pre post a hn hc =>
    by_cases hj : j = i
    · subst hj
      refine Or.inr (Or.inl ⟨a, x, pre, post, ?_, rfl, hc, Office.put_self _ _ _⟩)
      simp only [Office.executed, hn]
    · exact Or.inl (hput _ i _ hj)
  | deliver i n pre post a r hn hc =>
    by_cases hj : j = i
    · subst hj
      refine Or.inr (Or.inr ⟨_, _, .resume pre post a r ?_ hc, rfl, rfl, Office.put_self _ _ _⟩)
      simp only [Office.replied, hn]
    · exact Or.inl (hput s.shared i _ hj)
  | enter i q rest hq hfree =>
    by_cases hj : j = i
    · subst hj
      exact Or.inr (Or.inr ⟨_, _, .enter q rest rfl hq hfree, rfl, rfl, Office.put_self _ _ _⟩)
    · exact Or.inl (hput s.shared i _ hj)
  | env e => exact Or.inl rfl
  | idle m hm hx hr => exact Or.inl rfl

/-- What the execution of a command does, with the choice that the move makes. -/
theorem exec_step {i : I} {n : ℕ} {x : X} {a : A} (hs : Step sys s (.exec i n x) o s')
    (hx : s.executed (.exec i n x : Move I R X E) = some (j, a)) :
    s'.shared = (sys.exec a x s.shared).2 ∧ ⟨a, some (sys.exec a x s.shared).1⟩ ∈ (s'.node j).tasks := by
  cases hs with
  | exec _ _ _ pre post b hn hc =>
    simp only [Office.executed, hn, Option.some.injEq, Prod.mk.injEq] at hx
    obtain ⟨rfl, rfl⟩ := hx
    refine ⟨rfl, ?_⟩
    rw [Office.put_self]
    exact List.mem_append_right _ List.mem_cons_self
  | idle _ hm hx' hr =>
    rw [hx] at hx'
    cases hx'

theorem executed_step {a : A} (hs : Step sys s m o s') (hx : s.executed m = some (j, a)) :
    ∃ x, s'.shared = (sys.exec a x s.shared).2 ∧ ⟨a, some (sys.exec a x s.shared).1⟩ ∈ (s'.node j).tasks := by
  cases m with
  | exec i n x => exact ⟨x, exec_step hs hx⟩
  | _ => cases hx

/-- What an answer does. -/
theorem replied_step {a : A} {r : Reply a} (hs : Step sys s m o s') (hr : s.replied m = some (j, ⟨a, r⟩)) :
    ∃ d, s'.node j = Desk.after d (sys.resume a r (s.node j).loc) ∧ d.queue = (s.node j).queue ∧
      o = some (j, (sys.resume a r (s.node j).loc).sent) ∧ s'.shared = s.shared := by
  cases hs with
  | deliver i n pre post b r' hn hc =>
    simp only [Office.replied, hn, Option.some.injEq, Prod.mk.injEq] at hr
    obtain ⟨rfl, hr⟩ := hr
    cases hr
    exact ⟨_, Office.put_self _ _ _, rfl, rfl, rfl⟩
  | idle m hm hx hr' =>
    rw [hr] at hr'
    cases hr'
  | _ => cases hr

/-- What a request does. -/
theorem started {r : R} (hs : Step sys s (.start j r) o s') :
    s'.node j = (s.node j).after (sys.start r (s.node j).loc) ∧ o = some (j, (sys.start r (s.node j).loc).sent) := by
  cases hs with
  | start => exact ⟨Office.put_self _ _ _, rfl⟩
  | idle m hm hx hr => exact absurd rfl (hm.1 j r)

omit [DecidableEq I] in
/-- The tasks that a stretch finds were there. -/
theorem Begins.tasks_subset {d : Desk Loc Q Reply} {t : Turn Loc Emit A Q} (h : Begins sys s m j d t) :
    d.tasks ⊆ (s.node j).tasks := by
  cases h with
  | start r hm => exact fun _ h => h
  | resume pre post a r hm hc =>
    rw [hc]
    intro x hx
    rcases List.mem_append.mp hx with hx | hx
    · exact List.mem_append_left _ hx
    · exact List.mem_append_right _ (List.mem_cons_of_mem _ hx)
  | enter q rest hm hq hfree => exact fun _ h => h

omit [DecidableEq I] in
/-- The queue that a stretch finds is what is left of the queue. -/
theorem Begins.queue_suffix {d : Desk Loc Q Reply} {t : Turn Loc Emit A Q} (h : Begins sys s m j d t) :
    d.queue <:+ (s.node j).queue := by
  cases h with
  | start r hm => exact List.suffix_rfl
  | resume pre post a r hm hc => exact List.suffix_rfl
  | enter q rest hm hq hfree =>
    rw [hq]
    exact List.suffix_cons q rest

/-- How a task of a node came about. -/
theorem mem_tasks (hs : Step sys s m o s') {t : Pending Reply} (ht : t ∈ (s'.node j).tasks) :
    t ∈ (s.node j).tasks ∨
    (∃ a x, s.executed m = some (j, a) ∧ ⟨a, none⟩ ∈ (s.node j).tasks ∧ t = ⟨a, some (sys.exec a x s.shared).1⟩ ∧
      s'.shared = (sys.exec a x s.shared).2) ∨
    ∃ d u a, Begins sys s m j d u ∧ u.next = .await a ∧ t = ⟨a, none⟩ ∧ s'.node j = d.after u := by
  rcases node_cases hs j with h | ⟨a, x, pre, post, hx, hk, hc, h⟩ | ⟨d, u, hb, -, -, h⟩
  · rw [h] at ht
    exact Or.inl ht
  · rw [h] at ht
    rw [hc]
    rcases List.mem_append.mp ht with ht | ht
    · exact Or.inl (List.mem_append_left _ ht)
    · rcases List.mem_cons.mp ht with rfl | ht
      · exact Or.inr (Or.inl ⟨a, x, hx, List.mem_append_right _ List.mem_cons_self, rfl, hk⟩)
      · exact Or.inl (List.mem_append_right _ (List.mem_cons_of_mem _ ht))
  · rw [h] at ht
    rcases Desk.mem_tasks_after ht with ht | ⟨a, ha, rfl⟩
    · exact Or.inl (hb.tasks_subset ht)
    · exact Or.inr (Or.inr ⟨d, u, a, hb, ha, rfl, h⟩)

/-- How a task of a node came about where a command is executed, with the choice that the move makes. -/
theorem mem_tasks_exec {i : I} {n : ℕ} {x : X} (hs : Step sys s (.exec i n x) o s') {t : Pending Reply}
    (ht : t ∈ (s'.node j).tasks) :
    t ∈ (s.node j).tasks ∨ ∃ a, s.executed (.exec i n x : Move I R X E) = some (i, a) ∧ i = j ∧
      ⟨a, none⟩ ∈ (s.node j).tasks ∧ t = ⟨a, some (sys.exec a x s.shared).1⟩ := by
  cases hs with
  | exec _ _ _ pre post a hn hc =>
    by_cases hj : j = i
    · subst hj
      rw [Office.put_self] at ht
      rw [hc]
      rcases List.mem_append.mp ht with ht | ht
      · exact Or.inl (List.mem_append_left _ ht)
      · rcases List.mem_cons.mp ht with rfl | ht
        · refine Or.inr ⟨a, ?_, rfl, List.mem_append_right _ List.mem_cons_self, rfl⟩
          simp only [Office.executed, hn]
        · exact Or.inl (List.mem_append_right _ (List.mem_cons_of_mem _ ht))
    · rw [Office.put_of_ne _ hj] at ht
      exact Or.inl ht
  | idle _ hm hx hr => exact Or.inl ht

/-- What becomes of a task of a node. -/
theorem tasks_keep (hs : Step sys s m o s') {t : Pending Reply} (ht : t ∈ (s.node j).tasks) :
    t ∈ (s'.node j).tasks ∨
    (∃ a x, s.executed m = some (j, a) ∧ t = ⟨a, none⟩ ∧ s'.shared = (sys.exec a x s.shared).2 ∧
      ⟨a, some (sys.exec a x s.shared).1⟩ ∈ (s'.node j).tasks) ∨
    ∃ d a r, s.replied m = some (j, ⟨a, r⟩) ∧ t = ⟨a, some r⟩ ∧
      o = some (j, (sys.resume a r (s.node j).loc).sent) ∧
      s'.node j = Desk.after d (sys.resume a r (s.node j).loc) := by
  rcases node_cases hs j with h | ⟨a, x, pre, post, hx, hk, hc, h⟩ | ⟨d, u, hb, ho, -, h⟩
  · rw [h]
    exact Or.inl ht
  · rw [hc, List.mem_append, List.mem_cons] at ht
    rw [h]
    rcases ht with ht | rfl | ht
    · exact Or.inl (List.mem_append_left _ ht)
    · exact Or.inr (Or.inl ⟨a, x, hx, rfl, hk, List.mem_append_right _ List.mem_cons_self⟩)
    · exact Or.inl (List.mem_append_right _ (List.mem_cons_of_mem _ ht))
  · rw [h]
    have hafter : ∀ {d' : Desk Loc Q Reply}, t ∈ d'.tasks → t ∈ (d'.after u).tasks := by
      intro d' hd
      unfold Desk.after
      split
      · exact hd
      · exact List.mem_append_left _ hd
      · exact hd
    cases hb with
    | start r hm => exact Or.inl (hafter ht)
    | resume pre post a r hm hc =>
      rw [hc, List.mem_append, List.mem_cons] at ht
      rcases ht with ht | rfl | ht
      · exact Or.inl (hafter (List.mem_append_left _ ht))
      · exact Or.inr (Or.inr ⟨_, a, r, hm, rfl, ho, rfl⟩)
      · exact Or.inl (hafter (List.mem_append_right _ ht))
    | enter q rest hm hq hfree => exact Or.inl (hafter ht)

/-- What becomes of a handler in the queue. -/
theorem queue_keep (hs : Step sys s m o s') {q : Q} (hq : q ∈ (s.node j).queue) :
    q ∈ (s'.node j).queue ∨ ∃ d, m = .enter j ∧ (∀ t ∈ (s.node j).tasks, sys.inside t.point = false) ∧
      s'.node j = Desk.after d (sys.enter q (s.node j).loc) := by
  rcases node_cases hs j with h | ⟨a, x, pre, post, hx, hk, hc, h⟩ | ⟨d, u, hb, -, -, h⟩
  · rw [h]
    exact Or.inl hq
  · rw [h]
    exact Or.inl hq
  · rw [h, Desk.queue_after]
    cases hb with
    | start r hm => exact Or.inl (List.mem_append_left _ hq)
    | resume pre post a r hm hc => exact Or.inl (List.mem_append_left _ hq)
    | enter q' rest hm hq' hfree =>
      rw [hq', List.mem_cons] at hq
      rcases hq with rfl | hq
      · exact Or.inr ⟨_, hm, hfree, rfl⟩
      · exact Or.inl (List.mem_append_left _ hq)

/-- What becomes of a queue. -/
theorem queue_cases (hs : Step sys s m o s') (j : I) :
    (s'.node j).queue = (s.node j).queue ∨
    ∃ d u, Begins sys s m j d u ∧ (s'.node j).queue = d.queue ++ u.next.queued?.toList := by
  rcases node_cases hs j with h | ⟨a, x, pre, post, -, -, -, h⟩ | ⟨d, u, hb, -, -, h⟩
  · exact Or.inl (by rw [h])
  · exact Or.inl (by rw [h])
  · exact Or.inr ⟨d, u, hb, by rw [h, Desk.queue_after]⟩

/-- What becomes of the memory of a node. -/
theorem loc_cases (hs : Step sys s m o s') (j : I) :
    (s'.node j).loc = (s.node j).loc ∨ ∃ d u, Begins sys s m j d u ∧ (s'.node j).loc = u.loc := by
  rcases node_cases hs j with h | ⟨a, x, pre, post, -, -, -, h⟩ | ⟨d, u, hb, -, -, h⟩
  · exact Or.inl (by rw [h])
  · exact Or.inl (by rw [h])
  · exact Or.inr ⟨d, u, hb, by rw [h, Desk.after_loc]⟩

/-- What a step emits, a stretch emits. -/
theorem sent_cases (hs : Step sys s m o s') {sent : List Emit} (h : o = some (j, sent)) :
    ∃ d u, Begins sys s m j d u ∧ sent = u.sent ∧ (s'.node j) = d.after u := by
  cases hs with
  | start i r =>
    cases h
    exact ⟨_, _, .start r rfl, rfl, Office.put_self _ _ _⟩
  | exec i n x pre post a hn hc => cases h
  | deliver i n pre post a r hn hc =>
    cases h
    refine ⟨_, _, .resume pre post a r ?_ hc, rfl, Office.put_self _ _ _⟩
    simp only [Office.replied, hn]
  | enter i q rest hq hfree =>
    cases h
    exact ⟨_, _, .enter q rest rfl hq hfree, rfl, Office.put_self _ _ _⟩
  | env e => cases h
  | idle m hm hx hr => cases h

end Inversion

/-! ## What holds at every node -/

section Meets

variable {sys} {L : Loc → Prop} {T : Pending Reply → Prop} {P : Q → Prop} {s s' : Office I K Loc Q Reply}
  {m : Move I R X E} {o : Shown I Emit}

/-- **The frame rule.** What holds of the memory, the tasks and the queue of every node holds after a step when it holds
of what the one stretch leaves, or of the one reply. -/
theorem meets_step (hs : Step sys s m o s') (hI : ∀ i, (s.node i).Meets L T P)
    (hstart : ∀ i r, m = .start i r → L (s.node i).loc → (sys.start r (s.node i).loc).Meets L T P)
    (hexec : ∀ i n x a, m = .exec i n x → s.executed m = some (i, a) → T ⟨a, none⟩ →
      T ⟨a, some (sys.exec a x s.shared).1⟩)
    (hresume : ∀ i a r, s.replied m = some (i, ⟨a, r⟩) → L (s.node i).loc → T ⟨a, some r⟩ →
      (sys.resume a r (s.node i).loc).Meets L T P)
    (henter : ∀ i q, m = .enter i → L (s.node i).loc → P q → (sys.enter q (s.node i).loc).Meets L T P) :
    ∀ i, (s'.node i).Meets L T P := by
  cases hs with
  | start i r =>
    exact Office.forall_put (P := fun _ d => d.Meets L T P)
      (.after (hI i).tasks (hI i).queue (hstart i r rfl (hI i).loc)) hI
  | exec i n x pre post a hn hc =>
    have hT := (hI i).tasks
    rw [hc, List.forall_mem_append, List.forall_mem_cons] at hT
    refine Office.forall_put (P := fun _ d => d.Meets L T P) ⟨(hI i).loc, ?_, (hI i).queue⟩ hI
    rw [List.forall_mem_append, List.forall_mem_cons]
    exact ⟨hT.1, hexec i n x a rfl (by simp only [Office.executed, hn]) hT.2.1, hT.2.2⟩
  | deliver i n pre post a r hn hc =>
    have hT := (hI i).tasks
    rw [hc, List.forall_mem_append, List.forall_mem_cons] at hT
    refine Office.forall_put (P := fun _ d => d.Meets L T P) (.after ?_ (hI i).queue ?_) hI
    · rw [List.forall_mem_append]
      exact ⟨hT.1, hT.2.2⟩
    · exact hresume i a r (by simp only [Office.replied, hn]) (hI i).loc hT.2.1
  | enter i q rest hq hfree =>
    have hP := (hI i).queue
    rw [hq, List.forall_mem_cons] at hP
    exact Office.forall_put (P := fun _ d => d.Meets L T P)
      (.after (hI i).tasks hP.2 (henter i q rfl (hI i).loc hP.1)) hI
  | env e => exact hI
  | idle m hm hx hr => exact hI

end Meets

/-! ## One handler inside -/

/-- The handlers that are inside. -/
def within (d : Desk Loc Q Reply) : List (Pending Reply) := d.tasks.filter fun t => sys.inside t.point

/-- Only a handler that is inside, or is let in, is inside when it next awaits. -/
structure Gated : Prop where
  start : ∀ r l a, (sys.start r l).next = .await a → sys.inside a = false
  resume : ∀ a r l b, (sys.resume a r l).next = .await b → sys.inside b = true → sys.inside a = true

variable {sys}

/-- A stretch of a handler that was not inside, or that nobody else is inside with. -/
theorem within_after {d : Desk Loc Q Reply} {t : Turn Loc Emit A Q}
    (h : (∀ a, t.next = .await a → sys.inside a = false) ∨ sys.within d = []) (hd : (sys.within d).length ≤ 1) :
    (sys.within (d.after t)).length ≤ 1 := by
  unfold Desk.after
  split
  · exact hd
  · rename_i a ha
    simp only [within, List.filter_append, List.length_append]
    rcases h with h | h
    · simpa [h a ha, within] using hd
    · rw [within] at h
      rw [h]
      exact (Nat.zero_add _).trans_le (List.length_filter_le _ _)
  · exact hd

/-- One step lets no second handler in. -/
theorem single_step (hg : sys.Gated) {s s' : Office I K Loc Q Reply} {m : Move I R X E} {o : Shown I Emit}
    (hs : Step sys s m o s') (hI : ∀ i, (sys.within (s.node i)).length ≤ 1) :
    ∀ i, (sys.within (s'.node i)).length ≤ 1 := by
  have hput : ∀ {i : I} {d : Desk Loc Q Reply} {k : K}, (sys.within d).length ≤ 1 →
      ∀ j, (sys.within (({ s with shared := k }.put i d).node j)).length ≤ 1 :=
    fun hd => Office.forall_put (P := fun _ d => (sys.within d).length ≤ 1) hd hI
  cases hs with
  | start i r => exact hput (within_after (Or.inl (hg.start r _)) (hI i))
  | exec i n x pre post a hn hc =>
    refine hput ?_
    have hi := hI i
    simpa [within, hc, List.filter_append, List.filter_cons, apply_ite] using hi
  | deliver i n pre post a r hn hc =>
    refine hput ?_
    have hi := hI i
    simp only [within, hc, List.filter_append, List.filter_cons, List.length_append] at hi
    refine within_after ?_ ?_
    · by_cases ha : sys.inside a = true
      · right
        rw [if_pos ha, List.length_cons] at hi
        rw [within, List.filter_append, List.append_eq_nil_iff]
        exact ⟨List.length_eq_zero_iff.mp (by omega), List.length_eq_zero_iff.mp (by omega)⟩
      · left
        intro b hb
        by_contra hin
        exact ha (hg.resume a r _ b hb (by simpa using hin))
    · rw [within, List.filter_append, List.length_append]
      split at hi
      · rw [List.length_cons] at hi
        omega
      · exact hi
  | enter i q rest hq hfree =>
    have hnone : sys.within { s.node i with queue := rest } = [] := by
      rw [within, List.filter_eq_nil_iff]
      intro t ht
      rw [hfree t ht]
      exact Bool.false_ne_true
    exact hput (within_after (Or.inr hnone) (by rw [hnone]; exact Nat.zero_le 1))
  | env e => exact hI
  | idle m hm hx hr => exact hI

/-- **No two handlers of a node are inside.** -/
theorem single_run (hg : sys.Gated) (ms : List (Move I R X E)) :
    ∀ i, (sys.within ((sys.machine.run ms).node i)).length ≤ 1 :=
  sys.machine.invariant_state (I := fun s => ∀ i, (sys.within (s.node i)).length ≤ 1) (fun _ => Nat.zero_le 1)
    (fun s m hI => single_step hg (sys.step_cases s m) hI) ms

/-- Where no two handlers are inside, two that are inside are one. -/
theorem eq_of_within {d : Desk Loc Q Reply} (h : (sys.within d).length ≤ 1) {t t' : Pending Reply} (ht : t ∈ d.tasks)
    (ht' : t' ∈ d.tasks) (hin : sys.inside t.point = true) (hin' : sys.inside t'.point = true) : t = t' := by
  have hw : t ∈ sys.within d := List.mem_filter.mpr ⟨ht, hin⟩
  have hw' : t' ∈ sys.within d := List.mem_filter.mpr ⟨ht', hin'⟩
  match hd : sys.within d, h with
  | [], _ =>
    rw [hd] at hw
    cases hw
  | [x], _ =>
    rw [hd, List.mem_singleton] at hw hw'
    rw [hw, hw']

/-- An event of a run goes one of these ways. -/
theorem event_cases (s : Office I K Loc Q Reply) (m : Move I R X E) :
    Step sys (sys.machine.event s m).pre (sys.machine.event s m).act (sys.machine.event s m).out
      (sys.machine.event s m).post := sys.step_cases s m

end Tasks
