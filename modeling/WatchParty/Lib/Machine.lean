import Mathlib.Data.List.Basic
import Mathlib.Data.List.Chain
import Mathlib.Data.List.DropRight

/-!
# Deterministic machines and their runs

A machine answers each action of a list with an output and a next state. `run` is the state after a list of actions,
`trace` the list of its events (the state an action found, the action, its answer and the state it left).

- runs and traces grow at the end (`run_snoc`, `trace_snoc`);
- the invariant rule `invariant`: what holds of the empty trace and is kept by one event holds of every run; and
  `invariant_under`, the same for the runs whose traces satisfy a condition that is closed under prefixes, as a
  condition on every event is (`invariant_forall`);
- every event of a trace is a step from the state after a shorter run (`mem_trace`);
- `Always` is a condition on every event and what was before it, `invariant_always` the invariant rule under one;
- `since` is what is left of a trace from the first event of a kind on, `after` what is left after the last one;
- the refinement rule `refines`: two machines that are given the same actions and that every step keeps related.
-/

/-- A deterministic machine over states `S`, actions `A` and answers `O`. -/
structure Machine (S A O : Type) where
  init : S
  step : S → A → S × O

namespace Machine

variable {S A O : Type}

/-- One step of a run. -/
structure Event (S A O : Type) where
  pre : S
  act : A
  out : O
  post : S

variable (m : Machine S A O)

/-- The event of action `a` at state `s`. -/
def event (s : S) (a : A) : Event S A O := ⟨s, a, (m.step s a).2, (m.step s a).1⟩

@[simp] theorem event_pre (s : S) (a : A) : (m.event s a).pre = s := rfl
@[simp] theorem event_act (s : S) (a : A) : (m.event s a).act = a := rfl
@[simp] theorem event_out (s : S) (a : A) : (m.event s a).out = (m.step s a).2 := rfl
@[simp] theorem event_post (s : S) (a : A) : (m.event s a).post = (m.step s a).1 := rfl

/-- The state after the actions `as` from `s`. -/
def runFrom (s : S) (as : List A) : S := as.foldl (fun s a => (m.step s a).1) s

/-- The events of the actions `as` from `s`. -/
def traceFrom : S → List A → List (Event S A O)
  | _, [] => []
  | s, a :: as => m.event s a :: traceFrom (m.step s a).1 as

/-- The state after the actions `as`. -/
def run (as : List A) : S := m.runFrom m.init as

/-- The events of the actions `as`. -/
def trace (as : List A) : List (Event S A O) := m.traceFrom m.init as

@[simp] theorem run_nil : m.run [] = m.init := rfl

@[simp] theorem trace_nil : m.trace [] = [] := rfl

theorem runFrom_cons (s : S) (a : A) (as : List A) : m.runFrom s (a :: as) = m.runFrom (m.step s a).1 as := rfl

theorem runFrom_append (s : S) (as bs : List A) : m.runFrom s (as ++ bs) = m.runFrom (m.runFrom s as) bs := by
  simp [runFrom]

theorem traceFrom_append : ∀ (s : S) (as bs : List A),
    m.traceFrom s (as ++ bs) = m.traceFrom s as ++ m.traceFrom (m.runFrom s as) bs
  | _, [], _ => rfl
  | s, a :: as, bs => by
    simp only [List.cons_append, traceFrom]
    rw [traceFrom_append (m.step s a).1 as bs]
    rfl

theorem run_append (as bs : List A) : m.run (as ++ bs) = m.runFrom (m.run as) bs := m.runFrom_append _ as bs

theorem trace_append (as bs : List A) : m.trace (as ++ bs) = m.trace as ++ m.traceFrom (m.run as) bs :=
  m.traceFrom_append _ as bs

theorem run_snoc (as : List A) (a : A) : m.run (as ++ [a]) = (m.step (m.run as) a).1 := m.run_append as [a]

theorem trace_snoc (as : List A) (a : A) : m.trace (as ++ [a]) = m.trace as ++ [m.event (m.run as) a] :=
  m.trace_append as [a]

theorem runFrom_snoc (s : S) (as : List A) (a : A) : m.runFrom s (as ++ [a]) = (m.step (m.runFrom s as) a).1 :=
  m.runFrom_append s as [a]

theorem traceFrom_snoc (s : S) (as : List A) (a : A) :
    m.traceFrom s (as ++ [a]) = m.traceFrom s as ++ [m.event (m.runFrom s as) a] := m.traceFrom_append s as [a]

/-- **Invariants under a condition.** A condition on traces that every shorter trace inherits, and an invariant that
one event keeps as long as the trace with that event meets the condition. -/
theorem invariant_from {C : List (Event S A O) → Prop} {I : List (Event S A O) → S → Prop} (s₀ : S)
    (hC : ∀ tr e, C (tr ++ [e]) → C tr) (h0 : I [] s₀)
    (hs : ∀ tr s a, C (tr ++ [m.event s a]) → I tr s → I (tr ++ [m.event s a]) (m.step s a).1) (as : List A) :
    C (m.traceFrom s₀ as) → I (m.traceFrom s₀ as) (m.runFrom s₀ as) := by
  induction as using List.reverseRecOn with
  | nil => exact fun _ => h0
  | append_singleton as a ih =>
    rw [traceFrom_snoc, runFrom_snoc]
    intro hc
    exact hs _ _ a hc (ih (hC _ _ hc))

/-- Invariants under a condition, of the runs from the initial state. -/
theorem invariant_under {C : List (Event S A O) → Prop} {I : List (Event S A O) → S → Prop}
    (hC : ∀ tr e, C (tr ++ [e]) → C tr) (h0 : I [] m.init)
    (hs : ∀ tr s a, C (tr ++ [m.event s a]) → I tr s → I (tr ++ [m.event s a]) (m.step s a).1) (as : List A) :
    C (m.trace as) → I (m.trace as) (m.run as) := m.invariant_from m.init hC h0 hs as

/-- A condition on every event is inherited by shorter traces. -/
theorem forall_mem_of_snoc {P : Event S A O → Prop} {tr : List (Event S A O)} {e : Event S A O}
    (h : ∀ x ∈ tr ++ [e], P x) : ∀ x ∈ tr, P x := fun x hx => h x (List.mem_append_left _ hx)

/-- The last event meets a condition on every event. -/
theorem last_of_snoc {P : Event S A O → Prop} {tr : List (Event S A O)} {e : Event S A O}
    (h : ∀ x ∈ tr ++ [e], P x) : P e := h e (List.mem_append_right _ (List.mem_singleton_self e))

/-- Invariants under a condition on every event. -/
theorem invariant_forall_from {P : Event S A O → Prop} {I : List (Event S A O) → S → Prop} (s₀ : S) (h0 : I [] s₀)
    (hs : ∀ tr s a, P (m.event s a) → I tr s → I (tr ++ [m.event s a]) (m.step s a).1) (as : List A) :
    (∀ e ∈ m.traceFrom s₀ as, P e) → I (m.traceFrom s₀ as) (m.runFrom s₀ as) :=
  m.invariant_from (C := fun tr => ∀ e ∈ tr, P e) s₀ (fun _ _ => forall_mem_of_snoc) h0
    (fun tr s a hc hI => hs tr s a (last_of_snoc hc) hI) as

/-- Invariants under a condition on every event, of the runs from the initial state. -/
theorem invariant_forall {P : Event S A O → Prop} {I : List (Event S A O) → S → Prop} (h0 : I [] m.init)
    (hs : ∀ tr s a, P (m.event s a) → I tr s → I (tr ++ [m.event s a]) (m.step s a).1) (as : List A) :
    (∀ e ∈ m.trace as, P e) → I (m.trace as) (m.run as) := m.invariant_forall_from m.init h0 hs as

/-- **Invariants.** What one event keeps holds after every run. -/
theorem invariant {I : List (Event S A O) → S → Prop} (h0 : I [] m.init)
    (hs : ∀ tr s a, I tr s → I (tr ++ [m.event s a]) (m.step s a).1) (as : List A) : I (m.trace as) (m.run as) :=
  m.invariant_under (C := fun _ => True) (fun _ _ _ => trivial) h0 (fun tr s a _ => hs tr s a) as trivial

/-- An invariant of the states alone. -/
theorem invariant_state {I : S → Prop} (h0 : I m.init) (hs : ∀ s a, I s → I (m.step s a).1) (as : List A) :
    I (m.run as) :=
  m.invariant (I := fun _ s => I s) h0 (fun _ s a => hs s a) as

/-- Every event of a trace is a step from the state after a shorter run. -/
theorem mem_trace {as : List A} {e : Event S A O} (h : e ∈ m.trace as) :
    ∃ bs a, bs ++ [a] <+: as ∧ e = m.event (m.run bs) a := by
  induction as using List.reverseRecOn with
  | nil => cases h
  | append_singleton as a ih =>
    rw [trace_snoc, List.mem_append, List.mem_singleton] at h
    rcases h with h | rfl
    · obtain ⟨bs, b, hb, he⟩ := ih h
      exact ⟨bs, b, hb.trans (List.prefix_append _ _), he⟩
    · exact ⟨as, a, List.prefix_rfl, rfl⟩

/-- Where a step keeps what has held so far exactly when it is not a bad one, it holds in every state of a run exactly
when no step of the run is bad. The steps are those of states that an invariant of this run allows. -/
theorem holds_iff {I J : S → Prop} {B : S → A → Prop} {as : List A} (hI : ∀ p, p <+: as → I (m.run p)) (h0 : J m.init)
    (hs : ∀ s a, I s → J s → (J (m.step s a).1 ↔ ¬B s a)) :
    (∀ p, p <+: as → J (m.run p)) ↔ ∀ e ∈ m.trace as, ¬B e.pre e.act := by
  induction as using List.reverseRecOn with
  | nil =>
    refine iff_of_true (fun p hp => ?_) fun e he => absurd he List.not_mem_nil
    rw [List.prefix_nil.mp hp]
    exact h0
  | append_singleton as a ih =>
    have ih := ih fun p hp => hI p (hp.trans (List.prefix_append ..))
    have hstep : J (m.run as) → (J (m.run (as ++ [a])) ↔ ¬B (m.run as) a) := by
      rw [run_snoc]
      exact hs _ a (hI as (List.prefix_append ..))
    rw [trace_snoc]
    constructor
    · intro h e he
      have hbefore : ∀ p, p <+: as → J (m.run p) := fun p hp => h p (hp.trans (List.prefix_append ..))
      rcases List.mem_append.mp he with he | he
      · exact ih.mp hbefore e he
      · rw [List.mem_singleton.mp he]
        exact (hstep (hbefore as List.prefix_rfl)).mp (h _ List.prefix_rfl)
    · intro h p hp
      have hbefore := ih.mpr fun e he => h e (List.mem_append_left _ he)
      rcases List.prefix_concat_iff.mp hp with rfl | hp
      · exact (hstep (hbefore as List.prefix_rfl)).mpr
          (h (m.event (m.run as) a) (List.mem_append_right _ (List.mem_singleton_self _)))
      · exact hbefore p hp

/-- An event in the middle of a trace is a step from the state after the actions whose trace is before it, and what
follows it is a trace from the state it left. -/
theorem traceFrom_split {s : S} {ops : List A} {tr tr' : List (Event S A O)} {e : Event S A O}
    (h : m.traceFrom s ops = tr ++ e :: tr') :
    ∃ as b bs, ops = as ++ b :: bs ∧ tr = m.traceFrom s as ∧ e = m.event (m.runFrom s as) b ∧
      tr' = m.traceFrom e.post bs := by
  induction tr generalizing s ops with
  | nil =>
    cases ops with
    | nil => cases h
    | cons b bs =>
      rw [traceFrom, List.nil_append] at h
      obtain ⟨rfl, rfl⟩ := List.cons.inj h
      exact ⟨[], b, bs, rfl, rfl, rfl, rfl⟩
  | cons x tr ih =>
    cases ops with
    | nil => cases h
    | cons a ops =>
      rw [traceFrom, List.cons_append] at h
      obtain ⟨rfl, hrest⟩ := List.cons.inj h
      obtain ⟨as, b, bs, rfl, rfl, he, ht⟩ := ih hrest
      exact ⟨a :: as, b, bs, rfl, rfl, he, ht⟩

theorem trace_split {ops : List A} {tr tr' : List (Event S A O)} {e : Event S A O}
    (h : m.trace ops = tr ++ e :: tr') :
    ∃ as b bs, ops = as ++ b :: bs ∧ tr = m.trace as ∧ e = m.event (m.run as) b ∧ tr' = m.traceFrom e.post bs :=
  m.traceFrom_split h

section Refinement

variable {S' O' : Type} (m' : Machine S' A O')

/-- **Refinement.** Where related states answer an action in a related way and stay related, whenever the event of the
first machine meets a condition, the two machines answer every list of actions alike, event by event. -/
theorem refines {R : S → S' → Prop} {C : Event S A O → Prop} {Q : Event S A O → Event S' A O' → Prop}
    (h0 : R m.init m'.init)
    (hs : ∀ s s' a, C (m.event s a) → R s s' → Q (m.event s a) (m'.event s' a) ∧ R (m.step s a).1 (m'.step s' a).1)
    (as : List A) (hc : ∀ e ∈ m.trace as, C e) :
    List.Forall₂ Q (m.trace as) (m'.trace as) ∧ R (m.run as) (m'.run as) := by
  induction as using List.reverseRecOn with
  | nil => exact ⟨.nil, h0⟩
  | append_singleton as a ih =>
    rw [trace_snoc] at hc
    obtain ⟨hq, hr⟩ := ih (forall_mem_of_snoc hc)
    obtain ⟨hq', hr'⟩ := hs _ _ a (last_of_snoc hc) hr
    rw [trace_snoc, trace_snoc, run_snoc, run_snoc]
    exact ⟨List.rel_append hq (.cons hq' .nil), hr'⟩

/-- Where an event that meets the condition keeps two machines related, and related machines answer an action in a
related way exactly when the condition is met, they answer a list of actions alike exactly when every event meets it. -/
theorem refinesFrom_iff {R : S → S' → Prop} {C : Event S A O → Prop} {Q : Event S A O → Event S' A O' → Prop}
    (hq : ∀ s s' a, R s s' → (Q (m.event s a) (m'.event s' a) ↔ C (m.event s a)))
    (hs : ∀ s s' a, R s s' → C (m.event s a) → R (m.step s a).1 (m'.step s' a).1) (as : List A) :
    ∀ s s', R s s' → (List.Forall₂ Q (m.traceFrom s as) (m'.traceFrom s' as) ↔ ∀ e ∈ m.traceFrom s as, C e) := by
  induction as with
  | nil => exact fun s s' _ => ⟨fun _ e he => absurd he List.not_mem_nil, fun _ => .nil⟩
  | cons a as ih =>
    intro s s' h
    rw [traceFrom, traceFrom, List.forall₂_cons, List.forall_mem_cons, hq s s' a h]
    exact and_congr_right fun hc => ih _ _ (hs s s' a h hc)

/-- The same, of the runs from the initial states. -/
theorem refines_iff {R : S → S' → Prop} {C : Event S A O → Prop} {Q : Event S A O → Event S' A O' → Prop}
    (h0 : R m.init m'.init) (hq : ∀ s s' a, R s s' → (Q (m.event s a) (m'.event s' a) ↔ C (m.event s a)))
    (hs : ∀ s s' a, R s s' → C (m.event s a) → R (m.step s a).1 (m'.step s' a).1) (as : List A) :
    List.Forall₂ Q (m.trace as) (m'.trace as) ↔ ∀ e ∈ m.trace as, C e :=
  m.refinesFrom_iff m' hq hs as m.init m'.init h0

end Refinement

/-- A condition on every event and what was before it. -/
def Always (P : List (Event S A O) → Event S A O → Prop) (tr : List (Event S A O)) : Prop :=
  ∀ n (h : n < tr.length), P (tr.take n) tr[n]

instance {P : List (Event S A O) → Event S A O → Prop} [∀ tr e, Decidable (P tr e)] (tr : List (Event S A O)) :
    Decidable (Always P tr) := inferInstanceAs (Decidable (∀ n (h : n < tr.length), P (tr.take n) tr[n]))

theorem always_snoc {P : List (Event S A O) → Event S A O → Prop} {tr : List (Event S A O)} {e : Event S A O} :
    Always P (tr ++ [e]) ↔ Always P tr ∧ P tr e := by
  constructor
  · intro h
    refine ⟨fun n hn => ?_, ?_⟩
    · have hn' := h n (by rw [List.length_append]; omega)
      rwa [List.take_append_of_le_length hn.le, List.getElem_append_left hn] at hn'
    · simpa using h tr.length (by simp)
  · rintro ⟨h, he⟩ n hn
    rcases Nat.lt_or_ge n tr.length with hlt | hge
    · rw [List.take_append_of_le_length hlt.le, List.getElem_append_left hlt]
      exact h n hlt
    · obtain rfl : n = tr.length := by
        rw [List.length_append, List.length_singleton] at hn
        omega
      simpa using he

/-- A condition on every event is met by the events before some of them. -/
theorem Always.of_append {P : List (Event S A O) → Event S A O → Prop} {tr tr' : List (Event S A O)}
    (h : Always P (tr ++ tr')) : Always P tr := by
  induction tr' using List.reverseRecOn with
  | nil => simpa using h
  | append_singleton tr' e ih =>
    rw [← List.append_assoc] at h
    exact ih (always_snoc.mp h).1

/-- The events of a shorter run meet the condition too. -/
theorem Always.of_prefix {P : List (Event S A O) → Event S A O → Prop} {m : Machine S A O} {as bs : List A}
    (h : Always P (m.trace bs)) (hp : as <+: bs) : Always P (m.trace as) := by
  obtain ⟨cs, rfl⟩ := hp
  rw [trace_append] at h
  exact h.of_append

/-- Invariants under a condition on every event and what was before it. -/
theorem invariant_always {P : List (Event S A O) → Event S A O → Prop} {I : List (Event S A O) → S → Prop}
    (m : Machine S A O) (h0 : I [] m.init)
    (hs : ∀ tr s a, P tr (m.event s a) → I tr s → I (tr ++ [m.event s a]) (m.step s a).1) (as : List A) :
    Always P (m.trace as) → I (m.trace as) (m.run as) :=
  m.invariant_under (C := Always P) (fun _ _ h => (always_snoc.mp h).1) h0
    (fun tr s a hc hI => hs tr s a (always_snoc.mp hc).2 hI) as

/-- The events from the first that satisfies `p` on. -/
def since (p : Event S A O → Bool) (tr : List (Event S A O)) : List (Event S A O) := tr.dropWhile fun e => !p e

section Since

variable {p q r : Event S A O → Bool} {tr : List (Event S A O)} {e : Event S A O}

/-- There is nothing from the first event on that satisfies `p` exactly when there is no such event. -/
theorem since_eq_nil : since p tr = [] ↔ tr.any p = false := by
  induction tr with
  | nil => exact ⟨fun _ => rfl, fun _ => rfl⟩
  | cons x tr ih =>
    rw [since, List.dropWhile_cons, List.any_cons]
    cases hx : p x with
    | true => simp
    | false =>
      rw [Bool.false_or]
      exact ih

theorem since_snoc : since p (tr ++ [e]) = since p tr ++ if tr.any p || p e then [e] else [] := by
  rw [since, List.dropWhile_append]
  change (if (since p tr).isEmpty = true then _ else since p tr ++ [e]) = _
  cases h : tr.any p with
  | true =>
    have hne : since p tr ≠ [] := fun hnil => by
      rw [since_eq_nil.mp hnil] at h
      cases h
    simp [hne]
  | false =>
    rw [since_eq_nil.mpr h]
    cases hp : p e <;> simp [hp]

/-- What is there from the first event on that satisfies `p` is there already, or is the last event. -/
theorem any_since_snoc :
    (since p (tr ++ [e])).any q = ((since p tr).any q || ((tr.any p || p e) && q e)) := by
  rw [since_snoc]
  cases hp : tr.any p || p e <;> simp

/-- The same, of what is there from the first event on that satisfies `q` after the first that satisfies `p`. -/
theorem any_since_since_snoc :
    (since q (since p (tr ++ [e]))).any r =
      ((since q (since p tr)).any r || ((since p (tr ++ [e])).any q && r e)) := by
  rw [any_since_snoc, since_snoc]
  cases hp : tr.any p || p e
  · rw [Bool.or_eq_false_iff] at hp
    rw [since_eq_nil.mpr hp.1]
    rfl
  · rw [if_pos rfl, any_since_snoc, Bool.true_and]

theorem any_of_since (h : (since p tr).any q = true) : tr.any p = true := by
  by_contra hp
  rw [Bool.not_eq_true] at hp
  rw [since_eq_nil.mpr hp] at h
  cases h

end Since

/-- The events after the last that satisfies `p`; all of them where none does. -/
def after (p : Event S A O → Bool) (tr : List (Event S A O)) : List (Event S A O) := tr.rtakeWhile fun e => !p e

theorem after_snoc {p : Event S A O → Bool} {tr : List (Event S A O)} {e : Event S A O} :
    after p (tr ++ [e]) = if p e then [] else after p tr ++ [e] := by
  rw [after, List.rtakeWhile_concat]
  cases p e <;> rfl

end Machine
