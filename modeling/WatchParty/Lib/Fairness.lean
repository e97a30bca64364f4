import WatchParty.Lib.Temporal
import Mathlib.Data.Set.Card
import Mathlib.Data.Countable.Basic
import Mathlib.Order.Interval.Set.Nat

/-!
# Fair behaviours exist

A specification whose fairness conditions are about countably many of its own actions rules no finite run out: from
every reachable state there is a behaviour that is strongly fair to each of them. It is made by a scheduler that takes,
of the actions that are enabled, the one that was taken the longest time ago.

- `Turn`: a state and, for each action, a bound on the time it was last taken; `Turn.next` takes one;
- `turns_fair`: the states of the scheduler are strongly fair to every action;
- `exists_fair`: every step from a reachable state has a fair future, by the fair actions alone.
-/

open Filter Relation

namespace Temporal

variable {S : Type*}

/-- A state of the scheduler: the state reached, the time, and when each action was last taken. -/
structure Turn (S : Type*) where
  state : S
  time : ℕ
  last : ℕ → ℕ

namespace Turn

/-- What the scheduler may do: stutter where no action is enabled, or take an enabled one that has waited longest. -/
inductive Takes (A : ℕ → Action S) (x : Turn S) : Turn S → Prop
  | idle (h : ∀ k, ¬Enabled (Proper (A k)) x.state) : Takes A x { x with time := x.time + 1 }
  | take (k : ℕ) (t : S) (h : Proper (A k) x.state t) (hk : ∀ j, Enabled (Proper (A j)) x.state → x.last k ≤ x.last j) :
      Takes A x ⟨t, x.time + 1, Function.update x.last k (max (x.time + 1) k)⟩

/-- The scheduler can always go on. -/
theorem exists_takes (A : ℕ → Action S) (x : Turn S) : ∃ y, Takes A x y := by
  by_cases h : ∃ k, Enabled (Proper (A k)) x.state
  · obtain ⟨k, ⟨t, ht⟩, hk⟩ := exists_minimalFor_of_wellFoundedLT (fun k => Enabled (Proper (A k)) x.state) x.last h
    refine ⟨_, .take k t ht fun j hj => ?_⟩
    by_contra hlt
    exact hlt (hk hj (not_le.mp hlt).le)
  · push Not at h
    exact ⟨_, .idle h⟩

/-- The time an action was last taken is within its index and the time. -/
def Sound (x : Turn S) : Prop := ∀ k, k ≤ x.last k ∧ x.last k ≤ max x.time k

/-- The actions that have waited since `w` or longer. -/
def waiting (x : Turn S) (w : ℕ) : Set ℕ := {k | x.last k ≤ w}

theorem Sound.waiting_finite {x : Turn S} (h : x.Sound) (w : ℕ) : (x.waiting w).Finite :=
  (Set.finite_le_nat w).subset fun k hk => (h k).1.trans hk

section Takes

variable {A : ℕ → Action S} {x y : Turn S}

theorem Takes.sound (h : Takes A x y) (hx : x.Sound) : y.Sound := by
  intro k
  cases h with
  | idle => exact ⟨(hx k).1, (hx k).2.trans (max_le_max (Nat.le_succ _) le_rfl)⟩
  | take j t ht hj =>
    by_cases hkj : k = j
    · subst hkj
      simp
    · simp only [Function.update_of_ne hkj]
      exact ⟨(hx k).1, (hx k).2.trans (max_le_max (Nat.le_succ _) le_rfl)⟩

/-- Waiting times do not fall. -/
theorem Takes.last_le (h : Takes A x y) (hx : x.Sound) (k : ℕ) : x.last k ≤ y.last k := by
  cases h with
  | idle => exact le_rfl
  | take j t ht hj =>
    by_cases hkj : k = j
    · subst hkj
      simp only [Function.update_self]
      exact (hx k).2.trans (max_le_max (Nat.le_succ _) le_rfl)
    · simp only [Function.update_of_ne hkj]
      exact le_rfl

theorem Takes.waiting_subset (h : Takes A x y) (hx : x.Sound) (w : ℕ) : y.waiting w ⊆ x.waiting w :=
  fun k hk => (h.last_le hx k).trans hk

/-- An action that is not taken has waited as long as before. -/
theorem Takes.last_eq (h : Takes A x y) {i : ℕ} (hi : ¬Proper (A i) x.state y.state) : y.last i = x.last i := by
  cases h with
  | idle => rfl
  | take j t ht hj =>
    have hij : i ≠ j := fun hij => hi (hij ▸ ht)
    simp only [Function.update_of_ne hij]

/-- Where an action could be taken and is not, one that has waited as long no longer does. -/
theorem Takes.overtaken (h : Takes A x y) (hx : x.Sound) {i : ℕ} (hi : ¬Proper (A i) x.state y.state)
    (he : Enabled (Proper (A i)) x.state) (ht : x.last i ≤ x.time) :
    (y.waiting (x.last i)).ncard < (x.waiting (x.last i)).ncard := by
  refine Set.ncard_lt_ncard ⟨h.waiting_subset hx _, fun hsub => ?_⟩ (hx.waiting_finite _)
  cases h with
  | idle hno => exact hno i he
  | take j t htake hj =>
    have hin : j ∈ x.waiting (x.last i) := hj i he
    have hlate := hsub hin
    simp only [waiting, Set.mem_ofPred_eq, Function.update_self] at hlate
    omega

/-- A turn takes one of the actions or none. -/
theorem Takes.moves (h : Takes A x y) : y.state = x.state ∨ ∃ k, A k x.state y.state := by
  cases h with
  | idle => exact Or.inl rfl
  | take k t ht hk => exact Or.inr ⟨k, ht.1⟩

theorem Takes.time_eq (h : Takes A x y) : y.time = x.time + 1 := by cases h <;> rfl

end Takes

/-- The scheduler's states from a state on. -/
noncomputable def run (A : ℕ → Action S) (s : S) : ℕ → Turn S
  | 0 => ⟨s, 0, id⟩
  | n + 1 => (exists_takes A (run A s n)).choose

section Run

variable (A : ℕ → Action S) (s : S)

theorem run_takes (n : ℕ) : Takes A (run A s n) (run A s (n + 1)) := (exists_takes A (run A s n)).choose_spec

theorem run_time (n : ℕ) : (run A s n).time = n := by
  induction n with
  | zero => rfl
  | succ n ih => rw [(run_takes A s n).time_eq, ih]

theorem run_sound (n : ℕ) : (run A s n).Sound := by
  induction n with
  | zero => exact fun k => ⟨le_rfl, le_max_right _ _⟩
  | succ n ih => exact (run_takes A s n).sound ih

/-- **The scheduler is fair.** An action that it takes no more is overtaken at every time it could have been taken, and
only finitely many have waited as long. -/
theorem run_fair (i : ℕ) : SF (A i) fun n => (run A s n).state := by
  intro he
  by_contra hno
  obtain ⟨N, hN⟩ := eventually_atTop.mp (not_frequently.mp hno)
  have hlast : ∀ n, N ≤ n → (run A s n).last i = (run A s N).last i := by
    intro n hn
    induction n, hn using Nat.le_induction with
    | base => rfl
    | succ n hn ih => rw [(run_takes A s n).last_eq (hN n hn), ih]
  have hfewer : ∀ n, max N ((run A s N).last i) ≤ n → Enabled (Proper (A i)) (run A s n).state →
      ((run A s (n + 1)).waiting ((run A s N).last i)).ncard < ((run A s n).waiting ((run A s N).last i)).ncard := by
    intro n hn hen
    have hNn := (le_max_left _ _).trans hn
    have h := (run_takes A s n).overtaken (run_sound A s n) (hN n hNn) hen
    rw [hlast n hNn, run_time] at h
    exact h ((le_max_right _ _).trans hn)
  obtain ⟨n, -, hnever⟩ := reaches_of_frequently (σ := run A s) (Q := fun _ => False)
    (A := fun x _ => Enabled (Proper (A i)) x.state) (fun x => (x.waiting ((run A s N).last i)).ncard)
    (fun n _ => Set.ncard_le_ncard ((run_takes A s n).waiting_subset (run_sound A s n) _)
      ((run_sound A s n).waiting_finite _))
    (fun n hn hen => Or.inr (hfewer n hn hen)) he
  exact hnever

end Run

end Turn

/-! ## Fair futures -/

/-- A behaviour that goes on as another sequence of steps. -/
theorem Behaviour.append {p : Spec S} {σ τ : ℕ → S} {N : ℕ} (h : Behaviour p σ)
    (hN : p.Next (σ N) (τ 0) ∨ τ 0 = σ N) (hτ : ∀ n, p.Next (τ n) (τ (n + 1)) ∨ τ (n + 1) = τ n) :
    Behaviour p fun n => if n ≤ N then σ n else τ (n - (N + 1)) := by
  refine ⟨by simpa using h.init, fun n => ?_⟩
  rcases Nat.lt_trichotomy n N with hlt | rfl | hgt
  · simp only [if_pos hlt.le, if_pos (Nat.succ_le_of_lt hlt)]
    exact h.next n
  · simp only [if_pos le_rfl, if_neg (Nat.not_succ_le_self n), Nat.sub_self]
    exact hN
  · simp only [if_neg (not_le.mpr hgt), if_neg (show ¬n + 1 ≤ N by omega), Nat.succ_sub (show N + 1 ≤ n by omega)]
    exact hτ (n - (N + 1))

/-- Fairness is about what happens from any point on. -/
theorem SF.of_tail {A : Action S} {σ τ : ℕ → S} {N : ℕ} (h : SF A τ) (hσ : ∀ n, σ (N + n) = τ n) : SF A σ := by
  have hshift : ∀ P : ℕ → Prop, (∃ᶠ n in atTop, P n) ↔ ∃ᶠ n in atTop, P (N + n) := by
    intro P
    constructor
    · intro hP
      refine frequently_atTop.mpr fun M => ?_
      obtain ⟨n, hn, hp⟩ := frequently_atTop.mp hP (N + M)
      exact ⟨n - N, by omega, by rwa [Nat.add_sub_cancel' (by omega)]⟩
    · intro hP
      refine frequently_atTop.mpr fun M => ?_
      obtain ⟨n, hn, hp⟩ := frequently_atTop.mp hP M
      exact ⟨N + n, by omega, hp⟩
  intro he
  refine (hshift _).mpr ?_
  have he' := h (((hshift _).mp he).mono fun n hn => by rwa [hσ] at hn)
  refine he'.mono fun n hn => ?_
  rwa [Nat.add_assoc, hσ, hσ]

/-- **Fair futures.** Where countably many actions are steps of a specification, every step from a reachable state has a
future that is strongly fair to each of them, in which nothing else happens. -/
theorem exists_fair {p : Spec S} {ι : Type*} [Countable ι] {A : ι → Action S} (hA : ∀ i s t, A i s t → p.Next s t)
    {s t : S} (h : p.Reachable s) (ht : p.Next s t ∨ t = s) :
    ∃ (σ : ℕ → S) (N : ℕ), Behaviour p σ ∧ σ N = s ∧ σ (N + 1) = t ∧ (∀ i, SF (A i) σ) ∧
      ∀ n, N < n → σ (n + 1) = σ n ∨ ∃ i, A i (σ n) (σ (n + 1)) := by
  obtain ⟨code, hcode⟩ := exists_injective_nat ι
  obtain ⟨s₀, hi, hr⟩ := h
  obtain ⟨σ, N, hσ, hN⟩ := exists_behaviour hi hr
  let B : ℕ → Action S := fun k s t => ∃ i, code i = k ∧ A i s t
  have hB : ∀ i, B (code i) = A i := by
    intro i
    funext s t
    refine propext ⟨?_, fun h => ⟨i, rfl, h⟩⟩
    rintro ⟨j, hj, h⟩
    exact hcode hj ▸ h
  let τ : ℕ → S := fun n => (Turn.run B t n).state
  have hmoves : ∀ n, τ (n + 1) = τ n ∨ ∃ i, A i (τ n) (τ (n + 1)) := by
    intro n
    rcases (Turn.run_takes B t n).moves with h | ⟨k, i, -, h⟩
    · exact Or.inl h
    · exact Or.inr ⟨i, h⟩
  have htail : ∀ n, (fun n => if n ≤ N then σ n else τ (n - (N + 1))) (N + 1 + n) = τ n := by
    intro n
    simp only [if_neg (show ¬N + 1 + n ≤ N by omega), Nat.add_sub_cancel_left]
  refine ⟨fun n => if n ≤ N then σ n else τ (n - (N + 1)), N, hσ.append ?_ fun n => ?_, ?_, htail 0, fun i => ?_,
    fun n hn => ?_⟩
  · rw [hN N le_rfl]
    exact ht
  · rcases hmoves n with h | ⟨i, h⟩
    · exact Or.inr h
    · exact Or.inl (hA i _ _ h)
  · exact (if_pos le_rfl).trans (hN N le_rfl)
  · exact SF.of_tail (hB i ▸ Turn.run_fair B t (code i)) htail
  · obtain ⟨m, rfl⟩ := Nat.exists_eq_add_of_le (Nat.succ_le_of_lt hn)
    rw [Nat.add_assoc (N + 1), htail, htail]
    exact hmoves m

end Temporal
