import Mathlib.Order.Filter.AtTopBot.Basic
import Mathlib.Order.OrderIsoNat
import Mathlib.Data.Set.Card
import Mathlib.Logic.Relation

/-!
# Behaviours of specifications

A specification is an initial condition and a next-state relation; a behaviour is an infinite sequence of states that
begins in one, and every step of which is a step of the relation or stutters. Fairness and progress are read off the
eventualities of the sequence.

- `Behaviour.invariant` and `Behaviour.invariant_step`: what the initial states have and every step keeps;
- `WF`, `SF`: weak and strong fairness of an action, about the steps of it that change the state;
- `LeadsTo` and the rules for it: transitivity, `leadsTo_of_wf` and `leadsTo_of_sf`;
- `settles`, `set_settles`: what no step raises in a well-founded order, or no step puts anything into, is constant from
  some point on; `reaches_of_frequently`: an action that recurs for ever and lowers such a rank until a state is
  reached, reaches it;
- `Spec.Reachable` is what finitely many steps reach; `exists_behaviour` makes a behaviour of them, by stuttering for
  ever after;
- `exists_refined`: a forward simulation of a program by finitely many steps for each of its own gives a behaviour.
-/

open Filter Relation

namespace Temporal

variable {S : Type*}

/-- A relation between a state and the next one. -/
abbrev Action (S : Type*) := S → S → Prop

/-- `ENABLED A`. -/
def Enabled (A : Action S) (s : S) : Prop := ∃ t, A s t

/-- `⟨A⟩_vars`: a step of the action that changes the state. -/
def Proper (A : Action S) : Action S := fun s t => A s t ∧ t ≠ s

/-- An initial condition and a next-state relation. -/
structure Spec (S : Type*) where
  Init : S → Prop
  Next : Action S

/-- `Init ∧ □[Next]_vars`. -/
structure Behaviour (p : Spec S) (σ : ℕ → S) : Prop where
  init : p.Init (σ 0)
  next : ∀ n, p.Next (σ n) (σ (n + 1)) ∨ σ (n + 1) = σ n

/-- `WF_vars(A)`. -/
def WF (A : Action S) (σ : ℕ → S) : Prop :=
  (∀ᶠ n in atTop, Enabled (Proper A) (σ n)) → ∃ᶠ n in atTop, Proper A (σ n) (σ (n + 1))

/-- `SF_vars(A)`. -/
def SF (A : Action S) (σ : ℕ → S) : Prop :=
  (∃ᶠ n in atTop, Enabled (Proper A) (σ n)) → ∃ᶠ n in atTop, Proper A (σ n) (σ (n + 1))

/-- `P ~> Q`. -/
def LeadsTo (P Q : S → Prop) (σ : ℕ → S) : Prop := ∀ n, P (σ n) → ∃ m, n ≤ m ∧ Q (σ m)

/-- Strong fairness is weak fairness and more. -/
theorem SF.wf {A : Action S} {σ : ℕ → S} (h : SF A σ) : WF A σ := fun he => h he.frequently

/-! ## Finite runs -/

/-- What every step keeps is kept by finitely many. -/
theorem reach_keeps {next : Action S} {I : S → Prop} (hs : ∀ s t, next s t → I s → I t) {s t : S}
    (h : ReflTransGen next s t) (hI : I s) : I t := by
  induction h with
  | refl => exact hI
  | tail _ hn ih => exact hs _ _ hn ih

/-- The states that finitely many steps from an initial state lead to. -/
def Spec.Reachable (p : Spec S) (t : S) : Prop := ∃ s, p.Init s ∧ ReflTransGen p.Next s t

theorem Spec.Reachable.reach {p : Spec S} {s t : S} (h : p.Reachable s) (hr : ReflTransGen p.Next s t) :
    p.Reachable t := by
  obtain ⟨i, hi, h⟩ := h
  exact ⟨i, hi, h.trans hr⟩

/-- What the initial states have and every step keeps, every reachable state has. -/
theorem Spec.Reachable.invariant {p : Spec S} {I : S → Prop} (h0 : ∀ s, p.Init s → I s)
    (hs : ∀ s t, p.Next s t → I s → I t) {t : S} (h : p.Reachable t) : I t := by
  obtain ⟨s, hi, hr⟩ := h
  exact reach_keeps hs hr (h0 s hi)

/-- The same, where the steps are those from reachable states. -/
theorem Spec.Reachable.invariant_from {p : Spec S} {I : S → Prop} (h0 : ∀ s, p.Init s → I s)
    (hs : ∀ s t, p.Reachable s → p.Next s t → I s → I t) {t : S} (h : p.Reachable t) : I t :=
  (h.invariant (I := fun s => p.Reachable s ∧ I s) (fun s hi => ⟨⟨s, hi, .refl⟩, h0 s hi⟩) fun s t hn hI =>
    ⟨hI.1.reach (.single hn), hs s t hI.1 hn hI.2⟩).2

section Behaviours

variable {p : Spec S} {σ : ℕ → S}

/-- Every state of a behaviour is reachable. -/
theorem Behaviour.reachable (h : Behaviour p σ) (n : ℕ) : p.Reachable (σ n) := by
  induction n with
  | zero => exact ⟨σ 0, h.init, .refl⟩
  | succ n ih =>
    rcases h.next n with hn | hn
    · exact ih.reach (.single hn)
    · rw [hn]
      exact ih

/-- **Invariants.** -/
theorem Behaviour.invariant {I : S → Prop} (h : Behaviour p σ) (h0 : ∀ s, p.Init s → I s)
    (hs : ∀ s t, p.Next s t → I s → I t) (n : ℕ) : I (σ n) := (h.reachable n).invariant h0 hs

/-- What every step of the relation from a state of the invariant does, and stuttering does, every step does. -/
theorem Behaviour.invariant_step {I : S → Prop} {A : Action S} (h : Behaviour p σ) (h0 : ∀ s, p.Init s → I s)
    (hs : ∀ s t, p.Next s t → I s → I t) (hA : ∀ s t, I s → p.Next s t → A s t) (hr : ∀ s, A s s) (n : ℕ) :
    A (σ n) (σ (n + 1)) := by
  rcases h.next n with hn | hn
  · exact hA _ _ (h.invariant h0 hs n) hn
  · rw [hn]
    exact hr _

/-- A behaviour goes through what it has reached: from a state of it, every later one is reached. -/
theorem Behaviour.reach (h : Behaviour p σ) {n m : ℕ} (hnm : n ≤ m) : ReflTransGen p.Next (σ n) (σ m) := by
  induction m, hnm using Nat.le_induction with
  | base => exact .refl
  | succ m _ ih =>
    rcases h.next m with hn | hn
    · exact .tail ih hn
    · rw [hn]
      exact ih

end Behaviours

/-! ## Behaviours from finite runs -/

/-- The states of a run of finitely many steps, and its last state for ever after. -/
theorem exists_behaviour {p : Spec S} {s t : S} (hi : p.Init s) (h : ReflTransGen p.Next s t) :
    ∃ (σ : ℕ → S) (N : ℕ), Behaviour p σ ∧ ∀ n, N ≤ n → σ n = t := by
  induction h with
  | refl => exact ⟨fun _ => s, 0, ⟨hi, fun _ => Or.inr rfl⟩, fun _ _ => rfl⟩
  | @tail t u _ hn ih =>
    obtain ⟨σ, N, hσ, hN⟩ := ih
    refine ⟨fun n => if n ≤ N then σ n else u, N + 1, ⟨by simpa using hσ.init, fun n => ?_⟩, fun n hn => ?_⟩
    · rcases Nat.lt_trichotomy n N with hlt | rfl | hgt
      · simp only [if_pos hlt.le, if_pos (Nat.succ_le_of_lt hlt)]
        exact hσ.next n
      · simp only [if_pos le_rfl, if_neg (Nat.not_succ_le_self n), hN n le_rfl]
        exact Or.inl hn
      · simp only [if_neg (not_le.mpr hgt), if_neg (show ¬n + 1 ≤ N by omega)]
        exact Or.inr trivial
    · exact if_neg (by omega)

/-! ## Progress -/

section Progress

variable {σ : ℕ → S} {A : Action S} {P Q R : S → Prop}

theorem LeadsTo.trans (h : LeadsTo P Q σ) (h' : LeadsTo Q R σ) : LeadsTo P R σ := by
  intro n hp
  obtain ⟨m, hnm, hq⟩ := h n hp
  obtain ⟨k, hmk, hr⟩ := h' m hq
  exact ⟨k, hnm.trans hmk, hr⟩

/-- A condition that holds until another is met holds up to any point before which that was not met. -/
theorem holds_until {n : ℕ} (hs : ∀ m, n ≤ m → P (σ m) → P (σ (m + 1)) ∨ Q (σ (m + 1)))
    (hq : ∀ m, n ≤ m → ¬Q (σ m)) (hp : P (σ n)) : ∀ m, n ≤ m → P (σ m) := by
  intro m hnm
  induction m, hnm using Nat.le_induction with
  | base => exact hp
  | succ m hm ih => exact (hs m hm ih).resolve_right (hq (m + 1) (by omega))

/-- **The rule for strong fairness.** -/
theorem leadsTo_of_sf (hf : SF A σ) (hs : ∀ n, P (σ n) → P (σ (n + 1)) ∨ Q (σ (n + 1)))
    (hA : ∀ n, P (σ n) → Proper A (σ n) (σ (n + 1)) → Q (σ (n + 1)))
    (he : ∀ n, (∀ m, n ≤ m → P (σ m)) → ∃ᶠ m in atTop, Enabled (Proper A) (σ m)) : LeadsTo P Q σ := by
  intro n hp
  by_contra hno
  push Not at hno
  have hP := holds_until (fun m _ => hs m) hno hp
  obtain ⟨m, hm, hstep⟩ := (frequently_atTop.mp (hf (he n hP))) n
  exact hno (m + 1) (by omega) (hA m (hP m hm) hstep)

/-- **The rule for weak fairness.** -/
theorem leadsTo_of_wf (hf : WF A σ) (hs : ∀ n, P (σ n) → P (σ (n + 1)) ∨ Q (σ (n + 1)))
    (hA : ∀ n, P (σ n) → Proper A (σ n) (σ (n + 1)) → Q (σ (n + 1)))
    (he : ∀ n, P (σ n) → Enabled (Proper A) (σ n)) : LeadsTo P Q σ := by
  intro n hp
  by_contra hno
  push Not at hno
  have hP := holds_until (fun m _ => hs m) hno hp
  have hen : ∀ᶠ m in atTop, Enabled (Proper A) (σ m) :=
    eventually_atTop.mpr ⟨n, fun m hm => he m (hP m hm)⟩
  obtain ⟨m, hm, hstep⟩ := (frequently_atTop.mp (hf hen)) n
  exact hno (m + 1) (by omega) (hA m (hP m hm) hstep)

/-- What follows an action that recurs recurs. -/
theorem recurs_after {B : ℕ → Prop} (h : ∃ᶠ n in atTop, B n) (hB : ∀ n, B n → P (σ (n + 1))) :
    ∃ᶠ n in atTop, P (σ n) := by
  refine frequently_atTop.mpr fun N => ?_
  obtain ⟨n, hn, hb⟩ := frequently_atTop.mp h N
  exact ⟨n + 1, by omega, hB n hb⟩

/-- Where a strongly fair action is enabled, or what it brings about is there already, again and again, that is there
again and again. -/
theorem SF.recurs (h : SF A σ) (he : ∃ᶠ n in atTop, Enabled (Proper A) (σ n) ∨ P (σ n))
    (hA : ∀ n, Proper A (σ n) (σ (n + 1)) → P (σ (n + 1))) : ∃ᶠ n in atTop, P (σ n) := by
  rcases frequently_or_distrib.mp he with he | hp
  · exact recurs_after (h he) hA
  · exact hp

/-- Where a weakly fair action is enabled, or what it brings about is there already, from some point on, that is there
again and again. -/
theorem WF.recurs (h : WF A σ) (he : ∀ᶠ n in atTop, Enabled (Proper A) (σ n) ∨ P (σ n))
    (hA : ∀ n, Proper A (σ n) (σ (n + 1)) → P (σ (n + 1))) : ∃ᶠ n in atTop, P (σ n) := by
  by_contra hno
  have hen : ∀ᶠ n in atTop, Enabled (Proper A) (σ n) :=
    (he.and (not_frequently.mp hno)).mono fun _ h => h.1.resolve_right h.2
  exact hno (recurs_after (h hen) hA)

/-- A rank that no step raises from some point on is constant from some point on. -/
theorem settles {α : Type*} [PartialOrder α] [WellFoundedLT α] (rank : S → α) {N : ℕ}
    (h : ∀ n, N ≤ n → rank (σ (n + 1)) ≤ rank (σ n)) : ∃ M, N ≤ M ∧ ∀ n, M ≤ n → rank (σ n) = rank (σ M) := by
  have hanti : Antitone fun n => rank (σ (N + n)) := antitone_nat_of_succ_le fun n => h (N + n) (by omega)
  obtain ⟨m, hm⟩ := WellFoundedLT.antitone_chain_condition hanti
  refine ⟨N + m, by omega, fun n hn => ?_⟩
  have hconst := hm (n - N) (by omega)
  rw [Nat.add_sub_cancel' (by omega)] at hconst
  exact hconst.symm

/-- **Progress by a rank.** An action that recurs for ever, and lowers a rank that nothing raises unless it reaches a
state, reaches it. -/
theorem reaches_of_frequently {α : Type*} [PartialOrder α] [WellFoundedLT α] (rank : S → α) {N : ℕ}
    (h : ∀ n, N ≤ n → rank (σ (n + 1)) ≤ rank (σ n))
    (hA : ∀ n, N ≤ n → A (σ n) (σ (n + 1)) → Q (σ (n + 1)) ∨ rank (σ (n + 1)) < rank (σ n))
    (hf : ∃ᶠ n in atTop, A (σ n) (σ (n + 1))) : ∃ n, N ≤ n ∧ Q (σ n) := by
  obtain ⟨M, hM, hconst⟩ := settles rank h
  obtain ⟨n, hn, hstep⟩ := frequently_atTop.mp hf M
  rcases hA n (hM.trans hn) hstep with hq | hlt
  · exact ⟨n + 1, by omega, hq⟩
  · rw [hconst n hn, hconst (n + 1) (by omega)] at hlt
    exact absurd hlt (lt_irrefl _)

/-- A finite set that nothing is put into from some point on is constant from some point on. -/
theorem set_settles {M : Type*} (stale : S → Set M) {N : ℕ} (hfin : (stale (σ N)).Finite)
    (h : ∀ n, N ≤ n → stale (σ (n + 1)) ⊆ stale (σ n)) : ∃ K, N ≤ K ∧ ∀ n, K ≤ n → stale (σ n) = stale (σ K) := by
  have hsub : ∀ n m, N ≤ n → n ≤ m → stale (σ m) ⊆ stale (σ n) := by
    intro n m hn hm
    induction m, hm using Nat.le_induction with
    | base => exact subset_rfl
    | succ m hm ih => exact (h m (hn.trans hm)).trans ih
  have hfin' : ∀ n, N ≤ n → (stale (σ n)).Finite := fun n hn => hfin.subset (hsub N n le_rfl hn)
  obtain ⟨K, hK, hcard⟩ := settles (fun s => (stale s).ncard) (N := N)
    fun n hn => Set.ncard_le_ncard (h n hn) (hfin' n hn)
  exact ⟨K, hK, fun n hn => Set.eq_of_subset_of_ncard_le (hsub K n hK hn) (hcard n hn).ge (hfin' K hK)⟩

end Progress

/-! ## Forward simulation -/

/-- Finitely many steps as a sequence of at least one, some of which may stutter. -/
theorem exists_path {next : Action S} {s t : S} (h : ReflTransGen next s t) :
    ∃ (len : ℕ) (u : ℕ → S), 0 < len ∧ u 0 = s ∧ u len = t ∧ ∀ j, j < len → next (u j) (u (j + 1)) ∨ u (j + 1) = u j := by
  induction h with
  | refl => exact ⟨1, fun _ => s, Nat.one_pos, rfl, rfl, fun _ _ => Or.inr rfl⟩
  | @tail t v _ hn ih =>
    obtain ⟨len, u, hpos, h0, hlen, hu⟩ := ih
    refine ⟨len + 1, Function.update u (len + 1) v, by omega, ?_, Function.update_self .., fun j hj => ?_⟩
    · rw [Function.update_of_ne (by omega), h0]
    · rw [Function.update_of_ne (show j ≠ len + 1 by omega)]
      rcases Nat.lt_succ_iff_lt_or_eq.mp hj with hlt | rfl
      · rw [Function.update_of_ne (show j + 1 ≠ len + 1 by omega)]
        exact hu j hlt
      · rw [Function.update_self, hlen]
        exact Or.inl hn

/-- The number of a stretch and the place in it, after `n` places of stretches of these lengths. -/
def place (len : ℕ → ℕ) : ℕ → ℕ × ℕ
  | 0 => (0, 0)
  | n + 1 => if (place len n).2 + 1 < len (place len n).1 then ((place len n).1, (place len n).2 + 1)
    else ((place len n).1 + 1, 0)

/-- Where a stretch begins. -/
def start (len : ℕ → ℕ) : ℕ → ℕ
  | 0 => 0
  | n + 1 => start len n + len n

theorem place_start {len : ℕ → ℕ} (hlen : ∀ n, 0 < len n) (n : ℕ) : ∀ j, j < len n → place len (start len n + j) = (n, j) := by
  induction n with
  | zero =>
    intro j hj
    induction j with
    | zero => rfl
    | succ j ih =>
      rw [← Nat.add_assoc, place, ih (by omega), if_pos hj]
  | succ n ihn =>
    have hlast : place len (start len n + (len n - 1)) = (n, len n - 1) := ihn _ (Nat.sub_lt (hlen n) Nat.one_pos)
    intro j hj
    induction j with
    | zero =>
      have hstart : start len (n + 1) + 0 = start len n + (len n - 1) + 1 := by
        have := hlen n
        simp only [start]
        omega
      have hend : ¬len n - 1 + 1 < len n := by
        have := hlen n
        omega
      rw [hstart, place, hlast, if_neg hend]
    | succ j ih => rw [← Nat.add_assoc, place, ih (by omega), if_pos hj]

theorem place_lt {len : ℕ → ℕ} (hlen : ∀ n, 0 < len n) (m : ℕ) : (place len m).2 < len (place len m).1 := by
  induction m with
  | zero => exact hlen 0
  | succ m ih =>
    rw [place]
    split
    · assumption
    · exact hlen _

/-- A sequence of states each of which is reached from the one before is part of a behaviour. -/
theorem exists_through {p : Spec S} {τ : ℕ → S} (hi : p.Init (τ 0)) (hτ : ∀ n, ReflTransGen p.Next (τ n) (τ (n + 1))) :
    ∃ (σ : ℕ → S) (f : ℕ → ℕ), Behaviour p σ ∧ StrictMono f ∧ ∀ n, σ (f n) = τ n := by
  choose len u hpos h0 hlen hu using fun n => exists_path (hτ n)
  refine ⟨fun m => u (place len m).1 (place len m).2, start len, ⟨?_, fun m => ?_⟩, strictMono_nat_of_lt_succ fun n => ?_,
    fun n => ?_⟩
  · simp only [place]
    rw [h0]
    exact hi
  · have hlt := place_lt hpos m
    simp only [place]
    split
    · exact hu _ _ hlt
    · -- the end of one stretch is the beginning of the next
      rename_i hend
      have hstep := hu _ _ hlt
      rw [show (place len m).2 + 1 = len (place len m).1 by omega, hlen] at hstep
      simp only [h0]
      exact hstep
  · exact Nat.lt_add_of_pos_right (hpos n)
  · have hplace := place_start hpos n 0 (hpos n)
    rw [Nat.add_zero] at hplace
    simp only [hplace]
    exact h0 n

/-- **Forward simulation.** Where states of a specification that stand for the first `n` steps of a program go on, in
finitely many steps, to states that stand for one more, a behaviour of the specification goes through all of them. -/
theorem exists_refined {p : Spec S} {R : ℕ → S → Prop} {s : S} (hi : p.Init s) (h0 : R 0 s)
    (hs : ∀ n s, R n s → ∃ t, ReflTransGen p.Next s t ∧ R (n + 1) t) :
    ∃ (σ : ℕ → S) (f : ℕ → ℕ), Behaviour p σ ∧ StrictMono f ∧ ∀ n, R n (σ (f n)) := by
  choose next hnext hR using fun n (s : {s // R n s}) => hs n s.1 s.2
  let states : (n : ℕ) → {s // R n s} := fun n => Nat.rec ⟨s, h0⟩ (fun n s => ⟨next n s, hR n s⟩) n
  obtain ⟨σ, f, hσ, hf, h⟩ := exists_through (τ := fun n => (states n).1) hi fun n => hnext n (states n)
  exact ⟨σ, f, hσ, hf, fun n => h n ▸ (states n).2⟩

/-- The same for the prefixes of a list of actions. -/
theorem exists_refined_list {α : Type*} {p : Spec S} {R : List α → S → Prop} {s : S} (as : List α) (hi : p.Init s)
    (h0 : R [] s)
    (hs : ∀ bs a s, bs ++ [a] <+: as → R bs s → ∃ t, ReflTransGen p.Next s t ∧ R (bs ++ [a]) t) :
    ∃ (σ : ℕ → S) (f : ℕ → ℕ), Behaviour p σ ∧ StrictMono f ∧ ∀ n, R (as.take n) (σ (f n)) := by
  refine exists_refined (R := fun n => R (as.take n)) hi h0 fun n s h => ?_
  rcases Nat.lt_or_ge n as.length with hlt | hge
  · have hprefix := List.take_prefix (n + 1) as
    rw [← List.take_concat_get' as n hlt] at hprefix ⊢
    exact hs _ _ s hprefix h
  · rw [List.take_of_length_le (by omega)] at h ⊢
    exact ⟨s, .refl, h⟩

end Temporal
