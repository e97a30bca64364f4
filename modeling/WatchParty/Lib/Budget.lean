import Mathlib.Algebra.Order.Field.Basic
import Mathlib.Tactic.Linarith
import Mathlib.Tactic.Ring
import WatchParty.Lib.Machine

/-!
# Budgets that refill

A machine whose admissions are paid from a level: it is never above a capacity, it rises no faster than a rate, and every
admission lowers it by 1 from at least 1.

- `Budget` says so of a machine, of the actions that are allowed and of the states that meet an invariant;
- `admitted` counts the admissions of a time window;
- `Budget.admitted_le`: they are no more than the capacity and what refills in the window.
-/

/-- The admissions of a machine are paid from a level. -/
structure Budget {S A O α : Type} [Field α] [LinearOrder α] (m : Machine S A O) (capacity rate : α) where
  inv : S → Prop
  allowed : A → Prop
  time? : A → Option α
  admits : A → O → Bool
  level : S → α → α
  keeps : ∀ s a, inv s → allowed a → inv (m.step s a).1
  full : ∀ s t, level s t ≤ capacity
  refills : ∀ s t t', t ≤ t' → level s t' ≤ level s t + rate * (t' - t)
  spends : ∀ s a t, inv s → allowed a → time? a = some t → admits a (m.step s a).2 = true →
    1 ≤ level s t ∧ level (m.step s a).1 t ≤ level s t - 1
  refuses : ∀ s a t, inv s → allowed a → time? a = some t → admits a (m.step s a).2 = false →
    level (m.step s a).1 t ≤ level s t
  passes : ∀ s a t, inv s → allowed a → time? a = none → level (m.step s a).1 t ≤ level s t

namespace Budget

variable {S A O α : Type} [Field α] [LinearOrder α] {m : Machine S A O} {capacity rate : α}

/-- The event is an admission in the window. -/
def counts (b : Budget m capacity rate) (start stop : α) (e : Machine.Event S A O) : Bool :=
  b.admits e.act e.out && (b.time? e.act).any fun t => decide (start ≤ t ∧ t ≤ stop)

/-- The number of the admissions in the window. -/
def admitted (b : Budget m capacity rate) (start stop : α) (tr : List (Machine.Event S A O)) : ℕ :=
  tr.countP (b.counts start stop)

/-- The actions come at times that do not decrease. -/
def Ordered (b : Budget m capacity rate) (as : List A) : Prop := (as.filterMap b.time?).Pairwise (· ≤ ·)

variable {b : Budget m capacity rate} {start stop : α}

theorem Ordered.tail {a : A} {as : List A} (h : b.Ordered (a :: as)) : b.Ordered as :=
  List.Pairwise.sublist ((List.sublist_cons_self a as).filterMap _) h

/-- What follows an action comes no sooner than the action. -/
theorem Ordered.head {a : A} {as : List A} {t : α} (h : b.Ordered (a :: as)) (ht : b.time? a = some t) :
    ∀ t' ∈ as.filterMap b.time?, t ≤ t' := by
  unfold Ordered at h
  rw [List.filterMap_cons, ht] at h
  exact (List.pairwise_cons.mp h).1

theorem admitted_cons (s : S) (a : A) (as : List A) :
    b.admitted start stop (m.traceFrom s (a :: as)) =
      b.admitted start stop (m.traceFrom (m.step s a).1 as) + if b.counts start stop (m.event s a) then 1 else 0 :=
  List.countP_cons

variable [IsStrictOrderedRing α]

/-- **From inside the window.** What is admitted from then on is paid from the level and from what refills. -/
theorem admitted_from {as : List A} : ∀ (s : S) (t₀ : α), b.inv s → (∀ a ∈ as, b.allowed a) → b.Ordered as →
    (∀ t ∈ as.filterMap b.time?, t₀ ≤ t) → 0 < b.admitted start stop (m.traceFrom s as) → 0 ≤ rate →
    (b.admitted start stop (m.traceFrom s as) : α) ≤ b.level s t₀ + rate * (stop - t₀) := by
  induction as with
  | nil => exact fun _ _ _ _ _ _ hpos => absurd hpos (lt_irrefl 0)
  | cons a as ih =>
    intro s t₀ hinv hok hord hfrom hpos hrate
    have hnext := b.keeps s a hinv (hok a List.mem_cons_self)
    have hok' : ∀ a ∈ as, b.allowed a := fun x hx => hok x (List.mem_cons_of_mem a hx)
    rw [admitted_cons] at hpos ⊢
    cases ht : b.time? a with
    | none =>
      have hno : b.counts start stop (m.event s a) = false := by simp [counts, ht]
      rw [hno] at hpos ⊢
      have hfrom' : ∀ t ∈ as.filterMap b.time?, t₀ ≤ t := fun t h =>
        hfrom t (((List.sublist_cons_self a as).filterMap _).subset h)
      have hrest := ih _ t₀ hnext hok' hord.tail hfrom' hpos hrate
      have hpass := b.passes s a t₀ hinv (hok a List.mem_cons_self) ht
      simp only [Bool.false_eq_true, if_false, Nat.add_zero]
      linarith
    | some t =>
      have ht₀ : t₀ ≤ t := hfrom t (List.mem_filterMap.mpr ⟨a, List.mem_cons_self, ht⟩)
      have hlater := hord.head ht
      have hrefill := b.refills s t₀ t ht₀
      have hrest := ih _ t hnext hok' hord.tail hlater
      cases hc : b.counts start stop (m.event s a) with
      | false =>
        rw [hc] at hpos
        have hlevel : b.level (m.step s a).1 t ≤ b.level s t := by
          cases had : b.admits a (m.step s a).2 with
          | false => exact b.refuses s a t hinv (hok a List.mem_cons_self) ht had
          | true =>
            have hspend := (b.spends s a t hinv (hok a List.mem_cons_self) ht had).2
            linarith
        have hrest := hrest hpos hrate
        simp only [Bool.false_eq_true, if_false, Nat.add_zero]
        linarith
      | true =>
        have hc' := hc
        unfold counts at hc'
        rw [Machine.event_act, Machine.event_out, Bool.and_eq_true, ht, Option.any_some, decide_eq_true_eq] at hc'
        obtain ⟨had, -, hstop⟩ := hc'
        obtain ⟨hone, hspend⟩ := b.spends s a t hinv (hok a List.mem_cons_self) ht had
        have hleft : 0 ≤ rate * (stop - t) := mul_nonneg hrate (sub_nonneg.mpr hstop)
        have hsum : rate * (stop - t₀) = rate * (t - t₀) + rate * (stop - t) := by ring
        rw [if_pos rfl, Nat.cast_add, Nat.cast_one]
        rcases Nat.eq_zero_or_pos (b.admitted start stop (m.traceFrom (m.step s a).1 as)) with hz | hp
        · rw [hz, Nat.cast_zero]
          linarith
        · have hrest := hrest hp hrate
          linarith

/-- **Any window.** What is admitted in a window is no more than the capacity and what refills in it. -/
theorem admitted_le {as : List A} (hc : 0 ≤ capacity) (hrate : 0 ≤ rate) (hw : start ≤ stop) :
    ∀ {s : S}, b.inv s → (∀ a ∈ as, b.allowed a) → b.Ordered as →
      (b.admitted start stop (m.traceFrom s as) : α) ≤ capacity + rate * (stop - start) := by
  have hspan : 0 ≤ rate * (stop - start) := mul_nonneg hrate (sub_nonneg.mpr hw)
  induction as with
  | nil =>
    intro s _ _ _
    simpa [admitted, Machine.traceFrom] using add_nonneg hc hspan
  | cons a as ih =>
    intro s hinv hok hord
    rcases Nat.eq_zero_or_pos (b.admitted start stop (m.traceFrom s (a :: as))) with hz | hp
    · rw [hz, Nat.cast_zero]
      exact add_nonneg hc hspan
    · by_cases hin : ∀ t ∈ (a :: as).filterMap b.time?, start ≤ t
      · have hfrom := admitted_from s start hinv hok hord hin hp hrate
        have hfull := b.full s start
        linarith
      · -- The first action is untimed or before the window: it is not counted.
        have hno : b.counts start stop (m.event s a) = false := by
          unfold counts
          rw [Machine.event_act, Machine.event_out]
          cases ht : b.time? a with
          | none => simp
          | some t =>
            have hearly : ¬start ≤ t := by
              intro hle
              refine hin fun t' ht' => ?_
              rw [List.filterMap_cons, ht, List.mem_cons] at ht'
              rcases ht' with rfl | ht'
              · exact hle
              · exact hle.trans (hord.head ht t' ht')
            simp [hearly]
        rw [admitted_cons, hno]
        exact ih (b.keeps s a hinv (hok a List.mem_cons_self)) (fun x hx => hok x (List.mem_cons_of_mem a hx)) hord.tail

end Budget
