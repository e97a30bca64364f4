import Mathlib.Algebra.BigOperators.Group.Finset.Basic
import Mathlib.Algebra.Order.BigOperators.Ring.Finset
import Mathlib.Analysis.Convex.Hull
import Mathlib.Data.List.GetD
import Mathlib.Tactic.FieldSimp
import Mathlib.Tactic.Linarith
import Mathlib.Tactic.Ring

/-!
# Recursive least squares with forgetting

The scalar estimator of a constant from measurements of it, over an ordered field: it starts from the estimate `0` with
weight 1, and with every measurement the weights of the earlier ones are multiplied by a factor.

- `update` is the recursion on the estimate and its covariance;
- `weighted` and `weight` are the weighted sum of the measurements and the sum of the weights;
- `estimate_eq`: the recursion computes their quotient and the reciprocal of the weight;
- `estimate_covariance`, `estimate_hull`: the covariance is positive and at most 1, and the estimate is in the convex hull
  of `0` and the measurements.
-/

namespace LeastSquares

variable {α : Type} [Field α]

/-- An estimate, and its covariance. -/
structure Estimate (α : Type) where
  value : α
  covariance : α

/-- The estimate before any measurement. -/
def initial : Estimate α := ⟨0, 1⟩

/-- The gain of the next measurement. -/
def gain (forgetting : α) (e : Estimate α) : α := e.covariance / (forgetting + e.covariance)

def update (forgetting : α) (e : Estimate α) (m : α) : Estimate α :=
  let g := gain forgetting e
  ⟨e.value + g * (m - e.value), (1 - g) * (e.covariance / forgetting)⟩

/-- The estimate after the measurements `ms`. -/
def estimate (forgetting : α) (ms : List α) : Estimate α := ms.foldl (update forgetting) initial

/-- The weighted sum of the measurements: the last one has weight 1. -/
def weighted (forgetting : α) (ms : List α) : α :=
  ∑ i ∈ Finset.range ms.length, forgetting ^ (ms.length - 1 - i) * ms.getD i 0

/-- The weights of `n` measurements and of the initial estimate. -/
def weight (forgetting : α) (n : ℕ) : α := ∑ i ∈ Finset.range n, forgetting ^ (n - 1 - i) + forgetting ^ n

variable {forgetting : α}

@[simp] theorem weighted_nil : weighted forgetting [] = 0 := by simp [weighted]

@[simp] theorem weight_zero : weight forgetting 0 = 1 := by simp [weight]

/-- A later measurement forgets once more. -/
theorem weighted_snoc (ms : List α) (m : α) :
    weighted forgetting (ms ++ [m]) = forgetting * weighted forgetting ms + m := by
  unfold weighted
  rw [List.length_append, List.length_singleton, Finset.sum_range_succ, Finset.mul_sum]
  congr 1
  · refine Finset.sum_congr rfl fun i hi => ?_
    have hi : i < ms.length := Finset.mem_range.mp hi
    have he : ms.length + 1 - 1 - i = ms.length - 1 - i + 1 := by omega
    rw [List.getD_append _ _ _ _ hi, he, pow_succ]
    ring
  · simp

theorem weight_succ (n : ℕ) : weight forgetting (n + 1) = forgetting * weight forgetting n + 1 := by
  unfold weight
  rw [Finset.sum_range_succ, mul_add, Finset.mul_sum]
  have hsum : ∑ i ∈ Finset.range n, forgetting ^ (n + 1 - 1 - i) =
      ∑ i ∈ Finset.range n, forgetting * forgetting ^ (n - 1 - i) := by
    refine Finset.sum_congr rfl fun i hi => ?_
    have hi : i < n := Finset.mem_range.mp hi
    have he : n + 1 - 1 - i = n - 1 - i + 1 := by omega
    rw [he, pow_succ]
    ring
  rw [hsum, show n + 1 - 1 - n = 0 by omega, pow_zero, pow_succ]
  ring

theorem estimate_snoc (ms : List α) (m : α) :
    estimate forgetting (ms ++ [m]) = update forgetting (estimate forgetting ms) m := by
  simp [estimate]

section Ordered

variable [LinearOrder α] [IsStrictOrderedRing α]

theorem one_le_weight (h : 0 < forgetting) (n : ℕ) : 1 ≤ weight forgetting n := by
  induction n with
  | zero => simp
  | succ n ih =>
    rw [weight_succ]
    have hpos : 0 < forgetting * weight forgetting n := mul_pos h (by linarith)
    linarith

/-- **The closed form.** -/
theorem estimate_eq (h : 0 < forgetting) (ms : List α) :
    estimate forgetting ms =
      ⟨weighted forgetting ms / weight forgetting ms.length, 1 / weight forgetting ms.length⟩ := by
  induction ms using List.reverseRecOn with
  | nil => simp [estimate, initial]
  | append_singleton ms m ih =>
    have hw := one_le_weight h ms.length
    have hne : weight forgetting ms.length ≠ 0 := by linarith
    have hsucc : forgetting * weight forgetting ms.length + 1 ≠ 0 := by
      have hpos : 0 < forgetting * weight forgetting ms.length := mul_pos h (by linarith)
      linarith
    have hgain : gain forgetting (estimate forgetting ms) = 1 / (forgetting * weight forgetting ms.length + 1) := by
      rw [ih]
      unfold gain
      field_simp
    rw [estimate_snoc, List.length_append, List.length_singleton, weighted_snoc, weight_succ]
    unfold update
    rw [hgain, ih]
    simp only [Estimate.mk.injEq]
    constructor
    · field_simp
      ring
    · field_simp
      ring

/-- The covariance is positive and at most 1. -/
theorem estimate_covariance (h : 0 < forgetting) (ms : List α) :
    0 < (estimate forgetting ms).covariance ∧ (estimate forgetting ms).covariance ≤ 1 := by
  have hw := one_le_weight h ms.length
  rw [estimate_eq h]
  constructor
  · exact one_div_pos.mpr (by linarith)
  · exact (div_le_one (by linarith)).mpr hw

/-- The estimate moves from `0` towards one measurement after the other. -/
theorem estimate_hull (h : 0 < forgetting) (ms : List α) :
    (estimate forgetting ms).value ∈ convexHull α (insert 0 {m | m ∈ ms}) := by
  induction ms using List.reverseRecOn with
  | nil => exact subset_convexHull _ _ (Set.mem_insert _ _)
  | append_singleton ms m ih =>
    rw [estimate_snoc]
    obtain ⟨hpos, -⟩ := estimate_covariance h ms
    have hg : 0 ≤ gain forgetting (estimate forgetting ms) := (div_pos hpos (by linarith)).le
    have hg' : gain forgetting (estimate forgetting ms) ≤ 1 := (div_le_one (by linarith)).mpr (by linarith)
    have hsub : (insert 0 {x | x ∈ ms} : Set α) ⊆ insert 0 {x | x ∈ ms ++ [m]} := by
      apply Set.insert_subset_insert
      intro x hx
      exact List.mem_append_left _ hx
    have hold := (convexHull α).monotone hsub ih
    have hnew : m ∈ convexHull α (insert 0 {x | x ∈ ms ++ [m]}) :=
      subset_convexHull _ _ (Set.mem_insert_of_mem _ (List.mem_append_right _ (List.mem_singleton_self m)))
    have hmid := convex_convexHull α (insert 0 {x | x ∈ ms ++ [m]}) hold hnew (sub_nonneg.mpr hg') hg (by ring)
    have he : (update forgetting (estimate forgetting ms) m).value =
        (1 - gain forgetting (estimate forgetting ms)) • (estimate forgetting ms).value +
          gain forgetting (estimate forgetting ms) • m := by
      simp only [update, smul_eq_mul]
      ring
    rw [he]
    exact hmid

end Ordered

end LeastSquares
