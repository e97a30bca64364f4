import Mathlib.Data.List.Count
import Mathlib.Order.Lattice
import Mathlib.Order.Basic

/-!
# Ranks in a growing list

How many elements of a list are at most a given one. Where only greater elements are put at the end of the list, the
rank of what is in it does not change, so ranks number instants in the order in which they came.
-/

namespace Ranks

variable {α : Type*} [LinearOrder α]

/-- How many elements of the list are at most `x`. -/
def rank (xs : List α) (x : α) : ℕ := xs.countP fun y => decide (y ≤ x)

theorem rank_mono (xs : List α) {x y : α} (h : x ≤ y) : rank xs x ≤ rank xs y :=
  List.countP_mono_left fun _ _ hz => decide_eq_true ((of_decide_eq_true hz).trans h)

/-- An element of the list is ahead of everything below it. -/
theorem rank_lt {xs : List α} {x y : α} (hy : y ∈ xs) (h : x < y) : rank xs x < rank xs y := by
  induction xs with
  | nil => cases hy
  | cons z xs ih =>
    simp only [rank, List.countP_cons, decide_eq_true_eq]
    rcases List.mem_cons.mp hy with rfl | hy
    · rw [if_neg h.not_ge, if_pos le_rfl]
      exact Nat.lt_succ_of_le (rank_mono xs h.le)
    · have hlt := ih hy
      simp only [rank] at hlt
      split
      · rename_i hz
        rw [if_pos (hz.trans h.le)]
        omega
      · omega

/-- Ranks order the elements of the list, and nothing below one of them is equal to it. -/
theorem rank_lt_iff {xs : List α} {x y : α} (hy : y ∈ xs) : rank xs x < rank xs y ↔ x < y :=
  ⟨fun h => not_le.mp fun hle => (rank_mono xs hle).not_gt h, rank_lt hy⟩

theorem rank_inj {xs : List α} {x y : α} (hx : x ∈ xs) (hy : y ∈ xs) : rank xs x = rank xs y ↔ x = y := by
  refine ⟨fun h => ?_, fun h => h ▸ rfl⟩
  rcases lt_trichotomy x y with hlt | heq | hgt
  · exact absurd h (rank_lt hy hlt).ne
  · exact heq
  · exact absurd h (rank_lt hx hgt).ne'

/-- What comes later does not change the rank of what is below it. -/
theorem rank_snoc {xs : List α} {x y : α} (h : x < y) : rank (xs ++ [y]) x = rank xs x := by
  simp only [rank, List.countP_append, List.countP_singleton, decide_eq_true_eq, if_neg h.not_ge, Nat.add_zero]

theorem rank_top {xs : List α} {x : α} (h : ∀ y ∈ xs, y ≤ x) : rank xs x = xs.length :=
  List.countP_eq_length.mpr fun y hy => decide_eq_true (h y hy)

theorem rank_pos {xs : List α} {x : α} (hx : x ∈ xs) : 0 < rank xs x :=
  List.countP_pos_iff.mpr ⟨x, hx, decide_eq_true le_rfl⟩

end Ranks
