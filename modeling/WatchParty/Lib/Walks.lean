import Mathlib.Data.List.Basic
import Mathlib.Data.List.Infix

/-!
# Walks along a path

A path is a list of names, walked by steps down to a name and steps up. A step up at the root stays there.

- `walk_eq_nil`: a walk is at the root iff no end of it has more names than ups;
- `walk_eq_cons`: a walk is below a name of the root iff it can be cut at the name, at the root before, and never leaves
  the name again, which is to say that no beginning of what comes after has more ups than names.
-/

namespace Walks

variable {α : Type}

inductive Step (α : Type)
  | up
  | down (a : α)
  deriving DecidableEq, Repr

def go (path : List α) : Step α → List α
  | .up => path.dropLast
  | .down a => path ++ [a]

/-- Where the steps lead from a path. -/
def walkFrom (path : List α) (steps : List (Step α)) : List α := steps.foldl go path

/-- Where the steps lead from the root. -/
def walk (steps : List (Step α)) : List α := walkFrom [] steps

def names (steps : List (Step α)) : ℕ := steps.countP fun s => match s with | .up => false | .down _ => true

def ups (steps : List (Step α)) : ℕ := steps.countP fun s => match s with | .up => true | .down _ => false

/-- No end has more names than ups. -/
def Returns (steps : List (Step α)) : Prop := ∀ t, t <:+ steps → names t ≤ ups t

/-- No beginning has more ups than names. -/
def Stays (steps : List (Step α)) : Prop := ∀ t, t <+: steps → ups t ≤ names t

/-! ## One more step -/

variable {steps after : List (Step α)} {a b : α} {path q : List α}

@[simp] theorem names_nil : names ([] : List (Step α)) = 0 := rfl

@[simp] theorem ups_nil : ups ([] : List (Step α)) = 0 := rfl

@[simp] theorem names_up : names (steps ++ [.up]) = names steps := by simp [names]

@[simp] theorem ups_up : ups (steps ++ [.up]) = ups steps + 1 := by simp [ups]

@[simp] theorem names_down : names (steps ++ [.down a]) = names steps + 1 := by simp [names]

@[simp] theorem ups_down : ups (steps ++ [.down a]) = ups steps := by simp [ups]

theorem walkFrom_up : walkFrom path (steps ++ [.up]) = (walkFrom path steps).dropLast := by simp [walkFrom, go]

theorem walkFrom_down : walkFrom path (steps ++ [.down a]) = walkFrom path steps ++ [a] := by simp [walkFrom, go]

theorem walkFrom_append : walkFrom path (steps ++ after) = walkFrom (walkFrom path steps) after := by simp [walkFrom]

theorem stays_nil : Stays ([] : List (Step α)) := by
  intro t ht
  rw [List.prefix_nil.mp ht]
  exact le_rfl

theorem stays_up : Stays (steps ++ [.up]) ↔ Stays steps ∧ ups steps + 1 ≤ names steps := by
  constructor
  · intro h
    refine ⟨fun t ht => h t (ht.trans (List.prefix_append _ _)), ?_⟩
    simpa using h _ List.prefix_rfl
  · rintro ⟨h, hlt⟩ t ht
    rcases List.prefix_concat_iff.mp ht with rfl | ht
    · simpa using hlt
    · exact h t ht

theorem stays_down : Stays (steps ++ [.down a]) ↔ Stays steps := by
  constructor
  · exact fun h t ht => h t (ht.trans (List.prefix_append _ _))
  · intro h t ht
    rcases List.prefix_concat_iff.mp ht with rfl | ht
    · have hall := h _ List.prefix_rfl
      rw [ups_down, names_down]
      omega
    · exact h t ht

/-! ## Where a walk is -/

/-- How deep a walk is. -/
theorem walk_length_le (steps : List (Step α)) (n : ℕ) :
    (walk steps).length ≤ n ↔ ∀ t, t <:+ steps → names t ≤ ups t + n := by
  induction steps using List.reverseRecOn generalizing n with
  | nil =>
    constructor
    · intro _ t ht
      rw [List.suffix_nil.mp ht]
      exact Nat.zero_le _
    · exact fun _ => Nat.zero_le _
  | append_singleton steps s ih =>
    cases s with
    | up =>
      have hlen : (walk (steps ++ [.up])).length = (walk steps).length - 1 := by
        unfold walk
        rw [walkFrom_up, List.length_dropLast]
      rw [hlen, Nat.sub_le_iff_le_add, ih]
      constructor
      · intro h t ht
        rcases List.suffix_concat_iff.mp ht with rfl | ⟨t, rfl, hsuffix⟩
        · exact Nat.zero_le _
        · have hold := h t hsuffix
          rw [names_up, ups_up]
          omega
      · intro h t ht
        have hnew := h (t ++ [.up]) (List.suffix_concat_iff.mpr (Or.inr ⟨t, rfl, ht⟩))
        rw [names_up, ups_up] at hnew
        omega
    | down a =>
      have hlen : (walk (steps ++ [.down a])).length = (walk steps).length + 1 := by
        unfold walk
        rw [walkFrom_down, List.length_append, List.length_singleton]
      rw [hlen]
      constructor
      · intro h t ht
        rcases List.suffix_concat_iff.mp ht with rfl | ⟨t, rfl, hsuffix⟩
        · exact Nat.zero_le _
        · have hold := (ih (n - 1)).mp (by omega) t hsuffix
          rw [names_down, ups_down]
          omega
      · intro h
        have hone := h [.down a] (List.suffix_concat_iff.mpr (Or.inr ⟨[], rfl, List.nil_suffix⟩))
        have hpos : 1 ≤ n := by simpa [names, ups] using hone
        have hle := (ih (n - 1)).mpr fun t ht => by
          have hnew := h (t ++ [.down a]) (List.suffix_concat_iff.mpr (Or.inr ⟨t, rfl, ht⟩))
          rw [names_down, ups_down] at hnew
          omega
        omega

/-- **A walk at the root.** -/
theorem walk_eq_nil : walk steps = [] ↔ Returns steps := by
  rw [← List.length_eq_zero_iff, ← Nat.le_zero, walk_length_le]
  rfl

/-- A walk that stays below a name is as deep as its names and ups say. -/
theorem walkFrom_stays (h : Stays after) :
    ∃ q, walkFrom [a] after = a :: q ∧ q.length + ups after = names after := by
  induction after using List.reverseRecOn with
  | nil => exact ⟨[], rfl, rfl⟩
  | append_singleton after s ih =>
    cases s with
    | up =>
      obtain ⟨hstays, hlt⟩ := stays_up.mp h
      obtain ⟨q, hq, hlen⟩ := ih hstays
      have hne : q ≠ [] := by
        rintro rfl
        rw [List.length_nil] at hlen
        omega
      refine ⟨q.dropLast, ?_, ?_⟩
      · rw [walkFrom_up, hq, List.dropLast_cons_of_ne_nil hne]
      · have hpos := List.length_pos_of_ne_nil hne
        rw [List.length_dropLast, ups_up, names_up]
        omega
    | down b =>
      obtain ⟨q, hq, hlen⟩ := ih (stays_down.mp h)
      refine ⟨q ++ [b], ?_, ?_⟩
      · rw [walkFrom_down, hq, List.cons_append]
      · rw [List.length_append, List.length_singleton, ups_down, names_down]
        omega

/-- A walk below a name came to the name from the root. -/
theorem cut_of_walk (h : walk steps = a :: q) :
    ∃ before after, steps = before ++ .down a :: after ∧ Returns before ∧ Stays after ∧
      q.length + ups after = names after := by
  induction steps using List.reverseRecOn generalizing q with
  | nil => cases h
  | append_singleton steps s ih =>
    unfold walk at h ih
    cases s with
    | up =>
      rw [walkFrom_up] at h
      cases hw : walkFrom [] steps with
      | nil =>
        rw [hw] at h
        cases h
      | cons b path =>
        have hne : path ≠ [] := by
          rintro rfl
          rw [hw] at h
          cases h
        rw [hw, List.dropLast_cons_of_ne_nil hne] at h
        obtain ⟨rfl, rfl⟩ := List.cons.inj h
        obtain ⟨before, after, rfl, hr, hs, hlen⟩ := ih hw
        have hpos := List.length_pos_of_ne_nil hne
        refine ⟨before, after ++ [.up], by simp, hr, stays_up.mpr ⟨hs, by omega⟩, ?_⟩
        rw [List.length_dropLast, ups_up, names_up]
        omega
    | down b =>
      rw [walkFrom_down] at h
      cases hw : walkFrom [] steps with
      | nil =>
        rw [hw] at h
        obtain ⟨rfl, rfl⟩ := List.cons.inj h
        exact ⟨steps, [], rfl, walk_eq_nil.mp hw, stays_nil, rfl⟩
      | cons c path =>
        rw [hw, List.cons_append] at h
        obtain ⟨rfl, rfl⟩ := List.cons.inj h
        obtain ⟨before, after, rfl, hr, hs, hlen⟩ := ih hw
        refine ⟨before, after ++ [.down b], by simp, hr, stays_down.mpr hs, ?_⟩
        rw [List.length_append, List.length_singleton, ups_down, names_down]
        omega

/-- **A walk below a name**, `n` names deep. -/
theorem walk_eq_cons {n : ℕ} :
    (∃ q, walk steps = a :: q ∧ q.length = n) ↔
      ∃ before after, steps = before ++ .down a :: after ∧ Returns before ∧ Stays after ∧
        n + ups after = names after := by
  constructor
  · rintro ⟨q, hq, rfl⟩
    exact cut_of_walk hq
  · rintro ⟨before, after, rfl, hr, hs, hn⟩
    obtain ⟨q, hq, hlen⟩ := walkFrom_stays (a := a) hs
    refine ⟨q, ?_, by omega⟩
    have hroot : walkFrom [] before = [] := walk_eq_nil.mpr hr
    unfold walk
    rw [walkFrom_append, hroot]
    exact hq

/-- The names of a path are those that the steps went down to. -/
theorem mem_walkFrom (h : a ∈ walkFrom path steps) : a ∈ path ∨ .down a ∈ steps := by
  induction steps using List.reverseRecOn with
  | nil => exact Or.inl h
  | append_singleton steps s ih =>
    have hold : a ∈ walkFrom path steps → a ∈ path ∨ .down a ∈ steps ++ [s] := fun hmem =>
      (ih hmem).imp_right (List.mem_append_left _)
    cases s with
    | up =>
      rw [walkFrom_up] at h
      exact hold (List.mem_of_mem_dropLast h)
    | down b =>
      rw [walkFrom_down] at h
      rcases List.mem_append.mp h with hmem | hmem
      · exact hold hmem
      · obtain rfl := List.mem_singleton.mp hmem
        exact Or.inr (List.mem_append_right _ (List.mem_singleton_self _))

/-- A walk that stays below a name, whose last step goes down, ends below the name. -/
theorem Stays.names_lt (h : Stays (after ++ [.down b])) : ups (after ++ [.down b]) < names (after ++ [.down b]) := by
  have hall := stays_down.mp h _ List.prefix_rfl
  rw [ups_down, names_down]
  omega

end Walks
