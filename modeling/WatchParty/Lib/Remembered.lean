import Mathlib.Data.List.Basic
import Mathlib.Data.Nat.Basic
import Mathlib.Logic.Function.Basic
import WatchParty.Lib.Expiring

/-!
# Remembering what was done

A store that remembers each thing done under its key for `ttl`, and does nothing whose key it remembers, does no two
things of one key within `ttl`.

- `Remembered ttl done keys now` relates the keys to the list `done` of what was done and when, oldest first;
- `Remembered.wait` and `Remembered.record` are its steps, `Remembered.origin_of_get` what a remembered key tells.
-/

/-- The keys remember what was done. -/
structure Remembered {K V : Type} (ttl : ℕ) (done : List (K × ℕ)) (keys : K → Expiring V) (now : ℕ) : Prop where
  kept : ∀ p ∈ done, ∃ s, keys p.1 = some s ∧ p.2 + ttl ≤ s.expiresAt
  origin : ∀ k s, keys k = some s → ∃ p ∈ done, p.1 = k ∧ s.expiresAt = p.2 + ttl
  past : ∀ p ∈ done, p.2 ≤ now
  apart : done.Pairwise fun p q => p.1 = q.1 → p.2 + ttl ≤ q.2

namespace Remembered

variable {K V : Type} {ttl now : ℕ} {done : List (K × ℕ)} {keys : K → Expiring V}

theorem start (ttl now : ℕ) : Remembered ttl ([] : List (K × ℕ)) (fun _ => (none : Expiring V)) now where
  kept _ h := absurd h List.not_mem_nil
  origin _ _ h := by cases h
  past _ h := absurd h List.not_mem_nil
  apart := List.Pairwise.nil

/-- Time passes. -/
theorem wait (h : Remembered ttl done keys now) {now' : ℕ} (hle : now ≤ now') : Remembered ttl done keys now' :=
  ⟨h.kept, h.origin, fun p hp => (h.past p hp).trans hle, h.apart⟩

/-- A remembered key was done less than `ttl` ago. -/
theorem origin_of_get (h : Remembered ttl done keys now) {k : K} {v : V} (hk : (keys k).get now = some v) :
    ∃ p ∈ done, p.1 = k ∧ now < p.2 + ttl := by
  obtain ⟨s, hs, hlt, -⟩ := Expiring.get_eq_some.mp hk
  obtain ⟨p, hp, hpk, he⟩ := h.origin k s hs
  exact ⟨p, hp, hpk, he ▸ hlt⟩

/-- What was done under a key that is not remembered is at least `ttl` ago. -/
theorem le_of_get_eq_none (h : Remembered ttl done keys now) {k : K} (hk : (keys k).get now = none) :
    ∀ p ∈ done, p.1 = k → p.2 + ttl ≤ now := by
  intro p hp hpk
  obtain ⟨s, hs, hle⟩ := h.kept p hp
  rw [← hpk, hs, Expiring.get] at hk
  simp only [ite_eq_right_iff, reduceCtorEq, imp_false, not_lt] at hk
  exact hle.trans hk

/-- A key that is not remembered is done and remembered. -/
theorem record [DecidableEq K] (h : Remembered ttl done keys now) {k : K} (hk : (keys k).get now = none) (v : V) :
    Remembered ttl (done ++ [(k, now)]) (Function.update keys k (Expiring.put now ttl v)) now := by
  have hold := h.le_of_get_eq_none hk
  refine ⟨fun p hp => ?_, fun k' s hs => ?_, fun p hp => ?_, ?_⟩
  · rcases List.mem_append.mp hp with hp | hp
    · by_cases hpk : p.1 = k
      · have := hold p hp hpk
        exact ⟨⟨v, now + ttl⟩, by rw [hpk, Function.update_self]; rfl, by simp only; omega⟩
      · obtain ⟨s, hs, hle⟩ := h.kept p hp
        exact ⟨s, by rw [Function.update_of_ne hpk, hs], hle⟩
    · rw [List.mem_singleton.mp hp]
      exact ⟨⟨v, now + ttl⟩, by rw [Function.update_self]; rfl, le_rfl⟩
  · by_cases hkk : k' = k
    · rw [hkk, Function.update_self] at hs
      cases hs
      exact ⟨(k, now), List.mem_append_right _ (List.mem_singleton_self _), hkk.symm, rfl⟩
    · rw [Function.update_of_ne hkk] at hs
      obtain ⟨p, hp, hpk, he⟩ := h.origin k' s hs
      exact ⟨p, List.mem_append_left _ hp, hpk, he⟩
  · rcases List.mem_append.mp hp with hp | hp
    · exact h.past p hp
    · rw [List.mem_singleton.mp hp]
  · refine List.pairwise_append.mpr ⟨h.apart, List.pairwise_singleton _ _, fun p hp q hq hpq => ?_⟩
    rw [List.mem_singleton.mp hq] at hpq ⊢
    exact hold p hp hpq

end Remembered
