import Mathlib.Order.Basic
import Mathlib.Data.Option.Basic

/-!
# Keys with a time to live

A key of a store with expiry: absent, or a value with the instant from which it reads as absent. Instants are natural
numbers; a value put at `now` for `ttl` reads back at `t` iff `t < now + ttl` (`get_put`), and what reads back at some
instant reads back the same at every earlier one (`get_of_le`).
-/

/-- A value and the instant from which it is gone. -/
structure Stored (α : Type) where
  val : α
  expiresAt : ℕ
  deriving DecidableEq, Repr

/-- A key that may hold a value with a time to live. -/
abbrev Expiring (α : Type) := Option (Stored α)

namespace Expiring

variable {α : Type}

/-- What the key reads as at `now`. -/
def get (k : Expiring α) (now : ℕ) : Option α :=
  match k with
  | none => none
  | some s => if now < s.expiresAt then some s.val else none

/-- A value stored at `now` for `ttl`. -/
def put (now ttl : ℕ) (v : α) : Expiring α := some ⟨v, now + ttl⟩

@[simp] theorem get_none (now : ℕ) : get (none : Expiring α) now = none := rfl

theorem get_put (now ttl t : ℕ) (v : α) : (put now ttl v).get t = if t < now + ttl then some v else none := rfl

/-- A value is there when it has just been put. -/
theorem get_put_self {now ttl : ℕ} (h : 0 < ttl) (v : α) : (put now ttl v).get now = some v := by
  rw [get_put, if_pos (by omega)]

theorem get_eq_some {k : Expiring α} {now : ℕ} {v : α} :
    k.get now = some v ↔ ∃ s, k = some s ∧ now < s.expiresAt ∧ s.val = v := by
  cases k with
  | none => simp [get]
  | some s => simp [get]

/-- What a key holds now it held at every earlier instant since it was put. -/
theorem get_of_le {k : Expiring α} {now now' : ℕ} {v : α} (h : k.get now' = some v) (hle : now ≤ now') :
    k.get now = some v := by
  obtain ⟨s, rfl, hs, rfl⟩ := get_eq_some.mp h
  exact get_eq_some.mpr ⟨s, rfl, by omega, rfl⟩

/-- A key that reads as absent stays so as time passes. -/
theorem get_eq_none_of_le {k : Expiring α} {now now' : ℕ} (h : k.get now = none) (hle : now ≤ now') :
    k.get now' = none := by
  cases hk : k.get now' with
  | none => rfl
  | some v => rw [get_of_le hk hle] at h; cases h

end Expiring
