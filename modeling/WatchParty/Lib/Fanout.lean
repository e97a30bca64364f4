import WatchParty.Lib.Temporal

/-!
# A fan-out that drops and reorders

What one receiver holds of a value that is broadcast to it over a channel from which messages vanish and arrive in any
order, once the value stands still. Only finitely much that is older is in flight, and each delivery takes one message
out of the channel; so from some point on only the value itself arrives.
-/

open Filter

namespace Temporal

variable {S M V : Type*} {σ : ℕ → S} {inFlight : S → Set M} {version : M → V} {held : S → V} {value : V} {N : ℕ}

/-- From some point on only the value leaves the channel. -/
theorem eventually_fresh (hfin : (inFlight (σ N)).Finite)
    (hsent : ∀ n, N ≤ n → ∀ m ∈ inFlight (σ (n + 1)), m ∈ inFlight (σ n) ∨ version m = value) :
    ∃ K, N ≤ K ∧ ∀ n, K ≤ n → ∀ m ∈ inFlight (σ n), m ∉ inFlight (σ (n + 1)) → version m = value := by
  obtain ⟨K, hNK, hK⟩ := set_settles (fun s => {m | m ∈ inFlight s ∧ version m ≠ value})
    (hfin.subset fun m hm => hm.1) fun n hn m hm => ⟨(hsent n hn m hm.1).resolve_right hm.2, hm.2⟩
  refine ⟨K, hNK, fun n hn m hm hgone => ?_⟩
  by_contra hne
  have hstale : m ∈ {m | m ∈ inFlight (σ n) ∧ version m ≠ value} := ⟨hm, hne⟩
  rw [hK n hn, ← hK (n + 1) (by omega)] at hstale
  exact hgone hstale.1

variable (inFlight version held) in
/-- **A receiver converges on a value that stands still.** It is delivered something again and again, it comes to hold
the value where it is delivered that, and it holds nothing that did not leave the channel. -/
theorem receives {A : Action S} (hfin : (inFlight (σ N)).Finite)
    (hsent : ∀ n, N ≤ n → ∀ m ∈ inFlight (σ (n + 1)), m ∈ inFlight (σ n) ∨ version m = value)
    (hheld : ∀ n, N ≤ n → held (σ (n + 1)) = held (σ n) ∨
      ∃ m ∈ inFlight (σ n), m ∉ inFlight (σ (n + 1)) ∧ held (σ (n + 1)) = version m)
    (hA : ∀ n, N ≤ n → A (σ n) (σ (n + 1)) →
      ∃ m ∈ inFlight (σ n), m ∉ inFlight (σ (n + 1)) ∧ (version m = value → held (σ (n + 1)) = value))
    (hf : ∃ᶠ n in atTop, A (σ n) (σ (n + 1))) : ∀ᶠ n in atTop, held (σ n) = value := by
  obtain ⟨K, hNK, hfresh⟩ := eventually_fresh hfin hsent
  obtain ⟨n, hn, hstep⟩ := frequently_atTop.mp hf K
  refine eventually_atTop.mpr ⟨n + 1, fun m hm => ?_⟩
  induction m, hm using Nat.le_induction with
  | base =>
    obtain ⟨m, hm, hgone, hgets⟩ := hA n (hNK.trans hn) hstep
    exact hgets (hfresh n hn m hm hgone)
  | succ m hm ih =>
    rcases hheld m (by omega) with heq | ⟨x, hx, hgone, heq⟩
    · rw [heq, ih]
    · rw [heq, hfresh m (by omega) x hx hgone]

end Temporal
