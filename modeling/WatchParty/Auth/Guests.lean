import WatchParty.Auth.RateBucket
import WatchParty.Gateway.Tokens

/-!
# Guests, and what the token buckets admit

The two buckets of `auth.controller.ts` that a new guest has to clear, up to the creation of the account.

- `guest` asks both buckets before it spends from either; `guest_charged` says that it is charged to both or to neither;
- `admissions_bounded` is about every token bucket of the server.
-/

namespace WatchParty
namespace Auth

/-- The limits on guests: for each caller, and for the instance. -/
structure Guests where
  guestBucket : RateBucket 10 (10 / 3600)
  guestGlobalBucket : RateBucket 300 (300 / 3600)

structure HttpException where
  message : String
  status : ℕ
  deriving DecidableEq, Repr

namespace Guests

def TOO_MANY_REQUESTS : ℕ := 429

def guest (ip : String) (now : ℚ) (c : Guests) : Except HttpException Unit × Guests :=
  if c.guestBucket.peek ip now = false then
    (.error ⟨"Too many guests from this connection - try again shortly", TOO_MANY_REQUESTS⟩, c)
  else if c.guestGlobalBucket.peek "all" now = false then
    (.error ⟨"Too many guests right now - try again shortly", TOO_MANY_REQUESTS⟩, c)
  else (.ok (), ⟨(c.guestBucket.take ip now).2, (c.guestGlobalBucket.take "all" now).2⟩)

def sweepRateBuckets (now : ℚ) (c : Guests) : Guests :=
  ⟨c.guestBucket.sweep now RateBucket.IDLE_MS, c.guestGlobalBucket.sweep now RateBucket.IDLE_MS⟩

/-- **Both buckets or neither.** A request that goes through is granted a token of each, and one that is refused leaves
both as they were. -/
theorem guest_charged (ip : String) (now : ℚ) (c : Guests) :
    ((guest ip now c).1 = .ok () ∧
        c.guestBucket.take ip now = (true, (guest ip now c).2.guestBucket) ∧
        c.guestGlobalBucket.take "all" now = (true, (guest ip now c).2.guestGlobalBucket)) ∨
      (∃ e, (guest ip now c).1 = .error e ∧ e.status = TOO_MANY_REQUESTS) ∧ (guest ip now c).2 = c := by
  unfold guest
  by_cases hi : c.guestBucket.peek ip now = false
  · rw [if_pos hi]
    exact Or.inr ⟨⟨_, rfl, rfl⟩, rfl⟩
  · by_cases hg : c.guestGlobalBucket.peek "all" now = false
    · rw [if_neg hi, if_pos hg]
      exact Or.inr ⟨⟨_, rfl, rfl⟩, rfl⟩
    · rw [if_neg hi, if_neg hg]
      rw [Bool.not_eq_false, RateBucket.peek_eq_take] at hi hg
      exact Or.inl ⟨rfl, Prod.ext hi rfl, Prod.ext hg rfl⟩

end Guests

/-- The sweeps of both buckets wait for as long as an empty bucket takes to fill. -/
theorem guests_wait (now : ℚ) : RateBucket.Waits 10 (10 / 3600) (.sweep now RateBucket.IDLE_MS) ∧
    RateBucket.Waits 300 (300 / 3600) (.sweep now RateBucket.IDLE_MS) := by
  constructor
  · norm_num [RateBucket.Waits, RateBucket.IDLE_MS]
  · norm_num [RateBucket.Waits, RateBucket.IDLE_MS]

/-- **Token buckets bound admissions.** In any window of `w` seconds a caller is admitted at most `capacity` and
`refillPerSecond * w` times by a bucket whose sweeps wait until what they drop is full; asking answers what taking would;
such a sweep changes no later answer, and the buckets of guests are swept so; a guest is charged to both of them or to
neither; and a socket that is not dropped is granted no more tokens in any window than its bucket allows. -/
theorem admissions_bounded :
    (∀ (capacity refillPerSecond : ℚ), 0 ≤ capacity → 0 ≤ refillPerSecond →
      (∀ calls, RateBucket.Ordered calls → (∀ k ∈ calls, RateBucket.Waits capacity refillPerSecond k) →
        ∀ key start w, 0 ≤ w →
          (RateBucket.admitted key start (start + 1000 * w)
            ((RateBucket.machine capacity refillPerSecond).trace calls) : ℚ) ≤ capacity + refillPerSecond * w) ∧
      (∀ (b : RateBucket capacity refillPerSecond) key now, b.peek key now = (b.take key now).1) ∧
      ∀ before now idleMs after, RateBucket.Ordered (before ++ .sweep now idleMs :: after) →
        capacity ≤ refillPerSecond * idleMs / 1000 →
          ((RateBucket.machine capacity refillPerSecond).traceFrom
              ((RateBucket.machine capacity refillPerSecond).run (before ++ [.sweep now idleMs])) after).map
                Machine.Event.out =
            ((RateBucket.machine capacity refillPerSecond).traceFrom
              ((RateBucket.machine capacity refillPerSecond).run before) after).map Machine.Event.out) ∧
    (∀ now, RateBucket.Waits 10 (10 / 3600) (.sweep now RateBucket.IDLE_MS) ∧
      RateBucket.Waits 300 (300 / 3600) (.sweep now RateBucket.IDLE_MS)) ∧
    (∀ ip now c,
      ((Guests.guest ip now c).1 = .ok () ∧
          c.guestBucket.take ip now = (true, (Guests.guest ip now c).2.guestBucket) ∧
          c.guestGlobalBucket.take "all" now = (true, (Guests.guest ip now c).2.guestGlobalBucket)) ∨
        (∃ e, (Guests.guest ip now c).1 = .error e ∧ e.status = Guests.TOO_MANY_REQUESTS) ∧
          (Guests.guest ip now c).2 = c) ∧
    ∀ socketId before calls, (calls.filterMap TimelineService.TokenCall.time?).Pairwise (· ≤ ·) →
      .dropSocket socketId ∉ calls → ∀ start w, 0 ≤ w →
        (TimelineService.granted socketId start (start + 1000 * w)
          (TimelineService.tokens.traceFrom (TimelineService.tokens.run before) calls) : ℚ) ≤
            TimelineService.BUCKET_CAPACITY + TimelineService.BUCKET_REFILL_PER_S * w := by
  refine ⟨fun capacity refillPerSecond hc hr => ⟨?_, ?_, ?_⟩, guests_wait, Guests.guest_charged, ?_⟩
  · exact fun calls ho hw key start w h0 => RateBucket.admitted_window hc hr ho hw key start h0
  · exact RateBucket.peek_eq_take
  · exact fun before now idleMs after ho hi => RateBucket.sweep_harmless hc hr hi ho
  · exact fun socketId before calls ho hd start w h0 => TimelineService.granted_window ho hd _ start h0

/-- A caller who takes the ten tokens, waits for more than the hour of a sweep, and takes ten again. -/
def hourly : List RateBucket.Call :=
  List.replicate 10 (.take "203.0.113.7" 0) ++ .sweep 3600001 RateBucket.IDLE_MS ::
    List.replicate 10 (.take "203.0.113.7" 3600001)

theorem admissions_bounded_hourly :
    (RateBucket.admitted "203.0.113.7" 0 (0 + 1000 * 3601) ((RateBucket.machine 10 (10 / 3600)).trace hourly) : ℚ) ≤
      10 + 10 / 3600 * 3601 := by
  have hordered : RateBucket.Ordered hourly := by
    unfold RateBucket.Ordered
    decide +kernel
  have hwaits : ∀ k ∈ hourly, RateBucket.Waits 10 (10 / 3600) k := by
    intro k hk
    simp only [hourly, List.mem_append, List.mem_replicate, List.mem_cons] at hk
    rcases hk with ⟨-, rfl⟩ | rfl | ⟨-, rfl⟩
    · trivial
    · exact (admissions_bounded.2.1 3600001).1
    · trivial
  exact (admissions_bounded.1 10 (10 / 3600) (by norm_num) (by norm_num)).1 hourly hordered hwaits "203.0.113.7" 0 3601
    (by norm_num)

/-- Two tokens a day, of which a sweep after an hour gives two more. -/
theorem swept_too_soon :
    ¬∀ (capacity refillPerSecond : ℚ), 0 ≤ capacity → 0 ≤ refillPerSecond → ∀ calls, RateBucket.Ordered calls →
      ∀ key start w, 0 ≤ w →
        (RateBucket.admitted key start (start + 1000 * w)
          ((RateBucket.machine capacity refillPerSecond).trace calls) : ℚ) ≤ capacity + refillPerSecond * w := by
  intro h
  have hle := h 2 (2 / 86400) (by norm_num) (by norm_num)
    [.take "203.0.113.7" 0, .take "203.0.113.7" 0, .sweep 3600001 RateBucket.IDLE_MS, .take "203.0.113.7" 3600001,
      .take "203.0.113.7" 3600001] (by unfold RateBucket.Ordered; decide +kernel) "203.0.113.7" 0 3601 (by norm_num)
  revert hle
  decide +kernel

end Auth
end WatchParty
