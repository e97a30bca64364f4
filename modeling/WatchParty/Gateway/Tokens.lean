import Mathlib.Tactic.NormNum
import WatchParty.Gateway.Service
import WatchParty.Lib.Budget

/-!
# The token bucket of a socket

Runs of `takeToken` and `dropSocket` of `sync/timeline.service.ts` over the memory of an instance.

- `level` is what a socket may spend; `takeToken_spends` says what a take does to it;
- `granted_window`: until it is dropped, a socket is granted no more in any window than the capacity and the refill allow.
-/

namespace WatchParty
namespace TimelineService

/-- A call for a socket. -/
inductive TokenCall
  | takeToken (socketId : String) (now : ℚ)
  | dropSocket (socketId : String)
  deriving DecidableEq, Repr

def TokenCall.time? : TokenCall → Option ℚ
  | .takeToken _ now => some now
  | .dropSocket _ => none

def tokenStep (l : Local) : TokenCall → Local × Option Bool
  | .takeToken socketId now => ((takeToken socketId now l).2, some (takeToken socketId now l).1)
  | .dropSocket socketId => (dropSocket socketId l, none)

def tokens : Machine Local TokenCall (Option Bool) := ⟨.empty, tokenStep⟩

/-- A token is granted to the socket. -/
def grants (socketId : String) : TokenCall → Option Bool → Bool
  | .takeToken socketId' _, some granted => decide (socketId' = socketId) && granted
  | _, _ => false

/-- How often the socket is granted a token from `start` to `stop`. -/
def granted (socketId : String) (start stop : ℚ) (tr : List (Machine.Event Local TokenCall (Option Bool))) : ℕ :=
  tr.countP fun e =>
    grants socketId e.act e.out && e.act.time?.any fun now => decide (start ≤ now ∧ now ≤ stop)

/-! ## The level of a socket -/

/-- What the socket may spend at `now`. -/
def level (socketId : String) (l : Local) (now : ℚ) : ℚ := (refilled (l.buckets socketId) now).tokens

variable {socketId socketId' : String} {l : Local} {now t t' : ℚ}

theorem level_le (socketId : String) (l : Local) (t : ℚ) : level socketId l t ≤ BUCKET_CAPACITY := min_le_left _ _

theorem level_refills (h : t ≤ t') :
    level socketId l t' ≤ level socketId l t + BUCKET_REFILL_PER_S / 1000 * (t' - t) := by
  unfold level refilled
  cases l.buckets socketId with
  | none =>
    simp only [Option.getD_none, sub_self, zero_div, zero_mul, add_zero, min_self]
    have hgain : 0 ≤ BUCKET_REFILL_PER_S / 1000 * (t' - t) :=
      mul_nonneg (by norm_num [BUCKET_REFILL_PER_S]) (sub_nonneg.mpr h)
    linarith
  | some bucket =>
    simp only [Option.getD_some]
    have hgain : 0 ≤ BUCKET_REFILL_PER_S / 1000 * (t' - t) :=
      mul_nonneg (by norm_num [BUCKET_REFILL_PER_S]) (sub_nonneg.mpr h)
    rw [← min_add_add_right]
    apply min_le_min
    · linarith
    · linarith

/-- The level of a socket whose tokens were just counted. -/
theorem level_set {n : ℚ} (h : n ≤ BUCKET_CAPACITY) :
    level socketId { l with buckets := Function.update l.buckets socketId (some ⟨n, now⟩) } now = n := by
  simp [level, refilled, h]

/-- **One token.** A take is granted exactly when there is one to spend, and spends it. -/
theorem takeToken_spends (socketId : String) (now : ℚ) (l : Local) :
    ((takeToken socketId now l).1 = true ↔ 1 ≤ level socketId l now) ∧
      level socketId (takeToken socketId now l).2 now =
        level socketId l now - if (takeToken socketId now l).1 then 1 else 0 := by
  have hle := level_le socketId l now
  unfold takeToken
  dsimp only
  split
  · rename_i h
    change level socketId l now < 1 at h
    refine ⟨by simpa using h, ?_⟩
    rw [show refilled (l.buckets socketId) now = ⟨level socketId l now, now⟩ from rfl, level_set hle]
    simp
  · rename_i h
    change ¬level socketId l now < 1 at h
    refine ⟨by simpa using h, ?_⟩
    rw [show refilled (l.buckets socketId) now = ⟨level socketId l now, now⟩ from rfl, level_set (by linarith)]
    simp

theorem takeToken_other (h : socketId ≠ socketId') (t : ℚ) :
    level socketId (takeToken socketId' now l).2 t = level socketId l t := by
  have hsame : (takeToken socketId' now l).2.buckets socketId = l.buckets socketId := by
    unfold takeToken
    dsimp only
    split <;> exact Function.update_of_ne h _ _
  simp [level, hsame]

theorem dropSocket_other (h : socketId ≠ socketId') (t : ℚ) :
    level socketId (dropSocket socketId' l) t = level socketId l t := by
  simp [level, dropSocket, Function.update_of_ne h]

/-- The tokens that a socket is granted are paid from its level, as long as it is not dropped. -/
def budget (socketId : String) : Budget tokens BUCKET_CAPACITY (BUCKET_REFILL_PER_S / 1000) where
  inv _ := True
  allowed k := k ≠ .dropSocket socketId
  time? := TokenCall.time?
  admits := grants socketId
  level := level socketId
  keeps _ _ _ _ := trivial
  full l t := level_le socketId l t
  refills _ _ _ h := level_refills h
  spends l k t _ _ ht ha := by
    cases k with
    | dropSocket socketId' => cases ht
    | takeToken socketId' now =>
      obtain rfl : now = t := Option.some.inj ht
      change (decide (socketId' = socketId) && (takeToken socketId' now l).1) = true at ha
      rw [Bool.and_eq_true, decide_eq_true_eq] at ha
      obtain ⟨rfl, hgranted⟩ := ha
      obtain ⟨hone, hleft⟩ := takeToken_spends socketId' now l
      rw [hgranted, if_pos rfl] at hleft
      exact ⟨hone.mp hgranted, hleft.le⟩
  refuses l k t _ _ ht ha := by
    cases k with
    | dropSocket socketId' => cases ht
    | takeToken socketId' now =>
      obtain rfl : now = t := Option.some.inj ht
      change level socketId (takeToken socketId' now l).2 now ≤ level socketId l now
      by_cases hs : socketId = socketId'
      · subst hs
        rw [(takeToken_spends socketId now l).2]
        split <;> linarith
      · exact (takeToken_other hs now).le
  passes l k t _ hk ht := by
    cases k with
    | takeToken socketId' now => cases ht
    | dropSocket socketId' =>
      have hs : socketId ≠ socketId' := fun h => hk (congrArg TokenCall.dropSocket h.symm)
      exact (dropSocket_other hs t).le

/-- **Any window** between two drops of the socket, from whatever memory. -/
theorem granted_window {calls : List TokenCall} (ho : (calls.filterMap TokenCall.time?).Pairwise (· ≤ ·))
    (hd : TokenCall.dropSocket socketId ∉ calls) (l : Local) (start : ℚ) {w : ℚ} (h0 : 0 ≤ w) :
    (granted socketId start (start + 1000 * w) (tokens.traceFrom l calls) : ℚ) ≤
      BUCKET_CAPACITY + BUCKET_REFILL_PER_S * w := by
  have hspan : start ≤ start + 1000 * w := by linarith
  have hkept : ∀ k ∈ calls, k ≠ .dropSocket socketId := fun k hk he => hd (he ▸ hk)
  have hle := (budget socketId).admitted_le (s := l) (by norm_num [BUCKET_CAPACITY])
    (by norm_num [BUCKET_REFILL_PER_S]) hspan trivial hkept ho
  have hgain : BUCKET_REFILL_PER_S / 1000 * (start + 1000 * w - start) = BUCKET_REFILL_PER_S * w := by ring
  rw [hgain] at hle
  exact hle

end TimelineService
end WatchParty
