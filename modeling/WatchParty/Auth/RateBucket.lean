import Mathlib.Algebra.Order.Ring.Rat
import Mathlib.Tactic.NormNum
import Mathlib.Tactic.Positivity
import WatchParty.Lib.Budget

/-!
# The token buckets of the open routes

`RateBucket` of `auth/rate-bucket.ts`, in exact arithmetic, and runs of calls on it.

- `RateBucket.level` is what a key may spend; `take_spends` and `level_sweep` say what a call does to it;
- `admitted_window`: in any window a key is admitted no more often than the capacity and the refill allow;
- `sweep_harmless`: a sweep that waits until a bucket is full again changes no later answer.
-/

namespace WatchParty
namespace Auth

/-- What is kept of a caller: `at` is when the tokens were counted. -/
structure RateBucket.Entry where
  tokens : ℚ
  «at» : ℚ
  deriving DecidableEq, Repr

/-- A bucket for each caller, of the same capacity and refill. -/
structure RateBucket (capacity refillPerSecond : ℚ) where
  buckets : String → Option RateBucket.Entry

namespace RateBucket

variable {capacity refillPerSecond : ℚ}

def new (capacity refillPerSecond : ℚ) : RateBucket capacity refillPerSecond := ⟨fun _ => none⟩

/-- The tokens of an entry at `now`. -/
def refilled (capacity refillPerSecond : ℚ) (bucket : Entry) (now : ℚ) : ℚ :=
  let elapsedS := max 0 ((now - bucket.at) / 1000)
  min capacity (bucket.tokens + elapsedS * refillPerSecond)

def take (b : RateBucket capacity refillPerSecond) (key : String) (now : ℚ) :
    Bool × RateBucket capacity refillPerSecond :=
  let bucket := (b.buckets key).getD ⟨capacity, now⟩
  let tokens := refilled capacity refillPerSecond bucket now
  if tokens < 1 then (false, ⟨Function.update b.buckets key (some ⟨tokens, now⟩)⟩)
  else (true, ⟨Function.update b.buckets key (some ⟨tokens - 1, now⟩)⟩)

def peek (b : RateBucket capacity refillPerSecond) (key : String) (now : ℚ) : Bool :=
  match b.buckets key with
  | none => decide (capacity ≥ 1)
  | some bucket => decide (refilled capacity refillPerSecond bucket now ≥ 1)

/-- How long an entry is idle before it is dropped, where a sweep does not say. -/
def IDLE_MS : ℚ := 3600000

def sweep (b : RateBucket capacity refillPerSecond) (now idleMs : ℚ) : RateBucket capacity refillPerSecond :=
  ⟨fun key => (b.buckets key).filter fun bucket => ¬now - bucket.at > idleMs⟩

/-! ## The level of a key -/

/-- What the caller may spend at `now`. -/
def level (key : String) (b : RateBucket capacity refillPerSecond) (now : ℚ) : ℚ :=
  match b.buckets key with
  | none => capacity
  | some bucket => refilled capacity refillPerSecond bucket now

variable {b : RateBucket capacity refillPerSecond} {key key' : String} {now t t' idleMs : ℚ}

theorem level_le (key : String) (b : RateBucket capacity refillPerSecond) (t : ℚ) : level key b t ≤ capacity := by
  unfold level
  split
  · exact le_rfl
  · exact min_le_left _ _

/-- A new caller's tokens are not refilled. -/
theorem refilled_new : refilled capacity refillPerSecond ⟨capacity, now⟩ now = capacity := by
  simp [refilled]

theorem level_eq (b : RateBucket capacity refillPerSecond) (key : String) (now : ℚ) :
    refilled capacity refillPerSecond ((b.buckets key).getD ⟨capacity, now⟩) now = level key b now := by
  unfold level
  cases h : b.buckets key with
  | none => exact refilled_new
  | some bucket => rfl

/-- The level of a key whose tokens were just counted. -/
theorem level_set {tokens : ℚ} (h : tokens ≤ capacity) (buckets : String → Option Entry) :
    level key (⟨Function.update buckets key (some ⟨tokens, now⟩)⟩ : RateBucket capacity refillPerSecond) now =
      tokens := by
  simp [level, refilled, h]

theorem take_eq (b : RateBucket capacity refillPerSecond) (key : String) (now : ℚ) :
    b.take key now =
      if level key b now < 1 then (false, ⟨Function.update b.buckets key (some ⟨level key b now, now⟩)⟩)
      else (true, ⟨Function.update b.buckets key (some ⟨level key b now - 1, now⟩)⟩) := by
  unfold take
  dsimp only
  rw [level_eq]

/-- **One token.** A take is granted exactly when there is one to spend. -/
theorem take_granted : (b.take key now).1 = true ↔ 1 ≤ level key b now := by
  rw [take_eq]
  split
  · rename_i h
    simp [h]
  · rename_i h
    simpa using h

/-- What a take leaves of the key's level. -/
theorem take_spends : level key (b.take key now).2 now = level key b now - if (b.take key now).1 then 1 else 0 := by
  have hle := level_le key b now
  rw [take_eq]
  split
  · rw [level_set hle]
    simp
  · rw [level_set (by linarith)]
    simp

theorem take_other (h : key' ≠ key) (t : ℚ) : level key' (b.take key now).2 t = level key' b t := by
  have hsame : (b.take key now).2.buckets key' = b.buckets key' := by
    rw [take_eq]
    split <;> exact Function.update_of_ne h _ _
  simp [level, hsame]

/-- **Asking is not taking**, and it answers what taking would. -/
theorem peek_eq_take (b : RateBucket capacity refillPerSecond) (key : String) (now : ℚ) :
    b.peek key now = (b.take key now).1 := by
  have hpeek : b.peek key now = true ↔ 1 ≤ level key b now := by
    unfold peek level
    split <;> simp
  rw [Bool.eq_iff_iff, hpeek, take_granted]

/-- The level rises no faster than the refill. -/
theorem level_refills (hr : 0 ≤ refillPerSecond) (h : t ≤ t') :
    level key b t' ≤ level key b t + refillPerSecond / 1000 * (t' - t) := by
  have hgain : 0 ≤ refillPerSecond / 1000 * (t' - t) :=
    mul_nonneg (by positivity) (sub_nonneg.mpr h)
  unfold level
  split
  · linarith
  · rename_i bucket _
    unfold refilled
    dsimp only
    have helapsed : max 0 ((t' - bucket.at) / 1000) ≤ max 0 ((t - bucket.at) / 1000) + (t' - t) / 1000 := by
      have hspan : 0 ≤ (t' - t) / 1000 := div_nonneg (sub_nonneg.mpr h) (by norm_num)
      apply max_le
      · exact add_nonneg (le_max_left _ _) hspan
      · have hle := le_max_right 0 ((t - bucket.at) / 1000)
        linarith
    have htokens := mul_le_mul_of_nonneg_right helapsed hr
    have hsum : ((t' - t) / 1000) * refillPerSecond = refillPerSecond / 1000 * (t' - t) := by ring
    rw [add_mul, hsum] at htokens
    rw [← min_add_add_right]
    apply min_le_min
    · linarith
    · linarith

/-- A level does not fall by itself. -/
theorem level_mono (hr : 0 ≤ refillPerSecond) (h : t ≤ t') : level key b t ≤ level key b t' := by
  unfold level
  split
  · exact le_rfl
  · unfold refilled
    apply min_le_min le_rfl
    apply add_le_add le_rfl
    apply mul_le_mul_of_nonneg_right _ hr
    apply max_le_max le_rfl
    linarith

/-- No entry owes tokens. -/
def Funded (b : RateBucket capacity refillPerSecond) : Prop :=
  ∀ key bucket, b.buckets key = some bucket → 0 ≤ bucket.tokens

theorem refilled_nonneg (hc : 0 ≤ capacity) (hr : 0 ≤ refillPerSecond) {bucket : Entry} (h : 0 ≤ bucket.tokens) :
    0 ≤ refilled capacity refillPerSecond bucket now :=
  le_min hc (add_nonneg h (mul_nonneg (le_max_left _ _) hr))

theorem level_nonneg (hc : 0 ≤ capacity) (hr : 0 ≤ refillPerSecond) (h : b.Funded) : 0 ≤ level key b now := by
  unfold level
  split
  · exact hc
  · rename_i bucket hb
    exact refilled_nonneg hc hr (h key bucket hb)

theorem take_funded (hc : 0 ≤ capacity) (hr : 0 ≤ refillPerSecond) (h : b.Funded) : (b.take key now).2.Funded := by
  have hlevel : 0 ≤ level key b now := level_nonneg hc hr h
  intro k bucket hb
  rw [take_eq] at hb
  split at hb
  · by_cases hk : k = key
    · subst hk
      simp only [Function.update_self, Option.some.injEq] at hb
      exact hb ▸ hlevel
    · simp only [Function.update_of_ne hk] at hb
      exact h k bucket hb
  · rename_i hone
    by_cases hk : k = key
    · subst hk
      simp only [Function.update_self, Option.some.injEq] at hb
      subst hb
      dsimp only
      linarith
    · simp only [Function.update_of_ne hk] at hb
      exact h k bucket hb

theorem sweep_buckets (b : RateBucket capacity refillPerSecond) (now idleMs : ℚ) (key : String) :
    (b.sweep now idleMs).buckets key = b.buckets key ∨
      (b.sweep now idleMs).buckets key = none ∧ ∃ bucket, b.buckets key = some bucket ∧ now - bucket.at > idleMs := by
  cases h : b.buckets key with
  | none => exact Or.inl (by simp [sweep, h])
  | some bucket =>
    by_cases hidle : now - bucket.at > idleMs
    · have hdrop : (b.sweep now idleMs).buckets key = none := by
        simp only [sweep, h, Option.filter_some, hidle, not_true_eq_false, decide_false, Bool.false_eq_true, if_false]
      exact Or.inr ⟨hdrop, bucket, rfl, hidle⟩
    · exact Or.inl (by simpa [sweep, h] using hidle)

theorem sweep_funded (h : b.Funded) : (b.sweep now idleMs).Funded := by
  intro k bucket hb
  rcases sweep_buckets b now idleMs k with hs | ⟨hs, -⟩
  · exact h k bucket (hs ▸ hb)
  · rw [hs] at hb
    cases hb

/-- An entry that was idle for as long as an empty one takes to fill is full. -/
theorem refilled_idle (hr : 0 ≤ refillPerSecond) (hi : capacity ≤ refillPerSecond * idleMs / 1000) {bucket : Entry}
    (h : 0 ≤ bucket.tokens) (hidle : now - bucket.at > idleMs) :
    refilled capacity refillPerSecond bucket now = capacity := by
  unfold refilled
  apply min_eq_left
  have helapsed : idleMs / 1000 ≤ max 0 ((now - bucket.at) / 1000) :=
    le_max_of_le_right (by linarith)
  have hgain := mul_le_mul_of_nonneg_right helapsed hr
  have heq : idleMs / 1000 * refillPerSecond = refillPerSecond * idleMs / 1000 := by ring
  linarith

/-- A sweep that waits until a bucket is full again changes no level. -/
theorem level_sweep (hr : 0 ≤ refillPerSecond) (hi : capacity ≤ refillPerSecond * idleMs / 1000) (h : b.Funded) :
    level key (b.sweep now idleMs) now = level key b now := by
  rcases sweep_buckets b now idleMs key with hs | ⟨hs, bucket, hb, hidle⟩
  · simp [level, hs]
  · have hfull := refilled_idle hr hi (h key bucket hb) hidle
    simp [level, hs, hb, hfull]

/-! ## Runs -/

/-- What is called on the buckets. -/
inductive Call
  | take (key : String) (now : ℚ)
  | peek (key : String) (now : ℚ)
  | sweep (now idleMs : ℚ)
  deriving DecidableEq, Repr

def Call.time : Call → ℚ
  | .take _ now => now
  | .peek _ now => now
  | .sweep now _ => now

def step (b : RateBucket capacity refillPerSecond) : Call → RateBucket capacity refillPerSecond × Option Bool
  | .take key now => ((b.take key now).2, some (b.take key now).1)
  | .peek key now => (b, some (b.peek key now))
  | .sweep now idleMs => (b.sweep now idleMs, none)

def machine (capacity refillPerSecond : ℚ) : Machine (RateBucket capacity refillPerSecond) Call (Option Bool) where
  init := .new capacity refillPerSecond
  step := step

abbrev Event (capacity refillPerSecond : ℚ) :=
  Machine.Event (RateBucket capacity refillPerSecond) Call (Option Bool)

/-- The key is admitted. -/
def admits (key : String) : Call → Option Bool → Bool
  | .take key' _, some granted => decide (key' = key) && granted
  | _, _ => false

/-- How often the key is admitted from `start` to `stop`. -/
def admitted (key : String) (start stop : ℚ) (tr : List (Event capacity refillPerSecond)) : ℕ :=
  tr.countP fun e => admits key e.act e.out && decide (start ≤ e.act.time ∧ e.act.time ≤ stop)

/-- The calls are made at times that do not decrease. -/
def Ordered (calls : List Call) : Prop := (calls.map Call.time).Pairwise (· ≤ ·)

/-- The sweep waits for as long as an empty bucket takes to fill. -/
def Waits (capacity refillPerSecond : ℚ) : Call → Prop
  | .sweep _ idleMs => capacity ≤ refillPerSecond * idleMs / 1000
  | _ => True

theorem step_funded (hc : 0 ≤ capacity) (hr : 0 ≤ refillPerSecond) (h : b.Funded) (k : Call) : (b.step k).1.Funded := by
  cases k with
  | take key now => exact take_funded hc hr h
  | peek key now => exact h
  | sweep now idleMs => exact sweep_funded h

theorem run_funded (hc : 0 ≤ capacity) (hr : 0 ≤ refillPerSecond) (calls : List Call) :
    ((machine capacity refillPerSecond).run calls).Funded :=
  (machine capacity refillPerSecond).invariant_state (I := Funded) (fun _ _ h => by cases h)
    (fun _ k h => step_funded hc hr h k) calls

/-- A call that does not admit the key leaves its level where it was. -/
theorem step_refuses (hr : 0 ≤ refillPerSecond) (h : b.Funded) {k : Call} (hk : Waits capacity refillPerSecond k)
    (ha : admits key k (b.step k).2 = false) : level key (b.step k).1 k.time ≤ level key b k.time := by
  cases k with
  | take key' now =>
    change level key (b.take key' now).2 now ≤ level key b now
    by_cases hkey : key = key'
    · subst hkey
      rw [take_spends]
      split <;> linarith
    · exact (take_other hkey now).le
  | peek key' now => exact le_rfl
  | sweep now idleMs => exact (level_sweep hr hk h).le

/-- A call that admits the key spends one token. -/
theorem step_spends {k : Call} (ha : admits key k (b.step k).2 = true) :
    1 ≤ level key b k.time ∧ level key (b.step k).1 k.time ≤ level key b k.time - 1 := by
  cases k with
  | take key' now =>
    change (decide (key' = key) && (b.take key' now).1) = true at ha
    rw [Bool.and_eq_true, decide_eq_true_eq] at ha
    obtain ⟨rfl, hgranted⟩ := ha
    refine ⟨take_granted.mp hgranted, ?_⟩
    change level key' (b.take key' now).2 now ≤ level key' b now - 1
    rw [take_spends, hgranted]
    simp
  | peek key' now => simp [admits] at ha
  | sweep now idleMs => simp [admits] at ha

/-- The key's admissions are paid from its level. -/
def budget (hc : 0 ≤ capacity) (hr : 0 ≤ refillPerSecond) (key : String) :
    Budget (machine capacity refillPerSecond) capacity (refillPerSecond / 1000) where
  inv := Funded
  allowed := Waits capacity refillPerSecond
  time? k := some k.time
  admits := admits key
  level := level key
  keeps _ k h _ := step_funded hc hr h k
  full b t := level_le key b t
  refills _ _ _ h := level_refills hr h
  spends _ k t _ _ ht ha := by
    obtain rfl := Option.some.inj ht
    exact step_spends ha
  refuses _ k t h hk ht ha := by
    obtain rfl := Option.some.inj ht
    exact step_refuses hr h hk ha
  passes _ _ _ _ _ ht := nomatch ht

/-- **Any window.** Where every sweep waits for as long as an empty bucket takes to fill, a key is admitted no more often
than the capacity and the refill of the window allow. -/
theorem admitted_window (hc : 0 ≤ capacity) (hr : 0 ≤ refillPerSecond) {calls : List Call} (ho : Ordered calls)
    (hw : ∀ k ∈ calls, Waits capacity refillPerSecond k) (key : String) (start : ℚ) {w : ℚ} (h0 : 0 ≤ w) :
    (admitted key start (start + 1000 * w) ((machine capacity refillPerSecond).trace calls) : ℚ) ≤
      capacity + refillPerSecond * w := by
  have hord : (budget hc hr key).Ordered calls := by
    unfold Budget.Ordered
    rw [show calls.filterMap (budget hc hr key).time? = calls.map Call.time from congrFun List.filterMap_eq_map' calls]
    exact ho
  have hspan : start ≤ start + 1000 * w := by linarith
  have hrate : 0 ≤ refillPerSecond / 1000 := by positivity
  have hinit : (budget hc hr key).inv (machine capacity refillPerSecond).init := fun _ _ h => by cases h
  have hle := (budget hc hr key).admitted_le hc hrate hspan hinit hw hord
  have hgain : refillPerSecond / 1000 * (start + 1000 * w - start) = refillPerSecond * w := by ring
  rw [hgain] at hle
  exact hle

/-! ## Sweeps -/

/-- One bucket has entries that the other has dropped, and these are full from `t` on. -/
def Swept (t : ℚ) (b b' : RateBucket capacity refillPerSecond) : Prop :=
  ∀ key, b'.buckets key = b.buckets key ∨ b'.buckets key = none ∧ level key b t = capacity

variable {b' : RateBucket capacity refillPerSecond}

theorem swept_sweep (hr : 0 ≤ refillPerSecond) (hi : capacity ≤ refillPerSecond * idleMs / 1000) (h : b.Funded) :
    Swept now b (b.sweep now idleMs) := by
  intro key
  rcases sweep_buckets b now idleMs key with hs | ⟨hs, bucket, hb, hidle⟩
  · exact Or.inl hs
  · refine Or.inr ⟨hs, ?_⟩
    rw [← level_sweep hr hi h]
    simp [level, hs]

theorem Swept.mono (hr : 0 ≤ refillPerSecond) (h : Swept t b b') (ht : t ≤ t') : Swept t' b b' := by
  intro key
  refine (h key).imp id fun ⟨hnone, hfull⟩ => ⟨hnone, le_antisymm (level_le key b t') ?_⟩
  exact hfull.ge.trans (level_mono hr ht)

/-- A full entry is worth as much as none. -/
theorem Swept.level (h : Swept t b b') (key : String) : level key b' t = level key b t := by
  rcases h key with hs | ⟨hnone, hfull⟩
  · simp [RateBucket.level, hs]
  · rw [hfull]
    simp [RateBucket.level, hnone]

theorem swept_take (h : Swept now b b') (key : String) :
    (b'.take key now).1 = (b.take key now).1 ∧ Swept now (b.take key now).2 (b'.take key now).2 := by
  rw [take_eq b', take_eq b, h.level key]
  have hother : ∀ tokens : ℚ, Swept now (⟨Function.update b.buckets key (some ⟨tokens, now⟩)⟩ :
      RateBucket capacity refillPerSecond) ⟨Function.update b'.buckets key (some ⟨tokens, now⟩)⟩ := by
    intro tokens k
    by_cases hk : k = key
    · subst hk
      exact Or.inl (by simp)
    · rcases h k with hs | ⟨hnone, hfull⟩
      · exact Or.inl (by simpa [Function.update_of_ne hk] using hs)
      · refine Or.inr ⟨by simpa [Function.update_of_ne hk] using hnone, ?_⟩
        unfold RateBucket.level at hfull ⊢
        simpa [Function.update_of_ne hk] using hfull
  split
  · exact ⟨rfl, hother _⟩
  · exact ⟨rfl, hother _⟩

/-- A sweep of both drops more of the one, or of neither. -/
theorem swept_sweep_both (h : Swept now b b') (idleMs : ℚ) : Swept now (b.sweep now idleMs) (b'.sweep now idleMs) := by
  intro key
  rcases h key with hs | ⟨hnone, hfull⟩
  · exact Or.inl (by simp [sweep, hs])
  · have hnone' : (b'.sweep now idleMs).buckets key = none := by simp [sweep, hnone]
    rcases sweep_buckets b now idleMs key with hk | ⟨hk, -⟩
    · refine Or.inr ⟨hnone', ?_⟩
      unfold RateBucket.level at hfull ⊢
      rwa [hk]
    · exact Or.inl (hnone'.trans hk.symm)

/-- **One call** on both. -/
theorem swept_step (hr : 0 ≤ refillPerSecond) (h : Swept t b b') {k : Call} (ht : t ≤ k.time) :
    (b'.step k).2 = (b.step k).2 ∧ Swept k.time (b.step k).1 (b'.step k).1 := by
  have h' := h.mono hr ht
  cases k with
  | take key now =>
    obtain ⟨hanswer, hnext⟩ := swept_take h' key
    exact ⟨congrArg some hanswer, hnext⟩
  | peek key now =>
    refine ⟨?_, h'⟩
    change some (b'.peek key now) = some (b.peek key now)
    rw [peek_eq_take, peek_eq_take]
    exact congrArg some (swept_take h' key).1
  | sweep now idleMs => exact ⟨rfl, swept_sweep_both h' idleMs⟩

theorem swept_answers (hr : 0 ≤ refillPerSecond) (calls : List Call) :
    ∀ (t : ℚ) (b b' : RateBucket capacity refillPerSecond), Swept t b b' → (∀ k ∈ calls, t ≤ k.time) → Ordered calls →
      ((machine capacity refillPerSecond).traceFrom b' calls).map Machine.Event.out =
        ((machine capacity refillPerSecond).traceFrom b calls).map Machine.Event.out := by
  induction calls with
  | nil => exact fun _ _ _ _ _ _ => rfl
  | cons k calls ih =>
    intro t b b' h ht ho
    obtain ⟨hhead, htail⟩ := List.pairwise_cons.mp ho
    obtain ⟨hanswer, hnext⟩ := swept_step hr h (ht k List.mem_cons_self)
    have hrest := ih k.time _ _ hnext (fun k' hk' => hhead _ (List.mem_map_of_mem hk')) htail
    exact List.cons_eq_cons.mpr ⟨hanswer, hrest⟩

/-- **A sweep is harmless** that waits for as long as an empty bucket takes to fill: without it every later call would be
answered alike. -/
theorem sweep_harmless (hc : 0 ≤ capacity) (hr : 0 ≤ refillPerSecond) {before after : List Call} {now idleMs : ℚ}
    (hi : capacity ≤ refillPerSecond * idleMs / 1000) (ho : Ordered (before ++ .sweep now idleMs :: after)) :
    ((machine capacity refillPerSecond).traceFrom
        ((machine capacity refillPerSecond).run (before ++ [.sweep now idleMs])) after).map Machine.Event.out =
      ((machine capacity refillPerSecond).traceFrom
        ((machine capacity refillPerSecond).run before) after).map Machine.Event.out := by
  unfold Ordered at ho
  rw [List.map_append, List.map_cons, List.pairwise_append, List.pairwise_cons] at ho
  obtain ⟨-, ⟨hlater, hafter⟩, -⟩ := ho
  rw [Machine.run_snoc]
  exact swept_answers hr after now _ _ (swept_sweep hr hi (run_funded hc hr before))
    (fun k hk => hlater _ (List.mem_map_of_mem hk)) hafter

end RateBucket
end Auth
end WatchParty
