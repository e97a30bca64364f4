import Mathlib.Order.Interval.Set.UnorderedInterval
import WatchParty.Lib.Machine
import WatchParty.SyncCore.Drift

/-!
# The clock-offset estimator

`ClockEstimator` of `shared/sync-core/clock-estimator.ts` over any number format, and its error in exact arithmetic. A run
is any list of calls.

- `ClockEstimator.best`: the samples of the window with the lowest round trips, of which the middle offset is the target;
- `Sampled`, `sampled_step`: each stored offset is within half its round trip of the true one;
- `Near`: the applied offset stays within the slew threshold of the target (`near_step`);
- `tick_toward`: a tick moves it towards the target, no faster than the slew rate and not past it.
-/

namespace WatchParty
namespace SyncCore

open Arith

/-- The four stamps of an exchange: `t0` and `t3` are the client's, `t1` and `t2` the server's. -/
structure ClockSample (α : Type) where
  t0 : α
  t1 : α
  t2 : α
  t3 : α

/-- No estimate has no uncertainty (`Infinity`) and no round trip (`NaN`). -/
structure ClockEstimate (α : Type) where
  offsetMs : α
  targetOffsetMs : α
  uncertaintyMs : Option α
  lastRttMs : Option α
  sampleCount : ℕ

/-- A selection of no samples has no median: the source does not survive it. -/
structure ClockTuning (α : Type) where
  ringSize : ℕ
  windowMs : α
  bestK : ℕ
  bestK_pos : 0 < bestK
  slewThresholdMs : α
  slewRatePerS : α

structure StoredSample (α : Type) where
  theta : α
  delta : α
  t3 : α

structure ClockEstimator (α : Type) where
  tuning : ClockTuning α
  samples : List (StoredSample α)
  applied : Option α
  target : α
  uncertainty : Option α
  lastRtt : Option α
  lastTick : Option α

variable {α : Type} [Arith α]

def DEFAULT_CLOCK_TUNING : ClockTuning α where
  ringSize := 64
  windowMs := lit 60000
  bestK := 5
  bestK_pos := by decide
  slewThresholdMs := lit 20
  slewRatePerS := lit 5

/-- The lower round trip first, and of equal ones the newer. -/
def StoredSample.compare (a b : StoredSample α) : α :=
  let d := a.delta - b.delta
  if d < lit 0 ∨ d > lit 0 then d else b.t3 - a.t3

namespace ClockEstimator

def new (tuning : ClockTuning α) : ClockEstimator α where
  tuning := tuning
  samples := []
  applied := none
  target := lit 0
  uncertainty := none
  lastRtt := none
  lastTick := none

/-- The stored samples that are recent at `nowLocal`. -/
def recent (c : ClockEstimator α) (nowLocal : α) : List (StoredSample α) :=
  c.samples.filter fun x => decide (nowLocal - x.t3 ≤ c.tuning.windowMs)

/-- The recent samples that are selected. -/
def best (c : ClockEstimator α) (nowLocal : α) : List (StoredSample α) :=
  ((c.recent nowLocal).insertionSort fun a b => ¬a.compare b > lit 0).take c.tuning.bestK

def recompute (c : ClockEstimator α) (nowLocal : α) : ClockEstimator α :=
  match c.best nowLocal with
  | [] => c
  | x :: rest =>
    let target := DriftController.median ((x :: rest).map StoredSample.theta)
    { c with
      target := target
      uncertainty := some (x.delta / lit 2)
      applied :=
        match c.applied with
        | none => some target
        | some applied => if Arith.abs (target - applied) ≥ c.tuning.slewThresholdMs then some target else some applied }

/-- The round trip of an exchange. -/
def delta (s : ClockSample α) : α := s.t3 - s.t0 - (s.t2 - s.t1)

/-- The offset that an exchange shows. -/
def theta (s : ClockSample α) : α := (s.t1 - s.t0 + (s.t2 - s.t3)) / lit 2

/-- The ring with one more sample. -/
def push (c : ClockEstimator α) (s : ClockSample α) : ClockEstimator α :=
  let samples := c.samples ++ [⟨theta s, delta s, s.t3⟩]
  { c with
    samples :=
      if samples.length > c.tuning.ringSize then samples.drop (samples.length - c.tuning.ringSize) else samples
    lastRtt := some (delta s) }

/-- An exchange with a negative round trip is not usable. -/
def addSample (c : ClockEstimator α) (s : ClockSample α) : Bool × ClockEstimator α :=
  if delta s < lit 0 then (false, c) else (true, (c.push s).recompute s.t3)

/-- `Math.sign(diff) * maxStep`: what is neither positive nor negative is its own sign. -/
def slew (diff maxStep : α) : α :=
  if diff > lit 0 then maxStep else if diff < lit 0 then -maxStep else diff * maxStep

def tick (c : ClockEstimator α) (nowLocal : α) : ClockEstimator α :=
  match c.applied with
  | none => c
  | some applied =>
    match c.lastTick with
    | none => { c with lastTick := some nowLocal }
    | some lastTick =>
      let dtS := (nowLocal - lastTick) / lit 1000
      let maxStep := c.tuning.slewRatePerS * dtS
      let diff := c.target - applied
      { c with
        applied := some (if Arith.abs diff ≤ maxStep then c.target else applied + slew diff maxStep)
        lastTick := some nowLocal }

def serverNow (c : ClockEstimator α) (nowLocal : α) : α := nowLocal + c.applied.getD (lit 0)

def hasEstimate (c : ClockEstimator α) : Bool := c.applied.isSome

def getEstimate (c : ClockEstimator α) : ClockEstimate α where
  offsetMs := c.applied.getD (lit 0)
  targetOffsetMs := c.target
  uncertaintyMs := c.uncertainty
  lastRttMs := c.lastRtt
  sampleCount := c.samples.length

def reset (c : ClockEstimator α) : ClockEstimator α := .new c.tuning

/-- The samples of which the target is the middle one: those that the last exchange selected. -/
def selected (c : ClockEstimator α) : List (StoredSample α) :=
  match c.samples.getLast? with
  | none => []
  | some x => c.best x.t3

/-! ## Runs -/

/-- What is called on the estimator. -/
inductive Call (α : Type)
  | addSample (s : ClockSample α)
  | tick (nowLocal : α)
  | reset

/-- The local time of a call. -/
def Call.nowLocal? : Call α → Option α
  | .addSample s => some s.t3
  | .tick nowLocal => some nowLocal
  | .reset => none

def step (c : ClockEstimator α) : Call α → ClockEstimator α × Unit
  | .addSample s => ((c.addSample s).2, ())
  | .tick nowLocal => (c.tick nowLocal, ())
  | .reset => (c.reset, ())

def machine (tuning : ClockTuning α) : Machine (ClockEstimator α) (Call α) Unit where
  init := .new tuning
  step := step

/-! ## The calls -/

/-- What a recomputation does: nothing without a recent sample, and otherwise the target is the middle offset of the
selection, to which a far offset is stepped. -/
theorem recompute_cases (c : ClockEstimator α) (nowLocal : α) :
    c.best nowLocal = [] ∧ c.recompute nowLocal = c ∨
      c.best nowLocal ≠ [] ∧
        (c.recompute nowLocal).target = DriftController.median ((c.best nowLocal).map StoredSample.theta) ∧
        ((c.recompute nowLocal).applied = some (c.recompute nowLocal).target ∨
          ∃ a, c.applied = some a ∧ (c.recompute nowLocal).applied = some a ∧
            ¬Arith.abs ((c.recompute nowLocal).target - a) ≥ c.tuning.slewThresholdMs) := by
  unfold recompute
  split
  · rename_i hb
    exact Or.inl ⟨hb, rfl⟩
  · rename_i x rest hb
    rw [hb]
    refine Or.inr ⟨List.cons_ne_nil _ _, rfl, ?_⟩
    cases ha : c.applied with
    | none => exact Or.inl rfl
    | some a =>
      dsimp only
      split
      · exact Or.inl rfl
      · rename_i hn
        exact Or.inr ⟨a, rfl, rfl, hn⟩

@[simp] theorem recompute_samples (c : ClockEstimator α) (nowLocal : α) :
    (c.recompute nowLocal).samples = c.samples := by
  unfold recompute
  split <;> rfl

@[simp] theorem recompute_tuning (c : ClockEstimator α) (nowLocal : α) :
    (c.recompute nowLocal).tuning = c.tuning := by
  unfold recompute
  split <;> rfl

@[simp] theorem recompute_lastTick (c : ClockEstimator α) (nowLocal : α) :
    (c.recompute nowLocal).lastTick = c.lastTick := by
  unfold recompute
  split <;> rfl

/-- What an exchange does: nothing, or it is stored and the estimate is recomputed. -/
theorem addSample_cases (c : ClockEstimator α) (s : ClockSample α) :
    (c.addSample s).2 = c ∨ (c.addSample s).2 = (c.push s).recompute s.t3 := by
  unfold addSample
  split
  · exact Or.inl rfl
  · exact Or.inr rfl

@[simp] theorem tick_samples (c : ClockEstimator α) (nowLocal : α) : (c.tick nowLocal).samples = c.samples := by
  unfold tick
  split
  · rfl
  · split <;> rfl

@[simp] theorem tick_tuning (c : ClockEstimator α) (nowLocal : α) : (c.tick nowLocal).tuning = c.tuning := by
  unfold tick
  split
  · rfl
  · split <;> rfl

@[simp] theorem tick_target (c : ClockEstimator α) (nowLocal : α) : (c.tick nowLocal).target = c.target := by
  unfold tick
  split
  · rfl
  · split <;> rfl

@[simp] theorem step_tuning (c : ClockEstimator α) (k : Call α) : (c.step k).1.tuning = c.tuning := by
  cases k with
  | addSample s =>
    rcases addSample_cases c s with h | h
    · exact congrArg ClockEstimator.tuning h
    · exact (congrArg ClockEstimator.tuning h).trans (recompute_tuning _ _)
  | tick nowLocal => exact tick_tuning c nowLocal
  | reset => rfl

theorem run_tuning (tuning : ClockTuning α) (calls : List (Call α)) : ((machine tuning).run calls).tuning = tuning :=
  (machine tuning).invariant_state (I := fun c => c.tuning = tuning) rfl
    (fun c k h => (step_tuning c k).trans h) calls

/-- What is stored is what was stored, or the last exchange. -/
theorem mem_push {c : ClockEstimator α} {s : ClockSample α} {x : StoredSample α} (h : x ∈ (c.push s).samples) :
    x ∈ c.samples ∨ x = ⟨theta s, delta s, s.t3⟩ := by
  have hmem : x ∈ c.samples ++ [⟨theta s, delta s, s.t3⟩] := by
    unfold push at h
    dsimp only at h
    split at h
    · exact List.mem_of_mem_drop h
    · exact h
  simpa using hmem

/-- The last exchange is stored last, in a ring that stores anything. -/
theorem push_last (c : ClockEstimator α) (s : ClockSample α) :
    (c.push s).samples.getLast? = if c.tuning.ringSize = 0 then none else some ⟨theta s, delta s, s.t3⟩ := by
  unfold push
  dsimp only
  by_cases h0 : c.tuning.ringSize = 0
  · simp [h0]
  · rw [if_neg h0]
    split
    · rename_i hgt
      rw [List.getLast?_drop, if_neg (by omega)]
      simp
    · simp

/-- The selection is of stored samples, and of no more than `bestK`. -/
theorem mem_best {c : ClockEstimator α} {nowLocal : α} {x : StoredSample α} (h : x ∈ c.best nowLocal) :
    x ∈ c.samples := by
  have hs := List.mem_of_mem_take h
  rw [List.mem_insertionSort] at hs
  exact List.mem_of_mem_filter hs

theorem best_length (c : ClockEstimator α) (nowLocal : α) : (c.best nowLocal).length ≤ c.tuning.bestK :=
  List.length_take_le _ _

theorem selected_eq {c : ClockEstimator α} {x : StoredSample α} (h : c.samples.getLast? = some x) :
    c.selected = c.best x.t3 := by
  simp [selected, h]

/-- The selection depends on what is stored only. -/
theorem selected_congr {c c' : ClockEstimator α} (hs : c'.samples = c.samples) (ht : c'.tuning = c.tuning) :
    c'.selected = c.selected := by
  simp [selected, best, recent, hs, ht]

/-- The middle of some values is one of them. -/
theorem median_mem {window : List α} (h : window ≠ []) : DriftController.median window ∈ window := by
  unfold DriftController.median
  have hlen : 0 < window.length := List.length_pos_iff.mpr h
  have hlt : (window.insertionSort fun a b => ¬a - b > lit 0).length / 2 <
      (window.insertionSort fun a b => ¬a - b > lit 0).length := by
    rw [List.length_insertionSort]
    omega
  dsimp only
  rw [List.getD_eq_getElem _ _ hlt]
  have hmem := List.getElem_mem hlt
  rwa [List.mem_insertionSort] at hmem

/-! ## The error of the target -/

section Exact

variable {α : Type} [Field α] [LinearOrder α] [IsStrictOrderedRing α]

attribute [local instance] Arith.exact

/-- An exchange with a server that is `offset` ahead, over delays that are not negative. -/
def Causal (offset : α) (s : ClockSample α) : Prop :=
  ∃ up down, 0 ≤ up ∧ 0 ≤ down ∧ s.t1 = s.t0 + up + offset ∧ s.t3 = s.t2 - offset + down

/-- An exchange shows the offset up to half its round trip. -/
theorem causal_theta {offset : α} {s : ClockSample α} (h : Causal offset s) : |theta s - offset| ≤ delta s / 2 := by
  obtain ⟨up, down, hup, hdown, h1, h3⟩ := h
  have h2 : (lit 2 : α) = 2 := Rat.cast_ofNat 2
  have ht : theta s - offset = (up - down) / 2 := by
    unfold theta
    rw [h1, h3, h2]
    ring
  have hd : delta s / 2 = (up + down) / 2 := by
    unfold delta
    rw [h1, h3]
    ring
  rw [ht, hd]
  apply abs_le.mpr
  constructor <;> linarith

/-- Every stored offset is within half its round trip of the true one, the target is a selected offset, and there is no
estimate without a sample. -/
structure Sampled (offset : α) (c : ClockEstimator α) : Prop where
  stored : ∀ x ∈ c.samples, |x.theta - offset| ≤ x.delta / 2
  middle : c.selected ≠ [] → ∃ x ∈ c.selected, c.target = x.theta
  held : c.applied ≠ none → c.tuning.ringSize ≠ 0 ∧ c.samples ≠ []

omit [IsStrictOrderedRing α] in
theorem sampled_tick {offset : α} {c : ClockEstimator α} (h : Sampled offset c) (nowLocal : α) :
    Sampled offset (c.tick nowLocal) := by
  have hsame : (c.tick nowLocal).selected = c.selected := selected_congr (tick_samples ..) (tick_tuning ..)
  constructor
  · rw [tick_samples]
    exact h.stored
  · rw [hsame, tick_target]
    exact h.middle
  · rw [tick_samples, tick_tuning]
    intro ha
    refine h.held fun hnone => ha ?_
    simp [tick, hnone]

theorem sampled_recompute {offset : α} {c : ClockEstimator α} {s : ClockSample α} (h : Sampled offset c)
    (hs : Causal offset s) : Sampled offset ((c.push s).recompute s.t3) := by
  have hsame : ((c.push s).recompute s.t3).selected = (c.push s).selected :=
    selected_congr (recompute_samples ..) (recompute_tuning ..)
  have hlast := push_last c s
  have hrec := recompute_cases (c.push s) s.t3
  constructor
  · rw [recompute_samples]
    intro x hx
    rcases mem_push hx with hx | rfl
    · exact h.stored x hx
    · exact causal_theta hs
  · rw [hsame]
    intro hne
    by_cases h0 : c.tuning.ringSize = 0
    · rw [if_pos h0] at hlast
      simp [selected, hlast] at hne
    · rw [if_neg h0] at hlast
      rw [selected_eq hlast] at hne ⊢
      rcases hrec with ⟨hb, -⟩ | ⟨hb, ht, -⟩
      · exact absurd hb hne
      · have hmap : ((c.push s).best s.t3).map StoredSample.theta ≠ [] := by simpa using hb
        obtain ⟨x, hx, hxt⟩ := List.mem_map.mp (median_mem hmap)
        exact ⟨x, hx, ht.trans hxt.symm⟩
  · rw [recompute_samples, recompute_tuning]
    change _ → c.tuning.ringSize ≠ 0 ∧ _
    intro ha
    have h0 : c.tuning.ringSize ≠ 0 := by
      rcases hrec with ⟨-, hc⟩ | ⟨hb, -, -⟩
      · rw [hc] at ha
        exact (h.held ha).1
      · intro h0
        obtain ⟨x, hx⟩ := List.exists_mem_of_ne_nil _ hb
        rw [if_pos h0, List.getLast?_eq_none_iff] at hlast
        exact absurd (hlast ▸ mem_best hx) List.not_mem_nil
    refine ⟨h0, fun hnil => ?_⟩
    rw [if_neg h0, hnil] at hlast
    cases hlast

/-- **One call.** -/
theorem sampled_step {offset : α} {c : ClockEstimator α} (h : Sampled offset c) (k : Call α)
    (hk : ∀ s, k = .addSample s → Causal offset s) : Sampled offset (c.step k).1 := by
  cases k with
  | reset => exact ⟨fun x hx => absurd hx List.not_mem_nil, fun hne => absurd rfl hne, fun ha => absurd rfl ha⟩
  | tick nowLocal => exact sampled_tick h nowLocal
  | addSample s =>
    change Sampled offset (c.addSample s).2
    rcases addSample_cases c s with he | he
    · rw [he]
      exact h
    · rw [he]
      exact sampled_recompute h (hk s rfl)

omit [IsStrictOrderedRing α] in
/-- Where the window is not empty, the last exchange is in it, and some exchange is selected. -/
theorem selected_ne_nil {c : ClockEstimator α} (hw : 0 ≤ c.tuning.windowMs) (h : c.samples ≠ []) : c.selected ≠ [] := by
  obtain ⟨x, hx⟩ := Option.ne_none_iff_exists'.mp (mt List.getLast?_eq_none_iff.mp h)
  have hrecent : x ∈ c.recent x.t3 := List.mem_filter.mpr ⟨List.mem_of_getLast? hx, by simpa using hw⟩
  rw [selected_eq hx]
  have hk := c.tuning.bestK_pos
  have hpos := List.length_pos_of_mem hrecent
  apply List.ne_nil_of_length_pos
  unfold best
  rw [List.length_take, List.length_insertionSort]
  omega

/-- The target is within half the largest selected round trip of the true offset. -/
theorem sampled_target {offset : α} {c : ClockEstimator α} (h : Sampled offset c) (hne : c.selected ≠ []) :
    ∃ x ∈ c.selected, (∀ y ∈ c.selected, y.delta ≤ x.delta) ∧ |c.target - offset| ≤ x.delta / 2 := by
  obtain ⟨x, hx, ht⟩ := h.middle hne
  obtain ⟨z, hz, hmax⟩ := Set.exists_max_image {y | y ∈ c.selected} StoredSample.delta (List.finite_toSet _) ⟨x, hx⟩
  refine ⟨z, hz, hmax, ?_⟩
  have hstored : x ∈ c.samples := by
    unfold selected at hx
    split at hx
    · exact absurd hx List.not_mem_nil
    · exact mem_best hx
  have hx' := h.stored x hstored
  have hle := hmax x hx
  rw [ht]
  linarith

/-! ## The applied offset -/

/-- The applied offset is close to the target. -/
def Near (c : ClockEstimator α) : Prop := ∀ a, c.applied = some a → |a - c.target| < c.tuning.slewThresholdMs

theorem slew_toward {diff maxStep : α} (h0 : 0 ≤ maxStep) (h : maxStep < |diff|) :
    (0 ≤ diff → 0 ≤ slew diff maxStep ∧ slew diff maxStep ≤ diff) ∧
      (diff ≤ 0 → diff ≤ slew diff maxStep ∧ slew diff maxStep ≤ 0) ∧ |slew diff maxStep| ≤ maxStep := by
  have hz : (lit 0 : α) = 0 := Rat.cast_zero
  unfold slew
  rw [hz]
  rcases lt_trichotomy diff 0 with hd | rfl | hd
  · rw [if_neg (not_lt.mpr hd.le), if_pos hd, abs_neg, abs_of_nonneg h0]
    rw [abs_of_neg hd] at h
    exact ⟨fun hn => absurd hn (not_le.mpr hd), fun _ => ⟨by linarith, by linarith⟩, le_rfl⟩
  · rw [abs_zero] at h
    exact absurd h (not_lt.mpr h0)
  · rw [if_pos hd, abs_of_nonneg h0]
    rw [abs_of_pos hd] at h
    exact ⟨fun _ => ⟨h0, h.le⟩, fun hn => absurd hn (not_le.mpr hd), le_rfl⟩

/-- **A tick moves the applied offset towards the target**, no faster than the slew rate, and not past it. -/
theorem tick_toward {c : ClockEstimator α} {nowLocal a : α} (hr : 0 ≤ c.tuning.slewRatePerS)
    (ht : ∀ t, c.lastTick = some t → t ≤ nowLocal) (ha : c.applied = some a) :
    ∃ a', (c.tick nowLocal).applied = some a' ∧ a' ∈ Set.uIcc a c.target ∧
      |a' - a| ≤ c.tuning.slewRatePerS * ((nowLocal - c.lastTick.getD nowLocal) / 1000) := by
  have h1000 : (lit 1000 : α) = 1000 := Rat.cast_ofNat 1000
  unfold tick
  rw [ha]
  dsimp only
  cases hl : c.lastTick with
  | none => exact ⟨a, rfl, Set.left_mem_uIcc, by simp⟩
  | some last =>
    have hstep : 0 ≤ c.tuning.slewRatePerS * ((nowLocal - last) / 1000) :=
      mul_nonneg hr (div_nonneg (sub_nonneg.mpr (ht last hl)) (by norm_num))
    refine ⟨_, rfl, ?_⟩
    rw [h1000, Option.getD_some]
    generalize c.tuning.slewRatePerS * ((nowLocal - last) / 1000) = maxStep at hstep
    by_cases hd : Arith.abs (c.target - a) ≤ maxStep
    · rw [if_pos hd]
      exact ⟨Set.right_mem_uIcc, hd⟩
    · rw [if_neg hd]
      obtain ⟨hup, hdown, hslew⟩ := slew_toward hstep (lt_of_not_ge hd)
      refine ⟨?_, by simpa using hslew⟩
      rcases le_total a c.target with hle | hle
      · obtain ⟨h1, h2⟩ := hup (sub_nonneg.mpr hle)
        rw [Set.uIcc_of_le hle]
        exact ⟨by linarith, by linarith⟩
      · obtain ⟨h1, h2⟩ := hdown (sub_nonpos.mpr hle)
        rw [Set.uIcc_of_ge hle]
        exact ⟨by linarith, by linarith⟩

/-- **One call.** -/
theorem near_step {c : ClockEstimator α} (hs : 0 < c.tuning.slewThresholdMs) (hr : 0 ≤ c.tuning.slewRatePerS)
    (h : Near c) (k : Call α) (ht : ∀ t now, c.lastTick = some t → k.nowLocal? = some now → t ≤ now) :
    Near (c.step k).1 := by
  cases k with
  | reset => exact fun a ha => by cases ha
  | tick nowLocal =>
    intro a' ha'
    change (c.tick nowLocal).applied = some a' at ha'
    change |a' - (c.tick nowLocal).target| < (c.tick nowLocal).tuning.slewThresholdMs
    rw [tick_target, tick_tuning]
    cases ha : c.applied with
    | none =>
      rw [show c.tick nowLocal = c by simp [tick, ha], ha] at ha'
      cases ha'
    | some a =>
      obtain ⟨b, hb, hmem, -⟩ := tick_toward hr (fun t hl => ht t nowLocal hl rfl) ha
      obtain rfl := Option.some.inj (ha'.symm.trans hb)
      have hnear := h a ha
      rw [abs_sub_comm] at hnear ⊢
      exact (Set.abs_sub_right_of_mem_uIcc hmem).trans_lt hnear
  | addSample s =>
    change Near (c.addSample s).2
    rcases addSample_cases c s with he | he
    · rw [he]
      exact h
    · rw [he]
      rcases recompute_cases (c.push s) s.t3 with ⟨-, hsame⟩ | ⟨-, -, happ⟩
      · rw [hsame]
        exact h
      · intro a ha
        rw [recompute_tuning]
        rcases happ with happ | ⟨b, -, hb, hnear⟩
        · obtain rfl := Option.some.inj (ha.symm.trans happ)
          rw [sub_self, abs_zero]
          exact hs
        · obtain rfl := Option.some.inj (ha.symm.trans hb)
          rw [abs_sub_comm]
          exact lt_of_not_ge hnear

/-! ## Runs -/

/-- The calls are made at local times that do not decrease. -/
def Ordered (calls : List (Call α)) : Prop := (calls.filterMap Call.nowLocal?).Pairwise (· ≤ ·)

omit [IsStrictOrderedRing α] in
theorem step_lastTick {c : ClockEstimator α} {k : Call α} {t : α} (h : (c.step k).1.lastTick = some t) :
    c.lastTick = some t ∨ k.nowLocal? = some t := by
  cases k with
  | reset => cases h
  | addSample s =>
    change (c.addSample s).2.lastTick = some t at h
    rcases addSample_cases c s with he | he
    · exact Or.inl (he ▸ h)
    · rw [he, recompute_lastTick] at h
      exact Or.inl h
  | tick nowLocal =>
    change (c.tick nowLocal).lastTick = some t at h
    unfold tick at h
    split at h
    · exact Or.inl h
    · split at h <;> exact Or.inr h

omit [IsStrictOrderedRing α] in
/-- The last tick is one of the calls. -/
theorem run_lastTick (tuning : ClockTuning α) (calls : List (Call α)) :
    ∀ t, ((machine tuning).run calls).lastTick = some t → t ∈ calls.filterMap Call.nowLocal? := by
  induction calls using List.reverseRecOn with
  | nil => exact fun t ht => by cases ht
  | append_singleton calls k ih =>
    intro t ht
    rw [Machine.run_snoc] at ht
    rw [List.filterMap_append, List.mem_append]
    rcases step_lastTick ht with h | h
    · exact Or.inl (ih t h)
    · exact Or.inr (List.mem_filterMap.mpr ⟨k, List.mem_singleton_self k, h⟩)

omit [IsStrictOrderedRing α] in
/-- A call comes no sooner than the last tick. -/
theorem ordered_lastTick {tuning : ClockTuning α} {calls : List (Call α)} {k : Call α} (h : Ordered (calls ++ [k])) :
    ∀ t now, ((machine tuning).run calls).lastTick = some t → k.nowLocal? = some now → t ≤ now := by
  intro t now ht hk
  unfold Ordered at h
  rw [List.filterMap_append, List.pairwise_append] at h
  exact h.2.2 t (run_lastTick tuning calls t ht) now (List.mem_filterMap.mpr ⟨k, List.mem_singleton_self k, hk⟩)

theorem sampled_run {offset : α} (tuning : ClockTuning α) (calls : List (Call α)) :
    (∀ s, Call.addSample s ∈ calls → Causal offset s) → Sampled offset ((machine tuning).run calls) := by
  induction calls using List.reverseRecOn with
  | nil => exact fun _ => ⟨fun x hx => absurd hx List.not_mem_nil, fun hne => absurd rfl hne, fun ha => absurd rfl ha⟩
  | append_singleton calls k ih =>
    intro hc
    rw [Machine.run_snoc]
    refine sampled_step (ih fun s hs => hc s (List.mem_append_left _ hs)) k fun s hk => hc s ?_
    simp [hk]

theorem near_run {tuning : ClockTuning α} (hs : 0 < tuning.slewThresholdMs) (hr : 0 ≤ tuning.slewRatePerS)
    (calls : List (Call α)) : Ordered calls → Near ((machine tuning).run calls) := by
  induction calls using List.reverseRecOn with
  | nil => exact fun _ a ha => by cases ha
  | append_singleton calls k ih =>
    intro ho
    have hbefore : Ordered calls := by
      have h := ho
      unfold Ordered at h
      rw [List.filterMap_append, List.pairwise_append] at h
      exact h.1
    have htuning := run_tuning tuning calls
    rw [Machine.run_snoc]
    exact near_step (by rw [htuning]; exact hs) (by rw [htuning]; exact hr) (ih hbefore) k (ordered_lastTick ho)

/-- **The clock estimator is sound and smooth.** Where the true offset is constant and no delay is negative, after every
run the target is off by at most half the largest round trip of the selected exchanges, of which there are at most `bestK`,
and the applied offset is within the slew threshold of the target; and every tick of the run moves the applied offset
towards the target, by no more than the slew rate allows and not past it. -/
theorem estimate_sound {offset : α} {tuning : ClockTuning α} (hs : 0 < tuning.slewThresholdMs)
    (hr : 0 ≤ tuning.slewRatePerS) {calls : List (Call α)} (ho : Ordered calls)
    (hc : ∀ s, Call.addSample s ∈ calls → Causal offset s) :
    let c := (machine tuning).run calls
    (c.selected.length ≤ tuning.bestK ∧ (0 ≤ tuning.windowMs → c.applied ≠ none → c.selected ≠ []) ∧
      (c.selected ≠ [] →
        ∃ x ∈ c.selected, (∀ y ∈ c.selected, y.delta ≤ x.delta) ∧ |c.target - offset| ≤ x.delta / 2)) ∧
      (∀ a, c.applied = some a → |a - c.target| < tuning.slewThresholdMs) ∧
      ∀ e ∈ (machine tuning).trace calls, ∀ now, e.act = .tick now →
        e.post.target = e.pre.target ∧ (e.pre.applied = none → e.post.applied = none) ∧
          ∀ a, e.pre.applied = some a →
            ∃ a', e.post.applied = some a' ∧ a' ∈ Set.uIcc a e.pre.target ∧
              |a' - a| ≤ tuning.slewRatePerS * ((now - e.pre.lastTick.getD now) / 1000) := by
  have hsampled := sampled_run tuning calls hc
  have htuning := run_tuning tuning calls
  have hnear := near_run hs hr calls ho
  unfold Near at hnear
  rw [htuning] at hnear
  refine ⟨⟨?_, fun hw ha => ?_, sampled_target hsampled⟩, hnear, fun e he now hact => ?_⟩
  · unfold selected
    split
    · exact Nat.zero_le _
    · exact (best_length _ _).trans_eq (congrArg ClockTuning.bestK htuning)
  · exact selected_ne_nil (by rw [htuning]; exact hw) (hsampled.held ha).2
  · obtain ⟨before, k, hpre, rfl⟩ := (machine tuning).mem_trace he
    obtain rfl : k = .tick now := hact
    have hordered : Ordered (before ++ [.tick now]) := List.Pairwise.sublist (hpre.sublist.filterMap _) ho
    refine ⟨tick_target .., fun ha => ?_, fun a ha => ?_⟩
    · change (((machine tuning).run before).tick now).applied = none
      change ((machine tuning).run before).applied = none at ha
      simp [tick, ha]
    · have hbefore := run_tuning tuning before
      have hlast : ∀ t, ((machine tuning).run before).lastTick = some t → t ≤ now :=
        fun t ht => ordered_lastTick hordered t now ht rfl
      have hmove := tick_toward (by rw [hbefore]; exact hr) hlast ha
      rw [hbefore] at hmove
      exact hmove

/-- Two exchanges with a server 250 ms ahead, the second with the longer way back, and two ticks. -/
def exchanged : List (Call ℚ) :=
  [.addSample ⟨1000, 1290, 1290, 1060⟩, .tick 1100, .addSample ⟨2000, 2255, 2255, 2015⟩, .tick 2100]

theorem estimate_sound_exchanged :
    |((machine (DEFAULT_CLOCK_TUNING : ClockTuning ℚ)).run exchanged).target - 250| ≤ 60 / 2 ∧
      (∀ a, ((machine (DEFAULT_CLOCK_TUNING : ClockTuning ℚ)).run exchanged).applied = some a →
        |a - ((machine (DEFAULT_CLOCK_TUNING : ClockTuning ℚ)).run exchanged).target| < 20) := by
  have hordered : Ordered exchanged := by
    show List.Pairwise _ [(1060 : ℚ), 1100, 2015, 2100]
    norm_num
  have hcausal : ∀ s, Call.addSample s ∈ exchanged → Causal 250 s := by
    intro s hs
    simp only [exchanged, List.mem_cons, Call.addSample.injEq, reduceCtorEq, List.not_mem_nil, or_false, false_or] at hs
    rcases hs with rfl | rfl
    · exact ⟨40, 20, by norm_num⟩
    · exact ⟨5, 10, by norm_num⟩
  have hdelta : ((machine (DEFAULT_CLOCK_TUNING : ClockTuning ℚ)).run exchanged).selected.map StoredSample.delta =
      [15, 60] := by decide +kernel
  obtain ⟨⟨-, -, hsound⟩, hnear, -⟩ := @estimate_sound ℚ _ _ _ 250 DEFAULT_CLOCK_TUNING (by decide +kernel)
    (by decide +kernel) exchanged hordered hcausal
  have hne : ((machine (DEFAULT_CLOCK_TUNING : ClockTuning ℚ)).run exchanged).selected ≠ [] := by
    intro hnil
    rw [hnil] at hdelta
    cases hdelta
  obtain ⟨x, hx, -, hle⟩ := hsound hne
  have hx60 : x.delta ≤ 60 := by
    have hmem := List.mem_map_of_mem (f := StoredSample.delta) hx
    rw [hdelta] at hmem
    simp only [List.mem_cons, List.not_mem_nil, or_false] at hmem
    rcases hmem with h | h
    · linarith
    · linarith
  have h20 : (DEFAULT_CLOCK_TUNING : ClockTuning ℚ).slewThresholdMs = 20 := by decide +kernel
  rw [h20] at hnear
  exact ⟨hle.trans (by linarith), hnear⟩

end Exact

end ClockEstimator
end SyncCore
end WatchParty
