import Mathlib.Data.List.Nodup
import Mathlib.Logic.Function.Basic

/-!
# Promises

Promises with reactions and jobs, in the manner of JavaScript. `P` are the promises, `H` the handlers that react to them,
`R` the results.

- a reaction to a pending promise waits in its cell; a reaction to a settled one is a job at once (`react`);
- a promise is settled once, and its reactions are then jobs (`settle`);
- `take?` takes any job out: no order of the jobs is assumed, so what is proved holds for the order of their arrival.
-/

inductive Promises.Cell (H R : Type)
  | pending (handlers : List H)
  | settled (r : R)

/-- A job runs a handler, on the result of the promise that it reacted to, or on nothing. -/
inductive Promises.Job (H R : Type)
  | react (h : H) (r : R)
  | call (h : H)

structure Promises (P H R : Type) where
  cells : P → Promises.Cell H R
  jobs : List (Promises.Job H R)

namespace Promises

variable {P H R : Type}

/-- No promise is settled, and none is reacted to. -/
def empty : Promises P H R := ⟨fun _ => .pending [], []⟩

/-- The job at an index, and the promises without it. -/
def take? (s : Promises P H R) (i : ℕ) : Option (Job H R × Promises P H R) :=
  (s.jobs[i]?).map fun job => (job, { s with jobs := s.jobs.eraseIdx i })

def enqueue (job : Job H R) (s : Promises P H R) : Promises P H R := { s with jobs := s.jobs ++ [job] }

variable [DecidableEq P]

def react (p : P) (h : H) (s : Promises P H R) : Promises P H R :=
  match s.cells p with
  | .pending handlers => { s with cells := Function.update s.cells p (.pending (handlers ++ [h])) }
  | .settled r => s.enqueue (.react h r)

def settle (p : P) (r : R) (s : Promises P H R) : Promises P H R :=
  match s.cells p with
  | .pending handlers =>
    { cells := Function.update s.cells p (.settled r), jobs := s.jobs ++ handlers.map fun h => .react h r }
  | .settled _ => s

variable {s : Promises P H R} {p q : P} {h : H} {r : R} {handlers : List H}

theorem react_pending (hp : s.cells p = .pending handlers) :
    s.react p h = { s with cells := Function.update s.cells p (.pending (handlers ++ [h])) } := by
  simp [react, hp]

theorem react_settled (hp : s.cells p = .settled r) : s.react p h = s.enqueue (.react h r) := by
  simp [react, hp]

theorem settle_pending (hp : s.cells p = .pending handlers) :
    s.settle p r =
      { cells := Function.update s.cells p (.settled r), jobs := s.jobs ++ handlers.map fun h => .react h r } := by
  simp [settle, hp]

omit [DecidableEq P] in
/-- What is left when a job is taken of which there is one. -/
theorem take?_eq_some {job : Job H R} {s' : Promises P H R} {i : ℕ} (hn : s.jobs.Nodup)
    (ht : s.take? i = some (job, s')) :
    job ∈ s.jobs ∧ s'.cells = s.cells ∧ s'.jobs.Nodup ∧ ∀ j, j ∈ s'.jobs ↔ j ∈ s.jobs ∧ j ≠ job := by
  unfold take? at ht
  obtain ⟨job', hjob, he⟩ := Option.map_eq_some_iff.mp ht
  obtain ⟨rfl, rfl⟩ := Prod.mk.inj he
  refine ⟨List.mem_of_getElem? hjob, rfl, hn.eraseIdx i, fun j => ?_⟩
  dsimp only
  rw [List.mem_eraseIdx_iff_getElem?]
  constructor
  · rintro ⟨n, hne, hj⟩
    refine ⟨List.mem_of_getElem? hj, ?_⟩
    rintro rfl
    obtain ⟨hi, -⟩ := List.getElem?_eq_some_iff.mp hjob
    exact hne ((List.getElem?_inj hi hn).mp (hjob.trans hj.symm)).symm
  · rintro ⟨hj, hne⟩
    obtain ⟨n, hn'⟩ := List.mem_iff_getElem?.mp hj
    refine ⟨n, ?_, hn'⟩
    rintro rfl
    exact hne (Option.some.inj (hn'.symm.trans hjob))

end Promises
