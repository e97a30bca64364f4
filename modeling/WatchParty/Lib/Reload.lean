import Mathlib.Order.Lattice
import Mathlib.Order.BoundedOrder.Basic

/-!
# Reloading a view of a growing source

A view of a source that only grows is kept up by two ways at once: it is told of what is new, and from time to time it
is read again as a whole. What it is told between the read and the moment at which it takes the read over would be lost,
so it is kept apart while a reload is marked as under way, and joined to what was read.

- `Reload` is such a view over a join-semilattice, `Reload.Step` what can happen to it;
- `Reload.Sound` is the invariant: what is live is covered by the source, and by what a reload will put in its place;
- `Reload.Step.sound`: a step keeps the view sound and takes nothing back.
-/

/-- A view: what is live, what was told since a reload was marked, and what the reload has read. -/
structure Reload (L : Type) where
  live : L
  pending : L
  marked : Bool
  read : Option L

namespace Reload

variable {L : Type} [SemilatticeSup L]

/-- The view is told of `x`. -/
def remember (r : Reload L) (x : L) : Reload L :=
  { r with live := r.live ⊔ x, pending := if r.marked then r.pending ⊔ x else r.pending }

/-- A reload is marked as under way. -/
def mark (r : Reload L) : Reload L := { r with marked := true }

/-- What was told is dropped. -/
def clear [OrderBot L] (r : Reload L) : Reload L := { r with pending := ⊥ }

/-- The source is read. -/
def load (r : Reload L) (src : L) : Reload L := { r with read := some src }

/-- What was read is taken over, with what was told since. -/
def install (r : Reload L) : Reload L :=
  match r.read with
  | none => r
  | some v => { r with live := v ⊔ r.pending, read := none }

/-- What was read is given up. -/
def drop (r : Reload L) : Reload L := { r with read := none }

/-- The reload is no longer marked. -/
def unmark (r : Reload L) : Reload L := { r with marked := false }

/-- What is live is covered by the source, and by what a reload will put in its place. -/
structure Sound (src : L) (r : Reload L) : Prop where
  live : r.live ≤ src
  pending : r.pending ≤ src
  read : ∀ v, r.read = some v → r.marked = true ∧ v ≤ src ∧ r.live ≤ v ⊔ r.pending

variable {src : L} {r r' : Reload L}

/-- A view stays sound while the source grows. -/
theorem Sound.mono {src' : L} (h : r.Sound src) (hle : src ≤ src') : r.Sound src' where
  live := h.live.trans hle
  pending := h.pending.trans hle
  read v hv := ⟨(h.read v hv).1, (h.read v hv).2.1.trans hle, (h.read v hv).2.2⟩

/-- A view without a read is sound when the source covers it. -/
theorem Sound.of_read_eq_none (hl : r.live ≤ src) (hp : r.pending ≤ src) (hr : r.read = none) : r.Sound src := by
  refine ⟨hl, hp, fun v hv => ?_⟩
  rw [hr] at hv
  cases hv

theorem Sound.remember {x : L} (h : r.Sound src) (hx : x ≤ src) : (r.remember x).Sound src where
  live := sup_le h.live hx
  pending := by
    unfold Reload.remember
    split
    · exact sup_le h.pending hx
    · exact h.pending
  read v hv := by
    obtain ⟨hm, hle, hlive⟩ := h.read v hv
    refine ⟨hm, hle, ?_⟩
    simp only [Reload.remember, hm, if_true]
    exact sup_le (hlive.trans (sup_le_sup_left le_sup_left v)) (le_sup_right.trans le_sup_right)

theorem Sound.install (h : r.Sound src) : r.install.Sound src ∧ r.live ≤ r.install.live := by
  unfold Reload.install
  split
  · exact ⟨h, le_rfl⟩
  · rename_i v hv
    obtain ⟨-, hle, hlive⟩ := h.read v hv
    exact ⟨.of_read_eq_none (sup_le hle h.pending) h.pending rfl, hlive⟩

variable [OrderBot L]

/-- What can happen to a view while the source is `src`. Nothing that was told is dropped, and the mark is not taken away,
between a read and its end. -/
inductive Step (src : L) (r : Reload L) : Reload L → Prop
  | remember (x : L) (h : x ≤ src) : Step src r (r.remember x)
  | mark : Step src r r.mark
  | clear (h : r.read = none) : Step src r r.clear
  | load (h : r.marked = true) : Step src r (r.load src)
  | install : Step src r r.install
  | drop : Step src r r.drop
  | unmark (h : r.read = none) : Step src r r.unmark
  | idle : Step src r r

/-- **A step keeps a view sound and takes nothing back.** -/
theorem Step.sound (hs : Step src r r') (h : r.Sound src) : r'.Sound src ∧ r.live ≤ r'.live := by
  cases hs with
  | remember x hx => exact ⟨h.remember hx, le_sup_left⟩
  | mark => exact ⟨⟨h.live, h.pending, fun v hv => ⟨rfl, (h.read v hv).2⟩⟩, le_rfl⟩
  | clear hr => exact ⟨.of_read_eq_none h.live bot_le hr, le_rfl⟩
  | load hm =>
    refine ⟨⟨h.live, h.pending, fun v hv => ?_⟩, le_rfl⟩
    cases hv
    exact ⟨hm, le_rfl, h.live.trans le_sup_left⟩
  | install => exact h.install
  | drop => exact ⟨.of_read_eq_none h.live h.pending rfl, le_rfl⟩
  | unmark hr => exact ⟨.of_read_eq_none h.live h.pending hr, le_rfl⟩
  | idle => exact ⟨h, le_rfl⟩

end Reload
