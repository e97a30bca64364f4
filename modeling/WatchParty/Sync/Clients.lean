import WatchParty.Lib.Machine
import WatchParty.Sync.Timeline

/-!
# A store and its clients

What instances are answered of a room they may emit, and what is emitted reaches any client, any number of times, in any
order or not at all; a client folds what it receives. The store is any machine of which it is known which timeline an
answer carries.

- `fanout`: the machine of the store and its clients;
- `fanout_store`: the store does not see its clients, and what is emitted is what it answered.
-/

namespace WatchParty

variable {S A O C : Type}

/-- A store, what it answered, and what its clients hold. -/
structure Fanout (S C : Type) where
  store : S
  emitted : List Timeline
  held : C → Option Timeline

/-- An operation of the store, or the delivery of something that was emitted. -/
inductive FanoutOp (A C : Type)
  | store (a : A)
  | deliver (c : C) (tl : Timeline)

/-- The operation of the store. -/
def FanoutOp.storeOp? : FanoutOp A C → Option A
  | .store a => some a
  | .deliver _ _ => none

/-- The operations of the store among the steps. -/
def storeOps (as : List (FanoutOp A C)) : List A := as.filterMap FanoutOp.storeOp?

@[simp] theorem storeOps_append (as bs : List (FanoutOp A C)) : storeOps (as ++ bs) = storeOps as ++ storeOps bs :=
  List.filterMap_append

@[simp] theorem storeOps_store (a : A) : storeOps [(.store a : FanoutOp A C)] = [a] := rfl

@[simp] theorem storeOps_deliver (c : C) (tl : Timeline) : storeOps [(.deliver c tl : FanoutOp A C)] = [] := rfl

variable [DecidableEq C] (m : Machine S A O) (carried : O → Option Timeline)

/-- One step of the store or of a client. -/
def fanoutStep (s : Fanout S C) : FanoutOp A C → Fanout S C × Unit
  | .store a =>
    let r := m.step s.store a
    ({ s with store := r.1, emitted := s.emitted ++ (carried r.2).toList }, ())
  | .deliver c tl =>
    (if tl ∈ s.emitted then { s with held := Function.update s.held c (onTimeline (s.held c) tl) } else s, ())

/-- A store and its clients, who hold nothing at first. -/
def fanout (C : Type) [DecidableEq C] : Machine (Fanout S C) (FanoutOp A C) Unit :=
  ⟨⟨m.init, [], fun _ => none⟩, fanoutStep m carried⟩

/-- The store runs as it does without clients, and what is emitted is what it answered. -/
theorem fanout_store (as : List (FanoutOp A C)) :
    ((fanout m carried C).run as).store = m.run (storeOps as) ∧
    ((fanout m carried C).run as).emitted = (m.trace (storeOps as)).filterMap fun e => carried e.out := by
  induction as using List.reverseRecOn with
  | nil => exact ⟨rfl, rfl⟩
  | append_singleton as a ih =>
    rw [Machine.run_snoc, storeOps_append]
    cases a with
    | store a =>
      rw [storeOps_store, Machine.run_snoc, Machine.trace_snoc, List.filterMap_append, ← ih.1, ← ih.2]
      refine ⟨rfl, congrArg (((fanout m carried C).run as).emitted ++ ·) ?_⟩
      simp only [Machine.event_out, List.filterMap_cons, List.filterMap_nil]
      cases carried (m.step ((fanout m carried C).run as).store a).2 <;> rfl
    | deliver c tl =>
      rw [storeOps_deliver, List.append_nil, ← ih.1, ← ih.2]
      simp only [fanout, fanoutStep]
      split <;> exact ⟨rfl, rfl⟩

end WatchParty
