import WatchParty.Formal.SyncTimeline
import WatchParty.Sync.Clients

/-!
# Clients of the specifications

The clients of a store against those of `formal/SyncTimeline.tla` under the ordered rule and of `formal/SyncActor.tla`,
which have one network. A client of the store can be delivered an answer any number of times; the specifications lose a
message when it is delivered. The two agree since a client takes no version twice: a delivery that is taken finds the
message in flight, and one that is not is no step.

- `Offered`: every version of a set is in flight for every client that is behind it;
- `Tracks`: the clients of a store against those of a specification.
-/

namespace WatchParty
namespace SyncTimeline

variable {C : Type}

/-- Every one of these versions is in flight for every client that is behind it. -/
def Offered (vs : Set Version) (network : Set (Msg C)) (applied : C → Version) : Prop :=
  ∀ v ∈ vs, ∀ c, ⟨v, c⟩ ∈ network ∨ v ≤ applied c

section Offered

variable {vs : Set Version} {network : Set (Msg C)} {applied : C → Version}

/-- A delivery that is applied. -/
theorem Offered.deliver [DecidableEq C] (h : Offered vs network applied) {v : Version} {c : C} (hlt : applied c < v) :
    Offered vs (network \ {⟨v, c⟩}) (Function.update applied c v) := by
  intro x hx d
  rcases eq_or_ne d c with rfl | hne
  · simp only [Function.update_self]
    rcases h x hx d with hin | hle
    · by_cases heq : x = v
      · exact Or.inr heq.le
      · exact Or.inl ⟨hin, fun hm => heq (congrArg Msg.toVersion hm)⟩
    · exact Or.inr (hle.trans hlt.le)
  · simp only [Function.update_of_ne hne]
    exact (h x hx d).imp (fun hin => ⟨hin, fun hm => hne (congrArg Msg.dst hm)⟩) id

end Offered

/-- The version that a client holds. -/
def heldVersion (version : Timeline → Version) : Option Timeline → Version
  | none => NoTimeline
  | some tl => version tl

/-- Clients that hold what was committed, in the versions of a specification, and are offered all of it. -/
structure Tracks (version : Timeline → Version) (tls : Set Timeline) (held : C → Option Timeline)
    (network : Set (Msg C)) (applied : C → Version) : Prop where
  holds : ∀ c, applied c = heldVersion version (held c)
  among : ∀ c tl, held c = some tl → tl ∈ tls
  offered : Offered (version '' tls) network applied

/-- A specification orders what was committed as clients do. -/
structure Numbers (version : Timeline → Version) (tls : Set Timeline) : Prop where
  pos : ∀ tl ∈ tls, 0 < (version tl).epoch
  lt_iff : ∀ a ∈ tls, ∀ b ∈ tls, version a < version b ↔ a.version < b.version

namespace Tracks

variable {version version' : Timeline → Version} {tls tls' : Set Timeline} {held : C → Option Timeline}
  {network : Set (Msg C)} {applied : C → Version}

/-- Nothing is in flight at first. -/
theorem init (hnone : ∀ tl, tl ∉ tls) : Tracks version tls (fun _ : C => none) ∅ fun _ => NoTimeline where
  holds _ := rfl
  among c tl h := by cases h
  offered := by
    rintro v ⟨tl, h, -⟩
    exact absurd h (hnone tl)

/-- Versions may be counted in another way. -/
theorem congr (h : Tracks version tls held network applied) (hsame : ∀ tl ∈ tls, version' tl = version tl) :
    Tracks version' tls held network applied := by
  refine ⟨fun c => ?_, h.among, ?_⟩
  · rw [h.holds]
    cases hx : held c with
    | none => rfl
    | some tl => exact (hsame tl (h.among c tl hx)).symm
  · rintro x ⟨tl, htl, rfl⟩ c
    rw [hsame tl htl]
    exact h.offered _ ⟨tl, htl, rfl⟩ c

/-- Another version is committed and sent to all. -/
theorem fan (h : Tracks version tls held network applied) (hsub : tls ⊆ tls') {v : Version}
    (hnew : ∀ tl ∈ tls', tl ∈ tls ∨ version tl = v) :
    Tracks version tls' held (network ∪ SyncTimeline.fan v) applied := by
  refine ⟨h.holds, fun c tl hx => hsub (h.among c tl hx), ?_⟩
  rintro x ⟨tl, htl, rfl⟩ c
  rcases hnew tl htl with hold | heq
  · exact (h.offered _ ⟨tl, hold, rfl⟩ c).imp Or.inl id
  · exact Or.inl (Or.inr heq)

variable [DecidableEq C]

/-- **A delivery** is not taken, and then nothing changes, or is one of a message in flight that the client applies. -/
theorem deliver (h : Tracks version tls held network applied) (hn : Numbers version tls) {tl : Timeline} (htl : tl ∈ tls)
    (c : C) :
    Function.update held c (onTimeline (held c) tl) = held ∨
    applied c < version tl ∧ ⟨version tl, c⟩ ∈ network ∧
      Tracks version tls (Function.update held c (onTimeline (held c) tl)) (network \ {⟨version tl, c⟩})
        (Function.update applied c (version tl)) := by
  by_cases hnew : isNewer tl (held c) = true
  · have hlt : applied c < version tl := by
      rw [h.holds]
      cases hheld : held c with
      | none => exact Version.lt_iff.mpr (Or.inl (hn.pos tl htl))
      | some old =>
        rw [hheld, isNewer_iff] at hnew
        exact (hn.lt_iff old (h.among c old hheld) tl htl).mpr hnew
    refine Or.inr ⟨hlt, (h.offered _ ⟨tl, htl, rfl⟩ c).resolve_right (not_le.mpr hlt), ?_⟩
    rw [onTimeline, if_pos hnew]
    refine ⟨fun d => ?_, fun d x hx => ?_, h.offered.deliver hlt⟩
    · rcases eq_or_ne d c with rfl | hne
      · simp only [Function.update_self, heldVersion]
      · simp only [Function.update_of_ne hne]
        exact h.holds d
    · rcases eq_or_ne d c with rfl | hne
      · simp only [Function.update_self, Option.some.injEq] at hx
        exact hx ▸ htl
      · simp only [Function.update_of_ne hne] at hx
        exact h.among d x hx
  · rw [onTimeline, if_neg hnew, Function.update_eq_self]
    exact Or.inl rfl

end Tracks

end SyncTimeline
end WatchParty
