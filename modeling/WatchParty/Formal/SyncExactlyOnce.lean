import Mathlib.Data.Nat.Cast.Defs
import Mathlib.Data.Rat.Defs
import Mathlib.Data.Set.Basic
import Mathlib.Logic.Function.Basic
import WatchParty.Lib.Fairness

/-!
# The specification of exactly-once application

`formal/SyncExactlyOnce.tla`: control commands that clients send again until they see them committed, a network that
duplicates and reorders them, a store that remembers the ids it applied for a while, and a log of what it committed.
The commands, the positions and the bounds are parameters; positions are of any type that the clock can be added to.

- `Store`, `Entry`, `Apply`, `Snap`, `ReplayFrom`: the store, its log and the replay of the log;
- `Next`, an action for each of the specification, and `Fairness`;
- `Sound`: what every reachable state has, under every setting of the switches.
-/

namespace WatchParty
namespace SyncExactlyOnce

/-- `Intents`. -/
inductive Intent
  | play | pause | seek
  deriving DecidableEq, Repr

/-- `[seq, playing, pos, anchor]`. -/
@[ext] structure Store (P : Type) where
  seq : ℕ
  playing : Bool
  pos : P
  anchor : ℕ
  deriving DecidableEq, Repr

/-- A record of the log; the intent is `none` where the command was not issued. -/
inductive Entry (C P : Type)
  | cmd (id : C) (intent : Option Intent) (pos : P) (t : ℕ)
  | snap (t : ℕ)
  deriving DecidableEq, Repr

section Projections

variable {C P : Type} [AddMonoidWithOne P]

def InitStore : Store P := ⟨0, false, 0, 0⟩

/-- Where playback has advanced to at instant `t`. -/
def Projection (s : Store P) (t : ℕ) : P := if s.playing then s.pos + ((t - s.anchor : ℕ) : P) else s.pos

omit [AddMonoidWithOne P] in
def Apply (s : Store P) (i : Option Intent) (p : P) (t : ℕ) : Store P :=
  if i = some .play then ⟨s.seq + 1, true, p, t⟩
  else if i = some .pause then ⟨s.seq + 1, false, p, t⟩
  else ⟨s.seq + 1, s.playing, p, t⟩

/-- Re-anchor without changing state. -/
def Snap (s : Store P) (t : ℕ) : Store P := ⟨s.seq + 1, s.playing, Projection s t, t⟩

def ApplyEntry (s : Store P) : Entry C P → Store P
  | .cmd _ intent pos t => Apply s intent pos t
  | .snap t => Snap s t

def ReplayFrom (s : Store P) : List (Entry C P) → Store P
  | [] => s
  | e :: es => ReplayFrom (ApplyEntry s e) es

/-- The contract of an entry's intent, written independently of `Apply` and `Snap`. -/
def Contract (pre : Store P) (e : Entry C P) (post : Store P) : Prop :=
  post.seq = pre.seq + 1 ∧
  match e with
  | .snap t => post.anchor = t ∧ post.playing = pre.playing ∧ post.pos = Projection pre t
  | .cmd _ (some .play) pos t => post.anchor = t ∧ post.playing = true ∧ post.pos = pos
  | .cmd _ (some .pause) pos t => post.anchor = t ∧ post.playing = false ∧ post.pos = pos
  | .cmd _ _ pos t => post.anchor = t ∧ post.playing = pre.playing ∧ post.pos = pos

def ContractHoldsFrom (s : Store P) : List (Entry C P) → Prop
  | [] => True
  | e :: es => Contract s e (ApplyEntry s e) ∧ ContractHoldsFrom (ApplyEntry s e) es

omit [AddMonoidWithOne P] in
@[simp] theorem Apply_seq (s : Store P) (i : Option Intent) (p : P) (t : ℕ) : (Apply s i p t).seq = s.seq + 1 := by
  unfold Apply
  split
  · rfl
  · split <;> rfl

omit [AddMonoidWithOne P] in
@[simp] theorem Apply_anchor (s : Store P) (i : Option Intent) (p : P) (t : ℕ) : (Apply s i p t).anchor = t := by
  unfold Apply
  split
  · rfl
  · split <;> rfl

@[simp] theorem ApplyEntry_seq (s : Store P) (e : Entry C P) : (ApplyEntry s e).seq = s.seq + 1 := by
  cases e with
  | cmd id intent pos t => exact Apply_seq s intent pos t
  | snap t => rfl

theorem ReplayFrom_snoc (s : Store P) (es : List (Entry C P)) (e : Entry C P) :
    ReplayFrom s (es ++ [e]) = ApplyEntry (ReplayFrom s es) e := by
  induction es generalizing s with
  | nil => rfl
  | cons x es ih => exact ih (ApplyEntry s x)

/-- A replay counts its entries. -/
theorem ReplayFrom_seq (s : Store P) (es : List (Entry C P)) : (ReplayFrom s es).seq = s.seq + es.length := by
  induction es generalizing s with
  | nil => rfl
  | cons x es ih =>
    rw [ReplayFrom, ih, ApplyEntry_seq, List.length_cons]
    omega

/-- Every entry meets its contract. -/
theorem contract (s : Store P) (e : Entry C P) : Contract s e (ApplyEntry s e) := by
  cases e with
  | cmd id intent pos t =>
    refine ⟨Apply_seq s intent pos t, ?_⟩
    rcases intent with _ | _ | _ | _ <;> exact ⟨rfl, rfl, rfl⟩
  | snap t => exact ⟨rfl, rfl, rfl, rfl⟩

theorem contractHoldsFrom (s : Store P) (es : List (Entry C P)) : ContractHoldsFrom s es := by
  induction es generalizing s with
  | nil => trivial
  | cons x es ih => exact ⟨contract s x, ih _⟩

end Projections

/-- `CONSTANTS` other than the commands, which are a type. -/
structure Constants (P : Type) where
  Positions : Set P
  MaxTime : ℕ
  MaxSends : ℕ
  DedupOn : Bool
  Ttl : ℕ
  RetryWindow : ℕ
  LogSnapshots : Bool

/-- `VARIABLES`. -/
structure State (C P : Type) where
  now : ℕ
  intentOf : C → Option Intent
  posOf : C → P
  sends : C → ℕ
  chan : C → ℕ
  acked : Set C
  issuedAt : C → ℕ
  dedup : Set C
  evictAt : C → ℕ
  applyCount : C → ℕ
  store : Store P
  log : List (Entry C P)

variable {C P : Type} [DecidableEq C] [AddMonoidWithOne P]

def initial : State C P :=
  { now := 0, intentOf := fun _ => none, posOf := fun _ => 0, sends := fun _ => 0, chan := fun _ => 0, acked := ∅,
    issuedAt := fun _ => 0, dedup := ∅, evictAt := fun _ => 0, applyCount := fun _ => 0, store := InitStore, log := [] }

/-! ## The actions -/

namespace State

variable (s : State C P) (c : C)

/-- One more copy of a command is in the channel. -/
def sent : State C P :=
  { s with sends := Function.update s.sends c (s.sends c + 1), chan := Function.update s.chan c (s.chan c + 1) }

/-- A command is minted and sent. -/
def issued (i : Intent) (p : P) : State C P :=
  { s.sent c with intentOf := Function.update s.intentOf c (some i), posOf := Function.update s.posOf c p,
                  issuedAt := Function.update s.issuedAt c s.now }

/-- A copy is taken out of the channel. -/
def taken : State C P := { s with chan := Function.update s.chan c (s.chan c - 1) }

/-- The store's apply script, where the guard lets the command through. -/
def delivered (ttl : ℕ) : State C P :=
  { s.taken c with
    store := Apply s.store (s.intentOf c) (s.posOf c) s.now
    log := s.log ++ [.cmd c (s.intentOf c) (s.posOf c) s.now]
    applyCount := Function.update s.applyCount c (s.applyCount c + 1)
    dedup := s.dedup ∪ {c}
    evictAt := Function.update s.evictAt c (s.now + ttl) }

/-- The sweep's snapshot. -/
def swept (logged : Bool) : State C P :=
  { s with store := Snap s.store s.now, log := if logged then s.log ++ [.snap s.now] else s.log }

end State

variable (k : Constants P)

def Init (s : State C P) : Prop := s = initial

omit [DecidableEq C] [AddMonoidWithOne P] in
def Tick (s t : State C P) : Prop := s.now < k.MaxTime ∧ t = { s with now := s.now + 1 }

/-- The client mints an id and sends: payload chosen once, fixed forever. -/
def Issue (c : C) (s t : State C P) : Prop :=
  s.intentOf c = none ∧ s.sends c < k.MaxSends ∧ ∃ i, ∃ p ∈ k.Positions, t = s.issued c i p

/-- The client has not observed the commit, so it sends the same command again. -/
def Retry (c : C) (s t : State C P) : Prop :=
  s.intentOf c ≠ none ∧ c ∉ s.acked ∧ s.now ≤ s.issuedAt c + k.RetryWindow ∧ s.sends c < k.MaxSends ∧ t = s.sent c

/-- Duplication of an in-flight copy. -/
def NetworkDup (c : C) (s t : State C P) : Prop :=
  s.chan c ≥ 1 ∧ s.now ≤ s.issuedAt c + k.RetryWindow ∧ s.sends c < k.MaxSends ∧ t = s.sent c

/-- The apply script: check, commit, log and record in one step, within the retry window. -/
def Deliver (c : C) (s t : State C P) : Prop :=
  s.chan c ≥ 1 ∧ s.now ≤ s.issuedAt c + k.RetryWindow ∧
  ((k.DedupOn = true ∧ c ∈ s.dedup) ∧ t = s.taken c ∨ ¬(k.DedupOn = true ∧ c ∈ s.dedup) ∧ t = s.delivered c k.Ttl)

omit [DecidableEq C] [AddMonoidWithOne P] in
/-- The client observes the commit and stops retrying. -/
def Ack (c : C) (s t : State C P) : Prop :=
  s.applyCount c ≥ 1 ∧ c ∉ s.acked ∧ t = { s with acked := s.acked ∪ {c} }

omit [DecidableEq C] [AddMonoidWithOne P] in
/-- A dedup record expires. -/
def Evict (c : C) (s t : State C P) : Prop :=
  c ∈ s.dedup ∧ s.now ≥ s.evictAt c ∧ t = { s with dedup := s.dedup \ {c} }

omit [DecidableEq C] in
/-- The repair sweep commits a re-anchored snapshot. -/
def Sweep (s t : State C P) : Prop :=
  s.store.playing = true ∧ s.store.anchor ≠ s.now ∧ t = s.swept k.LogSnapshots

def Next (s t : State C P) : Prop :=
  Tick k s t ∨ Sweep k s t ∨
  ∃ c, Issue k c s t ∨ Retry k c s t ∨ NetworkDup k c s t ∨ Deliver k c s t ∨ Ack c s t ∨ Evict c s t

/-- `Init ∧ □[Next]_vars`. -/
def spec (C : Type) [DecidableEq C] (k : Constants P) : Temporal.Spec (State C P) := ⟨Init, Next k⟩

def Fairness (σ : ℕ → State C P) : Prop := ∀ c, Temporal.WF (Deliver k c) σ ∧ Temporal.WF (Ack c) σ

/-- `Spec`. -/
def Spec (σ : ℕ → State C P) : Prop := Temporal.Behaviour (spec C k) σ ∧ Fairness k σ

/-! ## One command -/

/-- What the state says of one command. -/
@[ext] structure Cmd (P : Type) where
  now : ℕ
  intent : Option Intent
  pos : P
  sends : ℕ
  chan : ℕ
  acked : Prop
  issuedAt : ℕ
  remembered : Prop
  evictAt : ℕ
  applyCount : ℕ

omit [DecidableEq C] [AddMonoidWithOne P] in
def State.view (s : State C P) (c : C) : Cmd P :=
  ⟨s.now, s.intentOf c, s.posOf c, s.sends c, s.chan c, c ∈ s.acked, s.issuedAt c, c ∈ s.dedup, s.evictAt c,
    s.applyCount c⟩

/-- The steps of one command, and the clock's. -/
inductive Cmd.Step (k : Constants P) (v : Cmd P) : Cmd P → Prop
  | still : Step k v v
  | tick (h : v.now < k.MaxTime) : Step k v { v with now := v.now + 1 }
  | issue (i : Intent) (p : P) (hp : p ∈ k.Positions) (hi : v.intent = none) (hs : v.sends < k.MaxSends) :
      Step k v { v with intent := some i, pos := p, sends := v.sends + 1, chan := v.chan + 1, issuedAt := v.now }
  | send (hi : v.intent ≠ none ∨ v.chan ≥ 1) (hw : v.now ≤ v.issuedAt + k.RetryWindow) (hs : v.sends < k.MaxSends) :
      Step k v { v with sends := v.sends + 1, chan := v.chan + 1 }
  | drop (hc : v.chan ≥ 1) (hd : k.DedupOn = true ∧ v.remembered) : Step k v { v with chan := v.chan - 1 }
  | apply (hc : v.chan ≥ 1) (hw : v.now ≤ v.issuedAt + k.RetryWindow) (hd : ¬(k.DedupOn = true ∧ v.remembered)) :
      Step k v { v with chan := v.chan - 1, applyCount := v.applyCount + 1, remembered := True,
                        evictAt := v.now + k.Ttl }
  | ack (h : v.applyCount ≥ 1) : Step k v { v with acked := True }
  | evict (h : v.now ≥ v.evictAt) : Step k v { v with remembered := False }

section View

variable {s : State C P} {c d : C}

omit [AddMonoidWithOne P]

theorem view_sent_self : (s.sent c).view c = { s.view c with sends := s.sends c + 1, chan := s.chan c + 1 } := by
  simp [State.view, State.sent]

theorem view_sent_of_ne (h : c ≠ d) : (s.sent d).view c = s.view c := by
  simp [State.view, State.sent, Function.update_of_ne h]

theorem view_issued_self {i : Intent} {p : P} : (s.issued c i p).view c =
    { s.view c with intent := some i, pos := p, sends := s.sends c + 1, chan := s.chan c + 1, issuedAt := s.now } := by
  simp [State.view, State.issued, State.sent]

theorem view_issued_of_ne {i : Intent} {p : P} (h : c ≠ d) : (s.issued d i p).view c = s.view c := by
  simp [State.view, State.issued, State.sent, Function.update_of_ne h]

theorem view_taken_self : (s.taken c).view c = { s.view c with chan := s.chan c - 1 } := by
  simp [State.view, State.taken]

theorem view_taken_of_ne (h : c ≠ d) : (s.taken d).view c = s.view c := by
  simp [State.view, State.taken, Function.update_of_ne h]

theorem view_delivered_self {ttl : ℕ} : (s.delivered c ttl).view c =
    { s.view c with chan := s.chan c - 1, applyCount := s.applyCount c + 1, remembered := True,
                    evictAt := s.now + ttl } := by
  simp [State.view, State.delivered, State.taken]

theorem view_delivered_of_ne {ttl : ℕ} (h : c ≠ d) : (s.delivered d ttl).view c = s.view c := by
  simp [State.view, State.delivered, State.taken, h]

end View

section Steps

variable {k} {s t : State C P}

/-- A step is, to one command, one of its own or none. -/
theorem view_step (h : Next k s t) (c : C) : Cmd.Step k (s.view c) (t.view c) := by
  rcases h with ⟨ht, rfl⟩ | ⟨-, -, rfl⟩ | ⟨d, h⟩
  · exact .tick ht
  · exact .still
  · rcases h with ⟨hi, hs, i, p, hp, rfl⟩ | ⟨hi, -, hw, hs, rfl⟩ | ⟨hc, hw, hs, rfl⟩ |
      ⟨hc, hw, ⟨hd, rfl⟩ | ⟨hd, rfl⟩⟩ | ⟨hc, -, rfl⟩ | ⟨-, he, rfl⟩
    all_goals rcases eq_or_ne c d with rfl | hne
    · rw [view_issued_self]
      exact .issue i p hp hi hs
    · rw [view_issued_of_ne hne]
      exact .still
    · rw [view_sent_self]
      exact .send (Or.inl hi) hw hs
    · rw [view_sent_of_ne hne]
      exact .still
    · rw [view_sent_self]
      exact .send (Or.inr hc) hw hs
    · rw [view_sent_of_ne hne]
      exact .still
    · rw [view_taken_self]
      exact .drop hc hd
    · rw [view_taken_of_ne hne]
      exact .still
    · rw [view_delivered_self]
      exact .apply hc hw hd
    · rw [view_delivered_of_ne hne]
      exact .still
    · rw [show State.view { s with acked := s.acked ∪ {c} } c = { s.view c with acked := True } by simp [State.view]]
      exact .ack hc
    · rw [show State.view { s with acked := s.acked ∪ {d} } c = s.view c by simp [State.view, hne]]
      exact .still
    · rw [show State.view { s with dedup := s.dedup \ {c} } c = { s.view c with remembered := False } by
        simp [State.view]]
      exact .evict he
    · rw [show State.view { s with dedup := s.dedup \ {d} } c = s.view c by simp [State.view, hne]]
      exact .still

/-! ## What every behaviour keeps -/

/-- What is so of one command: it is in flight or applied only after it was issued, every copy was sent, and while it
could be applied again its record is there or has expired. -/
structure Cmd.Kept (k : Constants P) (v : Cmd P) : Prop where
  clock : v.now ≤ k.MaxTime
  unissued : v.intent = none → v.chan = 0 ∧ v.applyCount = 0
  copies : v.applyCount + v.chan ≤ v.sends
  bounded : v.sends ≤ k.MaxSends
  position : v.pos ∈ k.Positions ∪ {0}
  issued : v.issuedAt ≤ v.now
  expiry : v.evictAt ≤ v.now + k.Ttl
  outlives : v.applyCount ≥ 1 → v.issuedAt + k.Ttl ≤ v.evictAt
  forgotten : v.applyCount ≥ 1 → v.remembered ∨ v.evictAt ≤ v.now
  recorded : v.remembered → v.applyCount ≥ 1
  alive : v.intent ≠ none → v.chan ≥ 1 ∨ v.applyCount ≥ 1
  acked : v.acked → v.applyCount ≥ 1

theorem Cmd.Kept.step {v w : Cmd P} (h : Cmd.Step k v w) (hI : v.Kept k) : w.Kept k := by
  obtain ⟨hclock, hun, hcopies, hbound, hpos, hissued, hexpiry, hout, hforgot, hrec, halive, hacked⟩ := hI
  cases h with
  | still => exact ⟨hclock, hun, hcopies, hbound, hpos, hissued, hexpiry, hout, hforgot, hrec, halive, hacked⟩
  | tick h =>
    refine ⟨h, hun, hcopies, hbound, hpos, ?_, ?_, hout, fun ha => (hforgot ha).imp id ?_, hrec, halive, hacked⟩ <;>
      intros <;> simp only at * <;> omega
  | issue i p hp hi hs =>
    obtain ⟨hc, ha⟩ := hun hi
    refine ⟨hclock, fun h => ?_, ?_, hs, Or.inl hp, le_rfl, hexpiry, fun h => ?_, fun h => ?_, hrec,
      fun _ => Or.inl (Nat.le_add_left 1 _), hacked⟩
    · cases h
    · simp only
      omega
    · simp only at h
      omega
    · simp only at h
      omega
  | send hi hw hs =>
    refine ⟨hclock, fun h => ?_, ?_, hs, hpos, hissued, hexpiry, hout, hforgot, hrec,
      fun _ => Or.inl (Nat.le_add_left 1 _), hacked⟩
    · rcases hi with hi | hc
      · exact absurd h hi
      · have := (hun h).1
        omega
    · simp only
      omega
  | drop hc hd =>
    refine ⟨hclock, fun h => ?_, ?_, hbound, hpos, hissued, hexpiry, hout, hforgot, hrec,
      fun _ => Or.inr (hrec hd.2), hacked⟩
    · have := (hun h).1
      omega
    · simp only
      omega
  | apply hc hw hd =>
    refine ⟨hclock, fun h => ?_, ?_, hbound, hpos, hissued, le_rfl, fun _ => ?_, fun _ => Or.inl trivial,
      fun _ => Nat.le_add_left 1 _, fun _ => Or.inr (Nat.le_add_left 1 _), fun _ => Nat.le_add_left 1 _⟩
    · have := (hun h).1
      omega
    · simp only
      omega
    · simp only
      omega
  | ack h => exact ⟨hclock, hun, hcopies, hbound, hpos, hissued, hexpiry, hout, hforgot, hrec, halive, fun _ => h⟩
  | evict h =>
    exact ⟨hclock, hun, hcopies, hbound, hpos, hissued, hexpiry, hout, fun _ => Or.inr h, False.elim, halive, hacked⟩

omit [DecidableEq C] in
theorem kept_init (c : C) : (initial.view c : Cmd P).Kept k := by
  refine ⟨Nat.zero_le _, fun _ => ⟨rfl, rfl⟩, le_rfl, Nat.zero_le _, Or.inr rfl, le_rfl, Nat.zero_le _, fun h => ?_,
    fun h => ?_, fun h => absurd h (Set.notMem_empty c), fun h => absurd rfl h, fun h => absurd h (Set.notMem_empty c)⟩
  · exact absurd h (Nat.not_succ_le_zero 0)
  · exact absurd h (Nat.not_succ_le_zero 0)

/-- Every reachable state keeps it, of every command. -/
theorem kept (h : (spec C k).Reachable s) (c : C) : (s.view c).Kept k := by
  refine h.invariant (I := fun s => ∀ c, (s.view c).Kept k) ?_ ?_ c
  · rintro s rfl
    exact kept_init
  · exact fun s t hn hI c => (hI c).step (view_step hn c)

end Steps

end SyncExactlyOnce
end WatchParty
