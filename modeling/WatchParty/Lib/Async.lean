import Mathlib.Data.List.Basic

/-!
# Asynchronous programs

A program of a node reads and writes the node's local state, emits, sends commands and waits for their replies, and
enters and leaves lanes (critical sections). Between two waits it runs without interruption: such a stretch is a
*segment*. Entering a lane always waits, for the turn that the node gives it.

- `Prog` is the free monad of these effects, `Prog.alone` runs a program that nothing disturbs, and `Prog.segment` runs
  one up to where it waits or ends;
- a `Contract` says how a segment may begin and how it must end, each time with a *context*: what is known of the rest
  of the system while the segment runs. What a context may become while the program waits is `later`;
- `Contract.wp` asks of a program that each of its segments keeps the contract, `wp_bind` composes, `wp_segment` says
  what one segment then does.
-/

/-- What programs use: a local state, commands with typed replies, what is emitted, and the lanes. -/
structure Iface where
  Loc : Type
  Cmd : Type
  Reply : Cmd → Type
  Emit : Type
  Lane : Type

inductive Prog (S : Iface) (α : Type) : Type
  | ret (a : α)
  | load (k : S.Loc → Prog S α)
  | save (l : S.Loc) (k : Prog S α)
  | tell (e : S.Emit) (k : Prog S α)
  | ask (c : S.Cmd) (k : S.Reply c → Prog S α)
  | lock (l : S.Lane) (k : Prog S α)
  | unlock (l : S.Lane) (k : Prog S α)

namespace Prog

variable {S : Iface} {α β : Type}

def bind : Prog S α → (α → Prog S β) → Prog S β
  | .ret a, f => f a
  | .load k, f => .load fun l => (k l).bind f
  | .save l k, f => .save l (k.bind f)
  | .tell e k, f => .tell e (k.bind f)
  | .ask c k, f => .ask c fun r => (k r).bind f
  | .lock l k, f => .lock l (k.bind f)
  | .unlock l k, f => .unlock l (k.bind f)

instance : Monad (Prog S) where
  pure := .ret
  bind := .bind

/-- The local state. -/
def get : Prog S S.Loc := .load .ret

def modify (f : S.Loc → S.Loc) : Prog S Unit := .load fun l => .save (f l) (.ret ())

def emit (e : S.Emit) : Prog S Unit := .tell e (.ret ())

/-- Send a command and wait for its reply. -/
def call (c : S.Cmd) : Prog S (S.Reply c) := .ask c .ret

/-- Run a program in a lane: wait for one's turn, and give it back. -/
def within (l : S.Lane) (p : Prog S α) : Prog S α := .lock l (p.bind fun a => .unlock l (.ret a))

/-! ## Running alone -/

/-- What a program returns that runs alone, and what it leaves: its commands are executed and answered at once, every
lane is free, and nobody looks at what it emits. -/
def alone {K : Type} (exec : (c : S.Cmd) → K → S.Reply c × K) : Prog S α → S.Loc → K → α × S.Loc × K
  | .ret a, l, k => (a, l, k)
  | .load p, l, k => (p l).alone exec l k
  | .save l p, _, k => p.alone exec l k
  | .tell _ p, l, k => p.alone exec l k
  | .ask c p, l, k => (p (exec c k).1).alone exec l (exec c k).2
  | .lock _ p, l, k => p.alone exec l k
  | .unlock _ p, l, k => p.alone exec l k

section Alone

variable {K : Type} (exec : (c : S.Cmd) → K → S.Reply c × K) (l : S.Loc) (k : K)

theorem alone_bind_eq (p : Prog S α) (f : α → Prog S β) : ∀ l k,
    (p.bind f).alone exec l k = (f (p.alone exec l k).1).alone exec (p.alone exec l k).2.1 (p.alone exec l k).2.2 := by
  induction p with
  | ret a => exact fun l k => rfl
  | load p ih => exact fun l k => ih l l k
  | save l' p ih => exact fun l k => ih l' k
  | tell e p ih => exact fun l k => ih l k
  | ask c p ih => exact fun l k => ih (exec c k).1 l (exec c k).2
  | lock x p ih => exact fun l k => ih l k
  | unlock x p ih => exact fun l k => ih l k

/-- **Sequencing.** -/
@[simp] theorem alone_bind (p : Prog S α) (f : α → Prog S β) :
    (p >>= f).alone exec l k = (f (p.alone exec l k).1).alone exec (p.alone exec l k).2.1 (p.alone exec l k).2.2 :=
  alone_bind_eq exec p f l k

@[simp] theorem alone_pure (a : α) : (pure a : Prog S α).alone exec l k = (a, l, k) := rfl

@[simp] theorem alone_call (c : S.Cmd) : (call c).alone exec l k = ((exec c k).1, l, (exec c k).2) := rfl

/-- Sequencing, after what the first program does. -/
theorem alone_seq {p : Prog S α} {f : α → Prog S β} {exec : (c : S.Cmd) → K → S.Reply c × K} {l l' : S.Loc} {k k' : K}
    {a : α} (h : p.alone exec l k = (a, l', k')) : (p >>= f).alone exec l k = (f a).alone exec l' k' := by
  rw [alone_bind, h]

theorem alone_get_seq {f : S.Loc → Prog S β} : (get >>= f).alone exec l k = (f l).alone exec l k := rfl

theorem alone_call_seq {c : S.Cmd} {f : S.Reply c → Prog S β} {exec : (c : S.Cmd) → K → S.Reply c × K} {l : S.Loc}
    {k k' : K} {r : S.Reply c} (h : exec c k = (r, k')) :
    (call c >>= f).alone exec l k = (f r).alone exec l k' :=
  alone_seq (p := call c) (by rw [alone_call, h])

@[simp] theorem alone_within (x : S.Lane) (p : Prog S α) : (within x p).alone exec l k = p.alone exec l k := by
  show (p.bind fun a => .unlock x (.ret a)).alone exec l k = _
  rw [alone_bind_eq]
  rfl

end Alone

end Prog

/-! ## Segments -/

/-- How a segment stops. -/
inductive Stop (S : Iface) (α : Type) : Type
  | ended (a : α)
  | asking (c : S.Cmd) (k : S.Reply c → Prog S α)
  | waiting (l : S.Lane) (k : Prog S α)

/-- What a segment leaves: the local state, what it emitted, the lanes it holds and how it stopped. -/
structure Segment (S : Iface) (α : Type) where
  loc : S.Loc
  sent : List S.Emit
  held : List S.Lane
  stop : Stop S α

def Prog.segment {S : Iface} [DecidableEq S.Lane] {α : Type} : Prog S α → List S.Lane → S.Loc → Segment S α
  | .ret a, held, loc => ⟨loc, [], held, .ended a⟩
  | .load k, held, loc => segment (k loc) held loc
  | .save l k, held, _ => segment k held l
  | .tell e k, held, loc =>
    let s := segment k held loc
    { s with sent := e :: s.sent }
  | .ask c k, held, loc => ⟨loc, [], held, .asking c k⟩
  | .lock l k, held, loc => ⟨loc, [], held, .waiting l k⟩
  | .unlock l k, held, loc => segment k (held.erase l) loc

/-! ## Contracts -/

/-- A point of a segment: its context, the lanes held, what it emitted so far and the local state. -/
structure Frame (S : Iface) (C : Type) where
  ctx : C
  held : List S.Lane
  sent : List S.Emit
  loc : S.Loc

/-- How segments begin (`begins`, and after a reply `resumes`) and end (`ends`, and `calls` when with a command). -/
structure Contract (S : Iface) (C : Type) where
  later : C → C → Prop
  begins : C → S.Loc → Prop
  resumes : C → S.Loc → List S.Lane → (c : S.Cmd) → S.Reply c → Prop
  ends : Frame S C → Prop
  calls : Frame S C → S.Cmd → Prop

namespace Contract

variable {S : Iface} [DecidableEq S.Lane] {C : Type} {α β : Type} (Γ : Contract S C)

/-- Every segment of the program keeps the contract, and `Q` holds where it returns. -/
def wp : Prog S α → Frame S C → (α → Frame S C → Prop) → Prop
  | .ret a, φ, Q => Q a φ
  | .load k, φ, Q => wp (k φ.loc) φ Q
  | .save l k, φ, Q => wp k { φ with loc := l } Q
  | .tell e k, φ, Q => wp k { φ with sent := φ.sent ++ [e] } Q
  | .ask c k, φ, Q => Γ.ends φ ∧ Γ.calls φ c ∧
      ∀ x loc r, Γ.later φ.ctx x → Γ.resumes x loc φ.held c r → wp (k r) ⟨x, φ.held, [], loc⟩ Q
  | .lock l k, φ, Q => Γ.ends φ ∧
      ∀ x loc, Γ.later φ.ctx x → Γ.begins x loc → wp k ⟨x, l :: φ.held, [], loc⟩ Q
  | .unlock l k, φ, Q => wp k { φ with held := φ.held.erase l } Q

/-- The program from where it waits for a reply, since the context `x₀`. -/
def Awaits (x₀ : C) (held : List S.Lane) (c : S.Cmd) (k : S.Reply c → Prog S α) (Q : α → Frame S C → Prop) : Prop :=
  ∀ x loc r, Γ.later x₀ x → Γ.resumes x loc held c r → Γ.wp (k r) ⟨x, held, [], loc⟩ Q

/-- The program from where it waits for its turn, since the context `x₀`. -/
def Waits (x₀ : C) (held : List S.Lane) (l : S.Lane) (k : Prog S α) (Q : α → Frame S C → Prop) : Prop :=
  ∀ x loc, Γ.later x₀ x → Γ.begins x loc → Γ.wp k ⟨x, l :: held, [], loc⟩ Q

variable {Γ} {φ : Frame S C} {Q : α → Frame S C → Prop} {Q' : β → Frame S C → Prop}

@[simp] theorem wp_pure (a : α) : Γ.wp (pure a) φ Q ↔ Q a φ := Iff.rfl

@[simp] theorem wp_get {Q : S.Loc → Frame S C → Prop} : Γ.wp Prog.get φ Q ↔ Q φ.loc φ := Iff.rfl

@[simp] theorem wp_modify {Q : Unit → Frame S C → Prop} (f : S.Loc → S.Loc) :
    Γ.wp (Prog.modify f) φ Q ↔ Q () { φ with loc := f φ.loc } := Iff.rfl

@[simp] theorem wp_emit {Q : Unit → Frame S C → Prop} (e : S.Emit) :
    Γ.wp (Prog.emit e) φ Q ↔ Q () { φ with sent := φ.sent ++ [e] } := Iff.rfl

@[simp] theorem wp_call (c : S.Cmd) {Q : S.Reply c → Frame S C → Prop} :
    Γ.wp (Prog.call c) φ Q ↔ Γ.ends φ ∧ Γ.calls φ c ∧
      ∀ x loc r, Γ.later φ.ctx x → Γ.resumes x loc φ.held c r → Q r ⟨x, φ.held, [], loc⟩ := Iff.rfl

theorem wp_bind_eq (p : Prog S α) (f : α → Prog S β) :
    ∀ φ, Γ.wp (p.bind f) φ Q' ↔ Γ.wp p φ fun a φ => Γ.wp (f a) φ Q' := by
  induction p with
  | ret a => exact fun φ => Iff.rfl
  | load k ih => exact fun φ => ih φ.loc φ
  | save l k ih => exact fun φ => ih _
  | tell e k ih => exact fun φ => ih _
  | ask c k ih =>
    intro φ
    simp only [Prog.bind, wp, ih]
  | lock l k ih =>
    intro φ
    simp only [Prog.bind, wp, ih]
  | unlock l k ih => exact fun φ => ih _

/-- **Sequencing.** -/
@[simp] theorem wp_bind (p : Prog S α) (f : α → Prog S β) :
    Γ.wp (p >>= f) φ Q' ↔ Γ.wp p φ fun a φ => Γ.wp (f a) φ Q' := wp_bind_eq p f φ

@[simp] theorem wp_within (l : S.Lane) (p : Prog S α) :
    Γ.wp (Prog.within l p) φ Q ↔ Γ.ends φ ∧ ∀ x loc, Γ.later φ.ctx x → Γ.begins x loc →
      Γ.wp p ⟨x, l :: φ.held, [], loc⟩ fun a φ => Q a { φ with held := φ.held.erase l } := by
  show (_ ∧ ∀ x loc, _ → _ → Γ.wp (p.bind _) _ Q) ↔ _
  simp only [wp_bind_eq]
  rfl

/-- **Consequence.** -/
theorem wp_mono {p : Prog S α} {R : α → Frame S C → Prop} (h : ∀ a φ, Q a φ → R a φ) :
    ∀ {φ}, Γ.wp p φ Q → Γ.wp p φ R := by
  induction p with
  | ret a => exact fun {φ} hq => h a φ hq
  | load k ih => exact fun {φ} hq => ih φ.loc hq
  | save l k ih => exact fun hq => ih hq
  | tell e k ih => exact fun hq => ih hq
  | ask c k ih => exact fun ⟨he, hc, hk⟩ => ⟨he, hc, fun x loc r hx hr => ih r (hk x loc r hx hr)⟩
  | lock l k ih => exact fun ⟨he, hk⟩ => ⟨he, fun x loc hx hb => ih (hk x loc hx hb)⟩
  | unlock l k ih => exact fun hq => ih hq

/-- Sequencing, with what holds in between. -/
theorem wp_seq {p : Prog S α} {f : α → Prog S β} (R : α → Frame S C → Prop) (hp : Γ.wp p φ R)
    (hf : ∀ a ψ, R a ψ → Γ.wp (f a) ψ Q') : Γ.wp (p >>= f) φ Q' :=
  wp_bind p f |>.mpr (wp_mono hf hp)

/-- A contract that asks nothing of how segments end is kept by every program. -/
theorem wp_of_free (he : ∀ φ, Γ.ends φ) (hc : ∀ φ c, Γ.calls φ c) (hQ : ∀ a φ, Q a φ) (p : Prog S α) :
    ∀ φ, Γ.wp p φ Q := by
  induction p with
  | ret a => exact fun φ => hQ a φ
  | load k ih => exact fun φ => ih φ.loc φ
  | save l k ih => exact fun φ => ih _
  | tell e k ih => exact fun φ => ih _
  | ask c k ih => exact fun φ => ⟨he φ, hc φ c, fun x loc r _ _ => ih r _⟩
  | lock l k ih => exact fun φ => ⟨he φ, fun x loc _ _ => ih _⟩
  | unlock l k ih => exact fun φ => ih _

/-- What a segment has done by its end. -/
def Segmented (Γ : Contract S C) (φ : Frame S C) (s : Segment S α) (Q : α → Frame S C → Prop) : Prop :=
  let ψ : Frame S C := ⟨φ.ctx, s.held, φ.sent ++ s.sent, s.loc⟩
  s.held ⊆ φ.held ∧
    match s.stop with
    | .ended a => Q a ψ
    | .asking c k => Γ.ends ψ ∧ Γ.calls ψ c ∧ Γ.Awaits φ.ctx s.held c k Q
    | .waiting l k => Γ.ends ψ ∧ Γ.Waits φ.ctx s.held l k Q

/-- **A segment of a program that keeps the contract ends as the contract says.** -/
theorem wp_segment (p : Prog S α) :
    ∀ φ : Frame S C, Γ.wp p φ Q → Segmented Γ φ (p.segment φ.held φ.loc) Q := by
  induction p with
  | ret a =>
    intro φ h
    refine ⟨List.Subset.refl _, ?_⟩
    simp only [Prog.segment, List.append_nil]
    exact h
  | load k ih => exact fun φ h => ih φ.loc φ h
  | save l k ih => exact fun φ h => ih _ h
  | tell e k ih =>
    intro φ h
    have := ih _ h
    simpa only [Segmented, Prog.segment, List.append_assoc, List.singleton_append] using this
  | ask c k _ =>
    rintro φ ⟨he, hc, hk⟩
    refine ⟨List.Subset.refl _, ?_⟩
    simp only [Prog.segment, List.append_nil]
    exact ⟨he, hc, hk⟩
  | lock l k _ =>
    rintro φ ⟨he, hk⟩
    refine ⟨List.Subset.refl _, ?_⟩
    simp only [Prog.segment, List.append_nil]
    exact ⟨he, hk⟩
  | unlock l k ih =>
    intro φ h
    have hs := ih _ h
    exact ⟨List.Subset.trans hs.1 List.erase_subset, hs.2⟩

end Contract
