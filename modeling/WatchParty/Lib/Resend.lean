import WatchParty.Lib.Tasks

/-!
# Commands that are sent again

A client of the shared state that lost its connection sends the commands again to which it has no reply. Where such a
command had been executed and only its reply was lost, it is executed once more, and the handler that awaits the reply
is told of the last execution alone.

- `Tasks.resending`: the same handlers over such a client. A command that is never sent again is one that was given up.
-/

namespace Tasks

variable {I Loc Emit A Q R K X E : Type} {Reply : A → Type}

/-- The handlers over a client that sends again what `resent` says. An execution whose reply is lost says so with the
flag `true`; its handler awaits the same point once more. -/
def resending (sys : Tasks Loc Emit A Q R K X E Reply) (resent : A → Bool) :
    Tasks Loc Emit A Q R K (X × Bool) E (fun a => Option (Reply a)) where
  loc := sys.loc
  shared := sys.shared
  start := sys.start
  resume a r l :=
    match r with
    | none => ⟨l, [], .await a⟩
    | some r => sys.resume a r l
  enter := sys.enter
  exec a x k :=
    let r := sys.exec a x.1 k
    (if resent a && x.2 then none else some r.1, r.2)
  inside := sys.inside
  env := sys.env

variable (sys : Tasks Loc Emit A Q R K X E Reply) (resent : A → Bool)

theorem resending_resume_none (a : A) (l : Loc) :
    (sys.resending resent).resume a none l = ⟨l, [], .await a⟩ := rfl

theorem resending_resume_some (a : A) (r : Reply a) (l : Loc) :
    (sys.resending resent).resume a (some r) l = sys.resume a r l := rfl

/-- What a command does to the shared state, also where its reply is lost. -/
theorem resending_exec_shared (a : A) (x : X × Bool) (k : K) :
    ((sys.resending resent).exec a x k).2 = (sys.exec a x.1 k).2 := rfl

/-- The reply of a command that is sent again is lost where the execution says so. -/
theorem resending_exec_reply {a : A} (h : resent a = true) (x : X × Bool) (k : K) :
    ((sys.resending resent).exec a x k).1 = if x.2 then none else some (sys.exec a x.1 k).1 := by
  simp only [resending, h, Bool.true_and]

end Tasks
