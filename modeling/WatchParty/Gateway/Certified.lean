import WatchParty.Gateway.Versions
import WatchParty.Lib.Resend

/-!
# What a duplicate certifies

A control that is answered `duplicate` is not broadcast: its commit already was. The Redis client sends a script again
whose reply it lost, and the second execution is answered `duplicate` to the very handler that was to broadcast the
commit. So a duplicate certifies a broadcast exactly where the reply of the commit was not lost.

- `reconnecting`: the gateway over clients that reconnect; `redis_step` relates its steps to the plane's;
- `commit?`, `announced?` and `InHand` follow a commit to its broadcast;
- `Accounted` is the invariant, `duplicate_certifies` the result.
-/

namespace WatchParty
namespace SyncGateway

variable {I : Type} {auth : String → AuthedSocketData} {row : RoomRow}

/-- Does the call go to Redis? -/
def Await.inRedis (a : Await) : Bool := (a.op ⟨0, 0⟩).isSome

/-- What an `await` is told over a client that reconnects: a reply, or that it was lost. -/
abbrev Told (a : Await) : Type := Option (Reply a)

/-- The instances over clients of Redis that send again what they have no reply to. -/
def reconnecting (auth : String → AuthedSocketData) (row : RoomRow) :
    Tasks Local Emit Await Gated Request World (Choice × Bool) Env Told :=
  (system auth row).resending Await.inRedis

namespace Reconnecting

abbrev State (I : Type) := Office I World Local Gated Told

abbrev Event (I : Type) := Machine.Event (State I) (Move I Request (Choice × Bool) Env) (Shown I Emit)

/-- The event of the plane that an event of the gateway is. -/
def planeEvent? (e : Event I) : Option Plane.Event :=
  match e.act with
  | .exec _ _ x =>
    (e.pre.executed e.act).bind fun c => (c.2.op x.1).map (Plane.machine.event e.pre.shared.redis)
  | .env (.tick d) => some (Plane.machine.event e.pre.shared.redis (.tick d))
  | _ => none

def planeEvents (tr : List (Event I)) : List Plane.Event := tr.filterMap planeEvent?

theorem planeEvents_snoc (tr : List (Event I)) (e : Event I) :
    planeEvents (tr ++ [e]) = planeEvents tr ++ (planeEvent? e).toList := by
  cases h : planeEvent? e <;> simp [planeEvents, h]

/-- A control that is committed: its id (empty where it has none), the timeline, and whether the reply is lost. -/
structure Commit where
  cmdId : String
  timeline : Timeline
  lost : Bool
  deriving DecidableEq, Repr

/-- The commit of a control that an event executes. -/
def commit? (e : Event I) : Option Commit :=
  match e.act with
  | .exec _ _ x =>
    match e.pre.executed e.act with
    | some (_, .control _ req) =>
      match (RedisRoomStateStore.applyControl req x.1.trim e.pre.shared.redis).1 with
      | .committed tl => some ⟨textOf req.cmdId, tl, x.2⟩
      | _ => none
    | _ => none
  | _ => none

/-- The commits of controls, oldest first. -/
def commits (tr : List (Event I)) : List Commit := tr.filterMap commit?

/-- The last commit of a command. -/
def lastCommit (cmdId : String) (tr : List (Event I)) : Option Commit :=
  (commits tr).reverse.find? fun c => decide (c.cmdId = cmdId)

/-- The timeline that the handler of a control broadcasts to the whole room. -/
def announced? (e : Event I) : Option Timeline :=
  match e.pre.replied e.act, e.out with
  | some (_, ⟨.control _ _, _⟩), some (_, [.room tl]) => some tl
  | _, _ => none

def announced (tr : List (Event I)) : List Timeline := tr.filterMap announced?

/-- The handler of a control has been answered with the commit of a timeline, which it will broadcast next. -/
def InHand (s : State I) (tl : Timeline) : Prop :=
  ∃ i id req, (⟨.control id req, some (some (.committed tl))⟩ : Pending Told) ∈ (s.node i).tasks

variable [DecidableEq I]

/-- The runs of the instances `I`. -/
abbrev backend (auth : String → AuthedSocketData) (row : RoomRow) :
    Machine (State I) (Move I Request (Choice × Bool) Env) (Shown I Emit) := (reconnecting auth row).machine

/-- The keys of the room change by an operation of the plane or by a flush. -/
theorem redis_step {e : Event I} (hs : Tasks.Step (reconnecting auth row) e.pre e.act e.out e.post) :
    (∃ op, planeEvent? e = some (Plane.machine.event e.pre.shared.redis op) ∧
      e.post.shared.redis = (Plane.step e.pre.shared.redis op).1) ∨
    planeEvent? e = none ∧
      (e.post.shared.redis = e.pre.shared.redis ∨ e.post.shared.redis = flushed e.pre.shared.redis) := by
  obtain ⟨pre, act, out, post⟩ := e
  simp only at hs
  cases hs with
  | exec i n x before after a hn hc =>
    have hx : pre.executed (.exec i n x : Move I Request (Choice × Bool) Env) = some (i, a) := by
      simp only [Office.executed, hn]
    have hredis : (((reconnecting auth row).exec a x pre.shared).2).redis =
        ((a.op x.1).map fun op => (Plane.step pre.shared.redis op).1).getD pre.shared.redis := by
      rw [reconnecting, Tasks.resending_exec_shared]
      exact exec_redis a x.1 pre.shared
    cases hop : a.op x.1 with
    | none =>
      rw [hop] at hredis
      exact Or.inr ⟨by simp only [planeEvent?, hx, Option.bind_some, hop, Option.map_none], Or.inl hredis⟩
    | some op =>
      rw [hop] at hredis
      exact Or.inl ⟨op, by simp only [planeEvent?, hx, Option.bind_some, hop, Option.map_some], hredis⟩
  | env env =>
    cases env with
    | tick d => exact Or.inl ⟨.tick d, rfl, rfl⟩
    | flush => exact Or.inr ⟨rfl, Or.inr rfl⟩
  | start | deliver | enter => exact Or.inr ⟨rfl, Or.inl rfl⟩
  | idle m hm hx hr =>
    cases act with
    | exec i n x => exact Or.inr ⟨by simp only [planeEvent?, hx, Option.bind_none], Or.inl rfl⟩
    | env env => exact absurd rfl (hm.2 env)
    | start i r => exact absurd rfl (hm.1 i r)
    | deliver | enter => exact Or.inr ⟨rfl, Or.inl rfl⟩

/-! ## A commit -/

/-- A control that commits adds its timeline to the commits of the room. -/
theorem commits_of_committed {σ : Room} {req : ControlReq} {trim : ℕ} {tl : Timeline}
    (h : (RedisRoomStateStore.applyControl req trim σ).1 = .committed tl) :
    Plane.commits (RedisRoomStateStore.applyControl req trim σ).2 = Plane.commits σ ++ [tl] := by
  have hs := Plane.step_cases σ (.applyControl req trim)
  have hout : (Plane.step σ (.applyControl req trim)).2 = .outcome (.committed tl) := congrArg Plane.Out.outcome h
  rw [hout] at hs
  show Plane.commits (Plane.step σ (.applyControl req trim)).1 = _
  generalize (Plane.step σ (.applyControl req trim)).1 = σ' at hs
  cases hs with
  | control _ _ old new hold hr hf hnew =>
    rw [Plane.commits, Lua.committed_saves, Lua.record_saves, List.map_append]
    rfl

/-- The dedup records after an operation are those before it and that of the control that committed. -/
theorem cmd_step {σ σ' : Room} {op : Plane.Op} {o : Plane.Out} (hs : Plane.Step σ op o σ') {cmdId : String}
    (h : σ'.cmd cmdId ≠ none) :
    σ.cmd cmdId ≠ none ∨ ∃ req trim tl, op = .applyControl req trim ∧ o = .outcome (.committed tl) ∧
      textOf req.cmdId = cmdId := by
  cases hs with
  | control req trim old new hold hr hf hnew =>
    rw [Lua.committed_cmd] at h
    unfold Lua.record at h
    split at h
    · by_cases hid : cmdId = textOf req.cmdId
      · exact Or.inr ⟨req, trim, new.toTimeline, rfl, rfl, hid.symm⟩
      · have hsame : (σ.setCmd (textOf req.cmdId) (old.seq + 1) CMD_DEDUP_TTL_MS).cmd cmdId = σ.cmd cmdId :=
          Function.update_of_ne hid _ _
        exact Or.inl fun hnone => h (hsame.trans hnone)
    · exact Or.inl h
  | _ => exact Or.inl h

omit [DecidableEq I] in
/-- What an event that commits a control executes. -/
theorem commit_cases {e : Event I} {c : Commit} (h : commit? e = some c) :
    ∃ i n x id req, e.act = .exec i n x ∧ e.pre.executed e.act = some (i, .control id req) ∧
      (RedisRoomStateStore.applyControl req x.1.trim e.pre.shared.redis).1 = .committed c.timeline ∧
      c = ⟨textOf req.cmdId, c.timeline, x.2⟩ := by
  obtain ⟨pre, act, out, post⟩ := e
  cases act with
  | exec i n x =>
    simp only [commit?] at h ⊢
    split at h
    · rename_i j id req hx
      split at h
      · rename_i tl ho
        cases h
        obtain rfl : i = j := by
          simp only [Office.executed] at hx
          split at hx
          · cases hx
            rfl
          · cases hx
        exact ⟨i, n, x, id, req, rfl, hx, ho, rfl⟩
      · cases h
    · cases h
  | _ => cases h

omit [DecidableEq I] in
/-- A control that commits on the plane is a commit. -/
theorem commit_of_plane {e : Event I} {req : ControlReq} {trim : ℕ} {tl : Timeline}
    (h : planeEvent? e = some (Plane.machine.event e.pre.shared.redis (.applyControl req trim)))
    (ho : (Plane.step e.pre.shared.redis (.applyControl req trim)).2 = .outcome (.committed tl)) :
    ∃ lost, commit? e = some ⟨textOf req.cmdId, tl, lost⟩ := by
  obtain ⟨pre, act, out, post⟩ := e
  cases act with
  | exec i n x =>
    simp only [planeEvent?] at h ho
    cases hx : pre.executed (.exec i n x : Move I Request (Choice × Bool) Env) with
    | none =>
      rw [hx] at h
      cases h
    | some c =>
      obtain ⟨j, a⟩ := c
      rw [hx, Option.bind_some] at h
      obtain ⟨op, hop, he⟩ := Option.map_eq_some_iff.mp h
      obtain rfl : op = .applyControl req trim := congrArg Machine.Event.act he
      cases a with
      | control id req' =>
        cases hop
        have ho' : (RedisRoomStateStore.applyControl req x.1.trim pre.shared.redis).1 = .committed tl :=
          Plane.Out.outcome.inj ho
        refine ⟨x.2, ?_⟩
        simp only [commit?, hx, ho']
      | _ => cases hop
  | env env => cases env <;> cases h
  | _ => cases h

omit [DecidableEq I] in
theorem commits_snoc (tr : List (Event I)) (e : Event I) : commits (tr ++ [e]) = commits tr ++ (commit? e).toList := by
  cases h : commit? e <;> simp [commits, h]

omit [DecidableEq I] in
theorem announced_snoc (tr : List (Event I)) (e : Event I) :
    announced (tr ++ [e]) = announced tr ++ (announced? e).toList := by
  cases h : announced? e <;> simp [announced, h]

/-! ## From the commit to the broadcast -/

/-- A commit whose reply is not lost is in hand. -/
theorem inHand_of_commit {e : Event I} (hs : Tasks.Step (reconnecting auth row) e.pre e.act e.out e.post) {c : Commit}
    (h : commit? e = some c) (hl : c.lost = false) : InHand e.post c.timeline := by
  obtain ⟨i, n, x, id, req, hm, hx, ho, hc⟩ := commit_cases h
  obtain ⟨pre, act, out, post⟩ := e
  simp only at hs hm hx ho
  subst hm
  have hlost : x.2 = false := by
    rw [hc] at hl
    exact hl
  refine ⟨i, id, req, ?_⟩
  have hmem := (Tasks.exec_step hs hx).2
  rw [reconnecting, Tasks.resending_exec_reply _ _ rfl, if_neg (by rw [hlost]; exact Bool.false_ne_true)] at hmem
  rwa [show ((system auth row).exec (.control id req) x.1 pre.shared).1 = .committed c.timeline from ho] at hmem

/-- What is in hand is so until it is broadcast. -/
theorem inHand_keep {e : Event I} (hs : Tasks.Step (reconnecting auth row) e.pre e.act e.out e.post) {tl : Timeline}
    (h : InHand e.pre tl) : InHand e.post tl ∨ announced? e = some tl := by
  obtain ⟨i, id, req, hmem⟩ := h
  rcases Tasks.tasks_keep hs hmem with hkeep | ⟨a, x, hx, ht, -⟩ | ⟨d, a, r, hr, ht, hout, -⟩
  · exact Or.inl ⟨i, id, req, hkeep⟩
  · cases ht
  · cases ht
    right
    have hsent : ((reconnecting auth row).resume (.control id req) (some (.committed tl)) (e.pre.node i).loc).sent =
        [.room tl] := by
      rw [reconnecting, Tasks.resending_resume_some]
      rfl
    simp only [announced?, hr, hout, hsent]

/-- Only what is in hand is broadcast by the handler of a control. -/
theorem inHand_of_announced {e : Event I} (hs : Tasks.Step (reconnecting auth row) e.pre e.act e.out e.post)
    {tl : Timeline} (h : announced? e = some tl) : InHand e.pre tl := by
  unfold announced? at h
  split at h
  · rename_i i id req r j tl' hr ho
    obtain rfl : tl' = tl := Option.some.inj h
    obtain ⟨d, -, -, hout, -⟩ := Tasks.replied_step hs hr
    have hsent : ((reconnecting auth row).resume (.control id req) r (e.pre.node i).loc).sent = [.room tl'] := by
      rw [ho] at hout
      exact (congrArg Prod.snd (Option.some.inj hout)).symm
    refine ⟨i, id, req, ?_⟩
    have hmem := Office.replied_mem hr
    cases r with
    | none =>
      rw [reconnecting, Tasks.resending_resume_none] at hsent
      cases hsent
    | some outcome =>
      cases outcome with
      | committed tl =>
        cases hsent
        exact hmem
      | _ => cases hsent
  · cases h

/-- What is in hand after a step was so before, or has just been committed and not lost. -/
theorem inHand_origin {e : Event I} (hs : Tasks.Step (reconnecting auth row) e.pre e.act e.out e.post) {tl : Timeline}
    (h : InHand e.post tl) : InHand e.pre tl ∨ ∃ c, commit? e = some c ∧ c.timeline = tl ∧ c.lost = false := by
  obtain ⟨i, id, req, hmem⟩ := h
  rcases Tasks.mem_tasks hs hmem with hold | ⟨a, x, hx, -, ht, -⟩ | ⟨d, u, a, -, -, ht, -⟩
  · exact Or.inl ⟨i, id, req, hold⟩
  · obtain ⟨n, y, hm⟩ := Office.executed_act hx
    obtain ⟨pre, act, out, post⟩ := e
    simp only at hs hm hx hmem
    subst hm
    rcases Tasks.mem_tasks_exec hs hmem with hold | ⟨b, hx', -, -, ht'⟩
    · exact Or.inl ⟨i, id, req, hold⟩
    · obtain rfl : .control id req = a := congrArg Pending.point ht
      rw [hx, Option.some.injEq, Prod.mk.injEq] at hx'
      obtain ⟨-, rfl⟩ := hx'
      -- the reply that the handler holds is the one of this execution
      have hreply : ((reconnecting auth row).exec (.control id req) y pre.shared).1 = some (.committed tl) := by
        injection ht' with _ hr
        exact (Option.some.inj hr).symm
      rw [reconnecting, Tasks.resending_exec_reply _ _ rfl] at hreply
      split at hreply
      · cases hreply
      · rename_i hlost
        have ho : (RedisRoomStateStore.applyControl req y.1.trim pre.shared.redis).1 = .committed tl :=
          Option.some.inj hreply
        refine Or.inr ⟨⟨textOf req.cmdId, tl, y.2⟩, ?_, rfl, by simpa using hlost⟩
        simp only [commit?, hx, ho]
  · cases ht

/-- What a run keeps: versions are ordered, each commit of a control is one of the room's and is, unless its reply was
lost, in hand or broadcast, nothing else is, and each dedup record is of a commit. -/
structure Accounted (tr : List (Event I)) (s : State I) : Prop where
  ordered : Plane.Ordered (planeEvents tr) s.shared.redis
  stored : ∀ c ∈ commits tr, c.timeline ∈ Plane.commits s.shared.redis
  distinct : (commits tr).Pairwise fun c d => c.timeline.version < d.timeline.version
  kept : ∀ c ∈ commits tr, c.lost = false → c.timeline ∈ announced tr ∨ InHand s c.timeline
  sound : ∀ tl, tl ∈ announced tr ∨ InHand s tl → ∃ c ∈ commits tr, c.timeline = tl ∧ c.lost = false
  recorded : ∀ cmdId, s.shared.redis.cmd cmdId ≠ none → ∃ c ∈ commits tr, c.cmdId = cmdId

theorem accounted_init : Accounted [] (backend (I := I) auth row).init where
  ordered := Plane.ordered_init
  stored _ h := absurd h List.not_mem_nil
  distinct := .nil
  kept _ h := absurd h List.not_mem_nil
  sound tl h := by
    rcases h with h | ⟨i, id, req, h⟩
    · exact absurd h List.not_mem_nil
    · exact absurd h List.not_mem_nil
  recorded _ h := absurd rfl h

section Step

variable {tr : List (Event I)} {e : Event I}

theorem ordered_step (hs : Tasks.Step (reconnecting auth row) e.pre e.act e.out e.post)
    (hmint : (Plane.mints (planeEvents (tr ++ [e]))).Nodup)
    (h : Plane.Ordered (planeEvents tr) e.pre.shared.redis) :
    Plane.Ordered (planeEvents (tr ++ [e])) e.post.shared.redis := by
  rw [planeEvents_snoc] at hmint ⊢
  rcases redis_step hs with ⟨op, hp, he⟩ | ⟨hp, he | he⟩
  · rw [hp, Option.toList_some] at hmint ⊢
    rw [he]
    exact Plane.Ordered.step (Plane.event_cases e.pre.shared.redis op) hmint h
  · rw [hp, Option.toList_none, List.append_nil, he]
    exact h
  · rw [hp, Option.toList_none, List.append_nil, he]
    exact ordered_flushed h

/-- No step takes a commit back, and a step that commits a control adds its timeline. -/
theorem plane_commits_step (hs : Tasks.Step (reconnecting auth row) e.pre e.act e.out e.post) :
    Plane.commits e.pre.shared.redis <+: Plane.commits e.post.shared.redis ∧
      ∀ c, commit? e = some c → Plane.commits e.post.shared.redis = Plane.commits e.pre.shared.redis ++ [c.timeline] := by
  refine ⟨?_, fun c hc => ?_⟩
  · rcases redis_step hs with ⟨op, -, he⟩ | ⟨-, he | he⟩
    · rw [he]
      exact (Plane.step_cases e.pre.shared.redis op).saves_grow.map TlHash.toTimeline
    · exact ⟨[], by rw [List.append_nil, he]⟩
    · rw [he]
      exact List.prefix_rfl
  · obtain ⟨i, n, x, id, req, hm, hx, ho, -⟩ := commit_cases hc
    obtain ⟨pre, act, out, post⟩ := e
    simp only at hs hm hx ho ⊢
    subst hm
    rw [(Tasks.exec_step hs hx).1, ← commits_of_committed ho]
    rfl

theorem Accounted.step (hs : Tasks.Step (reconnecting auth row) e.pre e.act e.out e.post)
    (hmint : (Plane.mints (planeEvents (tr ++ [e]))).Nodup) (hI : Accounted tr e.pre) :
    Accounted (tr ++ [e]) e.post := by
  have ho := ordered_step hs hmint hI.ordered
  obtain ⟨hgrow, hadd⟩ := plane_commits_step hs
  have hmem : ∀ {c}, c ∈ commits (tr ++ [e]) ↔ c ∈ commits tr ∨ commit? e = some c := by
    intro c
    rw [commits_snoc, List.mem_append, Option.mem_toList]
  have hsaid : ∀ {tl}, tl ∈ announced (tr ++ [e]) ↔ tl ∈ announced tr ∨ announced? e = some tl := by
    intro tl
    rw [announced_snoc, List.mem_append, Option.mem_toList]
  refine ⟨ho, fun c hc => ?_, ?_, fun c hc hl => ?_, fun tl h => ?_, fun cmdId h => ?_⟩
  · rcases hmem.mp hc with hc | hc
    · exact hgrow.subset (hI.stored c hc)
    · rw [hadd c hc]
      exact List.mem_append_right _ (List.mem_singleton_self _)
  · rw [commits_snoc]
    refine List.pairwise_append.mpr ⟨hI.distinct, ?_, fun c hc d hd => ?_⟩
    · cases commit? e with
      | none => exact .nil
      | some d => exact List.pairwise_singleton _ d
    · have hmono := ho.mono
      rw [hadd d (Option.mem_toList.mp hd)] at hmono
      exact (List.pairwise_append.mp hmono).2.2 _ (hI.stored c hc) _ (List.mem_singleton_self _)
  · rcases hmem.mp hc with hc | hc
    · rcases hI.kept c hc hl with hsaidc | hin
      · exact Or.inl (hsaid.mpr (Or.inl hsaidc))
      · exact (inHand_keep hs hin).symm.imp (fun h => hsaid.mpr (Or.inr h)) id
    · exact Or.inr (inHand_of_commit hs hc hl)
  · have hpre : (tl ∈ announced tr ∨ InHand e.pre tl) ∨ ∃ c, commit? e = some c ∧ c.timeline = tl ∧ c.lost = false := by
      rcases h with h | h
      · rcases hsaid.mp h with h | h
        · exact Or.inl (Or.inl h)
        · exact Or.inl (Or.inr (inHand_of_announced hs h))
      · exact (inHand_origin hs h).imp Or.inr id
    rcases hpre with hpre | ⟨c, hc, htl, hl⟩
    · obtain ⟨c, hc, htl, hl⟩ := hI.sound tl hpre
      exact ⟨c, hmem.mpr (Or.inl hc), htl, hl⟩
    · exact ⟨c, hmem.mpr (Or.inr hc), htl, hl⟩
  · rcases redis_step hs with ⟨op, hp, he⟩ | ⟨-, he | he⟩
    · rw [he] at h
      rcases cmd_step (Plane.step_cases e.pre.shared.redis op) h with h | ⟨req, trim, tl, rfl, hout, hid⟩
      · obtain ⟨c, hc, hid⟩ := hI.recorded cmdId h
        exact ⟨c, hmem.mpr (Or.inl hc), hid⟩
      · obtain ⟨lost, hc⟩ := commit_of_plane hp hout
        exact ⟨_, hmem.mpr (Or.inr hc), hid⟩
    · rw [he] at h
      obtain ⟨c, hc, hid⟩ := hI.recorded cmdId h
      exact ⟨c, hmem.mpr (Or.inl hc), hid⟩
    · rw [he] at h
      exact absurd rfl h

end Step

omit [DecidableEq I] in
theorem nodup_mints_of_snoc (tr : List (Event I)) (e : Event I) (h : (Plane.mints (planeEvents (tr ++ [e]))).Nodup) :
    (Plane.mints (planeEvents tr)).Nodup := by
  rw [planeEvents_snoc, Plane.mints, List.filterMap_append] at h
  exact (List.nodup_append.mp h).1

theorem accounted (ops : List (Move I Request (Choice × Bool) Env)) :
    (Plane.mints (planeEvents ((backend auth row).trace ops))).Nodup →
      Accounted ((backend auth row).trace ops) ((backend auth row).run ops) :=
  (backend auth row).invariant_under (C := fun tr => (Plane.mints (planeEvents tr)).Nodup) nodup_mints_of_snoc
    accounted_init (fun _ _ _ hc hI => Accounted.step (Tasks.event_cases _ _) hc hI) ops

omit [DecidableEq I] in
/-- A commit is broadcast, or about to be, exactly when its reply was not lost. -/
theorem Accounted.broadcast_iff {tr : List (Event I)} {s : State I} (hI : Accounted tr s) {c : Commit}
    (hc : c ∈ commits tr) : (c.timeline ∈ announced tr ∨ InHand s c.timeline) ↔ c.lost = false := by
  refine ⟨fun h => ?_, hI.kept c hc⟩
  obtain ⟨d, hd, htl, hl⟩ := hI.sound c.timeline h
  have hnodup : ((commits tr).map fun c => c.timeline.version).Nodup :=
    (List.pairwise_map.mpr hI.distinct).imp fun hlt => ne_of_lt hlt
  obtain rfl : d = c := List.inj_on_of_nodup_map hnodup hd hc (congrArg Timeline.version htl)
  exact hl

/-- The control that an event executes is answered `duplicate`, with this timeline. -/
def Duplicate (e : Event I) (cmdId : String) (tl : Timeline) : Prop :=
  ∃ i n x id req, e.act = .exec i n x ∧ e.pre.executed e.act = some (i, .control id req) ∧
    textOf req.cmdId = cmdId ∧ (RedisRoomStateStore.applyControl req x.1.trim e.pre.shared.redis).1 = .duplicate tl

omit [DecidableEq I] in
/-- A duplicate finds a dedup record and answers the stored timeline. -/
theorem Duplicate.found {e : Event I} {cmdId : String} {tl : Timeline} (h : Duplicate e cmdId tl) :
    e.pre.shared.redis.cmd cmdId ≠ none ∧ ∃ stored, e.pre.shared.redis.loadTl = some stored ∧ stored.toTimeline = tl := by
  obtain ⟨i, n, x, id, req, -, -, hid, ho⟩ := h
  have hs := Plane.step_cases e.pre.shared.redis (.applyControl req x.1.trim)
  have hout : (Plane.step e.pre.shared.redis (.applyControl req x.1.trim)).2 = .outcome (.duplicate tl) :=
    congrArg Plane.Out.outcome ho
  rw [hout] at hs
  generalize (Plane.step e.pre.shared.redis (.applyControl req x.1.trim)).1 = σ' at hs
  cases hs with
  | duplicate _ _ stored hstored hr =>
    refine ⟨fun hnone => ?_, stored, hstored, rfl⟩
    have hrec : (e.pre.shared.redis.getCmd (textOf req.cmdId)).isSome = true := hr.2
    rw [Room.getCmd, hid, hnone] at hrec
    cases hrec

/-- **A duplicate certifies a broadcast exactly where the reply of the commit was not lost.** In every run of any number
of instances, over clients of Redis that send a script again whose reply they lost, whenever a control is answered
`duplicate`, its command has committed before; the sender is re-anchored to a timeline at least as new as the last
commit; and this commit has been broadcast to the whole room by the handler of the control, or is in its hands, if and
only if the reply of the commit was not lost. -/
theorem duplicate_certifies (ops : List (Move I Request (Choice × Bool) Env))
    (hmint : (Plane.mints (planeEvents ((backend auth row).trace ops))).Nodup) {before after : List (Event I)}
    {e : Event I} {cmdId : String} {tl : Timeline} (hsplit : (backend auth row).trace ops = before ++ e :: after)
    (hdup : Duplicate e cmdId tl) :
    ∃ c, lastCommit cmdId before = some c ∧ c.timeline.version ≤ tl.version ∧
      ((c.timeline ∈ announced before ∨ InHand e.pre c.timeline) ↔ c.lost = false) := by
  obtain ⟨as, b, bs, rfl, rfl, rfl, -⟩ := (backend auth row).trace_split hsplit
  have hI : Accounted ((backend auth row).trace as) ((backend auth row).run as) := by
    refine accounted as ?_
    rw [Machine.trace_append, planeEvents, List.filterMap_append, Plane.mints, List.filterMap_append] at hmint
    exact (List.nodup_append.mp hmint).1
  obtain ⟨hrecord, stored, hstored, rfl⟩ := hdup.found
  obtain ⟨d, hd, hid⟩ := hI.recorded cmdId hrecord
  have hfind : (lastCommit cmdId ((backend auth row).trace as)).isSome := by
    rw [lastCommit, List.find?_isSome]
    exact ⟨d, List.mem_reverse.mpr hd, decide_eq_true hid⟩
  obtain ⟨c, hc⟩ := Option.isSome_iff_exists.mp hfind
  have hmem : c ∈ commits ((backend auth row).trace as) := List.mem_reverse.mp (List.mem_of_find?_eq_some hc)
  exact ⟨c, hc, hI.ordered.le_loaded hstored _ (hI.stored c hmem), hI.broadcast_iff hmem⟩

/-- The same step, with no reply lost. -/
def reliable : Move I Request Choice Env → Move I Request (Choice × Bool) Env
  | .start i r => .start i r
  | .exec i n x => .exec i n (x, false)
  | .deliver i n => .deliver i n
  | .enter i => .enter i
  | .env e => .env e

/-- The creator joins and plays, and the reply to the script is lost. -/
def lostPlay : List (Move Unit Request (Choice × Bool) Env) :=
  (joining () 0 "creator").map reliable ++
    [.start () (.control "creator" 0 ⟨.play, 7, "creator", some "c", none, none, none⟩), .exec () 0 (⟨0, 0⟩, true),
     .deliver () 0]

/-- The script is sent again and answered `duplicate`, and nobody broadcasts the play. -/
theorem duplicate_certifies_lost :
    ∃ c, lastCommit "c" ((backend namesake quietRow).trace lostPlay) = some c ∧
      ¬(c.timeline ∈ announced ((backend namesake quietRow).trace lostPlay) ∨
        InHand ((backend namesake quietRow).run lostPlay) c.timeline) := by
  have hdup : Duplicate ((backend namesake quietRow).event ((backend namesake quietRow).run lostPlay)
      (.exec () 0 (⟨0, 0⟩, false))) "c" ⟨⟨0, none, true, 7, 0, .play, some "creator"⟩, 1⟩ :=
    ⟨(), 0, _, "creator", ⟨.play, 7, "creator", some "c", some "creator", none, none⟩, rfl, by decide +kernel, rfl,
      by decide +kernel⟩
  obtain ⟨c, hc, -, hiff⟩ := duplicate_certifies (lostPlay ++ [.exec () 0 (⟨0, 0⟩, false)]) (by decide +kernel)
    (Machine.trace_snoc _ lostPlay _) hdup
  refine ⟨c, hc, fun h => ?_⟩
  have hlost : (lastCommit "c" ((backend namesake quietRow).trace lostPlay)).map Commit.lost = some true := by
    decide +kernel
  rw [hc, Option.map_some, hiff.mp h] at hlost
  cases hlost

end Reconnecting
end SyncGateway
end WatchParty
