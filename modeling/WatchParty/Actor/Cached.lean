import WatchParty.Actor.Cache

/-!
# When an owner's copy is the stored timeline

An instance that has nothing of the room in flight should hold what is stored under its lease. A run can break this in
three ways: `actor_init.lua` answers a stored timeline without its author, a copy that an `init` made under an earlier
lease is found by a control that claimed again and is stamped with the new fence, and a timeline is created while its
creator still has an older one under the same fence.

- `Cache.Cached`: what a run keeps of an instance, `Cache.Kept.step` the step lemma;
- `Cache.Careful`: the condition on the steps of a run;
- `cache_coherent`: the whole, and `cache_stale`: the runs that break it.
-/

namespace WatchParty
namespace ActorRoomStateStore
namespace Cache

/-! ## Replies under way -/

/-- The view without the epochs that were minted since `M`. -/
def View.upTo (now : View) (M : Set ℚ) : View := ⟨now.stored, M⟩

/-- The epoch that a claim answers to the owner of the lease. -/
def leased : (c : Cmd) → Reply c → Option ℚ
  | .actorClaim _, lease => if lease.mine = true then some lease.epoch else none
  | .actorReclaim _ _, _ => none
  | .actorInit _ _ _ _, _ => none
  | .actorCommit _ _ _ _ _, _ => none
  | .hgetall, _ => none
  | .del, _ => none
  | .publish _ _, _ => none

/-- A reply that was executed when the epochs `M` were minted: its epoch is one of them, and unless it is excused its
timeline is the stored one under any of them. -/
structure Settled (now : View) (M : Set ℚ) (f : Flight iface (ℕ × Call)) (a : Reply f.cmd) (committing : Bool) :
    Prop where
  epoch : ∀ epoch, leased f.cmd a = some epoch → epoch ∈ M
  timeline : ¬Excused f.held committing f.cmd → ∀ tl, carried f.cmd a = some tl → (now.upTo M).Valid tl

/-- The replies of a connection are settled, each with the epochs that were minted when it was executed. -/
def Answers (now : View) : Set ℚ → List (Flight iface (ℕ × Call)) → Prop
  | _, [] => True
  | M, f :: post => ∀ a, f.reply = some a → ∃ M', M ⊆ M' ∧ M' ⊆ now.epochs ∧
      Settled now M' f a (post.any fun g => g.cmd.isCommit) ∧ Answers now M' post

/-- What is known of a command under way: until it is executed, the draft of a commit is derived from what is stored
under its fence. -/
def UnderWay (i : String) (now : View) (f : Flight iface (ℕ × Call)) : Prop :=
  match f.cmd with
  | .actorCommit j fence next _ _ => j = i ∧ Lane.queue ∈ f.held ∧ fence ∈ now.epochs ∧
      (f.reply.isNone = true → ∀ l, now.stored = some (fence, l) → Derived f.req next l)
  | .actorInit j _ _ _ => j = i
  | _ => True

/-- What a run keeps of an instance; the epochs `M` were minted when the last reply that it received was executed. -/
structure Cached (i : String) (now : View) (M : Set ℚ) (n : Node iface (ℕ × Call)) : Prop where
  minted : M ⊆ now.epochs
  fences : ∀ entry, n.loc.owned = some entry → entry.fence ∈ M
  owned : NoCommit n → (now.upTo M).Copy n.loc.owned
  sent : ∀ f ∈ n.conn, UnderWay i now f
  answers : Answers now M n.conn
  flights : ∀ f ∈ n.conn, ∃ x₀ : View, x₀.epochs ⊆ M ∧ f.OK (caching i f.req) x₀
  waiters : ∀ y ∈ n.waiting, ∃ x₀ : View, x₀.epochs ⊆ M ∧ y.OK (caching i y.req) x₀

/-- No more is stored for the instance than was, except under an epoch that was not minted yet. -/
structure Fades (now now' : View) : Prop where
  epochs : now.epochs ⊆ now'.epochs
  stored : ∀ fence l, now'.stored = some (fence, l) → now.stored = some (fence, l) ∨ fence ∉ now.epochs

/-- An instance that has just started keeps nothing. -/
theorem cached_idle (i : String) (now : View) : Cached i now ∅ system.idle where
  minted := Set.empty_subset _
  fences entry h := by cases h
  owned _ := View.copy_none _
  sent _ hf := absurd hf List.not_mem_nil
  answers := trivial
  flights _ hf := absurd hf List.not_mem_nil
  waiters _ hy := absurd hy List.not_mem_nil

section Fades

variable {i : String} {now now' : View} {M M' : Set ℚ} {n : Node iface (ℕ × Call)} {tl : Timeline}

theorem Fades.valid (h : Fades now now') (hM : M ⊆ now.epochs) (htl : (now.upTo M).Valid tl) :
    (now'.upTo M).Valid tl := by
  intro fence hf l hl
  rcases h.stored fence l hl with hold | hnew
  · exact htl fence hf l hold
  · exact absurd (hM hf) hnew

theorem Fades.copy (h : Fades now now') (hM : M ⊆ now.epochs) {owned : Option Owned}
    (ho : (now.upTo M).Copy owned) : (now'.upTo M).Copy owned := by
  intro entry he
  obtain ⟨hf, his⟩ := ho entry he
  refine ⟨hf, fun l hl => ?_⟩
  rcases h.stored _ l hl with hold | hnew
  · exact his l hold
  · exact absurd (hM hf) hnew

theorem Fades.settled (h : Fades now now') (hM : M ⊆ now.epochs) {f : Flight iface (ℕ × Call)} {a : Reply f.cmd}
    {committing : Bool} (hs : Settled now M f a committing) : Settled now' M f a committing :=
  ⟨hs.epoch, fun hex tl htl => h.valid hM (hs.timeline hex tl htl)⟩

theorem Fades.underWay (h : Fades now now') {f : Flight iface (ℕ × Call)} (hf : UnderWay i now f) :
    UnderWay i now' f := by
  obtain ⟨req, held, cmd, reply, rest⟩ := f
  cases cmd with
  | actorCommit j fence next cmdId forVideoId =>
    obtain ⟨hj, hq, hfence, hnext⟩ := hf
    refine ⟨hj, hq, h.epochs hfence, fun hnone l hl => ?_⟩
    rcases h.stored fence l hl with hold | hnew
    · exact hnext hnone l hold
    · exact absurd hfence hnew
  | actorInit j fence videoId mediaTime => exact hf
  | actorClaim j => trivial
  | actorReclaim owner fence => trivial
  | hgetall => trivial
  | del => trivial
  | publish j req => trivial

theorem Fades.answers (h : Fades now now') : ∀ {conn : List (Flight iface (ℕ × Call))} {M : Set ℚ},
    Answers now M conn → Answers now' M conn
  | [], _, _ => trivial
  | f :: post, M, hans => by
    intro a ha
    obtain ⟨M', hle, hsub, hset, hpost⟩ := hans a ha
    exact ⟨M', hle, hsub.trans h.epochs, h.settled hsub hset, h.answers hpost⟩

/-- Less is stored for the instance. -/
theorem Fades.cached (h : Fades now now') (hn : Cached i now M n) : Cached i now' M n where
  minted := hn.minted.trans h.epochs
  fences := hn.fences
  owned hno := h.copy hn.minted (hn.owned hno)
  sent f hf := h.underWay (hn.sent f hf)
  answers := h.answers hn.answers
  flights := hn.flights
  waiters := hn.waiters

end Fades

section Answers

variable {now now' : View} {pre post : List (Flight iface (ℕ × Call))} {f : Flight iface (ℕ × Call)}

/-- Commands without a reply say nothing. -/
theorem answers_of_none {M : Set ℚ} {conn : List (Flight iface (ℕ × Call))} (h : ∀ g ∈ conn, g.reply = none) :
    Answers now M conn := by
  cases conn with
  | nil => trivial
  | cons g conn =>
    intro a ha
    rw [h g List.mem_cons_self] at ha
    cases ha

theorem Settled.mono {M : Set ℚ} {a : Reply f.cmd} {b b' : Bool} (h : Settled now M f a b)
    (hb : b = true → b' = true) : Settled now M f a b' :=
  ⟨h.epoch, fun hex => h.timeline fun he => hex (he.mono hb)⟩

/-- One more command is sent. -/
theorem Answers.snoc (hf : f.reply = none) : ∀ {conn : List (Flight iface (ℕ × Call))} {M : Set ℚ},
    Answers now M conn → Answers now M (conn ++ [f])
  | [], _, _ => answers_of_none fun g hg => by
    rw [List.mem_singleton.mp hg]
    exact hf
  | g :: conn, M, h => by
    intro a ha
    obtain ⟨M', hle, hsub, hset, hpost⟩ := h a ha
    refine ⟨M', hle, hsub, hset.mono fun hany => ?_, hpost.snoc hf⟩
    show (conn ++ [f]).any (fun g => g.cmd.isCommit) = true
    rw [List.any_append, hany, Bool.true_or]

/-- A command is executed. The replies before it stay settled, and its own is settled with all the epochs. -/
theorem Answers.exec {a : Reply f.cmd} (hsub : now.epochs ⊆ now'.epochs) (hpost : ∀ g ∈ post, g.reply = none)
    (hself : ∀ b, Settled now' now'.epochs f a b) : ∀ {pre : List (Flight iface (ℕ × Call))} {M : Set ℚ},
    (∀ g ∈ pre, ∀ b M' committing, g.reply = some b → M' ⊆ now.epochs → (f.cmd.isCommit = true → committing = true) →
      Settled now M' g b committing → Settled now' M' g b committing) →
    M ⊆ now.epochs → Answers now M (pre ++ f :: post) → Answers now' M (pre ++ f.answer a :: post)
  | [], M, _, hM, _ => by
    intro b hb
    cases hb
    have hset := hself (post.any fun g => g.cmd.isCommit)
    exact ⟨now'.epochs, hM.trans hsub, Set.Subset.rfl, ⟨hset.epoch, hset.timeline⟩, answers_of_none hpost⟩
  | g :: pre, M, hpre, hM, h => by
    intro b hb
    obtain ⟨M', hle, hM', hset, hrest⟩ := h b hb
    have hany : ((pre ++ f :: post).any fun g => g.cmd.isCommit) =
        (pre ++ f.answer a :: post).any fun g => g.cmd.isCommit := by
      rw [List.any_append, List.any_append]
      rfl
    have hcommitting : f.cmd.isCommit = true → (pre ++ f :: post).any (fun g => g.cmd.isCommit) = true := by
      intro hc
      exact List.any_eq_true.mpr ⟨f, List.mem_append_right _ List.mem_cons_self, hc⟩
    have hset' := hpre g List.mem_cons_self b M' _ hb hM' hcommitting hset
    exact ⟨M', hle, hM'.trans hsub, hset'.mono fun h => hany ▸ h,
      hrest.exec hsub hpost hself (fun k hk => hpre k (List.mem_cons_of_mem _ hk)) hM'⟩

end Answers

/-! ## Segments -/

section Segments

variable {i : String} {now : View} {M : Set ℚ} {x : Option (ℚ × Timeline)} {r : ℕ × Call} {held : List Lane}
  {n n' : Node iface (ℕ × Call)} {es : List Emit}

/-- A commit is under way in the queue. -/
theorem UnderWay.queued {f : Flight iface (ℕ × Call)} (h : UnderWay i now f) (hc : f.cmd.isCommit = true) :
    Lane.queue ∈ f.held := by
  obtain ⟨req, held, cmd, reply, rest⟩ := f
  cases cmd with
  | actorCommit j fence next cmdId forVideoId => exact h.2.1
  | actorClaim => cases hc
  | actorReclaim => cases hc
  | actorInit => cases hc
  | hgetall => cases hc
  | del => cases hc
  | publish => cases hc

/-- An init script names the instance that sent it. -/
theorem UnderWay.init {f : Flight iface (ℕ × Call)} (h : UnderWay i now f) {j : String} {fence : ℚ}
    {videoId : Option String} {mediaTime : ℚ} (hc : f.cmd = .actorInit j fence videoId mediaTime) : j = i := by
  obtain ⟨req, held, cmd, reply, rest⟩ := f
  cases hc
  exact h

/-- A commit names the instance that sent it. -/
theorem UnderWay.commit {f : Flight iface (ℕ × Call)} (h : UnderWay i now f) {j : String} {fence : ℚ} {next : Draft}
    {cmdId : Option String} {forVideoId : Option (Option String)}
    (hc : f.cmd = .actorCommit j fence next cmdId forVideoId) : j = i := by
  obtain ⟨req, held, cmd, reply, rest⟩ := f
  cases hc
  exact h.1

/-- A command that was sent, by a program of the queue only when it was known what is stored. -/
theorem Sends.underWay {f : Flight iface (ℕ × Call)} (hM : M ⊆ now.epochs)
    (hx : Lane.queue ∈ f.held → x = now.stored) (h : Sends i f.req ⟨x, M⟩ f.held f.cmd) : UnderWay i now f := by
  obtain ⟨req, held, cmd, reply, rest⟩ := f
  cases cmd with
  | actorCommit j fence next cmdId forVideoId =>
    obtain ⟨hj, hq, hfence, hnext⟩ := h
    exact ⟨hj, hq, hM hfence, fun _ l hl => hnext l ((hx hq).trans hl)⟩
  | actorInit j fence videoId mediaTime => exact h
  | actorClaim j => trivial
  | actorReclaim owner fence => trivial
  | hgetall => trivial
  | del => trivial
  | publish j req => trivial

/-- What is known of the store: nothing while a commit is under way. -/
theorem exists_known (x : Option (ℚ × Timeline)) (n : Node iface (ℕ × Call)) :
    ∃ y, (NoCommit n → y = x) ∧ (y = none ∨ NoCommit n) := by
  by_cases h : NoCommit n
  · exact ⟨x, fun _ => rfl, Or.inr h⟩
  · exact ⟨none, fun hno => absurd hno h, Or.inl rfl⟩

/-- The copy is backed by what is known. -/
theorem Cached.copy (hn : Cached i now M n) (hx : NoCommit n → x = now.stored) (hno : x = none ∨ NoCommit n) :
    (⟨x, M⟩ : View).Copy n.loc.owned := by
  rcases hno with rfl | hno
  · exact fun entry he => ⟨hn.fences entry he, View.is_unknown _ _ _⟩
  · rw [hx hno]
    exact hn.owned hno

/-- **A segment keeps the cache.** While a commit is under way it is not known what is stored, but then no program of
the queue runs. -/
theorem Cached.segment (hM : M ⊆ now.epochs) (hsent : ∀ f ∈ n.conn, UnderWay i now f) (hans : Answers now M n.conn)
    (hflights : ∀ f ∈ n.conn, ∃ x₀ : View, x₀.epochs ⊆ M ∧ f.OK (caching i f.req) x₀)
    (hwaiters : ∀ y ∈ n.waiting, ∃ x₀ : View, x₀.epochs ⊆ M ∧ y.OK (caching i y.req) x₀) (hex : n'.Exclusive)
    (hx : NoCommit n → x = now.stored) (hR : Resumed (caching i r) r ⟨x, M⟩ held n es n') : Cached i now M n' := by
  obtain ⟨held', hends⟩ := hR.ends
  have hfences : ∀ entry, n'.loc.owned = some entry → entry.fence ∈ M := fun entry he => (hends entry he).1
  have howned : (NoCommit n' → NoCommit n) → NoCommit n' → (now.upTo M).Copy n'.loc.owned := by
    intro hback hno
    rw [hx (hback hno)] at hends
    exact hends
  cases hR with
  | ended loc held' h => exact ⟨hM, hfences, howned id, hsent, hans, hflights, hwaiters⟩
  | waits loc y hreq hheld h hok =>
    refine ⟨hM, hfences, howned id, hsent, hans, hflights, fun z hz => ?_⟩
    rcases List.mem_append.mp hz with hz | hz
    · exact hwaiters z hz
    · rw [List.mem_singleton.mp hz, hreq]
      exact ⟨⟨x, M⟩, Set.Subset.rfl, hok⟩
  | asked loc f hreq hreply hheld h hcall hok =>
    have hback : NoCommit { n with loc := loc, conn := n.conn ++ [f] } → NoCommit n :=
      fun hno g hg => hno g (List.mem_append_left _ hg)
    have hknown : Lane.queue ∈ f.held → x = now.stored := by
      refine fun hq => hx fun g hg => ?_
      cases hgc : g.cmd.isCommit with
      | false => rfl
      | true =>
        have hg' : g ∈ n.conn ++ [] := by rwa [List.append_nil]
        exact absurd ((hsent g hg).queued hgc) (hex.alone rfl hq g hg')
    refine ⟨hM, hfences, howned hback, fun g hg => ?_, hans.snoc hreply, fun g hg => ?_, hwaiters⟩
    · rcases List.mem_append.mp hg with hg | hg
      · exact hsent g hg
      · rw [List.mem_singleton.mp hg]
        exact Sends.underWay hM hknown (hreq.symm ▸ hcall)
    · rcases List.mem_append.mp hg with hg | hg
      · exact hflights g hg
      · rw [List.mem_singleton.mp hg, hreq]
        exact ⟨⟨x, M⟩, Set.Subset.rfl, hok⟩

end Segments

/-! ## Careful runs -/

/-- The epoch that an event mints. -/
def mints? (e : Event) : Option ℚ :=
  if claims e = true ∧ e.pre.shared.room.leaseNow = none then some e.pre.shared.room.now else none

/-- The epochs that were minted. -/
def mints (tr : List Event) : List ℚ := tr.filterMap mints?

@[simp] theorem mints_snoc (tr : List Event) (e : Event) : mints (tr ++ [e]) = mints tr ++ (mints? e).toList := by
  cases h : mints? e <;> simp [mints, h]

/-- The instance whose connection is made anew. -/
def reconnected (e : Event) : Option String :=
  match e.act with
  | .reconnect i => some i
  | _ => none

/-- No reply is lost: a connection is given up only when it is idle, and made anew only when nothing that was executed
is unanswered. -/
structure Delivered (e : Event) : Prop where
  rejections : ∀ i ∈ rejected e, (e.pre.node i).conn = []
  reconnections : ∀ i ∈ reconnected e, ∀ f ∈ (e.pre.node i).conn, f.reply.isNone = true

/-- What a program receives that holds the queue. -/
def inQueue {α : Type} (held : List Lane) (a : Option α) : Option α := if Lane.queue ∈ held then a else none

/-- The epoch that a claim of the queue answers, and the instance that receives it. -/
def regained (e : Event) : Option (String × ℚ) :=
  match e.act with
  | .deliver i =>
    match (e.pre.node i).conn with
    | [] => none
    | f :: _ => (inQueue f.held (f.reply.bind (leased f.cmd))).map fun epoch => (i, epoch)
  | _ => none

/-- The instance has no copy under `fence`, no reply under way that one is made of, and no commit under way under
`fence`. -/
structure Unkept (fence : ℚ) (n : Node iface (ℕ × Call)) : Prop where
  owned : ∀ entry ∈ n.loc.owned, entry.fence ≠ fence
  replies : ∀ f ∈ n.conn, Excused f.held false f.cmd ∨ underway f = none
  commits : ∀ f ∈ n.conn, f.cmd.commitFence ≠ some fence

/-- A careful event: an init script of the lease's holder finds no timeline that has an author, an instance that claimed
for its queue has no copy of an earlier lease but the stored timeline, and a timeline is created while its creator keeps
nothing under the same fence. -/
structure Careful (e : Event) : Prop where
  authors : ∀ c ∈ creator e, Lua.Holds c.1 c.2 e.pre.shared.room → ∀ w ∈ e.pre.shared.room.loadTl, w.byUser = ""
  copies : ∀ c ∈ regained e, ∀ entry ∈ (e.pre.node c.1).loc.owned, entry.fence ≠ c.2 →
    ∀ l ∈ stored c.1 e.pre.shared.room, l.1 = c.2 → entry.timeline = l.2
  births : ∀ c ∈ creator e, Writes e → Unkept c.2 (e.pre.node c.1)

/-- What is stored for an instance, and the epochs that were minted. -/
def view (i : String) (tr : List Event) (s : State) : View :=
  ⟨stored i s.shared.room, {epoch | epoch ∈ mints tr}⟩

/-- What a careful run keeps. -/
structure Kept (tr : List Event) (s : State) : Prop where
  lanes : ∀ i, (s.node i).Exclusive
  order : ∀ i, (s.node i).Sequential
  lease : ∀ lease, s.shared.room.leaseNow = some lease → lease.epoch ∈ mints tr
  nodes : ∀ i, ∃ M, Cached i (view i tr s) M (s.node i)

/-! ## What one command stores -/

/-- A claim that answers an epoch to the owner of the lease leaves the lease under that epoch. -/
theorem exec_leased {c : Cmd} {trim : ℕ} {k : Redis} {epoch : ℚ} (h : leased c (exec c trim k).1 = some epoch) :
    ∃ owner, (exec c trim k).2.room.leaseNow = some ⟨owner, epoch⟩ := by
  cases c with
  | actorClaim i =>
    simp only [leased, Option.ite_none_right_eq_some, Option.some.injEq] at h
    obtain ⟨hm, rfl⟩ := h
    simp only [exec] at hm ⊢
    rcases Lua.actorClaim_cases i LEASE_TTL_MS k.room with ⟨hn, he⟩ | ⟨lease, hl, ho, he⟩ | ⟨lease, hl, ho, he⟩
    · rw [he]
      exact ⟨i, ActorPlane.granted_leaseNow ⟨i, k.room.now⟩ k.room⟩
    · rw [he]
      exact ⟨lease.owner, ActorPlane.granted_leaseNow lease k.room⟩
    · rw [he] at hm
      cases hm
  | actorReclaim => cases h
  | actorInit => cases h
  | actorCommit => cases h
  | hgetall => cases h
  | del => cases h
  | publish => cases h

/-- A reply that carries a timeline carries the stored one, where the init script finds no author. -/
theorem exec_stored {c : Cmd} {trim : ℕ} {k : Redis} {tl : Timeline} (h : carried c (exec c trim k).1 = some tl)
    (hauthor : ∀ i fence videoId mediaTime, c = .actorInit i fence videoId mediaTime → Lua.Holds i fence k.room →
      ∀ w, k.room.loadTl = some w → w.byUser = "") :
    ∃ w, (exec c trim k).2.room.loadTl = some w ∧ tl = w.toTimeline := by
  cases c with
  | actorInit i fence videoId mediaTime =>
    rcases Lua.actorInit_cases (initArgs i fence videoId mediaTime) trim k.room with
      ⟨-, he⟩ | ⟨hh, ⟨w, hw, he⟩ | ⟨-, he⟩⟩
    · simp only [exec, carried, he] at h
      cases h
    · have hby := hauthor i fence videoId mediaTime rfl hh w hw
      simp only [exec, carried, he] at h ⊢
      cases h
      refine ⟨w, hw, ?_⟩
      simp only [TlHash.toTimeline, hby, nullOf_empty]
    · simp only [exec, carried, he] at h ⊢
      cases h
      exact ⟨_, Lua.stored_loadTl _ _ _ _ _ KEY_TTL_MS_pos, rfl⟩
  | actorCommit i fence next cmdId forVideoId =>
    rcases Lua.actorCommit_cases (commitArgs i fence next cmdId forVideoId) trim k.room with
      ⟨-, he⟩ | ⟨-, ⟨w, hw, -, he⟩ | ⟨w, hw, -, -, he⟩ | ⟨-, he⟩⟩
    · simp only [exec, carried, he] at h
      cases h
    · simp only [exec, carried, he] at h ⊢
      cases h
      exact ⟨w, hw, rfl⟩
    · simp only [exec, carried, he] at h ⊢
      cases h
      exact ⟨w, hw, rfl⟩
    · simp only [exec, carried, he] at h ⊢
      cases h
      exact ⟨_, Lua.stored_loadTl _ _ _ _ _ KEY_TTL_MS_pos, rfl⟩
  | hgetall =>
    obtain ⟨w, hw, rfl⟩ := Option.map_eq_some_iff.mp h
    exact ⟨w, hw, rfl⟩
  | actorClaim => cases h
  | actorReclaim => cases h
  | del => cases h
  | publish => cases h

/-- A command that writes no timeline stores none for the instance, except under an epoch that it mints. -/
theorem stored_keep {σ σ' : Room} {op : ActorPlane.Op} {out : ActorPlane.Out} (hs : ActorPlane.Step σ op out σ')
    (hsaves : σ'.saves = σ.saves) {i : String} {fence : ℚ} {l : Timeline} (h : stored i σ' = some (fence, l)) :
    stored i σ = some (fence, l) ∨ ∃ j, op = .claim j ∧ σ.leaseNow = none ∧ fence = σ.now := by
  obtain ⟨hl, hw⟩ := stored_eq_some.mp h
  cases hs with
  | mint j hn =>
    rw [ActorPlane.granted_leaseNow, Option.some.injEq, Lease.mk.injEq] at hl
    exact Or.inr ⟨j, rfl, hn, hl.2.symm⟩
  | renew j lease hlease ho =>
    rw [ActorPlane.granted_leaseNow] at hl
    exact Or.inl (stored_eq_some.mpr ⟨hlease.trans hl, hw⟩)
  | foreign j lease hlease ho => exact Or.inl h
  | revoke owner fence n hh => cases hl
  | birth j fence videoId mediaTime trim new hh hn hnew => simp at hsaves
  | commit j fence next cmdId forVideoId trim new hh hok hnew => simp at hsaves
  | clear => cases hl
  | tick d =>
    obtain ⟨w, hw, rfl⟩ := hw
    have hle : σ.now ≤ (σ.tick d).now := Nat.le_add_right _ _
    exact Or.inl (stored_eq_some.mpr ⟨Expiring.get_of_le hl hle, w, Expiring.get_of_le hw hle, rfl⟩)
  | keep op out hout hop hlout => exact Or.inl h

/-- A command that writes a timeline stores it for the instance that holds the lease, and nothing for others. -/
theorem stored_write {σ σ' : Room} {op : ActorPlane.Op} {out : ActorPlane.Out} (hs : ActorPlane.Step σ op out σ')
    (hsaves : σ'.saves ≠ σ.saves) : ∃ lease, op.caller = some lease ∧ σ.leaseNow = some lease ∧
      ∀ i fence l, stored i σ' = some (fence, l) → i = lease.owner ∧ fence = lease.epoch := by
  rcases ActorPlane.write_step hs with hsame | ⟨lease, new, hcaller, hlease, hlease', -, hepoch, -, hload⟩
  · exact absurd hsame hsaves
  · refine ⟨lease, hcaller, hlease, fun i fence l h => ?_⟩
    obtain ⟨hl, -⟩ := stored_eq_some.mp h
    rw [hlease'] at hl
    cases hl
    exact ⟨rfl, rfl⟩

section Executed

variable {i : String} {now now' : View} {M : Set ℚ} {n : Node iface (ℕ × Call)}
  {pre post : List (Flight iface (ℕ × Call))} {f : Flight iface (ℕ × Call)} {a : Reply f.cmd}

/-- A command that was executed. -/
theorem UnderWay.answer (h : UnderWay i now f) (hsub : now.epochs ⊆ now'.epochs) : UnderWay i now' (f.answer a) := by
  obtain ⟨req, held, cmd, reply, rest⟩ := f
  cases cmd with
  | actorCommit j fence next cmdId forVideoId =>
    obtain ⟨hj, hq, hfence, -⟩ := h
    exact ⟨hj, hq, hsub hfence, fun hnone => by cases hnone⟩
  | actorInit j fence videoId mediaTime => exact h
  | actorClaim j => trivial
  | actorReclaim owner fence => trivial
  | hgetall => trivial
  | del => trivial
  | publish j req => trivial

/-- A command under way that is no commit. -/
theorem UnderWay.of_noCommit (hc : f.cmd.isCommit = false) (h : UnderWay i now f) : UnderWay i now' f := by
  obtain ⟨req, held, cmd, reply, rest⟩ := f
  cases cmd with
  | actorCommit j fence next cmdId forVideoId => cases hc
  | actorInit j fence videoId mediaTime => exact h
  | actorClaim j => trivial
  | actorReclaim owner fence => trivial
  | hgetall => trivial
  | del => trivial
  | publish j req => trivial

theorem mem_conn (hc : n.conn = pre ++ f :: post) : ∀ g ∈ pre ++ post, g ∈ n.conn := by
  intro g hg
  rw [hc]
  rcases List.mem_append.mp hg with hg | hg
  · exact List.mem_append_left _ hg
  · exact List.mem_append_right _ (List.mem_cons_of_mem _ hg)

/-- **The next command of an instance is executed.** -/
theorem Cached.exec (hn : Cached i now M n) (hseq : n.Sequential) (hc : n.conn = pre ++ f :: post)
    (hf : f.reply = none) (hsub : now.epochs ⊆ now'.epochs) (hself : ∀ b, Settled now' now'.epochs f a b)
    (hpre : ∀ g ∈ pre, ∀ b M' committing, g.reply = some b → M' ⊆ now.epochs →
      (f.cmd.isCommit = true → committing = true) → Settled now M' g b committing → Settled now' M' g b committing)
    (howned : NoCommit n → (now'.upTo M).Copy n.loc.owned) (hsent : ∀ g ∈ pre ++ post, UnderWay i now' g) :
    Cached i now' M { n with conn := pre ++ f.answer a :: post } where
  minted := hn.minted.trans hsub
  fences := hn.fences
  owned hno := by
    refine howned fun g hg => ?_
    rw [hc] at hg
    rcases List.mem_append.mp hg with hg | hg
    · exact hno g (List.mem_append_left _ hg)
    · rcases List.mem_cons.mp hg with rfl | hg
      · exact hno (g.answer a) (List.mem_append_right _ List.mem_cons_self)
      · exact hno g (List.mem_append_right _ (List.mem_cons_of_mem _ hg))
  sent g hg := by
    rcases List.mem_append.mp hg with hg | hg
    · exact hsent g (List.mem_append_left _ hg)
    · rcases List.mem_cons.mp hg with rfl | hg
      · exact (hn.sent f (hc ▸ List.mem_append_right _ List.mem_cons_self)).answer hsub
      · exact hsent g (List.mem_append_right _ hg)
  answers := by
    have hans := hn.answers
    rw [hc] at hans
    exact hans.exec hsub (hseq.behind hc hf) hself hpre hn.minted
  flights g hg := by
    rcases List.mem_append.mp hg with hg | hg
    · exact hn.flights g (hc ▸ List.mem_append_left _ hg)
    · rcases List.mem_cons.mp hg with rfl | hg
      · exact hn.flights f (hc ▸ List.mem_append_right _ List.mem_cons_self)
      · exact hn.flights g (hc ▸ List.mem_append_right _ (List.mem_cons_of_mem _ hg))
  waiters := hn.waiters

/-- A command after which no more is stored for the instance. -/
theorem Cached.keep (hn : Cached i now M n) (hseq : n.Sequential) (hc : n.conn = pre ++ f :: post)
    (hf : f.reply = none) (hfades : Fades now now') (hself : ∀ b, Settled now' now'.epochs f a b) :
    Cached i now' M { n with conn := pre ++ f.answer a :: post } :=
  hn.exec hseq hc hf hfades.epochs hself (fun _ _ _ _ _ _ hM' _ hset => hfades.settled hM' hset)
    (fun hno => hfades.copy hn.minted (hn.owned hno)) fun g hg => hfades.underWay (hn.sent g (mem_conn hc g hg))

/-- The instance's own commit: it is the only one, and no other program of the queue waits. -/
theorem Cached.commit (hn : Cached i now M n) (hex : n.Exclusive) (hseq : n.Sequential)
    (hc : n.conn = pre ++ f :: post) (hf : f.reply = none) (hcommit : f.cmd.isCommit = true)
    (hsub : now.epochs ⊆ now'.epochs) (hself : ∀ b, Settled now' now'.epochs f a b) :
    Cached i now' M { n with conn := pre ++ f.answer a :: post } := by
  have hfm : f ∈ n.conn := hc ▸ List.mem_append_right _ List.mem_cons_self
  have halone := hex.alone hc ((hn.sent f hfm).queued hcommit)
  have hother : ∀ g ∈ pre ++ post, g.cmd.isCommit = false := by
    intro g hg
    cases hgc : g.cmd.isCommit with
    | false => rfl
    | true => exact absurd ((hn.sent g (mem_conn hc g hg)).queued hgc) (halone g hg)
  refine hn.exec hseq hc hf hsub hself ?_ ?_ ?_
  · -- the replies before it are excused, or carry nothing
    intro g hg b M' committing _ _ hcommitting hset
    refine ⟨hset.epoch, fun hexc tl htl => ?_⟩
    have hgm := List.mem_append_left post hg
    have hgc := hother g hgm
    have hgq := halone g hgm
    obtain ⟨req, held, cmd, reply, rest⟩ := g
    cases cmd with
    | actorInit j fence videoId mediaTime => exact absurd (hcommitting hcommit) hexc
    | hgetall => exact absurd hgq hexc
    | actorCommit j fence next cmdId forVideoId => cases hgc
    | actorClaim j => cases htl
    | actorReclaim owner fence => cases htl
    | del => cases htl
    | publish j req => cases htl
  · intro hno
    have hfalse := hno f hfm
    rw [hcommit] at hfalse
    cases hfalse
  · exact fun g hg => (hn.sent g (mem_conn hc g hg)).of_noCommit (hother g hg)

/-- The instance's own birth, while it keeps nothing under the fence. -/
theorem Cached.birth {fence : ℚ} (hn : Cached i now M n) (hseq : n.Sequential) (hc : n.conn = pre ++ f :: post)
    (hf : f.reply = none) (hsub : now.epochs ⊆ now'.epochs) (hself : ∀ b, Settled now' now'.epochs f a b)
    (hu : Unkept fence n) (hborn : ∀ fence' l, now'.stored = some (fence', l) → fence' = fence) :
    Cached i now' M { n with conn := pre ++ f.answer a :: post } := by
  refine hn.exec hseq hc hf hsub hself ?_ ?_ ?_
  · intro g hg b M' committing hb _ _ hset
    refine ⟨hset.epoch, fun hexc tl htl => ?_⟩
    rcases hu.replies g (mem_conn hc g (List.mem_append_left _ hg)) with hexcused | hnone
    · exact absurd (hexcused.mono fun h => by cases h) hexc
    · rw [underway, hb] at hnone
      exact absurd (hnone.symm.trans htl) (Option.some_ne_none tl).symm
  · intro _ entry he
    refine ⟨hn.fences entry he, fun l hl => ?_⟩
    exact absurd (hborn _ l hl) (hu.owned entry he)
  · intro g hg
    have hgm := mem_conn hc g hg
    have hold := hn.sent g hgm
    have hno := hu.commits g hgm
    obtain ⟨req, held, cmd, reply, rest⟩ := g
    cases cmd with
    | actorCommit j fence' next cmdId forVideoId =>
      refine ⟨hold.1, hold.2.1, hsub hold.2.2.1, fun _ l hl => ?_⟩
      exact absurd (congrArg some (hborn fence' l hl)) hno
    | actorInit j fence' videoId mediaTime => exact hold
    | actorClaim j => trivial
    | actorReclaim owner fence' => trivial
    | hgetall => trivial
    | del => trivial
    | publish j req => trivial

end Executed

/-! ## One step -/

/-- The claim that mints is the one that was executed. -/
theorem mints?_claim {c : Cmd} {trim : ℕ} {j : String} (h : op c trim = .claim j) {e : Event} {i : String}
    {req : ℕ × Call} {a : Reply c} (hout : e.out = .executed i req c a) (hnone : e.pre.shared.room.leaseNow = none) :
    mints? e = some (e.pre.shared.room.now : ℚ) := by
  refine if_pos ⟨?_, hnone⟩
  unfold claims
  rw [hout]
  cases c with
  | actorClaim => rfl
  | actorReclaim => cases h
  | actorInit => cases h
  | actorCommit => cases h
  | hgetall => cases h
  | del => cases h
  | publish => cases h

/-- A command that writes is an init or a commit. -/
theorem caller_cases {c : Cmd} {trim : ℕ} {lease : Lease} (h : (op c trim).caller = some lease) :
    (∃ videoId mediaTime, c = .actorInit lease.owner lease.epoch videoId mediaTime) ∨
    ∃ next cmdId forVideoId, c = .actorCommit lease.owner lease.epoch next cmdId forVideoId := by
  cases c with
  | actorInit i fence videoId mediaTime =>
    cases h
    exact Or.inl ⟨videoId, mediaTime, rfl⟩
  | actorCommit i fence next cmdId forVideoId =>
    cases h
    exact Or.inr ⟨next, cmdId, forVideoId, rfl⟩
  | actorClaim => cases h
  | actorReclaim => cases h
  | hgetall => cases h
  | del => cases h
  | publish => cases h

/-- The creator of an executed init script. -/
theorem creator_init {c : Cmd} {i j : String} {fence : ℚ} {videoId : Option String} {mediaTime : ℚ} {e : Event}
    {req : ℕ × Call} {a : Reply c} (hout : e.out = .executed i req c a) (h : c = .actorInit j fence videoId mediaTime) :
    (i, fence) ∈ creator e := by
  subst h
  unfold creator
  rw [hout]
  rfl

/-- Where no timeline is written, no more is stored for any instance. -/
theorem fades_keep {tr : List Event} {e : Event} {op : ActorPlane.Op} {out : ActorPlane.Out}
    (hs : ActorPlane.Step e.pre.shared.room op out e.post.shared.room)
    (hmint : ∀ j, op = .claim j → e.pre.shared.room.leaseNow = none → mints? e = some (e.pre.shared.room.now : ℚ))
    (hnodup : (mints (tr ++ [e])).Nodup) (hsaves : ¬Writes e) (i : String) :
    Fades (view i tr e.pre) (view i (tr ++ [e]) e.post) where
  epochs epoch h := by
    show epoch ∈ mints (tr ++ [e])
    rw [mints_snoc]
    exact List.mem_append_left _ h
  stored fence l h := by
    rcases stored_keep hs (not_not.mp hsaves) h with hold | ⟨j, hop, hnone, rfl⟩
    · exact Or.inl hold
    · refine Or.inr fun hmem => ?_
      rw [mints_snoc, hmint j hop hnone] at hnodup
      exact (List.nodup_append.mp hnodup).2.2 _ hmem _ (List.mem_singleton_self _) rfl

/-- The lease that is held was minted. -/
theorem lease_keep {tr : List Event} {e : Event} {op : ActorPlane.Op} {out : ActorPlane.Out}
    (hs : ActorPlane.Step e.pre.shared.room op out e.post.shared.room)
    (hmint : ∀ j, op = .claim j → e.pre.shared.room.leaseNow = none → mints? e = some (e.pre.shared.room.now : ℚ))
    (hI : ∀ lease, e.pre.shared.room.leaseNow = some lease → lease.epoch ∈ mints tr) :
    ∀ lease, e.post.shared.room.leaseNow = some lease → lease.epoch ∈ mints (tr ++ [e]) := by
  intro lease hlease
  rw [mints_snoc]
  rcases (ActorPlane.lease_step hs).2 with ⟨j, hop, hnone, hnew, -⟩ | ⟨hsame, -⟩ | ⟨hnone, -⟩
  · rw [hnew] at hlease
    cases hlease
    rw [hmint j hop hnone]
    exact List.mem_append_right _ (List.mem_singleton_self _)
  · exact List.mem_append_left _ (hI lease (hsame ▸ hlease))
  · rw [hnone] at hlease
    cases hlease

/-- A reply just executed is settled. -/
theorem settled_exec {c : Cmd} {trim : ℕ} {k k' : Redis} {a : Reply c} (hx : exec c trim k = (a, k'))
    (now : View) {i : String} (hnow : now.stored = stored i k'.room)
    (hlease : ∀ lease, k'.room.leaseNow = some lease → lease.epoch ∈ now.epochs)
    (hauthor : ∀ j fence videoId mediaTime, c = .actorInit j fence videoId mediaTime → Lua.Holds j fence k.room →
      ∀ w, k.room.loadTl = some w → w.byUser = "") :
    (∀ epoch, leased c a = some epoch → epoch ∈ now.epochs) ∧ ∀ tl, carried c a = some tl → now.Valid tl := by
  constructor
  · intro epoch h
    obtain ⟨owner, hl⟩ := exec_leased (show leased c (exec c trim k).1 = some epoch by rwa [hx])
    rw [hx] at hl
    exact hlease _ hl
  · intro tl h fence _ l hl
    obtain ⟨w, hw, rfl⟩ := exec_stored (show carried c (exec c trim k).1 = some tl by rwa [hx]) hauthor
    rw [hx] at hw
    obtain ⟨-, w', hw', rfl⟩ := stored_eq_some.mp (hnow.symm.trans hl)
    rw [Option.some.inj (hw.symm.trans hw')]

/-- **One executed command keeps the caches.** -/
theorem Kept.exec {tr : List Event} {e : Event} (hcareful : Careful e) (hnodup : (mints (tr ++ [e])).Nodup)
    (hI : Kept tr e.pre) {j : String} {trim : ℕ}
    {pre post : List (Flight iface (ℕ × Call))} {f : Flight iface (ℕ × Call)}
    (hc : (e.pre.node j).conn = pre ++ f :: post) (hf : f.reply = none) {a : Reply f.cmd}
    (hx : exec f.cmd trim e.pre.shared = (a, e.post.shared)) (hout : e.out = .executed j f.req f.cmd a) :
    (∀ lease, e.post.shared.room.leaseNow = some lease → lease.epoch ∈ mints (tr ++ [e])) ∧
    ∀ i, ∃ M, Cached i (view i (tr ++ [e]) e.post) M
      (if i = j then { e.pre.node j with conn := pre ++ f.answer a :: post } else e.pre.node i) := by
  obtain ⟨out, hstep⟩ := exec_step f.cmd trim e.pre.shared
  rw [hx] at hstep
  have hmint : ∀ i, op f.cmd trim = .claim i → e.pre.shared.room.leaseNow = none →
      mints? e = some (e.pre.shared.room.now : ℚ) := fun i hop hnone => mints?_claim hop hout hnone
  have hlease := lease_keep hstep hmint hI.lease
  have hfm : f ∈ (e.pre.node j).conn := hc ▸ List.mem_append_right _ List.mem_cons_self
  refine ⟨hlease, fun i => ?_⟩
  have hsub : (view i tr e.pre).epochs ⊆ (view i (tr ++ [e]) e.post).epochs := fun epoch h => by
    show epoch ∈ mints (tr ++ [e])
    rw [mints_snoc]
    exact List.mem_append_left _ h
  have hcreator : ∀ j' fence videoId mediaTime, f.cmd = .actorInit j' fence videoId mediaTime →
      j' = j ∧ (j, fence) ∈ creator e := by
    intro j' fence videoId mediaTime hcmd
    obtain ⟨M, hj⟩ := hI.nodes j
    exact ⟨(hj.sent f hfm).init hcmd, creator_init hout hcmd⟩
  have hauthor : ∀ j' fence videoId mediaTime, f.cmd = .actorInit j' fence videoId mediaTime →
      Lua.Holds j' fence e.pre.shared.room → ∀ w, e.pre.shared.room.loadTl = some w → w.byUser = "" := by
    intro j' fence videoId mediaTime hcmd hh w hw
    obtain ⟨rfl, hcr⟩ := hcreator j' fence videoId mediaTime hcmd
    exact hcareful.authors _ hcr hh w hw
  have hself : ∀ b, Settled (view i (tr ++ [e]) e.post) (view i (tr ++ [e]) e.post).epochs f a b := by
    obtain ⟨hepoch, htl⟩ := settled_exec hx (view i (tr ++ [e]) e.post) rfl hlease hauthor
    exact fun b => ⟨hepoch, fun _ tl h => htl tl h⟩
  obtain ⟨M, hi⟩ := hI.nodes i
  by_cases hsaves : Writes e
  · obtain ⟨lease, hcaller, -, hwrite⟩ := stored_write hstep hsaves
    obtain ⟨Mj, hj⟩ := hI.nodes j
    have hother : lease.owner = j → i ≠ j → Fades (view i tr e.pre) (view i (tr ++ [e]) e.post) := fun hown hij =>
      ⟨hsub, fun fence l h => absurd ((hwrite i fence l h).1.trans hown) hij⟩
    refine ⟨M, ?_⟩
    rcases caller_cases hcaller with ⟨videoId, mediaTime, hcmd⟩ | ⟨next, cmdId, forVideoId, hcmd⟩
    · obtain ⟨hown, hcr⟩ := hcreator _ _ _ _ hcmd
      split
      · rename_i hij
        subst hij
        refine hi.birth (hI.order i) hc hf hsub hself (hcareful.births _ hcr hsaves) fun fence l h => ?_
        exact (hwrite i fence l h).2
      · rename_i hij
        exact (hother hown hij).cached hi
    · have hown := (hj.sent f hfm).commit hcmd
      split
      · rename_i hij
        subst hij
        exact hi.commit (hI.lanes i) (hI.order i) hc hf (by rw [hcmd]; rfl) hsub hself
      · rename_i hij
        exact (hother hown hij).cached hi
  · have hfades := fades_keep hstep hmint hnodup hsaves i
    refine ⟨M, ?_⟩
    split
    · rename_i hij
      subst hij
      exact hi.keep (hI.order i) hc hf hfades hself
    · exact hfades.cached hi

/-- What a delivered reply is for the segment that it begins. -/
theorem Cached.resumes {i : String} {now : View} {M M' : Set ℚ} {x : Option (ℚ × Timeline)}
    {n : Node iface (ℕ × Call)} {rest : List (Flight iface (ℕ × Call))} {f : Flight iface (ℕ × Call)}
    {a : Reply f.cmd} (hn : Cached i now M n) (hc : n.conn = f :: rest) (hle : M ⊆ M')
    (hset : Settled now M' f a (rest.any fun g => g.cmd.isCommit))
    (hx : (∀ g ∈ rest, g.cmd.isCommit = false) → x = now.stored) (hno : x = none ∨ ∀ g ∈ rest, g.cmd.isCommit = false)
    (hclaim : ∀ epoch, inQueue f.held (leased f.cmd a) = some epoch → ∀ entry, n.loc.owned = some entry →
      entry.fence ≠ epoch → ∀ l, now.stored = some (epoch, l) → entry.timeline = l) :
    Resumes ⟨x, M'⟩ n.loc.owned f.held f.cmd a := by
  have hcopy : f.cmd.isCommit = false → (⟨x, M'⟩ : View).Copy n.loc.owned := by
    intro hfc entry he
    refine ⟨hle (hn.fences entry he), ?_⟩
    rcases hno with rfl | hno
    · exact View.is_unknown _ _ _
    · rw [hx hno]
      refine (hn.owned (fun g hg => ?_) entry he).2
      rw [hc] at hg
      rcases List.mem_cons.mp hg with rfl | hg
      · exact hfc
      · exact hno g hg
  have htl : ¬Excused f.held false f.cmd → ∀ tl, carried f.cmd a = some tl → (⟨x, M'⟩ : View).Valid tl := by
    intro hexc tl h
    rcases hno with rfl | hno
    · exact fun _ _ => View.is_unknown _ _ _
    · rw [hx hno]
      refine hset.timeline (fun he => hexc (he.mono fun hany => ?_)) tl h
      obtain ⟨g, hg, hgc⟩ := List.any_eq_true.mp hany
      rw [hno g hg] at hgc
      cases hgc
  obtain ⟨req, held, cmd, reply, k⟩ := f
  cases cmd with
  | actorClaim j =>
    refine ⟨hcopy rfl, fun hm => ?_⟩
    have hepoch : leased (.actorClaim j) a = some a.epoch := if_pos hm
    refine ⟨hset.epoch _ hepoch, fun hq => ⟨hset.epoch _ hepoch, fun entry he l hl => ?_⟩⟩
    by_cases hfence : entry.fence = a.epoch
    · exact (hcopy rfl entry he).2 l (hfence ▸ hl)
    · rcases hno with rfl | hno
      · cases hl
      · exact hclaim a.epoch ((if_pos hq).trans hepoch) entry he hfence l ((hx hno).symm.trans hl)
  | actorInit j fence videoId mediaTime => exact ⟨hcopy rfl, htl Bool.false_ne_true⟩
  | hgetall => exact ⟨hcopy rfl, fun hq => htl (not_not_intro hq)⟩
  | actorCommit j fence next cmdId forVideoId =>
    refine ⟨fun entry he => hle (hn.fences entry he), fun answer h => htl not_false _ ?_⟩
    rw [h]
    rfl
  | actorReclaim owner fence => exact hcopy rfl
  | del => exact hcopy rfl
  | publish j req => exact hcopy rfl

/-- A step that executes nothing touches the keys by letting time pass, if at all. -/
theorem keys_quiet {e : Event} (hs : System.Step system e.pre e.act e.out e.post)
    (hout : ∀ i req c a, e.out ≠ .executed i req c a) :
    ∃ d, ActorPlane.Step e.pre.shared.room (.tick d) .done e.post.shared.room ∧ ¬Writes e := by
  obtain ⟨s, act, o, s'⟩ := e
  simp only at hs hout ⊢
  have hidle : ActorPlane.Step s.shared.room (.tick 0) .done s.shared.room :=
    .keep _ _ rfl (fun _ h => by cases h) fun _ h => by cases h
  cases hs with
  | exec j trim pre post f hc hpre hf a k hx => exact absurd rfl (hout j f.req f.cmd a)
  | env e =>
    obtain ⟨d, hd⟩ := env_room e s.shared
    have hstep := ActorPlane.step_cases s.shared.room (.tick d)
    rw [show (ActorPlane.step s.shared.room (.tick d)).1 = _ from hd.symm] at hstep
    exact ⟨d, hstep, not_not_intro (by cases e <;> rfl)⟩
  | start j r n es h => exact ⟨0, hidle, not_not_intro rfl⟩
  | deliver j f rest hc r hf n es h => exact ⟨0, hidle, not_not_intro rfl⟩
  | grant j pre post y hw hfree n es h => exact ⟨0, hidle, not_not_intro rfl⟩
  | reconnect j => exact ⟨0, hidle, not_not_intro rfl⟩
  | reject j => exact ⟨0, hidle, not_not_intro rfl⟩
  | restart j => exact ⟨0, hidle, not_not_intro rfl⟩
  | idle a => exact ⟨0, hidle, not_not_intro rfl⟩

/-- The epoch that a delivered claim of the queue answers. -/
theorem regained_deliver {e : Event} {j : String} {f : Flight iface (ℕ × Call)} {rest : List (Flight iface (ℕ × Call))}
    {a : Reply f.cmd} {epoch : ℚ} (hact : e.act = .deliver j) (hc : (e.pre.node j).conn = f :: rest)
    (hf : f.reply = some a) (h : inQueue f.held (leased f.cmd a) = some epoch) : (j, epoch) ∈ regained e := by
  unfold regained
  simp only [hact, hc, hf]
  exact congrArg (Option.map fun epoch => (j, epoch)) h

/-- **One step that executes nothing keeps the caches.** -/
theorem Kept.quiet {tr : List Event} {e : Event} (hs : System.Step system e.pre e.act e.out e.post) (hI : Kept tr e.pre)
    (hout : ∀ i req c a, e.out ≠ .executed i req c a) (hdelivered : Delivered e) (hcareful : Careful e)
    (hex : ∀ i, (e.post.node i).Exclusive) (i : String) :
    ∃ M, Cached i (view i tr e.pre) M (e.post.node i) := by
  obtain ⟨s, act, o, s'⟩ := e
  simp only at hs hI hout hex ⊢
  have hput : ∀ {j : String} {n : Node iface (ℕ × Call)}, (∃ M, Cached j (view j tr s) M n) →
      ∃ M, Cached i (view i tr s) M ((s.put j n).node i) := by
    intro j n hn
    rw [Cluster.put_node]
    split
    · rename_i hij
      subst hij
      exact hn
    · exact hI.nodes i
  have hfree : ∀ {j : String} {n : Node iface (ℕ × Call)}, (∀ i, ((s.put j n).node i).Exclusive) → n.Exclusive := by
    intro j n h
    have hj := h j
    rw [Cluster.put_node_self] at hj
    exact hj
  cases hs with
  | exec j trim pre post f hc hpre hf a k hx => exact absurd rfl (hout j f.req f.cmd a)
  | start j r n es h =>
    obtain ⟨M, hj⟩ := hI.nodes j
    obtain ⟨x, hx, hno⟩ := exists_known (stored j s.shared.room) (s.node j)
    have hR := system_caching.start h (hj.copy hx hno)
    exact hput ⟨M, Cached.segment hj.minted hj.sent hj.answers hj.flights hj.waiters (hfree hex) hx hR⟩
  | deliver j f rest hc a hf n es h =>
    obtain ⟨M, hj⟩ := hI.nodes j
    have hsent := hj.sent
    have hans := hj.answers
    have hprog := hj.flights
    rw [hc] at hsent hans hprog
    obtain ⟨M', hle, hM', hset, hrest⟩ := hans a hf
    obtain ⟨x₀, hx₀, hf₀⟩ := hprog f List.mem_cons_self
    obtain ⟨x, hx, hno⟩ := exists_known (stored j s.shared.room) { s.node j with conn := rest }
    have hresumes : Resumes ⟨x, M'⟩ (s.node j).loc.owned f.held f.cmd a := by
      refine hj.resumes hc hle hset hx hno fun epoch hepoch entry he hne l hl => ?_
      exact hcareful.copies (j, epoch) (regained_deliver rfl hc hf hepoch) entry he hne (epoch, l) hl rfl
    refine hput ⟨M', Cached.segment (n := { s.node j with conn := rest }) hM'
      (fun g hg => hsent g (List.mem_cons_of_mem _ hg)) hrest (fun g hg => ?_) (fun y hy => ?_) (hfree hex) hx
      (hf₀.deliver h (hx₀.trans hle) hresumes)⟩
    · obtain ⟨y₀, hy₀, hg₀⟩ := hprog g (List.mem_cons_of_mem _ hg)
      exact ⟨y₀, hy₀.trans hle, hg₀⟩
    · obtain ⟨y₀, hy₀, hg₀⟩ := hj.waiters y hy
      exact ⟨y₀, hy₀.trans hle, hg₀⟩
  | grant j pre post y hw hlane n es h =>
    obtain ⟨M, hj⟩ := hI.nodes j
    have hprog := hj.waiters
    rw [hw] at hprog
    obtain ⟨x₀, hx₀, hy₀⟩ := hprog y (List.mem_append_right _ List.mem_cons_self)
    obtain ⟨x, hx, hno⟩ := exists_known (stored j s.shared.room) (s.node j)
    refine hput ⟨M, Cached.segment (n := { s.node j with waiting := pre ++ post }) hj.minted hj.sent hj.answers hj.flights
      (fun z hz => hprog z ?_) (hfree hex) hx (hy₀.grant h hx₀ (hj.copy hx hno))⟩
    rcases List.mem_append.mp hz with hz | hz
    · exact List.mem_append_left _ hz
    · exact List.mem_append_right _ (List.mem_cons_of_mem _ hz)
  | reconnect j =>
    -- nothing that was executed is unanswered, so the connection is as it was
    have hsame : (s.node j).conn.map Flight.resend = (s.node j).conn := by
      refine (List.map_congr_left fun f hf => ?_).trans (List.map_id _)
      have hnone : f.reply = none := Option.isNone_iff_eq_none.mp (hdelivered.reconnections j rfl f hf)
      obtain ⟨req, held, cmd, reply, rest⟩ := f
      simp only at hnone
      subst hnone
      rfl
    rw [hsame]
    exact hput (hI.nodes j)
  | reject j =>
    have hempty : (s.node j).conn = [] := hdelivered.rejections j rfl
    rw [← hempty]
    exact hput (hI.nodes j)
  | restart j => exact hput ⟨∅, cached_idle j _⟩
  | env e => exact hI.nodes i
  | idle a => exact hI.nodes i

/-- An event executes a command, or none. -/
theorem executes_or (o : Obs iface String (ℕ × Call)) :
    (∃ i req c a, o = .executed i req c a) ∨ ∀ i req c a, o ≠ .executed i req c a := by
  cases o with
  | executed i req c a => exact Or.inl ⟨i, req, c, a, rfl⟩
  | sent i es => exact Or.inr fun _ _ _ _ h => by cases h
  | nothing => exact Or.inr fun _ _ _ _ h => by cases h

/-- A step that executes a command keeps the caches. -/
theorem Kept.executed {tr : List Event} {e : Event} (hs : System.Step system e.pre e.act e.out e.post)
    (hI : Kept tr e.pre) {i : String} {req : ℕ × Call} {c : Cmd} {r : Reply c} (hout : e.out = .executed i req c r)
    (hcareful : Careful e) (hnodup : (mints (tr ++ [e])).Nodup) :
    (∀ lease, e.post.shared.room.leaseNow = some lease → lease.epoch ∈ mints (tr ++ [e])) ∧
    ∀ i, ∃ M, Cached i (view i (tr ++ [e]) e.post) M (e.post.node i) := by
  obtain ⟨s, act, o, s'⟩ := e
  simp only at hs hI hout ⊢
  cases hs with
  | exec j trim pre post f hc hpre hf a k hx =>
    obtain ⟨hlease, hnodes⟩ := Kept.exec hcareful hnodup hI hc hf hx rfl
    refine ⟨hlease, fun i => ?_⟩
    rw [Cluster.put_node]
    exact hnodes i
  | start => cases hout
  | deliver => cases hout
  | grant => cases hout
  | reconnect => cases hout
  | reject => cases hout
  | restart => cases hout
  | env => cases hout
  | idle => cases hout

/-- **One step of a careful run.** -/
theorem Kept.step {tr : List Event} {s : State} {a : Action} (hI : Kept tr s)
    (hdelivered : Delivered (system.machine.event s a)) (hcareful : Careful (system.machine.event s a))
    (hnodup : (mints (tr ++ [system.machine.event s a])).Nodup) :
    Kept (tr ++ [system.machine.event s a]) (system.machine.step s a).1 := by
  have hs := system.event_cases s a
  have hlanes : ∀ i, ((system.machine.step s a).1.node i).Exclusive := System.exclusive_step hs hI.lanes
  have horder := System.sequential_step hs hI.order
  rcases executes_or (system.machine.event s a).out with ⟨i, req, c, r, hout⟩ | hout
  · obtain ⟨hlease, hnodes⟩ := Kept.executed hs hI hout hcareful hnodup
    exact ⟨hlanes, horder, hlease, hnodes⟩
  · obtain ⟨d, hstep, hsaves⟩ := keys_quiet hs hout
    have hmint : ∀ j, ActorPlane.Op.tick d = .claim j → s.shared.room.leaseNow = none →
        mints? (system.machine.event s a) = some (s.shared.room.now : ℚ) := fun j h => by cases h
    refine ⟨hlanes, horder, lease_keep hstep hmint hI.lease, fun i => ?_⟩
    obtain ⟨M, hi⟩ := Kept.quiet hs hI hout hdelivered hcareful hlanes i
    exact ⟨M, (fades_keep hstep hmint hnodup hsaves i).cached hi⟩

/-- **A careful run keeps the caches.** -/
theorem kept_run (as : List Action) (hdelivered : ∀ e ∈ system.machine.trace as, Delivered e)
    (hmints : (mints (system.machine.trace as)).Nodup) (hcareful : ∀ e ∈ system.machine.trace as, Careful e) :
    Kept (system.machine.trace as) (system.machine.run as) := by
  refine system.machine.invariant_under (C := fun tr => (∀ e ∈ tr, Delivered e) ∧ (mints tr).Nodup ∧
    ∀ e ∈ tr, Careful e) (I := Kept) ?_ ?_ ?_ as ⟨hdelivered, hmints, hcareful⟩
  · rintro tr e ⟨hd, hm, hc⟩
    rw [mints_snoc] at hm
    exact ⟨Machine.forall_mem_of_snoc hd, (List.nodup_append.mp hm).1, Machine.forall_mem_of_snoc hc⟩
  · refine ⟨fun _ => List.Pairwise.nil, fun _ => List.Pairwise.nil, fun lease h => ?_, fun i => ⟨∅, cached_idle i _⟩⟩
    cases h
  · rintro tr s a ⟨hd, hm, hc⟩ hI
    exact hI.step (Machine.last_of_snoc hd) (Machine.last_of_snoc hc) hm

/-! ## Coherence -/

/-- The instance has nothing of the room in flight. -/
def Idle (n : Node iface (ℕ × Call)) : Prop := n.conn = [] ∧ n.waiting = []

/-- While an instance has nothing in flight, its copy under the lease that it holds is the stored timeline. -/
def CoherentAt (s : State) (i : String) : Prop :=
  Idle (s.node i) → ∀ entry ∈ (s.node i).loc.owned, s.shared.room.leaseNow = some ⟨i, entry.fence⟩ →
    ∀ w ∈ s.shared.room.loadTl, entry.timeline = w.toTimeline

/-- A control that the commit script accepts: what was computed from the copy, and what is stored. -/
structure Accepted where
  req : ControlReq
  serverNow : ℚ
  next : Draft
  new : Timeline

def accepted (e : Event) : Option Accepted :=
  match e.out with
  | .executed _ (_, .applyControl req serverNow) (.actorCommit _ _ next _ _) (some ⟨new, none⟩) =>
    some ⟨req, serverNow, next, new⟩
  | _ => none

/-- A control projected from the stored timeline `w`: a seek keeps its play state, a position command its video. -/
def Accepted.FromStored (c : Accepted) (w : TlHash) : Prop :=
  c.next = WatchParty.applyControl w.toTimeline c.req.intent c.req.mediaTime c.serverNow c.req.byUser c.req.videoId ∧
  (c.req.intent = .seek → c.new.isPlaying = w.isPlaying) ∧
  (c.req.intent ≠ .setVideo → c.new.videoId = w.toTimeline.videoId)

/-- An accepted control is projected from the stored predecessor. -/
def Projected (e : Event) : Prop := ∀ c ∈ accepted e, ∀ w ∈ e.pre.shared.room.loadTl, c.FromStored w

theorem accepted_eq_some {e : Event} {c : Accepted} (h : c ∈ accepted e) :
    ∃ i n j fence cmdId forVideoId, e.out = .executed i (n, .applyControl c.req c.serverNow)
      (.actorCommit j fence c.next cmdId forVideoId) (some ⟨c.new, none⟩) := by
  unfold accepted at h
  split at h
  · rename_i i n req serverNow j fence next cmdId forVideoId new hout
    cases h
    exact ⟨i, n, j, fence, cmdId, forVideoId, hout⟩
  · cases h

/-- What a control keeps that is projected from a stored timeline. -/
theorem fromStored_committed {c : Accepted} {w : TlHash} {j : String} {fence : ℚ} {cmdId : Option String}
    {forVideoId : Option (Option String)} {σ : Room}
    (hnext : c.next = WatchParty.applyControl w.toTimeline c.req.intent c.req.mediaTime c.serverNow c.req.byUser
      c.req.videoId) (hnew : c.new = (ActorPlane.committedHash j fence c.next cmdId forVideoId σ).toTimeline) :
    c.FromStored w := by
  refine ⟨hnext, fun hseek => ?_, fun hvideo => ?_⟩
  · rw [hnew, hnext, hseek]
    rfl
  · have hkept : c.next.videoId = nullOf w.videoId := by
      rw [hnext]
      cases hi : c.req.intent with
      | play => rfl
      | pause => rfl
      | seek => rfl
      | setVideo => exact absurd hi hvideo
    rw [hnew]
    show nullOf (textOf c.next.videoId) = nullOf w.videoId
    rw [hkept, textOf_nullOf]

/-- **When an owner's cache is coherent.** In a run that loses no reply, mints no epoch twice and is careful, an instance
with nothing in flight that holds the lease of its copy has the stored timeline, and every accepted control was projected
from the stored predecessor. -/
theorem cache_coherent (as : List Action) (hdelivered : ∀ e ∈ system.machine.trace as, Delivered e)
    (hmints : (mints (system.machine.trace as)).Nodup) (hcareful : ∀ e ∈ system.machine.trace as, Careful e) :
    (∀ i, CoherentAt (system.machine.run as) i) ∧
    ∀ a, Projected (system.machine.event (system.machine.run as) a) := by
  have hI := kept_run as hdelivered hmints hcareful
  constructor
  · rintro i ⟨hconn, -⟩ entry he hlease w hw
    obtain ⟨M, hi⟩ := hI.nodes i
    have hno : NoCommit ((system.machine.run as).node i) := fun f hf => by
      rw [hconn] at hf
      exact absurd hf List.not_mem_nil
    exact (hi.owned hno entry he).2 _ (stored_eq_some.mpr ⟨hlease, w, hw, rfl⟩)
  · intro a c hc w hw
    obtain ⟨i, n, j, fence, cmdId, forVideoId, hout⟩ := accepted_eq_some hc
    obtain ⟨trim, pre, post, held, rest, hconn, hx⟩ := System.Step.executed (system.event_cases _ _) hout
    obtain ⟨hh, hnew⟩ := answer_committed hx
    obtain ⟨M, hi⟩ := hI.nodes i
    obtain ⟨rfl, -, -, hnext⟩ := hi.sent _ (hconn ▸ List.mem_append_right _ List.mem_cons_self)
    exact fromStored_committed (hnext rfl _ (stored_eq_some.mpr ⟨hh, w, hw, rfl⟩)) hnew

/-! ## Runs -/

instance (n : Node iface (ℕ × Call)) : Decidable (Idle n) := inferInstanceAs (Decidable (_ = [] ∧ _ = []))

instance (s : State) (i : String) : Decidable (CoherentAt s i) :=
  inferInstanceAs (Decidable (_ → ∀ entry ∈ (s.node i).loc.owned, _ → ∀ w ∈ s.shared.room.loadTl, _))

instance (c : Accepted) (w : TlHash) : Decidable (c.FromStored w) := inferInstanceAs (Decidable (_ ∧ _ ∧ _))

instance : DecidablePred Projected := fun e =>
  inferInstanceAs (Decidable (∀ c ∈ accepted e, ∀ w ∈ e.pre.shared.room.loadTl, _))

instance : DecidablePred Delivered := fun e =>
  decidable_of_iff ((∀ i ∈ rejected e, (e.pre.node i).conn = []) ∧
    ∀ i ∈ reconnected e, ∀ f ∈ (e.pre.node i).conn, f.reply.isNone = true) ⟨fun h => ⟨h.1, h.2⟩, fun h => ⟨h.1, h.2⟩⟩

instance (f : Flight iface (ℕ × Call)) (b : Bool) : Decidable (Excused f.held b f.cmd) :=
  match f.cmd with
  | .actorInit _ _ _ _ => inferInstanceAs (Decidable (b = true))
  | .hgetall => inferInstanceAs (Decidable (Lane.queue ∉ (show List Lane from f.held)))
  | .actorClaim _ => inferInstanceAs (Decidable False)
  | .actorReclaim _ _ => inferInstanceAs (Decidable False)
  | .actorCommit _ _ _ _ _ => inferInstanceAs (Decidable False)
  | .del => inferInstanceAs (Decidable False)
  | .publish _ _ => inferInstanceAs (Decidable False)

instance (fence : ℚ) (n : Node iface (ℕ × Call)) : Decidable (Unkept fence n) :=
  decidable_of_iff ((∀ entry ∈ n.loc.owned, entry.fence ≠ fence) ∧
    (∀ f ∈ n.conn, Excused f.held false f.cmd ∨ underway f = none) ∧
    ∀ f ∈ n.conn, Cmd.commitFence f.cmd ≠ some fence) ⟨fun h => ⟨h.1, h.2.1, h.2.2⟩, fun h => ⟨h.1, h.2, h.3⟩⟩

instance : DecidablePred Careful := fun e =>
  decidable_of_iff ((∀ c ∈ creator e, Lua.Holds c.1 c.2 e.pre.shared.room →
      ∀ w ∈ e.pre.shared.room.loadTl, w.byUser = "") ∧
    (∀ c ∈ regained e, ∀ entry ∈ (e.pre.node c.1).loc.owned, entry.fence ≠ c.2 →
      ∀ l ∈ stored c.1 e.pre.shared.room, l.1 = c.2 → entry.timeline = l.2) ∧
    ∀ c ∈ creator e, Writes e → Unkept c.2 (e.pre.node c.1))
    ⟨fun h => ⟨h.1, h.2.1, h.2.2⟩, fun h => ⟨h.1, h.2, h.3⟩⟩

/-- A room that is created and played. -/
theorem cache_coherent_playing : (∀ i, CoherentAt (system.machine.run playingRoom) i) ∧
    ∀ a, Projected (system.machine.event (system.machine.run playingRoom) a) :=
  cache_coherent playingRoom (by decide +kernel) (by decide +kernel) (by decide +kernel)

/-- Two calls of `init` on one instance; a control is played between the first and the second script. -/
def initsAroundPlay : List Action :=
  [.start "a" (1, .init (some "v") 30 0), .exec "a" 0, .deliver "a", .start "a" (2, .init (some "v") 30 0),
    .exec "a" 0, .exec "a" 0, .deliver "a", .exec "a" 0, .deliver "a", .deliver "a",
    .start "a" (3, .applyControl playAt30 0), .grant "a" Lane.queue, .exec "a" 0, .deliver "a", .exec "a" 0,
    .exec "a" 0, .deliver "a", .deliver "a"]

def seekTo10 : ControlReq :=
  { intent := .seek, mediaTime := 10, byUser := "s", cmdId := some "d", originSocketId := none, videoId := none,
    forVideoId := none }

/-- Instance `a` creates the room, but receives the reply only after `b` has taken the room over and played it, and
after its own seek has claimed the lease again. -/
def seekAfterTakeover : List Action :=
  [.start "a" (1, .init (some "v") 30 0), .exec "a" 0, .deliver "a", .exec "a" 0, .deliver "a", .exec "a" 0,
    .start "a" (2, .applyControl seekTo10 0), .grant "a" Lane.queue, .env (.tick LEASE_TTL_MS),
    .start "b" (3, .applyControl playAt30 0), .grant "b" Lane.queue, .exec "b" 0, .deliver "b", .exec "b" 0,
    .deliver "b", .exec "b" 0, .deliver "b", .env (.tick LEASE_TTL_MS), .exec "a" 0, .deliver "a", .deliver "a"]

/-- **An owner's cache can be stale.** After two calls of `init` around a play the copy lacks the author of what is
stored; and a seek that claimed after its room was played elsewhere is projected from the copy that an earlier `init`
left, and stops the room. -/
theorem cache_stale :
    (¬∀ as, (∀ e ∈ system.machine.trace as, Delivered e) → (mints (system.machine.trace as)).Nodup →
      ∀ i, CoherentAt (system.machine.run as) i) ∧
    ¬∀ as, (∀ e ∈ system.machine.trace as, Delivered e) → (mints (system.machine.trace as)).Nodup →
      ∀ a, Projected (system.machine.event (system.machine.run as) a) := by
  constructor
  · intro h
    have hcoherent := h initsAroundPlay (by decide +kernel) (by decide +kernel) "a"
    exact absurd hcoherent (by decide +kernel)
  · intro h
    have hprojected := h seekAfterTakeover (by decide +kernel) (by decide +kernel) (.exec "a" 0)
    exact absurd hprojected (by decide +kernel)

end Cache
end ActorRoomStateStore
end WatchParty
