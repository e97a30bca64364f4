import WatchParty.Lib.Remembered
import WatchParty.Shared.Plane

/-!
# Commands on the shared-script plane

Over every run a command commits at most once while its dedup record lives, `duplicate` is answered only for a
command that did commit, and a refused command leaves everything as it was.

- `deduped`: the dedup records remember the commands that committed;
- `fenced_retry`: what a refused command needs to commit is that the room's video is set back;
- `at_most_once`: the whole.
-/

namespace WatchParty
namespace Plane

/-- The command an event committed, and when. -/
def commandCommit (e : Event) : Option (String × ℕ) :=
  match e.act, e.out with
  | .applyControl req _, .outcome (.committed _) =>
    if textOf req.cmdId ≠ "" then some (textOf req.cmdId, e.pre.now) else none
  | _, _ => none

/-- The commands a run committed, oldest first. -/
def commandCommits (tr : List Event) : List (String × ℕ) := tr.filterMap commandCommit

/-- The event answers `duplicate` for command `c`. -/
def Duplicates (c : String) (e : Event) : Prop :=
  ∃ req trim tl, e.act = .applyControl req trim ∧ req.cmdId = some c ∧ e.out = .outcome (.duplicate tl)

@[simp] theorem commandCommits_snoc (tr : List Event) (e : Event) :
    commandCommits (tr ++ [e]) = commandCommits tr ++ (commandCommit e).toList := by
  cases h : commandCommit e <;> simp [commandCommits, h]

/-- The dedup records remember the committed commands. -/
def Deduped (tr : List Event) (σ : Room) : Prop :=
  Remembered CMD_DEDUP_TTL_MS (commandCommits tr) σ.cmd σ.now

theorem Deduped.keep {tr : List Event} {σ σ' : Room} (hI : Deduped tr σ) (e : Event) (he : commandCommit e = none)
    (hc : σ'.cmd = σ.cmd) (hnow : σ.now ≤ σ'.now) : Deduped (tr ++ [e]) σ' := by
  unfold Deduped
  rw [commandCommits_snoc, he, Option.toList_none, List.append_nil, hc]
  exact hI.wait hnow

/-- **One operation keeps the memory of commands.** -/
theorem Deduped.step {tr : List Event} {e : Event} (hs : Step e.pre e.act e.out e.post) (hI : Deduped tr e.pre) :
    Deduped (tr ++ [e]) e.post := by
  obtain ⟨pre, act, out, post⟩ := e
  simp only at hs hI ⊢
  cases hs with
  | control req trim tl new h hr hf hnew =>
    by_cases hid : textOf req.cmdId = ""
    · refine hI.keep _ (by simp [commandCommit, hid]) ?_ (by simp)
      simp [Lua.record, RedisRoomStateStore.controlArgs, hid]
    · have hnone : (pre.cmd (textOf req.cmdId)).get pre.now = none := by
        by_contra hsome
        exact hr ⟨hid, Option.isSome_iff_ne_none.mpr hsome⟩
      have hrec := Remembered.record hI hnone (tl.seq + 1)
      unfold Deduped
      rw [commandCommits_snoc]
      simpa [commandCommit, Lua.record, RedisRoomStateStore.controlArgs, hid, Room.setCmd] using hrec
  | tick d => exact hI.keep _ rfl rfl (Nat.le_add_right _ _)
  | read tl h => exact hI.keep _ rfl rfl le_rfl
  | missing req trim h => exact hI.keep _ rfl rfl le_rfl
  | duplicate req trim tl h hr => exact hI.keep _ rfl rfl le_rfl
  | fenced req trim tl h hr hf => exact hI.keep _ rfl rfl le_rfl
  | idle trim tl h => exact hI.keep _ rfl rfl le_rfl
  | snapshot trim tl new h hp window hnew => exact hI.keep _ rfl rfl le_rfl
  | found videoId mediaTime trim tl h => exact hI.keep _ rfl rfl le_rfl
  | birth videoId mediaTime trim new h hnew => exact hI.keep _ rfl rfl le_rfl
  | clear => exact hI.keep _ rfl rfl le_rfl

/-- **The dedup records remember the committed commands, in every run.** -/
theorem deduped (ops : List Op) : Deduped (machine.trace ops) (machine.run ops) :=
  machine.invariant (Remembered.start _ _) (fun _ _ _ hI => hI.step (event_cases _ _)) ops

/-- A command answered `duplicate` committed, less than the record's time to live ago. -/
theorem Deduped.committed_of_duplicate {tr : List Event} {σ : Room} {op : Op} {c : String} (hI : Deduped tr σ)
    (hd : Duplicates c (machine.event σ op)) :
    ∃ p ∈ commandCommits tr, p.1 = c ∧ σ.now < p.2 + CMD_DEDUP_TTL_MS := by
  obtain ⟨req, trim, tl, hact, hcmd, hout⟩ := hd
  have hc := event_cases σ op
  rw [hout] at hc
  simp only [Machine.event_act] at hact
  subst hact
  generalize (machine.event σ (.applyControl req trim)).post = post at *
  cases hc with
  | duplicate _ _ tl' h hr =>
    obtain ⟨hid, hsome⟩ := hr
    obtain ⟨n, hn⟩ := Option.isSome_iff_exists.mp hsome
    obtain ⟨p, hp, hpc, hlt⟩ := hI.origin_of_get hn
    refine ⟨p, hp, ?_, hlt⟩
    rw [hpc]
    simp [RedisRoomStateStore.controlArgs, textOf, hcmd]

/-- An event that answers `fenced` found a timeline of another video and wrote nothing. -/
theorem fenced_cases {σ : Room} {req : ControlReq} {trim : ℕ} {tl : Timeline}
    (ho : (machine.event σ (.applyControl req trim)).out = .outcome (.fenced tl)) :
    (machine.event σ (.applyControl req trim)).post = σ ∧
    ¬Lua.Recorded (RedisRoomStateStore.controlArgs req) σ ∧ σ.loadTl ≠ none ∧ req.forVideoId.isSome := by
  have hc := event_cases σ (.applyControl req trim)
  rw [ho] at hc
  generalize (machine.event σ (.applyControl req trim)).post = post at *
  cases hc with
  | fenced _ _ w h hr hf => exact ⟨rfl, hr, by simp [h], hf.1⟩

/-- The room's video set to `v` by a command without an id. -/
def setVideoTo (v : Option String) : ControlReq :=
  { intent := .setVideo, mediaTime := 0, byUser := "", cmdId := none, originSocketId := none, videoId := some v,
    forVideoId := none }

/-- **A refused command can still commit**: it does once the room's video is the one it was issued against. -/
theorem fenced_retry {σ : Room} {req : ControlReq} {trim : ℕ} {tl : Timeline}
    (ho : (machine.event σ (.applyControl req trim)).out = .outcome (.fenced tl)) :
    ∃ tl', (machine.step (machine.step σ (.applyControl (setVideoTo req.forVideoId.join) 0)).1
      (.applyControl req trim)).2 = .outcome (.committed tl') := by
  obtain ⟨-, hr, hl, hf⟩ := fenced_cases ho
  obtain ⟨w, hw⟩ := Option.ne_none_iff_exists'.mp hl
  have h1 : ∃ σ', (machine.step σ (.applyControl (setVideoTo req.forVideoId.join) 0)).1 = σ' ∧
      σ'.now = σ.now ∧ σ'.cmd = σ.cmd ∧ ∃ x, σ'.loadTl = some x ∧ x.videoId = textOf req.forVideoId.join := by
    refine ⟨_, rfl, ?_⟩
    rcases Lua.applyControl_cases (RedisRoomStateStore.controlArgs (setVideoTo req.forVideoId.join)) 0 σ with
      ⟨h, he⟩ | ⟨x, h, ⟨hr', he⟩ | ⟨hr', hf', he⟩ | ⟨hr', hf', he⟩⟩
    · exact absurd h hl
    · exact absurd rfl hr'.1
    · exact absurd rfl hf'.2.1
    · simp only [machine, step, RedisRoomStateStore.applyControl, he]
      exact ⟨by simp, rfl, Lua.controlled (RedisRoomStateStore.controlArgs (setVideoTo req.forVideoId.join)) σ.now x,
        by simp, rfl⟩
  obtain ⟨σ', h1, hnow, hcmd, x, hx, hv⟩ := h1
  rw [h1]
  rcases Lua.applyControl_cases (RedisRoomStateStore.controlArgs req) trim σ' with
    ⟨h, he⟩ | ⟨y, h, ⟨hr', he⟩ | ⟨hr', hf', he⟩ | ⟨hr', hf', he⟩⟩
  · rw [hx] at h; cases h
  · refine absurd ?_ hr
    simpa only [Lua.Recorded, Room.getCmd, hnow, hcmd] using hr'
  · rw [hx] at h
    cases h
    exact absurd hv hf'.2.2
  · exact ⟨(Lua.controlled (RedisRoomStateStore.controlArgs req) σ'.now y).toTimeline, by
      simp only [machine, step, RedisRoomStateStore.applyControl, he]
      rfl⟩

/-- A control with a fence that commits a position found the video it was issued against. -/
theorem video_of_committed {σ : Room} {req : ControlReq} {trim : ℕ} {v : Option String} {tl : Timeline}
    (hi : req.intent ≠ .setVideo) (hv : req.forVideoId = some v)
    (ho : (machine.event σ (.applyControl req trim)).out = .outcome (.committed tl)) :
    ∃ w, σ.loadTl = some w ∧ w.videoId = textOf v := by
  have hc := event_cases σ (.applyControl req trim)
  rw [ho] at hc
  generalize (machine.event σ (.applyControl req trim)).post = post at *
  cases hc with
  | control _ _ w new h hr hf hnew =>
    refine ⟨w, h, ?_⟩
    by_contra hne
    refine hf ⟨by simp [RedisRoomStateStore.controlArgs, hv], hi, ?_⟩
    simpa [RedisRoomStateStore.controlArgs, hv] using hne

/-- **At most once.** In every run of the plane
- two commits of one command are at least the record's time to live apart;
- a command answered `duplicate` committed earlier, less than the record's time to live ago;
- an event that answers `fenced` leaves every key as it was, and the command commits when it is delivered again after
  the room's video has been set back;
- a play, pause or seek that carries a fence commits only over a timeline of the video of the fence. -/
theorem at_most_once (ops : List Op) :
    (commandCommits (machine.trace ops)).Pairwise (fun p q => p.1 = q.1 → p.2 + CMD_DEDUP_TTL_MS ≤ q.2) ∧
    (∀ tr e tr' c, machine.trace ops = tr ++ e :: tr' → Duplicates c e →
      ∃ p ∈ commandCommits tr, p.1 = c ∧ e.pre.now < p.2 + CMD_DEDUP_TTL_MS) ∧
    (∀ e ∈ machine.trace ops, ∀ req trim tl, e.act = .applyControl req trim → e.out = .outcome (.fenced tl) →
      e.post = e.pre ∧ ∃ more tl', (machine.step (machine.runFrom e.post more) e.act).2 = .outcome (.committed tl')) ∧
    ∀ e ∈ machine.trace ops, ∀ req trim v tl, e.act = .applyControl req trim → e.out = .outcome (.committed tl) →
      req.intent ≠ .setVideo → req.forVideoId = some v →
      ∃ stored, e.pre.loadTl = some stored ∧ stored.videoId = textOf v := by
  refine ⟨(deduped ops).apart, fun tr e tr' c h hd => ?_, fun e he req trim tl ha ho => ?_,
    fun e he req trim v tl ha ho hi hv => ?_⟩
  · obtain ⟨as, b, -, -, rfl, rfl, -⟩ := machine.trace_split h
    exact (deduped as).committed_of_duplicate hd
  · obtain ⟨bs, a, -, rfl⟩ := machine.mem_trace he
    simp only [Machine.event_act] at ha
    subst ha
    have hpost := (fenced_cases ho).1
    refine ⟨hpost, [.applyControl (setVideoTo req.forVideoId.join) 0], ?_⟩
    obtain ⟨tl', h⟩ := fenced_retry ho
    rw [hpost]
    exact ⟨tl', h⟩
  · obtain ⟨bs, a, -, rfl⟩ := machine.mem_trace he
    simp only [Machine.event_act] at ha
    subst ha
    exact video_of_committed hi hv ho

end Plane
end WatchParty
