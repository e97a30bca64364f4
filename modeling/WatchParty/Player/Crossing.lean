import WatchParty.Player.Client
import WatchParty.Shared.Dedup

/-!
# Positions and the switch of the video

A command names the video of the engine's timeline, and the store commits it only over that video. Its position comes
from the render, and from the player, which may still be those of another video.

- `Sent.Shows` is what a client saw when it sent a command, `NoCrossing` the property;
- `Aligned` is the condition on a gesture, `Fenced` what every run keeps;
- `no_position_crosses` is the result; `position_crosses` are two runs in which a position of one video moves another.
-/

namespace WatchParty
namespace Player

section Crossing

variable {C Src : Type} [DecidableEq C] [DecidableEq Src] (classify : String → Option Src) (user : C → String)

/-- What the client saw was of this video: the status that the position was computed from, the player whose duration it
has, and the player of that moment. -/
structure Sent.Shows (k : Sent Src) (video : Option String) : Prop where
  status : k.view.status.timeline.map (fun tl => tl.videoId) = some video
  measured : k.view.status.player.map Mount.source = classify (textOf video)
  player : k.player.map Mount.source = classify (textOf video)

instance (k : Sent Src) (video : Option String) : Decidable (k.Shows classify video) :=
  decidable_of_iff
    (k.view.status.timeline.map (fun tl => tl.videoId) = some video ∧
      k.view.status.player.map Mount.source = classify (textOf video) ∧
      k.player.map Mount.source = classify (textOf video))
    ⟨fun ⟨h1, h2, h3⟩ => ⟨h1, h2, h3⟩, fun h => ⟨h.status, h.measured, h.player⟩⟩

/-- The command of a client that an event commits, and the video that the room shows. -/
def committed? (e : Event C Src) : Option (Sent Src × Option String) :=
  match e.act, e.out with
  | .apply n _, some (.outcome (.committed _)) =>
    (e.pre.sent[n]?).bind fun k => (RedisRoomStateStore.get e.pre.room).map fun tl => (k, tl.videoId)
  | _, _ => none

/-- **No position crosses a video switch.** Every command of a client that commits was sent by a client that saw the
video that the room shows. -/
def NoCrossing (ops : List (Action C)) : Prop :=
  ∀ e ∈ (machine classify user).trace ops, ∀ q ∈ committed? e, q.1.Shows classify q.2

instance (ops : List (Action C)) : Decidable (NoCrossing classify user ops) := by
  unfold NoCrossing
  infer_instance

/-- A gesture that sends a command is made when the engine has a timeline, and what is shown is of its video. -/
def Aligned (e : Event C Src) : Prop :=
  match e.act with
  | .gesture c g cmdId playerTime =>
    ∀ k ∈ sends classify user e.pre c g cmdId playerTime,
      ∃ tl ∈ (e.pre.client c).timeline, k.Shows classify tl.videoId
  | _ => True

instance (e : Event C Src) : Decidable (Aligned classify user e) := by
  unfold Aligned
  split <;> infer_instance

/-- What every run keeps: no timeline and no fence has an empty text for its video, and no gesture changes the video. -/
structure Fenced (s : Party C Src) : Prop where
  answered : ∀ tl ∈ s.answered, tl.videoId ≠ some ""
  held : ∀ c, ∀ tl ∈ (s.client c).timeline, tl.videoId ≠ some ""
  sent : ∀ k ∈ s.sent, k.req.intent ≠ .setVideo ∧ ∀ video, k.req.forVideoId = some video → video ≠ some ""

end Crossing

section Steps

variable {C Src : Type} {classify : String → Option Src} {user : C → String}

/-- The store answers timelines that it has stored. -/
theorem carried_stored {σ σ' : Room} {op : Plane.Op} {o : Plane.Out} (h : Plane.Step σ op o σ') {tl : Timeline}
    (hc : o.carried = some tl) : ∃ stored : TlHash, tl = stored.toTimeline := by
  cases h with
  | read tl' heq =>
    obtain ⟨stored, -, rfl⟩ := Option.map_eq_some_iff.mp (heq.symm.trans hc)
    exact ⟨stored, rfl⟩
  | idle trim tl' heq =>
    rcases heq with rfl | heq
    · cases hc
    · obtain ⟨stored, -, rfl⟩ := Option.map_eq_some_iff.mp (heq.symm.trans hc)
      exact ⟨stored, rfl⟩
  | missing | clear | tick => cases hc
  | duplicate req trim stored | fenced req trim stored | found videoId mediaTime trim stored =>
    cases hc
    exact ⟨stored, rfl⟩
  | control req trim stored new | snapshot trim stored new | birth videoId mediaTime trim new =>
    cases hc
    exact ⟨new, rfl⟩

/-- No gesture sends a change of the video. -/
theorem command_intent {g : Gesture} {c : Client Src} {playerTime : ℚ} {command : ControlIntent × ℚ}
    (h : g.command classify c playerTime = some command) : command.1 ≠ .setVideo := by
  have hplay : ∀ v : View Src, handlePlayPause v c.adapterRef playerTime = some command → command.1 ≠ .setVideo := by
    intro v hv
    unfold handlePlayPause at hv
    split at hv
    · cases hv
    · split at hv <;> cases hv <;> exact nofun
  have hseek : ∀ (v : View Src) (deltaS : ℚ), seekBy v deltaS = some command → command.1 ≠ .setVideo := by
    intro v deltaS hv
    unfold seekBy at hv
    split at hv <;> cases hv
    exact nofun
  unfold Gesture.command at h
  cases g with
  | playButton =>
    simp only at h
    split at h
    · exact hplay _ h
    · cases h
  | skipButton forward =>
    simp only at h
    split at h
    · exact hseek _ _ h
    · cases h
  | progressClick fraction =>
    simp only [handleProgressClick] at h
    split at h
    · split at h <;> cases h
      exact nofun
    · cases h
  | progressKey key =>
    simp only [handleProgressKeyDown] at h
    split at h
    · split at h <;> cases h
      exact nofun
    · cases h
  | playKey => exact hplay _ h
  | skipKey forward => exact hseek _ _ h

/-- What a gesture sends names the video of the engine's timeline. -/
theorem sends_fence {s : Party C Src} {c : C} {g : Gesture} {cmdId : String} {playerTime : ℚ} {k : Sent Src}
    (h : sends classify user s c g cmdId playerTime = some k) :
    k.req.intent ≠ .setVideo ∧ k.req.forVideoId = (s.client c).timeline.map fun tl => tl.videoId := by
  obtain ⟨command, hcommand, hsent⟩ := Option.bind_eq_some_iff.mp h
  obtain ⟨req, hreq, rfl⟩ := Option.map_eq_some_iff.mp hsent
  unfold sendIntent at hreq
  split at hreq
  · cases hreq
  · cases hreq
    exact ⟨command_intent hcommand, rfl⟩

/-- What happens to a client leaves the timeline of its engine, or takes it away. -/
theorem after_timeline [DecidableEq Src] (c : Client Src) (h : Happening) :
    (c.after classify h).timeline = c.timeline ∨ (c.after classify h).timeline = none := by
  cases h with
  | newEngine => exact Or.inr rfl
  | ready =>
    left
    simp only [Client.after]
    split <;> rfl
  | _ => exact Or.inl rfl

/-- An operation of the store keeps what a run keeps. -/
theorem fenced_operate {s : Party C Src} (op : Plane.Op) (hI : Fenced s) : Fenced (operate s op).1 where
  answered tl htl := by
    rcases List.mem_append.mp htl with h | h
    · exact hI.answered tl h
    · obtain ⟨stored, rfl⟩ := carried_stored (Plane.step_cases s.room op) (Option.mem_toList.mp h)
      exact nullOf_ne_empty _
  held := hI.held
  sent := hI.sent

/-- A client whose timeline has no empty text keeps what a run keeps. -/
theorem fenced_set [DecidableEq C] {s : Party C Src} {c : C} {x : Client Src}
    (hx : ∀ tl ∈ x.timeline, tl.videoId ≠ some "")
    (hI : Fenced s) : Fenced (s.set c x) where
  answered := hI.answered
  held c' tl htl := by
    have hclient : (s.set c x).client c' = if c' = c then x else s.client c' := Function.update_apply ..
    rw [hclient] at htl
    split at htl
    · exact hx tl htl
    · exact hI.held c' tl htl
  sent := hI.sent

/-- **One step** keeps it. -/
theorem fenced_step [DecidableEq C] [DecidableEq Src] (s : Party C Src) (a : Action C) (hI : Fenced s) :
    Fenced (step classify user s a).1 := by
  cases a with
  | store op => exact fenced_operate op hI
  | apply n trim =>
    simp only [step]
    split
    · exact hI
    · exact fenced_operate _ hI
  | receive c n =>
    simp only [step]
    split
    · exact hI
    · rename_i tl htl
      refine fenced_set (fun tl' htl' => ?_) hI
      unfold onTimeline at htl'
      split at htl'
      · cases htl'
        exact hI.answered tl (List.mem_of_getElem? htl)
      · exact hI.held c tl' htl'
  | client c h =>
    refine fenced_set (fun tl htl => ?_) hI
    rcases after_timeline (s.client c) h with heq | heq
    · exact hI.held c tl (heq ▸ htl)
    · rw [heq] at htl
      cases htl
  | gesture c g cmdId playerTime =>
    refine ⟨hI.answered, hI.held, fun k hk => ?_⟩
    rcases List.mem_append.mp hk with hk | hk
    · exact hI.sent k hk
    · obtain ⟨hintent, hfence⟩ := sends_fence (Option.mem_toList.mp hk)
      refine ⟨hintent, fun video hv => ?_⟩
      rw [hfence] at hv
      obtain ⟨tl, htl, rfl⟩ := Option.map_eq_some_iff.mp hv
      exact hI.held c tl htl

/-- **What the fence does.** A command that names a video commits over that video. -/
theorem committed_fence [DecidableEq C] [DecidableEq Src] {s : Party C Src} {a : Action C} (hI : Fenced s)
    {q : Sent Src × Option String} (hq : committed? ((machine classify user).event s a) = some q) :
    q.1 ∈ s.sent ∧ ∀ video, q.1.req.forVideoId = some video → q.2 = video := by
  unfold committed? at hq
  split at hq
  · rename_i n trim tl ha ho
    cases ha
    obtain ⟨k, hk, hroom⟩ := Option.bind_eq_some_iff.mp hq
    obtain ⟨tl', htl', rfl⟩ := Option.map_eq_some_iff.mp hroom
    have hmem := List.mem_of_getElem? hk
    obtain ⟨hintent, hempty⟩ := hI.sent k hmem
    refine ⟨hmem, fun video hv => ?_⟩
    have hout : (Plane.machine.event s.room (.applyControl k.req trim)).out = .outcome (.committed tl) := by
      have hk' : s.sent[n]? = some k := hk
      simp only [machine, Machine.event, step, hk', operate, Option.some.injEq] at ho
      exact ho
    obtain ⟨stored, hload, hvideo⟩ := Plane.video_of_committed hintent hv hout
    have hget : RedisRoomStateStore.get s.room = some stored.toTimeline := by
      rw [RedisRoomStateStore.get, hload]
      rfl
    obtain rfl := Option.some.inj (hget.symm.trans htl')
    rw [TlHash.toTimeline, hvideo]
    exact nullOf_textOf (hempty video hv)
  · cases hq

/-- A gesture that is aligned sends a command that names the video that its client sees. -/
theorem sends_aligned [DecidableEq Src] {s s' : Party C Src} {c : C} {g : Gesture} {cmdId : String} {playerTime : ℚ}
    {o : Option Plane.Out} (hc : Aligned classify user ⟨s, .gesture c g cmdId playerTime, o, s'⟩) {k : Sent Src}
    (h : sends classify user s c g cmdId playerTime = some k) :
    ∃ video, k.req.forVideoId = some video ∧ k.Shows classify video := by
  obtain ⟨tl, htl, hshows⟩ := hc k h
  obtain ⟨-, hfence⟩ := sends_fence h
  exact ⟨tl.videoId, by rw [hfence, htl]; rfl, hshows⟩

/-- What a run keeps whose gestures are aligned: every command that has been sent names the video that its client saw. -/
def AllAligned (classify : String → Option Src) [DecidableEq Src] (s : Party C Src) : Prop :=
  ∀ k ∈ s.sent, ∃ video, k.req.forVideoId = some video ∧ k.Shows classify video

/-- **One step** keeps it. -/
theorem aligned_step [DecidableEq C] [DecidableEq Src] (s : Party C Src) (a : Action C)
    (hc : Aligned classify user ((machine classify user).event s a)) (hI : AllAligned classify s) :
    AllAligned classify (step classify user s a).1 := by
  intro k hk
  cases a with
  | gesture c g cmdId playerTime =>
    rcases List.mem_append.mp hk with hk | hk
    · exact hI k hk
    · exact sends_aligned hc (Option.mem_toList.mp hk)
  | apply n trim =>
    simp only [step] at hk
    split at hk <;> exact hI k hk
  | receive c n =>
    simp only [step] at hk
    split at hk <;> exact hI k hk
  | store op => exact hI k hk
  | client c h => exact hI k hk

end Steps

/-- **No position crosses a video switch** in a run whose gestures are aligned, for any number of clients and any loss,
delay and repetition of timelines and commands. -/
theorem no_position_crosses {C Src : Type} [DecidableEq C] [DecidableEq Src] (classify : String → Option Src)
    (user : C → String) (ops : List (Action C))
    (h : ∀ e ∈ (machine classify user).trace ops, Aligned classify user e) : NoCrossing classify user ops := by
  intro e he q hq
  obtain ⟨as, a, hpre, rfl⟩ := (machine classify user).mem_trace he
  have hfenced : Fenced ((machine classify user).run as) :=
    (machine classify user).invariant_state
      ⟨fun _ h => absurd h List.not_mem_nil, (fun _ _ h => nomatch h), fun _ h => absurd h List.not_mem_nil⟩
      (fun s a hI => fenced_step s a hI) as
  have haligned : AllAligned classify ((machine classify user).run as) := by
    refine (machine classify user).invariant_forall (I := fun _ s => AllAligned classify s)
      (fun _ h => absurd h List.not_mem_nil) (fun tr s a hc hI => aligned_step s a hc hI) as ?_
    intro e' he'
    obtain ⟨bs, rfl⟩ := hpre
    rw [List.append_assoc, Machine.trace_append] at h
    exact h e' (List.mem_append_left _ he')
  obtain ⟨hmem, hvideo⟩ := committed_fence hfenced hq
  obtain ⟨video, hv, hshows⟩ := haligned q.1 hmem
  rw [hvideo video hv]
  exact hshows

/-- URLs of media files, each with a player of its own. -/
def mediaFile (url : String) : Option String := if url = "" then none else some url

/-- The one client is delivered a timeline, and shows it: the new player is ready before the component renders again. -/
def shows (n : ℕ) (durationS : ℚ) : List (Action Unit) :=
  [.receive () n, .client () (.tick 0 0), .client () .render, .client () .effects, .client () .ready,
    .client () .render, .client () .effects, .client () (.tick 0 durationS), .client () .render, .client () .effects]

/-- The room shows a film, paused, and so does the client. -/
def watches : List (Action Unit) :=
  [.store (.init (some "/media/a.mp4") 100 0), .client () (.props "/media/a.mp4" true)] ++ shows 0 600

/-- Someone else changes the video. -/
def switchVideo : Action Unit := .store (.applyControl (Plane.setVideoTo (some "/media/b.mp4")) 0)

/-- The user seeks in the middle of the film. -/
def seeks : List (Action Unit) := [.gesture () (.progressClick (1 / 2)) "c" 0, .apply 0 0]

/-- A seek commits. -/
theorem no_position_crosses_seek : NoCrossing mediaFile (fun _ => "ann") (watches ++ seeks) :=
  no_position_crosses mediaFile (fun _ => "ann") (watches ++ seeks) (by decide +kernel)

/-- The client is delivered the other video's timeline, and the user seeks before the next tick. -/
def seeksEarly : List (Action Unit) := watches ++ [switchVideo, .receive () 1] ++ seeks

/-- The client shows the other video, with its player, and the user presses the key for play. -/
def pressesKey : List (Action Unit) :=
  watches ++ [switchVideo] ++ shows 1 500 ++ [.gesture () .playKey "c" 0, .apply 0 0]

/-- Both commands commit over the other video: the engine's fence is newer than what the handlers close over. -/
theorem position_crosses :
    ¬NoCrossing mediaFile (fun _ => "ann") seeksEarly ∧ ¬NoCrossing mediaFile (fun _ => "ann") pressesKey := by
  decide +kernel

example : (RedisRoomStateStore.get ((machine mediaFile fun _ : Unit => "ann").run pressesKey).room).map
    (fun tl => (tl.videoId, tl.mediaTime)) = some (some "/media/b.mp4", 100) := by decide +kernel

end Player
end WatchParty
