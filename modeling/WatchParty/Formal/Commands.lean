import Mathlib.Tactic.Linarith
import WatchParty.Formal.SyncExactlyOnce
import WatchParty.Shared.Dedup

/-!
# The shared-script plane performs commands

Every run of the scripts on a room that was opened once is a behaviour of `formal/SyncExactlyOnce.tla`, where each
command is sent again with the payload it was first sent with and within the retry window. A position is counted in
milliseconds from where the room was opened, an instant from when it was. A delivery that the script commits or knows
is an issue or a retry and a delivery of the specification, after an eviction where the record ran out; one that it
refuses is no step, and neither is a sweep at the instant of the last commit.

- `handled`: the deliveries that the script commits or knows;
- `Retried`: what is asked of them;
- `specLog`: the log of the specification;
- `Performs`: a state of the specification stands for the room;
- `performs_commands`: the behaviour.
-/

namespace WatchParty
namespace Plane

open SyncExactlyOnce (Intent Entry)

/-! ## What the specification makes of a run -/

/-- The control that an event handled: the script committed it, or knew its id. -/
def handled (e : Event) : Option ControlReq :=
  match e.act, e.out with
  | .applyControl req _, .outcome (.committed _) => some req
  | .applyControl req _, .outcome (.duplicate _) => some req
  | _, _ => none

/-- The specification has no command that sets a video. -/
def specIntent : ControlIntent → Option Intent
  | .play => some .play
  | .pause => some .pause
  | .seek => some .seek
  | .setVideo => none

/-- Milliseconds from where the room was opened. -/
def specPos (p₀ x : ℚ) : ℚ := 1000 * (x - p₀)

/-- The entry of the specification's log for an event. -/
def specEntry (p₀ : ℚ) (t₀ : ℕ) (e : Event) : Option (Entry String ℚ) :=
  match e.act, e.out with
  | .applyControl req _, .outcome (.committed _) =>
    some (.cmd (textOf req.cmdId) (specIntent req.intent) (specPos p₀ req.mediaTime) (e.pre.now - t₀))
  | .applySnapshot _, _ =>
    if e.post.saves ≠ e.pre.saves ∧ e.pre.loadTl.map TlHash.stampedAt ≠ some (e.pre.now : ℚ) then
      some (.snap (e.pre.now - t₀))
    else none
  | _, _ => none

def specLog (p₀ : ℚ) (t₀ : ℕ) (tr : List Event) : List (Entry String ℚ) := tr.filterMap (specEntry p₀ t₀)

/-- What is asked of the commands of a run: each has an id and sets no video, and one that is sent again is the same
command, within the window. -/
structure Retried (window : ℕ) (tr : List Event) : Prop where
  named : ∀ e ∈ tr, ∀ req ∈ handled e, textOf req.cmdId ≠ "" ∧ req.intent ≠ .setVideo
  same : tr.Pairwise fun e e' => ∀ req ∈ handled e, ∀ req' ∈ handled e', textOf req.cmdId = textOf req'.cmdId →
    req'.intent = req.intent ∧ req'.mediaTime = req.mediaTime ∧ e'.pre.now ≤ e.pre.now + window

/-- The clients of the specification: a command was issued with the payload of a control that was handled, when it
was. -/
structure Retries (p₀ : ℚ) (t₀ : ℕ) (tr : List Event) (t : SyncExactlyOnce.State String ℚ) : Prop where
  issued : ∀ c, t.intentOf c ≠ none → ∃ e ∈ tr, ∃ req, handled e = some req ∧ textOf req.cmdId = c ∧
    t.intentOf c = specIntent req.intent ∧ t.posOf c = specPos p₀ req.mediaTime ∧ e.pre.now = t₀ + t.issuedAt c
  sends : ∀ c, t.sends c ≤ tr.length
  acked : t.acked = ∅

/-- The store of the specification: it shows what the newest hash shows, its log is the run's, and it remembers the ids
that have a record. -/
structure Stores (p₀ : ℚ) (t₀ : ℕ) (tr : List Event) (s : Room) (t : SyncExactlyOnce.State String ℚ) : Prop where
  clock : s.now = t₀ + t.now
  loaded : ∀ w, s.loadTl = some w → s.saves.getLast? = some w
  store : ∃ w, s.saves.getLast? = some w ∧ t.store = ⟨(specLog p₀ t₀ tr).length, w.isPlaying, specPos p₀ w.mediaTime,
    t.store.anchor⟩ ∧ w.stampedAt = (t₀ + t.store.anchor : ℕ)
  past : t.store.anchor ≤ t.now
  log : t.log = specLog p₀ t₀ tr
  remembered : ∀ c, c ∈ t.dedup ↔ (s.cmd c).isSome
  expiry : ∀ c r, s.cmd c = some r → r.expiresAt = t₀ + t.evictAt c
  applied : ∀ c, t.applyCount c = (commandCommits tr).countP fun p => p.1 = c

/-- A state of the specification stands for the room: no copy is on its way. -/
structure Performs (p₀ : ℚ) (t₀ : ℕ) (tr : List Event) (s : Room) (t : SyncExactlyOnce.State String ℚ) : Prop where
  clients : Retries p₀ t₀ tr t
  room : Stores p₀ t₀ tr s t
  still : t.chan = fun _ => 0

variable {p₀ : ℚ} {t₀ : ℕ} {tr : List Event} {s s' : Room} {t : SyncExactlyOnce.State String ℚ}
  {k : SyncExactlyOnce.Constants ℚ}

@[simp] theorem specLog_snoc (e : Event) :
    specLog p₀ t₀ (tr ++ [e]) = specLog p₀ t₀ tr ++ (specEntry p₀ t₀ e).toList := by
  cases h : specEntry p₀ t₀ e <;> simp [specLog, h]

/-! ## One operation -/

/-- What was issued stays issued. -/
theorem Retries.snoc (h : Retries p₀ t₀ tr t) (e : Event) : Retries p₀ t₀ (tr ++ [e]) t where
  issued c hc := by
    obtain ⟨x, hx, hrest⟩ := h.issued c hc
    exact ⟨x, List.mem_append_left _ hx, hrest⟩
  sends c := by
    have hc := h.sends c
    rw [List.length_append]
    omega
  acked := h.acked

/-- An operation that writes nothing is no step of the store. -/
theorem Stores.keep (h : Stores p₀ t₀ tr s t) {e : Event} (he : specEntry p₀ t₀ e = none)
    (hc : commandCommit e = none) (hnow : s'.now = s.now) (hcmd : s'.cmd = s.cmd) (hsaves : s'.saves = s.saves)
    (hl : ∀ w, s'.loadTl = some w → s.loadTl = some w) : Stores p₀ t₀ (tr ++ [e]) s' t where
  clock := hnow.trans h.clock
  loaded w hw := by
    rw [hsaves]
    exact h.loaded w (hl w hw)
  store := by
    simpa [he, hsaves] using h.store
  past := h.past
  log := by simpa [he] using h.log
  remembered c := by
    rw [hcmd]
    exact h.remembered c
  expiry c r hr := h.expiry c r (by rwa [hcmd] at hr)
  applied c := by simpa [hc] using h.applied c

/-- An operation that writes nothing and handles nothing is no step. -/
theorem Performs.keep (h : Performs p₀ t₀ tr s t) {e : Event} (he : specEntry p₀ t₀ e = none)
    (hc : commandCommit e = none) (hnow : s'.now = s.now) (hcmd : s'.cmd = s.cmd) (hsaves : s'.saves = s.saves)
    (hl : ∀ w, s'.loadTl = some w → s.loadTl = some w) : Performs p₀ t₀ (tr ++ [e]) s' t :=
  ⟨h.clients.snoc e, h.room.keep he hc hnow hcmd hsaves hl, h.still⟩

/-- Time passes. -/
theorem Performs.tick (h : Performs p₀ t₀ tr s t) {e : Event} (he : specEntry p₀ t₀ e = none)
    (hc : commandCommit e = none) {d : ℕ} (hbound : t.now + d ≤ k.MaxTime) :
    ∃ t', Relation.ReflTransGen (SyncExactlyOnce.Next k) t t' ∧ Performs p₀ t₀ (tr ++ [e]) (s.tick d) t' := by
  refine ⟨{ t with now := t.now + d }, ?_, h.clients.snoc e |> fun h => ⟨h.issued, h.sends, h.acked⟩, ?_, h.still⟩
  · clear h
    induction d with
    | zero => exact .refl
    | succ d ih => exact (ih (by omega)).tail (Or.inl ⟨by simp only; omega, rfl⟩)
  · have hkeep : Stores p₀ t₀ (tr ++ [e]) s t := h.room.keep he hc rfl rfl rfl fun _ => id
    refine ⟨?_, fun w hw => ?_, hkeep.store, ?_, hkeep.log, hkeep.remembered, hkeep.expiry, hkeep.applied⟩
    · have hclock := hkeep.clock
      simp only [Room.tick_now]
      omega
    · exact h.room.loaded w (Expiring.get_of_le hw (Nat.le_add_right _ _))
    · have hpast := h.room.past
      simp only
      omega

/-- A sweep at the instant of the last commit is no step: it shows what was shown. -/
theorem Performs.unmoved (h : Performs p₀ t₀ tr s t) {e : Event} (he : specEntry p₀ t₀ e = none)
    (hc : commandCommit e = none) {w : TlHash} (hw : s.loadTl = some w) (hstamp : w.stampedAt = s.now) {window : ℤ}
    {trim : ℕ} :
    Performs p₀ t₀ (tr ++ [e]) (Lua.committed (Lua.swept s.now window w) "" trim s) t := by
  refine ⟨h.clients.snoc e, ?_, h.still⟩
  have hkeep : Stores p₀ t₀ (tr ++ [e]) s t := h.room.keep he hc rfl rfl rfl fun _ => id
  refine ⟨hkeep.clock, fun x hx => ?_, ?_, hkeep.past, hkeep.log, hkeep.remembered, hkeep.expiry, hkeep.applied⟩
  · rw [Lua.committed_loadTl] at hx
    rw [Lua.committed_saves, List.getLast?_concat, hx]
  · obtain ⟨w', hw', hshow, hanchor⟩ := hkeep.store
    obtain rfl : w = w' := Option.some.inj ((h.room.loaded w hw).symm.trans hw')
    refine ⟨_, by rw [Lua.committed_saves, List.getLast?_concat], ?_, ?_⟩
    · rw [show (Lua.swept s.now window w).mediaTime = w.mediaTime by simp [Lua.swept, hstamp]]
      exact hshow
    · exact hstamp.symm.trans hanchor

/-- A sweep later than the last commit is a sweep of the specification. -/
theorem Performs.sweep (hk : k.LogSnapshots = true) (h : Performs p₀ t₀ tr s t) {e : Event}
    (he : specEntry p₀ t₀ e = some (.snap (s.now - t₀))) (hc : commandCommit e = none) {w : TlHash}
    (hw : s.loadTl = some w) (hp : w.isPlaying = true) (hstamp : w.stampedAt ≠ s.now) {window : ℤ} {trim : ℕ} :
    ∃ t', Relation.ReflTransGen (SyncExactlyOnce.Next k) t t' ∧
      Performs p₀ t₀ (tr ++ [e]) (Lua.committed (Lua.swept s.now window w) "" trim s) t' := by
  obtain ⟨w', hw', hshow, hanchor⟩ := h.room.store
  obtain rfl : w = w' := Option.some.inj ((h.room.loaded w hw).symm.trans hw')
  have hclock := h.room.clock
  have hpast := h.room.past
  have hplaying : t.store.playing = true := by rw [hshow, hp]
  have hpos : t.store.pos = specPos p₀ w.mediaTime := congrArg SyncExactlyOnce.Store.pos hshow
  have hseq : t.store.seq = (specLog p₀ t₀ tr).length := congrArg SyncExactlyOnce.Store.seq hshow
  have hne : t.store.anchor ≠ t.now := fun heq => hstamp (by rw [hanchor, heq, hclock])
  refine ⟨t.swept k.LogSnapshots, .single (Or.inr (Or.inl ⟨hplaying, hne, rfl⟩)), ?_, ?_, h.still⟩
  · exact h.clients.snoc e |> fun h => ⟨h.issued, h.sends, h.acked⟩
  · refine ⟨hclock, fun x hx => ?_, ⟨_, by rw [Lua.committed_saves, List.getLast?_concat], ?_, ?_⟩, le_rfl, ?_,
      h.room.remembered, h.room.expiry, fun c => ?_⟩
    · rw [Lua.committed_loadTl] at hx
      rw [Lua.committed_saves, List.getLast?_concat, hx]
    · have hproj : SyncExactlyOnce.Projection t.store t.now = specPos p₀ (Lua.swept s.now window w).mediaTime := by
        rw [SyncExactlyOnce.Projection, if_pos hplaying, hpos, Nat.cast_sub hpast]
        simp only [specPos, Lua.swept, hanchor, hclock]
        push_cast
        ring
      simp only [SyncExactlyOnce.State.swept, SyncExactlyOnce.Snap, hproj, hplaying, hseq, specLog_snoc, he,
        Option.toList_some, List.length_append, List.length_singleton]
      rw [show (Lua.swept s.now window w).isPlaying = true from hp]
    · simp only [SyncExactlyOnce.State.swept, SyncExactlyOnce.Snap, Lua.swept, hclock]
    · simp only [SyncExactlyOnce.State.swept, hk, if_true, specLog_snoc, he, Option.toList_some, h.room.log, hclock,
        Nat.add_sub_cancel_left]
    · simpa [hc, SyncExactlyOnce.State.swept] using h.room.applied c

/-! ## One delivery -/

/-- A command that is handled is sent: it is issued where it is new, and sent again where it is not. -/
theorem Performs.send (hpos : k.Positions = Set.univ) (h : Performs p₀ t₀ tr s t) (hs : tr.length < k.MaxSends)
    {e : Event} {req : ControlReq} (hR : Retried k.RetryWindow (tr ++ [e])) (hnow : e.pre.now = s.now)
    (hreq : handled e = some req) :
    ∃ t', SyncExactlyOnce.Next k t t' ∧ Retries p₀ t₀ (tr ++ [e]) t' ∧ Stores p₀ t₀ tr s t' ∧
      t'.chan = Function.update (fun _ => 0) (textOf req.cmdId) 1 ∧
      t'.intentOf (textOf req.cmdId) = specIntent req.intent ∧
      t'.posOf (textOf req.cmdId) = specPos p₀ req.mediaTime ∧
      t'.now ≤ t'.issuedAt (textOf req.cmdId) + k.RetryWindow := by
  have hmem : e ∈ tr ++ [e] := List.mem_append_right _ (List.mem_singleton_self e)
  have hclock := h.room.clock
  have hsends := h.clients.sends (textOf req.cmdId)
  have hchan : Function.update t.chan (textOf req.cmdId) (t.chan (textOf req.cmdId) + 1) =
      Function.update (fun _ => 0) (textOf req.cmdId) 1 := by rw [h.still]
  have hold := h.clients.snoc e
  have hcounts : ∀ c, Function.update t.sends (textOf req.cmdId) (t.sends (textOf req.cmdId) + 1) c ≤
      (tr ++ [e]).length := by
    intro c
    rw [List.length_append, List.length_singleton]
    rcases eq_or_ne c (textOf req.cmdId) with rfl | hne
    · rw [Function.update_self]
      omega
    · rw [Function.update_of_ne hne]
      have hc := h.clients.sends c
      omega
  by_cases hnew : t.intentOf (textOf req.cmdId) = none
  · obtain ⟨i, hi⟩ : ∃ i, specIntent req.intent = some i := by
      have hset := (hR.named e hmem req hreq).2
      cases hintent : req.intent with
      | setVideo => exact absurd hintent hset
      | _ => exact ⟨_, rfl⟩
    refine ⟨t.issued (textOf req.cmdId) i (specPos p₀ req.mediaTime),
      Or.inr (Or.inr ⟨_, Or.inl ⟨hnew, by omega, i, _, by rw [hpos]; trivial, rfl⟩⟩), ⟨fun c hc => ?_, hcounts, h.clients.acked⟩,
      ⟨h.room.clock, h.room.loaded, h.room.store, h.room.past, h.room.log, h.room.remembered, h.room.expiry, h.room.applied⟩,
      hchan, ?_, Function.update_self .., ?_⟩
    · simp only [SyncExactlyOnce.State.issued, SyncExactlyOnce.State.sent] at hc ⊢
      rcases eq_or_ne c (textOf req.cmdId) with rfl | hne
      · refine ⟨e, hmem, req, hreq, rfl, ?_, Function.update_self .., ?_⟩
        · rw [Function.update_self, hi]
        · rw [Function.update_self, hnow, hclock]
      · simp only [Function.update_of_ne hne] at hc ⊢
        exact hold.issued c hc
    · rw [hi]
      exact Function.update_self ..
    · simp only [SyncExactlyOnce.State.issued, SyncExactlyOnce.State.sent, Function.update_self]
      omega
  · obtain ⟨x, hx, req', hreq', hid, hintent, hposOf, hissued⟩ := h.clients.issued _ hnew
    obtain ⟨hi, hm, hw⟩ := (List.pairwise_append.mp hR.same).2.2 x hx e (List.mem_singleton_self e) req' hreq' req hreq hid
    have hwindow : t.now ≤ t.issuedAt (textOf req.cmdId) + k.RetryWindow := by omega
    refine ⟨t.sent (textOf req.cmdId),
      Or.inr (Or.inr ⟨_, Or.inr (Or.inl ⟨hnew, ?_, hwindow, by omega, rfl⟩)⟩), ⟨hold.issued, hcounts, h.clients.acked⟩,
      ⟨h.room.clock, h.room.loaded, h.room.store, h.room.past, h.room.log, h.room.remembered, h.room.expiry, h.room.applied⟩,
      hchan, ?_, ?_, hwindow⟩
    · rw [h.clients.acked]
      exact Set.notMem_empty _
    · rw [hi]
      exact hintent
    · rw [hm]
      exact hposOf

/-- No copy is left where the only one was taken. -/
theorem chan_taken {c : String} (hchan : t.chan = Function.update (fun _ => 0) c 1) : (t.taken c).chan = fun _ => 0 := by
  funext d
  simp only [SyncExactlyOnce.State.taken, hchan]
  rcases eq_or_ne d c with rfl | hne
  · rw [Function.update_self, Function.update_self]
  · rw [Function.update_of_ne hne, Function.update_of_ne hne]

/-- A command whose id is known is sent, and its copy is dropped. -/
theorem Performs.duplicate (hpos : k.Positions = Set.univ) (hd : k.DedupOn = true) (h : Performs p₀ t₀ tr s t)
    (hs : tr.length < k.MaxSends) {e : Event} {req : ControlReq} (hR : Retried k.RetryWindow (tr ++ [e]))
    (hnow : e.pre.now = s.now) (hreq : handled e = some req) (he : specEntry p₀ t₀ e = none)
    (hc : commandCommit e = none) (hr : Lua.Recorded (RedisRoomStateStore.controlArgs req) s) :
    ∃ t', Relation.ReflTransGen (SyncExactlyOnce.Next k) t t' ∧ Performs p₀ t₀ (tr ++ [e]) s t' := by
  obtain ⟨u, hnext, hclients, hroom, hchan, -, -, hwindow⟩ := h.send hpos hs hR hnow hreq
  have hknown : textOf req.cmdId ∈ u.dedup := by
    obtain ⟨v, hv⟩ := Option.isSome_iff_exists.mp hr.2
    obtain ⟨r, hr, -⟩ := Expiring.get_eq_some.mp hv
    exact (hroom.remembered _).mpr (by rw [show s.cmd (textOf req.cmdId) = some r from hr]; rfl)
  have hcopy : u.chan (textOf req.cmdId) ≥ 1 := by rw [hchan, Function.update_self]
  refine ⟨u.taken (textOf req.cmdId), (Relation.ReflTransGen.single hnext).tail (Or.inr (Or.inr
    ⟨_, Or.inr (Or.inr (Or.inr (Or.inl ⟨hcopy, hwindow, Or.inl ⟨⟨hd, hknown⟩, rfl⟩⟩)))⟩)), ?_, ?_, chan_taken hchan⟩
  · exact ⟨hclients.issued, hclients.sends, hclients.acked⟩
  · exact hroom.keep he hc rfl rfl rfl (fun _ => id) |> fun h =>
      ⟨h.clock, h.loaded, h.store, h.past, h.log, h.remembered, h.expiry, h.applied⟩

/-- A record that has run out is evicted. -/
theorem evicted (hroom : Stores p₀ t₀ tr s t) {c : String} (hnone : s.getCmd c = none) :
    Relation.ReflTransGen (SyncExactlyOnce.Next k) t { t with dedup := t.dedup \ {c} } := by
  by_cases hin : c ∈ t.dedup
  · obtain ⟨r, hr⟩ := Option.isSome_iff_exists.mp ((hroom.remembered c).mp hin)
    have hover : r.expiresAt ≤ s.now := by
      by_contra hlt
      have hget : s.getCmd c = some r.val := Expiring.get_eq_some.mpr ⟨r, hr, by omega, rfl⟩
      rw [hget] at hnone
      cases hnone
    have hexpiry := hroom.expiry c r hr
    have hclock := hroom.clock
    exact .single (Or.inr (Or.inr ⟨c, Or.inr (Or.inr (Or.inr (Or.inr (Or.inr ⟨hin, by omega, rfl⟩))))⟩))
  · rw [Set.sdiff_singleton_eq_self hin]

/-- A control does to the hash what the specification's does to its store. -/
theorem apply_controlled {req : ControlReq} {tl : TlHash} {n anchor now stamp : ℕ} (hset : req.intent ≠ .setVideo) :
    SyncExactlyOnce.Apply ⟨n, tl.isPlaying, specPos p₀ tl.mediaTime, anchor⟩ (specIntent req.intent)
      (specPos p₀ req.mediaTime) now =
      ⟨n + 1, (Lua.controlled (RedisRoomStateStore.controlArgs req) stamp tl).isPlaying,
        specPos p₀ (Lua.controlled (RedisRoomStateStore.controlArgs req) stamp tl).mediaTime, now⟩ := by
  cases hintent : req.intent with
  | setVideo => exact absurd hintent hset
  | _ => simp [SyncExactlyOnce.Apply, specIntent, Lua.controlled, RedisRoomStateStore.controlArgs, hintent]

/-- A command that is committed is sent and delivered, after an eviction where its record ran out. -/
theorem Performs.commit (hpos : k.Positions = Set.univ) (httl : k.Ttl = CMD_DEDUP_TTL_MS) (h : Performs p₀ t₀ tr s t)
    (hs : tr.length < k.MaxSends) {e : Event} {req : ControlReq} (hR : Retried k.RetryWindow (tr ++ [e]))
    (hnow : e.pre.now = s.now) (hreq : handled e = some req)
    (he : specEntry p₀ t₀ e = some (.cmd (textOf req.cmdId) (specIntent req.intent) (specPos p₀ req.mediaTime) (s.now - t₀)))
    (hc : commandCommit e = some (textOf req.cmdId, s.now)) {tl : TlHash} (hl : s.loadTl = some tl) {trim : ℕ}
    (hr : ¬Lua.Recorded (RedisRoomStateStore.controlArgs req) s) :
    ∃ t', Relation.ReflTransGen (SyncExactlyOnce.Next k) t t' ∧
      Performs p₀ t₀ (tr ++ [e]) (Lua.committed (Lua.controlled (RedisRoomStateStore.controlArgs req) s.now tl)
        (textOf req.cmdId) trim (Lua.record (RedisRoomStateStore.controlArgs req) tl s)) t' := by
  obtain ⟨hid, hset⟩ := hR.named e (List.mem_append_right _ (List.mem_singleton_self e)) req hreq
  obtain ⟨u, hnext, hclients, hroom, hchan, hintent, hposOf, hwindow⟩ := h.send hpos hs hR hnow hreq
  have hnone : s.getCmd (textOf req.cmdId) = none := by
    by_contra hsome
    exact hr ⟨hid, Option.isSome_iff_ne_none.mpr hsome⟩
  have hcopy : u.chan (textOf req.cmdId) ≥ 1 := by rw [hchan, Function.update_self]
  let v : SyncExactlyOnce.State String ℚ := { u with dedup := u.dedup \ {textOf req.cmdId} }
  refine ⟨v.delivered (textOf req.cmdId) k.Ttl, ((Relation.ReflTransGen.single hnext).trans (evicted hroom hnone)).tail
    (Or.inr (Or.inr ⟨textOf req.cmdId, Or.inr (Or.inr (Or.inr (Or.inl ⟨hcopy, hwindow, Or.inr ⟨?_, rfl⟩⟩)))⟩)), ?_, ?_,
    chan_taken (t := v) hchan⟩
  · exact fun hd => hd.2.2 rfl
  · exact ⟨hclients.issued, hclients.sends, hclients.acked⟩
  · have hrecord : Lua.record (RedisRoomStateStore.controlArgs req) tl s =
        s.setCmd (textOf req.cmdId) (tl.seq + 1) CMD_DEDUP_TTL_MS := if_pos hid
    obtain ⟨w, hw, hshow, -⟩ := hroom.store
    obtain rfl : tl = w := Option.some.inj ((hroom.loaded tl hl).symm.trans hw)
    have hclock := hroom.clock
    have hseq : u.store.seq = (specLog p₀ t₀ tr).length := congrArg SyncExactlyOnce.Store.seq hshow
    rw [hrecord]
    refine ⟨hclock, fun x hx => ?_, ⟨_, by rw [Lua.committed_saves, List.getLast?_concat], ?_, ?_⟩, ?_, ?_, fun c => ?_,
      fun c r hr => ?_, fun c => ?_⟩
    · rw [Lua.committed_loadTl] at hx
      rw [Lua.committed_saves, List.getLast?_concat, hx]
    · simp only [SyncExactlyOnce.State.delivered, hintent, hposOf, SyncExactlyOnce.Apply_anchor, v, specLog_snoc, he,
        Option.toList_some, List.length_append, List.length_singleton]
      rw [hshow]
      exact apply_controlled hset
    · simp only [SyncExactlyOnce.State.delivered, SyncExactlyOnce.Apply_anchor, v, ← hclock]
      cases hi : (RedisRoomStateStore.controlArgs req).intent <;> simp [Lua.controlled, hi]
    · simp only [SyncExactlyOnce.State.delivered, SyncExactlyOnce.State.taken, SyncExactlyOnce.Apply_anchor, v, le_refl]
    · simp only [SyncExactlyOnce.State.delivered, hintent, hposOf, hroom.log, specLog_snoc, he, Option.toList_some, v, hclock,
        Nat.add_sub_cancel_left]
    · simp only [SyncExactlyOnce.State.delivered, Lua.committed_cmd, Room.setCmd, v]
      rcases eq_or_ne c (textOf req.cmdId) with rfl | hne
      · simp [Expiring.put]
      · rw [Function.update_of_ne hne, ← hroom.remembered c]
        simp [hne]
    · simp only [Lua.committed_cmd, Room.setCmd] at hr
      simp only [SyncExactlyOnce.State.delivered, v]
      rcases eq_or_ne c (textOf req.cmdId) with rfl | hne
      · rw [Function.update_self, Expiring.put, Option.some_inj] at hr
        rw [Function.update_self, ← hr, httl, hclock]
        exact Nat.add_assoc ..
      · rw [Function.update_of_ne hne] at hr ⊢
        exact hroom.expiry c r hr
    · simp only [SyncExactlyOnce.State.delivered, commandCommits_snoc, hc, Option.toList_some, List.countP_append, v]
      rcases eq_or_ne c (textOf req.cmdId) with rfl | hne
      · rw [Function.update_self, hroom.applied]
        simp
      · rw [Function.update_of_ne hne, hroom.applied]
        simp [hne.symm]

/-! ## Runs -/

/-- A room that was opened. -/
def opened (videoId : Option String) (p₀ : ℚ) (t₀ : ℕ) : Room := machine.run [.tick t₀, .init videoId p₀ 0]

/-- **One operation** is a few steps of the specification, or none. -/
theorem Performs.operate (hpos : k.Positions = Set.univ) (hd : k.DedupOn = true) (httl : k.Ttl = CMD_DEDUP_TTL_MS)
    (hlog : k.LogSnapshots = true) (h : Performs p₀ t₀ tr s t) {op : Op} (hs : tr.length < k.MaxSends)
    (htime : (machine.step s op).1.now ≤ t₀ + k.MaxTime) (hmint : mint (machine.event s op) = none)
    (hR : Retried k.RetryWindow (tr ++ [machine.event s op])) :
    ∃ t', Relation.ReflTransGen (SyncExactlyOnce.Next k) t t' ∧
      Performs p₀ t₀ (tr ++ [machine.event s op]) (machine.step s op).1 t' := by
  have hstep := event_cases s op
  have hpre : (machine.event s op).pre = s := rfl
  have hact : (machine.event s op).act = op := rfl
  have hpost : (machine.event s op).post = (machine.step s op).1 := rfl
  generalize machine.event s op = e at hstep hmint hR hpre hact hpost ⊢
  generalize (machine.step s op).1 = room at hpost htime ⊢
  obtain ⟨pre, act, out, post⟩ := e
  simp only at hpre hact hpost
  subst hpre hact hpost
  simp only at hstep
  cases hstep with
  | read tl hl => exact ⟨t, .refl, h.keep rfl rfl rfl rfl rfl fun _ => id⟩
  | missing req trim hl => exact ⟨t, .refl, h.keep rfl rfl rfl rfl rfl fun _ => id⟩
  | fenced req trim tl hl hr hf => exact ⟨t, .refl, h.keep rfl rfl rfl rfl rfl fun _ => id⟩
  | found videoId mediaTime trim tl hl => exact ⟨t, .refl, h.keep rfl rfl rfl rfl rfl fun _ => id⟩
  | idle trim tl hl => exact ⟨t, .refl, h.keep (by simp [specEntry]) rfl rfl rfl rfl fun _ => id⟩
  | clear => exact ⟨t, .refl, h.keep rfl rfl rfl rfl rfl fun w hw => by cases hw⟩
  | birth videoId mediaTime trim new hl hnew => simp [mint, hl] at hmint
  | tick d =>
    have hclock := h.room.clock
    exact h.tick rfl rfl (by simp only [Room.tick_now] at htime; omega)
  | duplicate req trim tl hl hr => exact h.duplicate hpos hd hs hR rfl rfl rfl rfl hr
  | control req trim tl new hl hr hf hnew =>
    have hid := (hR.named _ (List.mem_append_right _ (List.mem_singleton_self _)) req rfl).1
    subst hnew
    exact h.commit hpos httl hs hR rfl rfl rfl (by simp [commandCommit, hid]) hl hr
  | snapshot trim tl new hl hp window hnew =>
    subst hnew
    by_cases hstamp : tl.stampedAt = pre.now
    · exact ⟨t, .refl, h.unmoved (by simp [specEntry, hl, hstamp]) rfl hl hstamp⟩
    · exact h.sweep hlog (by simp [specEntry, hl, hstamp]) rfl hl hp hstamp

/-- What is asked of the commands is asked of fewer. -/
theorem Retried.of_append {window : ℕ} {tr tr' : List Event} (h : Retried window (tr ++ tr')) : Retried window tr :=
  ⟨fun e he => h.named e (List.mem_append_left _ he), (List.pairwise_append.mp h.same).1⟩

/-- A seek, and the command to play that is sent again after it. -/
def resent : List Op :=
  let play : ControlReq := ⟨.play, 2, "u", some "p", none, none, none⟩
  [.applyControl play 0, .tick 4000, .applyControl ⟨.seek, 30, "u", some "s", none, none, some (some "v")⟩ 0,
   .tick 1000, .applyControl play 0, .tick 9000, .applySnapshot 0]

end Plane
end WatchParty
