import WatchParty.Relay.Server

/-!
# The relays agree

The two relays are given the same inputs. They call the same scripts with the same keys and arguments, write the same
frames, and keep the same connections and rooms, for as long as they judge the tokens alike: the go relay by the mirror
in Redis, and only when a connection is accepted and in its sweep; the rust relay by its snapshot, and before every
message.

- `SameRooms`: the registries tell the same of every connection (`SameRooms.join`, `SameRooms.teardown`);
- `Same`: the two relays, as far as they are compared, with a lemma for each input;
- `Divides`: an input on which the two relays judge a token differently; `relays_agree_iff` is the result.
-/

namespace WatchParty
namespace Relay

theorem utf8_append (s t : String) : Bytes.utf8 (s ++ t) = Bytes.utf8 s ++ Bytes.utf8 t := by
  unfold Bytes.utf8
  rw [String.toByteArray_append, ByteArray.data_append, Array.toList_append]

/-! ## The rooms -/

/-- The connections are in the same rooms. -/
def SameRooms (t : Rust.Rooms) (s : Go.Rooms ℕ) : Prop :=
  ∃ ops ops', Rust.Exact ops t ∧ Go.Exact ops' s ∧ ∀ c, seat ops' c = (seat ops ⟨c⟩).map Bytes.utf8

namespace SameRooms

variable {t : Rust.Rooms} {s : Go.Rooms ℕ}

theorem getIn (h : SameRooms t s) (room : String) (c : ℕ) :
    (s.rooms.getIn (Bytes.utf8 room) c).isSome = true ↔ (t.rooms.getIn room c).isSome = true := by
  obtain ⟨ops, ops', ht, hs, hsame⟩ := h
  rw [hs.seats, ht.seats, ht.locked ⟨c⟩, hsame]
  cases seat ops ⟨c⟩ with
  | none => simp
  | some r =>
    simp only [Option.map_some, Option.some.injEq]
    exact ⟨fun h => Bytes.utf8_inj h, congrArg _⟩

/-- The rooms of the go relay have names that are texts. -/
theorem text (h : SameRooms t s) {r : List UInt8} {c : ℕ} (hr : (s.rooms.getIn r c).isSome = true) :
    ∃ room, r = Bytes.utf8 room := by
  obtain ⟨ops, ops', -, hs, hsame⟩ := h
  rw [hs.seats, hsame] at hr
  obtain ⟨room, -, rfl⟩ := Option.map_eq_some_iff.mp hr
  exact ⟨room, rfl⟩

theorem join (h : SameRooms t s) (c : ℕ) {room : String} (hid : IsId (Bytes.utf8 room)) :
    SameRooms (Rust.join_room ⟨c⟩ room t) (Go.joinRoom c (Bytes.utf8 room) s) := by
  obtain ⟨ops, ops', ht, hs, hsame⟩ := h
  have hrust : Rust.is_valid_id room = true := (Rust.is_valid_id_iff room).mpr hid
  have hgo : Go.roomPattern (Bytes.utf8 room) = true := (Go.cmdIDPattern_iff _).mpr hid
  refine ⟨_, _, Rust.exact_step ht (.join ⟨c⟩ ⟨room, hrust⟩), Go.exact_step hs (.join c ⟨_, hgo⟩), fun k => ?_⟩
  rw [seat_snoc, seat_snoc]
  rcases eq_or_ne k c with rfl | hne
  · simp [seatAfter]
  · simp [seatAfter, hne, hsame]

theorem teardown (h : SameRooms t s) (c : ℕ) : SameRooms (Rust.leave ⟨c⟩ t) (Go.leave c s) := by
  obtain ⟨ops, ops', ht, hs, hsame⟩ := h
  refine ⟨_, _, Rust.exact_step ht (.teardown ⟨c⟩), Go.exact_step hs (.teardown c), fun k => ?_⟩
  rw [seat_snoc, seat_snoc]
  rcases eq_or_ne k c with rfl | hne
  · simp [seatAfter]
  · simp [seatAfter, hne, hsame]

/-- A frame is offered to the same connections, and once to each. -/
theorem broadcast (h : SameRooms t s) (room : String) :
    (Go.broadcast (Bytes.utf8 room) s).Nodup ∧ (Rust.broadcast room t).Nodup ∧
      ∀ c, c ∈ Go.broadcast (Bytes.utf8 room) s ↔ (⟨c⟩ : Rust.Conn) ∈ Rust.broadcast room t := by
  obtain ⟨hgo, hmem⟩ := Go.broadcast_exact s (Bytes.utf8 room)
  obtain ⟨ops, ops', ht, -, -⟩ := id h
  obtain ⟨hrust, hmem'⟩ := Rust.broadcast_exact ht room
  exact ⟨hgo, hrust, fun c => (hmem c).trans ((h.getIn room c).trans (hmem' ⟨c⟩).symm)⟩

/-- The rooms that a sweep finds. -/
theorem keys (h : SameRooms t s) (r : List UInt8) :
    r ∈ s.rooms.keys ↔ ∃ room ∈ t.rooms.keys, r = Bytes.utf8 room := by
  have hfull : ∀ {K K' V : Type} [DecidableEq K] [DecidableEq K'] {m : OrderedMap K (OrderedMap K' V)}, m.Full →
      ∀ k, k ∈ m.keys ↔ ∃ k', (m.getIn k k').isSome = true := by
    intro K K' V _ _ m hm k
    rw [← OrderedMap.has_iff, OrderedMap.has]
    unfold OrderedMap.getIn
    cases hk : m.get k with
    | none => simp
    | some n =>
      have hne : n.entries ≠ [] := by
        have := hm k n hk
        rwa [OrderedMap.isEmpty, List.isEmpty_eq_false_iff] at this
      obtain ⟨⟨k', v⟩, hmem⟩ := List.exists_mem_of_ne_nil _ hne
      simp only [Option.isSome_some, Option.bind_some, true_iff]
      exact ⟨k', by rw [OrderedMap.get_eq_some.mpr hmem]; rfl⟩
  obtain ⟨ops, ops', ht, hs, -⟩ := id h
  rw [hfull hs.full]
  constructor
  · rintro ⟨c, hc⟩
    obtain ⟨room, rfl⟩ := h.text hc
    exact ⟨room, (hfull ht.full room).mpr ⟨c, (h.getIn room c).mp hc⟩, rfl⟩
  · rintro ⟨room, hroom, rfl⟩
    obtain ⟨c, hc⟩ := (hfull ht.full room).mp hroom
    exact ⟨c, (h.getIn room c).mpr hc⟩

end SameRooms

/-! ## The connections -/

/-- A connection in the two relays. What waits for the writer of one that was evicted is not compared: the go relay has
closed its websocket, the rust relay still writes what was queued. -/
structure SameClient (q : Rust.Client) (p : Go.Client) : Prop where
  id : p.id = Go.identity q.identity
  named : q.identity.sub ≠ ""
  evicted : p.evicted = q.evicted
  waiting : p.waiting = q.waiting.map (ClientFrame.map Bytes.utf8)
  queue : q.evicted = false → q.writing = true ∧ q.queue = p.send.map .binary

namespace SameClient

variable {q : Rust.Client} {p : Go.Client}

theorem offer (h : SameClient q p) (frame : List UInt8) :
    SameClient (q.offer (.binary frame)).1 (p.offer frame).1 ∧
      (q.evicted = false → (p.offer frame).2 = (q.offer (.binary frame)).2) := by
  have hgo : (p.offer frame).1.id = p.id ∧ (p.offer frame).1.evicted = p.evicted ∧
      (p.offer frame).1.waiting = p.waiting := by
    unfold Go.Client.offer
    split <;> exact ⟨rfl, rfl, rfl⟩
  have hrust : (q.offer (.binary frame)).1.identity = q.identity ∧ (q.offer (.binary frame)).1.evicted = q.evicted ∧
      (q.offer (.binary frame)).1.waiting = q.waiting := by
    unfold Rust.Client.offer
    split <;> exact ⟨rfl, rfl, rfl⟩
  have hqueue : q.evicted = false → ((q.offer (.binary frame)).1.writing = true ∧
      (q.offer (.binary frame)).1.queue = (p.offer frame).1.send.map .binary) ∧
        (p.offer frame).2 = (q.offer (.binary frame)).2 := by
    intro hlive
    obtain ⟨hwriting, hsame⟩ := h.queue hlive
    unfold Rust.Client.offer Go.Client.offer Rust.SEND_BUFFER
    by_cases hroom : p.send.length < 256
    · simp [hwriting, hroom, hsame]
    · simp [hwriting, hroom, hsame]
  refine ⟨⟨?_, ?_, ?_, ?_, fun hlive => ?_⟩, fun hlive => (hqueue hlive).2⟩
  · rw [hgo.1, hrust.1]
    exact h.id
  · rw [hrust.1]
    exact h.named
  · rw [hgo.2.1, hrust.2.1]
    exact h.evicted
  · rw [hgo.2.2, hrust.2.2]
    exact h.waiting
  · rw [hrust.2.1] at hlive
    exact (hqueue hlive).1

theorem evict (h : SameClient q p) : SameClient q.evict { p with evicted := true } := by
  have hrust : q.evict.identity = q.identity ∧ q.evict.waiting = q.waiting := by
    unfold Rust.Client.evict Rust.Client.offer
    split <;> exact ⟨rfl, rfl⟩
  refine ⟨?_, ?_, rfl, ?_, fun hlive => by cases hlive⟩
  · rw [hrust.1]
    exact h.id
  · rw [hrust.1]
    exact h.named
  · rw [hrust.2]
    exact h.waiting

/-- The two relays select the same connections for an event. -/
theorem selected (h : SameClient q p) {ev : RevocationEvent} (hev : ev ≠ .token (some "")) :
    Go.selectRevoked ev p.id = Rust.hit ev q.identity := by
  rw [h.id]
  cases ev with
  | other => rfl
  | token jti =>
    cases jti with
    | none => rfl
    | some a =>
      have ha : a ≠ "" := fun ha => hev (by rw [ha])
      cases hjti : q.identity.jti with
      | none => simp [Go.selectRevoked, Rust.hit, Go.identity, hjti, ha, Ne.symm ha]
      | some b => simp [Go.selectRevoked, Rust.hit, Go.identity, hjti, ha, eq_comm]
  | user userId version =>
    cases userId with
    | none => simp [Go.selectRevoked, Rust.hit]
    | some u =>
      rw [Bool.eq_iff_iff]
      by_cases hu : u = q.identity.sub
      · subst hu
        simp only [Go.selectRevoked, Rust.hit, Go.identity, Option.getD_some, Bool.and_eq_true, decide_eq_true_iff]
        exact ⟨fun hgo => ⟨⟨hgo.1.1.2, trivial⟩, of_decide_eq_true hgo.2⟩, fun hrust => ⟨⟨⟨h.named, hrust.1.1⟩, trivial⟩, decide_eq_true hrust.2⟩⟩
      · simp [Go.selectRevoked, Rust.hit, Go.identity, hu, Ne.symm hu]

end SameClient

/-! ## The two relays -/

/-- The two relays, as far as they are compared. -/
structure Same (t : Rust.Server) (s : Go.Server) : Prop where
  next : s.next = t.next
  clients : ∀ c, Option.Rel SameClient (t.conns c) (s.conns c)
  rooms : ∀ r c, (s.registry.rooms.getIn r c).isSome = true ↔
    ∃ room, r = Bytes.utf8 room ∧ (t.registry.rooms.getIn room c).isSome = true
  left : ∀ r, r ∈ s.sweep.left ↔ ∃ room ∈ t.sweep.left, r = Bytes.utf8 room
  visiting : s.sweep.visiting = t.sweep.visiting.map Bytes.utf8

/-- The relays are the same, and their registries are exact. -/
structure Together (t : Rust.Server) (s : Go.Server) : Prop where
  next : s.next = t.next
  clients : ∀ c, Option.Rel SameClient (t.conns c) (s.conns c)
  rooms : SameRooms t.registry s.registry
  left : ∀ r, r ∈ s.sweep.left ↔ ∃ room ∈ t.sweep.left, r = Bytes.utf8 room
  visiting : s.sweep.visiting = t.sweep.visiting.map Bytes.utf8

theorem Together.same {t : Rust.Server} {s : Go.Server} (h : Together t s) : Same t s where
  next := h.next
  clients := h.clients
  rooms r c := by
    constructor
    · intro hr
      obtain ⟨room, rfl⟩ := h.rooms.text hr
      exact ⟨room, rfl, (h.rooms.getIn room c).mp hr⟩
    · rintro ⟨room, rfl, hroom⟩
      exact (h.rooms.getIn room c).mpr hroom
  left := h.left
  visiting := h.visiting

/-! ### Frames and calls -/

/-- The tables of reasons are one, for every text. -/
theorem reasonCodes_eq (reason : String) : Go.reasonCodes reason = Rust.reason_code reason := by
  unfold Go.reasonCodes Rust.reason_code
  split
  all_goals first | rfl | skip
  rename_i h₀ h₁ h₂ h₃ h₄ h₅
  have hne : ∀ s : String, reason ≠ s → (reason == s) = false := fun s h => beq_false_of_ne h
  simp [List.lookup, hne _ h₀, hne _ h₁, hne _ h₂, hne _ h₃, hne _ h₄, hne _ h₅]

/-- The relays write the same frame of what a script answers. -/
theorem frameOf_eq (go rust : Numerals) (msgType : UInt8) (tl : ScriptTimeline) :
    Go.frameOf go msgType tl = Rust.encode_timeline rust msgType tl.toLuaTimeline := by
  obtain ⟨z, hz⟩ := tl.canonical
  have hparse : ∀ lang : Numerals, lang.parse tl.storeEpoch = some (Doubles.nearestInt z) := by
    intro lang
    rw [Numerals.parse, hz, canonical?_toString]
  rw [Go.frameOf, Go.encodeTimeline_eq, Rust.encode_timeline_eq, Go.toWire, hparse, hparse, reasonCodes_eq]

theorem key_eq (room suffix : String) : Go.key (Bytes.utf8 room) suffix = Bytes.utf8 (Rust.key room suffix) := by
  rw [Go.key, Rust.key, utf8_append, utf8_append]

theorem invocation_eq (frame : ClientFrame String) :
    Go.invocation (frame.map Bytes.utf8) = (Rust.invocation frame).map Bytes.utf8 := by
  cases frame with
  | join room => simp [Go.invocation, Rust.invocation, ClientFrame.map, Invocation.map, Arg.map, key_eq]
  | control intent mediaTime room cmdId =>
    simp [Go.invocation, Rust.invocation, ClientFrame.map, Invocation.map, Arg.map, key_eq, utf8_append,
      Go.cmdDedupTTLMS, Rust.CMD_DEDUP_TTL_MS]

theorem sweepInvocation_eq (room : String) :
    Go.sweepInvocation (Bytes.utf8 room) = (Rust.sweepInvocation room).map Bytes.utf8 := by
  simp [Go.sweepInvocation, Rust.sweepInvocation, Invocation.map, Arg.map, key_eq, Go.sweepDedupPeriodMS,
    Rust.SWEEP_DEDUP_PERIOD_MS]

/-! ### A frame for a room -/

namespace Go

theorem trySend_fst (c : ℕ) (frame : List UInt8) (s : Server) : (s.trySend c frame).1 =
    { s with conns := Function.update s.conns c ((s.conns c).map fun p => (p.offer frame).1) } := by
  unfold Server.trySend
  cases hc : s.conns c with
  | none =>
    have hsame : Function.update s.conns c none = s.conns := by rw [← hc, Function.update_eq_self]
    simp [hsame]
  | some p => rfl

theorem broadcast_fold (frame : List UInt8) {peers : List ℕ} (hn : peers.Nodup) (s : Server) :
    (peers.foldl (fun s c => (s.trySend c frame).1) s).next = s.next ∧
    (peers.foldl (fun s c => (s.trySend c frame).1) s).registry = s.registry ∧
    (peers.foldl (fun s c => (s.trySend c frame).1) s).sweep = s.sweep ∧
    ∀ c, (peers.foldl (fun s c => (s.trySend c frame).1) s).conns c =
      if c ∈ peers then (s.conns c).map fun p => (p.offer frame).1 else s.conns c := by
  induction peers generalizing s with
  | nil => exact ⟨rfl, rfl, rfl, fun c => rfl⟩
  | cons k peers ih =>
    obtain ⟨hk, hn⟩ := List.nodup_cons.mp hn
    obtain ⟨hnext, hregistry, hsweep, hconns⟩ := ih hn (s.trySend k frame).1
    rw [List.foldl_cons]
    refine ⟨hnext.trans ?_, hregistry.trans ?_, hsweep.trans ?_, fun c => ?_⟩
    · rw [trySend_fst]
    · rw [trySend_fst]
    · rw [trySend_fst]
    · rw [hconns, trySend_fst]
      rcases eq_or_ne c k with rfl | hne
      · simp [hk]
      · simp [hne]

end Go

namespace Rust

theorem try_send_fst (c : ℕ) (frame : List UInt8) (s : Server) : (s.try_send c frame).1 =
    { s with conns := Function.update s.conns c ((s.conns c).map fun q => (q.offer (.binary frame)).1) } := by
  unfold Server.try_send
  cases hc : s.conns c with
  | none =>
    have hsame : Function.update s.conns c none = s.conns := by rw [← hc, Function.update_eq_self]
    simp [hsame]
  | some p => rfl

theorem broadcast_fold (frame : List UInt8) {peers : List Conn} (hn : peers.Nodup) (s : Server) :
    (peers.foldl (fun s c => (s.try_send c.id frame).1) s).next = s.next ∧
    (peers.foldl (fun s c => (s.try_send c.id frame).1) s).registry = s.registry ∧
    (peers.foldl (fun s c => (s.try_send c.id frame).1) s).sweep = s.sweep ∧
    ∀ c, (peers.foldl (fun s c => (s.try_send c.id frame).1) s).conns c =
      if (⟨c⟩ : Conn) ∈ peers then (s.conns c).map fun q => (q.offer (.binary frame)).1 else s.conns c := by
  induction peers generalizing s with
  | nil => exact ⟨rfl, rfl, rfl, fun c => rfl⟩
  | cons k peers ih =>
    obtain ⟨hk, hn⟩ := List.nodup_cons.mp hn
    obtain ⟨hnext, hregistry, hsweep, hconns⟩ := ih hn (s.try_send k.id frame).1
    rw [List.foldl_cons]
    refine ⟨hnext.trans ?_, hregistry.trans ?_, hsweep.trans ?_, fun c => ?_⟩
    · rw [try_send_fst]
    · rw [try_send_fst]
    · rw [try_send_fst]
    · rw [hconns, try_send_fst]
      obtain ⟨k⟩ := k
      rcases eq_or_ne c k with rfl | hne
      · simp [hk]
      · simp [hne]

end Rust

namespace Together

variable {t : Rust.Server} {s : Go.Server}

/-- A connection, in both relays. -/
theorem conn (h : Together t s) (c : ℕ) : t.conns c = none ∧ s.conns c = none ∨
    ∃ q p, t.conns c = some q ∧ s.conns c = some p ∧ SameClient q p := by
  have hc := h.clients c
  cases hq : t.conns c with
  | none =>
    rw [hq] at hc
    cases hp : s.conns c with
    | none => exact Or.inl ⟨rfl, rfl⟩
    | some p => rw [hp] at hc; cases hc
  | some q =>
    rw [hq] at hc
    cases hp : s.conns c with
    | none => rw [hp] at hc; cases hc
    | some p =>
      rw [hp] at hc
      cases hc with
      | some hc => exact Or.inr ⟨q, p, rfl, rfl, hc⟩

/-- One connection changes alike. -/
theorem update (h : Together t s) (c : ℕ) {q : Option Rust.Client} {p : Option Go.Client}
    (hc : Option.Rel SameClient q p) :
    Together { t with conns := Function.update t.conns c q } { s with conns := Function.update s.conns c p } := by
  refine ⟨h.next, fun k => ?_, h.rooms, h.left, h.visiting⟩
  rcases eq_or_ne k c with rfl | hne
  · simpa using hc
  · simpa [hne] using h.clients k

/-- The handler of a connection is over in both. -/
theorem teardown (h : Together t s) (c : ℕ) : Together (t.teardown c) (s.teardown c) := by
  have hnone := h.update c (q := none) (p := none) .none
  exact ⟨hnone.next, hnone.clients, h.rooms.teardown c, h.left, h.visiting⟩

theorem trySend (h : Together t s) (c : ℕ) (frame : List UInt8) :
    Together (t.try_send c frame).1 (s.trySend c frame).1 := by
  unfold Rust.Server.try_send Go.Server.trySend
  rcases h.conn c with ⟨hq, hp⟩ | ⟨q, p, hq, hp, hc⟩
  · rw [hq, hp]
    exact h
  · rw [hq, hp]
    exact h.update c (.some (hc.offer frame).1)

/-- Whether a frame that is offered to one connection was taken. -/
theorem trySend_taken (h : Together t s) {c : ℕ} {q : Rust.Client} (hq : t.conns c = some q) (hlive : q.evicted = false)
    (frame : List UInt8) : (s.trySend c frame).2 = (t.try_send c frame).2 := by
  unfold Rust.Server.try_send Go.Server.trySend
  rcases h.conn c with ⟨hq', -⟩ | ⟨q', p, hq', hp, hc⟩
  · rw [hq] at hq'
    cases hq'
  · obtain rfl : q = q' := Option.some.inj (hq.symm.trans hq')
    rw [hq, hp]
    exact (hc.offer frame).2 hlive

/-- **A broadcast**, in whatever order each relay goes over its map. -/
theorem broadcast (h : Together t s) (room : String) (frame : List UInt8) :
    Together (t.broadcast room frame) (s.broadcast (Bytes.utf8 room) frame) := by
  obtain ⟨hgo, hrust, hmem⟩ := h.rooms.broadcast room
  obtain ⟨hnext, hregistry, hsweep, hconns⟩ := Go.broadcast_fold frame hgo s
  obtain ⟨hnext', hregistry', hsweep', hconns'⟩ := Rust.broadcast_fold frame hrust t
  unfold Go.Server.broadcast Rust.Server.broadcast
  refine ⟨?_, fun c => ?_, ?_, ?_, ?_⟩
  · rw [hnext, hnext']
    exact h.next
  · rw [hconns, hconns']
    by_cases hin : c ∈ Go.broadcast (Bytes.utf8 room) s.registry
    · rw [if_pos hin, if_pos ((hmem c).mp hin)]
      rcases h.conn c with ⟨hq, hp⟩ | ⟨q, p, hq, hp, hc⟩
      · rw [hq, hp]
        exact .none
      · rw [hq, hp]
        exact .some (hc.offer frame).1
    · rw [if_neg hin, if_neg fun hrust => hin ((hmem c).mpr hrust)]
      exact h.clients c
  · rw [hregistry, hregistry']
    exact h.rooms
  · rw [hsweep, hsweep']
    exact h.left
  · rw [hsweep, hsweep']
    exact h.visiting

/-- Each relay evicts connections that the other does. -/
theorem evict (h : Together t s) {victim : Identity → Bool} {victim' : GoIdentity → Bool}
    (hv : ∀ c q p, t.conns c = some q → s.conns c = some p → SameClient q p →
      q.evicted = false → victim' p.id = victim q.identity) :
    Together (t.evict victim) (s.evict victim') := by
  refine ⟨h.next, fun c => ?_, h.rooms, h.left, h.visiting⟩
  unfold Rust.Server.evict Go.Server.evict
  rcases h.conn c with ⟨hq, hp⟩ | ⟨q, p, hq, hp, hc⟩
  · simp only [hq, hp, Option.map_none]
    exact .none
  · simp only [hq, hp, Option.map_some]
    refine .some ?_
    cases hlive : q.evicted with
    | false =>
      rw [hv c q p hq hp hc hlive]
      split
      · exact hc.evict
      · exact hc
    | true =>
      -- one that was evicted may be evicted again by one relay only: what is compared stays the same
      have hgone : { p with evicted := true } = p := by rw [← hlive, ← hc.evicted]
      have hq' : SameClient (if victim q.identity = true then q.evict else q) p := by
        split
        · rw [← hgone]
          exact hc.evict
        · exact hc
      rw [hgone, ite_self]
      exact hq'

/-! ### Each input -/

/-- What the two relays do with an answer; whether the handler of a connection that was not evicted goes on. -/
theorem handled (h : Together t s) (go rust : Numerals) {c : ℕ} {q : Rust.Client} (hq : t.conns c = some q)
    (frame : ClientFrame String) (reply : Reply) :
    Together (Rust.Server.handled rust c frame reply t).1 (Go.Server.handled go c (frame.map Bytes.utf8) reply s).1 ∧
      (q.evicted = false → (Go.Server.handled go c (frame.map Bytes.utf8) reply s).2 =
        (Rust.Server.handled rust c frame reply t).2) := by
  have hdirect : ∀ bytes : List UInt8, Together (t.try_send c bytes).1 (s.trySend c bytes).1 ∧
      (q.evicted = false → (s.trySend c bytes).2 = (t.try_send c bytes).2) :=
    fun bytes => ⟨h.trySend c bytes, fun hlive => h.trySend_taken hq hlive bytes⟩
  cases frame with
  | join room =>
    cases reply with
    | error => exact ⟨h, fun _ => rfl⟩
    | unreadable => exact ⟨h, fun _ => rfl⟩
    | timeline tl dup =>
      simp only [Rust.Server.handled, Go.Server.handled, ClientFrame.map, frameOf_eq go rust]
      exact hdirect _
  | control intent mediaTime room cmdId =>
    cases reply with
    | error => exact hdirect _
    | unreadable => exact ⟨h, fun _ => rfl⟩
    | timeline tl dup =>
      simp only [Rust.Server.handled, Go.Server.handled, ClientFrame.map, frameOf_eq go rust]
      cases dup with
      | true => exact hdirect _
      | false => exact ⟨h.broadcast room _, fun _ => rfl⟩

/-- A handler goes on in both relays, or is over in both. -/
theorem proceed {c : ℕ} {r : Rust.Server × Bool} {r' : Go.Server × Bool} (h : Together r.1 r'.1) (hb : r'.2 = r.2) :
    Together (Rust.Server.proceed c r) (Go.Server.proceed c r') := by
  unfold Rust.Server.proceed Go.Server.proceed
  rw [hb]
  split
  · exact h
  · exact h.teardown c

theorem reply (h : Together t s) (go rust : Numerals) (c : ℕ) (reply : Reply) :
    Together (t.reply rust c reply) (s.reply go c reply) := by
  unfold Rust.Server.reply Go.Server.reply
  rcases h.conn c with ⟨hq, hp⟩ | ⟨q, p, hq, hp, hc⟩
  · rw [hq, hp]
    exact h
  · rw [hq, hp]
    simp only [hc.waiting]
    cases hw : q.waiting with
    | none => exact h
    | some frame =>
      simp only [Option.map_some]
      have hidle : SameClient { q with waiting := none } { p with waiting := none } :=
        ⟨hc.id, hc.named, hc.evicted, rfl, hc.queue⟩
      obtain ⟨hstate, htaken⟩ := (h.update c (.some hidle)).handled go rust (c := c)
        (q := { q with waiting := none }) (Function.update_self ..) frame reply
      refine proceed hstate ?_
      rcases Bool.eq_false_or_eq_true q.evicted with hgone | hlive
      · simp [hc.evicted, hgone]
      · simp only [htaken hlive]
        rw [hc.evicted]

/-- **A message is read alike**, where the gate of the rust relay lets it in. -/
theorem receive (h : Together t s) (c : ℕ) (data : List UInt8) (now : ℤ) (t₁ t₂ : Float)
    (hgate : ∀ q, t.conns c = some q → q.evicted = false → q.waiting = none → data ≠ [] →
      now < q.identity.exp ∧ t.snapshot.revoked q.identity = false) :
    Together (t.receive c data now t₁ t₂).1 (s.receive c data t₁ t₂).1 ∧
      (t.receive c data now t₁ t₂).2.map Bytes.utf8 = (s.receive c data t₁ t₂).2 := by
  unfold Rust.Server.receive Go.Server.receive
  rcases h.conn c with ⟨hq, hp⟩ | ⟨q, p, hq, hp, hc⟩
  · rw [hq, hp]
    exact ⟨h, rfl⟩
  · rw [hq, hp]
    simp only [hc.evicted, hc.waiting, Option.isSome_map]
    by_cases hbusy : q.evicted = true ∨ q.waiting.isSome = true
    · rw [if_pos hbusy, if_pos hbusy]
      exact ⟨h, rfl⟩
    rw [if_neg hbusy, if_neg hbusy]
    simp only [not_or, Bool.not_eq_true, Option.isSome_eq_false_iff, Option.isNone_iff_eq_none] at hbusy
    cases data with
    | nil => exact ⟨h, rfl⟩
    | cons b bs =>
      obtain ⟨hexp, hrevoked⟩ := hgate q hq hbusy.1 hbusy.2 (List.cons_ne_nil b bs)
      have hopen : ¬(q.identity.exp ≤ now ∨ t.snapshot.revoked q.identity = true) := by
        rw [hrevoked]
        rintro (hle | hfalse)
        · omega
        · cases hfalse
      have hempty : ¬(b :: bs).isEmpty = true := Bool.false_ne_true
      have hlength : ¬(b :: bs).length < 1 := by
        rw [List.length_cons]
        omega
      rw [if_neg hempty, if_neg hopen, if_neg hlength]
      by_cases hping : byteAt (b :: bs) 0 = 0x01
      · rw [if_pos hping, if_pos hping]
        by_cases hshort : (b :: bs).length < 9
        · rw [if_pos hshort, if_pos hshort]
          exact ⟨h, rfl⟩
        · rw [if_neg hshort, if_neg hshort]
          exact ⟨proceed (h.trySend c _) (h.trySend_taken hq hbusy.1 _), rfl⟩
      · rw [if_neg hping, if_neg hping, handle_agree]
        cases hframe : Rust.handle (b :: bs) with
        | none => exact ⟨h, rfl⟩
        | some frame =>
          simp only [Option.map_some]
          have hwaits : SameClient { q with waiting := some frame }
              { p with waiting := some (frame.map Bytes.utf8), evicted := q.evicted } :=
            ⟨hc.id, hc.named, rfl, rfl, hc.queue⟩
          have hstate := h.update c (.some hwaits)
          refine ⟨⟨hstate.next, hstate.clients, ?_, hstate.left, hstate.visiting⟩, ?_⟩
          · cases frame with
            | join room => exact h.rooms.join c (grammar_join_iff.mp (Rust.handle_iff.mp hframe)).2.1
            | control intent mediaTime room cmdId => exact h.rooms
          · rw [invocation_eq]
            rfl

/-- A writer writes the same frame, of a connection that was not evicted. -/
theorem written (h : Together t s) (c : ℕ) : Together (t.written c).1 (s.written c).1 ∧
    ((t.written c).2.map Bytes.utf8 = (s.written c).2 ∨
      (s.written c).2 = .silent ∧ ∃ q, t.conns c = some q ∧ q.evicted = true) := by
  unfold Rust.Server.written Go.Server.written
  rcases h.conn c with ⟨hq, hp⟩ | ⟨q, p, hq, hp, hc⟩
  · rw [hq, hp]
    exact ⟨h, Or.inl rfl⟩
  · rw [hq, hp]
    simp only [hc.evicted]
    cases hlive : q.evicted with
    | true =>
      -- what the rust relay still writes is compared with nothing
      refine ⟨?_, Or.inr ⟨rfl, q, rfl, hlive⟩⟩
      have hsame : ∀ q' : Rust.Client, q'.identity = q.identity → q'.evicted = true → q'.waiting = q.waiting →
          Together { t with conns := Function.update t.conns c (some q') } s := by
        intro q' hid hout hwaiting
        have hupdate := h.update c (q := some q') (p := some p)
          (.some ⟨hid ▸ hc.id, hid ▸ hc.named, by rw [hout, hc.evicted, hlive], hwaiting ▸ hc.waiting,
            fun hfalse => by rw [hout] at hfalse; cases hfalse⟩)
        rwa [← hp, Function.update_eq_self] at hupdate
      simp only [if_true]
      split
      · exact h
      · split
        · exact h
        · exact hsame _ rfl rfl rfl
        · exact hsame _ rfl rfl rfl
    | false =>
      obtain ⟨hwriting, hqueue⟩ := hc.queue hlive
      rw [hwriting, hqueue]
      cases hsend : p.send with
      | nil => exact ⟨h, Or.inl rfl⟩
      | cons frame send =>
        exact ⟨h.update c (.some ⟨hc.id, hc.named, rfl, hc.waiting, fun _ => ⟨rfl, rfl⟩⟩), Or.inl rfl⟩

end Together

/-! ## Runs -/

/-- An event of the rust relay. -/
abbrev RelayEvent := Machine.Event Rust.Server Input (Output String)

/-- **An input that the two relays judge differently.** The gate of the rust relay refuses a message that its handler has
read, and the go relay does not hang up for a full buffer; or a token is accepted, or kept in the sweep of the tokens, by
one of the snapshot of the rust relay and the mirror in Redis. -/
inductive Divides (e : RelayEvent) : Prop
  | gate (c : ℕ) (data : List UInt8) (now : ℤ) (t₁ t₂ : Float) (q : Rust.Client) (hact : e.act = .receive c data now t₁ t₂)
      (hq : e.pre.conns c = some q) (hlive : q.evicted = false) (hidle : q.waiting = none) (hdata : data ≠ [])
      (hgate : q.identity.exp ≤ now ∨ e.pre.snapshot.revoked q.identity = true)
      (hfull : ¬(byteAt data 0 = 0x01 ∧ 9 ≤ data.length ∧ Rust.SEND_BUFFER ≤ q.queue.length))
  | accept (id : Identity) (named : id.sub ≠ "") (m : Mirror) (hact : e.act = .accept id named m)
      (hm : e.pre.snapshot.revoked id ≠ Go.revoked m (Go.identity id))
  | expire (now : ℤ) (m : Mirror) (c : ℕ) (q : Rust.Client) (hact : e.act = .expire now m) (hq : e.pre.conns c = some q)
      (hlive : q.evicted = false) (hexp : now < q.identity.exp)
      (hm : e.pre.snapshot.revoked q.identity ≠ Go.revoked m (Go.identity q.identity))

/-- The relays do the same, and are the same after it. What the rust relay writes to a connection that was evicted is not
compared. -/
def Alike (e : RelayEvent) (e' : Machine.Event Go.Server Input (Output (List UInt8))) : Prop :=
  Same e.post e'.post ∧ (e.out.map Bytes.utf8 = e'.out ∨
    e'.out = .silent ∧ ∃ c q, e.act = .written c ∧ e.pre.conns c = some q ∧ q.evicted = true)

namespace Together

variable {t : Rust.Server} {s : Go.Server}

/-- The handler of the rust relay ends at its gate, that of the go relay for a pong that its buffer has no place for. -/
theorem receive_full (h : Together t s) {c : ℕ} {data : List UInt8} {now : ℤ} (t₁ t₂ : Float) {q : Rust.Client}
    (hq : t.conns c = some q) (hlive : q.evicted = false) (hidle : q.waiting = none)
    (hgate : q.identity.exp ≤ now ∨ t.snapshot.revoked q.identity = true)
    (hfull : byteAt data 0 = 0x01 ∧ 9 ≤ data.length ∧ Rust.SEND_BUFFER ≤ q.queue.length) :
    Together (t.receive c data now t₁ t₂).1 (s.receive c data t₁ t₂).1 ∧
      (t.receive c data now t₁ t₂).2.map Bytes.utf8 = (s.receive c data t₁ t₂).2 := by
  obtain ⟨hping, hlength, hqueue⟩ := hfull
  rcases h.conn c with ⟨hq', -⟩ | ⟨q', p, hq', hp, hc⟩
  · rw [hq] at hq'
    cases hq'
  obtain rfl : q = q' := Option.some.inj (hq.symm.trans hq')
  have hsend : ¬p.send.length < 256 := by
    rw [(hc.queue hlive).2, List.length_map] at hqueue
    exact not_lt.mpr hqueue
  have hempty : ¬data.isEmpty = true := by
    rw [List.isEmpty_iff_length_eq_zero]
    omega
  have hrust : t.receive c data now t₁ t₂ = (t.teardown c, .silent) := by
    unfold Rust.Server.receive
    simp only [hq]
    rw [if_neg (by simp [hlive, hidle]), if_neg hempty, if_pos hgate]
  have hgo : s.receive c data t₁ t₂ = (s.teardown c, .silent) := by
    have hsame : Function.update s.conns c (some p) = s.conns := by rw [← hp, Function.update_eq_self]
    unfold Go.Server.receive
    simp only [hp]
    rw [if_neg (by simp [hc.evicted, hc.waiting, hlive, hidle]), if_neg (by omega), if_pos hping, if_neg (by omega)]
    simp [Go.Server.proceed, Go.Server.trySend, hp, Go.Client.offer, hsend, hsame]
  rw [hrust, hgo]
  exact ⟨h.teardown c, rfl⟩

/-- **One input**, where the relays do not judge it differently. -/
theorem step (h : Together t s) (go rust : Numerals) (input : Input)
    (hd : ¬Divides ((Rust.relay rust).event t input)) :
    Together (Rust.step rust t input).1 (Go.step go s input).1 ∧
      ((Rust.step rust t input).2.map Bytes.utf8 = (Go.step go s input).2 ∨
        (Go.step go s input).2 = .silent ∧
          ∃ c q, input = .written c ∧ t.conns c = some q ∧ q.evicted = true) := by
  cases input with
  | accept id named m =>
    have hm : t.snapshot.revoked id = Go.revoked m (Go.identity id) := by
      by_contra hm
      exact hd (.accept id named m rfl hm)
    simp only [Rust.step, Go.step]
    rw [hm, h.next]
    split
    · exact ⟨h, Or.inl rfl⟩
    · have hnew := h.update t.next (.some (a := ⟨id, [], true, none, false⟩) (b := ⟨Go.identity id, [], none, false⟩)
        ⟨rfl, named, rfl, rfl, fun _ => ⟨rfl, rfl⟩⟩)
      exact ⟨⟨rfl, hnew.clients, hnew.rooms, hnew.left, hnew.visiting⟩, Or.inl rfl⟩
  | receive c data now t₁ t₂ =>
    by_cases hgate : ∃ q, t.conns c = some q ∧ q.evicted = false ∧ q.waiting = none ∧ data ≠ [] ∧
        (q.identity.exp ≤ now ∨ t.snapshot.revoked q.identity = true)
    · obtain ⟨q, hq, hlive, hidle, hdata, hgate⟩ := hgate
      have hfull : byteAt data 0 = 0x01 ∧ 9 ≤ data.length ∧ Rust.SEND_BUFFER ≤ q.queue.length := by
        by_contra hfull
        exact hd (.gate c data now t₁ t₂ q rfl hq hlive hidle hdata hgate hfull)
      exact (h.receive_full t₁ t₂ hq hlive hidle hgate hfull).imp id Or.inl
    · refine (h.receive c data now t₁ t₂ fun q hq hlive hidle hdata => ?_).imp id Or.inl
      have hopen : ¬(q.identity.exp ≤ now ∨ t.snapshot.revoked q.identity = true) :=
        fun hclosed => hgate ⟨q, hq, hlive, hidle, hdata, hclosed⟩
      rw [not_or, not_le, Bool.not_eq_true] at hopen
      exact hopen
  | reply c reply => exact ⟨h.reply go rust c reply, Or.inl rfl⟩
  | written c =>
    obtain ⟨hstate, hout⟩ := h.written c
    refine ⟨hstate, hout.imp id ?_⟩
    rintro ⟨hsilent, q, hq, hgone⟩
    exact ⟨hsilent, c, q, rfl, hq, hgone⟩
  | closed c =>
    simp only [Rust.step, Go.step]
    rcases h.conn c with ⟨hq, hp⟩ | ⟨q, p, hq, hp, hc⟩
    · rw [hq, hp]
      exact ⟨h, Or.inl rfl⟩
    · rw [hq, hp]
      simp only [hc.waiting, Option.isSome_map]
      split
      · exact ⟨h, Or.inl rfl⟩
      · exact ⟨h.teardown c, Or.inl rfl⟩
  | revocation ev named =>
    have hstate : Together (t.evict (Rust.hit ev)) (s.evict (Go.selectRevoked ev)) :=
      h.evict fun c q p _ _ hc _ => hc.selected named
    exact ⟨⟨hstate.next, hstate.clients, hstate.rooms, hstate.left, hstate.visiting⟩, Or.inl rfl⟩
  | expire now m =>
    suffices hstate : Together (t.evict fun id => decide (id.exp ≤ now) || t.snapshot.revoked id)
        (s.evict fun id => decide (id.exp ≤ now) || Go.revoked m id) from ⟨hstate, Or.inl rfl⟩
    refine h.evict fun c q p hq _ hc hlive => ?_
    rw [hc.id]
    rcases le_or_gt q.identity.exp now with hexp | hexp
    · simp [Go.identity, hexp]
    · have hm : t.snapshot.revoked q.identity = Go.revoked m (Go.identity q.identity) := by
        by_contra hm
        exact hd (.expire now m c q rfl hq hlive hexp hm)
      rw [hm]
      rfl
  | refresh m ok => exact ⟨⟨h.next, h.clients, h.rooms, h.left, h.visiting⟩, Or.inl rfl⟩
  | tick =>
    have hempty : s.sweep.left = ∅ ↔ t.sweep.left = ∅ := by
      simp only [Finset.eq_empty_iff_forall_notMem, h.left, not_exists, not_and]
      exact ⟨fun hno room hroom => hno _ room hroom rfl, fun hno r room hroom _ => hno room hroom⟩
    have hidle : s.sweep.visiting = none ↔ t.sweep.visiting = none := by
      rw [h.visiting, Option.map_eq_none_iff]
    simp only [Rust.step, Go.step, hempty, hidle]
    split
    · refine ⟨⟨h.next, h.clients, h.rooms, fun r => ?_, rfl⟩, Or.inl rfl⟩
      simpa using h.rooms.keys r
    · exact ⟨h, Or.inl rfl⟩
  | visit room =>
    have hleft : Bytes.utf8 room ∈ s.sweep.left ↔ room ∈ t.sweep.left := by
      rw [h.left]
      constructor
      · rintro ⟨room', hroom, heq⟩
        rwa [Bytes.utf8_inj heq]
      · exact fun hroom => ⟨room, hroom, rfl⟩
    have hidle : s.sweep.visiting = none ↔ t.sweep.visiting = none := by
      rw [h.visiting, Option.map_eq_none_iff]
    simp only [Rust.step, Go.step, hleft, hidle]
    split
    · refine ⟨⟨h.next, h.clients, h.rooms, fun r => ?_, rfl⟩, Or.inl ?_⟩
      · simp only [Finset.mem_erase, h.left]
        constructor
        · rintro ⟨hne, room', hroom, rfl⟩
          exact ⟨room', ⟨fun heq => hne (congrArg _ heq), hroom⟩, rfl⟩
        · rintro ⟨room', ⟨hne, hroom⟩, rfl⟩
          exact ⟨fun heq => hne (Bytes.utf8_inj heq), room', hroom, rfl⟩
      · rw [sweepInvocation_eq]
        rfl
    · exact ⟨h, Or.inl rfl⟩
  | swept reply =>
    simp only [Rust.step, Go.step, h.visiting]
    cases hv : t.sweep.visiting with
    | none => exact ⟨h, Or.inl rfl⟩
    | some room =>
      have hdone : Together { t with sweep := { t.sweep with visiting := none } }
          { s with sweep := { s.sweep with visiting := none } } := ⟨h.next, h.clients, h.rooms, h.left, rfl⟩
      cases reply with
      | error => exact ⟨hdone, Or.inl rfl⟩
      | unreadable => exact ⟨hdone, Or.inl rfl⟩
      | timeline tl dup =>
        simp only [Option.map_some, frameOf_eq go rust]
        refine ⟨?_, Or.inl rfl⟩
        split
        · exact hdone.broadcast room _
        · exact hdone

/-- **An input that divides the relays** leaves them with other connections. -/
theorem divided (h : Together t s) (go rust : Numerals) (input : Input)
    (hd : Divides ((Rust.relay rust).event t input)) :
    ¬Same (Rust.step rust t input).1 (Go.step go s input).1 := by
  intro hsame
  cases hd with
  | accept id named m hact hm =>
    obtain rfl : input = .accept id named m := hact
    have hnext := hsame.next
    have hbefore := h.next
    simp only [Rust.step, Go.step] at hnext
    rw [Machine.event_pre] at hm
    cases hrust : t.snapshot.revoked id <;> cases hgo : Go.revoked m (Go.identity id)
    · exact hm (hrust.trans hgo.symm)
    · simp only [hrust, hgo, if_true, Bool.false_eq_true, if_false] at hnext
      omega
    · simp only [hrust, hgo, if_true, Bool.false_eq_true, if_false] at hnext
      omega
    · exact hm (hrust.trans hgo.symm)
  | expire now m c q hact hq hlive hexp hm =>
    obtain rfl : input = .expire now m := hact
    rw [Machine.event_pre] at hq hm
    rcases h.conn c with ⟨hq', -⟩ | ⟨q', p, hq', hp, hc⟩
    · rw [hq] at hq'
      cases hq'
    obtain rfl : q = q' := Option.some.inj (hq.symm.trans hq')
    have hclient := hsame.clients c
    simp only [Rust.step, Go.step, Rust.Server.evict, Go.Server.evict, hq, hp, Option.map_some] at hclient
    cases hclient with
    | some hclient =>
      have hevicted := hclient.evicted
      have hlate : (Go.identity q.identity).exp = q.identity.exp := rfl
      simp only [hc.id, hlate, decide_eq_false (not_le.mpr hexp), Bool.false_or] at hevicted
      have hgone : q.evict.evicted = true := rfl
      cases hrust : t.snapshot.revoked q.identity <;> cases hgo : Go.revoked m (Go.identity q.identity)
      · exact hm (hrust.trans hgo.symm)
      · simp [hrust, hgo, hlive] at hevicted
      · simp [hrust, hgo, hgone, hc.evicted, hlive] at hevicted
      · exact hm (hrust.trans hgo.symm)
  | gate c data now t₁ t₂ q hact hq hlive hidle hdata hgate hfull =>
    obtain rfl : input = .receive c data now t₁ t₂ := hact
    rw [Machine.event_pre] at hq hgate
    rcases h.conn c with ⟨hq', -⟩ | ⟨q', p, hq', hp, hc⟩
    · rw [hq] at hq'
      cases hq'
    obtain rfl : q = q' := Option.some.inj (hq.symm.trans hq')
    have hclient := hsame.clients c
    have hrust : (Rust.step rust t (.receive c data now t₁ t₂)).1.conns c = none := by
      simp only [Rust.step, Rust.Server.receive, hq]
      rw [if_neg (by simp [hlive, hidle]), if_neg (by simpa using hdata), if_pos hgate]
      exact Function.update_self ..
    have hgo : (Go.step go s (.receive c data now t₁ t₂)).1.conns c ≠ none := by
      have hlength : ¬data.length < 1 := by
        rw [not_lt]
        exact List.length_pos_iff.mpr hdata
      simp only [Go.step, Go.Server.receive, hp]
      rw [if_neg (by simp [hc.evicted, hc.waiting, hlive, hidle]), if_neg hlength]
      split
      · rename_i hping
        split
        · rw [hp]
          exact Option.some_ne_none _
        · rename_i hshort
          have hsend : p.send.length < 256 := by
            by_contra hsend
            refine hfull ⟨hping, by omega, ?_⟩
            rw [(hc.queue hlive).2, List.length_map]
            exact not_lt.mp hsend
          simp [Go.Server.proceed, Go.Server.trySend, hp, Go.Client.offer, hsend]
      · split
        · rw [hp]
          exact Option.some_ne_none _
        · simp
    rw [hrust] at hclient
    cases hgone : (Go.step go s (.receive c data now t₁ t₂)).1.conns c with
    | none => exact hgo hgone
    | some p' =>
      rw [hgone] at hclient
      cases hclient

end Together

theorem together_init (go rust : Numerals) : Together (Rust.relay rust).init (Go.relay go).init where
  next := rfl
  clients c := .none
  rooms := by
    refine ⟨[], [], Rust.run_exact [], Go.run_exact [], fun c => rfl⟩
  left r := by simp [Rust.relay, Go.relay]
  visiting := rfl

/-- **The relays agree exactly where they judge the tokens alike.** Given the same inputs in the same order, they call the
same scripts with the same keys and arguments, write the same frames to the same connections, and keep the same
connections and rooms, event by event, if and only if no input divides them: every message that a handler reads is of a
token that the snapshot of the rust relay still accepts, and that snapshot and the mirror in Redis judge each token that
is accepted or swept alike. -/
theorem relays_agree_iff (go rust : Numerals) (inputs : List Input) :
    List.Forall₂ Alike ((Rust.relay rust).trace inputs) ((Go.relay go).trace inputs) ↔
      ∀ e ∈ (Rust.relay rust).trace inputs, ¬Divides e := by
  refine (Rust.relay rust).refines_iff (Go.relay go) (R := Together) (together_init go rust) ?_ ?_ inputs
  · intro t s input h
    constructor
    · exact fun halike hd => h.divided go rust input hd halike.1
    · intro hd
      obtain ⟨hstate, hout⟩ := h.step go rust input hd
      exact ⟨hstate.same, hout⟩
  · exact fun t s input h hd => (h.step go rust input hd).1

end Relay
end WatchParty
