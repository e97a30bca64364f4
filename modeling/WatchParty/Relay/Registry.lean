import WatchParty.Lib.Machine
import WatchParty.Lib.OrderedMap
import WatchParty.Relay.Frames

/-!
# The rooms of the relays

`joinRoom`, `leave` and `broadcast` of `relay-go/main.go`, and `join_room`, `leave` and `broadcast` of
`relay-rs/src/main.rs`. A section that holds the lock is one step, and a run is any interleaving of the connections'.

- `latestJoin` and `Orderly` are about the steps alone, `seat` is the room that they leave a connection in;
- `Seats` says that the rooms tell the same; `seats_move` and `seats_vacate` keep it;
- `registries_exact` is the result for both relays.
-/

namespace WatchParty
namespace Relay

/-- A locked section: a connection joins a room whose name was checked, a frame goes to a room, a handler is over. -/
inductive RoomOp (C : Type) {S : Type} (isName : S → Bool)
  | join (c : C) (room : {room : S // isName room = true})
  | broadcast (room : S)
  | teardown (c : C)

section Steps

variable {C S : Type} [DecidableEq C] {isName : S → Bool}

/-- The room of the connection's latest join. -/
def latestJoin (c : C) (ops : List (RoomOp C isName)) : Option S :=
  ops.foldl (fun last op =>
    match op with
    | .join c' room => if c' = c then some room.1 else last
    | _ => last) none

/-- A handler that is over joins no room: its read loop has returned. -/
def Orderly (ops : List (RoomOp C isName)) : Prop :=
  ops.Pairwise fun op op' => ∀ c room, op = .teardown c → op' ≠ .join c room

/-- The room that a step leaves each connection in. -/
def seatAfter (op : RoomOp C isName) (at' : C → Option S) : C → Option S :=
  match op with
  | .join c room => Function.update at' c (some room.1)
  | .broadcast _ => at'
  | .teardown c => Function.update at' c none

def seat (ops : List (RoomOp C isName)) : C → Option S := ops.foldl (fun at' op => seatAfter op at') fun _ => none

theorem seat_snoc (ops : List (RoomOp C isName)) (op : RoomOp C isName) :
    seat (ops ++ [op]) = seatAfter op (seat ops) := by
  simp [seat]

theorem latestJoin_snoc (c : C) (ops : List (RoomOp C isName)) (op : RoomOp C isName) :
    latestJoin c (ops ++ [op]) =
      match op with
      | .join c' room => if c' = c then some room.1 else latestJoin c ops
      | _ => latestJoin c ops := by
  simp only [latestJoin, List.foldl_append, List.foldl_cons, List.foldl_nil]

/-- A connection is left in the room of its latest join until its handler is over. -/
theorem seat_eq {ops : List (RoomOp C isName)} {c : C} {r : S} : Orderly ops →
    (seat ops c = some r ↔ latestJoin c ops = some r ∧ .teardown c ∉ ops) := by
  induction ops using List.reverseRecOn with
  | nil => simp [seat, latestJoin]
  | append_singleton ops op ih =>
    intro ho
    obtain ⟨hbefore, -, hlast⟩ := List.pairwise_append.mp ho
    have ih := ih hbefore
    rw [seat_snoc, latestJoin_snoc]
    cases op with
    | broadcast room => simpa [seatAfter] using ih
    | join c' room =>
      by_cases hc : c' = c
      · subst hc
        have hopen : .teardown c' ∉ ops := fun hmem =>
          hlast _ hmem _ (List.mem_singleton_self _) c' room rfl rfl
        simp [seatAfter, hopen]
      · simpa [seatAfter, hc, Function.update_of_ne (Ne.symm hc)] using ih
    | teardown c' =>
      by_cases hc : c' = c
      · subst hc
        simp [seatAfter]
      · simpa [seatAfter, Function.update_of_ne (Ne.symm hc), Ne.symm hc] using ih

/-! ## Rooms -/

variable {K V : Type} [DecidableEq K] [DecidableEq S]

/-- The rooms are those that the connections are in. -/
def Seats (rooms : OrderedMap S (OrderedMap K V)) (at' : K → Option S) : Prop :=
  ∀ r c, (rooms.getIn r c).isSome = true ↔ at' c = some r

variable {rooms : OrderedMap S (OrderedMap K V)} {at' : K → Option S} {c : K} {room : S} {v : V}

/-- A connection that is in one room at most is taken out of that room. -/
theorem seats_vacate (h : Seats rooms at') (hc : ∀ r, at' c = some r → r = room) :
    Seats (rooms.deleteIn room c) (Function.update at' c none) := by
  intro r k
  rw [OrderedMap.getIn_deleteIn]
  by_cases hk : k = c
  · subst hk
    by_cases hr : r = room
    · simp [hr]
    · simp only [hr, false_and, if_false, Function.update_self, reduceCtorEq, iff_false]
      exact fun hin => hr (hc r ((h r k).mp hin))
  · simpa [hk, Function.update_of_ne hk] using h r k

/-- A connection that is in no room is put into one. -/
theorem seats_enter (h : Seats rooms at') (hc : at' c = none) (room : S) (v : V) :
    Seats (rooms.setIn room c v) (Function.update at' c (some room)) := by
  intro r k
  rw [OrderedMap.getIn_setIn]
  by_cases hk : k = c
  · subst hk
    by_cases hr : r = room
    · simp [hr]
    · have hout : ¬(rooms.getIn r k).isSome = true := fun hin => by
        rw [(h r k).mp hin] at hc
        cases hc
      simpa [hr, Ne.symm hr] using hout
  · simpa [hk, Function.update_of_ne hk] using h r k

/-- A connection moves from the room that it is in, if any. -/
theorem seats_move (h : Seats (K := K) (V := V) rooms (Function.update at' c none)) :
    Seats (rooms.setIn room c v) (Function.update at' c (some room)) := by
  have hmoved := seats_enter h (Function.update_self ..) room v
  rwa [Function.update_idem] at hmoved

end Steps

/-! ## The go relay -/

namespace Go

/-- The rooms, and the room that a connection remembers: its zero value is no room. -/
structure Rooms (C : Type) where
  rooms : OrderedMap (List UInt8) (OrderedMap C Unit)
  room : C → List UInt8

variable {C : Type} [DecidableEq C]

/-- `delete(s.rooms[c.room], c)`, and the room itself when it is then empty. -/
def vacate (s : Rooms C) (c : C) : OrderedMap (List UInt8) (OrderedMap C Unit) :=
  if s.room c ≠ [] then s.rooms.deleteIn (s.room c) c else s.rooms

def joinRoom (c : C) (room : List UInt8) (s : Rooms C) : Rooms C :=
  { rooms := (vacate s c).setIn room c (), room := Function.update s.room c room }

def leave (c : C) (s : Rooms C) : Rooms C := { s with rooms := vacate s c }

/-- The connections that the frame is offered to. -/
def broadcast (room : List UInt8) (s : Rooms C) : List C := ((s.rooms.get room).map OrderedMap.keys).getD []

def roomStep (s : Rooms C) : RoomOp C roomPattern → Rooms C × List C
  | .join c room => (joinRoom c room.1 s, [])
  | .broadcast room => (s, broadcast room s)
  | .teardown c => (leave c s, [])

def registry (C : Type) [DecidableEq C] : Machine (Rooms C) (RoomOp C roomPattern) (List C) :=
  ⟨⟨.empty, fun _ => []⟩, roomStep⟩

/-- A connection remembers the room that it is in; the rooms tell the same, and none is empty. -/
structure Exact (ops : List (RoomOp C roomPattern)) (s : Rooms C) : Prop where
  remembered : ∀ c r, seat ops c = some r → s.room c = r ∧ r ≠ []
  seats : Seats s.rooms (seat ops)
  full : s.rooms.Full

theorem name_ne_nil {room : List UInt8} (h : roomPattern room = true) : room ≠ [] := by
  have hid := (cmdIDPattern_iff room).mp h
  exact List.ne_nil_of_length_pos hid.1

theorem vacate_exact {ops : List (RoomOp C roomPattern)} {s : Rooms C} (h : Exact ops s) (c : C) :
    Seats (vacate s c) (Function.update (seat ops) c none) ∧ (vacate s c).Full := by
  unfold vacate
  split
  · exact ⟨seats_vacate h.seats fun r hr => (h.remembered c r hr).1.symm, OrderedMap.full_deleteIn h.full _ _⟩
  · rename_i hroom
    have hnone : seat ops c = none := by
      cases hs : seat ops c with
      | none => rfl
      | some r =>
        obtain ⟨rfl, hne⟩ := h.remembered c r hs
        exact absurd hne hroom
    rw [← hnone, Function.update_eq_self]
    exact ⟨h.seats, h.full⟩

/-- **One step.** -/
theorem exact_step {ops : List (RoomOp C roomPattern)} {s : Rooms C} (h : Exact ops s) (op : RoomOp C roomPattern) :
    Exact (ops ++ [op]) (roomStep s op).1 := by
  cases op with
  | broadcast room =>
    refine ⟨?_, ?_, h.full⟩
    · rw [seat_snoc]
      exact h.remembered
    · rw [seat_snoc]
      exact h.seats
  | teardown c =>
    obtain ⟨hseats, hfull⟩ := vacate_exact h c
    refine ⟨fun c' r hr => ?_, ?_, hfull⟩
    · rw [seat_snoc] at hr
      by_cases hc : c' = c
      · subst hc
        simp [seatAfter] at hr
      · simp only [seatAfter, Function.update_of_ne hc] at hr
        exact h.remembered c' r hr
    · rw [seat_snoc]
      exact hseats
  | join c room =>
    obtain ⟨hseats, hfull⟩ := vacate_exact h c
    refine ⟨fun c' r hr => ?_, ?_, OrderedMap.full_setIn hfull _ _ _⟩
    · rw [seat_snoc] at hr
      by_cases hc : c' = c
      · subst hc
        simp only [seatAfter, Function.update_self, Option.some.injEq] at hr
        subst hr
        exact ⟨Function.update_self .., name_ne_nil room.2⟩
      · simp only [seatAfter, Function.update_of_ne hc] at hr
        have hremembered := h.remembered c' r hr
        change Function.update s.room c room.1 c' = r ∧ r ≠ []
        rwa [Function.update_of_ne hc]
    · rw [seat_snoc]
      exact seats_move hseats

/-- Every run. -/
theorem run_exact (ops : List (RoomOp C roomPattern)) : Exact ops ((registry C).run ops) := by
  induction ops using List.reverseRecOn with
  | nil =>
    refine ⟨fun c r hr => ?_, fun r c => ?_, fun r n hn => ?_⟩
    · cases hr
    · simp [registry, OrderedMap.getIn, seat]
    · cases hn
  | append_singleton ops op ih =>
    rw [Machine.run_snoc]
    exact exact_step ih op

/-- A frame is offered once to each connection in the room. -/
theorem broadcast_exact (s : Rooms C) (room : List UInt8) :
    (broadcast room s).Nodup ∧ ∀ c, c ∈ broadcast room s ↔ (s.rooms.getIn room c).isSome = true := by
  unfold broadcast OrderedMap.getIn
  cases s.rooms.get room with
  | none => simp
  | some n => exact ⟨n.nodup, fun c => OrderedMap.has_iff.symm⟩

end Go

/-! ## The rust relay -/

namespace Rust

structure Conn where
  id : ℕ
  deriving DecidableEq, Repr

/-- The rooms, with their connections by id, and the room in the lock of each connection. -/
structure Rooms where
  rooms : OrderedMap String (OrderedMap ℕ Conn)
  room : ℕ → Option String

/-- The connection is removed from the room that was taken out of its lock. -/
def vacate (s : Rooms) (c : Conn) : OrderedMap String (OrderedMap ℕ Conn) :=
  match s.room c.id with
  | some prev => s.rooms.deleteIn prev c.id
  | none => s.rooms

def join_room (c : Conn) (room : String) (s : Rooms) : Rooms :=
  { rooms := (vacate s c).setIn room c.id c, room := Function.update s.room c.id (some room) }

def leave (c : Conn) (s : Rooms) : Rooms := { rooms := vacate s c, room := Function.update s.room c.id none }

/-- The connections that the frame is offered to. -/
def broadcast (room : String) (s : Rooms) : List Conn := ((s.rooms.get room).map OrderedMap.values).getD []

def roomStep (s : Rooms) : RoomOp Conn is_valid_id → Rooms × List Conn
  | .join c room => (join_room c room.1 s, [])
  | .broadcast room => (s, broadcast room s)
  | .teardown c => (leave c s, [])

def registry : Machine Rooms (RoomOp Conn is_valid_id) (List Conn) := ⟨⟨.empty, fun _ => none⟩, roomStep⟩

/-- The lock of a connection has the room that it is in; the rooms tell the same, with every connection under its id, and
none is empty. -/
structure Exact (ops : List (RoomOp Conn is_valid_id)) (s : Rooms) : Prop where
  locked : ∀ c : Conn, s.room c.id = seat ops c
  seats : Seats s.rooms s.room
  full : s.rooms.Full
  keyed : ∀ r id c, s.rooms.getIn r id = some c → c.id = id

theorem vacate_exact {ops : List (RoomOp Conn is_valid_id)} {s : Rooms} (h : Exact ops s) (c : Conn) :
    Seats (vacate s c) (Function.update s.room c.id none) ∧ (vacate s c).Full ∧
      ∀ r id c', (vacate s c).getIn r id = some c' → c'.id = id := by
  unfold vacate
  cases hroom : s.room c.id with
  | none =>
    have hsame : Function.update s.room c.id none = s.room := by rw [← hroom, Function.update_eq_self]
    rw [hsame]
    exact ⟨h.seats, h.full, h.keyed⟩
  | some prev =>
    refine ⟨seats_vacate h.seats fun r hr => ?_, OrderedMap.full_deleteIn h.full _ _, fun r id c' hin => ?_⟩
    · exact Option.some.inj (hr.symm.trans hroom)
    · rw [OrderedMap.getIn_deleteIn] at hin
      split at hin
      · cases hin
      · exact h.keyed r id c' hin

theorem update_id (at' : ℕ → Option String) (f : Conn → Option String) (h : ∀ c : Conn, at' c.id = f c) (c : Conn)
    (r : Option String) (c' : Conn) : Function.update at' c.id r c'.id = Function.update f c r c' := by
  by_cases hc : c' = c
  · subst hc
    simp
  · have hid : c'.id ≠ c.id := fun he => hc (by cases c; cases c'; exact congrArg Conn.mk he)
    rw [Function.update_of_ne hc, Function.update_of_ne hid, h]

/-- **One step.** -/
theorem exact_step {ops : List (RoomOp Conn is_valid_id)} {s : Rooms} (h : Exact ops s)
    (op : RoomOp Conn is_valid_id) : Exact (ops ++ [op]) (roomStep s op).1 := by
  cases op with
  | broadcast room =>
    refine ⟨fun c => ?_, h.seats, h.full, h.keyed⟩
    rw [seat_snoc]
    exact h.locked c
  | teardown c =>
    obtain ⟨hseats, hfull, hkeyed⟩ := vacate_exact h c
    refine ⟨fun c' => ?_, hseats, hfull, hkeyed⟩
    rw [seat_snoc]
    exact update_id s.room (seat ops) h.locked c none c'
  | join c room =>
    obtain ⟨hseats, hfull, hkeyed⟩ := vacate_exact h c
    refine ⟨fun c' => ?_, seats_move hseats, OrderedMap.full_setIn hfull _ _ _, fun r id c' hin => ?_⟩
    · rw [seat_snoc]
      exact update_id s.room (seat ops) h.locked c (some room.1) c'
    · change ((vacate s c).setIn room.1 c.id c).getIn r id = some c' at hin
      rw [OrderedMap.getIn_setIn] at hin
      split at hin
      · rename_i hat
        obtain rfl := Option.some.inj hin
        exact hat.2.symm
      · exact hkeyed r id c' hin

/-- Every run. -/
theorem run_exact (ops : List (RoomOp Conn is_valid_id)) : Exact ops (registry.run ops) := by
  induction ops using List.reverseRecOn with
  | nil =>
    refine ⟨fun c => rfl, fun r c => ?_, fun r n hn => ?_, fun r id c hin => ?_⟩
    · simp [registry, OrderedMap.getIn]
    · cases hn
    · cases hin
  | append_singleton ops op ih =>
    rw [Machine.run_snoc]
    exact exact_step ih op

/-- A frame is offered once to each connection in the room. -/
theorem broadcast_exact {ops : List (RoomOp Conn is_valid_id)} {s : Rooms} (h : Exact ops s) (room : String) :
    (broadcast room s).Nodup ∧ ∀ c, c ∈ broadcast room s ↔ (s.rooms.getIn room c.id).isSome = true := by
  have hkeyed := h.keyed room
  unfold OrderedMap.getIn at hkeyed
  unfold broadcast OrderedMap.getIn
  cases hn : s.rooms.get room with
  | none => simp
  | some n =>
    rw [hn] at hkeyed
    simp only [Option.bind_some] at hkeyed
    have hids : n.values.map Conn.id = n.keys := by
      unfold OrderedMap.values OrderedMap.keys
      rw [List.map_map]
      exact List.map_congr_left fun e he => hkeyed e.1 e.2 (OrderedMap.get_eq_some.mpr he)
    refine ⟨List.Nodup.of_map Conn.id ?_, fun c => ?_⟩
    · simp only [Option.map_some, Option.getD_some]
      rw [hids]
      exact n.nodup
    · simp only [Option.map_some, Option.getD_some, Option.bind_some, OrderedMap.mem_values, Option.isSome_iff_exists]
      constructor
      · rintro ⟨id, hget⟩
        exact ⟨c, hkeyed id c hget ▸ hget⟩
      · rintro ⟨c', hget⟩
        obtain rfl : c' = c := by
          have hid := hkeyed c.id c' hget
          cases c; cases c'; exact congrArg Conn.mk hid
        exact ⟨c'.id, hget⟩

end Rust

/-! ## Runs -/

/-- **The registries are exact**, in both relays and for every interleaving: a connection is in a room exactly when it is
the room of its latest join and its handler is not over; no empty room is kept; and a frame is offered once to each
connection in the room and to no other. -/
theorem registries_exact :
    (∀ (C : Type) [DecidableEq C] (ops : List (RoomOp C Go.roomPattern)), Orderly ops →
      (∀ c r, (((Go.registry C).run ops).rooms.getIn r c).isSome = true ↔
        latestJoin c ops = some r ∧ .teardown c ∉ ops) ∧
      ((Go.registry C).run ops).rooms.Full ∧
      ∀ e ∈ (Go.registry C).trace ops, ∀ room, e.act = .broadcast room →
        e.out.Nodup ∧ ∀ c, c ∈ e.out ↔ (e.pre.rooms.getIn room c).isSome = true) ∧
    ∀ ops : List (RoomOp Rust.Conn Rust.is_valid_id), Orderly ops →
      (∀ c r, ((Rust.registry.run ops).rooms.getIn r c.id).isSome = true ↔
        latestJoin c ops = some r ∧ .teardown c ∉ ops) ∧
      (Rust.registry.run ops).rooms.Full ∧
      ∀ e ∈ Rust.registry.trace ops, ∀ room, e.act = .broadcast room →
        e.out.Nodup ∧ ∀ c, c ∈ e.out ↔ (e.pre.rooms.getIn room c.id).isSome = true := by
  constructor
  · intro C _ ops ho
    have hexact := Go.run_exact ops
    refine ⟨fun c r => (hexact.seats r c).trans (seat_eq ho), hexact.full, ?_⟩
    intro e he room hact
    obtain ⟨before, op, -, rfl⟩ := (Go.registry C).mem_trace he
    obtain rfl : op = .broadcast room := hact
    exact Go.broadcast_exact _ room
  · intro ops ho
    have hexact := Rust.run_exact ops
    refine ⟨fun c r => ?_, hexact.full, ?_⟩
    · rw [hexact.seats r c.id, hexact.locked c]
      exact seat_eq ho
    · intro e he room hact
      obtain ⟨before, op, -, rfl⟩ := Rust.registry.mem_trace he
      obtain rfl : op = .broadcast room := hact
      exact Rust.broadcast_exact (Rust.run_exact before) room

/-- Two connections of the rust relay, of which the first changes rooms and then leaves. -/
theorem registries_exact_left :
    ((Rust.registry.run [.join ⟨1⟩ ⟨"a", by decide +kernel⟩, .join ⟨2⟩ ⟨"b", by decide +kernel⟩,
        .join ⟨1⟩ ⟨"b", by decide +kernel⟩, .broadcast "b", .teardown ⟨1⟩]).rooms.getIn "b" 1).isSome = false := by
  rw [← Bool.not_eq_true]
  intro hin
  have hexact := registries_exact.2 [.join ⟨1⟩ ⟨"a", by decide +kernel⟩, .join ⟨2⟩ ⟨"b", by decide +kernel⟩,
    .join ⟨1⟩ ⟨"b", by decide +kernel⟩, .broadcast "b", .teardown ⟨1⟩] (by simp [Orderly])
  exact ((hexact.1 ⟨1⟩ "b").mp hin).2 (by simp)

end Relay
end WatchParty
