import WatchParty.Lib.Bytes
import WatchParty.Lib.Doubles
import WatchParty.Sync.Timeline

/-!
# Client frames on the wire

The frames of a client as the two relays read them and as the harness writes them: `parseControl` and the join and
control cases of `handle` in `relay-go/main.go`, `parse_control` and the same cases in `relay-rs/src/main.rs`, and `join`
and `sendControl` of `RawWSBinaryTransport` in `sync-harness/src/bots/transport.ts`. A `Float` is its bits; a string of
go is any bytes, one of rust is UTF-8.

- `Go.handle`, `Rust.handle`: the frame that a binary message is accepted as;
- `Grammar` is the documented layout;
- `controlFields` is the part of both parsers that does not look into the texts (`controlFields_iff`);
- `Go.handle_iff`, `Rust.handle_iff`: each relay accepts the grammar; `frames_conform` adds what the harness emits.
-/

namespace WatchParty
namespace Relay

/-- A frame that a handler acts on, with the strings of its language. -/
inductive ClientFrame (S : Type)
  | join (room : S)
  | control (intent : ControlIntent) (mediaTime : Float) (room cmdId : S)
  deriving DecidableEq

def ClientFrame.map {S T : Type} (f : S → T) : ClientFrame S → ClientFrame T
  | .join room => .join (f room)
  | .control intent mediaTime room cmdId => .control intent mediaTime (f room) (f cmdId)

/-- The characters `[A-Za-z0-9_-]`, by their code. -/
def idCode (n : ℕ) : Bool :=
  (48 ≤ n && n ≤ 57) || (65 ≤ n && n ≤ 90) || (97 ≤ n && n ≤ 122) || n == 95 || n == 45

/-- The byte at an index that the length was checked for. -/
def byteAt (data : List UInt8) (i : ℕ) : UInt8 := data.getD i 0

/-- `Float64frombits` of `LittleEndian.Uint64`, and `f64::from_le_bytes`. -/
def doubleLE (bs : List UInt8) : Float := Float.ofBits (UInt64.ofNat (Bytes.ofLE bs))

/-! ## The go relay -/

namespace Go

/-- `cmdIDPattern.MatchString`: a pattern is matched against the runes of a string. -/
def cmdIDPattern (s : List UInt8) : Bool :=
  let rs := Bytes.runes s
  decide (1 ≤ rs.length) && decide (rs.length ≤ 64) && rs.all fun r => idCode r.toNat

def roomPattern (s : List UInt8) : Bool := cmdIDPattern s

def parseControl (data : List UInt8) : Option (ControlIntent × Float × List UInt8 × List UInt8) :=
  if data.length < 11 then none
  else if byteAt data 1 > 2 then none
  else
    let intent := [ControlIntent.play, .pause, .seek].getD (byteAt data 1).toNat .play
    let mediaTime := doubleLE (Bytes.slice data 2 8)
    if mediaTime.isNaN = true ∨ mediaTime.isInf = true ∨ mediaTime < 0 then none
    else
      let n := (byteAt data 10).toNat
      if data.length < 11 + n then none
      else
        let room := Bytes.slice data 11 n
        if data.length = 11 + n then some (intent, mediaTime, room, [])
        else
          let cl := (byteAt data (11 + n)).toNat
          if cl = 0 ∨ cl > 64 ∨ data.length ≠ 12 + n + cl then none
          else
            let cmdID := Bytes.slice data (12 + n) cl
            if cmdIDPattern cmdID = false then none else some (intent, mediaTime, room, cmdID)

/-- The frame that `handle` acts on. -/
def handle (data : List UInt8) : Option (ClientFrame (List UInt8)) :=
  if data.length < 1 then none
  else if byteAt data 0 = 0x05 then
    if data.length < 2 then none
    else
      let n := (byteAt data 1).toNat
      if data.length ≠ 2 + n then none
      else
        let room := Bytes.slice data 2 n
        if roomPattern room = false then none else some (.join room)
  else if byteAt data 0 = 0x03 then
    match parseControl data with
    | none => none
    | some (intent, mediaTime, room, cmdID) =>
      if roomPattern room = false then none else some (.control intent mediaTime room cmdID)
  else none

end Go

/-! ## The rust relay -/

namespace Rust

/-- The `match` of the intent byte. -/
def intent (code : UInt8) : Option ControlIntent :=
  if code = 0 then some .play else if code = 1 then some .pause else if code = 2 then some .seek else none

def is_valid_id (s : String) : Bool :=
  !(Bytes.utf8 s).isEmpty && decide ((Bytes.utf8 s).length ≤ 64) && (Bytes.utf8 s).all fun b => idCode b.toNat

def parse_control (data : List UInt8) : Option (ControlIntent × Float × String × String) :=
  if data.length < 11 then none
  else
    match intent (byteAt data 1) with
    | none => none
    | some intent =>
      let media_time := doubleLE (Bytes.slice data 2 8)
      if media_time.isFinite = false ∨ media_time < 0 then none
      else
        let n := (byteAt data 10).toNat
        if data.length < 11 + n then none
        else
          match Bytes.fromUtf8? (Bytes.slice data 11 n) with
          | none => none
          | some room =>
            if data.length = 11 + n then some (intent, media_time, room, "")
            else
              let cl := (byteAt data (11 + n)).toNat
              if cl = 0 ∨ cl > 64 ∨ data.length ≠ 12 + n + cl then none
              else
                match Bytes.fromUtf8? (Bytes.slice data (12 + n) cl) with
                | none => none
                | some cmd_id => if is_valid_id cmd_id = false then none else some (intent, media_time, room, cmd_id)

/-- The frame that the read loop acts on. -/
def handle (data : List UInt8) : Option (ClientFrame String) :=
  if data.isEmpty then none
  else if byteAt data 0 = 0x05 then
    if data.length < 2 then none
    else
      let n := (byteAt data 1).toNat
      if data.length ≠ 2 + n then none
      else
        match Bytes.fromUtf8? (Bytes.slice data 2 n) with
        | none => none
        | some room => if is_valid_id room = true then some (.join room) else none
  else if byteAt data 0 = 0x03 then
    match parse_control data with
    | none => none
    | some (intent, media_time, room, cmd_id) =>
      if is_valid_id room = true then some (.control intent media_time room cmd_id) else none
  else none

end Rust

/-! ## The harness -/

namespace Transport

/-- `buf.writeUInt8`; a value or an offset out of range throws. -/
def writeUInt8 (buf : List UInt8) (value : ℤ) (offset : ℕ) : Option (List UInt8) :=
  if 0 ≤ value ∧ value ≤ 255 ∧ offset + 1 ≤ buf.length then
    some (Bytes.put buf offset [UInt8.ofNat value.toNat])
  else none

/-- `buf.writeDoubleLE`. -/
def writeDoubleLE (buf : List UInt8) (value : Float) (offset : ℕ) : Option (List UInt8) :=
  if offset + 8 ≤ buf.length then some (Bytes.put buf offset (Bytes.le 8 value.toBits.toNat)) else none

def INTENTS : List ControlIntent := [.play, .pause, .seek]

/-- `INTENTS.indexOf`. -/
def indexOf (intent : ControlIntent) : ℤ :=
  match INTENTS.idxOf? intent with
  | some i => i
  | none => -1

/-- The frame that `join` sends. -/
def join (roomCode : String) : Option (List UInt8) := do
  let room := Bytes.utf8 roomCode
  let frame := List.replicate (2 + room.length) 0
  let frame ← writeUInt8 frame 0x05 0
  let frame ← writeUInt8 frame room.length 1
  return Bytes.put frame 2 room

/-- The frame that `sendControl` sends, if it is connected. -/
def sendControl (isConnected : Bool) (roomCode : String) (intent : ControlIntent) (mediaTime : Float)
    (cmdId : Option String) : Option (List UInt8) :=
  if isConnected = false then none
  else do
    let room := Bytes.utf8 roomCode
    let cmd := Bytes.utf8 (cmdId.getD "")
    let frame := List.replicate (11 + room.length + (if cmd.length ≠ 0 then 1 + cmd.length else 0)) 0
    let frame ← writeUInt8 frame 0x03 0
    let frame ← writeUInt8 frame (indexOf intent) 1
    let frame ← writeDoubleLE frame mediaTime 2
    let frame ← writeUInt8 frame room.length 10
    let frame := Bytes.put frame 11 room
    if cmd.length ≠ 0 then
      let frame ← writeUInt8 frame cmd.length (11 + room.length)
      return Bytes.put frame (12 + room.length) cmd
    else return frame

end Transport

/-! ## The documented layout -/

/-- `[A-Za-z0-9_-]{1,64}`, as bytes. -/
def IsId (s : List UInt8) : Prop := 1 ≤ s.length ∧ s.length ≤ 64 ∧ ∀ b ∈ s, idCode b.toNat = true

/-- The codes of the intents. -/
inductive IntentCode : UInt8 → ControlIntent → Prop
  | play : IntentCode 0 .play
  | pause : IntentCode 1 .pause
  | seek : IntentCode 2 .seek

/-- The frames of the protocol. -/
inductive Grammar : List UInt8 → ClientFrame (List UInt8) → Prop
  | join {room : List UInt8} (hr : IsId room) : Grammar (0x05 :: UInt8.ofNat room.length :: room) (.join room)
  | control {code : UInt8} {intent : ControlIntent} {m : Float} {room : List UInt8} (hi : IntentCode code intent)
      (hf : m.isFinite = true) (hn : ¬m < 0) (hr : IsId room) :
      Grammar (0x03 :: code :: (Bytes.le 8 m.toBits.toNat ++ UInt8.ofNat room.length :: room))
        (.control intent m room [])
  | controlWithId {code : UInt8} {intent : ControlIntent} {m : Float} {room cmdId : List UInt8}
      (hi : IntentCode code intent) (hf : m.isFinite = true) (hn : ¬m < 0) (hr : IsId room) (hc : IsId cmdId) :
      Grammar (0x03 :: code :: (Bytes.le 8 m.toBits.toNat ++ UInt8.ofNat room.length ::
          (room ++ UInt8.ofNat cmdId.length :: cmdId)))
        (.control intent m room cmdId)

/-! ## Identifiers -/

theorem lt_of_idCode {n : ℕ} (h : idCode n = true) : n < 128 := by
  simp only [idCode, Bool.or_eq_true, Bool.and_eq_true, decide_eq_true_eq, beq_iff_eq] at h
  omega

theorem runes_of_ids {s : List UInt8} (h : ∀ b ∈ s, idCode b.toNat = true) : Bytes.runes s = s.map Bytes.ascii := by
  induction s with
  | nil => rw [Bytes.runes, List.map_nil]
  | cons b s ih =>
    rw [Bytes.runes_ascii (lt_of_idCode (h b List.mem_cons_self)), List.map_cons,
      ih fun b' hb' => h b' (List.mem_cons_of_mem _ hb')]

/-- No byte that is not ASCII can hide in a string whose runes are all in the class. -/
theorem ids_of_runes {s : List UInt8} (h : ∀ r ∈ Bytes.runes s, idCode r.toNat = true) :
    ∀ b ∈ s, idCode b.toNat = true := by
  induction s with
  | nil => exact fun b hb => absurd hb List.not_mem_nil
  | cons b s ih =>
    rcases Nat.lt_or_ge b.toNat 128 with hb | hb
    · rw [Bytes.runes_ascii hb] at h
      intro b' hb'
      rcases List.mem_cons.mp hb' with rfl | hb'
      · rw [← Bytes.toNat_ascii]
        exact h _ List.mem_cons_self
      · exact ih (fun r hr => h r (List.mem_cons_of_mem _ hr)) b' hb'
    · obtain ⟨c, cs, hr, hc⟩ := Bytes.runes_of_le hb s
      rw [hr] at h
      have := lt_of_idCode (h c List.mem_cons_self)
      omega

/-- The pattern of the go relay accepts the identifiers, whatever bytes it is given. -/
theorem Go.cmdIDPattern_iff (s : List UInt8) : Go.cmdIDPattern s = true ↔ IsId s := by
  simp only [Go.cmdIDPattern, Bool.and_eq_true, decide_eq_true_eq, List.all_eq_true, and_assoc]
  constructor
  · rintro ⟨h1, h2, h3⟩
    have hs := ids_of_runes h3
    rw [runes_of_ids hs, List.length_map] at h1 h2
    exact ⟨h1, h2, hs⟩
  · rintro ⟨h1, h2, hs⟩
    rw [runes_of_ids hs, List.length_map]
    refine ⟨h1, h2, fun r hr => ?_⟩
    obtain ⟨b, hb, rfl⟩ := List.mem_map.mp hr
    rw [Bytes.toNat_ascii]
    exact hs b hb

theorem Rust.is_valid_id_iff (s : String) : Rust.is_valid_id s = true ↔ IsId (Bytes.utf8 s) := by
  simp only [Rust.is_valid_id, Bool.and_eq_true, decide_eq_true_eq, List.all_eq_true, and_assoc, Bool.not_eq_true',
    List.isEmpty_eq_false_iff, IsId, ← List.length_pos_iff]
  rfl

/-- Identifiers are UTF-8. -/
theorem IsId.fromUtf8? {s : List UInt8} (h : IsId s) : ∃ t, Bytes.fromUtf8? s = some t ∧ Bytes.utf8 t = s := by
  have ht := Bytes.fromUtf8?_ascii fun b hb => lt_of_idCode (h.2.2 b hb)
  exact ⟨_, ht, Bytes.utf8_of_fromUtf8? ht⟩

/-! ## The fields of a control frame -/

/-- The fields of a control frame, before their texts are looked into; the `cmdId` is optional. -/
def controlFields (data : List UInt8) : Option (ControlIntent × Float × List UInt8 × Option (List UInt8)) :=
  if data.length < 11 then none
  else
    match Rust.intent (byteAt data 1) with
    | none => none
    | some intent =>
      let m := doubleLE (Bytes.slice data 2 8)
      if m.isFinite = false ∨ m < 0 then none
      else
        let n := (byteAt data 10).toNat
        if data.length < 11 + n then none
        else if data.length = 11 + n then some (intent, m, Bytes.slice data 11 n, none)
        else
          let cl := (byteAt data (11 + n)).toNat
          if cl = 0 ∨ cl > 64 ∨ data.length ≠ 12 + n + cl then none
          else some (intent, m, Bytes.slice data 11 n, some (Bytes.slice data (12 + n) cl))

/-- The slice of the go relay and the match of the rust relay know the same codes. -/
theorem intent_cases (code : UInt8) :
    (code > 2 ∧ Rust.intent code = none) ∨
      ¬code > 2 ∧ Rust.intent code = some ([ControlIntent.play, .pause, .seek].getD code.toNat .play) := by
  by_cases h : code > 2
  · have h' : 2 < code.toNat := UInt8.lt_iff_toNat_lt.mp h
    refine .inl ⟨h, ?_⟩
    have hne : ∀ c : UInt8, c.toNat ≤ 2 → code ≠ c := by
      rintro c hc rfl
      omega
    simp [Rust.intent, hne 0 (by decide), hne 1 (by decide), hne 2 (by decide)]
  · have h' : code.toNat ≤ 2 := by
      rw [gt_iff_lt, UInt8.lt_iff_toNat_lt, not_lt] at h
      exact h
    refine .inr ⟨h, ?_⟩
    obtain rfl | rfl | rfl : code = 0 ∨ code = 1 ∨ code = 2 := by
      simp only [← UInt8.toNat_inj]
      change code.toNat = 0 ∨ code.toNat = 1 ∨ code.toNat = 2
      omega
    all_goals rfl

/-- The go parser checks the `cmdId` that it finds. -/
theorem Go.parseControl_eq (data : List UInt8) :
    Go.parseControl data =
      match controlFields data with
      | none => none
      | some (intent, m, room, none) => some (intent, m, room, [])
      | some (intent, m, room, some cmdId) =>
        if Go.cmdIDPattern cmdId = false then none else some (intent, m, room, cmdId) := by
  have hfin : ∀ m : Float, (m.isNaN = true ∨ m.isInf = true ∨ m < 0) ↔ (m.isFinite = false ∨ m < 0) := by
    intro m
    rw [Doubles.isFinite_eq]
    cases m.isNaN <;> cases m.isInf <;> simp
  unfold Go.parseControl controlFields
  simp only [hfin]
  rcases intent_cases (byteAt data 1) with ⟨h, hi⟩ | ⟨h, hi⟩
  · rw [hi, if_pos h]
    split <;> rfl
  · rw [hi, if_neg h]
    dsimp only
    split
    · rfl
    · split
      · rfl
      · split
        · rfl
        · split
          · rfl
          · split <;> rfl

/-- The rust parser decodes the room first, then the `cmdId` that it finds, and checks it. -/
theorem Rust.parse_control_eq (data : List UInt8) :
    Rust.parse_control data =
      match controlFields data with
      | none => none
      | some (intent, m, room, none) => (Bytes.fromUtf8? room).map fun room => (intent, m, room, "")
      | some (intent, m, room, some cmdId) =>
        (Bytes.fromUtf8? room).bind fun room =>
          (Bytes.fromUtf8? cmdId).bind fun cmd_id =>
            if Rust.is_valid_id cmd_id = false then none else some (intent, m, room, cmd_id) := by
  unfold Rust.parse_control controlFields
  split
  · rfl
  · cases Rust.intent (byteAt data 1) with
    | none => rfl
    | some intent =>
      dsimp only
      split
      · rfl
      · split
        · rfl
        · by_cases hend : data.length = 11 + (byteAt data 10).toNat
          · simp only [if_pos hend]
            cases Bytes.fromUtf8? (Bytes.slice data 11 (byteAt data 10).toNat) <;> rfl
          · simp only [if_neg hend]
            by_cases hcl : (byteAt data (11 + (byteAt data 10).toNat)).toNat = 0 ∨
                (byteAt data (11 + (byteAt data 10).toNat)).toNat > 64 ∨
                data.length ≠ 12 + (byteAt data 10).toNat + (byteAt data (11 + (byteAt data 10).toNat)).toNat
            · simp only [if_pos hcl]
              cases Bytes.fromUtf8? (Bytes.slice data 11 (byteAt data 10).toNat) <;> rfl
            · simp only [if_neg hcl]
              cases Bytes.fromUtf8? (Bytes.slice data 11 (byteAt data 10).toNat) with
              | none => rfl
              | some room =>
                dsimp only [Option.bind_some]
                cases Bytes.fromUtf8? (Bytes.slice data (12 + (byteAt data 10).toNat)
                  (byteAt data (11 + (byteAt data 10).toNat)).toNat) <;> rfl

/-! ## What the fields say about the bytes -/

/-- A control frame of at least eleven bytes: its head, and what comes after the length of the room. -/
theorem head_split {data : List UInt8} (h : 11 ≤ data.length) :
    ∃ tag code m roomLen rest, m.length = 8 ∧ data = tag :: code :: (m ++ roomLen :: rest) := by
  match data, h with
  | tag :: code :: m₀ :: m₁ :: m₂ :: m₃ :: m₄ :: m₅ :: m₆ :: m₇ :: roomLen :: rest, _ =>
    exact ⟨tag, code, [m₀, m₁, m₂, m₃, m₄, m₅, m₆, m₇], roomLen, rest, rfl, rfl⟩

section Head

variable {tag code roomLen : UInt8} {m : List UInt8} {rest : List UInt8}

theorem head_length (hm : m.length = 8) : (tag :: code :: (m ++ roomLen :: rest)).length = 11 + rest.length := by
  simp [hm]
  omega

theorem head_double (hm : m.length = 8) : Bytes.slice (tag :: code :: (m ++ roomLen :: rest)) 2 8 = m := by
  change Bytes.slice ([tag, code] ++ m ++ roomLen :: rest) 2 8 = m
  exact Bytes.slice_append rfl hm

theorem head_roomLen (hm : m.length = 8) : byteAt (tag :: code :: (m ++ roomLen :: rest)) 10 = roomLen := by
  simp [byteAt, hm]

theorem head_byteAt (hm : m.length = 8) (i : ℕ) :
    byteAt (tag :: code :: (m ++ roomLen :: rest)) (11 + i) = byteAt rest i := by
  simp only [byteAt, List.getD_eq_getElem?_getD]
  rw [show 11 + i = (i + 9) + 1 + 1 by omega, List.getElem?_cons_succ, List.getElem?_cons_succ,
    List.getElem?_append_right (by omega), hm, show i + 9 - 8 = i + 1 by omega, List.getElem?_cons_succ]

theorem head_slice (hm : m.length = 8) (i n : ℕ) :
    Bytes.slice (tag :: code :: (m ++ roomLen :: rest)) (11 + i) n = Bytes.slice rest i n := by
  unfold Bytes.slice
  rw [show 11 + i = (i + 9) + 1 + 1 by omega, List.drop_succ_cons, List.drop_succ_cons, List.drop_append,
    List.drop_eq_nil_of_le (by omega), hm, show i + 9 - 8 = i + 1 by omega, List.drop_succ_cons, List.nil_append]

/-- The fields of a frame, by its head and the bytes after the length of the room. -/
theorem controlFields_head (hm : m.length = 8) :
    controlFields (tag :: code :: (m ++ roomLen :: rest)) =
      match Rust.intent code with
      | none => none
      | some intent =>
        if (doubleLE m).isFinite = false ∨ doubleLE m < 0 then none
        else if rest.length < roomLen.toNat then none
        else if rest.length = roomLen.toNat then some (intent, doubleLE m, rest.take roomLen.toNat, none)
        else if (byteAt rest roomLen.toNat).toNat = 0 ∨ (byteAt rest roomLen.toNat).toNat > 64 ∨
            rest.length ≠ roomLen.toNat + (1 + (byteAt rest roomLen.toNat).toNat) then none
        else some (intent, doubleLE m, rest.take roomLen.toNat,
          some (Bytes.slice rest (roomLen.toNat + 1) (byteAt rest roomLen.toNat).toNat)) := by
  have hroom : Bytes.slice (tag :: code :: (m ++ roomLen :: rest)) 11 roomLen.toNat = rest.take roomLen.toNat :=
    head_slice hm 0 _
  have hcode : byteAt (tag :: code :: (m ++ roomLen :: rest)) 1 = code := rfl
  unfold controlFields
  rw [head_length hm, if_neg (by omega), hcode]
  simp only [head_double hm, head_roomLen hm, hroom, head_byteAt hm, Nat.add_lt_add_iff_left, Nat.add_left_cancel_iff,
    show ∀ n, 12 + n = 11 + (n + 1) from fun n => by omega, head_slice hm, add_assoc, ne_eq]

end Head

/-- The bytes of an optional `cmdId`. -/
def suffix : Option (List UInt8) → List UInt8
  | none => []
  | some cmdId => UInt8.ofNat cmdId.length :: cmdId

/-! ### Doubles -/

theorem doubleLE_le (m : Float) : doubleLE (Bytes.le 8 m.toBits.toNat) = m := by
  unfold doubleLE
  rw [Bytes.ofLE_le, Nat.mod_eq_of_lt (show m.toBits.toNat < 256 ^ 8 from m.toBits.toNat_lt), UInt64.ofNat_toNat,
    Doubles.ofBits_toBits]

theorem le_doubleLE {bs : List UInt8} (hl : bs.length = 8) (hf : (doubleLE bs).isFinite = true) :
    Bytes.le 8 (doubleLE bs).toBits.toNat = bs := by
  have hlt := Bytes.ofLE_lt bs
  rw [hl] at hlt
  unfold doubleLE at hf ⊢
  rw [Doubles.toBits_ofBits hf, UInt64.toNat_ofNat_of_lt' hlt, ← hl, Bytes.le_ofLE]

theorem intentCode_iff {code : UInt8} {intent : ControlIntent} :
    IntentCode code intent ↔ Rust.intent code = some intent := by
  constructor
  · rintro (_ | _ | _) <;> rfl
  · unfold Rust.intent
    intro h
    split at h
    · rename_i hc
      cases h
      exact hc ▸ .play
    · split at h
      · rename_i hc
        cases h
        exact hc ▸ .pause
      · split at h
        · rename_i hc
          cases h
          exact hc ▸ .seek
        · cases h

/-- A `cmdId` has from 1 to 64 bytes where there is one. -/
def Sized (cmdId : Option (List UInt8)) : Prop := ∀ c, cmdId = some c → 1 ≤ c.length ∧ c.length ≤ 64

/-- The bytes that a control frame with these fields consists of. -/
def Frames (data : List UInt8) (intent : ControlIntent) (m : Float) (room : List UInt8)
    (cmdId : Option (List UInt8)) : Prop :=
  ∃ tag code, IntentCode code intent ∧
    data = tag :: code :: (Bytes.le 8 m.toBits.toNat ++ UInt8.ofNat room.length :: (room ++ suffix cmdId))

theorem toNat_ofNat_length {s : List UInt8} (h : s.length < 256) : (UInt8.ofNat s.length).toNat = s.length := by
  rw [UInt8.toNat_ofNat']
  exact Nat.mod_eq_of_lt h

/-- The room, the length of the `cmdId` and the `cmdId`. -/
theorem rest_split {rest : List UInt8} {n cl : ℕ} (h : rest.length = n + (1 + cl)) :
    rest = rest.take n ++ byteAt rest n :: Bytes.slice rest (n + 1) cl := by
  have hn : n < rest.length := by omega
  have hb : byteAt rest n = rest[n] := by
    rw [byteAt, List.getD_eq_getElem?_getD, List.getElem?_eq_getElem hn, Option.getD_some]
  have hs : Bytes.slice rest (n + 1) cl = rest.drop (n + 1) := by
    unfold Bytes.slice
    exact List.take_of_length_le (by rw [List.length_drop]; omega)
  rw [hb, hs, ← List.drop_eq_getElem_cons hn, List.take_append_drop]

/-- **The layout of a control frame.** The fields are there exactly when the bytes are theirs and nothing else. -/
theorem controlFields_iff {data : List UInt8} {intent : ControlIntent} {m : Float} {room : List UInt8}
    {cmdId : Option (List UInt8)} :
    controlFields data = some (intent, m, room, cmdId) ↔
      m.isFinite = true ∧ ¬m < 0 ∧ room.length < 256 ∧ Sized cmdId ∧ Frames data intent m room cmdId := by
  constructor
  · intro h
    have hlen : 11 ≤ data.length := by
      by_contra hlt
      rw [controlFields, if_pos (by omega)] at h
      cases h
    obtain ⟨tag, code, mb, roomLen, rest, hm, rfl⟩ := head_split hlen
    rw [controlFields_head hm] at h
    have hn := roomLen.toNat_lt
    cases hcode : Rust.intent code with
    | none =>
      rw [hcode] at h
      cases h
    | some i =>
      rw [hcode] at h
      dsimp only at h
      split at h
      · cases h
      · rename_i hdouble
        rw [not_or, Bool.not_eq_false] at hdouble
        split at h
        · cases h
        · rename_i hroom
          split at h
          · rename_i hend
            cases h
            refine ⟨hdouble.1, hdouble.2, ?_, fun c hc => (by cases hc), tag, code, intentCode_iff.mpr hcode, ?_⟩
            · rw [List.length_take]
              omega
            · rw [le_doubleLE hm hdouble.1, ← hend, List.take_length, suffix, List.append_nil]
              congr 4
              rw [← UInt8.toNat_inj, toNat_ofNat_length (by omega)]
              exact hend.symm
          · split at h
            · cases h
            · rename_i hcl
              rw [not_or, not_or, not_not] at hcl
              obtain ⟨hpos, hle, hrest⟩ := hcl
              cases h
              have hcmd : (Bytes.slice rest (roomLen.toNat + 1) (byteAt rest roomLen.toNat).toNat).length =
                  (byteAt rest roomLen.toNat).toNat := by
                unfold Bytes.slice
                rw [List.length_take, List.length_drop]
                omega
              have htake : (rest.take roomLen.toNat).length = roomLen.toNat := by
                rw [List.length_take]
                omega
              refine ⟨hdouble.1, hdouble.2, by rw [htake]; exact hn, ?_, tag, code, intentCode_iff.mpr hcode, ?_⟩
              · intro c hc
                cases hc
                rw [hcmd]
                omega
              · rw [le_doubleLE hm hdouble.1, suffix, hcmd, htake, UInt8.ofNat_toNat, UInt8.ofNat_toNat,
                  ← rest_split hrest]
  · rintro ⟨hf, hn, hroom, hsized, tag, code, hcode, rfl⟩
    rw [controlFields_head (Bytes.length_le ..), intentCode_iff.mp hcode]
    dsimp only
    rw [doubleLE_le, toNat_ofNat_length hroom, if_neg (by simp [hf, hn])]
    cases cmdId with
    | none =>
      rw [suffix, List.append_nil, if_neg (lt_irrefl _), if_pos rfl, List.take_length]
    | some c =>
      obtain ⟨h1, h64⟩ := hsized c rfl
      have hlen : (room ++ suffix (some c)).length = room.length + (1 + c.length) := by
        rw [suffix, List.length_append, List.length_cons]
        omega
      have hcl : (byteAt (room ++ suffix (some c)) room.length).toNat = c.length := by
        unfold byteAt suffix
        rw [List.getD_eq_getElem?_getD, List.getElem?_append_right le_rfl, Nat.sub_self, List.getElem?_cons_zero,
          Option.getD_some]
        exact toNat_ofNat_length (by omega)
      have hslice : Bytes.slice (room ++ suffix (some c)) (room.length + 1) c.length = c := by
        unfold Bytes.slice suffix
        rw [← List.drop_drop, List.drop_left, List.drop_one, List.tail_cons, List.take_length]
      rw [hlen, if_neg (by omega), if_neg (by omega), hcl, if_neg (by omega), hslice, List.take_left]

/-! ## The two handlers -/

/-- The room of a join frame, before its text is looked into. -/
def joinField (data : List UInt8) : Option (List UInt8) :=
  if data.length < 2 then none
  else if data.length ≠ 2 + (byteAt data 1).toNat then none
  else some (Bytes.slice data 2 (byteAt data 1).toNat)

theorem joinField_iff {data room : List UInt8} :
    joinField data = some room ↔ room.length < 256 ∧ ∃ tag, data = tag :: UInt8.ofNat room.length :: room := by
  constructor
  · intro h
    unfold joinField at h
    match data, h with
    | tag :: n :: rest, h =>
      have hb : byteAt (tag :: n :: rest) 1 = n := rfl
      rw [hb, if_neg (by simp)] at h
      split at h
      · cases h
      · rename_i hlen
        rw [not_not, List.length_cons, List.length_cons] at hlen
        have hrest : Bytes.slice (tag :: n :: rest) 2 n.toNat = rest := List.take_of_length_le (by simp; omega)
        rw [hrest] at h
        cases h
        have hn := n.toNat_lt
        have hlen' : room.length = n.toNat := by omega
        refine ⟨by omega, tag, ?_⟩
        rw [hlen', UInt8.ofNat_toNat]
  · rintro ⟨hlt, tag, rfl⟩
    have hb : (byteAt (tag :: UInt8.ofNat room.length :: room) 1).toNat = room.length := toNat_ofNat_length hlt
    unfold joinField
    rw [hb, if_neg (by simp), if_neg (by simp; omega)]
    exact congrArg some (List.take_length)

theorem Go.handle_eq (data : List UInt8) :
    Go.handle data =
      if data.length < 1 then none
      else if byteAt data 0 = 0x05 then
        (joinField data).bind fun room => if Go.roomPattern room = false then none else some (.join room)
      else if byteAt data 0 = 0x03 then
        match Go.parseControl data with
        | none => none
        | some (intent, m, room, cmdId) =>
          if Go.roomPattern room = false then none else some (.control intent m room cmdId)
      else none := by
  unfold Go.handle joinField
  dsimp only
  split
  · rfl
  · split
    · split
      · rfl
      · split <;> rfl
    · rfl

theorem Rust.handle_eq (data : List UInt8) :
    Rust.handle data =
      if data.isEmpty then none
      else if byteAt data 0 = 0x05 then
        (joinField data).bind fun room =>
          (Bytes.fromUtf8? room).bind fun room => if Rust.is_valid_id room = true then some (.join room) else none
      else if byteAt data 0 = 0x03 then
        match Rust.parse_control data with
        | none => none
        | some (intent, m, room, cmd_id) =>
          if Rust.is_valid_id room = true then some (.control intent m room cmd_id) else none
      else none := by
  unfold Rust.handle joinField
  dsimp only
  split
  · rfl
  · split
    · split
      · rfl
      · split
        · rfl
        · dsimp only [Option.bind_some]
          cases Bytes.fromUtf8? (Bytes.slice data 2 (byteAt data 1).toNat) <;> rfl
    · rfl

/-- A frame of the grammar, by its fields. -/
theorem grammar_control_iff {data : List UInt8} {intent : ControlIntent} {m : Float} {room cmd : List UInt8} :
    Grammar data (.control intent m room cmd) ↔
      byteAt data 0 = 0x03 ∧ IsId room ∧ ∃ cmdId, controlFields data = some (intent, m, room, cmdId) ∧
        cmd = cmdId.getD [] ∧ ∀ c, cmdId = some c → IsId c := by
  constructor
  · intro h
    have hroom : ∀ {r : List UInt8}, IsId r → r.length < 256 := fun hr => by
      have := hr.2.1
      omega
    cases h with
    | control hi hf hn hr =>
      refine ⟨rfl, hr, none, controlFields_iff.mpr ⟨hf, hn, hroom hr, nofun, 0x03, _, hi, ?_⟩, rfl, nofun⟩
      rw [suffix, List.append_nil]
    | controlWithId hi hf hn hr hc =>
      refine ⟨rfl, hr, some cmd, controlFields_iff.mpr ⟨hf, hn, hroom hr, ?_, 0x03, _, hi, rfl⟩, rfl, ?_⟩
      · rintro c ⟨⟩
        exact ⟨hc.1, hc.2.1⟩
      · rintro c ⟨⟩
        exact hc
  · rintro ⟨htag, hr, cmdId, hfields, rfl, hc⟩
    obtain ⟨hf, hn, -, -, tag, code, hi, rfl⟩ := controlFields_iff.mp hfields
    obtain rfl : tag = 0x03 := htag
    cases cmdId with
    | none =>
      rw [suffix, List.append_nil]
      exact .control hi hf hn hr
    | some c => exact .controlWithId hi hf hn hr (hc c rfl)

theorem grammar_join_iff {data room : List UInt8} :
    Grammar data (.join room) ↔ byteAt data 0 = 0x05 ∧ IsId room ∧ joinField data = some room := by
  constructor
  · rintro ⟨hr⟩
    refine ⟨rfl, hr, joinField_iff.mpr ⟨?_, _, rfl⟩⟩
    have := hr.2.1
    omega
  · rintro ⟨htag, hr, hfield⟩
    obtain ⟨-, tag, rfl⟩ := joinField_iff.mp hfield
    obtain rfl : tag = 0x05 := htag
    exact .join hr

theorem Go.parseControl_iff {data : List UInt8} {intent : ControlIntent} {m : Float} {room cmdID : List UInt8} :
    Go.parseControl data = some (intent, m, room, cmdID) ↔
      ∃ cmdId, controlFields data = some (intent, m, room, cmdId) ∧ cmdID = cmdId.getD [] ∧
        ∀ c, cmdId = some c → IsId c := by
  have hpat : ∀ s, Go.cmdIDPattern s = false ↔ ¬IsId s := fun s => by
    rw [← Go.cmdIDPattern_iff, Bool.not_eq_true]
  rw [Go.parseControl_eq]
  constructor
  · intro h
    split at h
    · cases h
    · rename_i hf
      cases h
      exact ⟨none, hf, rfl, nofun⟩
    · rename_i hf
      split at h
      · cases h
      · rename_i hc
        cases h
        refine ⟨some _, hf, rfl, ?_⟩
        rintro _ ⟨⟩
        exact not_not.mp fun hn => hc ((hpat _).mpr hn)
  · rintro ⟨cmdId, hf, rfl, hc⟩
    rw [hf]
    cases cmdId with
    | none => rfl
    | some c => exact if_neg fun hn => (hpat _).mp hn (hc c rfl)

theorem Rust.parse_control_iff {data : List UInt8} {intent : ControlIntent} {m : Float} {room cmd_id : String} :
    Rust.parse_control data = some (intent, m, room, cmd_id) ↔
      ∃ cmdId, controlFields data = some (intent, m, Bytes.utf8 room, cmdId) ∧ Bytes.utf8 cmd_id = cmdId.getD [] ∧
        ∀ c, cmdId = some c → IsId c := by
  have hid : ∀ s, Rust.is_valid_id s = false ↔ ¬IsId (Bytes.utf8 s) := fun s => by
    rw [← Rust.is_valid_id_iff, Bool.not_eq_true]
  rw [Rust.parse_control_eq]
  constructor
  · intro h
    split at h
    · cases h
    · rename_i hf
      obtain ⟨_, hroom, h⟩ := Option.map_eq_some_iff.mp h
      cases h
      rw [← Bytes.utf8_of_fromUtf8? hroom] at hf
      exact ⟨none, hf, rfl, nofun⟩
    · rename_i hf
      obtain ⟨_, hroom, h⟩ := Option.bind_eq_some_iff.mp h
      obtain ⟨_, hcmd, h⟩ := Option.bind_eq_some_iff.mp h
      rw [← Bytes.utf8_of_fromUtf8? hroom, ← Bytes.utf8_of_fromUtf8? hcmd] at hf
      split at h
      · cases h
      · rename_i hc
        cases h
        refine ⟨some _, hf, rfl, ?_⟩
        rintro _ ⟨⟩
        exact not_not.mp fun hn => hc ((hid _).mpr hn)
  · rintro ⟨cmdId, hf, hcmd, hc⟩
    rw [hf]
    cases cmdId with
    | none =>
      obtain rfl : cmd_id = "" := Bytes.utf8_inj hcmd
      dsimp only
      rw [Bytes.fromUtf8?_utf8, Option.map_some]
    | some c =>
      obtain rfl : Bytes.utf8 cmd_id = c := hcmd
      dsimp only
      rw [Bytes.fromUtf8?_utf8, Bytes.fromUtf8?_utf8, Option.bind_some, Option.bind_some,
        if_neg fun hn => (hid _).mp hn (hc _ rfl)]

/-- **The go relay accepts the grammar.** -/
theorem Go.handle_iff {data : List UInt8} {f : ClientFrame (List UInt8)} :
    Go.handle data = some f ↔ Grammar data f := by
  have hpat : ∀ s, Go.roomPattern s = false ↔ ¬IsId s := fun s => by
    rw [← Go.cmdIDPattern_iff, ← Bool.not_eq_true]
    rfl
  rw [Go.handle_eq]
  constructor
  · intro h
    split at h
    · cases h
    · split at h
      · rename_i htag
        obtain ⟨room, hroom, h⟩ := Option.bind_eq_some_iff.mp h
        split at h
        · cases h
        · rename_i hid
          cases h
          exact grammar_join_iff.mpr ⟨htag, not_not.mp fun hn => hid ((hpat _).mpr hn), hroom⟩
      · split at h
        · rename_i htag
          split at h
          · cases h
          · rename_i hparse
            split at h
            · cases h
            · rename_i hid
              cases h
              exact grammar_control_iff.mpr
                ⟨htag, not_not.mp fun hn => hid ((hpat _).mpr hn), Go.parseControl_iff.mp hparse⟩
        · cases h
  · intro h
    have hne : ¬data.length < 1 := by
      cases h <;> simp
    rw [if_neg hne]
    cases f with
    | join room =>
      obtain ⟨htag, hid, hfield⟩ := grammar_join_iff.mp h
      rw [if_pos htag, hfield, Option.bind_some, if_neg fun hn => (hpat _).mp hn hid]
    | control intent m room cmd =>
      obtain ⟨htag, hid, hparse⟩ := grammar_control_iff.mp h
      rw [if_neg (by rw [htag]; decide), if_pos htag, Go.parseControl_iff.mpr hparse]
      exact if_neg fun hn => (hpat _).mp hn hid

/-- The texts of a frame of the grammar are UTF-8. -/
theorem Grammar.text {data : List UInt8} {f : ClientFrame (List UInt8)} (h : Grammar data f) :
    ∃ g : ClientFrame String, g.map Bytes.utf8 = f := by
  cases h with
  | join hr =>
    obtain ⟨room, -, rfl⟩ := hr.fromUtf8?
    exact ⟨.join room, rfl⟩
  | control hi hf hn hr =>
    obtain ⟨room, -, rfl⟩ := hr.fromUtf8?
    exact ⟨.control _ _ room "", rfl⟩
  | controlWithId hi hf hn hr hc =>
    obtain ⟨room, -, rfl⟩ := hr.fromUtf8?
    obtain ⟨cmdId, -, rfl⟩ := hc.fromUtf8?
    exact ⟨.control _ _ room cmdId, rfl⟩

/-- **The rust relay accepts the grammar.** -/
theorem Rust.handle_iff {data : List UInt8} {f : ClientFrame String} :
    Rust.handle data = some f ↔ Grammar data (f.map Bytes.utf8) := by
  rw [Rust.handle_eq]
  constructor
  · intro h
    split at h
    · cases h
    · split at h
      · rename_i htag
        obtain ⟨bytes, hfield, h⟩ := Option.bind_eq_some_iff.mp h
        obtain ⟨room, hroom, h⟩ := Option.bind_eq_some_iff.mp h
        split at h
        · rename_i hid
          cases h
          rw [← Bytes.utf8_of_fromUtf8? hroom] at hfield
          exact grammar_join_iff.mpr ⟨htag, (Rust.is_valid_id_iff room).mp hid, hfield⟩
        · cases h
      · split at h
        · rename_i htag
          split at h
          · cases h
          · rename_i hparse
            split at h
            · rename_i hid
              cases h
              exact grammar_control_iff.mpr
                ⟨htag, (Rust.is_valid_id_iff _).mp hid, Rust.parse_control_iff.mp hparse⟩
            · cases h
        · cases h
  · intro h
    have hne : ¬data.isEmpty = true := by
      cases data with
      | nil => exact nomatch h
      | cons b bs => exact Bool.false_ne_true
    rw [if_neg hne]
    cases f with
    | join room =>
      obtain ⟨htag, hid, hfield⟩ := grammar_join_iff.mp h
      rw [if_pos htag, hfield, Option.bind_some, Bytes.fromUtf8?_utf8, Option.bind_some,
        if_pos ((Rust.is_valid_id_iff room).mpr hid)]
    | control intent m room cmd =>
      obtain ⟨htag, hid, hparse⟩ := grammar_control_iff.mp h
      rw [if_neg (by rw [htag]; decide), if_pos htag, Rust.parse_control_iff.mpr hparse]
      exact if_pos ((Rust.is_valid_id_iff room).mpr hid)

theorem handle_agree (data : List UInt8) : Go.handle data = (Rust.handle data).map (ClientFrame.map Bytes.utf8) := by
  apply Option.ext
  intro f
  rw [Go.handle_iff, Option.map_eq_some_iff]
  constructor
  · intro h
    obtain ⟨g, rfl⟩ := h.text
    exact ⟨g, Rust.handle_iff.mpr h, rfl⟩
  · rintro ⟨g, hg, rfl⟩
    exact Rust.handle_iff.mp hg

/-! ## What the harness emits -/

/-- A byte written behind a prefix into the rest, which is still zero. -/
theorem writeUInt8_zeros (pre : List UInt8) {value : ℕ} (offset k : ℕ) (hv : value < 256)
    (ho : pre.length = offset) :
    Transport.writeUInt8 (pre ++ List.replicate (1 + k) 0) value offset =
      some (pre ++ [UInt8.ofNat value] ++ List.replicate k 0) := by
  unfold Transport.writeUInt8
  rw [if_pos (by rw [List.length_append, List.length_replicate]; omega), Int.toNat_natCast]
  exact congrArg some (Bytes.put_zeros pre [UInt8.ofNat value] ho rfl)

theorem writeDoubleLE_zeros (pre : List UInt8) (value : Float) (offset k : ℕ) (ho : pre.length = offset) :
    Transport.writeDoubleLE (pre ++ List.replicate (8 + k) 0) value offset =
      some (pre ++ Bytes.le 8 value.toBits.toNat ++ List.replicate k 0) := by
  unfold Transport.writeDoubleLE
  rw [if_pos (by rw [List.length_append, List.length_replicate]; omega)]
  exact congrArg some (Bytes.put_zeros pre _ ho (by rw [Bytes.length_le]))

theorem IsId.lt {s : List UInt8} (h : IsId s) : s.length < 256 := by
  have := h.2.1
  omega

theorem join_emits {roomCode : String} (hr : IsId (Bytes.utf8 roomCode)) :
    ∃ frame, Transport.join roomCode = some frame ∧ Grammar frame (.join (Bytes.utf8 roomCode)) := by
  refine ⟨_, ?_, .join hr⟩
  generalize hroom : Bytes.utf8 roomCode = room at hr
  have hput := Bytes.put_zeros (k := 0) (z := 0) [0x05, UInt8.ofNat room.length] room rfl rfl
  rw [List.replicate_zero, List.append_nil, Nat.add_zero] at hput
  unfold Transport.join
  rw [hroom]
  dsimp only
  rw [show 2 + room.length = 1 + (1 + room.length) by omega]
  change (Transport.writeUInt8 ([] ++ List.replicate (1 + (1 + room.length)) 0) ((5 : ℕ) : ℤ) 0).bind _ = _
  rw [writeUInt8_zeros [] 0 _ (by decide) rfl, Option.bind_some]
  change (Transport.writeUInt8 ([0x05] ++ List.replicate (1 + room.length) 0) _ 1).bind _ = _
  rw [writeUInt8_zeros [0x05] 1 _ hr.lt rfl, Option.bind_some]
  exact congrArg some hput

/-- The code that `indexOf` writes. -/
theorem intentCode_indexOf {intent : ControlIntent} (hi : intent ∈ Transport.INTENTS) :
    ∃ n : ℕ, Transport.indexOf intent = n ∧ n < 256 ∧ IntentCode (UInt8.ofNat n) intent := by
  cases intent with
  | play => exact ⟨0, rfl, by decide, .play⟩
  | pause => exact ⟨1, rfl, by decide, .pause⟩
  | seek => exact ⟨2, rfl, by decide, .seek⟩
  | setVideo => exact absurd hi (by decide)

/-- The part of `sendControl` before the `cmdId`, whatever is written behind it. -/
theorem sendControl_head {intent : ControlIntent} {code : ℕ} {m : Float} {room : List UInt8} (k : ℕ)
    (hcode : Transport.indexOf intent = code) (hlt : code < 256) (hr : room.length < 256)
    (rest : List UInt8 → Option (List UInt8)) :
    (do
      let frame ← Transport.writeUInt8 (List.replicate (11 + room.length + k) 0) 0x03 0
      let frame ← Transport.writeUInt8 frame (Transport.indexOf intent) 1
      let frame ← Transport.writeDoubleLE frame m 2
      let frame ← Transport.writeUInt8 frame room.length 10
      rest (Bytes.put frame 11 room)) =
    rest (0x03 :: UInt8.ofNat code :: (Bytes.le 8 m.toBits.toNat ++ UInt8.ofNat room.length :: room) ++
      List.replicate k 0) := by
  have hm : (Bytes.le 8 m.toBits.toNat).length = 8 := Bytes.length_le ..
  rw [hcode, show 11 + room.length + k = 1 + (1 + (8 + (1 + (room.length + k)))) by omega]
  change (Transport.writeUInt8 ([] ++ List.replicate (1 + _) 0) ((3 : ℕ) : ℤ) 0).bind _ = _
  rw [writeUInt8_zeros [] 0 _ (by decide) rfl, Option.bind_some]
  change (Transport.writeUInt8 ([0x03] ++ List.replicate (1 + _) 0) _ 1).bind _ = _
  rw [writeUInt8_zeros [0x03] 1 _ hlt rfl, Option.bind_some]
  change (Transport.writeDoubleLE ([0x03, UInt8.ofNat code] ++ List.replicate (8 + _) 0) _ 2).bind _ = _
  rw [writeDoubleLE_zeros [0x03, UInt8.ofNat code] m 2 _ rfl, Option.bind_some]
  change (Transport.writeUInt8 (_ ++ List.replicate (1 + _) 0) _ 10).bind _ = _
  rw [writeUInt8_zeros ([0x03, UInt8.ofNat code] ++ Bytes.le 8 m.toBits.toNat) 10 _ hr (by simp), Option.bind_some,
    Bytes.put_zeros _ room (by simp) rfl]
  simp

theorem sendControl_emits {roomCode : String} {intent : ControlIntent} {m : Float} {cmdId : Option String}
    (hi : intent ∈ Transport.INTENTS) (hf : m.isFinite = true) (hn : ¬m < 0) (hr : IsId (Bytes.utf8 roomCode))
    (hc : ∀ c, cmdId = some c → IsId (Bytes.utf8 c)) :
    ∃ frame, Transport.sendControl true roomCode intent m cmdId = some frame ∧
      Grammar frame (.control intent m (Bytes.utf8 roomCode) (Bytes.utf8 (cmdId.getD ""))) := by
  obtain ⟨code, hcode, hlt, hi⟩ := intentCode_indexOf hi
  unfold Transport.sendControl
  rw [if_neg (by decide)]
  generalize hroom : Bytes.utf8 roomCode = room at hr
  dsimp only
  cases cmdId with
  | none =>
    have hcmd : (Bytes.utf8 (Option.getD none "")).length = 0 := rfl
    rw [hcmd, if_neg (by decide)]
    refine ⟨_, sendControl_head 0 hcode hlt hr.lt some, ?_⟩
    rw [List.replicate_zero, List.append_nil]
    exact .control hi hf hn hr
  | some c =>
    have hc := hc c rfl
    have hid : (Bytes.utf8 c).length ≠ 0 := by
      have := hc.1
      omega
    rw [Option.getD_some, if_pos hid]
    simp only [if_pos hid]
    generalize hcmd : Bytes.utf8 c = cmd at hc
    let rest : List UInt8 → Option (List UInt8) := fun frame => do
      let frame ← Transport.writeUInt8 frame cmd.length (11 + room.length)
      return Bytes.put frame (12 + room.length) cmd
    refine ⟨_, (sendControl_head (1 + cmd.length) hcode hlt hr.lt rest).trans ?_, .controlWithId hi hf hn hr hc⟩
    generalize hpre : 0x03 :: UInt8.ofNat code :: (Bytes.le 8 m.toBits.toNat ++ UInt8.ofNat room.length :: room) = pre
    have hlen : pre.length = 11 + room.length := by
      simp only [← hpre, List.length_cons, List.length_append, Bytes.length_le]
      omega
    have hput := Bytes.put_zeros (k := 0) (z := 0) (pre ++ [UInt8.ofNat cmd.length]) cmd
      (show _ = 12 + room.length by rw [List.length_append, hlen, List.length_singleton]; omega) rfl
    rw [List.replicate_zero, List.append_nil, Nat.add_zero] at hput
    change (Transport.writeUInt8 (pre ++ List.replicate (1 + cmd.length) 0) cmd.length (11 + room.length)).bind _ = _
    rw [writeUInt8_zeros pre _ _ hc.lt hlen, Option.bind_some]
    refine congrArg some (hput.trans ?_)
    rw [← hpre]
    simp

/-- **The codecs conform.** The relays accept the same frames and read the same values in them; what they accept is
the grammar; and what the harness emits for a frame of the grammar is that frame. -/
theorem frames_conform :
    (∀ data, Go.handle data = (Rust.handle data).map (ClientFrame.map Bytes.utf8)) ∧
    (∀ data f, Go.handle data = some f ↔ Grammar data f) ∧
    (∀ data f, Rust.handle data = some f ↔ Grammar data (f.map Bytes.utf8)) ∧
    (∀ room, IsId (Bytes.utf8 room) → ∃ frame, Transport.join room = some frame ∧
      Go.handle frame = some (.join (Bytes.utf8 room)) ∧ Rust.handle frame = some (.join room)) ∧
    (∀ intent ∈ Transport.INTENTS, ∀ (m : Float) (room : String) (cmdId : Option String),
      m.isFinite = true → ¬m < 0 → IsId (Bytes.utf8 room) → (∀ c, cmdId = some c → IsId (Bytes.utf8 c)) →
      ∃ frame, Transport.sendControl true room intent m cmdId = some frame ∧
        Go.handle frame = some (.control intent m (Bytes.utf8 room) (Bytes.utf8 (cmdId.getD ""))) ∧
        Rust.handle frame = some (.control intent m room (cmdId.getD ""))) := by
  refine ⟨handle_agree, fun data f => Go.handle_iff, fun data f => Rust.handle_iff, ?_, ?_⟩
  · intro room hr
    obtain ⟨frame, hframe, hg⟩ := join_emits hr
    exact ⟨frame, hframe, Go.handle_iff.mpr hg, Rust.handle_iff.mpr hg⟩
  · intro intent hi m room cmdId hf hn hr hc
    obtain ⟨frame, hframe, hg⟩ := sendControl_emits hi hf hn hr hc
    exact ⟨frame, hframe, Go.handle_iff.mpr hg, Rust.handle_iff.mpr hg⟩

end Relay
end WatchParty
