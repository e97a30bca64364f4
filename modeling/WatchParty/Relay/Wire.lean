import Mathlib
import WatchParty.Relay.Frames

/-!
# Timeline frames on the wire

The frame of a timeline as the two relays write it and as the harness reads it: `luaTimeline.toWire` and
`encodeTimeline` in `relay-go/main.go`, `reason_code` and `encode_timeline` in `relay-rs/src/main.rs`, `decodeTimeline`
in `sync-harness/src/bots/transport.ts`; and the texts that `isNewer` in `shared/sync-core/timeline.ts` compares.

- `Numerals`: what the standard library of a language does with a text that is no canonical integer is a parameter;
- `layout`: the fields of a frame, by their offsets (`Go.encodeTimeline_eq`, `Rust.encode_timeline_eq`);
- `decode_layout`: a frame is read back, and `frame_round_trip` puts them together.
-/

namespace WatchParty
namespace Relay

/-- The timeline that the scripts return, as both relays parse it. -/
structure LuaTimeline where
  seq : ℤ
  storeEpoch : String
  isPlaying : Bool
  mediaTime : Float
  stampedAt : Float
  reason : String
  deriving DecidableEq

/-! ## Numbers and their texts -/

/-- The integer whose canonical decimal a text is. -/
def canonical? (text : String) : Option ℤ :=
  match text.toInt? with
  | some z => if toString z = text then some z else none
  | none => none

/-- The number of a text, and the text of a number: an integer's is its decimal, the others are the language's. -/
structure Numerals where
  parseOther : String → Option Float
  showOther : Float → String

/-- The double of a text, if it is a number. -/
def Numerals.parse (lang : Numerals) (text : String) : Option Float :=
  match canonical? text with
  | some z => some (Doubles.nearestInt z)
  | none => lang.parseOther text

/-- The shortest text of a double. -/
def Numerals.show (lang : Numerals) (x : Float) : String :=
  match Doubles.integer? x with
  | some z => toString z
  | none => lang.showOther x

/-! ## The go relay -/

namespace Go

/-- `reasonCodes`; a missing key reads as zero. -/
def reasonCodes (reason : String) : UInt8 :=
  ([("play", 0), ("pause", 1), ("seek", 2), ("join", 3), ("snapshot", 4), ("succession", 5)].lookup reason).getD 0

structure Timeline where
  Seq : UInt32
  Epoch : Float
  IsPlaying : Bool
  MediaTime : Float
  StampedAt : Float
  Reason : UInt8

/-- The error of `ParseFloat` is dropped; of a text that is no number the value is zero. -/
def toWire (lang : Numerals) (t : LuaTimeline) : Timeline :=
  { Seq := UInt32.ofInt t.seq
    Epoch := (lang.parse t.storeEpoch).getD 0
    IsPlaying := t.isPlaying
    MediaTime := t.mediaTime
    StampedAt := t.stampedAt
    Reason := reasonCodes t.reason }

def encodeTimeline (msgType : UInt8) (tl : Timeline) : List UInt8 :=
  let buf := List.replicate (1 + 4 + 8 + 1 + 8 + 8 + 1) 0
  let buf := Bytes.put buf 0 [msgType]
  let buf := Bytes.put buf 1 (Bytes.le 4 tl.Seq.toNat)
  let buf := Bytes.put buf 5 (Bytes.le 8 tl.Epoch.toBits.toNat)
  let buf := if tl.IsPlaying = true then Bytes.put buf 13 [1] else buf
  let buf := Bytes.put buf 14 (Bytes.le 8 tl.MediaTime.toBits.toNat)
  let buf := Bytes.put buf 22 (Bytes.le 8 tl.StampedAt.toBits.toNat)
  Bytes.put buf 30 [tl.Reason]

end Go

/-! ## The rust relay -/

namespace Rust

def reason_code (reason : String) : UInt8 :=
  match reason with
  | "play" => 0
  | "pause" => 1
  | "seek" => 2
  | "join" => 3
  | "snapshot" => 4
  | "succession" => 5
  | _ => 0

def encode_timeline (lang : Numerals) (msg_type : UInt8) (tl : LuaTimeline) : List UInt8 :=
  let buf := List.replicate (1 + 4 + 8 + 1 + 8 + 8 + 1) 0
  let buf := Bytes.put buf 0 [msg_type]
  let epoch := (lang.parse tl.storeEpoch).getD 0
  let buf := Bytes.put buf 1 (Bytes.le 4 (UInt32.ofInt tl.seq).toNat)
  let buf := Bytes.put buf 5 (Bytes.le 8 epoch.toBits.toNat)
  let buf := if tl.isPlaying = true then Bytes.put buf 13 [1] else buf
  let buf := Bytes.put buf 14 (Bytes.le 8 tl.mediaTime.toBits.toNat)
  let buf := Bytes.put buf 22 (Bytes.le 8 tl.stampedAt.toBits.toNat)
  Bytes.put buf 30 [reason_code tl.reason]

end Rust

/-! ## The harness -/

namespace Transport

/-- The fields that `decodeTimeline` reads; `videoId` is null and `rate` is 1. -/
structure Timeline where
  seq : ℕ
  storeEpoch : String
  isPlaying : Bool
  mediaTime : Float
  stampedAt : Float
  reason : String
  deriving DecidableEq

def REASONS : List String := ["play", "pause", "seek", "join", "snapshot", "succession"]

/-- An offset out of range throws. -/
def read (buf : List UInt8) (offset n : ℕ) : Option ℕ :=
  if offset + n ≤ buf.length then some (Bytes.ofLE (Bytes.slice buf offset n)) else none

def readUInt8 (buf : List UInt8) (offset : ℕ) : Option ℕ := read buf offset 1

def readUInt32LE (buf : List UInt8) (offset : ℕ) : Option ℕ := read buf offset 4

def readDoubleLE (buf : List UInt8) (offset : ℕ) : Option Float :=
  (read buf offset 8).map fun bits => Float.ofBits (UInt64.ofNat bits)

def decodeTimeline (lang : Numerals) (buf : List UInt8) : Option Timeline := do
  let seq ← readUInt32LE buf 1
  let storeEpoch ← readDoubleLE buf 5
  let isPlaying ← readUInt8 buf 13
  let mediaTime ← readDoubleLE buf 14
  let stampedAt ← readDoubleLE buf 22
  let reason ← readUInt8 buf 30
  return { seq, storeEpoch := lang.show storeEpoch, isPlaying := isPlaying == 1, mediaTime, stampedAt,
           reason := REASONS.getD reason "snapshot" }

/-- `isNewer` on the texts of the epochs; `NaN` is what `Number` makes of a text that is no number. -/
def isNewer (lang : Numerals) (incoming : Timeline) : Option Timeline → Bool
  | none => true
  | some applied =>
    let a := (lang.parse incoming.storeEpoch).getD (0 / 0)
    let b := (lang.parse applied.storeEpoch).getD (0 / 0)
    if a.isFinite = true ∧ b.isFinite = true ∧ (a != b) = true then decide (b < a)
    else if incoming.storeEpoch ≠ applied.storeEpoch then decide (b < a)
    else decide (applied.seq < incoming.seq)

end Transport

/-! ## The layout -/

/-- The bytes of a timeline frame, field by field. -/
def layout (tag : UInt8) (seq : ℕ) (epoch : Float) (isPlaying : Bool) (mediaTime stampedAt : Float) (code : UInt8) :
    List UInt8 :=
  [tag] ++ Bytes.le 4 seq ++ Bytes.le 8 epoch.toBits.toNat ++ [if isPlaying = true then 1 else 0] ++
    Bytes.le 8 mediaTime.toBits.toNat ++ Bytes.le 8 stampedAt.toBits.toNat ++ [code]

section Layout

variable (tag : UInt8) (seq : ℕ) (epoch : Float) (isPlaying : Bool) (mediaTime stampedAt : Float) (code : UInt8)

/-- The offsets of the writers are those of the fields. -/
theorem put_fields :
    (let buf := List.replicate (1 + 4 + 8 + 1 + 8 + 8 + 1) 0
     let buf := Bytes.put buf 0 [tag]
     let buf := Bytes.put buf 1 (Bytes.le 4 seq)
     let buf := Bytes.put buf 5 (Bytes.le 8 epoch.toBits.toNat)
     let buf := if isPlaying = true then Bytes.put buf 13 [1] else buf
     let buf := Bytes.put buf 14 (Bytes.le 8 mediaTime.toBits.toNat)
     let buf := Bytes.put buf 22 (Bytes.le 8 stampedAt.toBits.toNat)
     Bytes.put buf 30 [code]) = layout tag seq epoch isPlaying mediaTime stampedAt code := by
  have h31 : List.replicate (1 + 4 + 8 + 1 + 8 + 8 + 1) (0 : UInt8) = [] ++ List.replicate 31 0 := rfl
  have hplay : ∀ pre : List UInt8, pre.length = 13 →
      (if isPlaying = true then Bytes.put (pre ++ List.replicate 18 0) 13 [1] else pre ++ List.replicate 18 0) =
        pre ++ [if isPlaying = true then 1 else 0] ++ List.replicate 17 0 := by
    intro pre hpre
    cases isPlaying with
    | true => exact Bytes.put_zeros pre [1] hpre rfl
    | false =>
      rw [if_neg Bool.false_ne_true, if_neg Bool.false_ne_true, List.append_assoc]
      rfl
  dsimp only
  rw [h31, Bytes.put_zeros [] [tag] (by simp) (show 31 = _ + 30 from rfl),
    Bytes.put_zeros _ (Bytes.le 4 seq) (by simp) (show 30 = _ + 26 by simp),
    Bytes.put_zeros _ (Bytes.le 8 epoch.toBits.toNat) (by simp) (show 26 = _ + 18 by simp), hplay _ (by simp),
    Bytes.put_zeros _ (Bytes.le 8 mediaTime.toBits.toNat) (by simp) (show 17 = _ + 9 by simp),
    Bytes.put_zeros _ (Bytes.le 8 stampedAt.toBits.toNat) (by simp) (show 9 = _ + 1 by simp),
    Bytes.put_zeros _ [code] (by simp) (show 1 = _ + 0 from rfl), List.replicate_zero, List.append_nil,
    layout, List.nil_append]

end Layout

theorem Go.encodeTimeline_eq (msgType : UInt8) (tl : Go.Timeline) :
    Go.encodeTimeline msgType tl =
      layout msgType tl.Seq.toNat tl.Epoch tl.IsPlaying tl.MediaTime tl.StampedAt tl.Reason :=
  put_fields ..

theorem Rust.encode_timeline_eq (lang : Numerals) (msg_type : UInt8) (tl : LuaTimeline) :
    Rust.encode_timeline lang msg_type tl =
      layout msg_type (UInt32.ofInt tl.seq).toNat ((lang.parse tl.storeEpoch).getD 0) tl.isPlaying tl.mediaTime
        tl.stampedAt (Rust.reason_code tl.reason) :=
  put_fields ..

/-! ## Reading back -/

theorem Transport.read_append {pre mid post : List UInt8} {offset n : ℕ} (ho : pre.length = offset)
    (hn : mid.length = n) : Transport.read (pre ++ mid ++ post) offset n = some (Bytes.ofLE mid) := by
  unfold Transport.read
  rw [if_pos (by simp only [List.length_append]; omega), Bytes.slice_append ho hn]

theorem Transport.readDoubleLE_append {pre post : List UInt8} {x : Float} {offset : ℕ} (ho : pre.length = offset) :
    Transport.readDoubleLE (pre ++ Bytes.le 8 x.toBits.toNat ++ post) offset = some x := by
  unfold Transport.readDoubleLE
  rw [Transport.read_append ho (Bytes.length_le ..), Option.map_some]
  exact congrArg some (doubleLE_le x)

theorem Transport.readUInt8_append {pre post : List UInt8} {b : UInt8} {offset : ℕ} (ho : pre.length = offset) :
    Transport.readUInt8 (pre ++ [b] ++ post) offset = some b.toNat :=
  Transport.read_append ho rfl

section Decode

variable (lang : Numerals) (tag : UInt8) {seq : ℕ} (epoch : Float) (isPlaying : Bool) (mediaTime stampedAt : Float)
  (code : UInt8)

/-- A frame is read back, field by field. -/
theorem decode_layout (hs : seq < 2 ^ 32) :
    Transport.decodeTimeline lang (layout tag seq epoch isPlaying mediaTime stampedAt code) =
      some { seq, storeEpoch := lang.show epoch, isPlaying, mediaTime, stampedAt,
             reason := Transport.REASONS.getD code.toNat "snapshot" } := by
  have hseq : Transport.readUInt32LE (layout tag seq epoch isPlaying mediaTime stampedAt code) 1 = some seq := by
    have hlen : (Bytes.le 4 seq).length = 4 := Bytes.length_le ..
    rw [layout, List.append_assoc, List.append_assoc, List.append_assoc, List.append_assoc, Transport.readUInt32LE,
      Transport.read_append (show [tag].length = 1 from rfl) hlen, Bytes.ofLE_le,
      Nat.mod_eq_of_lt (show seq < 256 ^ 4 from hs)]
  have hepoch : Transport.readDoubleLE (layout tag seq epoch isPlaying mediaTime stampedAt code) 5 = some epoch := by
    rw [layout, List.append_assoc, List.append_assoc, List.append_assoc]
    exact Transport.readDoubleLE_append (by simp)
  have hplay : Transport.readUInt8 (layout tag seq epoch isPlaying mediaTime stampedAt code) 13 =
      some (if isPlaying = true then 1 else 0 : UInt8).toNat := by
    rw [layout, List.append_assoc, List.append_assoc]
    exact Transport.readUInt8_append (by simp)
  have hmedia : Transport.readDoubleLE (layout tag seq epoch isPlaying mediaTime stampedAt code) 14 =
      some mediaTime := by
    rw [layout, List.append_assoc]
    exact Transport.readDoubleLE_append (by simp)
  have hstamp : Transport.readDoubleLE (layout tag seq epoch isPlaying mediaTime stampedAt code) 22 =
      some stampedAt := Transport.readDoubleLE_append (by simp)
  have hcode : Transport.readUInt8 (layout tag seq epoch isPlaying mediaTime stampedAt code) 30 = some code.toNat := by
    rw [← List.append_nil (layout ..)]
    exact Transport.readUInt8_append (by simp)
  unfold Transport.decodeTimeline
  rw [hseq, hepoch, hplay, hmedia, hstamp, hcode]
  cases isPlaying <;> rfl

end Decode

/-! ## The round trip -/

theorem canonical?_toString (z : ℤ) : canonical? (toString z) = some z := by
  have hz : (toString z).toInt? = some z := Int.toInt?_repr z
  unfold canonical?
  rw [hz]
  exact if_pos rfl

/-- A timeline that the frame has room for. -/
structure Carried (tl : LuaTimeline) : Prop where
  seq_nonneg : 0 ≤ tl.seq
  seq_lt : tl.seq < 2 ^ 32
  storeEpoch : ∃ z : ℤ, z.natAbs < 2 ^ 53 ∧ tl.storeEpoch = toString z
  mediaTime : tl.mediaTime.isFinite = true
  stampedAt : tl.stampedAt.isFinite = true
  reason : tl.reason ∈ Transport.REASONS

/-- The timeline that a client of the other plane is sent. -/
def LuaTimeline.sent (tl : LuaTimeline) : Transport.Timeline :=
  { seq := tl.seq.toNat, storeEpoch := tl.storeEpoch, isPlaying := tl.isPlaying, mediaTime := tl.mediaTime,
    stampedAt := tl.stampedAt, reason := tl.reason }

/-- The three tables of reasons are one. -/
theorem reason_tables {reason : String} (h : reason ∈ Transport.REASONS) :
    Go.reasonCodes reason = Rust.reason_code reason ∧
      Transport.REASONS.getD (Rust.reason_code reason).toNat "snapshot" = reason := by
  simp only [Transport.REASONS, List.mem_cons, List.not_mem_nil, or_false] at h
  rcases h with rfl | rfl | rfl | rfl | rfl | rfl <;> exact ⟨rfl, rfl⟩

/-- The relays emit the same frame. -/
theorem encode_agree (go rust : Numerals) (msgType : UInt8) {tl : LuaTimeline} (h : Carried tl) :
    Go.encodeTimeline msgType (Go.toWire go tl) = Rust.encode_timeline rust msgType tl := by
  obtain ⟨z, -, hz⟩ := h.storeEpoch
  have hparse : ∀ lang : Numerals, lang.parse tl.storeEpoch = some (Doubles.nearestInt z) := by
    intro lang
    rw [Numerals.parse, hz, canonical?_toString]
  rw [Go.encodeTimeline_eq, Rust.encode_timeline_eq, Go.toWire, hparse, hparse, (reason_tables h.reason).1]

theorem decode_encode (js rust : Numerals) (msgType : UInt8) {tl : LuaTimeline} (h : Carried tl) :
    Transport.decodeTimeline js (Rust.encode_timeline rust msgType tl) = some tl.sent := by
  obtain ⟨z, hlt, hz⟩ := h.storeEpoch
  have hseq : (UInt32.ofInt tl.seq).toNat = tl.seq.toNat := by
    have h0 := h.seq_nonneg
    have h32 := h.seq_lt
    unfold UInt32.ofInt
    rw [UInt32.toNat_ofNat', Int.emod_eq_of_lt h0 h32]
    omega
  have hshow : js.show ((rust.parse tl.storeEpoch).getD 0) = tl.storeEpoch := by
    rw [Numerals.parse, hz, canonical?_toString, Option.getD_some, Numerals.show, Doubles.integer?_nearestInt hlt]
  rw [Rust.encode_timeline_eq, decode_layout js _ _ _ _ _ _ (UInt32.toNat_lt _), hshow, hseq,
    (reason_tables h.reason).2, LuaTimeline.sent]

/-- **The round trip of a timeline.** Both relays write the same frame of it, the harness reads every field of it back,
and what the harness reads is ordered as what was sent. -/
theorem frame_round_trip (go rust js : Numerals) (msgType : UInt8) :
    (∀ tl, Carried tl →
      Go.encodeTimeline msgType (Go.toWire go tl) = Rust.encode_timeline rust msgType tl ∧
        Transport.decodeTimeline js (Rust.encode_timeline rust msgType tl) = some tl.sent) ∧
    ∀ incoming applied, Carried incoming → Carried applied → ∀ x y,
      Transport.decodeTimeline js (Go.encodeTimeline msgType (Go.toWire go incoming)) = some x →
      Transport.decodeTimeline js (Go.encodeTimeline msgType (Go.toWire go applied)) = some y →
        Transport.isNewer js x (some y) = Transport.isNewer js incoming.sent (some applied.sent) := by
  refine ⟨fun tl h => ⟨encode_agree go rust msgType h, decode_encode js rust msgType h⟩, ?_⟩
  intro incoming applied hi ha x y hx hy
  rw [encode_agree go rust msgType hi, decode_encode js rust msgType hi] at hx
  rw [encode_agree go rust msgType ha, decode_encode js rust msgType ha] at hy
  cases hx
  cases hy
  rfl

end Relay
end WatchParty
