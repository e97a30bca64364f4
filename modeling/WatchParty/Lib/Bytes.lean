import Mathlib.Data.List.Basic
import Mathlib.Tactic.Linarith

/-!
# Byte strings

Little-endian words, reads and writes at an offset, and text as bytes. A byte string is a list of bytes.

- `le`, `ofLE`: the little-endian bytes of a number and the number of little-endian bytes (`ofLE_le`, `le_ofLE`);
- `slice`, `put`: reading and overwriting at an offset (`slice_append`, `put_append`);
- `utf8`, `fromUtf8?`: a string's bytes and back; `runes` is the decoding that replaces what is not UTF-8 by U+FFFD;
- ASCII bytes are their own runes and the text of their characters (`runes_ascii`, `fromUtf8?_ascii`).
-/

namespace Bytes

/-! ## Little-endian words -/

/-- The `k` low bytes of a number, least significant first. -/
def le : ℕ → ℕ → List UInt8
  | 0, _ => []
  | k + 1, n => UInt8.ofNat (n % 256) :: le k (n / 256)

/-- The number that little-endian bytes spell. -/
def ofLE : List UInt8 → ℕ
  | [] => 0
  | b :: bs => b.toNat + 256 * ofLE bs

@[simp] theorem length_le (k n : ℕ) : (le k n).length = k := by
  induction k generalizing n with
  | zero => rfl
  | succ k ih => simp [le, ih]

theorem ofLE_le (k n : ℕ) : ofLE (le k n) = n % 256 ^ k := by
  induction k generalizing n with
  | zero => simp [le, ofLE, Nat.mod_one]
  | succ k ih =>
    have hb : (UInt8.ofNat (n % 256)).toNat = n % 256 := by simp
    rw [le, ofLE, ih, hb, pow_succ', Nat.mod_mul]

theorem le_ofLE (bs : List UInt8) : le bs.length (ofLE bs) = bs := by
  induction bs with
  | nil => rfl
  | cons b bs ih =>
    have hlt := b.toNat_lt
    have hd : (b.toNat + 256 * ofLE bs) / 256 = ofLE bs := by omega
    have hm : (b.toNat + 256 * ofLE bs) % 256 = b.toNat := by omega
    rw [ofLE, List.length_cons, le, hd, hm, ih, UInt8.ofNat_toNat]

theorem ofLE_lt (bs : List UInt8) : ofLE bs < 256 ^ bs.length := by
  induction bs with
  | nil => simp [ofLE]
  | cons b bs ih =>
    have hlt := b.toNat_lt
    rw [ofLE, List.length_cons, pow_succ']
    omega

/-! ## Offsets -/

/-- The `n` bytes from an offset on. -/
def slice (buf : List UInt8) (offset n : ℕ) : List UInt8 := (buf.drop offset).take n

/-- The buffer with the bytes from an offset on overwritten. -/
def put (buf : List UInt8) (offset : ℕ) (bs : List UInt8) : List UInt8 :=
  buf.take offset ++ bs ++ buf.drop (offset + bs.length)

theorem slice_append {pre mid post : List UInt8} {offset n : ℕ} (ho : pre.length = offset) (hn : mid.length = n) :
    slice (pre ++ mid ++ post) offset n = mid := by
  subst ho hn
  simp [slice]

theorem put_append {pre mid post bs : List UInt8} {offset : ℕ} (ho : pre.length = offset)
    (hb : mid.length = bs.length) : put (pre ++ mid ++ post) offset bs = pre ++ bs ++ post := by
  subst ho
  simp [put, ← hb]

/-- Bytes written behind a prefix into the rest, which is still blank. -/
theorem put_zeros (pre bs : List UInt8) {offset n k : ℕ} {z : UInt8} (ho : pre.length = offset)
    (hn : n = bs.length + k) :
    put (pre ++ List.replicate n z) offset bs = pre ++ bs ++ List.replicate k z := by
  rw [hn, ← List.replicate_append_replicate, ← List.append_assoc, put_append ho (List.length_replicate ..)]

/-! ## Text -/

/-- The bytes of a string. -/
def utf8 (s : String) : List UInt8 := s.toByteArray.data.toList

/-- The string of bytes that are UTF-8. -/
def fromUtf8? (bs : List UInt8) : Option String := String.fromUTF8? bs.toByteArray

/-- The runes of a byte string: where a prefix is not the UTF-8 of a character, its first byte is U+FFFD. -/
def runes (bs : List UInt8) : List Char :=
  match bs with
  | [] => []
  | b :: bs =>
    match ByteArray.utf8DecodeChar? (b :: bs).toByteArray 0 with
    | some c => c :: runes (bs.drop (c.utf8Size - 1))
    | none => Char.ofNat 0xFFFD :: runes bs
termination_by bs.length
decreasing_by
  · simp only [List.length_drop, List.length_cons]
    omega
  · simp

theorem toList_toByteArray (bs : List UInt8) : bs.toByteArray.data.toList = bs := by
  simp

theorem utf8_of_fromUtf8? {bs : List UInt8} {s : String} (h : fromUtf8? bs = some s) : utf8 s = bs := by
  unfold fromUtf8? String.fromUTF8? at h
  split at h
  · cases h
    exact toList_toByteArray bs
  · cases h

theorem fromUtf8?_utf8 (s : String) : fromUtf8? (utf8 s) = some s := by
  have h : (utf8 s).toByteArray = s.toByteArray := by
    apply ByteArray.ext
    apply Array.toList_inj.mp
    exact toList_toByteArray _
  unfold fromUtf8? String.fromUTF8?
  rw [h]
  simp [s.isValidUTF8, String.fromUTF8]

theorem utf8_inj {s t : String} (h : utf8 s = utf8 t) : s = t := by
  have hs := fromUtf8?_utf8 s
  rw [h, fromUtf8?_utf8] at hs
  exact (Option.some.inj hs).symm

/-! ## ASCII -/

/-- The character of an ASCII byte. -/
def ascii (b : UInt8) : Char := Char.ofUInt8 b

theorem toNat_ascii (b : UInt8) : (ascii b).toNat = b.toNat := UInt8.toNat_toUInt32 b

theorem utf8EncodeChar_ascii {b : UInt8} (h : b.toNat < 128) : String.utf8EncodeChar (ascii b) = [b] := by
  have hv : (ascii b).val.toNat = b.toNat := toNat_ascii b
  unfold String.utf8EncodeChar
  rw [hv]
  simp [show b.toNat ≤ 127 by omega]

/-- A byte from 128 on starts no ASCII character. -/
theorem le_of_decode {b : UInt8} {bs : List UInt8} {c : Char} (h : 128 ≤ b.toNat)
    (hd : ByteArray.utf8DecodeChar? (b :: bs).toByteArray 0 = some c) : 128 ≤ c.toNat := by
  by_contra hc
  have hv : c.val.toNat ≤ 127 := by
    have : c.val.toNat < 128 := by simpa using hc
    omega
  have hsize : c.utf8Size = 1 := by
    unfold Char.utf8Size
    rw [if_pos (UInt32.le_iff_toNat_le.mpr hv)]
  have he := congrArg (fun a => a.data.toList) (String.toByteArray_utf8EncodeChar_of_utf8DecodeChar?_eq_some hd)
  have hl : String.utf8EncodeChar c = [b] := by simpa [hsize] using he
  have hb : b = UInt8.ofNat c.val.toNat := by
    unfold String.utf8EncodeChar at hl
    dsimp only at hl
    rw [if_pos hv] at hl
    exact (List.cons.inj hl).1.symm
  rw [hb, UInt8.toNat_ofNat'] at h
  omega

theorem runes_ascii {b : UInt8} (h : b.toNat < 128) (bs : List UInt8) : runes (b :: bs) = ascii b :: runes bs := by
  have hd : ByteArray.utf8DecodeChar? (b :: bs).toByteArray 0 = some (ascii b) := by
    have hb : (b :: bs).toByteArray = (String.utf8EncodeChar (ascii b)).toByteArray ++ bs.toByteArray := by
      rw [utf8EncodeChar_ascii h, ← List.toByteArray_append]
      rfl
    rw [hb]
    exact ByteArray.utf8DecodeChar?_utf8EncodeChar_append
  have hsize : (ascii b).utf8Size = 1 := by
    rw [← String.length_utf8EncodeChar, utf8EncodeChar_ascii h]
    rfl
  rw [runes, hd]
  simp [hsize]

/-- Any other byte begins with a rune that is not ASCII. -/
theorem runes_of_le {b : UInt8} (h : 128 ≤ b.toNat) (bs : List UInt8) :
    ∃ c cs, runes (b :: bs) = c :: cs ∧ 128 ≤ c.toNat := by
  rw [runes]
  cases hd : ByteArray.utf8DecodeChar? (b :: bs).toByteArray 0 with
  | some c => exact ⟨c, _, rfl, le_of_decode h hd⟩
  | none => exact ⟨Char.ofNat 0xFFFD, _, rfl, by decide⟩

/-- ASCII bytes are UTF-8. -/
theorem fromUtf8?_ascii {bs : List UInt8} (h : ∀ b ∈ bs, b.toNat < 128) :
    fromUtf8? bs = some (String.ofList (bs.map ascii)) := by
  have hb : utf8 (String.ofList (bs.map ascii)) = bs := by
    show ((bs.map ascii).flatMap String.utf8EncodeChar).toByteArray.data.toList = bs
    rw [toList_toByteArray, List.flatMap_map]
    induction bs with
    | nil => rfl
    | cons b bs ih =>
      rw [List.flatMap_cons, utf8EncodeChar_ascii (h b List.mem_cons_self),
        ih fun b' hb' => h b' (List.mem_cons_of_mem _ hb')]
      rfl
  rw [← hb]
  simpa only [hb] using fromUtf8?_utf8 (String.ofList (bs.map ascii))

end Bytes
