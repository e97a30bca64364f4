import Mathlib.Data.List.Basic
import Mathlib.Data.List.Infix

/-!
# Strings of code units

A string as JavaScript has it is a list of 16-bit code units, in which surrogates need not come in pairs.

- `scalars` and `units` go to the scalar values of a string and back, as the interfaces of the platform do;
- `isSpace` is what `\s` matches, and what `trim` takes away at both ends;
- `utf8Decode` reads bytes as UTF-8, with U+FFFD for what is not.
-/

abbrev JSString := List UInt16

namespace JSString

/-- The string of an ASCII literal. -/
def ascii (cs : List Char) : JSString := cs.map fun c => c.toNat.toUInt16

def isLead (u : UInt16) : Bool := 0xd800 ≤ u ∧ u ≤ 0xdbff

def isTrail (u : UInt16) : Bool := 0xdc00 ≤ u ∧ u ≤ 0xdfff

def replacement : Char := Char.ofNat 0xfffd

/-- The scalar value of a code unit alone. -/
def scalar (u : UInt16) : Char := if isLead u ∨ isTrail u then replacement else Char.ofNat u.toNat

def scalars : JSString → List Char
  | [] => []
  | [u] => [scalar u]
  | u :: v :: us =>
    if isLead u ∧ isTrail v then
      Char.ofNat (0x10000 + (u.toNat - 0xd800) * 0x400 + (v.toNat - 0xdc00)) :: scalars us
    else scalar u :: scalars (v :: us)

def units (cs : List Char) : JSString :=
  cs.flatMap fun c =>
    if c.toNat < 0x10000 then [c.toNat.toUInt16]
    else [(0xd800 + (c.toNat - 0x10000) / 0x400).toUInt16, (0xdc00 + (c.toNat - 0x10000) % 0x400).toUInt16]

def isSpace (u : UInt16) : Bool :=
  (9 ≤ u ∧ u ≤ 13) ∨ (0x2000 ≤ u ∧ u ≤ 0x200a) ∨
    u ∈ ([0x20, 0xa0, 0x1680, 0x2028, 0x2029, 0x202f, 0x205f, 0x3000, 0xfeff] : List UInt16)

def trim (s : JSString) : JSString := ((s.dropWhile isSpace).reverse.dropWhile isSpace).reverse

/-- The lower case of a string of ASCII. -/
def toLowerCase (s : JSString) : JSString := s.map fun u => if 0x41 ≤ u ∧ u ≤ 0x5a then u + 0x20 else u

/-! ## UTF-8 -/

/-- How far the decoder is into a sequence of bytes: what it has of the scalar value, how many bytes are missing, and the
bounds of the next one. -/
structure Decoder where
  value : ℕ
  needed : ℕ
  lower : UInt8
  upper : UInt8

/-- The first byte of a sequence. -/
def first (b : UInt8) : List Char × Decoder :=
  if b ≤ 0x7f then ([Char.ofNat b.toNat], ⟨0, 0, 0x80, 0xbf⟩)
  else if 0xc2 ≤ b ∧ b ≤ 0xdf then ([], ⟨b.toNat % 0x20, 1, 0x80, 0xbf⟩)
  else if 0xe0 ≤ b ∧ b ≤ 0xef then
    ([], ⟨b.toNat % 0x10, 2, if b = 0xe0 then 0xa0 else 0x80, if b = 0xed then 0x9f else 0xbf⟩)
  else if 0xf0 ≤ b ∧ b ≤ 0xf4 then
    ([], ⟨b.toNat % 0x8, 3, if b = 0xf0 then 0x90 else 0x80, if b = 0xf4 then 0x8f else 0xbf⟩)
  else ([replacement], ⟨0, 0, 0x80, 0xbf⟩)

def decodeFrom : Decoder → List UInt8 → List Char
  | d, [] => if d.needed = 0 then [] else [replacement]
  | d, b :: bs =>
    if d.needed = 0 then (first b).1 ++ decodeFrom (first b).2 bs
    else if b < d.lower ∨ d.upper < b then
      -- The byte does not belong to the sequence, and may begin one.
      replacement :: ((first b).1 ++ decodeFrom (first b).2 bs)
    else if d.needed = 1 then Char.ofNat (d.value * 0x40 + b.toNat % 0x40) :: decodeFrom ⟨0, 0, 0x80, 0xbf⟩ bs
    else decodeFrom ⟨d.value * 0x40 + b.toNat % 0x40, d.needed - 1, 0x80, 0xbf⟩ bs

def utf8Decode (bs : List UInt8) : List Char := decodeFrom ⟨0, 0, 0x80, 0xbf⟩ bs

/-! ## Strings that begin with ASCII -/

/-- A character that is ASCII and is no control and no space. -/
def Plain (c : Char) : Prop := 0x20 < c.toNat ∧ c.toNat < 0x7f

instance (c : Char) : Decidable (Plain c) := inferInstanceAs (Decidable (_ ∧ _))

theorem scalars_cons {u : UInt16} (h : isLead u = false) (us : JSString) :
    scalars (u :: us) = scalar u :: scalars us := by
  cases us with
  | nil => rfl
  | cons v us => simp [scalars, h]

theorem unit_toNat {c : Char} (h : Plain c) : (c.toNat.toUInt16).toNat = c.toNat := by
  exact UInt16.toNat_ofNat_of_lt' (h.2.trans (by decide))

theorem scalar_plain {c : Char} (h : Plain c) :
    isLead c.toNat.toUInt16 = false ∧ scalar c.toNat.toUInt16 = c := by
  have hn := unit_toNat h
  have hlt : c.toNat.toUInt16 < 0xd800 := by
    rw [UInt16.lt_iff_toNat_lt, hn]
    exact h.2.trans (by decide)
  have hlead : isLead c.toNat.toUInt16 = false := by
    simp only [isLead, decide_eq_false_iff_not, not_and]
    intro hle
    exact absurd hlt (UInt16.not_lt.mpr hle)
  have htrail : isTrail c.toNat.toUInt16 = false := by
    simp only [isTrail, decide_eq_false_iff_not, not_and]
    intro hle
    have hlt' : c.toNat.toUInt16 < 0xdc00 := UInt16.lt_trans hlt (by decide)
    exact absurd hlt' (UInt16.not_lt.mpr hle)
  refine ⟨hlead, ?_⟩
  rw [scalar, hlead, htrail, if_neg (by decide), hn, Char.ofNat_toNat]

/-- The scalar values of a string that begins with ASCII. -/
theorem scalars_ascii {cs : List Char} (h : ∀ c ∈ cs, Plain c) (us : JSString) :
    scalars (ascii cs ++ us) = cs ++ scalars us := by
  induction cs with
  | nil => rfl
  | cons c cs ih =>
    obtain ⟨hlead, hscalar⟩ := scalar_plain (h c List.mem_cons_self)
    have hcs := ih fun x hx => h x (List.mem_cons_of_mem _ hx)
    change scalars (c.toNat.toUInt16 :: (ascii cs ++ us)) = _
    rw [scalars_cons hlead, hscalar, hcs]
    rfl

/-- Nothing is taken away of a string without spaces. -/
theorem trim_eq_self {s : JSString} (h : ∀ u ∈ s, isSpace u = false) : trim s = s := by
  have hdrop : ∀ t : JSString, (∀ u ∈ t, isSpace u = false) → t.dropWhile isSpace = t := by
    intro t ht
    cases t with
    | nil => rfl
    | cons u t => rw [List.dropWhile_cons_of_neg (by simp [ht u List.mem_cons_self])]
  unfold trim
  rw [hdrop s h, hdrop s.reverse fun u hu => h u (List.mem_reverse.mp hu), List.reverse_reverse]

end JSString
