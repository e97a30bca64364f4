import Mathlib

/-!
# Doubles and their bits

Facts about `Float`, read off its logical model: a double is what its bits encode, bits that encode a finite number are
kept, and the integers of a magnitude below `2 ^ 53` are exact.

- `pack_unpack`, `unpack_pack`: a format's bits and the number that they are;
- `ofBits_toBits`, `toBits_ofBits`: the same of `Float`;
- `nearestNat` is the nearest double of a natural, `natural?` the natural below `2 ^ 53` that a double is
  (`natural?_nearestNat`); `integer?_nearestInt` is the same of the integers.
-/

namespace Doubles

open Float.Model Float.Model.UnpackedFloat

/-- The format of doubles. -/
abbrev spec : Format := Format.binary64

/-! ## Bits -/

theorem toBitVec_ofBitVec (s : BitVec 1) : (Sign.ofBitVec s).toBitVec = s := by
  unfold Sign.ofBitVec
  split
  · rename_i h
    rw [h]
    rfl
  · rename_i h
    have h1 : s = 1#1 := by
      revert s
      decide
    rw [h1]
    rfl

/-- The three fields of a word are the word. -/
theorem packComponents_unpack (b : BitVec spec.numBits) :
    packComponents spec (Sign.ofBitVec (unpackSign b)) (unpackExponent b) (unpackMantissa b) = b := by
  unfold packComponents
  rw [toBitVec_ofBitVec]
  apply BitVec.eq_of_getLsbD_eq
  intro i hi
  have hlt : i < 64 := hi
  simp only [BitVec.getLsbD_append, unpackSign, unpackExponent, unpackMantissa, BitVec.getLsbD_cast,
    BitVec.getLsbD_extractLsb]
  split
  · simp
    omega
  · split
    · have h1 : 52 + (i - 52) = i := by omega
      have h2 : i - 52 < 52 + 11 - 1 - 52 + 1 := by omega
      simp only [h1, h2, decide_true, Bool.true_and]
    · have h1 : 52 + 11 + (i - 52 - 11) = i := by omega
      have h2 : i - 52 - 11 < 52 + 11 - (52 + 11) + 1 := by omega
      simp only [h1, h2, decide_true, Bool.true_and]

theorem unpackSign_packComponents (s : Sign) (e : BitVec 11) (m : BitVec 52) :
    unpackSign (packComponents spec s e m) = s.toBitVec := by
  apply BitVec.eq_of_getLsbD_eq
  intro i hi
  obtain rfl : i = 0 := by omega
  have hs : (s.toBitVec ++ e ++ m).getLsbD 63 = s.toBitVec.getLsbD 0 := by
    rw [BitVec.getLsbD_append, BitVec.getLsbD_append]
    rfl
  have hb : (unpackSign (packComponents spec s e m)).getLsbD 0 = (packComponents spec s e m).getLsbD 63 := by
    simp [unpackSign]
  exact hb.trans hs

/-- The significand of a normal number: the implicit bit and the mantissa. -/
theorem toNat_significand (m : BitVec 52) : (1#1 ++ m).toNat = 2 ^ 52 + m.toNat := by
  rw [BitVec.toNat_append, ← Nat.shiftLeft_add_eq_or_of_lt m.isLt]
  rfl

theorem log2_significand {m : ℕ} (hle : 2 ^ 52 ≤ m) (hlt : m < 2 ^ 53) : m.log2 = 52 := by
  have hne : m ≠ 0 := by omega
  exact le_antisymm (Nat.lt_succ_iff.mp ((Nat.log2_lt hne).mpr hlt)) ((Nat.le_log2 hne).mpr hle)

/-- A word that is no NaN, or the canonical one, is what it encodes. -/
theorem pack_unpack {b : BitVec spec.numBits} (h : spec.Valid b) :
    UnpackedFloat.pack spec (UnpackedFloat.unpack spec b) = b := by
  have hb := packComponents_unpack b
  unfold UnpackedFloat.unpack
  dsimp only
  split
  · rename_i he
    split
    · rename_i hm
      rw [he, hm] at hb
      exact hb
    · rename_i hm
      exact (h.eq_packedNaN he hm).symm
  · rename_i he
    split
    · rename_i h0
      split
      · rename_i hm
        rw [h0, hm] at hb
        exact hb
      · -- a subnormal number: the exponent field is packed as 1, and the mantissa has no 53rd bit
        rename_i hm
        have hpos : (unpackMantissa b).toNat ≠ 0 := fun h => hm (BitVec.eq_of_toNat_eq (by simpa using h))
        have hlog : (unpackMantissa b).toNat.log2 < 52 := (Nat.log2_lt hpos).mpr (unpackMantissa b).isLt
        have hexp : ((unpackExponent b).toNat - ((spec.exponentBias : ℤ) + (52 : ℕ)) + 1 + spec.exponentBias +
            (52 : ℕ)).toNat = 1 := by
          rw [h0]
          rfl
        unfold UnpackedFloat.pack
        dsimp only
        rw [hexp, if_neg (by norm_num), if_neg (by show ¬_ = 53; omega), BitVec.ofNat_toNat, BitVec.setWidth_eq]
        rw [h0] at hb
        exact hb
    · have hlt : (unpackExponent b).toNat < 2047 := by
        have hlt : (unpackExponent b).toNat < 2048 := (unpackExponent b).isLt
        have hne : (unpackExponent b).toNat ≠ 2047 := fun h => he (BitVec.eq_of_toNat_eq h)
        omega
      have hexp : ((unpackExponent b).toNat - ((spec.exponentBias : ℤ) + (52 : ℕ)) + spec.exponentBias +
          (52 : ℕ)).toNat = (unpackExponent b).toNat := by
        omega
      have hman : BitVec.ofNat 52 (2 ^ 52 + (unpackMantissa b).toNat) = unpackMantissa b := by
        apply BitVec.eq_of_toNat_eq
        rw [BitVec.toNat_ofNat, Nat.add_mod_left, Nat.mod_eq_of_lt (unpackMantissa b).isLt]
      have hlog := log2_significand (Nat.le_add_right (2 ^ 52) (unpackMantissa b).toNat)
        (Nat.add_lt_add_left (unpackMantissa b).isLt _)
      unfold UnpackedFloat.pack
      dsimp only
      rw [hexp, toNat_significand, if_neg (by omega), hlog, if_pos (show 52 + 1 = spec.mantissaBits from rfl), hman,
        BitVec.ofNat_toNat, BitVec.setWidth_eq]
      exact hb

theorem valid_of_unpack {b : BitVec spec.numBits} (h : UnpackedFloat.unpack spec b ≠ .notANumber) : spec.Valid b := by
  refine ⟨fun he hm => absurd ?_ h⟩
  unfold UnpackedFloat.unpack
  dsimp only
  rw [if_pos he, if_neg hm]

/-- A double is what its bits encode. -/
theorem ofBits_toBits (f : Float) : Float.ofBits f.toBits = f := by
  obtain ⟨⟨b, hb⟩⟩ := f
  show Float.ofModel (Float.Model.ofBits b) = _
  congr 1
  unfold Float.Model.ofBits Float.Model.pack
  simp only [pack_unpack hb]

/-- Bits of a finite number are kept. -/
theorem toBits_ofBits {b : UInt64} (h : (Float.ofBits b).isFinite = true) : (Float.ofBits b).toBits = b := by
  have hv : spec.Valid b.toBitVec := by
    refine valid_of_unpack fun hn => ?_
    change UnpackedFloat.isFinite (UnpackedFloat.unpack spec
      (UnpackedFloat.pack spec (UnpackedFloat.unpack spec b.toBitVec))) = true at h
    rw [hn] at h
    exact absurd h (by decide)
  show UInt64.ofBitVec (UnpackedFloat.pack spec (UnpackedFloat.unpack spec b.toBitVec)) = b
  rw [pack_unpack hv]

/-- A double is finite, infinite or not a number. -/
theorem isFinite_eq (f : Float) : f.isFinite = (!f.isNaN && !f.isInf) := by
  show UnpackedFloat.isFinite f.toModel.unpack =
    (!UnpackedFloat.isNaN f.toModel.unpack && !UnpackedFloat.isInf f.toModel.unpack)
  cases f.toModel.unpack <;> rfl

/-! ## Natural numbers -/

/-- The nearest double of a natural. -/
def nearestNat (n : ℕ) : Float := .ofModel (.ofNat n)

/-- The natural number below `2 ^ 53` that a double is. -/
def natural? (f : Float) : Option ℕ :=
  let n := f.toUInt64.toNat
  if n < 2 ^ 53 ∧ (nearestNat n == f) = true then some n else none

/-- The 53-bit significand of a natural. -/
def scaled (n : ℕ) : ℕ := n <<< (52 - n.log2)

theorem log2_le_of_lt {n : ℕ} (h0 : n ≠ 0) (h : n < 2 ^ 53) : n.log2 ≤ 52 :=
  Nat.lt_succ_iff.mp ((Nat.log2_lt h0).mpr h)

theorem scaled_bounds {n : ℕ} (h0 : n ≠ 0) (h : n < 2 ^ 53) : 2 ^ 52 ≤ scaled n ∧ scaled n < 2 ^ 53 := by
  have hle := log2_le_of_lt h0 h
  unfold scaled
  rw [Nat.shiftLeft_eq]
  constructor
  · calc 2 ^ 52 = 2 ^ n.log2 * 2 ^ (52 - n.log2) := by rw [← pow_add]; congr 1; omega
      _ ≤ n * 2 ^ (52 - n.log2) := Nat.mul_le_mul_right _ (Nat.log2_self_le h0)
  · calc n * 2 ^ (52 - n.log2) < 2 ^ (n.log2 + 1) * 2 ^ (52 - n.log2) :=
          Nat.mul_lt_mul_of_pos_right Nat.lt_log2_self (by positivity)
      _ = 2 ^ 53 := by rw [← pow_add]; congr 1; omega

theorem scaled_pos {n : ℕ} (h0 : n ≠ 0) (h : n < 2 ^ 53) : 0 < scaled n :=
  lt_of_lt_of_le (by norm_num) (scaled_bounds h0 h).1

/-- An exact mantissa that is not to be shifted stays. -/
theorem shiftToExponent_of_le (m : ℕ) {e t : ℤ} (h : t ≤ e) :
    shiftToExponent m e .exact t = (⟨m, false, false⟩, e) := by
  unfold shiftToExponent
  have hs : (t - e).toNat = 0 := by omega
  simp only [hs, Nat.cast_zero, add_zero]
  rfl

/-- A natural of at most 53 bits is rounded to itself. -/
theorem round_natural {n : ℕ} (h0 : n ≠ 0) (h : n < 2 ^ 53) :
    UnpackedFloat.round spec .positive n 0 =
      .finite .positive (scaled n) (-((52 - n.log2 : ℕ) : ℤ)) (scaled_pos h0 h) := by
  have hle := log2_le_of_lt h0 h
  obtain ⟨h1, h2⟩ := scaled_bounds h0 h
  have ht : spec.targetExponent (totalExponent n 0) = n.log2 - 52 := by
    show max (((n.log2 : ℤ) + 1 + 0) - 53) (-1074) = _
    omega
  have ht' : spec.targetExponent (totalExponent (scaled n) (-((52 - n.log2 : ℕ) : ℤ))) = -((52 - n.log2 : ℕ) : ℤ) := by
    show max (((scaled n).log2 : ℤ) + 1 + -((52 - n.log2 : ℕ) : ℤ) - 53) (-1074) = _
    rw [log2_significand h1 h2]
    omega
  have hd : decreaseExponent n 0 (n.log2 - 52) = (scaled n, -((52 - n.log2 : ℕ) : ℤ)) := by
    unfold decreaseExponent scaled
    have hs : (0 - ((n.log2 : ℤ) - 52)).toNat = 52 - n.log2 := by omega
    rw [hs]
    dsimp only
    rw [zero_sub]
  unfold UnpackedFloat.round
  simp only [ht, hd]
  unfold roundWithAccuracy shiftToTargetExponent
  rw [ht', shiftToExponent_of_le _ le_rfl]
  simp only [ExtendedMantissa.roundedMantissa, ExtendedMantissa.accuracy, Accuracy.roundToNearestEven, ht',
    shiftToExponent_of_le _ le_rfl]
  rw [dif_neg (by omega)]

theorem finite_congr {s s' : Sign} {m m' : ℕ} {e e' : ℤ} {h : 0 < m} {h' : 0 < m'} (hs : s = s') (hm : m = m')
    (he : e = e') : UnpackedFloat.finite s m e h = .finite s' m' e' h' := by
  subst hs hm he
  rfl

/-- A normal number is what it is packed as. -/
theorem unpack_pack (s : Sign) {m : ℕ} {e : ℤ} (h1 : 2 ^ 52 ≤ m) (h2 : m < 2 ^ 53) (he1 : -1074 ≤ e) (he2 : e ≤ 971)
    (hp : 0 < m) :
    UnpackedFloat.unpack spec (UnpackedFloat.pack spec (.finite s m e hp)) = .finite s m e hp := by
  have hb : (e + spec.exponentBias + spec.mantissaBitsWithoutImplicit).toNat = (e + 1075).toNat := by
    show (e + 1023 + 52).toNat = _
    omega
  have hpk : UnpackedFloat.pack spec (.finite s m e hp) =
      packComponents spec s (BitVec.ofNat 11 (e + 1075).toNat) (BitVec.ofNat 52 m) := by
    unfold UnpackedFloat.pack
    dsimp only
    rw [hb, if_neg (show ¬2 ^ 11 ≤ (e + 1075).toNat + 1 by omega), log2_significand h1 h2,
      if_pos (show 52 + 1 = spec.mantissaBits from rfl)]
  have hexp : (BitVec.ofNat 11 (e + 1075).toNat).toNat = (e + 1075).toNat := by
    rw [BitVec.toNat_ofNat]
    omega
  have hm : (BitVec.ofNat 52 m).toNat = m - 2 ^ 52 := by
    rw [BitVec.toNat_ofNat]
    omega
  have hne1 : BitVec.ofNat 11 (e + 1075).toNat ≠ -1#11 := by
    intro h
    have hn := congrArg BitVec.toNat h
    rw [hexp, show (-1#11 : BitVec 11).toNat = 2047 by decide] at hn
    omega
  have hne0 : BitVec.ofNat 11 (e + 1075).toNat ≠ 0#11 := by
    intro h
    have hn := congrArg BitVec.toNat h
    rw [hexp, show (0#11 : BitVec 11).toNat = 0 by decide] at hn
    omega
  rw [hpk]
  unfold UnpackedFloat.unpack
  simp only [unpackExponent_packComponents, unpackMantissa_packComponents, if_neg hne1, if_neg hne0]
  refine finite_congr ?_ ?_ ?_
  · rw [unpackSign_packComponents]
    cases s <;> rfl
  · rw [toNat_significand, hm]
    omega
  · rw [hexp]
    show ((e + 1075).toNat : ℤ) - (1023 + 52) = e
    omega

theorem nearestNat_unpack {n : ℕ} (h0 : n ≠ 0) (h : n < 2 ^ 53) :
    (nearestNat n).toModel.unpack =
      .finite .positive (scaled n) (-((52 - n.log2 : ℕ) : ℤ)) (scaled_pos h0 h) := by
  have hle := log2_le_of_lt h0 h
  obtain ⟨h1, h2⟩ := scaled_bounds h0 h
  have hn : UnpackedFloat.ofNat spec n = UnpackedFloat.round spec .positive n 0 := by
    unfold UnpackedFloat.ofNat UnpackedFloat.ofInt UnpackedFloat.normalize
    rw [Int.compare_eq_gt.mpr (by omega)]
    rfl
  show UnpackedFloat.unpack spec (UnpackedFloat.pack spec (UnpackedFloat.ofNat spec n)) = _
  rw [hn, round_natural h0 h]
  exact unpack_pack .positive h1 h2 (by omega) (by omega) _

theorem eq_of_unpack {f g : Float} (h : f.toModel.unpack = g.toModel.unpack) : f = g := by
  obtain ⟨⟨b, hb⟩⟩ := f
  obtain ⟨⟨c, hc⟩⟩ := g
  have hbc : b.toBitVec = c.toBitVec :=
    (pack_unpack hb).symm.trans ((congrArg (UnpackedFloat.pack spec) h).trans (pack_unpack hc))
  obtain rfl : b = c := UInt64.eq_of_toBitVec_eq hbc
  rfl

theorem neg_unpack {f : Float} {s : Sign} {m : ℕ} {e : ℤ} {hp : 0 < m} (h : f.toModel.unpack = .finite s m e hp)
    (h1 : 2 ^ 52 ≤ m) (h2 : m < 2 ^ 53) (he1 : -1074 ≤ e) (he2 : e ≤ 971) :
    (-f).toModel.unpack = .finite (-s) m e hp := by
  show UnpackedFloat.unpack spec (UnpackedFloat.pack spec f.toModel.unpack.neg) = _
  rw [h]
  exact unpack_pack (-s) h1 h2 he1 he2 hp

theorem neg_nearestNat_unpack {n : ℕ} (h0 : n ≠ 0) (h : n < 2 ^ 53) :
    (-nearestNat n).toModel.unpack =
      .finite .negative (scaled n) (-((52 - n.log2 : ℕ) : ℤ)) (scaled_pos h0 h) := by
  obtain ⟨h1, h2⟩ := scaled_bounds h0 h
  exact neg_unpack (nearestNat_unpack h0 h) h1 h2 (by omega) (by omega)

theorem neg_neg_nearestNat {n : ℕ} (h0 : n ≠ 0) (h : n < 2 ^ 53) : - -nearestNat n = nearestNat n := by
  obtain ⟨h1, h2⟩ := scaled_bounds h0 h
  apply eq_of_unpack
  rw [nearestNat_unpack h0 h]
  exact neg_unpack (neg_nearestNat_unpack h0 h) h1 h2 (by omega) (by omega)

theorem mantissa_shiftRight (em : ExtendedMantissa) (k : ℕ) : (em >>> k).mantissa = em.mantissa / 2 ^ k := by
  show (k.repeat ExtendedMantissa.shiftRightOne em).mantissa = _
  induction k with
  | zero => simp [Nat.repeat]
  | succ k ih =>
    show (k.repeat ExtendedMantissa.shiftRightOne em).mantissa / 2 = _
    rw [ih, Nat.div_div_eq_div_mul, pow_succ]

theorem roundToInt_shifted (m k : ℕ) : roundToInt .positive m (-(k : ℤ)) = (m / 2 ^ k : ℕ) := by
  have hd : decreaseExponent m (-(k : ℤ)) 0 = (m, -(k : ℤ)) := by
    unfold decreaseExponent
    rw [show (-(k : ℤ) - 0).toNat = 0 by omega]
    simp
  unfold roundToInt
  simp only [hd]
  unfold shiftToExponent
  dsimp only
  rw [show (0 - -(k : ℤ)).toNat = k by omega, mantissa_shiftRight]
  rfl

/-- A natural of at most 53 bits is read back. -/
theorem toUInt64_nearestNat {n : ℕ} (h : n < 2 ^ 53) : (nearestNat n).toUInt64.toNat = n := by
  by_cases h0 : n = 0
  · subst h0
    decide +kernel
  · have hi : (nearestNat n).toModel.unpack.toInt 0 (UInt64.size - 1) = n := by
      rw [nearestNat_unpack h0 h]
      show roundToInt .positive (scaled n) (-((52 - n.log2 : ℕ) : ℤ)) = n
      rw [roundToInt_shifted, scaled, Nat.shiftLeft_eq, Nat.mul_div_cancel _ (by positivity)]
    show (UInt64.ofNatClamp ((nearestNat n).toModel.unpack.toInt 0 (UInt64.size - 1)).toNat).toNat = n
    rw [hi, Int.toNat_natCast]
    unfold UInt64.ofNatClamp
    rw [dif_pos (show n < UInt64.size from lt_trans h (by decide))]
    simp

theorem nearestNat_beq {n : ℕ} (h : n < 2 ^ 53) : (nearestNat n == nearestNat n) = true := by
  by_cases h0 : n = 0
  · subst h0
    decide +kernel
  · show ((nearestNat n).toModel.unpack.compare (nearestNat n).toModel.unpack == some .eq) = true
    rw [nearestNat_unpack h0 h]
    simp [UnpackedFloat.compare]

theorem natural?_nearestNat {n : ℕ} (h : n < 2 ^ 53) : natural? (nearestNat n) = some n := by
  unfold natural?
  rw [toUInt64_nearestNat h]
  exact if_pos ⟨h, nearestNat_beq h⟩

/-! ## Integers -/

/-- The nearest double of an integer. -/
def nearestInt : ℤ → Float
  | .ofNat n => nearestNat n
  | .negSucc n => -nearestNat (n + 1)

/-- The integer of a magnitude below `2 ^ 53` that a double is. -/
def integer? (f : Float) : Option ℤ :=
  match natural? f with
  | some n => some n
  | none => (natural? (-f)).map fun n : ℕ => -(n : ℤ)

/-- A negative number is no natural. -/
theorem natural?_neg_nearestNat {n : ℕ} (h0 : n ≠ 0) (h : n < 2 ^ 53) : natural? (-nearestNat n) = none := by
  unfold natural?
  refine if_neg fun ⟨hk, hbeq⟩ => ?_
  generalize (-nearestNat n).toUInt64.toNat = k at hk hbeq
  change ((nearestNat k).toModel.unpack.compare (-nearestNat n).toModel.unpack == some .eq) = true at hbeq
  rw [neg_nearestNat_unpack h0 h] at hbeq
  by_cases hk0 : k = 0
  · subst hk0
    have hz : (nearestNat 0).toModel.unpack = .zero .positive := by
      rfl
    rw [hz] at hbeq
    exact absurd hbeq Bool.false_ne_true
  · rw [nearestNat_unpack hk0 hk] at hbeq
    exact absurd hbeq (by simp [UnpackedFloat.compare])

theorem integer?_nearestInt {z : ℤ} (h : z.natAbs < 2 ^ 53) : integer? (nearestInt z) = some z := by
  unfold integer?
  cases z with
  | ofNat n =>
    have hn : natural? (nearestInt (.ofNat n)) = some n := natural?_nearestNat h
    rw [hn]
    rfl
  | negSucc n =>
    have h : n + 1 < 2 ^ 53 := h
    rw [nearestInt, natural?_neg_nearestNat n.succ_ne_zero h, neg_neg_nearestNat n.succ_ne_zero h,
      natural?_nearestNat h]
    rfl

end Doubles
