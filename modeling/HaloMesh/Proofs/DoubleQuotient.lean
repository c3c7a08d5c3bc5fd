import HaloMesh.Scalar
import Mathlib.Algebra.Order.Ring.Int
import Mathlib.Tactic.Ring
import Mathlib.Tactic.Linarith

/-! Quotients of whole numbers in double precision. Whole numbers up to `2 ^ 53` are doubles. Their quotient is rounded, but
never up to an integer that the exact quotient stays below, so its integer part is the exact one. -/

namespace HaloMesh.Double

open Float.Model (Format UnpackedFloat totalExponent)
open Float.Model.UnpackedFloat

/-- The number `m * 2 ^ e` with all bits of its mantissa in use. -/
structure Is (x : Float) (m : Nat) (e : Int) : Prop where
  full : m.log2 = 52
  low : -1074 ≤ e
  high : e ≤ 971
  model : ∃ pos, x.toModel = Float.Model.pack (.finite .positive m e pos)

theorem log2_eq {m : Nat} (k : Nat) (low : 2 ^ k ≤ m) (high : m < 2 ^ (k + 1)) : m.log2 = k :=
  (Nat.log2_eq_iff (Nat.ne_of_gt (Nat.lt_of_lt_of_le (by positivity) low))).mpr ⟨low, high⟩

theorem range_of_log2 {m k : Nat} (pos : 0 < k) (full : m.log2 = k) : 2 ^ k ≤ m ∧ m < 2 ^ (k + 1) := by
  have nonzero : m ≠ 0 := by rintro rfl; rw [Nat.log2_zero] at full; omega
  exact (Nat.log2_eq_iff nonzero).mp full

/-! The word of a number. -/

theorem toNat_packComponents (e : BitVec 11) (m : BitVec 52) :
    (packComponents Format.binary64 .positive e m).toNat = e.toNat * 2 ^ 52 + m.toNat := by
  have packed : packComponents Format.binary64 .positive e m = (0#1 ++ e ++ m) := rfl
  rw [packed, BitVec.toNat_append, BitVec.toNat_append, ← Nat.shiftLeft_add_eq_or_of_lt m.isLt]
  simp [Nat.shiftLeft_eq]

/-- A number with all bits of its mantissa in use has its first bit left out. -/
theorem pack_normal {spec : Format} {sign : Sign} {m : Nat} {e : Int} {pos : 0 < m} (bits : m.log2 + 1 = spec.mantissaBits)
    (fits : ¬ 2 ^ spec.exponentBits ≤ (e + spec.exponentBias + spec.mantissaBitsWithoutImplicit).toNat + 1) :
    pack spec (.finite sign m e pos) = packComponents spec sign
      (BitVec.ofNat _ (e + spec.exponentBias + spec.mantissaBitsWithoutImplicit).toNat) (BitVec.ofNat _ m) :=
  (if_neg fits).trans (if_pos bits)

theorem unpack_normal {spec : Format} {b : BitVec spec.numBits} {sign : Sign} {m : Nat} {e : Int}
    (finite : unpackExponent b ≠ -1#_) (some_ : unpackExponent b ≠ 0#_) (signed : Sign.ofBitVec (unpackSign b) = sign)
    (mantissa : (1#1 ++ unpackMantissa b).toNat = m)
    (exponent : ((unpackExponent b).toNat : Int) - (spec.exponentBias + spec.mantissaBitsWithoutImplicit) = e) :
    ∃ pos, unpack spec b = .finite sign m e pos := by
  subst signed mantissa exponent
  exact ⟨_, (if_neg finite).trans (if_neg some_)⟩

theorem pack_finite {m : Nat} {e : Int} (pos : 0 < m) (full : m.log2 = 52) (low : -1074 ≤ e) (high : e ≤ 971) :
    pack Format.binary64 (.finite .positive m e pos) =
      packComponents Format.binary64 .positive (BitVec.ofNat 11 (e + 1075).toNat) (BitVec.ofNat 52 m) := by
  have biased : e + (Format.binary64.exponentBias : Int) + (Format.binary64.mantissaBitsWithoutImplicit : Int) = e + 1075 := by
    simp only [Format.exponentBias]
    omega
  have fits : ¬ 2 ^ 11 ≤ (e + 1075).toNat + 1 := by omega
  have bits : m.log2 + 1 = Format.binary64.mantissaBits := by rw [full]; rfl
  rw [← biased] at fits
  rw [pack_normal bits fits, biased]

namespace Is

variable {x : Float} {m : Nat} {e : Int}

theorem toBits_eq (is : Is x m e) : x.toBits.toNat = (e + 1075).toNat * 2 ^ 52 + (m - 2 ^ 52) := by
  obtain ⟨full, low, high, pos, model⟩ := is
  obtain ⟨least, greatest⟩ := range_of_log2 (by decide) full
  have bits : x.toBits.toNat = (pack Format.binary64 (.finite .positive m e pos)).toNat := by
    change x.toModel.toBits.toBitVec.toNat = _
    rw [model]
    rfl
  have exponent : (e + 1075).toNat % 2 ^ 11 = (e + 1075).toNat := Nat.mod_eq_of_lt (by omega)
  have mantissa : m % 2 ^ 52 = m - 2 ^ 52 := by omega
  rw [bits, pack_finite pos full low high, toNat_packComponents, BitVec.toNat_ofNat, BitVec.toNat_ofNat, exponent, mantissa]

theorem unpack_eq (is : Is x m e) : ∃ pos, x.toModel.unpack = .finite .positive m e pos := by
  obtain ⟨full, low, high, pos, model⟩ := is
  obtain ⟨least, greatest⟩ := range_of_log2 (by decide) full
  have bits : x.toModel.toBits.toBitVec = packComponents Format.binary64 .positive (BitVec.ofNat 11 (e + 1075).toNat)
      (BitVec.ofNat 52 m) := by
    rw [model, ← pack_finite pos full low high]
    rfl
  have exponent : (BitVec.ofNat 11 (e + 1075).toNat).toNat = (e + 1075).toNat := by
    rw [BitVec.toNat_ofNat, Nat.mod_eq_of_lt (by omega)]
  rw [Float.Model.unpack, bits]
  refine unpack_normal ?finite ?some_ ?signed ?mantissa ?exponent
  case finite =>
    rw [unpackExponent_packComponents]
    intro all
    have all : (BitVec.ofNat 11 (e + 1075).toNat).toNat = 2047 := congrArg BitVec.toNat all
    omega
  case some_ =>
    rw [unpackExponent_packComponents]
    intro none
    have none : (BitVec.ofNat 11 (e + 1075).toNat).toNat = 0 := congrArg BitVec.toNat none
    omega
  case signed =>
    have bit : unpackSign (packComponents Format.binary64 .positive (BitVec.ofNat 11 (e + 1075).toNat) (BitVec.ofNat 52 m)) =
        0#1 := by
      apply BitVec.eq_of_toNat_eq
      change (BitVec.cast _ (BitVec.extractLsb 63 63 _)).toNat = 0
      rw [BitVec.toNat_cast, BitVec.extractLsb_toNat, toNat_packComponents, exponent, BitVec.toNat_ofNat]
      simp only [Nat.shiftRight_eq_div_pow]
      rw [Nat.div_eq_of_lt (by omega)]
    rw [bit]
    rfl
  case mantissa =>
    rw [unpackMantissa_packComponents, BitVec.toNat_append, ← Nat.shiftLeft_add_eq_or_of_lt (BitVec.ofNat 52 m).isLt,
      BitVec.toNat_ofNat]
    simp only [Nat.shiftLeft_eq, BitVec.toNat_ofNat]
    omega
  case exponent =>
    rw [unpackExponent_packComponents, exponent]
    simp only [Format.exponentBias]
    omega

theorem parts_eq (is : Is x m e) : ∃ halved, Decimal.parts x = .finite false m e halved := by
  have bits := is.toBits_eq
  obtain ⟨full, low, high, -⟩ := is
  obtain ⟨least, greatest⟩ := range_of_log2 (by decide) full
  have sign : x.toBits.toNat / Nat.pow 2 63 = 0 := by
    rw [bits]
    exact Nat.div_eq_of_lt (by simp only [Nat.pow_eq]; omega)
  have exponent : x.toBits.toNat / Nat.pow 2 52 % Nat.pow 2 11 = (e + 1075).toNat := by
    rw [bits, Nat.pow_eq, Nat.pow_eq]
    omega
  have mantissa : x.toBits.toNat % Nat.pow 2 52 = m - 2 ^ 52 := by
    rw [bits, Nat.pow_eq]
    omega
  have back : Nat.pow 2 52 + (m - 2 ^ 52) = m := by rw [Nat.pow_eq]; omega
  have place : ((e + 1075).toNat : Int) - 1075 = e := by omega
  refine ⟨decide (m - 2 ^ 52 = 0) && decide (1 < (e + 1075).toNat), ?_⟩
  simp only [Decimal.parts, sign, exponent, mantissa, back, place]
  rw [if_neg (by omega), if_neg (by omega)]
  rfl

/-- The integer part of a number below `2 ^ 53`. -/
theorem whole_eq {t : Nat} (is : Is x m (-t)) : wholeOfDouble x = m / 2 ^ t := by
  obtain ⟨halved, parts⟩ := is.parts_eq
  obtain ⟨-, greatest⟩ := range_of_log2 (by decide) is.full
  have size : (if 0 ≤ (-t : Int) then m * Nat.pow 2 (-t : Int).toNat else m / Nat.pow 2 (-(-t : Int)).toNat) = m / 2 ^ t := by
    split
    next none =>
      obtain rfl : t = 0 := by omega
      simp
    next => rw [Int.neg_neg, Int.toNat_natCast, Nat.pow_eq]
  have small := Nat.div_le_self m (2 ^ t)
  have fits : Text.fitsWord ((m / 2 ^ t : Nat) : Int) = true := by
    have limit : (Text.wordEnd : Int) = 9223372036854775808 := rfl
    rw [Text.fitsWord, Bool.and_eq_true, decide_eq_true_eq, decide_eq_true_eq, limit]
    generalize m / 2 ^ t = n at small
    omega
  simp only [wholeOfDouble, parts, size, Bool.false_eq_true, ↓reduceIte, fits]
  push_cast
  rfl

end Is

/-! Rounding. -/

theorem mantissa_shift (em : ExtendedMantissa) (k : Nat) : (em >>> k).mantissa = em.mantissa / 2 ^ k := by
  induction k with
  | zero => exact (Nat.div_one _).symm
  | succ k ih =>
    have once : (em >>> (k + 1)).mantissa = (em >>> k).mantissa / 2 := rfl
    rw [once, ih, Nat.div_div_eq_div_mul, Nat.pow_succ]

/-- Bits that are zero leave nothing behind when they are shifted out. -/
theorem shift_exact (m k : Nat) : (⟨m * 2 ^ k, false, false⟩ : ExtendedMantissa) >>> k = ⟨m, false, false⟩ := by
  induction k generalizing m with
  | zero => simp [HShiftRight.hShiftRight, Nat.repeat]
  | succ k ih =>
    have once : (⟨m * 2 ^ (k + 1), false, false⟩ : ExtendedMantissa) >>> (k + 1) =
        ((⟨m * 2 * 2 ^ k, false, false⟩ : ExtendedMantissa) >>> k).shiftRightOne := by
      rw [Nat.pow_succ', ← Nat.mul_assoc]
      rfl
    rw [once, ih]
    simp [ExtendedMantissa.shiftRightOne]

/-- Rounding goes up only from a half. -/
theorem rounded_cases (em : ExtendedMantissa) :
    em.roundedMantissa = em.mantissa ∨ em.roundBit = true ∧ em.roundedMantissa = em.mantissa + 1 := by
  obtain ⟨m, half, more⟩ := em
  cases half <;> cases more <;>
    simp only [ExtendedMantissa.roundedMantissa, ExtendedMantissa.accuracy, Accuracy.roundToNearestEven] <;> simp
  omega

theorem mantissa_ofAccuracy (m : Nat) (acc : Accuracy) : (ExtendedMantissa.ofMantissaAndAccuracy m acc).mantissa = m := by
  cases acc with
  | exact => rfl
  | inexact order => cases order <;> rfl

theorem targetExponent_eq (total : Int) : Format.binary64.targetExponent total = max (total - 53) (-1074) := rfl

theorem shift_target {q : Nat} {e : Int} (acc : Accuracy) {s : Nat} (bits : q.log2 = 52 + s) (low : -1074 ≤ e + s) :
    shiftToTargetExponent Format.binary64 q e acc = (ExtendedMantissa.ofMantissaAndAccuracy q acc >>> s, e + s) := by
  have target : Format.binary64.targetExponent (totalExponent q e) = e + s := by
    simp only [targetExponent_eq, totalExponent, bits]
    push_cast
    omega
  have amount : (e + s - e).toNat = s := by omega
  simp only [shiftToTargetExponent, target, shiftToExponent, amount]

theorem round_of_shifts {spec : Format} {sign : Sign} {q : Nat} {e e₁ e₂ : Int} {acc : Accuracy} {em last : ExtendedMantissa}
    (first : shiftToTargetExponent spec q e acc = (em, e₁))
    (second : shiftToTargetExponent spec em.roundedMantissa e₁ .exact = (last, e₂)) (pos : 0 < last.mantissa) :
    roundWithAccuracy spec sign q e acc = .finite sign last.mantissa e₂ pos := by
  obtain rfl : em = _ := (congrArg Prod.fst first).symm
  obtain rfl : e₁ = _ := (congrArg Prod.snd first).symm
  obtain rfl : last = _ := (congrArg Prod.fst second).symm
  obtain rfl : e₂ = _ := (congrArg Prod.snd second).symm
  exact dif_neg pos.ne'

/-- What rounding gives: a mantissa that has got one bit too many ends in a zero, which is cut off. -/
def carried (r : Nat) (e : Int) (pos : 0 < r) : Float.Model.UnpackedFloat :=
  if r = 2 ^ 53 then .finite .positive (2 ^ 52) (e + 1) (by decide) else .finite .positive r e pos

/-- A mantissa with enough bits is cut to 53 of them and rounded. -/
theorem round_eq {q : Nat} {e : Int} (acc : Accuracy) {s : Nat} (bits : q.log2 = 52 + s) (low : -1074 ≤ e + s) :
    ∃ r pos, r = (ExtendedMantissa.ofMantissaAndAccuracy q acc >>> s).roundedMantissa ∧ r ≤ 2 ^ 53 ∧
      roundWithAccuracy Format.binary64 .positive q e acc = carried r (e + s) pos := by
  have first := shift_target acc bits low
  have cut : (ExtendedMantissa.ofMantissaAndAccuracy q acc >>> s).mantissa = q / 2 ^ s := by
    rw [mantissa_shift, mantissa_ofAccuracy]
  obtain ⟨least, greatest⟩ := range_of_log2 (by omega) bits
  have least' : 2 ^ 52 ≤ q / 2 ^ s := (Nat.le_div_iff_mul_le (by positivity)).mpr (by rw [← Nat.pow_add]; exact least)
  have greatest' : q / 2 ^ s < 2 ^ 53 :=
    (Nat.div_lt_iff_lt_mul (by positivity)).mpr (by rw [← Nat.pow_add]; rw [show 53 + s = 52 + s + 1 by omega]; exact greatest)
  have cases' := rounded_cases (ExtendedMantissa.ofMantissaAndAccuracy q acc >>> s)
  generalize ExtendedMantissa.ofMantissaAndAccuracy q acc >>> s = em at *
  have range : 2 ^ 52 ≤ em.roundedMantissa ∧ em.roundedMantissa ≤ 2 ^ 53 := by
    rw [cut] at cases'
    rcases cases' with same | ⟨-, up⟩ <;> omega
  refine ⟨em.roundedMantissa, by omega, rfl, range.2, ?_⟩
  by_cases top : em.roundedMantissa = 2 ^ 53
  · have again := shift_target (q := 2 ^ 53) (e := e + s) .exact (s := 1) (by rw [Nat.log2_two_pow]) (by push_cast; omega)
    have exact_ : (ExtendedMantissa.ofMantissaAndAccuracy (2 ^ 53) .exact >>> 1) = ⟨2 ^ 52, false, false⟩ := by
      rw [Nat.pow_succ]
      exact shift_exact (2 ^ 52) 1
    rw [exact_, ← top] at again
    rw [carried, if_pos top]
    exact round_of_shifts first again (by decide)
  · have again := shift_target (q := em.roundedMantissa) (e := e + s) .exact (s := 0) (log2_eq _ range.1 (by omega))
      (by push_cast; omega)
    have exact_ : (ExtendedMantissa.ofMantissaAndAccuracy em.roundedMantissa .exact >>> 0) = ⟨em.roundedMantissa, false, false⟩ := rfl
    rw [exact_, Nat.cast_zero, Int.add_zero] at again
    rw [carried, if_neg top]
    exact round_of_shifts first again _

/-- A number with all bits of its mantissa in use is not rounded. -/
theorem round_exact {m : Nat} {e : Int} (full : m.log2 = 52) (k : Nat) (low : -1074 ≤ e) :
    ∃ pos, roundWithAccuracy Format.binary64 .positive (m * 2 ^ k) (e - k) .exact = .finite .positive m e pos := by
  obtain ⟨least, greatest⟩ := range_of_log2 (by decide) full
  have bits : (m * 2 ^ k).log2 = 52 + k := log2_eq _ (by rw [Nat.pow_add]; exact Nat.mul_le_mul_right _ least) (by
    rw [show 52 + k + 1 = 53 + k by omega, Nat.pow_add]
    exact Nat.mul_lt_mul_of_pos_right greatest (by positivity))
  obtain ⟨r, pos, rounded, -, same⟩ := round_eq .exact bits (e := e - k) (by omega)
  have exact_ : (ExtendedMantissa.ofMantissaAndAccuracy (m * 2 ^ k) .exact >>> k) = ⟨m, false, false⟩ := shift_exact m k
  obtain rfl : r = m := by rw [rounded, exact_]; rfl
  exact ⟨pos, by rw [same, carried, if_neg (by omega), Int.sub_add_cancel]⟩

theorem round_whole {n k : Nat} (full : (n * 2 ^ k).log2 = 52) (few : n.log2 + k = 52) :
    ∃ pos, UnpackedFloat.round Format.binary64 .positive n 0 = .finite .positive (n * 2 ^ k) (-k) pos := by
  have target : Format.binary64.targetExponent (totalExponent n 0) = -k := by
    simp only [targetExponent_eq, totalExponent]
    omega
  obtain ⟨pos, exact_⟩ := round_exact full 0 (by omega : (-1074 : Int) ≤ -k)
  have amount : (0 - -(k : Int)).toNat = k := by omega
  have place : (0 : Int) - k = -k - (0 : Nat) := by omega
  have moved : UnpackedFloat.round Format.binary64 .positive n 0 =
      roundWithAccuracy Format.binary64 .positive (n * 2 ^ k) (-k - (0 : Nat)) .exact := by
    simp only [UnpackedFloat.round, target, decreaseExponent, amount, Nat.shiftLeft_eq, place]
  rw [Nat.pow_zero, Nat.mul_one] at exact_
  exact ⟨pos, moved.trans exact_⟩

theorem unpack_one : ∃ pos, (Float.ofBits 0x3FF0000000000000).toModel.unpack = .finite .positive (2 ^ 52) (-52) pos :=
  Is.unpack_eq ⟨by decide, by decide, by decide, by decide, by decide +kernel⟩

/-- A whole number up to `2 ^ 53` is its own double. -/
theorem is_ofInt {n : Nat} (pos : 0 < n) (few : n ≤ 2 ^ 53) :
    ∃ m j : Nat, j ≤ 53 ∧ 2 * m = n * 2 ^ j ∧ Is (Float.ofInt n) m (1 - j) := by
  rcases few.lt_or_eq with few | rfl
  · have small : n.log2 < 53 := (Nat.log2_lt (by omega)).mpr few
    obtain ⟨k, total⟩ : ∃ k, n.log2 + k = 52 := ⟨52 - n.log2, by omega⟩
    obtain ⟨least, greatest⟩ := (Nat.log2_eq_iff (by omega : n ≠ 0)).mp rfl
    have full : (n * 2 ^ k).log2 = 52 := log2_eq _
      (by rw [← total, Nat.pow_add]; exact Nat.mul_le_mul_right _ least) (by
      rw [← total, show n.log2 + k + 1 = n.log2 + 1 + k by omega, Nat.pow_add]
      exact Nat.mul_lt_mul_of_pos_right greatest (by positivity))
    have word : n.toUInt64.toNat = n := by
      rw [Nat.toUInt64, UInt64.toNat_ofNat']
      exact Nat.mod_eq_of_lt (by omega)
    obtain ⟨some_, rounded⟩ := round_whole full total
    have plain : Is n.toUInt64.toFloat (n * 2 ^ k) (-k) := by
      refine ⟨full, by omega, by omega, some_, ?_⟩
      rw [← rounded, UInt64.toFloat, Float.Model.ofUInt64, UnpackedFloat.ofUInt64, UnpackedFloat.ofNat, UnpackedFloat.ofInt,
        UnpackedFloat.normalize, word, Int.compare_eq_gt.mpr (by omega)]
      rfl
    obtain ⟨_, whole⟩ := plain.unpack_eq
    obtain ⟨_, one⟩ := unpack_one
    obtain ⟨some', product⟩ := round_exact full 52 (by omega : (-1074 : Int) ≤ -k)
    have exponent : 1 - ((k + 1 : Nat) : Int) = -k := by push_cast; omega
    refine ⟨n * 2 ^ k, k + 1, by omega, by rw [Nat.pow_succ]; ring, ?_⟩
    rw [exponent]
    refine ⟨full, by omega, by omega, some', ?_⟩
    have scaled : Float.ofInt n = n.toUInt64.toFloat * Float.ofBits 0x3FF0000000000000 := dif_pos ⟨few, Nat.zero_le 22⟩
    have model : (Float.ofInt n).toModel = Float.Model.pack (mul Format.binary64 n.toUInt64.toFloat.toModel.unpack
      (Float.ofBits 0x3FF0000000000000).toModel.unpack) := by rw [scaled]; rfl
    rw [model, whole, one]
    exact congrArg Float.Model.pack product
  · exact ⟨2 ^ 52, 0, by decide, by decide, by decide, by decide, by decide, by decide, by decide +kernel⟩

/-! Quotients. -/

/-- Rounding a quotient of whole numbers to one with at least 53 bits does not change its integer part: it is too far below
the next integer. -/
theorem rounded_div {a b t q r : Nat} (pos : 0 < b) (few : a < 2 ^ 53) (floor : q = a * 2 ^ t / b) (long : 2 ^ 52 ≤ q)
    (rounded : r = q ∨ r = q + 1 ∧ (2 * q + 1) * b ≤ 2 * (a * 2 ^ t)) : r / 2 ^ t = a / b := by
  have nested : q / 2 ^ t = a / b := by
    rw [floor, Nat.div_div_eq_div_mul, Nat.mul_div_mul_right _ _ (by positivity)]
  rcases rounded with rfl | ⟨rfl, half⟩
  · exact nested
  rw [Nat.succ_div]
  split
  next next_ =>
    exfalso
    obtain ⟨p, top⟩ := next_
    have below : a < p * b := by
      by_contra above
      have least : p * 2 ^ t ≤ q := by
        rw [floor, Nat.le_div_iff_mul_le pos]
        nlinarith [Nat.mul_le_mul_right (2 ^ t) (not_lt.mp above)]
      rw [Nat.mul_comm] at top
      omega
    have room : (a + 1) * 2 ^ t ≤ (q + 1) * b := by
      rw [top, Nat.mul_comm (2 ^ t) p, Nat.mul_right_comm]
      exact Nat.mul_le_mul_right _ below
    have wide : 2 * 2 ^ t ≤ b := by nlinarith
    have low : q * b ≤ a * 2 ^ t := floor ▸ Nat.div_mul_le_self _ _
    have high : 2 ^ 53 * 2 ^ t ≤ a * 2 ^ t := by nlinarith [Nat.mul_le_mul long wide]
    exact absurd (Nat.le_of_mul_le_mul_right high (by positivity)) (not_le.mpr few)
  next => rw [nested, Nat.add_zero]

/-- The bit behind a quotient of whole numbers is set if a half is left over. -/
theorem half_of_roundBit {n d s : Nat} (few : s ≤ 1)
    (set_ : (ExtendedMantissa.ofMantissaAndAccuracy (n / d) (accuracyOfFraction (n % d) d) >>> s).roundBit = true) :
    (2 * (n / d / 2 ^ s) + 1) * (d * 2 ^ s) ≤ 2 * n := by
  have whole := Nat.div_add_mod n d
  obtain rfl | rfl : s = 0 ∨ s = 1 := by omega
  · have enough : d ≤ 2 * (n % d) := by
      by_contra less
      have bit : (ExtendedMantissa.ofMantissaAndAccuracy (n / d) (accuracyOfFraction (n % d) d)).roundBit = true := set_
      rw [accuracyOfFraction, Nat.compare_eq_lt.mpr (not_le.mp less)] at bit
      split at bit <;> exact absurd bit (by simp [ExtendedMantissa.ofMantissaAndAccuracy])
    rw [Nat.pow_zero, Nat.div_one, Nat.mul_one]
    nlinarith
  · have odd : n / d % 2 ≠ 0 := by
      have bit : ((ExtendedMantissa.ofMantissaAndAccuracy (n / d) (accuracyOfFraction (n % d) d)).mantissa % 2 != 0) = true :=
        set_
      rw [mantissa_ofAccuracy] at bit
      simpa using bit
    have back : 2 * (n / d / 2) + 1 = n / d := by omega
    rw [Nat.pow_one, back, ← Nat.mul_assoc, Nat.mul_comm _ 2]
    exact Nat.mul_le_mul_left 2 (Nat.div_mul_le_self n d)

/-- What is left of a quotient of two full mantissas before it is rounded. -/
theorem divCore_eq {m₁ m₂ : Nat} {e₁ e₂ : Int} (full₁ : m₁.log2 = 52) (full₂ : m₂.log2 = 52) (low : -1021 ≤ e₁ - e₂) :
    divCore Format.binary64 m₁ e₁ m₂ e₂ =
      (m₁ * 2 ^ 53 / m₂, e₁ - e₂ - 53, accuracyOfFraction (m₁ * 2 ^ 53 % m₂) m₂) := by
  have target : min (e₁ - e₂) (Format.binary64.targetExponent (totalExponent m₁ e₁ - totalExponent m₂ e₂)) = e₁ - e₂ - 53 := by
    simp only [targetExponent_eq, totalExponent, full₁, full₂]
    push_cast
    omega
  have amount : (e₁ - e₂ - (e₁ - e₂ - 53)).toNat = 53 := by omega
  simp only [divCore, target, amount, Nat.shiftLeft_eq]

/-- The quotient of two full mantissas has 53 or 54 bits, and is rounded to the nearest of 53. -/
theorem Is.div_model {x y : Float} {m₁ m₂ : Nat} {e₁ e₂ : Int} (is₁ : Is x m₁ e₁) (is₂ : Is y m₂ e₂) (low : -1021 ≤ e₁ - e₂) :
    ∃ (s r : Nat) (pos : 0 < r), s ≤ 1 ∧ r ≤ 2 ^ 53 ∧ 2 ^ 52 ≤ m₁ * 2 ^ 53 / m₂ / 2 ^ s ∧
      (r = m₁ * 2 ^ 53 / m₂ / 2 ^ s ∨ r = m₁ * 2 ^ 53 / m₂ / 2 ^ s + 1 ∧
        (2 * (m₁ * 2 ^ 53 / m₂ / 2 ^ s) + 1) * (m₂ * 2 ^ s) ≤ 2 * (m₁ * 2 ^ 53)) ∧
      (x / y).toModel = Float.Model.pack (carried r (e₁ - e₂ - 53 + s) pos) := by
  obtain ⟨_, unpacked₁⟩ := is₁.unpack_eq
  obtain ⟨_, unpacked₂⟩ := is₂.unpack_eq
  obtain ⟨least₁, greatest₁⟩ := range_of_log2 (by decide) is₁.full
  obtain ⟨least₂, greatest₂⟩ := range_of_log2 (by decide) is₂.full
  have least : 2 ^ 52 ≤ m₁ * 2 ^ 53 / m₂ := (Nat.le_div_iff_mul_le (by omega)).mpr (by omega)
  have greatest : m₁ * 2 ^ 53 / m₂ < 2 ^ 54 := (Nat.div_lt_iff_lt_mul (by omega)).mpr (by omega)
  obtain ⟨s, once, bits⟩ : ∃ s, s ≤ 1 ∧ (m₁ * 2 ^ 53 / m₂).log2 = 52 + s := by
    by_cases short : m₁ * 2 ^ 53 / m₂ < 2 ^ 53
    · exact ⟨0, by decide, log2_eq _ least short⟩
    · exact ⟨1, by decide, log2_eq _ (not_lt.mp short) greatest⟩
  obtain ⟨r, pos, rounded, top, result⟩ := round_eq (accuracyOfFraction (m₁ * 2 ^ 53 % m₂) m₂) bits
    (e := e₁ - e₂ - 53) (by omega)
  have cut := mantissa_shift (ExtendedMantissa.ofMantissaAndAccuracy (m₁ * 2 ^ 53 / m₂)
    (accuracyOfFraction (m₁ * 2 ^ 53 % m₂) m₂)) s
  rw [mantissa_ofAccuracy] at cut
  refine ⟨s, r, pos, once, top, ?_, ?_, ?_⟩
  · obtain ⟨long, -⟩ := range_of_log2 (by omega) bits
    exact (Nat.le_div_iff_mul_le (by positivity)).mpr (by rw [← Nat.pow_add]; exact long)
  · rw [rounded]
    exact (rounded_cases _).imp (fun same => same.trans cut) fun ⟨set_, up⟩ =>
      ⟨up.trans (congrArg (· + 1) cut), half_of_roundBit once set_⟩
  · have model : (x / y).toModel = Float.Model.pack (div Format.binary64 x.toModel.unpack y.toModel.unpack) := rfl
    rw [model, unpacked₁, unpacked₂]
    change Float.Model.pack (match divCore Format.binary64 m₁ e₁ m₂ e₂ with
      | (m, e, acc) => roundWithAccuracy Format.binary64 .positive m e acc) = _
    rw [divCore_eq is₁.full is₂.full low]
    exact congrArg Float.Model.pack result

theorem whole_of_carried {x : Float} {r t : Nat} {pos : 0 < r} (model : x.toModel = Float.Model.pack (carried r (-t) pos))
    (long : 2 ^ 52 ≤ r) (top : r ≤ 2 ^ 53) (shifted : r = 2 ^ 53 → t ≠ 0) (few : t ≤ 1074) : wholeOfDouble x = (r / 2 ^ t : Nat) := by
  by_cases carry : r = 2 ^ 53
  · obtain ⟨u, rfl⟩ : ∃ u, t = u + 1 := ⟨t - 1, by have := shifted carry; omega⟩
    have exponent : -((u + 1 : Nat) : Int) + 1 = -u := by push_cast; omega
    rw [carried, if_pos carry, exponent] at model
    have is : Is x (2 ^ 52) (-u) := ⟨by decide, by omega, by omega, by decide, model⟩
    rw [is.whole_eq, carry, Nat.pow_succ 2 u, Nat.pow_succ 2 52, Nat.mul_div_mul_right _ _ (by decide)]
    rfl
  · rw [carried, if_neg carry] at model
    have is : Is x r (-t) := ⟨log2_eq _ long (by omega), by omega, by omega, pos, model⟩
    exact is.whole_eq

/-- Nothing divided by a number is nothing. -/
theorem whole_of_zero {y : Float} {m : Nat} {e : Int} (is : Is y m e) : wholeOfDouble (Float.ofInt 0 / y) = 0 := by
  obtain ⟨_, unpacked⟩ := is.unpack_eq
  have zero : (Float.ofInt 0).toModel.unpack = .zero .positive := rfl
  have model : Float.ofInt 0 / y =
      Float.ofModel (Float.Model.pack (div Format.binary64 (Float.ofInt 0).toModel.unpack y.toModel.unpack)) := rfl
  have none : wholeOfDouble (Float.ofModel (Float.Model.pack (.zero .positive))) = 0 := by decide +kernel
  rw [model, zero, unpacked]
  exact none

/-- The quotient of whole numbers that doubles hold has the integer part of the exact quotient. -/
theorem whole_quotient {a b : Nat} (few : a < 2 ^ 53) (pos : 0 < b) (some_ : b ≤ 2 ^ 53) :
    wholeOfDouble (Float.ofInt a / Float.ofInt b) = (a / b : Nat) := by
  obtain ⟨m₂, j₂, few₂, value₂, is₂⟩ := is_ofInt pos some_
  rcases Nat.eq_zero_or_pos a with rfl | pos'
  · rw [Nat.zero_div]
    exact whole_of_zero is₂
  obtain ⟨m₁, j₁, few₁, value₁, is₁⟩ := is_ofInt pos' few.le
  obtain ⟨least₁, -⟩ := range_of_log2 (by decide) is₁.full
  obtain ⟨s, r, some_', once, top, long, half, model⟩ := is₁.div_model is₂ (by omega)
  obtain ⟨t, place⟩ : ∃ t : Nat, t + (j₂ + s) = 53 + j₁ := by
    have moved : j₁ ≠ 0 := by rintro rfl; omega
    exact ⟨53 + j₁ - (j₂ + s), by omega⟩
  have exponent : (1 - (j₁ : Int)) - (1 - j₂) - 53 + s = -t := by omega
  have numerator : 2 * (m₁ * 2 ^ 53) = a * 2 ^ t * 2 ^ (j₂ + s) := by
    rw [← Nat.mul_assoc, value₁, Nat.mul_assoc, ← Nat.pow_add, Nat.mul_assoc, ← Nat.pow_add, place, Nat.add_comm]
  have denominator : 2 * (m₂ * 2 ^ s) = b * 2 ^ (j₂ + s) := by
    rw [← Nat.mul_assoc, value₂, Nat.mul_assoc, ← Nat.pow_add]
  have floor : m₁ * 2 ^ 53 / m₂ / 2 ^ s = a * 2 ^ t / b := by
    rw [Nat.div_div_eq_div_mul, ← Nat.mul_div_mul_left _ _ (by decide : 0 < 2), numerator, denominator,
      Nat.mul_div_mul_right _ _ (by positivity)]
  have near : r / 2 ^ t = a / b := by
    refine rounded_div pos few floor long (half.imp_right fun ⟨up, left_⟩ => ⟨up, ?_⟩)
    have left_ := Nat.mul_le_mul_left 2 left_
    rw [numerator, Nat.mul_left_comm 2, denominator, ← Nat.mul_assoc, ← Nat.mul_assoc 2] at left_
    exact Nat.le_of_mul_le_mul_right left_ (by positivity)
  have shifted : r = 2 ^ 53 → t ≠ 0 := by
    rintro rfl rfl
    have less := Nat.div_le_self a b
    rw [Nat.pow_zero, Nat.div_one] at near
    omega
  rw [exponent] at model
  rw [whole_of_carried model (by omega) top shifted (by omega), near]

end HaloMesh.Double
