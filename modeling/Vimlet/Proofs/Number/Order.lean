import Mathlib
import Vimlet.Value.Coerce

/-!
# The order of numbers

Doubles other than NaN are in a linear order, by sign, exponent and mantissa, if both zeros count as
one. Integers become doubles by rounding, which keeps their order, but makes neighbours equal beyond
`2 ^ 53`.
-/

namespace Vimlet.Double

open Float.Model Float.Model.UnpackedFloat

/-! ### Places -/

/-- The place of a double among all of them. -/
def placeOf : UnpackedFloat → ℤ ×ₗ ℤ ×ₗ ℤ
  | .infinity .positive => toLex (2, toLex (0, 0))
  | .finite .positive mantissa exponent _ => toLex (1, toLex (exponent, mantissa))
  | .zero _ | .notANumber => toLex (0, toLex (0, 0))
  | .finite .negative mantissa exponent _ => toLex (-1, toLex (-exponent, -mantissa))
  | .infinity .negative => toLex (-2, toLex (0, 0))

theorem compare_placeOf {a b} (a_number : a.isNaN = false) (b_number : b.isNaN = false) :
    (a.compare b = some .lt ↔ placeOf a < placeOf b) ∧
      (a.compare b = some .eq ↔ placeOf a = placeOf b) := by
  have signs : compare Sign.negative .positive = .lt ∧ compare Sign.negative .negative = .eq ∧
      compare Sign.positive .positive = .eq ∧ compare Sign.positive .negative = .gt :=
    ⟨rfl, rfl, rfl, rfl⟩
  rcases a with ⟨_ | _⟩ | _ | _ | ⟨_ | _, m, e, _⟩ <;>
    rcases b with ⟨_ | _⟩ | _ | _ | ⟨_ | _, n, f, _⟩ <;>
    simp_all [UnpackedFloat.isNaN, UnpackedFloat.compare, placeOf, Prod.Lex.toLex_lt_toLex,
      Ordering.then_eq_lt, Ordering.then_eq_eq, Ordering.then_eq_gt, compare_lt_iff_lt,
      compare_gt_iff_gt]

def floatPlace (x : Float) : ℤ ×ₗ ℤ ×ₗ ℤ := placeOf x.toModel.unpack

variable {x y : Float} {a b : Nat}

theorem lt_iff_floatPlace (x_number : x.isNaN = false) (y_number : y.isNaN = false) :
    x < y ↔ floatPlace x < floatPlace y := by
  rw [floatPlace, floatPlace, ← (compare_placeOf x_number y_number).1, ← beq_iff_eq]
  exact decide_eq_true_iff

theorem beq_iff_floatPlace (x_number : x.isNaN = false) (y_number : y.isNaN = false) :
    (x == y) = true ↔ floatPlace x = floatPlace y := by
  rw [floatPlace, floatPlace, ← (compare_placeOf x_number y_number).2]
  change (x.toModel.unpack.compare y.toModel.unpack == some .eq) = true ↔ _
  exact beq_iff_eq

theorem beq_of_isNaN (nan : x.isNaN = true) (y : Float) : (y == x) = false := by
  change (y.toModel.unpack.compare x.toModel.unpack == some .eq) = false
  change x.toModel.unpack.isNaN = true at nan
  cases unpacked : x.toModel.unpack <;> rw [unpacked] at nan <;> cases nan
  cases y.toModel.unpack <;> rfl

theorem le_iff_floatPlace (x_number : x.isNaN = false) (y_number : y.isNaN = false) :
    x ≤ y ↔ floatPlace x ≤ floatPlace y := by
  obtain ⟨less, equal⟩ := compare_placeOf x_number y_number
  rw [floatPlace, floatPlace, le_iff_lt_or_eq, ← less, ← equal]
  change decide (x.toModel.unpack.le y.toModel.unpack = true) = true ↔ _
  rw [decide_eq_true_iff, UnpackedFloat.le, Option.any_eq_true]
  constructor
  · rintro ⟨_ | _ | _, same, le⟩
    · exact .inl same
    · exact .inr same
    · cases le
  · rintro (same | same)
    · exact ⟨_, same, rfl⟩
    · exact ⟨_, same, rfl⟩

/-! ### Rounding -/

/-- A number divided by a power of two and rounded to the nearest integer, in the middle to the even
one. -/
def roundedShift (n shift : Nat) : Nat :=
  if 2 * (n % 2 ^ shift) < 2 ^ shift then n / 2 ^ shift
  else if 2 * (n % 2 ^ shift) = 2 ^ shift then n / 2 ^ shift + n / 2 ^ shift % 2
  else n / 2 ^ shift + 1

theorem mod_two_pow_succ (n shift : Nat) :
    n % 2 ^ (shift + 1) = n % 2 ^ shift + 2 ^ shift * (n / 2 ^ shift % 2) := by
  rw [Nat.pow_succ, Nat.mod_mul]

theorem shiftRight_eq (n shift : Nat) :
    (⟨n, false, false⟩ : ExtendedMantissa) >>> (shift + 1) =
      ⟨n / 2 ^ (shift + 1), n / 2 ^ shift % 2 != 0, n % 2 ^ shift != 0⟩ := by
  induction shift with
  | zero => simp [HShiftRight.hShiftRight, Nat.repeat, ExtendedMantissa.shiftRightOne, Nat.mod_one]
  | succ shift ih =>
    have once : (⟨n, false, false⟩ : ExtendedMantissa) >>> (shift + 1 + 1) =
        ((⟨n, false, false⟩ : ExtendedMantissa) >>> (shift + 1)).shiftRightOne := rfl
    have halves : n / 2 ^ (shift + 1) / 2 = n / 2 ^ (shift + 1 + 1) := by
      rw [Nat.div_div_eq_div_mul, ← Nat.pow_succ]
    rw [once, ih, ExtendedMantissa.shiftRightOne, halves, mod_two_pow_succ]
    congr 1
    have := Nat.two_pow_pos shift
    grind

theorem roundedMantissa_shiftRight (n shift : Nat) :
    ((⟨n, false, false⟩ : ExtendedMantissa) >>> shift).roundedMantissa = roundedShift n shift := by
  cases shift with
  | zero => simp [HShiftRight.hShiftRight, Nat.repeat, ExtendedMantissa.roundedMantissa,
      ExtendedMantissa.accuracy, Accuracy.roundToNearestEven, roundedShift, Nat.mod_one]
  | succ shift =>
    have positive := Nat.two_pow_pos shift
    have smaller := Nat.mod_lt n positive
    rw [shiftRight_eq, ExtendedMantissa.roundedMantissa, roundedShift, mod_two_pow_succ, Nat.pow_succ]
    obtain bit | bit : n / 2 ^ shift % 2 = 0 ∨ n / 2 ^ shift % 2 = 1 := by omega
    all_goals
      rw [bit]
      by_cases exact : n % 2 ^ shift = 0
      all_goals simp [ExtendedMantissa.accuracy, Accuracy.roundToNearestEven, exact]
    all_goals grind

theorem roundedShift_mono (shift : Nat) (le : a ≤ b) :
    roundedShift a shift ≤ roundedShift b shift := by
  have quotients : a / 2 ^ shift ≤ b / 2 ^ shift := Nat.div_le_div_right le
  have a_eq := Nat.div_add_mod a (2 ^ shift)
  have b_eq := Nat.div_add_mod b (2 ^ shift)
  unfold roundedShift
  obtain same | less := Nat.eq_or_lt_of_le quotients
  · have rests : a % 2 ^ shift ≤ b % 2 ^ shift := by
      rw [same] at a_eq
      omega
    grind
  · grind

theorem roundedShift_bounds (n shift : Nat) :
    n / 2 ^ shift ≤ roundedShift n shift ∧ roundedShift n shift ≤ n / 2 ^ shift + 1 := by
  unfold roundedShift
  grind

theorem roundedShift_mul (n shift more : Nat) :
    roundedShift (n * 2 ^ more) (shift + more) = roundedShift n shift := by
  have positive := Nat.two_pow_pos more
  unfold roundedShift
  rw [Nat.pow_add, Nat.mul_mod_mul_right, Nat.mul_div_mul_right _ _ positive, ← Nat.mul_assoc]
  simp only [Nat.mul_lt_mul_right positive, Nat.mul_left_inj (Nat.ne_of_gt positive)]

/-! ### Ranks -/

/-- The double that a number is rounded to, counted from the least one with an exponent of zero. -/
def rank (n : Nat) : Nat := n.log2 * 2 ^ 52 + roundedShift (n * 2 ^ 53) (n.log2 + 1)

/-- The number of a rank. -/
def atRank (sign : Sign) (rank : Nat) : UnpackedFloat :=
  .finite sign (2 ^ 52 + rank % 2 ^ 52) ((rank / 2 ^ 52 : Nat) - 53) (by omega)

def ofRank (sign : Sign) (rank : Nat) : UnpackedFloat :=
  if 1025 ≤ rank / 2 ^ 52 then .infinity sign else atRank sign rank

variable {n : Nat}

theorem roundedShift_range (pos : n ≠ 0) :
    2 ^ 52 ≤ roundedShift (n * 2 ^ 53) (n.log2 + 1) ∧
      roundedShift (n * 2 ^ 53) (n.log2 + 1) ≤ 2 ^ 53 := by
  obtain ⟨low, high⟩ := roundedShift_bounds (n * 2 ^ 53) (n.log2 + 1)
  have at_least : 2 ^ 52 ≤ n * 2 ^ 53 / 2 ^ (n.log2 + 1) := by
    rw [Nat.le_div_iff_mul_le (Nat.two_pow_pos _)]
    have := Nat.log2_self_le pos
    rw [Nat.pow_succ]
    omega
  have below : n * 2 ^ 53 / 2 ^ (n.log2 + 1) < 2 ^ 53 := by
    rw [Nat.div_lt_iff_lt_mul (Nat.two_pow_pos _)]
    have : n < 2 ^ (n.log2 + 1) := Nat.lt_log2_self
    omega
  omega

theorem rank_mono (pos : a ≠ 0) (le : a ≤ b) : rank a ≤ rank b := by
  have logs : a.log2 ≤ b.log2 := (Nat.le_log2 (by omega)).mpr ((Nat.log2_self_le pos).trans le)
  have a_range := roundedShift_range pos
  have b_range := roundedShift_range (n := b) (by omega)
  unfold rank
  obtain same | less := Nat.eq_or_lt_of_le logs
  · have := roundedShift_mono (b.log2 + 1) (Nat.mul_le_mul_right (2 ^ 53) le)
    rw [same] at a_range ⊢
    omega
  · omega

theorem log2_eq {n k} (low : 2 ^ k ≤ n) (high : n < 2 ^ (k + 1)) : n.log2 = k := by
  have pos : n ≠ 0 := (Nat.lt_of_lt_of_le (Nat.two_pow_pos k) low).ne'
  exact Nat.le_antisymm (Nat.le_of_lt_succ ((Nat.log2_lt pos).mpr high)) ((Nat.le_log2 pos).mpr low)

theorem log2_mul_two_pow (pos : n ≠ 0) (j : Nat) : (n * 2 ^ j).log2 = n.log2 + j := by
  refine log2_eq ?_ ?_
  · rw [Nat.pow_add]
    exact Nat.mul_le_mul_right _ (Nat.log2_self_le pos)
  · rw [Nat.add_right_comm, Nat.pow_add]
    exact Nat.mul_lt_mul_of_pos_right Nat.lt_log2_self (Nat.two_pow_pos j)

theorem shiftToTargetExponent_eq (mantissa : Nat) (exponent : ℤ)
    (low : -1022 ≤ mantissa.log2 + exponent) :
    shiftToTargetExponent .binary64 mantissa exponent .exact =
      ((⟨mantissa, false, false⟩ : ExtendedMantissa) >>> (mantissa.log2 - 52),
        exponent + ↑(mantissa.log2 - 52)) := by
  have target : (Format.binary64.targetExponent (totalExponent mantissa exponent) - exponent).toNat =
      mantissa.log2 - 52 := by
    have bits : Format.binary64.mantissaBits = 53 := rfl
    have least : Format.binary64.minExponent = -1074 := rfl
    rw [Format.targetExponent, totalExponent, bits, least]
    omega
  rw [shiftToTargetExponent, shiftToExponent, target]
  rfl

/-- A number is rounded to the double of its rank, however it is written. -/
theorem roundWithAccuracy_eq (sign : Sign) (pos : n ≠ 0) {j} (wide : 52 ≤ n.log2 + j) :
    roundWithAccuracy .binary64 sign (n * 2 ^ j) (-j) .exact = atRank sign (rank n) := by
  have scaled : roundedShift (n * 2 ^ j) (n.log2 + j - 52) =
      roundedShift (n * 2 ^ 53) (n.log2 + 1) := by
    rw [← roundedShift_mul (n * 2 ^ j) _ 53, ← roundedShift_mul (n * 2 ^ 53) _ j]
    congr 1
    · ring
    · omega
  obtain ⟨low, high⟩ := roundedShift_range pos
  have first := shiftToTargetExponent_eq (n * 2 ^ j) (-j) (by rw [log2_mul_two_pow pos]; omega)
  rw [log2_mul_two_pow pos] at first
  rw [roundWithAccuracy, first]
  dsimp only
  rw [roundedMantissa_shiftRight, scaled]
  unfold rank
  generalize roundedShift (n * 2 ^ 53) (n.log2 + 1) = rounded at low high ⊢
  obtain ⟨final, exponent, shifted, final_eq, exponent_eq⟩ :
    ∃ (final : ExtendedMantissa) (exponent : ℤ),
      shiftToTargetExponent .binary64 rounded (-j + ↑(n.log2 + j - 52)) .exact = (final, exponent) ∧
        final.mantissa = 2 ^ 52 + (n.log2 * 2 ^ 52 + rounded) % 2 ^ 52 ∧
        exponent = ((n.log2 * 2 ^ 52 + rounded) / 2 ^ 52 : Nat) - 53 := by
    obtain carries | fits := Nat.eq_or_lt_of_le high
    · have log : rounded.log2 = 53 := carries ▸ Nat.log2_two_pow
      refine ⟨_, _, shiftToTargetExponent_eq _ _ (by rw [log]; omega), ?_, ?_⟩
      · rw [log, carries, Nat.mul_add_mod_self_right]
        rfl
      · rw [log, carries]
        omega
    · have log : rounded.log2 = 52 := log2_eq low fits
      refine ⟨_, _, shiftToTargetExponent_eq _ _ (by rw [log]; omega), ?_, ?_⟩
      · rw [log]
        change rounded = _
        omega
      · rw [log]
        omega
  rw [shifted]
  dsimp only
  have positive : final.mantissa ≠ 0 := by omega
  rw [dif_neg positive, atRank]
  simp only [final_eq, exponent_eq]

/-! ### Packed doubles -/

theorem unpackSign_packComponents {format sign exponent mantissa} :
    Sign.ofBitVec (unpackSign (packComponents format sign exponent mantissa)) = sign := by
  have first : unpackSign (packComponents format sign exponent mantissa) = sign.toBitVec := by
    ext i hi
    obtain rfl : i = 0 := by omega
    simp [unpackSign, packComponents, BitVec.getLsbD_append, BitVec.getElem_append]
  rw [first]
  cases sign <;> rfl

theorem unpack_packedInfinity (sign : Sign) :
    UnpackedFloat.unpack .binary64 (packedInfinity .binary64 sign) = .infinity sign := by
  cases sign <;> rfl

theorem unpack_pack_atRank (sign : Sign) (rank : Nat) :
    UnpackedFloat.unpack .binary64 (UnpackedFloat.pack .binary64 (atRank sign rank)) =
      ofRank sign rank := by
  have log : (2 ^ 52 + rank % 2 ^ 52).log2 = 52 := log2_eq (by omega) (by omega)
  have bias : Format.binary64.exponentBias = 1023 := rfl
  have biased : ((rank / 2 ^ 52 : Nat) - 53 + (Format.binary64.exponentBias : ℤ) +
      Format.binary64.mantissaBitsWithoutImplicit).toNat = rank / 2 ^ 52 + 1022 := by
    rw [bias]
    dsimp only
    omega
  rw [atRank, UnpackedFloat.pack, ofRank]
  simp only [log, biased]
  split
  · rw [if_pos (by omega), unpack_packedInfinity]
  · have small : rank / 2 ^ 52 < 1025 := by omega
    have exponent_eq : (BitVec.ofNat 11 (rank / 2 ^ 52 + 1022)).toNat = rank / 2 ^ 52 + 1022 := by
      rw [BitVec.toNat_ofNat]
      omega
    have no_infinity : BitVec.ofNat 11 (rank / 2 ^ 52 + 1022) ≠ -1#11 := by
      intro same
      have := congrArg BitVec.toNat same
      rw [exponent_eq] at this
      simp at this
      omega
    have no_zero : BitVec.ofNat 11 (rank / 2 ^ 52 + 1022) ≠ 0#11 := by
      intro same
      have := congrArg BitVec.toNat same
      rw [exponent_eq] at this
      simp at this
    have mantissa_eq : (1#1 ++ BitVec.ofNat 52 (2 ^ 52 + rank % 2 ^ 52)).toNat =
        2 ^ 52 + rank % 2 ^ 52 := by
      rw [BitVec.toNat_append, ← Nat.shiftLeft_add_eq_or_of_lt (BitVec.isLt _), BitVec.toNat_ofNat]
      simp [Nat.shiftLeft_eq]
    have unbiased : ((rank / 2 ^ 52 + 1022 : Nat) : ℤ) - (Format.binary64.exponentBias +
        Format.binary64.mantissaBitsWithoutImplicit) = (rank / 2 ^ 52 : Nat) - 53 := by
      rw [bias]
      dsimp only
      omega
    rw [if_pos (show 52 + 1 = Format.binary64.mantissaBits from rfl), if_neg (Nat.not_le.mpr small),
      UnpackedFloat.unpack]
    simp only [unpackMantissa_packComponents, unpackExponent_packComponents,
      unpackSign_packComponents, no_infinity, no_zero, if_false, mantissa_eq, exponent_eq, unbiased,
      atRank]

theorem unpack_pack_ofRank (sign : Sign) (rank : Nat) :
    UnpackedFloat.unpack .binary64 (UnpackedFloat.pack .binary64 (ofRank sign rank)) =
      ofRank sign rank := by
  by_cases large : 1025 ≤ rank / 2 ^ 52
  · rw [ofRank, if_pos large]
    exact unpack_packedInfinity sign
  · nth_rewrite 1 [ofRank]
    rw [if_neg large, unpack_pack_atRank]

/-! ### Integers -/

theorem log2_le_of_lt (small : n < 2 ^ 53) : n.log2 ≤ 52 := by
  obtain rfl | pos := eq_or_ne n 0
  · decide
  · exact Nat.le_of_lt_succ ((Nat.log2_lt pos).mpr small)

theorem roundedShift_exact (small : n.log2 ≤ 52) :
    roundedShift (n * 2 ^ 53) (n.log2 + 1) = n * 2 ^ (52 - n.log2) := by
  have split : n * 2 ^ 53 = n * 2 ^ (52 - n.log2) * 2 ^ (n.log2 + 1) := by
    rw [Nat.mul_assoc, ← Nat.pow_add]
    congr 2
    omega
  have scaled := roundedShift_mul (n * 2 ^ (52 - n.log2)) 0 (n.log2 + 1)
  rw [← split, Nat.zero_add] at scaled
  rw [scaled]
  simp [roundedShift, Nat.mod_one]

theorem scaled_lt (small : n.log2 ≤ 52) : n * 2 ^ (52 - n.log2) < 2 ^ 53 := by
  calc n * 2 ^ (52 - n.log2)
    _ < 2 ^ (n.log2 + 1) * 2 ^ (52 - n.log2) :=
      Nat.mul_lt_mul_of_pos_right Nat.lt_log2_self (Nat.two_pow_pos _)
    _ = 2 ^ 53 := by
      rw [← Nat.pow_add]
      congr 1
      omega

theorem rank_lt (pos : a ≠ 0) (less : a < b) (small : b ≤ 2 ^ 53) : rank a < rank b := by
  have logs : a.log2 ≤ b.log2 :=
    (Nat.le_log2 (by omega)).mpr ((Nat.log2_self_le pos).trans less.le)
  have log : a.log2 ≤ 52 := log2_le_of_lt (by omega)
  have below := scaled_lt log
  have low := (roundedShift_range (n := b) (by omega)).1
  unfold rank
  rw [roundedShift_exact log]
  obtain same | earlier := Nat.eq_or_lt_of_le logs
  · rw [roundedShift_exact (same ▸ log), ← same]
    have := Nat.mul_lt_mul_of_pos_right less (Nat.two_pow_pos (52 - a.log2))
    omega
  · omega

theorem atRank_exact (sign : Sign) (pos : n ≠ 0) (small : n.log2 ≤ 52) :
    atRank sign (rank n) = .finite sign (n * 2 ^ (52 - n.log2)) (-↑(52 - n.log2))
      (Nat.mul_pos (Nat.pos_of_ne_zero pos) (Nat.two_pow_pos _)) := by
  have low := (roundedShift_range pos).1
  have below := scaled_lt small
  rw [roundedShift_exact small] at low
  rw [atRank, rank, roundedShift_exact small]
  have quotient : (n.log2 * 2 ^ 52 + n * 2 ^ (52 - n.log2)) / 2 ^ 52 = n.log2 + 1 := by omega
  have rest : 2 ^ 52 + (n.log2 * 2 ^ 52 + n * 2 ^ (52 - n.log2)) % 2 ^ 52 =
      n * 2 ^ (52 - n.log2) := by omega
  have exponent : ((n.log2 + 1 : Nat) : ℤ) - 53 = -↑(52 - n.log2) := by omega
  simp only [quotient, rest, exponent]

theorem unpack_toFloat (pos : n ≠ 0) (small : n < 2 ^ 53) :
    n.toUInt64.toFloat.toModel.unpack = ofRank .positive (rank n) := by
  have log := log2_le_of_lt small
  have word : n.toUInt64.toNat = n := UInt64.toNat_ofNat_of_lt' (by
    have : UInt64.size = 2 ^ 64 := rfl
    omega)
  have rounds : UnpackedFloat.round .binary64 .positive n 0 = atRank .positive (rank n) := by
    have target : (0 - Format.binary64.targetExponent (totalExponent n 0)).toNat = 52 - n.log2 := by
      have bits : Format.binary64.mantissaBits = 53 := rfl
      have least : Format.binary64.minExponent = -1074 := rfl
      rw [Format.targetExponent, totalExponent, bits, least]
      omega
    rw [UnpackedFloat.round, decreaseExponent, target]
    dsimp only
    rw [Nat.shiftLeft_eq, zero_sub]
    exact roundWithAccuracy_eq .positive pos (by omega)
  have normal : UnpackedFloat.ofUInt64 .binary64 n.toUInt64 = atRank .positive (rank n) := by
    rw [UnpackedFloat.ofUInt64, UnpackedFloat.ofNat, UnpackedFloat.ofInt,
      UnpackedFloat.normalize, word, compare_gt_iff_gt.mpr (by omega)]
    exact rounds
  change UnpackedFloat.unpack .binary64 (UnpackedFloat.pack .binary64
    (UnpackedFloat.ofUInt64 .binary64 n.toUInt64)) = _
  rw [normal, unpack_pack_atRank]

theorem unpack_ofScientific (pos : n ≠ 0) :
    (Float.ofScientific n false 0).toModel.unpack = ofRank .positive (rank n) := by
  rw [Float.ofScientific]
  split
  next small =>
    -- the double is multiplied by one, and rounded again
    have log := log2_le_of_lt small.1
    have finite : ofRank .positive (rank n) = atRank .positive (rank n) := by
      have := (roundedShift_range pos).2
      rw [ofRank, if_neg]
      unfold rank
      omega
    have mantissas : n * 2 ^ (52 - n.log2) * 2 ^ 52 = n * 2 ^ (104 - n.log2) := by
      rw [Nat.mul_assoc, ← Nat.pow_add]
      congr 2
      omega
    have exponents : -↑(52 - n.log2) + (-52 : ℤ) = -↑(104 - n.log2) := by omega
    have unit : (Float.ofBits 0x3FF0000000000000).toModel.unpack =
        .finite .positive (2 ^ 52) (-52) (by decide) := rfl
    have product : UnpackedFloat.mul .binary64 n.toUInt64.toFloat.toModel.unpack
        (Float.ofBits 0x3FF0000000000000).toModel.unpack = atRank .positive (rank n) := by
      rw [unit, unpack_toFloat pos small.1, finite]
      nth_rewrite 1 [atRank_exact _ pos log]
      rw [UnpackedFloat.mul, mantissas, exponents]
      exact roundWithAccuracy_eq .positive pos (by omega)
    change UnpackedFloat.unpack .binary64 (UnpackedFloat.pack .binary64
      (UnpackedFloat.mul .binary64 n.toUInt64.toFloat.toModel.unpack
        (Float.ofBits 0x3FF0000000000000).toModel.unpack)) = _
    rw [product, unpack_pack_atRank]
  next =>
    have product : UnpackedFloat.ofScientific .binary64 n 0 = atRank .positive (rank n) := by
      have range : (0 : ℤ) ≤ 2 ^ Format.binary64.exponentBits := by decide
      rw [UnpackedFloat.ofScientific, dif_neg pos, if_neg (by decide), if_neg (by omega),
        if_pos (by decide), UnpackedFloat.mul, Nat.shiftLeft_eq]
      rw [show (10 ^ (0 : ℤ).toNat : Nat) = 1 from rfl, Nat.mul_one, Int.add_zero]
      exact roundWithAccuracy_eq .positive pos (j := 53) (by omega)
    change UnpackedFloat.unpack .binary64 (UnpackedFloat.pack .binary64
      (UnpackedFloat.ofScientific .binary64 n 0)) = _
    rw [product, unpack_pack_atRank]

theorem le_log2_of_toDigits {k} (pos : n ≠ 0) (k_pos : 0 < k)
    (long : k < (Nat.toDigits 10 n).length) : 3 * k ≤ n.log2 := by
  rw [Nat.le_log2 pos]
  calc 2 ^ (3 * k)
    _ = 8 ^ k := by rw [Nat.pow_mul]
    _ ≤ 10 ^ k := Nat.pow_le_pow_left (by decide) k
    _ ≤ n := Nat.not_lt.mp
      (mt (Nat.length_toDigits_le_iff (by decide) k_pos).mpr (Nat.not_le.mpr long))

theorem unpack_ofDecimal (pos : n ≠ 0) :
    (ofDecimal n 0).toModel.unpack = ofRank .positive (rank n) := by
  unfold ofDecimal
  rw [if_neg (by simp [pos])]
  split
  next long =>
    have log := le_log2_of_toDigits pos (k := 400) (by decide) (by omega)
    have low := (roundedShift_range pos).1
    have large : 1025 ≤ rank n / 2 ^ 52 := by
      unfold rank
      omega
    rw [ofRank, if_pos large]
    rfl
  next => exact unpack_ofScientific pos

/-! ### The order of integers as doubles -/

/-- The place of a natural number as a double. -/
def magnitude (n : Nat) : ℤ ×ₗ ℤ ×ₗ ℤ := floatPlace (ofDecimal n 0)

theorem magnitude_zero : magnitude 0 = 0 := rfl

theorem magnitude_eq (pos : n ≠ 0) : magnitude n = placeOf (ofRank .positive (rank n)) := by
  rw [magnitude, floatPlace, unpack_ofDecimal pos]

theorem placeOf_ofRank_pos (r : Nat) : 0 < placeOf (ofRank .positive r) := by
  unfold ofRank
  split <;> simp [placeOf, atRank, Prod.Lex.lt_iff]

theorem placeOf_ofRank_lt {r s} (less : r < s) (small : r / 2 ^ 52 < 1025) :
    placeOf (ofRank .positive r) < placeOf (ofRank .positive s) := by
  rw [ofRank, if_neg (by omega), ofRank]
  split
  · simp [placeOf, atRank, Prod.Lex.lt_iff]
  · refine Prod.Lex.toLex_lt_toLex.mpr (.inr ⟨rfl, Prod.Lex.toLex_lt_toLex.mpr ?_⟩)
    dsimp only
    omega

theorem placeOf_ofRank_mono {r s} (le : r ≤ s) :
    placeOf (ofRank .positive r) ≤ placeOf (ofRank .positive s) := by
  obtain rfl | less := Nat.eq_or_lt_of_le le
  · exact le_rfl
  · by_cases small : r / 2 ^ 52 < 1025
    · exact (placeOf_ofRank_lt less small).le
    · rw [ofRank, if_pos (by omega), ofRank, if_pos (by omega)]

theorem magnitude_mono (le : a ≤ b) : magnitude a ≤ magnitude b := by
  obtain rfl | pos := eq_or_ne a 0
  · obtain rfl | pos := eq_or_ne b 0
    · exact le_rfl
    · rw [magnitude_zero, magnitude_eq pos]
      exact (placeOf_ofRank_pos _).le
  · rw [magnitude_eq pos, magnitude_eq (by omega)]
    exact placeOf_ofRank_mono (rank_mono pos le)

theorem magnitude_lt (less : a < b) (small : b ≤ 2 ^ 53) : magnitude a < magnitude b := by
  obtain rfl | pos := eq_or_ne a 0
  · rw [magnitude_zero, magnitude_eq (by omega)]
    exact placeOf_ofRank_pos _
  · rw [magnitude_eq pos, magnitude_eq (by omega)]
    have log : a.log2 ≤ 52 := log2_le_of_lt (by omega)
    have range := (roundedShift_range pos).2
    refine placeOf_ofRank_lt (rank_lt pos less small) ?_
    unfold rank
    omega

theorem unpack_floatOfInt {n} (pos : n ≠ 0) :
    (floatOfInt n).toModel.unpack =
      ofRank (if n < 0 then .negative else .positive) (rank n.natAbs) := by
  unfold floatOfInt
  have unpacked := unpack_ofDecimal (Int.natAbs_ne_zero.mpr pos)
  split
  · have negated : (ofRank .positive (rank n.natAbs)).neg = ofRank .negative (rank n.natAbs) := by
      unfold ofRank
      split <;> rfl
    change UnpackedFloat.unpack .binary64 (UnpackedFloat.pack .binary64
      (ofDecimal n.natAbs 0).toModel.unpack.neg) = _
    rw [unpacked, negated, unpack_pack_ofRank]
  · exact unpacked

theorem isNaN_floatOfInt (n : ℤ) : (floatOfInt n).isNaN = false := by
  obtain rfl | pos := eq_or_ne n 0
  · rfl
  · change (floatOfInt n).toModel.unpack.isNaN = false
    rw [unpack_floatOfInt pos, ofRank]
    split <;> rfl

theorem floatPlace_floatOfInt (n : ℤ) :
    floatPlace (floatOfInt n) = if n < 0 then -magnitude n.natAbs else magnitude n.natAbs := by
  split
  next negative =>
    rw [floatPlace, unpack_floatOfInt (by omega), if_pos negative, magnitude_eq (by omega)]
    unfold ofRank
    split <;> rfl
  next positive => rw [floatOfInt, if_neg positive, magnitude]

theorem floatOfInt_mono {a b} (le : a ≤ b) :
    floatPlace (floatOfInt a) ≤ floatPlace (floatOfInt b) := by
  have a_pos := magnitude_mono a.natAbs.zero_le
  have b_pos := magnitude_mono b.natAbs.zero_le
  rw [magnitude_zero] at a_pos b_pos
  rw [floatPlace_floatOfInt, floatPlace_floatOfInt]
  split
  · split
    · exact neg_le_neg (magnitude_mono (by omega))
    · exact (neg_nonpos.mpr a_pos).trans b_pos
  · rw [if_neg (by omega)]
    exact magnitude_mono (by omega)

theorem floatOfInt_lt {a b} (less : a < b) (a_small : a.natAbs ≤ 2 ^ 53)
    (b_small : b.natAbs ≤ 2 ^ 53) : floatPlace (floatOfInt a) < floatPlace (floatOfInt b) := by
  have b_pos := magnitude_mono b.natAbs.zero_le
  rw [magnitude_zero] at b_pos
  rw [floatPlace_floatOfInt, floatPlace_floatOfInt]
  split
  · split
    · exact neg_lt_neg (magnitude_lt (by omega) a_small)
    · have a_pos := magnitude_lt (a := 0) (by omega) a_small
      exact (neg_neg_of_pos a_pos).trans_le b_pos
  · rw [if_neg (by omega)]
    exact magnitude_lt (by omega) b_small

end Vimlet.Double
