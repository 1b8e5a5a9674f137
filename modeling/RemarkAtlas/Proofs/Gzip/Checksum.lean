import Mathlib.Algebra.Field.ZMod
import Mathlib.Algebra.Polynomial.OfFn
import Mathlib.Data.ZMod.Basic
import Mathlib.RingTheory.AdjoinRoot
import RemarkAtlas.Gzip.Member

/-!
The checksum is the remainder of a polynomial division.  Bits are coefficients over the field of two
elements; in a byte and in a register the lowest bit belongs to the highest power.
-/

namespace RemarkAtlas.Gzip

open Polynomial

def bitOf (bit : Bool) : ZMod 2 := bit.toNat

theorem bitOf_inj {left right : Bool} : bitOf left = bitOf right ↔ left = right := by
  cases left <;> cases right <;> decide

theorem bitOf_xor (left right : Bool) : bitOf (left ^^ right) = bitOf left + bitOf right := by
  cases left <;> cases right <;> decide

noncomputable def bitsPolynomial (width number : ℕ) : (ZMod 2)[X] :=
  ofFn width fun power => bitOf (number.testBit (width - 1 - power))

noncomputable def registerPolynomial (value : UInt32) : (ZMod 2)[X] := bitsPolynomial 32 value.toNat

noncomputable def bytePolynomial (byte : UInt8) : (ZMod 2)[X] := bitsPolynomial 8 byte.toNat

noncomputable def messagePolynomial : Bytes → (ZMod 2)[X]
  | [] => 0
  | byte :: rest => X ^ (8 * rest.length) * bytePolynomial byte + messagePolynomial rest

def generatorPowers : Finset ℕ := {0, 1, 2, 4, 5, 7, 8, 10, 11, 12, 16, 22, 23, 26}

noncomputable def generator : (ZMod 2)[X] := X ^ 32 + ∑ power ∈ generatorPowers, X ^ power

/-- The complement of the checksum is the remainder of the message with 32 zero bits after it, to
which 32 one bits are added at its start. -/
def IsChecksum (bytes : Bytes) (checksum : UInt32) : Prop :=
  registerPolynomial (checksum ^^^ 0xffffffff) =
    (X ^ (8 * bytes.length) * registerPolynomial 0xffffffff + X ^ 32 * messagePolynomial bytes) %ₘ
      generator

theorem coeff_bitsPolynomial (width number power : ℕ) :
    (bitsPolynomial width number).coeff power =
      if power < width then bitOf (number.testBit (width - 1 - power)) else 0 := by
  split
  case isTrue inside => exact ofFn_coeff_eq_val_of_lt _ inside
  case isFalse outside => exact ofFn_coeff_eq_zero_of_ge _ (not_lt.mp outside)

theorem coeff_registerPolynomial (value : UInt32) (power : ℕ) :
    (registerPolynomial value).coeff power =
      if power < 32 then bitOf (value.toNat.testBit (31 - power)) else 0 :=
  coeff_bitsPolynomial 32 value.toNat power

theorem coeff_bytePolynomial (byte : UInt8) (power : ℕ) :
    (bytePolynomial byte).coeff power =
      if power < 8 then bitOf (byte.toNat.testBit (7 - power)) else 0 :=
  coeff_bitsPolynomial 8 byte.toNat power

theorem registerPolynomial_injective : Function.Injective registerPolynomial := by
  intro left right same
  refine UInt32.toNat_inj.mp (Nat.eq_of_testBit_eq fun index => ?_)
  by_cases inside : index < 32
  · have coefficients := congrArg (fun polynomial => polynomial.coeff (31 - index)) same
    have place : 31 - (31 - index) = index := by omega
    have below : 31 - index < 32 := by omega
    simpa [coeff_registerPolynomial, below, place, bitOf_inj] using coefficients
  · have outside : 2 ^ 32 ≤ 2 ^ index := Nat.pow_le_pow_right (by decide) (by omega)
    rw [Nat.testBit_lt_two_pow (left.toNat_lt.trans_le outside),
      Nat.testBit_lt_two_pow (right.toNat_lt.trans_le outside)]

theorem registerPolynomial_xor (left right : UInt32) :
    registerPolynomial (left ^^^ right) = registerPolynomial left + registerPolynomial right := by
  ext power
  rw [coeff_add, coeff_registerPolynomial, coeff_registerPolynomial, coeff_registerPolynomial]
  split
  · rw [UInt32.toNat_xor, Nat.testBit_xor, bitOf_xor]
  · rw [add_zero]

theorem registerPolynomial_byte (byte : UInt8) :
    registerPolynomial byte.toUInt32 = X ^ 24 * bytePolynomial byte := by
  ext power
  rw [coeff_registerPolynomial, coeff_X_pow_mul', coeff_bytePolynomial, UInt8.toNat_toUInt32]
  by_cases high : 24 ≤ power
  · by_cases inside : power < 32
    · have below : power - 24 < 8 := by omega
      have place : 7 - (power - 24) = 31 - power := by omega
      rw [if_pos inside, if_pos high, if_pos below, place]
    · have outside : ¬power - 24 < 8 := by omega
      rw [if_neg inside, if_pos high, if_neg outside]
  · have inside : power < 32 := by omega
    have above : byte.toNat < 2 ^ (31 - power) :=
      byte.toNat_lt.trans_le (Nat.pow_le_pow_right (by decide) (by omega))
    rw [if_pos inside, if_neg high, Nat.testBit_lt_two_pow above]
    rfl

/-- Shifted by one place, a register loses its lowest bit, which has the highest power. -/
theorem X_mul_registerPolynomial (value : UInt32) :
    X * registerPolynomial value =
      registerPolynomial (value >>> 1) + C (bitOf (value.toNat.testBit 0)) * X ^ 32 := by
  have shifted (index : ℕ) : (value >>> 1).toNat.testBit index = value.toNat.testBit (1 + index) := by
    rw [UInt32.toNat_shiftRight, Nat.testBit_shiftRight]
    rfl
  ext power
  rw [coeff_add, coeff_C_mul, coeff_X_pow, coeff_registerPolynomial, shifted]
  cases power with
  | zero =>
      rw [coeff_X_mul_zero, Nat.testBit_lt_two_pow value.toNat_lt]
      rfl
  | succ power =>
      rw [coeff_X_mul, coeff_registerPolynomial]
      rcases Nat.lt_trichotomy power 31 with below | rfl | above
      · have inside : power < 32 := by omega
        have stays : power + 1 < 32 := by omega
        have place : 1 + (31 - (power + 1)) = 31 - power := by omega
        rw [if_pos inside, if_pos stays, if_neg stays.ne, place, mul_zero, add_zero]
      · simp
      · have outside : ¬power < 32 := by omega
        have leaves : ¬power + 1 < 32 := by omega
        have notHighest : power + 1 ≠ 32 := by omega
        rw [if_neg outside, if_neg leaves, if_neg notHighest, mul_zero, add_zero]

theorem registerPolynomial_generator :
    registerPolynomial 0xedb88320 = ∑ power ∈ generatorPowers, X ^ power := by
  have bits : ∀ power < 32, bitOf ((0xedb88320 : UInt32).toNat.testBit (31 - power)) =
      if power ∈ generatorPowers then 1 else 0 := by decide
  have small : ∀ power ∈ generatorPowers, power < 32 := by decide
  ext power
  rw [coeff_registerPolynomial, finsetSum_coeff]
  simp only [coeff_X_pow, Finset.sum_ite_eq]
  split
  case isTrue inside => exact bits power inside
  case isFalse outside => exact (if_neg fun member => outside (small power member)).symm

theorem degree_generatorPowers :
    (∑ power ∈ generatorPowers, (X : (ZMod 2)[X]) ^ power).degree < (32 : ℕ) := by
  rw [← registerPolynomial_generator]
  exact ofFn_degree_lt _

theorem monic_generator : generator.Monic := monic_X_pow_add degree_generatorPowers

theorem degree_generator : generator.degree = (32 : ℕ) := by
  have lower : (∑ power ∈ generatorPowers, (X : (ZMod 2)[X]) ^ power).degree <
      ((X : (ZMod 2)[X]) ^ 32).degree := by
    rw [degree_X_pow]
    exact degree_generatorPowers
  rw [generator, degree_add_eq_left_of_degree_lt lower, degree_X_pow]

noncomputable def residue : (ZMod 2)[X] →+* AdjoinRoot generator := AdjoinRoot.mk generator

theorem residue_X_pow : residue (X ^ 32) = residue (registerPolynomial 0xedb88320) := by
  refine AdjoinRoot.mk_eq_mk.mpr ?_
  rw [registerPolynomial_generator, CharTwo.sub_eq_add]
  exact dvd_rfl

theorem residue_crcBit (value : UInt32) :
    residue (registerPolynomial (crcBit value)) = residue X * residue (registerPolynomial value) := by
  have lowest : value &&& 1 = 1 ↔ value.toNat.testBit 0 = true := by
    rw [← UInt32.toNat_inj, UInt32.toNat_and, Nat.testBit_zero, decide_eq_true_iff]
    exact Nat.and_one_is_mod value.toNat ▸ Iff.rfl
  rw [← map_mul, X_mul_registerPolynomial, map_add, map_mul, residue_X_pow, crcBit]
  split
  case isTrue one =>
    rw [lowest.mp one, registerPolynomial_xor, map_add]
    simp [bitOf]
  case isFalse notOne =>
    rw [Bool.eq_false_iff.mpr fun one => notOne (lowest.mpr one)]
    simp [bitOf]

theorem residue_crcByte (value : UInt32) (byte : UInt8) :
    residue (registerPolynomial (crcByte value byte)) =
      residue X ^ 8 * residue (registerPolynomial value) +
        residue X ^ 32 * residue (bytePolynomial byte) := by
  have steps (places : List ℕ) (start : UInt32) :
      residue (registerPolynomial (places.foldl (fun value _ => crcBit value) start)) =
        residue X ^ places.length * residue (registerPolynomial start) := by
    induction places generalizing start with
    | nil => simp
    | cons place places ih =>
        rw [List.foldl_cons, ih, residue_crcBit, List.length_cons]
        ring
  rw [crcByte, steps, List.length_range, registerPolynomial_xor, registerPolynomial_byte, map_add,
    map_mul, map_pow]
  ring

theorem residue_crcBytes (bytes : Bytes) (value : UInt32) :
    residue (registerPolynomial (bytes.foldl crcByte value)) =
      residue (X ^ (8 * bytes.length) * registerPolynomial value +
        X ^ 32 * messagePolynomial bytes) := by
  induction bytes generalizing value with
  | nil => simp [messagePolynomial]
  | cons byte rest ih =>
      simp only [List.foldl_cons, ih, List.length_cons, messagePolynomial, map_add, map_mul, map_pow,
        residue_crcByte]
      ring

/-- A register holds a remainder: its polynomial has a lower degree than the generator. -/
theorem registerPolynomial_modByMonic (value : UInt32) :
    registerPolynomial value %ₘ generator = registerPolynomial value := by
  rw [modByMonic_eq_self_iff monic_generator, degree_generator]
  exact ofFn_degree_lt _

theorem isChecksum_iff {bytes : Bytes} {checksum : UInt32} :
    IsChecksum bytes checksum ↔ checksum = crc32 bytes := by
  have divides := AdjoinRoot.mk_eq_mk.mp (residue_crcBytes bytes 0xffffffff)
  have remainder := modByMonic_eq_of_dvd_sub monic_generator divides
  rw [registerPolynomial_modByMonic] at remainder
  rw [IsChecksum, ← remainder, registerPolynomial_injective.eq_iff, crc32]
  constructor
  · intro complement
    rw [← complement, UInt32.xor_assoc, UInt32.xor_self, UInt32.xor_zero]
  · rintro rfl
    rw [UInt32.xor_assoc, UInt32.xor_self, UInt32.xor_zero]

example : crc32 [0x31, 0x32, 0x33, 0x34, 0x35, 0x36, 0x37, 0x38, 0x39] = 0xcbf43926 := by cbv

end RemarkAtlas.Gzip
