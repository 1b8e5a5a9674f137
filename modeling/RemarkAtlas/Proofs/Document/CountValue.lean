import Mathlib.Algebra.Order.Field.Power
import Mathlib.Algebra.Order.Floor.Semifield
import Mathlib.Data.Rat.Floor
import Mathlib.Tactic.Linarith
import RemarkAtlas.Proofs.Document.FieldAcceptance

/-!
The value of an execution count is the whole part of the number that is written for it, as far as 64
bits can hold it.  Integers and doubles are compared as the exact rationals that they are, so a
larger number never reads as a smaller count, whichever way the two are written.
-/

namespace RemarkAtlas

namespace Double

variable {number : Double}

def toRat (number : Double) : ℚ :=
  (if number.negative then -1 else 1) * (number.significand * (2 : ℚ) ^ number.exponent)

theorem magnitude_eq (number : Double) :
    (number.numerator : ℚ) / number.denominator = number.significand * (2 : ℚ) ^ number.exponent := by
  have two_ne_zero : (2 : ℚ) ≠ 0 := by norm_num
  -- One of the two powers is one.
  have powers : (2 : ℚ) ^ number.exponent.toNat / (2 : ℚ) ^ (-number.exponent).toNat =
      (2 : ℚ) ^ number.exponent := by
    rw [← zpow_natCast, ← zpow_natCast, ← zpow_sub₀ two_ne_zero]
    congr 1
    omega
  have numerator_eq : (number.numerator : ℚ) = number.significand * 2 ^ number.exponent.toNat := by
    simp [numerator]
  have denominator_eq : (number.denominator : ℚ) = 2 ^ (-number.exponent).toNat := by
    simp [denominator]
  rw [numerator_eq, denominator_eq, mul_div_assoc, powers]

theorem isZero_iff : number.isZero = true ↔ number.toRat = 0 := by
  have power_pos : (0 : ℚ) < 2 ^ number.exponent := zpow_pos (by norm_num) _
  rw [isZero, beq_iff_eq, toRat]
  split <;> simp [power_pos.ne']

theorem toRat_nonneg_iff : 0 ≤ number.toRat ↔ number.negative = false ∨ number.isZero = true := by
  have magnitude_nonneg : (0 : ℚ) ≤ number.significand * 2 ^ number.exponent :=
    mul_nonneg (Nat.cast_nonneg _) (zpow_pos (by norm_num) _).le
  cases negative : number.negative with
  | false => simpa [toRat, negative] using magnitude_nonneg
  | true =>
      have opposite : number.toRat = -(number.significand * 2 ^ number.exponent) := by
        simp [toRat, negative]
      rw [isZero_iff]
      constructor
      · intro nonneg
        exact Or.inr (by linarith)
      · rintro (isFalse | zero)
        · cases isFalse
        · exact zero.ge

theorem floor_eq (nonneg : 0 ≤ number.toRat) : number.floor = ⌊number.toRat⌋₊ := by
  rcases toRat_nonneg_iff.mp nonneg with notNegative | zero
  · rw [toRat, notNegative, if_neg Bool.false_ne_true, one_mul, ← magnitude_eq, Nat.floor_div_eq_div]
    rfl
  · have noSignificand : number.significand = 0 := beq_iff_eq.mp zero
    rw [isZero_iff.mp zero, Nat.floor_zero]
    simp [floor, numerator, noSignificand]

end Double

def JsonNumber.toRat : JsonNumber → ℚ
  | .integer value => value
  | .double value => value.toRat

namespace Document

theorem countValue?_eq (number : JsonNumber) :
    countValue? (.number number) =
      if 0 ≤ number.toRat then some (UInt64.ofNat (min ⌊number.toRat⌋₊ greatestCount)) else none := by
  cases number with
  | integer value =>
      have sameSign : 0 ≤ (value : ℚ) ↔ 0 ≤ value := Int.cast_nonneg_iff
      have whole : ⌊(value : ℚ)⌋₊ = value.toNat := by rw [← Int.floor_toNat, Int.floor_intCast]
      simp only [countValue?, JsonNumber.toRat, sameSign, whole]
  | double value =>
      have accepted : (value.negative && !value.isZero) = true ↔ ¬0 ≤ value.toRat := by
        rw [Double.toRat_nonneg_iff]
        simp
      by_cases nonneg : 0 ≤ value.toRat
      · simp [countValue?, JsonNumber.toRat, accepted, nonneg, Double.floor_eq]
      · simp [countValue?, JsonNumber.toRat, accepted, nonneg]

theorem countValue?_eq_some {number : JsonNumber} {value : UInt64} :
    countValue? (.number number) = some value ↔
      0 ≤ number.toRat ∧ (value.toNat : ℤ) = min ⌊number.toRat⌋ (2 ^ 64 - 1) := by
  rw [countValue?_eq]
  by_cases nonneg : 0 ≤ number.toRat
  · have limited : min ⌊number.toRat⌋₊ greatestCount < UInt64.size :=
      (Nat.min_le_right ..).trans_lt (by decide)
    have whole : ((min ⌊number.toRat⌋₊ greatestCount : ℕ) : ℤ) =
        min ⌊number.toRat⌋ (2 ^ 64 - 1) := by
      rw [Nat.cast_min, Int.natCast_floor_eq_floor nonneg]
      rfl
    rw [if_pos nonneg, Option.some.injEq, ← whole, Nat.cast_inj, ← UInt64.toNat_inj,
      UInt64.toNat_ofNat_of_lt' limited, eq_comm]
    exact (and_iff_right nonneg).symm
  · simp [nonneg]

def WritesCount (value : Json) (quality : String) (number : JsonNumber) : Prop :=
  ∃ members : Members, value = .object members ∧
    members.get? "quality" = some (.string quality) ∧ members.get? "value" = some (.number number)

section Count

variable {value : Json} {quality : String} {number : JsonNumber}

theorem readCount_written_eq_ok (writes : WritesCount value quality number) {count : Count} :
    readCount value = .ok count ↔
      0 ≤ number.toRat ∧ count.quality = quality ∧
        (count.value.toNat : ℤ) = min ⌊number.toRat⌋ (2 ^ 64 - 1) := by
  obtain ⟨members, rfl, hasQuality, hasValue⟩ := writes
  rw [readCount_eq_ok]
  constructor
  · rintro ⟨_, isObject, isQuality, written, isWritten, read⟩
    obtain rfl := Json.object.inj isObject
    obtain rfl : written = .number number := Option.some.inj (isWritten.symm.trans hasValue)
    rw [string_eq_ok, hasQuality, Option.some.injEq, Json.string.injEq] at isQuality
    obtain ⟨nonneg, limited⟩ := countValue?_eq_some.mp read
    exact ⟨nonneg, isQuality.symm, limited⟩
  · rintro ⟨nonneg, rfl, limited⟩
    exact ⟨members, rfl, string_eq_ok.mpr hasQuality, _, hasValue,
      countValue?_eq_some.mpr ⟨nonneg, limited⟩⟩

theorem exists_readCount (writes : WritesCount value quality number) (nonneg : 0 ≤ number.toRat) :
    ∃ count, readCount value = .ok count := by
  have accepted := countValue?_eq number
  rw [if_pos nonneg] at accepted
  have limited := (countValue?_eq_some.mp accepted).2
  exact ⟨⟨quality, _⟩, (readCount_written_eq_ok writes).mpr ⟨nonneg, rfl, limited⟩⟩

theorem readCount_negative (writes : WritesCount value quality number)
    (negative : number.toRat < 0) : readCount value = .error (.invalidCount (.number number)) := by
  obtain ⟨members, rfl, hasQuality, hasValue⟩ := writes
  have isQuality : string .count "quality" members = .ok quality := string_eq_ok.mpr hasQuality
  have isWritten : required .count "value" members = .ok (.number number) :=
    required_eq_ok.mpr hasValue
  have refused : countValue? (.number number) = none := by
    rw [countValue?_eq, if_neg negative.not_ge]
  simp only [readCount, object, isQuality, isWritten, bind, Except.bind, refused]

theorem readCount_exact (writes : WritesCount value quality number) :
    ((∃ count, readCount value = .ok count) ↔ 0 ≤ number.toRat) ∧
    (∀ count, readCount value = .ok count → count.quality = quality ∧
      (count.value.toNat : ℤ) = min ⌊number.toRat⌋ (2 ^ 64 - 1)) ∧
    (number.toRat < 0 → readCount value = .error (.invalidCount (.number number))) ∧
    (∀ whole : ℕ, whole < 2 ^ 64 → number.toRat = whole →
      ∃ count, readCount value = .ok count ∧ count.value.toNat = whole) ∧
    (∀ other otherQuality greater, WritesCount other otherQuality greater →
      number.toRat ≤ greater.toRat → ∀ count, readCount value = .ok count →
        ∃ otherCount, readCount other = .ok otherCount ∧ count.value ≤ otherCount.value) := by
  have reads := @readCount_written_eq_ok value quality number writes
  refine ⟨⟨?_, exists_readCount writes⟩, ?_, readCount_negative writes, ?_, ?_⟩
  · rintro ⟨count, read⟩
    exact (reads.mp read).1
  · intro count read
    exact (reads.mp read).2
  · intro whole bound isWhole
    have nonneg : 0 ≤ number.toRat := isWhole ▸ Nat.cast_nonneg whole
    obtain ⟨count, read⟩ := exists_readCount writes nonneg
    refine ⟨count, read, ?_⟩
    have limited := (reads.mp read).2.2
    rw [isWhole, Int.floor_natCast] at limited
    omega
  · intro other otherQuality greater otherWrites below count read
    obtain ⟨nonneg, _, limited⟩ := reads.mp read
    obtain ⟨otherCount, otherRead⟩ := exists_readCount otherWrites (nonneg.trans below)
    refine ⟨otherCount, otherRead, ?_⟩
    obtain ⟨_, _, otherLimited⟩ := (readCount_written_eq_ok otherWrites).mp otherRead
    have floors : ⌊number.toRat⌋ ≤ ⌊greater.toRat⌋ := Int.floor_le_floor below
    rw [UInt64.le_iff_toNat_le]
    omega

end Count

def writtenCount (quality : String) (number : JsonNumber) : Json :=
  .object [("quality", .string quality), ("value", .number number)]

theorem writesCount_writtenCount (quality : String) (number : JsonNumber) :
    WritesCount (writtenCount quality number) quality number :=
  ⟨_, rfl, by simp, by simp⟩

/-- The least integer above `2 ^ 53` that is no double, the double `2 ^ 64`, which is too large for
a count, and negative zero. -/
theorem borderCounts_exact :
    WritesCount (writtenCount "precise" (.integer 9007199254740993)) "precise"
      (.integer 9007199254740993) ∧
    (∃ count limited,
      readCount (writtenCount "precise" (.integer 9007199254740993)) = .ok count ∧
      count.value.toNat = 9007199254740993 ∧
      readCount (writtenCount "guessed" (.double ⟨false, 4503599627370496, 12⟩)) = .ok limited ∧
      count.value ≤ limited.value) ∧
    ∃ zero, readCount (writtenCount "afdo" (.double (.zero true))) = .ok zero ∧
      zero.value.toNat = 0 := by
  have writes := writesCount_writtenCount "precise" (.integer 9007199254740993)
  have otherWrites := writesCount_writtenCount "guessed" (.double ⟨false, 4503599627370496, 12⟩)
  have zeroWrites := writesCount_writtenCount "afdo" (.double (.zero true))
  obtain ⟨_, _, _, keeps, monotone⟩ := readCount_exact writes
  obtain ⟨count, read, kept⟩ := keeps 9007199254740993 (by norm_num) (by norm_num [JsonNumber.toRat])
  have below : (JsonNumber.integer 9007199254740993).toRat ≤
      (JsonNumber.double ⟨false, 4503599627370496, 12⟩).toRat := by
    norm_num [JsonNumber.toRat, Double.toRat]
  obtain ⟨limited, otherRead, ordered⟩ := monotone _ _ _ otherWrites below count read
  have isZero : (JsonNumber.double (.zero true)).toRat = (0 : ℕ) := by
    simp [JsonNumber.toRat, Double.toRat, Double.zero]
  exact ⟨writes, ⟨count, limited, read, kept, otherRead, ordered⟩,
    (readCount_exact zeroWrites).2.2.2.1 0 (by norm_num) isZero⟩

/-- The double nearest to 12.9. -/
example : countValue? (.number (.double ⟨false, 7262054399134925, -49⟩)) = some 12 := by decide

end Document

end RemarkAtlas
