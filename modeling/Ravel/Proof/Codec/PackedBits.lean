import Ravel.Proof.Codec.BulkVarints

namespace Ravel.Codec

open List Logs Library

variable {bitWidth : Nat} {acc : BitVec 128} {nbits index : Nat} {buf : Bytes} {base value : Int64}
  {values : List Int64}

theorem toNat_widthMask (within : bitWidth ≤ 64) : (widthMask bitWidth).toNat = 2 ^ bitWidth - 1 := by
  rw [widthMask]
  split
  · rename_i full
    rw [full, BitVec.toNat_allOnes]
  · have smaller : 2 ^ bitWidth < 2 ^ 64 := Nat.pow_lt_pow_right (by decide) (by omega)
    have positive := Nat.two_pow_pos bitWidth
    have shifted : (1#64 <<< bitWidth).toNat = 2 ^ bitWidth := by
      rw [BitVec.toNat_shiftLeft, BitVec.toNat_ofNat, Nat.shiftLeft_eq, show 1 % 2 ^ 64 = 1 by rfl, Nat.one_mul,
        Nat.mod_eq_of_lt smaller]
    have one : (1#64).toNat = 1 := rfl
    rw [BitVec.toNat_sub_of_le (BitVec.le_def.mpr (by rw [shifted, one]; exact positive)), shifted, one]

/-- The mask keeps the low bits. -/
theorem toNat_and_widthMask (within : bitWidth ≤ 64) (word : BitVec 64) :
    (word &&& widthMask bitWidth).toNat = word.toNat % 2 ^ bitWidth := by
  rw [BitVec.toNat_and, toNat_widthMask within, Nat.and_two_pow_sub_one_eq_mod]

/-- Flushing takes the whole bytes off the accumulator. -/
theorem flushBytes_spec {steps : Nat} (enough : nbits < 8 * steps + 8) (bounded : acc.toNat < 2 ^ nbits) :
    ∃ bytes kept, flushBytes steps acc nbits = (bytes, kept, nbits % 8) ∧ bytes.length = nbits / 8 ∧
      kept.toNat < 2 ^ (nbits % 8) ∧ littleEndian bytes + 256 ^ bytes.length * kept.toNat = acc.toNat := by
  induction steps generalizing acc nbits with
  | zero =>
    have few : nbits < 8 := by omega
    refine ⟨[], acc, ?_, ?_, ?_, by simp⟩
    · rw [flushBytes, Nat.mod_eq_of_lt few]
    · rw [Nat.div_eq_of_lt few, length_nil]
    · rwa [Nat.mod_eq_of_lt few]
  | succ steps ih =>
    rw [flushBytes]
    split
    · rename_i few
      refine ⟨[], acc, ?_, ?_, ?_, by simp⟩
      · rw [Nat.mod_eq_of_lt few]
      · rw [Nat.div_eq_of_lt few, length_nil]
      · rwa [Nat.mod_eq_of_lt few]
    · rename_i more
      have shifted : (acc >>> 8).toNat = acc.toNat / 256 := by
        rw [BitVec.toNat_ushiftRight, Nat.shiftRight_eq_div_pow]
      have below : (acc >>> 8).toNat < 2 ^ (nbits - 8) := by
        rw [shifted, Nat.div_lt_iff_lt_mul (by decide), show 256 = 2 ^ 8 by rfl, ← pow_add]
        rwa [show nbits - 8 + 8 = nbits by omega]
      obtain ⟨bytes, kept, flushed, length, keptBelow, spells⟩ := ih (by omega) below
      have low : (UInt8.ofBitVec (acc.truncate 8)).toNat = acc.toNat % 256 := by
        show (acc.truncate 8).toNat = _
        rw [BitVec.truncate_eq_setWidth, BitVec.toNat_setWidth]
      rw [flushed]
      refine ⟨UInt8.ofBitVec (acc.truncate 8) :: bytes, kept, ?_, ?_, ?_, ?_⟩
      · rw [show (nbits - 8) % 8 = nbits % 8 by omega]
      · rw [length_cons, length]
        omega
      · rwa [show (nbits - 8) % 8 = nbits % 8 by omega] at keptBelow
      · rw [littleEndian_cons, length_cons, low, pow_succ]
        rw [shifted] at spells
        have parts := Nat.div_add_mod acc.toNat 256
        rw [← spells] at parts
        conv_rhs => rw [← parts]
        ring

/-- The numbers that values pack as, each cut to the width. -/
def packedDigits (bitWidth : Nat) (values : List UInt64) : List Nat :=
  values.map fun value => value.toNat % 2 ^ bitWidth

theorem toNat_joinAcc (few : nbits < 8) (within : bitWidth ≤ 64) (bounded : acc.toNat < 2 ^ nbits) (value : UInt64) :
    (acc ||| (value.toBitVec &&& widthMask bitWidth).zeroExtend 128 <<< nbits).toNat =
        acc.toNat + 2 ^ nbits * (value.toNat % 2 ^ bitWidth) ∧
      acc.toNat + 2 ^ nbits * (value.toNat % 2 ^ bitWidth) < 2 ^ (nbits + bitWidth) := by
  have digit : value.toNat % 2 ^ bitWidth < 2 ^ bitWidth := Nat.mod_lt _ (Nat.two_pow_pos _)
  have whole : acc.toNat + 2 ^ nbits * (value.toNat % 2 ^ bitWidth) < 2 ^ (nbits + bitWidth) := by
    have grown := Nat.mul_le_mul_left (2 ^ nbits) (show value.toNat % 2 ^ bitWidth + 1 ≤ 2 ^ bitWidth from digit)
    rw [Nat.mul_add, Nat.mul_one, ← pow_add] at grown
    omega
  have room : 2 ^ (nbits + bitWidth) ≤ 2 ^ 128 := Nat.pow_le_pow_right (by decide) (by omega)
  have small : value.toNat % 2 ^ bitWidth < 2 ^ 128 := by
    have limit := value.toNat_lt
    have below := Nat.mod_le value.toNat (2 ^ bitWidth)
    omega
  refine ⟨?_, whole⟩
  rw [BitVec.toNat_or, BitVec.toNat_shiftLeft, BitVec.toNat_setWidth, toNat_and_widthMask within, UInt64.toNat_toBitVec,
    Nat.mod_eq_of_lt small, Nat.shiftLeft_eq, Nat.mul_comm, Nat.mod_eq_of_lt (by omega), Nat.or_comm,
    ← Nat.two_pow_add_eq_or_of_lt bounded, Nat.add_comm]

/-- The packed bytes spell the values as digits above the bits that are kept. -/
theorem packLoop_spec (within : bitWidth ≤ 64) (values : List UInt64) (few : nbits < 8)
    (bounded : acc.toNat < 2 ^ nbits) : littleEndian (packLoop bitWidth values acc nbits) =
        acc.toNat + 2 ^ nbits * Nat.ofDigits (2 ^ bitWidth) (packedDigits bitWidth values) ∧
      (packLoop bitWidth values acc nbits).length = (nbits + bitWidth * values.length + 7) / 8 := by
  induction values generalizing acc nbits with
  | nil =>
    rw [packLoop]
    split
    · have room : 2 ^ nbits ≤ 2 ^ 8 := Nat.pow_le_pow_right (by decide) (by omega)
      have low : (UInt8.ofBitVec (acc.truncate 8)).toNat = acc.toNat := by
        show (acc.truncate 8).toNat = _
        rw [BitVec.truncate_eq_setWidth, BitVec.toNat_setWidth, Nat.mod_eq_of_lt (by omega)]
      refine ⟨?_, ?_⟩
      · rw [littleEndian_cons, low]
        simp [packedDigits]
      · simp only [length_cons, length_nil]
        omega
    · rename_i empty
      have zero : nbits = 0 := by omega
      subst zero
      refine ⟨?_, by simp⟩
      have accZero : acc.toNat = 0 := by simpa using bounded
      simp [packedDigits, accZero]
  | cons value values ih =>
    obtain ⟨joined, below⟩ := toNat_joinAcc few within bounded value
    rw [← joined] at below
    obtain ⟨bytes, kept, flushed, length, keptBelow, spells⟩ := flushBytes_spec (show nbits + bitWidth < 8 * 9 + 8 by omega) below
    obtain ⟨later, laterLength⟩ := ih (Nat.mod_lt _ (by decide)) keptBelow
    rw [packLoop, flushed]
    dsimp only
    refine ⟨?_, ?_⟩
    · have flushedBits : 256 ^ bytes.length * 2 ^ ((nbits + bitWidth) % 8) = 2 ^ nbits * 2 ^ bitWidth := by
        rw [length, show 256 = 2 ^ 8 by rfl, ← pow_mul, ← pow_add, Nat.div_add_mod, pow_add]
      have digits : packedDigits bitWidth (value :: values) = value.toNat % 2 ^ bitWidth :: packedDigits bitWidth values := rfl
      rw [littleEndian_append, later, digits, Nat.ofDigits_cons, Nat.mul_add, ← Nat.add_assoc, spells, joined,
        ← Nat.mul_assoc, flushedBits]
      ring
    · rw [length_append, laterLength, length, length_cons, Nat.mul_succ]
      omega

theorem littleEndian_packBits (positive : 0 < bitWidth) (within : bitWidth ≤ 64) (values : List UInt64) :
    littleEndian (packBits values bitWidth) = Nat.ofDigits (2 ^ bitWidth) (packedDigits bitWidth values) ∧
      (packBits values bitWidth).length = (values.length * bitWidth + 7) / 8 := by
  have bounded : (0#128).toNat < 2 ^ 0 := by decide
  obtain ⟨spells, length⟩ := packLoop_spec within values (by decide) bounded
  rw [packBits, if_neg (by omega), spells, length]
  refine ⟨by simp, ?_⟩
  rw [Nat.mul_comm, Nat.zero_add]

theorem packedDigit {values : List UInt64} (fits : ∀ value ∈ values, value.toNat < 2 ^ bitWidth) {value : UInt64}
    (found : values[index]? = some value) :
    Nat.ofDigits (2 ^ bitWidth) (packedDigits bitWidth values) / 2 ^ (index * bitWidth) % 2 ^ bitWidth = value.toNat := by
  have positive := Nat.two_pow_pos bitWidth
  have digits : ∀ digit ∈ packedDigits bitWidth values, digit < 2 ^ bitWidth := by
    intro digit member
    obtain ⟨other, -, rfl⟩ := mem_map.mp member
    exact Nat.mod_lt _ positive
  obtain ⟨inside, here⟩ := List.getElem?_eq_some_iff.mp found
  have small := fits value (mem_of_getElem? found)
  have rest : (packedDigits bitWidth values).drop index = value.toNat :: (packedDigits bitWidth values).drop (index + 1) := by
    rw [packedDigits, drop_eq_getElem_cons (by rw [length_map]; exact inside), getElem_map, here,
      Nat.mod_eq_of_lt small]
  rw [Nat.mul_comm, pow_mul, Nat.ofDigits_div_pow_eq_ofDigits_drop index positive _ digits, rest, Nat.ofDigits_cons,
    Nat.add_mul_mod_self_left, Nat.mod_eq_of_lt small]

/-- The wider read takes the digit of its index. -/
theorem toNat_wideOffset (within : bitWidth ≤ 64) (buf : Bytes) (index : Nat) :
    (wideOffset buf bitWidth index).toNat = littleEndian buf / 2 ^ (index * bitWidth) % 2 ^ bitWidth := by
  have nine : littleEndian ((buf.drop (index * bitWidth / 8)).take 9) < 2 ^ 128 := by
    have below := littleEndian_lt ((buf.drop (index * bitWidth / 8)).take 9)
    have short : ((buf.drop (index * bitWidth / 8)).take 9).length ≤ 9 := length_take_le _ _
    have bound : 256 ^ ((buf.drop (index * bitWidth / 8)).take 9).length ≤ 256 ^ 9 := Nat.pow_le_pow_right (by decide) short
    exact lt_of_lt_of_le below (le_trans bound (by decide))
  rw [wideOffset, toNat_and_widthMask within, BitVec.truncate_eq_setWidth, BitVec.toNat_setWidth, BitVec.toNat_ushiftRight,
    BitVec.toNat_ofNat, Nat.mod_eq_of_lt nine, Nat.shiftRight_eq_div_pow,
    Nat.mod_mod_of_dvd _ (Nat.pow_dvd_pow 2 within), littleEndian_take, littleEndian_drop, show (256 : Nat) = 2 ^ 8 by rfl,
    ← pow_mul, ← pow_mul, mod_two_pow_div_mod (by omega), Nat.div_div_eq_div_mul, ← pow_add, Nat.div_add_mod]

/-- The window takes the digit of its index, where it holds the digit whole. -/
theorem toNat_windowOffset (within : bitWidth ≤ 56) {window : BitVec 64}
    (loaded : loadWindow (buf.drop (index * bitWidth / 8)) = some window) :
    ((window >>> (index * bitWidth % 8)) &&& widthMask bitWidth).toNat =
      littleEndian buf / 2 ^ (index * bitWidth) % 2 ^ bitWidth := by
  obtain ⟨-, spells⟩ := loadWindow_some loaded
  rw [toNat_and_widthMask (by omega), BitVec.toNat_ushiftRight, spells, Nat.shiftRight_eq_div_pow, littleEndian_take,
    littleEndian_drop, show (256 : Nat) = 2 ^ 8 by rfl, ← pow_mul, ← pow_mul, mod_two_pow_div_mod (by omega),
    Nat.div_div_eq_div_mul, ← pow_add, Nat.div_add_mod]

theorem addOffset_offsetFrom {offset : BitVec 64} (same : offset.toNat = (offsetFrom base value).toNat) :
    addOffset base offset = value := by
  have offsets : UInt64.ofBitVec offset = value.toUInt64 - base.toUInt64 := UInt64.toNat_inj.mp same
  rw [addOffset, offsets, UInt64.add_comm, UInt64.sub_add_cancel]
  rfl

/-- The digits of a buffer from an index on are the offsets of values. -/
def Unpacks (buf : Bytes) (bitWidth : Nat) (base : Int64) (index : Nat) (values : List Int64) : Prop :=
  ∀ position value, values[position]? = some value →
    littleEndian buf / 2 ^ ((index + position) * bitWidth) % 2 ^ bitWidth = (offsetFrom base value).toNat

theorem Unpacks.head (digits : Unpacks buf bitWidth base index (value :: values)) :
    littleEndian buf / 2 ^ (index * bitWidth) % 2 ^ bitWidth = (offsetFrom base value).toNat :=
  digits 0 value rfl

theorem Unpacks.tail (digits : Unpacks buf bitWidth base index (value :: values)) :
    Unpacks buf bitWidth base (index + 1) values := by
  intro position other found
  rw [Nat.add_assoc, Nat.add_comm 1 position]
  exact digits (position + 1) other found

theorem unpackWide_spec (within : bitWidth ≤ 64) (digits : Unpacks buf bitWidth base index values) :
    unpackWide buf bitWidth base values.length index = values := by
  induction values generalizing index with
  | nil => rfl
  | cons value values ih =>
    have same := (toNat_wideOffset within buf index).trans digits.head
    rw [length_cons, unpackWide, addOffset_offsetFrom same, ih digits.tail]

theorem unpackWindows_spec (within : bitWidth ≤ 56) (digits : Unpacks buf bitWidth base index values) :
    unpackWindows buf bitWidth base values.length index = values := by
  induction values generalizing index with
  | nil => rfl
  | cons value values ih =>
    rw [length_cons, unpackWindows]
    cases loaded : loadWindow (buf.drop (index * bitWidth / 8)) with
    | none => exact unpackWide_spec (by omega) digits
    | some window =>
      have same := (toNat_windowOffset within loaded).trans digits.head
      dsimp only
      rw [addOffset_offsetFrom same, ih digits.tail]

theorem unpackFor_packBits (within : bitWidth ≤ 64)
    (fits : ∀ value ∈ values, (offsetFrom base value).toNat < 2 ^ bitWidth) :
    unpackFor (packBits (values.map (offsetFrom base)) bitWidth) bitWidth base values.length = values := by
  rw [unpackFor]
  split
  · rename_i zero
    subst zero
    have same : ∀ value ∈ values, value = base := by
      intro value member
      have small := fits value member
      rw [pow_zero] at small
      have offset : value.toUInt64 - base.toUInt64 = 0 := UInt64.toNat_inj.mp (by rw [← offsetFrom]; simpa using small)
      have restored := UInt64.sub_add_cancel value.toUInt64 base.toUInt64
      rw [offset, UInt64.zero_add] at restored
      exact (congrArg UInt64.toInt64 restored).symm
    exact (eq_replicate_of_mem same).symm
  · rename_i positive
    have digits : Unpacks (packBits (values.map (offsetFrom base)) bitWidth) bitWidth base 0 values := by
      intro position value found
      have offsetFits : ∀ offset ∈ values.map (offsetFrom base), offset.toNat < 2 ^ bitWidth := by
        intro offset member
        obtain ⟨other, inside, rfl⟩ := mem_map.mp member
        exact fits other inside
      rw [Nat.zero_add, (littleEndian_packBits (by omega) within _).1]
      exact packedDigit offsetFits (by rw [getElem?_map, found]; rfl)
    split
    · exact unpackWindows_spec ‹_› digits
    · exact unpackWide_spec within digits

end Ravel.Codec
