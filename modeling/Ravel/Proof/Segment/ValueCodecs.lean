import Ravel.Construction.Segment.ValueCodecs
import Ravel.Proof.Segment.TimestampPages

namespace Ravel.Segment

open List Codec Logs Library

/-- The number that the bits of the accumulator and the bytes after them spell. -/
def spelledBy (acc : BitVec 128) (nbits : Nat) (bytes : Bytes) : Nat :=
  acc.toNat + 2 ^ nbits * littleEndian bytes

variable {acc : BitVec 128} {nbits bitWidth : Nat} {bytes : Bytes} {values : List Int64}

theorem toNat_joinByte (few : nbits < 64) (bounded : acc.toNat < 2 ^ nbits) (byte : UInt8) :
    (acc ||| byte.toBitVec.zeroExtend 128 <<< nbits).toNat = acc.toNat + 2 ^ nbits * byte.toNat ∧
      acc.toNat + 2 ^ nbits * byte.toNat < 2 ^ (nbits + 8) := by
  have small : byte.toNat < 2 ^ 8 := byte.toNat_lt
  have whole : acc.toNat + 2 ^ nbits * byte.toNat < 2 ^ (nbits + 8) := by
    have grown := Nat.mul_le_mul_left (2 ^ nbits) (show byte.toNat + 1 ≤ 2 ^ 8 from small)
    rw [Nat.mul_add, Nat.mul_one, ← pow_add] at grown
    omega
  have room : 2 ^ (nbits + 8) ≤ 2 ^ 128 := Nat.pow_le_pow_right (by decide) (by omega)
  refine ⟨?_, whole⟩
  rw [BitVec.toNat_or, BitVec.toNat_shiftLeft, BitVec.toNat_setWidth, UInt8.toNat_toBitVec,
    Nat.mod_eq_of_lt (by omega : byte.toNat < 2 ^ 128), Nat.shiftLeft_eq, Nat.mul_comm,
    Nat.mod_eq_of_lt (by omega), Nat.or_comm, ← Nat.two_pow_add_eq_or_of_lt bounded, Nat.add_comm]

/-- What filling the accumulator leaves: a value's bits at least, and the same number spelled. -/
structure Filled (bitWidth : Nat) (acc : BitVec 128) (nbits : Nat) (bytes : Bytes) (filled : BitVec 128 × Nat × Bytes) : Prop where
  enough : bitWidth ≤ filled.2.1
  bounded : filled.1.toNat < 2 ^ filled.2.1
  spelled : spelledBy filled.1 filled.2.1 filled.2.2 = spelledBy acc nbits bytes
  bits : filled.2.1 + 8 * filled.2.2.length = nbits + 8 * bytes.length

theorem refill_spec {steps : Nat} (within : bitWidth ≤ 64) (reaches : bitWidth ≤ nbits + 8 * steps)
    (bounded : acc.toNat < 2 ^ nbits) (held : bitWidth ≤ nbits + 8 * bytes.length) :
    Filled bitWidth acc nbits bytes (refill bitWidth steps acc nbits bytes) := by
  induction steps generalizing acc nbits bytes with
  | zero =>
    unfold refill
    exact ⟨reaches, bounded, rfl, rfl⟩
  | succ steps ih =>
    unfold refill
    split
    · rename_i short
      cases bytes with
      | nil =>
        rw [length_nil] at held
        omega
      | cons byte rest =>
        obtain ⟨joined, below⟩ := toNat_joinByte (by omega) bounded byte
        rw [← joined] at below
        rw [length_cons] at held
        have later := ih (by omega) below (show bitWidth ≤ nbits + 8 + 8 * rest.length by omega)
        have same : spelledBy (acc ||| byte.toBitVec.zeroExtend 128 <<< nbits) (nbits + 8) rest =
            spelledBy acc nbits (byte :: rest) := by
          rw [spelledBy, spelledBy, joined, littleEndian_cons, pow_add]
          ring
        refine ⟨later.enough, later.bounded, later.spelled.trans same, later.bits.trans ?_⟩
        rw [length_cons]
        omega
    · rename_i enough
      exact ⟨Nat.le_of_not_lt enough, bounded, rfl, rfl⟩

/-- A filled accumulator holds the lowest digit, and the digits above it once shifted. -/
theorem Filled.digit {filled : BitVec 128 × Nat × Bytes} (isFilled : Filled bitWidth acc nbits bytes filled) :
    filled.1.toNat % 2 ^ bitWidth = spelledBy acc nbits bytes % 2 ^ bitWidth ∧
      spelledBy (filled.1 >>> bitWidth) (filled.2.1 - bitWidth) filled.2.2 = spelledBy acc nbits bytes / 2 ^ bitWidth := by
  have positive := Nat.two_pow_pos bitWidth
  have split : 2 ^ filled.2.1 = 2 ^ bitWidth * 2 ^ (filled.2.1 - bitWidth) := by
    rw [← pow_add, Nat.add_sub_cancel' isFilled.enough]
  rw [← isFilled.spelled, spelledBy, spelledBy, split, Nat.mul_assoc]
  refine ⟨(Nat.add_mul_mod_self_left _ _ _).symm, ?_⟩
  rw [Nat.add_mul_div_left _ _ positive, BitVec.toNat_ushiftRight, Nat.shiftRight_eq_div_pow]

/-- The loop takes the digits off one by one. -/
theorem unpackLoop_spec (within : bitWidth ≤ 64) {base : Int64}
    (fits : ∀ value ∈ values, (offsetFrom base value).toNat < 2 ^ bitWidth) (bounded : acc.toNat < 2 ^ nbits)
    (enough : values.length * bitWidth ≤ nbits + 8 * bytes.length)
    (spelled : spelledBy acc nbits bytes = Nat.ofDigits (2 ^ bitWidth) (packedDigits bitWidth (values.map (offsetFrom base)))) :
    unpackLoop bitWidth base values.length acc nbits bytes = values := by
  induction values generalizing acc nbits bytes with
  | nil => rfl
  | cons value values ih =>
    have positive := Nat.two_pow_pos bitWidth
    have small := fits value mem_cons_self
    rw [length_cons, Nat.succ_mul] at enough
    have isFilled := refill_spec within (show bitWidth ≤ nbits + 8 * 8 by omega) bounded
      (show bitWidth ≤ nbits + 8 * bytes.length by omega)
    rw [length_cons, unpackLoop]
    generalize refill bitWidth 8 acc nbits bytes = filled at isFilled
    obtain ⟨word, held, rest⟩ := filled
    obtain ⟨digit, above⟩ := isFilled.digit
    have digits : packedDigits bitWidth ((value :: values).map (offsetFrom base)) =
        (offsetFrom base value).toNat % 2 ^ bitWidth :: packedDigits bitWidth (values.map (offsetFrom base)) := rfl
    rw [digits, Nat.ofDigits_cons, Nat.mod_eq_of_lt small] at spelled
    have isOffset : (word.truncate 64 &&& widthMask bitWidth).toNat = (offsetFrom base value).toNat := by
      rw [toNat_and_widthMask within, BitVec.truncate_eq_setWidth, BitVec.toNat_setWidth,
        Nat.mod_mod_of_dvd _ (Nat.pow_dvd_pow 2 within), digit, spelled, Nat.add_mul_mod_self_left, Nat.mod_eq_of_lt small]
    have shifted : (word >>> bitWidth).toNat < 2 ^ (held - bitWidth) := by
      have below := isFilled.bounded
      have reached := isFilled.enough
      dsimp only at below reached
      rw [BitVec.toNat_ushiftRight, Nat.shiftRight_eq_div_pow, Nat.div_lt_iff_lt_mul positive, ← pow_add,
        Nat.sub_add_cancel reached]
      exact below
    have bits := isFilled.bits
    have reached := isFilled.enough
    dsimp only at bits reached
    dsimp only
    rw [addOffset_offsetFrom isOffset]
    congr 1
    apply ih (fun other member => fits other (mem_cons_of_mem _ member)) shifted (by omega)
    rw [above, spelled, Nat.add_mul_div_left _ _ positive, Nat.div_eq_of_lt small, Nat.zero_add]

instance lawfulMaxUInt64 : Std.LawfulOrderLeftLeaningMax UInt64 where
  max_eq_left left right below := by
    show (if left ≤ right then right else left) = left
    split
    · rename_i above
      exact UInt64.le_antisymm below above
    · rfl
  max_eq_right left right notBelow := by
    show (if left ≤ right then right else left) = right
    rw [if_pos (UInt64.le_of_lt (UInt64.not_le.mp notBelow))]

theorem le_maxOffset {offsets : List UInt64} {offset : UInt64} (member : offset ∈ offsets) : offset ≤ maxOffset offsets := by
  cases greatest : offsets.max? with
  | none =>
    rw [max?_eq_none_iff] at greatest
    rw [greatest] at member
    cases member
  | some found =>
    rw [maxOffset, greatest]
    exact (max?_eq_some_iff.mp greatest).2 offset member

/-- Every offset fits the width of the greatest. -/
theorem offset_lt_maxWidth {base value : Int64} (member : value ∈ values) :
    (offsetFrom base value).toNat < 2 ^ widthFor (maxOffset (values.map (offsetFrom base))) := by
  have listed : offsetFrom base value ∈ values.map (offsetFrom base) := mem_map_of_mem member
  exact lt_of_le_of_lt (UInt64.le_iff_toNat_le.mp (le_maxOffset listed)) (lt_two_pow_widthFor _)

/-- A frame of reference is read back, and the bytes after it are left. -/
theorem forUnpack_forPack (short : values.length * 64 < 2 ^ 64) (rest : Bytes) :
    forUnpack (forPack values ++ rest) values.length = .ok (values, rest) := by
  rw [forPack, forUnpack, append_assoc, readZigzagVarint_put]
  dsimp only [bind, Except.bind, cons_append]
  have fits : ∀ value ∈ values, (offsetFrom (minI64 values) value).toNat <
      2 ^ widthFor (maxOffset (values.map (offsetFrom (minI64 values)))) := fun value member => offset_lt_maxWidth member
  have within := widthFor_le (maxOffset (values.map (offsetFrom (minI64 values))))
  generalize widthFor (maxOffset (values.map (offsetFrom (minI64 values)))) = bitWidth at fits within
  generalize minI64 values = base at fits
  have stored : (UInt8.ofNat bitWidth).toNat = bitWidth := by
    rw [UInt8.toNat_ofNat', Nat.mod_eq_of_lt (by omega)]
  rw [stored, if_neg (by omega)]
  split
  · rename_i zero
    subst zero
    have unpacked := unpackFor_packBits (Nat.zero_le 64) fits
    rw [unpackFor, if_pos rfl] at unpacked
    rw [unpacked, packBits, if_pos rfl]
    rfl
  · rename_i nonzero
    obtain ⟨spells, length⟩ := littleEndian_packBits (by omega) within (values.map (offsetFrom base))
    rw [length_map] at length
    have bits : values.length * bitWidth ≤ values.length * 64 := Nat.mul_le_mul_left _ within
    rw [if_neg (by omega), ← length, if_neg (by rw [length_append]; omega), take_left, drop_left]
    have unpacked : unpackLoop bitWidth base values.length 0#128 0 (packBits (values.map (offsetFrom base)) bitWidth) = values := by
      apply unpackLoop_spec within fits
      · decide
      · omega
      · rw [spelledBy, spells]
        simp
    rw [unpacked]
    rfl

section Digits

variable {steps : DecimalSteps}

variable {exponent : Nat} {values : List Pattern} {digits : List Int64} (value : Pattern)

theorem reconstruct_of_digitFor {value : Pattern} {digit : Int64} (fits : digitFor steps value exponent = some digit) :
    steps.reconstruct digit exponent = value := by
  rw [digitFor] at fits
  split at fits
  · cases fits
  · split at fits
    · rename_i same
      cases fits
      exact same
    · cases fits

theorem bestExponentLoop_le {remaining : Nat} {best : Nat × Nat} (within : exponent + remaining ≤ maxDecimalExp + 1)
    (bounded : best.1 ≤ maxDecimalExp) : (bestExponentLoop steps values remaining exponent best).1 ≤ maxDecimalExp := by
  induction remaining generalizing exponent best with
  | zero => exact bounded
  | succ remaining ih =>
    rw [bestExponentLoop]
    split
    · split
      · show exponent ≤ maxDecimalExp
        omega
      · apply ih (by omega)
        show exponent ≤ maxDecimalExp
        omega
    · exact ih (by omega) bounded

theorem bestExponent_le (values : List Pattern) : (bestExponent steps values).1 ≤ maxDecimalExp :=
  bestExponentLoop_le (Nat.le_of_eq (Nat.zero_add _)) (Nat.zero_le _)

theorem map_reconstruct_of_mapM (fits : values.mapM (fun value => digitFor steps value exponent) = some digits) :
    (digits.map fun digit => steps.reconstruct digit exponent) = values := by
  induction values generalizing digits with
  | nil =>
    cases fits
    rfl
  | cons value values ih =>
    rw [mapM_cons, Option.bind_eq_bind, Option.bind_eq_some_iff] at fits
    obtain ⟨digit, isDigit, fits⟩ := fits
    rw [Option.bind_eq_bind, Option.bind_eq_some_iff] at fits
    obtain ⟨later, areLater, isDigits⟩ := fits
    cases isDigits
    rw [map_cons, reconstruct_of_digitFor isDigit, ih areLater]

theorem modelDigitsLoop_spec {remaining : Nat} {found : Nat} (within : exponent + remaining ≤ maxDecimalExp + 1)
    (modelled : modelDigitsLoop steps values remaining exponent = some (found, digits)) :
    found ≤ maxDecimalExp ∧ (digits.map fun digit => steps.reconstruct digit found) = values := by
  induction remaining generalizing exponent with
  | zero => cases modelled
  | succ remaining ih =>
    rw [modelDigitsLoop] at modelled
    split at modelled
    · rename_i fits
      cases modelled
      exact ⟨by omega, map_reconstruct_of_mapM fits⟩
    · exact ih (by omega) modelled

theorem length_patternBytes : (patternBytes value).length = 8 := by
  simp [patternBytes, toLeBytes]

theorem littleEndian64_patternBytes : (littleEndian64 (patternBytes value)).toBitVec = value := by
  rw [patternBytes, littleEndian64_toLeBytes]

theorem toNat_ofNat_of_lt {number : Nat} (within : number < 2 ^ 64) : (UInt64.ofNat number).toNat = number := by
  rw [UInt64.toNat_ofNat', Nat.mod_eq_of_lt within]

/-- The stored form of exceptions. -/
def exceptionBytes (exceptions : List (Nat × Pattern)) : Bytes :=
  exceptions.flatMap fun exception => putUvarint (UInt64.ofNat exception.1) ++ patternBytes exception.2

theorem length_splitExceptions (exponent index : Nat) (values : List Pattern) :
    (splitExceptions steps exponent index values).1.length = values.length ∧
      (splitExceptions steps exponent index values).2.length ≤ values.length := by
  induction values generalizing index with
  | nil => exact ⟨rfl, Nat.le_refl 0⟩
  | cons value values ih =>
    obtain ⟨digits, exceptions⟩ := ih (index + 1)
    rw [splitExceptions]
    dsimp only
    split
    · simp only [length_cons]
      omega
    · simp only [length_cons]
      omega

/-- Exceptions overwrite the placeholders, and the values with a digit are kept. -/
theorem patchExceptions_split (exponent : Nat) (values done : List Pattern) (within : done.length + values.length < 2 ^ 64)
    (rest : Bytes) :
    patchExceptions (splitExceptions steps exponent done.length values).2.length
        (exceptionBytes (splitExceptions steps exponent done.length values).2 ++ rest)
        (done ++ (splitExceptions steps exponent done.length values).1.map fun digit => steps.reconstruct digit exponent) =
      .ok (done ++ values, rest) := by
  induction values generalizing done with
  | nil => rfl
  | cons value values ih =>
    rw [length_cons] at within
    have later := ih (done ++ [value]) (by rw [length_append, length_singleton]; omega)
    rw [length_append, length_singleton] at later
    simp only [append_assoc, singleton_append] at later
    rw [splitExceptions]
    dsimp only
    cases found : digitFor steps value exponent with
    | some digit =>
      dsimp only
      rw [map_cons, reconstruct_of_digitFor found]
      exact later
    | none =>
      dsimp only
      have index := toNat_ofNat_of_lt (show done.length < 2 ^ 64 by omega)
      rw [length_cons, exceptionBytes, flatMap_cons, append_assoc, append_assoc, patchExceptions,
        readUvarint_put]
      dsimp only [bind, Except.bind]
      rw [if_neg (by rw [length_append, length_patternBytes]; omega), index,
        if_neg (by rw [length_append, length_map, length_cons]; omega),
        drop_left' (length_patternBytes value), take_left' (length_patternBytes value),
        littleEndian64_patternBytes, map_cons, set_append_right _ _ (Nat.le_refl _), Nat.sub_self,
        set_cons_zero]
      exact later

/-- A page of digits and exceptions is read back. -/
theorem decodeAlp_encodeAlp (short : values.length * 64 < 2 ^ 64) :
    decodeAlp steps (encodeAlp steps values) values.length = .ok values := by
  cases values with
  | nil => rfl
  | cons first others =>
    have bounded : (bestExponent steps (first :: others)).1 ≤ maxDecimalExp := bestExponent_le (first :: others)
    rw [encodeAlp, if_neg (by simp)]
    unfold decodeAlp
    rw [if_neg (by simp)]
    dsimp only [cons_append]
    generalize first :: others = values at *
    generalize (bestExponent steps values).1 = exponent at *
    obtain ⟨length, few⟩ : (splitExceptions steps exponent 0 values).1.length = values.length ∧
        (splitExceptions steps exponent 0 values).2.length ≤ values.length := length_splitExceptions exponent 0 values
    have patched : patchExceptions (splitExceptions steps exponent 0 values).2.length
        (exceptionBytes (splitExceptions steps exponent 0 values).2 ++ [])
        ((splitExceptions steps exponent 0 values).1.map fun digit => steps.reconstruct digit exponent) = .ok (values, []) :=
      patchExceptions_split exponent values [] (by rw [length_nil]; omega) []
    rw [append_nil] at patched
    generalize splitExceptions steps exponent 0 values = split at *
    obtain ⟨digits, exceptions⟩ := split
    dsimp only at length few patched ⊢
    have decoded := decodeI64_encodeI64 (show digits.length * 64 < 2 ^ 64 by omega)
    have encodedLength := length_encodeI64_le digits
    have stored : (UInt8.ofNat exponent).toNat = exponent := by
      rw [maxDecimalExp] at bounded
      rw [UInt8.toNat_ofNat', Nat.mod_eq_of_lt (by omega)]
    rw [stored, if_neg (by omega), fromU8_toU8]
    dsimp only
    rw [append_assoc, append_assoc, readUvarint_put]
    dsimp only [bind, Except.bind]
    rw [toNat_ofNat_of_lt (show (encodeI64 digits).2.length < 2 ^ 64 by omega),
      if_neg (by rw [length_append]; omega), take_left, drop_left, ← length, decoded]
    dsimp only
    rw [if_neg (by simp), readUvarint_put]
    dsimp only
    rw [toNat_ofNat_of_lt (show exceptions.length < 2 ^ 64 by omega)]
    rw [exceptionBytes] at patched
    rw [patched]
    rfl

end Digits

/-- The folded divisor stays a magnitude of the machine and divides every delta. -/
theorem foldl_gcd_spec (deltas : List Int64) {start : Nat} (bounded : start ≤ 2 ^ 63) :
    deltas.foldl (fun divisor delta => Nat.gcd divisor delta.toInt.natAbs) start ≤ 2 ^ 63 ∧
      deltas.foldl (fun divisor delta => Nat.gcd divisor delta.toInt.natAbs) start ∣ start ∧
      ∀ delta ∈ deltas, deltas.foldl (fun divisor delta => Nat.gcd divisor delta.toInt.natAbs) start ∣ delta.toInt.natAbs := by
  induction deltas generalizing start with
  | nil => exact ⟨bounded, dvd_refl _, fun _ absurd => (by cases absurd)⟩
  | cons delta deltas ih =>
    have step : Nat.gcd start delta.toInt.natAbs ≤ 2 ^ 63 := by
      rcases Nat.eq_zero_or_pos start with zero | positive
      · rw [zero, Nat.gcd_zero_left]
        exact natAbs_le delta
      · exact (Nat.gcd_le_left _ positive).trans bounded
    obtain ⟨within, divides, others⟩ := ih step
    rw [foldl_cons]
    refine ⟨within, divides.trans (Nat.gcd_dvd_left _ _), ?_⟩
    intro other member
    rcases mem_cons.mp member with rfl | later
    · exact divides.trans (Nat.gcd_dvd_right _ _)
    · exact others other later

/-- The divisor of deltas is a positive magnitude of the machine that divides them all. -/
theorem deltasGcd_spec (deltas : List Int64) :
    1 ≤ deltasGcd deltas ∧ deltasGcd deltas ≤ 2 ^ 63 ∧ ∀ delta ∈ deltas, deltasGcd deltas ∣ delta.toInt.natAbs := by
  obtain ⟨within, -, divides⟩ := foldl_gcd_spec deltas (Nat.zero_le (2 ^ 63))
  rw [deltasGcd]
  refine ⟨Nat.le_max_right _ _, by omega, ?_⟩
  intro delta member
  have own := divides delta member
  -- Deltas that are all zero have the divisor one.
  rcases Nat.eq_zero_or_pos (deltas.foldl (fun divisor delta => Nat.gcd divisor delta.toInt.natAbs) 0) with zero | positive
  · rw [zero, zero_dvd_iff] at own
    rw [own]
    exact dvd_zero _
  · rwa [Nat.max_eq_left positive]

/-- A magnitude is not taken for minus one. -/
theorem ofNat_ne_negOne {magnitude : Nat} (within : magnitude ≤ 2 ^ 63) : Int64.ofNat magnitude ≠ -1 := by
  intro same
  have one : magnitude = 1 := by
    rw [← natAbs_ofNat within, same]
    rfl
  rw [one] at same
  exact absurd same (by decide)

/-- A multiple of a divisor other than minus one comes back from its quotient. -/
theorem checkedMul_quotient {divisor delta : Int64} (notNegOne : divisor ≠ -1) (divides : divisor.toInt ∣ delta.toInt) :
    checkedMul (delta / divisor) divisor = some delta := by
  rw [checkedMul, ofIntChecked_eq_some, Int64.toInt_div_of_ne_right _ _ notNegOne, Int.tdiv_mul_cancel divides]

/-- Scaled deltas sum to the digits. -/
theorem accumulate_quotients {divisor : Int64} (notNegOne : divisor ≠ -1) {first : Int64} {rest deltas : List Int64}
    (checked : checkedDeltas (first :: rest) = some deltas) (divides : ∀ delta ∈ deltas, divisor.toInt ∣ delta.toInt) :
    accumulate divisor first (deltas.map fun delta => delta / divisor) = .ok rest := by
  induction rest generalizing first deltas with
  | nil =>
    cases checked
    rfl
  | cons second rest ih =>
    rw [checkedDeltas, Option.bind_eq_bind, Option.bind_eq_some_iff] at checked
    obtain ⟨delta, isDelta, checked⟩ := checked
    rw [Option.bind_eq_bind, Option.bind_eq_some_iff] at checked
    obtain ⟨later, isLater, isDeltas⟩ := checked
    cases isDeltas
    have summed := ih isLater fun other member => divides other (mem_cons_of_mem _ member)
    rw [map_cons, accumulate, checkedMul_quotient notNegOne (divides delta mem_cons_self)]
    dsimp only
    rw [checkedAdd_of_checkedSub isDelta]
    dsimp only
    rw [summed]
    rfl

theorem rawPatterns_flatMap (values : List Pattern) : rawPatterns values.length (values.flatMap patternBytes) = values := by
  induction values with
  | nil => rfl
  | cons value values ih =>
    rw [length_cons, rawPatterns, flatMap_cons, take_left' (length_patternBytes value),
      drop_left' (length_patternBytes value), littleEndian64_patternBytes, ih]

theorem length_rawPatterns (values : List Pattern) : (values.flatMap patternBytes).length = values.length * 8 := by
  induction values with
  | nil => rfl
  | cons value values ih =>
    rw [flatMap_cons, length_append, length_patternBytes, ih, length_cons]
    omega

/-- A page of scaled deltas is read back. -/
theorem decodeGcdDeltaFor_modelled {steps : DecimalSteps} {values : List Pattern} {page : Bytes} (nonempty : values ≠ [])
    (short : values.length * 64 < 2 ^ 64) (modelled : encodeModelled steps values = some page) :
    decodeGcdDeltaFor steps page values.length = .ok values := by
  rw [encodeModelled, Option.bind_eq_bind, Option.bind_eq_some_iff] at modelled
  obtain ⟨⟨exponent, digits⟩, isModel, modelled⟩ := modelled
  rw [Option.bind_eq_bind, Option.bind_eq_some_iff] at modelled
  obtain ⟨deltas, checked, isPage⟩ := modelled
  cases isPage
  obtain ⟨bounded, reconstructs⟩ := modelDigitsLoop_spec (Nat.le_of_eq (Nat.zero_add _)) isModel
  obtain ⟨first, rest, rfl⟩ : ∃ first rest, digits = first :: rest := by
    apply exists_cons_of_ne_nil
    rintro rfl
    exact nonempty reconstructs.symm
  have length : rest.length + 1 = values.length := by
    rw [← reconstructs, length_map, length_cons]
  have deltasLength := checkedDeltas_length checked
  obtain ⟨positive, within, divides⟩ := deltasGcd_spec deltas
  have magnitude := natAbs_ofNat within
  have summed := accumulate_quotients (ofNat_ne_negOne within) checked fun delta member => by
    rw [← Int.natAbs_dvd_natAbs, magnitude]
    exact divides delta member
  have nonzero : UInt64.ofNat (deltasGcd deltas) ≠ 0 := by
    intro zero
    have kept := toNat_ofNat_of_lt (show deltasGcd deltas < 2 ^ 64 by omega)
    rw [zero] at kept
    have absurd : 0 = deltasGcd deltas := kept
    omega
  have stored : (UInt8.ofNat exponent).toNat = exponent := by
    rw [maxDecimalExp] at bounded
    rw [UInt8.toNat_ofNat', Nat.mod_eq_of_lt (by omega)]
  have unpacked := forUnpack_forPack (show (deltas.map fun delta => delta / Int64.ofNat (deltasGcd deltas)).length * 64 < 2 ^ 64 by
    rw [length_map]
    omega) []
  rw [length_map, deltasLength, append_nil] at unpacked
  unfold decodeGcdDeltaFor
  rw [if_neg (by omega)]
  dsimp only [cons_append]
  rw [if_neg (by decide), if_pos rfl, stored, if_neg (by omega), append_assoc, readZigzagVarint_put]
  dsimp only [bind, Except.bind]
  rw [readUvarint_put]
  dsimp only
  rw [if_neg nonzero, show values.length - 1 = rest.length by omega, unpacked]
  dsimp only
  rw [if_neg (by simp)]
  have divisor : (UInt64.ofNat (deltasGcd deltas)).toInt64 = Int64.ofNat (deltasGcd deltas) := by
    simp
  rw [divisor, headD_cons, summed]
  dsimp only
  rw [reconstructs]
  rfl

/-- A page of deltas over their divisor, or of raw patterns, is read back. -/
theorem decodeGcdDeltaFor_encode {steps : DecimalSteps} {values : List Pattern} (short : values.length * 64 < 2 ^ 64) :
    decodeGcdDeltaFor steps (encodeGcdDeltaFor steps values) values.length = .ok values := by
  rw [encodeGcdDeltaFor]
  split
  · rename_i empty
    rw [List.isEmpty_iff] at empty
    rw [empty]
    rfl
  · rename_i occupied
    have nonempty : values ≠ [] := fun empty => occupied (by rw [empty]; rfl)
    have positive := length_pos_iff.mpr nonempty
    cases modelled : encodeModelled steps values with
    | some page => exact decodeGcdDeltaFor_modelled nonempty short modelled
    | none =>
      unfold decodeGcdDeltaFor
      rw [if_neg (by omega), Option.getD_none]
      dsimp only
      rw [if_pos rfl, if_neg (by omega), if_neg (by rw [length_rawPatterns]; simp), rawPatterns_flatMap]

/-- Value pages of decimal digits. Whatever the values, the page of digits and exceptions and the page of deltas over their divisor
give the bits of the values back, as long as the bits of a page are counted in a machine word. -/
theorem value_pages_read_back (steps : DecimalSteps) (values : List Pattern) (short : values.length * 64 < 2 ^ 64) :
    decodeAlp steps (encodeAlp steps values) values.length = .ok values ∧
      decodeGcdDeltaFor steps (encodeGcdDeltaFor steps values) values.length = .ok values :=
  ⟨decodeAlp_encodeAlp short, decodeGcdDeltaFor_encode short⟩

/-- The floating-point patterns of small whole numbers. -/
def wholePatterns : List (Pattern × Nat) :=
  [(0, 0), (0x3ff0000000000000, 1), (0x4000000000000000, 2), (0x4008000000000000, 3), (0x4014000000000000, 5)]

/-- Floating-point steps on small whole numbers. -/
def wholeSteps : DecimalSteps where
  scaledDigit value exponent :=
    (wholePatterns.find? fun whole => whole.1 = value).map fun whole => Int64.ofNat (whole.2 * 10 ^ exponent)
  reconstruct digit exponent :=
    ((wholePatterns.find? fun whole => (whole.2 * 10 ^ exponent : Int) = digit.toInt).map Prod.fst).getD 0

/-- The page of one, two, not a number and five: one exception at the third position. -/
theorem value_pages_read_back_exception :
    encodeAlp wholeSteps [0x3ff0000000000000, 0x4000000000000000, 0x7ff8000000000000, 0x4014000000000000] =
        [0, 1, 4, 2, 4, 0, 10, 1, 2, 0, 0, 0, 0, 0, 0, 0xf8, 0x7f] ∧
      decodeAlp wholeSteps [0, 1, 4, 2, 4, 0, 10, 1, 2, 0, 0, 0, 0, 0, 0, 0xf8, 0x7f] 4 =
        .ok [0x3ff0000000000000, 0x4000000000000000, 0x7ff8000000000000, 0x4014000000000000] := by
  have encoded : encodeAlp wholeSteps [0x3ff0000000000000, 0x4000000000000000, 0x7ff8000000000000, 0x4014000000000000] =
      [0, 1, 4, 2, 4, 0, 10, 1, 2, 0, 0, 0, 0, 0, 0, 0xf8, 0x7f] := by decide +kernel
  refine ⟨encoded, ?_⟩
  rw [← encoded]
  exact (value_pages_read_back wholeSteps
    [0x3ff0000000000000, 0x4000000000000000, 0x7ff8000000000000, 0x4014000000000000] (by decide)).1

end Ravel.Segment
