import Ravel.Construction.Codec.PackedValues
import Ravel.Proof.Codec.PackedBits

namespace Ravel.Codec

open List Logs Library

/-- The digit at an index of the number that bytes spell. -/
def storedDigit (buf : Bytes) (bitWidth index : Nat) : Nat :=
  littleEndian buf / 2 ^ (index * bitWidth) % 2 ^ bitWidth

variable {bitWidth : Nat} {buf : Bytes} {byte : UInt8} {passed nbits idx : Nat} {acc : BitVec 128}

theorem storedDigit_lt (buf : Bytes) (within : bitWidth ≤ 64) (index : Nat) : storedDigit buf bitWidth index < 2 ^ 64 :=
  lt_of_lt_of_le (Nat.mod_lt _ (Nat.two_pow_pos _)) (Nat.pow_le_pow_right (by decide) within)

theorem byte_littleEndian {index : Nat} (found : buf[index]? = some byte) :
    littleEndian buf / 2 ^ (8 * index) % 2 ^ 8 = byte.toNat := by
  obtain ⟨inside, here⟩ := List.getElem?_eq_some_iff.mp found
  have bound := byte.toNat_lt
  rw [pow_mul, show (2 ^ 8 : Nat) = 256 by rfl, ← littleEndian_drop, drop_eq_getElem_cons inside, here, littleEndian_cons]
  omega

/-- The accumulator holds the bits after those that are passed, up to the byte that is read next. -/
structure Accumulated (buf : Bytes) (passed : Nat) (acc : BitVec 128) (nbits idx : Nat) : Prop where
  bits : acc.toNat = littleEndian buf / 2 ^ passed % 2 ^ nbits
  next : 8 * idx = passed + nbits

theorem Accumulated.step (held : Accumulated buf passed acc nbits idx) (room : nbits < 64)
    (found : buf[idx]? = some byte) :
    Accumulated buf passed (acc ||| byte.toBitVec.zeroExtend 128 <<< nbits) (nbits + 8) (idx + 1) := by
  have below : acc.toNat < 2 ^ nbits := by
    rw [held.bits]
    exact Nat.mod_lt _ (Nat.two_pow_pos _)
  have digit : littleEndian buf / 2 ^ passed / 2 ^ nbits % 2 ^ 8 = byte.toNat := by
    rw [Nat.div_div_eq_div_mul, ← pow_add, ← held.next]
    exact byte_littleEndian found
  have shifted : (byte.toBitVec.zeroExtend 128 <<< nbits).toNat = 2 ^ nbits * byte.toNat := by
    have small : byte.toNat * 2 ^ nbits < 2 ^ 128 := by
      calc byte.toNat * 2 ^ nbits < 2 ^ 8 * 2 ^ nbits := Nat.mul_lt_mul_of_pos_right byte.toNat_lt (Nat.two_pow_pos _)
        _ = 2 ^ (8 + nbits) := (pow_add 2 8 nbits).symm
        _ ≤ 2 ^ 128 := Nat.pow_le_pow_right (by decide) (by omega)
    have whole : (byte.toBitVec.zeroExtend 128).toNat = byte.toNat := by
      have bound := byte.toNat_lt
      rw [BitVec.zeroExtend_eq_setWidth, BitVec.toNat_setWidth]
      exact Nat.mod_eq_of_lt (by omega)
    rw [BitVec.toNat_shiftLeft, whole, Nat.shiftLeft_eq, Nat.mod_eq_of_lt small, Nat.mul_comm]
  constructor
  · rw [BitVec.toNat_or, shifted, Nat.or_comm, ← Nat.two_pow_add_eq_or_of_lt below, held.bits, pow_add, Nat.mod_mul, digit,
      Nat.add_comm]
  · rw [← Nat.add_assoc, ← held.next]
    omega

/-- Filling reads inside the buffer until a value is held. -/
theorem fillBits_spec (slice : buf.length < 2 ^ 64) (within : bitWidth ≤ 64)
    (stored : passed + bitWidth ≤ 8 * buf.length) (steps : Nat) (held : Accumulated buf passed acc nbits idx)
    (few : nbits < bitWidth + 8) (enough : bitWidth ≤ nbits + 8 * steps) :
    ∃ filled kept next, fillBits buf bitWidth steps acc nbits idx = .ok (filled, kept, next) ∧
      Accumulated buf passed filled kept next ∧ bitWidth ≤ kept ∧ kept < bitWidth + 8 := by
  induction steps generalizing acc nbits idx with
  | zero => exact ⟨acc, nbits, idx, rfl, held, by omega, few⟩
  | succ steps ih =>
    rw [fillBits]
    by_cases lacking : nbits < bitWidth
    · have next := held.next
      have inside : idx < buf.length := by omega
      have found : buf[idx]? = some buf[idx] := getElem?_eq_getElem inside
      have read : byteAt buf idx = .ok buf[idx] := by rw [byteAt, found]
      have added : addUsize idx 1 = .ok (idx + 1) := by rw [addUsize, if_pos (by omega)]
      rw [if_pos lacking, read]
      dsimp only [bind, Except.bind]
      rw [added]
      exact ih (held.step (by omega) found) (by omega) (by omega)
    · rw [if_neg lacking]
      exact ⟨acc, nbits, idx, rfl, held, by omega, few⟩

/-- What is left of the accumulator after a value. -/
theorem Accumulated.shift (held : Accumulated buf passed acc nbits idx) (enough : bitWidth ≤ nbits) :
    Accumulated buf (passed + bitWidth) (acc >>> bitWidth) (nbits - bitWidth) idx := by
  have next := held.next
  obtain ⟨left, rfl⟩ : ∃ left, nbits = bitWidth + left := ⟨nbits - bitWidth, by omega⟩
  constructor
  · rw [BitVec.toNat_ushiftRight, held.bits, Nat.shiftRight_eq_div_pow, pow_add 2 bitWidth left, Nat.mod_mul_right_div_self,
      Nat.div_div_eq_div_mul, ← pow_add, Nat.add_sub_cancel_left]
  · omega

theorem unpackLoop_spec (slice : buf.length < 2 ^ 64) (within : bitWidth ≤ 64) (wanted index : Nat)
    (stored : (index + wanted) * bitWidth ≤ 8 * buf.length) (held : Accumulated buf (index * bitWidth) acc nbits idx)
    (few : nbits < 8) : unpackLoop buf bitWidth wanted acc nbits idx =
      .ok ((List.range' index wanted).map fun position => UInt64.ofNat (storedDigit buf bitWidth position)) := by
  induction wanted generalizing index acc nbits idx with
  | zero => rfl
  | succ wanted ih =>
    have here : index * bitWidth + bitWidth ≤ 8 * buf.length := by
      have upTo : (index + 1) * bitWidth ≤ (index + (wanted + 1)) * bitWidth := Nat.mul_le_mul_right _ (by omega)
      rw [Nat.succ_mul] at upTo
      omega
    obtain ⟨filled, kept, next, isFilled, accumulated, enough, bounded⟩ :=
      fillBits_spec slice within here 8 held (by omega) (by omega)
    have after := accumulated.shift enough
    rw [← Nat.succ_mul] at after
    have later := ih (index + 1) (by rwa [Nat.add_right_comm, Nat.add_assoc index wanted 1]) after (by omega)
    have digit : UInt64.ofBitVec (filled.truncate 64 &&& widthMask bitWidth) = UInt64.ofNat (storedDigit buf bitWidth index) := by
      apply UInt64.toNat_inj.mp
      rw [UInt64.toNat_ofNat', Nat.mod_eq_of_lt (storedDigit_lt buf within index), storedDigit]
      show (filled.truncate 64 &&& widthMask bitWidth).toNat = _
      rw [toNat_and_widthMask within, BitVec.truncate_eq_setWidth, BitVec.toNat_setWidth, accumulated.bits,
        Nat.mod_mod_of_dvd _ (Nat.pow_dvd_pow 2 within), Nat.mod_mod_of_dvd _ (Nat.pow_dvd_pow 2 enough)]
    rw [unpackLoop, isFilled]
    dsimp only [bind, Except.bind]
    rw [later, digit, range'_succ, map_cons]
    rfl

theorem unpackBits_of_checked (slice : buf.length < 2 ^ 64) {count : Nat}
    (checked : checkPackedLen buf count bitWidth = .ok ()) : unpackBits buf count bitWidth =
      .ok ((List.range count).map fun position => UInt64.ofNat (storedDigit buf bitWidth position)) := by
  rw [unpackBits, checked]
  show (if bitWidth = 0 then pure (List.replicate count 0) else unpackLoop buf bitWidth count 0#128 0 0) = _
  unfold checkPackedLen at checked
  by_cases wide : 64 < bitWidth
  · rw [if_pos wide] at checked
    cases checked
  · rw [if_neg wide] at checked
    by_cases zero : bitWidth = 0
    · have digits : (fun position => UInt64.ofNat (storedDigit buf bitWidth position)) = fun _ => 0 := by
        funext position
        rw [storedDigit, zero, pow_zero, Nat.mod_one]
        rfl
      rw [if_pos zero, digits, map_const', length_range]
      rfl
    · rw [if_neg zero] at checked ⊢
      split at checked
      · cases checked
      · dsimp only at checked
        split at checked
        · rename_i length
          have start : Accumulated buf (0 * bitWidth) 0#128 0 0 := by
            constructor
            · rw [pow_zero, Nat.mod_one]
              rfl
            · omega
          have stored : (0 + count) * bitWidth ≤ 8 * buf.length := by
            rw [Nat.zero_add, length]
            omega
          rw [unpackLoop_spec slice (by omega) count 0 stored start (by decide), ← range_eq_range']
        · cases checked

theorem unpackBits_eq (slice : buf.length < 2 ^ 64) (count bitWidth : Nat) : unpackBits buf count bitWidth = typed (do
      checkPackedLen buf count bitWidth
      return (List.range count).map fun position => UInt64.ofNat (storedDigit buf bitWidth position)) := by
  cases checked : checkPackedLen buf count bitWidth with
  | error error =>
    rw [unpackBits, checked]
    rfl
  | ok =>
    rw [unpackBits_of_checked slice checked]
    rfl

theorem unpackWide_eq (within : bitWidth ≤ 64) (buf : Bytes) (base : Int64) (wanted index : Nat) :
    unpackWide buf bitWidth base wanted index =
      (List.range' index wanted).map fun position => addOffset base (BitVec.ofNat 64 (storedDigit buf bitWidth position)) := by
  induction wanted generalizing index with
  | zero => rfl
  | succ wanted ih =>
    have digit : wideOffset buf bitWidth index = BitVec.ofNat 64 (storedDigit buf bitWidth index) := by
      apply BitVec.eq_of_toNat_eq
      rw [toNat_wideOffset within, BitVec.toNat_ofNat, Nat.mod_eq_of_lt (storedDigit_lt buf within index), storedDigit]
    rw [unpackWide, digit, ih, range'_succ, map_cons]

theorem unpackWindows_eq (within : bitWidth ≤ 56) (buf : Bytes) (base : Int64) (wanted index : Nat) :
    unpackWindows buf bitWidth base wanted index =
      (List.range' index wanted).map fun position => addOffset base (BitVec.ofNat 64 (storedDigit buf bitWidth position)) := by
  induction wanted generalizing index with
  | zero => rfl
  | succ wanted ih =>
    rw [unpackWindows]
    cases loaded : loadWindow (buf.drop (index * bitWidth / 8)) with
    | none => exact unpackWide_eq (by omega) buf base (wanted + 1) index
    | some window =>
      have digit : (window >>> (index * bitWidth % 8)) &&& widthMask bitWidth =
          BitVec.ofNat 64 (storedDigit buf bitWidth index) := by
        apply BitVec.eq_of_toNat_eq
        have small : storedDigit buf bitWidth index < 2 ^ 64 := storedDigit_lt buf (by omega) index
        rw [toNat_windowOffset within loaded, BitVec.toNat_ofNat, Nat.mod_eq_of_lt small, storedDigit]
      dsimp only
      rw [digit, ih, range'_succ, map_cons]

/-- The reads through windows and the wider reads give the digits as offsets. -/
theorem unpackFor_eq (within : bitWidth ≤ 64) (buf : Bytes) (base : Int64) (count : Nat) :
    unpackFor buf bitWidth base count =
      (List.range count).map fun position => addOffset base (BitVec.ofNat 64 (storedDigit buf bitWidth position)) := by
  rw [unpackFor]
  by_cases zero : bitWidth = 0
  · have digits : (fun position => addOffset base (BitVec.ofNat 64 (storedDigit buf bitWidth position))) = fun _ => base := by
      funext position
      rw [storedDigit, zero, pow_zero, Nat.mod_one, addOffset]
      show (base.toUInt64 + 0).toInt64 = base
      rw [UInt64.add_zero]
      rfl
    rw [if_pos zero, digits, map_const', length_range]
  · rw [if_neg zero]
    split
    · rename_i narrow
      rw [unpackWindows_eq narrow, ← range_eq_range']
    · rw [unpackWide_eq within, ← range_eq_range']

end Ravel.Codec
