import Ravel.Construction.Codec.Integers
import Ravel.Proof.Logs.Varints

namespace Ravel.Codec

open List Logs Library

section Reader

variable {Error : Type} {errors : VarintErrors Error}

/-- The reader accepts what the reader of log segments accepts. -/
theorem readVarintLoop_of_logs {remaining pos last : Nat} {result value : UInt64} {bytes rest : Bytes}
    (read : getUvarintLoop result remaining ⟨pos, bytes⟩ = .ok (value, ⟨last, rest⟩)) :
    readVarintLoop errors result remaining bytes = .ok (value, rest) := by
  induction remaining generalizing pos result bytes with
  | zero => cases read
  | succ remaining ih =>
    cases bytes with
    | nil => cases read
    | cons byte bytes =>
      rw [readVarintLoop]
      simp only [getUvarintLoop, nextByte, bind, StateT.bind, Except.bind] at read
      dsimp only
      split at read
      · cases read
      · rename_i inRange
        rw [if_neg inRange]
        split at read
        · rename_i ends
          rw [if_pos ends]
          split at read
          · cases read
          · rename_i canonical
            cases read
            cases errors.nonCanonical with
            | none => rfl
            | some error => exact if_neg canonical
        · rename_i continues
          rw [if_neg continues]
          exact ih read

theorem readVarintLoop_put (value : UInt64) (rest : Bytes) :
    readVarintLoop errors 0 maxVarintBytes (putUvarint value ++ rest) = .ok (value, rest) := by
  have short : (putUvarint value).length ≤ 10 := length_putUvarintLoop_le 10 value
  have read := decodes_putUvarint value 0 rest (by omega)
  exact readVarintLoop_of_logs read

end Reader

theorem getUvarint_put (value : UInt64) (rest : Bytes) : getUvarint (putUvarint value ++ rest) = .ok (value, rest) :=
  readVarintLoop_put value rest

theorem getIvarint_put (value : Int64) (rest : Bytes) : getIvarint (putIvarint value ++ rest) = .ok (value, rest) := by
  rw [getIvarint, putIvarint, getUvarint_put]
  show Except.ok (zigzagDecode (zigzag value), rest) = _
  rw [zigzagDecode_zigzag]

variable {index : Nat} {result : UInt64} {byte : UInt8} {front : Bytes} {last : UInt8} {rest : Bytes} {value : UInt64}

/-- The groups up to one more are below the next bound. -/
theorem joinedGroups_lt {result : Nat} (before : result < 2 ^ (7 * index)) (byte : UInt8) :
    result + 2 ^ (7 * index) * (byte.toNat % 128) < 2 ^ (7 * index + 7) := by
  have grown := Nat.mul_le_mul_left (2 ^ (7 * index)) (show byte.toNat % 128 + 1 ≤ 128 by omega)
  rw [Nat.mul_add, Nat.mul_one] at grown
  rw [pow_add]
  omega

/-- A group that fits in the word adds its digits. -/
theorem toNat_joinGroup_fits (short : index ≤ 9) (before : result.toNat < 2 ^ (7 * index))
    (fits : result.toNat + 2 ^ (7 * index) * (byte.toNat % 128) < 2 ^ 64) :
    (joinGroup result byte index).toNat = result.toNat + 2 ^ (7 * index) * (byte.toNat % 128) := by
  rw [toNat_joinGroup (by omega) _ _ fits, Nat.mod_eq_of_lt (joinedGroups_lt before byte)]
  · rw [Nat.add_mul_mod_self_left, Nat.mod_eq_of_lt before]
  · rw [Nat.add_mul_div_left _ _ (Nat.two_pow_pos _), Nat.div_eq_of_lt before, Nat.zero_add, Nat.mod_mod]

/-- One more group is below the next bound. -/
theorem toNat_joinGroup_below (short : index ≤ 8) (before : result.toNat < 2 ^ (7 * index)) (byte : UInt8) :
    (joinGroup result byte index).toNat = result.toNat + 2 ^ (7 * index) * (byte.toNat % 128) ∧
      (joinGroup result byte index).toNat < 2 ^ (7 * (index + 1)) := by
  have bound : 2 ^ (7 * index + 7) ≤ 2 ^ 64 := Nat.pow_le_pow_right (by decide) (by omega)
  have below := joinedGroups_lt before byte
  have joined := toNat_joinGroup_fits (by omega) before (lt_of_lt_of_le below bound)
  exact ⟨joined, by rw [joined]; exact below⟩

/-- What the loop joins of the bytes of a varint of at most eight bytes, after the groups that it has. -/
theorem readVarintLoop_groups (goOn : ∀ byte ∈ front, 128 ≤ byte.toNat) (ends : last.toNat < 128)
    (short : index + front.length ≤ 7) (before : result.toNat < 2 ^ (7 * index)) :
    readVarintLoop codecVarintErrors result (10 - index) (front ++ last :: rest) =
      if 0 < index + front.length ∧ last = 0 then .error (.corrupted "non-canonical varint")
      else .ok (UInt64.ofNat (result.toNat + 2 ^ (7 * index) * sevenBits (front ++ [last])), rest) := by
  induction front generalizing index result with
  | nil =>
    have loopIndex : 10 - index = (9 - index) + 1 := by omega
    have position : maxVarintBytes - (9 - index + 1) = index := by
      rw [maxVarintBytes]
      omega
    have notTenth : ¬(index = maxVarintBytes - 1 ∧ 1 < (last &&& 0x7f).toUInt64) := by
      rw [maxVarintBytes]
      simp only [length_nil] at short
      omega
    obtain ⟨joined, -⟩ := toNat_joinGroup_below (by omega) before last
    rw [loopIndex, nil_append, readVarintLoop]
    dsimp only
    rw [position, if_neg notTenth, if_pos ((continues_iff last).mpr ends)]
    show (if 0 < index ∧ last = 0 then _ else Except.ok (joinGroup result last index, rest)) = _
    have spelled : UInt64.ofNat (result.toNat + 2 ^ (7 * index) * sevenBits [last]) = joinGroup result last index := by
      rw [show sevenBits [last] = last.toNat % 128 by simp, ← joined, UInt64.ofNat_toNat]
    rw [length_nil, Nat.add_zero, nil_append, spelled]
  | cons byte front ih =>
    have loopIndex : 10 - index = (9 - index) + 1 := by omega
    have position : maxVarintBytes - (9 - index + 1) = index := by
      rw [maxVarintBytes]
      omega
    have notTenth : ¬(index = maxVarintBytes - 1 ∧ 1 < (byte &&& 0x7f).toUInt64) := by
      rw [maxVarintBytes]
      simp only [length_cons] at short
      omega
    have more : ¬byte &&& 0x80 = 0 := by
      rw [continues_iff]
      have high := goOn byte mem_cons_self
      omega
    rw [length_cons] at short
    obtain ⟨joined, bounded⟩ := toNat_joinGroup_below (by omega) before byte
    rw [loopIndex, cons_append, readVarintLoop]
    dsimp only
    rw [position, if_neg notTenth, if_neg more]
    have later := ih (fun other member => goOn other (mem_cons_of_mem _ member)) (by omega) bounded
    rw [show 10 - (index + 1) = 9 - index by omega, joined] at later
    rw [show index + (byte :: front).length = index + 1 + front.length by rw [length_cons]; omega]
    refine later.trans ?_
    congr 4
    rw [cons_append, sevenBits_cons, Nat.mul_succ 7 index, pow_add]
    ring

/-- One varint of at most eight bytes. -/
theorem getUvarint_groups (goOn : ∀ byte ∈ front, 128 ≤ byte.toNat) (ends : last.toNat < 128)
    (short : front.length ≤ 7) : getUvarint (front ++ last :: rest) =
      if front ≠ [] ∧ last = 0 then .error (.corrupted "non-canonical varint")
      else .ok (UInt64.ofNat (sevenBits (front ++ [last])), rest) := by
  have started : (0 : UInt64).toNat < 2 ^ (7 * 0) := by decide
  have read : readVarintLoop codecVarintErrors 0 (10 - 0) (front ++ last :: rest) = _ :=
    readVarintLoop_groups goOn ends (by omega) started
  rw [getUvarint, maxVarintBytes]
  refine read.trans ?_
  simp [length_pos_iff]

/-- The writer's bytes for a value that has more groups than one. -/
theorem putUvarintLoop_cons {next : UInt64} (high : 128 ≤ byte.toNat) (positive : next ≠ 0)
    (whole : value.toNat = byte.toNat % 128 + 128 * next.toNat) (remaining : Nat) :
    putUvarintLoop value (remaining + 1) = byte :: putUvarintLoop next remaining := by
  have bound := byte.toNat_lt
  have shifted : value >>> 7 = next := by
    apply UInt64.toNat_inj.mp
    rw [toNat_shiftRight_seven]
    omega
  have low : (value &&& 0x7f).toUInt8 ||| 0x80 = byte := by
    apply UInt8.toNat_inj.mp
    have small := toNat_lowGroup value
    rw [toNat_continued _ (by omega), small]
    omega
  rw [putUvarintLoop, shifted, if_neg positive, low]

theorem putUvarintLoop_last (low : byte.toNat < 128) (whole : value.toNat = byte.toNat) (remaining : Nat) :
    putUvarintLoop value (remaining + 1) = [byte] := by
  have shifted : value >>> 7 = 0 := by
    apply UInt64.toNat_inj.mp
    rw [toNat_shiftRight_seven]
    show _ = 0
    omega
  have kept : (value &&& 0x7f).toUInt8 = byte := by
    apply UInt8.toNat_inj.mp
    rw [toNat_lowGroup]
    omega
  rw [putUvarintLoop, if_pos shifted, kept]

/-- What the loop joins is the number of the groups before and of the groups it reads, and it reads what the writer puts. -/
theorem readVarintLoop_canonical (short : index ≤ 9) {bytes : Bytes} (before : result.toNat < 2 ^ (7 * index))
    (read : readVarintLoop codecVarintErrors result (10 - index) bytes = .ok (value, rest)) :
    ∃ later : UInt64, value.toNat = result.toNat + 2 ^ (7 * index) * later.toNat ∧
      bytes = putUvarintLoop later (10 - index) ++ rest ∧ (0 < index → later ≠ 0) := by
  induction bytes generalizing index result with
  | nil =>
    rw [show 10 - index = (9 - index) + 1 by omega] at read
    cases read
  | cons byte bytes ih =>
    have position : maxVarintBytes - (9 - index + 1) = index := by
      rw [maxVarintBytes]
      omega
    have low7 : (byte &&& 0x7f).toUInt64.toNat = byte.toNat % 128 := by
      rw [UInt8.toNat_toUInt64, toNat_payload]
    rw [show 10 - index = (9 - index) + 1 by omega] at read ⊢
    rw [readVarintLoop] at read
    dsimp only at read
    rw [position] at read
    split at read
    · cases read
    · rename_i inRange
      -- The tenth group is one bit, so that every group fits.
      have fits : result.toNat + 2 ^ (7 * index) * (byte.toNat % 128) < 2 ^ 64 := by
        by_cases tenth : index = 9
        · subst tenth
          have single : ¬1 < (byte &&& 0x7f).toUInt64 := fun more => inRange ⟨rfl, more⟩
          rw [UInt64.lt_iff_toNat_lt, low7] at single
          have one : (1 : UInt64).toNat = 1 := rfl
          omega
        · obtain ⟨joined, -⟩ := toNat_joinGroup_below (by omega) before byte
          rw [← joined]
          exact UInt64.toNat_lt _
      have joined : (joinGroup result byte index).toNat = _ := toNat_joinGroup_fits short before fits
      by_cases ends : byte &&& 0x80 = 0
      · rw [if_pos ends] at read
        have low := (continues_iff byte).mp ends
        change (if 0 < index ∧ byte = 0 then _ else Except.ok (joinGroup result byte index, bytes)) = _ at read
        split at read
        · cases read
        · rename_i canonical
          cases read
          refine ⟨byte.toUInt64, ?_, ?_, ?_⟩
          · rw [joined, Nat.mod_eq_of_lt low, UInt8.toNat_toUInt64]
          · rw [putUvarintLoop_last low (UInt8.toNat_toUInt64 byte)]
            rfl
          · intro positive zero
            apply canonical ⟨positive, _⟩
            apply UInt8.toNat_inj.mp
            rw [← UInt8.toNat_toUInt64, zero]
            rfl
      · rw [if_neg ends] at read
        have high : 128 ≤ byte.toNat := by
          rw [continues_iff] at ends
          omega
        change readVarintLoop codecVarintErrors (joinGroup result byte index) (9 - index) bytes = _ at read
        have notTenth : index ≤ 8 := by
          by_contra tenth
          rw [show 9 - index = 0 by omega] at read
          cases read
        obtain ⟨-, bounded⟩ := toNat_joinGroup_below notTenth before byte
        rw [show 9 - index = 10 - (index + 1) by omega] at read ⊢
        obtain ⟨later, whole, written, positive⟩ := ih (by omega) bounded read
        have sum : value.toNat = result.toNat + 2 ^ (7 * index) * (byte.toNat % 128 + 128 * later.toNat) := by
          rw [whole, joined, Nat.mul_succ 7 index, pow_add]
          ring
        have small : byte.toNat % 128 + 128 * later.toNat < 2 ^ 64 := by
          have bound := value.toNat_lt
          have grown := Nat.le_mul_of_pos_left (byte.toNat % 128 + 128 * later.toNat) (Nat.two_pow_pos (7 * index))
          omega
        have digits : (UInt64.ofNat (byte.toNat % 128 + 128 * later.toNat)).toNat = byte.toNat % 128 + 128 * later.toNat := by
          rw [UInt64.toNat_ofNat']
          exact Nat.mod_eq_of_lt small
        refine ⟨UInt64.ofNat (byte.toNat % 128 + 128 * later.toNat), ?_, ?_, ?_⟩
        · rw [digits, sum]
        · rw [putUvarintLoop_cons high (positive (Nat.succ_pos _)) digits, cons_append, ← written]
        · intro _ zero
          apply positive (Nat.succ_pos _)
          apply UInt64.toNat_inj.mp
          rw [zero] at digits
          have none : (0 : UInt64).toNat = 0 := rfl
          omega

/-- The reader takes exactly what the writer puts. -/
theorem getUvarint_eq_ok {bytes : Bytes} : getUvarint bytes = .ok (value, rest) ↔ bytes = putUvarint value ++ rest := by
  constructor
  · intro read
    have started : (0 : UInt64).toNat < 2 ^ (7 * 0) := by decide
    obtain ⟨later, whole, written, -⟩ := readVarintLoop_canonical (Nat.zero_le 9) started read
    have same : value = later := by
      apply UInt64.toNat_inj.mp
      rw [whole]
      simp
    rw [same]
    exact written
  · rintro rfl
    exact getUvarint_put value rest

end Ravel.Codec
