/-
This file develops the numbers that bytes spell with the least significant byte first: whole bytes, and groups of seven bits.
-/

import Mathlib.Data.Nat.Bitwise
import Mathlib.Data.Nat.Digits.Defs

namespace Ravel.Library

open List

/-- The number that bytes spell, the least significant first. -/
def littleEndian (bytes : List UInt8) : Nat :=
  Nat.ofDigits 256 (bytes.map UInt8.toNat)

variable (byte : UInt8) (rest bytes : List UInt8) (count index : Nat)

@[simp] theorem littleEndian_nil : littleEndian [] = 0 := rfl

@[simp] theorem littleEndian_cons : littleEndian (byte :: rest) = byte.toNat + 256 * littleEndian rest := rfl

/-- Bytes are digits to the base 256. -/
theorem byteDigits : ∀ digit ∈ bytes.map UInt8.toNat, digit < 256 := by
  intro digit member
  obtain ⟨byte, -, rfl⟩ := mem_map.mp member
  exact byte.toNat_lt

theorem littleEndian_lt : littleEndian bytes < 256 ^ bytes.length := by
  have bound := Nat.ofDigits_lt_base_pow_length (by decide) (byteDigits bytes)
  rwa [length_map] at bound

theorem littleEndian_append (first second : List UInt8) :
    littleEndian (first ++ second) = littleEndian first + 256 ^ first.length * littleEndian second := by
  rw [littleEndian, map_append, Nat.ofDigits_append, length_map]
  rfl

/-- Dropping bytes divides. -/
theorem littleEndian_drop (bytes : List UInt8) :
    littleEndian (bytes.drop count) = littleEndian bytes / 256 ^ count := by
  rw [littleEndian, map_drop, ← Nat.ofDigits_div_pow_eq_ofDigits_drop count (by decide) _ (byteDigits bytes)]
  rfl

/-- Keeping bytes takes the remainder. -/
theorem littleEndian_take (bytes : List UInt8) :
    littleEndian (bytes.take count) = littleEndian bytes % 256 ^ count := by
  rw [littleEndian, map_take, ← Nat.ofDigits_mod_pow_eq_ofDigits_take count (by decide) _ (byteDigits bytes)]
  rfl

/-- The bit at a position lies in the byte at an eighth of it. -/
theorem testBit_littleEndian :
    (littleEndian bytes).testBit index = (bytes[index / 8]?.any fun byte => byte.toNat.testBit (index % 8)) := by
  induction bytes generalizing index with
  | nil => simp
  | cons byte rest ih =>
    have low : byte.toNat < 2 ^ 8 := byte.toNat_lt
    rw [littleEndian_cons, Nat.add_comm, show 256 = 2 ^ 8 by rfl, Nat.testBit_two_pow_mul_add _ low]
    by_cases inFirst : index < 8
    · rw [if_pos inFirst, Nat.div_eq_of_lt inFirst, Nat.mod_eq_of_lt inFirst]
      rfl
    · rw [if_neg inFirst, ih, show index / 8 = (index - 8) / 8 + 1 by omega,
        show (index - 8) % 8 = index % 8 by omega]
      rfl

/-- The number that the low seven bits of bytes spell, the least significant first. -/
def sevenBits (bytes : List UInt8) : Nat :=
  Nat.ofDigits 128 (bytes.map fun byte => byte.toNat % 128)

@[simp] theorem sevenBits_nil : sevenBits [] = 0 := rfl

@[simp] theorem sevenBits_cons : sevenBits (byte :: rest) = byte.toNat % 128 + 128 * sevenBits rest := rfl

/-- Each group of seven bits is the low bits of its byte. -/
theorem testBit_sevenBits :
    (sevenBits bytes).testBit index = (littleEndian bytes).testBit (8 * (index / 7) + index % 7) := by
  induction bytes generalizing index with
  | nil => simp
  | cons byte rest ih =>
    have low : byte.toNat < 2 ^ 8 := byte.toNat_lt
    have lowGroup : byte.toNat % 128 < 2 ^ 7 := Nat.mod_lt _ (by decide)
    rw [sevenBits_cons, Nat.add_comm, show 128 * sevenBits rest = 2 ^ 7 * sevenBits rest by rfl,
      Nat.testBit_two_pow_mul_add _ lowGroup, littleEndian_cons, Nat.add_comm byte.toNat,
      show 256 * littleEndian rest = 2 ^ 8 * littleEndian rest by rfl, Nat.testBit_two_pow_mul_add _ low]
    by_cases inFirst : index < 7
    · rw [if_pos inFirst, if_pos (by omega), show byte.toNat % 128 = byte.toNat % 2 ^ 7 by rfl, Nat.testBit_mod_two_pow,
        show 8 * (index / 7) + index % 7 = index by omega]
      simp [inFirst]
    · rw [if_neg inFirst, if_neg (by omega), ih,
        show 8 * ((index - 7) / 7) + (index - 7) % 7 = 8 * (index / 7) + index % 7 - 8 by omega]

/-- A window that a wider remainder holds is a window of the number. -/
theorem mod_two_pow_div_mod {whole start width : Nat} (inside : start + width ≤ whole) (number : Nat) :
    number % 2 ^ whole / 2 ^ start % 2 ^ width = number / 2 ^ start % 2 ^ width := by
  obtain ⟨above, rfl⟩ : ∃ above, whole = start + above := ⟨whole - start, by omega⟩
  rw [pow_add, Nat.mod_mul_right_div_self]
  exact Nat.mod_mod_of_dvd _ (Nat.pow_dvd_pow 2 (by omega))

/-- The high bits of a row of ones are a shorter row of ones. -/
theorem two_pow_sub_one_div (low high : Nat) : (2 ^ (low + high) - 1) / 2 ^ low = 2 ^ high - 1 := by
  have positive := Nat.two_pow_pos low
  have positiveHigh := Nat.two_pow_pos high
  have split : 2 ^ (low + high) - 1 = 2 ^ low * (2 ^ high - 1) + (2 ^ low - 1) := by
    rw [Nat.mul_sub, Nat.mul_one, ← pow_add]
    have grows : 2 ^ low ≤ 2 ^ (low + high) := Nat.pow_le_pow_right (by decide) (by omega)
    omega
  rw [split, Nat.mul_add_div positive, Nat.div_eq_of_lt (by omega), Nat.add_zero]

/-- Taking one less away from a number clears its lowest bit and no other. -/
theorem testBit_and_pred {number lowest : Nat} (set : number.testBit lowest = true)
    (below : ∀ index < lowest, number.testBit index = false) (index : Nat) :
    (number &&& (number - 1)).testBit index = (number.testBit index && decide (index ≠ lowest)) := by
  have noLow : number % 2 ^ lowest = 0 := by
    apply Nat.eq_of_testBit_eq
    intro position
    rw [Nat.testBit_mod_two_pow, Nat.zero_testBit]
    by_cases inside : position < lowest
    · rw [below position inside, Bool.and_false]
    · rw [decide_eq_false inside, Bool.false_and]
  have split : number = 2 ^ lowest * (number / 2 ^ lowest) + 0 := by
    have parts := Nat.div_add_mod number (2 ^ lowest)
    omega
  have isOdd : number / 2 ^ lowest % 2 = 1 := by
    rw [Nat.testBit_eq_decide_div_mod_eq, decide_eq_true_eq] at set
    exact set
  have positive := Nat.two_pow_pos lowest
  obtain ⟨half, isHalf⟩ : ∃ half, number / 2 ^ lowest = 2 * half + 1 := ⟨number / 2 ^ lowest / 2, by omega⟩
  have pred : number - 1 = 2 ^ lowest * (2 * half) + (2 ^ lowest - 1) := by
    rw [split, isHalf, Nat.mul_add]
    omega
  rw [Nat.testBit_and]
  by_cases inside : index < lowest
  · rw [below index inside, Bool.false_and, Bool.false_and]
  · have own : number.testBit index = (2 * half + 1).testBit (index - lowest) := by
      conv_lhs => rw [split, isHalf, Nat.testBit_two_pow_mul_add _ positive, if_neg inside]
    rw [own, pred, Nat.testBit_two_pow_mul_add _ (by omega), if_neg inside]
    by_cases atLowest : index = lowest
    · rw [atLowest, Nat.sub_self]
      simp
    · obtain ⟨later, isLater⟩ : ∃ later, index - lowest = later + 1 := ⟨index - lowest - 1, by omega⟩
      rw [isLater, Nat.testBit_succ, Nat.testBit_succ, show (2 * half + 1) / 2 = half by omega,
        show 2 * half / 2 = half by omega]
      simp [atLowest]

end Ravel.Library
