/-
This file develops bit streams: numbers as lists of bits with the most significant first, and bytes as streams of their bits.
-/

import Mathlib.Data.Nat.Bitwise
import Mathlib.Tactic.Ring

namespace Ravel.Library

open List

/-- The low bits of a number, the most significant first. -/
def bitsOf : Nat → Nat → List Bool
  | 0, _ => []
  | width + 1, value => bitsOf width (value / 2) ++ [value.testBit 0]

/-- The number that a list of bits spells after a number. -/
def joinBits (value : Nat) (bits : List Bool) : Nat :=
  bits.foldl (fun joined bit => 2 * joined + bit.toNat) value

/-- The bits of bytes in turn. -/
def byteBits (bytes : List UInt8) : List Bool :=
  bytes.flatMap fun byte => bitsOf 8 byte.toNat

@[simp] theorem length_bitsOf (width value : Nat) : (bitsOf width value).length = width := by
  induction width generalizing value with
  | zero => rfl
  | succ width ih => rw [bitsOf, length_append, ih, length_singleton]

theorem getElem?_bitsOf {width index : Nat} (value : Nat) (inside : index < width) :
    (bitsOf width value)[index]? = some (value.testBit (width - 1 - index)) := by
  induction width generalizing value with
  | zero => exact absurd inside (Nat.not_lt_zero _)
  | succ width ih =>
    rw [bitsOf]
    by_cases last : index = width
    · rw [getElem?_append_right (by rw [length_bitsOf]; omega), length_bitsOf, last, Nat.sub_self]
      simp
    · rw [getElem?_append_left (by rw [length_bitsOf]; omega), ih _ (by omega)]
      rw [show width + 1 - 1 - index = (width - 1 - index) + 1 by omega, Nat.testBit_succ]

/-- One more bit at the end doubles the number. -/
theorem bitsOf_append (width value : Nat) (bit : Bool) :
    bitsOf (width + 1) (2 * value + bit.toNat) = bitsOf width value ++ [bit] := by
  have half : (2 * value + bit.toNat) / 2 = value := by
    have small := Bool.toNat_le bit
    omega
  rw [bitsOf, half]
  congr 2
  rw [Nat.testBit_zero]
  cases bit
  · simp
  · simp

theorem joinBits_append (value : Nat) (first second : List Bool) :
    joinBits value (first ++ second) = joinBits (joinBits value first) second := foldl_append

theorem joinBits_bitsOf (start width value : Nat) :
    joinBits start (bitsOf width value) = start * 2 ^ width + value % 2 ^ width := by
  induction width generalizing value with
  | zero => simp [bitsOf, joinBits, Nat.mod_one]
  | succ width ih =>
    rw [bitsOf, joinBits_append, ih]
    have low : (value.testBit 0).toNat = value % 2 := by
      rw [Nat.testBit_zero]
      rcases Nat.mod_two_eq_zero_or_one value with isEven | isOdd
      · simp [isEven]
      · simp [isOdd]
    have split : value % 2 ^ (width + 1) = 2 * (value / 2 % 2 ^ width) + value % 2 := by
      rw [pow_succ, Nat.mul_comm, Nat.mod_mul]
      ring
    show 2 * (start * 2 ^ width + value / 2 % 2 ^ width) + (value.testBit 0).toNat = _
    rw [low, split, pow_succ]
    ring

/-- A number below the width's bound comes back. -/
theorem joinBits_bitsOf_of_lt {width value : Nat} (small : value < 2 ^ width) : joinBits 0 (bitsOf width value) = value := by
  rw [joinBits_bitsOf, Nat.zero_mul, Nat.zero_add, Nat.mod_eq_of_lt small]

theorem byteBits_append (first second : List UInt8) : byteBits (first ++ second) = byteBits first ++ byteBits second :=
  flatMap_append

theorem byteBits_cons (byte : UInt8) (bytes : List UInt8) : byteBits (byte :: bytes) = bitsOf 8 byte.toNat ++ byteBits bytes :=
  flatMap_cons

@[simp] theorem length_byteBits (bytes : List UInt8) : (byteBits bytes).length = 8 * bytes.length := by
  induction bytes with
  | nil => rfl
  | cons byte bytes ih =>
    rw [byteBits_cons, length_append, length_bitsOf, ih, length_cons]
    ring

/-- The bit at a position lies in the byte at an eighth of it. -/
theorem getElem?_byteBits (bytes : List UInt8) (position : Nat) :
    (byteBits bytes)[position]? = bytes[position / 8]?.map fun byte => byte.toNat.testBit (7 - position % 8) := by
  induction bytes generalizing position with
  | nil => simp [byteBits]
  | cons byte bytes ih =>
    rw [byteBits_cons]
    by_cases inFirst : position < 8
    · rw [getElem?_append_left (by rw [length_bitsOf]; exact inFirst), getElem?_bitsOf _ inFirst,
        Nat.div_eq_of_lt inFirst, Nat.mod_eq_of_lt inFirst]
      rfl
    · rw [getElem?_append_right (by rw [length_bitsOf]; omega), length_bitsOf, ih,
        show position / 8 = (position - 8) / 8 + 1 by omega, show position % 8 = (position - 8) % 8 by omega]
      rfl

theorem byteBits_injective : Function.Injective byteBits := by
  intro first second same
  induction first generalizing second with
  | nil =>
    have lengths := congrArg List.length same
    rw [length_byteBits, length_byteBits, length_nil] at lengths
    exact (eq_nil_of_length_eq_zero (by omega)).symm
  | cons byte bytes ih =>
    cases second with
    | nil =>
      have lengths := congrArg List.length same
      rw [length_byteBits, length_byteBits, length_cons, length_nil] at lengths
      omega
    | cons other others =>
      rw [byteBits_cons, byteBits_cons] at same
      obtain ⟨sameByte, sameRest⟩ := append_inj same (by rw [length_bitsOf, length_bitsOf])
      have joined := congrArg (joinBits 0) sameByte
      rw [joinBits_bitsOf_of_lt byte.toNat_lt, joinBits_bitsOf_of_lt other.toNat_lt] at joined
      rw [UInt8.toNat_inj.mp joined, ih sameRest]

/-- Bytes whose bits start with those of others start with them. -/
theorem exists_append_of_byteBits {whole front : List UInt8} {tail : List Bool} (split : byteBits whole = byteBits front ++ tail) :
    ∃ back, whole = front ++ back ∧ byteBits back = tail := by
  have lengths := congrArg List.length split
  rw [length_byteBits, length_append, length_byteBits] at lengths
  rw [← take_append_drop front.length whole, byteBits_append] at split
  obtain ⟨sameFront, sameBack⟩ := append_inj split (by rw [length_byteBits, length_byteBits, length_take]; omega)
  refine ⟨whole.drop front.length, ?_, sameBack⟩
  conv_lhs => rw [← take_append_drop front.length whole]
  rw [byteBits_injective sameFront]

end Ravel.Library
