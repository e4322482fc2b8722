import Ravel.Proof.Codec.DenseValues

namespace Ravel.Codec

open List Logs Library

theorem countOnes_zero (number : Nat) : countOnes 0 number = 0 := rfl

theorem countOnes_add (low high number : Nat) :
    countOnes (low + high) number = countOnes low number + countOnes high (number / 2 ^ low) := by
  rw [countOnes, range_add, countP_append, countP_map, countOnes, countOnes]
  congr 1
  apply countP_congr
  intro index _
  rw [Function.comp_apply, Nat.testBit_div_two_pow, Nat.add_comm]

theorem countOnes_mod (width number : Nat) : countOnes width (number % 2 ^ width) = countOnes width number := by
  apply countP_congr
  intro index inside
  rw [Nat.testBit_mod_two_pow, decide_eq_true (mem_range.mp inside), Bool.true_and]

/-- The set bits of the bytes one after another. -/
theorem sum_countOnes (bytes : Bytes) :
    (bytes.map fun byte => countOnes 8 byte.toNat).sum = countOnes (8 * bytes.length) (littleEndian bytes) := by
  induction bytes with
  | nil => rfl
  | cons byte bytes ih =>
    have bound := byte.toNat_lt
    have low : (byte.toNat + 256 * littleEndian bytes) % 2 ^ 8 = byte.toNat := by omega
    have high : (byte.toNat + 256 * littleEndian bytes) / 2 ^ 8 = littleEndian bytes := by omega
    rw [map_cons, sum_cons, ih, length_cons, Nat.mul_succ, Nat.add_comm (8 * bytes.length) 8,
      countOnes_add, littleEndian_cons, high, ← countOnes_mod 8 (byte.toNat + _), low]

theorem flatten_words (bytes : Bytes) (count : Nat) :
    ((List.range count).map fun index => (bytes.drop (8 * index)).take 8).flatten = bytes.take (8 * count) := by
  induction count with
  | zero => rfl
  | succ count ih =>
    rw [range_succ, map_append, flatten_append, ih, map_singleton, flatten_singleton,
      Nat.mul_succ, take_add]

/-- The bit of a row in a bitmap. -/
def bitIsSet (bits : Bytes) (row : Nat) : Bool :=
  (bits.getD (row / 8) 0).toNat.testBit (row % 8)

/-- The present rows before a row. -/
def rankOf (bits : Bytes) (row : Nat) : Nat :=
  (List.range row).countP (bitIsSet bits)

theorem bitIsSet_eq (bits : Bytes) (row : Nat) : bitIsSet bits row = (littleEndian bits).testBit row := by
  rw [testBit_littleEndian, bitIsSet, getD_eq_getElem?_getD]
  cases bits[row / 8]? with
  | none => exact Nat.zero_testBit _
  | some byte => rfl

theorem rankOf_eq (bits : Bytes) (row : Nat) : rankOf bits row = countOnes row (littleEndian bits) := by
  apply countP_congr
  intro index _
  rw [bitIsSet_eq]

theorem sum_words {bytes : Bytes} {count : Nat} (whole : 8 * count ≤ bytes.length) :
    (((List.range count).map fun index => (bytes.drop (8 * index)).take 8).map fun word => countOnes 64 (littleEndian word)).sum =
      ((bytes.take (8 * count)).map fun byte => countOnes 8 byte.toNat).sum := by
  rw [← flatten_words, map_flatten, sum_flatten, map_map, map_map, map_map]
  congr 1
  apply map_congr_left
  intro index inside
  have below := mem_range.mp inside
  have length : ((bytes.drop (8 * index)).take 8).length = 8 := by
    rw [length_take, length_drop]
    omega
  show countOnes 64 (littleEndian ((bytes.drop (8 * index)).take 8)) = _
  rw [Function.comp_apply, Function.comp_apply, sum_countOnes, length]

/-- The bits of a masked byte are those below the mask. -/
theorem countOnes_masked {tail : Nat} (within : tail ≤ 8) (byte above : Nat) :
    countOnes 8 (byte &&& (2 ^ tail - 1)) = countOnes tail (byte + 2 ^ 8 * above) := by
  have zeros : countOnes (8 - tail) 0 = 0 := by
    apply countP_eq_zero.mpr
    intro index _
    rw [Nat.zero_testBit]
    exact Bool.false_ne_true
  have low : (byte + 2 ^ 8 * above) % 2 ^ tail = byte % 2 ^ tail := by
    obtain ⟨rest, isRest⟩ : ∃ rest, 8 = tail + rest := ⟨8 - tail, by omega⟩
    rw [isRest, pow_add, Nat.mul_assoc, Nat.add_mul_mod_self_left]
  have split := countOnes_add tail (8 - tail) (byte % 2 ^ tail)
  rw [Nat.add_sub_cancel' within, Nat.div_eq_of_lt (Nat.mod_lt _ (Nat.two_pow_pos _)), zeros, Nat.add_zero, ← low, countOnes_mod] at split
  rw [Nat.and_two_pow_sub_one_eq_mod, ← split, low]

/-- The words, the bytes left and the last bits together have the set bits of the first rows. -/
theorem countPresent_eq {bits : Bytes} {rows : Nat} (sized : bits.length = (rows + 7) / 8) :
    countPresent bits rows = .ok (rankOf bits rows) := by
  have short : (bits.take (rows / 8)).length = rows / 8 := by
    rw [length_take]
    omega
  have front : (((List.range (rows / 8 / 8)).map fun index => ((bits.take (rows / 8)).drop (8 * index)).take 8).map
        fun word => countOnes 64 (littleEndian word)).sum +
      (((bits.take (rows / 8)).drop (8 * (rows / 8 / 8))).map fun byte => countOnes 8 byte.toNat).sum =
      countOnes (8 * (rows / 8)) (littleEndian bits) := by
    rw [sum_words (by omega), ← sum_append, ← map_append, take_append_drop, sum_countOnes, short, littleEndian_take,
      show (256 : Nat) = 2 ^ 8 by rfl, ← pow_mul, countOnes_mod]
  have last : (if 0 < rows % 8 then countOnes 8 ((bits.getD (rows / 8) 0).toNat &&& (2 ^ (rows % 8) - 1)) else 0) =
      countOnes (rows % 8) (littleEndian bits / 2 ^ (8 * (rows / 8))) := by
    by_cases partly : 0 < rows % 8
    · have inside : rows / 8 < bits.length := by omega
      rw [if_pos partly, pow_mul, show (2 ^ 8 : Nat) = 256 by rfl, ← littleEndian_drop, drop_eq_getElem_cons inside,
        littleEndian_cons, getD_eq_getElem?_getD, getElem?_eq_getElem inside, Option.getD_some]
      exact countOnes_masked (by omega) _ _
    · rw [if_neg partly, show rows % 8 = 0 by omega, countOnes_zero]
  unfold countPresent
  dsimp only
  rw [if_neg (by omega), front, last, ← countOnes_add, Nat.div_add_mod, rankOf_eq]

section Ranks

variable (bits : Bytes)

theorem rankOf_zero : rankOf bits 0 = 0 := rfl

theorem rankOf_succ (row : Nat) : rankOf bits (row + 1) = rankOf bits row + if bitIsSet bits row then 1 else 0 := by
  rw [rankOf, range_succ, countP_append, countP_singleton, rankOf]

theorem rankOf_add_le (row count : Nat) : rankOf bits row ≤ rankOf bits (row + count) ∧ rankOf bits (row + count) ≤ rankOf bits row + count := by
  induction count with
  | zero => exact ⟨Nat.le_refl _, Nat.le_refl _⟩
  | succ count ih =>
    rw [← Nat.add_assoc, rankOf_succ]
    split <;> omega

/-- No rank is lost over rows that are all absent. -/
theorem rankOf_absent {row count : Nat} (absent : ∀ offset < count, bitIsSet bits (row + offset) = false) :
    rankOf bits (row + count) = rankOf bits row := by
  induction count with
  | zero => rfl
  | succ count ih =>
    rw [← Nat.add_assoc, rankOf_succ, absent count (Nat.lt_succ_self _),
      ih fun offset before => absent offset (by omega)]
    rfl

/-- When the rows from one on are as many as the values, all are present. -/
theorem present_of_full {row rows : Nat} (full : rankOf bits rows = rankOf bits row + (rows - row)) {index : Nat}
    (after : row ≤ index) (inside : index < rows) :
    bitIsSet bits index = true ∧ rankOf bits index = rankOf bits row + (index - row) := by
  have before := rankOf_add_le bits row (index - row)
  have later := rankOf_add_le bits (index + 1) (rows - (index + 1))
  have step := rankOf_succ bits index
  rw [Nat.add_sub_cancel' after] at before
  rw [Nat.add_sub_cancel' inside] at later
  split at step
  · rename_i isSet
    exact ⟨isSet, by omega⟩
  · omega

end Ranks

section Moves

/-- What a row holds in the end: the value of its rank, or zero. -/
def cell (bits : Bytes) (dense : List Int64) (row : Nat) : Int64 :=
  if bitIsSet bits row then dense.getD (rankOf bits row) 0 else 0

/-- The rows before one are final, and the values that are not placed stand at the back in their order. -/
structure Moved (bits : Bytes) (dense : List Int64) (row src : Nat) (out : List Int64) : Prop where
  inside : row ≤ out.length
  counted : dense.length = rankOf bits out.length
  placed : out.take row = (List.range row).map (cell bits dense)
  pending : out.drop src = dense.drop (rankOf bits row)
  source : src + dense.length = out.length + rankOf bits row

variable {bits : Bytes} {dense out : List Int64} {row src : Nat}

/-- The next value stands after the rows that the present ones before it leave. -/
theorem Moved.ahead (moved : Moved bits dense row src out) {count : Nat} (inside : row + count ≤ out.length) :
    row + count + rankOf bits row ≤ src + rankOf bits (row + count) := by
  have counted := moved.counted
  have source := moved.source
  have later := rankOf_add_le bits (row + count) (out.length - (row + count))
  rw [Nat.add_sub_cancel' inside] at later
  omega

theorem length_overwrite {start : Nat} {values : List Int64} (inside : start + values.length ≤ out.length) :
    (overwrite out start values).length = out.length := by
  rw [overwrite, length_append, length_append, length_take, length_drop]
  omega

/-- Rows that are written with their final values keep what is still to be placed. -/
theorem Moved.write (moved : Moved bits dense row src out) {fresh : List Int64} (inside : row + fresh.length ≤ out.length)
    (final : fresh = (List.range' row fresh.length).map (cell bits dense)) :
    Moved bits dense (row + fresh.length) (src + (rankOf bits (row + fresh.length) - rankOf bits row)) (overwrite out row fresh) := by
  have ahead := moved.ahead inside
  have grows := rankOf_add_le bits row fresh.length
  have source := moved.source
  have length := length_overwrite inside
  constructor
  · rwa [length]
  · rw [length]
    exact moved.counted
  · have front : (out.take row).length = row := by
      rw [length_take]
      exact Nat.min_eq_left moved.inside
    have taken : (overwrite out row fresh).take (row + fresh.length) = out.take row ++ fresh := by
      have whole : (out.take row ++ fresh).length = row + fresh.length := by rw [length_append, front]
      rw [overwrite, ← whole, take_left]
    have rows : (List.range (row + fresh.length)).map (cell bits dense) =
        (List.range row).map (cell bits dense) ++ (List.range' row fresh.length).map (cell bits dense) := by
      have joined : List.range' 0 row ++ List.range' (0 + row) fresh.length = List.range' 0 (row + fresh.length) :=
        range'_append_1
      rw [Nat.zero_add] at joined
      rw [← map_append, range_eq_range', range_eq_range', joined]
    rw [taken, rows, ← final, moved.placed]
  · have after : row + fresh.length ≤ src + (rankOf bits (row + fresh.length) - rankOf bits row) := by omega
    have untouched : (overwrite out row fresh).drop (src + (rankOf bits (row + fresh.length) - rankOf bits row)) =
        out.drop (src + (rankOf bits (row + fresh.length) - rankOf bits row)) := by
      obtain ⟨gap, isGap⟩ : ∃ gap, src + (rankOf bits (row + fresh.length) - rankOf bits row) = row + fresh.length + gap :=
        ⟨_, (Nat.add_sub_cancel' after).symm⟩
      have front : (out.take row ++ fresh).length = row + fresh.length := by
        rw [length_append, length_take, Nat.min_eq_left moved.inside]
      rw [isGap, ← drop_drop, overwrite, ← front, drop_left, front, drop_drop]
    rw [untouched, ← drop_drop, moved.pending, drop_drop]
    congr 1
    omega
  · rw [length]
    omega

/-- When the next value stands at the next row, every row is final. -/
theorem Moved.done (moved : Moved bits dense row row out) : out = (List.range out.length).map (cell bits dense) := by
  have counted := moved.counted
  have source := moved.source
  have inside := moved.inside
  apply ext_getElem
  · rw [length_map, length_range]
  · intro index within _
    rw [getElem_map, getElem_range]
    by_cases early : index < row
    · have placed := congrArg (fun list : List Int64 => list[index]?) moved.placed
      rw [getElem?_take_of_lt early, getElem?_eq_getElem within, getElem?_map,
        getElem?_eq_getElem (by rwa [length_range]), getElem_range] at placed
      exact Option.some.inj placed
    · have full : rankOf bits out.length = rankOf bits row + (out.length - row) := by omega
      obtain ⟨isSet, rank⟩ := present_of_full bits full (Nat.le_of_not_lt early) within
      have pending := congrArg (fun list : List Int64 => list[index - row]?) moved.pending
      rw [getElem?_drop, getElem?_drop, Nat.add_sub_cancel' (Nat.le_of_not_lt early),
        getElem?_eq_getElem within, ← rank] at pending
      rw [cell, if_pos isSet, getD_eq_getElem?_getD, ← pending, Option.getD_some]

theorem Moved.value (moved : Moved bits dense row src out) : out.getD src 0 = dense.getD (rankOf bits row) 0 := by
  have pending := congrArg (fun list : List Int64 => list[0]?) moved.pending
  rw [getElem?_drop, getElem?_drop, Nat.add_zero, Nat.add_zero] at pending
  rw [getD_eq_getElem?_getD, pending, getD_eq_getElem?_getD]

theorem set_eq_overwrite (value : Int64) {index : Nat} (inside : index < out.length) :
    out.set index value = overwrite out index [value] := by
  rw [overwrite, set_eq_take_append_cons_drop, if_pos inside, append_assoc]
  rfl

/-- A byte of the bitmap has the bits of its rows. -/
def ByteOf (bits : Bytes) (byte : UInt8) (base width : Nat) : Prop :=
  ∀ bit < width, byte.toNat.testBit bit = bitIsSet bits (base + bit)

theorem movedRows_spec {byte : UInt8} {base width : Nat} (isByte : ByteOf bits byte base width) (left bit : Nat)
    (whole : bit + left = width) (inside : base + width ≤ out.length) (moved : Moved bits dense (base + bit) src out) :
    (movedRows byte base left bit src out).1.length = out.length ∧
      Moved bits dense (base + width) (movedRows byte base left bit src out).2 (movedRows byte base left bit src out).1 := by
  induction left generalizing bit src out with
  | zero =>
    rw [show width = bit by omega]
    exact ⟨rfl, moved⟩
  | succ left ih =>
    have within : base + bit < out.length := by omega
    have isBit := isByte bit (by omega)
    have rank := rankOf_succ bits (base + bit)
    rw [movedRows]
    by_cases isSet : byte.toNat.testBit bit = true
    · rw [if_pos isSet, set_eq_overwrite _ within]
      rw [isSet] at isBit
      rw [← isBit, if_pos rfl] at rank
      have final : [out.getD src 0] = (List.range' (base + bit) [out.getD src 0].length).map (cell bits dense) := by
        rw [moved.value]
        show _ = [cell bits dense (base + bit)]
        rw [cell, ← isBit, if_pos rfl]
      have next := moved.write (show base + bit + [out.getD src 0].length ≤ out.length from within) final
      rw [length_singleton, rank, Nat.add_sub_cancel_left] at next
      have length := length_overwrite (show base + bit + [out.getD src 0].length ≤ out.length from within)
      rw [← length] at inside ⊢
      exact ih (bit + 1) (by omega) inside next
    · rw [if_neg isSet, set_eq_overwrite _ within]
      rw [eq_false_of_ne_true isSet] at isBit
      rw [← isBit] at rank
      have final : [(0 : Int64)] = (List.range' (base + bit) [(0 : Int64)].length).map (cell bits dense) := by
        show _ = [cell bits dense (base + bit)]
        rw [cell, ← isBit]
        rfl
      have next := moved.write (show base + bit + [(0 : Int64)].length ≤ out.length from within) final
      rw [length_singleton, rank, if_neg Bool.false_ne_true, Nat.add_sub_cancel_left, Nat.add_zero] at next
      have length := length_overwrite (show base + bit + [(0 : Int64)].length ≤ out.length from within)
      rw [← length] at inside ⊢
      exact ih (bit + 1) (by omega) inside next

theorem getD_take {values : List Int64} {count index : Nat} (inside : index < count) :
    (values.take count).getD index 0 = values.getD index 0 := by
  rw [getD_eq_getElem?_getD, getElem?_take_of_lt inside, getD_eq_getElem?_getD]

theorem and_present (value : Int64) (present : Bool) :
    value &&& -Int64.ofNat (if present then 1 else 0) = if present then value else 0 := by
  cases present with
  | true =>
    show value &&& -1 = value
    rw [Int64.and_neg_one]
  | false => exact Int64.and_zero

/-- The rows of a byte from the values that were taken first. -/
theorem rankedRows_spec {byte : UInt8} {base : Nat} (isByte : ByteOf bits byte base 8) (left bit rank : Nat) (whole : bit + left = 8)
    (ranked : rankOf bits base + rank = rankOf bits (base + bit)) :
    rankedRows byte ((dense.drop (rankOf bits base)).take 8) left bit rank =
      ((List.range' (base + bit) left).map (cell bits dense), rank + (rankOf bits (base + 8) - rankOf bits (base + bit))) := by
  induction left generalizing bit rank with
  | zero =>
    rw [show bit = 8 by omega, Nat.sub_self]
    rfl
  | succ left ih =>
    have few := (rankOf_add_le bits base bit).2
    have isBit := isByte bit (by omega)
    have step : rankOf bits (base + (bit + 1)) = _ := rankOf_succ bits (base + bit)
    have grows := (rankOf_add_le bits (base + (bit + 1)) left).1
    rw [show base + (bit + 1) + left = base + 8 by omega] at grows
    have value : ((dense.drop (rankOf bits base)).take 8).getD rank 0 = dense.getD (rankOf bits (base + bit)) 0 := by
      rw [getD_take (by omega), getD_eq_getElem?_getD, getElem?_drop, ranked, getD_eq_getElem?_getD]
    have next : rankOf bits base + (rank + if byte.toNat.testBit bit then 1 else 0) = rankOf bits (base + (bit + 1)) := by
      rw [step, ← isBit, ← Nat.add_assoc, ranked]
    have later := ih (bit + 1) _ (by omega) next
    rw [rankedRows]
    dsimp only
    rw [later, value, and_present, range'_succ, map_cons, cell, isBit]
    apply Prod.ext
    · rfl
    · show rank + (if bitIsSet bits (base + bit) then 1 else 0) + _ = _
      rw [step] at grows ⊢
      omega

/-- The bits of a byte below its rows. -/
theorem byteOf_masked {stored : UInt8} {chunk width : Nat} (found : bits[chunk]? = some stored) (within : width ≤ 8) :
    ByteOf bits (stored &&& UInt8.ofNat (0xff >>> (8 - width))) (8 * chunk) width := by
  intro bit inside
  have mask : (0xff >>> (8 - width)) = 2 ^ width - 1 := by
    interval_cases width <;> rfl
  have small : 2 ^ width - 1 < 256 := by
    have bound : 2 ^ width ≤ 2 ^ 8 := Nat.pow_le_pow_right (by decide) within
    have positive := Nat.two_pow_pos width
    omega
  rw [bitIsSet, show (8 * chunk + bit) / 8 = chunk by omega, show (8 * chunk + bit) % 8 = bit by omega,
    getD_eq_getElem?_getD, found, Option.getD_some, UInt8.toNat_and, mask, UInt8.toNat_ofNat', Nat.mod_eq_of_lt small,
    Nat.testBit_and, Nat.testBit_two_pow_sub_one, decide_eq_true inside, Bool.and_true]

theorem absent_of_zero {base width : Nat} (isByte : ByteOf bits 0 base width) :
    ∀ offset < width, bitIsSet bits (base + offset) = false := by
  intro offset inside
  rw [← isByte offset inside]
  exact Nat.zero_testBit _

/-- A byte without a present row writes zeros. -/
theorem Moved.skip {base width : Nat} (moved : Moved bits dense base src out) (isByte : ByteOf bits 0 base width)
    (inside : base + width ≤ out.length) : Moved bits dense (base + width) src (overwrite out base (List.replicate width 0)) := by
  have absent := absent_of_zero isByte
  have final : List.replicate width (0 : Int64) =
      (List.range' base (List.replicate width (0 : Int64)).length).map (cell bits dense) := by
    apply Eq.symm
    apply eq_replicate_iff.mpr
    constructor
    · rw [length_map, length_range', length_replicate]
    · intro value member
      obtain ⟨row, inRange, rfl⟩ := mem_map.mp member
      rw [length_replicate] at inRange
      obtain ⟨least, most⟩ := mem_range'_1.mp inRange
      have isAbsent := absent (row - base) (by omega)
      rw [Nat.add_sub_cancel' least] at isAbsent
      rw [cell, isAbsent]
      rfl
  have next := moved.write (by rwa [length_replicate]) final
  rwa [length_replicate, rankOf_absent bits absent, Nat.sub_self, Nat.add_zero] at next

/-- A byte of eight rows takes its values before it writes. -/
theorem Moved.ranked {base : Nat} {byte : UInt8} (moved : Moved bits dense base src out) (isByte : ByteOf bits byte base 8)
    (inside : base + 8 ≤ out.length) :
    (overwrite out base (rankedRows byte ((out.drop src).take 8) 8 0 0).1).length = out.length ∧
      Moved bits dense (base + 8) (src + (rankedRows byte ((out.drop src).take 8) 8 0 0).2)
        (overwrite out base (rankedRows byte ((out.drop src).take 8) 8 0 0).1) := by
  have rows : rankedRows byte ((dense.drop (rankOf bits base)).take 8) 8 0 0 = _ := rankedRows_spec isByte 8 0 0 rfl rfl
  rw [moved.pending, rows]
  dsimp only
  have length : ((List.range' (base + 0) 8).map (cell bits dense)).length = 8 := by rw [length_map, length_range']
  have next := moved.write (by rwa [length]) (show _ = _ by rw [length]; rfl)
  rw [length, ← Nat.zero_add (rankOf bits (base + 8) - _)] at next
  exact ⟨length_overwrite (by rwa [length]), next⟩

/-- Each byte moves the final rows on by its own. -/
theorem scatterLoop_spec {rows : Nat} (sized : bits.length = (rows + 7) / 8) (left : Nat) {chunk : Nat}
    (whole : chunk + left = bits.length) (isRows : out.length = rows) (moved : Moved bits dense (min (8 * chunk) rows) src out) :
    scatterLoop (bits.drop chunk) (8 * chunk) src out = (List.range rows).map (cell bits dense) := by
  induction left generalizing chunk src out with
  | zero =>
    have placed := moved.placed
    rw [drop_eq_nil_of_le (by omega), scatterLoop]
    rw [Nat.min_eq_right (by omega), ← isRows, take_length] at placed
    rw [← isRows]
    exact placed
  | succ left ih =>
    have inside : chunk < bits.length := by omega
    have later : min (8 * (chunk + 1)) rows = 8 * chunk + min (rows - 8 * chunk) 8 := by omega
    rw [Nat.min_eq_left (by omega)] at moved
    rw [drop_eq_getElem_cons inside, scatterLoop]
    by_cases settled : src = 8 * chunk
    · rw [if_pos settled, ← isRows]
      rw [settled] at moved
      exact moved.done
    · rw [if_neg settled, isRows]
      have isByte : ByteOf bits (bits[chunk] &&& UInt8.ofNat (0xff >>> (8 - min (rows - 8 * chunk) 8))) (8 * chunk)
          (min (rows - 8 * chunk) 8) := byteOf_masked (getElem?_eq_getElem inside) (Nat.min_le_right _ _)
      have within : 8 * chunk + min (rows - 8 * chunk) 8 ≤ out.length := by omega
      dsimp only
      by_cases empty : bits[chunk] &&& UInt8.ofNat (0xff >>> (8 - min (rows - 8 * chunk) 8)) = 0
      · rw [if_pos empty]
        rw [empty] at isByte
        have next := moved.skip isByte within
        rw [← later] at next
        have length : (overwrite out (8 * chunk) (List.replicate (min (rows - 8 * chunk) 8) 0)).length = rows := by
          rw [length_overwrite (by rwa [length_replicate]), isRows]
        exact ih (by omega) length next
      · rw [if_neg empty]
        by_cases wide : min (rows - 8 * chunk) 8 = 8 ∧ src + 8 ≤ rows
        · rw [if_pos wide]
          rw [wide.1] at isByte within later ⊢
          obtain ⟨length, next⟩ := moved.ranked isByte within
          rw [← later] at next
          exact ih (by omega) (length.trans isRows) next
        · rw [if_neg wide]
          obtain ⟨length, next⟩ := movedRows_spec isByte (min (rows - 8 * chunk) 8) 0 (Nat.zero_add _) within moved
          rw [← later] at next
          exact ih (by omega) (length.trans isRows) next

end Moves

/-- The values at the back of a buffer are moved to the present rows. -/
theorem scatterPresent_eq {bits : Bytes} {out dense : List Int64} (sized : bits.length = (out.length + 7) / 8)
    (counted : dense.length = rankOf bits out.length) :
    scatterPresent bits (overwrite out (out.length - dense.length) dense) dense.length =
      (List.range out.length).map (cell bits dense) := by
  have few := (rankOf_add_le bits 0 out.length).2
  rw [Nat.zero_add, rankOf_zero, Nat.zero_add] at few
  have inside : out.length - dense.length + dense.length ≤ out.length := by omega
  have length := length_overwrite inside
  have start : Moved bits dense (min (8 * 0) out.length) (out.length - dense.length)
      (overwrite out (out.length - dense.length) dense) := by
    rw [Nat.mul_zero, Nat.zero_min]
    constructor
    · exact Nat.zero_le _
    · rw [length, counted]
    · rfl
    · have front : (out.take (out.length - dense.length)).length = out.length - dense.length := by
        rw [length_take]
        omega
      have drop : ((out.take (out.length - dense.length)) ++ (dense ++ out.drop (out.length - dense.length + dense.length))).drop
          (out.length - dense.length) = dense ++ out.drop (out.length - dense.length + dense.length) := by
        rw [drop_append_of_le_length (by omega), drop_eq_nil_of_le (by omega), nil_append]
      rw [overwrite, append_assoc, drop, rankOf_zero, drop_zero, drop_eq_nil_of_le (by omega), append_nil]
    · rw [length, rankOf_zero]
      omega
  have moved := scatterLoop_spec sized bits.length (Nat.zero_add _) length start
  rw [scatterPresent, length]
  exact moved

/-- Decoding a page into the rows of a block counts the present rows, gives the row of each set bit the mapped value of its rank
and every other row zero, as a scatter of the decoded values into a fresh buffer does. -/
theorem decode_into_scatters (enc : Enc) (bytes bits : Bytes) (out : List Int64) (map : Int64 → Except CodecError Int64)
    (sized : bits.length = (out.length + 7) / 8) :
    decodeI64Into enc bytes (some bits) out map = (do
        let dense ← decodeDense enc bytes (rankOf bits out.length) map
        return (rankOf bits out.length, (List.range out.length).map (cell bits dense))) ∧
      ∀ dense, decodeDense enc bytes (rankOf bits out.length) map = .ok dense ↔
        ∃ values, decodeI64 enc bytes (rankOf bits out.length) = .ok values ∧ values.mapM map = .ok dense := by
  refine ⟨?_, fun dense => decodeDense_eq_ok⟩
  rw [decodeI64Into, countPresent_eq sized]
  show (decodeDense enc bytes (rankOf bits out.length) map >>= fun values =>
    pure (rankOf bits out.length, scatterPresent bits (overwrite out (out.length - rankOf bits out.length) values)
      (rankOf bits out.length))) = _
  apply bind_congr_ok
  intro dense decoded
  have counted := length_decodeDense decoded
  rw [← counted, scatterPresent_eq sized counted]

/-- A page of two values into rows of which the second and the third are present. A bit of the padding is set. -/
theorem decode_into_scatters_padding :
    decodeI64Into .plain [2, 6] (some [0b10000110]) [9, 9, 9, 9] .ok = .ok (2, [0, 1, 3, 0]) := by
  rw [(decode_into_scatters .plain [2, 6] [0b10000110] [9, 9, 9, 9] .ok (by decide)).1]
  decide +kernel

end Ravel.Codec
