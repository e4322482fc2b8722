import Ravel.Proof.Codec.IntegerRoundTrip

namespace Ravel.Codec

open List Logs Library

theorem length_encodeI64_le_candidate (values : List Int64) :
    ∀ candidate ∈ candidatesI64 values (values.headD 0), (encodeI64 values).2.length ≤ candidate.2.length := by
  intro candidate member
  cases values with
  | nil => exact Nat.zero_le _
  | cons first rest =>
    rw [headD_cons] at member
    rw [encodeI64]
    cases kept : (candidatesI64 (first :: rest) first).foldl keepSmaller none with
    | none => exact Nat.zero_le _
    | some best => exact (keepSmaller_le _ _ kept).2 candidate member

/-- A kept packed page holds the packed offsets. -/
theorem encodeI64_packed {first : Int64} {rest : List Int64} (packed : (encodeI64 (first :: rest)).1 = .forBitpack) :
    (encodeI64 (first :: rest)).2 = encForI64 (first :: rest) := by
  have member := encodeI64_mem first rest
  simp only [candidatesI64, mem_append, mem_cons, not_mem_nil, or_false, mem_map] at member
  rcases member with (((constant | rle | plain) | ⟨bytes, _, delta⟩) | ⟨bytes, _, doubleDelta⟩) | packedPage
  · split at constant
    · rw [mem_singleton.mp constant] at packed
      cases packed
    · cases constant
  · rw [rle] at packed
    cases packed
  · rw [plain] at packed
    cases packed
  · rw [← delta] at packed
    cases packed
  · rw [← doubleDelta] at packed
    cases packed
  · rw [packedPage]

theorem fits_of_read_back {values : List Int64}
    (readBack : decodeI64 (encodeI64 values).1 (encodeI64 values).2 values.length = .ok values)
    (packed : (encodeI64 values).1 = .forBitpack) : values.length * packedWidth values < 2 ^ 64 := by
  by_contra exceeds
  cases values with
  | nil => exact exceeds (by rw [length_nil, Nat.zero_mul]; decide)
  | cons first rest =>
    rw [packed, encodeI64_packed packed, decodeI64_for_overflow (Nat.le_of_not_lt exceeds)] at readBack
    cases readBack

/-- The page of a list is read back exactly when it is not a packed page whose bits a word does not count. The kept bytes are no
longer than any candidate's. -/
theorem integer_page_read_back (values : List Int64) (counted : values.length < 2 ^ 64) :
    (decodeI64 (encodeI64 values).1 (encodeI64 values).2 values.length = .ok values ↔
      ((encodeI64 values).1 = .forBitpack → values.length * packedWidth values < 2 ^ 64)) ∧
    (values.length < 2 ^ 58 → decodeI64 (encodeI64 values).1 (encodeI64 values).2 values.length = .ok values) ∧
    ∀ candidate ∈ candidatesI64 values (values.headD 0), (encodeI64 values).2.length ≤ candidate.2.length := by
  refine ⟨⟨fits_of_read_back, decodeI64_encodeI64_of_fits counted⟩, ?_, length_encodeI64_le_candidate values⟩
  intro short
  exact decodeI64_encodeI64 (by omega)

/-- The page of three values with a difference that overflows. -/
theorem integer_page_read_back_extremes :
    decodeI64 (encodeI64 [Int64.minValue, Int64.maxValue, 0]).1 (encodeI64 [Int64.minValue, Int64.maxValue, 0]).2 3 =
      .ok [Int64.minValue, Int64.maxValue, 0] :=
  (integer_page_read_back [Int64.minValue, Int64.maxValue, 0] (by decide)).2.1 (by decide)

section LongPages

/-- The least and the greatest value by turns. -/
def alternating (pairs : Nat) : List Int64 :=
  (List.replicate pairs [Int64.minValue, Int64.maxValue]).flatten

variable (pairs : Nat)

theorem alternating_succ : alternating (pairs + 1) = Int64.minValue :: Int64.maxValue :: alternating pairs := rfl

theorem length_alternating : (alternating pairs).length = 2 * pairs := by
  rw [alternating, length_flatten, map_replicate, sum_replicate]
  show pairs * 2 = 2 * pairs
  omega

theorem length_encPlainI64_alternating : (encPlainI64 (alternating pairs)).length = 20 * pairs := by
  induction pairs with
  | zero => rfl
  | succ pairs ih =>
    rw [encPlainI64] at ih
    rw [encPlainI64, alternating_succ, flatMap_cons, flatMap_cons, length_append, length_append,
      ih, show (putIvarint Int64.minValue).length = 10 by decide +kernel,
      show (putIvarint Int64.maxValue).length = 10 by decide +kernel]
    omega

theorem foldl_pushRun_alternating {runs : List (Int64 × Nat)} (before : ∀ run ∈ runs.getLast?, run.1 ≠ Int64.minValue) :
    (alternating pairs).foldl pushRun runs = runs ++ (List.replicate pairs [(Int64.minValue, 1), (Int64.maxValue, 1)]).flatten := by
  induction pairs generalizing runs with
  | zero => exact (append_nil runs).symm
  | succ pairs ih =>
    have first : pushRun runs Int64.minValue = runs ++ [(Int64.minValue, 1)] := by
      rw [pushRun]
      cases last : runs.getLast? with
      | none =>
        rw [getLast?_eq_none_iff.mp last]
        rfl
      | some run =>
        dsimp only
        rw [if_neg (before run last)]
    have second : pushRun (runs ++ [(Int64.minValue, 1)]) Int64.maxValue =
        runs ++ [(Int64.minValue, 1), (Int64.maxValue, 1)] := by
      rw [pushRun, getLast?_concat]
      dsimp only
      rw [if_neg (by decide), append_assoc]
      rfl
    have last : ∀ run ∈ (runs ++ [(Int64.minValue, 1), (Int64.maxValue, 1)]).getLast?, run.1 ≠ Int64.minValue := by
      intro run isLast
      rw [getLast?_append] at isLast
      cases isLast
      decide
    rw [alternating_succ, foldl_cons, foldl_cons, first, second, ih last, replicate_succ,
      flatten_cons, append_assoc]

theorem length_encRleI64_alternating : 22 * pairs ≤ (encRleI64 (alternating pairs)).length := by
  have runs : (alternating pairs).foldl pushRun [] = _ := foldl_pushRun_alternating pairs fun _ absurd => (by cases absurd)
  rw [nil_append] at runs
  rw [encRleI64, runs, length_append]
  apply Nat.le_add_left_of_le
  clear runs
  induction pairs with
  | zero => exact Nat.le_refl 0
  | succ pairs ih =>
    rw [replicate_succ, flatten_cons, flatMap_append, length_append]
    have pair : ([(Int64.minValue, 1), (Int64.maxValue, 1)].flatMap fun run : Int64 × Nat =>
        putIvarint run.1 ++ putUvarint (UInt64.ofNat run.2)).length = 22 := by decide +kernel
    rw [pair]
    omega

theorem minI64_alternating : minI64 (alternating (pairs + 1)) = Int64.minValue := by
  have least : minI64 (alternating (pairs + 1)) ≤ Int64.minValue := minI64_le (by rw [alternating_succ]; exact mem_cons_self)
  exact Int64.le_antisymm least (Int64.minValue_le _)

theorem maxI64_alternating : maxI64 (alternating (pairs + 1)) = Int64.maxValue := by
  have greatest : Int64.maxValue ≤ maxI64 (alternating (pairs + 1)) :=
    le_maxI64 (by rw [alternating_succ]; exact mem_cons_of_mem _ mem_cons_self)
  exact Int64.le_antisymm (Int64.le_maxValue _) greatest

theorem packedWidth_alternating : packedWidth (alternating (pairs + 1)) = 64 := by
  rw [packedWidth, minI64_alternating, maxI64_alternating]
  decide +kernel

theorem length_encForI64_alternating : (encForI64 (alternating (pairs + 1))).length = 16 * (pairs + 1) + 11 := by
  have packed := (littleEndian_packBits (show 0 < 64 by decide) (Nat.le_refl 64)
    ((alternating (pairs + 1)).map (offsetFrom Int64.minValue))).2
  have width := packedWidth_alternating pairs
  rw [packedWidth] at width
  rw [encForI64, width, minI64_alternating, length_append, length_cons, packed, length_map, length_alternating,
    show (putIvarint Int64.minValue).length = 10 by decide +kernel]
  omega

/-- Differences overflow, so the packed page is the shortest. -/
theorem encodeI64_alternating {pairs : Nat} (several : 2 ≤ pairs) : (encodeI64 (alternating (pairs + 1))).1 = .forBitpack := by
  have member := encodeI64_mem Int64.minValue (Int64.maxValue :: alternating pairs)
  have shortest := length_encodeI64_le_candidate (alternating (pairs + 1)) (.forBitpack, encForI64 (alternating (pairs + 1)))
    (by simp [candidatesI64])
  have plainLength := length_encPlainI64_alternating (pairs + 1)
  have rleLength := length_encRleI64_alternating (pairs + 1)
  dsimp only at shortest
  rw [length_encForI64_alternating] at shortest
  rw [← alternating_succ] at member
  simp only [candidatesI64, mem_append, mem_cons, not_mem_nil, or_false, mem_map, Option.mem_toList] at member
  rcases member with (((constant | rle | plain) | ⟨bytes, delta, _⟩) | ⟨bytes, doubleDelta, _⟩) | packed
  · have different : ¬((alternating (pairs + 1)).all fun value => value = Int64.minValue) = true := by
      intro same
      have last := all_eq_true.mp same Int64.maxValue
        (by rw [alternating_succ]; exact mem_cons_of_mem _ mem_cons_self)
      exact absurd (of_decide_eq_true last) (by decide)
    rw [if_neg different] at constant
    cases constant
  · rw [rle] at shortest
    dsimp only at shortest
    omega
  · rw [plain] at shortest
    dsimp only at shortest
    omega
  · cases delta
  · cases doubleDelta
  · rw [packed]

end LongPages

/-- A slice of the least and the greatest value by turns whose packed bits a word does not count. -/
theorem long_page_not_read_back :
    (alternating (2 ^ 57)).length = 2 ^ 58 ∧
      ¬decodeI64 (encodeI64 (alternating (2 ^ 57))).1 (encodeI64 (alternating (2 ^ 57))).2 (alternating (2 ^ 57)).length =
        .ok (alternating (2 ^ 57)) := by
  have length : (alternating (2 ^ 57)).length = 2 ^ 58 := length_alternating _
  have pairs : 2 ^ 57 = 2 ^ 57 - 1 + 1 := by decide
  have packed : (encodeI64 (alternating (2 ^ 57))).1 = .forBitpack := by
    rw [pairs]
    exact encodeI64_alternating (by decide)
  have width : packedWidth (alternating (2 ^ 57)) = 64 := by
    rw [pairs]
    exact packedWidth_alternating _
  refine ⟨length, ?_⟩
  intro readBack
  have fits := fits_of_read_back readBack packed
  rw [length, width] at fits
  exact absurd fits (by decide)

end Ravel.Codec
