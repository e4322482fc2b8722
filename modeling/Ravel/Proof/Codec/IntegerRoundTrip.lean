import Ravel.Proof.Codec.PackedBits

namespace Ravel.Codec

open List Logs Library

/-- A checked value is the integer that it stands for. -/
theorem ofIntChecked_eq_some {value : Int} {result : Int64} : ofIntChecked value = some result ↔ result.toInt = value := by
  have least := result.le_toInt
  have greatest := result.toInt_lt
  rw [ofIntChecked]
  constructor
  · intro checked
    split at checked
    · rename_i within
      cases checked
      exact Int64.toInt_ofInt_of_le within.1 within.2
    · cases checked
  · rintro rfl
    rw [if_pos ⟨least, greatest⟩, Int64.ofInt_toInt]

/-- Adding a checked difference gives the value back. -/
theorem checkedAdd_of_checkedSub {left right delta : Int64} (checked : checkedSub left right = some delta) :
    checkedAdd right delta = some left := by
  rw [checkedSub, ofIntChecked_eq_some] at checked
  rw [checkedAdd, ofIntChecked_eq_some]
  omega

theorem mapM_ok {Value : Type} (values : List Value) :
    (values.mapM fun value => (Except.ok value : Except CodecError Value)) = .ok values := by
  induction values with
  | nil => rfl
  | cons value values ih =>
    rw [mapM_cons, ih]
    rfl

theorem putIvarint_ne_nil (value : Int64) : putIvarint value ≠ [] := by
  rw [putIvarint, putUvarint, maxVarintBytes, putUvarintLoop]
  split
  · exact cons_ne_nil _ _
  · exact cons_ne_nil _ _

/-- A value takes at least one byte. -/
theorem length_le_putIvarints (values : List Int64) : values.length ≤ (values.flatMap putIvarint).length := by
  induction values with
  | nil => exact Nat.le_refl 0
  | cons value values ih =>
    have positive := length_pos_iff.mpr (putIvarint_ne_nil value)
    rw [flatMap_cons, length_append, length_cons]
    omega

/-- The codecs that store one varint a value. -/
def StoresVarints : Enc → Prop
  | .plain | .deltaZigzag | .doubleDelta => True
  | _ => False

variable {values : List Int64} {value first : Int64} {bytes : Bytes} {runs : List (Int64 × Nat)} (range : UInt64)
  (candidates : List (Enc × Bytes)) (best : Option (Enc × Bytes))

/-- A page of varints is read back once its sums give the values. -/
theorem decodeI64_varints (enc : Enc) (storesVarints : StoresVarints enc) {stored : List Int64}
    (sums : sumsOf enc stored = (values, none)) :
    decodeI64 enc (stored.flatMap putIvarint) stored.length = .ok values := by
  have enough : ¬(stored.flatMap putIvarint).length < stored.length := by
    have bound := length_le_putIvarints stored
    omega
  have read : varintsInto (stored.flatMap putIvarint) stored.length = (stored, .ok []) := by
    have whole := readRemaining_put stored []
    rw [append_nil] at whole
    rw [varintsInto_eq, whole]
  have decoded : decodeVarints enc (stored.flatMap putIvarint) stored.length .ok = .ok (values, []) := by
    rw [decodeVarints, read]
    dsimp only
    rw [sums]
    dsimp only
    rw [show values.mapM Except.ok = .ok values from mapM_ok values]
    rfl
  cases enc with
  | plain =>
    rw [decodeI64, if_neg enough, decoded]
    rfl
  | deltaZigzag =>
    rw [decodeI64, if_neg enough, decoded]
    rfl
  | doubleDelta =>
    rw [decodeI64, if_neg enough, decoded]
    rfl
  | _ => exact absurd storesVarints id

theorem decodeI64_plain (values : List Int64) : decodeI64 .plain (encPlainI64 values) values.length = .ok values :=
  decodeI64_varints .plain trivial rfl

theorem decodeI64_constant (same : ∀ other ∈ values, other = value) :
    decodeI64 .constant (encConstantI64 value) values.length = .ok values := by
  have read := getIvarint_put value []
  rw [append_nil] at read
  rw [decodeI64, encConstantI64, read]
  show Except.ok (List.replicate values.length value) = _
  rw [← eq_replicate_of_mem same]

theorem deltaSumsFrom_checkedDeltas {rest deltas : List Int64} (checked : checkedDeltas (first :: rest) = some deltas) :
    deltaSumsFrom first deltas = (rest, none) := by
  induction rest generalizing first deltas with
  | nil =>
    cases checked
    rfl
  | cons second rest ih =>
    rw [checkedDeltas, Option.bind_eq_bind, Option.bind_eq_some_iff] at checked
    obtain ⟨delta, isDelta, checked⟩ := checked
    rw [Option.bind_eq_bind, Option.bind_eq_some_iff] at checked
    obtain ⟨later, isLater, isDeltas⟩ := checked
    cases isDeltas
    rw [deltaSumsFrom, checkedAdd_of_checkedSub isDelta]
    dsimp only
    rw [ih isLater]

theorem checkedDeltas_length {rest deltas : List Int64} (checked : checkedDeltas (first :: rest) = some deltas) :
    deltas.length = rest.length := by
  induction rest generalizing first deltas with
  | nil =>
    cases checked
    rfl
  | cons second rest ih =>
    rw [checkedDeltas, Option.bind_eq_bind, Option.bind_eq_some_iff] at checked
    obtain ⟨delta, -, checked⟩ := checked
    rw [Option.bind_eq_bind, Option.bind_eq_some_iff] at checked
    obtain ⟨later, isLater, isDeltas⟩ := checked
    cases isDeltas
    rw [length_cons, length_cons, ih isLater]

theorem decodeI64_delta (encoded : encDeltaI64 values = some bytes) :
    decodeI64 .deltaZigzag bytes values.length = .ok values := by
  cases values with
  | nil =>
    cases encoded
    have decoded : decodeI64 .deltaZigzag (([] : List Int64).flatMap putIvarint) 0 = .ok [] :=
      decodeI64_varints .deltaZigzag trivial rfl
    exact decoded
  | cons first rest =>
    rw [encDeltaI64, Option.bind_eq_bind, Option.bind_eq_some_iff] at encoded
    obtain ⟨deltas, checked, isBytes⟩ := encoded
    cases isBytes
    have sums : sumsOf .deltaZigzag (first :: deltas) = (first :: rest, none) := by
      rw [sumsOf, deltaSums, deltaSumsFrom_checkedDeltas checked]
    have decoded := decodeI64_varints .deltaZigzag trivial sums
    rwa [length_cons, checkedDeltas_length checked] at decoded

/-- The sums of checked second differences are the values. -/
theorem doubleDeltaSumsFrom_checked {previous prevDelta : Int64} {rest dods : List Int64}
    (checked : checkedDoubleDeltas prevDelta (previous :: rest) = some dods) :
    doubleDeltaSumsFrom previous prevDelta dods = (rest, none) ∧ dods.length = rest.length := by
  induction rest generalizing previous prevDelta dods with
  | nil =>
    cases checked
    exact ⟨rfl, rfl⟩
  | cons value rest ih =>
    rw [checkedDoubleDeltas, Option.bind_eq_bind, Option.bind_eq_some_iff] at checked
    obtain ⟨delta, isDelta, checked⟩ := checked
    rw [Option.bind_eq_bind, Option.bind_eq_some_iff] at checked
    obtain ⟨dod, isDod, checked⟩ := checked
    rw [Option.bind_eq_some_iff] at checked
    obtain ⟨later, isLater, isDods⟩ := checked
    cases isDods
    obtain ⟨sums, length⟩ := ih isLater
    rw [doubleDeltaSumsFrom, checkedAdd_of_checkedSub isDod]
    dsimp only
    rw [checkedAdd_of_checkedSub isDelta]
    dsimp only
    rw [sums, length_cons, length_cons, length]
    exact ⟨rfl, rfl⟩

theorem decodeI64_doubleDelta (encoded : encDoubleDeltaI64 values = some bytes) :
    decodeI64 .doubleDelta bytes values.length = .ok values := by
  match values with
  | [] =>
    cases encoded
    have decoded : decodeI64 .doubleDelta (([] : List Int64).flatMap putIvarint) 0 = .ok [] :=
      decodeI64_varints .doubleDelta trivial rfl
    exact decoded
  | [first] =>
    cases encoded
    have decoded : decodeI64 .doubleDelta ([first].flatMap putIvarint) 1 = .ok [first] :=
      decodeI64_varints .doubleDelta trivial rfl
    rwa [flatMap_singleton] at decoded
  | first :: second :: rest =>
    rw [encDoubleDeltaI64, Option.bind_eq_bind, Option.bind_eq_some_iff] at encoded
    obtain ⟨delta, isDelta, encoded⟩ := encoded
    rw [Option.bind_eq_bind, Option.bind_eq_some_iff] at encoded
    obtain ⟨dods, checked, isBytes⟩ := encoded
    cases isBytes
    obtain ⟨later, length⟩ := doubleDeltaSumsFrom_checked checked
    have sums : sumsOf .doubleDelta (first :: delta :: dods) = (first :: second :: rest, none) := by
      rw [sumsOf, doubleDeltaSums, checkedAdd_of_checkedSub isDelta]
      dsimp only
      rw [later]
    have decoded := decodeI64_varints .doubleDelta trivial sums
    rwa [length_cons, length_cons, length, flatMap_cons, flatMap_cons, ← append_assoc] at decoded

/-- The values that runs stand for. -/
def runValues (runs : List (Int64 × Nat)) : List Int64 :=
  runs.flatMap fun run => List.replicate run.2 run.1

theorem runValues_pushRun (runs : List (Int64 × Nat)) (value : Int64) :
    runValues (pushRun runs value) = runValues runs ++ [value] := by
  rw [pushRun]
  cases last : runs.getLast? with
  | none =>
    rw [getLast?_eq_none_iff] at last
    subst last
    rfl
  | some run =>
    obtain ⟨runValue, length⟩ := run
    have split := dropLast_append_getLast? (runValue, length) last
    dsimp only
    by_cases same : runValue = value
    · subst same
      rw [if_pos rfl]
      conv_rhs => rw [← split]
      simp [runValues, replicate_succ']
    · rw [if_neg same]
      simp [runValues]

theorem runValues_foldl (runs : List (Int64 × Nat)) (values : List Int64) :
    runValues (values.foldl pushRun runs) = runValues runs ++ values := by
  induction values generalizing runs with
  | nil => rw [foldl_nil, append_nil]
  | cons value values ih =>
    rw [foldl_cons, ih, runValues_pushRun, append_assoc, singleton_append]

/-- No run is empty. -/
def NonemptyRuns (runs : List (Int64 × Nat)) : Prop :=
  ∀ run ∈ runs, 0 < run.2

theorem NonemptyRuns.pushRun (nonempty : NonemptyRuns runs) (value : Int64) : NonemptyRuns (pushRun runs value) := by
  intro run member
  rw [Codec.pushRun] at member
  cases last : runs.getLast? with
  | none =>
    rw [last, mem_singleton] at member
    rw [member]
    exact Nat.zero_lt_one
  | some found =>
    obtain ⟨runValue, length⟩ := found
    rw [last] at member
    dsimp only at member
    split at member
    · rcases mem_append.mp member with earlier | new
      · exact nonempty run (dropLast_subset _ earlier)
      · rw [mem_singleton.mp new]
        exact Nat.succ_pos _
    · rcases mem_append.mp member with earlier | new
      · exact nonempty run earlier
      · rw [mem_singleton.mp new]
        exact Nat.zero_lt_one

theorem NonemptyRuns.foldl (nonempty : NonemptyRuns runs) (values : List Int64) :
    NonemptyRuns (values.foldl Codec.pushRun runs) := by
  induction values generalizing runs with
  | nil => exact nonempty
  | cons value values ih => exact ih (nonempty.pushRun value)

theorem NonemptyRuns.length_le (nonempty : NonemptyRuns runs) : runs.length ≤ (runValues runs).length := by
  induction runs with
  | nil => exact Nat.le_refl 0
  | cons run runs ih =>
    have positive := nonempty run mem_cons_self
    have later := ih fun other member => nonempty other (mem_cons_of_mem _ member)
    rw [runValues, flatMap_cons, length_append, length_replicate, length_cons]
    rw [runValues] at later
    omega

/-- The loop reads the runs back while they stay within the count. -/
theorem decodeRleLoop_spec (nonempty : NonemptyRuns runs) {total count : Nat}
    (sum : total + (runValues runs).length = count) (within : count < 2 ^ 64) (rest : Bytes) :
    decodeRleLoop count .ok runs.length total
        ((runs.flatMap fun run => putIvarint run.1 ++ putUvarint (UInt64.ofNat run.2)) ++ rest) =
      .ok (runValues runs, rest) := by
  induction runs generalizing total with
  | nil =>
    rw [length_nil, decodeRleLoop, if_pos (by simpa [runValues] using sum)]
    rfl
  | cons run runs ih =>
    obtain ⟨value, length⟩ := run
    have positive : 0 < length := nonempty _ mem_cons_self
    rw [runValues, flatMap_cons, length_append, length_replicate] at sum
    have lengthKept : (UInt64.ofNat length).toNat = length := by
      rw [UInt64.toNat_ofNat', Nat.mod_eq_of_lt (by omega)]
    have later := ih (fun other member => nonempty other (mem_cons_of_mem _ member))
      (show total + length + (runValues runs).length = count by rw [runValues]; omega)
    rw [length_cons, flatMap_cons, append_assoc, append_assoc, decodeRleLoop, getIvarint_put]
    dsimp only [bind, Except.bind]
    rw [getUvarint_put]
    dsimp only
    rw [lengthKept, if_neg (by omega), if_neg (by omega), if_pos positive]
    dsimp only [Functor.map, Except.map]
    rw [later]
    rfl

theorem decodeI64_rle (within : values.length < 2 ^ 64) :
    decodeI64 .rle (encRleI64 values) values.length = .ok values := by
  have nonempty : NonemptyRuns (values.foldl pushRun []) := NonemptyRuns.foldl (fun _ absurd => (by cases absurd)) values
  have whole : runValues (values.foldl pushRun []) = values := by
    rw [runValues_foldl]
    rfl
  have short := nonempty.length_le
  rw [whole] at short
  have counted : (UInt64.ofNat (values.foldl pushRun []).length).toNat = (values.foldl pushRun []).length := by
    rw [UInt64.toNat_ofNat', Nat.mod_eq_of_lt (by omega)]
  have sum : 0 + (runValues (values.foldl pushRun [])).length = values.length := by rw [whole, Nat.zero_add]
  have read := decodeRleLoop_spec nonempty sum within []
  rw [append_nil, whole] at read
  rw [decodeI64, decodeRle, encRleI64]
  dsimp only
  rw [getUvarint_put]
  dsimp only [bind, Except.bind]
  rw [counted, read]
  rfl

/-- A signed value in terms of its bits. -/
theorem toInt_eq_toNat_cond (value : Int64) : value.toInt =
    if 2 * value.toUInt64.toNat < 2 ^ 64 then (value.toUInt64.toNat : Int) else value.toUInt64.toNat - 2 ^ 64 :=
  BitVec.toInt_eq_toNat_cond value.toBitVec

theorem toNat_offsetFrom {base : Int64} (above : base ≤ value) :
    ((offsetFrom base value).toNat : Int) = value.toInt - base.toInt := by
  have ordered := Int64.le_iff_toInt_le.mp above
  have valueBits := toInt_eq_toNat_cond value
  have baseBits := toInt_eq_toNat_cond base
  have valueLimit := value.toUInt64.toNat_lt
  have baseLimit := base.toUInt64.toNat_lt
  rw [offsetFrom, UInt64.toNat_sub]
  split at valueBits <;> split at baseBits <;> omega

theorem widthFor_le : widthFor range ≤ 64 := by
  rw [widthFor]
  split
  · exact Nat.zero_le _
  · exact Nat.sub_le _ _

theorem lt_two_pow_widthFor : range.toNat < 2 ^ widthFor range := by
  rw [widthFor]
  split
  · rename_i zero
    rw [zero]
    decide
  · exact BitVec.toNat_lt_two_pow_sub_clz

theorem minI64_le (member : value ∈ values) : minI64 values ≤ value := by
  cases least : values.min? with
  | none =>
    rw [min?_eq_none_iff] at least
    rw [least] at member
    cases member
  | some found =>
    rw [minI64, least]
    exact (min?_eq_some_iff.mp least).2 value member

instance lawfulMaxInt64 : Std.LawfulOrderLeftLeaningMax Int64 where
  max_eq_left left right below := by
    show (if left ≤ right then right else left) = left
    split
    · rename_i above
      exact Int64.le_antisymm below above
    · rfl
  max_eq_right left right notBelow := by
    show (if left ≤ right then right else left) = right
    rw [if_pos (Int64.le_of_lt (Int64.not_le.mp notBelow))]

theorem le_maxI64 (member : value ∈ values) : value ≤ maxI64 values := by
  cases greatest : values.max? with
  | none =>
    rw [max?_eq_none_iff] at greatest
    rw [greatest] at member
    cases member
  | some found =>
    rw [maxI64, greatest]
    exact (max?_eq_some_iff.mp greatest).2 value member

/-- Every offset fits the width of the range. -/
theorem offset_lt (member : value ∈ values) :
    (offsetFrom (minI64 values) value).toNat < 2 ^ widthFor (offsetFrom (minI64 values) (maxI64 values)) := by
  have low := minI64_le member
  have high := le_maxI64 member
  have ordered := Int64.le_iff_toInt_le.mp high
  have offset := toNat_offsetFrom low
  have range := toNat_offsetFrom (Int64.le_trans low high)
  have bound := lt_two_pow_widthFor (offsetFrom (minI64 values) (maxI64 values))
  omega

theorem checkPackedLen_packBits {bitWidth : Nat} (within : bitWidth ≤ 64) (offsets : List UInt64)
    (fits : offsets.length * bitWidth < 2 ^ 64) : checkPackedLen (packBits offsets bitWidth) offsets.length bitWidth = .ok () := by
  rw [checkPackedLen, if_neg (by omega)]
  split
  · rename_i zero
    rw [packBits, if_pos zero]
    rfl
  · rename_i positive
    rw [if_neg (by omega)]
    dsimp only
    rw [if_pos (littleEndian_packBits (by omega) within offsets).2]

/-- The bits of each packed offset. -/
def packedWidth (values : List Int64) : Nat :=
  widthFor (offsetFrom (minI64 values) (maxI64 values))

theorem packedWidth_le (values : List Int64) : packedWidth values ≤ 64 :=
  widthFor_le _

/-- A packed page is read with the check of its length before its offsets. -/
theorem decodeI64_encForI64 (values : List Int64) (count : Nat) :
    decodeI64 .forBitpack (encForI64 values) count = do
      checkPackedLen (packBits (values.map (offsetFrom (minI64 values))) (packedWidth values)) count (packedWidth values)
      return unpackFor (packBits (values.map (offsetFrom (minI64 values))) (packedWidth values)) (packedWidth values)
        (minI64 values) count := by
  have within := packedWidth_le values
  have stored : (UInt8.ofNat (packedWidth values)).toNat = packedWidth values := by
    rw [UInt8.toNat_ofNat', Nat.mod_eq_of_lt (by omega)]
  rw [decodeI64, encForI64]
  dsimp only
  rw [forHeader, getIvarint_put, ← packedWidth]
  dsimp only [bind, Except.bind]
  rw [stored]
  cases checkPackedLen (packBits (values.map (offsetFrom (minI64 values))) (packedWidth values)) count (packedWidth values) <;> rfl

theorem decodeI64_for (fits : values.length * packedWidth values < 2 ^ 64) :
    decodeI64 .forBitpack (encForI64 values) values.length = .ok values := by
  have within := packedWidth_le values
  have checked := checkPackedLen_packBits within (values.map (offsetFrom (minI64 values))) (by rwa [length_map])
  rw [length_map] at checked
  have unpacked := unpackFor_packBits within fun value member => offset_lt member
  rw [decodeI64_encForI64, checked, unpacked]
  rfl

/-- The reader refuses a page whose packed bits a word does not count. -/
theorem decodeI64_for_overflow (exceeds : 2 ^ 64 ≤ values.length * packedWidth values) :
    decodeI64 .forBitpack (encForI64 values) values.length = .error (.corrupted "packed length overflow") := by
  have within := packedWidth_le values
  have positive : packedWidth values ≠ 0 := by
    intro zero
    rw [zero, Nat.mul_zero] at exceeds
    omega
  rw [decodeI64_encForI64, checkPackedLen, if_neg (by omega), if_neg positive, if_pos exceeds]
  rfl

/-- A candidate is read back. -/
def ReadsBack (values : List Int64) (candidate : Enc × Bytes) : Prop :=
  decodeI64 candidate.1 candidate.2 values.length = .ok values

theorem candidates_readBack (counted : values.length < 2 ^ 64) (first : Int64) :
    ∀ candidate ∈ candidatesI64 values first,
      (candidate.1 = .forBitpack → values.length * packedWidth values < 2 ^ 64) → ReadsBack values candidate := by
  intro candidate member fits
  simp only [candidatesI64, mem_append, mem_cons, not_mem_nil, or_false, mem_map, Option.mem_toList] at member
  rcases member with (((constant | rle | plain) | ⟨bytes, delta, rfl⟩) | ⟨bytes, doubleDelta, rfl⟩) | packed
  · split at constant
    · rename_i same
      rw [mem_singleton.mp constant]
      apply decodeI64_constant
      simpa using same
    · cases constant
  · rw [rle]
    exact decodeI64_rle counted
  · rw [plain]
    exact decodeI64_plain values
  · exact decodeI64_delta delta
  · exact decodeI64_doubleDelta doubleDelta
  · rw [packed] at fits ⊢
    exact decodeI64_for (fits rfl)

/-- The candidate that is kept is one of them. -/
theorem keepSmaller_mem :
    ∀ kept, candidates.foldl keepSmaller best = some kept → best = some kept ∨ kept ∈ candidates := by
  induction candidates generalizing best with
  | nil =>
    intro kept same
    exact .inl same
  | cons candidate candidates ih =>
    intro kept same
    rcases ih (keepSmaller best candidate) kept same with held | later
    · cases best with
      | none =>
        cases held
        exact .inr mem_cons_self
      | some earlier =>
        rw [keepSmaller] at held
        split at held
        · exact .inl held
        · cases held
          exact .inr mem_cons_self
    · exact .inr (mem_cons_of_mem _ later)

theorem keepSmaller_some {best : Option (Enc × Bytes)} (started : best.isSome) :
    (candidates.foldl keepSmaller best).isSome := by
  induction candidates generalizing best with
  | nil => exact started
  | cons candidate candidates ih =>
    apply ih
    obtain ⟨kept, rfl⟩ := Option.isSome_iff_exists.mp started
    rw [keepSmaller]
    split <;> rfl

/-- The candidate that is kept is no longer than any of them. -/
theorem keepSmaller_le {kept : Enc × Bytes} (held : candidates.foldl keepSmaller best = some kept) :
    (∀ earlier, best = some earlier → kept.2.length ≤ earlier.2.length) ∧
      ∀ candidate ∈ candidates, kept.2.length ≤ candidate.2.length := by
  induction candidates generalizing best with
  | nil =>
    refine ⟨?_, fun _ absurd => (by cases absurd)⟩
    rintro earlier rfl
    cases held
    exact Nat.le_refl _
  | cons candidate candidates ih =>
    obtain ⟨fromBest, fromLater⟩ := ih (keepSmaller best candidate) held
    have step : (∀ earlier, best = some earlier → kept.2.length ≤ earlier.2.length) ∧
        kept.2.length ≤ candidate.2.length := by
      cases best with
      | none => exact ⟨fun _ absurd => (by cases absurd), fromBest candidate rfl⟩
      | some earlier =>
        rw [keepSmaller] at fromBest
        split at fromBest
        · rename_i shorter
          have below := fromBest earlier rfl
          exact ⟨fun _ same => (by cases same; exact below), below.trans shorter⟩
        · rename_i longer
          have below := fromBest candidate rfl
          exact ⟨fun _ same => (by cases same; omega), below⟩
    refine ⟨step.1, ?_⟩
    intro other member
    rcases mem_cons.mp member with rfl | later
    · exact step.2
    · exact fromLater other later

theorem length_encPlainI64_le (values : List Int64) : (encPlainI64 values).length ≤ 10 * values.length := by
  induction values with
  | nil => exact Nat.le_refl 0
  | cons value values ih =>
    have few : (putIvarint value).length ≤ 10 := length_putUvarintLoop_le maxVarintBytes (zigzag value)
    rw [encPlainI64] at ih
    rw [encPlainI64, flatMap_cons, length_append, length_cons]
    omega

/-- What the writer of integers keeps takes at most a varint for each value. -/
theorem length_encodeI64_le (values : List Int64) : (encodeI64 values).2.length ≤ 10 * values.length := by
  cases values with
  | nil => exact Nat.le_refl 0
  | cons first rest =>
    have plain : (.plain, encPlainI64 (first :: rest)) ∈ candidatesI64 (first :: rest) first := by simp [candidatesI64]
    rw [encodeI64]
    cases kept : (candidatesI64 (first :: rest) first).foldl keepSmaller none with
    | none => exact Nat.zero_le _
    | some candidate => exact ((keepSmaller_le _ _ kept).2 _ plain).trans (length_encPlainI64_le _)

/-- What the writer of integers keeps is one of the candidates. -/
theorem encodeI64_mem (first : Int64) (rest : List Int64) :
    encodeI64 (first :: rest) ∈ candidatesI64 (first :: rest) first := by
  rw [encodeI64]
  cases kept : (candidatesI64 (first :: rest) first).foldl keepSmaller none with
  | none =>
    have nonempty : (.rle, encRleI64 (first :: rest)) ∈ candidatesI64 (first :: rest) first := by
      simp [candidatesI64]
    cases found : candidatesI64 (first :: rest) first with
    | nil =>
      rw [found] at nonempty
      cases nonempty
    | cons candidate candidates =>
      have keeps := keepSmaller_some candidates (show (keepSmaller none candidate).isSome from rfl)
      rw [found, foldl_cons] at kept
      rw [kept] at keeps
      cases keeps
  | some candidate =>
    rcases keepSmaller_mem _ _ _ kept with absurd | member
    · cases absurd
    · exact member

/-- What the writer of integers keeps is read back, unless it is a packed page whose bits a word does not count. -/
theorem decodeI64_encodeI64_of_fits (counted : values.length < 2 ^ 64)
    (fits : (encodeI64 values).1 = .forBitpack → values.length * packedWidth values < 2 ^ 64) :
    decodeI64 (encodeI64 values).1 (encodeI64 values).2 values.length = .ok values := by
  cases values with
  | nil => exact decodeI64_plain []
  | cons first rest => exact candidates_readBack counted first _ (encodeI64_mem first rest) fits

theorem mul_packedWidth_lt (short : values.length * 64 < 2 ^ 64) : values.length * packedWidth values < 2 ^ 64 :=
  lt_of_le_of_lt (Nat.mul_le_mul_left _ (packedWidth_le values)) short

theorem decodeI64_encodeI64 (short : values.length * 64 < 2 ^ 64) :
    decodeI64 (encodeI64 values).1 (encodeI64 values).2 values.length = .ok values :=
  decodeI64_encodeI64_of_fits (by omega) fun _ => mul_packedWidth_lt short

end Ravel.Codec
