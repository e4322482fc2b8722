import Ravel.Construction.Codec.Dictionaries
import Ravel.Library.FailingRuns
import Ravel.Proof.Codec.IntegerRoundTrip
import Ravel.Proof.Codec.UnpackedValues
import Ravel.Proof.Logs.CanonicalRoundTrip

namespace Ravel.Codec

open List Logs Library

theorem corrupt_ne_ok {Value : Type} {what : String} {value : Value} : corrupt what ≠ .ok value := by
  intro same
  cases same

theorem widthFor_le_of_lt {range : UInt64} {bits : Nat} (small : range.toNat < 2 ^ bits) : widthFor range ≤ bits := by
  rw [widthFor]
  split
  · exact Nat.zero_le _
  · rename_i positive
    by_contra wide
    have nonzero : range.toBitVec ≠ 0#64 := fun zero => positive (UInt64.toBitVec_inj.mp zero)
    have least := BitVec.two_pow_sub_clz_le_toNat_of_ne_zero (by decide) nonzero
    have grown : 2 ^ bits ≤ 2 ^ (64 - 1 - range.toBitVec.clz.toNat) := Nat.pow_le_pow_right (by decide) (by omega)
    exact absurd (le_trans grown least) (not_le.mpr small)

theorem unpackBits_packBits {bitWidth : Nat} (within : bitWidth ≤ 64) {values : List UInt64}
    (fits : ∀ value ∈ values, value.toNat < 2 ^ bitWidth) (counted : values.length * bitWidth < 2 ^ 64) :
    unpackBits (packBits values bitWidth) values.length bitWidth = .ok values := by
  have slice : (packBits values bitWidth).length < 2 ^ 64 := by
    by_cases zero : bitWidth = 0
    · rw [packBits, if_pos zero]
      decide
    · rw [(littleEndian_packBits (by omega) within values).2]
      omega
  rw [unpackBits_of_checked slice (checkPackedLen_packBits within values counted)]
  congr 1
  apply ext_getElem?
  intro index
  rw [getElem?_map]
  by_cases inside : index < values.length
  · rw [getElem?_range inside, getElem?_eq_getElem inside]
    have small := fits _ (getElem_mem inside)
    have digit : storedDigit (packBits values bitWidth) bitWidth index = values[index].toNat := by
      rw [storedDigit]
      by_cases zero : bitWidth = 0
      · subst zero
        have vanishes : values[index].toNat = 0 := by omega
        rw [vanishes, pow_zero, Nat.mod_one]
      · rw [(littleEndian_packBits (by omega) within values).1]
        exact packedDigit fits (getElem?_eq_getElem inside)
    rw [Option.map_some, digit, UInt64.ofNat_toNat]
  · rw [getElem?_eq_none (by rw [length_range]; omega), getElem?_eq_none (by omega)]
    rfl

/-- Ids below the size of the dictionary are read back. -/
theorem decodeDictIds_encode {ids : List UInt64} {dictCount : Nat} (sized : dictCount ≤ 2 ^ 16)
    (below : ∀ id ∈ ids, id.toNat < dictCount) (counted : ids.length < 2 ^ 60) :
    decodeDictIds (encodeDictIds ids dictCount) ids.length dictCount = .ok ids := by
  have last : (UInt64.ofNat (dictCount - 1)).toNat = dictCount - 1 := toNat_ofNat_of_lt (by omega)
  have narrow : widthFor (UInt64.ofNat (dictCount - 1)) ≤ 16 := widthFor_le_of_lt (by rw [last]; omega)
  have width : (UInt8.ofNat (widthFor (UInt64.ofNat (dictCount - 1)))).toNat = widthFor (UInt64.ofNat (dictCount - 1)) := by
    rw [UInt8.toNat_ofNat']
    omega
  have fits : ∀ id ∈ ids, id.toNat < 2 ^ widthFor (UInt64.ofNat (dictCount - 1)) := by
    intro id member
    have small := below id member
    have held := lt_two_pow_widthFor (UInt64.ofNat (dictCount - 1))
    omega
  have bits : ids.length * widthFor (UInt64.ofNat (dictCount - 1)) < 2 ^ 64 :=
    lt_of_le_of_lt (Nat.mul_le_mul_left _ narrow) (by omega)
  have unpacked := unpackBits_packBits (widthFor_le _) fits bits
  have accepted : ids.find? (fun id => decide (dictCount ≤ id.toNat)) = none := by
    apply find?_eq_none.mpr
    intro id member
    have small := below id member
    simpa using small
  show (unpackBits _ ids.length (UInt8.ofNat _).toNat >>= _) = _
  rw [width, unpacked]
  dsimp only [bind, Except.bind]
  rw [accepted]
  rfl

/-- An entry that the page holds in full is taken. -/
theorem takeEntry_append {bytes entry later : Bytes} (inside : entry ++ later <:+ bytes) (slice : bytes.length < 2 ^ 64)
    (truncated : String) : takeEntry bytes (entry ++ later) entry.length truncated = .ok (entry, later) := by
  have shorter := inside.length_le
  rw [length_append] at shorter
  rw [takeEntry, addUsize, length_append, if_pos (by omega)]
  show (if bytes.length < _ then _ else _) = _
  rw [if_neg (by omega), take_left, drop_left]
  rfl

section Entries

variable {Value : Type} {bytes : Bytes} {readEntry : Bytes → Except Fault (Value × Bytes)} {putEntry : Value → Bytes}

theorem readEntries_put {entries : List Value}
    (reads : ∀ entry ∈ entries, ∀ later, putEntry entry ++ later <:+ bytes → readEntry (putEntry entry ++ later) = .ok (entry, later))
    {later : Bytes} (inside : entries.flatMap putEntry ++ later <:+ bytes) :
    readEntries readEntry entries.length (entries.flatMap putEntry ++ later) = .ok (entries, later) := by
  induction entries with
  | nil => rfl
  | cons entry entries ih =>
    rw [flatMap_cons, append_assoc] at inside ⊢
    have rest := ih (fun other member => reads other (mem_cons_of_mem _ member))
      ((suffix_append _ _).trans inside)
    rw [length_cons, readEntries, reads entry mem_cons_self _ inside]
    show (readEntries readEntry entries.length _ >>= _) = _
    rw [rest]
    rfl

variable [LT Value] [DecidableLT Value]

/-- A dictionary page starts with the number of its entries. -/
theorem getUvarint_dictPage (putEntry : Value → Bytes) (values sorted : List Value) :
    getUvarint (dictPage putEntry values sorted) = .ok (UInt64.ofNat sorted.length, sorted.flatMap putEntry ++
      encodeDictIds (values.map fun value => UInt64.ofNat (entryOf sorted value)) sorted.length) := by
  rw [dictPage, append_assoc]
  exact getUvarint_put _ _

/-- A dictionary of more entries is refused. -/
theorem readDict_large {values sorted : List Value} (large : 2 ^ 16 < sorted.length) (counted : sorted.length < 2 ^ 64) (count : Nat) :
    readDict readEntry (dictPage putEntry values sorted) count = corrupt "dict_count too large" := by
  have exceeds : cap ((dictPage putEntry values sorted).length + 1) < (UInt64.ofNat sorted.length).toNat := by
    rw [toNat_ofNat_of_lt counted]
    exact lt_of_le_of_lt (Nat.min_le_right _ _) large
  rw [readDict, getUvarint_dictPage]
  exact if_pos exceeds

variable [LE Value] [DecidableLE Value] [DecidableEq Value]
  [Std.IsLinearOrder Value] [Std.LawfulOrderLT Value] {values : List Value}

/-- A dictionary that the reader makes room for is read back. -/
theorem readDict_dictPage (sized : (sortedDistinct values).length ≤ cap ((dictPage putEntry values (sortedDistinct values)).length + 1))
    (counted : values.length < 2 ^ 60)
    (reads : ∀ entry ∈ values, ∀ later, putEntry entry ++ later <:+ dictPage putEntry values (sortedDistinct values) →
      readEntry (putEntry entry ++ later) = .ok (entry, later)) :
    readDict readEntry (dictPage putEntry values (sortedDistinct values)) values.length =
      .ok (sortedDistinct values, values.map fun value => UInt64.ofNat (entryOf (sortedDistinct values) value)) := by
  have room : (sortedDistinct values).length ≤ 2 ^ 16 := le_trans sized (Nat.min_le_right _ _)
  have size : (UInt64.ofNat (sortedDistinct values).length).toNat = (sortedDistinct values).length := toNat_ofNat_of_lt (by omega)
  have below : ∀ id ∈ values.map (fun value => UInt64.ofNat (entryOf (sortedDistinct values) value)),
      id.toNat < (sortedDistinct values).length := by
    intro id member
    obtain ⟨value, isValue, rfl⟩ := mem_map.mp member
    have position := entryOf_lt (sortedDistinct_ascending values) (mem_sortedDistinct.mpr isValue)
    rw [toNat_ofNat_of_lt (by omega)]
    exact position
  have ids := decodeDictIds_encode room below (by rw [length_map]; exact counted)
  rw [length_map] at ids
  have entries := readEntries_put (fun entry member => reads entry (mem_sortedDistinct.mp member))
    (show (sortedDistinct values).flatMap putEntry ++ encodeDictIds _ (sortedDistinct values).length <:+ _ by
      rw [dictPage, append_assoc]
      exact suffix_append _ _)
  rw [readDict, getUvarint_dictPage]
  show (if cap _ < (UInt64.ofNat (sortedDistinct values).length).toNat then _ else _) = _
  rw [size, if_neg (by omega), entries]
  show (decodeDictIds _ _ _ >>= _) = _
  rw [ids]
  rfl

theorem mapM_entryAt (counted : (sortedDistinct values).length < 2 ^ 64) :
    (values.map fun value => UInt64.ofNat (entryOf (sortedDistinct values) value)).mapM
      (fun id => entryAt (sortedDistinct values) id.toNat) = .ok values := by
  rw [mapM_map]
  apply mapM_eq_ok.mpr
  apply forall₂_same.mpr
  intro value member
  have listed := mem_sortedDistinct.mpr member
  have position := entryOf_lt (sortedDistinct_ascending values) listed
  show entryAt _ (UInt64.ofNat _).toNat = _
  rw [toNat_ofNat_of_lt (by omega), entryAt, getElem?_entryOf (sortedDistinct_ascending values) listed]

/-- The values behind the ids of a page that the reader makes room for. -/
theorem readDict_values (few : (sortedDistinct values).length ≤ 2 ^ 16)
    (sized : (sortedDistinct values).length ≤ (dictPage putEntry values (sortedDistinct values)).length + 1)
    (counted : values.length < 2 ^ 60)
    (reads : ∀ entry ∈ values, ∀ later, putEntry entry ++ later <:+ dictPage putEntry values (sortedDistinct values) →
      readEntry (putEntry entry ++ later) = .ok (entry, later)) :
    ∃ ids, readDict readEntry (dictPage putEntry values (sortedDistinct values)) values.length = .ok (sortedDistinct values, ids) ∧
      ids.mapM (fun id => entryAt (sortedDistinct values) id.toNat) = .ok values ∧ ∀ id ∈ ids, id.toNat < 2 ^ 16 := by
  refine ⟨_, readDict_dictPage (Nat.le_min.mpr ⟨sized, few⟩) counted reads, mapM_entryAt (by omega), ?_⟩
  intro id member
  obtain ⟨value, isValue, rfl⟩ := mem_map.mp member
  have position := entryOf_lt (sortedDistinct_ascending values) (mem_sortedDistinct.mpr isValue)
  rw [toNat_ofNat_of_lt (by omega)]
  omega

end Entries

theorem length_le_dictPage {Value : Type} [LT Value] [DecidableLT Value] {put : Value → Bytes} {values sorted : List Value}
    (written : ∀ entry ∈ sorted, put entry ≠ []) : sorted.length ≤ (dictPage put values sorted).length := by
  have entries := length_le_flatMap written
  rw [dictPage, length_append, length_append]
  omega

/-- On a slice the saturation of the ratio makes no difference. -/
theorem dictIsWorthIt_iff {distinct total : Nat} (counted : total < 2 ^ 60) :
    dictIsWorthIt distinct total = true ↔ 0 < total ∧ 2 * distinct ≤ total := by
  rw [dictIsWorthIt, Bool.and_eq_true, decide_eq_true_iff, decide_eq_true_iff]
  omega

theorem ne_nil_of_worth {Value : Type} {distinct : Nat} {values : List Value} (worth : dictIsWorthIt distinct values.length = true) :
    values ≠ [] := by
  rintro rfl
  cases worth

/-- The writer chooses a dictionary that has more entries than the reader makes room for. -/
def Oversized {Value : Type} [DecidableEq Value] (values : List Value) : Prop :=
  2 ^ 16 < values.dedup.length ∧ 2 * values.dedup.length ≤ values.length

section Oversized

variable {Value : Type} [LE Value] [DecidableLE Value] [DecidableEq Value] [Std.IsLinearOrder Value] {values : List Value}

theorem Oversized.chosen (oversized : Oversized values) (counted : values.length < 2 ^ 60) :
    dictIsWorthIt (sortedDistinct values).length values.length = true ∧
      2 ^ 16 < (sortedDistinct values).length ∧ (sortedDistinct values).length < 2 ^ 64 := by
  obtain ⟨large, half⟩ := oversized
  rw [← length_sortedDistinct] at large half
  exact ⟨(dictIsWorthIt_iff counted).mpr ⟨by omega, half⟩, large, by omega⟩

/-- A page is read back exactly when it is not oversized, given how its layouts are read. -/
theorem read_back_iff {decoded : Except Fault (List Value)} (counted : values.length < 2 ^ 60)
    (few : dictIsWorthIt (sortedDistinct values).length values.length = true → (sortedDistinct values).length ≤ 2 ^ 16 →
      decoded = .ok values)
    (other : dictIsWorthIt (sortedDistinct values).length values.length = false → decoded = .ok values)
    (many : Oversized values → decoded = corrupt "dict_count too large") : decoded = .ok values ↔ ¬Oversized values := by
  by_cases oversized : Oversized values
  · apply iff_of_false _ (not_not_intro oversized)
    rw [many oversized]
    exact corrupt_ne_ok
  · apply iff_of_true _ oversized
    cases worth : dictIsWorthIt (sortedDistinct values).length values.length with
    | false => exact other worth
    | true =>
      obtain ⟨-, half⟩ := (dictIsWorthIt_iff counted).mp worth
      apply few worth
      by_contra large
      rw [length_sortedDistinct] at half large
      exact oversized ⟨by omega, half⟩

end Oversized

section Strings

variable {values : List Bytes}

theorem readString_put {bytes entry later : Bytes} (slice : bytes.length < 2 ^ 63) (inside : lengthPrefixed entry ++ later <:+ bytes) :
    readString bytes (lengthPrefixed entry ++ later) = .ok (entry, later) := by
  rw [lengthPrefixed, append_assoc] at inside ⊢
  have within : entry ++ later <:+ bytes := (suffix_append _ _).trans inside
  have shorter := within.length_le
  rw [length_append] at shorter
  rw [readString, getUvarint_put]
  show takeEntry _ _ (UInt64.ofNat entry.length).toNat _ = _
  rw [toNat_ofNat_of_lt (by omega), takeEntry_append within (by omega)]

/-- Small ids keep their value as 32-bit words. -/
theorem mapM_toUInt32 {dict : List Bytes} {ids : List UInt64} (small : ∀ id ∈ ids, id.toNat < 2 ^ 16) :
    (ids.map UInt64.toUInt32).mapM (fun id => entryAt dict id.toNat) = ids.mapM fun id => entryAt dict id.toNat := by
  induction ids with
  | nil => rfl
  | cons id ids ih =>
    have kept : id.toUInt32.toNat = id.toNat := by
      have bound := small id mem_cons_self
      rw [UInt64.toNat_toUInt32]
      omega
    rw [map_cons, mapM_cons, mapM_cons, kept,
      ih fun other member => small other (mem_cons_of_mem _ member)]

theorem readLengths_put {total : Nat} (fits : total + values.flatten.length < 2 ^ 64) (blob : Bytes) :
    readLengths values.length total ((values.flatMap fun value => putUvarint (UInt64.ofNat value.length)) ++ blob) =
      .ok (values.map fun value => UInt64.ofNat value.length, total + values.flatten.length, blob) := by
  induction values generalizing total with
  | nil => rfl
  | cons value values ih =>
    rw [flatten_cons, length_append] at fits ⊢
    have length : (UInt64.ofNat value.length).toNat = value.length := toNat_ofNat_of_lt (by omega)
    rw [length_cons, readLengths, flatMap_cons, append_assoc, getUvarint_put]
    show (if total + (UInt64.ofNat value.length).toNat < 2 ^ 64 then _ else _) = _
    rw [length, if_pos (by omega), ih (by omega), ← Nat.add_assoc]
    rfl

theorem cutBlob_flatten {blob : Bytes} (slice : blob.length < 2 ^ 64) {start : Nat} (within : start ≤ blob.length)
    (holds : blob.drop start = values.flatten) :
    cutBlob blob (values.map fun value => UInt64.ofNat value.length) start = .ok values := by
  induction values generalizing start with
  | nil => rfl
  | cons value values ih =>
    have sizes := congrArg List.length holds
    rw [flatten_cons, length_append, length_drop] at sizes
    have length : (UInt64.ofNat value.length).toNat = value.length := toNat_ofNat_of_lt (by omega)
    have cut : (blob.take (start + value.length)).drop start = value := by
      rw [drop_take, holds, flatten_cons, show start + value.length - start = value.length by omega, take_left]
    have rest : blob.drop (start + value.length) = values.flatten := by
      rw [← drop_drop, holds, flatten_cons, drop_left]
    rw [map_cons, cutBlob, length, addUsize, if_pos (by omega)]
    show (sliceOf blob start (start + value.length) >>= _) = _
    rw [sliceOf, if_pos ⟨by omega, by omega⟩, cut]
    show (cutBlob blob _ (start + value.length) >>= _) = _
    rw [ih (by omega) rest]
    rfl

theorem decodeStrings_plain (slice : (encPlainStrings values).length < 2 ^ 63) :
    decodeStrings .plain (encPlainStrings values) values.length = .ok values := by
  have sizes : values.flatten.length ≤ (encPlainStrings values).length := by
    rw [encPlainStrings, length_append]
    omega
  have lengths : readLengths values.length 0 _ = .ok (_, 0 + values.flatten.length, values.flatten) :=
    readLengths_put (by omega) values.flatten
  rw [decodeStrings, decodeStringsColumnar, encPlainStrings, lengths]
  show ((if values.flatten.length ≠ 0 + values.flatten.length then _ else _) >>= _) = _
  rw [if_neg (by omega), cutBlob_flatten (by omega) (Nat.zero_le _) rfl]
  rfl

theorem decodeStrings_dict (few : (sortedDistinct values).length ≤ 2 ^ 16) (counted : values.length < 2 ^ 60)
    (slice : (encDictStrings values (sortedDistinct values)).length < 2 ^ 63) :
    decodeStrings .dict (encDictStrings values (sortedDistinct values)) values.length = .ok values := by
  have written : ∀ entry ∈ sortedDistinct values, lengthPrefixed entry ≠ [] := by
    intro entry _ empty
    have read := getUvarint_put (UInt64.ofNat entry.length) entry
    rw [← lengthPrefixed, empty] at read
    cases read
  have reads : ∀ entry ∈ values, ∀ later, lengthPrefixed entry ++ later <:+ encDictStrings values (sortedDistinct values) →
      readString (encDictStrings values (sortedDistinct values)) (lengthPrefixed entry ++ later) = .ok (entry, later) :=
    fun entry _ later => readString_put slice
  obtain ⟨ids, read, looked, small⟩ := readDict_values few (Nat.le_succ_of_le (length_le_dictPage written)) counted reads
  rw [decodeStrings, decodeStringsColumnar]
  dsimp only [encDictStrings] at read ⊢
  rw [read]
  show (ids.map UInt64.toUInt32).mapM _ = _
  rw [mapM_toUInt32 small, looked]

theorem encodeStrings_dict (worth : dictIsWorthIt (sortedDistinct values).length values.length = true) :
    encodeStrings values = (.dict, encDictStrings values (sortedDistinct values)) := by
  have present : ¬values.isEmpty = true := by simpa using ne_nil_of_worth worth
  rw [encodeStrings, if_neg present]
  exact if_pos worth

theorem encodeStrings_plain (refused : dictIsWorthIt (sortedDistinct values).length values.length = false) :
    encodeStrings values = (.plain, encPlainStrings values) := by
  cases values with
  | nil => rfl
  | cons first rest =>
    rw [encodeStrings, if_neg (by simp)]
    exact if_neg (Bool.not_eq_true _ ▸ refused)

theorem strings_oversized (counted : values.length < 2 ^ 60) (oversized : Oversized values) (count : Nat) :
    decodeStrings (encodeStrings values).1 (encodeStrings values).2 count = corrupt "dict_count too large" := by
  obtain ⟨worth, large, bound⟩ := oversized.chosen counted
  rw [encodeStrings_dict worth, decodeStrings, decodeStringsColumnar, encDictStrings, readDict_large large bound]
  rfl

theorem strings_read_back_iff (counted : values.length < 2 ^ 60) (slice : (encodeStrings values).2.length < 2 ^ 63) :
    decodeStrings (encodeStrings values).1 (encodeStrings values).2 values.length = .ok values ↔ ¬Oversized values := by
  apply read_back_iff counted
  · intro worth few
    rw [encodeStrings_dict worth] at slice ⊢
    exact decodeStrings_dict few counted slice
  · intro refused
    rw [encodeStrings_plain refused] at slice ⊢
    exact decodeStrings_plain slice
  · exact fun oversized => strings_oversized counted oversized _

end Strings

section FloatBits

variable {values : List UInt64}

@[simp] theorem length_toLeBytes (value : UInt64) : (toLeBytes value).length = 8 := by
  rw [toLeBytes, length_map, length_range]

theorem readU64Le_put {bytes later : Bytes} {value : UInt64} (slice : bytes.length < 2 ^ 63) (inside : toLeBytes value ++ later <:+ bytes) :
    readU64Le bytes (toLeBytes value ++ later) = .ok (value, later) := by
  have taken := takeEntry_append inside (by omega) "f64 bits truncated"
  rw [length_toLeBytes] at taken
  rw [readU64Le, taken]
  show Except.ok (littleEndian64 (toLeBytes value), later) = _
  rw [littleEndian64_toLeBytes]

theorem decodeF64_plain (slice : (values.flatMap toLeBytes).length < 2 ^ 63) :
    decodeF64 .plain (values.flatMap toLeBytes) values.length = .ok values := by
  have reads : ∀ value ∈ values, ∀ later, toLeBytes value ++ later <:+ values.flatMap toLeBytes →
      readU64Le (values.flatMap toLeBytes) (toLeBytes value ++ later) = .ok (value, later) :=
    fun value _ later => readU64Le_put slice
  have entries := readEntries_put reads (show values.flatMap toLeBytes ++ [] <:+ values.flatMap toLeBytes by rw [append_nil])
  rw [append_nil] at entries
  rw [decodeF64, readF64, entries]
  rfl

variable {first : UInt64} {rest : List UInt64}

theorem decodeF64_constant (same : ∀ value ∈ values, value = first) (counted : values.length < 2 ^ 60) :
    decodeF64 .constant (toLeBytes first) values.length = .ok values := by
  have slice : (toLeBytes first).length < 2 ^ 63 := by
    rw [length_toLeBytes]
    decide
  have read := readU64Le_put slice (show toLeBytes first ++ [] <:+ toLeBytes first by rw [append_nil])
  rw [append_nil] at read
  rw [decodeF64, readF64, read, eq_replicate_of_mem same, length_replicate]
  show ((repeated first values.length >>= _) >>= _) = _
  rw [repeated, if_pos (by omega)]
  rfl

theorem decodeF64_dict (few : (sortedDistinct values).length ≤ 2 ^ 16) (counted : values.length < 2 ^ 60)
    (slice : (dictPage toLeBytes values (sortedDistinct values)).length < 2 ^ 63) :
    decodeF64 .dict (dictPage toLeBytes values (sortedDistinct values)) values.length = .ok values := by
  have written : ∀ entry ∈ sortedDistinct values, toLeBytes entry ≠ [] := by
    intro entry _ empty
    have length := length_toLeBytes entry
    rw [empty] at length
    cases length
  have reads : ∀ value ∈ values, ∀ later, toLeBytes value ++ later <:+ dictPage toLeBytes values (sortedDistinct values) →
      readU64Le (dictPage toLeBytes values (sortedDistinct values)) (toLeBytes value ++ later) = .ok (value, later) :=
    fun value _ later => readU64Le_put slice
  obtain ⟨ids, read, looked, -⟩ := readDict_values few (Nat.le_succ_of_le (length_le_dictPage written)) counted reads
  rw [decodeF64, readF64, read]
  show ((ids.mapM (fun id => entryAt (sortedDistinct values) id.toNat) >>= _) >>= _) = _
  rw [looked]
  rfl

theorem not_oversized_of_same (same : ∀ value ∈ values, value = first) : ¬Oversized values := by
  rintro ⟨large, -⟩
  have single : values.dedup.length ≤ 1 := by
    have distinct := nodup_dedup values
    rw [eq_replicate_of_mem fun value member => same value (mem_dedup.mp member)] at distinct
    exact nodup_replicate.mp distinct
  omega

theorem same_of_all (constant : (first :: rest).all (· = first) = true) : ∀ value ∈ first :: rest, value = first := by
  simpa using constant

/-- Values that differ have a dictionary or a plain page. -/
theorem encodeF64_varied (varied : ¬(first :: rest).all (· = first) = true) : encodeF64 (first :: rest) =
      if dictIsWorthIt (sortedDistinct (first :: rest)).length (first :: rest).length then
        (.dict, dictPage toLeBytes (first :: rest) (sortedDistinct (first :: rest)))
      else (.plain, (first :: rest).flatMap toLeBytes) := by
  rw [encodeF64, if_neg varied]

theorem f64_oversized (counted : values.length < 2 ^ 60) (oversized : Oversized values) (count : Nat) :
    decodeF64 (encodeF64 values).1 (encodeF64 values).2 count = corrupt "dict_count too large" := by
  obtain ⟨worth, large, bound⟩ := oversized.chosen counted
  cases values with
  | nil => cases worth
  | cons first rest =>
    have varied : ¬(first :: rest).all (· = first) = true :=
      fun constant => not_oversized_of_same (same_of_all constant) oversized
    rw [encodeF64_varied varied, if_pos worth, decodeF64, readF64, readDict_large large bound]
    rfl

theorem f64_read_back_iff (counted : values.length < 2 ^ 60) (slice : (encodeF64 values).2.length < 2 ^ 63) :
    decodeF64 (encodeF64 values).1 (encodeF64 values).2 values.length = .ok values ↔ ¬Oversized values := by
  cases values with
  | nil => exact iff_of_true rfl fun oversized => absurd oversized.1 (by decide)
  | cons first rest =>
    by_cases constant : (first :: rest).all (· = first) = true
    · rw [encodeF64, if_pos constant]
      exact iff_of_true (decodeF64_constant (same_of_all constant) counted) (not_oversized_of_same (same_of_all constant))
    · apply read_back_iff counted
      · intro worth few
        rw [encodeF64_varied constant, if_pos worth] at slice ⊢
        exact decodeF64_dict few counted slice
      · intro refused
        rw [encodeF64_varied constant, if_neg (Bool.not_eq_true _ ▸ refused)] at slice ⊢
        exact decodeF64_plain slice
      · exact fun oversized => f64_oversized counted oversized _

end FloatBits

section FixedWidths

variable {values : List Bytes} {width : Nat}

section

variable (sized : ∀ value ∈ values, value.length = width)

include sized

theorem length_flatten_fixed : values.flatten.length = values.length * width := by
  induction values with
  | nil => exact (Nat.zero_mul width).symm
  | cons value values ih =>
    rw [flatten_cons, length_append, sized value mem_cons_self,
      ih fun other member => sized other (mem_cons_of_mem _ member), length_cons, Nat.succ_mul, Nat.add_comm]

theorem drop_flatten_fixed (index : Nat) : values.flatten.drop (index * width) = (values.drop index).flatten := by
  induction index generalizing values with
  | zero => rw [Nat.zero_mul, drop_zero, drop_zero]
  | succ index ih =>
    cases values with
    | nil => simp
    | cons value values =>
      have first := sized value mem_cons_self
      rw [flatten_cons, Nat.succ_mul, Nat.add_comm, ← drop_drop, ← first, drop_left, first, drop_succ_cons]
      exact ih fun other member => sized other (mem_cons_of_mem _ member)

theorem decodeFixed_fixedWidth (slice : values.flatten.length < 2 ^ 63) :
    decodeFixed .fixedWidth values.flatten values.length width = .ok values := by
  have total := length_flatten_fixed sized
  rw [decodeFixed, if_neg (by omega), if_neg (not_not_intro total)]
  apply mapM_eq_ok.mpr
  apply forall₂_iff_get.mpr
  refine ⟨by rw [length_range], ?_⟩
  intro index inRange inside
  rw [get_eq_getElem, get_eq_getElem, getElem_range]
  have stop : index * width + width ≤ values.length * width := by
    rw [← Nat.succ_mul]
    exact Nat.mul_le_mul_right width inside
  have cut : (values.flatten.take (index * width + width)).drop (index * width) = values[index] := by
    have first := sized _ (getElem_mem inside)
    rw [drop_take, drop_flatten_fixed sized, drop_eq_getElem_cons inside, flatten_cons,
      show index * width + width - index * width = values[index].length by omega, take_left]
  show (mulUsize index width >>= _) = _
  rw [mulUsize, if_pos (by omega)]
  show (addUsize (index * width) width >>= _) = _
  rw [addUsize, if_pos (by omega)]
  show sliceOf values.flatten (index * width) (index * width + width) = _
  rw [sliceOf, if_pos ⟨by omega, by omega⟩, cut]

/-- Values of no bytes have one entry, and other entries take at least one byte each. -/
theorem fixed_sized : (sortedDistinct values).length ≤ (dictPage id values (sortedDistinct values)).length + 1 := by
  cases width with
  | zero =>
    have single : ∀ entry ∈ sortedDistinct values, entry = [] :=
      fun entry member => eq_nil_of_length_eq_zero (sized entry (mem_sortedDistinct.mp member))
    have distinct : (sortedDistinct values).Nodup := (sortedDistinct_ascending values).imp Std.ne_of_lt
    have most : (sortedDistinct values).length ≤ 1 := by
      rw [eq_replicate_of_mem single] at distinct
      exact nodup_replicate.mp distinct
    omega
  | succ width =>
    apply Nat.le_succ_of_le
    apply length_le_dictPage
    intro entry member empty
    have length := sized entry (mem_sortedDistinct.mp member)
    rw [show entry = [] from empty] at length
    cases length

theorem decodeFixed_dict (few : (sortedDistinct values).length ≤ 2 ^ 16) (counted : values.length < 2 ^ 60)
    (slice : (dictPage id values (sortedDistinct values)).length < 2 ^ 63) :
    decodeFixed .dict (dictPage id values (sortedDistinct values)) values.length width = .ok values := by
  have reads : ∀ value ∈ values, ∀ later, id value ++ later <:+ dictPage id values (sortedDistinct values) →
      readFixed (dictPage id values (sortedDistinct values)) width (id value ++ later) = .ok (value, later) := by
    intro value member later inside
    have taken := takeEntry_append inside (by omega) "fixed dict entry truncated"
    rwa [show (id value).length = width from sized value member] at taken
  obtain ⟨ids, read, looked, -⟩ := readDict_values few (fixed_sized sized) counted reads
  rw [decodeFixed, read]
  exact looked

end

theorem encodeFixed_dict (worth : dictIsWorthIt (sortedDistinct values).length values.length = true) :
    encodeFixed values width = (.dict, dictPage id values (sortedDistinct values)) := by
  have present : ¬values.isEmpty = true := by simpa using ne_nil_of_worth worth
  rw [encodeFixed, if_neg present]
  exact if_pos worth

theorem encodeFixed_fixedWidth (refused : dictIsWorthIt (sortedDistinct values).length values.length = false) :
    encodeFixed values width = (.fixedWidth, values.flatten) := by
  cases values with
  | nil => rfl
  | cons first rest =>
    rw [encodeFixed, if_neg (by simp)]
    exact if_neg (Bool.not_eq_true _ ▸ refused)

theorem fixed_oversized (counted : values.length < 2 ^ 60) (oversized : Oversized values) (count : Nat) :
    decodeFixed (encodeFixed values width).1 (encodeFixed values width).2 count width = corrupt "dict_count too large" := by
  obtain ⟨worth, large, bound⟩ := oversized.chosen counted
  rw [encodeFixed_dict worth, decodeFixed, readDict_large large bound]
  rfl

theorem fixed_read_back_iff (sized : ∀ value ∈ values, value.length = width) (counted : values.length < 2 ^ 60)
    (slice : (encodeFixed values width).2.length < 2 ^ 63) :
    decodeFixed (encodeFixed values width).1 (encodeFixed values width).2 values.length width = .ok values ↔ ¬Oversized values := by
  apply read_back_iff counted
  · intro worth few
    rw [encodeFixed_dict worth] at slice ⊢
    exact decodeFixed_dict sized few counted slice
  · intro refused
    rw [encodeFixed_fixedWidth refused] at slice ⊢
    exact decodeFixed_fixedWidth sized slice
  · exact fun oversized => fixed_oversized counted oversized _

end FixedWidths

/-- A page of strings, of float bits or of fixed-width values is read back exactly when it is not a dictionary of more entries than the
reader makes room for. -/
theorem pages_read_back_iff (texts : List Bytes) (numbers : List UInt64) (records : List Bytes) (width : Nat) :
    (texts.length < 2 ^ 59 → (encodeStrings texts).2.length < 2 ^ 63 →
      (decodeStrings (encodeStrings texts).1 (encodeStrings texts).2 texts.length = .ok texts ↔
        ¬(2 ^ 16 < texts.dedup.length ∧ 2 * texts.dedup.length ≤ texts.length))) ∧
    (numbers.length < 2 ^ 60 → (encodeF64 numbers).2.length < 2 ^ 63 →
      (decodeF64 (encodeF64 numbers).1 (encodeF64 numbers).2 numbers.length = .ok numbers ↔
        ¬(2 ^ 16 < numbers.dedup.length ∧ 2 * numbers.dedup.length ≤ numbers.length))) ∧
    ((∀ value ∈ records, value.length = width) → records.length < 2 ^ 59 →
      (encodeFixed records width).2.length < 2 ^ 63 →
      (decodeFixed (encodeFixed records width).1 (encodeFixed records width).2 records.length width = .ok records ↔
        ¬(2 ^ 16 < records.dedup.length ∧ 2 * records.dedup.length ≤ records.length))) :=
  ⟨fun counted => strings_read_back_iff (by omega), fun counted => f64_read_back_iff counted,
    fun sized counted => fixed_read_back_iff sized (by omega)⟩

/-- More numbers than a reader makes room for. -/
def manyNumbers : List UInt64 :=
  (List.range (2 ^ 16 + 1)).map UInt64.ofNat

theorem length_manyNumbers : manyNumbers.length = 2 ^ 16 + 1 := by
  rw [manyNumbers, length_map, length_range]

theorem manyNumbers_nodup : manyNumbers.Nodup := by
  apply Nodup.map_on _ nodup_range
  intro first inFirst second inSecond same
  rw [mem_range] at inFirst inSecond
  have equal := congrArg UInt64.toNat same
  rwa [toNat_ofNat_of_lt (by omega), toNat_ofNat_of_lt (by omega)] at equal

/-- Distinct values that all stand twice make a dictionary. -/
theorem oversized_twice {Value : Type} [DecidableEq Value] {values : List Value} (distinct : values.Nodup)
    (large : 2 ^ 16 < values.length) : Oversized (values ++ values) := by
  rw [Oversized, List.Subset.dedup_append_right (List.Subset.refl values), distinct.dedup, length_append]
  omega

/-- Pages of 65537 distinct values that all stand twice are written and then refused. -/
theorem long_dictionaries_not_read_back :
    decodeStrings (encodeStrings (manyNumbers.map toLeBytes ++ manyNumbers.map toLeBytes)).1
        (encodeStrings (manyNumbers.map toLeBytes ++ manyNumbers.map toLeBytes)).2
        (manyNumbers.map toLeBytes ++ manyNumbers.map toLeBytes).length ≠
      .ok (manyNumbers.map toLeBytes ++ manyNumbers.map toLeBytes) ∧
    decodeF64 (encodeF64 (manyNumbers ++ manyNumbers)).1 (encodeF64 (manyNumbers ++ manyNumbers)).2
        (manyNumbers ++ manyNumbers).length ≠ .ok (manyNumbers ++ manyNumbers) ∧
    decodeFixed (encodeFixed (manyNumbers.map toLeBytes ++ manyNumbers.map toLeBytes) 8).1
        (encodeFixed (manyNumbers.map toLeBytes ++ manyNumbers.map toLeBytes) 8).2
        (manyNumbers.map toLeBytes ++ manyNumbers.map toLeBytes).length 8 ≠
      .ok (manyNumbers.map toLeBytes ++ manyNumbers.map toLeBytes) := by
  have injective : Function.Injective toLeBytes := Function.LeftInverse.injective littleEndian64_toLeBytes
  have numbers : Oversized (manyNumbers ++ manyNumbers) :=
    oversized_twice manyNumbers_nodup (by rw [length_manyNumbers]; omega)
  have strings : Oversized (manyNumbers.map toLeBytes ++ manyNumbers.map toLeBytes) :=
    oversized_twice (manyNumbers_nodup.map injective) (by rw [length_map, length_manyNumbers]; omega)
  have counted : (manyNumbers ++ manyNumbers).length < 2 ^ 60 := by
    rw [length_append, length_manyNumbers]
    omega
  have countedStrings : (manyNumbers.map toLeBytes ++ manyNumbers.map toLeBytes).length < 2 ^ 60 := by
    rw [← map_append, length_map]
    exact counted
  rw [strings_oversized countedStrings strings, f64_oversized counted numbers, fixed_oversized countedStrings strings]
  exact ⟨corrupt_ne_ok, corrupt_ne_ok, corrupt_ne_ok⟩

end Ravel.Codec
