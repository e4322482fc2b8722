import Ravel.Proof.Codec.BulkDecoding
import Ravel.Proof.Codec.DictionaryPages

namespace Ravel.Codec

open List Logs Library

section Panics

variable {Value Result : Type}

/-- The decoder panics. -/
def Panics (outcome : Except Fault Value) : Prop :=
  outcome = .error .panicked

theorem not_panics_ok (value : Value) : ¬Panics (.ok value) := by
  intro panics
  cases panics

theorem not_panics_corrupt (what : String) : ¬Panics (corrupt what : Except Fault Value) := by
  intro panics
  cases panics

theorem not_panics_typed (outcome : Except CodecError Value) : ¬Panics (typed outcome) := by
  cases outcome with
  | ok value => exact not_panics_ok value
  | error error =>
    intro panics
    cases panics

theorem panics_bind {first : Except Fault Value} {next : Value → Except Fault Result} :
    Panics (first >>= next) ↔ Panics first ∨ ∃ value, first = .ok value ∧ Panics (next value) := by
  cases first with
  | ok value =>
    constructor
    · exact fun panics => .inr ⟨value, rfl, panics⟩
    · rintro (panics | ⟨other, same, panics⟩)
      · cases panics
      · cases same
        exact panics
  | error fault =>
    constructor
    · intro panics
      cases panics
      exact .inl rfl
    · rintro (panics | ⟨other, same, -⟩)
      · cases panics
        rfl
      · cases same

theorem panics_typed_bind {first : Except CodecError Value} {next : Value → Except Fault Result} :
    Panics (typed first >>= next) ↔ ∃ value, first = .ok value ∧ Panics (next value) := by
  cases first with
  | ok value => simp [typed, Except.mapError, bind, Except.bind]
  | error error =>
    apply iff_of_false
    · intro panics
      cases panics
    · rintro ⟨value, same, -⟩
      cases same

theorem typed_eq_ok {outcome : Except CodecError Value} {value : Value} : typed outcome = .ok value ↔ outcome = .ok value := by
  cases outcome with
  | ok other =>
    show Except.ok other = Except.ok value ↔ _
    rw [Except.ok.injEq, Except.ok.injEq]
  | error error => exact iff_of_false (fun same => by cases same) (fun same => by cases same)

theorem not_panics_mapM {Input : Type} {step : Input → Except Fault Value} {inputs : List Input}
    (safe : ∀ input ∈ inputs, ¬Panics (step input)) : ¬Panics (inputs.mapM step) := by
  induction inputs with
  | nil => exact not_panics_ok []
  | cons input inputs ih =>
    rw [mapM_cons, panics_bind]
    rintro (panics | ⟨value, -, panics⟩)
    · exact safe input mem_cons_self panics
    · rcases panics_bind.mp panics with rest | ⟨values, -, returned⟩
      · exact ih (fun other member => safe other (mem_cons_of_mem _ member)) rest
      · exact not_panics_ok _ returned

end Panics

variable {index : Nat} {rest : Bytes} {length : Nat} {truncated : String}

theorem not_panics_entryAt {Value : Type} {dict : List Value} (inside : index < dict.length) :
    ¬Panics (entryAt dict index) := by
  rw [entryAt, getElem?_eq_getElem inside]
  exact not_panics_ok _

theorem not_panics_byteAt {bytes : Bytes} (inside : index < bytes.length) : ¬Panics (byteAt bytes index) := by
  rw [byteAt, getElem?_eq_getElem inside]
  exact not_panics_ok _

theorem panics_addUsize {left right : Nat} : Panics (addUsize left right) ↔ 2 ^ 64 ≤ left + right := by
  rw [addUsize]
  split
  · exact iff_of_false (not_panics_ok _) (by omega)
  · exact iff_of_true rfl (by omega)

theorem not_panics_decodeBitmap (bytes : Bytes) (count : Nat) : ¬Panics (decodeBitmap bytes count) := by
  rw [decodeBitmap]
  split
  · exact not_panics_corrupt _
  · rename_i sized
    apply not_panics_mapM
    intro index member
    rw [mem_range] at member
    rw [panics_bind]
    rintro (panics | ⟨byte, -, returned⟩)
    · exact not_panics_byteAt (by omega) panics
    · exact not_panics_ok _ returned

theorem not_panics_unpackBits {buf : Bytes} (slice : buf.length < 2 ^ 64) (count bitWidth : Nat) :
    ¬Panics (unpackBits buf count bitWidth) := by
  rw [unpackBits_eq slice]
  exact not_panics_typed _

/-- Ids that are read stand in the dictionary, and reading them never panics. -/
theorem decodeDictIds_safe (slice : rest.length < 2 ^ 64) (count dictCount : Nat) :
    ¬Panics (decodeDictIds rest count dictCount) ∧
      ∀ ids, decodeDictIds rest count dictCount = .ok ids → ∀ id ∈ ids, id.toNat < dictCount := by
  cases rest with
  | nil => exact ⟨not_panics_corrupt _, fun ids read => absurd read corrupt_ne_ok⟩
  | cons bitWidth packed =>
    rw [length_cons] at slice
    rw [decodeDictIds]
    constructor
    · rw [panics_bind]
      rintro (panics | ⟨ids, -, panics⟩)
      · exact not_panics_unpackBits (by omega) _ _ panics
      · split at panics
        · exact not_panics_corrupt _ panics
        · exact not_panics_ok _ panics
    · intro ids read
      obtain ⟨unpacked, -, checked⟩ := ok_of_bind read
      split at checked
      · exact absurd checked corrupt_ne_ok
      · rename_i accepted
        cases checked
        intro id member
        have small := find?_eq_none.mp accepted id member
        simpa using small

theorem panics_takeEntry {bytes : Bytes} :
    Panics (takeEntry bytes rest length truncated) ↔ 2 ^ 64 ≤ bytes.length - rest.length + length := by
  rw [takeEntry, panics_bind, panics_addUsize]
  constructor
  · rintro (exceeds | ⟨stop, -, panics⟩)
    · exact exceeds
    · split at panics
      · exact absurd panics (not_panics_corrupt _)
      · exact absurd panics (not_panics_ok _)
  · exact .inl

theorem takeEntry_eq_ok {bytes entry later : Bytes} (inside : rest <:+ bytes)
    (taken : takeEntry bytes rest length truncated = .ok (entry, later)) :
    rest = entry ++ later ∧ entry.length = length := by
  have shorter := inside.length_le
  obtain ⟨stop, added, checked⟩ := ok_of_bind taken
  rw [addUsize] at added
  split at added
  · cases added
    split at checked
    · exact absurd checked corrupt_ne_ok
    · cases checked
      refine ⟨(take_append_drop _ _).symm, ?_⟩
      rw [length_take]
      omega
  · cases added

section Entries

variable {Value : Type} {bytes : Bytes} {readEntry : Bytes → Except Fault (Value × Bytes)}

variable {wanted : Nat} {rest later : Bytes} {entries : List Value} {count : Nat}

/-- A dictionary panics at the first entry that does. -/
theorem panics_readEntries : Panics (readEntries readEntry wanted rest) ↔
      ∃ read entries later, read < wanted ∧ readEntries readEntry read rest = .ok (entries, later) ∧ Panics (readEntry later) := by
  induction wanted generalizing rest with
  | zero =>
    apply iff_of_false (not_panics_ok _)
    rintro ⟨read, -, -, below, -⟩
    exact Nat.not_lt_zero _ below
  | succ wanted ih =>
    rw [readEntries, panics_bind]
    constructor
    · rintro (panics | ⟨⟨entry, later⟩, first, panics⟩)
      · exact ⟨0, [], rest, Nat.succ_pos _, rfl, panics⟩
      · rcases panics_bind.mp panics with deeper | ⟨found, -, returned⟩
        · obtain ⟨read, entries, last, below, prior, panics⟩ := ih.mp deeper
          refine ⟨read + 1, entry :: entries, last, Nat.succ_lt_succ below, ?_, panics⟩
          rw [readEntries, first]
          show (readEntries readEntry read later >>= _) = _
          rw [prior]
          rfl
        · exact absurd returned (not_panics_ok _)
    · rintro ⟨read, entries, last, below, prior, panics⟩
      cases read with
      | zero =>
        cases prior
        exact .inl panics
      | succ read =>
        obtain ⟨⟨entry, later⟩, first, continued⟩ := ok_of_bind prior
        obtain ⟨⟨others, final⟩, deeper, returned⟩ := ok_of_bind continued
        cases returned
        exact .inr ⟨(entry, later), first,
          panics_bind.mpr (.inl (ih.mpr ⟨read, others, last, Nat.lt_of_succ_lt_succ below, deeper, panics⟩))⟩

theorem length_readEntries (read : readEntries readEntry wanted rest = .ok (entries, later)) :
    entries.length = wanted := by
  induction wanted generalizing rest entries with
  | zero =>
    cases read
    rfl
  | succ wanted ih =>
    obtain ⟨⟨entry, middle⟩, -, continued⟩ := ok_of_bind read
    obtain ⟨⟨others, last⟩, deeper, returned⟩ := ok_of_bind continued
    cases returned
    rw [length_cons, ih deeper]

/-- What each entry spells, the entries spell together, and the rest is a part of the page. -/
theorem readEntries_spelled {putEntry : Value → Bytes}
    (spelled : ∀ {rest entry later}, rest <:+ bytes → readEntry rest = .ok (entry, later) → rest = putEntry entry ++ later)
    (inside : rest <:+ bytes) (read : readEntries readEntry wanted rest = .ok (entries, later)) :
    rest = entries.flatMap putEntry ++ later := by
  induction wanted generalizing rest entries with
  | zero =>
    cases read
    rfl
  | succ wanted ih =>
    obtain ⟨⟨entry, middle⟩, first, continued⟩ := ok_of_bind read
    obtain ⟨⟨others, last⟩, deeper, returned⟩ := ok_of_bind continued
    cases returned
    have whole := spelled inside first
    have within : middle <:+ bytes := (suffix_append (putEntry entry) middle).trans (whole ▸ inside)
    rw [whole, ih within deeper, flatMap_cons, append_assoc]

/-- The reader of an entry leaves a part of what it is given. -/
def Advances (readEntry : Bytes → Except Fault (Value × Bytes)) : Prop :=
  ∀ rest entry later, readEntry rest = .ok (entry, later) → later <:+ rest

theorem Advances.readEntries (advances : Advances readEntry)
    (read : readEntries readEntry wanted rest = .ok (entries, later)) : later <:+ rest := by
  induction wanted generalizing rest entries with
  | zero =>
    cases read
    exact suffix_refl _
  | succ wanted ih =>
    obtain ⟨⟨entry, middle⟩, first, continued⟩ := ok_of_bind read
    obtain ⟨⟨others, last⟩, deeper, returned⟩ := ok_of_bind continued
    cases returned
    exact (ih deeper).trans (advances _ _ _ first)

/-- A dictionary page panics where the header is read, the reader makes room for it, and an entry panics. -/
theorem panics_readDict (slice : bytes.length < 2 ^ 63) (advances : Advances readEntry) :
    Panics (readDict readEntry bytes count) ↔
      ∃ dictCount rest, getUvarint bytes = .ok (dictCount, rest) ∧ dictCount.toNat ≤ cap (bytes.length + 1) ∧
        Panics (readEntries readEntry dictCount.toNat rest) := by
  rw [readDict, panics_typed_bind]
  constructor
  · rintro ⟨⟨dictCount, rest⟩, header, panics⟩
    dsimp only at panics
    split at panics
    · exact absurd panics (not_panics_corrupt _)
    · rename_i room
      refine ⟨dictCount, rest, header, by omega, ?_⟩
      rcases panics_bind.mp panics with inEntries | ⟨⟨dict, later⟩, read, panics⟩
      · exact inEntries
      · exfalso
        have within : later <:+ bytes := (advances.readEntries read).trans (getUvarint_eq_ok.mp header ▸ suffix_append _ _)
        have shorter := within.length_le
        rcases panics_bind.mp panics with inIds | ⟨ids, -, returned⟩
        · exact (decodeDictIds_safe (lt_of_le_of_lt shorter (by omega)) _ _).1 inIds
        · exact not_panics_ok _ returned
  · rintro ⟨dictCount, rest, header, room, panics⟩
    refine ⟨(dictCount, rest), header, ?_⟩
    show Panics (if cap (bytes.length + 1) < dictCount.toNat then _ else _)
    rw [if_neg (by omega)]
    exact panics_bind.mpr (.inl panics)

/-- Each id of a dictionary page stands in its dictionary. -/
theorem readDict_ids (slice : bytes.length < 2 ^ 63) (advances : Advances readEntry) {dict : List Value}
    {ids : List UInt64} (read : readDict readEntry bytes count = .ok (dict, ids)) :
    ∀ id ∈ ids, id.toNat < dict.length := by
  obtain ⟨⟨dictCount, rest⟩, header, continued⟩ := ok_of_bind read
  dsimp only at continued
  split at continued
  · exact absurd continued corrupt_ne_ok
  · obtain ⟨⟨entries, later⟩, inEntries, continued⟩ := ok_of_bind continued
    obtain ⟨found, inIds, returned⟩ := ok_of_bind continued
    cases returned
    have started := typed_eq_ok.mp header
    have within : later <:+ bytes := (advances.readEntries inEntries).trans (getUvarint_eq_ok.mp started ▸ suffix_append _ _)
    have shorter := within.length_le
    rw [length_readEntries inEntries]
    exact (decodeDictIds_safe (lt_of_le_of_lt shorter (by omega)) _ _).2 _ inIds

end Entries

theorem advances_takeEntry (bytes : Bytes) (length : Nat) (truncated : String) :
    Advances fun rest => takeEntry bytes rest length truncated := by
  intro rest entry later taken
  obtain ⟨stop, -, checked⟩ := ok_of_bind taken
  split at checked
  · exact absurd checked corrupt_ne_ok
  · cases checked
    exact drop_suffix _ _

theorem advances_readFixed (bytes : Bytes) (width : Nat) : Advances (readFixed bytes width) :=
  advances_takeEntry bytes width _

theorem advances_readString (bytes : Bytes) : Advances (readString bytes) := by
  intro rest entry later read
  obtain ⟨⟨length, middle⟩, header, taken⟩ := ok_of_bind read
  have started := getUvarint_eq_ok.mp (typed_eq_ok.mp header)
  exact (advances_takeEntry bytes _ _ _ _ _ taken).trans (started ▸ suffix_append _ _)

theorem advances_readU64Le (bytes : Bytes) : Advances (readU64Le bytes) := by
  intro rest entry later read
  obtain ⟨⟨slice, middle⟩, taken, returned⟩ := ok_of_bind read
  cases returned
  exact advances_takeEntry bytes 8 _ _ _ _ taken

section Strings

variable {bytes : Bytes}

theorem readString_spelled {rest entry later : Bytes} (inside : rest <:+ bytes) (read : readString bytes rest = .ok (entry, later)) :
    rest = lengthPrefixed entry ++ later := by
  obtain ⟨⟨length, middle⟩, header, taken⟩ := ok_of_bind read
  have started := getUvarint_eq_ok.mp (typed_eq_ok.mp header)
  have within : middle <:+ bytes := (started ▸ suffix_append _ _ : middle <:+ rest).trans inside
  obtain ⟨whole, sized⟩ := takeEntry_eq_ok within taken
  rw [started, whole, lengthPrefixed, sized, UInt64.ofNat_toNat, append_assoc]

/-- After whole entries the next one declares an end beyond the addresses. -/
def EntryOverruns (bytes : Bytes) : Prop :=
  ∃ (dictCount : UInt64) (entries : List Bytes) (length : UInt64) (rest : Bytes),
    bytes = putUvarint dictCount ++ (entries.flatMap lengthPrefixed ++ (putUvarint length ++ rest)) ∧
      entries.length < dictCount.toNat ∧ dictCount.toNat ≤ cap (bytes.length + 1) ∧
      2 ^ 64 ≤ bytes.length - rest.length + length.toNat

theorem panics_readString {rest : Bytes} :
    Panics (readString bytes rest) ↔
      ∃ (length : UInt64) (later : Bytes), rest = putUvarint length ++ later ∧ 2 ^ 64 ≤ bytes.length - later.length + length.toNat := by
  rw [readString, panics_typed_bind]
  constructor
  · rintro ⟨⟨length, later⟩, header, panics⟩
    exact ⟨length, later, getUvarint_eq_ok.mp header, panics_takeEntry.mp panics⟩
  · rintro ⟨length, later, spelled, exceeds⟩
    exact ⟨(length, later), getUvarint_eq_ok.mpr spelled, panics_takeEntry.mpr exceeds⟩

theorem panics_readDict_strings (slice : bytes.length < 2 ^ 63) {count : Nat} :
    Panics (readDict (readString bytes) bytes count) ↔ EntryOverruns bytes := by
  rw [panics_readDict slice (advances_readString bytes)]
  constructor
  · rintro ⟨dictCount, rest, header, room, panics⟩
    have started := getUvarint_eq_ok.mp header
    obtain ⟨read, entries, later, below, prior, panics⟩ := panics_readEntries.mp panics
    obtain ⟨length, last, next, exceeds⟩ := panics_readString.mp panics
    have whole := readEntries_spelled readString_spelled (started ▸ suffix_append _ _) prior
    refine ⟨dictCount, entries, length, last, ?_, ?_, room, exceeds⟩
    · rw [started, whole, next]
    · rw [length_readEntries prior]
      exact below
  · rintro ⟨dictCount, entries, length, last, whole, below, room, exceeds⟩
    refine ⟨dictCount, _, getUvarint_eq_ok.mpr whole, room, ?_⟩
    apply panics_readEntries.mpr
    have reads : ∀ entry ∈ entries, ∀ later, lengthPrefixed entry ++ later <:+ bytes →
        readString bytes (lengthPrefixed entry ++ later) = .ok (entry, later) := fun entry _ later => readString_put slice
    have within : entries.flatMap lengthPrefixed ++ (putUvarint length ++ last) <:+ bytes := by
      rw [whole]
      exact suffix_append _ _
    exact ⟨entries.length, entries, _, below, readEntries_put reads within, panics_readString.mpr ⟨length, last, rfl, exceeds⟩⟩

/-- The lengths of a plain page sum to the declared total. -/
theorem readLengths_total {count total sum : Nat} {rest blob : Bytes} {lengths : List UInt64}
    (read : readLengths count total rest = .ok (lengths, sum, blob)) :
    sum = total + (lengths.map UInt64.toNat).sum ∧ blob <:+ rest := by
  induction count generalizing total rest lengths with
  | zero =>
    cases read
    exact ⟨rfl, suffix_refl _⟩
  | succ count ih =>
    obtain ⟨⟨length, later⟩, header, continued⟩ := ok_of_bind read
    dsimp only at continued
    split at continued
    · obtain ⟨⟨others, last, final⟩, deeper, returned⟩ := ok_of_bind continued
      cases returned
      obtain ⟨summed, within⟩ := ih deeper
      refine ⟨?_, within.trans (getUvarint_eq_ok.mp header ▸ suffix_append _ _)⟩
      rw [summed, map_cons, sum_cons, Nat.add_assoc]
    · cases continued

theorem not_panics_cutBlob {blob : Bytes} (slice : blob.length < 2 ^ 64) {lengths : List UInt64} {start : Nat}
    (holds : start + (lengths.map UInt64.toNat).sum ≤ blob.length) : ¬Panics (cutBlob blob lengths start) := by
  induction lengths generalizing start with
  | nil => exact not_panics_ok _
  | cons length lengths ih =>
    rw [map_cons, sum_cons] at holds
    rw [cutBlob, addUsize, if_pos (by omega)]
    show ¬Panics (sliceOf blob start (start + length.toNat) >>= _)
    rw [sliceOf, if_pos ⟨by omega, by omega⟩]
    show ¬Panics (cutBlob blob lengths (start + length.toNat) >>= _)
    rw [panics_bind]
    rintro (panics | ⟨values, -, returned⟩)
    · exact ih (by omega) panics
    · exact not_panics_ok _ returned

theorem not_panics_plainStrings (slice : bytes.length < 2 ^ 63) (count : Nat) :
    ¬Panics (decodeStringsColumnar .plain bytes count) := by
  rw [decodeStringsColumnar, panics_typed_bind]
  rintro ⟨⟨lengths, total, blob⟩, read, panics⟩
  obtain ⟨summed, within⟩ := readLengths_total read
  have shorter := within.length_le
  dsimp only at panics
  split at panics
  · exact not_panics_corrupt _ panics
  · rcases panics_bind.mp panics with cut | ⟨values, -, returned⟩
    · exact not_panics_cutBlob (by omega) (by omega) cut
    · exact not_panics_ok _ returned

theorem panics_strings (slice : bytes.length < 2 ^ 63) (enc : Enc) (count : Nat) :
    Panics (decodeStringsColumnar enc bytes count) ↔ enc = .dict ∧ EntryOverruns bytes := by
  cases enc with
  | plain => exact iff_of_false (not_panics_plainStrings slice count) fun both => by cases both.1
  | dict =>
    rw [decodeStringsColumnar, panics_bind, panics_readDict_strings slice]
    constructor
    · rintro (overruns | ⟨pair, -, returned⟩)
      · exact ⟨rfl, overruns⟩
      · exact absurd returned (not_panics_ok _)
    · exact fun both => .inl both.2
  | _ => exact iff_of_false (not_panics_corrupt _) fun both => by cases both.1

end Strings

section FloatBits

variable {bytes : Bytes}

theorem not_panics_readU64Le (slice : bytes.length < 2 ^ 63) (rest : Bytes) : ¬Panics (readU64Le bytes rest) := by
  rw [readU64Le, panics_bind, panics_takeEntry]
  rintro (exceeds | ⟨pair, -, returned⟩)
  · omega
  · exact not_panics_ok _ returned

theorem not_panics_readEntries_u64 (slice : bytes.length < 2 ^ 63) (wanted : Nat) (rest : Bytes) :
    ¬Panics (readEntries (readU64Le bytes) wanted rest) := by
  rw [panics_readEntries]
  rintro ⟨-, -, later, -, -, panics⟩
  exact not_panics_readU64Le slice later panics

theorem not_panics_readF64_dict (slice : bytes.length < 2 ^ 63) (count : Nat) : ¬Panics (readF64 .dict bytes count) := by
  rw [readF64, panics_bind, panics_readDict slice (advances_readU64Le bytes)]
  rintro (⟨dictCount, rest, -, -, panics⟩ | ⟨⟨dict, ids⟩, read, panics⟩)
  · exact not_panics_readEntries_u64 slice _ _ panics
  · rcases panics_bind.mp panics with looked | ⟨values, -, returned⟩
    · exact not_panics_mapM (fun id member => not_panics_entryAt (readDict_ids slice (advances_readU64Le bytes) read id member)) looked
    · exact not_panics_ok _ returned

/-- A page of one value panics when the vector of that value does not fit in the addresses. -/
theorem panics_readF64_constant (slice : bytes.length < 2 ^ 63) {count : Nat} :
    Panics (readF64 .constant bytes count) ↔ 8 ≤ bytes.length ∧ 2 ^ 60 ≤ count := by
  have stop : addUsize (bytes.length - bytes.length) 8 = .ok 8 := by
    rw [Nat.sub_self, addUsize, if_pos (by omega)]
  have taken : takeEntry bytes bytes 8 "f64 bits truncated" =
      if bytes.length < 8 then corrupt "f64 bits truncated" else .ok (bytes.take 8, bytes.drop 8) := by
    rw [takeEntry, stop]
    rfl
  rw [readF64, readU64Le, taken]
  split
  · rename_i short
    exact iff_of_false (not_panics_corrupt _) fun both => absurd both.1 (by omega)
  · rename_i whole
    show Panics (repeated (littleEndian64 (bytes.take 8)) count >>= _) ↔ _
    rw [panics_bind, repeated]
    split
    · rename_i fits
      apply iff_of_false
      · rintro (panics | ⟨values, -, returned⟩)
        · exact not_panics_ok _ panics
        · exact not_panics_ok _ returned
      · omega
    · rename_i exceeds
      exact iff_of_true (.inl rfl) (by omega)

theorem panics_f64 (slice : bytes.length < 2 ^ 63) (enc : Enc) (count : Nat) :
    Panics (decodeF64 enc bytes count) ↔ enc = .constant ∧ 8 ≤ bytes.length ∧ 2 ^ 60 ≤ count := by
  have consumed : Panics (decodeF64 enc bytes count) ↔ Panics (readF64 enc bytes count) := by
    rw [decodeF64, panics_bind]
    constructor
    · rintro (panics | ⟨⟨values, rest⟩, -, panics⟩)
      · exact panics
      · obtain ⟨-, -, returned⟩ := panics_typed_bind.mp panics
        exact absurd returned (not_panics_ok _)
    · exact .inl
  rw [consumed]
  cases enc with
  | plain => exact iff_of_false (not_panics_readEntries_u64 slice _ _) fun both => by cases both.1
  | dict => exact iff_of_false (not_panics_readF64_dict slice count) fun both => by cases both.1
  | constant =>
    rw [panics_readF64_constant slice]
    exact ⟨fun both => ⟨rfl, both⟩, And.right⟩
  | _ => exact iff_of_false (not_panics_corrupt _) fun both => by cases both.1

end FloatBits

section FixedWidths

variable {bytes : Bytes} {width : Nat}

theorem not_panics_fixedWidth (slice : bytes.length < 2 ^ 63) (count : Nat) :
    ¬Panics (decodeFixed .fixedWidth bytes count width) := by
  rw [decodeFixed]
  split
  · exact not_panics_corrupt _
  · split
    · exact not_panics_corrupt _
    · rename_i sized
      apply not_panics_mapM
      intro index member
      rw [mem_range] at member
      have stop : index * width + width ≤ count * width := by
        rw [← Nat.succ_mul]
        exact Nat.mul_le_mul_right width member
      rw [mulUsize, if_pos (by omega)]
      show ¬Panics (addUsize (index * width) width >>= _)
      rw [addUsize, if_pos (by omega)]
      show ¬Panics (sliceOf bytes (index * width) (index * width + width))
      rw [sliceOf, if_pos ⟨by omega, by omega⟩]
      exact not_panics_ok _

/-- The first entry of a dictionary ends beyond the addresses. -/
def WidthOverruns (bytes : Bytes) (width : Nat) : Prop :=
  ∃ (dictCount : UInt64) (rest : Bytes), bytes = putUvarint dictCount ++ rest ∧ 0 < dictCount.toNat ∧
    dictCount.toNat ≤ cap (bytes.length + 1) ∧ 2 ^ 64 ≤ bytes.length - rest.length + width

theorem panics_readDict_fixed (slice : bytes.length < 2 ^ 63) {count : Nat} :
    Panics (readDict (readFixed bytes width) bytes count) ↔ WidthOverruns bytes width := by
  rw [panics_readDict slice (advances_readFixed bytes width)]
  constructor
  · rintro ⟨dictCount, rest, header, room, panics⟩
    have started := getUvarint_eq_ok.mp header
    obtain ⟨read, entries, later, below, prior, panics⟩ := panics_readEntries.mp panics
    have exceeds := panics_takeEntry.mp panics
    refine ⟨dictCount, rest, started, by omega, room, ?_⟩
    cases read with
    | zero =>
      cases prior
      exact exceeds
    | succ read =>
      -- An entry before it is whole, so that the width is at most the length of the page.
      obtain ⟨⟨entry, middle⟩, first, -⟩ := ok_of_bind prior
      have inside : rest <:+ bytes := started ▸ suffix_append _ _
      obtain ⟨whole, sized⟩ := takeEntry_eq_ok inside first
      have shorter := inside.length_le
      rw [whole, length_append] at shorter
      omega
  · rintro ⟨dictCount, rest, whole, positive, room, exceeds⟩
    refine ⟨dictCount, rest, getUvarint_eq_ok.mpr whole, room, ?_⟩
    exact panics_readEntries.mpr ⟨0, [], rest, positive, rfl, panics_takeEntry.mpr exceeds⟩

theorem panics_fixed (slice : bytes.length < 2 ^ 63) (enc : Enc) (count : Nat) :
    Panics (decodeFixed enc bytes count width) ↔ enc = .dict ∧ WidthOverruns bytes width := by
  cases enc with
  | fixedWidth => exact iff_of_false (not_panics_fixedWidth slice count) fun both => by cases both.1
  | dict =>
    rw [decodeFixed, panics_bind, panics_readDict_fixed slice]
    constructor
    · rintro (overruns | ⟨⟨dict, ids⟩, read, panics⟩)
      · exact ⟨rfl, overruns⟩
      · have inside := readDict_ids slice (advances_readFixed bytes width) read
        exact absurd panics (not_panics_mapM fun id member => not_panics_entryAt (inside id member))
    · exact fun both => .inl both.2
  | _ => exact iff_of_false (not_panics_corrupt _) fun both => by cases both.1

end FixedWidths

/-- A page decoder panics only where a declared length reaches beyond the addresses: the entry of a string dictionary, the width of a
fixed-width dictionary, or the count of a constant float page. -/
theorem page_decoders_panic_iff (bytes : Bytes) (slice : bytes.length < 2 ^ 63) (enc : Enc) (count width bitWidth : Nat) :
    (decodeStringsColumnar enc bytes count ≠ .error .panicked ↔ ¬(enc = .dict ∧ EntryOverruns bytes)) ∧
    (decodeF64 enc bytes count ≠ .error .panicked ↔ ¬(enc = .constant ∧ 8 ≤ bytes.length ∧ 2 ^ 60 ≤ count)) ∧
    (decodeFixed enc bytes count width ≠ .error .panicked ↔ ¬(enc = .dict ∧ WidthOverruns bytes width)) ∧
    decodeBitmap bytes count ≠ .error .panicked ∧
    unpackBits bytes count bitWidth ≠ .error .panicked :=
  ⟨not_congr (panics_strings slice enc count), not_congr (panics_f64 slice enc count), not_congr (panics_fixed slice enc count),
    not_panics_decodeBitmap bytes count, not_panics_unpackBits (by omega) count bitWidth⟩

/-- A page of one short dictionary entry has no length that overruns. -/
theorem page_decoders_panic_iff_short :
    [1, 2, 7, 8, 0].length < 2 ^ 63 ∧ decodeBitmap [1, 2, 7, 8, 0] 40 ≠ .error .panicked ∧
      unpackBits [1, 2, 7, 8, 0] 5 8 ≠ .error .panicked :=
  have decoders := page_decoders_panic_iff [1, 2, 7, 8, 0] (by decide) .dict
  ⟨by decide, (decoders 40 2 8).2.2.2.1, (decoders 5 2 8).2.2.2.2⟩

/-- One entry with the largest length, one of the largest width, and the largest count of a constant. -/
theorem declared_lengths_panic :
    decodeStringsColumnar .dict [1, 255, 255, 255, 255, 255, 255, 255, 255, 255, 1] 1 = .error .panicked ∧
    decodeFixed .dict [1] 1 (2 ^ 64 - 1) = .error .panicked ∧
    decodeF64 .constant [0, 0, 0, 0, 0, 0, 0, 0] (2 ^ 64 - 1) = .error .panicked :=
  ⟨rfl, rfl, rfl⟩

end Ravel.Codec
