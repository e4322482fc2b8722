import Ravel.Proof.Codec.SingleVarints

namespace Ravel.Codec

open List Logs Library

/-- The form of one byte is the one that the general reader takes. -/
theorem readIvarint_eq (bytes : Bytes) : readIvarint bytes = getIvarint bytes := by
  cases bytes with
  | nil => rfl
  | cons byte rest =>
    rw [readIvarint]
    split
    · rename_i low
      have ends : byte.toNat < 128 := UInt8.lt_iff_toNat_lt.mp low
      have read : getUvarint ([] ++ byte :: rest) = _ := getUvarint_groups (by simp) ends (by simp)
      rw [nil_append] at read
      rw [getIvarint, read]
      simp [Nat.mod_eq_of_lt ends, bind, Except.bind, pure, Except.pure]
    · rfl

@[simp] theorem Partial.prepend_nil (later : Partial) : Partial.prepend [] later = later := rfl

theorem Partial.prepend_prepend (first second : List Int64) (later : Partial) :
    Partial.prepend first (Partial.prepend second later) = Partial.prepend (first ++ second) later := by
  rw [Partial.prepend, Partial.prepend, Partial.prepend, append_assoc]

theorem readRemaining_ok {bytes rest : Bytes} {value : Int64} (read : getIvarint bytes = .ok (value, rest)) (wanted : Nat) :
    readRemaining (wanted + 1) bytes = Partial.prepend [value] (readRemaining wanted rest) := by
  rw [readRemaining, readIvarint_eq, read]

theorem readRemaining_error {bytes : Bytes} {error : CodecError} (read : getIvarint bytes = .error error) (wanted : Nat) :
    readRemaining (wanted + 1) bytes = ([], .error error) := by
  rw [readRemaining, readIvarint_eq, read]

/-- Joining the groups of a word takes the low seven bits of each byte. -/
theorem getLsbD_compactVarint (word : BitVec 64) (index : Nat) :
    (compactVarint word).getLsbD index = word.getLsbD (8 * (index / 7) + index % 7) := by
  by_cases inside : index < 64
  · simp only [compactVarint, BitVec.getLsbD_or, BitVec.getLsbD_and, BitVec.getLsbD_ushiftRight]
    interval_cases index <;> simp
  · rw [BitVec.getLsbD_of_ge _ _ (by omega), BitVec.getLsbD_of_ge _ _ (by omega)]

theorem getLsbD_of_small {word : BitVec 64} {bits index : Nat} (small : word.toNat < 2 ^ bits) (above : bits ≤ index) :
    word.getLsbD index = false := by
  rw [← BitVec.testBit_toNat]
  apply Nat.testBit_lt_two_pow
  exact lt_of_lt_of_le small (Nat.pow_le_pow_right (by decide) above)

theorem getLsbD_joinVarint {word : BitVec 64} {bits : Nat} (short : word.toNat < 2 ^ bits) (index : Nat) :
    (joinVarint word bits).getLsbD index = word.getLsbD (8 * (index / 7) + index % 7) := by
  rw [joinVarint]
  split
  · rename_i twoBytes
    rw [BitVec.getLsbD_or, BitVec.getLsbD_and, BitVec.getLsbD_and, BitVec.getLsbD_ushiftRight]
    by_cases inside : index < 14
    · interval_cases index <;> simp
    · have lowMask : (0x7f#64).toNat < 2 ^ 14 := by decide
      have highMask : (0x3f80#64).toNat < 2 ^ 14 := by decide
      rw [getLsbD_of_small lowMask (by omega), getLsbD_of_small highMask (by omega), Bool.and_false, Bool.and_false,
        getLsbD_of_small short (by omega)]
      rfl
  · exact getLsbD_compactVarint word index

theorem toNat_joinVarint {word : BitVec 64} {bytes : Bytes} (spells : word.toNat = littleEndian bytes) :
    (joinVarint word (8 * bytes.length)).toNat = sevenBits bytes := by
  have short : word.toNat < 2 ^ (8 * bytes.length) := by
    rw [spells, pow_mul]
    exact littleEndian_lt bytes
  apply Nat.eq_of_testBit_eq
  intro index
  rw [BitVec.testBit_toNat, getLsbD_joinVarint short, ← BitVec.testBit_toNat, spells, testBit_sevenBits]

section Window

variable {bytes : Bytes}

theorem toNat_littleEndianWord {bytes : Bytes} (short : bytes.length ≤ 8) :
    (littleEndianWord bytes).toNat = littleEndian bytes := by
  have bound : 256 ^ bytes.length ≤ 2 ^ 64 := by
    rw [show 256 = 2 ^ 8 by rfl, ← pow_mul]
    exact Nat.pow_le_pow_right (by decide) (by omega)
  rw [littleEndianWord, BitVec.toNat_ofNat, Nat.mod_eq_of_lt (lt_of_lt_of_le (littleEndian_lt bytes) bound)]

variable {window : BitVec 64} {start : Nat} {stops : BitVec 64} {front : Bytes}

theorem loadWindow_some (loaded : loadWindow bytes = some window) :
    8 ≤ bytes.length ∧ window.toNat = littleEndian (bytes.take 8) := by
  rw [loadWindow] at loaded
  split at loaded
  · cases loaded
  · rename_i long
    cases loaded
    exact ⟨by omega, toNat_littleEndianWord (by rw [length_take]; omega)⟩

/-- The highest bit of a byte of the window says that the varint goes on. -/
theorem window_getLsbD (loaded : loadWindow bytes = some window) {index : Nat} (inside : index < 8) :
    window.getLsbD (8 * index + 7) = bytes[index]?.any fun byte => decide (128 ≤ byte.toNat) := by
  obtain ⟨long, spells⟩ := loadWindow_some loaded
  rw [← BitVec.testBit_toNat, spells, testBit_littleEndian, show (8 * index + 7) / 8 = index by omega,
    show (8 * index + 7) % 8 = 7 by omega, getElem?_take_of_lt inside]
  congr 1
  funext byte
  have low := byte.toNat_lt
  rw [Nat.testBit_eq_decide_div_mod_eq]
  apply decide_eq_decide.mpr
  omega

/-- The bytes of the window from an offset on, as the shift and the mask take them. -/
theorem toNat_windowSlice (loaded : loadWindow bytes = some window) {count : Nat} (inside : start + count ≤ 8) :
    ((window >>> (8 * start)) &&& (BitVec.allOnes 64 >>> (64 - 8 * count))).toNat =
      littleEndian ((bytes.drop start).take count) := by
  obtain ⟨long, spells⟩ := loadWindow_some loaded
  have mask : (BitVec.allOnes 64 >>> (64 - 8 * count)).toNat = 2 ^ (8 * count) - 1 := by
    rw [BitVec.toNat_ushiftRight, BitVec.toNat_allOnes, Nat.shiftRight_eq_div_pow]
    have split : 64 = (64 - 8 * count) + 8 * count := by omega
    conv_lhs => rw [split]
    rw [show 64 - 8 * count + 8 * count - 8 * count = 64 - 8 * count by omega]
    exact two_pow_sub_one_div _ _
  rw [BitVec.toNat_and, mask, Nat.and_two_pow_sub_one_eq_mod, BitVec.toNat_ushiftRight, spells, Nat.shiftRight_eq_div_pow,
    littleEndian_take, littleEndian_take, littleEndian_drop, show (256 : Nat) = 2 ^ 8 by rfl, ← pow_mul, ← pow_mul, ← pow_mul]
  exact mod_two_pow_div_mod (by omega) _

/-- The stops of the bytes from an offset on. -/
def StopsFrom (window stops : BitVec 64) (start : Nat) : Prop :=
  ∀ index, stops.getLsbD index =
    (decide (8 * start ≤ index ∧ index % 8 = 7 ∧ index < 64) && !window.getLsbD index)

theorem getLsbD_stopBits (index : Nat) : stopBits.getLsbD index = decide (index % 8 = 7 ∧ index < 64) := by
  by_cases inside : index < 64
  · have checked : ∀ position : Fin 64, stopBits.getLsbD position = decide (position.val % 8 = 7 ∧ position.val < 64) := by
      decide
    exact checked ⟨index, inside⟩
  · rw [BitVec.getLsbD_of_ge _ _ (by omega), decide_eq_false (by omega)]

theorem stopsFrom_zero (window : BitVec 64) : StopsFrom window (~~~window &&& stopBits) 0 := by
  intro index
  rw [BitVec.getLsbD_and, getLsbD_stopBits, BitVec.getLsbD_not]
  by_cases inside : index < 64
  · by_cases stop : index % 8 = 7
    · simp [inside, stop]
    · simp [stop]
  · simp [inside]

/-- The first stop from an offset on ends a varint, and the bytes before it go on. -/
theorem stopsFrom_first (loaded : loadWindow bytes = some window) (fromStart : StopsFrom window stops start)
    (nonzero : stops ≠ 0#64) :
    ∃ front last, stops.ctz.toNat + 1 = 8 * (start + front.length + 1) ∧ start + front.length < 8 ∧
      (∀ byte ∈ front, 128 ≤ byte.toNat) ∧ last.toNat < 128 ∧
      bytes.drop start = front ++ last :: bytes.drop (start + front.length + 1) := by
  obtain ⟨long, -⟩ := loadWindow_some loaded
  have atFirst := BitVec.getLsbD_true_ctz_of_ne_zero nonzero
  have before : ∀ index, index < stops.ctz.toNat → stops.getLsbD index = false := fun _ => BitVec.getLsbD_false_of_lt_ctz
  generalize stops.ctz.toNat = first at atFirst before
  rw [fromStart first, Bool.and_eq_true, decide_eq_true_eq, Bool.not_eq_true'] at atFirst
  obtain ⟨⟨later, isStop, inside⟩, ends⟩ := atFirst
  obtain ⟨last, rfl⟩ : ∃ last, first = 8 * last + 7 := ⟨first / 8, by omega⟩
  have held : last < bytes.length := by omega
  have goesOn : ∀ index, start ≤ index → index < last → ∀ byte, bytes[index]? = some byte → 128 ≤ byte.toNat := by
    intro index above below byte found
    have clear := before (8 * index + 7) (by omega)
    rw [fromStart, decide_eq_true (by omega), Bool.true_and, Bool.not_eq_false', window_getLsbD loaded (by omega), found] at clear
    exact of_decide_eq_true clear
  rw [window_getLsbD loaded (by omega), getElem?_eq_getElem held] at ends
  refine ⟨(bytes.drop start).take (last - start), bytes[last], ?_, ?_, ?_, ?_, ?_⟩
  · rw [length_take, length_drop]
    omega
  · rw [length_take, length_drop]
    omega
  · intro byte member
    obtain ⟨index, inFront, found⟩ := getElem_of_mem member
    rw [length_take, length_drop] at inFront
    apply goesOn (start + index) (by omega) (by omega)
    rw [← getElem?_drop, ← getElem?_take_of_lt (show index < last - start by omega), getElem?_eq_getElem
      (by rw [length_take, length_drop]; omega), found]
  · have low := of_decide_eq_false ends
    omega
  · rw [length_take, length_drop, show start + min (last - start) (bytes.length - start) + 1 = last + 1 by omega]
    have split := (take_append_drop (last - start) (bytes.drop start)).symm
    rw [drop_drop, show start + (last - start) = last by omega, drop_eq_getElem_cons held] at split
    exact split

/-- Clearing the lowest stop leaves the stops after it. -/
theorem stopsFrom_next {next : Nat} (fromStart : StopsFrom window stops start) (nonzero : stops ≠ 0#64)
    (first : stops.ctz.toNat + 1 = 8 * next) (later : start < next) :
    StopsFrom window (stops &&& (stops - 1#64)) next := by
  intro index
  have atFirst := BitVec.getLsbD_true_ctz_of_ne_zero nonzero
  have before : ∀ index, index < stops.ctz.toNat → stops.getLsbD index = false := fun _ => BitVec.getLsbD_false_of_lt_ctz
  have positive : 1 ≤ stops.toNat := by
    rw [Nat.one_le_iff_ne_zero]
    intro zero
    exact nonzero (BitVec.eq_of_toNat_eq zero)
  have pred : (stops - 1#64).toNat = stops.toNat - 1 := by
    rw [BitVec.toNat_sub_of_le positive]
    rfl
  have cleared : (stops &&& (stops - 1#64)).getLsbD index = (stops.getLsbD index && decide (index ≠ stops.ctz.toNat)) := by
    rw [← BitVec.testBit_toNat, BitVec.toNat_and, pred, testBit_and_pred atFirst before, BitVec.testBit_toNat]
  rw [cleared]
  by_cases passed : 8 * next ≤ index
  · rw [fromStart index, decide_eq_true (show index ≠ stops.ctz.toNat by omega), Bool.and_true]
    congr 1
    apply decide_eq_decide.mpr
    omega
  · rw [decide_eq_false (show ¬(8 * next ≤ index ∧ _) by omega), Bool.false_and]
    by_cases isFirst : index = stops.ctz.toNat
    · rw [decide_eq_false (by omega), Bool.and_false]
    · rw [before index (by omega), Bool.false_and]

/-- The last byte of a slice is what a shift past the others leaves. -/
theorem lastByte_eq_zero_iff {word : BitVec 64} {last : UInt8} (spells : word.toNat = littleEndian (front ++ [last])) :
    word >>> (8 * front.length) = 0#64 ↔ last = 0 := by
  have shifted : (word >>> (8 * front.length)).toNat = last.toNat := by
    rw [BitVec.toNat_ushiftRight, spells, Nat.shiftRight_eq_div_pow, pow_mul, show 2 ^ 8 = 256 by rfl, ← littleEndian_drop,
      drop_left]
    simp
  rw [← BitVec.toNat_inj, shifted, ← UInt8.toNat_inj]
  rfl

/-- What the windows read from an offset on, the reader of one varint at a time reads. -/
theorem windowVarints_spec (loaded : loadWindow bytes = some window) (wanted : Nat)
    (fromStart : StopsFrom window stops start) :
    ∃ values last, windowVarints window wanted (8 * start) stops = (values, 8 * last) ∧ (last = start → values = []) ∧
      start ≤ last ∧ values.length ≤ wanted ∧
      readRemaining wanted (bytes.drop start) =
        Partial.prepend values (readRemaining (wanted - values.length) (bytes.drop last)) := by
  induction wanted generalizing start stops with
  | zero => exact ⟨[], start, rfl, fun _ => rfl, le_refl _, le_refl _, rfl⟩
  | succ wanted ih =>
    rw [windowVarints]
    by_cases noStops : stops = 0#64
    · rw [if_pos noStops]
      exact ⟨[], start, rfl, fun _ => rfl, le_refl _, Nat.zero_le _, rfl⟩
    · rw [if_neg noStops]
      dsimp only
      obtain ⟨front, last, first, inside, goOn, ends, split⟩ := stopsFrom_first loaded fromStart noStops
      have slice : (bytes.drop start).take (front.length + 1) = front ++ [last] := by
        rw [split, take_append, take_of_length_le (by omega)]
        simp
      have bits : stops.ctz.toNat + 1 - 8 * start = 8 * (front.length + 1) := by omega
      have spells := toNat_windowSlice loaded (show start + (front.length + 1) ≤ 8 by omega)
      rw [slice] at spells
      rw [bits]
      generalize (window >>> (8 * start)) &&& (BitVec.allOnes 64 >>> (64 - 8 * (front.length + 1))) = word at spells ⊢
      rw [show 8 * (front.length + 1) - 8 = 8 * front.length by omega]
      by_cases redundant : 8 < 8 * (front.length + 1) ∧ word >>> (8 * front.length) = 0#64
      · rw [if_pos redundant]
        exact ⟨[], start, rfl, fun _ => rfl, le_refl _, Nat.zero_le _, rfl⟩
      · have canonical : ¬(front ≠ [] ∧ last = 0) := by
          rintro ⟨nonempty, zero⟩
          have positive := length_pos_iff.mpr nonempty
          exact redundant ⟨by omega, (lastByte_eq_zero_iff spells).mpr zero⟩
        have joined : UInt64.ofBitVec (joinVarint word (8 * (front.length + 1))) =
            UInt64.ofNat (sevenBits (front ++ [last])) := by
          have value := toNat_joinVarint spells
          rw [length_append, length_singleton] at value
          rw [← value]
          simp
        have read : getUvarint (bytes.drop start) = .ok (UInt64.ofBitVec (joinVarint word (8 * (front.length + 1))),
            bytes.drop (start + front.length + 1)) := by
          rw [split, getUvarint_groups goOn ends (by omega), if_neg canonical, joined]
        have readValue : getIvarint (bytes.drop start) = .ok (zigzagDecode
            (UInt64.ofBitVec (joinVarint word (8 * (front.length + 1)))), bytes.drop (start + front.length + 1)) := by
          rw [getIvarint, read]
          rfl
        obtain ⟨values, stop, later, -, further, short, rest⟩ :=
          ih (stopsFrom_next fromStart noStops first (by omega))
        rw [if_neg redundant, first, later, readRemaining_ok readValue, rest, Partial.prepend_prepend]
        refine ⟨_ :: values, stop, rfl, ?_, by omega, ?_, ?_⟩
        · intro same
          omega
        · rw [length_cons]
          omega
        · rw [length_cons, show wanted + 1 - (values.length + 1) = wanted - values.length by omega]
          rfl

/-- Varints of one byte each are read one after the other. -/
theorem readRemaining_short (low : ∀ byte ∈ front, byte.toNat < 128) (wanted : Nat) (rest : Bytes) :
    readRemaining (front.length + wanted) (front ++ rest) =
      Partial.prepend (front.map fun byte => zigzagDecode byte.toUInt64) (readRemaining wanted rest) := by
  induction front with
  | nil => rw [length_nil, Nat.zero_add, nil_append, map_nil, Partial.prepend_nil]
  | cons byte front ih =>
    have small : byte < 0x80 := UInt8.lt_iff_toNat_lt.mpr (low byte mem_cons_self)
    have read : getIvarint (byte :: (front ++ rest)) = .ok (zigzagDecode byte.toUInt64, front ++ rest) := by
      rw [← readIvarint_eq, readIvarint, if_pos small]
    rw [length_cons, Nat.add_right_comm, cons_append, readRemaining_ok read,
      ih fun other member => low other (mem_cons_of_mem _ member), Partial.prepend_prepend]
    rfl

/-- A window without a bit of the stops holds eight varints of one byte. -/
theorem low_of_window (loaded : loadWindow bytes = some window) (none : window &&& stopBits = 0#64) :
    ∀ byte ∈ bytes.take 8, byte.toNat < 128 := by
  intro byte member
  obtain ⟨index, inside, found⟩ := getElem_of_mem member
  rw [length_take] at inside
  have clear : (window &&& stopBits).getLsbD (8 * index + 7) = false := by
    rw [none]
    simp
  have here : bytes[index]? = some byte := by
    rw [← getElem?_take_of_lt (show index < 8 by omega), getElem?_eq_getElem (by rw [length_take]; omega), found]
  rw [BitVec.getLsbD_and, getLsbD_stopBits, decide_eq_true (by omega), Bool.and_true, window_getLsbD loaded (by omega), here]
    at clear
  have notHigh := of_decide_eq_false clear
  omega

end Window

/-- The bulk reader is the reader of one varint at a time. -/
theorem varintsLoop_eq (steps wanted : Nat) (bytes : Bytes) : varintsLoop steps wanted bytes = readRemaining wanted bytes := by
  induction steps generalizing wanted bytes with
  | zero => rfl
  | succ steps ih =>
    rw [varintsLoop]
    cases wanted with
    | zero => rfl
    | succ wanted =>
      rw [if_neg (by omega)]
      cases loaded : loadWindow bytes with
      | none => rfl
      | some window =>
        dsimp only
        have long := (loadWindow_some loaded).1
        split
        · rename_i eight
          have read := readRemaining_short (low_of_window loaded eight.1) (wanted + 1 - 8) (bytes.drop 8)
          rw [take_append_drop, length_take, show min 8 bytes.length + (wanted + 1 - 8) = wanted + 1 by omega]
            at read
          rw [ih, read]
        · obtain ⟨values, last, found, ended, -, short, read⟩ :=
            windowVarints_spec loaded (wanted + 1) (stopsFrom_zero window)
          rw [Nat.mul_zero] at found
          rw [drop_zero] at read
          rw [found]
          dsimp only
          by_cases noneEnds : last = 0
          · rw [if_pos (by omega)]
            cases single : getIvarint bytes with
            | error error => rw [readRemaining_error single]
            | ok result =>
              rw [readRemaining_ok single]
              dsimp only
              rw [ih, Nat.add_sub_cancel]
          · rw [if_neg (by omega), ih, read, Nat.mul_div_cancel_left last (by decide)]

theorem varintsInto_eq (bytes : Bytes) (wanted : Nat) : varintsInto bytes wanted = readRemaining wanted bytes :=
  varintsLoop_eq wanted wanted bytes

/-- What the writer of varints puts is read back. -/
theorem readRemaining_put (values : List Int64) (rest : Bytes) :
    readRemaining values.length (values.flatMap putIvarint ++ rest) = (values, .ok rest) := by
  induction values with
  | nil => rfl
  | cons value values ih =>
    rw [flatMap_cons, append_assoc, length_cons, readRemaining_ok (getIvarint_put value _), ih]
    rfl

end Ravel.Codec
