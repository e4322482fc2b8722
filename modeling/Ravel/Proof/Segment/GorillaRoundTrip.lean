import Mathlib.Data.List.TakeWhile
import Ravel.Construction.Segment.Gorilla
import Ravel.Library.BitStreams
import Ravel.Library.FailingRuns

namespace Ravel.Segment

open List Library

section Bits

theorem bitsOf_cons (width value : Nat) : bitsOf (width + 1) value = value.testBit width :: bitsOf width value := by
  induction width generalizing value with
  | zero => rfl
  | succ width ih =>
    rw [bitsOf, ih, bitsOf, Nat.testBit_succ]
    rfl

/-- A shift to the left ends in zero bits. -/
theorem bitsOf_shift (width value shift : Nat) :
    bitsOf (width + shift) (value * 2 ^ shift) = bitsOf width value ++ List.replicate shift false := by
  induction shift with
  | zero => simp
  | succ shift ih =>
    have doubled : value * 2 ^ (shift + 1) = 2 * (value * 2 ^ shift) + false.toNat := by
      rw [pow_succ]
      simp
      ring
    rw [← Nat.add_assoc, doubled, bitsOf_append, ih, append_assoc, replicate_succ']

theorem testBit_of_and_one (value : Pattern) (index : Nat) :
    decide ((value >>> index) &&& 1#64 = 1#64) = value.toNat.testBit index := by
  rw [BitVec.testBit_toNat, Bool.eq_iff_iff, decide_eq_true_eq]
  constructor
  · intro isOne
    have lowest := congrArg (fun word => BitVec.getLsbD word 0) isOne
    simpa using lowest
  · intro isSet
    apply BitVec.eq_of_getLsbD_eq
    intro position inside
    cases position with
    | zero => simp [isSet]
    | succ position => simp [BitVec.getLsbD_one]

theorem testBit_of_byteRight (byte : UInt8) {index : Nat} (inside : index < 8) :
    decide (machineShifts.byteRight byte index &&& 1 = 1) = byte.toNat.testBit index := by
  have lowest : (machineShifts.byteRight byte index &&& 1).toNat = (byte.toNat >>> index) % 2 := by
    rw [machineShifts, UInt8.toNat_and, UInt8.toNat_shiftRight, UInt8.toNat_ofNat', show index % 2 ^ 8 % 8 = index by omega]
    exact Nat.and_one_is_mod _
  rw [Bool.eq_iff_iff, decide_eq_true_eq, ← UInt8.toNat_inj, lowest, Nat.testBit, Nat.and_comm, Nat.and_one_is_mod]
  simp

/-- One more bit is read into a word. -/
theorem push_ofNat (value : Nat) (bit : Bool) :
    (BitVec.ofNat 64 value <<< 1) ||| (if bit then 1#64 else 0#64) = BitVec.ofNat 64 (2 * value + bit.toNat) := by
  have small := Bool.toNat_le bit
  have doubled : (BitVec.ofNat 64 value <<< 1).toNat = (value % 2 ^ 63) <<< 1 := by
    rw [BitVec.toNat_shiftLeft, BitVec.toNat_ofNat, Nat.shiftLeft_eq, Nat.shiftLeft_eq]
    omega
  have joined := Nat.shiftLeft_add_eq_or_of_lt (b := bit.toNat) (i := 1) (by omega) (value % 2 ^ 63)
  have low : (if bit then 1#64 else 0#64).toNat = bit.toNat := by
    cases bit
    · rfl
    · rfl
  apply BitVec.eq_of_toNat_eq
  rw [BitVec.toNat_or, doubled, low, ← joined, BitVec.toNat_ofNat, Nat.shiftLeft_eq]
  omega

end Bits

namespace BitWriter

/-- The bits that a writer holds. -/
def bits (writer : BitWriter) : List Bool :=
  byteBits writer.buf ++ bitsOf writer.nbits writer.cur.toNat

/-- The open byte holds so many bits and no others. -/
structure Open (writer : BitWriter) : Prop where
  short : writer.nbits < 8
  small : writer.cur.toNat < 2 ^ writer.nbits

theorem toNat_push {cur : UInt8} (small : cur.toNat < 128) (bit : Bool) :
    ((cur <<< 1) ||| (if bit then 1 else 0)).toNat = 2 * cur.toNat + bit.toNat := by
  have bound := Bool.toNat_le bit
  have doubled : (cur <<< 1).toNat = cur.toNat <<< 1 := by
    rw [UInt8.toNat_shiftLeft]
    simp [Nat.shiftLeft_eq]
    omega
  have joined := Nat.shiftLeft_add_eq_or_of_lt (b := bit.toNat) (i := 1) (by omega) cur.toNat
  have low : (if bit then (1 : UInt8) else 0).toNat = bit.toNat := by
    cases bit
    · rfl
    · rfl
  rw [UInt8.toNat_or, doubled, low, ← joined, Nat.shiftLeft_eq, Nat.mul_comm, pow_one]

theorem Open.writeBit {writer : BitWriter} (isOpen : writer.Open) (bit : Bool) :
    (writer.writeBit bit).Open ∧ (writer.writeBit bit).bits = writer.bits ++ [bit] := by
  have short := isOpen.short
  have small := isOpen.small
  have low : writer.cur.toNat < 128 := by
    have bound : 2 ^ writer.nbits ≤ 2 ^ 7 := Nat.pow_le_pow_right (by decide) (by omega)
    omega
  have pushed := toNat_push low bit
  have grown : 2 * writer.cur.toNat + bit.toNat < 2 ^ (writer.nbits + 1) := by
    have bound := Bool.toNat_le bit
    rw [pow_succ]
    omega
  unfold BitWriter.writeBit
  dsimp only
  split
  · rename_i full
    refine ⟨⟨by show 0 < 8; omega, Nat.one_pos⟩, ?_⟩
    rw [bits, bits, byteBits_append, byteBits_cons, pushed, ← full, bitsOf_append]
    simp [byteBits, bitsOf]
  · rename_i notFull
    refine ⟨⟨by show writer.nbits + 1 < 8; omega, by rw [pushed]; exact grown⟩, ?_⟩
    rw [bits, bits, pushed, bitsOf_append, append_assoc]

theorem Open.writeBits {writer : BitWriter} (isOpen : writer.Open) (value : Pattern) (count : Nat) :
    (writer.writeBits value count).Open ∧ (writer.writeBits value count).bits = writer.bits ++ bitsOf count value.toNat := by
  induction count generalizing writer with
  | zero => exact ⟨isOpen, (append_nil _).symm⟩
  | succ count ih =>
    obtain ⟨nextOpen, nextBits⟩ := isOpen.writeBit (decide ((value >>> count) &&& 1#64 = 1#64))
    obtain ⟨lastOpen, lastBits⟩ := ih nextOpen
    refine ⟨lastOpen, ?_⟩
    rw [BitWriter.writeBits, lastBits, nextBits, bitsOf_cons, testBit_of_and_one, append_assoc]
    rfl

theorem open_new (buf : Bytes) : (new buf).Open ∧ (new buf).bits = byteBits buf :=
  ⟨⟨by show 0 < 8; omega, Nat.one_pos⟩, append_nil _⟩

/-- The finished bytes hold the bits and a padding of zeros. -/
theorem Open.finish {writer : BitWriter} (isOpen : writer.Open) :
    ∃ padding, byteBits writer.finish = writer.bits ++ List.replicate padding false := by
  have short := isOpen.short
  have small := isOpen.small
  unfold BitWriter.finish
  split
  · rename_i pending
    refine ⟨8 - writer.nbits, ?_⟩
    have shifted : (writer.cur <<< UInt8.ofNat (8 - writer.nbits)).toNat = writer.cur.toNat * 2 ^ (8 - writer.nbits) := by
      have amount : (UInt8.ofNat (8 - writer.nbits)).toNat % 8 = 8 - writer.nbits := by
        rw [UInt8.toNat_ofNat']
        omega
      have fits : writer.cur.toNat * 2 ^ (8 - writer.nbits) < 2 ^ 8 := by
        calc writer.cur.toNat * 2 ^ (8 - writer.nbits)
            < 2 ^ writer.nbits * 2 ^ (8 - writer.nbits) := Nat.mul_lt_mul_of_pos_right small (Nat.two_pow_pos _)
          _ = 2 ^ 8 := by rw [← pow_add, show writer.nbits + (8 - writer.nbits) = 8 by omega]
      rw [UInt8.toNat_shiftLeft, amount, Nat.shiftLeft_eq, Nat.mod_eq_of_lt fits]
    have padded := bitsOf_shift writer.nbits writer.cur.toNat (8 - writer.nbits)
    rw [show writer.nbits + (8 - writer.nbits) = 8 by omega] at padded
    rw [byteBits_append, byteBits_cons, shifted, padded, bits, append_assoc]
    simp [byteBits]
  · refine ⟨0, ?_⟩
    have noBits : writer.nbits = 0 := by omega
    rw [bits, noBits]
    simp [bitsOf]

end BitWriter

namespace BitReader

/-- The bits that a reader has before it. -/
def remaining (reader : BitReader) : List Bool :=
  (byteBits reader.data).drop reader.bitPos

theorem readBit_remaining {reader : BitReader} {bit : Bool} {rest : List Bool} (ahead : reader.remaining = bit :: rest) :
    ∃ next, reader.readBit machineShifts = .ok (bit, next) ∧ next.remaining = rest := by
  have located : (byteBits reader.data)[reader.bitPos]? = some bit := by
    have atFront := congrArg (·[0]?) ahead
    simpa [remaining, getElem?_drop] using atFront
  rw [getElem?_byteBits, Option.map_eq_some_iff] at located
  obtain ⟨byte, byteAt, isBit⟩ := located
  refine ⟨⟨reader.data, reader.bitPos + 1⟩, ?_, ?_⟩
  · unfold readBit
    rw [byteAt]
    dsimp only
    rw [testBit_of_byteRight byte (by omega), isBit]
  · have dropped := congrArg List.tail ahead
    rwa [remaining, tail_drop] at dropped

theorem readBitsLoop_remaining {bits rest : List Bool} {reader : BitReader} (value : Nat)
    (ahead : reader.remaining = bits ++ rest) :
    ∃ next, readBitsLoop machineShifts bits.length (BitVec.ofNat 64 value) reader =
      .ok (BitVec.ofNat 64 (joinBits value bits), next) ∧ next.remaining = rest := by
  induction bits generalizing reader value with
  | nil => exact ⟨reader, rfl, ahead⟩
  | cons bit bits ih =>
    obtain ⟨next, read, nextAhead⟩ := readBit_remaining ahead
    obtain ⟨last, readRest, lastAhead⟩ := ih (2 * value + bit.toNat) nextAhead
    refine ⟨last, ?_, lastAhead⟩
    rw [length_cons, readBitsLoop, read]
    show readBitsLoop machineShifts bits.length ((BitVec.ofNat 64 value <<< 1) ||| _) next = _
    rw [push_ofNat, readRest]
    rfl

/-- A reader before the bits of a number reads the number. -/
theorem readBits_remaining {count value : Nat} {rest : List Bool} {reader : BitReader} (fits : count ≤ 64)
    (small : value < 2 ^ count) (ahead : reader.remaining = bitsOf count value ++ rest) :
    ∃ next, reader.readBits machineShifts count = .ok (BitVec.ofNat 64 value, next) ∧ next.remaining = rest := by
  obtain ⟨next, read, nextAhead⟩ := readBitsLoop_remaining 0 ahead
  refine ⟨next, ?_, nextAhead⟩
  rw [length_bitsOf, joinBits_bitsOf_of_lt small] at read
  rw [readBits, if_neg (by omega)]
  exact read

end BitReader

section Blocks

/-- The entries of a range before the first that fails pass. -/
theorem lt_takeWhile_range {bound index : Nat} {test : Nat → Bool} (before : index < ((List.range bound).takeWhile test).length) :
    test index = true := by
  have passes := mem_takeWhile_imp (getElem_mem before)
  have same : ((List.range bound).takeWhile test)[index] = index := by
    have atRange := (List.takeWhile_prefix (l := List.range bound) test).getElem before
    simpa using atRange
  rwa [same] at passes

theorem getLsbD_of_trailingZeros {bits : Pattern} {index : Nat} (below : index < trailingZeros bits) :
    bits.getLsbD index = false := by
  simpa using lt_takeWhile_range below

theorem getLsbD_of_leadingZeros {bits : Pattern} {index : Nat} (above : 64 - leadingZeros bits ≤ index) :
    bits.getLsbD index = false := by
  by_cases inside : index < 64
  · have early : 63 - index < leadingZeros bits := by omega
    have isZero := lt_takeWhile_range early
    rw [show 63 - (63 - index) = index by omega] at isZero
    simpa using isZero
  · exact BitVec.getLsbD_of_ge _ _ (by omega)

/-- A set bit stands between the zeros. -/
theorem leadingZeros_add_trailingZeros {bits : Pattern} (nonzero : bits ≠ 0#64) :
    leadingZeros bits + trailingZeros bits ≤ 63 := by
  by_contra crowded
  apply nonzero
  apply BitVec.eq_of_getLsbD_eq
  intro index _
  rw [BitVec.getLsbD_zero]
  by_cases below : index < trailingZeros bits
  · exact getLsbD_of_trailingZeros below
  · exact getLsbD_of_leadingZeros (by omega)

theorem toNat_mask64 (count : Nat) : (mask64 count).toNat = 2 ^ min count 64 - 1 := by
  unfold mask64
  split
  · rename_i wide
    rw [BitVec.toNat_allOnes, Nat.min_eq_right wide]
  · rename_i narrow
    have bound : 2 ^ count < 2 ^ 64 := Nat.pow_lt_pow_right (by decide) (by omega)
    have positive : 1 ≤ 2 ^ count := Nat.one_le_two_pow
    have shifted : (1#64 <<< count).toNat = 2 ^ count := by
      rw [BitVec.toNat_shiftLeft, Nat.shiftLeft_eq]
      show 1 * 2 ^ count % 2 ^ 64 = _
      rw [Nat.one_mul, Nat.mod_eq_of_lt bound]
    rw [BitVec.toNat_sub_of_le (by rw [BitVec.le_def, shifted]; exact positive), shifted, Nat.min_eq_left (by omega)]
    rfl

theorem getLsbD_mask64 (count index : Nat) : (mask64 count).getLsbD index = (decide (index < count) && decide (index < 64)) := by
  rw [← BitVec.testBit_toNat, toNat_mask64, Nat.testBit_two_pow_sub_one]
  simp

/-- The meaningful bits of a block, shifted back, are the whole pattern. -/
theorem meaningful_shiftLeft {xor : Pattern} {lead trail : Nat} (leadZeros : lead ≤ leadingZeros xor)
    (trailZeros : trail ≤ trailingZeros xor) :
    ((xor >>> trail) &&& mask64 (64 - lead - trail)) <<< trail = xor := by
  apply BitVec.eq_of_getLsbD_eq
  intro index inside
  rw [BitVec.getLsbD_shiftLeft, BitVec.getLsbD_and, BitVec.getLsbD_ushiftRight, getLsbD_mask64]
  by_cases low : index < trail
  · simp [low, getLsbD_of_trailingZeros (lt_of_lt_of_le low trailZeros)]
  · rw [show trail + (index - trail) = index by omega]
    by_cases high : 64 - lead ≤ index
    · have zero : xor.getLsbD index = false := getLsbD_of_leadingZeros (by omega)
      simp [zero]
    · have inBlock : index - trail < 64 - lead - trail := by omega
      have inWord : index - trail < 64 := by omega
      simp [low, inside, inBlock, inWord]

theorem meaningful_lt (xor : Pattern) {count : Nat} (trail : Nat) (fits : count ≤ 64) :
    ((xor >>> trail) &&& mask64 count).toNat < 2 ^ count := by
  have mask := toNat_mask64 count
  rw [Nat.min_eq_left fits] at mask
  have below := Nat.and_le_right (n := (xor >>> trail).toNat) (m := (mask64 count).toNat)
  have positive : 1 ≤ 2 ^ count := Nat.one_le_two_pow
  rw [BitVec.toNat_and]
  omega

end Blocks

/-- The window of an open block leaves room for a bit. -/
def RoomInWindow (window : BlockWindow) : Prop :=
  ∀ lead trail, window = some (lead, trail) → lead + trail ≤ 63

theorem noBlock_room : RoomInWindow none := by
  intro lead trail opened
  cases opened

section Steps

variable {window : BlockWindow} {prev cur : Pattern} {reader : BitReader} {rest : List Bool}

theorem prev_xor (prev cur : Pattern) : prev ^^^ (cur ^^^ prev) = cur := by
  rw [BitVec.xor_comm cur, ← BitVec.xor_assoc, BitVec.xor_self, BitVec.zero_xor]

/-- The meaningful bits of a block bring the change of pattern back. -/
theorem shiftedBits_remaining {xor : Pattern} {lead trail : Nat} (leadZeros : lead ≤ leadingZeros xor)
    (trailZeros : trail ≤ trailingZeros xor) (room : lead + trail ≤ 63)
    (ahead : reader.remaining = bitsOf (64 - lead - trail) ((xor >>> trail) &&& mask64 (64 - lead - trail)).toNat ++ rest) :
    ∃ next, shiftedBits machineShifts reader (64 - lead - trail) trail = .ok (xor, next) ∧ next.remaining = rest := by
  obtain ⟨next, read, nextAhead⟩ := BitReader.readBits_remaining (by omega) (meaningful_lt xor trail (by omega)) ahead
  refine ⟨next, ?_, nextAhead⟩
  rw [BitVec.ofNat_toNat, BitVec.setWidth_eq] at read
  have shifted : machineShifts.wordLeft ((xor >>> trail) &&& mask64 (64 - lead - trail)) trail = some xor := by
    rw [machineShifts]
    dsimp only
    rw [if_pos (by omega), meaningful_shiftLeft leadZeros trailZeros]
  rw [shiftedBits, read]
  dsimp only [Bind.bind, Except.bind]
  rw [shifted]
  rfl

/-- An unchanged value is one zero bit. -/
theorem decodeNext_same (ahead : reader.remaining = false :: rest) :
    ∃ next, decodeNext machineShifts ⟨reader, prev, window⟩ = .ok ⟨next, prev, window⟩ ∧ next.remaining = rest := by
  obtain ⟨next, read, nextAhead⟩ := BitReader.readBit_remaining ahead
  refine ⟨next, ?_, nextAhead⟩
  rw [decodeNext, read]
  rfl

/-- A value in the open block. -/
theorem decodeNext_reuse {lead trail : Nat} (leadZeros : lead ≤ leadingZeros (cur ^^^ prev))
    (trailZeros : trail ≤ trailingZeros (cur ^^^ prev)) (room : lead + trail ≤ 63)
    (ahead : reader.remaining = true :: false :: (bitsOf (64 - lead - trail)
      (((cur ^^^ prev) >>> trail) &&& mask64 (64 - lead - trail)).toNat ++ rest)) :
    ∃ next, decodeNext machineShifts ⟨reader, prev, some (lead, trail)⟩ = .ok ⟨next, cur, some (lead, trail)⟩ ∧
      next.remaining = rest := by
  obtain ⟨second, readFirst, secondAhead⟩ := BitReader.readBit_remaining ahead
  obtain ⟨block, readSecond, blockAhead⟩ := BitReader.readBit_remaining secondAhead
  obtain ⟨next, readBlock, nextAhead⟩ := shiftedBits_remaining leadZeros trailZeros room blockAhead
  refine ⟨next, ?_, nextAhead⟩
  have length : ((checkedSub 64 lead).bind fun rest => checkedSub rest trail).filter (fun length => 0 < length) =
      some (64 - lead - trail) := by
    rw [checkedSub, if_pos (by omega), Option.bind_some, checkedSub, if_pos (by omega), Option.filter_some,
      if_pos (by simp; omega)]
  rw [decodeNext, readFirst]
  simp only [Bind.bind, Except.bind, readSecond, Bool.not_true, Bool.not_false, Bool.false_eq_true, if_false, if_true, length,
    readBlock, prev_xor]
  rfl

/-- A value that opens a block. -/
theorem decodeNext_new {lead trail : Nat} (leadZeros : lead ≤ leadingZeros (cur ^^^ prev))
    (trailZeros : trail ≤ trailingZeros (cur ^^^ prev)) (room : lead + trail ≤ 63) (narrow : lead ≤ 31)
    (ahead : reader.remaining = true :: true :: (bitsOf 5 lead ++ (bitsOf 6 (64 - lead - trail - 1) ++
      (bitsOf (64 - lead - trail) (((cur ^^^ prev) >>> trail) &&& mask64 (64 - lead - trail)).toNat ++ rest)))) :
    ∃ next, decodeNext machineShifts ⟨reader, prev, window⟩ = .ok ⟨next, cur, some (lead, trail)⟩ ∧ next.remaining = rest := by
  obtain ⟨second, readFirst, secondAhead⟩ := BitReader.readBit_remaining ahead
  obtain ⟨header, readSecond, headerAhead⟩ := BitReader.readBit_remaining secondAhead
  obtain ⟨afterLead, readLead, afterLeadAhead⟩ := BitReader.readBits_remaining (by omega) (by omega) headerAhead
  obtain ⟨block, readLength, blockAhead⟩ := BitReader.readBits_remaining (by omega) (by omega) afterLeadAhead
  obtain ⟨next, readBlock, nextAhead⟩ := shiftedBits_remaining leadZeros trailZeros room blockAhead
  refine ⟨next, ?_, nextAhead⟩
  have isLead : (BitVec.ofNat 64 lead).toNat = lead := by
    rw [BitVec.toNat_ofNat]
    omega
  have isLength : (BitVec.ofNat 64 (64 - lead - trail - 1)).toNat + 1 = 64 - lead - trail := by
    rw [BitVec.toNat_ofNat]
    omega
  have isTrail : ((checkedSub 64 lead).bind fun rest => checkedSub rest (64 - lead - trail)) = some trail := by
    rw [checkedSub, if_pos (by omega), Option.bind_some, checkedSub, if_pos (by omega)]
    congr 1
    omega
  rw [decodeNext, readFirst]
  simp only [Bind.bind, Except.bind, readSecond, Bool.not_true, Bool.false_eq_true, if_false, readLead, readLength, isLead,
    isLength, isTrail, readBlock, prev_xor]
  rfl

/-- One value is written as bits that bring it back. -/
theorem encodeNext_decodes {writer : BitWriter} (isOpen : writer.Open) (room : RoomInWindow window) (prev cur : Pattern) :
    (encodeNext writer prev cur window).1.Open ∧ RoomInWindow (encodeNext writer prev cur window).2 ∧
    ∃ code, (encodeNext writer prev cur window).1.bits = writer.bits ++ code ∧
      ∀ reader rest, BitReader.remaining reader = code ++ rest →
        ∃ next, decodeNext machineShifts ⟨reader, prev, window⟩ = .ok ⟨next, cur, (encodeNext writer prev cur window).2⟩ ∧
          next.remaining = rest := by
  unfold encodeNext
  dsimp only
  split
  · rename_i same
    have isPrev : cur = prev := by
      rw [← prev_xor prev cur, same, BitVec.xor_zero]
    obtain ⟨nextOpen, nextBits⟩ := isOpen.writeBit false
    refine ⟨nextOpen, room, [false], nextBits, ?_⟩
    intro reader rest ahead
    rw [isPrev]
    exact decodeNext_same ahead
  · rename_i changed
    have zeros := leadingZeros_add_trailingZeros changed
    obtain ⟨firstOpen, firstBits⟩ := isOpen.writeBit true
    split
    · rename_i lead trail reuses
      simp only [reusesWindow, Bool.and_eq_true, decide_eq_true_eq] at reuses
      obtain ⟨secondOpen, secondBits⟩ := firstOpen.writeBit false
      obtain ⟨lastOpen, lastBits⟩ := secondOpen.writeBits
        (((cur ^^^ prev) >>> trail) &&& mask64 (64 - lead - trail)) (64 - lead - trail)
      refine ⟨lastOpen, room, true :: false :: bitsOf (64 - lead - trail)
        (((cur ^^^ prev) >>> trail) &&& mask64 (64 - lead - trail)).toNat, ?_, ?_⟩
      · rw [lastBits, secondBits, firstBits, append_assoc, append_assoc]
        rfl
      · intro reader rest ahead
        exact decodeNext_reuse reuses.1 reuses.2 (room lead trail rfl) ahead
    · have leadZeros := Nat.min_le_left (leadingZeros (cur ^^^ prev)) 31
      have narrow := Nat.min_le_right (leadingZeros (cur ^^^ prev)) 31
      generalize min (leadingZeros (cur ^^^ prev)) 31 = lead at leadZeros narrow
      generalize isTrail : trailingZeros (cur ^^^ prev) = trail at zeros
      obtain ⟨secondOpen, secondBits⟩ := firstOpen.writeBit true
      obtain ⟨leadOpen, leadBits⟩ := secondOpen.writeBits (BitVec.ofNat 64 lead) 5
      obtain ⟨lengthOpen, lengthBits⟩ := leadOpen.writeBits (BitVec.ofNat 64 (64 - lead - trail - 1)) 6
      obtain ⟨lastOpen, lastBits⟩ := lengthOpen.writeBits
        (((cur ^^^ prev) >>> trail) &&& mask64 (64 - lead - trail)) (64 - lead - trail)
      have isLead : (BitVec.ofNat 64 lead).toNat = lead := by
        rw [BitVec.toNat_ofNat]
        omega
      have isLength : (BitVec.ofNat 64 (64 - lead - trail - 1)).toNat = 64 - lead - trail - 1 := by
        rw [BitVec.toNat_ofNat]
        omega
      refine ⟨lastOpen, ?_, true :: true :: (bitsOf 5 lead ++ (bitsOf 6 (64 - lead - trail - 1) ++
        bitsOf (64 - lead - trail) (((cur ^^^ prev) >>> trail) &&& mask64 (64 - lead - trail)).toNat)), ?_, ?_⟩
      · intro newLead newTrail opened
        cases opened
        omega
      · rw [lastBits, lengthBits, leadBits, secondBits, firstBits, isLead, isLength]
        simp only [append_assoc, cons_append, nil_append]
      · intro reader rest ahead
        apply decodeNext_new leadZeros (Nat.le_of_eq isTrail.symm) (by omega) narrow
        rw [ahead]
        simp only [append_assoc, cons_append]

end Steps

/-- The values after the first are written as bits that bring them back. -/
theorem encodeRest_decodes {writer : BitWriter} {window : BlockWindow} (isOpen : writer.Open) (room : RoomInWindow window)
    (prev : Pattern) (values : List Pattern) :
    (encodeRest writer prev window values).Open ∧
    ∃ code, (encodeRest writer prev window values).bits = writer.bits ++ code ∧
      ∀ reader rest out, BitReader.remaining reader = code ++ rest →
        decodeRest machineShifts values.length ⟨reader, prev, window⟩ out = .ok (out ++ values) := by
  induction values generalizing writer window prev with
  | nil => exact ⟨isOpen, [], (append_nil _).symm, fun _ _ out _ => by rw [append_nil]; rfl⟩
  | cons cur values ih =>
    obtain ⟨nextOpen, nextRoom, code, nextBits, decodes⟩ := encodeNext_decodes isOpen room prev cur
    obtain ⟨lastOpen, laterCode, lastBits, laterDecodes⟩ := ih nextOpen nextRoom cur
    refine ⟨lastOpen, code ++ laterCode, ?_, ?_⟩
    · rw [encodeRest, lastBits, nextBits, append_assoc]
    · intro reader rest out ahead
      rw [append_assoc] at ahead
      obtain ⟨next, decoded, nextAhead⟩ := decodes reader _ ahead
      rw [length_cons, decodeRest, decoded]
      show decodeRest machineShifts values.length ⟨next, cur, _⟩ (out ++ [cur]) = _
      rw [laterDecodes next rest _ nextAhead, append_assoc]
      rfl

section Shifts

variable {shifts : Shifts}

/-- The shifts agree with the machine's on every amount that is in range. -/
structure AgreeInRange (shifts : Shifts) : Prop where
  byteRight : ∀ byte amount, amount ≤ 7 → shifts.byteRight byte amount = machineShifts.byteRight byte amount
  wordLeft : ∀ bits amount, amount ≤ 63 → shifts.wordLeft bits amount = machineShifts.wordLeft bits amount

theorem readBit_agrees (agree : AgreeInRange shifts) (reader : BitReader) :
    reader.readBit shifts = reader.readBit machineShifts := by
  unfold BitReader.readBit
  dsimp only
  split
  · rfl
  · rw [agree.byteRight _ _ (by omega)]

theorem readBitsLoop_agrees (agree : AgreeInRange shifts) (count : Nat) (result : Pattern) (reader : BitReader) :
    BitReader.readBitsLoop shifts count result reader = BitReader.readBitsLoop machineShifts count result reader := by
  induction count generalizing result reader with
  | zero => rfl
  | succ count ih =>
    rw [BitReader.readBitsLoop, BitReader.readBitsLoop, readBit_agrees agree]
    congr 1
    funext read
    exact ih _ _

theorem readBits_agrees (agree : AgreeInRange shifts) (reader : BitReader) (count : Nat) :
    reader.readBits shifts count = reader.readBits machineShifts count := by
  rw [BitReader.readBits, BitReader.readBits, readBitsLoop_agrees agree]

theorem shiftedBits_agrees (agree : AgreeInRange shifts) (reader : BitReader) (length : Nat) {trail : Nat} (inRange : trail ≤ 63) :
    shiftedBits shifts reader length trail = shiftedBits machineShifts reader length trail := by
  rw [shiftedBits, shiftedBits, readBits_agrees agree]
  congr 1
  funext read
  obtain ⟨bits, next⟩ := read
  dsimp only
  rw [agree.wordLeft _ _ inRange]

/-- The trailing zeros that a header implies stay below the word's width. -/
theorem trail_of_header {lead length trail : Nat} (positive : 0 < length)
    (found : ((checkedSub 64 lead).bind fun rest => checkedSub rest length) = some trail) : lead + trail ≤ 63 := by
  obtain ⟨rest, first, second⟩ := Option.bind_eq_some_iff.mp found
  unfold checkedSub at first second
  split at first
  · split at second
    · simp only [Option.some.injEq] at first second
      omega
    · cases second
  · cases first

theorem decodeNext_agrees (agree : AgreeInRange shifts) {state : DecodeState} (room : RoomInWindow state.window) :
    decodeNext shifts state = decodeNext machineShifts state := by
  unfold decodeNext
  simp only [readBit_agrees agree, readBits_agrees agree]
  congr 1
  funext first
  split
  · rfl
  · congr 1
    funext second
    split
    · cases window : state.window with
      | none => rfl
      | some zeros =>
        have inRange := room zeros.1 zeros.2 window
        dsimp only
        split
        · rfl
        · rw [shiftedBits_agrees agree _ _ (by omega)]
    · congr 1
      funext lead
      congr 1
      funext length
      split
      · rfl
      · rename_i trail found
        have inRange := trail_of_header (Nat.succ_pos _) found
        rw [shiftedBits_agrees agree _ _ (by omega)]

/-- Every window that a decoder opens leaves room for a bit. -/
theorem decodeNext_room {state next : DecodeState} (room : RoomInWindow state.window)
    (decoded : decodeNext machineShifts state = .ok next) : RoomInWindow next.window := by
  obtain ⟨⟨changed, reader⟩, -, afterFirst⟩ := ok_of_bind decoded
  dsimp only at afterFirst
  split at afterFirst
  · cases afterFirst
    exact room
  · obtain ⟨second, -, afterSecond⟩ := ok_of_bind afterFirst
    split at afterSecond
    · split at afterSecond
      · cases afterSecond
      · rename_i lead trail window
        split at afterSecond
        · cases afterSecond
        · obtain ⟨block, -, returned⟩ := ok_of_bind afterSecond
          cases returned
          exact room
    · obtain ⟨lead, -, afterLead⟩ := ok_of_bind afterSecond
      obtain ⟨length, -, afterLength⟩ := ok_of_bind afterLead
      split at afterLength
      · cases afterLength
      · rename_i trail found
        obtain ⟨block, -, returned⟩ := ok_of_bind afterLength
        cases returned
        intro openLead openTrail opened
        cases opened
        exact trail_of_header (Nat.succ_pos _) found

theorem decodeRest_agrees (agree : AgreeInRange shifts) (count : Nat) {state : DecodeState} (room : RoomInWindow state.window)
    (out : List Pattern) : decodeRest shifts count state out = decodeRest machineShifts count state out := by
  induction count generalizing state out with
  | zero => rfl
  | succ count ih =>
    rw [decodeRest, decodeRest, decodeNext_agrees agree room]
    apply bind_congr_ok
    intro next decoded
    exact ih (decodeNext_room room decoded) _

end Shifts

/-- A Gorilla page comes back, appended to what a buffer holds, and a decoder never uses a shift outside of its range, whatever
the bytes are. -/
theorem gorilla_round_trip :
    (∀ (values : List Pattern) (before : Bytes) (out : List Pattern), ∃ page, encodeGorillaInto values before = before ++ page ∧
      decodeGorillaInto page values.length out = .ok (out ++ values)) ∧
    ∀ (bytes : Bytes) (count : Nat) (out : List Pattern) (shifts : Shifts), AgreeInRange shifts →
      decodeGorillaWith shifts bytes count out = decodeGorillaInto bytes count out := by
  refine ⟨?_, ?_⟩
  · intro values before out
    obtain ⟨newOpen, newBits⟩ := BitWriter.open_new before
    cases values with
    | nil => exact ⟨[], (append_nil _).symm, by rw [append_nil]; rfl⟩
    | cons first rest =>
      obtain ⟨firstOpen, firstBits⟩ := newOpen.writeBits first 64
      obtain ⟨lastOpen, code, lastBits, decodes⟩ := encodeRest_decodes firstOpen noBlock_room first rest
      obtain ⟨padding, finished⟩ := lastOpen.finish
      rw [lastBits, firstBits, newBits, append_assoc, append_assoc] at finished
      obtain ⟨page, appended, pageBits⟩ := exists_append_of_byteBits finished
      refine ⟨page, appended, ?_⟩
      have ahead : (BitReader.mk page 0).remaining = bitsOf 64 first.toNat ++ (code ++ List.replicate padding false) := by
        rw [BitReader.remaining, drop_zero, pageBits]
      obtain ⟨next, read, nextAhead⟩ := BitReader.readBits_remaining (Nat.le_refl 64) first.isLt ahead
      rw [BitVec.ofNat_toNat, BitVec.setWidth_eq] at read
      rw [decodeGorillaInto, length_cons, decodeGorillaWith, read]
      show decodeRest machineShifts rest.length ⟨next, first, none⟩ (out ++ [first]) = _
      rw [decodes next _ _ nextAhead, append_assoc]
      rfl
  · intro bytes count out shifts agree
    cases count with
    | zero => rfl
    | succ rest =>
      rw [decodeGorillaInto, decodeGorillaWith, decodeGorillaWith, readBits_agrees agree]
      congr 1
      funext read
      exact decodeRest_agrees agree rest noBlock_room _

end Ravel.Segment
