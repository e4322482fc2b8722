import Mathlib.Tactic
import Ravel.Construction.Logs.CanonicalAttrs

namespace Ravel.Logs

open List

/-- The decoder reads exactly these bytes and returns the value, wherever they stand in memory. -/
def Decodes {Value : Type} (decoder : Decoder Value) (bytes : List UInt8) (value : Value) : Prop :=
  ∀ (pos : Nat) (rest : List UInt8), pos + bytes.length < 2 ^ 64 →
    decoder ⟨pos, bytes ++ rest⟩ = .ok (value, ⟨pos + bytes.length, rest⟩)

theorem Decodes.pure {Value : Type} (value : Value) : Decodes (Pure.pure value) [] value := by
  intro pos rest _
  rfl

variable {First : Type} {decoder : Decoder First} {first : First} {bytes : List UInt8} (byte : UInt8) (value : UInt64)
  {result : UInt64} (remaining : Nat)

theorem Decodes.bind {Second : Type} {next : First → Decoder Second} {firstBytes secondBytes : List UInt8}
    {second : Second} (readsFirst : Decodes decoder firstBytes first)
    (readsSecond : Decodes (next first) secondBytes second) :
    Decodes (decoder >>= next) (firstBytes ++ secondBytes) second := by
  intro pos rest within
  rw [length_append] at within
  have reachesFirst := readsFirst pos (secondBytes ++ rest) (by omega)
  have reachesSecond := readsSecond (pos + firstBytes.length) rest (by omega)
  rw [append_assoc, length_append, ← Nat.add_assoc]
  show (decoder ⟨pos, firstBytes ++ (secondBytes ++ rest)⟩ >>= fun result => next result.1 result.2) = _
  rw [reachesFirst]
  exact reachesSecond

theorem Decodes.map {Second : Type} (f : First → Second) (reads : Decodes decoder bytes first) :
    Decodes (do return f (← decoder)) bytes (f first) := by
  have returned : Decodes (Pure.pure (f first) : Decoder Second) [] (f first) := Decodes.pure (f first)
  have composed : Decodes (decoder >>= fun value => Pure.pure (f value)) (bytes ++ []) (f first) := reads.bind returned
  rwa [append_nil] at composed

/-- The decoder fails on these bytes, wherever they stand in memory. -/
def Refuses {Value : Type} (decoder : Decoder Value) (bytes : List UInt8) : Prop :=
  ∀ (pos : Nat) (rest : List UInt8), pos + bytes.length < 2 ^ 64 →
    ∃ failure, decoder ⟨pos, bytes ++ rest⟩ = .error failure

/-- The decoder reads the value from the bytes when the condition holds and fails on them when it does not. -/
structure Decides {Value : Type} (decoder : Decoder Value) (bytes : List UInt8) (value : Value) (fits : Prop) : Prop where
  reads : fits → Decodes decoder bytes value
  refuses : ¬fits → Refuses decoder bytes

theorem Decodes.decides {fits : Prop} (reads : Decodes decoder bytes first) (holds : fits) :
    Decides decoder bytes first fits :=
  ⟨fun _ => reads, fun fails => absurd holds fails⟩

theorem Decides.congr {fits other : Prop} (decided : Decides decoder bytes first fits) (same : fits ↔ other) :
    Decides decoder bytes first other :=
  ⟨fun holds => decided.reads (same.mpr holds), fun fails => decided.refuses fun holds => fails (same.mp holds)⟩

/-- Two decoders in sequence decide both conditions. The second one runs when the first one has read. -/
theorem Decides.bind {Second : Type} {next : First → Decoder Second} {firstBytes secondBytes : List UInt8}
    {second : Second} {fits later : Prop} (decidesFirst : Decides decoder firstBytes first fits)
    (decidesSecond : fits → Decides (next first) secondBytes second later) :
    Decides (decoder >>= next) (firstBytes ++ secondBytes) second (fits ∧ later) := by
  constructor
  · rintro ⟨holds, holdsLater⟩
    exact (decidesFirst.reads holds).bind ((decidesSecond holds).reads holdsLater)
  · intro fails pos rest within
    rw [length_append] at within
    rw [append_assoc]
    show ∃ failure, (decoder ⟨pos, firstBytes ++ (secondBytes ++ rest)⟩ >>= fun result => next result.1 result.2) = .error failure
    by_cases holds : fits
    · rw [decidesFirst.reads holds pos (secondBytes ++ rest) (by omega)]
      exact (decidesSecond holds).refuses (fun holdsLater => fails ⟨holds, holdsLater⟩) _ rest (by omega)
    · obtain ⟨failure, failed⟩ := decidesFirst.refuses holds pos (secondBytes ++ rest) (by omega)
      rw [failed]
      exact ⟨failure, rfl⟩

theorem Decodes.andThen {Second : Type} {next : First → Decoder Second} {firstBytes secondBytes : List UInt8}
    {second : Second} {later : Prop} (readsFirst : Decodes decoder firstBytes first)
    (decidesSecond : Decides (next first) secondBytes second later) :
    Decides (decoder >>= next) (firstBytes ++ secondBytes) second later :=
  ((readsFirst.decides trivial).bind fun _ => decidesSecond).congr (iff_of_eq (true_and later))

theorem Decides.map {Second : Type} {fits : Prop} (f : First → Second) (decided : Decides decoder bytes first fits) :
    Decides (do return f (← decoder)) bytes (f first) fits := by
  have returned : Decides (Pure.pure (f first) : Decoder Second) [] (f first) True :=
    (Decodes.pure (f first)).decides trivial
  have composed : Decides (decoder >>= fun value => Pure.pure (f value)) (bytes ++ []) (f first) (fits ∧ True) :=
    decided.bind fun _ => returned
  rw [append_nil] at composed
  exact composed.congr (iff_of_eq (and_true fits))

theorem decodes_nextByte (truncated : LogSegError) (byte : UInt8) : Decodes (nextByte truncated) [byte] byte := by
  intro pos rest _
  rfl

theorem decodes_takeBytes (what : String) (bytes : List UInt8) : Decodes (takeBytes what bytes.length) bytes bytes := by
  intro pos rest within
  have enough : ¬(bytes ++ rest).length < bytes.length := by
    rw [length_append]
    omega
  have noOverflow : ¬2 ^ 64 ≤ pos + bytes.length := by omega
  simp only [takeBytes, noOverflow, enough, if_false, take_left, drop_left]

theorem toNat_shiftRight_seven : (value >>> 7).toNat = value.toNat / 128 := by
  rw [UInt64.toNat_shiftRight]
  simp [Nat.shiftRight_eq_div_pow]

theorem toNat_lowGroup : (value &&& 0x7f).toUInt8.toNat = value.toNat % 128 := by
  rw [UInt64.toNat_toUInt8, UInt64.toNat_and]
  have mask : (0x7f : UInt64).toNat = 2 ^ 7 - 1 := rfl
  rw [mask, Nat.and_two_pow_sub_one_eq_mod]
  omega

theorem toNat_continued (low : byte.toNat < 128) : (byte ||| 0x80).toNat = byte.toNat + 128 := by
  rw [UInt8.toNat_or]
  have flag : (0x80 : UInt8).toNat = 2 ^ 7 * 1 := rfl
  rw [flag, Nat.or_comm, ← Nat.two_pow_add_eq_or_of_lt low]
  omega

theorem toNat_payload : (byte &&& 0x7f).toNat = byte.toNat % 128 := by
  rw [UInt8.toNat_and]
  have mask : (0x7f : UInt8).toNat = 2 ^ 7 - 1 := rfl
  rw [mask, Nat.and_two_pow_sub_one_eq_mod]

theorem continues_iff : byte &&& 0x80 = 0 ↔ byte.toNat < 128 := by
  have checkedAll : ∀ index : Fin 256, (UInt8.ofNat index &&& 0x80 = 0 ↔ index.val < 128) := by decide +kernel
  have checkedByte := checkedAll ⟨byte.toNat, UInt8.toNat_lt byte⟩
  rwa [UInt8.ofNat_toNat] at checkedByte

/-- The groups read so far with the group of one more byte. -/
def joinGroup (result : UInt64) (byte : UInt8) (index : Nat) : UInt64 :=
  result ||| ((byte &&& 0x7f).toUInt64 <<< UInt64.ofNat (7 * index))

theorem toNat_joinGroup {whole index : Nat} {byte : UInt8} (shifted : 7 * index < 64)
    (before : result.toNat = whole % 2 ^ (7 * index)) (payload : byte.toNat % 128 = whole / 2 ^ (7 * index) % 128)
    (within : whole < 2 ^ 64) : (joinGroup result byte index).toNat = whole % 2 ^ (7 * index + 7) := by
  have shiftValue : (UInt64.ofNat (7 * index)).toNat = 7 * index := by
    rw [UInt64.toNat_ofNat']
    exact Nat.mod_eq_of_lt (by omega)
  have fits : whole / 2 ^ (7 * index) % 128 * 2 ^ (7 * index) < 2 ^ 64 :=
    calc
      whole / 2 ^ (7 * index) % 128 * 2 ^ (7 * index) ≤ whole / 2 ^ (7 * index) * 2 ^ (7 * index) :=
        Nat.mul_le_mul_right _ (Nat.mod_le _ _)
      _ ≤ whole := Nat.div_mul_le_self _ _
      _ < 2 ^ 64 := within
  have split : whole % 2 ^ (7 * index + 7) =
      2 ^ (7 * index) * (whole / 2 ^ (7 * index) % 128) + whole % 2 ^ (7 * index) := by
    rw [Nat.pow_add, Nat.mod_mul]
    exact Nat.add_comm _ _
  unfold joinGroup
  rw [UInt64.toNat_or, UInt64.toNat_shiftLeft, UInt8.toNat_toUInt64, toNat_payload, payload, before, shiftValue,
    Nat.mod_eq_of_lt shifted, Nat.shiftLeft_eq, Nat.mod_eq_of_lt fits, Nat.or_comm, Nat.mul_comm,
    ← Nat.two_pow_add_eq_or_of_lt (Nat.mod_lt _ (Nat.two_pow_pos _)), split]

theorem groupIndex : maxVarintBytes - (remaining + 1) = 9 - remaining := by
  simp only [maxVarintBytes]
  omega

theorem decodes_lastGroup {remaining : Nat} {byte : UInt8} (low : byte.toNat < 128)
    (inRange : 9 - remaining = 9 → byte.toNat ≤ 1) (canonical : 0 < 9 - remaining → byte.toNat ≠ 0) :
    Decodes (getUvarintLoop result (remaining + 1)) [byte] (joinGroup result byte (9 - remaining)) := by
  have payload : (byte &&& 0x7f).toUInt64.toNat = byte.toNat := by
    rw [UInt8.toNat_toUInt64, toNat_payload, Nat.mod_eq_of_lt low]
  have fits : ¬(9 - remaining = maxVarintBytes - 1 ∧ 1 < (byte &&& 0x7f).toUInt64) := by
    rintro ⟨last, large⟩
    have large' := UInt64.lt_iff_toNat_lt.mp large
    rw [payload] at large'
    have small := inRange last
    have one : (1 : UInt64).toNat = 1 := rfl
    omega
  have shortest : ¬(0 < 9 - remaining ∧ byte = 0) := by
    rintro ⟨later, zero⟩
    apply canonical later
    rw [zero]
    rfl
  have ends : byte &&& 0x80 = 0 := (continues_iff byte).mpr low
  intro pos rest _
  simp only [getUvarintLoop, groupIndex remaining, nextByte, bind, StateT.bind, Except.bind, cons_append, nil_append, fits,
    if_false, ends, if_true, shortest]
  rfl

/-- The loop reads a byte that another one follows. -/
theorem decodes_moreGroups {remaining : Nat} {value : UInt64} {byte : UInt8} (high : 128 ≤ byte.toNat)
    (inRange : 9 - remaining ≠ 9)
    (later : Decodes (getUvarintLoop (joinGroup result byte (9 - remaining)) remaining) bytes value) :
    Decodes (getUvarintLoop result (remaining + 1)) (byte :: bytes) value := by
  have fits : ¬(9 - remaining = maxVarintBytes - 1 ∧ 1 < (byte &&& 0x7f).toUInt64) := by
    rintro ⟨last, _⟩
    exact inRange last
  have more : ¬byte &&& 0x80 = 0 := by
    rw [continues_iff]
    omega
  intro pos rest within
  have tail := later (pos + 1) rest (by simp only [length_cons] at within; omega)
  simp only [getUvarintLoop, groupIndex remaining, nextByte, bind, StateT.bind, Except.bind, cons_append, fits, if_false, more]
  rw [length_cons, Nat.add_comm bytes.length 1, ← Nat.add_assoc]
  exact tail

/-- The loops meet at every group: the reader holds the low groups and the writer the rest of the value. -/
theorem decodes_putUvarintLoop (whole : Nat) (within : whole < 2 ^ 64) (remaining : Nat) :
    ∀ (result value : UInt64), 0 < remaining → remaining ≤ 10 →
      result.toNat = whole % 2 ^ (7 * (10 - remaining)) → value.toNat = whole / 2 ^ (7 * (10 - remaining)) →
      (remaining = 10 ∨ value.toNat ≠ 0) →
      Decodes (getUvarintLoop result remaining) (putUvarintLoop value remaining) (UInt64.ofNat whole) := by
  induction remaining with
  | zero =>
    intro result value positive
    omega
  | succ remaining ih =>
    intro result value _ groups before after started
    have position : 10 - (remaining + 1) = 9 - remaining := by omega
    rw [position] at before after
    have lowByte : (value &&& 0x7f).toUInt8.toNat = value.toNat % 128 := toNat_lowGroup value
    have topGroup : 9 - remaining = 9 → value.toNat ≤ 1 := by
      intro last
      rw [after, last]
      omega
    by_cases ends : value >>> 7 = 0
    · have small : value.toNat < 128 := by
        have zero := congrArg UInt64.toNat ends
        rw [toNat_shiftRight_seven] at zero
        simp only [UInt64.toNat_zero] at zero
        omega
      have written : putUvarintLoop value (remaining + 1) = [(value &&& 0x7f).toUInt8] := by
        simp [putUvarintLoop, ends]
      have joined : joinGroup result (value &&& 0x7f).toUInt8 (9 - remaining) = UInt64.ofNat whole := by
        apply UInt64.toNat_inj.mp
        rw [toNat_joinGroup (by omega) before (by rw [lowByte, Nat.mod_mod, after]) within, UInt64.toNat_ofNat',
          Nat.mod_eq_of_lt within, Nat.pow_add]
        apply Nat.mod_eq_of_lt
        have bound := Nat.lt_mul_of_div_lt (after ▸ small) (Nat.two_pow_pos (7 * (9 - remaining)))
        omega
      rw [written, ← joined]
      apply decodes_lastGroup <;> omega
    · have large : 128 ≤ value.toNat := by
        by_contra small
        apply ends
        apply UInt64.toNat_inj.mp
        rw [toNat_shiftRight_seven]
        simp only [UInt64.toNat_zero]
        omega
      have written : putUvarintLoop value (remaining + 1) =
          ((value &&& 0x7f).toUInt8 ||| 0x80) :: putUvarintLoop (value >>> 7) remaining := by
        simp [putUvarintLoop, ends]
      have flagged : ((value &&& 0x7f).toUInt8 ||| 0x80).toNat = value.toNat % 128 + 128 := by
        rw [toNat_continued _ (by omega), lowByte]
      have next : 7 * (10 - remaining) = 7 * (9 - remaining) + 7 := by omega
      rw [written]
      apply decodes_moreGroups (by omega) (by omega)
      apply ih _ _ (by omega) (by omega)
      · rw [next]
        exact toNat_joinGroup (by omega) before (by omega) within
      · rw [toNat_shiftRight_seven, after, next, Nat.pow_add, Nat.div_div_eq_div_mul]
      · right
        rw [toNat_shiftRight_seven]
        omega

theorem length_putUvarintLoop_le : ∀ value, (putUvarintLoop value remaining).length ≤ remaining := by
  induction remaining with
  | zero =>
    intro value
    exact Nat.le_refl 0
  | succ remaining ih =>
    intro value
    rw [putUvarintLoop]
    split
    · simp
    · have rest := ih (value >>> 7)
      rw [length_cons]
      omega

theorem decodes_putUvarint : Decodes getUvarint (putUvarint value) value := by
  have read := decodes_putUvarintLoop value.toNat value.toNat_lt 10 0 value (by omega) (by omega)
    (by simp [Nat.mod_one]) (by simp) (.inl rfl)
  rwa [UInt64.ofNat_toNat] at read

/-- The bits of a zigzag value: the sign, then the bits of the value against the sign. -/
theorem getLsbD_zigzag (value : Int64) (index : Nat) (within : index < 64) :
    (zigzag value).toBitVec.getLsbD index =
      ((decide (0 < index) && value.toBitVec.getLsbD (index - 1)) ^^ value.toBitVec.msb) := by
  have shifted : (value.toBitVec.sshiftRight 63).getLsbD index = value.toBitVec.msb := by
    rw [BitVec.getLsbD_sshiftRight]
    rcases Nat.eq_zero_or_pos index with rfl | positive
    · simp [BitVec.msb_eq_getLsbD_last]
    · simp [show ¬63 + index < 64 by omega, show ¬64 ≤ index by omega]
  have unfolded : (zigzag value).toBitVec = (value.toBitVec <<< 1) ^^^ value.toBitVec.sshiftRight 63 := by
    simp [zigzag]
  rw [unfolded, BitVec.getLsbD_xor, shifted, BitVec.getLsbD_shiftLeft]
  rcases Nat.eq_zero_or_pos index with rfl | positive
  · simp
  · simp [within, positive, Nat.not_lt.mpr positive]

theorem zigzagDecode_zigzag (value : Int64) : zigzagDecode (zigzag value) = value := by
  apply Int64.toBitVec_inj.mp
  have sign : (zigzag value &&& 1).toBitVec = if value.toBitVec.msb then 1#64 else 0#64 := by
    apply BitVec.eq_of_getLsbD_eq
    intro index within
    have low : (zigzag value &&& 1).toBitVec.getLsbD index =
        ((zigzag value).toBitVec.getLsbD index && decide (index = 0)) := by
      simp [BitVec.getLsbD_one]
    rw [low, getLsbD_zigzag value index within]
    rcases Nat.eq_zero_or_pos index with rfl | positive
    · cases value.toBitVec.msb <;> simp
    · have nonzero : index ≠ 0 := by omega
      cases value.toBitVec.msb <;> simp [nonzero, BitVec.getLsbD_one]
  have decoded : (zigzagDecode (zigzag value)).toBitVec =
      ((zigzag value).toBitVec >>> 1) ^^^ -(zigzag value &&& 1).toBitVec := by
    simp [zigzagDecode]
  rw [decoded, sign]
  apply BitVec.eq_of_getLsbD_eq
  intro index within
  have mask : (-if value.toBitVec.msb then 1#64 else 0#64).getLsbD index = value.toBitVec.msb := by
    cases value.toBitVec.msb
    · simp
    · have ones : -(1#64) = BitVec.allOnes 64 := by decide
      rw [if_pos rfl, ones, BitVec.getLsbD_allOnes]
      exact decide_eq_true within
  rw [BitVec.getLsbD_xor, mask, BitVec.getLsbD_ushiftRight]
  by_cases inner : 1 + index < 64
  · rw [getLsbD_zigzag value _ inner]
    simp
  · have top : index = 63 := by omega
    rw [BitVec.getLsbD_of_ge _ _ (by omega), top]
    simp [BitVec.msb_eq_getLsbD_last]

theorem decodes_zigzag (value : Int64) : Decodes getIvarint (putUvarint (zigzag value)) value := by
  have read : Decodes getIvarint (putUvarint (zigzag value)) (zigzagDecode (zigzag value)) :=
    (decodes_putUvarint (zigzag value)).map zigzagDecode
  rwa [zigzagDecode_zigzag] at read

/-- The low bytes of a value, in order. -/
theorem toNat_littleEndian (count : Nat) (within : count ≤ 8) : ∀ value : UInt64,
    (littleEndian64 ((List.range count).map fun index => (value >>> UInt64.ofNat (8 * index)).toUInt8)).toNat =
      value.toNat % 2 ^ (8 * count) := by
  induction count with
  | zero =>
    intro value
    simp [littleEndian64, Nat.mod_one]
  | succ count ih =>
    intro value
    have shifted : ∀ index ∈ List.range count, (value >>> UInt64.ofNat (8 * (index + 1))).toUInt8 =
        ((value >>> 8) >>> UInt64.ofNat (8 * index)).toUInt8 := by
      intro index member
      have bound := mem_range.mp member
      apply congrArg
      apply UInt64.toNat_inj.mp
      have eight : (8 : UInt64).toNat % 64 = 8 := rfl
      have outer : (UInt64.ofNat (8 * (index + 1))).toNat % 64 = 8 * (index + 1) := by
        rw [UInt64.toNat_ofNat']
        omega
      have inner : (UInt64.ofNat (8 * index)).toNat % 64 = 8 * index := by
        rw [UInt64.toNat_ofNat']
        omega
      rw [UInt64.toNat_shiftRight, UInt64.toNat_shiftRight, UInt64.toNat_shiftRight, eight, outer, inner,
        ← Nat.shiftRight_add]
      congr 1
      omega
    have later := ih (by omega) (value >>> 8)
    have eight : (8 : UInt64).toNat % 64 = 8 := rfl
    have low : (value >>> UInt64.ofNat (8 * 0)).toUInt8.toNat = value.toNat % 2 ^ 8 := by
      simp
    rw [range_succ_eq_map, map_cons, map_map]
    rw [show ((fun index => (value >>> UInt64.ofNat (8 * index)).toUInt8) ∘ Nat.succ) =
      fun index => (value >>> UInt64.ofNat (8 * (index + 1))).toUInt8 from rfl, map_congr_left shifted]
    simp only [littleEndian64, foldr_cons] at later ⊢
    rw [UInt64.toNat_or, UInt64.toNat_shiftLeft, later, UInt8.toNat_toUInt64, low, eight,
      UInt64.toNat_shiftRight, eight, Nat.shiftRight_eq_div_pow, Nat.shiftLeft_eq]
    have bound : value.toNat / 2 ^ 8 % 2 ^ (8 * count) * 2 ^ 8 < 2 ^ 64 := by
      have below : value.toNat / 2 ^ 8 % 2 ^ (8 * count) ≤ value.toNat / 2 ^ 8 := Nat.mod_le _ _
      have limit := value.toNat_lt
      omega
    rw [Nat.mod_eq_of_lt bound, Nat.mul_comm, ← Nat.two_pow_add_eq_or_of_lt (Nat.mod_lt _ (Nat.two_pow_pos 8)),
      Nat.mul_add, Nat.mul_one, Nat.add_comm (8 * count) 8, Nat.pow_add, Nat.mod_mul, Nat.add_comm]

theorem littleEndian64_toLeBytes : littleEndian64 (toLeBytes value) = value := by
  apply UInt64.toNat_inj.mp
  rw [toLeBytes, toNat_littleEndian 8 (le_refl 8)]
  exact Nat.mod_eq_of_lt value.toNat_lt

end Ravel.Logs
