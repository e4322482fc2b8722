import Ravel.Library.FailingRuns
import Ravel.Proof.Codec.IntegerRoundTrip
import Ravel.Proof.Codec.UnpackedValues

namespace Ravel.Codec

open List Logs Library

/-- The outcome of a read whose sums are checked after it. A failed sum stands before the failed read. -/
def summed (sums : List Int64 → List Int64 × Option CodecError) (read : Partial) : Except CodecError (List Int64 × Bytes) :=
  match (sums read.1).2, read.2 with
  | some error, _ => .error error
  | none, .error error => .error error
  | none, .ok rest => .ok ((sums read.1).1, rest)

variable (enc : Enc) (bytes : Bytes) (count : Nat)

theorem decodeVarints_ok : decodeVarints enc bytes count .ok = summed (sumsOf enc) (readRemaining count bytes) := by
  rw [decodeVarints, varintsInto_eq, summed]
  dsimp only
  cases (sumsOf enc (readRemaining count bytes).1).2 with
  | some error =>
    rw [mapM_ok]
    rfl
  | none =>
    cases (readRemaining count bytes).2 with
    | error error =>
      rw [mapM_ok]
      rfl
    | ok rest =>
      rw [mapM_ok]
      rfl

theorem plainEach_eq (bytes : Bytes) :
    Oracle.plainEach count bytes = summed (sumsOf .plain) (readRemaining count bytes) := by
  induction count generalizing bytes with
  | zero => rfl
  | succ count ih =>
    rw [Oracle.plainEach]
    cases read : getIvarint bytes with
    | error error =>
      rw [readRemaining_error read]
      rfl
    | ok result =>
      obtain ⟨value, rest⟩ := result
      rw [readRemaining_ok read]
      dsimp only [bind, Except.bind]
      rw [ih]
      rw [summed, summed]
      cases later : (readRemaining count rest).2 with
      | error error => simp [sumsOf, Partial.prepend, later]
      | ok last => simp [sumsOf, Partial.prepend, later, pure, Except.pure]

theorem deltaEach_eq (acc : Int64) (bytes : Bytes) :
    Oracle.deltaEach count acc bytes = summed (deltaSumsFrom acc) (readRemaining count bytes) := by
  induction count generalizing acc bytes with
  | zero => rfl
  | succ count ih =>
    rw [Oracle.deltaEach]
    cases read : getIvarint bytes with
    | error error =>
      rw [readRemaining_error read]
      rfl
    | ok result =>
      obtain ⟨delta, rest⟩ := result
      rw [readRemaining_ok read]
      dsimp only [bind, Except.bind]
      rw [Oracle.sumOr, summed, Partial.prepend]
      simp only [singleton_append, deltaSumsFrom]
      cases sum : checkedAdd acc delta with
      | none => rfl
      | some value =>
        dsimp only
        rw [ih, summed]
        cases (deltaSumsFrom value (readRemaining count rest).1).2 with
        | some error => rfl
        | none => cases (readRemaining count rest).2 <;> rfl

theorem doubleDeltaEach_eq (value prevDelta : Int64) (bytes : Bytes) :
    Oracle.doubleDeltaEach count value prevDelta bytes =
      summed (doubleDeltaSumsFrom value prevDelta) (readRemaining count bytes) := by
  induction count generalizing value prevDelta bytes with
  | zero => rfl
  | succ count ih =>
    rw [Oracle.doubleDeltaEach]
    cases read : getIvarint bytes with
    | error error =>
      rw [readRemaining_error read]
      rfl
    | ok result =>
      obtain ⟨dod, rest⟩ := result
      rw [readRemaining_ok read]
      dsimp only [bind, Except.bind]
      rw [Oracle.sumOr, summed, Partial.prepend]
      simp only [singleton_append, doubleDeltaSumsFrom]
      cases checkedAdd prevDelta dod with
      | none => rfl
      | some delta =>
        dsimp only
        rw [Oracle.sumOr]
        cases checkedAdd value delta with
        | none => rfl
        | some next =>
          dsimp only
          rw [ih, summed]
          cases (doubleDeltaSumsFrom next delta (readRemaining count rest).1).2 with
          | some error => rfl
          | none => cases (readRemaining count rest).2 <;> rfl

theorem varintsEach_eq {enc : Enc} (storesVarints : StoresVarints enc) (count : Nat) (bytes : Bytes) :
    Oracle.varintsEach enc count bytes = summed (sumsOf enc) (readRemaining count bytes) := by
  cases enc with
  | plain => exact plainEach_eq count bytes
  | deltaZigzag =>
    cases count with
    | zero => rfl
    | succ later =>
      rw [Oracle.varintsEach]
      cases read : getIvarint bytes with
      | error error =>
        rw [readRemaining_error read]
        rfl
      | ok result =>
        obtain ⟨first, rest⟩ := result
        rw [readRemaining_ok read]
        dsimp only [bind, Except.bind]
        rw [deltaEach_eq, summed, summed, Partial.prepend]
        simp only [singleton_append, sumsOf, deltaSums]
        cases (deltaSumsFrom first (readRemaining later rest).1).2 with
        | some error => rfl
        | none => cases (readRemaining later rest).2 <;> rfl
  | doubleDelta =>
    cases count with
    | zero => rfl
    | succ later =>
      cases read : getIvarint bytes with
      | error error =>
        cases later <;> rw [Oracle.varintsEach, read, readRemaining_error read] <;> rfl
      | ok result =>
        obtain ⟨first, rest⟩ := result
        cases later with
        | zero =>
          rw [Oracle.varintsEach, read, readRemaining_ok read]
          rfl
        | succ later =>
          rw [Oracle.varintsEach, read, readRemaining_ok read]
          dsimp only [bind, Except.bind]
          cases readNext : getIvarint rest with
          | error error =>
            rw [readRemaining_error readNext]
            rfl
          | ok result =>
            obtain ⟨delta, rest⟩ := result
            rw [readRemaining_ok readNext]
            dsimp only
            rw [Oracle.sumOr, summed, Partial.prepend, Partial.prepend]
            simp only [singleton_append, sumsOf, doubleDeltaSums]
            cases checkedAdd first delta with
            | none => rfl
            | some second =>
              dsimp only
              rw [doubleDeltaEach_eq, summed]
              cases (doubleDeltaSumsFrom second delta (readRemaining later rest).1).2 with
              | some error => rfl
              | none => cases (readRemaining later rest).2 <;> rfl
  | _ => exact absurd storesVarints id

theorem readVarintLoop_shorter {Error : Type} {errors : VarintErrors Error} {result value : UInt64} {remaining : Nat}
    {bytes rest : Bytes} (read : readVarintLoop errors result remaining bytes = .ok (value, rest)) : rest.length < bytes.length := by
  induction remaining generalizing result bytes with
  | zero => cases read
  | succ remaining ih =>
    cases bytes with
    | nil => cases read
    | cons byte bytes =>
      rw [readVarintLoop] at read
      dsimp only at read
      obtain ⟨-, read⟩ := ok_of_guard read
      split at read
      · split at read
        · split at read
          · cases read
          · cases read
            exact Nat.lt_succ_self _
        · cases read
          exact Nat.lt_succ_self _
      · exact Nat.lt_succ_of_lt (ih read)

theorem getIvarint_shorter {bytes rest : Bytes} {value : Int64} (read : getIvarint bytes = .ok (value, rest)) :
    rest.length < bytes.length := by
  obtain ⟨⟨word, left⟩, isWord, returned⟩ := ok_of_bind read
  cases returned
  exact readVarintLoop_shorter isWord

/-- A value takes a byte or more. -/
theorem readRemaining_shorter {count : Nat} {bytes rest : Bytes} {values : List Int64}
    (read : readRemaining count bytes = (values, .ok rest)) : rest.length + count ≤ bytes.length := by
  induction count generalizing bytes values with
  | zero =>
    cases read
    exact Nat.le_refl _
  | succ count ih =>
    cases one : getIvarint bytes with
    | error error =>
      rw [readRemaining_error one] at read
      cases read
    | ok result =>
      obtain ⟨value, left⟩ := result
      rw [readRemaining_ok one, Partial.prepend] at read
      have later : readRemaining count left = ((readRemaining count left).1, .ok rest) :=
        Prod.ext rfl (Prod.mk.inj read).2
      have shorter := ih later
      have taken := getIvarint_shorter one
      omega

/-- A longer read goes on where a shorter one ends. -/
theorem readRemaining_add (first later : Nat) (bytes : Bytes) :
    readRemaining (first + later) bytes =
      match readRemaining first bytes with
      | (values, .ok rest) => Partial.prepend values (readRemaining later rest)
      | (values, .error error) => (values, .error error) := by
  induction first generalizing bytes with
  | zero =>
    rw [Nat.zero_add]
    rfl
  | succ first ih =>
    rw [Nat.succ_add_eq_add_succ, Nat.add_succ]
    cases one : getIvarint bytes with
    | error error => rw [readRemaining_error one, readRemaining_error one]
    | ok result =>
      obtain ⟨value, rest⟩ := result
      rw [readRemaining_ok one, readRemaining_ok one, ih]
      cases read : readRemaining first rest with
      | mk values outcome =>
        cases outcome with
        | error error => rfl
        | ok left => exact Partial.prepend_prepend [value] values _

/-- A page with fewer bytes than values fails at the value after its last byte. -/
theorem summed_long {bytes : Bytes} {count : Nat} (long : bytes.length < count)
    (sums : List Int64 → List Int64 × Option CodecError) :
    summed sums (readRemaining count bytes) = (do
      let (_, rest) ← summed sums (readRemaining bytes.length bytes)
      let _ ← getIvarint rest
      throw (.corrupted "varint truncated")) := by
  obtain ⟨later, rfl⟩ : ∃ later, count = bytes.length + (later + 1) := ⟨count - bytes.length - 1, by omega⟩
  rw [readRemaining_add]
  cases read : readRemaining bytes.length bytes with
  | mk values outcome =>
    cases outcome with
    | error error =>
      dsimp only
      rw [summed]
      cases (sums values).2 <;> rfl
    | ok rest =>
      have shorter := readRemaining_shorter read
      have empty : rest = [] := eq_nil_of_length_eq_zero (by omega)
      have ends : getIvarint [] = .error (.corrupted "varint truncated") := rfl
      dsimp only
      rw [empty, readRemaining_error ends, summed, summed, Partial.prepend]
      dsimp only
      rw [append_nil]
      cases (sums values).2 <;> rfl

theorem rleEach_eq (runs total : Nat) (bytes : Bytes) :
    Oracle.rleEach count runs total bytes = decodeRleLoop count .ok runs total bytes := by
  induction runs generalizing total bytes with
  | zero => rfl
  | succ runs ih =>
    rw [Oracle.rleEach, decodeRleLoop]
    apply bind_congr_ok
    rintro ⟨value, rest⟩ _
    apply bind_congr_ok
    rintro ⟨run, rest⟩ _
    dsimp only
    split
    · rfl
    · split
      · rfl
      · rw [ih]
        by_cases positive : 0 < run.toNat
        · rw [if_pos positive]
          rfl
        · rw [if_neg positive, show run.toNat = 0 by omega]
          rfl

theorem typed_bind {Value Result : Type} (first : Except CodecError Value) (next : Value → Except CodecError Result) :
    typed (first >>= next) = typed first >>= fun value => typed (next value) := by
  cases first <;> rfl

theorem readRemaining_eq_each (bytes : Bytes) : readRemaining count bytes = Oracle.ivarintsEach count bytes := by
  induction count generalizing bytes with
  | zero => rfl
  | succ count ih =>
    rw [Oracle.ivarintsEach]
    cases read : getIvarint bytes with
    | error error => exact readRemaining_error read count
    | ok result =>
      obtain ⟨value, rest⟩ := result
      dsimp only
      rw [readRemaining_ok read, ih]

theorem decodeI64_varints_eq {enc : Enc} (storesVarints : StoresVarints enc) (bytes : Bytes) (count : Nat) :
    decodeI64 enc bytes count = (do
      let (values, rest) ← Oracle.varintsEach enc count bytes
      expectConsumed rest bytes
      return values) := by
  rw [varintsEach_eq storesVarints]
  have bulk : decodeI64 enc bytes count =
      if bytes.length < count then do
        let (_, rest) ← decodeVarints enc bytes bytes.length .ok
        let _ ← getIvarint rest
        throw (.corrupted "varint truncated")
      else do
        let (values, rest) ← decodeVarints enc bytes count .ok
        expectConsumed rest bytes
        return values := by
    cases enc with
    | plain => rfl
    | deltaZigzag => rfl
    | doubleDelta => rfl
    | _ => exact absurd storesVarints id
  rw [bulk]
  split
  · rename_i long
    rw [decodeVarints_ok, summed_long long]
    cases summed (sumsOf enc) (readRemaining bytes.length bytes) with
    | error error => rfl
    | ok result =>
      obtain ⟨values, rest⟩ := result
      dsimp only [bind, Except.bind]
      cases getIvarint rest <;> rfl
  · rw [decodeVarints_ok]

theorem reference_varints_eq (storesVarints : StoresVarints enc) (bytes : Bytes) (count : Nat) :
    Oracle.decodeI64 enc bytes count = typed (decodeI64 enc bytes count) := by
  have each : Oracle.decodeI64 enc bytes count = (do
      let (values, rest) ← typed (Oracle.varintsEach enc count bytes)
      typed (expectConsumed rest bytes)
      return values) := by
    cases enc with
    | plain => rfl
    | deltaZigzag => rfl
    | doubleDelta => rfl
    | _ => exact absurd storesVarints id
  rw [each, decodeI64_varints_eq storesVarints, typed_bind]
  apply bind_congr_ok
  rintro ⟨values, rest⟩ _
  rw [typed_bind]
  rfl

theorem reference_rle_eq : Oracle.decodeI64 .rle bytes count = typed (decodeI64 .rle bytes count) := by
  rw [Oracle.decodeI64, decodeI64, decodeRle]
  cases getUvarint bytes with
  | error error => rfl
  | ok result =>
    obtain ⟨runCount, rest⟩ := result
    dsimp only [bind, Except.bind, typed, Except.mapError]
    rw [rleEach_eq]
    cases decodeRleLoop count .ok runCount.toNat 0 rest with
    | error error => rfl
    | ok result =>
      obtain ⟨values, left⟩ := result
      dsimp only
      cases expectConsumed left bytes <;> rfl

theorem reference_for_eq {bytes : Bytes} (slice : bytes.length < 2 ^ 63) (count : Nat) :
    Oracle.decodeI64 .forBitpack bytes count = typed (decodeI64 .forBitpack bytes count) := by
  rw [Oracle.decodeI64, decodeI64, forHeader]
  cases read : getIvarint bytes with
  | error error => rfl
  | ok result =>
    obtain ⟨base, rest⟩ := result
    cases rest with
    | nil => rfl
    | cons bitWidth payload =>
      have shorter := getIvarint_shorter read
      rw [length_cons] at shorter
      dsimp only [bind, Except.bind, typed, Except.mapError]
      rw [unpackBits_eq (show payload.length < 2 ^ 64 by omega)]
      cases checked : checkPackedLen payload count bitWidth.toNat with
      | error error => rfl
      | ok =>
        have within : bitWidth.toNat ≤ 64 := by
          by_contra wide
          rw [checkPackedLen, if_pos (by omega)] at checked
          cases checked
        dsimp only [typed, Except.mapError, pure, Except.pure, bind, Except.bind]
        rw [unpackFor_eq within, map_map]
        rfl

/-- The bulk decoder and the decoder of one value at a time give the same values or the same error. The reader through windows
accepts the varints that the reader of one varint accepts, and stops where it stops. -/
theorem bulk_decode_eq_reference (bytes : Bytes) (slice : bytes.length < 2 ^ 63) (enc : Enc) (count : Nat) :
    Oracle.decodeI64 enc bytes count = typed (decodeI64 enc bytes count) ∧
      varintsInto bytes count = Oracle.ivarintsEach count bytes := by
  constructor
  · cases enc with
    | plain => exact reference_varints_eq .plain trivial bytes count
    | deltaZigzag => exact reference_varints_eq .deltaZigzag trivial bytes count
    | doubleDelta => exact reference_varints_eq .doubleDelta trivial bytes count
    | constant =>
      rw [decodeI64, typed_bind]
      apply bind_congr_ok
      rintro ⟨value, rest⟩ _
      rw [typed_bind]
      rfl
    | rle => exact reference_rle_eq bytes count
    | forBitpack => exact reference_for_eq slice count
    | _ => rfl
  · rw [varintsInto_eq, readRemaining_eq_each]

/-- A page of deltas whose last varint has a redundant group. -/
theorem bulk_decode_eq_reference_noncanonical :
    Oracle.decodeI64 .deltaZigzag [2, 4, 0x80, 0] 3 = .error (.corrupted (.corrupted "non-canonical varint")) := by
  rw [(bulk_decode_eq_reference [2, 4, 0x80, 0] (by decide) .deltaZigzag 3).1]
  decide +kernel

end Ravel.Codec
