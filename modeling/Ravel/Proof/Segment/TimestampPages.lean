import Ravel.Construction.Segment.TimestampPages
import Ravel.Library.FailingRuns
import Ravel.Proof.Codec.IntegerRoundTrip

namespace Ravel.Segment

open List Codec Logs Library

theorem readUvarint_put (value : UInt64) (rest : Bytes) : readUvarint (putUvarint value ++ rest) = .ok (value, rest) :=
  readVarintLoop_put value rest

variable (value : Int64) {minTsNs maxTsNs : Int64} {timestamps : List Int64}

theorem readZigzagVarint_put (rest : Bytes) : readZigzagVarint (putIvarint value ++ rest) = .ok (value, rest) := by
  rw [readZigzagVarint, putIvarint, readUvarint_put]
  show Except.ok (zigzagDecode (zigzag value), rest) = _
  rw [zigzagDecode_zigzag]

/-- Every timestamp lies within the bounds. -/
def InBounds (minTsNs maxTsNs : Int64) (timestamps : List Int64) : Prop :=
  ∀ ts ∈ timestamps, minTsNs ≤ ts ∧ ts ≤ maxTsNs

theorem InBounds.notOutside {ts : Int64} (bounds : InBounds minTsNs maxTsNs (ts :: timestamps)) :
    ¬(ts < minTsNs ∨ maxTsNs < ts) := by
  obtain ⟨least, greatest⟩ := bounds ts mem_cons_self
  rintro (below | above)
  · exact Int64.not_lt.mpr least below
  · exact Int64.not_lt.mpr greatest above

theorem InBounds.tail {ts : Int64} (bounds : InBounds minTsNs maxTsNs (ts :: timestamps)) :
    InBounds minTsNs maxTsNs timestamps :=
  fun other member => bounds other (mem_cons_of_mem _ member)

/-- Deltas are summed back to the timestamps. -/
theorem decodeTsDeltasLoop_encode {previous : Int64} {bytes : Bytes}
    (encoded : encodeTsDeltas previous timestamps = some bytes) (bounds : InBounds minTsNs maxTsNs timestamps)
    (out : List Int64) :
    decodeTsDeltasLoop minTsNs maxTsNs timestamps.length previous bytes out = .ok (out ++ timestamps) := by
  induction timestamps generalizing previous bytes out with
  | nil =>
    cases encoded
    rw [append_nil]
    rfl
  | cons ts timestamps ih =>
    rw [encodeTsDeltas, Option.bind_eq_bind, Option.bind_eq_some_iff] at encoded
    obtain ⟨delta, isDelta, encoded⟩ := encoded
    rw [Option.bind_eq_bind, Option.bind_eq_some_iff] at encoded
    obtain ⟨later, isLater, isBytes⟩ := encoded
    cases isBytes
    have read := ih isLater bounds.tail (out ++ [ts])
    rw [length_cons, decodeTsDeltasLoop, readZigzagVarint_put]
    dsimp only [bind, Except.bind]
    rw [checkedAdd_of_checkedSub isDelta]
    dsimp only
    rw [if_neg bounds.notOutside, read, append_assoc, singleton_append]

/-- Casting a magnitude of a machine integer keeps it. -/
theorem natAbs_ofNat {magnitude : Nat} (within : magnitude ≤ 2 ^ 63) : (Int64.ofNat magnitude).toInt.natAbs = magnitude := by
  by_cases inside : magnitude < 2 ^ 63
  · rw [Int64.toInt_ofNat_of_lt inside, Int.natAbs_natCast]
  · rw [show magnitude = 2 ^ 63 by omega]
    decide

theorem natAbs_le : value.toInt.natAbs ≤ 2 ^ 63 := by
  have least := value.le_toInt
  have greatest := value.toInt_lt
  omega

theorem natAbs_gcdI64 (left right : Int64) :
    (gcdI64 left right).toInt.natAbs = Nat.gcd left.toInt.natAbs right.toInt.natAbs := by
  apply natAbs_ofNat
  rcases Nat.eq_zero_or_pos left.toInt.natAbs with zero | positive
  · rw [zero, Nat.gcd_zero_left]
    exact natAbs_le right
  · exact le_trans (Nat.gcd_le_left _ positive) (natAbs_le left)

/-- The folded divisor divides every timestamp. -/
theorem foldl_gcdI64_dvd (timestamps : List Int64) (start : Int64) :
    (timestamps.foldl gcdI64 start).toInt.natAbs ∣ start.toInt.natAbs ∧
      ∀ ts ∈ timestamps, (timestamps.foldl gcdI64 start).toInt.natAbs ∣ ts.toInt.natAbs := by
  induction timestamps generalizing start with
  | nil => exact ⟨dvd_refl _, fun _ absurd => (by cases absurd)⟩
  | cons ts timestamps ih =>
    obtain ⟨divides, others⟩ := ih (gcdI64 start ts)
    rw [natAbs_gcdI64] at divides
    rw [foldl_cons]
    refine ⟨dvd_trans divides (Nat.gcd_dvd_left _ _), ?_⟩
    intro other member
    rcases mem_cons.mp member with rfl | later
    · exact dvd_trans divides (Nat.gcd_dvd_right _ _)
    · exact others other later

/-- The divisor of a page is positive and divides every timestamp. -/
theorem pageGcd_spec (timestamps : List Int64) :
    1 ≤ (pageGcd timestamps).toInt ∧ ∀ ts ∈ timestamps, (pageGcd timestamps).toInt ∣ ts.toInt := by
  have one : (1 : Int64).toInt = 1 := rfl
  rw [pageGcd]
  show 1 ≤ (if timestamps.foldl gcdI64 0 ≤ 1 then (1 : Int64) else timestamps.foldl gcdI64 0).toInt ∧ ∀ ts ∈ timestamps,
    (if timestamps.foldl gcdI64 0 ≤ 1 then (1 : Int64) else timestamps.foldl gcdI64 0).toInt ∣ ts.toInt
  split
  · rw [one]
    exact ⟨le_refl _, fun ts _ => one_dvd _⟩
  · rename_i large
    rw [Int64.not_le, Int64.lt_iff_toInt_lt, one] at large
    refine ⟨by omega, ?_⟩
    intro ts member
    exact Int.natAbs_dvd_natAbs.mp ((foldl_gcdI64_dvd timestamps 0).2 ts member)

/-- A multiple of the divisor comes back from its quotient. -/
theorem checkedMul_div {divisor ts : Int64} (positive : 1 ≤ divisor.toInt) (divides : divisor.toInt ∣ ts.toInt) :
    checkedMul (ts / divisor) divisor = some ts := by
  have quotient : (ts / divisor).toInt = ts.toInt.tdiv divisor.toInt := by
    apply Int64.toInt_div_of_ne_right
    rintro rfl
    exact absurd positive (by decide)
  rw [checkedMul, ofIntChecked_eq_some, quotient, Int.tdiv_mul_cancel divides]

theorem scaleTimestamps_div {divisor : Int64} (positive : 1 ≤ divisor.toInt)
    (divides : ∀ ts ∈ timestamps, divisor.toInt ∣ ts.toInt) (bounds : InBounds minTsNs maxTsNs timestamps)
    (out : List Int64) :
    scaleTimestamps divisor minTsNs maxTsNs (timestamps.map fun ts => ts / divisor) out = .ok (out ++ timestamps) := by
  induction timestamps generalizing out with
  | nil =>
    rw [append_nil]
    rfl
  | cons ts timestamps ih =>
    have scaled := ih (fun other member => divides other (mem_cons_of_mem _ member)) bounds.tail (out ++ [ts])
    rw [map_cons, scaleTimestamps, checkedMul_div positive (divides ts mem_cons_self)]
    dsimp only
    rw [if_neg bounds.notOutside, scaled, append_assoc, singleton_append]

theorem fromU8_toU8 (enc : Enc) : Enc.fromU8 enc.toU8 = .ok enc := by
  cases enc <;> rfl

/-- The page of quotients is scaled back to the timestamps. -/
theorem decodeTsGcdInto_encode (short : timestamps.length < 2 ^ 32) (bounds : InBounds minTsNs maxTsNs timestamps)
    (out : List Int64) :
    decodeTsGcdInto (encodeTsGcd timestamps) timestamps.length minTsNs maxTsNs out = .ok (out ++ timestamps) := by
  obtain ⟨positive, divides⟩ := pageGcd_spec timestamps
  have limit := (pageGcd timestamps).toInt_lt
  have magnitude : ((pageGcd timestamps).toUInt64.toNat : Int) = (pageGcd timestamps).toInt := by
    have bits := toInt_eq_toNat_cond (pageGcd timestamps)
    have bound := (pageGcd timestamps).toUInt64.toNat_lt
    split at bits <;> omega
  have nonzero : (pageGcd timestamps).toUInt64 ≠ 0 := by
    intro zero
    rw [zero] at magnitude
    have absurd : (0 : Int) = (pageGcd timestamps).toInt := magnitude
    omega
  have few : (timestamps.map fun ts => ts / pageGcd timestamps).length * 64 < 2 ^ 64 := by
    rw [length_map]
    omega
  have decoded := decodeI64_encodeI64 few
  rw [length_map] at decoded
  rw [decodeTsGcdInto, encodeTsGcd, readUvarint_put]
  dsimp only [bind, Except.bind]
  rw [if_neg nonzero, if_neg (by omega), fromU8_toU8]
  dsimp only
  rw [decoded]
  dsimp only
  rw [if_neg (by rw [length_map]; simp), Int64.toInt64_toUInt64]
  exact scaleTimestamps_div positive divides bounds out

theorem fromLeBytes32_toLeBytes32 (value : UInt32) :
    fromLeBytes32 value.toUInt8 (value >>> 8).toUInt8 (value >>> 16).toUInt8 (value >>> 24).toUInt8 = value := by
  apply UInt32.toBitVec_inj.mp
  apply BitVec.eq_of_getLsbD_eq
  intro index inside
  simp only [fromLeBytes32, UInt32.toBitVec_or, UInt32.toBitVec_shiftLeft, UInt8.toBitVec_toUInt32, UInt32.toBitVec_toUInt8]
  interval_cases index <;> simp

section Frames

variable (primitives : PagePrimitives) (seriesId : Bytes)

theorem splitPageHeader_framePage (enc comp : UInt8) (payload : Bytes) :
    splitPageHeader primitives seriesId (framePage primitives seriesId enc comp payload) = .ok (enc, comp, payload) := by
  rw [framePage, toLeBytes32]
  show (if pageCrc primitives seriesId enc comp payload ≠ fromLeBytes32 _ _ _ _ then _ else _) = _
  rw [fromLeBytes32_toLeBytes32, if_neg (by simp)]
  rfl

theorem length_framePage (enc comp : UInt8) (payload : Bytes) :
    (framePage primitives seriesId enc comp payload).length = payload.length + 6 := by
  simp [framePage, toLeBytes32]

end Frames

/-- The decompressor gives back what the compressor took. -/
def Lossless (primitives : PagePrimitives) : Prop :=
  ∀ payload, primitives.decompressInto (primitives.compressBlock payload) payload.length = .ok payload

variable {payload : Bytes} {cap : Nat} {timestamps : List Int64} {page : Bytes} {minTsNs maxTsNs : Int64}
  {count : Nat} {out all : List Int64} {bytes : Bytes}

theorem decompress_none (primitives : PagePrimitives) (fits : payload.length ≤ cap) :
    decompressPagePayload primitives compNone payload cap = .ok payload := by
  unfold decompressPagePayload
  rw [if_pos rfl, if_neg (by omega)]

theorem decompress_lz4 {primitives : PagePrimitives} (lossless : Lossless primitives) (fits : payload.length ≤ cap)
    (prefixed : payload.length < 2 ^ 32) :
    decompressPagePayload primitives compLz4 (compressPrependSize primitives payload) cap = .ok payload := by
  have length : (UInt32.ofNat payload.length).toNat = payload.length := by
    rw [UInt32.toNat_ofNat', Nat.mod_eq_of_lt prefixed]
  unfold decompressPagePayload
  rw [if_neg (by decide), if_pos rfl, compressPrependSize, toLeBytes32]
  dsimp only [cons_append, nil_append]
  rw [fromLeBytes32_toLeBytes32, length, if_neg (by omega), lossless payload]
  dsimp only
  rw [if_neg (by simp)]

theorem decompress_compressedBody {primitives : PagePrimitives} (lossless : Lossless primitives)
    (fits : payload.length ≤ cap) (prefixed : payload.length < 2 ^ 32) :
    decompressPagePayload primitives (compressedBody primitives payload).1 (compressedBody primitives payload).2 cap =
      .ok payload := by
  rw [compressedBody]
  split
  · exact decompress_lz4 lossless fits prefixed
  · exact decompress_none primitives fits

theorem length_compressedBody (primitives : PagePrimitives) (payload : Bytes) :
    (compressedBody primitives payload).2.length ≤ payload.length := by
  rw [compressedBody]
  split
  · rename_i shrinks
    exact le_of_lt shrinks.2
  · exact le_refl _

/-- What a page that the writer accepts holds: one of the two encodings, in a page no longer than that of the deltas. -/
theorem frameTsPage_cases {primitives : PagePrimitives} {seriesId : Bytes} {runMinTsNs : Int64}
    (framed : frameTsPage primitives seriesId timestamps runMinTsNs = .ok page) :
    ∃ payload, encodeTsDeltas runMinTsNs timestamps = some payload ∧ page.length ≤ payload.length + 6 ∧
      (page = framePage primitives seriesId tsDeltaVarint (compressedBody primitives payload).1
          (compressedBody primitives payload).2 ∨
        page = framePage primitives seriesId tsGcdI64 compNone (encodeTsGcd timestamps) ∧
          (encodeTsGcd timestamps).length < payload.length) := by
  rw [frameTsPage] at framed
  cases encoded : encodeTsDeltas runMinTsNs timestamps with
  | none =>
    rw [encoded] at framed
    cases framed
  | some payload =>
    rw [encoded] at framed
    dsimp only at framed
    have body := length_compressedBody primitives payload
    rw [length_framePage, length_framePage] at framed
    refine ⟨payload, rfl, ?_⟩
    split at framed
    · cases framed
      rw [length_framePage]
      exact ⟨by omega, .inr ⟨rfl, by omega⟩⟩
    · cases framed
      rw [length_framePage]
      exact ⟨by omega, .inl rfl⟩

/-- A page that the writer accepts is read back by a reader whose cap holds the payload of the deltas. -/
theorem decodeTsPageInto_frameTsPage {primitives : PagePrimitives} (lossless : Lossless primitives) {seriesId : Bytes}
    (bounds : InBounds minTsNs maxTsNs timestamps) (counted : timestamps.length < 2 ^ 32)
    (framed : frameTsPage primitives seriesId timestamps minTsNs = .ok page)
    (fits : ∀ payload, encodeTsDeltas minTsNs timestamps = some payload → payload.length ≤ cap ∧ payload.length < 2 ^ 32)
    (out : List Int64) :
    decodeTsPageInto primitives seriesId (UInt32.ofNat timestamps.length) minTsNs maxTsNs page cap out =
      .ok (out ++ timestamps) := by
  have count : (UInt32.ofNat timestamps.length).toNat = timestamps.length := by
    rw [UInt32.toNat_ofNat', Nat.mod_eq_of_lt counted]
  obtain ⟨payload, encoded, -, deltas | ⟨quotients, shorter⟩⟩ := frameTsPage_cases framed
  · obtain ⟨within, prefixed⟩ := fits payload encoded
    rw [deltas, decodeTsPageInto, splitPageHeader_framePage]
    dsimp only [bind, Except.bind]
    rw [decompress_compressedBody lossless within prefixed]
    dsimp only
    rw [if_pos rfl, count]
    exact decodeTsDeltasLoop_encode encoded bounds out
  · obtain ⟨within, -⟩ := fits payload encoded
    rw [quotients, decodeTsPageInto, splitPageHeader_framePage]
    dsimp only [bind, Except.bind]
    rw [decompress_none primitives (by omega)]
    dsimp only
    rw [if_neg (by decide), if_pos rfl, count]
    exact decodeTsGcdInto_encode counted bounds out

/-- Appended timestamps, as many as counted and within the bounds. -/
structure Appended (minTsNs maxTsNs : Int64) (count : Nat) (out all values : List Int64) : Prop where
  whole : all = out ++ values
  length : values.length = count
  bounds : InBounds minTsNs maxTsNs values

theorem Appended.cons {ts : Int64} {values : List Int64} (inside : ¬(ts < minTsNs ∨ maxTsNs < ts))
    (rest : Appended minTsNs maxTsNs count (out ++ [ts]) all values) :
    Appended minTsNs maxTsNs (count + 1) out all (ts :: values) where
  whole := by rw [rest.whole, append_assoc, singleton_append]
  length := by rw [length_cons, rest.length]
  bounds := by
    rw [not_or, Int64.not_lt, Int64.not_lt] at inside
    intro other member
    rcases mem_cons.mp member with rfl | later
    · exact inside
    · exact rest.bounds other later

/-- The timestamps that the decoder of deltas returns are the exact sums of the deltas that it reads. -/
theorem decodeTsDeltasLoop_exact {accum : Int64}
    (decoded : decodeTsDeltasLoop minTsNs maxTsNs count accum bytes out = .ok all) :
    ∃ deltas values : List Int64, Appended minTsNs maxTsNs count out all values ∧
      (deltas.map Int64.toInt).scanl (· + ·) accum.toInt = accum.toInt :: values.map Int64.toInt := by
  induction count generalizing accum bytes out with
  | zero =>
    rw [decodeTsDeltasLoop] at decoded
    split at decoded
    · cases decoded
      exact ⟨[], [], ⟨(append_nil _).symm, rfl, fun _ absurd => (by cases absurd)⟩, rfl⟩
    · cases decoded
  | succ count ih =>
    rw [decodeTsDeltasLoop] at decoded
    cases read : readZigzagVarint bytes with
    | error error =>
      rw [read] at decoded
      cases decoded
    | ok result =>
      obtain ⟨delta, rest⟩ := result
      rw [read] at decoded
      dsimp only [bind, Except.bind] at decoded
      cases sum : checkedAdd accum delta with
      | none =>
        rw [sum] at decoded
        cases decoded
      | some ts =>
        rw [sum] at decoded
        dsimp only at decoded
        split at decoded
        · cases decoded
        · rename_i inside
          obtain ⟨deltas, values, appended, sums⟩ := ih decoded
          rw [checkedAdd, ofIntChecked_eq_some] at sum
          refine ⟨delta :: deltas, ts :: values, appended.cons inside, ?_⟩
          rw [map_cons, scanl_cons, ← sum, sums, map_cons]

theorem scaleTimestamps_exact {divisor : Int64} {quotients : List Int64}
    (scaled : scaleTimestamps divisor minTsNs maxTsNs quotients out = .ok all) :
    ∃ values, Appended minTsNs maxTsNs quotients.length out all values ∧
      values.map Int64.toInt = quotients.map fun quotient => quotient.toInt * divisor.toInt := by
  induction quotients generalizing out with
  | nil =>
    cases scaled
    exact ⟨[], ⟨(append_nil _).symm, rfl, fun _ absurd => (by cases absurd)⟩, rfl⟩
  | cons quotient quotients ih =>
    rw [scaleTimestamps] at scaled
    cases product : checkedMul quotient divisor with
    | none =>
      rw [product] at scaled
      cases scaled
    | some ts =>
      rw [product] at scaled
      dsimp only at scaled
      split at scaled
      · cases scaled
      · rename_i inside
        obtain ⟨values, appended, products⟩ := ih scaled
        rw [checkedMul, ofIntChecked_eq_some] at product
        refine ⟨ts :: values, appended.cons inside, ?_⟩
        rw [map_cons, map_cons, products, product]

theorem decodeTsGcdInto_exact (decoded : decodeTsGcdInto bytes count minTsNs maxTsNs out = .ok all) :
    ∃ (divisor : Int64) (quotients values : List Int64), 0 < divisor.toInt ∧
      Appended minTsNs maxTsNs count out all values ∧
      values.map Int64.toInt = quotients.map fun quotient => quotient.toInt * divisor.toInt := by
  rw [decodeTsGcdInto] at decoded
  cases read : readUvarint bytes with
  | error error =>
    rw [read] at decoded
    cases decoded
  | ok result =>
    obtain ⟨divisor, rest⟩ := result
    rw [read] at decoded
    dsimp only [bind, Except.bind] at decoded
    split at decoded
    · cases decoded
    · rename_i nonzero
      split at decoded
      · cases decoded
      · rename_i small
        cases rest with
        | nil => cases decoded
        | cons tag payload =>
          dsimp only at decoded
          split at decoded
          · cases decoded
          · split at decoded
            · cases decoded
            · split at decoded
              · cases decoded
              · rename_i divided _ counted
                obtain ⟨values, appended, products⟩ := scaleTimestamps_exact decoded
                rw [not_not.mp counted] at appended
                refine ⟨divisor.toInt64, divided, values, ?_, appended, products⟩
                have bits := toInt_eq_toNat_cond divisor.toInt64
                rw [UInt64.toUInt64_toInt64, if_pos (by omega)] at bits
                have positive : divisor.toNat ≠ 0 := fun zero => nonzero (UInt64.toNat_inj.mp zero)
                omega

/-- The bounds that the writer takes from the run hold every timestamp of a run in order. -/
theorem inBounds_of_sorted (sorted : timestamps.Pairwise (· ≤ ·)) :
    InBounds (timestamps.head?.getD 0) (timestamps.getLast?.getD 0) timestamps := by
  intro ts member
  cases timestamps with
  | nil => cases member
  | cons first rest =>
    constructor
    · rw [head?_cons, Option.getD_some]
      rcases mem_cons.mp member with rfl | later
      · exact Int64.le_refl _
      · exact rel_of_pairwise_cons sorted later
    · have last := getLast?_eq_some_getLast (cons_ne_nil first rest)
      rw [last, Option.getD_some]
      exact sorted.rel_getLast_of_rel_getLast_getLast member (Int64.le_refl _)

/-- The packed reads of a page stay within its bytes, and within the positions of the machine. -/
theorem forHeader_positions {bitWidth : Nat} {base : Int64}
    (header : forHeader bytes count = .ok (base, bitWidth, payload)) {index : Nat} (counted : index < count) :
    index * bitWidth < 2 ^ 64 ∧ (0 < bitWidth → index * bitWidth / 8 < payload.length) := by
  rw [forHeader] at header
  cases read : getIvarint bytes with
  | error error =>
    rw [read] at header
    cases header
  | ok result =>
    obtain ⟨value, rest⟩ := result
    rw [read] at header
    dsimp only [bind, Except.bind] at header
    cases rest with
    | nil => cases header
    | cons width body =>
      dsimp only at header
      obtain ⟨done, checked, header⟩ := ok_of_bind header
      cases header
      have grows : index * width.toNat + width.toNat ≤ count * width.toNat := by
        rw [← Nat.succ_mul]
        exact Nat.mul_le_mul_right _ counted
      rw [checkPackedLen] at checked
      split at checked
      · cases checked
      · split at checked
        · rename_i zero
          rw [zero]
          exact ⟨by simp, by omega⟩
        · split at checked
          · cases checked
          · dsimp only at checked
            split at checked
            · rename_i exactLength
              exact ⟨by omega, by omega⟩
            · cases checked

/-- Timestamp pages. A run in order that the writer accepts is read back from whichever page it keeps, by a reader whose cap holds
the payload of the deltas; the page is no longer than the page of the deltas; and on any bytes the decoders return a failure or
exact sums and exact multiples. -/
theorem timestamp_pages_exact (primitives : PagePrimitives) (lossless : Lossless primitives) :
    (∀ (seriesId : Bytes) (timestamps : List Int64) (page : Bytes) (cap : Nat) (out : List Int64),
      timestamps.Pairwise (· ≤ ·) → timestamps.length < 2 ^ 32 →
      frameTsPage primitives seriesId timestamps (timestamps.head?.getD 0) = .ok page →
      (∀ payload, encodeTsDeltas (timestamps.head?.getD 0) timestamps = some payload →
        payload.length ≤ cap ∧ payload.length < 2 ^ 32) →
      decodeTsPageInto primitives seriesId (UInt32.ofNat timestamps.length) (timestamps.head?.getD 0)
        (timestamps.getLast?.getD 0) page cap out = .ok (out ++ timestamps)) ∧
    (∀ (seriesId : Bytes) (timestamps : List Int64) (runMinTsNs : Int64) (page payload : Bytes),
      frameTsPage primitives seriesId timestamps runMinTsNs = .ok page →
      encodeTsDeltas runMinTsNs timestamps = some payload →
      page.length ≤ (framePage primitives seriesId tsDeltaVarint compNone payload).length) ∧
    ∀ (bytes : Bytes) (count : Nat) (minTsNs maxTsNs : Int64) (out : List Int64),
      ((∃ error, decodeTsDeltasInto bytes count minTsNs maxTsNs out = .error error) ∨
        ∃ deltas values : List Int64, decodeTsDeltasInto bytes count minTsNs maxTsNs out = .ok (out ++ values) ∧
          values.length = count ∧ InBounds minTsNs maxTsNs values ∧
          (deltas.map Int64.toInt).scanl (· + ·) minTsNs.toInt = minTsNs.toInt :: values.map Int64.toInt) ∧
      ((∃ error, decodeTsGcdInto bytes count minTsNs maxTsNs out = .error error) ∨
        ∃ (divisor : Int64) (quotients values : List Int64), 0 < divisor.toInt ∧
          decodeTsGcdInto bytes count minTsNs maxTsNs out = .ok (out ++ values) ∧
          values.length = count ∧ InBounds minTsNs maxTsNs values ∧
          values.map Int64.toInt = quotients.map fun quotient => quotient.toInt * divisor.toInt) ∧
      ∀ base bitWidth payload, forHeader bytes count = .ok (base, bitWidth, payload) → ∀ index < count,
        index * bitWidth < 2 ^ 64 ∧ (0 < bitWidth → index * bitWidth / 8 < payload.length) := by
  refine ⟨?_, ?_, ?_⟩
  · intro seriesId timestamps page cap out sorted counted framed fits
    exact decodeTsPageInto_frameTsPage lossless (inBounds_of_sorted sorted) counted framed fits out
  · intro seriesId timestamps runMinTsNs page payload framed encoded
    obtain ⟨found, isFound, bounded, -⟩ := frameTsPage_cases framed
    rw [encoded, Option.some.injEq] at isFound
    rw [length_framePage, isFound]
    exact bounded
  · intro bytes count minTsNs maxTsNs out
    refine ⟨?_, ?_, fun base bitWidth payload header index => forHeader_positions header⟩
    · cases decoded : decodeTsDeltasInto bytes count minTsNs maxTsNs out with
      | error error => exact .inl ⟨error, rfl⟩
      | ok all =>
        obtain ⟨deltas, values, appended, sums⟩ := decodeTsDeltasLoop_exact decoded
        exact .inr ⟨deltas, values, by rw [appended.whole], appended.length, appended.bounds, sums⟩
    · cases decoded : decodeTsGcdInto bytes count minTsNs maxTsNs out with
      | error error => exact .inl ⟨error, rfl⟩
      | ok all =>
        obtain ⟨divisor, quotients, values, positive, appended, products⟩ := decodeTsGcdInto_exact decoded
        exact .inr ⟨divisor, quotients, values, positive, by rw [appended.whole], appended.length, appended.bounds, products⟩

/-- The checksum over one more byte, by the reversed Castagnoli polynomial. -/
def crc32cStep (crc : UInt32) (byte : UInt8) : UInt32 :=
  (List.range 8).foldl (fun acc _ => if acc &&& 1 = 1 then (acc >>> 1) ^^^ 0x82F63B78 else acc >>> 1) (crc ^^^ byte.toUInt32)

/-- Primitives whose blocks are stored as they are. -/
def storedPrimitives : PagePrimitives where
  compressBlock := id
  decompressInto := fun block _ => .ok block
  crc32c := fun bytes => ~~~bytes.foldl crc32cStep (~~~0)
  crc32cAppend := fun crc bytes => ~~~bytes.foldl crc32cStep (~~~crc)

/-- A reader with a cap of four bytes refuses a page of five deltas. -/
theorem small_cap_refuses_page :
    ∃ page, frameTsPage storedPrimitives [] [0, 1, 2, 3, 4] 0 = .ok page ∧
      decodeTsPageInto storedPrimitives [] 5 0 4 page 4 [] = .error (.pageTooLarge 5 4) := by
  refine ⟨framePage storedPrimitives [] tsDeltaVarint compNone [0, 2, 2, 2, 2], ?_, ?_⟩
  · decide +kernel
  · decide +kernel

/-- Four timestamps on the millisecond, by the page of quotients. -/
theorem timestamp_pages_exact_milliseconds :
    ∃ page, frameTsPage storedPrimitives [] [3000000, 7000000, 9000000, 12000000] 3000000 = .ok page ∧
      decodeTsPageInto storedPrimitives [] 4 3000000 12000000 page 64 [] =
        .ok [3000000, 7000000, 9000000, 12000000] := by
  refine ⟨framePage storedPrimitives [] tsGcdI64 compNone (encodeTsGcd [3000000, 7000000, 9000000, 12000000]), ?_, ?_⟩
  · decide +kernel
  · apply (timestamp_pages_exact storedPrimitives fun _ => rfl).1 [] [3000000, 7000000, 9000000, 12000000] _ 64 []
    · decide +kernel
    · decide
    · decide +kernel
    · intro payload encoded
      have isPayload : encodeTsDeltas 3000000 [3000000, 7000000, 9000000, 12000000] =
          some [0, 128, 164, 232, 3, 128, 146, 244, 1, 128, 155, 238, 2] := by decide +kernel
      cases isPayload.symm.trans encoded
      decide

end Ravel.Segment
