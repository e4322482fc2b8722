import Ravel.Construction.Segment.Histograms
import Ravel.Proof.Logs.CanonicalRoundTrip
import Ravel.Proof.Segment.TimestampPages

namespace Ravel.Segment

open List Codec Library Logs

variable {steps : FloatSteps}

/-- The reader takes back what the writer puts, and leaves what follows. -/
def ReadsBack {Value : Type} (read : Bytes → Except SegmentError (Value × Bytes)) (put : Value → Bytes) : Prop :=
  ∀ value rest, read (put value ++ rest) = .ok (value, rest)

theorem readsBack_uvarint : ReadsBack readUvarint putUvarint :=
  readUvarint_put

theorem readsBack_f64 : ReadsBack takeF64Le toLeBytes := by
  intro value rest
  have length : (toLeBytes value).length = 8 := by rw [toLeBytes, length_map, length_range]
  have taken : takeBytes 8 (toLeBytes value ++ rest) = .ok (toLeBytes value, rest) := by
    rw [takeBytes, if_neg (by rw [length_append, length]; omega), ← length, take_left, drop_left]
  rw [takeF64Le, taken]
  show Except.ok (littleEndian64 (toLeBytes value), rest) = _
  rw [littleEndian64_toLeBytes]

theorem readEach_units {Value : Type} {read : Bytes → Except SegmentError (Value × Bytes)} {put : Value → Bytes}
    {values : List Value} (reads : ∀ value ∈ values, ∀ rest, read (put value ++ rest) = .ok (value, rest)) (rest : Bytes) :
    readEach (fun _ => read) (units values.length) (values.flatMap put ++ rest) = .ok (values, rest) := by
  induction values with
  | nil => rfl
  | cons value values ih =>
    have later := ih fun other member => reads other (mem_cons_of_mem _ member)
    rw [length_cons, units, replicate_succ, readEach, flatMap_cons, append_assoc, reads value mem_cons_self]
    show (readEach (fun _ => read) (units values.length) _ >>= _) = _
    rw [later]
    rfl

theorem narrowI32_toInt64 (value : Int32) : narrowI32 value.toInt64 = .ok value := by
  have least := value.le_toInt
  have most := value.toInt_lt
  have same : value.toInt64.toInt = value.toInt := Int32.toInt_toInt64 value
  rw [narrowI32, if_pos (by omega), Int32.toInt32_toInt64]

/-- The bytes of one span. -/
def spanBytes (span : HistogramSpan) : Bytes :=
  putIvarint span.offset.toInt64 ++ putUvarint span.length.toUInt64

theorem decodeHistSpansLoop_put {spans : List HistogramSpan} {total sum : Nat} (checked : spansSideLen spans total = .ok sum)
    (rest : Bytes) : decodeHistSpansLoop spans.length total (spans.flatMap spanBytes ++ rest) = .ok (spans, sum, rest) := by
  induction spans generalizing total with
  | nil =>
    cases checked
    rfl
  | cons span spans ih =>
    rw [spansSideLen] at checked
    obtain ⟨positive, checked⟩ := ok_of_guard checked
    split at checked
    · rename_i fits
      have length : span.length.toUInt64.toNat = span.length.toNat := UInt32.toNat_toUInt64 _
      have bound := span.length.toNat_lt
      have nonzero : ¬span.length.toUInt64 = 0 := by
        intro zero
        apply positive
        apply UInt32.toNat_inj.mp
        rw [← length, zero]
        rfl
      rw [length_cons, decodeHistSpansLoop, flatMap_cons, spanBytes, append_assoc, append_assoc,
        readZigzagVarint_put]
      show (narrowI32 span.offset.toInt64 >>= _) = _
      rw [narrowI32_toInt64]
      show (readUvarint _ >>= _) = _
      rw [readUvarint_put]
      show (if span.length.toUInt64 = 0 then _ else if 2 ^ 32 ≤ span.length.toUInt64.toNat then _ else
        if 2 ^ 64 ≤ total + span.length.toUInt64.toNat then _ else _) = _
      rw [if_neg nonzero, length, if_neg (by omega), if_neg (by omega), ih checked,
        UInt32.toUInt32_toUInt64]
      rfl
    · cases checked

theorem decodeHistSpans_put {spans : List HistogramSpan} {sum : Nat} (checked : spansSideLen spans 0 = .ok sum)
    (counted : spans.length < 2 ^ 64) (rest : Bytes) : decodeHistSpans (writeSideSpans spans ++ rest) = .ok (spans, sum, rest) := by
  rw [decodeHistSpans, writeSideSpans, append_assoc, readUvarint_put]
  show decodeHistSpansLoop (UInt64.ofNat spans.length).toNat 0 (spans.flatMap spanBytes ++ rest) = _
  rw [toNat_ofNat_of_lt counted]
  exact decodeHistSpansLoop_put checked rest

theorem decodeSum_put (sum : Option UInt64) (rest : Bytes) :
    decodeSum sum.isSome ((sum.map toLeBytes).getD [] ++ rest) = .ok (sum, rest) := by
  cases sum with
  | none => rfl
  | some sum =>
    show (takeF64Le (toLeBytes sum ++ rest) >>= _) = _
    rw [readsBack_f64]
    rfl

/-- The bytes of custom bounds. -/
def boundBytes (bounds : List UInt64) : Bytes :=
  putUvarint (UInt64.ofNat bounds.length) ++ bounds.flatMap toLeBytes

theorem decodeCustomValues_put {scale : Int32} {customValues : Option (List UInt64)}
    (checked : checkCustomValues steps scale customValues = .ok ())
    (counted : ∀ bounds, customValues = some bounds → bounds.length < 2 ^ 64) (rest : Bytes) :
    decodeCustomValues steps scale ((customValues.map boundBytes).getD [] ++ rest) = .ok (customValues, rest) := by
  cases customValues with
  | none =>
    rw [checkCustomValues] at checked
    obtain ⟨exponential, checked⟩ := ok_of_guard checked
    rw [decodeCustomValues, if_neg exponential]
    rfl
  | some bounds =>
    rw [checkCustomValues] at checked
    obtain ⟨custom, checked⟩ := ok_of_guard checked
    push Not at custom
    split at checked
    · rename_i ascending
      have length := toNat_ofNat_of_lt (counted bounds rfl)
      have nonzero : ¬UInt64.ofNat bounds.length = 0 := by
        intro zero
        rw [zero] at length
        exact custom.2 (eq_nil_of_length_eq_zero length.symm)
      rw [decodeCustomValues, if_pos custom.1]
      show (readUvarint (boundBytes bounds ++ rest) >>= _) = _
      rw [boundBytes, append_assoc, readUvarint_put]
      show (if UInt64.ofNat bounds.length = 0 then _ else decodeHistFloatCounts _ (UInt64.ofNat bounds.length).toNat >>= _) = _
      rw [if_neg nonzero, length, decodeHistFloatCounts, readEach_units fun value _ => readsBack_f64 value]
      show (if ascendingBounds steps bounds = true then _ else _) = _
      rw [if_pos ascending]
      rfl
    · cases checked

/-- What the writer checks of a value, whatever its counts are. -/
structure Accepted (steps : FloatSteps) (value : HistogramValue) : Prop where
  scale : ¬value.scale < -53
  customValues : checkCustomValues steps value.scale value.customValues = .ok ()
  positive : spansSideLen value.positiveSpans 0 = .ok value.counts.positive.length
  negative : spansSideLen value.negativeSpans 0 = .ok value.counts.negative.length
  counts : checkCounts steps value.counts value.counts.positive.length value.counts.negative.length = .ok ()

theorem checkCounts_lengths {counts : HistogramCounts} {positiveExpected negativeExpected : Nat}
    (checked : checkCounts steps counts positiveExpected negativeExpected = .ok ()) :
    counts.positive.length = positiveExpected ∧ counts.negative.length = negativeExpected := by
  cases counts with
  | int zeroCount count positive negative =>
    rw [checkCounts] at checked
    obtain ⟨same, checked⟩ := ok_of_guard checked
    push Not at same
    exact same
  | float zeroCount count positive negative =>
    rw [checkCounts] at checked
    obtain ⟨same, checked⟩ := ok_of_guard checked
    push Not at same
    exact same

theorem accepted_of_checked {value : HistogramValue} (checked : checkHistogram steps value = .ok ()) : Accepted steps value := by
  rw [checkHistogram] at checked
  obtain ⟨scale, checked⟩ := ok_of_guard checked
  obtain ⟨⟨⟩, customValues, checked⟩ := ok_of_bind checked
  obtain ⟨positiveExpected, positive, checked⟩ := ok_of_bind checked
  obtain ⟨negativeExpected, negative, checked⟩ := ok_of_bind checked
  obtain ⟨rfl, rfl⟩ := checkCounts_lengths checked
  exact ⟨scale, customValues, positive, negative, checked⟩

/-- The lengths of a record fit in a varint. -/
structure Addressed (value : HistogramValue) : Prop where
  customValues : ∀ bounds, value.customValues = some bounds → bounds.length < 2 ^ 64
  positive : value.positiveSpans.length < 2 ^ 64
  negative : value.negativeSpans.length < 2 ^ 64

theorem length_le_writeSideSpans (spans : List HistogramSpan) : spans.length ≤ (writeSideSpans spans).length := by
  have each : ∀ span : HistogramSpan, 1 ≤ (spanBytes span).length := by
    intro span
    have written := length_pos_of_ne_nil (putIvarint_ne_nil span.offset.toInt64)
    rw [spanBytes, length_append]
    omega
  have all : spans.length ≤ (spans.flatMap spanBytes).length := by
    rw [length_flatMap]
    calc
      spans.length = (spans.map fun _ => 1).sum := by simp
      _ ≤ (spans.map fun span => (spanBytes span).length).sum := sum_le_sum fun span _ => each span
  show _ ≤ (putUvarint _ ++ spans.flatMap spanBytes).length
  rw [length_append]
  omega

theorem addressed_of_length {value : HistogramValue} (short : (histogramRecord value).length < 2 ^ 64) : Addressed value := by
  have positive := length_le_writeSideSpans value.positiveSpans
  have negative := length_le_writeSideSpans value.negativeSpans
  simp only [histogramRecord, length_cons, length_append] at short
  refine ⟨?_, by omega, by omega⟩
  intro bounds isBounds
  have eachBound : (bounds.flatMap toLeBytes).length = 8 * bounds.length := by
    rw [length_flatMap]
    simp [toLeBytes, Nat.mul_comm]
  rw [isBounds] at short
  simp only [Option.map_some, Option.getD_some, length_append] at short
  omega

section Records

variable {value : HistogramValue}

/-- The layout that both kinds of counts share is read back. -/
theorem decodeCounted_put (accepted : Accepted steps value) (addressed : Addressed value)
    {readCount : Bytes → Except SegmentError (UInt64 × Bytes)} (reads : ReadsBack readCount value.counts.putCount)
    {check : UInt64 → UInt64 → List UInt64 → List UInt64 → Except SegmentError Unit}
    (checked : check value.counts.zeroCount value.counts.count value.counts.positive value.counts.negative = .ok ())
    {counted : UInt64 → UInt64 → List UInt64 → List UInt64 → HistogramCounts}
    (same : counted value.counts.zeroCount value.counts.count value.counts.positive value.counts.negative = value.counts)
    (rest : Bytes) :
    decodeCounted steps ⟨value.scale, value.zeroThreshold, value.sum.isSome, value.resetHint⟩ readCount
      (fun bytes count => readEach (fun _ => readCount) (units count) bytes) check counted
      (value.counts.putCount value.counts.zeroCount ++ (value.counts.putCount value.counts.count ++
        ((value.sum.map toLeBytes).getD [] ++ ((value.customValues.map boundBytes).getD [] ++
          (writeSideSpans value.positiveSpans ++ (value.counts.positive.flatMap value.counts.putCount ++
            (writeSideSpans value.negativeSpans ++ (value.counts.negative.flatMap value.counts.putCount ++ rest)))))))) =
      .ok (value, rest) := by
  rw [decodeCounted, reads]
  show (readCount _ >>= _) = _
  rw [reads]
  show (decodeSum value.sum.isSome _ >>= _) = _
  rw [decodeSum_put]
  show (decodeCustomValues steps value.scale _ >>= _) = _
  rw [decodeCustomValues_put accepted.customValues addressed.customValues]
  show (decodeSides _ _ >>= _) = _
  have sides : decodeSides (fun bytes count => readEach (fun _ => readCount) (units count) bytes)
      (writeSideSpans value.positiveSpans ++ (value.counts.positive.flatMap value.counts.putCount ++
        (writeSideSpans value.negativeSpans ++ (value.counts.negative.flatMap value.counts.putCount ++ rest)))) =
      .ok ((value.positiveSpans, value.counts.positive), (value.negativeSpans, value.counts.negative), rest) := by
    rw [decodeSides, decodeHistSpans_put accepted.positive addressed.positive]
    show (readEach (fun _ => readCount) (units value.counts.positive.length) _ >>= _) = _
    rw [readEach_units fun count _ => reads count]
    show (decodeHistSpans _ >>= _) = _
    rw [decodeHistSpans_put accepted.negative addressed.negative]
    show (readEach (fun _ => readCount) (units value.counts.negative.length) _ >>= _) = _
    rw [readEach_units fun count _ => reads count]
    rfl
  rw [sides]
  show (check value.counts.zeroCount value.counts.count value.counts.positive value.counts.negative >>= _) = _
  rw [checked]
  show Except.ok _ = _
  rw [same]

theorem counts_cases (counts : HistogramCounts) :
    (∃ zeroCount count positive negative, counts = .int zeroCount count positive negative) ∨
      ∃ zeroCount count positive negative, counts = .float zeroCount count positive negative := by
  cases counts with
  | int zeroCount count positive negative => exact .inl ⟨zeroCount, count, positive, negative, rfl⟩
  | float zeroCount count positive negative => exact .inr ⟨zeroCount, count, positive, negative, rfl⟩

theorem checkIntCounts_of_checkCounts {zeroCount count : UInt64} {positive negative : List UInt64}
    (checked : checkCounts steps (.int zeroCount count positive negative) positive.length negative.length = .ok ()) :
    checkIntCounts zeroCount count positive negative = .ok () := by
  rw [checkCounts, if_neg (by simp)] at checked
  rw [checkIntCounts]
  split at checked
  · cases checked
  · obtain ⟨consistent, checked⟩ := ok_of_guard checked
    rw [if_neg consistent]

theorem checkFloatCounts_of_checkCounts {zeroCount count : UInt64} {positive negative : List UInt64}
    (checked : checkCounts steps (.float zeroCount count positive negative) positive.length negative.length = .ok ()) :
    checkFloatCounts steps zeroCount count positive negative = .ok () := by
  rw [checkCounts, if_neg (by simp)] at checked
  rw [checkFloatCounts]
  obtain ⟨consistent, checked⟩ := ok_of_guard checked
  rw [if_neg consistent]

theorem histogramFlags_read (value : HistogramValue) :
    histogramFlags value >>> 4 = 0 ∧ ((histogramFlags value >>> 1) &&& 1 = 1 ↔ value.sum.isSome = true) ∧
      resetHintOf ((histogramFlags value >>> 2) &&& 3) = value.resetHint ∧ histogramFlags value &&& 1 = value.counts.kind := by
  have kinds : value.counts.kind = 0 ∨ value.counts.kind = 1 := by
    cases value.counts with
    | int => exact .inl rfl
    | float => exact .inr rfl
  rw [histogramFlags]
  rcases kinds with kind | kind <;> rw [kind] <;> cases value.sum.isSome <;> cases value.resetHint <;> decide

theorem decodeHistogramRecord_put (accepted : Accepted steps value) (addressed : Addressed value) (rest : Bytes) :
    decodeHistogramRecord steps (histogramRecord value ++ rest) = .ok (value, rest) := by
  obtain ⟨reserved, hasSum, resetHint, kind⟩ := histogramFlags_read value
  have flagged : decide ((histogramFlags value >>> 1) &&& 1 = 1) = value.sum.isSome := by
    rw [Bool.eq_iff_iff, decide_eq_true_iff, hasSum]
  rw [decodeHistogramRecord, histogramRecord, cons_append]
  show (if histogramFlags value >>> 4 ≠ 0 then _ else _) = _
  rw [if_neg (not_not_intro reserved)]
  simp only [append_assoc]
  rw [readZigzagVarint_put]
  show (narrowI32 value.scale.toInt64 >>= _) = _
  rw [narrowI32_toInt64]
  show (if value.scale < -53 then _ else _) = _
  rw [if_neg accepted.scale]
  show (takeF64Le _ >>= _) = _
  rw [readsBack_f64]
  show (if histogramFlags value &&& 1 = 0 then
      decodeCounted steps ⟨value.scale, value.zeroThreshold, decide (_ = 1), resetHintOf _⟩ _ _ _ _ _ else
      decodeCounted steps ⟨value.scale, value.zeroThreshold, decide (_ = 1), resetHintOf _⟩ _ _ _ _ _) = _
  rw [flagged, resetHint, kind]
  have checked := accepted.counts
  rcases counts_cases value.counts with ⟨zeroCount, count, positive, negative, isInt⟩ | ⟨zeroCount, count, positive, negative, isFloat⟩
  · have isKind : value.counts.kind = 0 := by rw [isInt]; rfl
    rw [if_pos isKind]
    apply decodeCounted_put accepted addressed
    · rw [isInt]
      exact readsBack_uvarint
    · rw [isInt] at checked ⊢
      exact checkIntCounts_of_checkCounts checked
    · rw [isInt]
      rfl
  · have isKind : ¬value.counts.kind = 0 := by
      rw [isFloat]
      show ¬(1 : UInt8) = 0
      decide
    rw [if_neg isKind]
    apply decodeCounted_put accepted addressed
    · rw [isFloat]
      exact readsBack_f64
    · rw [isFloat] at checked ⊢
      exact checkFloatCounts_of_checkCounts checked
    · rw [isFloat]
      rfl

end Records

/-- A run of the writer accepts every value and lays their records end to end. -/
theorem foldlM_records {values : List HistogramValue} {out payload : Bytes}
    (encoded : values.foldlM (encodeHistogramRecordInto steps) out = .ok payload) :
    (∀ value ∈ values, Accepted steps value) ∧ payload = out ++ values.flatMap histogramRecord := by
  induction values generalizing out with
  | nil =>
    cases encoded
    exact ⟨by simp, by simp⟩
  | cons value values ih =>
    rw [foldlM_cons] at encoded
    obtain ⟨next, first, later⟩ := ok_of_bind encoded
    obtain ⟨⟨⟩, checked, returned⟩ := ok_of_bind first
    cases returned
    obtain ⟨accepted, whole⟩ := ih later
    refine ⟨?_, by rw [whole, flatMap_cons, append_assoc]⟩
    intro other member
    rcases mem_cons.mp member with rfl | inRest
    · exact accepted_of_checked checked
    · exact accepted other inRest

theorem length_record_le {values : List HistogramValue} {value : HistogramValue} (member : value ∈ values) :
    (histogramRecord value).length ≤ (values.flatMap histogramRecord).length := by
  rw [length_flatMap]
  exact single_le_sum (by simp) _ (mem_map_of_mem member)

/-- A record that the writer accepts is read back whatever follows it, and so is a page of such records where it fits the cap of the
reader. -/
theorem histogram_pages_read_back (primitives : PagePrimitives) (steps : FloatSteps) :
    (∀ (value : HistogramValue) (record rest : Bytes), encodeHistogramRecordInto steps [] value = .ok record → record.length < 2 ^ 63 →
      decodeHistogramRecord steps (record ++ rest) = .ok (value, rest)) ∧
    ∀ (seriesId : Bytes) (values : List HistogramValue) (page : Bytes) (cap : Nat),
      frameHistPage primitives steps seriesId values = .ok page → values.length < 2 ^ 32 → page.length < 2 ^ 63 →
      page.length ≤ cap + 6 →
      decodeHistPageInto primitives steps seriesId (UInt32.ofNat values.length) page cap = .ok values := by
  constructor
  · intro value record rest encoded short
    obtain ⟨⟨⟩, checked, returned⟩ := ok_of_bind encoded
    cases returned
    rw [nil_append] at short ⊢
    exact decodeHistogramRecord_put (accepted_of_checked checked) (addressed_of_length (by omega)) rest
  · intro seriesId values page cap framed counted short fits
    obtain ⟨payload, encoded, returned⟩ := ok_of_bind framed
    cases returned
    obtain ⟨accepted, whole⟩ := foldlM_records encoded
    rw [nil_append] at whole
    rw [length_framePage] at short fits
    have reads : ∀ value ∈ values, ∀ rest, decodeHistogramRecord steps (histogramRecord value ++ rest) = .ok (value, rest) := by
      intro value member
      have bound := length_record_le member
      rw [← whole] at bound
      exact decodeHistogramRecord_put (accepted value member) (addressed_of_length (by omega))
    have records := readEach_units reads []
    rw [append_nil, ← whole] at records
    have count : (UInt32.ofNat values.length).toNat = values.length := by
      rw [UInt32.toNat_ofNat']
      exact Nat.mod_eq_of_lt counted
    rw [decodeHistPageInto, splitPageHeader_framePage]
    show (decompressPagePayload primitives compNone payload cap >>= _) = _
    rw [decompress_none primitives (by omega)]
    show (readEach (fun _ => decodeHistogramRecord steps) (units (UInt32.ofNat values.length).toNat) payload >>= _) = _
    rw [count, records]
    rfl

/-- One bucket with one sample. -/
def singleBucket : HistogramValue where
  scale := 3
  zeroThreshold := 0
  sum := none
  customValues := none
  positiveSpans := [⟨0, 1⟩]
  negativeSpans := []
  counts := .int 0 1 [1] []
  resetHint := .unknown

/-- A reader with a cap of four bytes refuses the page of one histogram. -/
theorem small_cap_refuses_histograms :
    ∃ page, frameHistPage storedPrimitives ⟨fun _ _ => false, fun _ => 0⟩ [] [singleBucket] = .ok page ∧
      decodeHistPageInto storedPrimitives ⟨fun _ _ => false, fun _ => 0⟩ [] 1 page 4 = .error (.pageTooLarge 17 4) := by
  refine ⟨framePage storedPrimitives [] histSpans compNone (histogramRecord singleBucket), ?_, ?_⟩
  · decide +kernel
  · decide +kernel

end Ravel.Segment
